import Dumb.Config.Lemmas.Update

/-!
# What a request commits
-/

namespace Dumb.Config

open Py Py.Json

variable (env : Env) (request : Request)

def Guarded (before after : Json) : Prop :=
  (∃ key, (key = infinidyskKey ∨ key = "postgres") ∧ after.field key ≠ before.field key) →
    (orEmpty (before.field infinidyskKey)).isObj = true → (orEmpty (after.field infinidyskKey)).isObj = true →
      env.accepts (orEmpty (before.field infinidyskKey)) (orEmpty (after.field infinidyskKey))
        (orEmpty (before.field "postgres")) (orEmpty (after.field "postgres")) = true

def ServiceValidated (before after : Json) : Prop :=
  ∃ path schema members, at? path before = some (.obj members) ∧
    after = setPath (.obj (assignAll request.updates members)) path before ∧
    env.schemaAt path = some schema ∧ env.validate (.obj (assignAll request.updates members)) schema = true

def Prepared (updates : Members) : Prop :=
  ∃ config config' kept kept', (notificationSecrets env.text).preserve request.updates config = some kept ∧
    (mediaProtectionSecrets env.text).preserve kept config' = some kept' ∧ normalizeLegacyGlobalConfig kept' = some updates

def GlobalValidated (before after : Json) : Prop :=
  ∃ updates normal, Prepared env request updates ∧
    normalizeLegacyGlobalConfig (deepMergeDict updates (membersOf before)) = some normal ∧
    after = .obj normal ∧ env.validate after env.schema = true

def Validated (before after : Json) : Prop :=
  (match request.service with
    | some _ => ServiceValidated env request before after
    | none => GlobalValidated env request before after) ∧ Guarded env before after

variable {env request}

theorem orEmpty_obj (members : Members) : orEmpty (.obj members) = .obj members := by
  cases members <;> rfl

theorem accepts_self (current candidate postgres : Json) :
    env.accepts current candidate postgres .null = env.accepts current candidate postgres postgres := by
  simp only [Env.accepts, ite_self]
  rfl

variable {path : List String}

theorem field_setPath_head {value : Json} {k q : String} {j : Json} (h : k ≠ q) :
    field k (setPath value (q :: path) j) = field k j := by
  cases j <;> simp [setPath, field_set, h]

theorem field_setPath_self {value : Json} {k : String} {j : Json} (h : j.isObj = true) :
    field k (setPath value [k] j) = value := by
  cases j <;> simp_all [setPath, isObj, field_set]

theorem bind_ok {ε α β : Type} {x : Except ε α} {f : α → Except ε β} {b : β} (h : x >>= f = .ok b) :
    ∃ a, x = .ok a ∧ f a = .ok b := by
  cases x with
  | error e => cases h
  | ok a => exact ⟨a, rfl, h⟩

variable {name : String}

theorem findServiceMember_ne_nil : ∀ {config : Members} {path : List String},
    findServiceMember name config = .ok (some path) → path ≠ []
  | (key, value) :: config, path, h => by
    rw [findServiceMember] at h
    split at h
    · cases h
      simp
    · obtain ⟨i, -, hrest⟩ := bind_ok h
      cases i with
      | some i =>
        cases hrest
        simp
      | none =>
        obtain ⟨below, -, hbelow⟩ := bind_ok hrest
        cases below with
        | some below =>
          cases hbelow
          simp
        | none => exact findServiceMember_ne_nil hbelow

theorem findServiceConfig_ne_nil {config : Json}
    (h : findServiceConfig name config = .ok (some path)) : path ≠ [] := by
  cases config with
  | obj members => exact findServiceMember_ne_nil h
  | _ => cases h

theorem guarded_service {members merged : Members} {s : Live} {key i : Option String}
    (hname : request.service = some name) (hpath : path ≠ []) (hfound : s.found = some ⟨path, none⟩) (hdict : s.config.isObj = true)
    (hat : at? path s.config = some (.obj members)) (hkey : findKeyForProcess name (membersOf s.config) = .ok (key, i))
    (hplaced : Placed request s) (hsafe : guardsService env key merged s = true) :
    Guarded env s.config (setPath (.obj merged) path s.config) := by
  rintro ⟨k, hk, hne⟩ hcurrent hcandidate
  have hservice : s.service = members := by simp [Live.service, hfound, getPath_at? hat, membersOf]
  have hhead : path.head? = some k := by
    cases path with
    | nil => exact absurd rfl hpath
    | cons q path =>
      by_contra hq
      exact hne (field_setPath_head fun he => hq (congrArg some he.symm))
  obtain ⟨rfl, i', hkey'⟩ := hplaced path hfound k hhead hk
  rw [hname] at hkey'
  obtain ⟨rfl, rfl⟩ : key = some k ∧ i = i' := by simpa using hkey.symm.trans hkey'
  have hget : field k s.config = .obj members := by simpa using getPath_at? hat
  rcases hk with rfl | rfl
  · simp only [guardsService, if_true, hservice] at hsafe
    rw [hget, field_setPath_self hdict, orEmpty_obj, orEmpty_obj, field_setPath_head (by decide), ← accepts_self]
    exact hsafe
  · have hpostgres : (some "postgres" : Option String) ≠ some infinidyskKey := by decide
    simp only [guardsService, hpostgres, if_false, if_true, hservice, hcurrent, Bool.not_true, Bool.false_or] at hsafe
    rw [hget, field_setPath_self hdict, orEmpty_obj, orEmpty_obj, field_setPath_head (by decide)]
    exact hsafe

theorem guarded_global {updates target normal : Members} {s : Live} (hnodup : (Dict.keys updates).Nodup)
    (hconfig : s.config = .obj target) (hlegacy : Dict.get? infinidyskLegacyKey target = none)
    (hlegacy' : Dict.get? infinidyskLegacyKey updates = none)
    (hnormal : normalizeLegacyGlobalConfig (deepMergeDict updates target) = some normal)
    (hobj : ∀ v, Dict.get? infinidyskKey normal = some v → v.isObj = true)
    (hsafe : (!((field infinidyskKey (.obj updates)).isObj || (Dict.keys updates).contains "postgres") ||
      guardsGlobal env normal s) = true) : Guarded env s.config (.obj normal) := by
  rintro ⟨k, hk, hne⟩ hcurrent hcandidate
  have hmerged : Dict.get? infinidyskLegacyKey (deepMergeDict updates target) = none := by
    rw [get?_deepMerge hnodup, hlegacy', hlegacy]
  have hget : ∀ q, q ≠ "riven_backend" → Dict.get? q normal =
      (Dict.get? q updates).elim (Dict.get? q target) fun value => some (mergeValue value (field q (.obj target))) := by
    intro q hq
    apply (get?_normalize hnormal hmerged hq).trans ((get?_deepMerge hnodup).trans _)
    cases Dict.get? q updates <;> rfl
  have hguarded : ((field infinidyskKey (.obj updates)).isObj || (Dict.keys updates).contains "postgres") = true := by
    rcases hk with rfl | rfl
    · have hk := hget infinidyskKey (by decide)
      cases hu : Dict.get? infinidyskKey updates with
      | none =>
        rw [hu] at hk
        exact absurd (by simp [field, hconfig, hk]) hne
      | some v =>
        rw [hu] at hk
        cases v with
        | obj _ => simp [field, hu, isObj]
        | _ =>
          simp only [Option.elim_some, mergeValue] at hk
          exact absurd (hobj _ hk) (by simp [isObj])
    · have hk := hget "postgres" (by decide)
      cases hu : Dict.get? "postgres" updates with
      | none =>
        rw [hu] at hk
        exact absurd (by simp [field, hconfig, hk]) hne
      | some v =>
        have hmem : "postgres" ∈ Dict.keys updates := Dict.mem_keys.2 (by simp [hu])
        simp [hmem]
  simp only [hguarded, Bool.not_true, Bool.false_or, guardsGlobal, hcurrent, hcandidate, Bool.and_self] at hsafe
  exact hsafe

theorem normalize_legacy {config normal : Members} (h : normalizeLegacyGlobalConfig config = some normal) :
    Dict.get? infinidyskLegacyKey normal = none := by
  simp only [normalizeLegacyGlobalConfig] at h
  split at h
  · cases h
  · cases h
    rw [get?_modify, if_neg (by decide)]
    split
    · rw [Dict.get?_set_ne (by decide), Dict.get?_erase, if_pos rfl]
    · rw [Dict.get?_erase, if_pos rfl]

variable {s t : Live} {tr : Trace} {r : Except Refusal Unit}

theorem service_commits {schema : Json} {merged : Members} {key i : Option String}
    (hname : request.service = some name) (hpath : path ≠ []) (hs : s.stage = .locked)
    (hfound : s.found.map (·.path) = some path) (hmerged : merged = assignAll request.updates s.service)
    (hschema : env.schemaAt path = some schema) (hvalid : env.validate (.obj merged) schema = true)
    (hkey : findKeyForProcess name (membersOf s.config) = .ok (key, i))
    (h : (do
      let safe ← Thread.read (guardsService env key merged)
      Thread.require safe .unsafeChange
      assignKeys (env.allowedKeys path) request.updates
      Thread.modify fun s => { s with stage := .saving }
      if request.persist then saveProcess env name else pure () : Handling Unit).Beside (Undisturbed env request) s tr r t) :
    Exact (Validated env request) r tr := by
  obtain ⟨s₁, tr₁, h₁, rfl, hk₁⟩ := h.read_bind
  apply Exact.read
  obtain ⟨hs₁, hsame₁⟩ := h₁.locked hs
  rcases hk₁.require_bind with ⟨hsafe, hk₂⟩ | ⟨-, rfl, rfl, -⟩
  swap
  · exact Exact.refused _
  have hfound₁ : s₁.found.map (·.path) = some path := hsame₁.found ▸ hfound
  obtain ⟨f, hf, rfl⟩ := Option.map_eq_some_iff.1 hfound₁
  obtain ⟨u, during, after, s₂, hassign, hk₃, rfl⟩ | ⟨e, hassign, -⟩ := hk₂.bind
  swap
  · cases (assignKeys_spec rfl (fun _ => id) hs₁ hfound₁ hassign).1
  obtain ⟨-, hs₂, hall, hfile⟩ := assignKeys_spec rfl (fun _ => id) hs₁ hfound₁ hassign
  have hafter : r = .ok () ∧ ∀ p ∈ after, p.2.config = p.1.config := by
    obtain ⟨s₃, tr₃, h₃, rfl, hk₄⟩ := hk₃.modify_bind
    split at hk₄
    · obtain ⟨hr, hconfig⟩ := saveProcess_spec hname rfl hk₄
      exact ⟨hr, by simpa using hconfig⟩
    · obtain ⟨rfl, rfl, rfl⟩ := Thread.Beside.pure_iff.1 hk₄
      exact ⟨rfl, by simp⟩
  obtain ⟨rfl, hconfig⟩ := hafter
  apply Exact.commit hfile hconfig
  intro b hb a ha
  have hbefore : Same s₁ b.1 := by
    obtain ⟨x, hx⟩ := List.head?_eq_some_iff.1 hb
    subst hx
    exact (hassign.head.locked hs₁).2
  have hleft : a.2.config = (s₁.assignAll request.updates).config := by
    rw [hassign.last a ha, hall.config]
  obtain ⟨path, apart⟩ := f
  cases apart with
  | some members => exact .inl (by rw [hleft, assignAll_apart hf, hbefore.config])
  | none =>
    obtain ⟨-, members, hat⟩ := h₁.inside path hf
    have hservice : s₁.service = members := by simp [Live.service, hf, getPath_at? hat, membersOf]
    have hmerged₁ : merged = assignAll request.updates members := by rw [hmerged, ← hsame₁.service, hservice]
    have hset : a.2.config = setPath (.obj merged) path s₁.config := by
      rw [hleft, assignAll_inside hf hat, hmerged₁]
    right
    rw [hset, hbefore.config]
    refine ⟨?_, guarded_service hname hpath hf h₁.config hat (hsame₁.config ▸ hkey) (h₁.placed hs) hsafe⟩
    rw [hname]
    exact ⟨path, schema, members, hat, by rw [hmerged₁], hschema, hmerged₁ ▸ hvalid⟩

theorem service_exact (hname : request.service = some name)
    (h : (updateService env name request.updates request.persist).Beside (Undisturbed env request) s tr r t) :
    Exact (Validated env request) r tr := by
  obtain ⟨s₁, tr₁, h₁, rfl, hk₁⟩ := h.update_bind
  cases hfind : findServiceConfig name s₁.config with
  | error e =>
    simp only [hfind] at hk₁ ⊢
    obtain ⟨rfl, rfl, -⟩ := Thread.Beside.raise_iff.1 hk₁
    exact (Exact.refused e).read
  | ok found =>
    cases found with
    | none =>
      simp only [hfind] at hk₁ ⊢
      obtain ⟨rfl, rfl, -⟩ := Thread.Beside.raise_iff.1 hk₁
      exact (Exact.refused _).read
    | some path =>
      simp only [hfind] at hk₁ ⊢
      refine Exact.cons ?_ rfl rfl
      rcases required_bind (hk₁ : Thread.Beside _ (_ >>= _) _ _ _ _) with ⟨schema, hschema, hk₂⟩ | ⟨-, rfl, rfl, -⟩
      swap
      · exact Exact.refused _
      rcases hk₂.require_bind with ⟨-, hk₃⟩ | ⟨-, rfl, rfl, -⟩
      swap
      · exact Exact.refused _
      obtain ⟨s₂, tr₂, h₂, rfl, hk₄⟩ := hk₃.update_bind
      refine Exact.cons ?_ rfl rfl
      rcases hk₄.require_bind with ⟨hvalid, hk₅⟩ | ⟨-, rfl, rfl, -⟩
      swap
      · exact Exact.refused _
      obtain ⟨s₃, tr₃, h₃, rfl, hk₆⟩ := hk₅.read_bind
      refine Exact.read ?_
      obtain ⟨hconfig₃, hfound₃⟩ := h₃.quiet (.inl rfl)
      rcases hk₆.ofExcept_bind with ⟨⟨key, i⟩, hkey, hk₇⟩ | ⟨e, -, rfl, rfl, -⟩
      swap
      · exact Exact.refused _
      obtain ⟨s₄, tr₄, h₄, rfl, hk₈⟩ := hk₇.modify_bind
      refine Exact.cons ?_ rfl rfl
      obtain ⟨hconfig₄, hfound₄⟩ := h₄.quiet (.inl h₃.stage)
      rcases hk₈.require_bind with ⟨-, hk₉⟩ | ⟨-, rfl, rfl, -⟩
      swap
      · exact Exact.refused _
      have hsame : Same s₂ s₄ := ⟨hconfig₄.trans hconfig₃, hfound₄.trans hfound₃⟩
      have hfound : s₄.found.map (·.path) = some path := (congrArg _ hsame.found).trans h₂.path
      have hmerged : assignAll request.updates s₂.service = assignAll request.updates s₄.service := by
        rw [hsame.service]
      have hkey₄ : findKeyForProcess name (membersOf s₄.config) = .ok (key, i) := by rw [hconfig₄, hkey]
      have hservice : { s₄ with stage := .locked }.service = s₄.service := rfl
      exact service_commits (s := { s₄ with stage := .locked }) hname (findServiceConfig_ne_nil hfind) rfl hfound
        (hmerged.trans (hservice ▸ rfl)) hschema hvalid hkey₄ hk₉

theorem global_exact (hkeys : (Dict.keys request.updates).Nodup)
    (hobjects : ∀ config, env.validate (.obj config) env.schema = true →
      ∀ v, Dict.get? infinidyskKey config = some v → v.isObj = true)
    (hname : request.service = none)
    (h : (updateGlobal env request.updates).Beside (Undisturbed env request) s tr r t) :
    Exact (Validated env request) r tr := by
  obtain ⟨s₁, tr₁, h₁, rfl, hk₁⟩ := h.read_bind
  refine Exact.read ?_
  rcases required_bind hk₁ with ⟨kept, hkept, hk₂⟩ | ⟨-, rfl, rfl, -⟩
  swap
  · exact Exact.refused _
  obtain ⟨s₂, tr₂, h₂, rfl, hk₃⟩ := hk₂.read_bind
  refine Exact.read ?_
  rcases required_bind hk₃ with ⟨kept', hkept', hk₄⟩ | ⟨-, rfl, rfl, -⟩
  swap
  · exact Exact.refused _
  rcases required_bind hk₄ with ⟨updates, hupdates, hk₅⟩ | ⟨-, rfl, rfl, -⟩
  swap
  · exact Exact.refused _
  rcases hk₅.require_bind with ⟨-, hk₆⟩ | ⟨-, rfl, rfl, -⟩
  swap
  · exact Exact.refused _
  rcases hk₆.ofExcept_bind with ⟨-, -, hk₇⟩ | ⟨e, -, rfl, rfl, -⟩
  swap
  · exact Exact.refused _
  obtain ⟨s₃, tr₃, h₃, rfl, hk₈⟩ := hk₇.update_bind
  refine Exact.cons ?_ rfl rfl
  rcases required_bind hk₈ with ⟨normal, hnormal, hk₉⟩ | ⟨-, rfl, rfl, -⟩
  swap
  · exact Exact.refused _
  rcases hk₉.require_bind with ⟨hvalid, hk₁₀⟩ | ⟨-, rfl, rfl, -⟩
  swap
  · exact Exact.refused _
  obtain ⟨s₄, tr₄, h₄, rfl, hk₁₁⟩ := hk₁₀.modify_bind
  refine Exact.cons ?_ rfl rfl
  obtain ⟨hconfig₄, -⟩ := h₄.quiet (.inl rfl)
  rcases hk₁₁.require_bind with ⟨-, hk₁₂⟩ | ⟨-, rfl, rfl, -⟩
  swap
  · exact Exact.refused _
  obtain ⟨s₅, tr₅, h₅, rfl, hk₁₃⟩ := hk₁₂.read_bind
  refine Exact.read ?_
  obtain ⟨hs₅, hsame₅⟩ := h₅.locked rfl
  rcases hk₁₃.require_bind with ⟨hsafe, hk₁₄⟩ | ⟨-, rfl, rfl, -⟩
  swap
  · exact Exact.refused _
  have hconfig₅ : s₅.config = s₃.config := hsame₅.config.trans hconfig₄
  obtain ⟨target, htarget⟩ := isObj_iff.1 h₅.config
  have hnormal₅ : normalizeLegacyGlobalConfig (deepMergeDict updates target) = some normal := by
    rw [← hconfig₅, htarget] at hnormal
    exact hnormal
  obtain ⟨u, during, after, s₆, hmerge, hk₁₅, rfl⟩ | ⟨e, hmerge, -⟩ := hk₁₄.bind
  swap
  · cases (mergeInto_spec hs₅ (by simpa using htarget) hmerge).result
  obtain ⟨-, hs₆, hconfig₆, hfile⟩ := mergeInto_spec hs₅ (by simpa using htarget) hmerge
  obtain ⟨s₇, after, h₇, rfl, hk₁₆⟩ := hk₁₅.update_bind
  obtain ⟨hs₇, hsame₇⟩ := h₇.locked hs₆
  have hconfig₇ : s₇.config = .obj (deepMergeDict updates target) := hsame₇.config.trans hconfig₆
  simp only [hconfig₇, membersOf, hnormal₅] at hk₁₆ ⊢
  have hsaved : r = .ok () ∧ ∀ p ∈ after, p.2.config = p.1.config := by
    obtain ⟨s₈, tr₈, h₈, rfl, hsave⟩ := Thread.Beside.modify_bind (hk₁₆ : Thread.Beside _ (_ >>= _) _ _ _ _)
    obtain ⟨hr, hconfig⟩ := saveAll_spec hname rfl hsave
    exact ⟨hr, by simpa using hconfig⟩
  obtain ⟨rfl, hafter⟩ := hsaved
  rw [List.append_cons]
  apply Exact.commit _ hafter
  · intro b hb a ha
    obtain rfl : _ = a := by simpa using ha
    have hbefore : b.1.config = .obj target := by
      cases during with
      | nil =>
        obtain rfl : _ = b := by simpa using hb
        rw [hsame₇.config, hmerge.nil rfl, htarget]
      | cons x during =>
        obtain rfl : x = b := by simpa using hb
        rw [(hmerge.head.locked hs₅).2.config, htarget]
    right
    rw [hbefore]
    refine ⟨?_, htarget ▸ guarded_global ?_ htarget ?_ (normalize_legacy hupdates) hnormal₅ (hobjects normal hvalid) hsafe⟩
    · rw [hname]
      exact ⟨updates, normal, ⟨_, _, kept, kept', hkept, hkept', hupdates⟩, hnormal₅, rfl, hvalid⟩
    · exact nodup_normalize hupdates (nodup_preserve hkept' (nodup_preserve hkept hkeys))
    · simpa [htarget, membersOf] using h₅.canonical rfl
  · simp only [List.mem_append, List.mem_singleton]
    rintro p (hp | rfl)
    · exact hfile p hp
    · rfl

/-- In every run of a request that the others do not disturb: where it is answered with success, what it committed was
validated together with the configuration it was merged into; where it is answered with an error, it changed nothing. -/
theorem update_exact (env : Env) (request : Request) (hkeys : (Dict.keys request.updates).Nodup)
    (hobjects : ∀ config, env.validate (.obj config) env.schema = true →
      ∀ v, Dict.get? infinidyskKey config = some v → v.isObj = true)
    {s t : Live} {tr : Trace} {r : Except Refusal Unit}
    (h : (updateConfig env request).Beside (Undisturbed env request) s tr r t) : Exact (Validated env request) r tr := by
  unfold updateConfig at h
  split at h
  · rename_i name hname
    exact service_exact hname h
  · rename_i hname
    exact global_exact hkeys hobjects hname h

/-! ## The API of DUMB -/

def apiService (logLevel : String) : Json :=
  .obj [("dumb", .obj [("api_service", .obj [("enabled", .bool true), ("process_name", .str "DUMB API"),
    ("log_level", .str logLevel), ("host", .str "127.0.0.1"), ("port", .int 8000)])])]

def apiSchema : Json :=
  .obj [("properties", .obj [("dumb", .obj [("type", .str "object"), ("properties", .obj [("api_service", .obj [
    ("type", .str "object"), ("properties", .obj [("enabled", .obj [("type", .str "boolean")]),
      ("process_name", .obj [("type", .str "string")]), ("log_level", .obj [("type", .str "string")]),
      ("host", .obj [("type", .str "string")]), ("port", .obj [("type", .str "integer")])])])])])])]

def apiEnv : Env where
  text := .ascii
  schema := apiSchema
  legacy := false
  validate := fun instance_ _ => (membersOf instance_).all fun m => m.1 ≠ infinidyskKey || m.2.isObj
  safe := fun _ _ _ _ => true
  namespaceBlocked := false
  postgresBlocked := false

def apiLive : Live where
  config := apiService "INFO"
  file := some (apiService "INFO")
  writable := true
  found := none
  stage := .finding

def apiRequest (updates : Members) : Request := ⟨some "DUMB API", updates, false⟩

theorem apiEnv_objects (config : Members) (h : apiEnv.validate (.obj config) apiEnv.schema = true) (v : Json)
    (hv : Dict.get? infinidyskKey config = some v) : v.isObj = true := by
  have hall := List.all_eq_true.1 (h : config.all _ = true) _ (Dict.mem_of_get? hv)
  simpa using hall

def logLevelUpdate : Members := [("log_level", .str "DEBUG")]

def apiAt (logLevel : String) (stage : Stage) : Live :=
  { apiLive with config := apiService logLevel, found := some ⟨["dumb", "api_service"], none⟩, stage := stage }

theorem undisturbed_apiAt (logLevel : String) (stage : Stage) (hstage : stage ≠ .saving) :
    Undisturbed apiEnv (apiRequest logLevelUpdate) (apiAt logLevel stage) (apiAt logLevel stage) where
  stage := rfl
  config := rfl
  path := rfl
  inside path h := by
    obtain rfl : path = ["dumb", "api_service"] := by cases h; rfl
    exact ⟨rfl, _, rfl⟩
  quiet _ := ⟨rfl, rfl⟩
  canonical _ := rfl
  keys _ f hf key hkey := by
    obtain rfl : f = ⟨["dumb", "api_service"], none⟩ := by cases hf; rfl
    obtain rfl : key = "log_level" := by simpa [apiRequest, logLevelUpdate, Dict.keys] using hkey
    exact .inl (List.mem_of_elem_eq_true rfl)
  placed _ path hpath key hkey hguarded := by
    obtain rfl : path = ["dumb", "api_service"] := by cases hpath; rfl
    obtain rfl : "dumb" = key := by simpa using hkey
    exact absurd hguarded (by decide)
  saves h := absurd h hstage

theorem undisturbed_apiLive : Undisturbed apiEnv (apiRequest logLevelUpdate) apiLive apiLive where
  stage := rfl
  config := rfl
  path := rfl
  inside _ h := by cases h
  quiet _ := ⟨rfl, rfl⟩
  canonical _ := rfl
  keys _ _ hf := by cases hf
  placed _ _ hpath := by cases hpath
  saves h := by cases h

theorem update_exact_logLevel : ∃ (tr : Trace) (t : Live), getPath ["dumb", "api_service", "log_level"] t.config = .str "DEBUG" ∧
    Exact (Validated apiEnv (apiRequest logLevelUpdate)) (.ok ()) tr := by
  have hrun : (updateConfig apiEnv (apiRequest logLevelUpdate)).Beside (Undisturbed apiEnv (apiRequest logLevelUpdate))
      apiLive _ (.ok ()) (apiAt "DEBUG" .saving) :=
    .act undisturbed_apiLive <| .act (undisturbed_apiAt "INFO" .finding nofun) <|
      .act (undisturbed_apiAt "INFO" .merging nofun) <|
      .act (undisturbed_apiAt "INFO" .merging nofun) <|
      .act (undisturbed_apiAt "INFO" .locked nofun) <|
      .act (undisturbed_apiAt "INFO" .locked nofun) <|
      .act (undisturbed_apiAt "INFO" .locked nofun) <|
      .act (undisturbed_apiAt "DEBUG" .locked nofun) <| .ret () _
  exact ⟨_, apiAt "DEBUG" .saving, rfl, update_exact apiEnv (apiRequest logLevelUpdate) (by decide) apiEnv_objects hrun⟩

def verboseUpdates : Members :=
  [("enabled", .bool true), ("process_name", .str "DUMB API"), ("log_level", .str "DEBUG"), ("host", .str "127.0.0.1"),
    ("port", .int 8000), ("verbose", .bool true)]

theorem untouched_config {p : Handling Unit} (h : p.Beside (fun s s' => s' = s) s tr r t) (htr : Untouched tr) :
    t.config = s.config := by
  induction h with
  | ret => rfl
  | raise => rfl
  | act hothers _ ih =>
    obtain rfl := hothers
    obtain ⟨hhead, htail⟩ := List.forall_mem_cons.1 htr
    exact (ih htail).trans hhead.1

/-- The key that the API of DUMB does not take is met when the log level is changed already. -/
theorem update_partial : ∃ tr t, (updateConfig apiEnv (apiRequest verboseUpdates)).Beside (fun s s' => s' = s) apiLive tr
    (.error (.invalidKey "verbose")) t ∧ ¬Exact (Validated apiEnv (apiRequest verboseUpdates)) (.error (.invalidKey "verbose")) tr := by
  obtain ⟨tr, htr⟩ := Thread.Beside.alone (updateConfig apiEnv (apiRequest verboseUpdates)) apiLive
  have hresult : ((updateConfig apiEnv (apiRequest verboseUpdates)).run apiLive).1 = .error (.invalidKey "verbose") := by
    decide +kernel
  have hlevel : getPath ["dumb", "api_service", "log_level"]
      ((updateConfig apiEnv (apiRequest verboseUpdates)).run apiLive).2.config = .str "DEBUG" := by rfl
  rw [hresult] at htr
  refine ⟨tr, _, htr, fun huntouched => ?_⟩
  rw [untouched_config htr huntouched] at hlevel
  exact absurd (Json.str.inj (hlevel : Json.str "INFO" = .str "DEBUG")) (by decide)

end Dumb.Config
