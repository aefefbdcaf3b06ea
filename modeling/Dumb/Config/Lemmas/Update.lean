import Dumb.Config.Lemmas.Migrations
import Dumb.Config.Update

/-!
# Requests beside other threads

What one access of a request does is said here, and from it what its loops do while nobody else changes the configuration.
-/

namespace Dumb.Config

open Py Py.Json

/-! ## Fields after a merge -/

theorem get?_deepMerge {k : String} : ∀ {updates target : Members}, (Dict.keys updates).Nodup →
    Dict.get? k (deepMergeDict updates target) =
      match Dict.get? k updates with
      | some value => some (mergeValue value (field k (.obj target)))
      | none => Dict.get? k target
  | [], target, _ => by simp [deepMergeDict]
  | (q, value) :: updates, target, h => by
    obtain ⟨hq, hnodup⟩ := List.nodup_cons.1 h
    rw [deepMergeDict, get?_deepMerge hnodup]
    by_cases hk : q = k
    · subst hk
      have habsent : Dict.get? q updates = none := Classical.not_not.1 fun hne => hq (Dict.mem_keys.2 hne)
      simp [habsent, Dict.get?]
    · simp [Dict.get?, hk, field_set, Dict.get?_set, Ne.symm hk]

theorem get?_normalize {config normal : Members} {k : String} (h : normalizeLegacyGlobalConfig config = some normal)
    (hlegacy : Dict.get? infinidyskLegacyKey config = none) (hk : k ≠ "riven_backend") :
    Dict.get? k normal = Dict.get? k config := by
  simp only [normalizeLegacyGlobalConfig, field, hlegacy, Option.getD_none, isObj, Bool.false_eq_true, if_false] at h
  split at h
  · cases h
  · cases h
    rw [get?_modify, if_neg hk, Dict.erase_absent hlegacy]

theorem nodup_modify {q : String} {f : Members → Members} {config : Members} (h : (Dict.keys config).Nodup) :
    (Dict.keys (modify q f config)).Nodup := by
  unfold modify
  split
  · exact Dict.nodup_keys_set h
  · exact h

theorem nodup_normalize {config normal : Members} (h : normalizeLegacyGlobalConfig config = some normal)
    (hnodup : (Dict.keys config).Nodup) : (Dict.keys normal).Nodup := by
  simp only [normalizeLegacyGlobalConfig] at h
  split at h
  · cases h
  · cases h
    apply nodup_modify
    split
    · exact Dict.nodup_keys_set (Dict.nodup_keys_erase hnodup)
    · exact Dict.nodup_keys_erase hnodup

theorem nodup_preserve {κ : Type} {d : Redacted κ} {updates kept : Members} {config : Json}
    (h : d.preserve updates config = some kept) (hnodup : (Dict.keys updates).Nodup) : (Dict.keys kept).Nodup := by
  simp only [Redacted.preserve] at h
  split at h
  · split at h
    · split at h
      · simp only [Option.bind_eq_bind] at h
        split at h
        · split at h
          · obtain ⟨_, -, h⟩ := Option.bind_eq_some_iff.1 h
            obtain ⟨_, -, h⟩ := Option.bind_eq_some_iff.1 h
            obtain ⟨_, -, h⟩ := Option.bind_eq_some_iff.1 h
            cases h
            exact Dict.nodup_keys_set hnodup
          · cases h
        · cases h
      · cases h
        exact hnodup
    · cases h
      exact hnodup
  · cases h

/-! ## What is committed, and what is left alone -/

abbrev Trace : Type := List (Live × Live)

def Untouched (tr : Trace) : Prop := ∀ p ∈ tr, p.2.config = p.1.config ∧ p.2.file = p.1.file

/-- The accesses that change the configuration in memory take it from one that is `P`-related to what they leave, and only
then is the file written. -/
def Commits (P : Json → Json → Prop) (tr : Trace) : Prop :=
  ∃ before during after, tr = before ++ during ++ after ∧ Untouched before ∧ (∀ p ∈ during, p.2.file = p.1.file) ∧
    (∀ p ∈ after, p.2.config = p.1.config) ∧
    ∀ b ∈ during.head?, ∀ a ∈ during.getLast?, a.2.config = b.1.config ∨ P b.1.config a.2.config

def Exact (P : Json → Json → Prop) : Except Refusal Unit → Trace → Prop
  | .ok _, tr => Commits P tr
  | .error _, tr => Untouched tr

variable {P : Json → Json → Prop} {tr : Trace} {r : Except Refusal Unit} {s s' t : Live}

theorem Exact.refused (e : Refusal) : Exact P (.error e) [] := fun _ h => absurd h List.not_mem_nil

theorem Exact.cons {p : Live × Live} (h : Exact P r tr) (hconfig : p.2.config = p.1.config) (hfile : p.2.file = p.1.file) :
    Exact P r (p :: tr) := by
  have hcons : ∀ {l : Trace}, Untouched l → Untouched (p :: l) := fun hl q hq => by
    rcases List.mem_cons.1 hq with rfl | hq
    · exact ⟨hconfig, hfile⟩
    · exact hl q hq
  cases r with
  | error e => exact hcons h
  | ok u =>
    obtain ⟨before, during, after, rfl, hbefore, hrest⟩ := h
    exact ⟨p :: before, during, after, rfl, hcons hbefore, hrest⟩

theorem Exact.read {q : Live} (h : Exact P r tr) : Exact P r ((q, q) :: tr) := h.cons rfl rfl

theorem Exact.commit {during after : Trace} (hduring : ∀ p ∈ during, p.2.file = p.1.file)
    (hafter : ∀ p ∈ after, p.2.config = p.1.config)
    (hP : ∀ b ∈ during.head?, ∀ a ∈ during.getLast?, a.2.config = b.1.config ∨ P b.1.config a.2.config) :
    Exact P (.ok ()) (during ++ after) :=
  ⟨[], during, after, rfl, fun _ h => absurd h List.not_mem_nil, hduring, hafter, hP⟩

theorem required_bind {α β : Type} {e : Refusal} {x : Option α} {k : α → Handling β} {R : Live → Live → Prop}
    {res : Except Refusal β} (h : (required e x >>= k).Beside R s tr res t) :
    (∃ a, x = some a ∧ (k a).Beside R s tr res t) ∨ x = none ∧ tr = [] ∧ res = .error e ∧ t = s := by
  cases x with
  | none => exact .inr ⟨rfl, Thread.Beside.raise_iff.1 h⟩
  | some a => exact .inl ⟨a, rfl, h⟩

/-! ## What the others do -/

/-- Whatever the others do, the dict that the request found is where it was, or no longer part of the configuration. -/
structure Others (s s' : Live) : Prop where
  stage : s'.stage = s.stage
  config : s'.config.isObj = true
  path : s'.found.map (·.path) = s.found.map (·.path)
  inside : ∀ path, s'.found = some ⟨path, none⟩ →
    s.found = some ⟨path, none⟩ ∧ ∃ members, at? path s'.config = some (.obj members)

variable {env : Env} {request : Request}

/-- `save_config` finds no null to repair, and everything that it needs. -/
def Saves (env : Env) : Option String → Live → Prop
  | some name, s => s.writable = true ∧ (findSection name s.config).isSome = true ∧
      (∀ path section_, at? path s.config = some section_ → fixNullStrings section_ env.schema = section_) ∧
      ∃ file, s.file = some file ∧ ∀ updated, ∃ data, updateNestedConfig name updated file = some data ∧
        (serializeConfigForDisk env.text env.legacy data).isSome = true
  | none, s => s.writable = true ∧ fixNullStrings s.config env.schema = s.config ∧
      (serializeConfigForDisk env.text env.legacy s.config).isSome = true

/-- The section that the request found is the whole of what the guard is about, or no part of it. -/
def Placed (request : Request) (s : Live) : Prop :=
  ∀ path, s.found = some ⟨path, none⟩ → ∀ key ∈ path.head?, key = infinidyskKey ∨ key = "postgres" →
    path = [key] ∧ ∃ i, findKeyForProcess (request.service.getD "") (membersOf s.config) = .ok (some key, i)

/-- What the others do does not disturb the request: from its reading to its last assignment nobody else changes the
configuration in memory, the section takes every key of the update, and what is saved can be saved. -/
structure Undisturbed (env : Env) (request : Request) (s s' : Live) : Prop extends Others s s' where
  quiet : s.stage = .merging ∨ s.stage = .locked → s'.config = s.config ∧ s'.found = s.found
  canonical : s.stage = .locked → Dict.get? infinidyskLegacyKey (membersOf s'.config) = none
  keys : s.stage = .locked → ∀ f ∈ s'.found, ∀ key ∈ Dict.keys request.updates,
    key ∈ Dict.keys s'.service ∨ key ∈ env.allowedKeys f.path
  placed : s.stage = .locked → Placed request s'
  saves : s.stage = .saving → Saves env request.service s'

structure Same (s s' : Live) : Prop where
  config : s'.config = s.config
  found : s'.found = s.found

theorem Undisturbed.locked (h : Undisturbed env request s s') (hs : s.stage = .locked) : s'.stage = .locked ∧ Same s s' := by
  obtain ⟨hconfig, hfound⟩ := h.quiet (.inr hs)
  exact ⟨h.stage.trans hs, hconfig, hfound⟩

/-! ## The assignments -/

theorem Same.service (h : Same s s') : s'.service = s.service := by
  simp only [Live.service, h.config, h.found]

theorem Same.assign (h : Same s s') (key : String) (value : Json) : Same (s.assign key value) (s'.assign key value) := by
  have hservice := h.service
  obtain ⟨hconfig, hfound⟩ := h
  constructor
  · simp only [Live.assign, hfound, hconfig, hservice]
    split <;> simp [hconfig]
  · simp only [Live.assign, hfound, hconfig, hservice]
    split <;> simp [hfound]

theorem assign_file (key : String) (value : Json) (s : Live) : (s.assign key value).file = s.file := by
  unfold Live.assign
  split <;> rfl

theorem assign_stage (key : String) (value : Json) (s : Live) : (s.assign key value).stage = s.stage := by
  unfold Live.assign
  split <;> rfl

def Live.assignAll (updates : Members) (s : Live) : Live := updates.foldl (fun s u => s.assign u.1 u.2) s

theorem Same.assignAll : ∀ {s s' : Live}, Same s s' → ∀ updates, Same (s.assignAll updates) (s'.assignAll updates)
  | _, _, h, [] => h
  | _, _, h, u :: updates => (h.assign u.1 u.2).assignAll updates

variable {updates : Members}

theorem assignKeys_spec {allowed : List String} {f : Found} (hallowed : allowed = env.allowedKeys f.path) :
    ∀ {s : Live} {tr : Trace}, (∀ key ∈ Dict.keys updates, key ∈ Dict.keys request.updates) → s.stage = .locked →
      s.found.map (·.path) = some f.path →
      (assignKeys allowed updates).Beside (Undisturbed env request) s tr r t →
      r = .ok () ∧ t.stage = .locked ∧ Same (s.assignAll updates) t ∧ ∀ p ∈ tr, p.2.file = p.1.file := by
  induction updates with
  | nil =>
    rintro s tr - hs - h
    obtain ⟨rfl, rfl, rfl⟩ := Thread.Beside.pure_iff.1 h
    exact ⟨rfl, hs, ⟨rfl, rfl⟩, by simp⟩
  | cons u updates ih =>
    intro s tr hkeys hs hf h
    obtain ⟨s₁, tr₁, h₁, rfl, hcheck⟩ := h.read_bind
    obtain ⟨hs₁, hsame₁⟩ := h₁.locked hs
    have hf₁ : s₁.found.map (·.path) = some f.path := hsame₁.found ▸ hf
    obtain ⟨g, hg, hpath⟩ := Option.map_eq_some_iff.1 hf₁
    rcases hcheck.require_bind with ⟨-, hset⟩ | ⟨hno, -⟩
    · obtain ⟨s₂, tr₂, h₂, rfl, hrest⟩ := hset.modify_bind
      obtain ⟨hs₂, hsame₂⟩ := h₂.locked hs₁
      have hsame : Same (s.assign u.1 u.2) (s₂.assign u.1 u.2) :=
        Same.assign ⟨hsame₂.config.trans hsame₁.config, hsame₂.found.trans hsame₁.found⟩ u.1 u.2
      have hf₂ : (s₂.assign u.1 u.2).found.map (·.path) = some f.path := by
        rw [← hf₁, ← hsame₂.found]
        unfold Live.assign
        split <;> simp_all
      obtain ⟨hr, ht, hall, hfile⟩ := ih (fun key hk => hkeys key (List.mem_cons_of_mem _ hk))
        ((assign_stage ..).trans hs₂) hf₂ hrest
      have hall' : Same (s.assignAll (u :: updates)) t := by
        obtain ⟨hc, hfd⟩ := hsame.assignAll updates
        exact ⟨hall.config.trans hc, hall.found.trans hfd⟩
      refine ⟨hr, ht, hall', fun p hp => ?_⟩
      rcases List.mem_cons.1 hp with rfl | hp
      · rfl
      · rcases List.mem_cons.1 hp with rfl | hp
        · exact assign_file ..
        · exact hfile p hp
    · -- the section takes every key
      exfalso
      rcases h₁.keys hs g hg u.1 (hkeys u.1 List.mem_cons_self) with hmem | hmem
      · simp [hmem] at hno
      · simp [hallowed, ← hpath, hmem] at hno

variable {path : List String}

theorem assignAll_inside : ∀ {s : Live} {members : Members},
    s.found = some ⟨path, none⟩ → at? path s.config = some (.obj members) →
    (s.assignAll updates).config = setPath (.obj (Config.assignAll updates members)) path s.config := by
  induction updates with
  | nil => exact fun _ hat => (setPath_at? hat).symm
  | cons u updates ih =>
    intro s members hf hat
    have hassign : s.assign u.1 u.2 = { s with config := setPath (.obj (Dict.set u.1 u.2 members)) path s.config } := by
      simp [Live.assign, Live.service, hf, getPath_at? hat, membersOf]
    calc (s.assignAll (u :: updates)).config = ((s.assign u.1 u.2).assignAll updates).config := rfl
      _ = setPath (.obj (Config.assignAll updates (Dict.set u.1 u.2 members))) path (s.assign u.1 u.2).config := by
        rw [hassign]
        exact ih hf (at?_setPath hat)
      _ = setPath (.obj (Config.assignAll (u :: updates) members)) path s.config := by
        rw [hassign, setPath_setPath]
        rfl

theorem assignAll_apart : ∀ {s : Live} {members : Members},
    s.found = some ⟨path, some members⟩ → (s.assignAll updates).config = s.config := by
  induction updates with
  | nil => exact fun _ => rfl
  | cons u updates ih =>
    intro s members hf
    have hassign : s.assign u.1 u.2 = { s with found := some ⟨path, some (Dict.set u.1 u.2 members)⟩ } := by
      simp [Live.assign, hf]
    calc (s.assignAll (u :: updates)).config = ((s.assign u.1 u.2).assignAll updates).config := rfl
      _ = (s.assign u.1 u.2).config := by
        rw [hassign]
        exact ih rfl
      _ = s.config := by rw [hassign]

/-! ## The merge in place -/

structure Merged (config : Json) (r : Except Refusal Unit) (t : Live) (tr : Trace) : Prop where
  result : r = .ok ()
  stage : t.stage = .locked
  config : t.config = config
  file : ∀ p ∈ tr, p.2.file = p.1.file

theorem put_spec {value : Json} (hs : s.stage = .locked)
    (h : (Thread.modify fun s => { s with config := setPath value path s.config } : Handling Unit).Beside
      (Undisturbed env request) s tr r t) : Merged (setPath value path s.config) r t tr := by
  obtain ⟨s₁, tr₁, h₁, rfl, hret⟩ := Thread.Beside.modify_bind (k := fun _ => Thread.ret ()) h
  obtain ⟨rfl, rfl, rfl⟩ := Thread.Beside.ret_iff.1 hret
  obtain ⟨hs₁, hsame⟩ := h₁.locked hs
  exact ⟨rfl, hs₁, by rw [hsame.config], by simp⟩

mutual
theorem mergeAt_spec {path : List String} {key : String} {members : Members} : ∀ {value : Json} {s : Live} {tr : Trace} {r t},
    s.stage = .locked → at? path s.config = some (.obj members) →
    (mergeAt (path ++ [key]) value).Beside (Undisturbed env request) s tr r t →
    Merged (setPath (.obj (Dict.set key (mergeValue value (field key (.obj members))) members)) path s.config) r t tr
  | .obj updates, s, tr, r, t, hs, hat, h => by
    rw [mergeAt] at h
    obtain ⟨s₁, tr₁, h₁, rfl, hmerge⟩ := h.read_bind
    obtain ⟨hs₁, hsame⟩ := h₁.locked hs
    have hget : getPath (path ++ [key]) s₁.config = field key (.obj members) := by
      rw [hsame.config, getPath_append, getPath_at? hat]
      rfl
    rw [hget] at hmerge
    cases hv : field key (.obj members) with
    | obj target =>
      have hat₁ : at? (path ++ [key]) s₁.config = some (.obj target) := by
        rw [hsame.config, at?_last hat]
        cases hk : Dict.get? key members with
        | none => simp [field, hk] at hv
        | some v => simpa [field, hk] using hv
      simp only [hv, isObj, if_true] at hmerge
      obtain ⟨hr, ht, hconfig, hfile⟩ := mergeInto_spec hs₁ hat₁ hmerge
      have hsnoc := setPath_snoc (v := .obj (deepMergeDict updates target)) (k := key) hat
      exact ⟨hr, ht, by rw [hconfig, hsame.config, hsnoc, mergeValue], by simpa using hfile⟩
    | _ =>
      simp only [hv, isObj, Bool.false_eq_true, if_false] at hmerge
      obtain ⟨hr, ht, hconfig, hfile⟩ := put_spec hs₁ hmerge
      refine ⟨hr, ht, ?_, by simpa using hfile⟩
      rw [hconfig, hsame.config, setPath_snoc hat, mergeValue]
      simp
  | .null, _, _, _, _, hs, hat, h | .bool _, _, _, _, _, hs, hat, h | .int _, _, _, _, _, hs, hat, h
  | .float _, _, _, _, _, hs, hat, h | .str _, _, _, _, _, hs, hat, h | .arr _, _, _, _, _, hs, hat, h => by
    have hput := put_spec hs h
    rwa [setPath_snoc hat] at hput

theorem mergeInto_spec {path : List String} : ∀ {updates members : Members} {s : Live} {tr : Trace} {r t},
    s.stage = .locked → at? path s.config = some (.obj members) →
    (mergeInto path updates).Beside (Undisturbed env request) s tr r t →
    Merged (setPath (.obj (deepMergeDict updates members)) path s.config) r t tr
  | [], members, s, tr, r, t, hs, hat, h => by
    obtain ⟨rfl, rfl, rfl⟩ := Thread.Beside.pure_iff.1 h
    exact ⟨rfl, hs, (setPath_at? hat).symm, by simp⟩
  | (key, value) :: updates, members, s, tr, r, t, hs, hat, h => by
    rw [mergeInto] at h
    obtain ⟨u, tr₁, tr₂, s₁, h₁, h₂, rfl⟩ | ⟨e, h₁, rfl⟩ := h.bind
    · obtain ⟨-, hs₁, hconfig, hfile₁⟩ := mergeAt_spec hs hat h₁
      have hat₁ : at? path s₁.config =
          some (.obj (Dict.set key (mergeValue value (field key (.obj members))) members)) := by
        rw [hconfig]
        exact at?_setPath hat
      obtain ⟨hr, ht, hconfig₂, hfile₂⟩ := mergeInto_spec hs₁ hat₁ h₂
      refine ⟨hr, ht, ?_, ?_⟩
      · rw [hconfig₂, hconfig, setPath_setPath, deepMergeDict]
      · simp only [List.mem_append]
        rintro p (hp | hp)
        · exact hfile₁ p hp
        · exact hfile₂ p hp
    · cases (mergeAt_spec hs hat h₁).result
end

/-! ## Saving -/

theorem atomicWrite_spec {data : Json}
    (hdata : (serializeConfigForDisk env.text env.legacy data).isSome = true)
    (hwritable : ∀ s', Undisturbed env request s s' → s'.writable = true)
    (h : (atomicWrite env data).Beside (Undisturbed env request) s tr r t) :
    r = .ok () ∧ ∀ p ∈ tr, p.2.config = p.1.config := by
  obtain ⟨disk, hdisk⟩ := Option.isSome_iff_exists.1 hdata
  obtain ⟨s₁, tr₁, h₁, rfl, hend⟩ := h.update_bind
  simp only [hdisk, hwritable s₁ h₁, if_true] at hend ⊢
  obtain ⟨rfl, rfl, rfl⟩ := hend.require_end
  exact ⟨rfl, by simp⟩

theorem saves_writable {o : Option String} (h : Saves env o s) : s.writable = true := by
  cases o with
  | none => exact h.1
  | some name => exact h.1

theorem saveAll_spec (hnone : request.service = none) (hs : s.stage = .saving)
    (h : (saveAll env).Beside (Undisturbed env request) s tr r t) : r = .ok () ∧ ∀ p ∈ tr, p.2.config = p.1.config := by
  obtain ⟨s₁, tr₁, h₁, rfl, hwrite⟩ := h.update_bind
  have hsaves := h₁.saves hs
  rw [hnone] at hsaves
  obtain ⟨-, hfix, hdata⟩ := hsaves
  rw [hfix] at hwrite ⊢
  have hs₁ : s₁.stage = .saving := h₁.stage.trans hs
  obtain ⟨hr, hconfig⟩ := atomicWrite_spec hdata (fun s' h' => saves_writable (h'.saves hs₁)) hwrite
  exact ⟨hr, by simpa using hconfig⟩

theorem saveProcess_spec {name : String} (hname : request.service = some name) (hs : s.stage = .saving)
    (h : (saveProcess env name).Beside (Undisturbed env request) s tr r t) :
    r = .ok () ∧ ∀ p ∈ tr, p.2.config = p.1.config := by
  obtain ⟨s₁, tr₁, h₁, rfl, hfound⟩ := h.read_bind
  have hsaves₁ := h₁.saves hs
  rw [hname] at hsaves₁
  obtain ⟨-, hsection, -⟩ := hsaves₁
  have hs₁ : s₁.stage = .saving := h₁.stage.trans hs
  rcases required_bind hfound with ⟨⟨path, read⟩, -, hread⟩ | ⟨hno, -⟩
  · obtain ⟨s₂, tr₂, h₂, rfl, hfile⟩ := hread.read_bind
    have hsaves₂ := h₂.saves hs₁
    rw [hname] at hsaves₂
    obtain ⟨-, -, -, file, hfile₂, hdata⟩ := hsaves₂
    have hs₂ : s₂.stage = .saving := h₂.stage.trans hs₁
    rw [hfile₂] at hfile
    obtain ⟨s₃, tr₃, h₃, rfl, hupdated⟩ := Thread.Beside.update_bind (hfile : Thread.Beside _ (_ >>= _) _ _ _ _)
    have hsaves₃ := h₃.saves hs₂
    rw [hname] at hsaves₃
    obtain ⟨-, -, hfix, -⟩ := hsaves₃
    have hs₃ : s₃.stage = .saving := h₃.stage.trans hs₂
    obtain ⟨_, hnull, -⟩ := hdata .null
    simp only [hnull, Option.isSome_some, if_true] at hupdated ⊢
    cases hat : at? path s₃.config with
    | none =>
      obtain ⟨data, hdata, hser⟩ := hdata (fixNullStrings read env.schema)
      simp only [hat, hdata] at hupdated ⊢
      obtain ⟨hr, hconfig⟩ := atomicWrite_spec hser (fun s' h' => saves_writable (h'.saves hs₃)) hupdated
      exact ⟨hr, by simpa using hconfig⟩
    | some current =>
      obtain ⟨data, hdata, hser⟩ := hdata current
      simp only [hat, hfix path current hat, hdata, setPath_at? hat] at hupdated ⊢
      obtain ⟨hr, hconfig⟩ := atomicWrite_spec hser (fun s' h' => saves_writable (h'.saves hs₃)) hupdated
      exact ⟨hr, by simpa using hconfig⟩
  · simp [Option.isSome_iff_exists] at hsection
    obtain ⟨path, hpath⟩ := hsection
    simp [hpath] at hno

end Dumb.Config
