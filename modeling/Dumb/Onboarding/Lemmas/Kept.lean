import Dumb.Onboarding.Lemmas.Requests
import Dumb.Config.Lemmas.Canonical

/-!
# What is kept of an instance, and that instances differ

What one call leaves of both, under the condition that it is given.
-/

namespace Dumb.Onboarding

open Py Py.Script

def identityKeys : List String := ["config_dir", "config_file", "log_file", "process_name"]

def textOf : Json → Option String
  | .str t => some t
  | _ => none

def textAt (k : String) (cfg : Settings) : Option String := (cfg.get? k).bind textOf

def Differ (s : State) : Prop := ∀ service, ∀ m ∈ s.instances service, ∀ o ∈ s.instances service, m.1 ≠ o.1 →
  ∀ k ∈ identityKeys, textAt k m.2 = none ∨ textAt k m.2 ≠ textAt k o.2

def added (calls : List Call) : List (Service × String) := calls.filterMap fun
  | .add service name _ => some (service, name)
  | _ => none

def NotSet (m : Service × String) (k : String) (calls : List Call) : Prop :=
  ∀ c ∈ calls, match c with
    | .configure service name options => (service, name) = m → ∀ option ∈ options, option.1 = k → option.2 = .null
    | _ => True

def isNull : Json → Bool
  | .null => true
  | _ => false

def Unshared (instances : Instances) (name : String) (option : String × Json) : Prop :=
  ∀ t ∈ textOf option.2, ∀ o ∈ instances, o.1 ≠ name → textAt option.1 o.2 ≠ some t

/-- What is asked of a call, with the instances that earlier requests created and what was done before this one. -/
def Clear (env : Env) (earlier : List (Service × String)) (since : Nat) : Call → State → Prop
  | .purge service, s =>
    (service, (env.template service).name) ∉ earlier ∧ (service, (env.template service).name) ∉ added (s.calls.drop since)
  | .add service _ cfg, s => ∀ o ∈ s.instances service, ∀ k ∈ identityKeys, textAt k cfg = none ∨ textAt k cfg ≠ textAt k o.2
  | .configure service name options, s =>
    (∀ option ∈ options, option.1 ∈ identityKeys → Unshared (s.instances service) name option) ∧
      ((service, name) ∈ earlier → (setting (instOf service name s) "enabled").truthy = true ∨
        ∃ option ∈ options, option.1 = "enabled" ∧ isNull option.2 = false)
  | .port .., _ => True
  | .postgres service name key value, s => (service, name) ∈ earlier → (instOf service name s).get? key = some value
  | .reload, s => ∀ m ∈ earlier, reloaded env (instOf m.1 m.2 s) = instOf m.1 m.2 s

variable {env : Env} {earlier : List (Service × String)} {since : Nat}

/-! ## The instances after a call -/

theorem get?_modify (instances : Instances) (name q : String) (f : Settings → Settings) :
    Dict.get? q (instances.map fun m => if m.1 = name then (m.1, f m.2) else m) =
      if q = name then (Dict.get? q instances).map f else Dict.get? q instances := by
  induction instances with
  | nil => simp
  | cons m instances ih =>
    by_cases hm : m.1 = name
    · by_cases hq : m.1 = q
      · simp [Dict.get?, ← hm, hq]
      · have hne : q ≠ m.1 := Ne.symm hq
        rw [List.map_cons, if_pos hm, Dict.get?, if_neg hq, ih, Dict.get?, if_neg hq]
    · rw [List.map_cons, if_neg hm, Dict.get?, Dict.get?, ih]
      split
      · next hq => rw [if_neg fun h => hm (hq.trans h)]
      · rfl

variable {name : String} {f : Settings → Settings}

theorem mem_modify {instances : Instances} {m : String × Settings}
    (h : m ∈ instances.map fun m => if m.1 = name then (m.1, f m.2) else m) :
    ∃ cfg, (m.1, cfg) ∈ instances ∧ m.2 = if m.1 = name then f cfg else cfg := by
  obtain ⟨o, ho, rfl⟩ := List.mem_map.1 h
  refine ⟨o.2, ?_, ?_⟩
  · split
    · exact ho
    · exact ho
  · by_cases hname : o.1 = name
    · simp [hname]
    · simp [hname]

theorem differ_modify {s : State} {service : Service} {calls : List Call}
    (h : Differ s) (hf : ∀ m ∈ s.instances service, m.1 = name → ∀ o ∈ s.instances service, o.1 ≠ name →
      ∀ k ∈ identityKeys, textAt k (f m.2) = none ∨ textAt k (f m.2) ≠ textAt k o.2) :
    Differ { instances := s.modify service name f, calls } := by
  intro q m hm o ho hne k hk
  simp only [State.modify, State.update] at hm ho
  split at hm
  · next hq =>
    subst hq
    rw [if_pos rfl] at ho
    obtain ⟨a, ha, hma⟩ := mem_modify hm
    obtain ⟨b, hb, hob⟩ := mem_modify ho
    rw [hma, hob]
    by_cases hmn : m.1 = name
    · have hon : o.1 ≠ name := fun h => hne (hmn.trans h.symm)
      rw [if_pos hmn, if_neg hon]
      exact hf _ ha hmn _ hb hon k hk
    · rw [if_neg hmn]
      by_cases hon : o.1 = name
      · rw [if_pos hon]
        rcases hf _ hb hon _ ha hmn k hk with hnone | hne
        · rw [hnone]
          cases textAt k a with
          | none => exact .inl rfl
          | some t => exact .inr (Option.some_ne_none t)
        · exact .inr (Ne.symm hne)
      · rw [if_neg hon]
        exact h q _ ha _ hb hne k hk
  · next hq =>
    rw [if_neg hq] at ho
    exact h q m hm o ho hne k hk

theorem textAt_set (k q : String) (v : Json) (cfg : Settings) :
    textAt q (cfg.set k v) = if q = k then textOf v else textAt q cfg := by
  rw [textAt, Dict.get?_set]
  split
  · rfl
  · rfl

theorem textAt_set_other {k q : String} (h : q ≠ k) (v : Json) (cfg : Settings) : textAt q (cfg.set k v) = textAt q cfg := by
  rw [textAt_set, if_neg h]

theorem textAt_option (cfg : Settings) (option : String × Json) (q : String) :
    textAt q (applyOption cfg option) = textAt q cfg ∨
      (option.1 = q ∧ textAt q (applyOption cfg option) = textOf option.2) := by
  have hset : textAt q (cfg.set option.1 option.2) = textAt q cfg ∨
      (option.1 = q ∧ textAt q (cfg.set option.1 option.2) = textOf option.2) := by
    rw [textAt_set]
    by_cases hq : q = option.1
    · rw [if_pos hq]
      exact .inr ⟨hq.symm, rfl⟩
    · rw [if_neg hq]
      exact .inl rfl
  unfold applyOption
  split
  · exact .inl rfl
  · split
    · exact .inl rfl
    · exact hset

theorem textAt_options {instances : Instances} {name k : String} (hk : k ∈ identityKeys) :
    ∀ {options cfg : Settings}, (∀ option ∈ options, option.1 ∈ identityKeys → Unshared instances name option) →
      ∀ o ∈ instances, o.1 ≠ name → (textAt k cfg = none ∨ textAt k cfg ≠ textAt k o.2) →
        textAt k (applyServiceOptions cfg options) = none ∨ textAt k (applyServiceOptions cfg options) ≠ textAt k o.2
  | [], _, _, _, _, _, h => h
  | option :: options, cfg, hopts, o, ho, hne, h => by
    rw [applyServiceOptions, List.foldl_cons]
    apply textAt_options hk (fun option' h' => hopts option' (List.mem_cons_of_mem _ h')) o ho hne
    rcases textAt_option cfg option k with hsame | ⟨hkey, hset⟩
    · rwa [hsame]
    · rw [hset]
      have hunshared := hopts option List.mem_cons_self (hkey ▸ hk)
      cases ht : textOf option.2 with
      | none => exact .inl rfl
      | some t => exact .inr (Ne.symm (hkey ▸ hunshared t ht o ho hne))

variable {k : String}

theorem enable_other (h : k ≠ "enabled") (cfg : Settings) : (enable cfg).get? k = cfg.get? k := by
  rw [enable]
  split
  · rfl
  · exact Dict.get?_set_ne h _ _

theorem identity_ne {k q : String} (hk : k ∈ identityKeys) (hq : q ∉ identityKeys) : k ≠ q := fun h => hq (h ▸ hk)

/-! ## Loading -/

theorem textAt_map {f : String → Json → Json} (h : ∀ v, textOf (f k v) = textOf v) : ∀ cfg : Settings,
    textAt k (cfg.map fun m => (m.1, f m.1 m.2)) = textAt k cfg
  | [] => rfl
  | m :: cfg => by
    have ih := textAt_map h cfg
    rw [textAt, textAt] at ih ⊢
    rw [List.map_cons, Dict.get?, Dict.get?]
    by_cases hm : m.1 = k
    · simp [hm, h]
    · rw [if_neg hm, if_neg hm, ih]

theorem textOf_tokens {target key : String} (hk : key ∉ ["core_service", "key_type"]) (v : Json) :
    textOf (Config.mapChild env.text target key v) = textOf v := by
  cases v with
  | str t => rw [Config.mapChild, if_neg hk]
  | arr items =>
    rw [Config.mapChild]
    split
    · rfl
    · rw [Config.mapInfinidyskTokens]
      rfl
  | obj members =>
    rw [Config.mapChild_obj]
    rfl
  | _ => rfl

theorem textOf_normalize (v : Json) : textOf (Config.normalizeReleaseSelectors env.text v) = textOf v := by
  cases v with
  | arr items =>
    rw [Config.normalize_arr]
    rfl
  | obj members =>
    rw [Config.normalize_obj]
    rfl
  | _ => rfl

theorem tokens_cfg (env : Env) (target : String) (cfg : Settings) (hk : k ∈ identityKeys) : ∃ cfg',
    Config.mapInfinidyskTokens env.text target false (.obj cfg) = .obj cfg' ∧ textAt k cfg' = textAt k cfg := by
  refine ⟨_, Config.tokens_obj cfg, ?_⟩
  simp only [Bool.false_and, Bool.false_eq_true, if_false]
  apply textAt_map
  apply textOf_tokens
  revert k
  decide

theorem normalize_cfg (env : Env) (cfg : Settings) (hk : k ∈ identityKeys) : ∃ cfg',
    Config.normalizeReleaseSelectors env.text (.obj cfg) = .obj cfg' ∧ textAt k cfg' = textAt k cfg := by
  refine ⟨_, Config.normalize_obj cfg, ?_⟩
  have hmap := textAt_map (f := fun _ v => Config.normalizeReleaseSelectors env.text v) (k := k) textOf_normalize cfg
  split
  · rw [textAt_set_other (identity_ne hk (by decide)), hmap]
  · exact hmap

theorem textAt_reloaded (cfg : Settings) (hk : k ∈ identityKeys) : textAt k (reloaded env cfg) = textAt k cfg := by
  obtain ⟨saved, hsaved, hsame⟩ := normalize_cfg env cfg hk
  obtain ⟨disk, hdisk, hdisksame⟩ : ∃ disk, (if env.legacyIdentity then
      Config.mapInfinidyskTokens env.text Config.infinidyskLegacyKey false (.obj saved) else .obj saved) = .obj disk ∧
      textAt k disk = textAt k saved := by
    split
    · exact tokens_cfg env _ saved hk
    · exact ⟨saved, rfl, rfl⟩
  obtain ⟨read, hread, hreadsame⟩ := tokens_cfg env Config.infinidyskKey disk hk
  obtain ⟨loaded, hloaded, hloadedsame⟩ := normalize_cfg env read hk
  rw [reloaded, hsaved, hdisk, hread, hloaded, hloadedsame, hreadsame, hdisksame, hsame]

theorem differ_steady : Steady env (Clear env earlier since) Differ := by
  intro c s hs hC hproper
  cases c with
  | purge service =>
    intro q m hm o ho hne k hk
    have hsub : ∀ m, m ∈ (exec env (.purge service) s).2.instances q → m ∈ s.instances q := by
      intro m hm
      simp only [exec, State.update] at hm
      split at hm
      · exact List.mem_of_mem_filter hm
      · exact hm
    exact hs q m (hsub m hm) o (hsub o ho) hne k hk
  | add service name cfg =>
    intro q m hm o ho hne k hk
    simp only [exec, State.update] at hm ho
    split at hm
    · next hq =>
      subst hq
      rw [if_pos rfl] at ho
      rcases Dict.mem_set hm with rfl | hm
      · rcases Dict.mem_set ho with rfl | ho
        · exact absurd rfl hne
        · exact hC o ho k hk
      · rcases Dict.mem_set ho with rfl | ho
        · cases ht : textAt k m.2 with
          | none => exact .inl rfl
          | some t =>
            refine .inr fun h => ?_
            rcases hC m hm k hk with hnone | hother
            · rw [hnone] at h
              exact absurd h (Option.some_ne_none t)
            · exact hother (ht.trans h).symm
        · exact hs q m hm o ho hne k hk
    · next hq =>
      rw [if_neg hq] at ho
      exact hs q m hm o ho hne k hk
  | configure service name options =>
    apply differ_modify hs
    intro m hm hname o ho hne k hk
    apply textAt_options hk hC.1 o ho hne
    rw [textAt, enable_other (identity_ne hk (by decide))]
    exact hs service m hm o ho (fun h => hne (h ▸ hname)) k hk
  | port service name value =>
    apply differ_modify hs
    intro m hm hname o ho hne k hk
    rw [textAt_set_other (identity_ne hk (by decide))]
    exact hs service m hm o ho (fun h => hne (h ▸ hname)) k hk
  | postgres service name key value =>
    apply differ_modify hs
    intro m hm hname o ho hne k hk
    have hkey : k ≠ key := by
      rcases hproper with rfl | rfl
      · exact identity_ne hk (by decide)
      · exact identity_ne hk (by decide)
    rw [textAt_set_other hkey]
    exact hs service m hm o ho (fun h => hne (h ▸ hname)) k hk
  | reload =>
    intro q m hm o ho hne k hk
    obtain ⟨a, ha, rfl⟩ := List.mem_map.1 hm
    obtain ⟨b, hb, rfl⟩ := List.mem_map.1 ho
    rw [textAt_reloaded _ hk, textAt_reloaded _ hk]
    exact hs q a ha b hb hne k hk

/-! ## An instance is kept -/

theorem calls_exec (c : Call) (s : State) : (exec env c s).2.calls = s.calls ++ [c] := rfl

def Kept (m : Service × String) (old : Settings) (since : Nat) (s : State) : Prop :=
  since ≤ s.calls.length ∧ ∃ cfg, (s.instances m.1).get? m.2 = some cfg ∧
    ∀ k, k ≠ "port" → NotSet m k (s.calls.drop since) → cfg.get? k = old.get? k

variable {m : Service × String}

theorem notSet_append {calls : List Call} {c : Call} (h : since ≤ calls.length)
    (hset : NotSet m k ((calls ++ [c]).drop since)) : NotSet m k (calls.drop since) ∧ NotSet m k [c] := by
  rw [List.drop_append_of_le_length h] at hset
  exact ⟨fun c' hc => hset c' (List.mem_append_left _ hc), fun c' hc => hset c' (List.mem_append_right _ hc)⟩

theorem Kept.exec {old : Settings} {n : Nat} {s : State} {c : Call} (h : Kept m old n s)
    (hc : ∀ cfg, (s.instances m.1).get? m.2 = some cfg → ∃ cfg', ((exec env c s).2.instances m.1).get? m.2 = some cfg' ∧
      ∀ k, k ≠ "port" → NotSet m k [c] → cfg'.get? k = cfg.get? k) : Kept m old n (exec env c s).2 := by
  obtain ⟨hle, cfg, hget, hsame⟩ := h
  obtain ⟨cfg', hget', hsame'⟩ := hc cfg hget
  refine ⟨by rw [calls_exec, List.length_append]; omega, cfg', hget', fun k hk hset => ?_⟩
  obtain ⟨hbefore, hnow⟩ := notSet_append hle hset
  rw [hsame' k hk hnow, hsame k hk hbefore]

theorem applyOptions_other : ∀ {options cfg : Settings}, (∀ option ∈ options, option.1 = k → option.2 = .null) →
    (applyServiceOptions cfg options).get? k = cfg.get? k
  | [], _, _ => rfl
  | option :: options, cfg, h => by
    rw [applyServiceOptions, List.foldl_cons, ← applyServiceOptions,
      applyOptions_other fun o ho => h o (List.mem_cons_of_mem _ ho)]
    unfold applyOption
    split
    · rfl
    · next hnull =>
      split
      · rfl
      · exact Dict.get?_set_ne (fun hk => hnull (h option List.mem_cons_self hk.symm)) _ _

theorem get?_modified (s : State) (service : Service) (name : String) (f : Settings → Settings) (m : Service × String)
    (cfg : Settings) (h : (s.instances m.1).get? m.2 = some cfg) :
    (s.modify service name f m.1).get? m.2 = some (if (service, name) = m then f cfg else cfg) := by
  rw [State.modify, State.update]
  by_cases hservice : m.1 = service
  · rw [if_pos hservice, get?_modify, h]
    by_cases hname : m.2 = name
    · rw [if_pos hname, if_pos (Prod.ext hservice.symm hname.symm)]
      rfl
    · rw [if_neg hname, if_neg fun heq => hname (congrArg Prod.snd heq).symm]
  · rw [if_neg hservice, h, if_neg fun heq => hservice (congrArg Prod.fst heq).symm]

theorem kept_steady {old : Settings} {n : Nat} (hm : m ∈ earlier) :
    Steady env (Clear env earlier since) (Kept m old n) := by
  intro c s hs hC hproper
  apply hs.exec
  intro cfg hget
  have hinst : instOf m.1 m.2 s = cfg := by rw [instOf, hget, Option.getD_some]
  cases c with
  | purge service =>
    refine ⟨cfg, ?_, fun _ _ _ => rfl⟩
    simp only [Onboarding.exec, State.update]
    split
    · next hservice =>
      have hne : m.2 ≠ (env.template service).name := by
        intro hname
        have heq : m = (service, (env.template service).name) := Prod.ext hservice hname
        exact hC.1 (heq ▸ hm)
      rw [Dict.get?_filter (fun k => k ≠ (env.template service).name)]
      simp [hne, hget]
    · exact hget
  | add service name new =>
    refine ⟨cfg, ?_, fun _ _ _ => rfl⟩
    simp only [Onboarding.exec, State.update]
    split
    · next hservice =>
      have hne : m.2 ≠ name := by
        rintro rfl
        exact hproper (hservice ▸ Dict.mem_keys.2 (by simp [hget]))
      rw [Dict.get?_set_ne hne, hget]
    · exact hget
  | configure service name options =>
    refine ⟨_, get?_modified s service name (fun cfg => applyServiceOptions (enable cfg) options) m cfg hget, fun k _ hset => ?_⟩
    split
    · next heq =>
      have hnull := hset (.configure service name options) List.mem_cons_self heq
      rw [applyOptions_other hnull]
      by_cases hk : k = "enabled"
      · have htruthy : (setting cfg "enabled").truthy = true := by
          subst heq
          rcases hC.2 hm with htruthy | ⟨option, ho, hkey, hsome⟩
          · rwa [hinst] at htruthy
          · rw [hnull option ho (hkey.trans hk.symm)] at hsome
            cases hsome
        rw [setting] at htruthy
        rw [enable, if_pos htruthy]
      · exact enable_other hk cfg
    · rfl
  | port service name value =>
    refine ⟨_, get?_modified s service name (fun cfg => cfg.set "port" value) m cfg hget, fun k hk _ => ?_⟩
    split
    · exact Dict.get?_set_ne hk _ _
    · rfl
  | postgres service name key value =>
    refine ⟨_, get?_modified s service name (fun cfg => cfg.set key value) m cfg hget, fun k _ _ => ?_⟩
    split
    · next heq =>
      subst heq
      have hsame := hC hm
      rw [hinst] at hsame
      rw [Dict.get?_set]
      split
      · next hk => rw [hk, hsame]
      · rfl
    · rfl
  | reload =>
    refine ⟨reloaded env cfg, ?_, fun k _ _ => ?_⟩
    · simp only [Onboarding.exec]
      rw [Dict.get?_map_values, hget]
      rfl
    · have hsame := hC m hm
      rw [hinst] at hsame
      rw [hsame]

/-! ## What was added is there -/

theorem added_append (calls : List Call) (c : Call) : added (calls ++ [c]) = added calls ++ added [c] := List.filterMap_append

theorem mem_keys_modify {s : State} {service : Service}
    (h : m.2 ∈ Dict.keys (s.instances m.1)) : m.2 ∈ Dict.keys (s.modify service name f m.1) := by
  obtain ⟨cfg, hget⟩ := Option.ne_none_iff_exists'.1 (Dict.mem_keys.1 h)
  rw [Dict.mem_keys, get?_modified s service name f m cfg hget]
  exact Option.some_ne_none _

theorem added_steady (m : Service × String) : Steady env (Clear env earlier since) fun s => since ≤ s.calls.length ∧
    (m ∈ added (s.calls.drop since) → m.2 ∈ Dict.keys (s.instances m.1)) := by
  rintro c s ⟨hle, hs⟩ hC hproper
  refine ⟨by rw [calls_exec, List.length_append]; omega, fun hadded => ?_⟩
  rw [calls_exec, List.drop_append_of_le_length hle, added_append, List.mem_append] at hadded
  cases c with
  | purge service =>
    have hmem := hadded.resolve_right List.not_mem_nil
    have hkey := hs hmem
    simp only [Onboarding.exec, State.update]
    split
    · next hservice =>
      have hne : m.2 ≠ (env.template service).name := by
        intro hname
        have heq : m = (service, (env.template service).name) := Prod.ext hservice hname
        exact hC.2 (heq ▸ hmem)
      obtain ⟨o, ho, hname⟩ := List.mem_map.1 hkey
      exact List.mem_map.2 ⟨o, List.mem_filter.2 ⟨ho, by simpa [hname] using hne⟩, hname⟩
    · exact hkey
  | add service name cfg =>
    simp only [Onboarding.exec, State.update]
    rcases hadded with hmem | hmem
    · split
      · rw [Dict.mem_keys, Dict.get?_set]
        split
        · exact Option.some_ne_none _
        · exact Dict.mem_keys.1 (hs hmem)
      · exact hs hmem
    · obtain rfl : m = (service, name) := by simpa [added] using hmem
      rw [if_pos rfl, Dict.mem_keys, Dict.get?_set_self]
      exact Option.some_ne_none _
  | configure service name options =>
    have hkey := hs (hadded.resolve_right List.not_mem_nil)
    exact mem_keys_modify (f := fun cfg => applyServiceOptions (enable cfg) options) hkey
  | port service name value =>
    have hkey := hs (hadded.resolve_right List.not_mem_nil)
    exact mem_keys_modify (f := fun cfg => cfg.set "port" value) hkey
  | postgres service name key value =>
    have hkey := hs (hadded.resolve_right List.not_mem_nil)
    exact mem_keys_modify (f := fun cfg => cfg.set key value) hkey
  | reload =>
    have hkey := hs (hadded.resolve_right List.not_mem_nil)
    rw [Dict.mem_keys] at hkey ⊢
    simp only [Onboarding.exec]
    rw [Dict.get?_map_values]
    simpa using hkey

end Dumb.Onboarding
