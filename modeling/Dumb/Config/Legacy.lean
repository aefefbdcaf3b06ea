import Dumb.Config.Lemmas.Huntarr

/-!
# A huntarr configuration after startup

The update cuts the configuration back to the shipped keys before the rename looks at it.
-/

namespace Dumb.Config

open Py Py.Json

variable {text : Text}

def neutarrDefault : Json := getPath ["neutarr", "instances", "Default"] (.obj Shipped.config)

def huntarrInstances (members : List (String × Json)) : List (String × Json) :=
  match at? ["huntarr", "instances"] (.obj members) with
  | some (.obj instances) => instances
  | _ => []

/-- `v` has every value of `w` at a key that the shipped instance has. -/
def Retained (w v : Json) : Prop :=
  ∀ path x dx, at? path w = some x → templateAt path neutarrDefault = some dx → Whole x dx → at? path v = some x

/-- The neutarr instances are those of huntarr under their new names, and the flags of the Arr instances are
what they were. -/
structure LegacyKept (members config : List (String × Json)) : Prop where
  instances : "huntarr" ∈ Dict.keys members → "neutarr" ∉ Dict.keys members → ∃ vs,
    at? ["neutarr", "instances"] (.obj config) = some (.obj vs) ∧
    Dict.keys vs = Dict.keys (huntarrInstances members) ∧
    ∀ name w, Dict.get? name (huntarrInstances members) = some w → ∃ renamed changed v,
      renameInstance w = some (renamed, changed) ∧ Dict.get? name vs = some v ∧ Retained renamed v
  flags : ∀ key ∈ flagKeys, ∀ name b, at? [key, "instances", name, "use_huntarr"] (.obj members) = some b →
    at? [key, "instances", name, "use_neutarr"] (.obj config) = some b

/-- The user's huntarr has only the shipped instance, with the shipped values, and a flag says what the instance
says of neutarr already. -/
structure LegacyAgrees (text : Text) (members : List (String × Json)) : Prop where
  instances : "huntarr" ∈ Dict.keys members → "neutarr" ∉ Dict.keys members →
    Dict.keys (huntarrInstances members) = ["Default"] ∧
    ∀ w, Dict.get? "Default" (huntarrInstances members) = some w → ∃ renamed changed,
      renameInstance w = some (renamed, changed) ∧ Retained renamed neutarrDefault
  flags : ∀ key ∈ flagKeys, ∀ name b, at? [key, "instances", name, "use_huntarr"] (.obj members) = some b →
    key ≠ "eros" ∧ b = ((at? [key, "instances", name, "use_neutarr"] (.obj members)).map
      (runtimeValue text [key, "instances", name, "use_neutarr"])).getD (.bool false)

theorem shipped_neutarr : Dict.get? "neutarr" Shipped.config =
    some (.obj [("instances", .obj [("Default", neutarrDefault)])]) := rfl

theorem rename_neutarrDefault : renameInstance neutarrDefault = some (neutarrDefault, false) := rfl

theorem canonical_get? {members existing : List (String × Json)}
    (h : canonicalizeRuntimeConfig text (.obj members) = some (.obj existing)) {k : String} (hk : k ≠ infinidyskKey)
    (hl : k ≠ infinidyskLegacyKey) (hv : k ≠ "release_version") (hget : Dict.get? k members = none) :
    Dict.get? k existing = none := by
  have hat := @canonical_at? text members existing h k [] hk hl (by simpa using hv.symm)
  rw [at?_cons_obj, at?_cons_obj, hget] at hat
  cases he : Dict.get? k existing with
  | none => rfl
  | some v => simp [he] at hat

theorem neutarr_shipped {members existing ds cs config : List (String × Json)} {here : Bool} (ht : Template ds)
    (hcanon : canonicalizeRuntimeConfig text (.obj members) = some (.obj existing))
    (hnode : Node Fits ds (migrate text existing) cs) (hrename : renameInstances cs = some (config, here))
    (hno : "neutarr" ∉ Dict.keys members) :
    at? ["neutarr", "instances"] (.obj config) = some (.obj [("Default", neutarrDefault)]) := by
  have hexisting : Dict.get? "neutarr" existing = none :=
    canonical_get? hcanon (by decide) (by decide) (by decide) (by simpa using Dict.mem_keys.not.1 hno)
  have hcs : Dict.get? "neutarr" cs = some (.obj [("instances", .obj [("Default", neutarrDefault)])]) := by
    refine hnode.absent _ _ ((ht.other _ (by decide)).trans shipped_neutarr) (by decide) ?_
    rw [get?_migrate_other (by decide) (by decide), hexisting]
  have hself : onInstances renameInstance [("Default", neutarrDefault)] = some ([("Default", neutarrDefault)], false) :=
    onInstances_self fun m hm => by
      obtain rfl : m = ("Default", neutarrDefault) := by simpa using hm
      exact rename_neutarrDefault
  simp only [renameInstances, hcs, Dict.get?, if_true, hself, Option.map_some, Option.some.injEq, Prod.mk.injEq] at hrename
  obtain ⟨rfl, -⟩ := hrename
  simp [at?_cons_obj, Dict.set, Dict.get?]

theorem runtimeValue_obj {k : String} {path : List String} (us : List (String × Json)) : ∃ us',
    runtimeValue text (k :: path) (.obj us) = .obj us' ∧ ∀ q, q ≠ "release_version" →
      Dict.get? q us' = (Dict.get? q us).map (runtimeValue text (k :: (path ++ [q]))) := by
  have hnormal : ∀ ms : List (String × Json), ∃ us', normalizeReleaseSelectors text (.obj ms) = .obj us' ∧
      ∀ q, q ≠ "release_version" → Dict.get? q us' = (Dict.get? q ms).map (normalizeReleaseSelectors text) := by
    intro ms
    refine ⟨_, normalize_obj ms, fun q hq => ?_⟩
    split
    · rw [Dict.get?_set_ne hq, Dict.get?_map_values]
    · rw [Dict.get?_map_values]
  by_cases hz : text.lower k = "zurg"
  · obtain ⟨us', hus, hget⟩ := hnormal us
    refine ⟨us', by simp [runtimeValue, hz, hus], fun q hq => ?_⟩
    rw [hget q hq]
    cases Dict.get? q us <;> simp [runtimeValue, hz]
  · obtain ⟨us', hus, hget⟩ := hnormal (us.map fun m => (m.1, mapChild text infinidyskKey m.1 m.2))
    refine ⟨us', by simp only [runtimeValue, hz, if_false, mapChild_obj, hus], fun q hq => ?_⟩
    rw [hget q hq, Dict.get?_map_items (mapChild text infinidyskKey)]
    cases Dict.get? q us <;> simp [runtimeValue, hz]

theorem flag_own {members existing ds cs config us : List (String × Json)} {here : Bool} {key name : String}
    (ht : Template ds) (hcanon : canonicalizeRuntimeConfig text (.obj members) = some (.obj existing))
    (hnode : Node Fits ds (migrate text existing) cs) (hrename : renameInstances cs = some (config, here))
    (hk : key ∈ flagServices) (hu : at? [key, "instances", name] (.obj members) = some (.obj us)) (hne : us ≠ []) :
    at? [key, "instances", name, "use_neutarr"] (.obj config) =
      some (((at? [key, "instances", name, "use_neutarr"] (.obj members)).map
        (runtimeValue text [key, "instances", name, "use_neutarr"])).getD (.bool false)) := by
  obtain ⟨default, tms, hd, hflag, -⟩ := shipped_flag key hk
  have hkey : key ≠ "decypharr" ∧ key ≠ "instances" ∧ key ≠ "env" ∧ key ≠ "neutarr" ∧ runtimeKey key = key ∧
      key ≠ "release_version" ∧ key ∉ migratedKeys := by
    simp only [flagServices, List.mem_cons, List.not_mem_nil, or_false] at hk
    rcases hk with rfl | rfl | rfl | rfl <;> decide
  obtain ⟨hdec, hi, he, hneutarr, hcurrent, hversion, hmig⟩ := hkey
  rw [← ht.other _ hdec] at hd
  -- an instance with something in it is not a blank release version
  have hblank : blankAt text [key, "instances", name] (.obj members) = false := by
    rw [at?_cons_obj, Option.bind_eq_some_iff] at hu
    obtain ⟨j, hj, hu⟩ := hu
    cases j with
    | obj ss =>
      rw [at?_cons_obj, Option.bind_eq_some_iff] at hu
      obtain ⟨i, hinst, hu⟩ := hu
      cases i with
      | obj ws =>
        rw [at?_cons_obj, Option.bind_eq_some_iff] at hu
        obtain ⟨u, hu, heq⟩ := hu
        cases heq
        simp only [blankAt, hj, hinst, Bool.and_eq_false_iff, decide_eq_false_iff_not]
        by_cases hname : name = "release_version"
        · right
          rw [blankSelector_iff]
          intro _ _ _
          refine ⟨_, hname ▸ hu, ?_⟩
          rw [text.blank_obj]
          simpa using hne
        · exact .inl hname
      | _ => cases hu
    | _ => cases hu
  have hruntime := canonical_keeps hcanon hversion hu hblank
  rw [hcurrent] at hruntime
  obtain ⟨us₁, hus₁, hfield₁⟩ := @runtimeValue_obj text key ["instances", name] us
  rw [hus₁] at hruntime
  obtain ⟨us₂, hus₂, hfield₂⟩ := @migrate_instance text key hmig name us₁ existing hruntime
  rw [at?_cons_obj, Option.bind_eq_some_iff] at hus₂
  obtain ⟨j, hj, hus₂⟩ := hus₂
  cases j with
  | obj ss =>
    have hown := hnode.instance_field hd hi he hflag rfl (by decide) (by decide) hj hus₂
    rw [hfield₂ _ (by decide), hfield₁ _ (by decide)] at hown
    have hlast : at? ([key, "instances", name] ++ ["use_neutarr"]) (.obj members) = Dict.get? "use_neutarr" us :=
      at?_last hu
    rw [at?_cons_obj, renameInstances_other hrename hneutarr, ← at?_cons_obj, hown]
    simpa using congrArg (fun x => some ((Option.map (runtimeValue text [key, "instances", name, "use_neutarr"]) x).getD
      (.bool false))) hlast.symm
  | _ => cases hus₂

/-- What startup makes of a huntarr configuration. -/
theorem legacy_kept_iff (text : Text) (members config : List (String × Json)) (backup : Option Json)
    (h : initialConfig text Shipped.config ⟨.obj members, backup⟩ = some config) :
    LegacyKept members config ↔ LegacyAgrees text members := by
  obtain ⟨existing, cs, here, hcanon, hnode, hrename⟩ := initialConfig_some h
  have ht := @trimDefault_template text (migrate text existing)
  have hflag : ∀ key name b, key ∈ flagServices →
      at? [key, "instances", name, "use_huntarr"] (.obj members) = some b →
      at? [key, "instances", name, "use_neutarr"] (.obj config) =
        some (((at? [key, "instances", name, "use_neutarr"] (.obj members)).map
          (runtimeValue text [key, "instances", name, "use_neutarr"])).getD (.bool false)) := by
    intro key name b hk hb
    obtain ⟨us, hu, hget⟩ := (@at?_snoc [key, "instances", name] _ _ _).1 hb
    refine flag_own ht hcanon hnode hrename hk hu ?_
    rintro rfl
    cases hget
  have heros : ∀ name, at? ["eros", "instances", name, "use_neutarr"] (.obj config) = none := by
    intro name
    have hnone : Dict.get? "eros" cs = none := hnode.lacks ((ht.other _ (by decide)).trans shipped_legacy.2)
    rw [at?_cons_obj, renameInstances_other hrename (by decide), hnone]
    rfl
  constructor
  · intro hkept
    refine ⟨fun hold hno => ?_, fun key hk name b hb => ?_⟩
    · obtain ⟨vs, hvs, hkeys, hinst⟩ := hkept.instances hold hno
      rw [neutarr_shipped ht hcanon hnode hrename hno] at hvs
      cases hvs
      refine ⟨hkeys.symm, fun w hw => ?_⟩
      obtain ⟨renamed, changed, v, hrenamed, hv, hret⟩ := hinst "Default" w hw
      obtain rfl : neutarrDefault = v := by simpa [Dict.get?] using hv
      exact ⟨renamed, changed, hrenamed, hret⟩
    · have hb' := hkept.flags key hk name b hb
      have hne : key ≠ "eros" := by
        rintro rfl
        rw [heros] at hb'
        cases hb'
      refine ⟨hne, ?_⟩
      have hk' : key ∈ flagServices := by simpa [flagKeys, flagServices, hne] using hk
      rw [hflag key name b hk' hb, Option.some.injEq] at hb'
      exact hb'.symm
  · intro hagrees
    refine ⟨fun hold hno => ?_, fun key hk name b hb => ?_⟩
    · obtain ⟨hkeys, hinst⟩ := hagrees.instances hold hno
      refine ⟨_, neutarr_shipped ht hcanon hnode hrename hno, hkeys.symm, fun name w hw => ?_⟩
      have hmem : name ∈ Dict.keys (huntarrInstances members) := Dict.mem_keys.2 (by simp [hw])
      obtain rfl : name = "Default" := by simpa [hkeys] using hmem
      obtain ⟨renamed, changed, hrenamed, hret⟩ := hinst w hw
      exact ⟨renamed, changed, neutarrDefault, hrenamed, by simp [Dict.get?], hret⟩
    · obtain ⟨hne, hb'⟩ := hagrees.flags key hk name b hb
      have hk' : key ∈ flagServices := by simpa [flagKeys, flagServices, hne] using hk
      rw [hflag key name b hk' hb, hb']

def huntarrFile : List (String × Json) :=
  [("huntarr", .obj [("instances", .obj [("Default", .obj [("enabled", .bool true), ("port", .int 9800)])])])]

theorem startup_port : ∃ config, initialConfig .ascii Shipped.config ⟨.obj huntarrFile, none⟩ = some config ∧
    (at? ["neutarr", "instances", "Default", "port"] (.obj config)).bind asInt = some 9705 := by
  have hport : ((initialConfig .ascii Shipped.config ⟨.obj huntarrFile, none⟩).map fun config =>
      (at? ["neutarr", "instances", "Default", "port"] (.obj config)).bind asInt) = some (some 9705) := by
    decide +kernel
  exact Option.map_eq_some_iff.1 hport

theorem legacy_kept_port : ∃ config, initialConfig .ascii Shipped.config ⟨.obj huntarrFile, none⟩ = some config ∧
    (LegacyKept huntarrFile config ↔ LegacyAgrees .ascii huntarrFile) := by
  obtain ⟨config, h, -⟩ := startup_port
  exact ⟨config, h, legacy_kept_iff .ascii huntarrFile config none h⟩

/-- The port is lost. -/
theorem legacy_loses_port : ∃ config, initialConfig .ascii Shipped.config ⟨.obj huntarrFile, none⟩ = some config ∧
    ¬ LegacyKept huntarrFile config := by
  obtain ⟨config, h, hvalue⟩ := startup_port
  refine ⟨config, h, fun hkept => ?_⟩
  obtain ⟨vs, hvs, -, hinst⟩ := hkept.instances (by decide) (by decide)
  obtain ⟨renamed, changed, v, hrenamed, hv, hret⟩ := hinst "Default" _ rfl
  cases hrenamed
  have hkeep := hret ["port"] (.int 9800) (.int 9705) rfl rfl (.inl rfl)
  rw [at?_cons_obj, Option.bind_eq_some_iff] at hvs
  obtain ⟨j, hj, hvs⟩ := hvs
  cases j with
  | obj service =>
    rw [at?_cons_obj, Option.bind_eq_some_iff] at hvs
    obtain ⟨i, hi, hvs⟩ := hvs
    cases hvs
    simp [hj, hi, hv, hkeep] at hvalue
  | _ => cases hvs

end Dumb.Config
