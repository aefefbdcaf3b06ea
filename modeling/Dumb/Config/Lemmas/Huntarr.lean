import Dumb.Config.Huntarr
import Dumb.Config.Theorems

/-!
# What is left for the rename after an update

The update has taken `huntarr` and `use_huntarr` out, so of the rename only the environment blocks of a neutarr
service that was there before can still change.
-/

namespace Dumb.Config

open Py Py.Json

variable {text : Text}

/-! ## Values of the file, where they are not there as well -/

theorem at?_normalize_eq : ∀ {path : List String}, "release_version" ∉ path → ∀ j : Json,
    at? path (normalizeReleaseSelectors text j) = (at? path j).map (normalizeReleaseSelectors text)
  | [], _, j => by simp
  | k :: path, h, j => by
    obtain ⟨hk, hpath⟩ := not_or.1 (List.mem_cons.not.1 h)
    cases hj : j.isObj with
    | false => rw [at?_no_obj hj, at?_no_obj ((isObj_normalize j).trans hj), Option.map_none]
    | true =>
      obtain ⟨ms, rfl⟩ := isObj_iff.1 hj
      have hget : Dict.get? k (if blankSelector text ms then
          Dict.set "release_version" (.str "latest") (ms.map fun m => (m.1, normalizeReleaseSelectors text m.2))
          else ms.map fun m => (m.1, normalizeReleaseSelectors text m.2)) =
            (Dict.get? k ms).map (normalizeReleaseSelectors text) := by
        split
        · rw [Dict.get?_set_ne (Ne.symm hk), Dict.get?_map_values]
        · rw [Dict.get?_map_values]
      rw [normalize_obj, at?_cons_obj, at?_cons_obj, hget]
      cases Dict.get? k ms with
      | none => rfl
      | some w => simp [at?_normalize_eq hpath]

theorem get?_runtimeKey_other {k : String} (hk : k ≠ infinidyskKey) (hl : k ≠ infinidyskLegacyKey) :
    ∀ members : List (String × Json),
      Dict.get? k (members.map fun m => (runtimeKey m.1, m.2)) = Dict.get? k members
  | [] => rfl
  | m :: members => by
    have ih := get?_runtimeKey_other hk hl members
    by_cases hm : m.1 = infinidyskLegacyKey
    · simp [Dict.get?, runtimeKey, hm, Ne.symm hk, Ne.symm hl, ← ih]
    · by_cases hmk : m.1 = k
      · simp [Dict.get?, runtimeKey, hmk, hl]
      · simp [Dict.get?, runtimeKey, hm, hmk, ← ih]

theorem get?_identity {members ms : List (String × Json)} {k : String}
    (h : mapInfinidyskIdentity infinidyskKey (.obj members) = some (.obj ms)) (hk : k ≠ infinidyskKey)
    (hl : k ≠ infinidyskLegacyKey) : Dict.get? k ms = Dict.get? k members := by
  simp only [mapInfinidyskIdentity, if_true] at h
  split at h
  · cases h
  · split at h
    · cases h
      rfl
    · cases h
      exact get?_runtimeKey_other hk hl members

theorem canonical_at? {members existing : List (String × Json)}
    (h : canonicalizeRuntimeConfig text (.obj members) = some (.obj existing)) {k : String} {path : List String}
    (hk : k ≠ infinidyskKey) (hl : k ≠ infinidyskLegacyKey) (hpath : "release_version" ∉ k :: path) :
    at? (k :: path) (.obj existing) = (at? (k :: path) (.obj members)).map (runtimeValue text (k :: path)) := by
  simp only [canonicalizeRuntimeConfig, Option.map_eq_some_iff] at h
  obtain ⟨mapped, hmapped, hexisting⟩ := h
  obtain ⟨ms, rfl⟩ := identity_obj hmapped
  rw [← hexisting, at?_normalize_eq hpath, at?_tokens, at?_cons_obj, get?_identity hmapped hk hl, ← at?_cons_obj,
    Option.map_map]
  rfl

theorem keepSqlite_other (us : List (String × Json)) : ∃ us', keepSqlite (.obj us) = .obj us' ∧
    ∀ q, q ≠ "postgres_enabled" → Dict.get? q us' = Dict.get? q us := by
  simp only [keepSqlite]
  split
  · exact ⟨us, rfl, fun _ _ => rfl⟩
  · exact ⟨_, rfl, fun q hq => Dict.get?_set_ne hq _ _⟩

theorem migrateArr_instance {k n : String} {us config : List (String × Json)}
    (h : at? [k, "instances", n] (.obj config) = some (.obj us)) : ∃ us',
      at? [k, "instances", n] (.obj (migrateArr config)) = some (.obj us') ∧
        ∀ q, q ≠ "postgres_enabled" → Dict.get? q us' = Dict.get? q us := by
  unfold migrateArr
  generalize arrKeys = keys
  induction keys generalizing config us with
  | nil => exact ⟨us, h, fun _ _ => rfl⟩
  | cons key keys ih =>
    have hstep : ∃ us', at? [k, "instances", n] (.obj (modify key (modify "instances" fun instances =>
        instances.map fun m => (m.1, keepSqlite m.2)) config)) = some (.obj us') ∧
          ∀ q, q ≠ "postgres_enabled" → Dict.get? q us' = Dict.get? q us := by
      rw [at?_cons_obj, get?_modify]
      split
      · rename_i hk
        subst hk
        rw [at?_cons_obj, Option.bind_eq_some_iff] at h
        obtain ⟨j, hj, h⟩ := h
        cases j with
        | obj ss =>
          rw [at?_cons_obj, Option.bind_eq_some_iff] at h
          obtain ⟨i, hi, h⟩ := h
          cases i with
          | obj ws =>
            rw [at?_cons_obj, Option.bind_eq_some_iff] at h
            obtain ⟨u, hu, h⟩ := h
            cases h
            obtain ⟨us', hkeep, hother⟩ := keepSqlite_other us
            refine ⟨us', ?_, hother⟩
            simp [hj, onObj, at?_cons_obj, get?_modify, hi, Dict.get?_map_values, hu, hkeep]
          | _ => cases h
        | _ => cases h
      · exact ⟨us, h, fun _ _ => rfl⟩
    obtain ⟨us₁, h₁, hsame₁⟩ := hstep
    obtain ⟨us₂, h₂, hsame₂⟩ := ih h₁
    exact ⟨us₂, h₂, fun q hq => (hsame₂ q hq).trans (hsame₁ q hq)⟩

def migratedKeys : List String := ["bazarr", "mediastorm", infinidyskKey, "decypharr"]

section
variable {k : String} (hk : k ∉ migratedKeys)
include hk

theorem get?_migrate_other (ha : k ∉ arrKeys) (existing : List (String × Json)) :
    Dict.get? k (migrate text existing) = Dict.get? k existing := by
  have hne : k ≠ "bazarr" ∧ k ≠ "mediastorm" ∧ k ≠ infinidyskKey ∧ k ≠ "decypharr" := by
    simpa [migratedKeys] using hk
  rw [migrate, get?_migrateArr ha]
  simp [get?_modify, hne]

theorem migrate_instance {n : String} {us existing : List (String × Json)}
    (h : at? [k, "instances", n] (.obj existing) = some (.obj us)) : ∃ us',
      at? [k, "instances", n] (.obj (migrate text existing)) = some (.obj us') ∧
        ∀ q, q ≠ "postgres_enabled" → Dict.get? q us' = Dict.get? q us := by
  have hne : k ≠ "bazarr" ∧ k ≠ "mediastorm" ∧ k ≠ infinidyskKey ∧ k ≠ "decypharr" := by
    simpa [migratedKeys] using hk
  refine migrateArr_instance ?_
  rw [at?_cons_obj] at h ⊢
  simpa [get?_modify, hne] using h

end

/-! ## What the update left of the flags -/

def flagServices : List String := ["sonarr", "radarr", "lidarr", "whisparr"]

theorem shipped_flag : ∀ key ∈ flagServices, ∃ name tms,
    Dict.get? key Shipped.config = some (.obj [("instances", .obj [(name, .obj tms)])]) ∧
      Dict.get? "use_neutarr" tms = some (.bool false) ∧ Dict.get? "use_huntarr" tms = none := by
  intro key hk
  simp only [flagServices, List.mem_cons, List.not_mem_nil, or_false] at hk
  rcases hk with rfl | rfl | rfl | rfl <;> exact ⟨_, _, rfl, rfl, rfl⟩

theorem Node.instance_field {ds es cs tms ss us : List (String × Json)} {key name n q : String} {dv : Json}
    (h : Node Fits ds es cs) (hd : Dict.get? key ds = some (.obj [("instances", .obj [(name, .obj tms)])]))
    (hi : key ≠ "instances") (he : key ≠ "env") (hq : Dict.get? q tms = some dv) (hleaf : dv.isObj = false)
    (hqi : q ≠ "instances") (hqe : q ≠ "env") (hs : Dict.get? key es = some (.obj ss))
    (hu : at? ["instances", n] (.obj ss) = some (.obj us)) :
    at? [key, "instances", n, q] (.obj cs) = some ((Dict.get? q us).getD dv) := by
  have htms : tms ≠ [] := by
    rintro rfl
    cases hq
  obtain ⟨v, hv⟩ := h.get? hd
  have hfits := h.value _ _ _ _ hd hi (by simp [he]) hs hv
  obtain ⟨vs, rfl, hservice⟩ := hfits.to_node (List.cons_ne_nil _ _)
  rw [at?_cons_obj, Option.bind_eq_some_iff] at hu
  obtain ⟨j, hj, hu⟩ := hu
  cases j with
  | obj ws =>
    rw [at?_cons_obj] at hu
    have htrue : (Json.obj ws).truthy = true := by
      cases ws with
      | nil => cases hu
      | cons w ws => rfl
    obtain ⟨ws', xs, heq, hxs, hkeys⟩ := hservice.instKeys _ _ _ _ rfl hj htrue
    cases heq
    have hrows : Dict.Rows (Fits (.obj tms)) ws xs := ⟨hkeys, hservice.inst _ _ _ _ _ rfl hj htrue hxs⟩
    rcases hrows.get? (k := n) with ⟨hnone, -⟩ | ⟨w, y, hw, hy, hfits⟩
    · rw [hnone] at hu
      cases hu
    · rw [hw, Option.bind_some, at?_nil, Option.some.injEq] at hu
      subst hu
      obtain ⟨ys, rfl, hinst⟩ := hfits.to_node htms
      simp [at?_cons_obj, hv, hxs, hy, hinst.scalar hq hleaf hqi hqe]
  | _ => cases hu

/-! ## Nothing to rename -/

theorem onInstances_self {f : Json → Option (Json × Bool)} : ∀ {instances : List (String × Json)},
    (∀ m ∈ instances, f m.2 = some (m.2, false)) → onInstances f instances = some (instances, false)
  | [], _ => rfl
  | m :: instances, h => by
    rw [onInstances, h m List.mem_cons_self, onInstances_self fun m hm => h m (List.mem_cons_of_mem _ hm)]
    rfl

theorem renameFlag_self {j : Json} (h : ∀ us, j = .obj us → Dict.get? "use_huntarr" us = none) :
    renameFlag j = (j, false) := by
  cases j with
  | obj us => simp [renameFlag, h us rfl]
  | _ => rfl

theorem renameFlags_absent {key : String} {config : List (String × Json)} (h : Dict.get? key config = none) :
    renameFlags key config = some (config, false) := by
  rw [renameFlags, h]

theorem Node.renameFlags {ds es cs config : List (String × Json)} {key : String} (ht : Template ds)
    (h : Node Fits ds es cs) (hk : key ∈ flagServices) (hsame : Dict.get? key config = Dict.get? key cs) :
    renameFlags key config = some (config, false) := by
  obtain ⟨name, tms, hd, -, hold⟩ := shipped_flag key hk
  have hne : key ≠ "decypharr" ∧ key ≠ "instances" ∧ key ≠ "env" := by
    simp only [flagServices, List.mem_cons, List.not_mem_nil, or_false] at hk
    rcases hk with rfl | rfl | rfl | rfl <;> decide
  rw [← ht.other _ hne.1] at hd
  have htms : tms ≠ [] := by
    obtain ⟨_, _, hd', hon, -⟩ := shipped_flag key hk
    rw [ht.other _ hne.1, hd'] at hd
    cases hd
    rintro rfl
    cases hon
  have hservice := h.service (S := fun vs => ∃ xs, Dict.get? "instances" vs = some (.obj xs) ∧
      ∀ m ∈ xs, ∀ us, m.2 = .obj us → Dict.keys us = Dict.keys tms) hd hne.2.1 hne.2.2 nofun
    ⟨_, rfl, fun m hm us hus => by
      obtain rfl : m = (name, .obj tms) := by simpa using hm
      cases hus
      rfl⟩ fun ws vs _ hnode => hnode.instances rfl htms
  unfold Config.renameFlags
  split
  · rename_i service hget
    rw [hsame] at hget
    obtain ⟨xs, hxs, hkeys⟩ := hservice service hget
    simp only [hxs, Option.getD_some]
    split
    · rw [onInstances_self, Option.map_some, Dict.set_self hxs, Dict.set_self (hsame ▸ hget)]
      intro m hm
      rw [renameFlag_self]
      intro us hus
      by_contra hold'
      exact Dict.mem_keys.1 (hkeys m hm us hus ▸ Dict.mem_keys.2 hold') hold
    · rfl
  · rfl

theorem renameInstances_other {config result : List (String × Json)} {changed : Bool}
    (h : renameInstances config = some (result, changed)) (hk : k ≠ "neutarr") :
    Dict.get? k result = Dict.get? k config := by
  unfold renameInstances at h
  split at h
  · split at h
    · rw [Option.map_eq_some_iff] at h
      obtain ⟨x, -, hx⟩ := h
      cases hx
      exact Dict.get?_set_ne hk _ _
    · cases h
      rfl
  · cases h
    rfl

theorem shipped_legacy : Dict.get? "huntarr" Shipped.config = none ∧ Dict.get? "eros" Shipped.config = none :=
  ⟨rfl, rfl⟩

theorem Node.migrateHuntarr {ds es cs config : List (String × Json)} {changed : Bool} (ht : Template ds)
    (h : Node Fits ds es cs) (hm : migrateHuntarrToNeutarr cs = some (config, changed)) :
    ∃ here, renameInstances cs = some (config, here) := by
  have hold : Dict.get? "huntarr" cs = none := h.lacks ((ht.other _ (by decide)).trans shipped_legacy.1)
  have heros : Dict.get? "eros" cs = none := h.lacks ((ht.other _ (by decide)).trans shipped_legacy.2)
  simp only [migrateHuntarrToNeutarr, renameService, hold, Option.bind_eq_bind, Option.bind_eq_some_iff] at hm
  obtain ⟨⟨renamed, here⟩, hrenamed, ⟨result, flags⟩, hflags, heq⟩ := hm
  have hother : ∀ k, k ≠ "neutarr" → Dict.get? k renamed = Dict.get? k cs :=
    fun k hk => renameInstances_other hrenamed hk
  have hself : ∀ key ∈ flagServices, Config.renameFlags key renamed = some (renamed, false) := fun key hk =>
    h.renameFlags ht hk (hother key (by rintro rfl; revert hk; decide))
  have hlast : Config.renameFlags "eros" renamed = some (renamed, false) :=
    renameFlags_absent ((hother _ (by decide)).trans heros)
  have hall : renameAllFlags flagKeys renamed = some (renamed, false) := by
    simp [flagKeys, renameAllFlags, hlast, hself "sonarr" (by decide), hself "radarr" (by decide),
      hself "lidarr" (by decide), hself "whisparr" (by decide)]
  rw [hall] at hflags
  cases hflags
  cases heq
  exact ⟨here, hrenamed⟩

theorem initialConfig_some {members config : List (String × Json)} {backup : Option Json}
    (h : initialConfig text Shipped.config ⟨.obj members, backup⟩ = some config) : ∃ existing cs here,
      canonicalizeRuntimeConfig text (.obj members) = some (.obj existing) ∧
      Node Fits (trimDefault text (migrate text existing) Shipped.config) (migrate text existing) cs ∧
      renameInstances cs = some (config, here) := by
  simp only [initialConfig] at h
  split at h
  · rename_i loaded legacy hloaded
    obtain ⟨migrated, hup⟩ := update_loaded hloaded
    obtain ⟨members', existing, cs, heq, hcanon, -, -, hl, -, hnode⟩ := upgrade_some hup
    cases heq
    cases hl
    rw [Option.map_eq_some_iff] at h
    obtain ⟨⟨result, changed⟩, hm, rfl⟩ := h
    obtain ⟨here, hrename⟩ := hnode.migrateHuntarr (trimDefault_template _) hm
    exact ⟨existing, _, here, hcanon, hnode, hrename⟩
  · cases h

end Dumb.Config
