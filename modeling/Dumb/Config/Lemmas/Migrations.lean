import Dumb.Config.Lemmas.Closure

/-!
# The explicit migrations

Each looks at one service. What it was to change is changed, and laid over the defaults the service gives it
nothing more to do.
-/

namespace Dumb.Config

open Py Py.Json

variable {text : Text}

/-! ## Changing one service -/

def onObj (f : List (String × Json) → List (String × Json)) : Json → Json
  | .obj members => .obj (f members)
  | j => j

theorem get?_modify (k q : String) (f : List (String × Json) → List (String × Json)) (config : List (String × Json)) :
    Dict.get? q (modify k f config) = if q = k then (Dict.get? k config).map (onObj f) else Dict.get? q config := by
  unfold modify
  split
  · rename_i members hk
    rw [Dict.get?_set, hk]
    rfl
  · rename_i hk
    split
    · rename_i hq
      subst hq
      cases hv : Dict.get? q config with
      | none => rfl
      | some v =>
        cases v with
        | obj members => exact absurd hv (hk members)
        | _ => rfl
    · rfl

variable {k : String} {config : List (String × Json)}

variable {f : List (String × Json) → List (String × Json)}

theorem modify_self
    (h : ∀ members, Dict.get? k config = some (.obj members) → f members = members) : modify k f config = config := by
  unfold modify
  split
  · rename_i members hk
    rw [h members hk, Dict.set_self hk]
  · rfl

theorem checks_false {S : List (String × Json) → Bool}
    (h : ∀ members, Dict.get? k config = some (.obj members) → S members = false) : checks k S config = false := by
  unfold checks
  split
  · exact h _ ‹_›
  · rfl

variable {ds es cs : List (String × Json)}

theorem Node.scalar (h : Node Fits ds es cs) {dv : Json}
    (hd : Dict.get? k ds = some dv) (hleaf : dv.isObj = false) (hi : k ≠ "instances") (he : k ≠ "env") :
    Dict.get? k cs = some ((Dict.get? k es).getD dv) := by
  cases hw : Dict.get? k es with
  | none => exact h.absent k dv hd hi hw
  | some w =>
    obtain ⟨v, hv⟩ := h.get? hd
    have hfits := h.value k dv w v hd hi (by simp [he]) hw hv
    rw [hv, hfits.leaf (.inl hleaf)]
    rfl

theorem Node.service {S : List (String × Json) → Prop} {ds es cs dms : List (String × Json)}
    (h : Node Fits ds es cs) (hd : Dict.get? k ds = some (.obj dms)) (hi : k ≠ "instances") (he : k ≠ "env")
    (hne : dms ≠ []) (hS : S dms) (hmix : ∀ ws vs, Dict.get? k es = some (.obj ws) → Node Fits dms ws vs → S vs) :
    ∀ vs, Dict.get? k cs = some (.obj vs) → S vs := by
  intro vs hv
  cases hw : Dict.get? k es with
  | none =>
    cases (h.absent k _ hd hi hw).symm.trans hv
    exact hS
  | some w =>
    have hfits := h.value k _ w _ hd hi (by simp [he]) hw hv
    cases hobj : w.isObj with
    | false =>
      rw [← hfits.leaf (.inr (.inl hobj))] at hobj
      cases hobj
    | true =>
      obtain ⟨ws, rfl⟩ := isObj_iff.1 hobj
      obtain ⟨vs', heq, hnode⟩ := hfits.to_node hne
      cases heq
      exact hmix ws vs hw hnode

theorem bazarr_migrated (members : List (String × Json)) : bazarrMigrates (migrateBazarr members) = false := by
  unfold migrateBazarr
  split
  · simp [bazarrMigrates, field_set, isStr]
  · rename_i h
    simpa using h

theorem bazarr_mix (h : Node Fits ds es cs) {path : String}
    (hd : Dict.get? "config_file" ds = some (.str path)) (hpath : path ≠ "/bazarr/data/config.yaml")
    (hes : bazarrMigrates es = false) : bazarrMigrates cs = false := by
  have hfield := h.scalar hd rfl (by decide) (by decide)
  cases hw : Dict.get? "config_file" es with
  | none => simp [bazarrMigrates, field, hfield, hw, isStr, hpath]
  | some w => simpa [bazarrMigrates, field, hfield, hw] using hes

theorem mediastorm_migrated (members : List (String × Json)) :
    mediastormMigrates text (migrateMediastorm text members) = false := by
  unfold migrateMediastorm
  split
  · simp [mediastormMigrates, field_set, isStr]
  · rename_i h
    simpa using h

theorem mediastorm_mix (h : Node Fits ds es cs)
    (hd : Dict.get? "process_name" ds = some (.str "mediastorm")) (hes : mediastormMigrates text es = false) :
    mediastormMigrates text cs = false := by
  have hfield := h.scalar hd rfl (by decide) (by decide)
  cases hw : Dict.get? "process_name" es with
  | none => simp [mediastormMigrates, field, hfield, hw, isStr]
  | some w => simpa [mediastormMigrates, field, hfield, hw] using hes

/-! ## infinidysk -/

theorem casefold_name : text.casefold (text.strip (text.orEmpty (.str "infinidysk"))) = "infinidysk" := by
  have hplain : Plain "infinidysk" := by decide
  have hlower : asciiLower "infinidysk" = "infinidysk" := by decide
  simp [Text.orEmpty, truthy, text.str_str, text.strip_plain hplain, text.casefold_plain hplain, hlower]

theorem repository_migrated (members : List (String × Json)) :
    repositoryMigrates text (migrateRepository text members) = false := by
  unfold migrateRepository
  split
  · simp [repositoryMigrates, field_set, casefold_name]
  · rename_i h
    simpa using h

theorem repository_mix (h : Node Fits ds es cs)
    (ho : Dict.get? "repo_owner" ds = some (.str "infinidysk")) (hn : Dict.get? "repo_name" ds = some (.str "infinidysk"))
    (hes : repositoryMigrates text es = false) : repositoryMigrates text cs = false := by
  have howner := h.scalar ho rfl (by decide) (by decide)
  have hname := h.scalar hn rfl (by decide) (by decide)
  cases hwo : Dict.get? "repo_owner" es with
  | none => simp [repositoryMigrates, field, howner, hwo, casefold_name]
  | some owner =>
    cases hwn : Dict.get? "repo_name" es with
    | none => simp [repositoryMigrates, field, hname, hwn, casefold_name]
    | some name => simpa [repositoryMigrates, field, howner, hname, hwo, hwn] using hes

variable {members : List (String × Json)}

theorem decypharr_self (h : Dict.get? "use_embedded_rclone" members = none) :
    migrateDecypharr text members = members := by
  simp [migrateDecypharr, h, Dict.erase_absent h]

theorem Node.lacks {R : Json → Json → Json → Prop} (h : Node R ds es cs)
    (hd : Dict.get? k ds = none) : Dict.get? k cs = none := by
  by_contra hc
  exact Dict.mem_keys.1 (h.keys ▸ Dict.mem_keys.2 hc) hd

/-! ## The Arr services -/

theorem keepSqlite_self {j : Json} (h : ∀ members, j = .obj members → Dict.get? "postgres_enabled" members ≠ none) :
    keepSqlite j = j := by
  cases j with
  | obj members =>
    have hsome := Option.isSome_iff_ne_none.2 (h members rfl)
    simp [keepSqlite, hsome]
  | _ => rfl

def SqliteKept (members : List (String × Json)) : Prop :=
  modify "instances" (fun instances => instances.map fun m => (m.1, keepSqlite m.2)) members = members

theorem sqliteKept_of (h : ∀ instances, Dict.get? "instances" members = some (.obj instances) →
    ∀ m ∈ instances, keepSqlite m.2 = m.2) : SqliteKept members := by
  refine modify_self fun instances hi => ?_
  rw [List.map_congr_left (g := id) fun m hm => by rw [h instances hi m hm]; rfl, List.map_id]

theorem Node.instances {ds es cs tms : List (String × Json)} {name : String} (h : Node Fits ds es cs)
    (hd : Dict.get? "instances" ds = some (.obj [(name, .obj tms)])) (hne : tms ≠ []) : ∃ vs,
      Dict.get? "instances" cs = some (.obj vs) ∧ ∀ m ∈ vs, ∀ us, m.2 = .obj us → Dict.keys us = Dict.keys tms := by
  cases htrue : ((Dict.get? "instances" es).getD (.obj [])).truthy with
  | false =>
    refine ⟨_, h.fallback _ hd htrue, fun m hm us hus => ?_⟩
    obtain rfl : m = (name, .obj tms) := by simpa using hm
    cases hus
    rfl
  | true =>
    cases he : Dict.get? "instances" es with
    | none => simp [he, truthy] at htrue
    | some j =>
      rw [he] at htrue
      obtain ⟨ws, vs, rfl, hc, hk⟩ := h.instKeys _ _ _ j hd he htrue
      have hrows : Dict.Rows (Fits (.obj tms)) ws vs := ⟨hk, h.inst _ _ _ ws _ hd he htrue hc⟩
      refine ⟨vs, hc, fun m hm us hus => ?_⟩
      obtain ⟨w, -, hfits⟩ := hrows.mem m hm
      rw [hus] at hfits
      cases hw : w.isObj with
      | false =>
        rw [← hfits.leaf (.inr (.inl hw))] at hw
        cases hw
      | true =>
        obtain ⟨xs, rfl⟩ := isObj_iff.1 hw
        obtain ⟨us', heq, hnode⟩ := hfits.to_node hne
        cases heq
        exact hnode.keys

theorem arr_mix {ds es cs tms : List (String × Json)} {name : String} (h : Node Fits ds es cs)
    (hd : Dict.get? "instances" ds = some (.obj [(name, .obj tms)])) (ht : Dict.get? "postgres_enabled" tms ≠ none) :
    SqliteKept cs := by
  have hne : tms ≠ [] := by
    rintro rfl
    exact ht rfl
  obtain ⟨vs, hvs, hkeys⟩ := h.instances hd hne
  refine sqliteKept_of fun instances hc m hm => ?_
  cases hvs.symm.trans hc
  exact keepSqlite_self fun us hus => Dict.mem_keys.1 (hkeys m hm us hus ▸ Dict.mem_keys.2 ht)

/-! ## What the migrations leave alone -/

def migrationKeys : List String :=
  ["config_file", "process_name", "repo_owner", "repo_name", "mount_type", "use_embedded_rclone", "postgres_enabled"]

def selectorKeys : List String := ["release_version_enabled", "release_version"]

theorem migrationKeys_selector (h : k ∈ migrationKeys) : k ∉ selectorKeys := by
  simp only [migrationKeys, List.mem_cons, List.not_mem_nil, or_false] at h
  rcases h with rfl | rfl | rfl | rfl | rfl | rfl | rfl <;> decide

structure Survives (P : String → Json → Prop) (Q : List (String × Json) → Prop) : Prop where
  obj : ∀ k members, P k (.obj members) ↔ Q members ∧ ∀ m ∈ members, P m.1 m.2
  text : ∀ k ∈ migrationKeys, ∀ s, P k (.str s)
  flag : ∀ k ∈ migrationKeys, ∀ b, P k (.bool b)
  set : ∀ k v members, k ∉ selectorKeys → Q members → Q (Dict.set k v members)
  erase : ∀ k members, k ∉ selectorKeys → Q members → Q (Dict.erase k members)
  instances : ∀ members, Q members → Q (members.map fun m => (m.1, keepSqlite m.2))

section
variable {P : String → Json → Prop} {Q : List (String × Json) → Prop}

/-- `P` of every member whose key is not left out. -/
def Good (P : String → Json → Prop) (Q : List (String × Json) → Prop) (skip : String → Prop)
    (config : List (String × Json)) : Prop := Q config ∧ ∀ m ∈ config, skip m.1 ∨ P m.1 m.2

variable {skip : String → Prop}

theorem Survives.modify (hP : Survives P Q)
    (hk : k ∉ selectorKeys)
    (hf : ∀ members, P k (.obj members) → P k (.obj (f members))) (h : Good P Q skip config) :
    Good P Q skip (modify k f config) := by
  unfold Config.modify
  split
  · rename_i members hget
    refine ⟨hP.set k _ _ hk h.1, fun m hm => ?_⟩
    rcases Dict.mem_set hm with rfl | hm
    · exact (h.2 _ (Dict.mem_of_get? hget)).imp_right (hf members)
    · exact h.2 m hm
  · exact h

theorem Survives.set_obj (hP : Survives P Q) {k q : String} {v : Json}
    (hq : q ∈ migrationKeys) (hv : P q v) (h : P k (.obj members)) : P k (.obj (Dict.set q v members)) := by
  obtain ⟨hQ, hm⟩ := (hP.obj k members).1 h
  refine (hP.obj k _).2 ⟨hP.set q v members (migrationKeys_selector hq) hQ, fun m hmem => ?_⟩
  rcases Dict.mem_set hmem with rfl | hmem
  · exact hv
  · exact hm m hmem

theorem Survives.erase_obj (hP : Survives P Q) {k q : String}
    (hq : q ∈ migrationKeys) (h : P k (.obj members)) : P k (.obj (Dict.erase q members)) := by
  obtain ⟨hQ, hm⟩ := (hP.obj k members).1 h
  exact (hP.obj k _).2 ⟨hP.erase q members (migrationKeys_selector hq) hQ, fun m hmem => hm m (Dict.mem_erase hmem)⟩

theorem Survives.keepSqlite (hP : Survives P Q) {j : Json} (h : P k j) : P k (keepSqlite j) := by
  cases j with
  | obj members =>
    simp only [Config.keepSqlite]
    split
    · exact h
    · exact hP.set_obj (by decide) (hP.flag _ (by decide) false) h
  | _ => exact h

theorem Survives.migrateArr (hP : Survives P Q)
    (h : Good P Q skip config) : Good P Q skip (migrateArr config) := by
  unfold Config.migrateArr
  have hkeys : ∀ key ∈ arrKeys, key ∉ selectorKeys := by decide
  revert hkeys
  generalize arrKeys = keys
  intro hkeys
  induction keys generalizing config with
  | nil => exact h
  | cons key keys ih =>
    refine ih (hP.modify (hkeys key List.mem_cons_self) (fun members hm => ?_) h)
      fun k hk => hkeys k (List.mem_cons_of_mem _ hk)
    obtain ⟨hQ, hmem⟩ := (hP.obj key members).1 hm
    have hgood : Good P Q (fun _ => False) members := ⟨hQ, fun m hm => .inr (hmem m hm)⟩
    have hinstances : Good P Q (fun _ => False)
        (Config.modify "instances" (fun instances => instances.map fun m => (m.1, Config.keepSqlite m.2)) members) := by
      refine hP.modify (by decide) (fun instances hi => ?_) hgood
      obtain ⟨hQi, hmi⟩ := (hP.obj _ _).1 hi
      refine (hP.obj _ _).2 ⟨hP.instances _ hQi, fun m hm => ?_⟩
      obtain ⟨x, hx, rfl⟩ := List.mem_map.1 hm
      exact hP.keepSqlite (hmi x hx)
    obtain ⟨hQ', hmem'⟩ := hinstances
    exact (hP.obj key _).2 ⟨hQ', fun m hm => (hmem' m hm).resolve_left id⟩

theorem Survives.migrate (hP : Survives P Q)
    (h : Good P Q skip config) : Good P Q skip (migrate text config) := by
  refine hP.migrateArr (hP.modify (by decide) (fun members hm => ?_) (hP.modify (by decide) (fun members hm => ?_)
    (hP.modify (by decide) (fun members hm => ?_) (hP.modify (by decide) (fun members hm => ?_) h))))
  · unfold migrateDecypharr
    refine hP.erase_obj (by decide) ?_
    split
    · exact hP.set_obj (by decide) (hP.text _ (by decide) _) hm
    · exact hm
  · unfold migrateRepository
    split
    · exact hP.set_obj (by decide) (hP.text _ (by decide) _) (hP.set_obj (by decide) (hP.text _ (by decide) _) hm)
    · exact hm
  · unfold migrateMediastorm
    split
    · exact hP.set_obj (by decide) (hP.text _ (by decide) _) hm
    · exact hm
  · unfold migrateBazarr
    split
    · exact hP.set_obj (by decide) (hP.text _ (by decide) _) hm
    · exact hm

end

theorem mapped_survives : Survives (Mapped text) (fun _ => True) where
  obj := fun k members => by simp [mapped_obj]
  text := by
    intro k hk s
    have hnot : k ∉ ["core_service", "key_type"] := by
      simp only [migrationKeys, List.mem_cons, List.not_mem_nil, or_false] at hk
      rcases hk with rfl | rfl | rfl | rfl | rfl | rfl | rfl <;> decide
    simp only [Mapped, mapChild, if_neg hnot]
  flag := fun _ _ _ => rfl
  set := fun _ _ _ _ _ => trivial
  erase := fun _ _ _ _ => trivial
  instances := fun _ _ => trivial

theorem selectors_survive :
    Survives (fun _ j => normal text j = true) (fun members => blankSelector text members = false) where
  obj := fun k members => by simp [normal]
  text := fun _ _ _ => rfl
  flag := fun _ _ _ => rfl
  set := by
    intro k v members hk h
    have hne : k ≠ "release_version_enabled" ∧ k ≠ "release_version" := by simpa [selectorKeys] using hk
    rw [blankSelector_iff] at h ⊢
    simpa [Dict.get?_set, hne.1.symm, hne.2.symm] using h
  erase := by
    intro k members hk h
    have hne : k ≠ "release_version_enabled" ∧ k ≠ "release_version" := by simpa [selectorKeys] using hk
    rw [blankSelector_iff] at h ⊢
    simpa [Dict.get?_erase, hne.1.symm, hne.2.symm] using h
  instances := by
    intro members h
    rw [blankSelector_iff] at h ⊢
    simp only [Dict.get?_map_values, Option.map_eq_some_iff]
    rintro _ ⟨v, hv, rfl⟩ ht
    obtain ⟨w, hw, hblank⟩ := h v hv (by cases v <;> first | exact ht | (simp only [keepSqlite] at ht; split at ht <;> cases ht))
    refine ⟨_, ⟨w, hw, rfl⟩, ?_⟩
    cases w with
    | obj ms =>
      simp only [keepSqlite]
      split
      · exact hblank
      · rw [text.blank_obj]
        cases ms with
        | nil => rfl
        | cons m ms =>
          simp only [Dict.set]
          split <;> rfl
    | _ => exact hblank

end Dumb.Config
