import Dumb.Config.Lemmas.Stable

/-!
# What the file of the user keeps

A value that is not merged with a dict of the defaults is carried from the file through the runtime view, the
migrations and the overlay, path by path.
-/

namespace Dumb.Config

open Py Py.Json

variable {text : Text}

def Keeps (skip : List String → Json → Json → Prop) (d e c : Json) : Prop :=
  ∀ path v dv, at? path e = some v → templateAt path d = some dv → Whole v dv → ¬ skip path v dv →
    at? path c = some v

variable {skip : List String → Json → Json → Prop}

theorem Keeps.refl {d e : Json} : Keeps skip d e e :=
  fun _ _ _ hv _ _ _ => hv

theorem Keeps.trans {d e m c : Json} (h₁ : Keeps skip d e m)
    (h₂ : Keeps skip d m c) : Keeps skip d e c :=
  fun path v dv hv ht hw hs => h₂ path v dv (h₁ path v dv hv ht hw hs) ht hw hs

theorem not_whole {ms ds : List (String × Json)} (hne : ds ≠ []) : ¬ Whole (.obj ms) (.obj ds) := by
  rintro (h | h | h)
  · cases h
  · cases h
  · cases h
    exact hne rfl

theorem templateAt_leaf {d dv : Json} (hd : d.isObj = false) : ∀ {path : List String},
    templateAt path d = some dv → path = []
  | [], _ => rfl
  | k :: path, h => by
    cases d with
    | obj ds => cases hd
    | _ => cases h

variable {k : String} {path : List String}

theorem templateAt_cons {ds : List (String × Json)} {dk dv : Json}
    (hd : Dict.get? k ds = some dk) (hi : k ≠ "instances") (he : k ≠ "env")
    (h : templateAt (k :: path) (.obj ds) = some dv) : templateAt path dk = some dv := by
  simpa [templateAt, hd, hi, he] using h

theorem templateAt_absent {ds : List (String × Json)}
    (hd : Dict.get? k ds = none) : templateAt (k :: path) (.obj ds) = none := by
  simp [templateAt, hd]

theorem keeps_modify
    {f : List (String × Json) → List (String × Json)} {ds config dms : List (String × Json)}
    (hd : Dict.get? k ds = some (.obj dms)) (hi : k ≠ "instances") (he : k ≠ "env") (hne : dms ≠ [])
    (hf : ∀ ms, Dict.get? k config = some (.obj ms) →
      ∀ q path v dv, at? (q :: path) (.obj ms) = some v → templateAt (q :: path) (.obj dms) = some dv → Whole v dv →
        ¬ skip (k :: q :: path) v dv → at? (q :: path) (.obj (f ms)) = some v) (hds : ds ≠ []) :
    Keeps skip (.obj ds) (.obj config) (.obj (modify k f config)) := by
  intro path v dv hv ht hw hs
  cases path with
  | nil =>
    cases hv
    cases ht
    exact absurd hw (not_whole hds)
  | cons p path =>
    rw [at?_cons_obj, get?_modify]
    by_cases hp : p = k
    · subst hp
      rw [at?_cons_obj, Option.bind_eq_some_iff] at hv
      obtain ⟨w, hget, hv⟩ := hv
      have ht' := templateAt_cons hd hi he ht
      simp only [if_true, hget, Option.map_some, Option.bind_some]
      cases path with
      | nil =>
        cases ht'
        rw [at?_nil, Option.some.injEq] at hv
        subst hv
        cases w with
        | obj ms => exact absurd hw (not_whole hne)
        | _ => rfl
      | cons q path =>
        cases w with
        | obj ms => exact hf ms hget q path v dv hv ht' hw hs
        | _ => cases hv
    · rwa [if_neg hp]

theorem at?_set_ne {k q : String} (h : q ≠ k) (x : Json) (path : List String) (ms : List (String × Json)) :
    at? (q :: path) (.obj (Dict.set k x ms)) = at? (q :: path) (.obj ms) := by
  rw [at?_cons_obj, at?_cons_obj, Dict.get?_set_ne h]

variable {v dv : Json}

theorem keeps_set {k f : String} {x leaf : Json}
    {ms dms : List (String × Json)} (hd : Dict.get? f dms = some leaf) (hleaf : leaf.isObj = false)
    (hi : f ≠ "instances") (he : f ≠ "env") (hskip : ∀ v, skip [k, f] v leaf) {q : String}
    (hv : at? (q :: path) (.obj ms) = some v) (ht : templateAt (q :: path) (.obj dms) = some dv)
    (hs : ¬ skip (k :: q :: path) v dv) : at? (q :: path) (.obj (Dict.set f x ms)) = some v := by
  by_cases hq : q = f
  · subst hq
    have ht' := templateAt_cons hd hi he ht
    obtain rfl := templateAt_leaf hleaf ht'
    cases ht'
    exact absurd (hskip v) hs
  · rwa [at?_set_ne hq]

/-! ## The migrations -/

inductive MigratedAt (text : Text) (config : List (String × Json)) : List String → Prop
  | bazarr (h : checks "bazarr" bazarrMigrates config = true) : MigratedAt text config ["bazarr", "config_file"]
  | mediastorm (h : checks "mediastorm" (mediastormMigrates text) config = true) :
    MigratedAt text config ["mediastorm", "process_name"]
  | owner (h : checks infinidyskKey (repositoryMigrates text) config = true) :
    MigratedAt text config [infinidyskKey, "repo_owner"]
  | name (h : checks infinidyskKey (repositoryMigrates text) config = true) :
    MigratedAt text config [infinidyskKey, "repo_name"]
  | mountType (h : checks "decypharr" (blankMountType text) config = true) :
    MigratedAt text config ["decypharr", "mount_type"]

theorem checks_of {S : List (String × Json) → Bool} {config ms : List (String × Json)}
    (hget : Dict.get? k config = some (.obj ms)) (h : S ms = true) : checks k S config = true := by
  simp [checks, hget, h]

section
variable {config base : List (String × Json)}

theorem shipped_ne_nil : Shipped.config ≠ [] := template_shipped.ne_nil

abbrev Skipped (text : Text) (base : List (String × Json)) (path : List String) (_ _ : Json) : Prop :=
  MigratedAt text base path

theorem bazarr_keeps (hbase : Dict.get? "bazarr" config = Dict.get? "bazarr" base) :
    Keeps (Skipped text base) (.obj Shipped.config) (.obj config) (.obj (modify "bazarr" migrateBazarr config)) := by
  obtain ⟨dms, hd, hne, hfile⟩ := shipped_bazarr
  refine keeps_modify hd (by decide) (by decide) hne (fun ms hget q path v dv hv ht _ hs => ?_) shipped_ne_nil
  unfold migrateBazarr
  split
  · rename_i hm
    rw [hbase] at hget
    exact keeps_set hfile rfl (by decide) (by decide) (fun _ => .bazarr (checks_of hget hm)) hv ht hs
  · exact hv

theorem mediastorm_keeps (hbase : Dict.get? "mediastorm" config = Dict.get? "mediastorm" base) :
    Keeps (Skipped text base) (.obj Shipped.config) (.obj config)
      (.obj (modify "mediastorm" (migrateMediastorm text) config)) := by
  obtain ⟨dms, hd, hne, hname⟩ := shipped_mediastorm
  refine keeps_modify hd (by decide) (by decide) hne (fun ms hget q path v dv hv ht _ hs => ?_) shipped_ne_nil
  unfold migrateMediastorm
  split
  · rename_i hm
    rw [hbase] at hget
    exact keeps_set hname rfl (by decide) (by decide) (fun _ => .mediastorm (checks_of hget hm)) hv ht hs
  · exact hv

theorem repository_keeps (hbase : Dict.get? infinidyskKey config = Dict.get? infinidyskKey base) :
    Keeps (Skipped text base) (.obj Shipped.config) (.obj config)
      (.obj (modify infinidyskKey (migrateRepository text) config)) := by
  obtain ⟨dms, hd, hne, howner, hname⟩ := shipped_infinidysk
  refine keeps_modify hd (by decide) (by decide) hne (fun ms hget q path v dv hv ht _ hs => ?_) shipped_ne_nil
  unfold migrateRepository
  split
  · rename_i hm
    rw [hbase] at hget
    have hset := keeps_set (x := .str "infinidysk") howner rfl (by decide) (by decide)
      (fun _ => .owner (checks_of hget hm)) hv ht hs
    exact keeps_set hname rfl (by decide) (by decide) (fun _ => .name (checks_of hget hm)) hset ht hs
  · exact hv

theorem decypharr_keeps (hbase : Dict.get? "decypharr" config = Dict.get? "decypharr" base) :
    Keeps (Skipped text base) (.obj Shipped.config) (.obj config)
      (.obj (modify "decypharr" (migrateDecypharr text) config)) := by
  obtain ⟨dms, hd, htoggle, hmount, hlog⟩ := shipped_decypharr
  have hne : dms ≠ [] := by
    rintro rfl
    exact hlog rfl
  refine keeps_modify hd (by decide) (by decide) hne (fun ms hget q path v dv hv ht _ hs => ?_) shipped_ne_nil
  have hq : q ≠ "use_embedded_rclone" := by
    rintro rfl
    rw [templateAt_absent htoggle] at ht
    cases ht
  rw [hbase] at hget
  have hset : at? (q :: path) (.obj (if blankMountType text ms && (Dict.get? "use_embedded_rclone" ms).isSome then
      Dict.set "mount_type" (.str (if ((Dict.get? "use_embedded_rclone" ms).getD .null).truthy then "rclone"
        else "external_rclone")) ms else ms)) = some v := by
    split
    · rename_i hm
      rw [Bool.and_eq_true] at hm
      exact keeps_set hmount rfl (by decide) (by decide) (fun _ => .mountType (checks_of hget hm.1)) hv ht hs
    · exact hv
  rw [at?_cons_obj] at hset ⊢
  rw [migrateDecypharr, Dict.get?_erase, if_neg hq]
  exact hset

theorem keepSqlite_keeps {tms : List (String × Json)} (hne : tms ≠ []) {u v dv : Json}
    (hv : at? path u = some v) (ht : templateAt path (.obj tms) = some dv) (hw : Whole v dv) :
    at? path (keepSqlite u) = some v := by
  cases u with
  | obj us =>
    cases path with
    | nil =>
      cases hv
      cases ht
      exact absurd hw (not_whole hne)
    | cons q path =>
      simp only [keepSqlite]
      split
      · exact hv
      · rename_i habsent
        have hq : q ≠ "postgres_enabled" := by
          rintro rfl
          rw [at?_cons_obj, Option.bind_eq_some_iff] at hv
          obtain ⟨w, hget, -⟩ := hv
          simp [hget] at habsent
        rwa [at?_set_ne hq]
  | _ => exact hv

theorem arr_keeps {key : String} (hk : key ∈ arrKeys) :
    Keeps skip (.obj Shipped.config) (.obj config)
      (.obj (modify key (modify "instances" fun instances => instances.map fun m => (m.1, keepSqlite m.2)) config)) := by
  obtain ⟨name, tms, hd, hpg⟩ := shipped_arr key hk
  have hkey : key ≠ "instances" ∧ key ≠ "env" := by
    simp only [arrKeys, List.mem_cons, List.not_mem_nil, or_false] at hk
    rcases hk with rfl | rfl | rfl | rfl | rfl <;> decide
  have htms : tms ≠ [] := by
    rintro rfl
    exact hpg rfl
  refine keeps_modify hd hkey.1 hkey.2 (List.cons_ne_nil _ _) (fun ms hget q path v dv hv ht hw hs => ?_) shipped_ne_nil
  rw [at?_cons_obj, get?_modify]
  by_cases hq : q = "instances"
  · subst hq
    rw [at?_cons_obj, Option.bind_eq_some_iff] at hv
    obtain ⟨w, hinst, hv⟩ := hv
    simp only [if_true, hinst, Option.map_some, Option.bind_some]
    cases w with
    | obj instances =>
      cases path with
      | nil =>
        cases hv
        simp only [templateAt, Dict.get?, if_true, Option.some.injEq] at ht
        subst ht
        exact absurd hw (not_whole (List.cons_ne_nil _ _))
      | cons n path =>
        simp only [templateAt, Dict.get?, if_true] at ht
        simp only [onObj, at?_cons_obj, Dict.get?_map_values, Option.bind_eq_some_iff] at hv ⊢
        obtain ⟨u, hu, hv⟩ := hv
        exact ⟨keepSqlite u, by rw [hu]; rfl, keepSqlite_keeps htms hv ht hw⟩
    | _ => exact hv
  · rwa [if_neg hq]

theorem migrateArr_keeps :
    Keeps skip (.obj Shipped.config) (.obj config) (.obj (migrateArr config)) := by
  have hfold : ∀ (keys : List String), (∀ key ∈ keys, key ∈ arrKeys) → ∀ config,
      Keeps skip (.obj Shipped.config) (.obj config) (.obj (keys.foldl (fun config key =>
        modify key (modify "instances" fun instances => instances.map fun m => (m.1, keepSqlite m.2)) config)
          config)) := by
    intro keys
    induction keys with
    | nil => exact fun _ _ => .refl
    | cons key keys ih =>
      exact fun hall config =>
        (arr_keeps (hall key List.mem_cons_self)).trans (ih (fun k hk => hall k (List.mem_cons_of_mem _ hk)) _)
  exact hfold arrKeys (fun _ h => h) config

theorem migrate_keeps (existing : List (String × Json)) :
    Keeps (Skipped text existing) (.obj Shipped.config) (.obj existing) (.obj (migrate text existing)) := by
  have hb : Keeps (Skipped text existing) (.obj Shipped.config) (.obj existing) _ := bazarr_keeps rfl
  refine hb.trans ((mediastorm_keeps ?_).trans ((repository_keeps ?_).trans ((decypharr_keeps ?_).trans
    migrateArr_keeps)))
  all_goals simp [get?_modify, infinidyskKey]

end

/-! ## The overlay -/

theorem templateAt_same {ds ds' : List (String × Json)} (h : Dict.get? k ds = Dict.get? k ds')
    (path : List String) : templateAt (k :: path) (.obj ds) = templateAt (k :: path) (.obj ds') := by
  simp only [templateAt, h]

variable {existing : List (String × Json)}

theorem blankMountType_migrate
    (h : checks "decypharr" (blankMountType text) (migrate text existing) = true) :
    checks "decypharr" (blankMountType text) existing = true := by
  have hget : Dict.get? "decypharr" (migrate text existing) =
      (Dict.get? "decypharr" existing).map (onObj (migrateDecypharr text)) := by
    rw [migrate, get?_migrateArr (by decide)]
    simp [get?_modify, infinidyskKey]
  unfold checks at h ⊢
  rw [hget] at h
  cases hd : Dict.get? "decypharr" existing with
  | none => simp [hd] at h
  | some j =>
    cases j with
    | obj ms =>
      simp only [hd, Option.map_some, onObj] at h
      by_contra hblank
      have hfalse : blankMountType text ms = false := by simpa using hblank
      have hfield : blankMountType text (migrateDecypharr text ms) = blankMountType text ms := by
        have hms : text.blank ((Json.obj ms).field "mount_type") = false := hfalse
        rw [migrateDecypharr, hms, blankMountType, blankMountType]
        simp [field, Dict.get?_erase]
      rw [hfield, hfalse] at h
      cases h
    | _ => simp [hd, onObj] at h

theorem trimmed_template (ht : templateAt path (.obj Shipped.config) = some dv)
    (hw : Whole v dv) (hs : path ≠ ["decypharr", "mount_type"]) :
    ∃ dv', templateAt path (.obj trimmed) = some dv' ∧ Whole v dv' ∧
      (path.getLast? = some "instances" → dv' = dv) := by
  cases path with
  | nil =>
    cases ht
    refine ⟨_, rfl, ?_, fun hlast => by simp at hlast⟩
    rcases hw with h | h | h
    · exact .inl h
    · cases h
    · exact absurd (Json.obj.inj h) shipped_ne_nil
  | cons k path =>
    by_cases hk : k = "decypharr"
    · subst hk
      obtain ⟨dms, hd, -, hmount, hlog⟩ := shipped_decypharr
      have hdfs : Dict.get? "dfs" dms = none := by
        obtain ⟨xs, hx, hnone⟩ : ∃ xs, Dict.get? "decypharr" Shipped.config = some (.obj xs) ∧
            Dict.get? "dfs" xs = none := ⟨_, rfl, rfl⟩
        cases hd.symm.trans hx
        exact hnone
      have hd' : Dict.get? "decypharr" trimmed = some (.obj (Dict.erase "dfs" (Dict.erase "mount_type" dms))) := by
        rw [trimmed, get?_modify, if_pos rfl, hd]
        rfl
      have hsub := templateAt_cons hd (by decide) (by decide) ht
      cases path with
      | nil =>
        cases hsub
        refine ⟨.obj (Dict.erase "dfs" (Dict.erase "mount_type" dms)), by simp [templateAt, hd'], .inl ?_,
          fun hlast => by simp at hlast⟩
        rcases hw with h | h | h
        · exact h
        · cases h
        · cases h
          exact absurd rfl hlog
      | cons q path =>
        have hq : q ≠ "mount_type" := by
          rintro rfl
          have hpath := templateAt_leaf rfl (templateAt_cons hmount (by decide) (by decide) hsub)
          exact hs (by rw [hpath])
        have hq' : q ≠ "dfs" := by
          rintro rfl
          rw [templateAt_absent hdfs] at hsub
          cases hsub
        have hsame : templateAt (q :: path) (.obj (Dict.erase "dfs" (Dict.erase "mount_type" dms))) = some dv := by
          rw [← hsub]
          exact templateAt_same (by simp [Dict.get?_erase, hq, hq']) path
        exact ⟨dv, by simpa [templateAt, hd'] using hsame, hw, fun _ => rfl⟩
    · exact ⟨dv, by rw [templateAt_same (template_trimmed.other k hk), ht], hw, fun _ => rfl⟩

def Excepted (text : Text) (base : List (String × Json)) (path : List String) (v dv : Json) : Prop :=
  NoInstances path v dv ∨ MigratedAt text base path

theorem overlay_keeps {c : Json}
    (h : Fits (.obj (trimDefault text (migrate text existing) Shipped.config)) (.obj (migrate text existing)) c) :
    Keeps (Excepted text existing) (.obj Shipped.config) (.obj existing) c := by
  intro path v dv hv ht hw hs
  obtain ⟨hno, hmig⟩ := not_or.1 hs
  have hkept := migrate_keeps existing path v dv hv ht hw hmig
  unfold trimDefault at h
  split at h
  · rename_i htrim
    obtain ⟨dv', ht', hw', hsame⟩ := trimmed_template ht hw fun hpath =>
      hmig (hpath ▸ .mountType (blankMountType_migrate htrim))
    refine h.keeps trimmed_shaped hkept ht' hw' fun hn => hno ?_
    rwa [hsame hn.1] at hn
  · exact h.keeps shipped_shaped hkept ht hw hno

/-! ## The runtime view -/

def runtimeKey (k : String) : String := if k = infinidyskLegacyKey then infinidyskKey else k

def runtimePath : List String → List String
  | [] => []
  | k :: path => runtimeKey k :: path

def runtimeValue (text : Text) : List String → Json → Json
  | [], v => v
  | k :: path, v =>
    normalizeReleaseSelectors text (if text.lower k = "zurg" then v else mapChild text infinidyskKey (path.getLastD k) v)

def blankAt (text : Text) : List String → Json → Bool
  | [k], .obj ms => k = "release_version" && blankSelector text ms
  | k :: path, .obj ms =>
    match Dict.get? k ms with
    | some w => blankAt text path w
    | none => false
  | _, _ => false

theorem mapChild_no_obj (target key : String) {j : Json} (h : j.isObj = false) :
    (mapChild text target key j).isObj = false := by
  cases j with
  | obj ms => cases h
  | str s =>
    simp only [mapChild]
    split <;> rfl
  | arr items =>
    simp only [mapChild]
    split <;> rfl
  | _ => rfl

theorem at?_no_obj {j : Json} (h : j.isObj = false) : at? (k :: path) j = none := by
  cases j with
  | obj ms => cases h
  | _ => rfl

theorem at?_mapChild (target : String) : ∀ (path : List String) (key : String) (j : Json),
    at? path (mapChild text target key j) = (at? path j).map (mapChild text target (path.getLastD key))
  | [], key, j => by simp
  | k :: path, key, j => by
    cases hj : j.isObj with
    | false => rw [at?_no_obj hj, at?_no_obj (mapChild_no_obj target key hj), Option.map_none]
    | true =>
      obtain ⟨ms, rfl⟩ := isObj_iff.1 hj
      rw [mapChild_obj, at?_cons_obj, at?_cons_obj, Dict.get?_map_items (mapChild text target)]
      cases Dict.get? k ms with
      | none => rfl
      | some w =>
        rw [Option.map_some, Option.bind_some, Option.bind_some, at?_mapChild target path k w, List.getLastD_cons]

theorem at?_tokens (k : String) (path : List String) (members : List (String × Json)) :
    at? (k :: path) (mapInfinidyskTokens text infinidyskKey true (.obj members)) =
      (at? (k :: path) (.obj members)).map fun v =>
        if text.lower k = "zurg" then v else mapChild text infinidyskKey (path.getLastD k) v := by
  rw [tokens_obj, at?_cons_obj, at?_cons_obj,
    Dict.get?_map_items fun k j => if true && text.lower k = "zurg" then j else mapChild text infinidyskKey k j]
  cases Dict.get? k members with
  | none => rfl
  | some w =>
    by_cases hz : text.lower k = "zurg"
    · simp [hz]
    · simp [hz, at?_mapChild]

theorem blankSelector_mapChild (ms : List (String × Json)) :
    blankSelector text (ms.map fun m => (m.1, mapChild text infinidyskKey m.1 m.2)) = blankSelector text ms := by
  have hfield : ∀ k, field k (.obj (ms.map fun m => (m.1, mapChild text infinidyskKey m.1 m.2))) =
      mapChild text infinidyskKey k (field k (.obj ms)) := by
    intro k
    rw [field, field, Dict.get?_map_items (mapChild text infinidyskKey)]
    cases Dict.get? k ms <;> rfl
  rw [blankSelector, blankSelector, hfield, hfield, isTrue_mapChild, blank_mapChild]

theorem blankAt_mapChild : ∀ (path : List String) (key : String) (j : Json),
    blankAt text path (mapChild text infinidyskKey key j) = blankAt text path j
  | [], key, j => by
    unfold blankAt
    rfl
  | k :: path, key, j => by
    cases hj : j.isObj with
    | false =>
      have hnone : ∀ {j : Json}, j.isObj = false → blankAt text (k :: path) j = false := by
        intro j hj
        cases j with
        | obj ms => cases hj
        | _ => cases path <;> rfl
      rw [hnone hj, hnone (mapChild_no_obj _ _ hj)]
    | true =>
      obtain ⟨ms, rfl⟩ := isObj_iff.1 hj
      rw [mapChild_obj]
      cases path with
      | nil => simp [blankAt, blankSelector_mapChild]
      | cons q path =>
        simp only [blankAt, Dict.get?_map_items (mapChild text infinidyskKey)]
        cases Dict.get? k ms with
        | none => rfl
        | some w => exact blankAt_mapChild (q :: path) k w

theorem at?_normalize : ∀ {path : List String} {j v : Json}, at? path j = some v → blankAt text path j = false →
    at? path (normalizeReleaseSelectors text j) = some (normalizeReleaseSelectors text v)
  | [], j, v, hv, _ => by
    cases hv
    simp
  | k :: path, j, v, hv, hb => by
    cases hj : j.isObj with
    | false =>
      rw [at?_no_obj hj] at hv
      cases hv
    | true =>
      obtain ⟨ms, rfl⟩ := isObj_iff.1 hj
      rw [at?_cons_obj, Option.bind_eq_some_iff] at hv
      obtain ⟨w, hw, hv⟩ := hv
      have hblank : k = "release_version" → blankSelector text ms = false := by
        rintro rfl
        cases path with
        | nil => simpa [blankAt] using hb
        | cons q path =>
          -- a dict with something in it is not blank
          cases w with
          | obj us =>
            rw [blankSelector_iff]
            intro _ _ _
            refine ⟨_, hw, ?_⟩
            rw [text.blank_obj]
            cases us with
            | nil => cases hv
            | cons u us => rfl
          | _ => cases hv
      have hget : ∀ xs : List (String × Json), Dict.get? k (if blankSelector text ms then Dict.set "release_version" (.str "latest") xs
          else xs) = Dict.get? k xs := by
        intro xs
        split
        · rename_i hsel
          rw [Dict.get?_set_ne]
          rintro rfl
          rw [hblank rfl] at hsel
          cases hsel
        · rfl
      rw [normalize_obj, at?_cons_obj, hget, Dict.get?_map_values, hw, Option.map_some, Option.bind_some]
      refine at?_normalize hv ?_
      cases path with
      | nil =>
        unfold blankAt
        rfl
      | cons q path => simpa [blankAt, hw] using hb

theorem runtimeKey_inj {k q : String} (hk : k ≠ infinidyskKey) (hq : q ≠ infinidyskKey)
    (h : runtimeKey k = runtimeKey q) : k = q := by
  simp only [runtimeKey] at h
  split at h <;> split at h
  · simp_all
  · exact absurd h.symm hq
  · exact absurd h hk
  · exact h

theorem get?_runtimeKey {v : Json} : ∀ {members : List (String × Json)},
    infinidyskKey ∉ Dict.keys members → Dict.get? k members = some v →
      Dict.get? (runtimeKey k) (members.map fun m => (runtimeKey m.1, m.2)) = some v
  | (q, u) :: members, hno, hget => by
    have hq : q ≠ infinidyskKey := by
      rintro rfl
      exact hno List.mem_cons_self
    have hk : k ≠ infinidyskKey := by
      rintro rfl
      exact hno (Dict.mem_keys.2 (by simp [hget]))
    by_cases hqk : q = k
    · simp only [Dict.get?, hqk, if_true] at hget
      simp [Dict.get?, hqk, hget]
    · have hne : runtimeKey q ≠ runtimeKey k := fun he => hqk (runtimeKey_inj hq hk he)
      simp only [Dict.get?, hqk, if_false] at hget
      simp only [List.map_cons, Dict.get?, hne, if_false]
      exact get?_runtimeKey (fun hmem => hno (List.mem_cons_of_mem _ hmem)) hget

theorem identity_get? {members ms : List (String × Json)} {v : Json}
    (h : mapInfinidyskIdentity infinidyskKey (.obj members) = some (.obj ms)) (hget : Dict.get? k members = some v) :
    Dict.get? (runtimeKey k) ms = some v := by
  have hmem : k ∈ Dict.keys members := Dict.mem_keys.2 (by simp [hget])
  simp only [mapInfinidyskIdentity, if_true] at h
  split at h
  · cases h
  · rename_i hboth
    split at h
    · rename_i hsame
      cases h
      have hk : k ≠ infinidyskLegacyKey := by
        rintro rfl
        simp_all
      rwa [runtimeKey, if_neg hk]
    · rename_i hren
      cases h
      obtain ⟨-, hno⟩ : infinidyskLegacyKey ∈ Dict.keys members ∧ infinidyskKey ∉ Dict.keys members := by
        simpa using hren
      exact get?_runtimeKey hno hget

theorem canonical_keeps {members existing : List (String × Json)}
    (h : canonicalizeRuntimeConfig text (.obj members) = some (.obj existing)) {v : Json}
    (hk : k ≠ "release_version") (hv : at? (k :: path) (.obj members) = some v)
    (hb : blankAt text (k :: path) (.obj members) = false) :
    at? (runtimeKey k :: path) (.obj existing) = some (runtimeValue text (runtimeKey k :: path) v) := by
  simp only [canonicalizeRuntimeConfig, Option.map_eq_some_iff] at h
  obtain ⟨mapped, hmapped, hexisting⟩ := h
  obtain ⟨ms, rfl⟩ := identity_obj hmapped
  rw [at?_cons_obj, Option.bind_eq_some_iff] at hv
  obtain ⟨w, hw, hv⟩ := hv
  have hget := identity_get? hmapped hw
  have htokens := @at?_tokens text (runtimeKey k) path ms
  rw [at?_cons_obj (runtimeKey k) path ms, hget, Option.bind_some, hv, Option.map_some] at htokens
  rw [← hexisting, at?_normalize htokens]
  · rfl
  have hkey : runtimeKey k ≠ "release_version" := by
    unfold runtimeKey
    split
    · decide
    · exact hk
  rw [tokens_obj]
  cases path with
  | nil => simp [blankAt, hkey]
  | cons q path =>
    simp only [blankAt, hw] at hb
    simp only [blankAt, Dict.get?_map_items fun k j =>
      if true && text.lower k = "zurg" then j else mapChild text infinidyskKey k j, hget, Option.map_some]
    split
    · exact hb
    · rwa [blankAt_mapChild]

theorem isObj_normalize (j : Json) : (normalizeReleaseSelectors text j).isObj = j.isObj := by
  cases j with
  | obj ms => rw [normalize_obj]; rfl
  | arr items => rw [normalize_arr]; rfl
  | _ => rfl

theorem whole_runtimeValue (h : Whole v dv) :
    Whole (runtimeValue text path v) dv := by
  refine h.imp_left fun hv => ?_
  cases path with
  | nil => exact hv
  | cons k path =>
    rw [runtimeValue, isObj_normalize]
    split
    · exact hv
    · exact mapChild_no_obj _ _ hv

theorem truthy_normalize (j : Json) : (normalizeReleaseSelectors text j).truthy = j.truthy := by
  cases j with
  | obj ms =>
    rw [normalize_obj]
    cases ms with
    | nil => rfl
    | cons m ms =>
      split
      · simp only [List.map_cons, Dict.set]
        split <;> rfl
      · rfl
  | arr items => simp [normalize_arr, truthy]
  | _ => rfl

theorem truthy_mapChild (j : Json) : (mapChild text infinidyskKey "instances" j).truthy = j.truthy := by
  cases j with
  | obj ms => simp [mapChild_obj, truthy]
  | arr items => simp [mapChild, mapInfinidyskTokens, tokens_items, truthy]
  | str s => simp [mapChild]
  | _ => rfl

theorem noInstances_runtimeValue
    (h : NoInstances path (runtimeValue text path v) dv) : NoInstances path v dv := by
  obtain ⟨hlast, hdv, hv⟩ := h
  refine ⟨hlast, hdv, ?_⟩
  cases path with
  | nil => cases hlast
  | cons k path =>
    have hkey : path.getLastD k = "instances" := by simpa [List.getLast?_cons] using hlast
    rw [runtimeValue, truthy_normalize, hkey] at hv
    split at hv
    · exact hv
    · rwa [truthy_mapChild] at hv

end Dumb.Config
