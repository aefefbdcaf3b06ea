import Dumb.Config.Lemmas.Retention

/-!
# The configuration update
-/

namespace Dumb.Config

open Py Py.Json

variable {text : Text}

/-! ## The runtime view and the file -/

abbrev TopMapped (text : Text) (config : List (String × Json)) : Prop :=
  Good (Mapped text) (fun _ => True) (fun k => text.lower k = "zurg") config

theorem isName_infinidysk : IsName infinidyskKey := by simp [IsName]

theorem isName_legacy : IsName infinidyskLegacyKey := by simp [IsName]

theorem TopMapped.tokens {cs : List (String × Json)} (h : TopMapped text cs) :
    mapInfinidyskTokens text infinidyskKey true (.obj cs) = .obj cs := by
  rw [tokens_obj, Json.obj.injEq, map_eq_self]
  intro m hm
  rcases h.2 m hm with hz | hmapped
  · simp [hz]
  · rw [hmapped]
    simp

theorem topMapped_tokens (members : List (String × Json)) : ∃ ms,
    mapInfinidyskTokens text infinidyskKey true (.obj members) = .obj ms ∧ TopMapped text ms := by
  refine ⟨_, tokens_obj members, trivial, fun m hm => ?_⟩
  obtain ⟨x, -, rfl⟩ := List.mem_map.1 hm
  by_cases hz : text.lower x.1 = "zurg"
  · exact .inl hz
  · right
    simp only [hz, decide_false, Bool.and_false, Bool.false_eq_true, if_false]
    exact mapChild_again isName_infinidysk x.2 x.1

theorem TopMapped.normalize {ms : List (String × Json)} (h : TopMapped text ms) : ∃ ms',
    normalizeReleaseSelectors text (.obj ms) = .obj ms' ∧ TopMapped text ms' := by
  have hmap : TopMapped text (ms.map fun m => (m.1, normalizeReleaseSelectors text m.2)) := by
    refine ⟨trivial, fun m hm => ?_⟩
    obtain ⟨x, hx, rfl⟩ := List.mem_map.1 hm
    exact (h.2 x hx).imp_right Mapped.normalize
  refine ⟨_, normalize_obj ms, ?_⟩
  split
  · refine ⟨trivial, fun m hm => ?_⟩
    rcases Dict.mem_set hm with rfl | hm
    · exact .inr (by simp [Mapped, mapChild])
    · exact hmap.2 m hm
  · exact hmap

theorem canonicalize_obj {members : List (String × Json)} {config : Json}
    (h : canonicalizeRuntimeConfig text (.obj members) = some config) :
    ∃ existing, config = .obj existing ∧ TopMapped text existing ∧ normal text (.obj existing) = true := by
  simp only [canonicalizeRuntimeConfig, Option.map_eq_some_iff] at h
  obtain ⟨mapped, hmapped, rfl⟩ := h
  obtain ⟨ms, rfl⟩ := identity_obj hmapped
  obtain ⟨ms₁, h₁, htop⟩ := @topMapped_tokens text ms
  obtain ⟨ms₂, h₂, htop₂⟩ := htop.normalize
  exact ⟨ms₂, by rw [h₁, h₂], htop₂, by rw [← h₂]; exact normal_normalize _⟩

def rename (source target : String) (members : List (String × Json)) : List (String × Json) :=
  members.map fun m => (if m.1 = source then target else m.1, m.2)

theorem legacy_ne : infinidyskLegacyKey ≠ infinidyskKey := by decide

section
variable {members : List (String × Json)} (h : infinidyskKey ∈ Dict.keys members)
  (hl : infinidyskLegacyKey ∉ Dict.keys members)
include h hl

theorem identity_self : mapInfinidyskIdentity infinidyskKey (.obj members) = some (.obj members) := by
  simp [mapInfinidyskIdentity, h, hl]

theorem identity_legacy : mapInfinidyskIdentity infinidyskLegacyKey (.obj members) =
    some (.obj (rename infinidyskKey infinidyskLegacyKey members)) := by
  simp [mapInfinidyskIdentity, h, hl, legacy_ne, rename]

omit hl in
theorem keys_rename : infinidyskLegacyKey ∈ Dict.keys (rename infinidyskKey infinidyskLegacyKey members) ∧
    infinidyskKey ∉ Dict.keys (rename infinidyskKey infinidyskLegacyKey members) := by
  have hkeys : Dict.keys (rename infinidyskKey infinidyskLegacyKey members) =
      (Dict.keys members).map fun k => if k = infinidyskKey then infinidyskLegacyKey else k := by
    simp [rename, Dict.keys]
  rw [hkeys]
  constructor
  · exact List.mem_map.2 ⟨infinidyskKey, h, by simp⟩
  · intro hmem
    obtain ⟨k, -, hk⟩ := List.mem_map.1 hmem
    split at hk
    · exact legacy_ne hk
    · contradiction

omit h in
theorem rename_back : rename infinidyskLegacyKey infinidyskKey (rename infinidyskKey infinidyskLegacyKey members) =
    members := by
  rw [rename, rename, List.map_map, map_eq_self]
  intro m hm
  have hne : m.1 ≠ infinidyskLegacyKey := fun heq => hl (heq ▸ List.mem_map_of_mem hm)
  by_cases hk : m.1 = infinidyskKey
  · simp [hk, Prod.ext_iff]
  · simp [hk, hne]

theorem identity_back :
    mapInfinidyskIdentity infinidyskKey (.obj (rename infinidyskKey infinidyskLegacyKey members)) =
      some (.obj members) := by
  obtain ⟨hmem, hnot⟩ := keys_rename h
  have hback := rename_back hl
  rw [rename] at hback
  simp [mapInfinidyskIdentity, hmem, hnot, hback]

end

structure Canonical (text : Text) (cs : List (String × Json)) : Prop where
  mapped : TopMapped text cs
  normal : normal text (.obj cs) = true
  name : infinidyskKey ∈ Dict.keys cs
  noLegacy : infinidyskLegacyKey ∉ Dict.keys cs

theorem Canonical.roundTrip {cs : List (String × Json)} (h : Canonical text cs) (legacy : Bool) : ∃ members,
    serializeConfigForDisk text legacy (.obj cs) = some (.obj members) ∧
      canonicalizeRuntimeConfig text (.obj members) = some (.obj cs) ∧ isLegacy members = legacy := by
  have hnorm := normalize_of_normal h.normal
  cases legacy with
  | false =>
    refine ⟨cs, by rw [serializeConfigForDisk, hnorm]; rfl, ?_, by simp [isLegacy, h.noLegacy]⟩
    rw [canonicalizeRuntimeConfig, identity_self h.name h.noLegacy, Option.map_some, h.mapped.tokens, hnorm]
  | true =>
    -- under the legacy name the tokens are mapped back, and mapped again when the file is read
    obtain ⟨ms, hms, hkeys⟩ : ∃ ms, mapInfinidyskTokens text infinidyskLegacyKey true (.obj cs) = .obj ms ∧
        Dict.keys ms = Dict.keys cs := ⟨_, tokens_obj cs, by simp [Dict.keys]⟩
    have hname : infinidyskKey ∈ Dict.keys ms := hkeys ▸ h.name
    have hno : infinidyskLegacyKey ∉ Dict.keys ms := hkeys ▸ h.noLegacy
    obtain ⟨hmem, hnot⟩ := keys_rename hname
    refine ⟨rename infinidyskKey infinidyskLegacyKey ms, ?_, ?_, by simp [isLegacy, hmem, hnot]⟩
    · rw [serializeConfigForDisk, hnorm, hms, if_pos rfl, identity_legacy hname hno]
    · rw [canonicalizeRuntimeConfig, identity_back hname hno, Option.map_some, ← hms,
        tokens_again isName_legacy, h.mapped.tokens, hnorm]

/-! ## One update after another -/

variable {loaded : Loaded}

theorem upgrade_some {file : Json} {migrated : Bool}
    (h : upgrade text Shipped.config file = some (loaded, migrated)) : ∃ members existing cs, file = .obj members ∧
      canonicalizeRuntimeConfig text (.obj members) = some (.obj existing) ∧ TopMapped text existing ∧
      normal text (.obj existing) = true ∧ loaded = ⟨.obj cs, isLegacy members⟩ ∧
      migrated = migrates text existing ∧
      Node Fits (trimDefault text (migrate text existing) Shipped.config) (migrate text existing) cs := by
  cases file with
  | obj members =>
    simp only [upgrade, Option.bind_eq_bind, Option.bind_eq_some_iff] at h
    obtain ⟨config, hcanon, h⟩ := h
    obtain ⟨existing, rfl, htop, hnormal⟩ := canonicalize_obj hcanon
    simp only [Option.bind_eq_some_iff, Option.some.injEq, Prod.mk.injEq] at h
    obtain ⟨result, hover, rfl, rfl⟩ := h
    have ht := @trimDefault_template text (migrate text existing)
    obtain ⟨cs, rfl, hnode⟩ := (overlay_fits ht.shaped hover).to_node ht.ne_nil
    exact ⟨members, existing, cs, rfl, hcanon, htop, hnormal, rfl, rfl, hnode⟩
  | _ => cases h

theorem Node.canonical {existing ds cs : List (String × Json)} (ht : Template ds) (h : Node Fits ds existing cs)
    (htop : TopMapped text existing) (hnormal : normal text (.obj existing) = true) : Canonical text cs := by
  have hkeys : Dict.keys cs = Dict.keys Shipped.config := h.keys.trans ht.keys
  have hn : (Dict.keys cs).Nodup := h.keys ▸ shaped_nodup ht.shaped
  refine ⟨⟨trivial, fun m hm => ?_⟩, ?_, ?_, ?_⟩
  · by_cases hz : text.lower m.1 = "zurg"
    · exact .inl hz
    · obtain ⟨dv, hd⟩ : ∃ dv, Dict.get? m.1 ds = some dv := by
        refine Option.ne_none_iff_exists'.1 (Dict.mem_keys.1 ?_)
        rw [← h.keys]
        exact List.mem_map_of_mem hm
      have hplain := every_obj.1 ht.plain
      have hmd := Dict.mem_of_get? hd
      refine .inr ((h.closed (mapped_inherits plainTokens)).closes (mapped_inherits plainTokens) ht.shaped ht.plain hd
        (Dict.get?_of_mem hn hm) (mapped_plain (hplain.2 _ hmd) m.1 ?_) fun w hw =>
          (htop.2 _ (Dict.mem_of_get? hw)).resolve_left hz)
      simpa [plainTokens] using List.all_eq_true.1 hplain.1 _ hmd
  · have hfits := Fits.of_node ht.ne_nil h
    exact (hfits.closes selectors_inherit).2 ht.shaped ht.off (fun _ _ => normal_of_off ht.off) "" hnormal
  · rw [hkeys]
    simpa using shipped_keys.1
  · rw [hkeys]
    simpa using shipped_keys.2

theorem migrate_canonical {existing : List (String × Json)} (htop : TopMapped text existing)
    (hnormal : normal text (.obj existing) = true) :
    TopMapped text (migrate text existing) ∧ normal text (.obj (migrate text existing)) = true := by
  refine ⟨mapped_survives.migrate htop, ?_⟩
  obtain ⟨hQ, hmembers⟩ := (selectors_survive.obj "" existing).1 hnormal
  have hgood : Good (fun _ j => normal text j = true) (fun members => blankSelector text members = false)
      (fun _ => False) (migrate text existing) :=
    selectors_survive.migrate ⟨hQ, fun m hm => .inr (hmembers m hm)⟩
  exact (selectors_survive.obj "" _).2 ⟨hgood.1, fun m hm => (hgood.2 m hm).resolve_left id⟩

theorem upgrade_again {file : Json} {migrated : Bool}
    (h : upgrade text Shipped.config file = some (loaded, migrated)) : ∃ serialized,
      serializeConfigForDisk text loaded.legacy loaded.config = some serialized ∧
        upgrade text Shipped.config serialized = some (loaded, false) := by
  obtain ⟨members, existing, cs, rfl, -, htop, hnormal, rfl, -, hnode⟩ := upgrade_some h
  obtain ⟨htop', hnormal'⟩ := migrate_canonical htop hnormal
  have ht := @trimDefault_template text (migrate text existing)
  obtain ⟨written, hwritten, hread, hlegacy⟩ := (hnode.canonical ht htop' hnormal').roundTrip (isLegacy members)
  have hquiet := hnode.quiet ht (trimDefault_decypharr _)
  obtain ⟨hmerge, hprune⟩ := (Fits.of_node ht.ne_nil hnode).again ht.shaped
  refine ⟨_, hwritten, ?_⟩
  simp only [upgrade, hread, Option.bind_eq_bind, Option.bind_some, hquiet.migrate, hquiet.migrates, hnode.trim,
    overlay, hmerge, hprune, hlegacy]

theorem update_again (file : Json) (backup other : Option Json) :
    let first := updateConfigWithDefaults text Shipped.config ⟨file, backup⟩
    updateConfigWithDefaults text Shipped.config ⟨first.1.file, other⟩ = (⟨first.1.file, other⟩, first.2) := by
  cases h : upgrade text Shipped.config file with
  | none => simp [updateConfigWithDefaults, h]
  | some result =>
    obtain ⟨loaded, migrated⟩ := result
    obtain ⟨serialized, hser, hagain⟩ := upgrade_again h
    cases hw : !serialized.pyEq file || migrated with
    | false => simp [updateConfigWithDefaults, h, hser, hw]
    | true => simp [updateConfigWithDefaults, h, hser, hw, hagain, pyEq_self]

theorem update_loaded {disk : Disk}
    (h : (updateConfigWithDefaults text Shipped.config disk).2 = some loaded) :
    ∃ migrated, upgrade text Shipped.config disk.file = some (loaded, migrated) := by
  simp only [updateConfigWithDefaults] at h
  split at h
  · cases h
  · rename_i loaded' migrated hup
    refine ⟨migrated, ?_⟩
    split at h
    · cases h
    · split at h <;> (cases h; exact hup)

/-- An update settles the file at once. -/
theorem update_keeps (text : Text) (members : List (String × Json)) (backup : Option Json) :
    let first := updateConfigWithDefaults text Shipped.config ⟨.obj members, backup⟩
    (∀ other, updateConfigWithDefaults text Shipped.config ⟨first.1.file, other⟩ =
      (⟨first.1.file, other⟩, first.2)) ∧
    (first.2 = none → first.1 = ⟨.obj members, backup⟩) ∧
    ∀ loaded existing, first.2 = some loaded →
      canonicalizeRuntimeConfig text (.obj members) = some (.obj existing) →
      ∀ path v dv, at? path (.obj members) = some v →
        templateAt (runtimePath path) (.obj Shipped.config) = some dv → Whole v dv →
        blankAt text path (.obj members) = false → ¬ Excepted text existing (runtimePath path) v dv →
        at? (runtimePath path) loaded.config = some (runtimeValue text (runtimePath path) v) := by
  intro first
  refine ⟨fun other => update_again (.obj members) backup other, ?_, ?_⟩
  · intro hnone
    simp only [first, updateConfigWithDefaults] at hnone ⊢
    split at hnone
    · rfl
    · split at hnone
      · rfl
      · split at hnone <;> cases hnone
  · intro loaded existing hloaded hcanon path v dv hv ht hw hb hs
    obtain ⟨migrated, hup⟩ := update_loaded hloaded
    obtain ⟨members', existing', cs, heq, hcanon', -, -, rfl, -, hnode⟩ := upgrade_some hup
    cases heq
    cases hcanon.symm.trans hcanon'
    cases path with
    | nil =>
      cases hv
      cases ht
      exact absurd hw (not_whole shipped_ne_nil)
    | cons k path =>
      have hk : k ≠ "release_version" := by
        rintro rfl
        have hnone : templateAt (runtimePath ("release_version" :: path)) (.obj Shipped.config) = none :=
          templateAt_absent rfl
        rw [hnone] at ht
        cases ht
      have hfits := Fits.of_node (trimDefault_template _).ne_nil hnode
      refine overlay_keeps hfits _ _ dv (canonical_keeps hcanon hk hv hb) ht (whole_runtimeValue hw) fun he => hs ?_
      exact he.imp_left noInstances_runtimeValue

def nzbdavFile : List (String × Json) := [("nzbdav", .obj [("frontend_port", .int 4000)])]

theorem update_keeps_port : ∃ loaded,
    (updateConfigWithDefaults .ascii Shipped.config ⟨.obj nzbdavFile, none⟩).2 = some loaded ∧
      at? ["infinidysk", "frontend_port"] loaded.config = some (.int 4000) := by
  have hsome : (updateConfigWithDefaults .ascii Shipped.config ⟨.obj nzbdavFile, none⟩).2.isSome = true := by
    decide +kernel
  obtain ⟨loaded, hloaded⟩ := Option.isSome_iff_exists.1 hsome
  obtain ⟨existing, hcanon⟩ : ∃ existing,
      canonicalizeRuntimeConfig .ascii (.obj nzbdavFile) = some (.obj existing) := ⟨_, rfl⟩
  refine ⟨loaded, hloaded, (update_keeps .ascii nzbdavFile none).2.2 loaded existing hloaded hcanon
    ["nzbdav", "frontend_port"] (.int 4000) _ rfl rfl (.inl rfl) rfl ?_⟩
  rintro (⟨hlast, -⟩ | hmig)
  · simp [runtimePath] at hlast
  · generalize hpath : runtimePath ["nzbdav", "frontend_port"] = path at hmig
    cases hmig <;> simp [runtimePath, runtimeKey, infinidyskKey, infinidyskLegacyKey] at hpath

def nullFile : List (String × Json) := [("sonarr", .obj [("instances", .null)])]

theorem update_replaces_null : ∃ loaded,
    (updateConfigWithDefaults .ascii Shipped.config ⟨.obj nullFile, none⟩).2 = some loaded ∧
      at? ["sonarr", "instances"] (.obj nullFile) = some .null ∧
      (templateAt ["sonarr", "instances"] (.obj Shipped.config)).isSome = true ∧
      at? ["sonarr", "instances"] loaded.config ≠ some .null := by
  have hdefault : ((updateConfigWithDefaults .ascii Shipped.config ⟨.obj nullFile, none⟩).2.map fun loaded =>
      (at? ["sonarr", "instances"] loaded.config).map truthy) = some (some true) := by
    decide +kernel
  obtain ⟨loaded, hloaded, htrue⟩ := Option.map_eq_some_iff.1 hdefault
  refine ⟨loaded, hloaded, rfl, rfl, fun hnull => ?_⟩
  rw [hnull] at htrue
  cases htrue

end Dumb.Config
