import Dumb.Config.Lemmas.Canonical

/-!
# The legacy identity on disk

Renaming the entry of the service, mapping its tokens and normalizing the release selectors do not get in the way of each
other, so that what is written comes back as what was read.
-/

namespace Dumb.Config

open Py Py.Json

variable {text : Text}

/-! ## Members of a dict -/

theorem set_map_members (f : String → Json → Json) {k : String} {v w : Json} (h : f k v = w) : ∀ members : List (String × Json),
    Dict.set k w (members.map fun m => (m.1, f m.1 m.2)) = (Dict.set k v members).map fun m => (m.1, f m.1 m.2)
  | [] => by simp [Dict.set, h]
  | (q, j) :: members => by
    by_cases hk : q = k
    · simp [Dict.set, hk, h]
    · simp [Dict.set, hk, set_map_members f h members]

/-! ## Tokens and selectors -/

def mapMember (text : Text) (target : String) (top : Bool) (key : String) (j : Json) : Json :=
  if top && text.lower key = "zurg" then j else mapChild text target key j

theorem mapMember_low (target key : String) (j : Json) : mapMember text target false key j = mapChild text target key j := rfl

theorem mapMember_plain {key : String} (target : String) (top : Bool) (hplain : Plain key) (hkey : asciiLower key ≠ "zurg")
    (j : Json) : mapMember text target top key j = mapChild text target key j := by
  have hlower : text.lower key ≠ "zurg" := by rwa [text.lower_plain hplain]
  simp [mapMember, hlower]

theorem blankSelector_tokens (target : String) (top : Bool) (members : List (String × Json)) :
    blankSelector text (members.map fun m => (m.1, mapMember text target top m.1 m.2)) = blankSelector text members := by
  have henabled : field "release_version_enabled" (.obj (members.map fun m => (m.1, mapMember text target top m.1 m.2))) =
      mapChild text target "release_version_enabled" (field "release_version_enabled" (.obj members)) := by
    rw [field, field, Dict.get?_map_items]
    cases Dict.get? "release_version_enabled" members with
    | none => rfl
    | some j => exact mapMember_plain target top (by decide) (by decide) j
  have hversion : field "release_version" (.obj (members.map fun m => (m.1, mapMember text target top m.1 m.2))) =
      mapChild text target "release_version" (field "release_version" (.obj members)) := by
    rw [field, field, Dict.get?_map_items]
    cases Dict.get? "release_version" members with
    | none => rfl
    | some j => exact mapMember_plain target top (by decide) (by decide) j
  rw [blankSelector, blankSelector, henabled, hversion, isTrue_mapChild, blank_mapChild]

def onMembers (f : List (String × Json) → List (String × Json)) : Json → Json
  | .obj members => .obj (f members)
  | j => j

theorem normalize_members_tokens (target : String) (top : Bool) {members : List (String × Json)}
    (h : ∀ m ∈ members, normalizeReleaseSelectors text (mapMember text target top m.1 m.2) =
      mapMember text target top m.1 (normalizeReleaseSelectors text m.2)) :
    normalizeReleaseSelectors text (.obj (members.map fun m => (m.1, mapMember text target top m.1 m.2))) =
      onMembers (List.map fun m => (m.1, mapMember text target top m.1 m.2)) (normalizeReleaseSelectors text (.obj members)) := by
  have hmap : (members.map fun m => (m.1, mapMember text target top m.1 m.2)).map
      (fun m => (m.1, normalizeReleaseSelectors text m.2)) =
      (members.map fun m => (m.1, normalizeReleaseSelectors text m.2)).map
        fun m => (m.1, mapMember text target top m.1 m.2) := by
    rw [List.map_map, List.map_map]
    exact List.map_congr_left fun m hm => by simp [h m hm]
  have hlatest : mapMember text target top "release_version" (.str "latest") = .str "latest" :=
    (mapMember_plain target top (by decide) (by decide) _).trans (by simp [mapChild])
  rw [normalize_obj, normalize_obj, blankSelector_tokens, hmap, onMembers]
  split
  · rw [set_map_members _ hlatest]
  · rfl

theorem mapItem_normalize_comm (target : String) (item : Json) :
    normalizeReleaseSelectors text (mapItem text target item) = mapItem text target (normalizeReleaseSelectors text item) := by
  cases item with
  | arr items =>
    rw [normalize_arr]
    exact normalize_arr items
  | obj members =>
    rw [normalize_obj]
    exact normalize_obj members
  | _ => rfl

theorem normalize_mapChild (target : String) (j : Json) : ∀ key,
    normalizeReleaseSelectors text (mapChild text target key j) = mapChild text target key (normalizeReleaseSelectors text j) := by
  induction j using Json.ind with
  | arr items ih =>
    intro key
    by_cases hk : key = "core_services"
    · simp only [mapChild, hk, if_true, normalize_arr, List.map_map, Json.arr.injEq]
      exact List.map_congr_left fun item _ => mapItem_normalize_comm target item
    · simp only [mapChild, hk, if_false, mapInfinidyskTokens, tokens_items, normalize_arr, List.map_map, Json.arr.injEq]
      refine List.map_congr_left fun item hitem => ?_
      simp only [Function.comp_apply, tokens_child, ih item hitem]
  | obj members ih =>
    intro key
    have hmembers := @normalize_members_tokens text target false members fun m hm => ih m hm m.1
    simp only [mapMember_low] at hmembers
    rw [mapChild_obj, hmembers, normalize_obj]
    simp only [mapChild_obj, onMembers]
  | leaf j harr hobj =>
    intro key
    cases j with
    | arr items => exact absurd rfl (harr items)
    | obj members => exact absurd rfl (hobj members)
    | str s =>
      have hsame : normalizeReleaseSelectors text (.str s) = .str s := rfl
      by_cases hk : key ∈ ["core_service", "key_type"]
      · simp only [hsame, mapChild, if_pos hk]
        rfl
      · simp only [hsame, mapChild, if_neg hk]
    | _ => rfl

theorem normalize_tokens (target : String) (top : Bool) (j : Json) :
    normalizeReleaseSelectors text (mapInfinidyskTokens text target top j) =
      mapInfinidyskTokens text target top (normalizeReleaseSelectors text j) := by
  cases j with
  | obj members =>
    have hmembers := @normalize_members_tokens text target top members fun m _ => by
      simp only [mapMember]
      split
      · rfl
      · exact normalize_mapChild target m.2 m.1
    have htokens : mapInfinidyskTokens text target top (.obj members) =
        .obj (members.map fun m => (m.1, mapMember text target top m.1 m.2)) := tokens_obj members
    rw [htokens, hmembers, normalize_obj, tokens_obj]
    rfl
  | arr items =>
    simp only [mapInfinidyskTokens, tokens_items, normalize_arr, List.map_map, Json.arr.injEq]
    refine List.map_congr_left fun item _ => ?_
    simp only [Function.comp_apply, tokens_child, normalize_mapChild]
  | _ => rfl

/-! ## The entry of the service -/

def renameEntry (source target : String) (members : List (String × Json)) : List (String × Json) :=
  members.map fun m => (if m.1 = source then target else m.1, m.2)

theorem get?_rename {source target k : String} (hs : k ≠ source) (ht : k ≠ target) : ∀ members : List (String × Json),
    Dict.get? k (renameEntry source target members) = Dict.get? k members
  | [] => rfl
  | (q, j) :: members => by
    have ih := get?_rename hs ht members
    simp only [renameEntry] at ih
    by_cases hq : q = source
    · simp [renameEntry, Dict.get?, hq, Ne.symm ht, Ne.symm hs, ih]
    · by_cases hk : q = k
      · simp [renameEntry, Dict.get?, hk, hs]
      · simp [renameEntry, Dict.get?, hq, hk, ih]

theorem set_rename {source target k : String} (hs : k ≠ source) (ht : k ≠ target) (v : Json) :
    ∀ members : List (String × Json),
      Dict.set k v (renameEntry source target members) = renameEntry source target (Dict.set k v members)
  | [] => by simp [renameEntry, Dict.set, hs]
  | (q, j) :: members => by
    have ih := set_rename hs ht v members
    simp only [renameEntry] at ih
    by_cases hq : q = source
    · simp [renameEntry, Dict.set, hq, Ne.symm ht, Ne.symm hs, ih]
    · by_cases hk : q = k
      · simp [renameEntry, Dict.set, hk, hs]
      · simp [renameEntry, Dict.set, hq, hk, ih]

theorem renameEntry_back {source target : String} : ∀ {members : List (String × Json)}, target ∉ Dict.keys members →
    renameEntry target source (renameEntry source target members) = members
  | [], _ => rfl
  | (q, j) :: members, h => by
    have hq : q ≠ target := fun heq => h (by simp [Dict.keys, heq])
    have hrest : target ∉ Dict.keys members := by
      intro hmem
      apply h
      simp only [Dict.keys, List.map_cons, List.mem_cons]
      exact .inr hmem
    have ih : renameEntry target source (renameEntry source target members) = members := renameEntry_back hrest
    simp only [renameEntry] at ih
    by_cases hs : q = source
    · simp [renameEntry, hs, ih]
    · simp [renameEntry, hs, hq, ih]

theorem not_mem_keys_rename {source target : String} (hne : source ≠ target) (members : List (String × Json)) :
    source ∉ Dict.keys (renameEntry source target members) := by
  intro hmem
  obtain ⟨m, hm, hkey⟩ := List.mem_map.1 hmem
  obtain ⟨n, -, rfl⟩ := List.mem_map.1 hm
  by_cases hn : n.1 = source
  · simp only [hn, if_true] at hkey
    exact hne hkey.symm
  · simp only [hn, if_false] at hkey

/-- The name that the entry is called by, where it is to be called `target`. -/
def other (target : String) : String := if target = infinidyskKey then infinidyskLegacyKey else infinidyskKey

def bothNames (members : List (String × Json)) : Prop :=
  infinidyskKey ∈ Dict.keys members ∧ infinidyskLegacyKey ∈ Dict.keys members

variable {members : List (String × Json)}

theorem renameEntry_absent {source target : String} (h : source ∉ Dict.keys members) :
    renameEntry source target members = members := by
  have hsame : ∀ m ∈ members, (if m.1 = source then target else m.1, m.2) = m := by
    intro m hm
    rw [if_neg fun heq => h (List.mem_map.2 ⟨m, hm, heq⟩)]
  rw [renameEntry, List.map_congr_left hsame, List.map_id']

variable {target : String}

theorem identity_rename (ht : IsName target) (h : ¬bothNames members) :
    mapInfinidyskIdentity target (.obj members) = some (.obj (renameEntry (other target) target members)) := by
  have hnot : ((Dict.keys members).contains infinidyskKey && (Dict.keys members).contains infinidyskLegacyKey) = false := by
    rw [← Bool.not_eq_true, Bool.and_eq_true, List.contains_iff_mem, List.contains_iff_mem]
    exact h
  simp only [mapInfinidyskIdentity, hnot, Bool.false_eq_true, if_false]
  change (if (!(Dict.keys members).contains (other target) || (Dict.keys members).contains target) = true
    then some (Json.obj members) else some (Json.obj (renameEntry (other target) target members))) = _
  by_cases hsource : other target ∈ Dict.keys members
  · have htarget : target ∉ Dict.keys members := by
      intro htarget
      simp only [IsName, List.mem_cons, List.not_mem_nil, or_false] at ht
      rcases ht with rfl | rfl
      · exact h ⟨hsource, htarget⟩
      · exact h ⟨htarget, hsource⟩
    simp [hsource, htarget]
  · simp [hsource, renameEntry_absent hsource]

theorem bothNames_map {f : String → Json → Json} :
    bothNames (members.map fun m => (m.1, f m.1 m.2)) ↔ bothNames members := by
  simp [bothNames, Dict.keys]

theorem keys_set_latest {k : String} (hk : k ≠ "release_version") (v : Json) (members : List (String × Json)) :
    k ∈ Dict.keys (Dict.set "release_version" v members) ↔ k ∈ Dict.keys members := by
  rw [Dict.mem_keys, Dict.mem_keys, Dict.get?_set_ne hk]

theorem normalize_keys {members : List (String × Json)} : ∃ ms, normalizeReleaseSelectors text (.obj members) = .obj ms ∧
    ∀ k, k ≠ "release_version" → (k ∈ Dict.keys ms ↔ k ∈ Dict.keys members) := by
  have hkeys : Dict.keys (members.map fun m => (m.1, normalizeReleaseSelectors text m.2)) = Dict.keys members := by
    simp [Dict.keys]
  rw [normalize_obj]
  split
  · refine ⟨_, rfl, fun k hk => ?_⟩
    rw [keys_set_latest hk, hkeys]
  · exact ⟨_, rfl, fun k _ => by rw [hkeys]⟩

theorem normalize_rename {source target : String} (hs : source ≠ "release_version") (ht : target ≠ "release_version")
    (hs' : source ≠ "release_version_enabled") (ht' : target ≠ "release_version_enabled") (members : List (String × Json)) :
    normalizeReleaseSelectors text (.obj (renameEntry source target members)) =
      onMembers (renameEntry source target) (normalizeReleaseSelectors text (.obj members)) := by
  have hblank : blankSelector text (renameEntry source target members) = blankSelector text members := by
    simp only [blankSelector, field, get?_rename hs'.symm ht'.symm, get?_rename hs.symm ht.symm]
  have hmap : (renameEntry source target members).map (fun m => (m.1, normalizeReleaseSelectors text m.2)) =
      renameEntry source target (members.map fun m => (m.1, normalizeReleaseSelectors text m.2)) := by
    simp [renameEntry]
  rw [normalize_obj, normalize_obj, hblank, hmap, onMembers]
  split
  · rw [set_rename hs.symm ht.symm]
  · rfl

theorem isName_other {target : String} : IsName (other target) := by
  unfold other
  split <;> simp [IsName]

theorem isName_cases (ht : IsName target) : target = infinidyskLegacyKey ∨ target = infinidyskKey := by
  simpa [IsName] using ht

theorem normalize_identity (ht : IsName target) (h : ¬bothNames members) :
    mapInfinidyskIdentity target (normalizeReleaseSelectors text (.obj members)) =
      (mapInfinidyskIdentity target (.obj members)).map (normalizeReleaseSelectors text) := by
  obtain ⟨ms, hms, hkeys⟩ := @normalize_keys text members
  have hnot : ¬bothNames ms := by
    rw [bothNames, hkeys infinidyskKey (by decide), hkeys infinidyskLegacyKey (by decide)]
    exact h
  have hno : ∀ {k}, IsName k → k ≠ "release_version" ∧ k ≠ "release_version_enabled" := by
    intro k hk
    rcases isName_cases hk with rfl | rfl <;> decide
  have hsource := hno (@isName_other target)
  have hrename := @normalize_rename text _ _ hsource.1 (hno ht).1 hsource.2 (hno ht).2 members
  rw [hms, identity_rename ht hnot, identity_rename ht h, Option.map_some, hrename, hms]
  rfl

theorem mapMember_name {key : String} (hk : IsName key) (target : String) (top : Bool) (j : Json) :
    mapMember text target top key j = mapChild text target "" j := by
  rcases isName_cases hk with rfl | rfl
  · rw [mapMember_plain target top (by decide) (by decide)]
    cases j <;> simp [mapChild, infinidyskLegacyKey]
  · rw [mapMember_plain target top (by decide) (by decide)]
    cases j <;> simp [mapChild, infinidyskKey]

theorem renameEntry_tokens {source target : String} (hs : IsName source) (ht : IsName target) (first : String) (top : Bool)
    (members : List (String × Json)) :
    renameEntry source target (members.map fun m => (m.1, mapMember text first top m.1 m.2)) =
      (renameEntry source target members).map fun m => (m.1, mapMember text first top m.1 m.2) := by
  simp only [renameEntry, List.map_map]
  refine List.map_congr_left fun m _ => ?_
  by_cases hm : m.1 = source
  · simp only [Function.comp_apply, hm, if_true, mapMember_name hs, mapMember_name ht]
  · simp only [Function.comp_apply, hm, if_false]

theorem identity_tokens {target first : String} (ht : IsName target) (h : ¬bothNames members) :
    mapInfinidyskIdentity target (mapInfinidyskTokens text first true (.obj members)) =
      (mapInfinidyskIdentity target (.obj members)).map (mapInfinidyskTokens text first true) := by
  have htokens : ∀ ms : List (String × Json), mapInfinidyskTokens text first true (.obj ms) =
      .obj (ms.map fun m => (m.1, mapMember text first true m.1 m.2)) := tokens_obj
  have hnot : ¬bothNames (members.map fun m => (m.1, mapMember text first true m.1 m.2)) := by rwa [bothNames_map]
  rw [htokens, identity_rename ht hnot, identity_rename ht h, Option.map_some, htokens, renameEntry_tokens isName_other ht]

theorem other_ne (target : String) : other target ≠ target := by
  unfold other
  split
  · rename_i h
    rw [h]
    decide
  · rename_i h
    exact fun heq => h heq.symm

theorem not_both_rename (first : String) (members : List (String × Json)) :
    ¬bothNames (renameEntry (other first) first members) := by
  rintro ⟨hinf, hleg⟩
  have habsent := not_mem_keys_rename (other_ne first) members
  rcases isName_cases (@isName_other first) with heq | heq
  · exact habsent (heq ▸ hleg)
  · exact habsent (heq ▸ hinf)

theorem identity_again {target first : String} (ht : IsName target) (hf : IsName first)
    (h : ¬bothNames members) :
    (mapInfinidyskIdentity first (.obj members)).bind (mapInfinidyskIdentity target) =
      mapInfinidyskIdentity target (.obj members) := by
  rw [identity_rename hf h, Option.bind_some, identity_rename ht (not_both_rename first members), identity_rename ht h]
  by_cases hsame : first = target
  · subst hsame
    rw [renameEntry_absent (not_mem_keys_rename (other_ne first) members)]
  · have hone : other target = first ∧ other first = target := by
      rcases isName_cases ht with rfl | rfl <;> rcases isName_cases hf with rfl | rfl <;> simp_all [other]
    rw [hone.1, hone.2]
    by_cases hmem : target ∈ Dict.keys members
    · have hfirst : first ∉ Dict.keys members := by
        intro hfirst
        rcases isName_cases ht with rfl | rfl <;> rcases isName_cases hf with rfl | rfl
        · exact hsame rfl
        · exact h ⟨hfirst, hmem⟩
        · exact h ⟨hmem, hfirst⟩
        · exact hsame rfl
      rw [renameEntry_back hfirst, renameEntry_absent hfirst]
    · rw [renameEntry_absent hmem]

/-! ## What is written, read again -/

theorem not_both_tokens (target : String) {members : List (String × Json)} (h : ¬bothNames members) :
    ∃ ms, mapInfinidyskTokens text target true (.obj members) = .obj ms ∧ ¬bothNames ms :=
  ⟨_, tokens_obj members, fun hboth => h ((bothNames_map (f := mapMember text target true)).1 hboth)⟩

theorem not_both_normalize {members : List (String × Json)} (h : ¬bothNames members) :
    ∃ ms, normalizeReleaseSelectors text (.obj members) = .obj ms ∧ ¬bothNames ms := by
  obtain ⟨ms, hms, hkeys⟩ := @normalize_keys text members
  refine ⟨ms, hms, ?_⟩
  rw [bothNames, hkeys infinidyskKey (by decide), hkeys infinidyskLegacyKey (by decide)]
  exact h

theorem normalize_again (j : Json) :
    normalizeReleaseSelectors text (normalizeReleaseSelectors text j) = normalizeReleaseSelectors text j :=
  normalize_of_normal (normal_normalize j)

theorem canonicalize_normalize (h : ¬bothNames members) :
    canonicalizeRuntimeConfig text (normalizeReleaseSelectors text (.obj members)) =
      canonicalizeRuntimeConfig text (.obj members) := by
  have hinf : IsName infinidyskKey := by simp [IsName]
  rw [canonicalizeRuntimeConfig, normalize_identity hinf h, Option.map_map, canonicalizeRuntimeConfig]
  congr 1
  funext j
  rw [Function.comp_apply, ← normalize_tokens, normalize_again]

theorem canonicalize_tokens (hn : IsName target) (h : ¬bothNames members) :
    canonicalizeRuntimeConfig text (mapInfinidyskTokens text target true (.obj members)) =
      canonicalizeRuntimeConfig text (.obj members) := by
  have hinf : IsName infinidyskKey := by simp [IsName]
  rw [canonicalizeRuntimeConfig, identity_tokens hinf h, Option.map_map, canonicalizeRuntimeConfig]
  congr 1
  funext j
  rw [Function.comp_apply, tokens_again hn]

theorem canonicalize_identity {target : String} (hn : IsName target) {members : List (String × Json)} (h : ¬bothNames members) :
    (mapInfinidyskIdentity target (.obj members)).bind (canonicalizeRuntimeConfig text) =
      canonicalizeRuntimeConfig text (.obj members) := by
  have hinf : IsName infinidyskKey := by simp [IsName]
  have hagain := congrArg (Option.map fun mapped =>
    normalizeReleaseSelectors text (mapInfinidyskTokens text infinidyskKey true mapped)) (identity_again hinf hn h)
  rw [Option.map_bind] at hagain
  exact hagain

theorem canonicalize_serialize (legacy : Bool) (h : ¬bothNames members) :
    (serializeConfigForDisk text legacy (.obj members)).bind (canonicalizeRuntimeConfig text) =
      canonicalizeRuntimeConfig text (.obj members) := by
  obtain ⟨ms, hms, hnot⟩ := @not_both_normalize text members h
  rw [serializeConfigForDisk, ← canonicalize_normalize h, hms]
  cases legacy with
  | false => rfl
  | true =>
    have hleg : IsName infinidyskLegacyKey := by simp [IsName]
    obtain ⟨ms', hms', hnot'⟩ := @not_both_tokens text infinidyskLegacyKey ms hnot
    rw [← canonicalize_tokens hleg hnot, hms']
    exact canonicalize_identity hleg hnot'

theorem identity_plain {j : Json} (hobj : ∀ members, j ≠ .obj members) :
    mapInfinidyskIdentity target j = some j := by
  cases j with
  | obj members => exact absurd rfl (hobj members)
  | _ => rfl

theorem normalize_plain {j : Json} (hobj : ∀ members, j ≠ .obj members) (members : List (String × Json)) :
    normalizeReleaseSelectors text j ≠ .obj members := by
  intro heq
  cases j with
  | obj members => exact hobj members rfl
  | arr items =>
    rw [normalize_arr] at heq
    cases heq
  | _ => cases heq

theorem tokens_plain {target : String} {j : Json} (hobj : ∀ members, j ≠ .obj members) (members : List (String × Json)) :
    mapInfinidyskTokens text target true j ≠ .obj members := by
  intro heq
  cases j with
  | obj members => exact hobj members rfl
  | _ => cases heq

theorem canonicalize_plain {j : Json} (hobj : ∀ members, j ≠ .obj members) : canonicalizeRuntimeConfig text j =
    some (normalizeReleaseSelectors text (mapInfinidyskTokens text infinidyskKey true j)) := by
  rw [canonicalizeRuntimeConfig, identity_plain hobj, Option.map_some]

theorem canonicalize_serialize_plain (legacy : Bool) {j : Json} (hobj : ∀ members, j ≠ .obj members) :
    (serializeConfigForDisk text legacy j).bind (canonicalizeRuntimeConfig text) = canonicalizeRuntimeConfig text j := by
  have hleg : IsName infinidyskLegacyKey := by simp [IsName]
  have hnormal := @normalize_plain text j hobj
  rw [serializeConfigForDisk, canonicalize_plain hobj]
  cases legacy with
  | false =>
    simp only [Bool.false_eq_true, if_false]
    rw [Option.bind_some, canonicalize_plain hnormal, ← normalize_tokens, normalize_again]
  | true =>
    have htokens := @tokens_plain text infinidyskLegacyKey _ hnormal
    simp only [if_true]
    rw [identity_plain htokens, Option.bind_some, canonicalize_plain htokens, tokens_again hleg, ← normalize_tokens,
      normalize_again]

theorem canonicalize_again {c r : Json} (h : canonicalizeRuntimeConfig text c = some r) :
    canonicalizeRuntimeConfig text r = some r := by
  have hinf : IsName infinidyskKey := by simp [IsName]
  by_cases hobj : ∃ members, c = .obj members
  · obtain ⟨members, rfl⟩ := hobj
    have hnot : ¬bothNames members := by
      rintro ⟨hinf, hleg⟩
      simp only [canonicalizeRuntimeConfig, mapInfinidyskIdentity, List.contains_iff_mem.2 hinf, List.contains_iff_mem.2 hleg,
        Bool.and_self, if_true, Option.map_none] at h
      cases h
    have hrenamed := not_both_rename infinidyskKey members
    have hsame := @canonicalize_identity text _ hinf members hnot
    rw [identity_rename hinf hnot, Option.bind_some, h] at hsame
    rw [canonicalizeRuntimeConfig, identity_rename hinf hnot, Option.map_some] at h
    obtain ⟨ms, hms, hboth⟩ := @not_both_tokens text infinidyskKey _ hrenamed
    rw [← Option.some.inj h, hms, canonicalize_normalize hboth, ← hms, canonicalize_tokens hinf hrenamed, hsame,
      ← Option.some.inj h, hms]
  · have hplain : ∀ members, c ≠ .obj members := fun members heq => hobj ⟨members, heq⟩
    have htokens := @tokens_plain text infinidyskKey c hplain
    rw [canonicalize_plain hplain] at h
    rw [← Option.some.inj h, canonicalize_plain (normalize_plain htokens), ← normalize_tokens, normalize_again,
      tokens_again hinf]

/-! ## A file of the legacy identity -/

def spelledText (text : Text) (s : String) : Bool :=
  (split ',' s).all fun part => part = infinidyskLegacyKey || text.lower (text.strip part) ∉ [infinidyskLegacyKey, infinidyskKey]

def spelledMember (text : Text) (key : String) : Json → Bool
  | .str s => key ∉ ["core_service", "key_type"] || spelledText text s
  | .arr items => key ≠ "core_services" || items.all fun
    | .str s => spelledText text s
    | _ => true
  | _ => true

/-- The same of every `core_service`, `key_type` and `core_services` outside the top-level section of zurg. -/
def legacySpelled (text : Text) (members : List (String × Json)) : Bool :=
  (Json.obj (members.filter fun m => text.lower m.1 ≠ "zurg")).every fun ms => ms.all fun m => spelledMember text m.1 m.2

theorem mapTokens_spelled {s : String} (h : spelledText text s = true) : mapTokens text infinidyskLegacyKey s = s := by
  have hsame : ∀ part ∈ split ',' s,
      (if text.lower (text.strip part) ∈ [infinidyskLegacyKey, infinidyskKey] then infinidyskLegacyKey else part) = part := by
    intro part hpart
    have hone := List.all_eq_true.1 h part hpart
    rw [Bool.or_eq_true, decide_eq_true_eq, decide_eq_true_eq] at hone
    rcases hone with rfl | hno
    · simp
    · rw [if_neg hno]
  rw [mapTokens, List.map_congr_left hsame, List.map_id', join_split]

theorem mapItem_spelled {items : List Json} (h : (items.all fun
    | .str s => spelledText text s
    | _ => true) = true) : items.map (mapItem text infinidyskLegacyKey) = items := by
  apply map_eq_self.2
  intro item hitem
  have hone := List.all_eq_true.1 h item hitem
  cases item with
  | str s => rw [mapItem, mapTokens_spelled hone]
  | _ => rfl

theorem mapChild_spelled (j : Json) : ∀ {key : String}, spelledMember text key j = true →
    (j.every fun ms => ms.all fun m => spelledMember text m.1 m.2) = true → mapChild text infinidyskLegacyKey key j = j := by
  induction j using Json.ind with
  | arr items ih =>
    intro key h hevery
    rw [every_arr] at hevery
    by_cases hk : key = "core_services"
    · simp only [spelledMember, hk, ne_eq, not_true_eq_false, decide_false, Bool.false_or] at h
      simp only [mapChild, hk, if_true, mapItem_spelled h]
    · simp only [mapChild, hk, if_false, mapInfinidyskTokens, tokens_items, Json.arr.injEq]
      apply map_eq_self.2
      intro item hitem
      rw [tokens_child]
      exact ih item hitem (by cases item <;> simp [spelledMember]) (hevery item hitem)
  | obj members ih =>
    intro key _ hevery
    rw [every_obj] at hevery
    rw [mapChild_obj, Json.obj.injEq]
    apply map_eq_self.2
    intro m hm
    rw [ih m hm (List.all_eq_true.1 hevery.1 m hm) (hevery.2 m hm)]
  | leaf j harr hobj =>
    intro key h _
    cases j with
    | arr items => exact absurd rfl (harr items)
    | obj members => exact absurd rfl (hobj members)
    | str s =>
      by_cases hk : key ∈ ["core_service", "key_type"]
      · rw [spelledMember, Bool.or_eq_true] at h
        have hs := h.resolve_left fun hno => of_decide_eq_true hno hk
        simp only [mapChild, if_pos hk, mapTokens_spelled hs]
      · simp only [mapChild, if_neg hk]
    | _ => rfl

theorem tokens_spelled (h : legacySpelled text members = true) :
    mapInfinidyskTokens text infinidyskLegacyKey true (.obj members) = .obj members := by
  rw [legacySpelled, every_obj] at h
  rw [tokens_obj, Json.obj.injEq]
  apply map_eq_self.2
  intro m hm
  by_cases hz : text.lower m.1 = "zurg"
  · simp [hz]
  · have hmem : m ∈ members.filter fun m => text.lower m.1 ≠ "zurg" := List.mem_filter.2 ⟨hm, by simp [hz]⟩
    simp only [hz, decide_false, Bool.and_false, Bool.false_eq_true, if_false]
    rw [mapChild_spelled m.2 (List.all_eq_true.1 h.1 m hmem) (h.2 m hmem)]

theorem serialize_canonicalize (hlegacy : isLegacy members = true)
    (hspelled : legacySpelled text members = true) (hnormal : normal text (.obj members) = true) :
    (canonicalizeRuntimeConfig text (.obj members)).bind (serializeConfigForDisk text true) = some (.obj members) := by
  have hinf : IsName infinidyskKey := by simp [IsName]
  have hleg : IsName infinidyskLegacyKey := by simp [IsName]
  simp only [isLegacy, Bool.and_eq_true, List.contains_iff_mem, Bool.not_eq_true', ← Bool.not_eq_true] at hlegacy
  have hnot : ¬bothNames members := fun h => hlegacy.2 h.1
  have hrenamed := not_both_rename infinidyskKey members
  have hsame : normalizeReleaseSelectors text (.obj (renameEntry (other infinidyskKey) infinidyskKey members)) =
      .obj (renameEntry (other infinidyskKey) infinidyskKey members) := by
    rw [normalize_rename (by decide) (by decide) (by decide) (by decide), normalize_of_normal hnormal]
    rfl
  have hback : mapInfinidyskIdentity infinidyskLegacyKey (.obj (renameEntry (other infinidyskKey) infinidyskKey members)) =
      some (.obj members) := by
    have hagain := identity_again hleg hinf hnot
    have habsent : renameEntry (other infinidyskLegacyKey) infinidyskLegacyKey members = members := renameEntry_absent hlegacy.2
    rw [identity_rename hinf hnot, Option.bind_some, identity_rename hleg hnot, habsent] at hagain
    exact hagain
  rw [canonicalizeRuntimeConfig, identity_rename hinf hnot, Option.map_some, Option.bind_some, normalize_tokens, hsame,
    serializeConfigForDisk, normalize_tokens, hsame, tokens_again hinf]
  simp only [if_true]
  rw [identity_tokens hleg hrenamed, hback, Option.map_some, tokens_spelled hspelled]

end Dumb.Config

/-! ## The legacy identity survives every save -/

namespace Dumb.Config

open Py Py.Json

/-- A file of the legacy identity is written as it was read, and whatever is written, with either identity, is read as the
configuration that was written. -/
theorem identity_round_trip (text : Text) :
    (∀ members, isLegacy members = true → legacySpelled text members = true → normal text (.obj members) = true →
      (canonicalizeRuntimeConfig text (.obj members)).bind (serializeConfigForDisk text (isLegacy members)) =
        some (.obj members)) ∧
    ∀ (legacy : Bool) (c : Json), (∀ members, c = .obj members → ¬bothNames members) →
      (serializeConfigForDisk text legacy c).bind (canonicalizeRuntimeConfig text) = canonicalizeRuntimeConfig text c ∧
        ∃ r, canonicalizeRuntimeConfig text c = some r ∧
          (serializeConfigForDisk text legacy r).bind (canonicalizeRuntimeConfig text) = some r := by
  have hwritten : ∀ (legacy : Bool) (c : Json), (∀ members, c = .obj members → ¬bothNames members) →
      (serializeConfigForDisk text legacy c).bind (canonicalizeRuntimeConfig text) = canonicalizeRuntimeConfig text c := by
    intro legacy c hnot
    by_cases hobj : ∃ members, c = .obj members
    · obtain ⟨members, rfl⟩ := hobj
      exact canonicalize_serialize legacy (hnot members rfl)
    · exact canonicalize_serialize_plain legacy fun members heq => hobj ⟨members, heq⟩
  constructor
  · intro members hlegacy hspelled hnormal
    rw [hlegacy]
    exact serialize_canonicalize hlegacy hspelled hnormal
  · intro legacy c hnot
    refine ⟨hwritten legacy c hnot, ?_⟩
    have hreads : ∃ r, canonicalizeRuntimeConfig text c = some r := by
      by_cases hobj : ∃ members, c = .obj members
      · obtain ⟨members, rfl⟩ := hobj
        rw [canonicalizeRuntimeConfig, identity_rename (by simp [IsName]) (hnot members rfl)]
        exact ⟨_, rfl⟩
      · exact ⟨_, canonicalize_plain fun members heq => hobj ⟨members, heq⟩⟩
    obtain ⟨r, hr⟩ := hreads
    have hagain := canonicalize_again hr
    refine ⟨r, hr, ?_⟩
    rw [hwritten legacy r, hagain]
    rintro members rfl ⟨hinf, hleg⟩
    simp only [canonicalizeRuntimeConfig, mapInfinidyskIdentity, List.contains_iff_mem.2 hinf, List.contains_iff_mem.2 hleg,
      Bool.and_self, if_true, Option.map_none] at hagain
    cases hagain

def legacyFile : List (String × Json) :=
  [("nzbdav", .obj [("enabled", .bool true), ("release_version_enabled", .bool true), ("release_version", .str "v1.0")]),
    ("zurg", .obj [("core_service", .str "InfiniDysk")]),
    ("rclone", .obj [("instances", .obj [("Usenet", .obj [("core_service", .str "decypharr,nzbdav"),
      ("core_services", .arr [.str "nzbdav", .str "zurg"]), ("key_type", .str "nzbdav")])])])]

theorem identity_round_trip_rclone : (canonicalizeRuntimeConfig .ascii (.obj legacyFile)).bind
    (serializeConfigForDisk .ascii (isLegacy legacyFile)) = some (.obj legacyFile) :=
  (identity_round_trip .ascii).1 legacyFile (by decide +kernel) (by decide +kernel) (by decide +kernel)

end Dumb.Config
