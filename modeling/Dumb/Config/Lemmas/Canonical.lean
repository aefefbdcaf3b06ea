import Dumb.Config.Loader

/-!
# The runtime view of a file, and back

Mapping the service tokens a second time, whichever name the first time used, comes to the second mapping
alone, and normal release selectors stay as they are.
-/

namespace Dumb.Config

open Py Py.Json

variable {text : Text}

/-! ## Tokens -/

def IsName (target : String) : Prop := target ∈ [infinidyskLegacyKey, infinidyskKey]

theorem lower_plain {s : String} (h : Plain s) (hs : asciiLower s = s) : text.lower (text.strip s) = s := by
  rw [text.strip_plain h, text.lower_plain h, hs]

variable {target : String}

theorem isName_self (h : IsName target) : text.lower (text.strip target) = target := by
  simp only [IsName, List.mem_cons, List.not_mem_nil, or_false] at h
  rcases h with rfl | rfl <;> exact lower_plain (by decide) (by decide)

theorem isName_comma (h : IsName target) : ',' ∉ target.toList := by
  simp only [IsName, List.mem_cons, List.not_mem_nil, or_false] at h
  rcases h with rfl | rfl <;> decide

theorem mapTokens_again {target first : String} (hf : IsName first) (s : String) :
    mapTokens text target (mapTokens text first s) = mapTokens text target s := by
  have hcomma : ∀ part ∈ (split ',' s).map fun part =>
      if text.lower (text.strip part) ∈ [infinidyskLegacyKey, infinidyskKey] then first else part,
      ',' ∉ part.toList := by
    simp only [List.mem_map, forall_exists_index, and_imp, forall_apply_eq_imp_iff₂]
    intro part hpart
    split
    · exact isName_comma hf
    · exact not_mem_split hpart
  rw [mapTokens, mapTokens, split_join (by simp [split_ne_nil]) hcomma, List.map_map, mapTokens]
  congr 1
  refine List.map_congr_left fun part _ => ?_
  by_cases hpart : text.lower (text.strip part) ∈ [infinidyskLegacyKey, infinidyskKey]
  · have hfirst : text.lower (text.strip first) ∈ [infinidyskLegacyKey, infinidyskKey] := by
      rw [isName_self hf]
      exact hf
    simp only [Function.comp_apply, if_pos hpart, if_pos hfirst]
  · simp only [Function.comp_apply, if_neg hpart]

theorem mapTokens_plain {s : String}
    (h : ∀ part ∈ split ',' s, Plain part ∧ asciiLower part ∉ [infinidyskLegacyKey, infinidyskKey]) (target : String) :
    mapTokens text target s = s := by
  have hsame : ∀ part ∈ split ',' s,
      (if text.lower (text.strip part) ∈ [infinidyskLegacyKey, infinidyskKey] then target else part) = part := by
    intro part hpart
    obtain ⟨hplain, hname⟩ := h part hpart
    rw [text.strip_plain hplain, text.lower_plain hplain, if_neg hname]
  rw [mapTokens, List.map_congr_left hsame, List.map_id', join_split]

def mapChild (text : Text) (target key : String) : Json → Json
  | .str s => if key ∈ ["core_service", "key_type"] then .str (mapTokens text target s) else .str s
  | .arr items =>
    if key = "core_services" then .arr (items.map (mapItem text target))
    else mapInfinidyskTokens text target false (.arr items)
  | j => mapInfinidyskTokens text target false j

theorem tokens_items {target : String} : ∀ items : List Json,
    mapInfinidyskTokens.ofItems text target items = items.map (mapInfinidyskTokens text target false)
  | [] => rfl
  | item :: items => by rw [mapInfinidyskTokens.ofItems, tokens_items items, List.map_cons]

theorem tokens_members {target : String} {top : Bool} : ∀ members : List (String × Json),
    mapInfinidyskTokens.ofMembers text target top members = members.map fun m =>
      (m.1, if top && text.lower m.1 = "zurg" then m.2 else mapChild text target m.1 m.2)
  | [] => rfl
  | (key, child) :: members => by
    have ih := @tokens_members target top members
    cases child <;> simp [mapInfinidyskTokens.ofMembers, ih, mapChild]

theorem tokens_obj {top : Bool} (members : List (String × Json)) :
    mapInfinidyskTokens text target top (.obj members) = .obj (members.map fun m =>
      (m.1, if top && text.lower m.1 = "zurg" then m.2 else mapChild text target m.1 m.2)) := by
  rw [mapInfinidyskTokens, tokens_members]

theorem tokens_child (j : Json) :
    mapInfinidyskTokens text target false j = mapChild text target "" j := by
  cases j <;> simp [mapChild, mapInfinidyskTokens]

theorem mapChild_obj (target key : String) (members : List (String × Json)) :
    mapChild text target key (.obj members) = .obj (members.map fun m => (m.1, mapChild text target m.1 m.2)) := by
  simp [mapChild, tokens_obj]

theorem mapItem_again {target first : String} (hf : IsName first) (item : Json) :
    mapItem text target (mapItem text first item) = mapItem text target item := by
  cases item with
  | str s => simp [mapItem, mapTokens_again hf]
  | _ => rfl

theorem mapChild_again {target first : String} (hf : IsName first) (j : Json) :
    ∀ key, mapChild text target key (mapChild text first key j) = mapChild text target key j := by
  induction j using Json.ind with
  | obj members ih =>
    intro key
    rw [mapChild_obj, mapChild_obj, mapChild_obj, List.map_map]
    congr 1
    exact List.map_congr_left fun m hm => by simp [ih m hm]
  | arr items ih =>
    intro key
    by_cases hk : key = "core_services"
    · simp [mapChild, hk, mapItem_again hf]
    · simp only [mapChild, hk, if_false, mapInfinidyskTokens, tokens_items, List.map_map, Json.arr.injEq]
      refine List.map_congr_left fun item hitem => ?_
      simp only [Function.comp_apply, tokens_child, ih item hitem]
  | leaf j harr hobj =>
    intro key
    cases j with
    | arr items => exact absurd rfl (harr items)
    | obj members => exact absurd rfl (hobj members)
    | str s =>
      by_cases hk : key ∈ ["core_service", "key_type"]
      · simp only [mapChild, if_pos hk, mapTokens_again hf]
      · simp only [mapChild, if_neg hk]
    | _ => rfl

theorem tokens_again {target first : String} (hf : IsName first) (top : Bool) (j : Json) :
    mapInfinidyskTokens text target top (mapInfinidyskTokens text first top j) =
      mapInfinidyskTokens text target top j := by
  cases j with
  | obj members =>
    rw [tokens_obj, tokens_obj, tokens_obj, List.map_map]
    congr 1
    refine List.map_congr_left fun m _ => ?_
    by_cases hz : (top && text.lower m.1 = "zurg") = true
    · simp only [Function.comp_apply, hz, if_true]
    · simp only [Function.comp_apply, hz, Bool.false_eq_true, if_false, mapChild_again hf]
  | arr items =>
    simp only [mapInfinidyskTokens, tokens_items, List.map_map, Json.arr.injEq]
    refine List.map_congr_left fun item _ => ?_
    simp only [Function.comp_apply, tokens_child, mapChild_again hf]
  | _ => rfl

/-! ## Release selectors -/

theorem normalize_items : ∀ items : List Json,
    normalizeReleaseSelectors.ofItems text items = items.map (normalizeReleaseSelectors text)
  | [] => rfl
  | item :: items => by rw [normalizeReleaseSelectors.ofItems, normalize_items items, List.map_cons]

theorem normalize_members : ∀ members : List (String × Json),
    normalizeReleaseSelectors.ofMembers text members = members.map fun m => (m.1, normalizeReleaseSelectors text m.2)
  | [] => rfl
  | (key, child) :: members => by
    rw [normalizeReleaseSelectors.ofMembers, normalize_members members, List.map_cons]

def normal (text : Text) : Json → Bool := every fun members => !blankSelector text members

theorem normalize_obj (members : List (String × Json)) : normalizeReleaseSelectors text (.obj members) =
    .obj (if blankSelector text members then
      Dict.set "release_version" (.str "latest") (members.map fun m => (m.1, normalizeReleaseSelectors text m.2))
      else members.map fun m => (m.1, normalizeReleaseSelectors text m.2)) := by
  rw [normalizeReleaseSelectors, normalize_members]

theorem normalize_arr (items : List Json) : normalizeReleaseSelectors text (.arr items) =
    .arr (items.map (normalizeReleaseSelectors text)) := by
  rw [normalizeReleaseSelectors, normalize_items]

theorem normalize_leaf {j : Json} (harr : ∀ items, j ≠ .arr items) (hobj : ∀ members, j ≠ .obj members) :
    normalizeReleaseSelectors text j = j := by
  cases j with
  | arr items => exact absurd rfl (harr items)
  | obj members => exact absurd rfl (hobj members)
  | _ => rfl

theorem normalize_of_normal {j : Json} : normal text j = true → normalizeReleaseSelectors text j = j := by
  induction j using Json.ind with
  | arr items ih =>
    intro h
    rw [normal, every_arr] at h
    rw [normalize_arr, List.map_congr_left (g := id) fun item hitem => ih item hitem (h item hitem), List.map_id]
  | obj members ih =>
    intro h
    rw [normal, every_obj, Bool.not_eq_true'] at h
    have hsame : members.map (fun m => (m.1, normalizeReleaseSelectors text m.2)) = members := by
      rw [List.map_congr_left (g := id) fun m hm => by rw [ih m hm (h.2 m hm)]; rfl, List.map_id]
    rw [normalize_obj, h.1, hsame]
    rfl
  | leaf j harr hobj => exact fun _ => normalize_leaf harr hobj

theorem field_map {f : Json → Json} (hf : f .null = .null) (k : String) : ∀ members : List (String × Json),
    field k (.obj (members.map fun m => (m.1, f m.2))) = f (field k (.obj members))
  | [] => by simp [field, hf]
  | m :: members => by
    have ih := field_map hf k members
    simp only [field] at ih
    by_cases hk : m.1 = k
    · simp [field, Dict.get?, hk]
    · simp [field, Dict.get?, hk, ih]

theorem isTrue_normalize (j : Json) : (normalizeReleaseSelectors text j).isTrue = j.isTrue := by
  cases j <;> rfl

theorem blank_normalize (j : Json) : text.blank (normalizeReleaseSelectors text j) = text.blank j := by
  cases j with
  | arr items =>
    rw [normalize_arr, text.blank_arr, text.blank_arr]
    cases items <;> rfl
  | obj members =>
    rw [normalize_obj, text.blank_obj, text.blank_obj]
    cases members with
    | nil => rfl
    | cons m members =>
      split
      · simp only [List.map_cons, Dict.set]
        split <;> rfl
      · rfl
  | _ => rfl

theorem blankSelector_map (members : List (String × Json)) :
    blankSelector text (members.map fun m => (m.1, normalizeReleaseSelectors text m.2)) =
      blankSelector text members := by
  simp only [blankSelector, field_map (f := normalizeReleaseSelectors text) rfl, isTrue_normalize, blank_normalize]

theorem latest_selector (members : List (String × Json)) :
    blankSelector text (Dict.set "release_version" (.str "latest") members) = false := by
  have hlatest : text.blank (.str "latest") = false := text.not_blank_plain (by decide) (by decide)
  simp [blankSelector, field_set, hlatest]

theorem normal_normalize (j : Json) : normal text (normalizeReleaseSelectors text j) = true := by
  induction j using Json.ind with
  | arr items ih =>
    rw [normalize_arr, normal, every_arr]
    intro item hitem
    obtain ⟨x, hx, rfl⟩ := List.mem_map.1 hitem
    exact ih x hx
  | obj members ih =>
    have hmap : ∀ m ∈ members.map (fun m => (m.1, normalizeReleaseSelectors text m.2)), normal text m.2 = true := by
      intro m hm
      obtain ⟨x, hx, rfl⟩ := List.mem_map.1 hm
      exact ih x hx
    rw [normalize_obj, normal, every_obj]
    split
    · refine ⟨by rw [latest_selector]; rfl, fun m hm => ?_⟩
      rcases Dict.mem_set hm with rfl | hm
      · rfl
      · exact hmap m hm
    · rename_i hblank
      exact ⟨by rw [blankSelector_map]; simpa using hblank, hmap⟩
  | leaf j harr hobj =>
    rw [normalize_leaf harr hobj]
    cases j with
    | arr items => exact absurd rfl (harr items)
    | obj members => exact absurd rfl (hobj members)
    | _ => rfl

variable {members : List (String × Json)}

theorem identity_obj {mapped : Json}
    (h : mapInfinidyskIdentity target (.obj members) = some mapped) : ∃ ms, mapped = .obj ms := by
  simp only [mapInfinidyskIdentity] at h
  split at h
  · cases h
  · generalize (if target = infinidyskKey then infinidyskLegacyKey else infinidyskKey) = source at h
    split at h
    · exact ⟨_, (Option.some.inj h).symm⟩
    · exact ⟨_, (Option.some.inj h).symm⟩

theorem isTrue_mapChild (target key : String) (j : Json) : (mapChild text target key j).isTrue = j.isTrue := by
  cases j with
  | str s =>
    simp only [mapChild]
    split <;> rfl
  | arr items =>
    simp only [mapChild]
    split <;> rfl
  | _ => rfl

theorem blank_mapChild (target : String) (j : Json) :
    text.blank (mapChild text target "release_version" j) = text.blank j := by
  cases j with
  | arr items =>
    have harr : mapChild text target "release_version" (.arr items) =
        .arr (items.map (mapInfinidyskTokens text target false)) := by
      simp [mapChild, mapInfinidyskTokens, tokens_items]
    rw [harr, text.blank_arr, text.blank_arr, List.isEmpty_map]
  | obj members => rw [mapChild_obj, text.blank_obj, text.blank_obj, List.isEmpty_map]
  | _ => rfl

/-! ## Values whose tokens are mapped -/

def Mapped (text : Text) (key : String) (j : Json) : Prop := mapChild text infinidyskKey key j = j

theorem map_eq_self {α : Type} {f : α → α} {xs : List α} : xs.map f = xs ↔ ∀ x ∈ xs, f x = x := by
  induction xs with
  | nil => simp
  | cons x xs ih => simp [ih]

theorem mapped_obj {key : String} :
    Mapped text key (.obj members) ↔ ∀ m ∈ members, Mapped text m.1 m.2 := by
  rw [Mapped, mapChild_obj, Json.obj.injEq, map_eq_self]
  simp only [Prod.ext_iff, true_and, Mapped]

theorem mapped_arr {key : String} {items : List Json} : Mapped text key (.arr items) ↔
    if key = "core_services" then ∀ item ∈ items, mapItem text infinidyskKey item = item
    else ∀ item ∈ items, Mapped text "" item := by
  split
  · rename_i hk
    simp [Mapped, mapChild, hk, map_eq_self]
  · rename_i hk
    have hitems : mapChild text infinidyskKey key (.arr items) =
        .arr (items.map (mapInfinidyskTokens text infinidyskKey false)) := by
      simp [mapChild, hk, mapInfinidyskTokens, tokens_items]
    rw [Mapped, hitems, Json.arr.injEq, map_eq_self]
    simp only [Mapped, ← tokens_child]

theorem mapItem_normalize {item : Json} (h : mapItem text infinidyskKey item = item) :
    mapItem text infinidyskKey (normalizeReleaseSelectors text item) = normalizeReleaseSelectors text item := by
  cases item with
  | str s => exact h
  | arr items =>
    rw [normalize_arr]
    rfl
  | obj members =>
    rw [normalize_obj]
    rfl
  | _ => rfl

theorem Mapped.normalize {j : Json} : ∀ {key : String}, Mapped text key j →
    Mapped text key (normalizeReleaseSelectors text j) := by
  induction j using Json.ind with
  | arr items ih =>
    intro key h
    rw [mapped_arr] at h
    rw [normalize_arr, mapped_arr]
    split
    · rename_i hk
      rw [if_pos hk] at h
      simpa using fun item hitem => mapItem_normalize (h item hitem)
    · rename_i hk
      rw [if_neg hk] at h
      simpa using fun item hitem => ih item hitem (h item hitem)
  | obj members ih =>
    intro key h
    rw [mapped_obj] at h
    have hmap : ∀ m ∈ members.map (fun m => (m.1, normalizeReleaseSelectors text m.2)), Mapped text m.1 m.2 := by
      intro m hm
      obtain ⟨x, hx, rfl⟩ := List.mem_map.1 hm
      exact ih x hx (h x hx)
    rw [normalize_obj, mapped_obj]
    split
    · intro m hm
      rcases Dict.mem_set hm with rfl | hm
      · simp [Mapped, mapChild]
      · exact hmap m hm
    · exact hmap
  | leaf j harr hobj =>
    intro key h
    rwa [normalize_leaf harr hobj]

end Dumb.Config
