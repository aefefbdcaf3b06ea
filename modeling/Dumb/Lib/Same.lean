import Dumb.Lib.Json

/-!
# Equality of JSON values

Of the documents themselves, where Python takes `1` and `True` for equal.
-/

namespace Py.Json

def same : Json → Json → Bool
  | .null, .null => true
  | .bool a, .bool b => a = b
  | .int a, .int b => a = b
  | .float a, .float b => a = b
  | .str a, .str b => a = b
  | .arr items, .arr others => sameItems items others
  | .obj members, .obj others => sameMembers members others
  | _, _ => false
where
  sameItems : List Json → List Json → Bool
    | [], [] => true
    | item :: items, other :: others => same item other && sameItems items others
    | _, _ => false
  sameMembers : List (String × Json) → List (String × Json) → Bool
    | [], [] => true
    | (k, j) :: members, (q, other) :: others => k = q && same j other && sameMembers members others
    | _, _ => false

theorem sameItems_iff : ∀ {items others : List Json}, (∀ item ∈ items, ∀ j, same item j = true ↔ item = j) →
    (same.sameItems items others = true ↔ items = others)
  | [], [], _ => by simp [same.sameItems]
  | [], _ :: _, _ => by simp [same.sameItems]
  | _ :: _, [], _ => by simp [same.sameItems]
  | item :: items, other :: others, h => by
    rw [same.sameItems, Bool.and_eq_true, h item List.mem_cons_self,
      sameItems_iff fun i hi => h i (List.mem_cons_of_mem _ hi), List.cons.injEq]

theorem sameMembers_iff : ∀ {members others : List (String × Json)}, (∀ m ∈ members, ∀ j, same m.2 j = true ↔ m.2 = j) →
    (same.sameMembers members others = true ↔ members = others)
  | [], [], _ => by simp [same.sameMembers]
  | [], _ :: _, _ => by simp [same.sameMembers]
  | _ :: _, [], _ => by simp [same.sameMembers]
  | (k, j) :: members, (q, other) :: others, h => by
    rw [same.sameMembers, Bool.and_eq_true, Bool.and_eq_true, h (k, j) List.mem_cons_self,
      sameMembers_iff fun m hm => h m (List.mem_cons_of_mem _ hm), List.cons.injEq, Prod.mk.injEq, decide_eq_true_eq]

theorem same_iff (j : Json) : ∀ other, same j other = true ↔ j = other := by
  induction j using ind with
  | arr items ih =>
    intro other
    cases other with
    | arr others => rw [same, sameItems_iff ih, Json.arr.injEq]
    | _ => simp [same]
  | obj members ih =>
    intro other
    cases other with
    | obj others => rw [same, sameMembers_iff ih, Json.obj.injEq]
    | _ => simp [same]
  | leaf j harr hobj =>
    intro other
    cases j with
    | arr items => exact absurd rfl (harr items)
    | obj members => exact absurd rfl (hobj members)
    | _ => cases other <;> simp [same]

instance : DecidableEq Json := fun j other => decidable_of_iff _ (same_iff j other)

end Py.Json
