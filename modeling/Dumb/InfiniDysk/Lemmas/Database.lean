import Dumb.InfiniDysk.Lemmas.Names

/-!
# The rows of the database

The updates of a table by its primary key come to one pass over its rows.
-/

namespace Dumb.InfiniDysk

open Py

section

variable {ρ : Type}

namespace Table

def applyAll (set : String → ρ → ρ) (updates : List (String × String)) (r : Row ρ) : Row ρ :=
  updates.foldl (fun r u => if r.id = u.2 then { r with columns := set u.1 r.columns } else r) r

variable (set : String → ρ → ρ)

theorem foldl_update_rows (updates : List (String × String)) (t : Table ρ) :
    (updates.foldl (fun t u => t.update u.2 (set u.1)) t).rows = t.rows.map (applyAll set updates) := by
  induction updates generalizing t with
  | nil => exact (List.map_id t.rows).symm
  | cons u updates ih =>
    rw [List.foldl_cons, ih]
    exact List.map_map

theorem applyAll_other {updates : List (String × String)} {r : Row ρ}
    (h : ∀ u ∈ updates, u.2 ≠ r.id) : applyAll set updates r = r := by
  induction updates with
  | nil => rfl
  | cons u updates ih =>
    rw [applyAll, List.foldl_cons, if_neg (h u List.mem_cons_self).symm]
    exact ih fun v hv => h v (List.mem_cons_of_mem u hv)

def updateOf (value : ρ → Option String) (r : Row ρ) : Option (String × String) :=
  (value r.columns).map fun text => (text, r.id)

theorem applyAll_updates (value : ρ → Option String) {rows : List (Row ρ)}
    (hkeys : (rows.map Row.id).Nodup) {r : Row ρ} (hr : r ∈ rows) :
    applyAll set (rows.filterMap (updateOf value)) r =
      { r with columns := ((value r.columns).map fun text => set text r.columns).getD r.columns } := by
  induction rows with
  | nil => cases hr
  | cons x rows ih =>
    rw [List.map_cons, List.nodup_cons] at hkeys
    rcases List.mem_cons.1 hr with rfl | hr
    · have hothers : ∀ u ∈ rows.filterMap (updateOf value), u.2 ≠ r.id := by
        intro u hu
        obtain ⟨y, hy, hupdate⟩ := List.mem_filterMap.1 hu
        obtain ⟨text, -, rfl⟩ := Option.map_eq_some_iff.1 hupdate
        intro hid
        exact hkeys.1 (hid ▸ List.mem_map_of_mem hy)
      cases hvalue : value r.columns with
      | none => rw [List.filterMap_cons_none (by rw [updateOf, hvalue]; rfl), applyAll_other set hothers]; rfl
      | some text =>
        rw [List.filterMap_cons_some (b := (text, r.id)) (by rw [updateOf, hvalue]; rfl), applyAll, List.foldl_cons, if_pos rfl]
        exact applyAll_other set hothers
    · have hid : x.id ≠ r.id := by
        intro hid
        exact hkeys.1 (hid ▸ List.mem_map_of_mem hr)
      cases hvalue : value x.columns with
      | none => rw [List.filterMap_cons_none (by rw [updateOf, hvalue]; rfl), ih hkeys.2 hr]
      | some text =>
        rw [List.filterMap_cons_some (b := (text, x.id)) (by rw [updateOf, hvalue]; rfl), applyAll, List.foldl_cons,
          if_neg hid.symm]
        exact ih hkeys.2 hr

end Table

end

section

variable {word : Char → Bool} {islower : String → Bool}

theorem toList_rewriteField (word : Char → Bool) (value : String) :
    (rewriteField word value).toList = if value.toList.head? = some '/' then subFrom (token false) 0 value.toList
      else subWordFrom word (token false) 0 none value.toList :=
  rewrite_toList word false value

theorem toList_rewriteExternalText (word : Char → Bool) (islower : String → Bool) (value : String) :
    (rewriteExternalText word islower value).toList =
      if value.toList.head? = some '/' then subFrom (token false) 0 value.toList
      else subWordFrom word (token !islower value) 0 none value.toList :=
  rewrite_toList word (!islower value) value

variable {value : String}

theorem rewrite_of_not_like (h : like value = false) (display : Bool) :
    (if value.toList.head? = some '/' then subFrom (token false) 0 value.toList
      else subWordFrom word (token display) 0 none value.toList) = value.toList := by
  rw [subFrom_eq_self h, subWordFrom_eq_self (wordFrom_of_not_like h), ite_self]

theorem rewriteField_of_not_like (h : like value = false) : rewriteField word value = value :=
  String.toList_inj.1 ((toList_rewriteField word value).trans (rewrite_of_not_like h false))

theorem rewriteExternalText_of_not_like (h : like value = false) :
    rewriteExternalText word islower value = value :=
  String.toList_inj.1 ((toList_rewriteExternalText word islower value).trans (rewrite_of_not_like h _))

theorem rewriteColumn_rows {ρ : Type} {get : ρ → String} {put : String → ρ → ρ} (hput : ∀ c, put (get c) c = c)
    (t : Table ρ) : (rewriteColumn word get put t).2.rows =
      t.rows.map fun r => { r with columns := put (rewriteField word (get r.columns)) r.columns } := by
  let value : ρ → Option String := fun c =>
    if like (get c) then if rewriteField word (get c) ≠ get c then some (rewriteField word (get c)) else none else none
  have hupdates : ((t.rows.filter fun r => like (get r.columns)).filterMap fun r =>
      if rewriteField word (get r.columns) ≠ get r.columns then some (rewriteField word (get r.columns), r.id) else none) =
      t.rows.filterMap (Table.updateOf value) := by
    rw [List.filterMap_filter]
    apply List.filterMap_congr
    intro r _
    simp only [Table.updateOf, value]
    split_ifs <;> rfl
  rw [rewriteColumn]
  simp only [hupdates]
  rw [Table.foldl_update_rows]
  apply List.map_congr_left
  intro r hr
  rw [Table.applyAll_updates put value t.keys hr]
  simp only [value]
  split_ifs with hlike hchanged
  · rfl
  · rw [not_not.1 hchanged, hput]
    rfl
  · rw [rewriteField_of_not_like (Bool.eq_false_iff.2 hlike), hput]
    rfl

theorem foldl_rewriteConfigItems (rows : List (Row String)) (n : Nat) (t : Table String) :
    (rows.foldl (fun acc r =>
      if rewriteExternalText word islower r.columns = r.columns then acc
      else (acc.1 + 1, acc.2.update r.id fun _ => rewriteExternalText word islower r.columns)) (n, t)).2 =
    (rows.filterMap (Table.updateOf fun c =>
      if rewriteExternalText word islower c = c then none else some (rewriteExternalText word islower c))).foldl
        (fun t u => t.update u.2 fun _ => u.1) t := by
  induction rows generalizing n t with
  | nil => rfl
  | cons r rows ih =>
    rw [List.foldl_cons]
    split_ifs with hsame
    · rw [ih, List.filterMap_cons_none (by rw [Table.updateOf, if_pos hsame]; rfl)]
    · rw [ih, List.filterMap_cons_some (by rw [Table.updateOf, if_neg hsame]; rfl), List.foldl_cons]

theorem rewriteConfigItems_rows (t : Table String) : (rewriteConfigItems word islower t).2.rows =
    t.rows.map fun r => { r with columns := rewriteExternalText word islower r.columns } := by
  rw [rewriteConfigItems, foldl_rewriteConfigItems, Table.foldl_update_rows fun text _ => text]
  apply List.map_congr_left
  intro r hr
  rw [Table.applyAll_updates _ _ t.keys hr]
  split_ifs with hsame
  · rw [hsame]
    rfl
  · rfl

end

end Dumb.InfiniDysk
