import Mathlib.Data.List.InsertIdx

/-!
# Shelves

A shelf holds what has been put on it, newest first, each thing with its date. The things of one date are numbered from
one, the newest first.
-/

namespace Shelf

variable {δ φ : Type} [DecidableEq δ]

def group (d : δ) (shelf : List (δ × φ)) : List φ := (shelf.filter fun e => e.1 = d).map Prod.snd

/-- The dates and numbers of the things on a shelf, where things of the dates in `seen` are newer. -/
def labelsFrom (seen : List δ) : List (δ × φ) → List (δ × Nat)
  | [] => []
  | e :: shelf => (e.1, seen.count e.1 + 1) :: labelsFrom (e.1 :: seen) shelf

def labels (shelf : List (δ × φ)) : List (δ × Nat) := labelsFrom [] shelf

/-- A new thing of the newest date `d`, in place of the `n`-th of that date if there is one. -/
def push (n : Nat) (d : δ) (x : φ) (shelf : List (δ × φ)) : List (δ × φ) :=
  (d, x) :: if n ≤ (group d shelf).length then shelf.eraseIdx (n - 1) else shelf

/-! ## Groups -/

@[simp] theorem group_nil (d : δ) : group d ([] : List (δ × φ)) = [] := rfl

@[simp] theorem group_cons_self (d : δ) (x : φ) (shelf : List (δ × φ)) : group d ((d, x) :: shelf) = x :: group d shelf := by
  simp [group]

theorem group_cons_ne {d e : δ} (h : e ≠ d) (x : φ) (shelf : List (δ × φ)) : group d ((e, x) :: shelf) = group d shelf := by
  simp [group, h]

theorem group_append (d : δ) (a b : List (δ × φ)) : group d (a ++ b) = group d a ++ group d b := by
  simp [group]

theorem group_eq_nil {d : δ} {shelf : List (δ × φ)} (h : ∀ e ∈ shelf, e.1 ≠ d) : group d shelf = [] := by
  simpa [group] using h

theorem group_newest {le : δ → δ → Prop} (hanti : ∀ a b, le a b → le b a → a = b) {d : δ} {shelf : List (δ × φ)}
    (hsorted : shelf.Pairwise fun e f => le f.1 e.1) (hnewest : ∀ e ∈ shelf, le e.1 d) :
    ∃ front back, shelf = front.map (fun x => (d, x)) ++ back ∧ group d shelf = front ∧ ∀ e ∈ back, e.1 ≠ d := by
  induction shelf with
  | nil => exact ⟨[], [], rfl, rfl, by simp⟩
  | cons e shelf ih =>
    obtain ⟨d', x⟩ := e
    obtain ⟨hfirst, hsorted⟩ := List.pairwise_cons.1 hsorted
    obtain ⟨front, back, hshelf, hgroup, hback⟩ := ih hsorted fun e he => hnewest e (List.mem_cons_of_mem _ he)
    by_cases hd : d' = d
    · subst hd
      exact ⟨x :: front, back, by simp [hshelf], by simp [hgroup], hback⟩
    · have hnone : ∀ e ∈ (d', x) :: shelf, e.1 ≠ d := by
        intro e he
        rcases List.mem_cons.1 he with rfl | he
        · exact hd
        · intro hsame
          apply hd
          exact hanti d' d (hnewest _ List.mem_cons_self) (hsame ▸ hfirst e he)
      exact ⟨[], (d', x) :: shelf, rfl, group_eq_nil hnone, hnone⟩

/-! ## Labels -/

theorem mem_labelsFrom {seen : List δ} {shelf : List (δ × φ)} {d : δ} {k : Nat} :
    (d, k) ∈ labelsFrom seen shelf ↔ ∃ i, i < (group d shelf).length ∧ k = seen.count d + i + 1 := by
  induction shelf generalizing seen with
  | nil => simp [labelsFrom]
  | cons e shelf ih =>
    obtain ⟨d', x⟩ := e
    rw [labelsFrom, List.mem_cons, ih, Prod.mk.injEq]
    by_cases hd : d' = d
    · subst hd
      simp only [true_and, group_cons_self, List.length_cons, List.count_cons_self]
      constructor
      · rintro (rfl | ⟨i, hi, rfl⟩)
        · exact ⟨0, Nat.succ_pos _, rfl⟩
        · exact ⟨i + 1, Nat.succ_lt_succ hi, by omega⟩
      · rintro ⟨i, hi, rfl⟩
        cases i with
        | zero => exact .inl rfl
        | succ i => exact .inr ⟨i, Nat.lt_of_succ_lt_succ hi, by omega⟩
    · rw [group_cons_ne hd, List.count_cons_of_ne hd]
      simp [Ne.symm hd]

theorem mem_labels {shelf : List (δ × φ)} {d : δ} {i : Nat} :
    (d, i + 1) ∈ labels shelf ↔ i < (group d shelf).length := by
  rw [labels, mem_labelsFrom]
  simp only [List.count_nil, Nat.zero_add, Nat.add_right_cancel_iff]
  constructor
  · rintro ⟨j, hj, rfl⟩
    exact hj
  · exact fun h => ⟨i, h, rfl⟩

variable (seen : List δ)

theorem length_labelsFrom (shelf : List (δ × φ)) : (labelsFrom seen shelf).length = shelf.length := by
  induction shelf generalizing seen with
  | nil => rfl
  | cons e shelf ih => rw [labelsFrom, List.length_cons, ih, List.length_cons]

theorem nodup_labelsFrom (shelf : List (δ × φ)) : (labelsFrom seen shelf).Nodup := by
  induction shelf generalizing seen with
  | nil => exact List.nodup_nil
  | cons e shelf ih =>
    refine List.nodup_cons.2 ⟨fun hmem => ?_, ih _⟩
    obtain ⟨i, -, hi⟩ := mem_labelsFrom.1 hmem
    rw [List.count_cons_self] at hi
    omega

theorem labelsFrom_append (a b : List (δ × φ)) :
    ∃ more, labelsFrom seen (a ++ b) = labelsFrom seen a ++ labelsFrom more b := by
  induction a generalizing seen with
  | nil => exact ⟨seen, rfl⟩
  | cons e a ih =>
    obtain ⟨more, hmore⟩ := ih (e.1 :: seen)
    exact ⟨more, by rw [List.cons_append, labelsFrom, hmore]; rfl⟩

theorem date_of_mem_labelsFrom {seen : List δ} {shelf : List (δ × φ)} {l : δ × Nat} (h : l ∈ labelsFrom seen shelf) :
    ∃ e ∈ shelf, e.1 = l.1 := by
  induction shelf generalizing seen with
  | nil => cases h
  | cons e shelf ih =>
    rcases List.mem_cons.1 h with rfl | h
    · exact ⟨e, List.mem_cons_self, rfl⟩
    · obtain ⟨e', he', hl⟩ := ih h
      exact ⟨e', List.mem_cons_of_mem e he', hl⟩

/-! ## Keeping the newest -/

/-- The date of the `n`-th thing is not that of the next one. -/
def CutsAt (n : Nat) (shelf : List (δ × φ)) : Prop :=
  ∀ e ∈ shelf[n - 1]?, ∀ f ∈ shelf[n]?, e.1 ≠ f.1

instance (n : Nat) (shelf : List (δ × φ)) : Decidable (CutsAt n shelf) :=
  inferInstanceAs (Decidable (∀ e ∈ shelf[n - 1]?, ∀ f ∈ shelf[n]?, e.1 ≠ f.1))

omit [DecidableEq δ] in
theorem CutsAt.newer {le : δ → δ → Prop} (htrans : ∀ a b c, le a b → le b c → le a c)
    (hanti : ∀ a b, le a b → le b a → a = b) (hrefl : ∀ a, le a a) {n : Nat} (hn : 0 < n) {shelf : List (δ × φ)}
    (hsorted : shelf.Pairwise fun e f => le f.1 e.1) (hcut : CutsAt n shelf) {f : δ × φ} (hf : shelf[n]? = some f) :
    (∀ e ∈ shelf.take n, ¬le e.1 f.1) ∧ ∀ e ∈ shelf.drop n, le e.1 f.1 := by
  obtain ⟨hlt, rfl⟩ := List.getElem?_eq_some_iff.1 hf
  have hlast : n - 1 < shelf.length := Nat.lt_of_le_of_lt (Nat.sub_le n 1) hlt
  have hat := List.pairwise_iff_getElem.1 hsorted
  have hdates : shelf[n - 1].1 ≠ shelf[n].1 := hcut _ (List.getElem?_eq_getElem hlast) _ hf
  constructor
  · intro e he hle
    obtain ⟨i, hi, rfl⟩ := List.mem_take_iff_getElem.1 he
    have hin : i < n := Nat.lt_of_lt_of_le hi (Nat.min_le_left _ _)
    have hbefore : le shelf[n - 1].1 shelf[i].1 := by
      by_cases hsame : i = n - 1
      · subst hsame
        exact hrefl _
      · exact hat i (n - 1) _ hlast (by omega)
    exact hdates (hanti _ _ (htrans _ _ _ hbefore hle) (hat (n - 1) n hlast hlt (by omega)))
  · intro e he
    obtain ⟨i, hi, rfl⟩ := List.mem_drop_iff_getElem.1 he
    rw [Nat.add_comm] at hi
    cases i with
    | zero => exact hrefl _
    | succ i => exact hat n (n + (i + 1)) hlt hi (by omega)

theorem take_push (n : Nat) (hn : 0 < n) (d : δ) (x : φ) (shelf : List (δ × φ)) :
    (push n d x shelf).take n = ((d, x) :: shelf).take n := by
  obtain ⟨n, rfl⟩ := Nat.exists_eq_succ_of_ne_zero (Nat.ne_of_gt hn)
  rw [push, List.take_succ_cons, List.take_succ_cons]
  split
  · rw [Nat.succ_sub_one, List.take_eraseIdx_eq_take_of_le _ _ _ (Nat.le_refl n)]
  · rfl

/-! ## Putting a thing on the shelf -/

section
variable {le : δ → δ → Prop} {d : δ} {shelf : List (δ × φ)} {n : Nat} (x : φ)

theorem group_replaced (hanti : ∀ a b, le a b → le b a → a = b) (hsorted : shelf.Pairwise fun e f => le f.1 e.1)
    (hnewest : ∀ e ∈ shelf, le e.1 d) (hn : n ≤ (group d shelf).length) (hpos : 0 < n) :
    group d (shelf.eraseIdx (n - 1)) = (group d shelf).eraseIdx (n - 1) ∧
      ∀ d' ≠ d, group d' (shelf.eraseIdx (n - 1)) = group d' shelf := by
  obtain ⟨front, back, rfl, hgroup, hback⟩ := group_newest hanti hsorted hnewest
  have hfront (ys : List φ) : group d (ys.map fun y => (d, y)) = ys := by
    induction ys with
    | nil => rfl
    | cons y ys ih => rw [List.map_cons, group_cons_self, ih]
  have hother (d' : δ) (hd : d' ≠ d) (ys : List φ) : group d' (ys.map fun y => (d, y)) = [] := by
    apply group_eq_nil
    intro e he
    obtain ⟨y, -, rfl⟩ := List.mem_map.1 he
    exact Ne.symm hd
  have herase : (front.map (fun y => (d, y)) ++ back).eraseIdx (n - 1) =
      (front.eraseIdx (n - 1)).map (fun y => (d, y)) ++ back := by
    rw [List.eraseIdx_append_of_lt_length, List.eraseIdx_map]
    rw [List.length_map]
    rw [hgroup] at hn
    omega
  rw [herase]
  constructor
  · rw [group_append, hfront, group_eq_nil hback, List.append_nil, hgroup]
  · intro d' hd
    rw [group_append, group_append, hother d' hd, hother d' hd]

theorem group_push (hanti : ∀ a b, le a b → le b a → a = b) (hsorted : shelf.Pairwise fun e f => le f.1 e.1)
    (hnewest : ∀ e ∈ shelf, le e.1 d) (hpos : 0 < n) (i : Nat) :
    (group d (push n d x shelf))[i + 1]? = if i + 1 < n then (group d shelf)[i]? else (group d shelf)[i + 1]? := by
  rw [push, group_cons_self, List.getElem?_cons_succ]
  split
  · next hn =>
    rw [(group_replaced hanti hsorted hnewest hn hpos).1, List.getElem?_eraseIdx]
    by_cases hi : i + 1 < n
    · rw [if_pos hi, if_pos (by omega)]
    · rw [if_neg hi, if_neg (by omega)]
  · next hn =>
    split
    · rfl
    · rw [List.getElem?_eq_none (by omega), List.getElem?_eq_none (by omega)]

theorem group_push_ne (hanti : ∀ a b, le a b → le b a → a = b) (hsorted : shelf.Pairwise fun e f => le f.1 e.1)
    (hnewest : ∀ e ∈ shelf, le e.1 d) (hpos : 0 < n) {d' : δ} (hd : d' ≠ d) :
    group d' (push n d x shelf) = group d' shelf := by
  rw [push, group_cons_ne (Ne.symm hd)]
  split
  · next hn => exact (group_replaced hanti hsorted hnewest hn hpos).2 d' hd
  · rfl

theorem mem_push {e : δ × φ} (h : e ∈ push n d x shelf) : e = (d, x) ∨ e ∈ shelf := by
  rcases List.mem_cons.1 h with rfl | h
  · exact .inl rfl
  · split at h
    · exact .inr ((List.eraseIdx_sublist _ _).mem h)
    · exact .inr h

theorem sorted_push (hsorted : shelf.Pairwise fun e f => le f.1 e.1) (hnewest : ∀ e ∈ shelf, le e.1 d) :
    (push n d x shelf).Pairwise fun e f => le f.1 e.1 := by
  rw [push]
  split
  · exact List.pairwise_cons.2
      ⟨fun e he => hnewest e ((List.eraseIdx_sublist _ _).mem he), hsorted.sublist (List.eraseIdx_sublist _ _)⟩
  · exact List.pairwise_cons.2 ⟨hnewest, hsorted⟩

end

end Shelf
