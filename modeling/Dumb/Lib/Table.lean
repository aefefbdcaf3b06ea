import Mathlib.Data.List.Sort
import Mathlib.Order.Basic
import Dumb.Lib.Dict

/-!
# Last places

The last place of a list where something holds, and the dict of the last values that a list gives to its keys.
-/

namespace Py

variable {α : Type}

structure LastAt (P : α → Prop) (xs : List α) (i : Nat) (x : α) : Prop where
  get : xs[i]? = some x
  holds : P x
  last : ∀ j y, i < j → xs[j]? = some y → ¬P y

variable {P : α → Prop} {xs : List α}

theorem LastAt.unique {i j : Nat} {x y : α} (hx : LastAt P xs i x)
    (hy : LastAt P xs j y) : i = j ∧ x = y := by
  rcases Nat.lt_trichotomy i j with hlt | rfl | hlt
  · exact absurd hy.holds (hx.last j y hlt hy.get)
  · exact ⟨rfl, Option.some.inj (hx.get.symm.trans hy.get)⟩
  · exact absurd hx.holds (hy.last i x hlt hx.get)

variable {i : Nat}

theorem lastAt_cons {x y : α} :
    LastAt P (x :: xs) i y ↔ (∃ j, i = j + 1 ∧ LastAt P xs j y) ∨ (i = 0 ∧ y = x ∧ P x ∧ ∀ z ∈ xs, ¬P z) := by
  constructor
  · rintro ⟨hget, hholds, hlast⟩
    cases i with
    | zero =>
      obtain rfl : x = y := by simpa using hget
      refine .inr ⟨rfl, rfl, hholds, fun z hz => ?_⟩
      obtain ⟨j, hj⟩ := List.mem_iff_getElem?.1 hz
      exact hlast (j + 1) z (Nat.succ_pos j) (by simpa using hj)
    | succ j => exact .inl ⟨j, rfl, by simpa using hget, hholds, fun k z hk hz => hlast (k + 1) z (by omega) (by simpa using hz)⟩
  · rintro (⟨j, rfl, hget, hholds, hlast⟩ | ⟨rfl, rfl, hholds, hnone⟩)
    · refine ⟨by simpa using hget, hholds, fun k z hk hz => ?_⟩
      cases k with
      | zero => omega
      | succ k => exact hlast k z (by omega) (by simpa using hz)
    · refine ⟨rfl, hholds, fun k z hk hz => ?_⟩
      cases k with
      | zero => omega
      | succ k => exact hnone z (List.mem_of_getElem? (by simpa using hz))

theorem lastAt_nil {x : α} : ¬LastAt P [] i x := fun h => by simpa using h.get

theorem LastAt.congr {P Q : α → Prop} (h : ∀ x ∈ xs, P x ↔ Q x) {x : α} (hlast : LastAt P xs i x) :
    LastAt Q xs i x :=
  ⟨hlast.get, (h x (List.mem_of_getElem? hlast.get)).1 hlast.holds,
    fun j y hj hy hQ => hlast.last j y hj hy ((h y (List.mem_of_getElem? hy)).2 hQ)⟩

theorem lastAt_map {β : Type} {f : α → β} {P : β → Prop} {y : β} :
    LastAt P (xs.map f) i y ↔ ∃ x, y = f x ∧ LastAt (fun x => P (f x)) xs i x := by
  constructor
  · rintro ⟨hget, hholds, hlast⟩
    rw [List.getElem?_map, Option.map_eq_some_iff] at hget
    obtain ⟨x, hx, rfl⟩ := hget
    refine ⟨x, rfl, hx, hholds, fun j z hj hz => hlast j (f z) hj ?_⟩
    rw [List.getElem?_map, hz]
    rfl
  · rintro ⟨x, rfl, hget, hholds, hlast⟩
    refine ⟨by rw [List.getElem?_map, hget]; rfl, hholds, fun j z hj hz => ?_⟩
    rw [List.getElem?_map, Option.map_eq_some_iff] at hz
    obtain ⟨w, hw, rfl⟩ := hz
    exact hlast j w hj hw

theorem exists_lastAt {x : α} (hmem : x ∈ xs) (hx : P x) : ∃ i y, LastAt P xs i y := by
  induction xs generalizing x with
  | nil => cases hmem
  | cons y xs ih =>
    by_cases hrest : ∃ z ∈ xs, P z
    · obtain ⟨z, hz, hPz⟩ := hrest
      obtain ⟨i, w, hlast⟩ := ih hz hPz
      exact ⟨i + 1, w, lastAt_cons.2 (.inl ⟨i, rfl, hlast⟩)⟩
    · rcases List.mem_cons.1 hmem with rfl | hmem
      · exact ⟨0, x, lastAt_cons.2 (.inr ⟨rfl, rfl, hx, fun z hz hPz => hrest ⟨z, hz, hPz⟩⟩)⟩
      · exact absurd ⟨x, hmem, hx⟩ hrest

/-! ## Assignments -/

section

variable {κ β : Type} [DecidableEq κ]

def assign (f : Nat → α → Option (κ × β)) : Nat → List α → Dict κ β → Dict κ β
  | _, [], d => d
  | i, x :: xs, d =>
    match f i x with
    | some (k, v) => assign f (i + 1) xs (d.set k v)
    | none => assign f (i + 1) xs d

theorem get?_assign {f : Nat → α → Option (κ × β)} {k : κ} (hP : ∀ i x, P x ↔ ∃ v, f i x = some (k, v))
    {d : Dict κ β} {v : β} : (assign f i xs d).get? k = some v ↔
      (∃ j x, LastAt P xs j x ∧ f (i + j) x = some (k, v)) ∨ ((∀ x ∈ xs, ¬P x) ∧ d.get? k = some v) := by
  induction xs generalizing i d with
  | nil => simp [assign, lastAt_nil]
  | cons x xs ih =>
    -- The last place is this one, or it is among the others.
    have hplaces : (∃ j y, LastAt P (x :: xs) j y ∧ f (i + j) y = some (k, v)) ↔
        (∃ j y, LastAt P xs j y ∧ f (i + 1 + j) y = some (k, v)) ∨ ((∀ y ∈ xs, ¬P y) ∧ f i x = some (k, v)) := by
      constructor
      · rintro ⟨j, y, hlast, hf⟩
        rcases lastAt_cons.1 hlast with ⟨j, rfl, hrest⟩ | ⟨rfl, rfl, -, hnone⟩
        · exact .inl ⟨j, y, hrest, by rwa [Nat.add_right_comm, Nat.add_assoc]⟩
        · exact .inr ⟨hnone, hf⟩
      · rintro (⟨j, y, hlast, hf⟩ | ⟨hnone, hf⟩)
        · exact ⟨j + 1, y, lastAt_cons.2 (.inl ⟨j, rfl, hlast⟩), by rwa [← Nat.add_assoc, Nat.add_right_comm]⟩
        · exact ⟨0, x, lastAt_cons.2 (.inr ⟨rfl, rfl, (hP i x).2 ⟨v, hf⟩, hnone⟩), hf⟩
    rw [assign, hplaces]
    have hx := hP i x
    cases hf : f i x with
    | none =>
      have hnot : ¬P x := by simp [hx, hf]
      simp [ih, hnot]
    | some item =>
      obtain ⟨q, w⟩ := item
      rw [ih, Dict.get?_set]
      by_cases hq : k = q
      · subst hq
        have hyes : P x := hx.2 ⟨w, hf⟩
        simp [hyes]
      · have hnot : ¬P x := by simp [hx, hf, Ne.symm hq]
        simp [hnot, hq, Ne.symm hq]

end

end Py

/-! ## Tables with an ordered primary key

A table holds its rows in the order of their keys, one row a key. `upsert` is an insert that updates on a
conflict. `pages` is a reading of a long result in pages, each of which goes on from behind the key that the last
one ended with.
-/

structure Table (κ γ : Type) [LinearOrder κ] where
  rows : List (κ × γ)
  sorted : rows.Pairwise fun a b => a.1 < b.1

namespace Table

variable {κ γ : Type} [LinearOrder κ]

instance : Membership (κ × γ) (Table κ γ) := ⟨fun t x => x ∈ t.rows⟩

instance : EmptyCollection (Table κ γ) := ⟨⟨[], .nil⟩⟩

instance [DecidableEq γ] (x : κ × γ) (t : Table κ γ) : Decidable (x ∈ t) :=
  inferInstanceAs (Decidable (x ∈ t.rows))

variable {x : κ × γ} {t : Table κ γ}

theorem mem_def : x ∈ t ↔ x ∈ t.rows := Iff.rfl

theorem mem_unique {x y : κ × γ} (hx : x ∈ t) (hy : y ∈ t) (h : x.1 = y.1) : x = y := by
  obtain ⟨i, hi, rfl⟩ := List.mem_iff_getElem.1 hx
  obtain ⟨j, hj, rfl⟩ := List.mem_iff_getElem.1 hy
  have hord := List.pairwise_iff_getElem.1 t.sorted
  rcases lt_trichotomy i j with hij | rfl | hji
  · exact absurd h (hord i j hi hj hij).ne
  · rfl
  · exact absurd h (hord j i hj hi hji).ne'

/-! ## Upserts -/

def put (x : κ × γ) : List (κ × γ) → List (κ × γ)
  | [] => [x]
  | y :: ys => if x.1 < y.1 then x :: y :: ys else if x.1 = y.1 then x :: ys else y :: put x ys

theorem mem_put {x z : κ × γ} : ∀ {ys : List (κ × γ)}, ys.Pairwise (fun a b => a.1 < b.1) →
    (z ∈ put x ys ↔ z = x ∨ z ∈ ys ∧ z.1 ≠ x.1)
  | [], _ => by simp [put]
  | y :: ys, h => by
    obtain ⟨hy, hs⟩ := List.pairwise_cons.1 h
    by_cases hlt : x.1 < y.1
    · have hne : ∀ w ∈ y :: ys, w.1 ≠ x.1 := by
        intro w hw
        rcases List.mem_cons.1 hw with rfl | hw
        · exact hlt.ne'
        · exact (hlt.trans (hy w hw)).ne'
      rw [put, if_pos hlt, List.mem_cons]
      exact or_congr_right ⟨fun hz => ⟨hz, hne z hz⟩, And.left⟩
    · by_cases heq : x.1 = y.1
      · have hne : ∀ w ∈ ys, w.1 ≠ x.1 := fun w hw => heq ▸ (hy w hw).ne'
        rw [put, if_neg hlt, if_pos heq, List.mem_cons, List.mem_cons]
        apply or_congr_right
        constructor
        · exact fun hz => ⟨.inr hz, hne z hz⟩
        · rintro ⟨rfl | hz, hzx⟩
          · exact absurd heq.symm hzx
          · exact hz
      · rw [put, if_neg hlt, if_neg heq, List.mem_cons, mem_put hs, List.mem_cons]
        constructor
        · rintro (rfl | hx | ⟨hz, hzx⟩)
          · exact .inr ⟨.inl rfl, Ne.symm heq⟩
          · exact .inl hx
          · exact .inr ⟨.inr hz, hzx⟩
        · rintro (hx | ⟨rfl | hz, hzx⟩)
          · exact .inr (.inl hx)
          · exact .inl rfl
          · exact .inr (.inr ⟨hz, hzx⟩)

theorem put_sorted : ∀ {ys : List (κ × γ)}, ys.Pairwise (fun a b => a.1 < b.1) →
    (put x ys).Pairwise fun a b => a.1 < b.1
  | [], _ => List.pairwise_singleton _ x
  | y :: ys, h => by
    obtain ⟨hy, hs⟩ := List.pairwise_cons.1 h
    by_cases hlt : x.1 < y.1
    · rw [put, if_pos hlt]
      apply List.pairwise_cons.2
      constructor
      · intro z hz
        rcases List.mem_cons.1 hz with rfl | hz
        · exact hlt
        · exact hlt.trans (hy z hz)
      · exact h
    · by_cases heq : x.1 = y.1
      · rw [put, if_neg hlt, if_pos heq]
        exact List.pairwise_cons.2 ⟨fun z hz => heq ▸ hy z hz, hs⟩
      · rw [put, if_neg hlt, if_neg heq]
        apply List.pairwise_cons.2
        constructor
        · intro z hz
          rcases (mem_put hs).1 hz with rfl | ⟨hz, _⟩
          · exact lt_of_le_of_ne (not_lt.1 hlt) (Ne.symm heq)
          · exact hy z hz
        · exact put_sorted hs

def upsert (t : Table κ γ) (x : κ × γ) : Table κ γ := ⟨put x t.rows, put_sorted t.sorted⟩

def upsertMany (t : Table κ γ) (xs : List (κ × γ)) : Table κ γ := xs.foldl upsert t

theorem mem_upsert {x z : κ × γ} : z ∈ t.upsert x ↔ z = x ∨ z ∈ t ∧ z.1 ≠ x.1 := mem_put t.sorted

theorem upsert_self : x ∈ t.upsert x := mem_upsert.2 (.inl rfl)

theorem mem_upsert_of_agree {x z : κ × γ} (hz : z ∈ t) (h : x.1 = z.1 → x = z) : z ∈ t.upsert x := by
  by_cases hk : z.1 = x.1
  · exact mem_upsert.2 (.inl (h hk.symm).symm)
  · exact mem_upsert.2 (.inr ⟨hz, hk⟩)

@[simp] theorem upsertMany_cons (t : Table κ γ) (x : κ × γ) (xs : List (κ × γ)) :
    t.upsertMany (x :: xs) = (t.upsert x).upsertMany xs := rfl

variable {z : κ × γ}

theorem mem_upsertMany_of_agree {xs : List (κ × γ)} (hz : z ∈ t)
    (h : ∀ x ∈ xs, x.1 = z.1 → x = z) : z ∈ t.upsertMany xs := by
  induction xs generalizing t with
  | nil => exact hz
  | cons x xs ih =>
    exact ih (mem_upsert_of_agree hz (h x List.mem_cons_self)) fun y hy => h y (List.mem_cons_of_mem _ hy)

theorem mem_upsertMany_self {xs : List (κ × γ)} (hz : z ∈ xs)
    (h : ∀ x ∈ xs, x.1 = z.1 → x = z) : z ∈ t.upsertMany xs := by
  induction xs generalizing t with
  | nil => exact absurd hz List.not_mem_nil
  | cons x xs ih =>
    have htail : ∀ y ∈ xs, y.1 = z.1 → y = z := fun y hy => h y (List.mem_cons_of_mem _ hy)
    rcases List.mem_cons.1 hz with rfl | hz
    · rw [upsertMany_cons]
      exact mem_upsertMany_of_agree upsert_self htail
    · exact ih hz htail

theorem mem_of_mem_upsertMany {xs : List (κ × γ)} (h : z ∈ t.upsertMany xs) :
    z ∈ xs ∨ z ∈ t := by
  induction xs generalizing t with
  | nil => exact .inr h
  | cons x xs ih =>
    rcases ih h with hz | hz
    · exact .inl (List.mem_cons_of_mem _ hz)
    · rcases mem_upsert.1 hz with rfl | ⟨hz, _⟩
      · exact .inl List.mem_cons_self
      · exact .inr hz

/-! ## Queries -/

def since (t : Table κ γ) : Option κ → List (κ × γ)
  | none => t.rows
  | some k => t.rows.filter fun x => k ≤ x.1

def max? (t : Table κ γ) : Option κ := t.rows.getLast?.map (·.1)

theorem mem_since {since : Option κ} :
    x ∈ t.since since ↔ x ∈ t ∧ ∀ k ∈ since, k ≤ x.1 := by
  cases since with
  | none => simp [Table.since, mem_def]
  | some k => simp [Table.since, mem_def]

theorem since_sorted (t : Table κ γ) (since : Option κ) : (t.since since).Pairwise fun a b => a.1 < b.1 := by
  cases since with
  | none => exact t.sorted
  | some k => exact t.sorted.filter _

theorem since_ext (t t' : Table κ γ) (k k' : Option κ) (h : ∀ x, x ∈ t.since k ↔ x ∈ t'.since k') :
    t.since k = t'.since k' := by
  have : Std.Irrefl fun a b : κ × γ => a.1 < b.1 := ⟨fun a => lt_irrefl a.1⟩
  have : Std.Antisymm fun a b : κ × γ => a.1 < b.1 := ⟨fun a b hab hba => absurd hba hab.not_gt⟩
  exact List.Pairwise.eq_of_mem_iff (t.since_sorted k) (t'.since_sorted k') h

theorem le_max (hx : x ∈ t) : ∃ k, t.max? = some k ∧ x.1 ≤ k := by
  have hne : t.rows ≠ [] := List.ne_nil_of_mem hx
  obtain ⟨i, hi, rfl⟩ := List.mem_iff_getElem.1 hx
  rw [max?, List.getLast?_eq_some_getLast hne, List.getLast_eq_getElem]
  apply Exists.intro
  constructor
  · rfl
  · rcases (show i ≤ t.rows.length - 1 by omega).lt_or_eq with hlt | heq
    · exact (List.pairwise_iff_getElem.1 t.sorted _ _ _ _ hlt).le
    · simp [heq]

/-! ## Pages -/

/-- The pages of at most `size` rows that a paged reading of `rows` gets: behind a full page that ends with the key
`k` it goes on at `next k`. -/
def pages (size : Nat) (next : κ → κ) (rows : List (κ × γ)) : List (List (κ × γ)) :=
  match _h : (rows.take size).getLast? with
  | none => []
  | some last =>
    if rows.length < size then [rows.take size]
    else rows.take size :: pages size next ((rows.drop size).filter fun x => next last.1 ≤ x.1)
termination_by rows.length
decreasing_by
  have hne : rows.take size ≠ [] := by
    intro hnil
    simp [hnil] at _h
  have hpos : 0 < size ∧ 0 < rows.length := by
    constructor
    · exact Nat.pos_of_ne_zero fun h0 => hne (by simp [h0])
    · exact List.length_pos_iff.2 fun h0 => hne (by simp [h0])
  have hle := List.length_filter_le (fun x : κ × γ => decide (next last.1 ≤ x.1)) (rows.drop size)
  rw [List.length_drop] at hle
  omega

theorem mem_of_mem_pages {size : Nat} {next : κ → κ} {rows : List (κ × γ)} :
    ∀ page ∈ pages size next rows, ∀ x ∈ page, x ∈ rows := by
  induction rows using pages.induct size next with
  | case1 rows h =>
    rw [pages, h]
    simp
  | case2 rows last h hlt =>
    rw [pages, h]
    simp only [hlt, ↓reduceIte, List.mem_singleton, forall_eq]
    exact fun x hx => List.mem_of_mem_take hx
  | case3 rows last h hlt ih =>
    rw [pages, h]
    simp only [hlt, ↓reduceIte, List.mem_cons, forall_eq_or_imp]
    constructor
    · exact fun x hx => List.mem_of_mem_take hx
    · exact fun page hp x hx => List.mem_of_mem_drop (List.mem_filter.1 (ih page hp x hx)).1

theorem pages_singleton {size : Nat} (h : 1 < size) (next : κ → κ) (x : κ × γ) : pages size next [x] = [[x]] := by
  have htake : [x].take size = [x] := List.take_of_length_le h.le
  rw [pages, htake]
  simp [h]

theorem mem_foldl_upsertMany {ps : List (List (κ × γ))}
    (h : ∀ page ∈ ps, ∀ x ∈ page, x.1 = z.1 → x = z) (hz : z ∈ t ∨ ∃ page ∈ ps, z ∈ page) :
    z ∈ ps.foldl upsertMany t := by
  induction ps generalizing t with
  | nil =>
    rcases hz with hz | ⟨page, hp, _⟩
    · exact hz
    · exact absurd hp List.not_mem_nil
  | cons page ps ih =>
    have htail : ∀ page ∈ ps, ∀ x ∈ page, x.1 = z.1 → x = z := fun p hp => h p (List.mem_cons_of_mem _ hp)
    apply ih htail
    rcases hz with hz | ⟨p, hp, hz⟩
    · exact .inl (mem_upsertMany_of_agree hz (h page List.mem_cons_self))
    · rcases List.mem_cons.1 hp with rfl | hp
      · exact .inl (mem_upsertMany_self hz (h p List.mem_cons_self))
      · exact .inr ⟨p, hp, hz⟩

theorem mem_of_mem_foldl_upsertMany {ps : List (List (κ × γ))}
    (h : z ∈ ps.foldl upsertMany t) : (∃ page ∈ ps, z ∈ page) ∨ z ∈ t := by
  induction ps generalizing t with
  | nil => exact .inr h
  | cons page ps ih =>
    rcases ih h with ⟨p, hp, hz⟩ | hz
    · exact .inl ⟨p, List.mem_cons_of_mem _ hp, hz⟩
    · rcases mem_of_mem_upsertMany hz with hz | hz
      · exact .inl ⟨page, List.mem_cons_self, hz⟩
      · exact .inr hz

end Table
