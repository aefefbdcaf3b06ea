import Mathlib.Data.Rat.Floor
import Mathlib.Algebra.Order.Ring.Rat
import Dumb.Lib.Table

/-!
# Pruning the SQLite history to a size

From `utils/metrics_history_store.py`. A row is the timestamp and the stored size of a snapshot.
-/

namespace Dumb.Metrics

def storedSize : List (ℚ × Nat) → Int
  | [] => 0
  | r :: rows => r.2 + storedSize rows

def deleteAt (t : Table ℚ Nat) (timestamps : List ℚ) : Table ℚ Nat :=
  ⟨t.rows.filter fun r => r.1 ∉ timestamps, t.sorted.filter _⟩

theorem deleteAt_take (t : Table ℚ Nat) (n : Nat) :
    (deleteAt t ((t.rows.take n).map (·.1))).rows = t.rows.drop n := by
  have hsorted : (t.rows.take n ++ t.rows.drop n).Pairwise fun a b => a.1 < b.1 := by
    rw [List.take_append_drop]
    exact t.sorted
  have hlater := (List.pairwise_append.1 hsorted).2.2
  refine (congrArg (List.filter _) (List.take_append_drop n t.rows).symm).trans ?_
  rw [List.filter_append, List.filter_eq_nil_iff.2, List.filter_eq_self.2, List.nil_append]
  · intro r hr
    simp only [List.mem_map, decide_not, Bool.not_eq_eq_eq_not, Bool.not_true, decide_eq_false_iff_not]
    rintro ⟨s, hs, hsame⟩
    exact (hlater s hs r hr).ne hsame
  · intro r hr
    simp only [List.mem_map, decide_not, Bool.not_eq_eq_eq_not, Bool.not_true, decide_eq_false_iff_not, not_not]
    exact ⟨r, hr, rfl⟩

def pruneLoop (maxBytes storedBytes : Int) (deleted : Nat) (t : Table ℚ Nat) : Nat × Table ℚ Nat :=
  if maxBytes < storedBytes then
    if t.rows.take 1000 = [] then (deleted, t)
    else pruneLoop maxBytes (storedBytes - storedSize (t.rows.take 1000)) (deleted + (t.rows.take 1000).length)
      (deleteAt t ((t.rows.take 1000).map (·.1)))
  else (deleted, t)
termination_by t.rows.length
decreasing_by
  rw [deleteAt_take, List.length_drop]
  have hsome : t.rows ≠ [] := by
    intro hnil
    simp_all
  have := List.length_pos_iff.2 hsome
  omega

def prune (now retentionDays maxTotalMb : ℚ) (t : Table ℚ Nat) : Nat × Table ℚ Nat :=
  let aged : Table ℚ Nat :=
    if 0 < retentionDays then ⟨t.rows.filter fun r => now - retentionDays * 86400 ≤ r.1, t.sorted.filter _⟩ else t
  let deleted := t.rows.length - aged.rows.length
  if 0 < maxTotalMb then pruneLoop ⌊maxTotalMb * 1024 * 1024⌋ (storedSize aged.rows) deleted aged else (deleted, aged)

/-! ## What should stay -/

def newestWithin (limit : Int) : List (ℚ × Nat) → List (ℚ × Nat)
  | [] => []
  | r :: rows => if storedSize (r :: rows) ≤ limit then r :: rows else newestWithin limit rows

def excess (limit : Int) (rows : List (ℚ × Nat)) : Nat := rows.length - (newestWithin limit rows).length

structure KeepsNewest (limit : Int) (before after : List (ℚ × Nat)) : Prop where
  kept : ∀ r ∈ after, r ∈ before
  newest : ∀ r ∈ before, r ∉ after → ∀ k ∈ after, r.1 < k.1
  fits : storedSize after ≤ limit
  cut : ∀ r ∈ newestWithin limit before, r ∈ after
  last : ∀ r ∈ before.getLast?, r.2 ≤ limit → r ∈ after

theorem storedSize_append (a b : List (ℚ × Nat)) : storedSize (a ++ b) = storedSize a + storedSize b := by
  induction a with
  | nil => simp [storedSize]
  | cons r a ih => rw [List.cons_append, storedSize, ih, storedSize, Int.add_assoc]

theorem storedSize_nonneg (rows : List (ℚ × Nat)) : 0 ≤ storedSize rows := by
  induction rows with
  | nil => exact Int.le_refl 0
  | cons r rows ih => rw [storedSize]; omega

theorem storedSize_drop (n : Nat) (rows : List (ℚ × Nat)) :
    storedSize (rows.drop n) = storedSize rows - storedSize (rows.take n) := by
  have h := storedSize_append (rows.take n) (rows.drop n)
  rw [List.take_append_drop] at h
  omega

theorem newestWithin_eq (limit : Int) (rows : List (ℚ × Nat)) : newestWithin limit rows = rows.drop (excess limit rows) := by
  induction rows with
  | nil => rfl
  | cons r rows ih =>
    by_cases hfits : storedSize (r :: rows) ≤ limit
    · simp [excess, newestWithin, hfits]
    · have hle : (newestWithin limit rows).length ≤ rows.length := by
        rw [ih, List.length_drop]
        omega
      have hsucc : excess limit (r :: rows) = excess limit rows + 1 := by
        rw [excess, newestWithin, if_neg hfits, excess, List.length_cons]
        omega
      rw [newestWithin, if_neg hfits, hsucc, List.drop_succ_cons]
      exact ih

theorem excess_le (limit : Int) (rows : List (ℚ × Nat)) : excess limit rows ≤ rows.length := Nat.sub_le _ _

variable {limit : Int}

theorem storedSize_drop_le_iff (hlimit : 0 ≤ limit) (rows : List (ℚ × Nat)) (n : Nat) :
    storedSize (rows.drop n) ≤ limit ↔ excess limit rows ≤ n := by
  induction rows generalizing n with
  | nil => simp [storedSize, excess, hlimit]
  | cons r rows ih =>
    by_cases hfits : storedSize (r :: rows) ≤ limit
    · have hnone : excess limit (r :: rows) = 0 := by simp [excess, newestWithin, hfits]
      have hdrop := storedSize_drop n (r :: rows)
      have htaken := storedSize_nonneg ((r :: rows).take n)
      rw [hnone]
      exact ⟨fun _ => Nat.zero_le n, fun _ => by omega⟩
    · have hle : (newestWithin limit rows).length ≤ rows.length := by
        rw [newestWithin_eq, List.length_drop]
        omega
      have hsucc : excess limit (r :: rows) = excess limit rows + 1 := by
        rw [excess, newestWithin, if_neg hfits, excess, List.length_cons]
        omega
      cases n with
      | zero => rw [List.drop_zero, hsucc]; exact ⟨fun h => absurd h hfits, fun h => by omega⟩
      | succ n => rw [List.drop_succ_cons, ih, hsucc, Nat.succ_le_succ_iff]

theorem excess_drop (hlimit : 0 ≤ limit) (rows : List (ℚ × Nat)) (n : Nat) :
    excess limit (rows.drop n) = excess limit rows - n := by
  have hle (m : Nat) : excess limit (rows.drop n) ≤ m ↔ excess limit rows - n ≤ m := by
    rw [← storedSize_drop_le_iff hlimit, List.drop_drop, storedSize_drop_le_iff hlimit]
    omega
  exact Nat.le_antisymm ((hle _).2 (Nat.le_refl _)) ((hle _).1 (Nat.le_refl _))

/-! ## What stays -/

theorem pruneLoop_rows (hlimit : 0 ≤ limit) (deleted : Nat) (t : Table ℚ Nat) :
    (pruneLoop limit (storedSize t.rows) deleted t).2.rows = t.rows.drop ((excess limit t.rows + 999) / 1000 * 1000) := by
  generalize hlen : t.rows.length = len
  induction len using Nat.strongRecOn generalizing t deleted with
  | ind len ih =>
    have hfits := storedSize_drop_le_iff hlimit t.rows 0
    rw [List.drop_zero] at hfits
    rw [pruneLoop]
    by_cases hover : limit < storedSize t.rows
    · have hpos : 0 < excess limit t.rows := by
        by_contra hnone
        have := hfits.2 (by omega)
        omega
      have hsome : 0 < t.rows.length := Nat.lt_of_lt_of_le hpos (excess_le limit t.rows)
      have hbatch : t.rows.take 1000 ≠ [] := by
        intro hnil
        rcases List.take_eq_nil_iff.1 hnil with h | h
        · omega
        · rw [h] at hsome
          exact Nat.lt_irrefl 0 hsome
      have hshorter : (deleteAt t ((t.rows.take 1000).map (·.1))).rows.length < len := by
        rw [deleteAt_take, List.length_drop]
        omega
      rw [if_pos hover, if_neg hbatch, ← storedSize_drop, ← deleteAt_take, ih _ hshorter _ _ rfl, deleteAt_take,
        excess_drop hlimit, List.drop_drop]
      congr 1
      omega
    · have hnone : excess limit t.rows = 0 := Nat.le_zero.1 (hfits.1 (by omega))
      rw [if_neg hover, hnone]
      rfl

theorem prune_rows (now maxTotalMb : ℚ) (hlimit : 0 < maxTotalMb) (t : Table ℚ Nat) :
    (prune now 0 maxTotalMb t).2.rows =
      t.rows.drop ((excess ⌊maxTotalMb * 1024 * 1024⌋ t.rows + 999) / 1000 * 1000) := by
  have hpos : 0 ≤ ⌊maxTotalMb * 1024 * 1024⌋ := Int.floor_nonneg.2 (by positivity)
  simp only [prune, lt_irrefl, ↓reduceIte, hlimit]
  exact pruneLoop_rows hpos _ t

theorem keepsNewest_drop (hlimit : 0 ≤ limit) (t : Table ℚ Nat) (n : Nat) :
    KeepsNewest limit t.rows (t.rows.drop n) ↔ excess limit t.rows = min n t.rows.length := by
  have hle := excess_le limit t.rows
  have hsorted := t.sorted
  rw [← List.take_append_drop n t.rows] at hsorted
  have hlater := (List.pairwise_append.1 hsorted).2.2
  have hnodup : t.rows.Nodup := t.sorted.imp fun hlt heq => hlt.ne (congrArg Prod.fst heq)
  constructor
  · intro h
    have hfits := (storedSize_drop_le_iff hlimit t.rows n).1 h.fits
    by_contra hne
    -- The newest of the rows that go is one that fits.
    have hless : excess limit t.rows < min n t.rows.length := by omega
    have hi : excess limit t.rows < t.rows.length := by omega
    have hcut : t.rows[excess limit t.rows] ∈ newestWithin limit t.rows := by
      rw [newestWithin_eq]
      exact List.mem_drop_iff_getElem.2 ⟨0, by simpa using hi, by simp⟩
    obtain ⟨j, hj, hsame⟩ := List.mem_drop_iff_getElem.1 (h.cut _ hcut)
    have := hnodup.getElem_inj_iff.1 hsame
    omega
  · intro h
    have hwithin : newestWithin limit t.rows = t.rows.drop n := by
      rw [newestWithin_eq]
      rcases Nat.le_total n t.rows.length with hn | hn
      · rw [h, Nat.min_eq_left hn]
      · rw [h, Nat.min_eq_right hn, List.drop_length, List.drop_eq_nil_of_le hn]
    refine ⟨fun r hr => List.mem_of_mem_drop hr, fun r hr hgone k hk => ?_, ?_, fun r hr => hwithin ▸ hr, fun r hr hfit => ?_⟩
    · rw [← List.take_append_drop n t.rows, List.mem_append] at hr
      exact hlater r (hr.resolve_right hgone) k hk
    · exact (storedSize_drop_le_iff hlimit t.rows n).2 (by omega)
    · obtain ⟨front, hrows⟩ := List.getLast?_eq_some_iff.1 hr
      have hlast : storedSize (t.rows.drop front.length) ≤ limit := by simpa [hrows, storedSize] using hfit
      have hfront := (storedSize_drop_le_iff hlimit t.rows front.length).1 hlast
      have hlen := congrArg List.length hrows
      rw [List.length_append, List.length_singleton] at hlen
      rw [hrows, List.drop_append_of_le_length (by omega)]
      exact List.mem_append_right _ List.mem_cons_self

/-- The newest rows within the limit stay, and no others, just if the excess is some number of batches or is all. -/
theorem prune_keepsNewest_iff (now maxTotalMb : ℚ) (hlimit : 0 < maxTotalMb) (t : Table ℚ Nat) :
    KeepsNewest ⌊maxTotalMb * 1024 * 1024⌋ t.rows (prune now 0 maxTotalMb t).2.rows ↔
      excess ⌊maxTotalMb * 1024 * 1024⌋ t.rows % 1000 = 0 ∨ excess ⌊maxTotalMb * 1024 * 1024⌋ t.rows = t.rows.length := by
  have hpos : 0 ≤ ⌊maxTotalMb * 1024 * 1024⌋ := Int.floor_nonneg.2 (by positivity)
  have hle := excess_le ⌊maxTotalMb * 1024 * 1024⌋ t.rows
  rw [prune_rows now maxTotalMb hlimit, keepsNewest_drop hpos]
  omega

def threeHalves : Table ℚ Nat := ⟨[(1, 524288), (2, 524288), (3, 524288)], by decide +kernel⟩

theorem prune_keepsNewest_iff_threeHalves :
    KeepsNewest ⌊(2 : ℚ) * 1024 * 1024⌋ threeHalves.rows (prune 0 0 2 threeHalves).2.rows ↔
      excess ⌊(2 : ℚ) * 1024 * 1024⌋ threeHalves.rows % 1000 = 0 ∨
        excess ⌊(2 : ℚ) * 1024 * 1024⌋ threeHalves.rows = threeHalves.rows.length :=
  prune_keepsNewest_iff 0 2 (by norm_num) threeHalves

/-- They are all deleted where two of them fit. -/
theorem prune_deletes_newest :
    (prune 0 0 1 threeHalves).2.rows = [] ∧ (3, 524288) ∈ threeHalves.rows.getLast? ∧
      ¬KeepsNewest ⌊(1 : ℚ) * 1024 * 1024⌋ threeHalves.rows (prune 0 0 1 threeHalves).2.rows := by
  have hlimit : ⌊(1 : ℚ) * 1024 * 1024⌋ = 1048576 := by norm_num
  have hnone : (prune 0 0 1 threeHalves).2.rows = [] := by
    rw [prune_rows 0 1 (by norm_num), hlimit]
    decide +kernel
  refine ⟨hnone, by decide, fun h => ?_⟩
  have hlast := h.last (3, 524288) (by decide) (by rw [hlimit]; decide)
  rw [hnone] at hlast
  exact List.not_mem_nil hlast

end Dumb.Metrics
