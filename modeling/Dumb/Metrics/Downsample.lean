import Mathlib.Data.Rat.Floor
import Mathlib.Algebra.Order.Ring.Rat
import Mathlib.Data.List.Dedup
import Dumb.Lib.Table

/-!
# Thinning the history for a plot

From `utils/metrics_history_reader.py`.
-/

namespace Dumb.Metrics

structure Entry (γ : Type) where
  timestamp : Option ℚ
  rest : γ
  deriving DecidableEq

section
variable {α γ : Type}

/-! ## The code -/

def bucketOf (bucketSeconds : ℚ) (entry : Entry γ) : Option Int := entry.timestamp.map fun ts => ⌊ts / bucketSeconds⌋

def buckets (bucketSeconds : ℚ) (items : List (Entry γ)) : Py.Dict Int (Entry γ) :=
  Py.assign (fun _ entry => (bucketOf bucketSeconds entry).map fun bucket => (bucket, entry)) 0 items []

def bucketed (bucketSeconds : ℚ) (items : List (Entry γ)) : List (Entry γ) :=
  ((buckets bucketSeconds items).keys.insertionSort (· ≤ ·)).filterMap (Py.Dict.get? · (buckets bucketSeconds items))

def every (step : Nat) : Nat → List α → List α
  | _, [] => []
  | 0, x :: xs => x :: every step (step - 1) xs
  | skip + 1, _ :: xs => every step skip xs

def thinned (maxPoints : Nat) (full : List (Entry γ)) : List (Entry γ) :=
  let selected := every ((full.length + maxPoints - 1) / maxPoints) 0 full
  match selected.getLast?, full.getLast? with
  | some s, some last => if s.timestamp ≠ last.timestamp then selected ++ [last] else selected
  | _, _ => selected

def selectedItems (items : List (Entry γ)) : Option ℚ → List (Entry γ)
  | some bucketSeconds => if 0 < bucketSeconds then bucketed bucketSeconds items else items
  | none => items

def downsampleHistoryItems (items : List (Entry γ)) (bucketSeconds : Option ℚ) (maxPoints : Option Int) : List (Entry γ) :=
  if items.isEmpty then []
  else
    match maxPoints with
    | some n =>
      if 0 < n ∧ n < (selectedItems items bucketSeconds).length then thinned n.toNat (selectedItems items bucketSeconds)
      else selectedItems items bucketSeconds
    | none => selectedItems items bucketSeconds

/-! ## The contract -/

def Ascending (items : List (Entry γ)) : Prop :=
  items.Pairwise fun e f => ∀ s ∈ e.timestamp, ∀ t ∈ f.timestamp, s ≤ t

instance (items : List (Entry γ)) : Decidable (Ascending items) :=
  inferInstanceAs (Decidable (items.Pairwise fun e f => ∀ s ∈ e.timestamp, ∀ t ∈ f.timestamp, s ≤ t))

/-- The snapshot is none that has a timestamp, or one of the result is at least as new. -/
def NewestIn (result : List (Entry γ)) (entry : Entry γ) : Prop :=
  ∀ s ∈ entry.timestamp, ∃ r ∈ result, ∃ t ∈ r.timestamp, s ≤ t

/-- What is asked of the result, with `extra` more snapshots than the limit, and where the newest one has to be there. -/
structure Contract (extra : Nat) (newestAsked : Prop) (items : List (Entry γ)) (bucketSeconds : Option ℚ)
    (maxPoints : Option Int) (result : List (Entry γ)) : Prop where
  order : result.Sublist items
  bound : ∀ n ∈ maxPoints, 0 < n → (result.length : Int) ≤ n + extra
  perBucket : ∀ b ∈ bucketSeconds, 0 < b →
    (∀ r ∈ result, (bucketOf b r).isSome) ∧ result.Pairwise fun e f => bucketOf b e ≠ bucketOf b f
  latest : ∀ b ∈ bucketSeconds, 0 < b → (∀ n ∈ maxPoints, 0 < n → ((items.filterMap (bucketOf b)).dedup.length : Int) ≤ n) →
    ∀ k ∈ items.filterMap (bucketOf b), ∃ r ∈ result, ∃ i, Py.LastAt (fun e => bucketOf b e = some k) items i r
  newest : newestAsked → ∀ e ∈ items, NewestIn result e

/-! ## Every so many-th -/

theorem every_sublist (step : Nat) (skip : Nat) (xs : List α) : (every step skip xs).Sublist xs := by
  fun_induction every step skip xs with
  | case1 => exact .slnil
  | case2 x xs ih => exact ih.cons_cons x
  | case3 skip x xs ih => exact ih.cons x

theorem every_concat (step : Nat) (skip : Nat) (xs : List α) (x : α) :
    every step skip (xs ++ [x]) = every step skip xs ∨ every step skip (xs ++ [x]) = every step skip xs ++ [x] := by
  fun_induction every step skip xs with
  | case1 skip => cases skip <;> simp [every]
  | case2 y xs ih => simpa [every] using ih
  | case3 skip y xs ih => exact ih

theorem length_every_le {step : Nat} (hstep : 0 < step) (skip : Nat) (hskip : skip < step) (xs : List α) :
    step * (every step skip xs).length + skip < xs.length + step := by
  fun_induction every step skip xs with
  | case1 skip => simpa using hskip
  | case2 x xs ih =>
    have := ih (by omega)
    rw [List.length_cons, List.length_cons, Nat.mul_succ]
    omega
  | case3 skip x xs ih =>
    have := ih (by omega)
    rw [List.length_cons]
    omega

theorem length_every_ceil {n : Nat} (hn : 0 < n) (xs : List α) :
    (every ((xs.length + n - 1) / n) 0 xs).length ≤ n := by
  rcases Nat.eq_zero_or_pos xs.length with hnil | hlen
  · simp [List.length_eq_zero_iff.1 hnil, every]
  · have hstep : 0 < (xs.length + n - 1) / n := Nat.div_pos (by omega) hn
    have hmod := Nat.mod_lt (xs.length + n - 1) hn
    have hdiv := Nat.div_add_mod (xs.length + n - 1) n
    have hlen := length_every_le hstep 0 hstep xs
    have hcover : xs.length ≤ (xs.length + n - 1) / n * n := by
      rw [Nat.mul_comm]
      omega
    have hlt : (xs.length + n - 1) / n * (every ((xs.length + n - 1) / n) 0 xs).length <
        (xs.length + n - 1) / n * (n + 1) := by
      rw [Nat.mul_succ]
      omega
    exact Nat.lt_succ_iff.1 (Nat.lt_of_mul_lt_mul_left hlt)

structure Thinned (n : Nat) (full result : List (Entry γ)) : Prop where
  order : result.Sublist full
  bound : result.length ≤ n + 1
  last : ∀ l ∈ full.getLast?, ∃ r ∈ result, r.timestamp = l.timestamp

theorem thinned_spec {n : Nat} (hn : 0 < n) (full : List (Entry γ)) : Thinned n full (thinned n full) := by
  rcases List.eq_nil_or_concat full with rfl | ⟨front, l, rfl⟩
  · exact ⟨.slnil, Nat.zero_le _, by simp⟩
  · rw [List.concat_eq_append]
    have hlen := length_every_ceil hn (front ++ [l])
    have hconcat := every_concat (((front ++ [l]).length + n - 1) / n) 0 front l
    have horder := every_sublist (((front ++ [l]).length + n - 1) / n) 0 (front ++ [l])
    have hfront := every_sublist (((front ++ [l]).length + n - 1) / n) 0 front
    have hsome : every (((front ++ [l]).length + n - 1) / n) 0 (front ++ [l]) ≠ [] := by
      cases front <;> simp [every]
    simp only [thinned]
    generalize every (((front ++ [l]).length + n - 1) / n) 0 front = before at hconcat hfront
    generalize every (((front ++ [l]).length + n - 1) / n) 0 (front ++ [l]) = selected at *
    rw [List.getLast?_concat, List.getLast?_eq_some_getLast hsome]
    dsimp only
    split
    · rename_i hdiffers
      refine ⟨?_, by simpa using hlen, fun m hm => ⟨l, by simp, by simp_all⟩⟩
      -- The last one is not selected, so the selected ones are in front of it.
      rcases hconcat with rfl | rfl
      · exact hfront.append_right [l]
      · simp at hdiffers
    · rename_i hsame
      exact ⟨horder, Nat.le_succ_of_le hlen, fun m hm => ⟨_, List.getLast_mem hsome, by simp_all⟩⟩

/-! ## Buckets -/

theorem nodup_keys_assign {κ β : Type} [DecidableEq κ] (f : Nat → α → Option (κ × β)) (i : Nat) (xs : List α) (d : Py.Dict κ β)
    (h : d.keys.Nodup) : (Py.assign f i xs d).keys.Nodup := by
  induction xs generalizing i d with
  | nil => exact h
  | cons x xs ih =>
    rw [Py.assign]
    cases f i x with
    | none => exact ih (i + 1) d h
    | some e => exact ih (i + 1) _ (Py.Dict.nodup_keys_set h)

variable {b : ℚ} {items : List (Entry γ)}

theorem get?_buckets {k : Int} {r : Entry γ} :
    (buckets b items).get? k = some r ↔ ∃ i, Py.LastAt (fun e => bucketOf b e = some k) items i r := by
  rw [buckets, Py.get?_assign (P := fun e => bucketOf b e = some k)]
  · simp only [Py.Dict.get?_nil, reduceCtorEq, and_false, or_false]
    constructor
    · rintro ⟨i, e, hlast, he⟩
      obtain ⟨_, -, h⟩ := Option.map_eq_some_iff.1 he
      obtain ⟨-, rfl⟩ := Prod.mk.inj h
      exact ⟨i, hlast⟩
    · rintro ⟨i, hlast⟩
      exact ⟨i, r, hlast, by rw [hlast.holds]; rfl⟩
  · intro _ e
    cases bucketOf b e <;> simp

theorem mem_bucketed {r : Entry γ} :
    r ∈ bucketed b items ↔ ∃ k i, Py.LastAt (fun e => bucketOf b e = some k) items i r := by
  simp only [bucketed, List.mem_filterMap, List.mem_insertionSort, get?_buckets]
  constructor
  · rintro ⟨k, -, h⟩
    exact ⟨k, h⟩
  · rintro ⟨k, h⟩
    refine ⟨k, Py.Dict.mem_keys.2 fun hnone => ?_, h⟩
    rw [get?_buckets.2 h] at hnone
    cases hnone

theorem bucketed_sorted (b : ℚ) (items : List (Entry γ)) :
    (bucketed b items).Pairwise fun e f => ∃ k ∈ bucketOf b e, ∃ m ∈ bucketOf b f, k < m := by
  have hkeys : (buckets b items).keys.Nodup := nodup_keys_assign _ 0 items [] List.nodup_nil
  have hnodup := (List.perm_insertionSort (· ≤ ·) (buckets b items).keys).nodup_iff.2 hkeys
  have hsorted := List.pairwise_insertionSort (· ≤ ·) (buckets b items).keys
  rw [bucketed, List.pairwise_filterMap]
  refine (hsorted.and hnodup).imp fun ⟨hle, hne⟩ r hr s hs => ?_
  obtain ⟨_, hr⟩ := get?_buckets.1 hr
  obtain ⟨_, hs⟩ := get?_buckets.1 hs
  exact ⟨_, hr.holds, _, hs.holds, lt_of_le_of_ne hle hne⟩

theorem length_bucketed (b : ℚ) (items : List (Entry γ)) :
    (bucketed b items).length = (items.filterMap (bucketOf b)).dedup.length := by
  have hsorted := bucketed_sorted b items
  have hsome : ∀ r ∈ bucketed b items, (bucketOf b r).isSome := by
    intro r hr
    obtain ⟨k, i, h⟩ := mem_bucketed.1 hr
    exact Option.isSome_iff_exists.2 ⟨k, h.holds⟩
  have hnodup : ((bucketed b items).filterMap (bucketOf b)).Nodup := by
    rw [List.Nodup, List.pairwise_filterMap]
    refine hsorted.imp fun ⟨k, hk, m, hm, hlt⟩ k' hk' m' hm' => ?_
    obtain rfl := Option.some.inj (hk.symm.trans hk')
    obtain rfl := Option.some.inj (hm.symm.trans hm')
    exact hlt.ne
  have hmem (k : Int) : k ∈ (bucketed b items).filterMap (bucketOf b) ↔ k ∈ (items.filterMap (bucketOf b)).dedup := by
    rw [List.mem_dedup, List.mem_filterMap, List.mem_filterMap]
    constructor
    · rintro ⟨r, hr, hk⟩
      obtain ⟨_, i, h⟩ := mem_bucketed.1 hr
      exact ⟨r, List.mem_of_getElem? h.get, hk⟩
    · rintro ⟨e, he, hk⟩
      obtain ⟨i, r, h⟩ := Py.exists_lastAt (P := fun e => bucketOf b e = some k) he hk
      exact ⟨r, mem_bucketed.2 ⟨k, i, h⟩, h.holds⟩
  have hperm := (List.perm_ext_iff_of_nodup hnodup (List.nodup_dedup _)).2 hmem
  rw [← hperm.length_eq, List.length_filterMap_eq_countP, eq_comm, List.countP_eq_length]
  exact hsome

theorem sublist_of_sorted {κ : Type} [Preorder κ] {f : α → Option κ} {xs ys : List α}
    (hxs : xs.Pairwise fun a b => ∀ k ∈ f a, ∀ m ∈ f b, k ≤ m) (hys : ys.Pairwise fun a b => ∃ k ∈ f a, ∃ m ∈ f b, k < m)
    (hmem : ∀ y ∈ ys, y ∈ xs) : ys.Sublist xs := by
  induction xs generalizing ys with
  | nil => rw [List.eq_nil_iff_forall_not_mem.2 fun y hy => List.not_mem_nil (hmem y hy)]
  | cons x xs ih =>
    obtain ⟨hx, hxs'⟩ := List.pairwise_cons.1 hxs
    cases ys with
    | nil => exact List.nil_sublist _
    | cons y ys =>
      obtain ⟨hy, hys'⟩ := List.pairwise_cons.1 hys
      by_cases hfirst : y = x
      · subst hfirst
        refine (ih hxs' hys' fun z hz => ?_).cons_cons y
        refine (List.mem_cons.1 (hmem z (List.mem_cons_of_mem y hz))).resolve_left ?_
        rintro rfl
        obtain ⟨k, hk, m, hm, hlt⟩ := hy z hz
        obtain rfl := Option.some.inj (hk.symm.trans hm)
        exact lt_irrefl k hlt
      · have hin : y ∈ xs := (List.mem_cons.1 (hmem y List.mem_cons_self)).resolve_left hfirst
        refine (ih hxs' hys fun z hz => ?_).cons x
        refine (List.mem_cons.1 (hmem z hz)).resolve_left ?_
        rintro rfl
        rcases List.mem_cons.1 hz with rfl | hz
        · exact hfirst rfl
        · obtain ⟨k, hk, m, hm, hlt⟩ := hy z hz
          exact lt_irrefl k (lt_of_lt_of_le hlt (hx y hin m hm k hk))

theorem bucketOf_le (hb : 0 < b) {e f : Entry γ} (h : ∀ s ∈ e.timestamp, ∀ t ∈ f.timestamp, s ≤ t) :
    ∀ k ∈ bucketOf b e, ∀ m ∈ bucketOf b f, k ≤ m := by
  intro k hk m hm
  obtain ⟨s, hs, rfl⟩ := Option.map_eq_some_iff.1 hk
  obtain ⟨t, ht, rfl⟩ := Option.map_eq_some_iff.1 hm
  exact Int.floor_le_floor (div_le_div_of_nonneg_right (h s hs t ht) hb.le)

theorem bucketed_sublist (hb : 0 < b) (h : Ascending items) :
    (bucketed b items).Sublist items := by
  refine sublist_of_sorted (h.imp fun h => bucketOf_le hb h) (bucketed_sorted b items) fun r hr => ?_
  obtain ⟨k, i, h⟩ := mem_bucketed.1 hr
  exact List.mem_of_getElem? h.get

theorem newestIn_bucketed (h : Ascending items) {e : Entry γ} (he : e ∈ items) :
    NewestIn (bucketed b items) e := by
  intro s hs
  have hbucket : bucketOf b e = some ⌊s / b⌋ := by simp [bucketOf, Option.mem_def.1 hs]
  obtain ⟨i, r, hlast⟩ := Py.exists_lastAt (P := fun e => bucketOf b e = some ⌊s / b⌋) he hbucket
  refine ⟨r, mem_bucketed.2 ⟨_, i, hlast⟩, ?_⟩
  obtain ⟨t, ht, -⟩ := Option.map_eq_some_iff.1 hlast.holds
  refine ⟨t, ht, ?_⟩
  obtain ⟨j, hj⟩ := List.mem_iff_getElem?.1 he
  obtain ⟨hi, hr⟩ := List.getElem?_eq_some_iff.1 hlast.get
  obtain ⟨hj', he'⟩ := List.getElem?_eq_some_iff.1 hj
  rcases Nat.lt_trichotomy j i with hlt | rfl | hgt
  · have := List.pairwise_iff_getElem.1 h j i hj' hi hlt
    rw [he', hr] at this
    exact this s hs t ht
  · obtain rfl : e = r := he'.symm.trans hr
    exact (Option.some.inj (hs.symm.trans ht)).le
  · exact absurd hbucket (hlast.last j e hgt hj)

/-! ## The result -/

theorem newestIn_of_last {full result : List (Entry γ)} (h : Ascending full) {l : Entry γ} (hl : full.getLast? = some l)
    (htimed : l.timestamp.isSome) (hr : ∃ r ∈ result, r.timestamp = l.timestamp) {e : Entry γ} (he : e ∈ full) :
    NewestIn result e := by
  intro s hs
  obtain ⟨t, ht⟩ := Option.isSome_iff_exists.1 htimed
  obtain ⟨r, hr, hsame⟩ := hr
  refine ⟨r, hr, t, hsame.trans ht, ?_⟩
  obtain ⟨front, rfl⟩ := List.getLast?_eq_some_iff.1 hl
  rcases List.mem_append.1 he with hfront | hlast
  · exact (List.pairwise_append.1 h).2.2 e hfront l (List.mem_singleton_self l) s hs t ht
  · obtain rfl := List.mem_singleton.1 hlast
    exact (Option.some.inj (hs.symm.trans ht)).le

/-- Thinning keeps the newest snapshot if they are in buckets, or if the last of them has a timestamp. -/
def LastTimed (items : List (Entry γ)) (bucketSeconds : Option ℚ) (maxPoints : Option Int) : Prop :=
  (∃ b ∈ bucketSeconds, 0 < b) ∨ (∀ n ∈ maxPoints, 0 < n → (items.length : Int) ≤ n) ∨
    ∀ l ∈ items.getLast?, l.timestamp.isSome

theorem selectedItems_sublist (h : Ascending items) (bucketSeconds : Option ℚ) :
    (selectedItems items bucketSeconds).Sublist items := by
  cases bucketSeconds with
  | none => exact List.Sublist.refl items
  | some b =>
    by_cases hb : 0 < b
    · rw [selectedItems, if_pos hb]
      exact bucketed_sublist hb h
    · rw [selectedItems, if_neg hb]

theorem downsample_cases (items : List (Entry γ)) (bucketSeconds : Option ℚ) (maxPoints : Option Int) :
    downsampleHistoryItems items bucketSeconds maxPoints = selectedItems items bucketSeconds ∧
        (∀ n ∈ maxPoints, 0 < n → ((selectedItems items bucketSeconds).length : Int) ≤ n) ∨
      ∃ n ∈ maxPoints, 0 < n ∧ n < (selectedItems items bucketSeconds).length ∧
        Thinned n.toNat (selectedItems items bucketSeconds) (downsampleHistoryItems items bucketSeconds maxPoints) := by
  cases items with
  | nil =>
    have hnil : selectedItems ([] : List (Entry γ)) bucketSeconds = [] := by
      cases bucketSeconds with
      | none => rfl
      | some b => rw [selectedItems]; split <;> rfl
    rw [hnil]
    exact .inl ⟨rfl, fun n _ hn => hn.le⟩
  | cons e items =>
    cases maxPoints with
    | none => exact .inl ⟨rfl, by simp⟩
    | some n =>
      simp only [downsampleHistoryItems, List.isEmpty_cons, Bool.false_eq_true, ↓reduceIte]
      split
      · rename_i hlimit
        exact .inr ⟨n, rfl, hlimit.1, hlimit.2, thinned_spec (by omega) _⟩
      · rename_i hlimit
        refine .inl ⟨rfl, fun m hm hpos => ?_⟩
        obtain rfl := Option.some.inj hm
        omega

/-- The thinned history meets its contract with one snapshot more than the limit. -/
theorem downsample_contract (items : List (Entry γ)) (h : Ascending items) (bucketSeconds : Option ℚ)
    (maxPoints : Option Int) :
    Contract 1 (LastTimed items bucketSeconds maxPoints) items bucketSeconds maxPoints
      (downsampleHistoryItems items bucketSeconds maxPoints) := by
  have hselected := selectedItems_sublist h bucketSeconds
  have hcases := downsample_cases items bucketSeconds maxPoints
  have horder : (downsampleHistoryItems items bucketSeconds maxPoints).Sublist (selectedItems items bucketSeconds) := by
    rcases hcases with ⟨hall, -⟩ | ⟨n, -, -, -, hthin⟩
    · rw [hall]
    · exact hthin.order
  constructor
  case order => exact horder.trans hselected
  case bound =>
    intro n hn hpos
    rcases hcases with ⟨hall, hfits⟩ | ⟨m, hm, -, -, hthin⟩
    · have := hfits n hn hpos
      rw [hall]
      omega
    · obtain rfl := Option.some.inj (hn.symm.trans hm)
      have := hthin.bound
      omega
  case perBucket =>
    intro b hb hpos
    obtain rfl := Option.mem_def.1 hb
    rw [selectedItems, if_pos hpos] at horder
    constructor
    · intro r hr
      obtain ⟨k, i, hlast⟩ := mem_bucketed.1 (horder.subset hr)
      exact Option.isSome_iff_exists.2 ⟨k, hlast.holds⟩
    · refine ((bucketed_sorted b items).sublist horder).imp fun ⟨k, hk, m, hm, hlt⟩ heq => ?_
      exact hlt.ne (Option.some.inj (hk.symm.trans (heq.trans hm)))
  case latest =>
    intro b hb hpos hfits k hk
    obtain rfl := Option.mem_def.1 hb
    rw [selectedItems, if_pos hpos, length_bucketed] at hcases
    rcases hcases with ⟨hall, -⟩ | ⟨n, hn, hn', hover, -⟩
    · obtain ⟨e, he, hek⟩ := List.mem_filterMap.1 hk
      obtain ⟨i, r, hlast⟩ := Py.exists_lastAt (P := fun e => bucketOf b e = some k) he hek
      rw [hall]
      exact ⟨r, mem_bucketed.2 ⟨k, i, hlast⟩, i, hlast⟩
    · have := hfits n hn hn'
      omega
  case newest =>
    intro hlast e he
    have hnewest : NewestIn (selectedItems items bucketSeconds) e := by
      cases bucketSeconds with
      | none => exact fun s hs => ⟨e, he, s, hs, le_rfl⟩
      | some b =>
        by_cases hb : 0 < b
        · rw [selectedItems, if_pos hb]
          exact newestIn_bucketed h he
        · rw [selectedItems, if_neg hb]
          exact fun s hs => ⟨e, he, s, hs, le_rfl⟩
    rcases hcases with ⟨hall, -⟩ | ⟨n, hn, hn', hover, hthin⟩
    · rw [hall]
      exact hnewest
    · intro s hs
      obtain ⟨r, hr, t, ht, hst⟩ := hnewest s hs
      have hsome : selectedItems items bucketSeconds ≠ [] := List.ne_nil_of_mem hr
      have hend := List.getLast?_eq_some_getLast hsome
      have htimed : ((selectedItems items bucketSeconds).getLast hsome).timestamp.isSome := by
        have hin := List.getLast_mem hsome
        by_cases hb : ∃ b ∈ bucketSeconds, 0 < b
        · obtain ⟨b, hb, hpos⟩ := hb
          obtain rfl := Option.mem_def.1 hb
          simp only [selectedItems, if_pos hpos] at hin ⊢
          obtain ⟨k, i, hlast⟩ := mem_bucketed.1 hin
          obtain ⟨t, ht, -⟩ := Option.map_eq_some_iff.1 hlast.holds
          rw [ht]
          rfl
        · have hitems : selectedItems items bucketSeconds = items := by
            cases bucketSeconds with
            | none => rfl
            | some b => rw [selectedItems, if_neg fun hpos => hb ⟨b, rfl, hpos⟩]
          simp only [hitems] at hend hover ⊢
          rcases hlast with hb' | hfits | hlast
          · exact absurd hb' hb
          · have := hfits n hn hn'
            omega
          · exact hlast _ hend
      obtain ⟨r', hr', t', ht', hle⟩ :=
        newestIn_of_last (h.sublist hselected) hend htimed (hthin.last _ hend) hr t ht
      exact ⟨r', hr', t', ht', hst.trans hle⟩

end

/-! ## Runs -/

def fiveSnapshots : List (Entry Nat) := [⟨some 0, 0⟩, ⟨some 5, 1⟩, ⟨some 10, 2⟩, ⟨some 20, 3⟩, ⟨some 30, 4⟩]

def halfTimed : List (Entry Nat) := [⟨some 1, 0⟩, ⟨some 2, 1⟩, ⟨none, 2⟩, ⟨none, 3⟩]

theorem downsample_contract_fiveSnapshots :
    Contract 1 (LastTimed fiveSnapshots (some 10) (some 3)) fiveSnapshots (some 10) (some 3)
      (downsampleHistoryItems fiveSnapshots (some 10) (some 3)) :=
  downsample_contract fiveSnapshots (by decide +kernel) (some 10) (some 3)

/-- Three snapshots come where two are asked for, and without timestamps the newest one can be missing. -/
theorem downsample_exceeds :
    Ascending fiveSnapshots ∧ downsampleHistoryItems fiveSnapshots none (some 2) = [⟨some 0, 0⟩, ⟨some 20, 3⟩, ⟨some 30, 4⟩] ∧
      ¬Contract 0 True fiveSnapshots none (some 2) (downsampleHistoryItems fiveSnapshots none (some 2)) ∧
      Ascending halfTimed ∧ downsampleHistoryItems halfTimed none (some 2) = [⟨some 1, 0⟩, ⟨none, 2⟩] ∧
      ¬Contract 0 True halfTimed none (some 2) (downsampleHistoryItems halfTimed none (some 2)) := by
  have hfive : downsampleHistoryItems fiveSnapshots none (some 2) = [⟨some 0, 0⟩, ⟨some 20, 3⟩, ⟨some 30, 4⟩] := by
    decide +kernel
  have hhalf : downsampleHistoryItems halfTimed none (some 2) = [⟨some 1, 0⟩, ⟨none, 2⟩] := by decide +kernel
  refine ⟨by decide +kernel, hfive, fun h => ?_, by decide +kernel, hhalf, fun h => ?_⟩
  · have hbound := h.bound 2 rfl (by decide)
    rw [hfive] at hbound
    simp at hbound
  · obtain ⟨r, hr, t, ht, hle⟩ := h.newest trivial ⟨some 2, 1⟩ (by decide) 2 rfl
    rw [hhalf] at hr
    simp only [List.mem_cons, List.not_mem_nil, or_false] at hr
    rcases hr with rfl | rfl
    · obtain rfl := Option.some.inj ht
      norm_num at hle
    · cases ht

end Dumb.Metrics
