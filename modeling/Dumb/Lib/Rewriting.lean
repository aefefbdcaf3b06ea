import Mathlib.Data.List.Dedup
import Mathlib.Data.List.Infix
import Mathlib.Data.List.Sort

/-!
# Rewriting parts of a text

A text in which some parts are already written is a list of cells: a letter that may still be rewritten, or a text
that stays as it was written. A search over the cells never finds what was written; a search over the bare text may.
-/

namespace Rewriting

variable {α : Type}

inductive Cell (α : Type) where
  | raw (a : α)
  | written (t : List α)
deriving DecidableEq

def Cell.text : Cell α → List α
  | .raw a => [a]
  | .written t => t

def text (cells : List (Cell α)) : List α := cells.flatMap Cell.text

def fresh (t : List α) : List (Cell α) := t.map .raw

@[simp] theorem text_cons (c : Cell α) (cells : List (Cell α)) : text (c :: cells) = c.text ++ text cells := rfl

@[simp] theorem text_append (xs ys : List (Cell α)) : text (xs ++ ys) = text xs ++ text ys := List.flatMap_append

@[simp] theorem text_fresh (t : List α) : text (fresh t) = t := by
  induction t with
  | nil => rfl
  | cons a t ih => simpa [fresh, Cell.text] using ih

theorem fresh_ne_nil {t : List α} (h : t ≠ []) : fresh t ≠ [] := by simpa [fresh] using h

variable [DecidableEq α]

/-- The matches of `old`, left to right and apart, replaced by `new`; `skip` letters of a match are still to pass over. -/
def replaceFrom (old new : List α) : Nat → List α → List α
  | _, [] => []
  | skip + 1, _ :: cs => replaceFrom old new skip cs
  | 0, c :: cs =>
    if old <+: c :: cs then new ++ replaceFrom old new (old.length - 1) cs
    else c :: replaceFrom old new 0 cs

def replace (old new : List α) (cs : List α) : List α := replaceFrom old new 0 cs

section Replace

variable {old new : List α}

theorem replaceFrom_drop (old new : List α) : ∀ (skip : Nat) (cs : List α),
    replaceFrom old new skip cs = replace old new (cs.drop skip)
  | 0, cs => by rw [List.drop_zero, replace]
  | skip + 1, [] => by simp [replace, replaceFrom]
  | skip + 1, c :: cs => by rw [replaceFrom, List.drop_succ_cons, replaceFrom_drop old new skip cs]

theorem replace_found (hold : old ≠ []) (cs : List α) : replace old new (old ++ cs) = new ++ replace old new cs := by
  obtain ⟨c, rest, rfl⟩ := List.exists_cons_of_ne_nil hold
  rw [List.cons_append, replace, replaceFrom, if_pos ⟨cs, rfl⟩, replaceFrom_drop]
  simp

theorem replace_pass {c : α} {cs : List α} (h : ¬old <+: c :: cs) : replace old new (c :: cs) = c :: replace old new cs := by
  rw [replace, replaceFrom, if_neg h, replace]

theorem search (hold : old ≠ []) {motive : List α → Prop} (nil : motive [])
    (found : ∀ cs, motive cs → motive (old ++ cs))
    (pass : ∀ c cs, ¬old <+: c :: cs → motive cs → motive (c :: cs)) : ∀ cs, motive cs := by
  intro cs
  induction hn : cs.length using Nat.strong_induction_on generalizing cs with
  | _ n ih =>
    cases cs with
    | nil => exact nil
    | cons c cs =>
      by_cases h : old <+: c :: cs
      · obtain ⟨rest, hrest⟩ := h
        have hpos : 0 < old.length := List.length_pos_of_ne_nil hold
        have hlen : old.length + rest.length = n := by rw [← List.length_append, hrest, hn]
        rw [← hrest]
        exact found rest (ih rest.length (by omega) rest rfl)
      · exact pass c cs h (ih cs.length (by simp at hn; omega) cs rfl)

end Replace

/-- The unwritten matches of `p.1` become `p.2`, which then stays. -/
def rewrite (p : List α × List α) (cells : List (Cell α)) : List (Cell α) := replace (fresh p.1) [.written p.2] cells

def rewritten (ps : List (List α × List α)) (t : List α) : List α := text (ps.foldl (fun cells p => rewrite p cells) (fresh t))

/-- Searched left to right, the bare text shows `old` only where unwritten letters spell it. -/
def Clear (old : List α) : Nat → List (Cell α) → Prop
  | _, [] => True
  | skip + 1, _ :: cells => Clear old skip cells
  | 0, .raw a :: cells =>
    if fresh old <+: .raw a :: cells then Clear old (old.length - 1) cells else ¬old <+: a :: text cells ∧ Clear old 0 cells
  | 0, .written t :: cells => (∀ i < t.length, ¬old <+: t.drop i ++ text cells) ∧ Clear old 0 cells

instance clearDecidable (old : List α) : ∀ skip cells, Decidable (Clear old skip cells)
  | 0, [] => isTrue trivial
  | _ + 1, [] => isTrue trivial
  | skip + 1, _ :: cells => clearDecidable old skip cells
  | 0, .raw a :: cells =>
    have := clearDecidable old (old.length - 1) cells
    have := clearDecidable old 0 cells
    inferInstanceAs (Decidable (if fresh old <+: .raw a :: cells then Clear old (old.length - 1) cells else
      ¬old <+: a :: text cells ∧ Clear old 0 cells))
  | 0, .written t :: cells =>
    have := clearDecidable old 0 cells
    inferInstanceAs (Decidable ((∀ i < t.length, ¬old <+: t.drop i ++ text cells) ∧ Clear old 0 cells))

def Untouched : List (List α × List α) → List (Cell α) → Prop
  | [], _ => True
  | p :: ps, cells => (p.1 ≠ p.2 → Clear p.1 0 cells) ∧ Untouched ps (rewrite p cells)

instance untouchedDecidable : ∀ (ps : List (List α × List α)) cells, Decidable (Untouched ps cells)
  | [], _ => isTrue trivial
  | p :: ps, cells =>
    have := untouchedDecidable ps (rewrite p cells)
    inferInstanceAs (Decidable ((p.1 ≠ p.2 → Clear p.1 0 cells) ∧ Untouched ps (rewrite p cells)))

theorem clear_drop (old : List α) : ∀ (skip : Nat) (cells : List (Cell α)), Clear old skip cells ↔ Clear old 0 (cells.drop skip)
  | 0, cells => by rw [List.drop_zero]
  | skip + 1, [] => by simp [Clear]
  | skip + 1, c :: cells => by rw [Clear, List.drop_succ_cons, clear_drop old skip cells]

theorem clear_found {old : List α} (hold : old ≠ []) {cells : List (Cell α)} (h : Clear old 0 (fresh old ++ cells)) :
    Clear old 0 cells := by
  obtain ⟨a, rest, rfl⟩ := List.exists_cons_of_ne_nil hold
  have hfound : fresh (a :: rest) <+: .raw a :: (fresh rest ++ cells) := ⟨cells, rfl⟩
  rw [show fresh (a :: rest) ++ cells = .raw a :: (fresh rest ++ cells) from rfl, Clear, if_pos hfound, clear_drop] at h
  simpa [fresh] using h

section Rewrite

variable {p : List α × List α} {cells : List (Cell α)}

theorem replace_written {old new : List α} : ∀ {t rest : List α}, (∀ i < t.length, ¬old <+: t.drop i ++ rest) →
    replace old new (t ++ rest) = t ++ replace old new rest
  | [], rest, _ => rfl
  | c :: t, rest, h => by
    have hhead : ¬old <+: c :: (t ++ rest) := h 0 (by simp)
    have htail : ∀ i < t.length, ¬old <+: t.drop i ++ rest := fun i hi => h (i + 1) (by simpa using hi)
    rw [List.cons_append, replace_pass hhead, replace_written htail, List.cons_append]

theorem rewrite_nil : rewrite p [] = [] := rfl

theorem rewrite_found (hold : p.1 ≠ []) (cells : List (Cell α)) :
    rewrite p (fresh p.1 ++ cells) = .written p.2 :: rewrite p cells := replace_found (fresh_ne_nil hold) cells

theorem rewrite_pass {c : Cell α} (h : ¬fresh p.1 <+: c :: cells) : rewrite p (c :: cells) = c :: rewrite p cells :=
  replace_pass h

theorem text_rewrite (hold : p.1 ≠ []) (h : Clear p.1 0 cells) : text (rewrite p cells) = replace p.1 p.2 (text cells) := by
  induction cells using search (fresh_ne_nil hold) with
  | nil => rfl
  | found cells ih =>
    rw [rewrite_found hold, text_cons, text_append, text_fresh, replace_found hold, ih (clear_found hold h), Cell.text]
  | pass c cells hpass ih =>
    rw [rewrite_pass hpass, text_cons, text_cons]
    cases c with
    | raw a =>
      rw [Clear, if_neg hpass] at h
      rw [ih h.2, Cell.text, List.singleton_append, List.singleton_append, replace_pass h.1]
    | written t =>
      rw [Clear] at h
      rw [ih h.2, Cell.text, replace_written h.1]

theorem text_rewrite_same (hold : p.1 ≠ []) (hsame : p.1 = p.2) (cells : List (Cell α)) :
    text (rewrite p cells) = text cells := by
  induction cells using search (fresh_ne_nil hold) with
  | nil => rfl
  | found cells ih => rw [rewrite_found hold, text_cons, text_append, text_fresh, ih, Cell.text, hsame]
  | pass c cells hpass ih => rw [rewrite_pass hpass, text_cons, text_cons, ih]

theorem fresh_front (hold : p.1 ≠ []) {u : List α} (h : fresh u <+: rewrite p cells) : fresh u <+: cells := by
  induction cells using search (fresh_ne_nil hold) generalizing u with
  | nil => exact h
  | found cells _ =>
    rw [rewrite_found hold] at h
    cases u with
    | nil => exact List.nil_prefix
    | cons a u => simp [fresh, List.cons_prefix_cons] at h
  | pass c cells hpass ih =>
    rw [rewrite_pass hpass] at h
    cases u with
    | nil => exact List.nil_prefix
    | cons a u =>
      obtain ⟨hc, hu⟩ := List.cons_prefix_cons.1 h
      exact List.cons_prefix_cons.2 ⟨hc, ih hu⟩

theorem fresh_within (hold : p.1 ≠ []) {u : List α} (hu : u ≠ []) (h : fresh u <:+: rewrite p cells) : fresh u <:+: cells := by
  induction cells using search (fresh_ne_nil hold) with
  | nil => exact h
  | found cells ih =>
    rw [rewrite_found hold, List.infix_cons_iff] at h
    cases h with
    | inl hprefix =>
      obtain ⟨a, u, rfl⟩ := List.exists_cons_of_ne_nil hu
      simp [fresh, List.cons_prefix_cons] at hprefix
    | inr hinfix => exact (ih hinfix).trans (List.suffix_append _ _).isInfix
  | pass c cells hpass ih =>
    rw [rewrite_pass hpass, List.infix_cons_iff] at h
    cases h with
    | inl hprefix => exact (fresh_front hold (rewrite_pass hpass ▸ hprefix)).isInfix
    | inr hinfix => exact List.infix_cons (ih hinfix)

theorem rewrite_gone (hold : p.1 ≠ []) (cells : List (Cell α)) : ¬fresh p.1 <:+: rewrite p cells := by
  induction cells using search (fresh_ne_nil hold) with
  | nil => simpa [rewrite_nil] using fresh_ne_nil hold
  | found cells ih =>
    rw [rewrite_found hold, List.infix_cons_iff, not_or]
    refine ⟨fun hprefix => ?_, ih⟩
    obtain ⟨a, u, hu⟩ := List.exists_cons_of_ne_nil hold
    simp [hu, fresh, List.cons_prefix_cons] at hprefix
  | pass c cells hpass ih =>
    rw [rewrite_pass hpass, List.infix_cons_iff, not_or]
    exact ⟨fun hprefix => hpass (fresh_front hold (rewrite_pass hpass ▸ hprefix)), ih⟩

theorem rewrite_absent (h : ¬fresh p.1 <:+: cells) : rewrite p cells = cells := by
  induction cells with
  | nil => rfl
  | cons c cells ih =>
    rw [List.infix_cons_iff, not_or] at h
    rw [rewrite_pass h.1, ih h.2]

end Rewrite

section Sequence

variable {ps R : List (List α × List α)}

theorem foldl_filter (hchanged : ∀ p ∈ R, p.1 ≠ p.2) (done : List (List α × List α)) {cells : List (Cell α)}
    (hgone : ∀ p ∈ done, ¬fresh p.1 <:+: cells) (hne : ∀ p ∈ ps, p.1 ≠ [])
    (hrest : ∀ pre p post, ps = pre ++ p :: post → p ∉ R → p.1 = p.2 ∨ ∃ q ∈ done ++ pre, q.1 = p.1)
    (huntouched : Untouched ps cells) :
    (ps.filter (· ∈ R)).foldl (fun t p => replace p.1 p.2 t) (text cells) =
      text (ps.foldl (fun cells p => rewrite p cells) cells) := by
  induction ps generalizing done cells with
  | nil => rfl
  | cons p ps ih =>
    have hp : p.1 ≠ [] := hne p List.mem_cons_self
    have hgone' : ∀ q ∈ done ++ [p], ¬fresh q.1 <:+: rewrite p cells := by
      intro q hq
      rw [List.mem_append, List.mem_singleton] at hq
      rcases hq with hq | rfl
      · by_cases hqe : q.1 = []
        · exact fun _ => hgone q hq (by simp [hqe, fresh])
        · exact fun h => hgone q hq (fresh_within hp hqe h)
      · exact rewrite_gone hp cells
    have htail := ih (done ++ [p]) hgone' (fun q hq => hne q (List.mem_cons_of_mem p hq))
      (fun pre q post hsplit hq => by
        simpa using hrest (p :: pre) q post (by rw [hsplit, List.cons_append]) hq) huntouched.2
    rw [List.foldl_cons, ← htail]
    by_cases hmem : p ∈ R
    · rw [List.filter_cons_of_pos (by simpa using hmem), List.foldl_cons, text_rewrite hp (huntouched.1 (hchanged p hmem))]
    · rw [List.filter_cons_of_neg (by simpa using hmem)]
      congr 1
      rcases hrest [] p ps rfl hmem with hsame | ⟨q, hq, hqp⟩
      · exact (text_rewrite_same hp hsame cells).symm
      · rw [rewrite_absent (hqp ▸ hgone q (by simpa using hq))]

def Before (p q : List α × List α) : Prop :=
  q.1.length < p.1.length ∨ q.1.length = p.1.length ∧ (q.1 ≠ q.2 → p.1 ≠ p.2)

instance : DecidableRel (Before (α := α)) := fun p q =>
  inferInstanceAs (Decidable (q.1.length < p.1.length ∨ q.1.length = p.1.length ∧ (q.1 ≠ q.2 → p.1 ≠ p.2)))

instance : Std.Total (Before (α := α)) := ⟨fun p q => by unfold Before; grind⟩

instance : IsTrans (List α × List α) Before := ⟨fun p q r => by unfold Before; grind⟩

structure Arranged (values ps : List (List α × List α)) : Prop where
  nodup : ps.Nodup
  mem_iff : ∀ p, p ∈ ps ↔ p ∈ values
  longest : ps.Pairwise Before

omit [DecidableEq α] in
theorem Arranged.unique {values qs : List (List α × List α)}
    (hlength : ∀ p ∈ values, ∀ q ∈ values, p.1.length = q.1.length → p = q) (hps : Arranged values ps)
    (hqs : Arranged values qs) : ps = qs := by
  have hperm : ps.Perm qs := (List.perm_ext_iff_of_nodup hps.nodup hqs.nodup).2 fun p => by rw [hps.mem_iff, hqs.mem_iff]
  refine hperm.eq_of_pairwise (fun p q hp hq hpq hqp => ?_) hps.longest hqs.longest
  refine hlength p ((hps.mem_iff p).1 hp) q ((hqs.mem_iff q).1 hq) ?_
  unfold Before at hpq hqp
  omega

theorem arranged_insertionSort (values : List (List α × List α)) : Arranged values (values.dedup.insertionSort Before) where
  nodup := (List.perm_insertionSort _ _).nodup_iff.2 (List.nodup_dedup values)
  mem_iff p := by rw [List.mem_insertionSort, List.mem_dedup]
  longest := List.pairwise_insertionSort _ _

omit [DecidableEq α] in
theorem mem_left_of_sublist {p q : List α × List α} {pre post : List (List α × List α)} (hnodup : (pre ++ p :: post).Nodup)
    (hne : q ≠ p) (h : [q, p].Sublist (pre ++ p :: post)) : q ∈ pre := by
  have hp : p ∉ post := (List.nodup_cons.1 (List.nodup_append.1 hnodup).2.1).1
  obtain ⟨front, back, hsplit, hfront, hback⟩ := List.sublist_append_iff.1 h
  cases front with
  | nil =>
    have hback' : [q, p].Sublist (p :: post) := by rwa [hsplit]
    rw [List.sublist_cons_iff] at hback'
    rcases hback' with hpost | ⟨r, hr, _⟩
    · exact absurd (hpost.subset (by simp)) hp
    · exact absurd (List.cons.inj hr).1 hne
  | cons r front =>
    obtain rfl : q = r := (List.cons.inj hsplit).1
    exact hfront.subset List.mem_cons_self

theorem exists_arranged {values : List (List α × List α)} (hsorted : R.Pairwise fun p q => q.1.length ≤ p.1.length)
    (hnodup : R.Nodup) (hmem : ∀ p ∈ R, p ∈ values ∧ p.1 ≠ p.2)
    (hall : ∀ p ∈ values, p.1 ≠ p.2 → ∃ q ∈ R, q.1 = p.1) (hne : ∀ p ∈ values, p.1 ≠ []) :
    ∃ ps, Arranged values ps ∧
      ∀ t, Untouched ps (fresh t) → R.foldl (fun t p => replace p.1 p.2 t) t = rewritten ps t := by
  let others := values.dedup.filter (· ∉ R)
  let ps := (R ++ others).insertionSort Before
  have hps : ps.Perm (R ++ others) := List.perm_insertionSort _ _
  have hiff : ∀ p, p ∈ ps ↔ p ∈ values := by
    intro p
    rw [hps.mem_iff]
    have hin : p ∈ R → p ∈ values := fun h => (hmem p h).1
    by_cases h : p ∈ R <;> simp [others, h, hin]
  have hnd : ps.Nodup := by
    rw [hps.nodup_iff, List.nodup_append]
    refine ⟨hnodup, (List.nodup_dedup _).filter _, fun p hp q hq hpq => ?_⟩
    simp only [others, List.mem_filter, decide_eq_true_eq] at hq
    exact hq.2 (hpq ▸ hp)
  have hR : R.Pairwise Before := by
    refine hsorted.imp_of_mem fun {p q} hp _ hle => ?_
    rcases Nat.lt_or_eq_of_le hle with hlt | heq
    · exact .inl hlt
    · exact .inr ⟨heq, fun _ => (hmem p hp).2⟩
  have hsub : R.Sublist ps := List.sublist_insertionSort hR (List.sublist_append_left _ _)
  have hfilter : ps.filter (· ∈ R) = R := by
    have hself : R.filter (· ∈ R) = R := List.filter_eq_self.2 (by simp)
    have hsub' : R.Sublist (ps.filter (· ∈ R)) := by simpa only [hself] using hsub.filter (fun p => decide (p ∈ R))
    have hperm : R.Perm (ps.filter (· ∈ R)) := (List.perm_ext_iff_of_nodup hnodup (hnd.filter _)).2 fun p => by
      simpa using fun hp => hsub.subset hp
    exact (hsub'.eq_of_length hperm.length_eq).symm
  refine ⟨ps, ⟨hnd, hiff, List.pairwise_insertionSort _ _⟩, fun t huntouched => ?_⟩
  have hrest : ∀ pre p post, ps = pre ++ p :: post → p ∉ R → p.1 = p.2 ∨ ∃ q ∈ [] ++ pre, q.1 = p.1 := by
    intro pre p post hsplit hp
    by_cases hsame : p.1 = p.2
    · exact .inl hsame
    · have hpps : p ∈ ps := by rw [hsplit]; simp
      obtain ⟨q, hq, hqp⟩ := hall p ((hiff p).1 hpps) hsame
      have hpo : p ∈ others := by simpa [hp] using hps.mem_iff.1 hpps
      have hpair : [q, p].Sublist (R ++ others) := (List.singleton_sublist.2 hq).append (List.singleton_sublist.2 hpo)
      have hbefore : Before q p := .inr ⟨by rw [hqp], fun _ => (hmem q hq).2⟩
      have hsorted' : [q, p].Sublist (pre ++ p :: post) := hsplit ▸ List.pair_sublist_insertionSort hbefore hpair
      have hqne : q ≠ p := fun h => hp (h ▸ hq)
      exact .inr ⟨q, mem_left_of_sublist (hsplit ▸ hnd) hqne hsorted', hqp⟩
  have hfold := foldl_filter (fun p hp => (hmem p hp).2) [] (by simp) (fun p hp => hne p ((hiff p).1 hp)) hrest huntouched
  rwa [hfilter, text_fresh] at hfold

end Sequence

end Rewriting
