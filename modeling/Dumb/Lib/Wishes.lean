import Mathlib.Data.List.Induction
import Mathlib.Data.List.Nodup
import Dumb.Lib.Dict

/-!
# Wishes met on a list that was read once

Each wish takes the first row with its label, or else the first one that suits it, and puts what it wants into it; where there
is none it adds a row. All of them look at the rows as they were read before the first one, so that two can take the same row.
`settled_iff` says exactly when every wish is met afterwards.
-/

namespace Py

structure Wishes (β ε ν : Type) where
  label : ε → ν
  labelOf : β → ν
  suits : ε → β → Bool
  current : ε → β → Bool
  sent : ε → Option β → β

namespace Wishes

variable {κ β ε ν : Type} [DecidableEq κ] [DecidableEq ν] (w : Wishes β ε ν)

def find (e : ε) (rows : Dict κ β) : Option (κ × β) :=
  (rows.find? fun m => w.labelOf m.2 = w.label e).or (rows.find? fun m => w.suits e m.2)

def met (rows : Dict κ β) (e : ε) : Bool := (w.find e rows).any fun m => w.current e m.2

def step (fresh : Dict κ β → κ) (read rows : Dict κ β) (e : ε) : Dict κ β :=
  match w.find e read with
  | some m => if w.current e m.2 then rows else rows.set m.1 (w.sent e (some m.2))
  | none => rows ++ [(fresh rows, w.sent e none)]

def meet (fresh : Dict κ β → κ) (read : Dict κ β) (es : List ε) : Dict κ β := es.foldl (w.step fresh read) read

def owner (read : Dict κ β) (es : List ε) (k : κ) : Option ε :=
  es.reverse.find? fun e => !w.met read e && (w.find e read).any fun m => m.1 = k

def Lasts (read : Dict κ β) (es : List ε) (e : ε) : Prop :=
  w.met read e = false ∧ ∀ m ∈ w.find e read, w.owner read es m.1 = some e

instance [DecidableEq ε] (read : Dict κ β) (es : List ε) (e : ε) : Decidable (w.Lasts read es e) :=
  inferInstanceAs (Decidable (_ ∧ _))

def untouched (read : Dict κ β) (es : List ε) : Dict κ β := read.filter fun m => w.owner read es m.1 = none

def left (read : Dict κ β) (es : List ε) (m : κ × β) : κ × β :=
  (m.1, (w.owner read es m.1).elim m.2 fun e => w.sent e (some m.2))

structure Lawful (es : List ε) : Prop where
  labelOf_sent : ∀ e old, w.labelOf (w.sent e old) = w.label e
  current_sent : ∀ e ∈ es, ∀ old, w.current e (w.sent e old) = true
  suits_sent : ∀ e ∈ es, ∀ e' ∈ es, ∀ old, w.suits e' (w.sent e old) = true → e' = e
  current_unique : ∀ e ∈ es, ∀ e' ∈ es, ∀ b, w.current e b = true → w.current e' b = true → e = e'

variable {w}

omit [DecidableEq κ] in
theorem find_mem {e : ε} {rows : Dict κ β} {m : κ × β} (h : w.find e rows = some m) : m ∈ rows := by
  rcases Option.or_eq_some_iff.1 h with h | ⟨-, h⟩
  · exact List.mem_of_find?_eq_some h
  · exact List.mem_of_find?_eq_some h

variable {k : κ}

theorem owner_some {read : Dict κ β} {es : List ε} {e : ε} (h : w.owner read es k = some e) :
    e ∈ es ∧ w.met read e = false ∧ ∃ b, w.find e read = some (k, b) := by
  have hmem := List.mem_reverse.1 (List.mem_of_find?_eq_some h)
  have hp := List.find?_some h
  simp only [Bool.and_eq_true, Bool.not_eq_true', Option.any_eq_true, decide_eq_true_eq] at hp
  obtain ⟨hmet, ⟨k', b⟩, hfind, rfl⟩ := hp
  exact ⟨hmem, hmet, b, hfind⟩

theorem lasts_of_owner {read : Dict κ β} {es : List ε} {e : ε} (h : w.owner read es k = some e) :
    w.Lasts read es e := by
  obtain ⟨-, hmet, b, hfind⟩ := owner_some h
  refine ⟨hmet, fun m hm => ?_⟩
  rw [hfind, Option.mem_def, Option.some.injEq] at hm
  rw [← hm]
  exact h

/-! ## What is left of the rows -/

theorem owner_snoc (read : Dict κ β) (es : List ε) (e : ε) (k : κ) : w.owner read (es ++ [e]) k =
    if !w.met read e && (w.find e read).any fun m => m.1 = k then some e else w.owner read es k := by
  unfold owner
  rw [List.reverse_append, List.reverse_singleton, List.singleton_append, List.find?_cons]
  split <;> simp_all

theorem set_append {b : β} : ∀ {rows : Dict κ β} (more : Dict κ β), k ∈ Dict.keys rows →
    Dict.set k b (rows ++ more) = Dict.set k b rows ++ more
  | (q, u) :: rows, more, h => by
    by_cases hq : q = k
    · simp [Dict.set, hq]
    · have hk : k ∈ Dict.keys rows := by
        rcases List.mem_cons.1 h with hk | hk
        · exact absurd hk.symm hq
        · exact hk
      simp [Dict.set, hq, set_append more hk]

theorem set_map {b : β} {f g : κ × β → κ × β} (hf : ∀ m, (f m).1 = m.1) : ∀ {rows : Dict κ β},
    (Dict.keys rows).Nodup → k ∈ Dict.keys rows → (∀ m ∈ rows, m.1 = k → g m = (k, b)) →
      (∀ m ∈ rows, m.1 ≠ k → g m = f m) → Dict.set k b (rows.map f) = rows.map g
  | m :: rows, hn, hk, hsame, hother => by
    obtain ⟨hnot, hn⟩ := List.nodup_cons.1 hn
    rw [List.map_cons, List.map_cons, show f m = (m.1, (f m).2) from Prod.ext (hf m) rfl]
    by_cases hm : m.1 = k
    · have hrest : rows.map g = rows.map f := by
        apply List.map_congr_left
        intro m' hm'
        apply hother m' (List.mem_cons_of_mem _ hm')
        rintro rfl
        replace hnot : m.1 ∉ Dict.keys rows := hnot
        rw [hm] at hnot
        exact hnot (List.mem_map_of_mem hm')
      rw [Dict.set, if_pos hm, hsame m List.mem_cons_self hm, hrest, hm]
    · have hk : k ∈ Dict.keys rows := by
        rcases List.mem_cons.1 hk with hk | hk
        · exact absurd hk.symm hm
        · exact hk
      rw [Dict.set, if_neg hm, hother m List.mem_cons_self hm, set_map hf hn hk
        (fun m' hm' => hsame m' (List.mem_cons_of_mem _ hm')) fun m' hm' => hother m' (List.mem_cons_of_mem _ hm')]
      exact congrArg (· :: _) (Prod.ext (hf m).symm rfl)

variable (fresh : Dict κ β → κ)

theorem meet_rows {read : Dict κ β} (hn : (Dict.keys read).Nodup) (es : List ε) :
    ∃ added : Dict κ β, w.meet fresh read es = read.map (w.left read es) ++ added ∧
      added.map (·.2) = (es.filter fun e => w.find e read = none).map fun e => w.sent e none := by
  induction es using List.reverseRecOn with
  | nil =>
    refine ⟨[], ?_, rfl⟩
    have hleft : read.map (w.left read []) = read := by
      apply (List.map_congr_left _).trans (List.map_id read)
      exact fun m _ => rfl
    rw [hleft, List.append_nil]
    rfl
  | append_singleton es e ih =>
    obtain ⟨added, hrows, hadded⟩ := ih
    have hmeet : w.meet fresh read (es ++ [e]) = w.step fresh read (w.meet fresh read es) e := by
      rw [meet, List.foldl_append]
      rfl
    rw [hmeet, hrows, step]
    have hsame : (w.met read e = true ∨ w.find e read = none) → w.left read (es ++ [e]) = w.left read es := by
      intro h
      funext m
      rw [left, left, owner_snoc, if_neg]
      rcases h with h | h
      · simp [h]
      · simp [h]
    cases hfind : w.find e read with
    | none =>
      refine ⟨added ++ [(fresh (read.map (w.left read es) ++ added), w.sent e none)], ?_, ?_⟩
      · rw [hsame (.inr hfind), List.append_assoc]
      · rw [List.map_append, hadded, List.filter_append, List.map_append]
        simp [hfind]
    | some m =>
      have hfilter : (es ++ [e]).filter (fun e => w.find e read = none) = es.filter fun e => w.find e read = none := by
        rw [List.filter_append]
        simp [hfind]
      refine ⟨added, ?_, by rw [hfilter, hadded]⟩
      dsimp only
      by_cases hcurrent : w.current e m.2 = true
      · have hmet : w.met read e = true := by simp [met, hfind, hcurrent]
        rw [if_pos hcurrent, hsame (.inl hmet)]
      · have hmet : w.met read e = false := by simp [met, hfind, hcurrent]
        have hmem := find_mem hfind
        have hkey : m.1 ∈ Dict.keys read := List.mem_map_of_mem hmem
        have hkeys : Dict.keys (read.map (w.left read es)) = Dict.keys read := by
          rw [Dict.keys, List.map_map]
          rfl
        rw [if_neg hcurrent, set_append added (hkeys ▸ hkey)]
        congr 1
        apply set_map (f := w.left read es) (fun _ => rfl) hn hkey
        · intro m' hm' hk
          have heq : m' = m := by
            have hget := Dict.get?_of_mem hn (show (m.1, m.2) ∈ read from hmem)
            have hget' := Dict.get?_of_mem hn (show (m'.1, m'.2) ∈ read from hm')
            rw [hk, hget] at hget'
            exact Prod.ext hk (Option.some.inj hget').symm
          rw [heq, left, owner_snoc]
          simp [hmet, hfind]
        · intro m' hm' hk
          rw [left, left, owner_snoc, if_neg]
          simp [hfind, Ne.symm hk]

/-! ## When every wish is met -/

theorem find_meet {p : β → Bool} {read added : Dict κ β} {es : List ε}
    (hsent : ∀ e ∈ es, w.Lasts read es e → ∀ old, p (w.sent e old) = false)
    (hadded : ∀ m ∈ added, ∃ e ∈ es, w.Lasts read es e ∧ m.2 = w.sent e none) :
    (read.map (w.left read es) ++ added).find? (fun m => p m.2) = (w.untouched read es).find? fun m => p m.2 := by
  have hnone : added.find? (fun m => p m.2) = none := by
    rw [List.find?_eq_none]
    intro m hm
    obtain ⟨e, he, hlasts, heq⟩ := hadded m hm
    simp [heq, hsent e he hlasts none]
  have hrows : ∀ rows : Dict κ β, (rows.map (w.left read es)).find? (fun m => p m.2) =
      (rows.filter fun m => w.owner read es m.1 = none).find? fun m => p m.2 := by
    intro rows
    induction rows with
    | nil => rfl
    | cons m rows ih =>
      rw [List.map_cons, List.find?_cons, List.filter_cons]
      cases howner : w.owner read es m.1 with
      | none =>
        have hleft : w.left read es m = m := by simp [left, howner]
        rw [hleft, if_pos (by simp), List.find?_cons, ih]
      | some e =>
        have hsentm : p (w.left read es m).2 = false := by
          have hfalse := hsent e (owner_some howner).1 (lasts_of_owner howner) (some m.2)
          simpa [left, howner] using hfalse
        rw [hsentm, if_neg (by simp)]
        exact ih
  rw [List.find?_append, hnone, Option.or_none, untouched, hrows]

omit [DecidableEq κ] in
theorem find_labelled {x : ν} {rows : Dict κ β} {m : κ × β} (hm : m ∈ rows) (hlabel : w.labelOf m.2 = x) :
    ∃ m' ∈ rows, w.labelOf m'.2 = x ∧ ∀ e, w.label e = x → w.find e rows = some m' := by
  cases hfind : rows.find? fun m => w.labelOf m.2 = x with
  | none => exact absurd hlabel (by simpa using List.find?_eq_none.1 hfind m hm)
  | some m' =>
    refine ⟨m', List.mem_of_find?_eq_some hfind, by simpa using List.find?_some hfind, ?_⟩
    rintro e rfl
    rw [find, hfind, Option.some_or]

theorem get?_left (read : Dict κ β) (es : List ε) (k : κ) : ∀ rows : Dict κ β, Dict.get? k (rows.map (w.left read es)) =
    (Dict.get? k rows).map fun b => (w.owner read es k).elim b fun e => w.sent e (some b)
  | [] => rfl
  | m :: rows => by
    by_cases hk : m.1 = k
    · simp [Dict.get?, left, hk]
    · have ih := get?_left read es k rows
      simp only [List.map_cons, left, Dict.get?, hk, if_false] at ih ⊢
      exact ih

theorem get?_meet {read : Dict κ β} (hn : (Dict.keys read).Nodup) {es : List ε} {b : β}
    (h : Dict.get? k read = some b) :
    Dict.get? k (w.meet fresh read es) = some ((w.owner read es k).elim b fun e => w.sent e (some b)) := by
  obtain ⟨added, hrows, -⟩ := meet_rows (w := w) fresh hn es
  rw [hrows, Dict.get?_append, get?_left, h, Option.map_some, Option.some_or]

section
variable {read added : Dict κ β} {es : List ε} (hl : w.Lawful es) (hn : (Dict.keys read).Nodup)
  (hadded : added.map (·.2) = (es.filter fun e => w.find e read = none).map fun e => w.sent e none)

include hadded in
theorem added_lasts : ∀ m ∈ added, ∃ e ∈ es, w.Lasts read es e ∧ m.2 = w.sent e none := by
  intro m hm
  have hmem : m.2 ∈ added.map (·.2) := List.mem_map_of_mem hm
  rw [hadded] at hmem
  obtain ⟨e, he, heq⟩ := List.mem_map.1 hmem
  obtain ⟨he, hnone⟩ := List.mem_filter.1 he
  rw [decide_eq_true_eq] at hnone
  refine ⟨e, he, ⟨by simp [met, hnone], fun m hm => ?_⟩, heq.symm⟩
  simp [hnone] at hm

include hadded in
theorem mem_meet {m : κ × β} (h : m ∈ read.map (w.left read es) ++ added) :
    m ∈ w.untouched read es ∨ ∃ e ∈ es, w.Lasts read es e ∧ ∃ old, m.2 = w.sent e old := by
  rcases List.mem_append.1 h with h | h
  · obtain ⟨m, hm, rfl⟩ := List.mem_map.1 h
    cases howner : w.owner read es m.1 with
    | none =>
      have hleft : w.left read es m = m := by simp [left, howner]
      rw [hleft]
      exact .inl (List.mem_filter.2 ⟨hm, by simp [howner]⟩)
    | some e => exact .inr ⟨e, (owner_some howner).1, lasts_of_owner howner, some m.2, by simp [left, howner]⟩
  · obtain ⟨e, he, hlasts, heq⟩ := added_lasts hadded m h
    exact .inr ⟨e, he, hlasts, none, heq⟩

include hadded in
theorem sent_there {e : ε} (he : e ∈ es) (hlasts : w.Lasts read es e) :
    ∃ m ∈ read.map (w.left read es) ++ added, ∃ old, m.2 = w.sent e old := by
  cases hfind : w.find e read with
  | none =>
    have hmem : w.sent e none ∈ added.map (·.2) := by
      rw [hadded]
      exact List.mem_map.2 ⟨e, List.mem_filter.2 ⟨he, by simp [hfind]⟩, rfl⟩
    obtain ⟨m, hm, heq⟩ := List.mem_map.1 hmem
    exact ⟨m, List.mem_append_right _ hm, none, heq⟩
  | some m =>
    have howner := hlasts.2 m hfind
    have hleft := List.mem_map_of_mem (f := w.left read es) (find_mem hfind)
    exact ⟨w.left read es m, List.mem_append_left _ hleft, some m.2, by simp [left, howner]⟩

include hl hadded in
theorem find_others {e : ε} (he : e ∈ es) (hnot : ¬w.Lasts read es e)
    (hlabel : ∀ e' ∈ es, w.Lasts read es e' → w.label e' ≠ w.label e) :
    w.find e (read.map (w.left read es) ++ added) = w.find e (w.untouched read es) := by
  have hnamed := find_meet (p := fun b => w.labelOf b = w.label e) (fun e' he' hl' old => by
    simp [hl.labelOf_sent, hlabel e' he' hl']) (added_lasts hadded)
  have hsuits := find_meet (p := w.suits e) (fun e' he' hl' old => by
    rw [← Bool.not_eq_true]
    intro hsuits
    exact hnot (hl.suits_sent e' he' e he old hsuits ▸ hl')) (added_lasts hadded)
  rw [find, find, hnamed, hsuits]

include hl hn in
theorem find_first {e : ε} {m : κ × β} (hfirst : (read.find? fun m => w.labelOf m.2 = w.label e) = some m)
    (howner : w.owner read es m.1 = some e)
    (hlabel : ∀ e' ∈ es, w.Lasts read es e' → w.label e' = w.label e → e' = e) :
    w.find e (read.map (w.left read es) ++ added) = some (w.left read es m) := by
  have hleft : w.labelOf (w.left read es m).2 = w.label e := by simp [left, howner, hl.labelOf_sent]
  obtain ⟨-, before, after, rfl, hbefore⟩ := List.find?_eq_some_iff_append.1 hfirst
  have hnone : (before.map (w.left (before ++ m :: after) es)).find? (fun m => w.labelOf m.2 = w.label e) = none := by
    rw [List.find?_eq_none]
    intro m' hm'
    obtain ⟨a, ha, rfl⟩ := List.mem_map.1 hm'
    cases ho : w.owner (before ++ m :: after) es a.1 with
    | none => simpa [left, ho] using hbefore a ha
    | some e' =>
      simp only [left, ho, Option.elim_some, hl.labelOf_sent, decide_eq_true_eq]
      intro heq
      obtain rfl := hlabel e' (owner_some ho).1 (lasts_of_owner ho) heq
      obtain ⟨-, -, b, hfind⟩ := owner_some ho
      rw [find, hfirst, Option.some_or, Option.some.injEq] at hfind
      rw [Dict.keys, List.map_append, List.map_cons, List.nodup_append] at hn
      exact hn.2.2 a.1 (List.mem_map_of_mem ha) m.1 List.mem_cons_self (congrArg Prod.fst hfind).symm
  rw [find, List.map_append, List.map_cons, List.append_assoc, List.find?_append, hnone, Option.none_or, List.cons_append,
    List.find?_cons, decide_eq_true hleft, Option.some_or]

include hl hn hadded in
theorem find_own {e : ε} (he : e ∈ es) (hlasts : w.Lasts read es e)
    (hlabel : ∀ e' ∈ es, w.label e' = w.label e → e' = e) :
    ∃ m old, w.find e (read.map (w.left read es) ++ added) = some m ∧ m.2 = w.sent e old := by
  cases hfirst : read.find? fun m => w.labelOf m.2 = w.label e with
  | some m =>
    have howner := hlasts.2 m (by rw [find, hfirst, Option.some_or, Option.mem_some])
    exact ⟨_, some m.2, find_first hl hn hfirst howner fun e' he' _ => hlabel e' he', by simp [left, howner]⟩
  | none =>
    obtain ⟨m₀, hm₀, old₀, hold₀⟩ := sent_there hadded he hlasts
    obtain ⟨m, hm, hname, hfind⟩ := find_labelled hm₀ (show w.labelOf m₀.2 = w.label e by rw [hold₀, hl.labelOf_sent])
    rcases mem_meet hadded hm with huntouched | ⟨e', he', hlasts', old, heq⟩
    · have hno := List.find?_eq_none.1 hfirst m (List.mem_filter.1 huntouched).1
      simp [hname] at hno
    · rw [heq, hl.labelOf_sent] at hname
      obtain rfl := hlabel e' he' hname
      exact ⟨m, old, hfind e' rfl, heq⟩

end

theorem met_iff {read : Dict κ β} {es : List ε} (hn : (Dict.keys read).Nodup) (hl : w.Lawful es) :
    (∀ e ∈ es, w.met (w.meet fresh read es) e = true) ↔
      (∀ e ∈ es, w.Lasts read es e → ∀ e' ∈ es, w.label e' = w.label e → e' = e) ∧
        ∀ e ∈ es, ¬w.Lasts read es e → w.met (w.untouched read es) e = true := by
  obtain ⟨added, hrows, hadded⟩ := meet_rows (w := w) fresh hn es
  rw [hrows]
  have hothers : ∀ e ∈ es, (∀ e' ∈ es, w.Lasts read es e' → ∀ e'' ∈ es, w.label e'' = w.label e' → e'' = e') →
      ¬w.Lasts read es e → w.find e (read.map (w.left read es) ++ added) = w.find e (w.untouched read es) := by
    intro e he hlabel hnot
    apply find_others hl hadded he hnot
    intro e' he' hlasts' heq
    obtain rfl := hlabel e' he' hlasts' e he heq.symm
    exact hnot hlasts'
  constructor
  · intro h
    have hlabel : ∀ e ∈ es, w.Lasts read es e → ∀ e' ∈ es, w.label e' = w.label e → e' = e := by
      intro e he hlasts e' he' heq
      obtain ⟨m₀, hm₀, old₀, hold₀⟩ := sent_there hadded he hlasts
      obtain ⟨m, -, -, hfind⟩ := find_labelled hm₀ (show w.labelOf m₀.2 = w.label e by rw [hold₀, hl.labelOf_sent])
      have hcurrent := h e he
      have hcurrent' := h e' he'
      rw [met, hfind e rfl, Option.any_some] at hcurrent
      rw [met, hfind e' heq, Option.any_some] at hcurrent'
      exact hl.current_unique e' he' e he m.2 hcurrent' hcurrent
    refine ⟨hlabel, fun e he hnot => ?_⟩
    have hmet := h e he
    rwa [met, hothers e he hlabel hnot] at hmet
  · rintro ⟨hlabel, huntouched⟩ e he
    by_cases hlasts : w.Lasts read es e
    · obtain ⟨m, old, hfind, heq⟩ := find_own hl hn hadded he hlasts (hlabel e he hlasts)
      rw [met, hfind, Option.any_some, heq]
      exact hl.current_sent e he old
    · rw [met, hothers e he hlabel hlasts]
      exact huntouched e he hlasts

end Wishes

end Py
