import Mathlib.Data.List.Basic

/-!
# Regular expressions as Python matches them

A pattern yields its matches at one place in the order in which a backtracking matcher tries them, so that the first
one is the match. A repetition takes no empty turn.
-/

namespace Py

structure Spot where
  prev : Option Char
  rest : List Char
  taken : List Char
  groups : List (List Char)

def Spot.view (s : Spot) : List Char × Nat := (s.rest, s.taken.length)

inductive Re where
  | empty
  | char (p : Char → Bool)
  | seq (r s : Re)
  | alt (r s : Re)
  | star (r : Re) (reluctant : Bool)
  /-- `(?!r)` -/
  | notAhead (r : Re)
  /-- `(?<!p)` for a class of characters. -/
  | notBehind (p : Char → Bool)
  /-- `\b` for the class of word characters. -/
  | boundary (word : Char → Bool)
  | group (r : Re)

namespace Re

def turns (f : Spot → List Spot) (reluctant : Bool) : Nat → Spot → List Spot
  | 0, s => [s]
  | fuel + 1, s =>
    let more := ((f s).filter fun t => t.rest.length < s.rest.length).flatMap (turns f reluctant fuel)
    if reluctant then s :: more else more ++ [s]

def run : Re → Spot → List Spot
  | empty, s => [s]
  | char p, s =>
    match s.rest with
    | [] => []
    | c :: cs => if p c then [⟨some c, cs, c :: s.taken, s.groups⟩] else []
  | seq r t, s => (r.run s).flatMap t.run
  | alt r t, s => r.run s ++ t.run s
  | star r reluctant, s => turns r.run reluctant s.rest.length s
  | notAhead r, s => if (r.run s).isEmpty then [s] else []
  | notBehind p, s => if s.prev.any p then [] else [s]
  | boundary word, s => if s.prev.any word != s.rest.head?.any word then [s] else []
  | group r, s => (r.run s).map fun t =>
      { t with groups := t.groups ++ [(t.taken.take (t.taken.length - s.taken.length)).reverse] }

def plus (r : Re) : Re := seq r (star r false)

def opt (r : Re) : Re := alt r empty

def atLeast (n : Nat) (r : Re) : Re := n.repeat (seq r) (star r false)

def all : List Re → Re
  | [] => empty
  | [r] => r
  | r :: rs => seq r (all rs)

def any : List Re → Re
  | [] => notAhead empty
  | [r] => r
  | r :: rs => alt r (any rs)

/-- `pattern.sub(replacement, text)` for a pattern without empty matches, with `skip` characters of a match still to pass
over. -/
def subFrom (r : Re) (replacement : List (List Char) → List Char) : Nat → Option Char → List Char → List Char
  | _, _, [] => []
  | skip + 1, _, c :: cs => subFrom r replacement skip (some c) cs
  | 0, prev, c :: cs =>
    match (r.run ⟨prev, c :: cs, [], []⟩).head? with
    | some s => replacement s.groups ++ subFrom r replacement (s.taken.length - 1) (some c) cs
    | none => c :: subFrom r replacement 0 (some c) cs

def sub (r : Re) (replacement : List (List Char) → List Char) (text : List Char) : List Char :=
  subFrom r replacement 0 none text

/-- `re.finditer`: where the matches begin and end, from the place `pos` on, for a pattern without empty matches. -/
def spansFrom (r : Re) : Nat → Nat → Option Char → List Char → List (Nat × Nat)
  | _, _, _, [] => []
  | pos, skip + 1, _, c :: cs => spansFrom r (pos + 1) skip (some c) cs
  | pos, 0, prev, c :: cs =>
    match (r.run ⟨prev, c :: cs, [], []⟩).head? with
    | some s => (pos, pos + s.taken.length) :: spansFrom r (pos + 1) (s.taken.length - 1) (some c) cs
    | none => spansFrom r (pos + 1) 0 (some c) cs

def spans (r : Re) (text : List Char) : List (Nat × Nat) := spansFrom r 0 0 none text

def count (r : Re) (text : List Char) : Nat := (r.spans text).length

/-! ## Patterns that look at nothing but what they take -/

def plain : Re → Bool
  | empty => true
  | char _ => true
  | seq r s => r.plain && s.plain
  | alt r s => r.plain && s.plain
  | star r _ => r.plain
  | notAhead _ => false
  | notBehind _ => false
  | boundary _ => false
  | group r => r.plain

/-- How much the turns of a repetition take, where one turn takes what `f` says. -/
def turnLengths (f : List Char → List Nat) (reluctant : Bool) : Nat → List Char → List Nat
  | 0, _ => [0]
  | fuel + 1, cs =>
    let more := ((f cs).filter fun n => (cs.drop n).length < cs.length).flatMap fun n =>
      (turnLengths f reluctant fuel (cs.drop n)).map (n + ·)
    if reluctant then 0 :: more else more ++ [0]

def lengths : Re → List Char → List Nat
  | empty, _ => [0]
  | char p, cs => if cs.head?.any p then [1] else []
  | seq r t, cs => (r.lengths cs).flatMap fun n => (t.lengths (cs.drop n)).map (n + ·)
  | alt r t, cs => r.lengths cs ++ t.lengths cs
  | star r reluctant, cs => turnLengths r.lengths reluctant cs.length cs
  | notAhead _, _ => []
  | notBehind _, _ => []
  | boundary _, _ => []
  | group r, cs => r.lengths cs

def shift (q : List Char × Nat) (n : Nat) : List Char × Nat := (q.1.drop n, q.2 + n)

theorem map_shift_shift (q : List Char × Nat) (n : Nat) (ns : List Nat) :
    ns.map (shift (shift q n)) = (ns.map (n + ·)).map (shift q) := by
  simp [shift, List.drop_drop, Nat.add_assoc, Function.comp_def]

theorem flatMap_view {ss : List Spot} {q : List Char × Nat} {ns : List Nat} (h : ss.map Spot.view = ns.map (shift q))
    {next : Spot → List Spot} {g : List Char → List Nat}
    (hnext : ∀ s, (next s).map Spot.view = (g s.rest).map (shift s.view)) :
    (ss.flatMap next).map Spot.view = (ns.flatMap fun n => (g (q.1.drop n)).map (n + ·)).map (shift q) := by
  have hleft : (ss.flatMap next).map Spot.view = (ss.map Spot.view).flatMap fun v => (g v.1).map (shift v) := by
    rw [List.map_flatMap, List.flatMap_map]
    exact List.flatMap_congr fun s _ => hnext s
  rw [hleft, h, List.flatMap_map, List.map_flatMap]
  exact List.flatMap_congr fun n _ => map_shift_shift q n _

theorem filter_view {ss : List Spot} {q : List Char × Nat} {ns : List Nat} (h : ss.map Spot.view = ns.map (shift q))
    (k : Nat) : (ss.filter fun t => t.rest.length < k).map Spot.view =
      (ns.filter fun n => (q.1.drop n).length < k).map (shift q) := by
  have hleft : (ss.filter fun t => t.rest.length < k).map Spot.view =
      (ss.map Spot.view).filter fun v => v.1.length < k := by
    rw [List.filter_map]
    rfl
  rw [hleft, h, List.filter_map]
  rfl

theorem turns_view {f : Spot → List Spot} {g : List Char → List Nat} (reluctant : Bool)
    (h : ∀ s, (f s).map Spot.view = (g s.rest).map (shift s.view)) (fuel : Nat) (s : Spot) :
    (turns f reluctant fuel s).map Spot.view = (turnLengths g reluctant fuel s.rest).map (shift s.view) := by
  induction fuel generalizing s with
  | zero => simp [turns, turnLengths, shift, Spot.view]
  | succ fuel ih =>
    have hmore := flatMap_view (filter_view (h s) s.rest.length) ih
    have hself : s.view = shift s.view 0 := by simp [shift]
    cases reluctant with
    | true =>
      simp only [turns, turnLengths, if_true, List.map_cons]
      rw [hmore, ← hself]
      rfl
    | false =>
      simp only [turns, turnLengths, Bool.false_eq_true, if_false, List.map_append, List.map_cons, List.map_nil]
      rw [hmore, ← hself]
      rfl

variable {r : Re}

theorem run_view (hr : r.plain = true) (s : Spot) :
    (r.run s).map Spot.view = (r.lengths s.rest).map (shift s.view) := by
  induction r generalizing s with
  | empty => simp [run, lengths, shift, Spot.view]
  | char p =>
    obtain ⟨prev, rest, taken, groups⟩ := s
    cases rest with
    | nil => simp [run, lengths]
    | cons c cs => cases hc : p c <;> simp [run, lengths, shift, Spot.view, hc]
  | seq r t ihr iht =>
    simp only [plain, Bool.and_eq_true] at hr
    exact flatMap_view (ihr hr.1 s) (iht hr.2)
  | alt r t ihr iht =>
    simp only [plain, Bool.and_eq_true] at hr
    simp only [run, lengths, List.map_append, ihr hr.1, iht hr.2]
  | star r reluctant ih => exact turns_view reluctant (ih hr) s.rest.length s
  | notAhead => cases hr
  | notBehind => cases hr
  | boundary => cases hr
  | group r ih =>
    simp only [run, lengths, List.map_map]
    exact ih hr s

def take? (r : Re) (cs : List Char) : Option Nat := (r.lengths cs).head?

theorem head?_run (hr : r.plain = true) (prev : Option Char) (cs : List Char) :
    (r.run ⟨prev, cs, [], []⟩).head?.map (fun s => s.taken.length) = r.take? cs := by
  have hview := congrArg List.head? (run_view hr ⟨prev, cs, [], []⟩)
  rw [List.head?_map, List.head?_map] at hview
  have htaken := congrArg (Option.map Prod.snd) hview
  rw [Option.map_map, Option.map_map] at htaken
  simpa [Function.comp_def, Spot.view, shift, take?] using htaken

/-! ### More text behind -/

variable {cs : List Char}

theorem turnLengths_fuel (f : List Char → List Nat) (reluctant : Bool) {fuel : Nat}
    (h : cs.length ≤ fuel) : turnLengths f reluctant fuel cs = turnLengths f reluctant cs.length cs := by
  induction hlen : cs.length using Nat.strongRecOn generalizing cs fuel with
  | _ n ih =>
    subst hlen
    cases cs with
    | nil => cases fuel <;> cases reluctant <;> simp [turnLengths]
    | cons c cs =>
      cases fuel with
      | zero => simp at h
      | succ fuel =>
        have hmore (n : Nat) (hn : n ∈ (f (c :: cs)).filter fun n => ((c :: cs).drop n).length < cs.length + 1) :
            (turnLengths f reluctant fuel ((c :: cs).drop n)).map (n + ·) =
              (turnLengths f reluctant cs.length ((c :: cs).drop n)).map (n + ·) := by
          have hlt : ((c :: cs).drop n).length < cs.length + 1 := by simpa using (List.mem_filter.1 hn).2
          have hle : ((c :: cs).drop n).length ≤ cs.length := Nat.lt_succ_iff.1 hlt
          rw [ih _ hlt (Nat.le_trans hle (Nat.succ_le_succ_iff.1 h)) rfl, ih _ hlt hle rfl]
        simp only [turnLengths, List.length_cons, List.flatMap_congr hmore]

/-- What a matcher takes within `xs` does not depend on what comes behind. -/
def IsLocal (f : List Char → List Nat) : Prop :=
  ∀ xs ys : List Char, (f (xs ++ ys)).filter (· ≤ xs.length) = f xs

theorem filter_flatMap_le {ns ms : List Nat} {g h : Nat → List Nat} {k : Nat} (hns : ns.filter (· ≤ k) = ms)
    (hg : ∀ n ∈ ns, n ≤ k → (g n).filter (· ≤ k - n) = h n) :
    (ns.flatMap fun n => (g n).map (n + ·)).filter (· ≤ k) = ms.flatMap fun n => (h n).map (n + ·) := by
  subst hns
  induction ns with
  | nil => rfl
  | cons n ns ih =>
    have hns := ih fun m hm => hg m (List.mem_cons_of_mem n hm)
    by_cases hn : n ≤ k
    · have hhead : ((g n).map (n + ·)).filter (· ≤ k) = (h n).map (n + ·) := by
        rw [← hg n List.mem_cons_self hn, List.filter_map]
        congr 1
        refine List.filter_congr fun m _ => ?_
        simp only [Function.comp_apply, decide_eq_decide]
        omega
      rw [List.flatMap_cons, List.filter_append, hhead, hns, List.filter_cons_of_pos (by simpa using hn), List.flatMap_cons]
    · have hhead : ((g n).map (n + ·)).filter (· ≤ k) = [] := by
        rw [List.filter_eq_nil_iff]
        intro m hm
        obtain ⟨l, -, rfl⟩ := List.mem_map.1 hm
        simp only [decide_eq_true_eq]
        omega
      rw [List.flatMap_cons, List.filter_append, hhead, hns, List.nil_append, List.filter_cons_of_neg (by simpa using hn)]

theorem filter_turns {f : List Char → List Nat} (hf : IsLocal f) (xs ys : List Char) :
    ((f (xs ++ ys)).filter fun n => ((xs ++ ys).drop n).length < (xs ++ ys).length).filter (· ≤ xs.length) =
      (f xs).filter fun n => (xs.drop n).length < xs.length := by
  rw [← hf xs ys, List.filter_filter, List.filter_filter]
  refine List.filter_congr fun n _ => ?_
  simp only [List.length_drop, List.length_append, ← Bool.decide_and, decide_eq_decide]
  omega

theorem IsLocal.turns {f : List Char → List Nat} (hf : IsLocal f) (reluctant : Bool) :
    IsLocal fun cs => turnLengths f reluctant cs.length cs := by
  intro xs ys
  induction hlen : xs.length using Nat.strongRecOn generalizing xs with
  | _ k ih =>
    subst hlen
    -- One turn and the rest, on either side.
    have hunfold (cs : List Char) : turnLengths f reluctant cs.length cs =
        let more := ((f cs).filter fun n => (cs.drop n).length < cs.length).flatMap fun n =>
          (turnLengths f reluctant (cs.drop n).length (cs.drop n)).map (n + ·)
        if reluctant then 0 :: more else more ++ [0] := by
      rw [← turnLengths_fuel f reluctant (Nat.le_succ cs.length), turnLengths]
      have hmore (n : Nat) (hn : n ∈ (f cs).filter fun n => (cs.drop n).length < cs.length) :
          (turnLengths f reluctant cs.length (cs.drop n)).map (n + ·) =
            (turnLengths f reluctant (cs.drop n).length (cs.drop n)).map (n + ·) := by
        have hlt : (cs.drop n).length < cs.length := by simpa using (List.mem_filter.1 hn).2
        rw [turnLengths_fuel f reluctant (Nat.le_of_lt hlt)]
      simp only [List.flatMap_congr hmore]
    have hmore := filter_flatMap_le (filter_turns hf xs ys)
      (g := fun n => turnLengths f reluctant ((xs ++ ys).drop n).length ((xs ++ ys).drop n))
      (h := fun n => turnLengths f reluctant (xs.drop n).length (xs.drop n)) ?_
    · simp only [hunfold xs, hunfold (xs ++ ys)]
      cases reluctant with
      | true => simpa using hmore
      | false => simpa using hmore
    · intro n hn hle
      have hlt := (List.mem_filter.1 hn).2
      simp only [List.length_drop, List.length_append, decide_eq_true_eq] at hlt
      rw [List.drop_append_of_le_length hle]
      have hshorter : (xs.drop n).length < xs.length := by
        rw [List.length_drop]
        omega
      rw [← List.length_drop]
      exact ih _ hshorter (xs.drop n) rfl

theorem lengths_isLocal (hr : r.plain = true) : IsLocal r.lengths := by
  induction r with
  | empty => intro xs ys; simp [lengths]
  | char p =>
    intro xs ys
    cases xs with
    | nil => cases ys with
      | nil => simp [lengths]
      | cons c ys => cases hc : p c <;> simp [lengths, hc]
    | cons c xs => cases hc : p c <;> simp [lengths, hc]
  | seq r t ihr iht =>
    simp only [plain, Bool.and_eq_true] at hr
    intro xs ys
    refine filter_flatMap_le (ihr hr.1 xs ys) fun n _ hn => ?_
    rw [List.drop_append_of_le_length hn, ← List.length_drop]
    exact iht hr.2 (xs.drop n) ys
  | alt r t ihr iht =>
    simp only [plain, Bool.and_eq_true] at hr
    intro xs ys
    simp only [lengths, List.filter_append, ihr hr.1 xs ys, iht hr.2 xs ys]
  | star r reluctant ih => exact (ih hr).turns reluctant
  | notAhead => cases hr
  | notBehind => cases hr
  | boundary => cases hr
  | group r ih => exact ih hr

variable {xs ys : List Char}

theorem take?_of_append (hr : r.plain = true) {n : Nat} (h : r.take? (xs ++ ys) = some n)
    (hn : n ≤ xs.length) : r.take? xs = some n := by
  obtain ⟨rest, hrest⟩ := List.head?_eq_some_iff.1 h
  rw [take?, ← lengths_isLocal hr xs ys, hrest, List.filter_cons_of_pos (by simpa using hn), List.head?_cons]

theorem take?_none_of_append (hr : r.plain = true) (h : r.take? (xs ++ ys) = none) :
    r.take? xs = none := by
  rw [take?, ← lengths_isLocal hr xs ys, List.head?_eq_none_iff.1 h, List.filter_nil, List.head?_nil]

/-! ### Where matches begin and end -/

theorem spansFrom_cons (hr : r.plain = true) (pos : Nat) (prev : Option Char) (c : Char) (cs : List Char) :
    spansFrom r pos 0 prev (c :: cs) =
      match r.take? (c :: cs) with
      | some n => (pos, pos + n) :: spansFrom r (pos + 1) (n - 1) (some c) cs
      | none => spansFrom r (pos + 1) 0 (some c) cs := by
  rw [spansFrom, ← head?_run hr prev (c :: cs)]
  cases (r.run ⟨prev, c :: cs, [], []⟩).head? with
  | none => rfl
  | some s => rfl

theorem spansFrom_prev (hr : r.plain = true) (pos skip : Nat) (prev prev' : Option Char) (cs : List Char) :
    spansFrom r pos skip prev cs = spansFrom r pos skip prev' cs := by
  cases cs with
  | nil => simp [spansFrom]
  | cons c cs =>
    cases skip with
    | zero => rw [spansFrom_cons hr, spansFrom_cons hr]
    | succ skip => simp [spansFrom]

theorem spansFrom_pos (r : Re) (k pos skip : Nat) (prev : Option Char) (cs : List Char) :
    spansFrom r (k + pos) skip prev cs = (spansFrom r pos skip prev cs).map fun m => (k + m.1, k + m.2) := by
  induction cs generalizing pos skip prev with
  | nil => simp [spansFrom]
  | cons c cs ih =>
    cases skip with
    | succ skip => simp only [spansFrom, Nat.add_assoc, ih]
    | zero =>
      simp only [spansFrom]
      cases (r.run ⟨prev, c :: cs, [], []⟩).head? with
      | none => simp only [Nat.add_assoc, ih]
      | some s => simp only [Nat.add_assoc, ih, List.map_cons]

/-- No match lies across the place `k`. -/
def Between (ms : List (Nat × Nat)) (k : Nat) : Prop := ∀ m ∈ ms, m.1 < k → m.2 ≤ k

theorem spansFrom_append (hr : r.plain = true) (xs ys : List Char) (pos skip : Nat) (prev : Option Char)
    (hskip : skip ≤ xs.length) (h : Between (spansFrom r pos skip prev (xs ++ ys)) (pos + xs.length)) :
    spansFrom r pos skip prev (xs ++ ys) =
      spansFrom r pos skip prev xs ++ spansFrom r (pos + xs.length) 0 none ys := by
  induction xs generalizing pos skip prev with
  | nil =>
    cases skip with
    | succ skip => simp at hskip
    | zero => simp [spansFrom, spansFrom_prev hr pos 0 prev none]
  | cons c xs ih =>
    have hpos : pos + 1 + xs.length = pos + (c :: xs).length := by rw [List.length_cons, Nat.add_assoc, Nat.add_comm 1]
    rw [List.cons_append] at h ⊢
    cases skip with
    | succ skip =>
      simp only [spansFrom] at h ⊢
      rw [← hpos] at h ⊢
      exact ih (pos + 1) skip (some c) (Nat.succ_le_succ_iff.1 hskip) h
    | zero =>
      rw [spansFrom_cons hr] at h ⊢
      rw [spansFrom_cons hr pos prev c xs]
      cases htake : r.take? (c :: (xs ++ ys)) with
      | none =>
        rw [← List.cons_append] at htake
        rw [take?_none_of_append hr htake]
        rw [List.cons_append] at htake
        simp only [htake] at h ⊢
        rw [← hpos] at h ⊢
        exact ih (pos + 1) 0 (some c) (Nat.zero_le _) h
      | some n =>
        simp only [htake] at h ⊢
        have hn : n ≤ (c :: xs).length := by
          have hfirst := h (pos, pos + n) List.mem_cons_self (by simp)
          simpa using hfirst
        rw [← List.cons_append] at htake
        rw [take?_of_append hr htake hn]
        simp only [List.cons_append, List.cons.injEq, true_and]
        rw [← hpos] at h ⊢
        refine ih (pos + 1) (n - 1) (some c) ?_ fun m hm => h m (List.mem_cons_of_mem _ hm)
        rw [List.length_cons] at hn
        omega

theorem count_append (hr : r.plain = true)
    (h : Between (r.spans (xs ++ ys)) xs.length) : r.count (xs ++ ys) = r.count xs + r.count ys := by
  have hzero : 0 + xs.length = xs.length + 0 := Nat.add_comm _ _
  have happend := spansFrom_append hr xs ys 0 0 none (Nat.zero_le _) (by rwa [Nat.zero_add])
  rw [count, spans, happend, List.length_append, hzero, spansFrom_pos, List.length_map]
  rfl

/-! ### Short texts -/

def minLength : Re → Nat
  | char _ => 1
  | seq r s => r.minLength + s.minLength
  | alt r s => min r.minLength s.minLength
  | group r => r.minLength
  | _ => 0

theorem minLength_le (r : Re) (cs : List Char) : ∀ n ∈ r.lengths cs, r.minLength ≤ n := by
  induction r generalizing cs with
  | char p =>
    intro n hn
    cases cs with
    | nil => simp [lengths] at hn
    | cons c cs =>
      cases hc : p c with
      | false => simp [lengths, hc] at hn
      | true => simp_all [lengths, minLength]
  | seq r t ihr iht =>
    intro n hn
    simp only [lengths, List.mem_flatMap, List.mem_map] at hn
    obtain ⟨k, hk, l, hl, rfl⟩ := hn
    exact Nat.add_le_add (ihr cs k hk) (iht _ l hl)
  | alt r t ihr iht =>
    intro n hn
    simp only [lengths, List.mem_append] at hn
    rcases hn with hn | hn
    · exact Nat.le_trans (Nat.min_le_left _ _) (ihr cs n hn)
    · exact Nat.le_trans (Nat.min_le_right _ _) (iht cs n hn)
  | group r ih => exact ih cs
  | _ => exact fun _ _ => Nat.zero_le _

theorem le_length_of_mem (hr : r.plain = true) : ∀ n ∈ r.lengths cs, n ≤ cs.length := by
  have hlocal := lengths_isLocal hr cs []
  rw [List.append_nil, List.filter_eq_self] at hlocal
  simpa using hlocal

theorem spansFrom_short (hr : r.plain = true) (h : cs.length < r.minLength) (pos skip : Nat)
    (prev : Option Char) : spansFrom r pos skip prev cs = [] := by
  induction cs generalizing pos skip prev with
  | nil => rfl
  | cons c cs ih =>
    have hshorter : cs.length < r.minLength := Nat.lt_of_succ_lt h
    cases skip with
    | succ skip => exact ih hshorter (pos + 1) skip (some c)
    | zero =>
      have hnone : r.take? (c :: cs) = none := by
        rw [take?, List.head?_eq_none_iff, List.eq_nil_iff_forall_not_mem]
        intro n hn
        have hle := le_length_of_mem hr n hn
        have hge := minLength_le r _ n hn
        omega
      rw [spansFrom_cons hr, hnone]
      exact ih hshorter (pos + 1) 0 (some c)

theorem count_short (hr : r.plain = true) (h : cs.length < r.minLength) : r.count cs = 0 := by
  rw [count, spans, spansFrom_short hr h, List.length_nil]

end Re

end Py
