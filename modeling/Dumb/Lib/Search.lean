import Dumb.Lib.Regex

/-!
# Searching with regular expressions

What a search finds first, and what a plain pattern says of a text.
-/

namespace Py

namespace Re

/-! ## Searching -/

def classes : List (Char → Bool) → Re
  | [] => empty
  | p :: ps => seq (char p) (classes ps)

def exactly (w : List Char) : Re := classes (w.map fun c d => d == c)

def groupsAt (r : Re) (prev : Option Char) (cs : List Char) : Option (List (List Char)) :=
  (r.run ⟨prev, cs, [], []⟩).head?.map Spot.groups

def searchFrom (r : Re) : Option Char → List Char → Option (List (List Char))
  | prev, [] => r.groupsAt prev []
  | prev, c :: cs => (r.groupsAt prev (c :: cs)).orElse fun _ => searchFrom r (some c) cs

def search (r : Re) (text : List Char) : Option (List (List Char)) := r.searchFrom none text

def subFront (r : Re) (text : List Char) : List Char :=
  match (r.run ⟨none, text, [], []⟩).head? with
  | some s => s.rest
  | none => text

def fits : List (Char → Bool) → List Char → Bool
  | [], _ => true
  | _ :: _, [] => false
  | p :: ps, c :: cs => p c && fits ps cs

variable (ps : List (Char → Bool))

theorem run_classes (s : Spot) :
    ((classes ps).run s).map (fun t => (t.rest, t.taken, t.groups)) =
      if fits ps s.rest then [(s.rest.drop ps.length, (s.rest.take ps.length).reverse ++ s.taken, s.groups)] else [] := by
  induction ps generalizing s with
  | nil => simp [classes, run, fits]
  | cons p ps ih =>
    obtain ⟨prev, rest, taken, groups⟩ := s
    cases rest with
    | nil => simp [classes, run, fits]
    | cons c rest =>
      cases hc : p c with
      | true => simp [classes, run, fits, hc, ih]
      | false => simp [classes, run, fits, hc]

theorem fits_exactly (w cs : List Char) : fits (w.map fun c d => d == c) cs = w.isPrefixOf cs := by
  induction w generalizing cs with
  | nil => simp [fits]
  | cons c w ih =>
    cases cs with
    | nil => rfl
    | cons d cs => rw [List.map_cons, fits, ih, List.isPrefixOf_cons_cons, Bool.beq_comm]

theorem run_exactly (w : List Char) (s : Spot) : ((exactly w).run s).map (fun t => (t.rest, t.taken, t.groups)) =
    if w.isPrefixOf s.rest then [(s.rest.drop w.length, w.reverse ++ s.taken, s.groups)] else [] := by
  rw [exactly, run_classes, fits_exactly, List.length_map]
  cases hw : w.isPrefixOf s.rest with
  | false => rfl
  | true =>
    obtain ⟨rest, hrest⟩ := List.isPrefixOf_iff_prefix.1 hw
    rw [← hrest, List.take_left]

theorem run_any (rs : List Re) (s : Spot) : (any rs).run s = rs.flatMap fun r => r.run s := by
  induction rs with
  | nil => simp [any, run]
  | cons r rs ih =>
    cases rs with
    | nil => simp [any]
    | cons r' rs =>
      have hrest : any (r :: r' :: rs) = alt r (any (r' :: rs)) := rfl
      rw [hrest, run, ih]
      simp

theorem head?_run_seq {r t : Re} (ht : ∀ s, t.run s ≠ []) (s : Spot) :
    ((seq r t).run s).head? = (r.run s).head?.bind fun s' => (t.run s').head? := by
  rw [run]
  cases r.run s with
  | nil => rfl
  | cons s' rest =>
    rw [List.flatMap_cons, List.head?_append_of_ne_nil _ (ht s')]
    rfl

theorem turns_ne_nil (f : Spot → List Spot) (reluctant : Bool) (fuel : Nat) (s : Spot) : turns f reluctant fuel s ≠ [] := by
  cases fuel <;> cases reluctant <;> simp [turns]

theorem star_ne_nil (r : Re) (reluctant : Bool) (s : Spot) : (star r reluctant).run s ≠ [] :=
  turns_ne_nil r.run reluctant s.rest.length s

theorem seq_ne_nil {r t : Re} (hr : ∀ s, r.run s ≠ []) (ht : ∀ s, t.run s ≠ []) (s : Spot) : (seq r t).run s ≠ [] := by
  rw [← List.isSome_head?, head?_run_seq ht]
  obtain ⟨s', hs'⟩ := Option.isSome_iff_exists.1 (List.isSome_head?.2 (hr s))
  rw [hs']
  exact List.isSome_head?.2 (ht s')

theorem group_ne_nil {r : Re} (hr : ∀ s, r.run s ≠ []) (s : Spot) : (group r).run s ≠ [] := by
  simpa [run] using hr s

theorem head?_turns_char (p : Char → Bool) (fuel : Nat) (s : Spot) (h : s.rest.length ≤ fuel) :
    (turns (char p).run false fuel s).head?.map (fun t => (t.rest, t.taken, t.groups)) =
      some (s.rest.dropWhile p, (s.rest.takeWhile p).reverse ++ s.taken, s.groups) := by
  induction fuel generalizing s with
  | zero =>
    have hnil : s.rest = [] := List.eq_nil_of_length_eq_zero (Nat.le_zero.1 h)
    simp [turns, hnil]
  | succ fuel ih =>
    obtain ⟨prev, rest, taken, groups⟩ := s
    cases rest with
    | nil => simp [turns, run]
    | cons c rest =>
      cases hc : p c with
      | false => simp [turns, run, hc]
      | true =>
        have hrest := ih ⟨some c, rest, c :: taken, groups⟩ (Nat.le_of_succ_le_succ h)
        simpa [turns, run, hc, List.head?_append_of_ne_nil _ (turns_ne_nil _ _ _ _)] using hrest

theorem head?_star_char (p : Char → Bool) (s : Spot) :
    ((star (char p) false).run s).head?.map (fun t => (t.rest, t.taken, t.groups)) =
      some (s.rest.dropWhile p, (s.rest.takeWhile p).reverse ++ s.taken, s.groups) :=
  head?_turns_char p s.rest.length s (Nat.le_refl _)

variable {w : List Char}

theorem taken_of_view {s t : Spot} (h : t.taken = w.reverse ++ s.taken) :
    (t.taken.take (t.taken.length - s.taken.length)).reverse = w := by
  have hlength : t.taken.length - s.taken.length = w.reverse.length := by
    rw [h, List.length_append]
    omega
  rw [hlength, h, List.take_left, List.reverse_reverse]

theorem head?_group {r : Re} {s t : Spot} {rest w : List Char} (h : (r.run s).head? = some t)
    (ht : (t.rest, t.taken, t.groups) = (rest, w.reverse ++ s.taken, s.groups)) :
    ((group r).run s).head? = some { t with groups := s.groups ++ [w] } := by
  simp only [Prod.mk.injEq] at ht
  rw [run, List.head?_map, h, Option.map_some, taken_of_view ht.2.1, ht.2.2]

theorem head?_flatMap_ite {α β : Type} (p : α → Bool) (f : α → β) (as : List α) :
    (as.flatMap fun a => if p a then [f a] else []).head? = (as.find? p).map f := by
  induction as with
  | nil => rfl
  | cons a as ih =>
    rw [List.flatMap_cons, List.find?_cons]
    cases p a with
    | true => rfl
    | false => exact ih

/-! ## What a plain pattern says of a text -/

def lang : Re → List Char → Prop
  | empty, w => w = []
  | char p, w => ∃ c, w = [c] ∧ p c = true
  | seq r t, w => ∃ a b, w = a ++ b ∧ r.lang a ∧ t.lang b
  | alt r t, w => r.lang w ∨ t.lang w
  | star r _, w => ∃ ws : List (List Char), w = ws.flatten ∧ ∀ x ∈ ws, x ≠ [] ∧ r.lang x
  | notAhead _, _ => False
  | notBehind _, _ => False
  | boundary _, _ => False
  | group r, w => r.lang w

def Matches (f : List Char → List Nat) (L : List Char → Prop) : Prop :=
  ∀ cs n, n ∈ f cs ↔ ∃ w rest, cs = w ++ rest ∧ w.length = n ∧ L w

theorem Matches.turns {f : List Char → List Nat} {L : List Char → Prop} (hf : Matches f L) (reluctant : Bool)
    (fuel : Nat) (cs : List Char) (hfuel : cs.length ≤ fuel) (n : Nat) : n ∈ turnLengths f reluctant fuel cs ↔
      ∃ w rest, cs = w ++ rest ∧ w.length = n ∧ ∃ ws : List (List Char), w = ws.flatten ∧ ∀ x ∈ ws, x ≠ [] ∧ L x := by
  induction fuel generalizing cs n with
  | zero =>
    have hnil : cs = [] := List.eq_nil_of_length_eq_zero (Nat.le_zero.1 hfuel)
    subst hnil
    constructor
    · intro hn
      have hzero : n = 0 := by simpa [turnLengths] using hn
      exact ⟨[], [], rfl, hzero.symm, [], rfl, by simp⟩
    · rintro ⟨w, rest, hw, rfl, -⟩
      have hnil : w = [] := (List.append_eq_nil_iff.1 hw.symm).1
      simp [turnLengths, hnil]
  | succ fuel ih =>
    have hmem : n ∈ turnLengths f reluctant (fuel + 1) cs ↔ n = 0 ∨ ∃ k, (k ∈ f cs ∧ (cs.drop k).length < cs.length) ∧
        ∃ l, l ∈ turnLengths f reluctant fuel (cs.drop k) ∧ k + l = n := by
      cases reluctant <;> simp [turnLengths, List.mem_flatMap, or_comm]
    rw [hmem]
    constructor
    · rintro (rfl | ⟨k, ⟨hk, hless⟩, l, hl, rfl⟩)
      · exact ⟨[], cs, rfl, rfl, [], rfl, by simp⟩
      · obtain ⟨x, rest, rfl, rfl, hx⟩ := (hf cs k).1 hk
        rw [List.drop_left] at hl hless
        have hne : x ≠ [] := by
          rintro rfl
          simp at hless
        obtain ⟨w, rest', rfl, rfl, ws, rfl, hws⟩ := (ih rest (by omega) l).1 hl
        exact ⟨x ++ ws.flatten, rest', by simp, by simp, x :: ws, rfl, List.forall_mem_cons.2 ⟨⟨hne, hx⟩, hws⟩⟩
    · rintro ⟨w, rest, rfl, rfl, ws, rfl, hws⟩
      cases ws with
      | nil => exact .inl rfl
      | cons x ws =>
        obtain ⟨⟨hne, hx⟩, hws⟩ := List.forall_mem_cons.1 hws
        have hpos : 0 < x.length := List.length_pos_iff.2 hne
        refine .inr ⟨x.length, ⟨(hf _ _).2 ⟨x, ws.flatten ++ rest, by simp, rfl, hx⟩, ?_⟩, ws.flatten.length, ?_, by simp⟩
        · simp only [List.length_drop, List.flatten_cons, List.length_append]
          omega
        · have hdrop : ((x :: ws).flatten ++ rest).drop x.length = ws.flatten ++ rest := by
            rw [List.flatten_cons, List.append_assoc, List.drop_left]
          rw [hdrop]
          apply (ih _ _ _).2 ⟨ws.flatten, rest, rfl, rfl, ws, rfl, hws⟩
          simp only [List.flatten_cons, List.length_append] at hfuel ⊢
          omega

theorem lengths_matches {r : Re} (hr : r.plain = true) : Matches r.lengths r.lang := by
  induction r with
  | empty =>
    intro cs n
    constructor
    · intro hn
      have hzero : n = 0 := by simpa [lengths] using hn
      exact ⟨[], cs, rfl, hzero.symm, rfl⟩
    · rintro ⟨w, rest, rfl, rfl, hw⟩
      have hnil : w = [] := hw
      simp [lengths, hnil]
  | char p =>
    intro cs n
    constructor
    · intro hn
      cases cs with
      | nil => simp [lengths] at hn
      | cons c cs =>
        cases hc : p c with
        | false => simp [lengths, hc] at hn
        | true =>
          have hone : n = 1 := by simpa [lengths, hc] using hn
          exact ⟨[c], cs, rfl, hone.symm, c, rfl, hc⟩
    · rintro ⟨w, rest, rfl, rfl, c, rfl, hc⟩
      simp [lengths, hc]
  | seq r t ihr iht =>
    simp only [plain, Bool.and_eq_true] at hr
    intro cs n
    simp only [lengths, List.mem_flatMap, List.mem_map]
    constructor
    · rintro ⟨k, hk, l, hl, rfl⟩
      obtain ⟨a, rest, rfl, rfl, ha⟩ := (ihr hr.1 cs k).1 hk
      rw [List.drop_left] at hl
      obtain ⟨b, rest', rfl, rfl, hb⟩ := (iht hr.2 rest l).1 hl
      exact ⟨a ++ b, rest', by simp, by simp, a, b, rfl, ha, hb⟩
    · rintro ⟨w, rest, rfl, rfl, a, b, rfl, ha, hb⟩
      refine ⟨a.length, (ihr hr.1 _ _).2 ⟨a, b ++ rest, by simp, rfl, ha⟩, b.length, ?_, by simp⟩
      rw [List.append_assoc, List.drop_left]
      exact (iht hr.2 _ _).2 ⟨b, rest, rfl, rfl, hb⟩
  | alt r t ihr iht =>
    simp only [plain, Bool.and_eq_true] at hr
    intro cs n
    rw [lengths, List.mem_append, ihr hr.1 cs n, iht hr.2 cs n]
    constructor
    · rintro (⟨w, rest, hcs, hn, hw⟩ | ⟨w, rest, hcs, hn, hw⟩)
      · exact ⟨w, rest, hcs, hn, .inl hw⟩
      · exact ⟨w, rest, hcs, hn, .inr hw⟩
    · rintro ⟨w, rest, hcs, hn, hw | hw⟩
      · exact .inl ⟨w, rest, hcs, hn, hw⟩
      · exact .inr ⟨w, rest, hcs, hn, hw⟩
  | star r reluctant ih => exact fun cs n => (ih hr).turns reluctant cs.length cs (Nat.le_refl _) n
  | notAhead => cases hr
  | notBehind => cases hr
  | boundary => cases hr
  | group r ih => exact ih hr

theorem lang_classes {ps : List (Char → Bool)} :
    (classes ps).lang w ↔ w.length = ps.length ∧ fits ps w = true := by
  induction ps generalizing w with
  | nil => simp [classes, lang, fits]
  | cons p ps ih =>
    constructor
    · rintro ⟨a, b, rfl, ⟨c, rfl, hc⟩, hb⟩
      obtain ⟨hlength, hfits⟩ := ih.1 hb
      exact ⟨by simp [hlength], by simp [fits, hc, hfits]⟩
    · rintro ⟨hlength, hfits⟩
      cases w with
      | nil => cases hlength
      | cons c w =>
        rw [fits, Bool.and_eq_true] at hfits
        exact ⟨[c], w, rfl, ⟨c, rfl, hfits.1⟩, ih.2 ⟨Nat.succ.inj hlength, hfits.2⟩⟩

theorem lang_exactly {v w : List Char} : (exactly v).lang w ↔ w = v := by
  rw [exactly, lang_classes, fits_exactly, List.length_map, List.isPrefixOf_iff_prefix]
  constructor
  · rintro ⟨hlength, hw⟩
    exact (hw.eq_of_length hlength.symm).symm
  · rintro rfl
    exact ⟨rfl, List.prefix_refl _⟩

theorem lang_star_char {p : Char → Bool} {reluctant : Bool} :
    (star (char p) reluctant).lang w ↔ ∀ c ∈ w, p c = true := by
  constructor
  · rintro ⟨ws, rfl, hws⟩ c hc
    obtain ⟨x, hx, hcx⟩ := List.mem_flatten.1 hc
    obtain ⟨d, rfl, hd⟩ := (hws x hx).2
    rw [List.mem_singleton.1 hcx]
    exact hd
  · intro h
    refine ⟨w.map fun c => [c], ?_, fun x hx => ?_⟩
    · rw [← List.flatMap_def, List.flatMap_singleton']
    · obtain ⟨c, hc, rfl⟩ := List.mem_map.1 hx
      exact ⟨List.cons_ne_nil c [], c, rfl, h c hc⟩

theorem lang_plus_char {p : Char → Bool} :
    (plus (char p)).lang w ↔ w ≠ [] ∧ ∀ c ∈ w, p c = true := by
  constructor
  · rintro ⟨a, b, rfl, ⟨c, rfl, hc⟩, hb⟩
    exact ⟨by simp, List.forall_mem_cons.2 ⟨hc, lang_star_char.1 hb⟩⟩
  · rintro ⟨hne, h⟩
    cases w with
    | nil => exact absurd rfl hne
    | cons c w =>
      obtain ⟨hc, hw⟩ := List.forall_mem_cons.1 h
      exact ⟨[c], w, rfl, ⟨c, rfl, hc⟩, lang_star_char.2 hw⟩

theorem plain_classes : (classes ps).plain = true := by
  induction ps with
  | nil => rfl
  | cons p ps ih => exact ih

def theEnd : Re := notAhead (notAhead (seq (opt (char (· == '\n'))) (notAhead (char fun _ => true))))

theorem run_theEnd (s : Spot) : theEnd.run s = if s.rest = [] ∨ s.rest = ['\n'] then [s] else [] := by
  obtain ⟨prev, rest, taken, groups⟩ := s
  cases rest with
  | nil => rfl
  | cons c rest =>
    cases rest with
    | nil => by_cases hc : c = '\n' <;> simp [theEnd, run, opt, hc]
    | cons d rest => by_cases hc : c = '\n' <;> simp [theEnd, run, opt, hc]

theorem run_seq_theEnd {r : Re} (hr : r.plain = true) (s : Spot) : (seq r theEnd).run s ≠ [] ↔
    ∃ w rest, s.rest = w ++ rest ∧ r.lang w ∧ (rest = [] ∨ rest = ['\n']) := by
  have hrest {t : Spot} {n : Nat} (ht : t.view = shift s.view n) : t.rest = s.rest.drop n := congrArg Prod.fst ht
  rw [run, ne_eq, List.flatMap_eq_nil_iff, Classical.not_forall]
  simp only [run_theEnd, Classical.not_imp]
  constructor
  · rintro ⟨t, ht, hend⟩
    have hmem := List.mem_map_of_mem (f := Spot.view) ht
    rw [run_view hr] at hmem
    obtain ⟨n, hn, hview⟩ := List.mem_map.1 hmem
    obtain ⟨w, rest, hs, rfl, hw⟩ := (lengths_matches hr _ n).1 hn
    have hlast : t.rest = rest := by rw [hrest hview.symm, hs, List.drop_left]
    refine ⟨w, rest, hs, hw, ?_⟩
    by_contra hno
    rw [hlast, if_neg hno] at hend
    exact hend rfl
  · rintro ⟨w, rest, hs, hw, hend⟩
    have hmem := List.mem_map_of_mem (f := shift s.view) ((lengths_matches hr _ _).2 ⟨w, rest, hs, rfl, hw⟩)
    rw [← run_view hr] at hmem
    obtain ⟨t, ht, hview⟩ := List.mem_map.1 hmem
    have hlast : t.rest = rest := by rw [hrest hview, hs, List.drop_left]
    refine ⟨t, ht, ?_⟩
    rw [hlast, if_pos hend]
    exact List.cons_ne_nil t []

/-! ## The first match of a search -/

theorem groupsAt_eq_none {r : Re} {prev : Option Char} {cs : List Char} :
    r.groupsAt prev cs = none ↔ r.run ⟨prev, cs, [], []⟩ = [] := by
  rw [groupsAt, Option.map_eq_none_iff, List.head?_eq_none_iff]

theorem groupsAt_classes (prev : Option Char) (cs : List Char) :
    (group (classes ps)).groupsAt prev cs = if fits ps cs then some [cs.take ps.length] else none := by
  have hrun := run_classes ps ⟨prev, cs, [], []⟩
  cases hfits : fits ps cs with
  | false =>
    rw [hfits, if_neg Bool.false_ne_true, List.map_eq_nil_iff] at hrun
    rw [if_neg Bool.false_ne_true, groupsAt_eq_none, run, hrun, List.map_nil]
  | true =>
    rw [hfits, if_pos rfl] at hrun
    have hhead : ((classes ps).run ⟨prev, cs, [], []⟩).head?.map (fun t => (t.rest, t.taken, t.groups)) =
        some (cs.drop ps.length, (cs.take ps.length).reverse ++ [], []) := by
      rw [← List.head?_map, hrun]
      rfl
    obtain ⟨t, ht, hview⟩ := Option.map_eq_some_iff.1 hhead
    rw [groupsAt, head?_group ht hview, if_pos rfl]
    rfl

theorem search_classes (text : List Char) :
    (group (classes ps)).search text = (text.tails.find? (fits ps)).map fun t => [t.take ps.length] := by
  have hfrom (prev : Option Char) : (group (classes ps)).searchFrom prev text =
      (text.tails.find? (fits ps)).map fun t => [t.take ps.length] := by
    induction text generalizing prev with
    | nil =>
      rw [searchFrom, groupsAt_classes, List.tails, List.find?_cons]
      cases fits ps [] <;> rfl
    | cons c text ih =>
      rw [searchFrom, groupsAt_classes, List.tails, List.find?_cons, ih]
      cases fits ps (c :: text) <;> rfl
  exact hfrom none

theorem sub_classes_of_none {ps : List (Char → Bool)} {replacement : List (List Char) → List Char} {text : List Char}
    (h : ∀ t, t <:+ text → fits ps t = false) : (classes ps).sub replacement text = text := by
  have hfrom (prev : Option Char) : subFrom (classes ps) replacement 0 prev text = text := by
    induction text generalizing prev with
    | nil => rfl
    | cons c text ih =>
      have hrun := run_classes ps ⟨prev, c :: text, [], []⟩
      rw [h _ (List.suffix_refl _), if_neg Bool.false_ne_true, List.map_eq_nil_iff] at hrun
      rw [subFrom, hrun, ih fun t ht => h t (ht.trans (List.suffix_cons c text))]
      rfl
  exact hfrom none

end Re

end Py
