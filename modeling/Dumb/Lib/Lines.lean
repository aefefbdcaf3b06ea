import Mathlib.Data.List.Basic
import Mathlib.Data.List.Chain
import Mathlib.Data.List.DropRight

/-!
# UTF-8 with replacement

`data.decode("utf-8", errors="replace")` as a machine that takes one byte at a time. Where a sequence breaks off, what
there is of it becomes one replacement character.
-/

namespace Py.Utf8

structure Pending where
  code : Nat
  missing : Nat
  low : Nat
  high : Nat

def replacement : Char := '\uFFFD'

def lead (b : Nat) : Option Pending :=
  if 0xC2 ≤ b ∧ b ≤ 0xDF then some ⟨b - 0xC0, 1, 0x80, 0xBF⟩
  else if b = 0xE0 then some ⟨0, 2, 0xA0, 0xBF⟩
  else if b = 0xED then some ⟨0xD, 2, 0x80, 0x9F⟩
  else if 0xE1 ≤ b ∧ b ≤ 0xEF then some ⟨b - 0xE0, 2, 0x80, 0xBF⟩
  else if b = 0xF0 then some ⟨0, 3, 0x90, 0xBF⟩
  else if 0xF1 ≤ b ∧ b ≤ 0xF3 then some ⟨b - 0xF0, 3, 0x80, 0xBF⟩
  else if b = 0xF4 then some ⟨4, 3, 0x80, 0x8F⟩
  else none

def begin (b : Nat) : List Char × Option Pending :=
  if b < 0x80 then ([Char.ofNat b], none)
  else match lead b with
    | some pending => ([], some pending)
    | none => ([replacement], none)

def step : Option Pending → Nat → List Char × Option Pending
  | none, b => begin b
  | some p, b =>
    if p.low ≤ b ∧ b ≤ p.high then
      let code := p.code * 64 + (b - 0x80)
      if p.missing = 1 then ([Char.ofNat code], none) else ([], some ⟨code, p.missing - 1, 0x80, 0xBF⟩)
    else (replacement :: (begin b).1, (begin b).2)

def after : Option Pending → List UInt8 → Option Pending
  | q, [] => q
  | q, b :: bs => after (step q b.toNat).2 bs

def decodeFrom : Option Pending → List UInt8 → List Char
  | none, [] => []
  | some _, [] => [replacement]
  | q, b :: bs => (step q b.toNat).1 ++ decodeFrom (step q b.toNat).2 bs

def decode (bs : List UInt8) : List Char := decodeFrom none bs

theorem decodeFrom_append {bs : List UInt8} (cs : List UInt8) {q : Option Pending} (h : after q bs = none) :
    decodeFrom q (bs ++ cs) = decodeFrom q bs ++ decode cs := by
  induction bs generalizing q with
  | nil =>
    rw [after] at h
    rw [h]
    rfl
  | cons b bs ih =>
    rw [after] at h
    simp only [List.cons_append, decodeFrom, ih h, List.append_assoc]

theorem decode_append {bs : List UInt8} (cs : List UInt8) (h : after none bs = none) :
    decode (bs ++ cs) = decode bs ++ decode cs := decodeFrom_append cs h

theorem decode_singleton (b : UInt8) : (decode [b]).length = 1 := by
  rw [decode, decodeFrom, step, begin]
  split
  · rfl
  · cases lead b.toNat with
    | none => rfl
    | some p => rfl

end Py.Utf8

/-! ## Lines and blanks

A text is a list of characters. It is cut after the characters that end a line, and `\r\n` is one end.
-/

namespace Py

abbrev Chars := List Char

def isSpace (c : Char) : Bool :=
  let n := c.toNat
  (9 ≤ n && n ≤ 13) || (28 ≤ n && n ≤ 32) || n = 0x85 || n = 0xa0 || n = 0x1680 || (0x2000 ≤ n && n ≤ 0x200a) ||
    n = 0x2028 || n = 0x2029 || n = 0x202f || n = 0x205f || n = 0x3000

def lstripWhile (p : Char → Bool) (cs : Chars) : Chars := cs.dropWhile p
def rstripWhile (p : Char → Bool) (cs : Chars) : Chars := cs.rdropWhile p

def stripSpace (cs : Chars) : Chars := rstripWhile isSpace (lstripWhile isSpace cs)

def cutsAfter (ends : Char → Bool) (c : Char) (next : Option Char) : Bool := ends c && !(c == '\r' && next == some '\n')

def linesBy (ends : Char → Bool) : Chars → List Chars
  | [] => []
  | c :: rest =>
    if cutsAfter ends c rest.head? then [c] :: linesBy ends rest
    else match linesBy ends rest with
      | [] => [[c]]
      | line :: lines => (c :: line) :: lines

def endsFileLine (c : Char) : Bool := c = '\n' || c = '\r'

def endsTextLine (c : Char) : Bool :=
  let n := c.toNat
  (10 ≤ n && n ≤ 13) || (28 ≤ n && n ≤ 30) || n = 0x85 || n = 0x2028 || n = 0x2029

def fileLines (text : Chars) : List Chars := linesBy endsFileLine text
def splitlines (text : Chars) : List Chars := linesBy endsTextLine text

/-! ## Stripping -/

theorem rstripWhile_append (p : Char → Bool) (cs : Chars) : ∃ tail, cs = rstripWhile p cs ++ tail ∧ ∀ c ∈ tail, p c = true := by
  refine ⟨cs.rtakeWhile p, ?_, fun c hc => List.mem_rtakeWhile_imp hc⟩
  rw [rstripWhile, List.rdropWhile, List.rtakeWhile, ← List.reverse_append, List.takeWhile_append_dropWhile, List.reverse_reverse]

variable {p : Char → Bool} {c : Char}

theorem rstripWhile_stops (hc : p c = false) (cs tail : Chars) :
    rstripWhile p (cs ++ c :: tail) = cs ++ c :: rstripWhile p tail := by
  rw [rstripWhile, rstripWhile]
  induction tail using List.reverseRecOn with
  | nil => rw [List.rdropWhile_concat_neg _ _ _ (by simp [hc]), List.rdropWhile_nil]
  | append_singleton tail d ih =>
    rw [← List.cons_append, ← List.append_assoc, List.rdropWhile_concat, List.rdropWhile_concat, ih]
    split <;> simp

theorem rstripWhile_keeps (hc : p c = false) (cs : Chars) {tail : Chars}
    (htail : ∀ d ∈ tail, p d = true) : rstripWhile p (cs ++ c :: tail) = cs ++ [c] := by
  rw [rstripWhile_stops hc, rstripWhile, List.rdropWhile_eq_nil_iff.2 htail]

theorem rstripWhile_append_all (cs : Chars) {tail : Chars} (h : ∀ c ∈ tail, p c = true) :
    rstripWhile p (cs ++ tail) = rstripWhile p cs := by
  rw [rstripWhile, rstripWhile]
  induction tail using List.reverseRecOn with
  | nil => rw [List.append_nil]
  | append_singleton tail c ih =>
    rw [← List.append_assoc, List.rdropWhile_concat_pos _ _ _ (h c (by simp)), ih fun d hd => h d (List.mem_append_left _ hd)]

theorem stripSpace_append (cs : Chars) {tail : Chars} (h : ∀ c ∈ tail, isSpace c = true) :
    stripSpace (cs ++ tail) = stripSpace cs := by
  rw [stripSpace, stripSpace, lstripWhile, lstripWhile, List.dropWhile_append]
  split
  · next hall =>
    rw [List.isEmpty_iff.1 hall, List.dropWhile_eq_nil_iff.2 h]
  · rw [rstripWhile_append_all _ h]

theorem stripSpace_sublist (cs : Chars) : (stripSpace cs).Sublist cs :=
  (List.rdropWhile_prefix isSpace _).sublist.trans (List.dropWhile_suffix isSpace).sublist

theorem stripSpace_ne_nil (hc : isSpace c = false) {cs : Chars} (hmem : c ∈ cs) : stripSpace cs ≠ [] := by
  intro hnil
  rw [stripSpace, rstripWhile, List.rdropWhile_eq_nil_iff] at hnil
  rw [← List.takeWhile_append_dropWhile (p := isSpace) (l := cs), List.mem_append] at hmem
  rcases hmem with hmem | hmem
  · rw [List.mem_takeWhile_imp hmem] at hc
    cases hc
  · rw [hnil c hmem] at hc
    cases hc

/-! ## Lines -/

section

variable {ends : Char → Bool}

theorem flatten_linesBy (text : Chars) : (linesBy ends text).flatten = text := by
  induction text with
  | nil => rfl
  | cons c rest ih =>
    rw [linesBy]
    split
    · rw [List.flatten_cons, ih]
      rfl
    · cases hlines : linesBy ends rest with
      | nil =>
        rw [hlines] at ih
        rw [← ih]
        rfl
      | cons line lines =>
        rw [hlines] at ih
        rw [← ih]
        rfl

theorem linesBy_ne_nil {text : Chars} (h : text ≠ []) : linesBy ends text ≠ [] := by
  intro hnone
  have hflat : (linesBy ends text).flatten = text := flatten_linesBy text
  rw [hnone] at hflat
  exact h hflat.symm

theorem linesBy_inner {line rest : Chars} (hline : ∀ c ∈ line, ends c = false) (hne : line ≠ []) :
    linesBy ends (line ++ rest) = match linesBy ends rest with
      | [] => [line]
      | l :: lines => (line ++ l) :: lines := by
  induction line with
  | nil => exact absurd rfl hne
  | cons c line ih =>
    have hc : ends c = false := hline c List.mem_cons_self
    rw [List.cons_append, linesBy, cutsAfter, hc, Bool.false_and, if_neg (by simp)]
    cases line with
    | nil => rw [List.nil_append]; rfl
    | cons d line =>
      rw [ih (fun e he => hline e (List.mem_cons_of_mem c he)) (by simp)]
      cases linesBy ends rest <;> rfl

theorem length_linesBy_append (a b : Chars) :
    (linesBy ends (a ++ b)).length ≤ (linesBy ends a).length + (linesBy ends b).length := by
  induction a with
  | nil => simp [linesBy]
  | cons c a ih =>
    have hjoin : ∀ text : Chars, (match linesBy ends text with
        | [] => [[c]]
        | line :: lines => (c :: line) :: lines).length = max 1 (linesBy ends text).length := by
      intro text
      cases linesBy ends text <;> simp
    rw [List.cons_append, linesBy, linesBy]
    cases a with
    | nil =>
      have hone : (if cutsAfter ends c ([] : Chars).head? = true then [c] :: linesBy ends [] else
          match linesBy ends [] with
          | [] => [[c]]
          | line :: lines => (c :: line) :: lines).length = 1 := by
        rw [linesBy]
        split <;> rfl
      rw [List.nil_append, hone]
      split
      · rw [List.length_cons]
        omega
      · rw [hjoin]
        omega
    | cons d a =>
      have hsome : linesBy ends (d :: a) ≠ [] := linesBy_ne_nil (by simp)
      have hpositive : 0 < (linesBy ends (d :: a)).length := List.length_pos_iff.2 hsome
      by_cases hcut : cutsAfter ends c (d :: a).head? = true
      · have hcut' : cutsAfter ends c (d :: a ++ b).head? = true := hcut
        rw [if_pos hcut, if_pos hcut', List.length_cons, List.length_cons]
        omega
      · have hcut' : ¬cutsAfter ends c (d :: a ++ b).head? = true := hcut
        rw [if_neg hcut, if_neg hcut', hjoin, hjoin]
        omega

end

/-! ## The lines of a file -/

def Inner (cs : Chars) : Prop := ∀ c ∈ cs, endsFileLine c = false

instance (cs : Chars) : Decidable (Inner cs) :=
  decidable_of_iff (cs.all fun c => !endsFileLine c) (by simp [Inner])

def lineEnds : List Chars := [['\n'], ['\r'], ['\r', '\n']]

def Piece (line : Chars) : Prop := ∃ body term, line = body ++ term ∧ Inner body ∧ (term = [] ∨ term ∈ lineEnds)

def Ended (line : Chars) : Prop := line.getLast? = some '\n' ∨ line.getLast? = some '\r'

instance (line : Chars) : Decidable (Ended line) := inferInstanceAs (Decidable (_ ∨ _))

def Follows (line next : Chars) : Prop := Ended line ∧ ¬(line.getLast? = some '\r' ∧ next.head? = some '\n')

structure Proper (lines : List Chars) : Prop where
  pieces : ∀ line ∈ lines, Piece line ∧ line ≠ []
  follows : lines.IsChain Follows

variable {line : Chars}

theorem ended_of_piece (h : Piece line) : Inner line ∨ Ended line := by
  obtain ⟨body, term, rfl, hbody, hterm⟩ := h
  rcases hterm with rfl | hterm
  · rw [List.append_nil]
    exact .inl hbody
  · right
    simp only [lineEnds, List.mem_cons, List.not_mem_nil, or_false] at hterm
    rcases hterm with rfl | rfl | rfl <;> simp [Ended]

theorem not_ended_of_inner (h : Inner line) : ¬Ended line := by
  rintro (hlast | hlast)
  · exact absurd (h _ (List.mem_of_getLast? hlast)) (by decide)
  · exact absurd (h _ (List.mem_of_getLast? hlast)) (by decide)

theorem Piece.prepend {front line : Chars} (hfront : Inner front) (h : Piece line) : Piece (front ++ line) := by
  obtain ⟨body, term, rfl, hbody, hterm⟩ := h
  refine ⟨front ++ body, term, (List.append_assoc _ _ _).symm, ?_, hterm⟩
  intro c hc
  rcases List.mem_append.1 hc with hc | hc
  · exact hfront c hc
  · exact hbody c hc

theorem Piece.tail {front line : Chars} (h : Piece (front ++ line)) : Piece line := by
  obtain ⟨body, term, hline, hbody, hterm⟩ := h
  rcases List.append_eq_append_iff.1 hline with ⟨more, rfl, rfl⟩ | ⟨more, rfl, rfl⟩
  · exact ⟨more, term, rfl, fun c hc => hbody c (List.mem_append_right _ hc), hterm⟩
  · -- The cut is inside of the end of the line.
    cases more with
    | nil => exact ⟨[], line, rfl, by simp [Inner], by simpa using hterm⟩
    | cons c more =>
      have hterm : c :: more ++ line ∈ lineEnds := by simpa using hterm
      have hline : line = [] ∨ line = ['\n'] := by
        simp only [lineEnds, List.mem_cons, List.not_mem_nil, or_false, List.cons_append, List.cons.injEq,
          List.append_eq_nil_iff, List.append_eq_singleton_iff] at hterm
        rcases hterm with ⟨-, -, hline⟩ | ⟨-, -, hline⟩ | ⟨-, ⟨-, hline⟩ | ⟨-, hline⟩⟩ <;> simp [hline]
      rcases hline with rfl | rfl
      · exact ⟨[], [], rfl, by simp [Inner], .inl rfl⟩
      · exact ⟨[], ['\n'], rfl, by simp [Inner], .inr (by simp [lineEnds])⟩

theorem piece_newline (h : Inner line) : Piece (line ++ ['\n']) := ⟨line, _, rfl, h, .inr (by simp [lineEnds])⟩

theorem fileLines_cons {line rest : Chars} (hline : Piece line) (hended : Ended line)
    (hnext : ¬(line.getLast? = some '\r' ∧ rest.head? = some '\n')) :
    fileLines (line ++ rest) = line :: fileLines rest := by
  obtain ⟨body, term, rfl, hbody, hterm⟩ := hline
  have hterm : term ∈ lineEnds := by
    rcases hterm with rfl | hterm
    · rw [List.append_nil] at hended
      exact absurd hended (not_ended_of_inner hbody)
    · exact hterm
  have hcut : fileLines (term ++ rest) = term :: fileLines rest := by
    simp only [lineEnds, List.mem_cons, List.not_mem_nil, or_false] at hterm
    rcases hterm with rfl | rfl | rfl
    · simp [fileLines, linesBy, cutsAfter, endsFileLine]
    · have hhead : rest.head? ≠ some '\n' := fun h => hnext ⟨by simp, h⟩
      simp [fileLines, linesBy, cutsAfter, endsFileLine, hhead]
    · simp [fileLines, linesBy, cutsAfter, endsFileLine]
  cases body with
  | nil => exact hcut
  | cons c body =>
    rw [List.append_assoc, fileLines, linesBy_inner hbody (by simp)]
    rw [fileLines] at hcut
    rw [hcut, fileLines]

theorem fileLines_inner (hline : Inner line) (hne : line ≠ []) : fileLines line = [line] := by
  have h : linesBy endsFileLine (line ++ []) = [line] := linesBy_inner hline hne
  rw [List.append_nil] at h
  exact h

theorem fileLines_piece (hline : Piece line) (hne : line ≠ []) : fileLines line = [line] := by
  rcases ended_of_piece hline with hinner | hended
  · exact fileLines_inner hinner hne
  · have h : fileLines (line ++ []) = line :: fileLines [] := fileLines_cons hline hended (by simp)
    rw [List.append_nil] at h
    exact h

theorem fileLines_flatten {lines : List Chars} (h : Proper lines) : fileLines lines.flatten = lines := by
  induction lines with
  | nil => rfl
  | cons line rest ih =>
    obtain ⟨hpiece, hne⟩ := h.pieces line List.mem_cons_self
    have hrest : Proper rest := ⟨fun l hl => h.pieces l (List.mem_cons_of_mem line hl), h.follows.tail⟩
    rw [List.flatten_cons]
    cases rest with
    | nil => rw [List.flatten_nil, List.append_nil, fileLines_piece hpiece hne]
    | cons next rest =>
      obtain ⟨hended, hnext⟩ := h.follows.rel_head? (show next ∈ (next :: rest).head? from rfl)
      have hhead : (next :: rest).flatten.head? = next.head? := by
        cases next with
        | nil => exact absurd rfl (hrest.pieces [] List.mem_cons_self).2
        | cons c next => rfl
      rw [fileLines_cons hpiece hended (by rwa [hhead]), ih hrest]

theorem proper_cons {lines : List Chars} (hc : endsFileLine c = false) (h : Proper (line :: lines)) :
    Proper ((c :: line) :: lines) := by
  obtain ⟨⟨body, term, rfl, hbody, hterm⟩, hne⟩ := h.pieces line List.mem_cons_self
  have hlast : (c :: (body ++ term)).getLast? = (body ++ term).getLast? := by
    cases hline : body ++ term with
    | nil => exact absurd hline hne
    | cons d rest => rfl
  constructor
  · intro l hl
    rcases List.mem_cons.1 hl with rfl | hl
    · refine ⟨⟨c :: body, term, rfl, ?_, hterm⟩, by simp⟩
      intro d hd
      rcases List.mem_cons.1 hd with rfl | hd
      · exact hc
      · exact hbody d hd
    · exact h.pieces l (List.mem_cons_of_mem _ hl)
  · apply h.follows.imp_head
    intro next hnext
    rw [Follows, Ended, hlast]
    exact hnext

theorem proper_fileLines (text : Chars) : Proper (fileLines text) := by
  induction text with
  | nil => exact ⟨by simp [fileLines, linesBy], by simp [fileLines, linesBy]⟩
  | cons c rest ih =>
    rw [fileLines] at ih
    rw [fileLines, linesBy]
    have hflat : (linesBy endsFileLine rest).flatten = rest := flatten_linesBy rest
    have hsingle : endsFileLine c = true → Piece [c] := by
      intro hc
      refine ⟨[], [c], rfl, by simp [Inner], .inr ?_⟩
      simp only [endsFileLine, Bool.or_eq_true, decide_eq_true_eq] at hc
      rcases hc with rfl | rfl <;> simp [lineEnds]
    cases hlines : linesBy endsFileLine rest with
    | nil =>
      have hone : Piece [c] := by
        by_cases hc : endsFileLine c = true
        · exact hsingle hc
        · exact ⟨[c], [], rfl, by simpa [Inner] using hc, .inl rfl⟩
      have hproper : Proper [[c]] := ⟨by simp [hone], by simp⟩
      split <;> exact hproper
    | cons line lines =>
      rw [hlines] at ih hflat
      have hhead : rest.head? = line.head? := by
        rw [← hflat]
        cases line with
        | nil => exact absurd rfl (ih.pieces [] List.mem_cons_self).2
        | cons d line => rfl
      by_cases hcut : cutsAfter endsFileLine c rest.head? = true
      · -- The character is a line of its own.
        rw [if_pos hcut]
        simp only [cutsAfter, Bool.and_eq_true, Bool.not_eq_true', Bool.and_eq_false_iff] at hcut
        refine ⟨?_, ?_⟩
        · intro l hl
          rcases List.mem_cons.1 hl with rfl | hl
          · exact ⟨hsingle hcut.1, by simp⟩
          · exact ih.pieces l hl
        · apply ih.follows.cons
          intro next hnext
          obtain rfl : line = next := by simpa using hnext
          refine ⟨?_, ?_⟩
          · have hc := hcut.1
            simp only [endsFileLine, Bool.or_eq_true, decide_eq_true_eq] at hc
            simpa [Ended] using hc
          · rintro ⟨hlast, hfirst⟩
            rw [← hhead] at hfirst
            have hcr : c = '\r' := by simpa using hlast
            rcases hcut.2 with hother | hother
            · simp [hcr] at hother
            · simp [hfirst] at hother
      · rw [if_neg hcut]
        by_cases hc : endsFileLine c = true
        · -- It is the first of two characters of an end.
          obtain ⟨rfl, hfirst⟩ : c = '\r' ∧ rest.head? = some '\n' := by simpa [cutsAfter, hc] using hcut
          rw [hhead] at hfirst
          obtain ⟨⟨body, term, hline, hbody, hterm⟩, hne⟩ := ih.pieces line List.mem_cons_self
          have hbodyNil : body = [] := by
            cases body with
            | nil => rfl
            | cons d body =>
              rw [hline] at hfirst
              obtain rfl : d = '\n' := by simpa using hfirst
              exact absurd (hbody '\n' List.mem_cons_self) (by decide)
          subst hbodyNil
          rw [List.nil_append] at hline
          subst hline
          have hterm : line = ['\n'] := by
            simp only [lineEnds, List.mem_cons, List.not_mem_nil, or_false] at hterm
            rcases hterm with rfl | rfl | rfl | rfl <;> simp_all
          subst hterm
          refine ⟨?_, ih.follows.imp_head fun hnext => ?_⟩
          · intro l hl
            rcases List.mem_cons.1 hl with rfl | hl
            · exact ⟨⟨[], _, rfl, by simp [Inner], .inr (by simp [lineEnds])⟩, by simp⟩
            · exact ih.pieces l (List.mem_cons_of_mem _ hl)
          · exact hnext
        · exact proper_cons (by simpa using hc) ih

theorem length_fileLines_broken {before after : List Chars} (hbefore : ∀ l ∈ before, Piece l)
    (hline : Inner line) (hlineNe : line ≠ []) (hafter : ∀ l ∈ after, Piece l ∧ l ≠ []) (hne : after ≠ []) :
    (fileLines (before ++ line :: after).flatten).length < (before ++ line :: after).length := by
  have hpieces : ∀ lines : List Chars, (∀ l ∈ lines, Piece l) → (fileLines lines.flatten).length ≤ lines.length := by
    intro lines
    induction lines with
    | nil => intro _; rfl
    | cons l lines ih =>
      intro hlines
      have hone : (fileLines l).length ≤ 1 := by
        by_cases hl : l = []
        · rw [hl]
          exact Nat.zero_le 1
        · rw [fileLines_piece (hlines l List.mem_cons_self) hl]
          exact Nat.le_refl 1
      have hrest := ih fun m hm => hlines m (List.mem_cons_of_mem l hm)
      have hjoin : (fileLines (l ++ lines.flatten)).length ≤ (fileLines l).length + (fileLines lines.flatten).length :=
        length_linesBy_append l lines.flatten
      rw [List.flatten_cons, List.length_cons]
      omega
  have hjoined : (fileLines (line ++ after.flatten)).length = (fileLines after.flatten).length := by
    have hsome : fileLines after.flatten ≠ [] := by
      apply linesBy_ne_nil
      cases after with
      | nil => exact absurd rfl hne
      | cons l after => simp [(hafter l List.mem_cons_self).2]
    rw [fileLines] at hsome ⊢
    rw [linesBy_inner hline hlineNe, fileLines]
    cases hlines : linesBy endsFileLine after.flatten with
    | nil => exact absurd hlines hsome
    | cons l lines => rfl
  have hall := hpieces after fun l hl => (hafter l hl).1
  have hfirst := hpieces before hbefore
  have hjoin : (fileLines (before.flatten ++ (line ++ after.flatten))).length ≤
      (fileLines before.flatten).length + (fileLines (line ++ after.flatten)).length :=
    length_linesBy_append before.flatten (line ++ after.flatten)
  rw [List.flatten_append, List.flatten_cons, List.length_append, List.length_cons]
  omega

end Py
