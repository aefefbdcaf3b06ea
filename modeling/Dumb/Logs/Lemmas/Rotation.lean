import Mathlib.Data.List.Infix
import Dumb.Logs.Rotation
import Dumb.Lib.Shelf

/-!
# The names of rotated files

What the patterns read off the names that a log gives to its files.
-/

namespace Dumb.Logs

open Py Re

/-! ## Dates -/

variable {t : Chars}

theorem fits_append {ps : List (Char → Bool)} (h : ps.length ≤ t.length) (rest : Chars) :
    fits ps (t ++ rest) = fits ps t := by
  induction ps generalizing t with
  | nil => rfl
  | cons p ps ih =>
    cases t with
    | nil => cases h
    | cons c t => rw [List.cons_append, fits, fits, ih (Nat.le_of_succ_le_succ h)]

theorem length_of_fits {ps : List (Char → Bool)} (h : fits ps t = true) : ps.length ≤ t.length := by
  induction ps generalizing t with
  | nil => exact Nat.zero_le _
  | cons p ps ih =>
    cases t with
    | nil => cases h
    | cons c t =>
      rw [fits, Bool.and_eq_true] at h
      exact Nat.succ_le_succ (ih h.2)

theorem find?_tails {p : Chars → Bool} {post : Chars} (hpost : p post = true) (pre : Chars)
    (hpre : ∀ b, b <:+ pre → b ≠ [] → p (b ++ post) = false) : (pre ++ post).tails.find? p = some post := by
  induction pre with
  | nil =>
    cases post with
    | nil => simp [hpost]
    | cons c post => simp [List.tails, hpost]
  | cons c pre ih =>
    have hc := hpre (c :: pre) (List.suffix_refl _) (List.cons_ne_nil c pre)
    rw [List.cons_append] at hc ⊢
    rw [List.tails, List.find?_cons, hc]
    exact ih fun b hb => hpre b (hb.trans (List.suffix_cons c pre))

variable {digits : Digits}

variable (digits) in
def PlainBase (base : Chars) : Prop :=
  ∀ date, IsDate digits date → ∀ t, t <:+ base ++ '-' :: date → fits (dateShape digits) t = true → t = date

theorem isDate_example : IsDate digits ['2', '0', '2', '4', '-', '0', '1', '-', '0', '1'] := by
  have hdigit (c : Char) (hc : c.isDigit = true) : digits.is c = true := (digits.ascii c hc).1
  simp [IsDate, dateShape, fits, hdigit]

theorem suffix_append_of_suffix {a b c : Chars} (h : a <:+ b) : a ++ c <:+ b ++ c := by
  obtain ⟨pre, rfl⟩ := h
  exact ⟨pre, by simp⟩

variable {base date : Chars}

theorem PlainBase.not_fits (hbase : PlainBase digits base) (hdate : IsDate digits date) (rest : Chars) {b : Chars}
    (hb : b <:+ base ++ ['-']) (hne : b ≠ []) : fits (dateShape digits) (b ++ (date ++ rest)) = false := by
  have hlength : (dateShape digits).length ≤ (b ++ date).length := by
    rw [List.length_append, hdate.1]
    exact Nat.le_add_left _ _
  rw [← List.append_assoc, fits_append hlength]
  cases hfits : fits (dateShape digits) (b ++ date) with
  | false => rfl
  | true =>
    have hsuffix : b ++ date <:+ base ++ '-' :: date := by
      have h := suffix_append_of_suffix (c := date) hb
      simpa using h
    have hsame := hbase date hdate _ hsuffix hfits
    exact absurd (List.append_left_eq_self.1 hsame) hne

theorem firstDate_base (hbase : PlainBase digits base) (hdate : IsDate digits date) (rest : Chars) :
    firstDate digits (base ++ '-' :: (date ++ rest)) = some date := by
  have hfits : fits (dateShape digits) (date ++ rest) = true := by
    rw [fits_append (by rw [hdate.1]; rfl)]
    exact hdate.2
  have hfind := find?_tails hfits (base ++ ['-']) fun b hb hne => hbase.not_fits hdate rest hb hne
  have htext : base ++ ['-'] ++ (date ++ rest) = base ++ '-' :: (date ++ rest) := by simp
  rw [htext] at hfind
  rw [firstDate, search_classes, hfind]
  simp [dateShape, hdate.1]

theorem PlainBase.no_date (hbase : PlainBase digits base) (ht : t <:+ base) :
    fits (dateShape digits) t = false := by
  cases hfits : fits (dateShape digits) t with
  | false => rfl
  | true =>
    have hlength := length_of_fits hfits
    have hne : t ≠ [] := by
      rintro rfl
      cases hlength
    have hno := hbase.not_fits isDate_example [] (suffix_append_of_suffix (c := ['-']) ht) (by simp)
    rw [List.append_assoc, fits_append hlength, hfits] at hno
    cases hno

theorem firstDate_plain (hbase : PlainBase digits base) : firstDate digits base = none := by
  rw [firstDate, search_classes]
  have hnone : base.tails.find? (fits (dateShape digits)) = none := by
    rw [List.find?_eq_none]
    intro t ht
    rw [hbase.no_date ((List.mem_tails _ _).1 ht)]
    exact Bool.false_ne_true
  rw [hnone]
  rfl

theorem extractDate_rotated (hbase : PlainBase digits base) (hdate : IsDate digits date) (i : Nat) :
    extractDate digits (rotatedName base date i) = date := by
  rw [extractDate, rotatedName, firstDate_base hbase hdate]
  rfl

theorem plainBase_of_no_digit (h : ∀ c ∈ base, digits.is c = false) : PlainBase digits base := by
  intro date hdate t ht hfits
  cases t with
  | nil => cases hfits
  | cons c t =>
    have hc : digits.is c = true := by
      rw [dateShape, fits, Bool.and_eq_true] at hfits
      exact hfits.1
    have hlength := length_of_fits hfits
    obtain ⟨pre, hpre⟩ := ht
    rcases List.append_eq_append_iff.1 hpre with ⟨more, hbase, hrest⟩ | ⟨more, hpre', hrest⟩
    · cases more with
      | nil =>
        cases hrest
        rw [digits.dash] at hc
        cases hc
      | cons d more =>
        cases hrest
        rw [h c (by simp [hbase])] at hc
        cases hc
    · cases more with
      | nil =>
        cases hrest
        rw [digits.dash] at hc
        cases hc
      | cons d more =>
        obtain ⟨rfl, htail⟩ := List.cons.inj hrest
        have hdate' : date = more ++ c :: t := htail
        have hsum := congrArg List.length hdate'
        have hten : (dateShape digits).length = 10 := rfl
        rw [List.length_append, hdate.1] at hsum
        have hnil : more = [] := List.eq_nil_of_length_eq_zero (by omega)
        rw [hdate', hnil, List.nil_append]

theorem digit_of_repr {n : Nat} {c : Char} (h : c ∈ (Nat.repr n).toList) : digits.is c = true :=
  (digits.ascii c (repr_digits h)).1

theorem repr_ne_nil (n : Nat) : (Nat.repr n).toList ≠ [] := by
  rw [Nat.toList_repr]
  exact Nat.toDigits_ne_nil

/-! ## The names of one log -/

variable (digits) in
def OfLog (base name : Chars) : Prop :=
  ∃ date index rest, IsDate digits date ∧
    (index = [] ∨ ∃ ds, index = '_' :: ds ∧ ds ≠ [] ∧ ∀ c ∈ ds, digits.is c = true) ∧ (rest = [] ∨ rest = ['\n']) ∧
    name = base ++ '-' :: (date ++ (index ++ (dotLog ++ rest)))

theorem matchesBase_iff {name : Chars} : matchesBase digits base name = true ↔ OfLog digits base name := by
  have hplain : (seq (exactly base) (seq (classes ((· == '-') :: dateShape digits))
      (seq (opt (seq (exactly ['_']) (plus (char digits.is)))) (exactly dotLog)))).plain = true := by
    simp [plain, plain_classes, exactly, opt, plus]
  rw [matchesBase, Bool.not_eq_true', List.isEmpty_eq_false_iff, basePattern, run_seq_theEnd hplain]
  constructor
  · rintro ⟨w, rest, hname, ⟨u, v, rfl, hu, x, y, rfl, hx, a, b, rfl, ha, hb⟩, hrest⟩
    have hu : u = base := lang_exactly.1 hu
    have hb : b = dotLog := lang_exactly.1 hb
    subst hu hb
    obtain ⟨hlength, hfits⟩ := lang_classes.1 hx
    cases x with
    | nil => cases hlength
    | cons c date =>
      rw [fits, Bool.and_eq_true, beq_iff_eq] at hfits
      obtain ⟨rfl, hfits⟩ := hfits
      refine ⟨date, a, rest, ⟨Nat.succ.inj hlength, hfits⟩, ?_, hrest, ?_⟩
      · rcases ha with ⟨k, ds, rfl, hk, hds⟩ | ha
        · have hk : k = ['_'] := lang_exactly.1 hk
          subst hk
          exact .inr ⟨ds, rfl, lang_plus_char.1 hds⟩
        · exact .inl ha
      · simpa using hname
  · rintro ⟨date, index, rest, hdate, hindex, hrest, rfl⟩
    refine ⟨base ++ ('-' :: date ++ (index ++ dotLog)), rest, by simp, ⟨base, _, rfl, lang_exactly.2 rfl, _, _, rfl,
      lang_classes.2 ⟨congrArg Nat.succ hdate.1, ?_⟩, index, dotLog, rfl, ?_, lang_exactly.2 rfl⟩, hrest⟩
    · rw [fits, hdate.2]
      rfl
    · rcases hindex with rfl | ⟨ds, rfl, hds⟩
      · exact .inr rfl
      · exact .inl ⟨['_'], ds, rfl, lang_exactly.2 rfl, lang_plus_char.2 hds⟩

theorem ofLog_rotated (hdate : IsDate digits date) (i : Nat) : OfLog digits base (rotatedName base date i) :=
  ⟨date, '_' :: (Nat.repr i).toList, [], hdate, .inr ⟨_, rfl, repr_ne_nil i, fun _ hc => digit_of_repr hc⟩, .inl rfl,
    by simp [rotatedName]⟩

theorem rotatedName_inj {date' : Chars} {i j : Nat} (hdate : date.length = 10) (hdate' : date'.length = 10)
    (h : rotatedName base date i = rotatedName base date' j) : date = date' ∧ i = j := by
  have htail := (List.cons.inj (List.append_cancel_left h)).2
  obtain ⟨hd, hrest⟩ := List.append_inj htail (hdate.trans hdate'.symm)
  exact ⟨hd, repr_injective (List.append_cancel_right (List.cons.inj hrest).2)⟩

theorem rotated_ne_dated {date' : Chars} {i : Nat} (hdate : date.length = 10) (hdate' : date'.length = 10) :
    rotatedName base date i ≠ datedName base date' := by
  intro h
  have htail := (List.cons.inj (List.append_cancel_left h)).2
  obtain ⟨-, hrest⟩ := List.append_inj htail (hdate.trans hdate'.symm)
  cases hrest

/-! ## A rollover that meets no error

What it does to the names of the directory, operation by operation.
-/

/-! ## The order of dates -/

theorem textLe_refl (t : Chars) : textLe t t = true := by
  induction t with
  | nil => rfl
  | cons c t ih => simp [textLe, ih]

theorem textLe_total (s t : Chars) : textLe s t = true ∨ textLe t s = true := by
  induction s generalizing t with
  | nil => exact .inl rfl
  | cons c s ih =>
    cases t with
    | nil => exact .inr rfl
    | cons d t =>
      simp only [textLe, Bool.or_eq_true, decide_eq_true_eq, Bool.and_eq_true, beq_iff_eq]
      rcases Nat.lt_trichotomy c.toNat d.toNat with h | h | h
      · exact .inl (.inl h)
      · have hcd : c = d := Char.toNat_inj.1 h
        rcases ih t with ht | ht
        · exact .inl (.inr ⟨hcd, ht⟩)
        · exact .inr (.inr ⟨hcd.symm, ht⟩)
      · exact .inr (.inl h)

theorem textLe_antisymm (s t : Chars) (hst : textLe s t = true) (hts : textLe t s = true) : s = t := by
  induction s generalizing t with
  | nil =>
    cases t with
    | nil => rfl
    | cons d t => cases hts
  | cons c s ih =>
    cases t with
    | nil => cases hst
    | cons d t =>
      simp only [textLe, Bool.or_eq_true, decide_eq_true_eq, Bool.and_eq_true, beq_iff_eq] at hst hts
      rcases hst with h | ⟨rfl, h⟩
      · rcases hts with h' | ⟨rfl, -⟩ <;> omega
      · rcases hts with h' | ⟨-, h'⟩
        · omega
        · rw [ih t h h']

theorem textLe_trans (s t r : Chars) (hst : textLe s t = true) (htr : textLe t r = true) : textLe s r = true := by
  induction s generalizing t r with
  | nil => rfl
  | cons c s ih =>
    cases t with
    | nil => cases hst
    | cons d t =>
      cases r with
      | nil => cases htr
      | cons e r =>
        simp only [textLe, Bool.or_eq_true, decide_eq_true_eq, Bool.and_eq_true, beq_iff_eq] at hst htr ⊢
        rcases hst with h | ⟨rfl, h⟩
        · rcases htr with h' | ⟨rfl, -⟩
          · exact .inl (Nat.lt_trans h h')
          · exact .inl h
        · rcases htr with h' | ⟨rfl, h'⟩
          · exact .inl h'
          · exact .inr ⟨rfl, ih t r h h'⟩

/-! ## The names of a rollover -/

variable {digits : Digits} {base date : Chars}

theorem stemOf_append {c : Char} (hc : c ∈ t) (hdot : c ≠ '.') : stemOf (t ++ dotLog) = t := by
  have hrev : (t ++ dotLog).reverse = ['g', 'o', 'l'] ++ '.' :: t.reverse := by simp [dotLog]
  have hstem : (((t ++ dotLog).reverse.dropWhile (· != '.')).drop 1).reverse = t := by
    rw [hrev]
    simp
  rw [stemOf, hstem, if_neg]
  rw [List.all_eq_true]
  intro hall
  exact hdot (by simpa using hall c hc)

theorem stemOf_dated (base date : Chars) : stemOf (datedName base date) = base ++ '-' :: date := by
  have hname : datedName base date = (base ++ '-' :: date) ++ dotLog := by simp [datedName]
  rw [hname, stemOf_append (c := '-') (by simp) (by decide)]

theorem replace_date (hbase : PlainBase digits base) (hdate : IsDate digits date) {b : Chars} (hb : b <:+ base) :
    replaceFrom ('-' :: date) [] 0 (b ++ '-' :: date) = b := by
  have hskip (cs : Chars) (n : Nat) (hn : cs.length ≤ n) : replaceFrom ('-' :: date) [] n cs = [] := by
    induction cs generalizing n with
    | nil => cases n <;> rfl
    | cons c cs ih =>
      cases n with
      | zero => cases hn
      | succ n => exact ih n (Nat.le_of_succ_le_succ hn)
  induction b with
  | nil => simp [replaceFrom, hskip date date.length (Nat.le_refl _)]
  | cons c b ih =>
    have hno : ('-' :: date).isPrefixOf (c :: (b ++ '-' :: date)) = false := by
      cases hyes : ('-' :: date).isPrefixOf (c :: (b ++ '-' :: date)) with
      | false => rfl
      | true =>
        rw [List.isPrefixOf_cons_cons, Bool.and_eq_true, List.isPrefixOf_iff_prefix] at hyes
        obtain ⟨rest, hrest⟩ := hyes.2
        have hfits : fits (dateShape digits) (b ++ ['-'] ++ (date ++ [])) = true := by
          have htext : b ++ ['-'] ++ (date ++ []) = date ++ rest := by rw [hrest]; simp
          rw [htext, fits_append (by rw [hdate.1]; rfl)]
          exact hdate.2
        have hsuffix : b ++ ['-'] <:+ base ++ ['-'] :=
          suffix_append_of_suffix ((List.suffix_cons c b).trans hb)
        rw [hbase.not_fits hdate [] hsuffix (by simp)] at hfits
        cases hfits
    rw [List.cons_append, replaceFrom, hno, if_neg Bool.false_ne_true, ih ((List.suffix_cons c b).trans hb)]

theorem rolloverNames_dated (hbase : PlainBase digits base) (hdate : IsDate digits date) (now : Chars) :
    rolloverNames digits (base ++ '-' :: date) now = (base, date) := by
  have hfirst := firstDate_base hbase hdate []
  rw [List.append_nil] at hfirst
  rw [rolloverNames, hfirst]
  simp only
  rw [replace_date hbase hdate (List.suffix_refl base)]

theorem rolloverNames_plain (hbase : PlainBase digits base) (now : Chars) :
    rolloverNames digits base now = (base, now) := by
  rw [rolloverNames, firstDate_plain hbase]

theorem sub_date (hbase : PlainBase digits base) :
    sub (classes ((· == '-') :: dateShape digits)) (fun _ => []) base = base := by
  apply sub_classes_of_none
  intro t ht
  cases t with
  | nil => rfl
  | cons c t =>
    rw [fits, hbase.no_date ((List.suffix_cons c t).trans ht), Bool.and_false]

/-! ## The operations -/

section
variable {fails : Op → Bool} {w w' : LogHandler}

abbrev LogHandler.Distinct (w : LogHandler) : Prop := (Dict.keys w.files).Nodup

theorem remove_ok {name : Chars} (h : (remove fails name).run w = (.ok (), w')) :
    w' = { w with files := Dict.erase name w.files } := by
  simp only [remove, pathExists, Thread.run_read_bind, Thread.run_require_bind_ok, Thread.run_modify, Prod.mk.injEq,
    true_and] at h
  exact h.2.symm

theorem rename_ok {src dst : Chars} (h : (rename fails src dst).run w = (.ok (), w')) :
    ∃ file, Dict.get? src w.files = some file ∧
      w' = { w with files := Dict.set dst file (Dict.erase src w.files) } := by
  simp only [rename, Thread.run_read_bind, Thread.run_ofExcept_bind_ok, orRaise_ok, Thread.run_require_bind_ok,
    Thread.run_modify, Prod.mk.injEq, true_and] at h
  obtain ⟨file, hfile, -, hw⟩ := h
  exact ⟨file, hfile, hw.symm⟩

structure Replaced (src dst : Chars) (w w' : LogHandler) (file : File) : Prop where
  source : Dict.get? src w.files = some file
  rest : w' = { w with files := w'.files }
  names : ∀ q, Dict.get? q w'.files = if q = dst then some file else if q = src then none else Dict.get? q w.files
  distinct : w.Distinct → w'.Distinct

theorem replaceFile_ok {src dst : Chars} (hne : src ≠ dst) (h : (replaceFile fails src dst).run w = (.ok (), w')) :
    ∃ file, Replaced src dst w w' file := by
  have hmoved {w₁ : LogHandler} (hrest : w₁ = { w with files := w₁.files })
      (hfiles : ∀ q, q ≠ dst → Dict.get? q w₁.files = Dict.get? q w.files) (hdistinct : w.Distinct → w₁.Distinct)
      (h : (rename fails src dst).run w₁ = (.ok (), w')) : ∃ file, Replaced src dst w w' file := by
    obtain ⟨file, hfile, rfl⟩ := rename_ok h
    refine ⟨file, (hfiles src hne).symm.trans hfile, ?_, fun q => ?_, fun hw =>
      Dict.nodup_keys_set (Dict.nodup_keys_erase (hdistinct hw))⟩
    · rw [hrest]
    · by_cases hq : q = dst
      · subst hq
        rw [Dict.get?_set_self, if_pos rfl]
      · rw [Dict.get?_set_ne hq, Dict.get?_erase, if_neg hq, hfiles q hq]
  rw [replaceFile, pathExists, Thread.run_read_bind] at h
  cases htaken : (Dict.get? dst w.files).isSome with
  | false =>
    rw [htaken] at h
    exact hmoved rfl (fun _ _ => rfl) id h
  | true =>
    rw [htaken, if_pos rfl] at h
    obtain ⟨⟨⟩, w₁, hremove, h⟩ := Thread.run_bind_ok.1 h
    have hw₁ := remove_ok hremove
    subst hw₁
    apply hmoved rfl _ _ h
    · intro q hq
      rw [Dict.get?_erase, if_neg hq]
    · exact fun hw => Dict.nodup_keys_erase hw

theorem removeAll_ok {names : List Chars} (h : (removeAll fails names).run w = (.ok (), w')) :
    w' = { w with files := w'.files } ∧ (w.Distinct → w'.Distinct) ∧
      ∀ q, Dict.get? q w'.files = if q ∈ names then none else Dict.get? q w.files := by
  induction names generalizing w with
  | nil =>
    cases h
    exact ⟨rfl, id, fun q => by simp⟩
  | cons name names ih =>
    rw [removeAll] at h
    obtain ⟨⟨⟩, w₁, hremove, h⟩ := Thread.run_bind_ok.1 h
    have hw₁ := remove_ok hremove
    subst hw₁
    obtain ⟨hrest, hdistinct, hfiles⟩ := ih h
    refine ⟨hrest, fun hw => hdistinct (Dict.nodup_keys_erase hw), fun q => ?_⟩
    rw [hfiles q, Dict.get?_erase]
    by_cases hq : q = name
    · simp [hq]
    · simp [hq]

/-- The numbers up to `m` have been put up by one. -/
structure Renumbered (base date : Chars) (m : Nat) (w w' : LogHandler) : Prop where
  rest : w' = { w with files := w'.files }
  distinct : w.Distinct → w'.Distinct
  moved : ∀ i, i < m →
    Dict.get? (rotatedName base date (i + 2)) w'.files = Dict.get? (rotatedName base date (i + 1)) w.files
  first : 0 < m → Dict.get? (rotatedName base date 1) w'.files = none
  others : ∀ q, (0 < m → ∀ i, i ≤ m → q ≠ rotatedName base date (i + 1)) → Dict.get? q w'.files = Dict.get? q w.files

theorem renumber_ok (hdate : date.length = 10) {m : Nat} (h : (renumber fails base date m).run w = (.ok (), w'))
    (hgap : ∀ i, i < m → Dict.get? (rotatedName base date (i + 2)) w.files ≠ none →
      Dict.get? (rotatedName base date (i + 1)) w.files ≠ none) : Renumbered base date m w w' := by
  have hinj {i j : Nat} (hij : rotatedName base date i = rotatedName base date j) : i = j :=
    (rotatedName_inj hdate hdate hij).2
  induction m generalizing w with
  | zero =>
    cases h
    exact ⟨rfl, id, fun i hi => absurd hi (Nat.not_lt_zero i), fun hpos => absurd hpos (Nat.lt_irrefl 0), fun _ _ => rfl⟩
  | succ m ih =>
    rw [renumber, pathExists, Thread.run_read_bind] at h
    cases hfound : Dict.get? (rotatedName base date (m + 1)) w.files with
    | none =>
      -- Nothing has the highest of the numbers, so that nothing has the next one.
      rw [hfound] at h
      have hlast : Dict.get? (rotatedName base date (m + 2)) w.files = none := by
        by_contra hsome
        exact hgap m (Nat.lt_succ_self m) hsome hfound
      have hrest := ih h fun i hi => hgap i (Nat.lt_succ_of_lt hi)
      refine ⟨hrest.rest, hrest.distinct, fun i hi => ?_, fun _ => ?_, fun q hq =>
        hrest.others q fun _ i hi => hq (Nat.succ_pos m) i (Nat.le_succ_of_le hi)⟩
      · by_cases him : i = m
        · subst him
          rw [hrest.others _ fun _ j hj hij => by have := hinj hij; omega, hlast, hfound]
        · exact hrest.moved i (by omega)
      · cases m with
        | zero => rw [hrest.others _ fun hpos => absurd hpos (Nat.lt_irrefl 0), hfound]
        | succ m => exact hrest.first (Nat.succ_pos m)
    | some file =>
      rw [hfound, Option.isSome_some, if_pos rfl] at h
      obtain ⟨⟨⟩, w₁, hmove, h⟩ := Thread.run_bind_ok.1 h
      obtain ⟨file', hreplaced⟩ := replaceFile_ok (fun hij => absurd (hinj hij) (by omega)) hmove
      have hsame : file' = file := by
        have hsource := hreplaced.source
        rw [hfound] at hsource
        exact (Option.some.inj hsource).symm
      subst hsame
      have hbelow (i : Nat) (hi : i < m) :
          Dict.get? (rotatedName base date (i + 1)) w₁.files = Dict.get? (rotatedName base date (i + 1)) w.files := by
        rw [hreplaced.names, if_neg fun hij => absurd (hinj hij) (by omega),
          if_neg fun hij => absurd (hinj hij) (by omega)]
      have hsource : Dict.get? (rotatedName base date (m + 1)) w₁.files = none := by
        rw [hreplaced.names, if_neg fun hij => absurd (hinj hij) (by omega), if_pos rfl]
      have hrest := ih h fun i hi hsome => by
        by_cases him : i + 1 = m
        · subst him
          exact absurd hsource hsome
        · rw [hbelow (i + 1) (by omega)] at hsome
          rw [hbelow i hi]
          exact hgap i (Nat.lt_succ_of_lt hi) hsome
      refine ⟨?_, fun hw => hrest.distinct (hreplaced.distinct hw), fun i hi => ?_, fun _ => ?_, fun q hq => ?_⟩
      · rw [hrest.rest, hreplaced.rest]
      · by_cases him : i = m
        · subst him
          rw [hrest.others _ fun _ j hj hij => by have := hinj hij; omega, hreplaced.names, if_pos rfl, hfound]
        · rw [hrest.moved i (by omega), hbelow i (by omega)]
      · cases m with
        | zero => rw [hrest.others _ fun hpos => absurd hpos (Nat.lt_irrefl 0), hsource]
        | succ m => exact hrest.first (Nat.succ_pos m)
      · have hq := hq (Nat.succ_pos m)
        rw [hrest.others q fun _ i hi => hq i (Nat.le_succ_of_le hi), hreplaced.names, if_neg (hq (m + 1) (Nat.le_refl _)),
          if_neg (hq m (Nat.le_succ m))]

end

end Dumb.Logs
