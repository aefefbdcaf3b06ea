import Dumb.Postgres.Conf

/-!
# Lines of postgresql.conf

What a line that is parsed is made of, and what the line with another value is read as.
-/

namespace Dumb.Postgres.Conf

open Py

/-! ## Ends of lines -/

theorem chomp_crlf (body : Chars) : chomp (body ++ ['\r', '\n']) = (body, ['\r', '\n']) := by
  simp [chomp]

theorem chomp_lf {body : Chars} (h : body.getLast? ≠ some '\r') : chomp (body ++ ['\n']) = (body, ['\n']) := by
  rw [chomp, List.reverse_append]
  cases hbody : body.reverse with
  | nil =>
    obtain rfl : body = [] := List.reverse_eq_nil_iff.1 hbody
    rfl
  | cons c rest =>
    have hlast : body.getLast? = some c := by rw [← List.head?_reverse, hbody]; rfl
    have hc : c ≠ '\r' := fun hc => h (by rw [hlast, hc])
    have hback : body = (c :: rest).reverse := by rw [← hbody, List.reverse_reverse]
    simp [hc, hback]

variable {line : Chars}

theorem chomp_none (h : line.getLast? ≠ some '\n') : chomp line = (line, []) := by
  rw [chomp]
  cases hline : line.reverse with
  | nil => rfl
  | cons c rest =>
    have hlast : line.getLast? = some c := by rw [← List.head?_reverse, hline]; rfl
    have hc : c ≠ '\n' := fun hc => h (by rw [hlast, hc])
    split <;> simp_all

inductive Chomped : Chars → Chars → Prop
  | crlf (body : Chars) : Chomped body ['\r', '\n']
  | lf {body : Chars} (h : body.getLast? ≠ some '\r') : Chomped body ['\n']
  | none {body : Chars} (h : body.getLast? ≠ some '\n') : Chomped body []

variable {body newline : Chars}

theorem Chomped.eq (h : Chomped body newline) : chomp (body ++ newline) = (body, newline) := by
  cases h with
  | crlf => exact chomp_crlf body
  | lf h => exact chomp_lf h
  | none h =>
    rw [List.append_nil]
    exact chomp_none h

theorem chomped (line : Chars) : ∃ body newline, chomp line = (body, newline) ∧ line = body ++ newline ∧ Chomped body newline := by
  by_cases hlf : line.getLast? = some '\n'
  · obtain ⟨front, rfl⟩ := List.getLast?_eq_some_iff.1 hlf
    by_cases hcr : front.getLast? = some '\r'
    · obtain ⟨body, rfl⟩ := List.getLast?_eq_some_iff.1 hcr
      rw [List.append_assoc]
      exact ⟨body, _, chomp_crlf body, rfl, .crlf body⟩
    · exact ⟨front, _, chomp_lf hcr, rfl, .lf hcr⟩
  · exact ⟨line, [], chomp_none hlf, by rw [List.append_nil], .none hlf⟩

/-! ## Parts of a line -/

def Separator (separator : Chars) (equals : Bool) : Prop :=
  if equals then ∃ left right, separator = left ++ '=' :: right ∧ (∀ c ∈ left, isBlank c) ∧ ∀ c ∈ right, isBlank c
  else separator ≠ [] ∧ ∀ c ∈ separator, isBlank c

def Suffix (suffix : Chars) : Prop :=
  ∃ blanks comment, suffix = blanks ++ comment ∧ (∀ c ∈ blanks, isBlank c) ∧ (comment = [] ∨ comment.head? = some '#')

structure Parsed.Wf (parsed : Parsed) : Prop where
  indent : ∀ c ∈ parsed.indent, isBlank c
  key : settingKey parsed.key
  separator : ∃ equals, Separator parsed.separator equals
  value : parsed.rawValue ≠ []
  suffix : Suffix parsed.suffix
  chomped : Chomped (parsed.indent ++ parsed.key ++ parsed.separator ++ parsed.rawValue ++ parsed.suffix) parsed.newline

theorem scan_append (quoted odd : Bool) (value : Chars) :
    (scan quoted odd value).1 ++ (scan quoted odd value).2.1 = value := by
  fun_induction scan quoted odd value with
  | case1 => rfl
  | case2 _ rest scanned ih => rw [List.cons_append, List.cons_append, ih]
  | case3 => rfl
  | case4 _ _ _ _ _ _ _ scanned ih => rw [List.cons_append, ih]

theorem scan_comment (quoted odd : Bool) (value : Chars) :
    (scan quoted odd value).2.1 = [] ∨ (scan quoted odd value).2.1.head? = some '#' := by
  fun_induction scan quoted odd value with
  | case1 => exact .inl rfl
  | case2 _ rest scanned ih => exact ih
  | case3 _ _ c rest _ hc =>
    right
    simp only [Bool.and_eq_true, decide_eq_true_eq] at hc
    rw [List.head?_cons, hc.1]
  | case4 _ _ _ _ _ _ _ scanned ih => exact ih

theorem separatorOf_spec {tail separator : Chars} (h : separatorOf tail = some separator) :
    (∃ equals, Separator separator equals) ∧ ∃ value, tail = separator ++ value := by
  have hblanks : ∀ {cs : Chars}, ∀ c ∈ cs.takeWhile isBlank, isBlank c = true := fun c hc =>
    List.all_eq_true.1 List.all_takeWhile c hc
  have htail : tail.takeWhile isBlank ++ tail.dropWhile isBlank = tail := List.takeWhile_append_dropWhile
  rw [separatorOf] at h
  split at h
  · next rest hrest =>
    obtain rfl := Option.some.inj h
    refine ⟨⟨true, tail.takeWhile isBlank, rest.takeWhile isBlank, rfl, hblanks, hblanks⟩, rest.dropWhile isBlank, ?_⟩
    rw [List.append_assoc, List.cons_append, List.takeWhile_append_dropWhile, ← hrest, htail]
  · split at h
    · cases h
    · next hne =>
      obtain rfl := Option.some.inj h
      exact ⟨⟨false, by simpa using hne, hblanks⟩, tail.dropWhile isBlank, htail.symm⟩

theorem splitValueComment_spec (value : Chars) :
    value = (splitValueComment value).1 ++ (splitValueComment value).2.1 ∧ Suffix (splitValueComment value).2.1 := by
  obtain ⟨blanks, hbefore, hblanks⟩ := rstripWhile_append isBlank (scan false false value).1
  have hvalue := scan_append false false value
  have hsplit : value = rstripWhile isBlank (scan false false value).1 ++ (blanks ++ (scan false false value).2.1) := by
    rw [← List.append_assoc, ← hbefore, hvalue]
  have hsuffix : (splitValueComment value).2.1 = blanks ++ (scan false false value).2.1 := by
    exact (congrArg (List.drop (rstripWhile isBlank (scan false false value).1).length) hsplit).trans List.drop_left
  rw [hsuffix]
  exact ⟨hsplit, blanks, _, rfl, hblanks, scan_comment false false value⟩

variable {parsed : Parsed}

theorem parseSettingLine_spec (h : parseSettingLine line = .ok (some parsed)) :
    parsed.Wf ∧ line = parsed.withValue parsed.key parsed.rawValue := by
  obtain ⟨body, newline, hchomp, hline, hchomped⟩ := chomped line
  rw [parseSettingLine, hchomp] at h
  dsimp only at h
  split at h
  · cases h
  · split at h
    · cases h
    · next c rest hrest =>
      split at h
      · cases h
      · next hc =>
        split at h
        · cases h
        · next separator hseparator =>
          split at h
          · cases h
          · next hvalue =>
            split at h
            · cases h
            · next hopen =>
              obtain rfl := Option.some.inj (Except.ok.inj h)
              obtain ⟨hsep, value, htail⟩ := separatorOf_spec hseparator
              obtain ⟨hsplit, hsuffix⟩ := splitValueComment_spec value
              rw [htail, List.drop_left] at hvalue ⊢
              have hbody : body = body.takeWhile isBlank ++ (c :: rest.takeWhile keyChar) ++ separator ++
                  (splitValueComment value).1 ++ (splitValueComment value).2.1 := by
                have hwhole : body.takeWhile isBlank ++ c :: rest = body := by
                  rw [← hrest, List.takeWhile_append_dropWhile]
                have hkey : rest.takeWhile keyChar ++ rest.dropWhile keyChar = rest := List.takeWhile_append_dropWhile
                rw [List.append_assoc _ (splitValueComment value).1, ← hsplit, List.append_assoc _ separator, ← htail,
                  List.append_assoc, List.cons_append, hkey, hwhole]
              refine ⟨⟨?_, ?_, hsep, ?_, hsuffix, ?_⟩, ?_⟩
              · exact fun d hd => List.all_eq_true.1 List.all_takeWhile d hd
              · rw [settingKey, Bool.and_eq_true]
                exact ⟨by simpa using hc, List.all_takeWhile⟩
              · simpa using hvalue
              · exact hbody ▸ hchomped
              · rw [hline]
                exact congrArg (· ++ newline) hbody

/-! ## Characters -/

variable {c : Char}

theorem blank_space (h : isBlank c = true) : isSpace c = true := by
  simp only [isBlank, Bool.or_eq_true, decide_eq_true_eq] at h
  rcases h with rfl | rfl <;> decide

theorem keyStart_range (h : keyStart c = true) :
    65 ≤ c.toNat ∧ c.toNat ≤ 122 ∧ c.toNat ≠ 92 := by
  simp only [keyStart, Bool.or_eq_true, Bool.and_eq_true, decide_eq_true_eq] at h
  rcases h with (⟨hlow, hhigh⟩ | ⟨hlow, hhigh⟩) | rfl
  · have h1 : 65 ≤ c.toNat := hlow
    have h2 : c.toNat ≤ 90 := hhigh
    omega
  · have h1 : 97 ≤ c.toNat := hlow
    have h2 : c.toNat ≤ 122 := hhigh
    omega
  · decide

theorem bareChar_range (h : bareChar c = true) :
    43 ≤ c.toNat ∧ c.toNat ≤ 122 ∧ c.toNat ≠ 61 ∧ c.toNat ≠ 92 := by
  simp only [bareChar, keyChar, Bool.or_eq_true, Bool.and_eq_true, decide_eq_true_eq] at h
  rcases h with ((((hstart | ⟨hlow, hhigh⟩) | rfl) | rfl) | rfl) | rfl
  · have := keyStart_range hstart
    omega
  · have h1 : 48 ≤ c.toNat := hlow
    have h2 : c.toNat ≤ 57 := hhigh
    omega
  all_goals decide

theorem isSpace_false (hlow : 33 ≤ c.toNat) (hhigh : c.toNat ≤ 126) : isSpace c = false := by
  simp only [isSpace]
  simp
  omega

theorem keyChar_bare (h : keyChar c = true) : bareChar c = true := by simp [bareChar, h]

theorem not_blank (h : isSpace c = false) : isBlank c = false := by
  by_contra hblank
  rw [Bool.not_eq_false] at hblank
  rw [blank_space hblank] at h
  cases h

variable {value : Chars}

theorem bareValue_chars (h : bareValue value = true) : value ≠ [] ∧ ∀ c ∈ value, bareChar c = true := by
  rw [bareValue, Bool.and_eq_true, List.all_eq_true] at h
  exact ⟨by simpa using h.1, h.2⟩

theorem bareChar_visible (h : bareChar c = true) : isSpace c = false := by
  have := bareChar_range h
  exact isSpace_false (by omega) (by omega)

theorem bareChar_ne {c d : Char} (h : bareChar c = true)
    (hd : d.toNat < 43 ∨ 122 < d.toNat ∨ d.toNat = 61 ∨ d.toNat = 92) : c ≠ d := by
  rintro rfl
  have := bareChar_range h
  omega

/-! ## A line with another value -/

theorem run_of {p : Char → Bool} {run : Chars} (hrun : ∀ d ∈ run, p d = true) (hc : p c = false) (rest : Chars) :
    (run ++ c :: rest).takeWhile p = run ∧ (run ++ c :: rest).dropWhile p = c :: rest := by
  rw [List.takeWhile_append_of_pos hrun, List.dropWhile_append_of_pos hrun, List.takeWhile_cons_of_neg (by simp [hc]),
    List.dropWhile_cons_of_neg (by simp [hc]), List.append_nil]
  exact ⟨rfl, rfl⟩

variable {rest : Chars}

theorem separatorOf_append {separator : Chars} {equals : Bool} (h : Separator separator equals)
    (hblank : isBlank c = false) (hequals : c ≠ '=') : separatorOf (separator ++ c :: rest) = some separator := by
  cases equals with
  | true =>
    obtain ⟨left, right, rfl, hleft, hright⟩ := h
    obtain ⟨h1, h2⟩ := run_of hleft (show isBlank '=' = false by decide) (right ++ c :: rest)
    rw [List.append_assoc, List.cons_append, separatorOf, h1, h2]
    show some (left ++ '=' :: (right ++ c :: rest).takeWhile isBlank) = _
    rw [(run_of hright hblank rest).1]
  | false =>
    obtain ⟨hne, hblanks⟩ := h
    obtain ⟨h1, h2⟩ := run_of hblanks hblank rest
    rw [separatorOf, h1, h2]
    split
    · next more hmore =>
      obtain ⟨rfl, -⟩ := List.cons.inj hmore
      exact absurd rfl hequals
    · rw [if_neg (by simpa using hne)]

theorem separator_head {separator : Chars} {equals : Bool} (h : Separator separator equals) :
    ∃ c rest, separator = c :: rest ∧ keyChar c = false := by
  have hblank : ∀ {c : Char}, isBlank c = true → keyChar c = false := by
    intro c hc
    simp only [isBlank, Bool.or_eq_true, decide_eq_true_eq] at hc
    rcases hc with rfl | rfl <;> decide
  cases equals with
  | true =>
    obtain ⟨left, right, rfl, hleft, -⟩ := h
    cases left with
    | nil => exact ⟨'=', right, rfl, by decide⟩
    | cons c left => exact ⟨c, _, rfl, hblank (hleft c List.mem_cons_self)⟩
  | false =>
    obtain ⟨hne, hblanks⟩ := h
    cases separator with
    | nil => exact absurd rfl hne
    | cons c rest => exact ⟨c, rest, rfl, hblank (hblanks c List.mem_cons_self)⟩

theorem parseSettingLine_withValue (hparsed : parsed.Wf) {formatted : Chars}
    (hblank : isBlank c = false) (hequals : c ≠ '=')
    (hchomped : Chomped (parsed.indent ++ parsed.key ++ parsed.separator ++ c :: formatted ++ parsed.suffix) parsed.newline) :
    parseSettingLine (parsed.withValue parsed.key (c :: formatted)) =
      let value := splitValueComment (c :: formatted ++ parsed.suffix)
      if value.1.isEmpty then .error (.noValue parsed.key)
      else if value.2.2 then .error (.unterminated parsed.key)
      else .ok (some { parsed with rawValue := value.1, suffix := value.2.1 }) := by
  obtain ⟨equals, hsep⟩ := hparsed.separator
  have hkey := hparsed.key
  have hindent := hparsed.indent
  obtain ⟨indent, key, separator, rawValue, suffix, newline⟩ := parsed
  dsimp only at *
  cases key with
  | nil => cases hkey
  | cons k name =>
    rw [settingKey, Bool.and_eq_true] at hkey
    obtain ⟨hstart, hchars⟩ := hkey
    have hrange := keyStart_range hstart
    have hkspace : isSpace k = false := isSpace_false (by omega) (by omega)
    obtain ⟨d, more, hd, hdkey⟩ := separator_head hsep
    -- The body, cut where the key and the separator end.
    have hbody : indent ++ k :: name ++ separator ++ c :: formatted ++ suffix =
        indent ++ k :: (name ++ (separator ++ c :: (formatted ++ suffix))) := by simp
    have hname := run_of (List.all_eq_true.1 hchars) hdkey (more ++ c :: (formatted ++ suffix))
    rw [← List.cons_append, ← hd] at hname
    have hstrip := run_of (fun e he => blank_space (hindent e he)) hkspace (name ++ (separator ++ c :: (formatted ++ suffix)))
    have hrun := run_of hindent (not_blank hkspace) (name ++ (separator ++ c :: (formatted ++ suffix)))
    rw [Parsed.withValue, parseSettingLine, hchomped.eq]
    dsimp only
    rw [hbody, lstripWhile, hstrip.2, hrun.1, hrun.2]
    have hcomment : ¬(((k :: (name ++ (separator ++ c :: (formatted ++ suffix)))).isEmpty ||
        decide ((k :: (name ++ (separator ++ c :: (formatted ++ suffix)))).head? = some '#')) = true) := by
      have hne : k ≠ '#' := bareChar_ne (keyChar_bare (by simp [keyChar, hstart])) (by decide)
      simp [hne]
    rw [if_neg hcomment]
    dsimp only
    rw [if_neg (by simp [hstart]), hname.1, hname.2, separatorOf_append hsep hblank hequals]
    dsimp only
    rw [List.drop_left]
    rfl

/-! ## Quoting -/

theorem scan_step {quoted : Bool} (h : quoted = true → c = '\'' → rest.head? ≠ some '\'')
    (odd : Bool) (hcomment : c = '#' → quoted = true) : scan quoted odd (c :: rest) =
      (c :: (scan (if c = '\'' && !odd then !quoted else quoted) (c = '\\' && !odd) rest).1,
        (scan (if c = '\'' && !odd then !quoted else quoted) (c = '\\' && !odd) rest).2) := by
  have hstop : ¬(c = '#' && !quoted) = true := by
    by_cases h : c = '#'
    · simp [h, hcomment h]
    · simp [h]
  rw [scan]
  · rw [if_neg hstop]
  · rintro rest' rfl rfl rfl
    exact h rfl rfl rfl

theorem scan_other (hc : c ≠ '\'') (quoted odd : Bool) (hcomment : c = '#' → quoted = true) (rest : Chars) :
    scan quoted odd (c :: rest) =
      (c :: (scan quoted (c = '\\' && !odd) rest).1, (scan quoted (c = '\\' && !odd) rest).2) := by
  have hsame : (if c = '\'' && !odd then !quoted else quoted) = quoted := by simp [hc]
  rw [scan_step (fun _ h => absurd h hc) odd hcomment, hsame]

theorem scan_doubled (odd : Bool) (rest : Chars) : scan true odd ('\'' :: '\'' :: rest) =
    ('\'' :: '\'' :: (scan true false rest).1, (scan true false rest).2) := by
  rw [scan]

theorem doubled_quote (value rest : Chars) :
    ('\'' :: value).flatMap doubled ++ rest = '\'' :: '\'' :: (value.flatMap doubled ++ rest) := rfl

theorem doubled_other (h : c ≠ '\'') (value rest : Chars) :
    (c :: value).flatMap doubled ++ rest = c :: (value.flatMap doubled ++ rest) := by
  rw [List.flatMap_cons, doubled, if_neg h]
  rfl

theorem scan_quoted (value : Chars) (odd : Bool) (rest : Chars) :
    ∃ more, (scan true odd (value.flatMap doubled ++ '\'' :: rest)).1 = value.flatMap doubled ++ '\'' :: more := by
  induction value generalizing odd with
  | nil =>
    rw [List.flatMap_nil, List.nil_append]
    by_cases hnext : rest.head? = some '\''
    · obtain ⟨more, rfl⟩ := List.head?_eq_some_iff.1 hnext
      exact ⟨_, by rw [scan_doubled]; rfl⟩
    · exact ⟨_, by rw [scan_step (fun _ _ => hnext) odd (by decide)]; rfl⟩
  | cons c value ih =>
    by_cases hc : c = '\''
    · subst hc
      obtain ⟨more, hmore⟩ := ih false
      refine ⟨more, ?_⟩
      rw [doubled_quote, doubled_quote, scan_doubled, hmore]
    · obtain ⟨more, hmore⟩ := ih (c = '\\' && !odd)
      refine ⟨more, ?_⟩
      rw [doubled_other hc, doubled_other hc, scan_other hc true odd (fun _ => rfl), hmore]

theorem scan_closed {odd : Bool} (hempty : value = [] → odd = false) (hlast : value.getLast? ≠ some '\\')
    (hrest : rest.head? ≠ some '\'') : scan true odd (value.flatMap doubled ++ '\'' :: rest) =
      (value.flatMap doubled ++ '\'' :: (scan false false rest).1, (scan false false rest).2) := by
  induction value generalizing odd with
  | nil =>
    obtain rfl := hempty rfl
    rw [List.flatMap_nil, List.nil_append, scan_step (fun _ _ => hrest) false (by decide)]
    rfl
  | cons c value ih =>
    have hlast' : value.getLast? ≠ some '\\' := by
      cases value with
      | nil => simp
      | cons d value => exact hlast
    by_cases hc : c = '\''
    · subst hc
      rw [doubled_quote, doubled_quote, scan_doubled, ih (fun _ => rfl) hlast']
    · have hodd : value = [] → (decide (c = '\\') && !odd) = false := by
        rintro rfl
        have hne : c ≠ '\\' := fun h => hlast (by rw [h]; rfl)
        simp [hne]
      rw [doubled_other hc, doubled_other hc, scan_other hc true odd (fun _ => rfl), ih hodd hlast']

theorem scan_bare (hvalue : ∀ c ∈ value, bareChar c = true) (rest : Chars) :
    scan false false (value ++ rest) = (value ++ (scan false false rest).1, (scan false false rest).2) := by
  induction value with
  | nil => rfl
  | cons c value ih =>
    have hbare := hvalue c List.mem_cons_self
    have hquote : c ≠ '\'' := bareChar_ne hbare (by decide)
    have hcomment : c ≠ '#' := bareChar_ne hbare (by decide)
    have hback : c ≠ '\\' := bareChar_ne hbare (by decide)
    rw [List.cons_append, scan_other hquote false false (fun h => absurd h hcomment), decide_eq_false hback, Bool.false_and,
      ih fun d hd => hvalue d (List.mem_cons_of_mem c hd)]
    rfl

theorem scan_suffix {suffix : Chars} (h : Suffix suffix) :
    ∃ blanks comment, suffix = blanks ++ comment ∧ (∀ c ∈ blanks, isBlank c = true) ∧
      scan false false suffix = (blanks, comment, false) := by
  obtain ⟨blanks, comment, rfl, hblanks, hcomment⟩ := h
  refine ⟨blanks, comment, rfl, hblanks, ?_⟩
  induction blanks with
  | nil =>
    rw [List.nil_append]
    rcases hcomment with rfl | hcomment
    · rfl
    · obtain ⟨rest, rfl⟩ := List.head?_eq_some_iff.1 hcomment
      rw [scan]
      · rfl
      · simp
  | cons c blanks ih =>
    have hblank := hblanks c List.mem_cons_self
    have hne : c ≠ '\'' ∧ c ≠ '#' ∧ c ≠ '\\' := by
      refine ⟨?_, ?_, ?_⟩ <;> rintro rfl <;> exact absurd hblank (by decide)
    rw [List.cons_append, scan_other hne.1 false false (fun h => absurd h hne.2.1), decide_eq_false hne.2.2, Bool.false_and,
      ih fun d hd => hblanks d (List.mem_cons_of_mem c hd)]

theorem suffix_head {suffix : Chars} (h : Suffix suffix) : suffix.head? ≠ some '\'' := by
  obtain ⟨blanks, comment, rfl, hblanks, hcomment⟩ := h
  cases blanks with
  | nil =>
    rcases hcomment with rfl | hcomment
    · simp
    · rw [List.nil_append, hcomment]
      decide
  | cons c blanks =>
    intro h
    obtain rfl : c = '\'' := by simpa using h
    exact absurd (hblanks '\'' List.mem_cons_self) (by decide)

theorem splitValueComment_quoted (value suffix : Chars) :
    ∃ more, (splitValueComment (quoted value ++ suffix)).1 = quoted value ++ more := by
  have hform : quoted value ++ suffix = '\'' :: (value.flatMap doubled ++ '\'' :: suffix) := by simp [quoted]
  obtain ⟨more, hmore⟩ := scan_quoted value false suffix
  have hopened : (if ('\'' = '\'' && !false) = true then !false else false) = true := rfl
  have heven : (decide ('\'' = '\\') && !false) = false := rfl
  refine ⟨rstripWhile isBlank more, ?_⟩
  rw [splitValueComment, hform, scan_step (by simp) false (by decide), hopened, heven, hmore]
  show rstripWhile isBlank ('\'' :: value.flatMap doubled ++ '\'' :: more) = _
  rw [rstripWhile_stops (by decide)]
  simp [quoted]

theorem splitValueComment_format {value suffix : Chars} (preferQuoted : Bool) (hlast : value.getLast? ≠ some '\\')
    (hsuffix : Suffix suffix) :
    splitValueComment (formatValue value preferQuoted ++ suffix) = (formatValue value preferQuoted, suffix, false) := by
  obtain ⟨blanks, comment, hparts, hblanks, hscan⟩ := scan_suffix hsuffix
  have hformat : ∃ front c, formatValue value preferQuoted = front ++ [c] ∧ isBlank c = false ∧
      scan false false (formatValue value preferQuoted ++ suffix) =
        (formatValue value preferQuoted ++ blanks, comment, false) := by
    rw [formatValue]
    split
    · refine ⟨'\'' :: value.flatMap doubled, '\'', rfl, by decide, ?_⟩
      rw [quoted, List.cons_append, List.append_assoc, scan_step (by simp) false (by decide)]
      have hclosed : scan true false (value.flatMap doubled ++ '\'' :: suffix) = _ :=
        scan_closed (fun _ => rfl) hlast (suffix_head hsuffix)
      rw [hscan] at hclosed
      have hopened : (if ('\'' = '\'' && !false) = true then !false else false) = true := rfl
      have heven : (decide ('\'' = '\\') && !false) = false := rfl
      rw [List.singleton_append, hopened, heven, hclosed]
      simp
    · next hbare =>
      have hvalue : bareValue value = true := by
        simp only [Bool.or_eq_true, Bool.not_eq_true', not_or] at hbare
        simpa using hbare.2
      obtain ⟨hback, hchars⟩ := bareValue_chars hvalue
      refine ⟨value.dropLast, value.getLast hback, (List.dropLast_concat_getLast hback).symm, ?_, ?_⟩
      · exact not_blank (bareChar_visible (hchars _ (List.getLast_mem hback)))
      · rw [scan_bare hchars, hscan]
  obtain ⟨front, c, hfront, hc, hwhole⟩ := hformat
  rw [splitValueComment, hwhole]
  dsimp only
  have hraw : rstripWhile isBlank (formatValue value preferQuoted ++ blanks) = formatValue value preferQuoted := by
    rw [hfront, List.append_assoc, List.singleton_append, rstripWhile_keeps hc front hblanks]
  rw [hraw, List.drop_left]

/-! ## Decoding -/

theorem decodeFrom_other (hquote : c ≠ '\'') (hback : c = '\\' → rest.head? ≠ some '\'') :
    decodeFrom (c :: rest) = (decodeFrom rest).map (c :: ·) := by
  rw [decodeFrom]
  · simp [hquote]
  · simp [hquote]
  · rintro more rfl rfl
    exact hback rfl rfl

theorem decodeFrom_doubled (rest : Chars) : decodeFrom ('\'' :: '\'' :: rest) = (decodeFrom rest).map ('\'' :: ·) := by
  rw [decodeFrom]

theorem decodeFrom_close (h : rest.head? ≠ some '\'') :
    decodeFrom ('\'' :: rest) = if (stripSpace rest).isEmpty then .ok [] else .error .afterQuote := by
  rw [decodeFrom]
  rintro more rfl
  exact h rfl

theorem decodeFrom_escaped (rest : Chars) :
    decodeFrom ('\\' :: '\'' :: rest) = (decodeFrom rest).map fun cs => '\\' :: '\'' :: cs := by
  rw [decodeFrom]

theorem decodeFrom_clean (h : clean value = true) :
    decodeFrom (value.flatMap doubled ++ ['\'']) = .ok value := by
  induction value with
  | nil => rfl
  | cons c value ih =>
    rw [clean, Bool.and_eq_true] at h
    obtain ⟨hc, hrest⟩ := h
    by_cases hquote : c = '\''
    · subst hquote
      rw [doubled_quote, decodeFrom_doubled, ih hrest]
      rfl
    · have hhead : c = '\\' → (value.flatMap doubled ++ ['\'']).head? ≠ some '\'' := by
        rintro rfl
        cases value with
        | nil => simp at hc
        | cons d value =>
          have hd : d ≠ '\'' := by simpa using hc
          rw [doubled_other hd]
          simp [hd]
      rw [doubled_other hquote, decodeFrom_other hquote hhead, ih hrest]
      rfl

theorem decodeFrom_shifted (value more : Chars) :
    decodeFrom ('\'' :: (value.flatMap doubled ++ '\'' :: more)) ≠ .ok value := by
  induction value with
  | nil =>
    rw [List.flatMap_nil, List.nil_append, decodeFrom_doubled]
    simp [map_ok_iff]
  | cons c value ih =>
    by_cases hquote : c = '\''
    · subst hquote
      rw [doubled_quote, decodeFrom_doubled]
      simpa [map_ok_iff] using ih
    · rw [doubled_other hquote, decodeFrom_close (by simpa using hquote)]
      split <;> simp

theorem decodeFrom_shifted_end (value read : Chars) :
    decodeFrom ('\'' :: (value.flatMap doubled ++ ['\''])) ≠ .ok read := by
  induction value generalizing read with
  | nil => simp [decodeFrom_doubled, decodeFrom, Except.map]
  | cons c value ih =>
    by_cases hquote : c = '\''
    · subst hquote
      rw [doubled_quote, decodeFrom_doubled]
      simp [map_ok_iff, ih]
    · rw [doubled_other hquote, decodeFrom_close (by simpa using hquote)]
      have hkept : stripSpace (c :: (value.flatMap doubled ++ ['\''])) ≠ [] :=
        stripSpace_ne_nil (show isSpace '\'' = false by decide) (by simp)
      simp [hkept]

theorem clean_rest {value more : Chars} (h : clean (c :: value) = false)
    (hback : ¬(c = '\\' ∧ (value.flatMap doubled ++ '\'' :: more).head? = some '\'')) : clean value = false := by
  rw [clean, Bool.and_eq_false_iff] at h
  rcases h with h | h
  · refine absurd ?_ hback
    cases value with
    | nil => simpa using h
    | cons d value =>
      obtain ⟨rfl, rfl⟩ : c = '\\' ∧ d = '\'' := by simpa using h
      exact ⟨rfl, by rw [doubled_quote]; rfl⟩
  · exact h

theorem decodeFrom_unclean (h : clean value = false) (more : Chars) :
    decodeFrom (value.flatMap doubled ++ '\'' :: more) ≠ .ok value := by
  induction value with
  | nil => cases h
  | cons c value ih =>
    by_cases hback : c = '\\' ∧ (value.flatMap doubled ++ '\'' :: more).head? = some '\''
    · obtain ⟨rfl, hhead⟩ := hback
      obtain ⟨rest, hrest⟩ := List.head?_eq_some_iff.1 hhead
      rw [doubled_other (by decide), hrest, decodeFrom_escaped, ne_eq, map_ok_iff]
      rintro ⟨read, hread, heq⟩
      cases value with
      | nil => simp at heq
      | cons d value =>
        obtain ⟨rfl, rfl⟩ : '\'' = d ∧ read = value := by simpa using heq
        rw [doubled_quote] at hrest
        obtain rfl := (List.cons.inj hrest).2
        exact decodeFrom_shifted read more hread
    · have hrest := clean_rest h hback
      by_cases hquote : c = '\''
      · subst hquote
        rw [doubled_quote, decodeFrom_doubled]
        simpa [map_ok_iff] using ih hrest
      · rw [doubled_other hquote, decodeFrom_other hquote fun hc hhead => hback ⟨hc, hhead⟩]
        simpa [map_ok_iff] using ih hrest

theorem decodeFrom_unclean_end (h : clean value = false) (read : Chars) :
    decodeFrom (value.flatMap doubled ++ ['\'']) ≠ .ok read := by
  induction value generalizing read with
  | nil => cases h
  | cons c value ih =>
    by_cases hback : c = '\\' ∧ (value.flatMap doubled ++ ['\'']).head? = some '\''
    · obtain ⟨rfl, hhead⟩ := hback
      obtain ⟨rest, hrest⟩ := List.head?_eq_some_iff.1 hhead
      rw [doubled_other (by decide), hrest, decodeFrom_escaped, ne_eq, map_ok_iff]
      rintro ⟨inner, hread, -⟩
      cases value with
      | nil =>
        obtain rfl : rest = [] := by simpa using hrest.symm
        cases hread
      | cons d value =>
        by_cases hd : d = '\''
        · subst hd
          rw [doubled_quote] at hrest
          obtain rfl := (List.cons.inj hrest).2
          exact decodeFrom_shifted_end value inner hread
        · rw [doubled_other hd] at hrest
          exact hd (List.cons.inj hrest).1
    · have hrest := clean_rest h hback
      by_cases hquote : c = '\''
      · subst hquote
        rw [doubled_quote, decodeFrom_doubled]
        simpa [map_ok_iff] using fun inner hinner => absurd hinner (ih hrest inner)
      · rw [doubled_other hquote, decodeFrom_other hquote fun hc hhead => hback ⟨hc, hhead⟩]
        simpa [map_ok_iff] using fun inner hinner => absurd hinner (ih hrest inner)

/-- What is decoded is a part of the text, is shorter, and does not end with a backslash. -/
structure Decoded (text value : Chars) : Prop where
  mem : ∀ c ∈ value, c ∈ text
  length : value.length < text.length
  last : value.getLast? ≠ some '\\'
  empty : value = [] → text.head? = some '\''

theorem Decoded.cons {text value : Chars} (h : Decoded text value) (hc : value = [] → c ≠ '\\') :
    Decoded (c :: text) (c :: value) := by
  refine ⟨?_, by simpa using h.length, ?_, by simp⟩
  · intro d hd
    rcases List.mem_cons.1 hd with rfl | hd
    · exact List.mem_cons_self
    · exact List.mem_cons_of_mem _ (h.mem d hd)
  · cases value with
    | nil => simpa using hc rfl
    | cons d value => exact h.last

theorem Decoded.skip {c d : Char} {text value : Chars} (h : Decoded text (d :: value)) : Decoded (c :: text) (d :: value) :=
  ⟨fun e he => List.mem_cons_of_mem c (h.mem e he), Nat.lt_succ_of_lt h.length, h.last, by simp⟩

theorem decodeFrom_spec {text value : Chars} (h : decodeFrom text = .ok value) : Decoded text value := by
  fun_induction decodeFrom text generalizing value with
  | case1 => cases h
  | case2 rest ih =>
    obtain ⟨inner, hinner, rfl⟩ := map_ok_iff.1 h
    exact ((ih hinner).cons fun _ => by decide).skip
  | case3 rest _ hclosed =>
    obtain rfl := Except.ok.inj h
    exact ⟨by simp, by simp, by simp, fun _ => rfl⟩
  | case4 rest hopen => cases h
  | case5 rest ih =>
    obtain ⟨inner, hinner, rfl⟩ := map_ok_iff.1 h
    exact ((ih hinner).cons fun _ => by decide).cons (by simp)
  | case6 c rest _ _ hescaped ih =>
    obtain ⟨inner, hinner, rfl⟩ := map_ok_iff.1 h
    refine (ih hinner).cons ?_
    rintro rfl rfl
    obtain ⟨more, rfl⟩ := List.head?_eq_some_iff.1 ((ih hinner).empty rfl)
    exact hescaped more rfl rfl

/-! ## Reading a line with another value -/

theorem decodeValue_quoted (value more : Chars) : decodeValue (quoted value ++ more) =
    (decodeFrom (value.flatMap doubled ++ '\'' :: rstripWhile isSpace more)).map (·, true) := by
  have hstrip : stripSpace (quoted value ++ more) = '\'' :: (value.flatMap doubled ++ '\'' :: rstripWhile isSpace more) := by
    have hform : quoted value ++ more = '\'' :: value.flatMap doubled ++ '\'' :: more := by simp [quoted]
    rw [hform, stripSpace, lstripWhile, List.cons_append, List.dropWhile_cons_of_neg (by decide), ← List.cons_append,
      rstripWhile_stops (by decide), List.cons_append]
  rw [decodeValue, hstrip]
  rfl

theorem decodeValue_bare (h : bareValue value = true) : decodeValue value = .ok (value, false) := by
  obtain ⟨hne, hchars⟩ := bareValue_chars h
  have hstrip : stripSpace value = value := by
    have hfront : lstripWhile isSpace value = value := by
      cases value with
      | nil => rfl
      | cons c value =>
        exact List.dropWhile_cons_of_neg (by simp [bareChar_visible (hchars c List.mem_cons_self)])
    rw [stripSpace, hfront, rstripWhile, List.rdropWhile_eq_self_iff]
    intro hlast
    simp [bareChar_visible (hchars _ (List.getLast_mem hlast))]
  have hquote : '\'' ∉ value := fun hmem => absurd (hchars _ hmem) (by decide)
  rw [decodeValue, hstrip]
  split
  · next rest => exact absurd List.mem_cons_self hquote
  · rw [if_neg hquote]

theorem formatValue_head (value : Chars) (preferQuoted : Bool) :
    ∃ c rest, formatValue value preferQuoted = c :: rest ∧ isBlank c = false ∧ c ≠ '=' := by
  rw [formatValue]
  split
  · exact ⟨'\'', _, rfl, by decide, by decide⟩
  · next hbare =>
    have hvalue : bareValue value = true := by
      simp only [Bool.or_eq_true, Bool.not_eq_true', not_or] at hbare
      simpa using hbare.2
    obtain ⟨hne, hchars⟩ := bareValue_chars hvalue
    cases value with
    | nil => exact absurd rfl hne
    | cons c rest =>
      have hc := hchars c List.mem_cons_self
      exact ⟨c, rest, rfl, not_blank (bareChar_visible hc), bareChar_ne hc (by decide)⟩

theorem formatValue_inner (h : Inner value) (preferQuoted : Bool) : Inner (formatValue value preferQuoted) := by
  rw [formatValue]
  split
  · intro c hc
    rw [quoted] at hc
    simp only [List.mem_cons, List.mem_append, List.mem_flatMap, List.not_mem_nil, or_false] at hc
    rcases hc with rfl | ⟨d, hd, hc⟩ | rfl
    · decide
    · rw [doubled] at hc
      split at hc
      · obtain rfl : c = '\'' := by simpa using hc
        decide
      · obtain rfl : c = d := by simpa using hc
        exact h c hd
    · decide
  · exact h

theorem Chomped.format {front raw formatted suffix newline : Chars} (h : Chomped (front ++ raw ++ suffix) newline)
    (hformatted : Inner formatted) (hne : formatted ≠ []) : Chomped (front ++ formatted ++ suffix) newline := by
  have hlast : (front ++ formatted ++ suffix).getLast? = (front ++ raw ++ suffix).getLast? ∨
      ∃ c, (front ++ formatted ++ suffix).getLast? = some c ∧ endsFileLine c = false := by
    cases hsuffix : suffix.getLast? with
    | none =>
      obtain rfl := List.getLast?_eq_none_iff.1 hsuffix
      right
      refine ⟨formatted.getLast hne, ?_, hformatted _ (List.getLast_mem hne)⟩
      rw [List.append_nil, List.getLast?_append_of_ne_nil _ hne, List.getLast?_eq_some_getLast hne]
    | some c =>
      left
      simp [List.getLast?_append, hsuffix]
  cases h with
  | crlf => exact .crlf _
  | lf h =>
    apply Chomped.lf
    rcases hlast with hlast | ⟨c, hlast, hc⟩
    · rwa [hlast]
    · rintro hcr
      obtain rfl := Option.some.inj (hlast.symm.trans hcr)
      cases hc
  | none h =>
    apply Chomped.none
    rcases hlast with hlast | ⟨c, hlast, hc⟩
    · rwa [hlast]
    · rintro hlf
      obtain rfl := Option.some.inj (hlast.symm.trans hlf)
      cases hc

theorem Parsed.Wf.chomp (h : parsed.Wf) (hvalue : Inner value) (preferQuoted : Bool) :
    Chomped (parsed.indent ++ parsed.key ++ parsed.separator ++ formatValue value preferQuoted ++ parsed.suffix)
      parsed.newline := by
  obtain ⟨c, rest, hhead, -, -⟩ := formatValue_head value preferQuoted
  apply h.chomped.format (formatValue_inner hvalue preferQuoted)
  rw [hhead]
  simp

theorem parseSettingLine_format (h : parsed.Wf) (hvalue : Inner value)
    (hlast : value.getLast? ≠ some '\\') (preferQuoted : Bool) :
    parseSettingLine (parsed.withValue parsed.key (formatValue value preferQuoted)) =
      .ok (some { parsed with rawValue := formatValue value preferQuoted }) := by
  have hchomp := h.chomp hvalue preferQuoted
  have hsplit := splitValueComment_format preferQuoted hlast h.suffix
  obtain ⟨c, rest, hhead, hblank, hequals⟩ := formatValue_head value preferQuoted
  rw [hhead] at hchomp hsplit ⊢
  rw [parseSettingLine_withValue h hblank hequals hchomp, hsplit]
  rfl

theorem readLine_of_parsed (h : parseSettingLine line = .ok (some parsed)) :
    readLine line = (decodeValue parsed.rawValue).map fun read => some (parsed.key, read.1) := by
  rw [readLine, h]
  show decodeValue parsed.rawValue >>= _ = _
  cases decodeValue parsed.rawValue <;> rfl

theorem clean_last (h : clean value = true) : value.getLast? ≠ some '\\' := by
  induction value with
  | nil => simp
  | cons c value ih =>
    rw [clean, Bool.and_eq_true] at h
    cases value with
    | nil => simpa using h.1
    | cons d value => exact ih h.2

theorem bareValue_clean (h : bareValue value = true) : clean value = true := by
  obtain ⟨-, hchars⟩ := bareValue_chars h
  induction value with
  | nil => rfl
  | cons c value ih =>
    have hc : c ≠ '\\' := bareChar_ne (hchars c List.mem_cons_self) (by decide)
    cases value with
    | nil => simp [clean, hc]
    | cons d value => simp_all [clean, bareValue]

theorem decodeValue_format (h : clean value = true) (preferQuoted : Bool) :
    ∃ wasQuoted, decodeValue (formatValue value preferQuoted) = .ok (value, wasQuoted) := by
  rw [formatValue]
  split
  · refine ⟨true, ?_⟩
    have hread := decodeValue_quoted value []
    rw [List.append_nil, rstripWhile, List.rdropWhile_nil, decodeFrom_clean h] at hread
    exact hread
  · next hbare =>
    simp only [Bool.or_eq_true, Bool.not_eq_true', not_or, Bool.not_eq_false] at hbare
    exact ⟨false, decodeValue_bare hbare.2⟩

theorem readLine_clean (h : parsed.Wf) (hvalue : Inner value) (hclean : clean value = true)
    (preferQuoted : Bool) :
    readLine (parsed.withValue parsed.key (formatValue value preferQuoted)) = .ok (some (parsed.key, value)) := by
  obtain ⟨wasQuoted, hread⟩ := decodeValue_format hclean preferQuoted
  rw [readLine_of_parsed (parseSettingLine_format h hvalue (clean_last hclean) preferQuoted), hread]
  rfl

theorem readLine_format (h : parsed.Wf) (hvalue : Inner value) {preferQuoted : Bool}
    {read : Option (Chars × Chars)}
    (hread : readLine (parsed.withValue parsed.key (formatValue value preferQuoted)) = .ok read) :
    ∃ got, read = some (parsed.key, got) ∧ (clean value = false → got ≠ value ∧ value.getLast? = some '\\') := by
  cases hclean : clean value with
  | true =>
    rw [readLine_clean h hvalue hclean] at hread
    exact ⟨value, (Except.ok.inj hread).symm, by simp⟩
  | false =>
    have hquoted : formatValue value preferQuoted = quoted value := by
      rw [formatValue, if_pos]
      simp only [Bool.or_eq_true, Bool.not_eq_true', or_iff_not_imp_right, Bool.not_eq_false]
      intro hbare
      rw [bareValue_clean hbare] at hclean
      cases hclean
    by_cases hlast : value.getLast? = some '\\'
    · have hchomp := h.chomp hvalue preferQuoted
      obtain ⟨more, hmore⟩ := splitValueComment_quoted value parsed.suffix
      rw [hquoted] at hread hchomp
      have hparse : parseSettingLine (parsed.withValue parsed.key (quoted value)) =
          if (splitValueComment (quoted value ++ parsed.suffix)).1.isEmpty then .error (.noValue parsed.key)
          else if (splitValueComment (quoted value ++ parsed.suffix)).2.2 then .error (.unterminated parsed.key)
          else .ok (some { parsed with
            rawValue := (splitValueComment (quoted value ++ parsed.suffix)).1
            suffix := (splitValueComment (quoted value ++ parsed.suffix)).2.1 }) :=
        parseSettingLine_withValue h (show isBlank '\'' = false by decide) (show '\'' ≠ '=' by decide) hchomp
      rw [hmore, if_neg (by simp [quoted])] at hparse
      split at hparse
      · rw [readLine, hparse] at hread
        cases hread
      · rw [readLine_of_parsed hparse, map_ok_iff] at hread
        obtain ⟨got, hgot, rfl⟩ := hread
        dsimp only at hgot
        rw [decodeValue_quoted, map_ok_iff] at hgot
        obtain ⟨inner, hinner, rfl⟩ := hgot
        refine ⟨inner, rfl, fun _ => ⟨?_, hlast⟩⟩
        rintro rfl
        exact decodeFrom_unclean hclean _ hinner
    · rw [readLine_of_parsed (parseSettingLine_format h hvalue hlast preferQuoted), hquoted, map_ok_iff] at hread
      obtain ⟨got, hgot, -⟩ := hread
      have hdecode := decodeValue_quoted value []
      rw [List.append_nil, rstripWhile, List.rdropWhile_nil] at hdecode
      dsimp only at hgot
      rw [hdecode, map_ok_iff] at hgot
      obtain ⟨inner, hinner, -⟩ := hgot
      exact absurd hinner (decodeFrom_unclean_end hclean inner)

/-! ## Ended lines -/

theorem parseSettingLine_newline (h : Chomped body newline) (hopen : body.getLast? ≠ some '\n') :
    parseSettingLine (body ++ newline) = (parseSettingLine body).map (·.map fun parsed => { parsed with newline := newline }) := by
  rw [parseSettingLine, parseSettingLine, h.eq, chomp_none hopen]
  dsimp only
  split
  · rfl
  · split
    · rfl
    · split
      · rfl
      · split
        · rfl
        · split
          · rfl
          · split <;> rfl

theorem readLine_newline (h : Chomped body newline) (hopen : body.getLast? ≠ some '\n') :
    readLine (body ++ newline) = readLine body := by
  rw [readLine, readLine, parseSettingLine_newline h hopen]
  cases parseSettingLine body with
  | error e => rfl
  | ok parsed => cases parsed <;> rfl

theorem parseSettingLine_terminated (h : ¬Ended line) : parseSettingLine (line ++ ['\n']) =
    (parseSettingLine line).map (·.map fun parsed => { parsed with newline := ['\n'] }) := by
  simp only [Ended, not_or] at h
  exact parseSettingLine_newline (.lf h.2) h.1

theorem readLine_terminated (h : ¬Ended line) : readLine (line ++ ['\n']) = readLine line := by
  simp only [Ended, not_or] at h
  exact readLine_newline (.lf h.2) h.1

end Dumb.Postgres.Conf
