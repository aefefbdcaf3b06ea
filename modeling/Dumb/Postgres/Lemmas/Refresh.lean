import Dumb.Postgres.Lemmas.EditedLines
import Dumb.Postgres.Refresh

/-!
# Lines of a refreshed file

How the lines are read with the default `newline`, which key a line begins with, and what is read of the lines that are kept
and of those that are replaced.
-/

namespace Dumb.Postgres.Conf

open Py

/-! ## The default newline -/

variable {c : Char}

theorem universal_cons (h : c ≠ '\r') (rest : Chars) : universal (c :: rest) = c :: universal rest := by
  rw [universal]
  · exact fun more hc => absurd hc h
  · exact fun hc => absurd hc h

theorem universal_return {rest : Chars} (h : rest.head? ≠ some '\n') : universal ('\r' :: rest) = '\n' :: universal rest := by
  rw [universal]
  rintro more rfl
  exact h rfl

variable {body : Chars}

theorem universal_inner (h : Inner body) (rest : Chars) : universal (body ++ rest) = body ++ universal rest := by
  induction body with
  | nil => rfl
  | cons c body ih =>
    have hc : c ≠ '\r' := by
      rintro rfl
      exact absurd (h '\r' List.mem_cons_self) (by decide)
    rw [List.cons_append, universal_cons hc, ih fun d hd => h d (List.mem_cons_of_mem c hd), List.cons_append]

inductive Lined : Chars → Chars → Prop
  | ended {body term : Chars} (h : Inner body) (hterm : term ∈ lineEnds) : Lined (body ++ term) (body ++ ['\n'])
  | inner {body : Chars} (h : Inner body) : Lined body body

theorem universal_term {term : Chars} (hterm : term ∈ lineEnds) (rest : Chars)
    (hnext : ¬(term.getLast? = some '\r' ∧ rest.head? = some '\n')) : universal (term ++ rest) = '\n' :: universal rest := by
  simp only [lineEnds, List.mem_cons, List.not_mem_nil, or_false] at hterm
  rcases hterm with rfl | rfl | rfl
  · exact universal_cons (by decide) rest
  · exact universal_return fun h => hnext ⟨rfl, h⟩
  · show universal ('\r' :: '\n' :: rest) = _
    rw [universal]

variable {line : Chars}

theorem piece_lined (h : Piece line) : Lined line (universal line) := by
  obtain ⟨body, term, rfl, hbody, hterm⟩ := h
  rcases hterm with rfl | hterm
  · rw [List.append_nil]
    have hread : universal (body ++ []) = body ++ [] := universal_inner hbody []
    rw [List.append_nil] at hread
    rw [hread]
    exact .inner hbody
  · have hread := universal_inner hbody (term ++ [])
    rw [universal_term hterm [] (by simp), List.append_nil] at hread
    rw [hread]
    exact .ended hbody hterm

theorem endsRead_inner (h : Inner body) : ∀ c ∈ body, endsRead c = false := by
  intro c hc
  have hend := h c hc
  simp only [endsFileLine, Bool.or_eq_false_iff] at hend
  exact hend.1

theorem linesBy_read (h : Inner body) (rest : Chars) :
    linesBy endsRead (body ++ '\n' :: rest) = (body ++ ['\n']) :: linesBy endsRead rest := by
  have hcut : linesBy endsRead ('\n' :: rest) = ['\n'] :: linesBy endsRead rest := by
    rw [linesBy, if_pos]
    simp [cutsAfter, endsRead]
  cases body with
  | nil => exact hcut
  | cons c body => rw [linesBy_inner (endsRead_inner h) (by simp), hcut]

theorem linesBy_universal {lines : List Chars} (h : Py.Proper lines) :
    linesBy endsRead (universal lines.flatten) = lines.map universal := by
  induction lines with
  | nil => rfl
  | cons line rest ih =>
    obtain ⟨hpiece, hne⟩ := h.pieces line List.mem_cons_self
    have hrest : Py.Proper rest := ⟨fun l hl => h.pieces l (List.mem_cons_of_mem line hl), h.follows.tail⟩
    rw [List.flatten_cons, List.map_cons]
    obtain ⟨body, term, rfl, hbody, hterm⟩ := hpiece
    rw [List.append_assoc, universal_inner hbody, universal_inner hbody]
    rcases hterm with rfl | hterm
    · -- A line without an end is the last one.
      rw [List.append_nil] at hne h
      cases rest with
      | nil =>
        have hone : linesBy endsRead (body ++ []) = [body] := linesBy_inner (endsRead_inner hbody) hne
        simpa [universal] using hone
      | cons next rest =>
        have hended := (h.follows.rel_head? (show next ∈ (next :: rest).head? from rfl)).1
        exact absurd hended (not_ended_of_inner hbody)
    · have hterm' := universal_term hterm [] (by simp)
      rw [List.append_nil] at hterm'
      have hnext : ¬(term.getLast? = some '\r' ∧ rest.flatten.head? = some '\n') := by
        rintro ⟨hlast, hhead⟩
        cases rest with
        | nil => simp at hhead
        | cons next rest =>
          have hne' := (hrest.pieces next List.mem_cons_self).2
          rw [List.flatten_cons, List.head?_append_of_ne_nil _ hne'] at hhead
          have htermNe : term ≠ [] := by
            rintro rfl
            simp at hlast
          apply (h.follows.rel_head? (show next ∈ (next :: rest).head? from rfl)).2
          exact ⟨by rw [List.getLast?_append_of_ne_nil _ htermNe, hlast], hhead⟩
      rw [universal_term hterm _ hnext, hterm', universal, linesBy_read hbody, ih hrest]

/-! ## The key that a line begins with -/

variable {postgresConfig : Dict Chars ConfigValue}

theorem lineEnds_space {term : Chars} (h : term ∈ lineEnds) : ∀ c ∈ term, isSpace c = true := by
  simp only [lineEnds, List.mem_cons, List.not_mem_nil, or_false] at h
  rcases h with rfl | rfl | rfl <;> simp [isSpace]

theorem Lined.mentioned {line read : Chars} (h : Lined line read) : mentioned postgresConfig read = mentioned postgresConfig line := by
  cases h with
  | @ended body term _ hterm =>
    have hspace : ∀ c ∈ ['\n'], isSpace c = true := lineEnds_space (show ['\n'] ∈ lineEnds by simp [lineEnds])
    rw [Conf.mentioned, Conf.mentioned, stripSpace_append body (lineEnds_space hterm), stripSpace_append body hspace]
  | inner => rfl

variable {key : Chars}

theorem settingKey_chars (h : settingKey key = true) : ∀ c ∈ key, keyChar c = true := by
  intro c hc
  cases key with
  | nil => cases h
  | cons d key =>
    rw [settingKey, Bool.and_eq_true, List.all_eq_true] at h
    rcases List.mem_cons.1 hc with rfl | hc
    · simp [keyChar, h.1]
    · exact h.2 c hc

theorem name_unique {key key' rest rest' : Chars} {c d : Char} (h : settingKey key = true) (h' : settingKey key' = true)
    (hc : keyChar c = false) (hd : keyChar d = false) (heq : key ++ c :: rest = key' ++ d :: rest') : key = key' := by
  rw [← (run_of (settingKey_chars h) hc rest).1, heq, (run_of (settingKey_chars h') hd rest').1]

theorem mentions_iff {stripped key : Chars} :
    mentions stripped key = true ↔ (∃ rest, stripped = key ++ ' ' :: rest) ∨ ∃ rest, stripped = '#' :: (key ++ ' ' :: rest) := by
  rw [mentions, Bool.or_eq_true, List.isPrefixOf_iff_prefix, List.isPrefixOf_iff_prefix]
  simp only [List.IsPrefix, List.append_assoc, List.cons_append, List.nil_append, eq_comm]

theorem settingKey_start (h : settingKey key = true) : ∃ c rest, key = c :: rest ∧ c ≠ '#' ∧ isSpace c = false := by
  cases key with
  | nil => cases h
  | cons c rest =>
    rw [settingKey, Bool.and_eq_true] at h
    have hbare := keyChar_bare (show keyChar c = true by simp [keyChar, h.1])
    exact ⟨c, rest, rfl, bareChar_ne hbare (by decide), bareChar_visible hbare⟩

theorem mentions_unique {stripped key key' : Chars} (h : settingKey key = true) (h' : settingKey key' = true)
    (hkey : mentions stripped key = true) (hkey' : mentions stripped key' = true) : key = key' := by
  obtain ⟨c, k, rfl, hc, -⟩ := settingKey_start h
  obtain ⟨d, k', rfl, hd, -⟩ := settingKey_start h'
  rcases mentions_iff.1 hkey with ⟨rest, rfl⟩ | ⟨rest, rfl⟩
  · rcases mentions_iff.1 hkey' with ⟨rest', heq⟩ | ⟨rest', heq⟩
    · exact name_unique h h' (by decide) (by decide) heq
    · exact absurd (List.cons.inj heq).1 hc
  · rcases mentions_iff.1 hkey' with ⟨rest', heq⟩ | ⟨rest', heq⟩
    · exact absurd (List.cons.inj heq).1.symm hd
    · exact name_unique h h' (by decide) (by decide) (List.cons.inj heq).2

structure Named (postgresConfig : Dict Chars ConfigValue) : Prop where
  nodup : postgresConfig.keys.Nodup
  names : ∀ key ∈ postgresConfig.keys, settingKey key = true

variable {value : ConfigValue}

theorem mentioned_mem {line key : Chars} (h : mentioned postgresConfig line = some (key, value)) :
    (key, value) ∈ postgresConfig ∧ mentions (stripSpace line) key = true :=
  ⟨List.mem_of_find?_eq_some h, by simpa using List.find?_some h⟩

theorem mentioned_of {line key : Chars} (hnamed : Named postgresConfig) (hmem : (key, value) ∈ postgresConfig)
    (hkey : mentions (stripSpace line) key = true) : mentioned postgresConfig line = some (key, value) := by
  cases hfind : mentioned postgresConfig line with
  | none =>
    have := List.find?_eq_none.1 hfind (key, value) hmem
    simp [hkey] at this
  | some item =>
    obtain ⟨key', value'⟩ := item
    obtain ⟨hmem', hkey'⟩ := mentioned_mem hfind
    have hname := hnamed.names key (List.mem_map_of_mem hmem)
    have hname' := hnamed.names key' (List.mem_map_of_mem hmem')
    obtain rfl := mentions_unique hname hname' hkey hkey'
    have hvalue := Dict.get?_of_mem hnamed.nodup hmem
    rw [Dict.get?_of_mem hnamed.nodup hmem'] at hvalue
    rw [Option.some.inj hvalue]

theorem strip_front (hc : isSpace c = false) {d : Char} (hd : isSpace d = false) (front rest : Chars) :
    ∃ more, stripSpace (c :: (front ++ d :: rest)) = c :: (front ++ d :: more) := by
  refine ⟨rstripWhile isSpace rest, ?_⟩
  rw [stripSpace, lstripWhile, List.dropWhile_cons_of_neg (by simp [hc]), ← List.cons_append, rstripWhile_stops hd,
    List.cons_append]

theorem mentioned_start (hnamed : Named postgresConfig) (hmem : (key, value) ∈ postgresConfig)
    (rest : Chars) :
    mentioned postgresConfig (key ++ ' ' :: '=' :: rest) = some (key, value) := by
  apply mentioned_of hnamed hmem
  obtain ⟨c, k, rfl, -, hc⟩ := settingKey_start (hnamed.names key (List.mem_map_of_mem hmem))
  obtain ⟨more, hmore⟩ := strip_front hc (show isSpace '=' = false by decide) (k ++ [' ']) rest
  rw [mentions_iff]
  left
  refine ⟨'=' :: more, ?_⟩
  simpa using hmore

theorem mentioned_commented (hnamed : Named postgresConfig)
    (hmem : (key, value) ∈ postgresConfig) (rest : Chars) :
    mentioned postgresConfig ('#' :: (key ++ ' ' :: '=' :: rest)) = some (key, value) := by
  apply mentioned_of hnamed hmem
  obtain ⟨more, hmore⟩ := strip_front (show isSpace '#' = false by decide) (show isSpace '=' = false by decide) (key ++ [' ']) rest
  rw [mentions_iff]
  right
  refine ⟨'=' :: more, ?_⟩
  simpa using hmore

theorem mentioned_newLine (hnamed : Named postgresConfig) (hmem : (key, value) ∈ postgresConfig) :
    mentioned postgresConfig (newLine key value) = some (key, value) := by
  rw [newLine]
  split
  · have hstart := mentioned_start hnamed hmem (' ' :: (value.shown ++ ['\n']))
    simpa using hstart
  · have hstart := mentioned_commented hnamed hmem [' ', '\n']
    simpa using hstart

/-! ## A carriage return at the end of a line -/

theorem scan_return (quoted odd : Bool) (value : Chars) : scan quoted odd (value ++ ['\r']) =
    if (scan quoted odd value).2.1 = [] then ((scan quoted odd value).1 ++ ['\r'], [], (scan quoted odd value).2.2)
    else ((scan quoted odd value).1, (scan quoted odd value).2.1 ++ ['\r'], (scan quoted odd value).2.2) := by
  fun_induction scan quoted odd value with
  | case1 quoted odd =>
    rw [List.nil_append, scan_other (by decide) quoted odd (fun h => absurd h (by decide)), if_pos rfl]
    cases quoted <;> rfl
  | case2 odd rest scanned ih =>
    rw [List.cons_append, List.cons_append, scan_doubled, ih]
    dsimp only
    split <;> rfl
  | case3 quoted odd c rest hnot hc =>
    have hquoted : quoted = false := by
      simp only [Bool.and_eq_true, Bool.not_eq_true'] at hc
      exact hc.2
    rw [if_neg (by simp), List.cons_append, scan, if_pos hc]
    rintro more rfl
    cases hquoted
  | case4 quoted odd c rest hnot hc quoted' scanned ih =>
    have hnext : quoted = true → c = '\'' → (rest ++ ['\r']).head? ≠ some '\'' := by
      intro hquoted hquote hhead
      cases rest with
      | nil => exact absurd hhead (by decide)
      | cons d more =>
        obtain rfl : d = '\'' := by simpa using hhead
        exact hnot more hquoted hquote rfl
    have hcomment : c = '#' → quoted = true := by
      rintro rfl
      simpa using hc
    have ih' : scan (if (decide (c = '\'') && !odd) = true then !quoted else quoted) (decide (c = '\\') && !odd)
        (rest ++ ['\r']) = _ := ih
    rw [List.cons_append, scan_step hnext odd hcomment, ih']
    dsimp only
    split <;> rfl

theorem head_dropWhile {p : Char → Bool} {cs : Chars} (h : (cs.dropWhile p).head? = some c) : p c = false := by
  have := List.head?_dropWhile_not p cs
  rw [h] at this
  simpa using this

theorem run_concat {p : Char → Bool} (hc : p c = false) (cs : Chars) :
    (cs ++ [c]).takeWhile p = cs.takeWhile p ∧ (cs ++ [c]).dropWhile p = cs.dropWhile p ++ [c] := by
  induction cs with
  | nil => simp [hc]
  | cons d cs ih =>
    rw [List.cons_append]
    cases hd : p d with
    | true => simp [hd, ih.1, ih.2]
    | false => simp [hd]

theorem separatorOf_return (tail : Chars) : separatorOf (tail ++ ['\r']) = separatorOf tail ∧
    ∀ separator, separatorOf tail = some separator → ∀ c, (tail.drop separator.length).head? = some c → isBlank c = false := by
  have hcr : isBlank '\r' = false := by decide
  obtain ⟨htake, hdrop⟩ := run_concat hcr tail
  have htail : tail.takeWhile isBlank ++ tail.dropWhile isBlank = tail := List.takeWhile_append_dropWhile
  rw [separatorOf, separatorOf, htake, hdrop]
  cases hafter : tail.dropWhile isBlank with
  | nil =>
    rw [hafter, List.append_nil] at htail
    refine ⟨by simp, fun separator h c hc => ?_⟩
    split at h
    · next heq => cases heq
    · split at h
      · cases h
      · obtain rfl := Option.some.inj h
        rw [htail, List.drop_length] at hc
        cases hc
  | cons d rest =>
    rw [hafter] at htail
    by_cases hd : d = '='
    · subst hd
      refine ⟨?_, fun separator h c hc => ?_⟩
      · show some (tail.takeWhile isBlank ++ '=' :: (rest ++ ['\r']).takeWhile isBlank) = _
        rw [(run_concat hcr rest).1]
        rfl
      · obtain rfl := Option.some.inj h
        have hrest : rest.takeWhile isBlank ++ rest.dropWhile isBlank = rest := List.takeWhile_append_dropWhile
        have hwhole : tail = (tail.takeWhile isBlank ++ '=' :: rest.takeWhile isBlank) ++ rest.dropWhile isBlank := by
          rw [List.append_assoc, List.cons_append, hrest, htail]
        have hleft := congrArg (List.drop (tail.takeWhile isBlank ++ '=' :: rest.takeWhile isBlank).length) hwhole
        rw [List.drop_left] at hleft
        rw [hleft] at hc
        exact head_dropWhile hc
    · refine ⟨by simp [hd], fun separator h c hc => ?_⟩
      split at h
      · next heq => exact absurd (List.cons.inj heq).1 hd
      · split at h
        · cases h
        · obtain rfl := Option.some.inj h
          have hleft := congrArg (List.drop (tail.takeWhile isBlank).length) htail
          rw [List.drop_left] at hleft
          rw [← hleft, ← hafter] at hc
          exact head_dropWhile hc

theorem splitValueComment_return {value : Chars} (hinner : Inner value)
    (hvalue : ∀ c, value.head? = some c → isBlank c = false) :
    (splitValueComment (value ++ ['\r'])).2.2 = (splitValueComment value).2.2 ∧
      (((splitValueComment (value ++ ['\r'])).1 = ['\r'] ∧ (splitValueComment value).1 = []) ∨
        ((splitValueComment (value ++ ['\r'])).1 ≠ ['\r'] ∧
          ((splitValueComment (value ++ ['\r'])).1 = [] ↔ (splitValueComment value).1 = []) ∧
          stripSpace (splitValueComment (value ++ ['\r'])).1 = stripSpace (splitValueComment value).1)) := by
  have hscan := scan_return false false value
  have hwhole := scan_append false false value
  rw [splitValueComment, splitValueComment]
  dsimp only
  rw [hscan]
  split
  · next hcomment =>
    rw [hcomment, List.append_nil] at hwhole
    refine ⟨rfl, ?_⟩
    dsimp only
    rw [hwhole, rstripWhile_stops (show isBlank '\r' = false by decide), show rstripWhile isBlank [] = [] from List.rdropWhile_nil _]
    cases value with
    | nil => exact .inl ⟨rfl, List.rdropWhile_nil _⟩
    | cons c rest =>
      have hc := hvalue c rfl
      obtain ⟨blanks, hblanks, hall⟩ := rstripWhile_append isBlank (c :: rest)
      right
      refine ⟨by simp, ?_, ?_⟩
      · have hne : rstripWhile isBlank (c :: rest) ≠ [] := by
          intro hnil
          rw [List.rdropWhile_eq_nil_iff.1 hnil c List.mem_cons_self] at hc
          cases hc
        simp [hne]
      · have hreturn : ∀ d ∈ ['\r'], isSpace d = true := by simp [isSpace]
        have hkept := stripSpace_append (rstripWhile isBlank (c :: rest)) fun d hd => blank_space (hall d hd)
        rw [stripSpace_append _ hreturn, ← hkept, ← hblanks]
  · refine ⟨rfl, .inr ⟨fun hraw => ?_, Iff.rfl, rfl⟩⟩
    dsimp only at hraw
    obtain ⟨blanks, hblanks, -⟩ := rstripWhile_append isBlank (scan false false value).1
    have hmem : '\r' ∈ value := by
      rw [← hwhole, hblanks, hraw]
      simp
    exact absurd (hinner '\r' hmem) (by decide)

theorem decodeValue_congr {a b : Chars} (h : stripSpace a = stripSpace b) : decodeValue a = decodeValue b := by
  rw [decodeValue, decodeValue, h]

theorem parseSettingLine_return (hinner : Inner body) {found : Option Parsed}
    (hparse : parseSettingLine (body ++ ['\r']) = .ok found) :
    (found = none ∧ parseSettingLine body = .ok none) ∨ ∃ parsed, found = some parsed ∧
      ((parsed.rawValue = ['\r'] ∧ ∃ e, parseSettingLine body = .error e) ∨ (parsed.rawValue ≠ ['\r'] ∧
        ∃ parsed', parseSettingLine body = .ok (some parsed') ∧ parsed'.key = parsed.key ∧
          stripSpace parsed.rawValue = stripSpace parsed'.rawValue)) := by
  have hopen : body.getLast? ≠ some '\n' := fun hlast => absurd (hinner _ (List.mem_of_getLast? hlast)) (by decide)
  have hcr : isBlank '\r' = false := by decide
  obtain ⟨htake, hdrop⟩ := run_concat hcr body
  have hstrip : ((lstripWhile isSpace (body ++ ['\r'])).isEmpty || (lstripWhile isSpace (body ++ ['\r'])).head? = some '#') =
      ((lstripWhile isSpace body).isEmpty || (lstripWhile isSpace body).head? = some '#') := by
    rw [lstripWhile, lstripWhile, List.dropWhile_append]
    cases body.dropWhile isSpace with
    | nil => simp [isSpace]
    | cons d more => simp
  rw [parseSettingLine, chomp_none (by simp)] at hparse
  dsimp only at hparse
  rw [hstrip, htake, hdrop] at hparse
  rw [parseSettingLine, chomp_none hopen]
  dsimp only
  split at hparse
  · next hnone =>
    obtain rfl := Except.ok.inj hparse
    exact .inl ⟨rfl, by rw [if_pos hnone]⟩
  · next hsome =>
    right
    rw [if_neg hsome]
    cases hbody : body.dropWhile isBlank with
    | nil =>
      rw [hbody] at hparse
      cases hparse
    | cons c rest =>
      rw [hbody] at hparse
      dsimp only [List.cons_append] at hparse ⊢
      obtain ⟨hkey, htail⟩ := run_concat (show keyChar '\r' = false by decide) rest
      obtain ⟨hsame, hstart⟩ := separatorOf_return (rest.dropWhile keyChar)
      rw [hkey, htail, hsame] at hparse
      split at hparse
      · cases hparse
      · next hname =>
        rw [if_neg hname]
        cases hseparator : separatorOf (rest.dropWhile keyChar) with
        | none =>
          rw [hseparator] at hparse
          cases hparse
        | some separator =>
          rw [hseparator] at hparse
          dsimp only at hparse ⊢
          have hlength : separator.length ≤ (rest.dropWhile keyChar).length := by
            obtain ⟨-, value, hvalue⟩ := separatorOf_spec hseparator
            rw [hvalue, List.length_append]
            exact Nat.le_add_right _ _
          have hsub : ∀ d ∈ (rest.dropWhile keyChar).drop separator.length, d ∈ body := by
            intro d hd
            have hrest : d ∈ rest := (List.dropWhile_suffix keyChar).subset (List.mem_of_mem_drop hd)
            exact (List.dropWhile_suffix isBlank).subset (hbody ▸ List.mem_cons_of_mem c hrest)
          obtain ⟨hquote, hraw⟩ := splitValueComment_return (fun d hd => hinner d (hsub d hd)) (hstart separator hseparator)
          rw [List.drop_append_of_le_length hlength] at hparse
          split at hparse
          · cases hparse
          · next hsome' =>
            split at hparse
            · cases hparse
            · next hclosed =>
              obtain rfl := Except.ok.inj hparse
              refine ⟨_, rfl, ?_⟩
              rcases hraw with ⟨hreturn, hempty⟩ | ⟨hne, hiff, hsameStrip⟩
              · exact .inl ⟨hreturn, _, by rw [if_pos (by rw [hempty]; rfl)]⟩
              · have hnonempty : ¬(splitValueComment ((rest.dropWhile keyChar).drop separator.length)).1.isEmpty = true := by
                  rw [List.isEmpty_iff, ← hiff, ← List.isEmpty_iff]
                  exact hsome'
                refine .inr ⟨hne, ⟨body.takeWhile isBlank, c :: rest.takeWhile keyChar, separator,
                  (splitValueComment ((rest.dropWhile keyChar).drop separator.length)).1,
                  (splitValueComment ((rest.dropWhile keyChar).drop separator.length)).2.1, []⟩, ?_, rfl, hsameStrip⟩
                rw [if_neg hnonempty, if_neg (by rw [← hquote]; exact hclosed)]

theorem readLine_none (h : parseSettingLine line = .ok none) : readLine line = .ok none := by
  rw [readLine, h]
  rfl

theorem inner_open (h : Inner body) : body.getLast? ≠ some '\n' ∧ body.getLast? ≠ some '\r' :=
  ⟨fun hlast => absurd (h _ (List.mem_of_getLast? hlast)) (by decide), fun hlast => absurd (h _ (List.mem_of_getLast? hlast)) (by decide)⟩

variable {setting : Option (Chars × Chars)}

theorem Lined.read {line read : Chars} (h : Lined line read) (hraw : ∀ parsed, parseSettingLine line = .ok (some parsed) →
    parsed.rawValue ≠ ['\r']) (hline : readLine line = .ok setting) :
    readLine read = .ok setting := by
  cases h with
  | inner => exact hline
  | @ended body term hbody hterm =>
    obtain ⟨hlf, hcr⟩ := inner_open hbody
    rw [readLine_newline (.lf hcr) hlf]
    simp only [lineEnds, List.mem_cons, List.not_mem_nil, or_false] at hterm
    rcases hterm with rfl | rfl | rfl
    · rwa [readLine_newline (.lf hcr) hlf] at hline
    · cases hparse : parseSettingLine (body ++ ['\r']) with
      | error e =>
        rw [readLine, hparse] at hline
        cases hline
      | ok found =>
        rcases parseSettingLine_return hbody hparse with ⟨rfl, hnone⟩ | ⟨parsed, rfl, ⟨hreturn, -⟩ | ⟨-, parsed', hparsed', hkey, hstrip⟩⟩
        · rw [readLine_none hparse] at hline
          rw [readLine_none hnone, hline]
        · exact absurd hreturn (hraw parsed hparse)
        · rw [readLine_of_parsed hparse] at hline
          rw [readLine_of_parsed hparsed', hkey, ← decodeValue_congr hstrip, hline]
    · rwa [readLine_newline (.crlf body) hlf] at hline

theorem Lined.lost {line read : Chars} (h : Lined line read) {parsed : Parsed} (hparsed : parseSettingLine line = .ok (some parsed))
    (hraw : parsed.rawValue = ['\r']) (setting : Option (Chars × Chars)) : readLine read ≠ .ok setting := by
  have hmem : '\r' ∈ line := by
    obtain ⟨-, hline⟩ := parseSettingLine_spec hparsed
    rw [hline, Parsed.withValue, hraw]
    simp
  cases h with
  | inner hbody => exact absurd (hbody _ hmem) (by decide)
  | @ended body term hbody hterm =>
    obtain ⟨hlf, hcr⟩ := inner_open hbody
    rw [readLine_newline (.lf hcr) hlf]
    have hplain : ∀ {newline : Chars}, Chomped body newline → term = newline → False := by
      intro newline hchomped hnewline
      subst hnewline
      rw [parseSettingLine_newline hchomped hlf] at hparsed
      obtain ⟨found, hfound, hparsed⟩ := map_ok_iff.1 hparsed
      cases found with
      | none => cases hparsed
      | some parsed' =>
        obtain rfl := Option.some.inj hparsed
        obtain ⟨-, hline⟩ := parseSettingLine_spec hfound
        have hbodyMem : '\r' ∈ body := by
          rw [hline, Parsed.withValue, show parsed'.rawValue = ['\r'] from hraw]
          simp
        exact absurd (hbody _ hbodyMem) (by decide)
    simp only [lineEnds, List.mem_cons, List.not_mem_nil, or_false] at hterm
    rcases hterm with rfl | rfl | rfl
    · exact (hplain (.lf hcr) rfl).elim
    · rcases parseSettingLine_return hbody hparsed with ⟨h, -⟩ | ⟨parsed', hsome, ⟨-, e, herror⟩ | ⟨hne, -⟩⟩
      · cases h
      · rw [readLine, herror]
        simp [bind, Except.bind]
      · obtain rfl := Option.some.inj hsome
        exact absurd hraw hne
    · exact (hplain (.crlf body) rfl).elim

/-! ## Lines that are replaced -/

theorem newLine_true (h : value.truthy = true) :
    newLine key value = key ++ ' ' :: '=' :: ' ' :: (value.shown ++ ['\n']) := by
  rw [newLine, if_pos h]
  simp

theorem newLine_false (h : value.truthy = false) :
    newLine key value = '#' :: (key ++ [' ', '=']) ++ [' '] ++ ['\n'] := by
  rw [newLine, if_neg (by simp [h])]
  simp

theorem readLine_commented (h : value.truthy = false) : readLine (newLine key value) = .ok none := by
  apply readLine_none
  rw [newLine_false h, parseSettingLine, chomp_lf]
  · rfl
  · rw [List.getLast?_concat]
    decide

theorem Parsed.Wf.name {parsed : Parsed} (h : parsed.Wf) (value : Chars) :
    ∃ c rest, keyChar c = false ∧ lstripWhile isSpace (parsed.withValue parsed.key value) = parsed.key ++ c :: rest := by
  obtain ⟨k, name, hkey, -, hspace⟩ := settingKey_start h.key
  obtain ⟨equals, hsep⟩ := h.separator
  obtain ⟨c, rest, hrest, hc⟩ := separator_head hsep
  refine ⟨c, rest ++ value ++ parsed.suffix ++ parsed.newline, hc, ?_⟩
  have hstart : parsed.withValue parsed.key value =
      parsed.indent ++ k :: (name ++ c :: (rest ++ value ++ parsed.suffix ++ parsed.newline)) := by
    simp [Parsed.withValue, hkey, hrest]
  rw [hstart, lstripWhile, (run_of (fun d hd => blank_space (h.indent d hd)) hspace _).2, hkey, List.cons_append]

theorem parseSettingLine_none (h : parseSettingLine line = .ok none) (c : Char)
    (hc : (lstripWhile isSpace line).head? = some c) : c = '#' := by
  obtain ⟨body, newline, hchomp, rfl, hchomped⟩ := chomped line
  have hspace : ∀ d ∈ newline, isSpace d = true := by
    cases hchomped with
    | crlf => simp [isSpace]
    | lf => simp [isSpace]
    | none => simp
  rw [parseSettingLine, hchomp] at h
  dsimp only at h
  split at h
  · next hblank =>
    rw [lstripWhile, List.dropWhile_append] at hc
    split at hc
    · rw [List.dropWhile_eq_nil_iff.2 hspace] at hc
      cases hc
    · next hne =>
      rw [← lstripWhile] at hc hne
      rw [List.head?_append_of_ne_nil _ (by simpa using hne)] at hc
      simp only [Bool.or_eq_true, hne, false_or, decide_eq_true_eq, Bool.false_eq_true] at hblank
      exact Option.some.inj (hc.symm.trans hblank)
  · split at h
    · cases h
    · split at h
      · cases h
      · split at h
        · cases h
        · split at h
          · cases h
          · split at h <;> cases h

theorem readLine_start {key rest : Chars} (hkey : settingKey key = true)
    (h : readLine (key ++ ' ' :: rest) = .ok setting) : ∃ value, setting = some (key, value) := by
  obtain ⟨c, name, hname, hc, hspace⟩ := settingKey_start hkey
  have hstrip : lstripWhile isSpace (key ++ ' ' :: rest) = key ++ ' ' :: rest := by
    rw [hname, List.cons_append, lstripWhile, List.dropWhile_cons_of_neg (by simp [hspace])]
  cases hparse : parseSettingLine (key ++ ' ' :: rest) with
  | error e =>
    rw [readLine, hparse] at h
    cases h
  | ok found =>
    cases found with
    | none =>
      have hhead := parseSettingLine_none hparse c (by rw [hstrip, hname]; rfl)
      exact absurd hhead hc
    | some parsed =>
      obtain ⟨hwf, hline⟩ := parseSettingLine_spec hparse
      obtain ⟨d, more, hd, hfront⟩ := hwf.name parsed.rawValue
      rw [← hline, hstrip] at hfront
      have hsame : key = parsed.key := name_unique hkey hwf.key (by decide) hd hfront
      rw [readLine_of_parsed hparse, map_ok_iff] at h
      obtain ⟨got, -, rfl⟩ := h
      exact ⟨got.1, by rw [hsame]⟩

theorem setting_mentioned (hnamed : Named postgresConfig) {line key key' : Chars} (hkey : Setting key line)
    (h : mentioned postgresConfig line = some (key', value)) : key' = key := by
  obtain ⟨got, hgot⟩ := hkey
  obtain ⟨parsed, -, hparsed, rfl, -⟩ := readLine_spec hgot
  obtain ⟨hwf, hline⟩ := parseSettingLine_spec hparsed
  obtain ⟨c, rest, hc, hfront⟩ := hwf.name parsed.rawValue
  rw [← hline] at hfront
  obtain ⟨hmem, hmentions⟩ := mentioned_mem h
  have hname := hnamed.names key' (List.mem_map_of_mem hmem)
  obtain ⟨tail, htail, -⟩ := rstripWhile_append isSpace (lstripWhile isSpace line)
  rw [hfront] at htail
  obtain ⟨k, name, hk, hcomment, -⟩ := settingKey_start hwf.key
  rcases mentions_iff.1 hmentions with ⟨more, hmore⟩ | ⟨more, hmore⟩
  · rw [stripSpace, hfront] at hmore
    rw [hmore, List.append_assoc, List.cons_append] at htail
    exact (name_unique hwf.key hname hc (by decide) htail).symm
  · rw [stripSpace, hfront] at hmore
    rw [hmore, hk] at htail
    exact absurd (List.cons.inj htail).1 hcomment

end Dumb.Postgres.Conf
