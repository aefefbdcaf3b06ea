import Mathlib.Data.List.TakeWhile
import Dumb.Logs.Follow

/-!
# What one poll reads

A read that does not start behind the complete lines returns the lines from the next line start on, and ends where they
end. So the cursor always stands at the start of a line.
-/

namespace Dumb.Logs

open Py

/-! ## Complete lines -/

theorem EndsLine.nil {α : Type} {newline : α} : EndsLine newline [] := .inl rfl

theorem EndsLine.append {α : Type} {newline : α} {a b : List α} (ha : EndsLine newline a) (hb : EndsLine newline b) :
    EndsLine newline (a ++ b) := by
  rcases hb with rfl | ⟨init, rfl⟩
  · rwa [List.append_nil]
  · exact .inr ⟨a ++ init, by rw [List.append_assoc]⟩

theorem EndsLine.drop {α : Type} {newline : α} {a : List α} (ha : EndsLine newline a) (n : Nat) :
    EndsLine newline (a.drop n) := by
  rcases ha with rfl | ⟨init, rfl⟩
  · rw [List.drop_nil]
    exact .nil
  · rw [List.drop_append]
    cases hn : n - init.length with
    | zero => exact .inr ⟨init.drop n, by rw [List.drop_zero]⟩
    | succ k =>
      left
      rw [List.drop_eq_nil_of_le (by omega)]
      simp

theorem complete_spec (file : Bytes) :
    ∃ rest, file = complete file ++ rest ∧ newline ∉ rest ∧ EndsLine newline (complete file) := by
  refine ⟨(file.reverse.takeWhile fun b => b ≠ newline).reverse, ?_, ?_, ?_⟩
  · rw [complete, ← List.reverse_append, List.takeWhile_append_dropWhile, List.reverse_reverse]
  · intro h
    have hne := List.mem_takeWhile_imp (List.mem_reverse.1 h)
    simp at hne
  · rw [complete]
    cases hrest : file.reverse.dropWhile fun b => b ≠ newline with
    | nil => exact .inl rfl
    | cons b bs =>
      have hb : b = newline := by
        have hhead := List.head?_dropWhile_not (fun b => decide (b ≠ newline)) file.reverse
        rw [hrest] at hhead
        simpa using hhead
      exact .inr ⟨bs.reverse, by rw [List.reverse_cons, hb]⟩

theorem complete_append {lines rest : Bytes} (hlines : EndsLine newline lines) (hrest : newline ∉ rest) :
    complete (lines ++ rest) = lines := by
  have hdrop : rest.reverse.dropWhile (fun b => decide (b ≠ newline)) = [] := by
    rw [List.dropWhile_eq_nil_iff]
    intro b hb
    have hne : b ≠ newline := by
      rintro rfl
      exact hrest (List.mem_reverse.1 hb)
    simp [hne]
  rw [complete, List.reverse_append, List.dropWhile_append, hdrop, List.isEmpty_nil, if_pos rfl]
  rcases hlines with rfl | ⟨init, rfl⟩
  · rfl
  · simp

theorem complete_endsLine (file : Bytes) : EndsLine newline (complete file) := by
  obtain ⟨-, -, -, h⟩ := complete_spec file
  exact h

variable {file : Bytes}

theorem complete_of_endsLine (h : EndsLine newline file) : complete file = file := by
  have hnone := complete_append h (List.not_mem_nil (a := newline))
  rwa [List.append_nil] at hnone

variable {n : Nat}

theorem complete_drop (hn : n ≤ (complete file).length) :
    complete (file.drop n) = (complete file).drop n := by
  obtain ⟨rest, hfile, hrest, hlines⟩ := complete_spec file
  conv_lhs => rw [hfile, List.drop_append_of_le_length hn]
  exact complete_append (hlines.drop n) hrest

theorem complete_length_le (file : Bytes) : (complete file).length ≤ file.length := by
  obtain ⟨rest, hfile, -, -⟩ := complete_spec file
  conv_rhs => rw [hfile, List.length_append]
  omega

theorem getElem?_complete (hn : n < (complete file).length) :
    file[n]? = (complete file)[n]? := by
  obtain ⟨rest, hfile, -, -⟩ := complete_spec file
  conv_lhs => rw [hfile]
  exact List.getElem?_append_left hn

theorem complete_grows (file more : Bytes) : ∃ lines, complete (file ++ more) = complete file ++ lines := by
  obtain ⟨rest, hfile, -, hlines⟩ := complete_spec file
  obtain ⟨rest', hrest, hnone, hlines'⟩ := complete_spec (rest ++ more)
  have hsplit : file ++ more = (complete file ++ complete (rest ++ more)) ++ rest' := by
    conv_lhs => rw [hfile, List.append_assoc, hrest, ← List.append_assoc]
  use complete (rest ++ more)
  rw [hsplit, complete_append (hlines.append hlines') hnone]

/-! ## Line starts -/

theorem readline_line {line rest : Bytes} (h : newline ∉ line) :
    readline (line ++ newline :: rest) = line ++ [newline] := by
  have hall : ∀ b ∈ line, decide (b ≠ newline) = true := by
    intro b hb
    rw [decide_eq_true_eq]
    rintro rfl
    exact h hb
  rw [readline, List.takeWhile_append_of_pos hall, List.dropWhile_append_of_pos hall]
  simp

theorem readline_complete {lines : Bytes} (hne : lines ≠ []) (hlines : EndsLine newline lines) (rest : Bytes) :
    ∃ line after, newline ∉ line ∧ lines = line ++ newline :: after ∧ readline (lines ++ rest) = line ++ [newline] := by
  have hmem : newline ∈ lines := by
    rcases hlines with rfl | ⟨init, rfl⟩
    · exact absurd rfl hne
    · simp
  obtain ⟨line, after, rfl, hline⟩ := List.eq_append_cons_of_mem hmem
  refine ⟨line, after, hline, rfl, ?_⟩
  rw [List.append_assoc, List.cons_append, readline_line hline]

theorem endsLine_take (h : n = 0 ∨ file[n - 1]? = some newline) :
    EndsLine newline (file.take n) := by
  cases n with
  | zero => exact .inl (List.take_zero ..)
  | succ n =>
    rcases h with h | h
    · cases h
    · rw [Nat.add_sub_cancel] at h
      exact .inr ⟨file.take n, by rw [List.take_add_one, h]; rfl⟩

variable {start : Nat}

theorem lineStart_spec (hstart : start ≤ (complete file).length) :
    lineStart file start ≤ (complete file).length ∧ EndsLine newline ((complete file).take (lineStart file start)) := by
  obtain ⟨rest, hfile, hrest, hlines⟩ := complete_spec file
  rw [lineStart]
  split
  · rename_i h
    apply And.intro hstart
    apply endsLine_take
    by_cases hzero : start = 0
    · exact .inl hzero
    · rw [← getElem?_complete (by omega)]
      exact .inr (h.resolve_left hzero)
  · rename_i h
    simp only [not_or] at h
    have hlast : start ≠ (complete file).length := by
      rintro rfl
      rcases hlines with hnil | ⟨init, hinit⟩
      · rw [hnil] at h
        exact h.1 rfl
      · apply h.2
        rw [getElem?_complete (by omega), hinit]
        simp
    have hdrop : file.drop start = (complete file).drop start ++ rest := by
      conv_lhs => rw [hfile]
      exact List.drop_append_of_le_length hstart
    have hne : (complete file).drop start ≠ [] := by
      rw [Ne, List.drop_eq_nil_iff]
      omega
    obtain ⟨line, after, hline, hsplit, hread⟩ := readline_complete hne (hlines.drop start) rest
    rw [hdrop, hread]
    have hlength : ((complete file).drop start).length = line.length + (after.length + 1) := by rw [hsplit]; simp
    rw [List.length_drop] at hlength
    constructor
    · simp only [List.length_append, List.length_singleton]
      omega
    · rw [List.take_add, hsplit]
      right
      use (complete file).take start ++ line
      have hcons : line ++ newline :: after = (line ++ [newline]) ++ after := by simp
      rw [hcons, List.take_left, List.append_assoc]

theorem take_drop_append (file more : Bytes) (hn : n ≤ file.length) :
    ((file ++ more).drop n).take (file.length - n) = file.drop n := by
  rw [List.drop_append_of_le_length hn]
  have hlength : file.length - n = (file.drop n).length := by rw [List.length_drop]
  rw [hlength, List.take_left]

theorem readCompleteChunk_eq {file more : Bytes} (hstart : start ≤ (complete file).length)
    (hreturn : start ≠ 0 → file[start - 1]? ≠ some carriageReturn) :
    readCompleteChunk (file ++ more) start file.length =
      ((complete file).drop (lineStart file start), (complete file).length) := by
  have hlength := complete_length_le file
  obtain ⟨hbound, -⟩ := lineStart_spec hstart
  have hbefore : start ≠ 0 → (file ++ more)[start - 1]? = file[start - 1]? :=
    fun hne => List.getElem?_append_left (by omega)
  have hsafe : (if start = 0 ∨ (file ++ more)[start - 1]? = some newline ∨
      (file ++ more)[start - 1]? = some carriageReturn then start
      else start + (readline (((file ++ more).drop start).take (file.length - start))).length) = lineStart file start := by
    rw [take_drop_append file more (by omega), lineStart]
    by_cases hzero : start = 0
    · simp [hzero]
    · rw [hbefore hzero]
      simp only [hzero, hreturn hzero, or_false, false_or]
  rw [readCompleteChunk, hsafe, take_drop_append file more (by omega), complete_drop hbound, List.length_drop]
  simp only [Prod.mk.injEq, true_and]
  omega

/-! ## Polls -/

section
variable {u : Unicode} {codec : Codec} {isDumb : Bool} {tailBytes : Nat} {fileId : String}

theorem decode_append {lines rest : Bytes} (h : EndsLine newline lines) :
    codec.decode (lines ++ rest) = codec.decode lines ++ codec.decode rest := by
  rcases h with rfl | ⟨init, rfl⟩
  · rw [List.nil_append, codec.decode_nil, List.nil_append]
  · rw [List.append_assoc, List.singleton_append, codec.decode_line]

theorem readlines_flatten (text : List Char) : (readlines text).flatten = text := by
  induction text with
  | nil => rfl
  | cons c cs ih =>
    rw [readlines]
    split
    · rw [List.flatten_cons, ih]
      rfl
    · cases hlines : readlines cs with
      | nil =>
        rw [hlines] at ih
        rw [← ih]
        rfl
      | cons line lines =>
        rw [hlines] at ih
        rw [← ih]
        rfl

theorem splitAtBanner_append {lines before after : List (List Char)} (h : splitAtBanner u lines = some (before, after)) :
    before ++ after = lines := by
  induction lines generalizing before with
  | nil => cases h
  | cons line lines ih =>
    rw [splitAtBanner] at h
    split at h
    · rename_i front back hrest
      simp only [Option.some.injEq, Prod.mk.injEq] at h
      obtain ⟨rfl, rfl⟩ := h
      rw [List.cons_append, ih hrest]
    · split at h
      · simp only [Option.some.injEq, Prod.mk.injEq] at h
        obtain ⟨rfl, rfl⟩ := h
        rfl
      · cases h

theorem sinceBanner_append (text : List Char) : (sinceBanner u text).1 ++ (sinceBanner u text).2 = text := by
  rw [sinceBanner]
  split
  · rename_i before after hsplit
    rw [← List.flatten_append, splitAtBanner_append hsplit, readlines_flatten]
  · rfl

theorem complete_take (file more : Bytes) : (complete (file ++ more)).take (complete file).length = complete file := by
  obtain ⟨lines, hlines⟩ := complete_grows file more
  rw [hlines, List.take_left]

theorem follows_reset (hstart : start ≤ (complete file).length)
    (hfine : FineRead u codec file start true) :
    Follows u codec file (redact u (codec.decode ((complete file).drop (lineStart file start)))) := by
  obtain ⟨-, hsplits, hends⟩ := hfine
  refine ⟨redact u (codec.decode ((complete file).take (lineStart file start))), ?_, hends rfl⟩
  rw [← hsplits, ← decode_append (lineStart_spec hstart).2, List.take_append_drop]

theorem follows_more {shown more : Bytes} {text : List Char} (h : Follows u codec shown text)
    (hfine : FineRead u codec (shown ++ more) (complete shown).length false)
    (hstart : lineStart (shown ++ more) (complete shown).length = (complete shown).length) :
    Follows u codec (shown ++ more)
      (text ++ redact u (codec.decode ((complete (shown ++ more)).drop (complete shown).length))) := by
  obtain ⟨-, hsplits, -⟩ := hfine
  obtain ⟨skipped, htext, hends⟩ := h
  rw [hstart, complete_take] at hsplits
  refine ⟨skipped, ?_, hends⟩
  rw [← List.append_assoc, ← htext, ← hsplits, ← decode_append (complete_endsLine shown)]
  conv_lhs => rw [← List.take_append_drop (complete shown).length (complete (shown ++ more)), complete_take]

theorem lineStart_complete (shown more : Bytes) :
    lineStart (shown ++ more) (complete shown).length = (complete shown).length := by
  rw [lineStart, if_pos]
  rcases complete_endsLine shown with hnil | ⟨init, hinit⟩
  · exact .inl (by rw [hnil]; rfl)
  · right
    have hbound : (complete shown).length - 1 < (complete shown).length := by
      rw [hinit, List.length_append, List.length_singleton]
      omega
    have hlength := complete_length_le shown
    rw [List.getElem?_append_left (by omega), getElem?_complete hbound, hinit]
    simp

theorem complete_length_grows (file more : Bytes) : (complete file).length ≤ (complete (file ++ more)).length := by
  obtain ⟨lines, hlines⟩ := complete_grows file more
  rw [hlines, List.length_append]
  omega

structure Polled (u : Unicode) (codec : Codec) (fileId : String) (file : Bytes) (client : Client) : Prop where
  cursor : client.cursor = some (complete file).length
  fileId : client.fileId = some fileId
  follows : Follows u codec file client.text

theorem polled_banner (hfine : FineBanner u codec file []) (client : Client) :
    Polled u codec fileId file (client.take ⟨file.length, file.length, redact u (filterDumbLog u codec file), true, fileId⟩) ∧
      filterDumbLog u codec file = (sinceBanner u (codec.decode (complete file))).2 := by
  obtain ⟨-, hends, hread, hsplits, hskipped⟩ := hfine
  have hcomplete := complete_of_endsLine hends
  have hshown : filterDumbLog u codec file = (sinceBanner u (codec.decode (complete file))).2 := by
    rw [filterDumbLog, hread, hcomplete]
  constructor
  · constructor
    · rw [hcomplete]
      rfl
    · rfl
    · refine ⟨redact u (sinceBanner u (codec.decode file)).1, ?_, hskipped rfl⟩
      rw [Client.take, if_pos rfl, hshown, hcomplete, ← hsplits, sinceBanner_append]
  · exact hshown

theorem polled_read {file more : Bytes} {reset : Bool} {client : Client}
    (hstart : start ≤ (complete file).length) (hreturn : start ≠ 0 → file[start - 1]? ≠ some carriageReturn)
    (hfollows : Follows u codec file (if reset then redact u (codec.decode ((complete file).drop (lineStart file start)))
      else client.text ++ redact u (codec.decode ((complete file).drop (lineStart file start))))) :
    Polled u codec fileId file (client.take ⟨file.length, (readCompleteChunk (file ++ more) start file.length).2,
      redact u (codec.decode (readCompleteChunk (file ++ more) start file.length).1), reset, fileId⟩) := by
  rw [readCompleteChunk_eq hstart hreturn]
  constructor
  · rfl
  · rfl
  · rw [Client.take]
    dsimp only
    exact hfollows

/-- Nothing was asked for yet, or the client stands at the end of the complete lines it was shown. -/
def Stands (u : Unicode) (codec : Codec) (fileId : String) (w : World) : Prop :=
  w.client.cursor = none ∨ ∃ shown more, w.file = shown ++ more ∧ Polled u codec fileId shown w.client

theorem readLogSnapshot_first (file : Bytes) (size : Nat) (expectedFileId : Option String) :
    readLogSnapshot file size fileId none tailBytes expectedFileId =
      ((readCompleteChunk file (size - tailBytes) size).1, (readCompleteChunk file (size - tailBytes) size).2, true) := rfl

theorem readLogSnapshot_next (file : Bytes) (size cursor : Nat) :
    readLogSnapshot file size fileId (some cursor) tailBytes (some fileId) =
      ((readCompleteChunk file (boundedLogStart size cursor tailBytes).1 size).1,
        (readCompleteChunk file (boundedLogStart size cursor tailBytes).1 size).2,
        (boundedLogStart size cursor tailBytes).2) := by
  simp [readLogSnapshot]

theorem poll_follows {w : World} {p : Poll} (h : Stands u codec fileId w) (hshort : Short tailBytes w p)
    (hfine : Fine u codec isDumb tailBytes w p) :
    Polled u codec fileId (w.file ++ p.before) (w.poll u codec isDumb tailBytes fileId p).client ∧
      (w.client.cursor = none → isDumb = true → (w.poll u codec isDumb tailBytes fileId p).client.text =
        redact u (sinceBanner u (codec.decode (complete (w.file ++ p.before)))).2) := by
  rw [Short] at hshort
  rw [Fine] at hfine
  rw [World.poll]
  dsimp only at hfine ⊢
  rw [getLogFile]
  by_cases hbanner : w.client.cursor = none ∧ isDumb = true
  · rw [if_pos hbanner] at hfine ⊢
    obtain ⟨hduring, -⟩ := id hfine
    rw [hduring] at hfine ⊢
    rw [List.append_nil]
    obtain ⟨hpolled, hshown⟩ := polled_banner hfine w.client
    apply And.intro hpolled
    intro _ _
    rw [Client.take, if_pos rfl, hshown]
  · rw [if_neg hbanner] at hfine ⊢
    refine ⟨?_, fun hnone hdumb => absurd ⟨hnone, hdumb⟩ hbanner⟩
    rcases h with hnone | ⟨shown, more, hfile, hpolled⟩
    · rw [readFrom, hnone] at hfine
      rw [hnone, readLogSnapshot_first]
      have hstart : (w.file ++ p.before).length - tailBytes ≤ (complete (w.file ++ p.before)).length := by omega
      exact polled_read hstart hfine.1 (follows_reset hstart hfine)
    · have hgrown : w.file ++ p.before = shown ++ (more ++ p.before) := by rw [hfile, List.append_assoc]
      rw [readFrom, hpolled.cursor] at hfine
      rw [hpolled.cursor, hpolled.fileId, readLogSnapshot_next]
      dsimp only at hfine ⊢
      rw [boundedLogStart] at hfine ⊢
      split at hfine
      · rename_i hreset
        rw [if_pos hreset]
        have hstart : (w.file ++ p.before).length - tailBytes ≤ (complete (w.file ++ p.before)).length := by omega
        exact polled_read hstart hfine.1 (follows_reset hstart hfine)
      · rename_i hreset
        rw [if_neg hreset]
        rw [hgrown] at hfine ⊢
        have hplace := lineStart_complete shown (more ++ p.before)
        apply polled_read (complete_length_grows _ _) hfine.1
        rw [if_neg (by simp), hplace]
        exact follows_more hpolled.follows hfine hplace

end

/-! ## Following a log shows it redacted as a whole -/

theorem stands_poll {w : World} {p : Poll}
    (hshort : Short tailBytes w p) (hfine : Fine u codec isDumb tailBytes w p) (h : Stands u codec fileId w) :
    Stands u codec fileId (w.poll u codec isDumb tailBytes fileId p) :=
  .inr ⟨_, p.during, rfl, (poll_follows h hshort hfine).1⟩

/-- Where every poll reads from a place that no pattern matches across, the client sees the end of the redacted log after
every poll. -/
theorem follow_redacted (u : Unicode) (codec : Codec) (isDumb : Bool) (tailBytes : Nat) (fileId : String) (file : Bytes)
    (polls : List Poll)
    (hshort : Along (World.poll u codec isDumb tailBytes fileId) (Short tailBytes) ⟨file, Client.start⟩ polls)
    (hfine : Along (World.poll u codec isDumb tailBytes fileId) (Fine u codec isDumb tailBytes) ⟨file, Client.start⟩
      polls) :
    Along (World.poll u codec isDumb tailBytes fileId) (Shown u codec isDumb tailBytes fileId) ⟨file, Client.start⟩
      polls := by
  have hstands := (hshort.and hfine).always (I := Stands u codec fileId)
    (fun w p h hw => stands_poll h.1 h.2 hw) (.inl rfl)
  apply hstands.imp
  intro w p _ h
  obtain ⟨⟨hshort, hfine⟩, hw⟩ := h
  obtain ⟨hpolled, hbanner⟩ := poll_follows hw hshort hfine
  exact ⟨hpolled.follows, hbanner⟩

def bytes (s : String) : Bytes := s.toList.map fun c => c.toNat.toUInt8

def readyPolls : List Poll := [⟨bytes "up\nread", []⟩, ⟨bytes "y\n", []⟩]

theorem follow_ready : Along (World.poll .ascii .ascii false 1024 "1:2") (Shown .ascii .ascii false 1024 "1:2")
    ⟨[], Client.start⟩ readyPolls :=
  follow_redacted .ascii .ascii false 1024 "1:2" [] readyPolls (by decide +kernel) (by decide +kernel)

def tokenPolls : List Poll := [⟨bytes "token:\n", []⟩, ⟨bytes "abc\n", []⟩]

/-- The token is redacted in the whole log, and shown where a poll ends before it. -/
theorem follow_leaks : ¬Follows .ascii .ascii (bytes "token:\nabc\n")
    (World.run .ascii .ascii false 1024 "1:2" ⟨[], Client.start⟩ tokenPolls).client.text := by
  rintro ⟨skipped, htext, -⟩
  have hsuffix := List.isSuffixOf_iff_suffix.2 ⟨skipped, htext.symm⟩
  revert hsuffix
  decide +kernel

end Dumb.Logs
