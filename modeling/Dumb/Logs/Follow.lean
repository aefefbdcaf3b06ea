import Dumb.Lib.Raise
import Dumb.Logs.Redaction

/-!
# Following a log

From `api/routers/logs.py`. A log file is its bytes, and only grows. The client sends back the cursor and the file id of
the last answer.
-/

namespace Dumb.Logs

open Py

abbrev Bytes := List UInt8

def newline : UInt8 := 10

def carriageReturn : UInt8 := 13

def complete (data : Bytes) : Bytes := (data.reverse.dropWhile fun b => b ≠ newline).reverse

def readline (data : Bytes) : Bytes := (data.takeWhile fun b => b ≠ newline) ++ (data.dropWhile fun b => b ≠ newline).take 1

structure Codec where
  /-- `data.decode("utf-8", "replace")` -/
  decode : Bytes → List Char
  decode_nil : decode [] = []
  decode_line (line rest : Bytes) : decode (line ++ newline :: rest) = decode (line ++ [newline]) ++ decode rest
  readText : Bytes → Option (List Char)

def Codec.ascii : Codec where
  decode data := data.map fun b => Char.ofNat b.toNat
  decode_nil := rfl
  decode_line line rest := by simp
  readText data := some (data.map fun b => Char.ofNat b.toNat)

def readlines : List Char → List (List Char)
  | [] => []
  | c :: cs =>
    if c = '\n' then [c] :: readlines cs
    else
      match readlines cs with
      | [] => [[c]]
      | line :: lines => (c :: line) :: lines

def isInfix (needle : List Char) : List Char → Bool
  | [] => needle.isEmpty
  | c :: cs => needle.isPrefixOf (c :: cs) || isInfix needle cs

section
variable (u : Unicode)

def isInfo (line : List Char) : Bool := isInfix " - INFO - ".toList line

def isBanner (line : List Char) : Bool := "DDDDDDDDDDDDD".toList.isPrefixOf (line.dropWhile u.space)

def startsBanner (lines : List (List Char)) : Bool :=
  match lines with
  | info :: _ :: banner :: _ => isInfo info && isBanner u banner
  | _ => false

def splitAtBanner : List (List Char) → Option (List (List Char) × List (List Char))
  | [] => none
  | line :: lines =>
    match splitAtBanner lines with
    | some (before, after) => some (line :: before, after)
    | none => if startsBanner u (line :: lines) then some ([], line :: lines) else none

def sinceBanner (text : List Char) : List Char × List Char :=
  match splitAtBanner u (readlines text) with
  | some (before, after) => (before.flatten, after.flatten)
  | none => ([], text)

variable (codec : Codec)

def filterDumbLog (file : Bytes) : List Char :=
  match codec.readText file with
  | none => []
  | some text => (sinceBanner u text).2

def readCompleteChunk (file : Bytes) (start snapshotSize : Nat) : Bytes × Nat :=
  let safeStart :=
    if start = 0 ∨ file[start - 1]? = some newline ∨ file[start - 1]? = some carriageReturn then start
    else start + (readline ((file.drop start).take (snapshotSize - start))).length
  let data := (file.drop safeStart).take (snapshotSize - safeStart)
  (complete data, safeStart + (complete data).length)

def boundedLogStart (size cursor tailBytes : Nat) : Nat × Bool :=
  if cursor > size ∨ size - cursor > tailBytes then (size - tailBytes, true) else (cursor, false)

structure Answer where
  size : Nat
  cursor : Nat
  chunk : List Char
  reset : Bool
  fileId : String

def readLogSnapshot (file : Bytes) (size : Nat) (fileId : String) (cursor : Option Nat) (tailBytes : Nat)
    (expectedFileId : Option String) : Bytes × Nat × Bool :=
  let (start, reset) :=
    match cursor with
    | none => (size - tailBytes, true)
    | some c =>
      if expectedFileId.any fun expected => expected ≠ fileId then (size - tailBytes, true)
      else boundedLogStart size c tailBytes
  let (data, safeCursor) := readCompleteChunk file start size
  (data, safeCursor, reset)

def getLogFile (isDumb : Bool) (tailBytes : Nat) (file more : Bytes) (fileId : String) (cursor : Option Nat)
    (expectedFileId : Option String) : Answer :=
  if cursor = none ∧ isDumb then
    ⟨file.length, file.length, redact u (filterDumbLog u codec (file ++ more)), true, fileId⟩
  else
    let (data, newCursor, reset) := readLogSnapshot (file ++ more) file.length fileId cursor tailBytes expectedFileId
    ⟨file.length, newCursor, redact u (codec.decode data), reset, fileId⟩

/-! ## Polls -/

structure Client where
  cursor : Option Nat
  fileId : Option String
  text : List Char

structure World where
  file : Bytes
  client : Client

structure Poll where
  before : Bytes
  during : Bytes

def Client.start : Client := ⟨none, none, []⟩

def Client.take (client : Client) (answer : Answer) : Client where
  cursor := some answer.cursor
  fileId := some answer.fileId
  text := if answer.reset then answer.chunk else client.text ++ answer.chunk

variable (isDumb : Bool) (tailBytes : Nat) (fileId : String)

def World.poll (w : World) (p : Poll) : World where
  file := w.file ++ p.before ++ p.during
  client := w.client.take
    (getLogFile u codec isDumb tailBytes (w.file ++ p.before) p.during fileId w.client.cursor w.client.fileId)

def World.run (w : World) (polls : List Poll) : World := polls.foldl (World.poll u codec isDumb tailBytes fileId) w

/-! ## What the client is to see -/

def EndsLine {α : Type} (newline : α) (text : List α) : Prop := text = [] ∨ ∃ init, text = init ++ [newline]

instance {α : Type} [DecidableEq α] (newline : α) (text : List α) : Decidable (EndsLine newline text) :=
  decidable_of_iff (text = [] ∨ text.getLast? = some newline) <| or_congr_right List.getLast?_eq_some_iff

/-- The text is the end, from the start of a line on, of what the complete lines of the file are redacted to. -/
def Follows (file : Bytes) (text : List Char) : Prop :=
  ∃ skipped, redact u (codec.decode (complete file)) = skipped ++ text ∧ EndsLine '\n' skipped

def lineStart (file : Bytes) (start : Nat) : Nat :=
  if start = 0 ∨ file[start - 1]? = some newline then start else start + (readline (file.drop start)).length

def readFrom (w : World) (file : Bytes) : Nat × Bool :=
  match w.client.cursor with
  | none => (file.length - tailBytes, true)
  | some cursor => boundedLogStart file.length cursor tailBytes

/-- No pattern matches across the place, and no line break before it is lost where nothing before it is shown. -/
def Splits (before after : List Char) (alone : Bool) : Prop :=
  redact u (before ++ after) = redact u before ++ redact u after ∧ (alone = true → EndsLine '\n' (redact u before))

instance (before after : List Char) (alone : Bool) : Decidable (Splits u before after alone) :=
  inferInstanceAs (Decidable (_ ∧ _))

/-- The first answer for DUMB's own log: nothing is written while it is read, the last line is complete, and in text mode the
file reads as it is decoded. -/
def FineBanner (file during : Bytes) : Prop :=
  during = [] ∧ EndsLine newline file ∧ codec.readText file = some (codec.decode file) ∧
    Splits u (sinceBanner u (codec.decode file)).1 (sinceBanner u (codec.decode file)).2 true

instance (file during : Bytes) : Decidable (FineBanner u codec file during) := inferInstanceAs (Decidable (_ ∧ _))

def FineRead (file : Bytes) (start : Nat) (reset : Bool) : Prop :=
  (start ≠ 0 → file[start - 1]? ≠ some carriageReturn) ∧
    Splits u (codec.decode ((complete file).take (lineStart file start)))
      (codec.decode ((complete file).drop (lineStart file start))) reset

instance (file : Bytes) (start : Nat) (reset : Bool) : Decidable (FineRead u codec file start reset) :=
  inferInstanceAs (Decidable (_ ∧ _))

def Fine (w : World) (p : Poll) : Prop :=
  let file := w.file ++ p.before
  if w.client.cursor = none ∧ isDumb then FineBanner u codec file p.during
  else FineRead u codec file (readFrom tailBytes w file).1 (readFrom tailBytes w file).2

instance (w : World) (p : Poll) : Decidable (Fine u codec isDumb tailBytes w p) :=
  if h : w.client.cursor = none ∧ isDumb then
    decidable_of_iff (FineBanner u codec (w.file ++ p.before) p.during) (by rw [Fine, if_pos h])
  else
    decidable_of_iff (FineRead u codec (w.file ++ p.before) (readFrom tailBytes w (w.file ++ p.before)).1
      (readFrom tailBytes w (w.file ++ p.before)).2) (by rw [Fine, if_neg h])

def Short (w : World) (p : Poll) : Prop :=
  (w.file ++ p.before).length ≤ (complete (w.file ++ p.before)).length + tailBytes

instance (w : World) (p : Poll) : Decidable (Short tailBytes w p) := inferInstanceAs (Decidable (_ ≤ _))

/-- After a poll the client sees what it is to see, from the last banner on where it asked for DUMB's own log first. -/
def Shown (w : World) (p : Poll) : Prop :=
  Follows u codec (w.file ++ p.before) (w.poll u codec isDumb tailBytes fileId p).client.text ∧
    (w.client.cursor = none → isDumb = true → (w.poll u codec isDumb tailBytes fileId p).client.text =
      redact u (sinceBanner u (codec.decode (complete (w.file ++ p.before)))).2)

end

end Dumb.Logs
