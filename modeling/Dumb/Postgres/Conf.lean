import Dumb.Lib.Lines
import Dumb.Lib.Raise
import Dumb.Lib.Table

/-!
# The editor of postgresql.conf

`parse_postgresql_conf` and `write_postgresql_conf` of `api/routers/config.py`, on the text of the file.
-/

namespace Dumb.Postgres.Conf

open Py

inductive Bad where
  | name
  | separator (key : Chars)
  | noValue (key : Chars)
  | unterminated (key : Chars)
  | delimiter
  | afterQuote
  | unterminatedQuote
  | settingName (key : Chars)
  | type
  | lineBreak
  | line (number : Nat) (error : Bad)
  deriving DecidableEq

def isBlank (c : Char) : Bool := c = ' ' || c = '\t'

def keyStart (c : Char) : Bool := ('A' ≤ c && c ≤ 'Z') || ('a' ≤ c && c ≤ 'z') || c = '_'
def keyChar (c : Char) : Bool := keyStart c || ('0' ≤ c && c ≤ '9') || c = '.'
def bareChar (c : Char) : Bool := keyChar c || c = ':' || c = '+' || c = '-'

def settingKey : Chars → Bool
  | [] => false
  | c :: cs => keyStart c && cs.all keyChar

def bareValue (value : Chars) : Bool := !value.isEmpty && value.all bareChar

/-- The scan of `_split_postgresql_value_comment`: the text before the comment, the comment, and whether a quote is open
at the end. -/
def scan : Bool → Bool → Chars → Chars × Chars × Bool
  | quoted, _, [] => ([], [], quoted)
  | true, _, '\'' :: '\'' :: rest =>
    let scanned := scan true false rest
    ('\'' :: '\'' :: scanned.1, scanned.2)
  | quoted, odd, c :: rest =>
    if c = '#' && !quoted then ([], c :: rest, false)
    else
      let quoted := if c = '\'' && !odd then !quoted else quoted
      let scanned := scan quoted (c = '\\' && !odd) rest
      (c :: scanned.1, scanned.2)

def splitValueComment (value : Chars) : Chars × Chars × Bool :=
  let scanned := scan false false value
  let raw := rstripWhile isBlank scanned.1
  (raw, value.drop raw.length, scanned.2.2)

structure Parsed where
  indent : Chars
  key : Chars
  separator : Chars
  rawValue : Chars
  suffix : Chars
  newline : Chars

def chomp (line : Chars) : Chars × Chars :=
  match line.reverse with
  | '\n' :: '\r' :: body => (body.reverse, ['\r', '\n'])
  | '\n' :: body => (body.reverse, ['\n'])
  | _ => (line, [])

def separatorOf (tail : Chars) : Option Chars :=
  let blanks := tail.takeWhile isBlank
  match tail.dropWhile isBlank with
  | '=' :: rest => some (blanks ++ '=' :: rest.takeWhile isBlank)
  | _ => if blanks.isEmpty then none else some blanks

def parseSettingLine (line : Chars) : Except Bad (Option Parsed) :=
  let body := (chomp line).1
  let stripped := lstripWhile isSpace body
  if stripped.isEmpty || stripped.head? = some '#' then .ok none
  else
    let indent := body.takeWhile isBlank
    match body.dropWhile isBlank with
    | [] => .error .name
    | c :: rest =>
      if !keyStart c then .error .name
      else
        let key := c :: rest.takeWhile keyChar
        let tail := rest.dropWhile keyChar
        match separatorOf tail with
        | none => .error (.separator key)
        | some separator =>
          let value := splitValueComment (tail.drop separator.length)
          if value.1.isEmpty then .error (.noValue key)
          else if value.2.2 then .error (.unterminated key)
          else .ok (some ⟨indent, key, separator, value.1, value.2.1, (chomp line).2⟩)

def decodeFrom : Chars → Except Bad Chars
  | [] => .error .unterminatedQuote
  | '\'' :: '\'' :: rest => (decodeFrom rest).map ('\'' :: ·)
  | '\'' :: rest => if (stripSpace rest).isEmpty then .ok [] else .error .afterQuote
  | '\\' :: '\'' :: rest => (decodeFrom rest).map fun cs => '\\' :: '\'' :: cs
  | c :: rest => (decodeFrom rest).map (c :: ·)

def decodeValue (rawValue : Chars) : Except Bad (Chars × Bool) :=
  match stripSpace rawValue with
  | '\'' :: rest => (decodeFrom rest).map (·, true)
  | value => if '\'' ∈ value then .error .delimiter else .ok (value, false)

def readLine (line : Chars) : Except Bad (Option (Chars × Chars)) := do
  match ← parseSettingLine line with
  | none => .ok none
  | some parsed =>
    let (value, _) ← decodeValue parsed.rawValue
    .ok (some (parsed.key, value))

def readLines : Nat → List Chars → Dict Chars Chars → Except Bad (Dict Chars Chars)
  | _, [], config => .ok config
  | number, line :: rest, config =>
    match readLine line with
    | .error e => .error (.line number e)
    | .ok none => readLines (number + 1) rest config
    | .ok (some (key, value)) => readLines (number + 1) rest (config.set key value)

def parseConf (content : Chars) : Except Bad (Dict Chars Chars) := readLines 1 (fileLines content) []

/-! ## Writing -/

inductive Update where
  | flag (b : Bool)
  | number (shown : Chars) (plain : bareValue shown = true)
  | text (value : Chars)
  | other

def Update.normalize : Update → Except Bad Chars
  | .flag b => .ok (if b then ['o', 'n'] else ['o', 'f', 'f'])
  | .number shown _ => .ok shown
  | .text value =>
    if value.any fun c => c.toNat = 0 || c = '\n' || c = '\r' then .error .lineBreak
    else
      match stripSpace value with
      | '\'' :: rest => decodeFrom rest
      | _ => .ok value
  | .other => .error .type

def doubled (c : Char) : Chars := if c = '\'' then ['\'', '\''] else [c]

def quoted (value : Chars) : Chars := '\'' :: (value.flatMap doubled ++ ['\''])

def formatValue (value : Chars) (preferQuoted : Bool) : Chars :=
  if preferQuoted || !bareValue value then quoted value else value

def validateLines : Nat → List Chars → Except Bad Unit
  | _, [] => .ok ()
  | number, line :: rest =>
    match readLine line with
    | .error e => .error (.line number e)
    | .ok _ => validateLines (number + 1) rest

def settingLines : Nat → List Chars → Dict Chars (Nat × Parsed) → Except Bad (Dict Chars (Nat × Parsed))
  | _, [], found => .ok found
  | index, line :: rest, found => do
    match ← parseSettingLine line with
    | none => settingLines (index + 1) rest found
    | some parsed => settingLines (index + 1) rest (found.set parsed.key (index, parsed))

def Parsed.withValue (parsed : Parsed) (key formatted : Chars) : Chars :=
  parsed.indent ++ key ++ parsed.separator ++ formatted ++ parsed.suffix ++ parsed.newline

def terminate : List Chars → List Chars
  | [] => []
  | [line] => if Ended line then [line] else [line ++ ['\n']]
  | line :: rest => line :: terminate rest

def applyUpdates (found : Dict Chars (Nat × Parsed)) : Dict Chars Update → List Chars → Except Bad (List Chars)
  | [], lines => .ok lines
  | (key, value) :: rest, lines => do
    if !settingKey key then throw (.settingName key)
    let semanticValue ← value.normalize
    match found.get? key with
    | some (index, parsed) =>
      let (currentValue, wasQuoted) ← decodeValue parsed.rawValue
      if semanticValue = currentValue then applyUpdates found rest lines
      else applyUpdates found rest (lines.set index (parsed.withValue key (formatValue semanticValue wasQuoted)))
    | none => applyUpdates found rest (terminate lines ++ [key ++ [' ', '=', ' '] ++ formatValue semanticValue false ++ ['\n']])

def editedText (content : Chars) (updates : Dict Chars Update) : Except Bad Chars := do
  let lines := fileLines content
  let found ← settingLines 0 lines []
  let lines ← applyUpdates found updates lines
  validateLines 1 (splitlines lines.flatten)
  .ok lines.flatten

/-- What the call leaves in the file, and whether it raises; `writable`: the file can be replaced. -/
def writeConf (writable : Bool) (content : Chars) (updates : Dict Chars Update) : Chars × Bool :=
  match editedText content updates with
  | .ok text => if writable then (text, false) else (content, true)
  | .error _ => (content, true)

/-! ## Quoting -/

def clean : Chars → Bool
  | [] => true
  | c :: rest => (c != '\\' || (rest.head?.any fun d => d != '\'')) && clean rest

/-! ## Edits of postgresql.conf

What an edit should leave in the file, and on which files and updates it does.
-/

def Update.asText : Update → Chars
  | .flag b => if b then ['o', 'n'] else ['o', 'f', 'f']
  | .number shown _ => shown
  | .text value => value
  | .other => []

def Terminated (line line' : Chars) : Prop := line' = line ∨ (¬Ended line ∧ line' = line ++ ['\n'])

inductive Kept (updates : Dict Chars Update) (line line' : Chars) : Prop
  | same (h : Terminated line line')
  | updated {parsed parsed' : Parsed} (h : parseSettingLine line = .ok (some parsed)) (hkey : parsed.key ∈ updates.keys)
      (h' : parseSettingLine line' = .ok (some parsed')) (hsame : parsed'.key = parsed.key) (hsuffix : parsed'.suffix = parsed.suffix)

def added (settings : Dict Chars Chars) (updates : Dict Chars Update) : Dict Chars Update :=
  updates.filter fun u => (settings.get? u.1).isNone

structure Edited (content : Chars) (settings : Dict Chars Chars) (updates : Dict Chars Update) (content' : Chars) : Prop where
  read : ∃ settings', parseConf content' = .ok settings' ∧
    ∀ key, settings'.get? key = ((updates.get? key).map Update.asText).or (settings.get? key)
  lines : ∃ kept appended, fileLines content' = kept ++ appended ∧ appended.length = (added settings updates).length ∧
    List.Forall₂ (Kept updates) (fileLines content) kept
  unchanged : (∀ u ∈ updates, settings.get? u.1 = some u.2.asText) → content' = content

def Setting (key line : Chars) : Prop := ∃ value, readLine line = .ok (some (key, value))

structure Editable (content : Chars) (settings : Dict Chars Chars) (updates : Dict Chars Update) : Prop where
  unquoted : ∀ u ∈ updates, (stripSpace u.2.asText).head? ≠ some '\''
  clean : ∀ u ∈ updates, settings.get? u.1 ≠ some u.2.asText → clean u.2.asText = true
  /-- A setting with a new value has an end of its own after the value, unless it is on the last line and no setting is
  added before it. -/
  ended : ∀ before key value after, updates = before ++ (key, value) :: after → settings.get? key ≠ some value.asText →
    ∀ index line parsed, LastAt (Setting key) (fileLines content) index line → parseSettingLine line = .ok (some parsed) →
      parsed.newline = [] → parsed.suffix.getLast? ≠ some '\r' →
        index + 1 = (fileLines content).length ∧ added settings before = []

end Dumb.Postgres.Conf
