import Dumb.Postgres.Conf

/-!
# The refresh of postgresql.conf at the start

`update_postgresql_conf` of `utils/postgres.py`: every line that begins with a key of the `postgres` section, active or
commented, is replaced. What it should leave for the parser of the editor, and when it does.
-/

namespace Dumb.Postgres.Conf

open Py

/-- A value of the section. Floats, lists and dicts come with their truth and their `str`. -/
inductive ConfigValue where
  | text (value : Chars)
  | int (n : Int)
  | flag (b : Bool)
  | none
  | other (truthy : Bool) (shown : Chars)

def ConfigValue.truthy : ConfigValue → Bool
  | .text value => !value.isEmpty
  | .int n => n ≠ 0
  | .flag b => b
  | .none => false
  | .other truthy _ => truthy

def ConfigValue.shown : ConfigValue → Chars
  | .text value => value
  | .int n => (toString n).toList
  | .flag b => (if b then "True" else "False").toList
  | .none => "None".toList
  | .other _ shown => shown

def universal : Chars → Chars
  | [] => []
  | '\r' :: '\n' :: rest => '\n' :: universal rest
  | '\r' :: rest => '\n' :: universal rest
  | c :: rest => c :: universal rest

def endsRead (c : Char) : Bool := c = '\n'

def mentions (strippedLine key : Chars) : Bool :=
  (key ++ [' ']).isPrefixOf strippedLine || ('#' :: (key ++ [' '])).isPrefixOf strippedLine

def newLine (key : Chars) (value : ConfigValue) : Chars :=
  if value.truthy then key ++ [' ', '=', ' '] ++ value.shown ++ ['\n'] else '#' :: (key ++ [' ', '=', ' ', '\n'])

def mentioned (postgresConfig : Dict Chars ConfigValue) (line : Chars) : Option (Chars × ConfigValue) :=
  postgresConfig.find? fun item => mentions (stripSpace line) item.1

def refreshLine (postgresConfig : Dict Chars ConfigValue) (line : Chars) : Chars :=
  match mentioned postgresConfig line with
  | some (key, value) => newLine key value
  | none => line

def updatePostgresqlConf (postgresConfig : Dict Chars ConfigValue) (content : Chars) : Chars :=
  ((linesBy endsRead (universal content)).map (refreshLine postgresConfig)).flatten

/-! ## What the refresh should leave -/

def managed : List Chars := ["port".toList, "max_connections".toList, "shared_buffers".toList]

/-- The value that a key should have: the configured one where the file sets a managed key, the old one of other keys. -/
def Wanted (settings : Dict Chars Chars) (postgresConfig : Dict Chars ConfigValue) (key : Chars) (value : Option Chars) : Prop :=
  if key ∈ managed then
    settings.get? key ≠ none → ∀ configured, postgresConfig.get? key = some configured → value = some configured.shown
  else value = settings.get? key

structure Agrees (content : Chars) (settings : Dict Chars Chars) (postgresConfig : Dict Chars ConfigValue) : Prop where
  accepted : ∃ settings', parseConf (updatePostgresqlConf postgresConfig content) = .ok settings' ∧
    ∀ key, Wanted settings postgresConfig key (settings'.get? key)
  again : updatePostgresqlConf postgresConfig (updatePostgresqlConf postgresConfig content) = updatePostgresqlConf postgresConfig content

/-! ## When it does -/

def Left (postgresConfig : Dict Chars ConfigValue) (key line : Chars) : Prop :=
  mentioned postgresConfig line = none ∧ Setting key line

def About (postgresConfig : Dict Chars ConfigValue) (key line : Chars) : Prop :=
  (∃ value, mentioned postgresConfig line = some (key, value)) ∨ Left postgresConfig key line

structure Refreshable (content : Chars) (settings : Dict Chars Chars) (postgresConfig : Dict Chars ConfigValue) : Prop where
  kept : ∀ line ∈ fileLines content, mentioned postgresConfig line = none → ∀ parsed,
    parseSettingLine line = .ok (some parsed) → parsed.rawValue ≠ ['\r']
  replaced : ∀ line ∈ fileLines content, ∀ key value, mentioned postgresConfig line = some (key, value) → value.truthy = true →
    Piece (newLine key value) ∧ ∃ read, readLine (newLine key value) = .ok read
  last : ∀ key value, postgresConfig.get? key = some value → value.truthy = true →
    ∀ i line read, LastAt (About postgresConfig key) (fileLines content) i line →
      readLine (refreshLine postgresConfig line) = .ok (some (key, read)) → Wanted settings postgresConfig key (some read)
  /-- Where the lines of a key are commented, those that are kept have the wanted value. -/
  commented : ∀ key value, postgresConfig.get? key = some value → value.truthy = false →
    (∀ i line read, LastAt (Left postgresConfig key) (fileLines content) i line → readLine line = .ok (some (key, read)) →
      Wanted settings postgresConfig key (some read)) ∧
    ((∀ line ∈ fileLines content, ¬Left postgresConfig key line) → Wanted settings postgresConfig key none)

end Dumb.Postgres.Conf
