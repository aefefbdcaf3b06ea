import Mathlib.Data.List.Sort
import Dumb.Lib.Binary
import Dumb.Lib.Lines
import Dumb.Lib.Raise
import Dumb.Lib.Search
import Dumb.Lib.Text
import Dumb.Lib.Thread

/-!
# Rotating a log

`CustomRotatingFileHandler` from `utils/logger.py`. The files are those of the directory of the log, by name. A record is
its formatted text.
-/

namespace Dumb.Logs

open Py Re

structure Digits where
  is : Char → Bool
  value : Char → Nat
  ascii : ∀ c : Char, c.isDigit = true → is c = true ∧ value c = c.toNat - '0'.toNat
  dash : is '-' = false
  underscore : is '_' = false
  dot : is '.' = false

def Digits.arabic : Digits where
  is := Char.isDigit
  value c := c.toNat - '0'.toNat
  ascii _ h := ⟨h, rfl⟩
  dash := rfl
  underscore := rfl
  dot := rfl

/-! ## The names of rotated files -/

def dotLog : Chars := ['.', 'l', 'o', 'g']

def rotatedName (base date : Chars) (i : Nat) : Chars := base ++ '-' :: (date ++ '_' :: ((Nat.repr i).toList ++ dotLog))

def datedName (base date : Chars) : Chars := base ++ '-' :: (date ++ dotLog)

def stemOf (name : Chars) : Chars :=
  let stem := (name.reverse.dropWhile (· != '.')).drop 1 |>.reverse
  if stem.all (· == '.') then name else stem

def textLe : Chars → Chars → Bool
  | [], _ => true
  | _ :: _, [] => false
  | c :: cs, d :: ds => c.toNat < d.toNat || (c == d && textLe cs ds)

section
variable (digits : Digits)

def dateShape : List (Char → Bool) :=
  let d := digits.is
  [d, d, d, d, (· == '-'), d, d, (· == '-'), d, d]

def IsDate (date : Chars) : Prop := date.length = 10 ∧ fits (dateShape digits) date = true

instance (date : Chars) : Decidable (IsDate digits date) :=
  inferInstanceAs (Decidable (date.length = 10 ∧ fits (dateShape digits) date = true))

def firstDate (name : Chars) : Option Chars := (search (group (classes (dateShape digits))) name).map fun groups => groups.getD 0 []

def extractDate (name : Chars) : Chars := (firstDate digits name).getD ['9', '9', '9', '9', '-', '9', '9', '-', '9', '9']

def indexPattern : Re :=
  all [exactly ['_'], group (plus (char digits.is)), exactly dotLog, theEnd]

def extractIndex (name : Chars) : Nat :=
  match search (indexPattern digits) name with
  | some groups => (groups.getD 0 []).foldl (fun sofar c => 10 * sofar + digits.value c) 0
  | none => 0

/-- `-\d{4}-\d{2}-\d{2}(_\d+)?\.log$` behind the base name. -/
def basePattern (base : Chars) : Re :=
  seq (seq (exactly base) (seq (classes ((· == '-') :: dateShape digits))
    (seq (opt (seq (exactly ['_']) (plus (char digits.is)))) (exactly dotLog)))) theEnd

def matchesBase (base name : Chars) : Bool := !((basePattern digits base).run ⟨none, name, [], []⟩).isEmpty

end

/-! ## The handler -/

abbrev File := List Chars

abbrev Dir := Dict Chars File

inductive Op where
  | rename (src dst : Chars)
  | remove (name : Chars)
  | listdir
  deriving DecidableEq

structure LogHandler where
  files : Dir
  baseFilename : Chars
  isOpen : Bool
  rolloverAt : Nat
  deriving Repr

structure Clock (digits : Digits) where
  date : Nat → Chars
  computeRollover : Nat → Nat
  isDate (t : Nat) : IsDate digits (date t)
  mono {t t' : Nat} (h : t ≤ t') : textLe (date t) (date t') = true

structure Call where
  record : Chars
  time : Nat
  backupCount : Nat
  maxBytes : Nat
  fails : Op → Bool

abbrev Act := Thread LogHandler Op

def pathExists (name : Chars) : Act Bool := .read fun w => (Dict.get? name w.files).isSome

def remove (fails : Op → Bool) (name : Chars) : Act Unit := do
  let found ← pathExists name
  Thread.require (found && !fails (.remove name)) (.remove name)
  Thread.modify fun w => { w with files := Dict.erase name w.files }

def rename (fails : Op → Bool) (src dst : Chars) : Act Unit := do
  let file ← Thread.read fun w => Dict.get? src w.files
  let file ← Thread.ofExcept (orRaise (.rename src dst) file)
  Thread.require (!fails (.rename src dst)) (.rename src dst)
  Thread.modify fun w => { w with files := Dict.set dst file (Dict.erase src w.files) }

def replaceFile (fails : Op → Bool) (src dst : Chars) : Act Unit := do
  let taken ← pathExists dst
  if taken then remove fails dst
  rename fails src dst

def renumber (fails : Op → Bool) (base date : Chars) : Nat → Act Unit
  | 0 => pure ()
  | i + 1 => do
    let found ← pathExists (rotatedName base date (i + 1))
    if found then replaceFile fails (rotatedName base date (i + 1)) (rotatedName base date (i + 2))
    renumber fails base date i

section
variable (digits : Digits) (clock : Clock digits)

def deletedBefore (name other : Chars) : Bool :=
  if extractDate digits name = extractDate digits other then extractIndex digits name ≤ extractIndex digits other
  else textLe (extractDate digits name) (extractDate digits other)

def getFilesToDelete (backupCount : Nat) (base : Chars) (fileNames : List Chars) : List Chars :=
  let base := sub (classes ((· == '-') :: dateShape digits)) (fun _ => []) base
  let result := (fileNames.filter (matchesBase digits base)).insertionSort fun name other => deletedBefore digits name other
  if result.length ≤ backupCount then [] else result.take (result.length - backupCount)

def removeAll (fails : Op → Bool) : List Chars → Act Unit
  | [] => pure ()
  | name :: names => do
    remove fails name
    removeAll fails names

def openLog : Act Unit := Thread.modify fun w =>
  { w with
    files := if (Dict.get? w.baseFilename w.files).isSome then w.files else Dict.set w.baseFilename [] w.files
    isOpen := true }

def rolloverNames (stem currentDate : Chars) : Chars × Chars :=
  match firstDate digits stem with
  | some date => (replaceFrom ('-' :: date) [] 0 stem, date)
  | none => (stem, currentDate)

def doRollover (call : Call) : Act Unit := do
  Thread.modify fun w => { w with isOpen := false }
  let baseFilename ← Thread.read LogHandler.baseFilename
  let currentDate := clock.date call.time
  let names := rolloverNames digits (stemOf baseFilename) currentDate
  renumber call.fails names.1 names.2 (call.backupCount - 1)
  replaceFile call.fails baseFilename (rotatedName names.1 names.2 1)
  if 0 < call.backupCount then
    Thread.require (!call.fails .listdir) .listdir
    let fileNames ← Thread.read fun w => Dict.keys w.files
    removeAll call.fails (getFilesToDelete digits call.backupCount names.1 fileNames)
  if (firstDate digits (stemOf baseFilename)).isSome then
    Thread.modify fun w => { w with baseFilename := datedName names.1 currentDate }
  openLog
  Thread.modify fun w => { w with rolloverAt := clock.computeRollover call.time }

def sizeOf (file : File) : Nat := (file.map fun record => (String.ofList record).utf8ByteSize + 1).sum

def shouldRollover (call : Call) (w : LogHandler) : Bool :=
  if 0 < call.maxBytes then
    match Dict.get? w.baseFilename w.files with
    | some file => call.maxBytes ≤ sizeOf file + call.record.length || w.rolloverAt ≤ call.time
    | none => false
  else w.rolloverAt ≤ call.time

/-- `StreamHandler.emit`: the name of the file that the record reaches. -/
def write (record : Chars) (w : LogHandler) : Option Chars × LogHandler :=
  if w.isOpen then
    (some w.baseFilename,
      { w with files := Dict.set w.baseFilename ((Dict.get? w.baseFilename w.files).getD [] ++ [record]) w.files })
  else (none, w)

def emit (call : Call) (w : LogHandler) : Option Chars × LogHandler :=
  if shouldRollover call w then
    match (doRollover digits clock call).run w with
    | (.ok _, w') => write call.record w'
    | (.error _, w') => (none, w')
  else write call.record w

end

end Dumb.Logs
