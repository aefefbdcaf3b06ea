import Mathlib.Data.List.Forall2
import Mathlib.Data.List.Perm.Basic
import Dumb.Lib.Raise
import Dumb.Lib.Binary

/-!
# Digests of the imported rows

`_convert_value`, `_normalize_digest_value`, `_digest_rows` and `_validate_full_row_digests` of
`utils/arr_postgres_migration.py`. The floats, dates and UUIDs of Python's library are parameters, with what it documents of
them. The digest of a text is the number its SHA-256 is.
-/

namespace Dumb.Postgres.Digest

open Py

inductive DataType where
  | boolean
  | smallint
  | integer
  | bigint
  | real
  | doublePrecision
  | uuid
  | bytea
  | timestampWithTimeZone
  | timestampWithoutTimeZone
  | other (name : String)
  deriving DecidableEq

/-- Microseconds of the wall clock, and `utcoffset()` of one that is aware. -/
structure Datetime where
  clock : Int
  offset : Option Int
  deriving DecidableEq

/-- A value as `sqlite3` returns it, as it is converted, or as the driver returns it. -/
inductive Val (φ : Type) where
  | none
  | bool (b : Bool)
  | int (n : Int)
  | float (x : φ)
  | str (s : String)
  | bytes (b : List UInt8)
  | datetime (d : Datetime)
  deriving DecidableEq

structure Library where
  Float : Type
  strip : String → String
  lower : String → String
  /-- `str` of a float, of bytes and of a date -/
  floatStr : Float → String
  bytesStr : List UInt8 → String
  datetimeStr : Datetime → String
  /-- `float(text)`, `int(text)`, `int(bytes)`, `int(x)`, where they do not raise -/
  floatOfText : String → Option Float
  intOfText : String → Option Int
  intOfBytes : List UInt8 → Option Int
  intOfFloat : Float → Option Int
  wholeFloat : Float → Option Int
  floatOfInt : Int → Option Float
  /-- `n / 1000`, `x / 1000`, `abs(x) > 100_000_000_000` -/
  intDiv1000 : Int → Float
  floatDiv1000 : Float → Float
  exceeds : Float → Bool
  /-- The UTC clock of `datetime.fromtimestamp(x, tz=timezone.utc)` -/
  clockOfFloat : Float → Option Int
  clockOfInt : Int → Option Int
  /-- `datetime.fromisoformat` -/
  fromisoformat : String → Option Datetime
  inRange : Int → Bool
  /-- `isoformat(timespec="microseconds")` of a date without its offset -/
  isoformat : Int → String
  /-- `str(uuid.UUID(text))` -/
  canonicalUuid : String → Option String
  floatStr_injective : ∀ x y, floatStr x = floatStr y → x = y
  floatStr_int : ∀ n x, floatOfInt n = some x → floatStr x ≠ toString n
  wholeFloat_int : ∀ x n, wholeFloat x = some n → intOfFloat x = some n
  isoformat_injective : ∀ c c', isoformat c = isoformat c' → c = c'
  canonicalUuid_idem : ∀ s t, canonicalUuid s = some t → canonicalUuid t = some t

inductive Exn where
  | migration (message : String)
  | python
  deriving DecidableEq

variable (lib : Library)

inductive Numeric (φ : Type) where
  | int (n : Int)
  | float (x : φ)

def numeric : Val lib.Float → Option (Numeric lib.Float)
  | .bool b => some (.int b.toInt)
  | .int n => some (.int n)
  | .float x => some (.float x)
  | .str s => (lib.floatOfText s).map .float
  | _ => none

def fromNumeric : Numeric lib.Float → Option Int
  | .int n => if n.natAbs > 100000000000 then lib.clockOfFloat (lib.intDiv1000 n) else lib.clockOfInt n
  | .float x => lib.clockOfFloat (if lib.exceeds x then lib.floatDiv1000 x else x)

def convertBoolean : Val lib.Float → Except Exn (Val lib.Float)
  | .bool b => .ok (.bool b)
  | .int n =>
    if n = 0 then .ok (.bool false) else if n = 1 then .ok (.bool true)
    else .error (.migration "SQLite boolean values must be exactly 0 or 1.")
  | .float x =>
    match lib.wholeFloat x with
    | some 0 => .ok (.bool false)
    | some 1 => .ok (.bool true)
    | _ => .error (.migration "SQLite boolean values must be exactly 0 or 1.")
  | .str s =>
    let normalized := lib.lower (lib.strip s)
    if normalized ∈ ["0", "false"] then .ok (.bool false)
    else if normalized ∈ ["1", "true"] then .ok (.bool true)
    else .error (.migration "SQLite boolean values must be exactly 0/1 or true/false.")
  | _ => .error (.migration "SQLite boolean values must be exactly 0/1 or true/false.")

def convertTimestamp (value : Val lib.Float) : Except Exn (Val lib.Float) :=
  match numeric lib value with
  | some n => (orRaise .python (fromNumeric lib n)).map fun clock => .datetime ⟨clock, some 0⟩
  | none => .ok value

def convertValue (value : Val lib.Float) (dataType : DataType) : Except Exn (Val lib.Float) :=
  match value with
  | .none => .ok .none
  | value =>
    match dataType with
    | .boolean => convertBoolean lib value
    | .smallint | .integer | .bigint =>
      match value with
      | .bool b => .ok (.int b.toInt)
      | value => .ok value
    | .timestampWithTimeZone | .timestampWithoutTimeZone => convertTimestamp lib value
    | _ => .ok value

/-! ## Normal forms -/

inductive Normal where
  | null
  | boolean (b : Bool)
  | tagged (tag text : String)

def pyStr : Val lib.Float → String
  | .none => "None"
  | .bool b => if b then "True" else "False"
  | .int n => toString n
  | .float x => lib.floatStr x
  | .str s => s
  | .bytes b => lib.bytesStr b
  | .datetime d => lib.datetimeStr d

def pyInt : Val lib.Float → Except Exn Int
  | .bool b => .ok b.toInt
  | .int n => .ok n
  | .float x => orRaise .python (lib.intOfFloat x)
  | .str s => orRaise (.migration "A SQLite integer value could not be normalized for validation.") (lib.intOfText s)
  | .bytes b => orRaise (.migration "A SQLite integer value could not be normalized for validation.") (lib.intOfBytes b)
  | _ => .error (.migration "A SQLite integer value could not be normalized for validation.")

def hexDigit (n : Nat) : Char := "0123456789abcdef".toList.getD n '0'

def hex (b : List UInt8) : String :=
  String.ofList (b.flatMap fun x => [hexDigit (x.toNat / 16), hexDigit (x.toNat % 16)])

/-- The text of a timestamp as it is given to `fromisoformat`. -/
def isoCandidate (s : String) : String :=
  let candidate := lib.strip s
  if candidate.toList.getLast? = some 'Z' ∨ candidate.toList.getLast? = some 'z' then
    String.ofList candidate.toList.dropLast ++ "+00:00"
  else candidate

def datetimeOf : Val lib.Float → Except Exn Datetime
  | .datetime d => .ok d
  | .str s =>
    orRaise (.migration "A SQLite timestamp could not be normalized for validation.") (lib.fromisoformat (isoCandidate lib s))
  | _ => .error (.migration "A SQLite timestamp could not be normalized for validation.")

def utcClock (clock offset : Int) : Except Exn Int :=
  if lib.inRange (clock - offset) then .ok (clock - offset) else .error .python

def timestampValue : DataType → Datetime → Except Exn String
  | .timestampWithoutTimeZone, ⟨clock, none⟩ => .ok (lib.isoformat clock)
  | .timestampWithoutTimeZone, ⟨clock, some offset⟩ => (utcClock lib clock offset).map lib.isoformat
  | _, ⟨clock, offset⟩ => (utcClock lib clock (offset.getD 0)).map fun clock => lib.isoformat clock ++ "+00:00"

def normalizeTimestamp (value : Val lib.Float) (dataType : DataType) : Except Exn Normal := do
  let converted ← convertValue lib value dataType
  let d ← datetimeOf lib converted
  let text ← timestampValue lib dataType d
  pure (.tagged "timestamp" text)

def normalizeDigestValue (value : Val lib.Float) (dataType : DataType) : Except Exn Normal :=
  match value with
  | .none => .ok .null
  | value =>
    match dataType with
    | .boolean => do
      match ← convertValue lib value .boolean with
      | .bool b => pure (.boolean b)
      | _ => throw .python
    | .smallint | .integer | .bigint => (pyInt lib value).map fun n => .tagged "integer" (toString n)
    | .uuid =>
      (orRaise (.migration "A SQLite UUID value could not be normalized for validation.")
        (lib.canonicalUuid (pyStr lib value))).map (.tagged "uuid")
    | .bytea =>
      match value with
      | .bytes b => .ok (.tagged "bytea" (hex b))
      | _ => .error (.migration "A SQLite binary value could not be normalized for validation.")
    | .timestampWithTimeZone | .timestampWithoutTimeZone => normalizeTimestamp lib value dataType
    | _ => .ok (.tagged "text" (pyStr lib value))

/-! ## Rows -/

/-- A character as `json.dumps(…, ensure_ascii=False)` writes it. -/
def escapeChar (c : Char) : List Char :=
  if c = '\x22' then ['\\', '\x22']
  else if c = '\\' then ['\\', '\\']
  else if c = '\n' then ['\\', 'n']
  else if c = '\r' then ['\\', 'r']
  else if c = '\t' then ['\\', 't']
  else if c = '\x08' then ['\\', 'b']
  else if c = '\x0c' then ['\\', 'f']
  else if c.toNat < 32 then ['\\', 'u', '0', '0', hexDigit (c.toNat / 16), hexDigit (c.toNat % 16)]
  else [c]

def quoteJson (s : String) : List Char := ['\x22'] ++ s.toList.flatMap escapeChar ++ ['\x22']

def Normal.dumps : Normal → List Char
  | .null => "null".toList
  | .boolean b => ['\x7b'] ++ quoteJson "boolean" ++ [':'] ++ (if b then "true" else "false").toList ++ ['\x7d']
  | .tagged tag text => ['\x7b'] ++ quoteJson tag ++ [':'] ++ quoteJson text ++ ['\x7d']

/-- `json.dumps(normalized, separators=(",", ":"), ensure_ascii=False)` -/
def dumpsRow (normalized : List Normal) : String :=
  String.ofList (['['] ++ [','].intercalate (normalized.map Normal.dumps) ++ [']'])

def normalizeRow (types : List DataType) (sourceValues : Bool) (row : List (Val lib.Float)) :
    Except Exn (List Normal) :=
  if row.length = types.length then
    (row.zip types).mapM fun cell => do
      let value ← if sourceValues then convertValue lib cell.1 cell.2 else pure cell.1
      normalizeDigestValue lib value cell.2
  else .error (.migration "A database row did not match the expected validation columns.")

structure RowDigest where
  count : Nat
  xor : BitVec 256
  sum : BitVec 256
  deriving DecidableEq

def RowDigest.add (d : RowDigest) (numeric : BitVec 256) : RowDigest :=
  ⟨d.count + 1, d.xor ^^^ numeric, d.sum + numeric⟩

variable (sha256 : String → BitVec 256)

/-- `_digest_rows`; the hexadecimal texts of `xor` and `sum` are these numbers. -/
def digestRows (types : List DataType) (sourceValues : Bool) (rows : List (List (Val lib.Float))) :
    Except Exn RowDigest :=
  rows.foldlM (fun d row => do
    let normalized ← normalizeRow lib types sourceValues row
    pure (d.add (sha256 (dumpsRow normalized)))) ⟨0, 0, 0⟩

structure TableRows where
  name : String
  columns : List String
  targetColumns : List (String × DataType)
  source : List (List (Val lib.Float))
  target : List (List (Val lib.Float))

def TableRows.dataTypes {lib : Library} (t : TableRows lib) : List DataType :=
  t.columns.filterMap fun column => List.lookup column t.targetColumns

def validateFullRowDigests (tables : List (TableRows lib)) : Except Exn Nat :=
  tables.foldlM (fun validated t => do
    if t.columns.all fun column => (List.lookup column t.targetColumns).isSome then pure ()
    else throw (.migration ("PostgreSQL table " ++ t.name ++ " is missing columns for content validation."))
    let sourceDigest ← digestRows lib sha256 t.dataTypes true t.source
    let targetDigest ← digestRows lib sha256 t.dataTypes false t.target
    if targetDigest = sourceDigest then pure (validated + 1)
    else throw (.migration ("Full-row content validation failed for PostgreSQL table " ++ t.name ++ "."))) 0

end Dumb.Postgres.Digest

/-! ## Texts and sums of rows

The JSON text of a row determines it, and a digest does not depend on the order of the rows.
-/

namespace Dumb.Postgres.Digest

open Py

/-! ## JSON texts -/

def digitOf (c : Char) : Nat := "0123456789abcdef".toList.idxOf c

theorem digitOf_hexDigit {n : Nat} (h : n < 16) : digitOf (hexDigit n) = n := by
  have hall : ∀ n < 16, digitOf (hexDigit n) = n := by decide
  exact hall n h

theorem hexDigits_inj {m n : Nat} (hm : m < 256) (hn : n < 256) (hhigh : hexDigit (m / 16) = hexDigit (n / 16))
    (hlow : hexDigit (m % 16) = hexDigit (n % 16)) : m = n := by
  have hdiv := congrArg digitOf hhigh
  have hmod := congrArg digitOf hlow
  rw [digitOf_hexDigit (by omega), digitOf_hexDigit (by omega)] at hdiv hmod
  omega

def unescape : List Char → Option (Char × List Char)
  | [] => none
  | c :: rest =>
    if c = '\\' then
      match rest with
      | 'n' :: rest => some ('\n', rest)
      | 'r' :: rest => some ('\r', rest)
      | 't' :: rest => some ('\t', rest)
      | 'b' :: rest => some ('\x08', rest)
      | 'f' :: rest => some ('\x0c', rest)
      | 'u' :: _ :: _ :: high :: low :: rest => some (Char.ofNat (16 * digitOf high + digitOf low), rest)
      | c :: rest => some (c, rest)
      | [] => none
    else some (c, rest)

theorem unescape_escapeChar (c : Char) (rest : List Char) : unescape (escapeChar c ++ rest) = some (c, rest) := by
  simp only [escapeChar]
  split_ifs with h₁ h₂ h₃ h₄ h₅ h₆ h₇ h₈
  · rw [h₁]; rfl
  · rw [h₂]; rfl
  · rw [h₃]; rfl
  · rw [h₄]; rfl
  · rw [h₅]; rfl
  · rw [h₆]; rfl
  · rw [h₇]; rfl
  · have hnumber : 16 * digitOf (hexDigit (c.toNat / 16)) + digitOf (hexDigit (c.toNat % 16)) = c.toNat := by
      rw [digitOf_hexDigit (by omega), digitOf_hexDigit (by omega)]
      omega
    change some (Char.ofNat _, rest) = some (c, rest)
    rw [hnumber, Char.ofNat_toNat]
  · simp [unescape, h₂]

variable {r r' : List Char}

theorem escapeChar_inj {c c' : Char} (h : escapeChar c ++ r = escapeChar c' ++ r') :
    c = c' ∧ r = r' := by
  have heq := congrArg unescape h
  rw [unescape_escapeChar, unescape_escapeChar, Option.some.injEq, Prod.mk.injEq] at heq
  exact heq

theorem escapeChar_ne_quote (c : Char) (r r' : List Char) : escapeChar c ++ r ≠ '\x22' :: r' := by
  intro h
  have hc : c = '\x22' := by
    have heq := congrArg unescape h
    rw [unescape_escapeChar] at heq
    exact congrArg Prod.fst (Option.some.inj heq)
  rw [hc] at h
  cases h

theorem flatMap_escapeChar_inj {s s' r r' : List Char}
    (h : s.flatMap escapeChar ++ '\x22' :: r = s'.flatMap escapeChar ++ '\x22' :: r') : s = s' ∧ r = r' := by
  induction s generalizing s' with
  | nil =>
    cases s' with
    | nil => exact ⟨rfl, (List.cons.inj h).2⟩
    | cons c' s' =>
      rw [List.flatMap_cons, List.append_assoc] at h
      exact absurd h.symm (escapeChar_ne_quote c' _ _)
  | cons c s ih =>
    cases s' with
    | nil =>
      rw [List.flatMap_cons, List.append_assoc] at h
      exact absurd h (escapeChar_ne_quote c _ _)
    | cons c' s' =>
      rw [List.flatMap_cons, List.flatMap_cons, List.append_assoc, List.append_assoc] at h
      obtain ⟨hc, hrest⟩ := escapeChar_inj h
      obtain ⟨hs, hr⟩ := ih hrest
      exact ⟨by rw [hc, hs], hr⟩

theorem quoteJson_inj {s s' : String} (h : quoteJson s ++ r = quoteJson s' ++ r') :
    s = s' ∧ r = r' := by
  simp only [quoteJson, List.append_assoc, List.cons_append, List.nil_append, List.cons.injEq, true_and] at h
  obtain ⟨hs, hr⟩ := flatMap_escapeChar_inj h
  exact ⟨String.toList_inj.1 hs, hr⟩

theorem dumps_inj {n n' : Normal} (h : n.dumps ++ r = n'.dumps ++ r') : n = n' ∧ r = r' := by
  cases n with
  | null =>
    cases n' with
    | null => exact ⟨rfl, List.append_cancel_left h⟩
    | boolean b => cases h
    | tagged tag text => cases h
  | boolean b =>
    cases n' with
    | null => cases h
    | boolean b' =>
      simp only [Normal.dumps, List.append_assoc, List.append_cancel_left_eq] at h
      cases b <;> cases b' <;> cases h <;> exact ⟨rfl, rfl⟩
    | tagged tag text =>
      simp only [Normal.dumps, List.append_assoc, List.append_cancel_left_eq] at h
      have htext := (quoteJson_inj h).2
      cases b <;> cases htext
  | tagged tag text =>
    cases n' with
    | null => cases h
    | boolean b =>
      simp only [Normal.dumps, List.append_assoc, List.append_cancel_left_eq] at h
      have htext := (quoteJson_inj h).2
      cases b <;> cases htext
    | tagged tag' text' =>
      simp only [Normal.dumps, List.append_assoc, List.append_cancel_left_eq] at h
      obtain ⟨rfl, hcolon⟩ := quoteJson_inj h
      obtain ⟨rfl, hbrace⟩ := quoteJson_inj (List.append_cancel_left hcolon)
      exact ⟨rfl, List.append_cancel_left hbrace⟩

theorem intercalate_inj {l l' : List Normal} (hlength : l.length = l'.length)
    (h : [','].intercalate (l.map Normal.dumps) ++ [']'] = [','].intercalate (l'.map Normal.dumps) ++ [']']) : l = l' := by
  induction l generalizing l' with
  | nil => exact (List.length_eq_zero_iff.1 hlength.symm).symm
  | cons n l ih =>
    cases l' with
    | nil => cases hlength
    | cons n' l' =>
      cases l with
      | nil =>
        obtain rfl : l' = [] := List.length_eq_zero_iff.1 (by simpa using hlength.symm)
        simp only [List.map_cons, List.map_nil, List.intercalate_singleton] at h
        rw [(dumps_inj h).1]
      | cons m l =>
        cases l' with
        | nil => simp at hlength
        | cons m' l' =>
          simp only [List.map_cons, List.intercalate_cons_cons, List.append_assoc] at h
          obtain ⟨rfl, hrest⟩ := dumps_inj h
          rw [ih (Nat.succ.inj hlength) (by simpa using hrest)]

theorem dumpsRow_inj {l l' : List Normal} (hlength : l.length = l'.length) (h : dumpsRow l = dumpsRow l') : l = l' := by
  have hchars := congrArg String.toList h
  simp only [dumpsRow, String.toList_ofList, List.append_assoc, List.append_cancel_left_eq] at hchars
  exact intercalate_inj hlength hchars

/-! ## Sums -/

def combine (numerics : List (BitVec 256)) : RowDigest := numerics.foldl RowDigest.add ⟨0, 0, 0⟩

instance : RightCommutative RowDigest.add where
  right_comm d a b := by
    simp only [RowDigest.add, RowDigest.mk.injEq, true_and]
    exact ⟨by rw [BitVec.xor_assoc, BitVec.xor_comm a b, ← BitVec.xor_assoc],
      by rw [BitVec.add_assoc, BitVec.add_comm a b, ← BitVec.add_assoc]⟩

theorem combine_perm {l l' : List (BitVec 256)} (h : l.Perm l') : combine l = combine l' := h.foldl_eq _

theorem foldl_add_count (l : List (BitVec 256)) (d : RowDigest) : (l.foldl RowDigest.add d).count = d.count + l.length := by
  induction l generalizing d with
  | nil => rfl
  | cons a l ih =>
    rw [List.foldl_cons, ih, List.length_cons]
    simp only [RowDigest.add]
    omega

theorem combine_count (l : List (BitVec 256)) : (combine l).count = l.length := by
  rw [combine, foldl_add_count, Nat.zero_add]

theorem foldl_add_xor_inj {l : List (BitVec 256)} {d d' : RowDigest}
    (h : (l.foldl RowDigest.add d).xor = (l.foldl RowDigest.add d').xor) : d.xor = d'.xor := by
  induction l generalizing d d' with
  | nil => exact h
  | cons a l ih =>
    have hadd := ih h
    simp only [RowDigest.add] at hadd
    exact (BitVec.xor_left_inj a).1 hadd

theorem combine_cons_inj {a b : BitVec 256} {l : List (BitVec 256)} (h : combine (a :: l) = combine (b :: l)) : a = b := by
  have hfold : l.foldl RowDigest.add (RowDigest.add ⟨0, 0, 0⟩ a) = l.foldl RowDigest.add (RowDigest.add ⟨0, 0, 0⟩ b) := h
  have hxor := foldl_add_xor_inj (congrArg RowDigest.xor hfold)
  simpa [RowDigest.add] using hxor

end Dumb.Postgres.Digest
