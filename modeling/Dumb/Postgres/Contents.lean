import Dumb.Postgres.Digest

/-!
# Validating the imported contents

PostgreSQL is taken to keep the value a cell is converted to, and to return it in the form of the column. When the digests
of `_validate_full_row_digests` then agree, and what a change of one row does to them.
-/

namespace Dumb.Postgres.Digest

open Py

/-! ## What PostgreSQL keeps -/

inductive SqliteValue (φ : Type) where
  | null
  | integer (n : Int)
  | real (x : φ)
  | text (s : String)
  | blob (b : List UInt8)
  deriving DecidableEq

def SqliteValue.toVal {φ : Type} : SqliteValue φ → Val φ
  | .null => .none
  | .integer n => .int n
  | .real x => .float x
  | .text s => .str s
  | .blob b => .bytes b

variable (lib : Library)

def keptClock (value : Val lib.Float) : Option Int :=
  (datetimeOf lib value).toOption.bind fun d =>
    let clock := d.clock - d.offset.getD 0
    if lib.inRange clock then some clock else none

def driverForm : DataType → Val lib.Float → Option (Val lib.Float)
  | _, .none => some .none
  | .boolean, .bool b => some (.bool b)
  | .smallint, value | .integer, value | .bigint, value =>
    match value with
    | .int n => some (.int n)
    | .float x => (lib.wholeFloat x).map .int
    | .str s => (lib.intOfText s).map .int
    | _ => none
  | .real, value | .doublePrecision, value =>
    match value with
    | .int n => (lib.floatOfInt n).map .float
    | .float x => some (.float x)
    | .str s => (lib.floatOfText s).map .float
    | _ => none
  | .uuid, .str s => (lib.canonicalUuid s).map .str
  | .bytea, .bytes b => some (.bytes b)
  | .timestampWithTimeZone, value => (keptClock lib value).map fun clock => .datetime ⟨clock, some 0⟩
  | .timestampWithoutTimeZone, value => (keptClock lib value).map fun clock => .datetime ⟨clock, none⟩
  | .other _, .int n => some (.str (toString n))
  | .other _, .float x => some (.str (lib.floatStr x))
  | .other _, .str s => some (.str s)
  | _, _ => none

def stored (dataType : DataType) (value : SqliteValue lib.Float) : Option (Val lib.Float) :=
  (convertValue lib value.toVal dataType).toOption.bind (driverForm lib dataType)

def storedRow (types : List DataType) (row : List (SqliteValue lib.Float)) : Option (List (Val lib.Float)) :=
  if row.length = types.length then (row.zip types).mapM fun cell => stored lib cell.2 cell.1 else none

def DriverValue : DataType → Val lib.Float → Prop
  | _, .none => True
  | .boolean, .bool _ => True
  | .smallint, .int _ | .integer, .int _ | .bigint, .int _ => True
  | .real, .float _ | .doublePrecision, .float _ => True
  | .uuid, .str s => lib.canonicalUuid s = some s
  | .bytea, .bytes _ => True
  | .timestampWithTimeZone, .datetime d => d.offset = some 0 ∧ lib.inRange d.clock = true
  | .timestampWithoutTimeZone, .datetime d => d.offset = none
  | .other _, .str _ => True
  | _, _ => False

def Fits : DataType → SqliteValue lib.Float → Prop
  | .real, value | .doublePrecision, value =>
    match value with
    | .integer n => lib.floatOfInt n = none
    | .text s => ∀ x, lib.floatOfText s = some x → lib.floatStr x = s
    | _ => True
  | _, _ => True

/-! ## Cells -/

section

variable {lib}

theorem toOption_eq_some {ε α : Type} {x : Except ε α} {a : α} : x.toOption = some a ↔ x = .ok a := by
  cases x <;> simp [Except.toOption]

def normalizeSource (lib : Library) (dataType : DataType) (value : SqliteValue lib.Float) : Except Exn Normal := do
  let converted ← convertValue lib value.toVal dataType
  normalizeDigestValue lib converted dataType

variable {dataType : DataType} {value : SqliteValue lib.Float} {w : Val lib.Float}

theorem stored_iff :
    stored lib dataType value = some w ↔
      ∃ c, convertValue lib value.toVal dataType = .ok c ∧ driverForm lib dataType c = some w := by
  simp only [stored, Option.bind_eq_some_iff, toOption_eq_some]

variable {c : Val lib.Float}

theorem normalizeSource_of_convert
    (h : convertValue lib value.toVal dataType = .ok c) :
    normalizeSource lib dataType value = normalizeDigestValue lib c dataType := by
  rw [normalizeSource, h]
  rfl

theorem convertTimestamp_idem {value c : Val lib.Float} (h : convertTimestamp lib value = .ok c) :
    convertTimestamp lib c = .ok c := by
  rw [convertTimestamp] at h
  cases hnumeric : numeric lib value with
  | none =>
    rw [hnumeric] at h
    cases h
    rw [convertTimestamp, hnumeric]
  | some n =>
    rw [hnumeric] at h
    cases hclock : fromNumeric lib n with
    | none => simp [hclock, orRaise, Except.map] at h
    | some clock =>
      simp only [hclock, orRaise, Except.map, Except.ok.injEq] at h
      rw [← h]
      rfl

def clockText (lib : Library) (dataType : DataType) (clock : Int) : String :=
  if dataType = .timestampWithoutTimeZone then lib.isoformat clock else lib.isoformat clock ++ "+00:00"

theorem timestampValue_eq (dataType : DataType) {d : Datetime} (h : lib.inRange (d.clock - d.offset.getD 0) = true) :
    timestampValue lib dataType d = .ok (clockText lib dataType (d.clock - d.offset.getD 0)) := by
  obtain ⟨clock, offset⟩ := d
  cases offset with
  | none =>
    simp only [Option.getD_none, Int.sub_zero] at h ⊢
    cases dataType <;> simp [timestampValue, clockText, utcClock, h, Except.map]
  | some offset =>
    simp only [Option.getD_some] at h ⊢
    cases dataType <;> simp [timestampValue, clockText, utcClock, h, Except.map]

theorem normalizeTimestamp_eq {clock : Int}
    (hconverted : convertValue lib c dataType = .ok c) (hkept : keptClock lib c = some clock) :
    normalizeTimestamp lib c dataType = .ok (.tagged "timestamp" (clockText lib dataType clock)) := by
  obtain ⟨d, hd, hclock⟩ := Option.bind_eq_some_iff.1 hkept
  rw [toOption_eq_some] at hd
  simp only [Option.ite_none_right_eq_some, Option.some.injEq] at hclock
  obtain ⟨hrange, rfl⟩ := hclock
  rw [normalizeTimestamp, hconverted]
  change (datetimeOf lib c >>= _) = _
  rw [hd]
  change (timestampValue lib dataType d >>= _) = _
  rw [timestampValue_eq dataType hrange]
  rfl

variable {offset : Option Int}

theorem keptClock_date {clock : Int} (h : lib.inRange (clock - offset.getD 0) = true) :
    keptClock lib (.datetime ⟨clock, offset⟩) = some (clock - offset.getD 0) := by
  simp [keptClock, datetimeOf, Except.toOption, h]

theorem inRange_keptClock {clock : Int} (h : keptClock lib c = some clock) :
    lib.inRange clock = true := by
  obtain ⟨d, -, hclock⟩ := Option.bind_eq_some_iff.1 h
  simp only [Option.ite_none_right_eq_some, Option.some.injEq] at hclock
  obtain ⟨hrange, rfl⟩ := hclock
  exact hrange

def dateOffset : DataType → Option (Option Int)
  | .timestampWithTimeZone => some (some 0)
  | .timestampWithoutTimeZone => some none
  | _ => none

theorem date_facts (h : dateOffset dataType = some offset)
    {v : Val lib.Float} (hv : v ≠ .none) : convertValue lib v dataType = convertTimestamp lib v ∧
      normalizeDigestValue lib v dataType = normalizeTimestamp lib v dataType ∧
      driverForm lib dataType v = (keptClock lib v).map (fun clock => Val.datetime ⟨clock, offset⟩) ∧
      offset.getD 0 = 0 := by
  cases dataType <;> cases h <;> cases v <;> first | exact absurd rfl hv | exact ⟨rfl, rfl, rfl, rfl⟩

theorem convertTimestamp_ne_none {v c : Val lib.Float} (h : convertTimestamp lib v = .ok c) (hv : v ≠ .none) :
    c ≠ .none := by
  rw [convertTimestamp] at h
  cases hnumeric : numeric lib v with
  | none =>
    rw [hnumeric] at h
    cases h
    exact hv
  | some n =>
    rw [hnumeric] at h
    cases hclock : fromNumeric lib n with
    | none => simp [hclock, orRaise, Except.map] at h
    | some clock =>
      simp only [hclock, orRaise, Except.map, Except.ok.injEq] at h
      rw [← h]
      simp

theorem timestamp_agree (htype : dateOffset dataType = some offset)
    {v c w : Val lib.Float} (hv : v ≠ .none) (hc : convertValue lib v dataType = .ok c)
    (hw : driverForm lib dataType c = some w) :
    ∃ n, normalizeDigestValue lib c dataType = .ok n ∧ normalizeDigestValue lib w dataType = .ok n := by
  rw [(date_facts htype hv).1] at hc
  have hcnone := convertTimestamp_ne_none hc hv
  obtain ⟨hconvert, hnormal, hdriver, hoffset⟩ := date_facts htype hcnone
  rw [hdriver] at hw
  obtain ⟨clock, hclock, rfl⟩ := Option.map_eq_some_iff.1 hw
  have hwnone : Val.datetime ⟨clock, offset⟩ ≠ (.none : Val lib.Float) := by simp
  refine ⟨.tagged "timestamp" (clockText lib dataType clock), ?_, ?_⟩
  · rw [hnormal]
    apply normalizeTimestamp_eq _ hclock
    rw [hconvert]
    exact convertTimestamp_idem hc
  · rw [(date_facts htype hwnone).2.1]
    have hkept : keptClock lib (.datetime ⟨clock, offset⟩) = some (clock - offset.getD 0) := by
      apply keptClock_date
      rw [hoffset, Int.sub_zero]
      exact inRange_keptClock hclock
    rw [hoffset, Int.sub_zero] at hkept
    apply normalizeTimestamp_eq _ hkept
    rw [(date_facts htype hwnone).1]
    rfl

theorem convertBoolean_bool {v c : Val lib.Float} (h : convertBoolean lib v = .ok c) : ∃ b, c = .bool b := by
  simp only [convertBoolean] at h
  split at h
  · exact ⟨_, (Except.ok.inj h).symm⟩
  · split_ifs at h <;> exact ⟨_, (Except.ok.inj h).symm⟩
  · split at h
    · exact ⟨_, (Except.ok.inj h).symm⟩
    · exact ⟨_, (Except.ok.inj h).symm⟩
    · cases h
  · split_ifs at h <;> exact ⟨_, (Except.ok.inj h).symm⟩
  · cases h

def isInteger (dataType : DataType) : Prop := dataType = .smallint ∨ dataType = .integer ∨ dataType = .bigint

def isFloat (dataType : DataType) : Prop := dataType = .real ∨ dataType = .doublePrecision

theorem integer_agree (htype : isInteger dataType)
    (hvalue : value ≠ .null) (h : driverForm lib dataType value.toVal = some w) :
    ∃ n, normalizeDigestValue lib value.toVal dataType = .ok n ∧ normalizeDigestValue lib w dataType = .ok n := by
  have hnormal : ∀ v : Val lib.Float, v ≠ .none → normalizeDigestValue lib v dataType =
      (pyInt lib v).map fun n => .tagged "integer" (toString n) := by
    intro v hv
    rcases htype with rfl | rfl | rfl <;> cases v <;> first | exact absurd rfl hv | rfl
  have hread : ∃ n, pyInt lib value.toVal = .ok n ∧ w = .int n := by
    cases value with
    | null => exact absurd rfl hvalue
    | integer n =>
      have hw : some (Val.int n) = some w := by rcases htype with rfl | rfl | rfl <;> exact h
      exact ⟨n, rfl, (Option.some.inj hw).symm⟩
    | real x =>
      have hw : (lib.wholeFloat x).map Val.int = some w := by rcases htype with rfl | rfl | rfl <;> exact h
      obtain ⟨n, hn, rfl⟩ := Option.map_eq_some_iff.1 hw
      exact ⟨n, by simp [SqliteValue.toVal, pyInt, lib.wholeFloat_int x n hn, orRaise], rfl⟩
    | text s =>
      have hw : (lib.intOfText s).map Val.int = some w := by rcases htype with rfl | rfl | rfl <;> exact h
      obtain ⟨n, hn, rfl⟩ := Option.map_eq_some_iff.1 hw
      exact ⟨n, by simp [SqliteValue.toVal, pyInt, hn, orRaise], rfl⟩
    | blob b => rcases htype with rfl | rfl | rfl <;> cases h
  obtain ⟨n, hn, rfl⟩ := hread
  refine ⟨.tagged "integer" (toString n), ?_, ?_⟩
  · rw [hnormal _ (by cases value <;> simp_all [SqliteValue.toVal]), hn]
    rfl
  · rw [hnormal _ (by simp)]
    rfl

theorem float_texts (htype : isFloat dataType)
    (hvalue : value ≠ .null) (h : driverForm lib dataType value.toVal = some w) :
    ∃ x, w = .float x ∧ normalizeDigestValue lib value.toVal dataType = .ok (.tagged "text" (pyStr lib value.toVal)) ∧
      normalizeDigestValue lib w dataType = .ok (.tagged "text" (lib.floatStr x)) ∧
      (Fits lib dataType value ↔ pyStr lib value.toVal = lib.floatStr x) := by
  have hnormal : ∀ v : Val lib.Float, v ≠ .none →
      normalizeDigestValue lib v dataType = .ok (.tagged "text" (pyStr lib v)) := by
    intro v hv
    rcases htype with rfl | rfl <;> cases v <;> first | exact absurd rfl hv | rfl
  have hval : value.toVal ≠ .none := by cases value <;> simp_all [SqliteValue.toVal]
  have hread : ∃ x, w = .float x ∧ (Fits lib dataType value ↔ pyStr lib value.toVal = lib.floatStr x) := by
    cases value with
    | null => exact absurd rfl hvalue
    | integer n =>
      have hw : (lib.floatOfInt n).map Val.float = some w := by rcases htype with rfl | rfl <;> exact h
      obtain ⟨x, hx, rfl⟩ := Option.map_eq_some_iff.1 hw
      have hfits : Fits lib dataType (.integer n) ↔ lib.floatOfInt n = none := by
        rcases htype with rfl | rfl <;> exact Iff.rfl
      refine ⟨x, rfl, ?_⟩
      rw [hfits, hx]
      constructor
      · intro hnone
        cases hnone
      · intro hsame
        exact absurd hsame.symm (lib.floatStr_int n x hx)
    | real x =>
      have hw : some (Val.float x) = some w := by rcases htype with rfl | rfl <;> exact h
      refine ⟨x, (Option.some.inj hw).symm, ?_⟩
      rcases htype with rfl | rfl <;> exact ⟨fun _ => rfl, fun _ => trivial⟩
    | text s =>
      have hw : (lib.floatOfText s).map Val.float = some w := by rcases htype with rfl | rfl <;> exact h
      obtain ⟨x, hx, rfl⟩ := Option.map_eq_some_iff.1 hw
      have hfits : Fits lib dataType (.text s) ↔ ∀ x, lib.floatOfText s = some x → lib.floatStr x = s := by
        rcases htype with rfl | rfl <;> exact Iff.rfl
      refine ⟨x, rfl, ?_⟩
      rw [hfits, hx]
      simp [pyStr, SqliteValue.toVal, eq_comm]
    | blob b => rcases htype with rfl | rfl <;> cases h
  obtain ⟨x, rfl, hfits⟩ := hread
  exact ⟨x, rfl, hnormal _ hval, hnormal _ (by simp), hfits⟩

theorem convertValue_other (hboolean : dataType ≠ .boolean) (hdate : dateOffset dataType = none)
    (value : SqliteValue lib.Float) : convertValue lib value.toVal dataType = .ok value.toVal := by
  cases dataType <;> first | exact absurd rfl hboolean | (cases value <;> rfl) | cases hdate

theorem cell_normal
    (h : stored lib dataType value = some w) :
    ∃ n n', normalizeSource lib dataType value = .ok n ∧ normalizeDigestValue lib w dataType = .ok n' ∧
      (n = n' ↔ Fits lib dataType value) := by
  obtain ⟨c, hc, hw⟩ := stored_iff.1 h
  rw [normalizeSource_of_convert hc]
  have hsame : (∃ n, normalizeDigestValue lib c dataType = .ok n ∧ normalizeDigestValue lib w dataType = .ok n) →
      Fits lib dataType value → ∃ n n', normalizeDigestValue lib c dataType = .ok n ∧
        normalizeDigestValue lib w dataType = .ok n' ∧ (n = n' ↔ Fits lib dataType value) := by
    rintro ⟨n, hn, hn'⟩ hfits
    exact ⟨n, n, hn, hn', iff_of_true rfl hfits⟩
  by_cases hvalue : value = .null
  · subst hvalue
    cases hc
    apply hsame
    · cases dataType <;> cases hw <;> exact ⟨.null, rfl, rfl⟩
    · cases dataType <;> trivial
  have hval : value.toVal ≠ .none := by cases value <;> simp_all [SqliteValue.toVal]
  cases hdate : dateOffset dataType with
  | some offset =>
    apply hsame (timestamp_agree hdate hval hc hw)
    cases dataType <;> trivial
  | none =>
    by_cases hboolean : dataType = .boolean
    · subst hboolean
      have hconvert : convertBoolean lib value.toVal = .ok c := by
        cases value <;> first | exact absurd rfl hvalue | exact hc
      obtain ⟨b, rfl⟩ := convertBoolean_bool hconvert
      cases hw
      exact hsame ⟨.boolean b, rfl, rfl⟩ trivial
    · rw [convertValue_other hboolean hdate] at hc
      cases hc
      by_cases hinteger : isInteger dataType
      · apply hsame (integer_agree hinteger hvalue hw)
        rcases hinteger with rfl | rfl | rfl <;> trivial
      · by_cases hfloat : isFloat dataType
        · obtain ⟨x, rfl, hsource, htarget, hfits⟩ := float_texts hfloat hvalue hw
          refine ⟨_, _, hsource, htarget, ?_⟩
          rw [hfits]
          simp
        · apply hsame
          · cases dataType with
            | uuid =>
              cases value with
              | text s =>
                obtain ⟨t, ht, rfl⟩ := Option.map_eq_some_iff.1 hw
                refine ⟨.tagged "uuid" t, ?_, ?_⟩
                · simp [SqliteValue.toVal, normalizeDigestValue, pyStr, ht, orRaise, Except.map]
                · simp [normalizeDigestValue, pyStr, lib.canonicalUuid_idem s t ht, orRaise, Except.map]
              | null => exact absurd rfl hvalue
              | _ => cases hw
            | bytea =>
              cases value with
              | blob b =>
                cases hw
                exact ⟨.tagged "bytea" (hex b), rfl, rfl⟩
              | null => exact absurd rfl hvalue
              | _ => cases hw
            | other name =>
              cases value with
              | null => exact absurd rfl hvalue
              | blob b => cases hw
              | _ => cases hw; exact ⟨_, rfl, rfl⟩
            | boolean => exact absurd rfl hboolean
            | timestampWithTimeZone => cases hdate
            | timestampWithoutTimeZone => cases hdate
            | _ => simp [isInteger, isFloat] at hinteger hfloat
          · cases dataType <;> first | trivial | simp [isInteger, isFloat] at hinteger hfloat

theorem stored_driverValue
    (h : stored lib dataType value = some w) : DriverValue lib dataType w := by
  obtain ⟨c, -, hw⟩ := stored_iff.1 h
  by_cases hnone : c = .none
  · subst hnone
    cases dataType <;> cases hw <;> trivial
  cases hdate : dateOffset dataType with
  | some offset =>
    rw [(date_facts hdate hnone).2.2.1] at hw
    obtain ⟨clock, hclock, rfl⟩ := Option.map_eq_some_iff.1 hw
    cases dataType <;> cases hdate
    · exact ⟨rfl, inRange_keptClock hclock⟩
    · exact rfl
  | none =>
    cases dataType <;> cases c <;> first
      | exact absurd rfl hnone
      | (cases hw; done)
      | (cases hw; trivial)
      | (obtain ⟨t, ht, rfl⟩ := Option.map_eq_some_iff.1 hw; first | trivial | exact lib.canonicalUuid_idem _ t ht)

theorem hex_inj {b b' : List UInt8} (h : hex b = hex b') : b = b' := by
  have hchars : ∀ b b' : List UInt8,
      b.flatMap (fun x => [hexDigit (x.toNat / 16), hexDigit (x.toNat % 16)]) =
        b'.flatMap (fun x => [hexDigit (x.toNat / 16), hexDigit (x.toNat % 16)]) → b = b' := by
    intro b
    induction b with
    | nil =>
      intro b' h
      cases b' with
      | nil => rfl
      | cons x b' => cases h
    | cons x b ih =>
      intro b' h
      cases b' with
      | nil => cases h
      | cons y b' =>
        simp only [List.flatMap_cons, List.cons_append, List.nil_append, List.cons.injEq] at h
        have hxy : x.toNat = y.toNat := hexDigits_inj (UInt8.toNat_lt x) (UInt8.toNat_lt y) h.1 h.2.1
        rw [UInt8.toNat_inj.1 hxy, ih b' h.2.2]
  have htexts := congrArg String.toList h
  rw [hex, hex, String.toList_ofList, String.toList_ofList] at htexts
  exact hchars b b' htexts

def formOf (lib : Library) (dataType : DataType) : Val lib.Float → Normal
  | .none => .null
  | .bool b => .boolean b
  | .int n => .tagged "integer" (toString n)
  | .float x => .tagged "text" (lib.floatStr x)
  | .str s => .tagged (if dataType = .uuid then "uuid" else "text") s
  | .bytes b => .tagged "bytea" (hex b)
  | .datetime d => .tagged "timestamp" (clockText lib dataType d.clock)

theorem driver_normal (h : DriverValue lib dataType w) :
    normalizeDigestValue lib w dataType = .ok (formOf lib dataType w) := by
  cases w with
  | none => cases dataType <;> rfl
  | str s =>
    cases dataType with
    | uuid =>
      have hs : lib.canonicalUuid s = some s := h
      simp [normalizeDigestValue, pyStr, hs, orRaise, Except.map, formOf]
    | other name => rfl
    | _ => exact absurd h id
  | datetime d =>
    obtain ⟨clock, offset⟩ := d
    cases dataType with
    | timestampWithTimeZone =>
      obtain ⟨hoffset, hrange⟩ := h
      simp only at hoffset hrange
      subst hoffset
      have hkept : keptClock lib (.datetime ⟨clock, some 0⟩) = some (clock - 0) := keptClock_date (by simpa using hrange)
      rw [Int.sub_zero] at hkept
      exact normalizeTimestamp_eq rfl hkept
    | timestampWithoutTimeZone =>
      have hoffset : offset = none := h
      subst hoffset
      rfl
    | _ => exact absurd h id
  | _ => cases dataType <;> first | exact absurd h id | rfl

theorem clockText_inj {c c' : Int} (h : clockText lib dataType c = clockText lib dataType c') :
    c = c' := by
  simp only [clockText] at h
  split_ifs at h
  · exact lib.isoformat_injective _ _ h
  · apply lib.isoformat_injective
    have hchars := congrArg String.toList h
    simp only [String.toList_append] at hchars
    exact String.toList_inj.1 (List.append_cancel_right hchars)

theorem formOf_inj {w w' : Val lib.Float} (hw : DriverValue lib dataType w)
    (hw' : DriverValue lib dataType w') (h : formOf lib dataType w = formOf lib dataType w') : w = w' := by
  cases w with
  | none => cases w' <;> first | rfl | cases h
  | bool b =>
    cases w' with
    | none => cases h
    | bool b' => cases h; rfl
    | _ => cases dataType <;> first | exact absurd hw id | exact absurd hw' id
  | int n =>
    cases w' with
    | none => cases h
    | int n' =>
      simp only [formOf, Normal.tagged.injEq, true_and] at h
      rw [int_injective (congrArg String.toList h)]
    | _ => cases dataType <;> first | exact absurd hw id | exact absurd hw' id
  | float x =>
    cases w' with
    | none => cases h
    | float x' =>
      simp only [formOf, Normal.tagged.injEq, true_and] at h
      rw [lib.floatStr_injective _ _ h]
    | _ => cases dataType <;> first | exact absurd hw id | exact absurd hw' id
  | str s =>
    cases w' with
    | none => cases h
    | str s' =>
      simp only [formOf, Normal.tagged.injEq, true_and] at h
      rw [h]
    | _ => cases dataType <;> first | exact absurd hw id | exact absurd hw' id
  | bytes b =>
    cases w' with
    | none => cases h
    | bytes b' =>
      simp only [formOf, Normal.tagged.injEq, true_and] at h
      rw [hex_inj h]
    | _ => cases dataType <;> first | exact absurd hw id | exact absurd hw' id
  | datetime d =>
    cases w' with
    | none => cases h
    | datetime d' =>
      simp only [formOf, Normal.tagged.injEq, true_and] at h
      have hclock := clockText_inj h
      have hoffset : d.offset = d'.offset := by
        cases dataType with
        | timestampWithTimeZone => exact hw.1.trans hw'.1.symm
        | timestampWithoutTimeZone => exact Eq.trans (show d.offset = none from hw) (Eq.symm (show d'.offset = none from hw'))
        | _ => exact absurd hw id
      cases d
      cases d'
      simp only at hclock hoffset
      rw [hclock, hoffset]
    | _ => cases dataType <;> first | exact absurd hw id | exact absurd hw' id

/-! ## Rows -/

theorem mapM_ok_iff {α β ε : Type} {f : α → Except ε β} {l : List α} {r : List β} :
    l.mapM f = .ok r ↔ List.Forall₂ (fun a b => f a = .ok b) l r := by
  induction l generalizing r with
  | nil => cases r <;> simp [pure, Except.pure]
  | cons a l ih =>
    rw [List.mapM_cons, List.forall₂_cons_left_iff, bind_ok_iff]
    simp only [bind_ok_iff, ih]
    constructor
    · rintro ⟨b, hb, bs, hbs, hr⟩
      exact ⟨b, bs, hb, hbs, (Except.ok.inj hr).symm⟩
    · rintro ⟨b, bs, hb, hbs, rfl⟩
      exact ⟨b, hb, bs, hbs, rfl⟩

theorem mapM_some_iff {α β : Type} {f : α → Option β} {l : List α} {r : List β} :
    l.mapM f = some r ↔ List.Forall₂ (fun a b => f a = some b) l r := by
  induction l generalizing r with
  | nil => cases r <;> simp
  | cons a l ih =>
    rw [List.mapM_cons, List.forall₂_cons_left_iff]
    simp only [Option.bind_eq_bind, Option.bind_eq_some_iff, ih]
    constructor
    · rintro ⟨b, hb, bs, hbs, hr⟩
      exact ⟨b, bs, hb, hbs, (Option.some.inj hr).symm⟩
    · rintro ⟨b, bs, hb, hbs, rfl⟩
      exact ⟨b, hb, bs, hbs, rfl⟩

variable {types : List DataType}

variable {row : List (SqliteValue lib.Float)}

variable {kept : List (Val lib.Float)}

theorem storedRow_iff :
    storedRow lib types row = some kept ↔ row.length = types.length ∧
      List.Forall₂ (fun cell w => stored lib cell.2 cell.1 = some w) (row.zip types) kept := by
  rw [storedRow, Option.ite_none_right_eq_some, mapM_some_iff]

variable {ns : List Normal}

theorem normalizeRow_source :
    normalizeRow lib types true (row.map SqliteValue.toVal) = .ok ns ↔ row.length = types.length ∧
      List.Forall₂ (fun cell n => normalizeSource lib cell.2 cell.1 = .ok n) (row.zip types) ns := by
  rw [normalizeRow, List.length_map]
  split
  case isTrue h =>
    rw [mapM_ok_iff, List.zip_map_left, List.forall₂_map_left_iff]
    exact (and_iff_right h).symm
  case isFalse h => simp [h]

theorem normalizeRow_target {row : List (Val lib.Float)} :
    normalizeRow lib types false row = .ok ns ↔ row.length = types.length ∧
      List.Forall₂ (fun cell n => normalizeDigestValue lib cell.1 cell.2 = .ok n) (row.zip types) ns := by
  rw [normalizeRow]
  split
  case isTrue h =>
    rw [mapM_ok_iff]
    exact (and_iff_right h).symm
  case isFalse h => simp [h]

def RowFits (lib : Library) (types : List DataType) (row : List (SqliteValue lib.Float)) : Prop :=
  ∀ cell ∈ row.zip types, Fits lib cell.2 cell.1

theorem row_normal
    (h : storedRow lib types row = some kept) :
    ∃ ns ns', normalizeRow lib types true (row.map SqliteValue.toVal) = .ok ns ∧
      normalizeRow lib types false kept = .ok ns' ∧ (ns = ns' ↔ RowFits lib types row) := by
  rw [storedRow_iff] at h
  obtain ⟨hlength, hkept⟩ := h
  simp only [normalizeRow_source, normalizeRow_target, hlength, true_and]
  induction types generalizing row kept with
  | nil =>
    obtain rfl : row = [] := List.length_eq_zero_iff.1 hlength
    cases hkept
    exact ⟨[], [], .nil, ⟨rfl, .nil⟩, by simp [RowFits]⟩
  | cons t types ih =>
    cases row with
    | nil => cases hlength
    | cons v row =>
      rw [List.zip_cons_cons, List.forall₂_cons_left_iff] at hkept
      obtain ⟨w, kept, hcell, hrest, rfl⟩ := hkept
      obtain ⟨ns, ns', hns, ⟨hkeptLength, hns'⟩, hsame⟩ := ih (Nat.succ.inj hlength) hrest
      obtain ⟨n, n', hn, hn', hcellSame⟩ := cell_normal hcell
      refine ⟨n :: ns, n' :: ns', .cons hn hns, ⟨congrArg Nat.succ hkeptLength, .cons hn' hns'⟩, ?_⟩
      rw [List.cons.injEq, hcellSame, hsame]
      simp [RowFits]

variable {sourceValues : Bool}

theorem normalizeRow_length {row : List (Val lib.Float)}
    (h : normalizeRow lib types sourceValues row = .ok ns) : ns.length = types.length := by
  rw [normalizeRow] at h
  split at h
  case isTrue hlength =>
    rw [mapM_ok_iff] at h
    rw [← h.length_eq, List.length_zip, hlength, Nat.min_self]
  case isFalse => cases h

/-! ## Digests -/

variable {sha256 : String → BitVec 256}

def rowNumber (sha256 : String → BitVec 256) (ns : List Normal) : BitVec 256 := sha256 (dumpsRow ns)

theorem digestRows_ok_iff {rows : List (List (Val lib.Float))} {d : RowDigest} :
    digestRows lib sha256 types sourceValues rows = .ok d ↔
      ∃ nss, List.Forall₂ (fun row ns => normalizeRow lib types sourceValues row = .ok ns) rows nss ∧
        d = combine (nss.map (rowNumber sha256)) := by
  have hstart : ∀ d₀ : RowDigest, rows.foldlM (fun d row => do
      let normalized ← normalizeRow lib types sourceValues row
      pure (d.add (sha256 (dumpsRow normalized)))) d₀ = (.ok d : Except Exn RowDigest) ↔
      ∃ nss, List.Forall₂ (fun row ns => normalizeRow lib types sourceValues row = .ok ns) rows nss ∧
        d = (nss.map (rowNumber sha256)).foldl RowDigest.add d₀ := by
    induction rows with
    | nil =>
      intro d₀
      simp only [List.foldlM_nil, List.forall₂_nil_left_iff, exists_eq_left, List.map_nil, List.foldl_nil]
      exact ⟨fun h => (Except.ok.inj h).symm, fun h => by rw [h]; rfl⟩
    | cons row rows ih =>
      intro d₀
      simp only [List.foldlM_cons, bind_ok_iff, ih, List.forall₂_cons_left_iff]
      constructor
      · rintro ⟨d₁, ⟨ns, hns, hd₁⟩, nss, hnss, rfl⟩
        cases Except.ok.inj hd₁
        exact ⟨ns :: nss, ⟨ns, nss, hns, hnss, rfl⟩, rfl⟩
      · rintro ⟨_, ⟨ns, nss, hns, hnss, rfl⟩, rfl⟩
        exact ⟨_, ⟨ns, hns, rfl⟩, nss, hnss, rfl⟩
  exact hstart ⟨0, 0, 0⟩

theorem digestRows_perm {rows rows' : List (List (Val lib.Float))} {d : RowDigest}
    (hperm : rows'.Perm rows) (h : digestRows lib sha256 types sourceValues rows = .ok d) :
    digestRows lib sha256 types sourceValues rows' = .ok d := by
  rw [digestRows_ok_iff] at h ⊢
  obtain ⟨nss, hnss, rfl⟩ := h
  obtain ⟨nss', hnss', hperm'⟩ := List.perm_comp_forall₂ hperm hnss
  exact ⟨nss', hnss', combine_perm (hperm'.map _).symm⟩

def Kept (lib : Library) (types : List DataType) (source : List (List (SqliteValue lib.Float)))
    (kept : List (List (Val lib.Float))) : Prop :=
  List.Forall₂ (fun row k => storedRow lib types row = some k) source kept

theorem kept_normal {source : List (List (SqliteValue lib.Float))} {kept : List (List (Val lib.Float))}
    (h : Kept lib types source kept) (hfits : ∀ row ∈ source, (storedRow lib types row).isSome → RowFits lib types row) :
    ∃ nss, List.Forall₂ (fun row ns => normalizeRow lib types true row = .ok ns)
        (source.map (List.map SqliteValue.toVal)) nss ∧
      List.Forall₂ (fun row ns => normalizeRow lib types false row = .ok ns) kept nss := by
  induction h with
  | nil => exact ⟨[], .nil, .nil⟩
  | @cons row k source kept hrow _ ih =>
    obtain ⟨nss, hsource, hkept⟩ := ih fun other hother => hfits other (List.mem_cons_of_mem row hother)
    obtain ⟨ns, ns', hns, hns', hsame⟩ := row_normal hrow
    obtain rfl := hsame.2 (hfits row List.mem_cons_self (by rw [hrow]; rfl))
    exact ⟨ns :: nss, .cons hns hsource, .cons hns' hkept⟩

end

/-! ## One change -/

/-- The target has lost or gained a row, perhaps one it had, or has another value in one column. -/
inductive OneChange (lib : Library) (types : List DataType) :
    List (List (Val lib.Float)) → List (List (Val lib.Float)) → Prop
  | lost (rows : List (List (Val lib.Float))) (row : List (Val lib.Float)) : OneChange lib types (row :: rows) rows
  | added (rows : List (List (Val lib.Float))) (row : List (Val lib.Float)) : OneChange lib types rows (row :: rows)
  | changed (rows : List (List (Val lib.Float))) {pre post : List (Val lib.Float)} {w w' : Val lib.Float}
      {dataType : DataType} (htype : types[pre.length]? = some dataType) (hdriver : DriverValue lib dataType w')
      (hne : w ≠ w') : OneChange lib types ((pre ++ w :: post) :: rows) ((pre ++ w' :: post) :: rows)

def rowTexts (lib : Library) (types : List DataType) (sourceValues : Bool) (rows : List (List (Val lib.Float))) :
    List String :=
  rows.filterMap fun row => (normalizeRow lib types sourceValues row).toOption.map dumpsRow

def Separates (sha256 : String → BitVec 256) (texts : List String) : Prop :=
  ∀ a ∈ texts, ∀ b ∈ texts, sha256 a = sha256 b → a = b

/-- The validation of the rows of a table: what is kept of any of them, in whatever order, has their digest, and one change to
it has another. -/
structure Validates (lib : Library) (sha256 : String → BitVec 256) (types : List DataType)
    (rows : List (List (SqliteValue lib.Float))) : Prop where
  agrees : ∀ source kept target, source ⊆ rows → Kept lib types source kept → target.Perm kept →
    ∃ d, digestRows lib sha256 types true (source.map (List.map SqliteValue.toVal)) = .ok d ∧
      digestRows lib sha256 types false target = .ok d
  differs : ∀ source kept before after target, source ⊆ rows → Kept lib types source kept → before.Perm kept →
    OneChange lib types before after → target.Perm after →
    Separates sha256 (rowTexts lib types true (source.map (List.map SqliteValue.toVal)) ++ rowTexts lib types false target) →
    ∀ d d', digestRows lib sha256 types true (source.map (List.map SqliteValue.toVal)) = .ok d →
      digestRows lib sha256 types false target = .ok d' → d ≠ d'

section

variable {lib : Library} {types : List DataType} {sha256 : String → BitVec 256}

variable {i : Nat}

theorem forall₂_getElem? {α β : Type} {R : α → β → Prop} {l : List α} {l' : List β} (h : List.Forall₂ R l l')
    {a : α} (ha : l[i]? = some a) : ∃ b, l'[i]? = some b ∧ R a b := by
  induction h generalizing i with
  | nil => simp at ha
  | @cons x y l l' hxy _ ih =>
    cases i with
    | zero =>
      cases ha
      exact ⟨y, rfl, hxy⟩
    | succ i => exact ih ha

theorem normalizeRow_cell {row : List (Val lib.Float)} {ns : List Normal} {w : Val lib.Float}
    {dataType : DataType} (h : normalizeRow lib types false row = .ok ns) (hw : row[i]? = some w)
    (htype : types[i]? = some dataType) :
    ∃ n, ns[i]? = some n ∧ normalizeDigestValue lib w dataType = .ok n := by
  rw [normalizeRow_target] at h
  have hcell : (row.zip types)[i]? = some (w, dataType) := by simp [List.getElem?_zip_eq_some, hw, htype]
  exact forall₂_getElem? h.2 hcell

theorem storedRow_cell {row : List (SqliteValue lib.Float)} {k : List (Val lib.Float)} {w : Val lib.Float}
    {dataType : DataType} (h : storedRow lib types row = some k) (hw : k[i]? = some w)
    (htype : types[i]? = some dataType) : DriverValue lib dataType w := by
  rw [storedRow_iff] at h
  obtain ⟨cell, hcell, hstored⟩ := forall₂_getElem? h.2.flip hw
  obtain ⟨-, htypes⟩ := List.getElem?_zip_eq_some.1 hcell
  rw [htypes, Option.some.injEq] at htype
  rw [← htype]
  exact stored_driverValue hstored

variable {rows : List (List (Val lib.Float))}

theorem mem_rowTexts {sourceValues : Bool} {nss : List (List Normal)}
    (h : List.Forall₂ (fun row ns => normalizeRow lib types sourceValues row = .ok ns) rows nss) {ns : List Normal}
    (hns : ns ∈ nss) : dumpsRow ns ∈ rowTexts lib types sourceValues rows := by
  induction h with
  | nil => cases hns
  | @cons row ns' rows nss hrow _ ih =>
    rw [rowTexts, List.filterMap_cons_some (by rw [hrow]; rfl)]
    rcases List.mem_cons.1 hns with rfl | hns
    · exact List.mem_cons_self
    · exact List.mem_cons_of_mem _ (ih hns)

theorem forall₂_functional {α β ε : Type} {f : α → Except ε β} {l : List α} {r r' : List β}
    (h : List.Forall₂ (fun a b => f a = .ok b) l r) (h' : List.Forall₂ (fun a b => f a = .ok b) l r') : r = r' :=
  Except.ok.inj ((mapM_ok_iff.2 h).symm.trans (mapM_ok_iff.2 h'))

theorem oneChange_digest {before after : List (List (Val lib.Float))} (h : OneChange lib types before after)
    (hdriver : ∀ row ∈ before, ∀ (i : Nat) w dataType,
      row[i]? = some w → types[i]? = some dataType → DriverValue lib dataType w)
    (hsha : Separates sha256 (rowTexts lib types false before ++ rowTexts lib types false after)) {d d' : RowDigest}
    (hd : digestRows lib sha256 types false before = .ok d) (hd' : digestRows lib sha256 types false after = .ok d') :
    d ≠ d' := by
  obtain ⟨nss, hnss, rfl⟩ := digestRows_ok_iff.1 hd
  obtain ⟨nss', hnss', rfl⟩ := digestRows_ok_iff.1 hd'
  intro hsame
  have hcount := congrArg RowDigest.count hsame
  simp only [combine_count, List.length_map, ← hnss.length_eq, ← hnss'.length_eq] at hcount
  cases h with
  | lost row =>
    rw [List.length_cons] at hcount
    omega
  | added row =>
    rw [List.length_cons] at hcount
    omega
  | @changed rows pre post w w' dataType htype hw' hne =>
    have hw : DriverValue lib dataType w := hdriver _ List.mem_cons_self pre.length w dataType (by simp) htype
    obtain ⟨ns, rest, hns, hrest, rfl⟩ := List.forall₂_cons_left_iff.1 hnss
    obtain ⟨ns', rest', hns', hrest', rfl⟩ := List.forall₂_cons_left_iff.1 hnss'
    obtain rfl := forall₂_functional hrest hrest'
    have hnumber : sha256 (dumpsRow ns) = sha256 (dumpsRow ns') := combine_cons_inj hsame
    have htext := hsha _ (List.mem_append_left _ (mem_rowTexts hnss List.mem_cons_self)) _
      (List.mem_append_right _ (mem_rowTexts hnss' List.mem_cons_self)) hnumber
    have hrow := dumpsRow_inj ((normalizeRow_length hns).trans (normalizeRow_length hns').symm) htext
    obtain ⟨n, hn, hnormal⟩ := normalizeRow_cell hns (i := pre.length) (w := w) (by simp) htype
    obtain ⟨n', hn', hnormal'⟩ := normalizeRow_cell hns' (i := pre.length) (w := w') (by simp) htype
    rw [hrow, hn', Option.some.injEq] at hn
    rw [driver_normal hw, ← hn] at hnormal
    rw [driver_normal hw'] at hnormal'
    exact hne (formOf_inj hw hw' (Except.ok.inj (hnormal.trans hnormal'.symm)))

theorem kept_driver {source : List (List (SqliteValue lib.Float))} {kept : List (List (Val lib.Float))}
    (h : Kept lib types source kept) {k : List (Val lib.Float)} (hk : k ∈ kept) {w : Val lib.Float}
    {dataType : DataType} (hw : k[i]? = some w) (htype : types[i]? = some dataType) : DriverValue lib dataType w := by
  obtain ⟨i, hi⟩ := List.mem_iff_getElem?.1 hk
  obtain ⟨row, -, hrow⟩ := forall₂_getElem? h.flip hi
  exact storedRow_cell hrow hw htype

theorem rowTexts_kept {sourceValues : Bool} {nss : List (List Normal)}
    (h : List.Forall₂ (fun row ns => normalizeRow lib types sourceValues row = .ok ns) rows nss) :
    rowTexts lib types sourceValues rows = nss.map dumpsRow := by
  induction h with
  | nil => rfl
  | @cons row ns rows nss hrow _ ih =>
    rw [rowTexts, List.filterMap_cons_some (by rw [hrow]; rfl), List.map_cons]
    exact congrArg _ ih

end

/-- The digests do what they should just when no float is written otherwise than Python prints it, in a row that can be
stored. -/
theorem digests_validate_iff (lib : Library) (sha256 : String → BitVec 256) (types : List DataType)
    (rows : List (List (SqliteValue lib.Float)))
    (hsha : Separates sha256 (rowTexts lib types true (rows.map (List.map SqliteValue.toVal)) ++
      rowTexts lib types false (rows.filterMap (storedRow lib types)))) :
    Validates lib sha256 types rows ↔
      ∀ row ∈ rows, (storedRow lib types row).isSome → RowFits lib types row := by
  constructor
  · intro h row hrow hstored
    obtain ⟨k, hk⟩ := Option.isSome_iff_exists.1 hstored
    obtain ⟨ns, ns', hns, hns', hsame⟩ := row_normal hk
    rw [← hsame]
    obtain ⟨d, hsource, htarget⟩ := h.agrees [row] [k] [k] (by simp [hrow]) (.cons hk .nil) (List.Perm.refl _)
    obtain ⟨nss, hnss, rfl⟩ := digestRows_ok_iff.1 hsource
    obtain ⟨nss', hnss', hd⟩ := digestRows_ok_iff.1 htarget
    obtain rfl : nss = [ns] := forall₂_functional hnss (.cons hns .nil)
    obtain rfl : nss' = [ns'] := forall₂_functional hnss' (.cons hns' .nil)
    have hnumber : sha256 (dumpsRow ns) = sha256 (dumpsRow ns') := combine_cons_inj hd
    have hmem : dumpsRow ns ∈ rowTexts lib types true (rows.map (List.map SqliteValue.toVal)) :=
      List.mem_filterMap.2 ⟨_, List.mem_map_of_mem hrow, by rw [hns]; rfl⟩
    have hmem' : dumpsRow ns' ∈ rowTexts lib types false (rows.filterMap (storedRow lib types)) :=
      List.mem_filterMap.2 ⟨k, List.mem_filterMap.2 ⟨row, hrow, hk⟩, by rw [hns']; rfl⟩
    have htext := hsha _ (List.mem_append_left _ hmem) _ (List.mem_append_right _ hmem') hnumber
    exact dumpsRow_inj ((normalizeRow_length hns).trans (normalizeRow_length hns').symm) htext
  · intro hfits
    have hagrees : ∀ source kept target, source ⊆ rows → Kept lib types source kept → target.Perm kept →
        ∃ d, digestRows lib sha256 types true (source.map (List.map SqliteValue.toVal)) = .ok d ∧
          digestRows lib sha256 types false target = .ok d := by
      intro source kept target hsub hkept hperm
      obtain ⟨nss, hsource, htarget⟩ := kept_normal hkept fun row hrow => hfits row (hsub hrow)
      exact ⟨_, digestRows_ok_iff.2 ⟨nss, hsource, rfl⟩, digestRows_perm hperm (digestRows_ok_iff.2 ⟨nss, htarget, rfl⟩)⟩
    refine ⟨hagrees, ?_⟩
    intro source kept before after target hsub hkept hbefore hchange hafter hseparates d d' hd hd'
    obtain ⟨nss, hsource, htarget⟩ := kept_normal hkept fun row hrow => hfits row (hsub hrow)
    obtain ⟨d₀, hd₀, hbeforeDigest⟩ := hagrees source kept before hsub hkept hbefore
    obtain rfl : d = d₀ := Except.ok.inj (hd.symm.trans hd₀)
    apply oneChange_digest hchange _ _ hbeforeDigest (digestRows_perm hafter.symm hd')
    · intro row hrow i w dataType hw htype
      exact kept_driver hkept (hbefore.subset hrow) hw htype
    · intro a ha b hb
      have hmem : ∀ {t}, t ∈ rowTexts lib types false before ++ rowTexts lib types false after →
          t ∈ rowTexts lib types true (source.map (List.map SqliteValue.toVal)) ++ rowTexts lib types false target := by
        intro t ht
        rcases List.mem_append.1 ht with ht | ht
        · have hkeptText : t ∈ rowTexts lib types false kept := (hbefore.filterMap _).subset ht
          rw [rowTexts_kept htarget, ← rowTexts_kept hsource] at hkeptText
          exact List.mem_append_left _ hkeptText
        · exact List.mem_append_right _ ((hafter.symm.filterMap _).subset ht)
      exact hseparates a (hmem ha) b (hmem hb)

/-! ## An integer in a column of floats -/

def twoFloats : Library where
  Float := Bool
  strip := id
  lower := id
  floatStr x := if x then "1.5" else "0.0"
  bytesStr _ := ""
  datetimeStr d := toString d.clock
  floatOfText s := if s = "1.5" then some true else if s = "0.0" then some false else none
  intOfText _ := none
  intOfBytes _ := none
  intOfFloat x := some (if x then 1 else 0)
  wholeFloat x := if x then none else some 0
  floatOfInt n := if n = 0 then some false else none
  intDiv1000 _ := false
  floatDiv1000 _ := false
  exceeds _ := false
  clockOfFloat x := some (if x then 1500000 else 0)
  clockOfInt n := some (n * 1000000)
  fromisoformat _ := none
  inRange _ := true
  isoformat c := toString c
  canonicalUuid := some
  floatStr_injective := by decide
  floatStr_int := by
    intro n x h
    split_ifs at h with hn
    subst hn
    cases h
    decide
  wholeFloat_int := by
    intro x n h
    cases x
    · exact h
    · cases h
  isoformat_injective c c' h := int_injective (congrArg String.toList h)
  canonicalUuid_idem _ _ _ := rfl

def lengthDigest (s : String) : BitVec 256 := BitVec.ofNat 256 s.length

theorem digests_validate_iff_zero :
    Validates twoFloats lengthDigest [.doublePrecision] [[.integer 0]] ↔
      ∀ row ∈ [[SqliteValue.integer 0]], (storedRow twoFloats [.doublePrecision] row).isSome →
        RowFits twoFloats [.doublePrecision] row := by
  apply digests_validate_iff
  intro a ha b hb hab
  have htexts : rowTexts twoFloats [.doublePrecision] true [[.int 0]] ++
      rowTexts twoFloats [.doublePrecision] false [[.float false]] =
      ["[\x7b\x22text\x22:\x220\x22\x7d]", "[\x7b\x22text\x22:\x220.0\x22\x7d]"] := by decide +kernel
  change a ∈ rowTexts twoFloats [.doublePrecision] true [[.int 0]] ++
    rowTexts twoFloats [.doublePrecision] false [[.float false]] at ha
  change b ∈ rowTexts twoFloats [.doublePrecision] true [[.int 0]] ++
    rowTexts twoFloats [.doublePrecision] false [[.float false]] at hb
  rw [htexts] at ha hb
  simp only [List.mem_cons, List.not_mem_nil, or_false] at ha hb
  rcases ha with rfl | rfl <;> rcases hb with rfl | rfl
  · rfl
  · exact absurd hab (by decide)
  · exact absurd hab (by decide)
  · rfl

/-- `0` in a column of floats comes back as `0.0`. -/
theorem integer_float_rejected : ¬ Validates twoFloats lengthDigest [.doublePrecision] [[.integer 0]] := by
  intro h
  have hkept : Kept twoFloats [.doublePrecision] [[.integer 0]] [[.float false]] := .cons rfl .nil
  obtain ⟨d, hsource, htarget⟩ := h.agrees [[.integer 0]] [[.float false]] [[.float false]] (List.Subset.refl _) hkept
    (List.Perm.refl _)
  have hxor : digestRows twoFloats lengthDigest [.doublePrecision] true [[.int 0]] = .ok ⟨1, 14, 14⟩ := by decide +kernel
  have hxor' : digestRows twoFloats lengthDigest [.doublePrecision] false [[.float false]] = .ok ⟨1, 16, 16⟩ := by
    decide +kernel
  cases Except.ok.inj (hsource.symm.trans hxor)
  cases Except.ok.inj (htarget.symm.trans hxor')

/-! ## All tables -/

section

variable {lib : Library} {sha256 : String → BitVec 256}

def Known (t : TableRows lib) : Prop := (t.columns.all fun column => (List.lookup column t.targetColumns).isSome) = true

def Agree (sha256 : String → BitVec 256) (t : TableRows lib) : Prop :=
  Known t ∧ ∃ d, digestRows lib sha256 t.dataTypes true t.source = .ok d ∧ digestRows lib sha256 t.dataTypes false t.target = .ok d

theorem validateFullRowDigests_ok_iff {tables : List (TableRows lib)} {n : Nat} :
    validateFullRowDigests lib sha256 tables = .ok n ↔ (∀ t ∈ tables, Agree sha256 t) ∧ n = tables.length := by
  rw [validateFullRowDigests, foldlM_count (P := Agree sha256), Nat.zero_add]
  intro m t k
  constructor
  · intro h
    split at h
    · next hknown =>
      obtain ⟨d, hd, hrest⟩ := bind_ok_iff.1 h
      obtain ⟨d', hd', hsame⟩ := bind_ok_iff.1 hrest
      split at hsame
      · next heq => exact ⟨⟨hknown, d, hd, heq ▸ hd'⟩, (Except.ok.inj hsame).symm⟩
      · cases hsame
    · cases h
  · rintro ⟨⟨hknown, d, hd, hd'⟩, rfl⟩
    refine (if_pos hknown).trans ?_
    rw [hd, hd']
    exact if_pos rfl

/-- The target holds, in whatever order, what is kept of the rows of the source. -/
structure Imported (t : TableRows lib) : Prop where
  columns : Known t
  rows : ∃ source kept, t.source = source.map (List.map SqliteValue.toVal) ∧ Kept lib t.dataTypes source kept ∧
    t.target.Perm kept ∧ ∀ row ∈ source, RowFits lib t.dataTypes row

theorem Imported.agree {t : TableRows lib} (h : Imported t) : Agree sha256 t := by
  obtain ⟨source, kept, hsource, hkept, hperm, hfits⟩ := h.rows
  obtain ⟨nss, hnss, hnss'⟩ := kept_normal hkept fun row hrow _ => hfits row hrow
  exact ⟨h.columns, _, digestRows_ok_iff.2 ⟨nss, hsource ▸ hnss, rfl⟩, digestRows_perm hperm (digestRows_ok_iff.2 ⟨nss, hnss', rfl⟩)⟩

end

end Dumb.Postgres.Digest
