import Dumb.Postgres.Digest
import Mathlib

/-!
# Batches of the import

`_estimated_import_value_bytes` and `_converted_import_batches` of `utils/arr_postgres_migration.py`. A generator is what it
yields, and what it raises in the end.
-/

namespace Dumb.Postgres.Digest

open Py

structure Generated (ε β : Type) where
  yielded : List (List β)
  raised : Option ε

namespace Generated

variable {α β ε : Type}

def yield (batch : List β) (rest : Generated ε β) : Generated ε β := { rest with yielded := batch :: rest.yielded }

variable (convert : α → Except ε β) (rowBytes : β → Nat) (size : Nat) (limit : Int)

def fetchmany : List α → Generated ε β
  | [] => ⟨[], none⟩
  | row :: rows =>
    match ((row :: rows).take size).mapM convert with
    | .ok batch => yield batch (fetchmany (rows.drop (size - 1)))
    | .error e => ⟨[], some e⟩
termination_by rows => rows.length
decreasing_by simp only [List.length_drop, List.length_cons]; omega

def fetchone : List α → List β → Nat → Generated ε β
  | [], batch, _ => if batch = [] then ⟨[], none⟩ else ⟨[batch], none⟩
  | row :: rows, batch, batchBytes =>
    match convert row with
    | .error e => ⟨[], some e⟩
    | .ok converted =>
      let append (batch : List β) (batchBytes : Nat) : Generated ε β :=
        if limit ≤ batchBytes + rowBytes converted then yield (batch ++ [converted]) (fetchone rows [] 0)
        else fetchone rows (batch ++ [converted]) (batchBytes + rowBytes converted)
      if batch ≠ [] ∧ (size ≤ batch.length ∨ limit < batchBytes + rowBytes converted) then yield batch (append [] 0)
      else append batch batchBytes

end Generated

section

variable (lib : Library) (isoformatOf : Datetime → String)

def estimatedImportValueBytes : Val lib.Float → Nat
  | .none => 1
  | .bytes b => b.length
  | .str s => s.utf8ByteSize
  | .datetime d => (isoformatOf d).utf8ByteSize
  | value => (pyStr lib value).utf8ByteSize

def rowBytes (converted : List (Val lib.Float)) : Nat :=
  16 * converted.length + (converted.map (estimatedImportValueBytes lib isoformatOf)).sum

def convertRow (columns : List String) (targetColumns : List (String × DataType)) (row : List (Val lib.Float)) :
    Except Exn (List (Val lib.Float)) :=
  (columns.zip row).mapM fun cell => do
    let dataType ← orRaise .python (List.lookup cell.1 targetColumns)
    convertValue lib cell.2 dataType

def convertedImportBatches (columns : List String) (targetColumns : List (String × DataType)) (batchSize : Int)
    (maxBatchBytes : Option Int) (rows : List (List (Val lib.Float))) : Generated Exn (List (Val lib.Float)) :=
  let size := (max 1 batchSize).toNat
  match maxBatchBytes with
  | none => Generated.fetchmany (convertRow lib columns targetColumns) size rows
  | some limit =>
    Generated.fetchone (convertRow lib columns targetColumns) (rowBytes lib isoformatOf) size (max 1 limit) rows [] 0

end

/-! ## What is yielded -/

namespace Generated

variable {α β ε : Type} {convert : α → Except ε β} {rowBytes : β → Nat} {size : Nat} {limit : Int}

/-- The batches are `pre` and the converted rows, or the generator raises as the first row does that cannot be converted. -/
def Covers (convert : α → Except ε β) (pre : List β) (rows : List α) (g : Generated ε β) : Prop :=
  (∀ converted, rows.mapM convert = .ok converted → g.raised = none ∧ g.yielded.flatten = pre ++ converted) ∧
    ∀ e, rows.mapM convert = .error e → g.raised = some e

theorem mapM_append {l l' : List α} : (l ++ l').mapM convert = (do
    let r ← l.mapM convert
    let r' ← l'.mapM convert
    pure (r ++ r')) := List.mapM_append

variable {rows : List α} {g : Generated ε β}

theorem covers_yield {pre batch : List β} (h : Covers convert [] rows g)
    (hpre : pre = batch) : Covers convert pre rows (yield batch g) := by
  subst hpre
  constructor
  · intro converted hconverted
    obtain ⟨hraised, hflatten⟩ := h.1 converted hconverted
    exact ⟨hraised, by rw [yield, List.flatten_cons, hflatten, List.nil_append]⟩
  · exact h.2

theorem covers_of_map {rows' : List α} {pre pre' : List β} {f : List β → List β} {g' : Generated ε β}
    (h : Covers convert pre rows g) (hmapM : rows'.mapM convert = (rows.mapM convert).map f) (hsame : g'.raised = g.raised)
    (hyielded : ∀ converted, g.yielded.flatten = pre ++ converted → g'.yielded.flatten = pre' ++ f converted) : Covers convert pre' rows' g' := by
  unfold Covers
  rw [hmapM, hsame]
  cases hrows : rows.mapM convert with
  | error e =>
    refine ⟨nofun, fun e' he => ?_⟩
    cases he
    exact h.2 e hrows
  | ok rest =>
    refine ⟨fun converted hconverted => ?_, nofun⟩
    cases hconverted
    exact ⟨(h.1 rest hrows).1, hyielded rest (h.1 rest hrows).2⟩

variable {pre : List β}

theorem covers_raised {e : ε} (h : rows.mapM convert = .error e) : Covers convert pre rows ⟨[], some e⟩ := by
  unfold Covers
  rw [h]
  refine ⟨nofun, fun e' he => ?_⟩
  cases he
  rfl

theorem covers_cons {row : α} {b : β} (hrow : convert row = .ok b)
    (h : Covers convert (pre ++ [b]) rows g) : Covers convert pre (row :: rows) g := by
  refine covers_of_map h ?_ rfl fun _ hflatten => hflatten.trans (List.append_assoc ..)
  rw [List.mapM_cons, hrow]
  cases rows.mapM convert <;> rfl

theorem covers_error {row : α} {e : ε} (hrow : convert row = .error e) :
    Covers convert pre (row :: rows) ⟨[], some e⟩ := by
  refine covers_raised ?_
  rw [List.mapM_cons, hrow]
  rfl

theorem fetchone_covers (rows : List α) (batch : List β) (batchBytes : Nat) :
    Covers convert batch rows (fetchone convert rowBytes size limit rows batch batchBytes) := by
  induction rows generalizing batch batchBytes with
  | nil =>
    rw [fetchone]
    constructor
    · intro converted hconverted
      cases hconverted
      split
      case isTrue hempty => exact ⟨rfl, by rw [hempty]; rfl⟩
      case isFalse => exact ⟨rfl, by simp⟩
    · intro e he
      cases he
  | cons row rows ih =>
    rw [fetchone]
    cases hrow : convert row with
    | error e => exact covers_error hrow
    | ok converted =>
      have happend : ∀ (batch : List β) (batchBytes : Nat), Covers convert batch (row :: rows)
          (if limit ≤ batchBytes + rowBytes converted then
            yield (batch ++ [converted]) (fetchone convert rowBytes size limit rows [] 0)
          else fetchone convert rowBytes size limit rows (batch ++ [converted]) (batchBytes + rowBytes converted)) := by
        intro batch batchBytes
        apply covers_cons hrow
        split
        · exact covers_yield (ih [] 0) rfl
        · exact ih _ _
      simp only
      split
      · exact covers_yield (happend [] 0) rfl
      · exact happend batch batchBytes

theorem covers_append {l rows : List α} {batch : List β} (hl : l.mapM convert = .ok batch)
    (h : Covers convert [] rows g) : Covers convert [] (l ++ rows) (yield batch g) := by
  refine covers_of_map (f := (batch ++ ·)) h ?_ rfl ?_
  · rw [mapM_append, hl]
    cases rows.mapM convert <;> rfl
  · exact fun _ hflatten => congrArg (batch ++ ·) hflatten

theorem covers_append_error {l rows : List α} {e : ε} (hl : l.mapM convert = .error e) :
    Covers convert [] (l ++ rows) ⟨[], some e⟩ := by
  refine covers_raised ?_
  rw [mapM_append, hl]
  rfl

theorem fetchmany_covers (hsize : 0 < size) (rows : List α) : Covers convert [] rows (fetchmany convert size rows) := by
  induction h : rows.length using Nat.strongRecOn generalizing rows with
  | _ n ih =>
    subst h
    cases rows with
    | nil =>
      rw [fetchmany]
      refine ⟨fun converted hconverted => ?_, fun e he => by cases he⟩
      cases hconverted
      exact ⟨rfl, rfl⟩
    | cons row rows =>
      have hsplit : row :: rows = (row :: rows).take size ++ rows.drop (size - 1) := by
        obtain ⟨n, rfl⟩ := Nat.exists_eq_succ_of_ne_zero (Nat.ne_of_gt hsize)
        simp
      rw [fetchmany]
      cases hbatch : ((row :: rows).take size).mapM convert with
      | error e =>
        simp only
        rw [hsplit]
        exact covers_append_error hbatch
      | ok batch =>
        have hrest := ih (rows.drop (size - 1)).length (by simp only [List.length_drop, List.length_cons]; omega)
          (rows.drop (size - 1)) rfl
        simp only
        conv => arg 3; rw [hsplit]
        exact covers_append hbatch hrest

/-! ## Bounds -/

/-- A batch as it is yielded: not empty, of at most `size` rows, and of at most `limit` bytes where it has two rows. -/
structure Bounded (rowBytes : β → Nat) (size : Nat) (limit : Int) (batch : List β) : Prop where
  nonempty : batch ≠ []
  rows : batch.length ≤ size
  bytes : 2 ≤ batch.length → ((batch.map rowBytes).sum : Int) ≤ limit

theorem mem_yield {batch b : List β} (h : b ∈ (yield batch g).yielded) : b = batch ∨ b ∈ g.yielded :=
  List.mem_cons.1 h

theorem fetchone_bounded (hsize : 0 < size) (rows : List α) (batch : List β)
    (hbatch : batch ≠ [] → Bounded rowBytes size limit batch) :
    ∀ b ∈ (fetchone convert rowBytes size limit rows batch (batch.map rowBytes).sum).yielded,
      Bounded rowBytes size limit b := by
  induction rows generalizing batch with
  | nil =>
    intro b hb
    rw [fetchone] at hb
    split at hb
    case isTrue => cases hb
    case isFalse hne =>
      rw [List.mem_singleton.1 hb]
      exact hbatch hne
  | cons row rows ih =>
    intro b hb
    rw [fetchone] at hb
    cases hrow : convert row with
    | error e => rw [hrow] at hb; cases hb
    | ok converted =>
      rw [hrow] at hb
      have happend : ∀ batch : List β, (batch ≠ [] → batch.length < size ∧
          ((batch.map rowBytes).sum : Int) + rowBytes converted ≤ limit) →
          ∀ b ∈ (if limit ≤ (batch.map rowBytes).sum + rowBytes converted then
              yield (batch ++ [converted]) (fetchone convert rowBytes size limit rows [] 0)
            else fetchone convert rowBytes size limit rows (batch ++ [converted])
              ((batch.map rowBytes).sum + rowBytes converted)).yielded, Bounded rowBytes size limit b := by
        intro batch hroom b hb
        have hsum : (batch.map rowBytes).sum + rowBytes converted = ((batch ++ [converted]).map rowBytes).sum := by simp
        have hbounded : Bounded rowBytes size limit (batch ++ [converted]) := by
          refine ⟨by simp, ?_, ?_⟩
          · by_cases hempty : batch = []
            · subst hempty
              exact hsize
            · rw [List.length_append]
              exact (hroom hempty).1
          · intro htwo
            have hne : batch ≠ [] := by
              rintro rfl
              simp at htwo
            rw [← hsum]
            rw [Int.natCast_add]
            exact (hroom hne).2
        split at hb
        · rcases mem_yield hb with rfl | hb
          · exact hbounded
          · exact ih [] (fun h => absurd rfl h) b hb
        · rw [hsum] at hb
          exact ih _ (fun _ => hbounded) b hb
      simp only at hb
      split at hb
      case isTrue hflush =>
        rcases mem_yield hb with rfl | hb
        · exact hbatch hflush.1
        · exact happend [] (fun h => absurd rfl h) b hb
      case isFalse hroom =>
        apply happend batch _ b hb
        intro hne
        rw [not_and_or, not_or, Nat.not_le, Int.not_lt] at hroom
        exact hroom.resolve_left (not_not.2 hne)

theorem mapM_length {l : List α} {r : List β} (h : l.mapM convert = .ok r) : r.length = l.length := by
  induction l generalizing r with
  | nil => cases h; rfl
  | cons a l ih =>
    rw [List.mapM_cons] at h
    obtain ⟨b, hb, h⟩ := bind_ok_iff.1 h
    obtain ⟨bs, hbs, h⟩ := bind_ok_iff.1 h
    cases h
    rw [List.length_cons, List.length_cons, ih hbs]

theorem fetchmany_bounded (hsize : 0 < size) (rows : List α) :
    ∀ b ∈ (fetchmany convert size rows).yielded, b ≠ [] ∧ b.length ≤ size := by
  induction h : rows.length using Nat.strongRecOn generalizing rows with
  | _ n ih =>
    subst h
    cases rows with
    | nil => rw [fetchmany]; simp
    | cons row rows =>
      intro b hb
      rw [fetchmany] at hb
      cases hbatch : ((row :: rows).take size).mapM convert with
      | error e => rw [hbatch] at hb; cases hb
      | ok batch =>
        rw [hbatch] at hb
        rcases mem_yield hb with rfl | hb
        · have hlength := mapM_length hbatch
          rw [List.length_take] at hlength
          refine ⟨?_, by omega⟩
          rintro rfl
          simp only [List.length_nil, List.length_cons] at hlength
          omega
        · exact ih (rows.drop (size - 1)).length (by simp only [List.length_drop, List.length_cons]; omega)
            (rows.drop (size - 1)) rfl b hb

end Generated

section

variable {lib : Library} {isoformatOf : Datetime → String}

theorem rowBytes_le_one {row : List (Val lib.Float)} (h : rowBytes lib isoformatOf row ≤ 1) :
    rowBytes lib isoformatOf row = 0 := by
  have hempty : row = [] := List.length_eq_zero_iff.1 (by rw [rowBytes] at h; omega)
  rw [hempty]
  rfl

theorem sum_le_one {batch : List (List (Val lib.Float))} (h : (batch.map (rowBytes lib isoformatOf)).sum ≤ 1) :
    (batch.map (rowBytes lib isoformatOf)).sum = 0 := by
  induction batch with
  | nil => rfl
  | cons row batch ih =>
    rw [List.map_cons, List.sum_cons] at h ⊢
    have hrow : rowBytes lib isoformatOf row = 0 := rowBytes_le_one (by omega)
    have hrest := ih (by omega)
    omega

end

/-- What an import reads of `rows` is `convertRow` of them: the batches yielded are these rows in order, or the generator
raises what the first row raises that cannot be converted. -/
structure Batched {φ : Type} (convert : List (Val φ) → Except Exn (List (Val φ))) (rowBytes : List (Val φ) → Nat) (batchSize : Int)
    (maxBatchBytes : Option Int) (rows : List (List (Val φ))) (g unlimited : Generated Exn (List (Val φ))) : Prop where
  exact : ∀ converted, rows.mapM convert = .ok converted → g.raised = none ∧ g.yielded.flatten = converted
  same : ∀ converted, rows.mapM convert = .ok converted →
    g.raised = unlimited.raised ∧ g.yielded.flatten = unlimited.yielded.flatten
  raised : ∀ e, rows.mapM convert = .error e → g.raised = some e
  nonempty : ∀ batch ∈ g.yielded, batch ≠ []
  size : ∀ batch ∈ g.yielded, (batch.length : Int) ≤ max 1 batchSize
  bytes : ∀ limit, maxBatchBytes = some limit → ∀ batch ∈ g.yielded, 2 ≤ batch.length →
    ((batch.map rowBytes).sum : Int) ≤ max 0 limit

/-- The batches of an import lose no row and have none twice, within both limits. -/
theorem import_batched (lib : Library) (isoformatOf : Datetime → String) (columns : List String)
    (targetColumns : List (String × DataType)) (batchSize : Int) (maxBatchBytes : Option Int)
    (rows : List (List (Val lib.Float))) :
    Batched (convertRow lib columns targetColumns) (rowBytes lib isoformatOf) batchSize maxBatchBytes rows
      (convertedImportBatches lib isoformatOf columns targetColumns batchSize maxBatchBytes rows)
      (convertedImportBatches lib isoformatOf columns targetColumns batchSize none rows) := by
  have hsize : 0 < (max 1 batchSize).toNat := by omega
  have hall : Generated.Covers (convertRow lib columns targetColumns) [] rows
      (convertedImportBatches lib isoformatOf columns targetColumns batchSize none rows) :=
    Generated.fetchmany_covers hsize rows
  have hcovers : Generated.Covers (convertRow lib columns targetColumns) [] rows
      (convertedImportBatches lib isoformatOf columns targetColumns batchSize maxBatchBytes rows) := by
    cases maxBatchBytes with
    | none => exact hall
    | some limit => exact Generated.fetchone_covers rows [] 0
  have hbounds : ∀ batch ∈ (convertedImportBatches lib isoformatOf columns targetColumns batchSize maxBatchBytes
      rows).yielded, batch ≠ [] ∧ batch.length ≤ (max 1 batchSize).toNat := by
    intro batch hbatch
    cases maxBatchBytes with
    | none => exact Generated.fetchmany_bounded hsize rows batch hbatch
    | some limit =>
      have hbounded := Generated.fetchone_bounded hsize rows [] (fun h => absurd rfl h) batch hbatch
      exact ⟨hbounded.nonempty, hbounded.rows⟩
  constructor
  · intro converted hconverted
    exact hcovers.1 converted hconverted
  · intro converted hconverted
    obtain ⟨hraised, hflatten⟩ := hcovers.1 converted hconverted
    obtain ⟨hraised', hflatten'⟩ := hall.1 converted hconverted
    exact ⟨hraised.trans hraised'.symm, hflatten.trans hflatten'.symm⟩
  · exact hcovers.2
  · intro batch hbatch
    exact (hbounds batch hbatch).1
  · intro batch hbatch
    have hlength := (hbounds batch hbatch).2
    omega
  · rintro limit rfl batch hbatch htwo
    have hbounded := Generated.fetchone_bounded hsize rows [] (fun h => absurd rfl h) batch hbatch
    have hbytes := hbounded.bytes htwo
    by_cases hlimit : 1 ≤ limit
    · omega
    · have hzero : (batch.map (rowBytes lib isoformatOf)).sum = 0 := sum_le_one (by omega)
      omega

example : (Generated.fetchone (fun n : Nat => (.ok n : Except Exn Nat)) id 2 10 [3, 4, 9, 1, 1, 1] [] 0).yielded =
    [[3, 4], [9, 1], [1, 1]] := by decide

end Dumb.Postgres.Digest
