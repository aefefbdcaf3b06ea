import Mathlib.Data.Rat.Floor
import Mathlib.Algebra.Order.Ring.Rat
import Dumb.Lib.Table

/-!
# Metrics history in SQLite and PostgreSQL

From `utils/metrics_history_store.py`. A sample is a snapshot with the timestamp it is stored under. The limits of
retention are off, so that `prune` does nothing. Any PostgreSQL call may fail, before or after it took effect, and
the clock may go back between any two of its readings.
-/

namespace Dumb.Metrics

variable {γ : Type}

abbrev Sample (γ : Type) := ℚ × γ

inductive Fate where
  | answered
  | refused (message : String)
  | lost (message : String)

structure Postgres (γ : Type) where
  table : Table ℚ γ
  fates : List Fate

abbrev Call (γ α : Type) := Postgres γ → Except String α × Postgres γ

def call {α : Type} (f : Table ℚ γ → α × Table ℚ γ) : Call γ α := fun p =>
  match p.fates with
  | [] => (.ok (f p.table).1, ⟨(f p.table).2, []⟩)
  | .answered :: fates => (.ok (f p.table).1, ⟨(f p.table).2, fates⟩)
  | .refused e :: fates => (.error e, ⟨p.table, fates⟩)
  | .lost e :: fates => (.error e, ⟨(f p.table).2, fates⟩)

/-! ## The stores -/

def limited (limit : Int) (rows : List (Sample γ)) : List (Sample γ) :=
  if 0 < limit then rows.take limit.toNat else rows

def readRows (t : Table ℚ γ) (since : Option ℚ) (limit : Int) : List (Sample γ) :=
  (limited limit (t.since since).reverse).reverse

def readForward (t : Table ℚ γ) (since : Option ℚ) (limit : Int) : List (Sample γ) := limited limit (t.since since)

structure Stats where
  samples : Nat
  oldestTimestamp : Option ℚ
  newestTimestamp : Option ℚ

def tableStatus (t : Table ℚ γ) : Stats := ⟨t.rows.length, t.rows.head?.map (·.1), t.max?⟩

def Postgres.latestTimestamp : Call γ (Option ℚ) := call fun t => (t.max?, t)

def Postgres.writeMany (items : List (Sample γ)) : Call γ Nat := fun p =>
  if items = [] then (.ok 0, p) else call (fun t => (items.length, t.upsertMany items)) p

def Postgres.read (since : Option ℚ) (limit : Int) : Call γ (List (Sample γ)) := call fun t => (readRows t since limit, t)

def Postgres.status : Call γ Stats := call fun t => (tableStatus t, t)

/-! ## The manager -/

inductive Provider where
  | sqlite
  | postgresql
  deriving DecidableEq

structure Migration where
  completed : Bool
  files : Nat
  samples : Nat
  skipped : Nat

structure Manager (γ : Type) where
  sqlite : Table ℚ γ
  postgres : Table ℚ γ
  /-- What the last import left in `metrics_metadata`. -/
  metadata : Option Migration
  configuredProvider : Provider
  activeProvider : Provider
  lastError : Option String
  lastPostgresAttempt : ℚ
  lastPostgresSuccess : Option ℚ
  lastMigration : Migration

structure Clock where
  start : ℚ
  check : ℚ
  attempt : ℚ
  success : ℚ

def postgresRetryInterval (retryIntervalSec : Option Int) : ℚ :=
  match retryIntervalSec with
  | some n => max 15 n
  | none => 60

namespace Manager

def configured (provider : Provider) (sqlite postgres : Table ℚ γ) (metadata : Option Migration) : Manager γ where
  sqlite := sqlite
  postgres := postgres
  metadata := metadata
  configuredProvider := provider
  activeProvider := .sqlite
  lastError := none
  lastPostgresAttempt := 0
  lastPostgresSuccess := none
  lastMigration := ⟨false, 0, 0, 0⟩

def failing (m : Manager γ) : Bool := m.lastError.any (· ≠ "")

def postgresAvailable (m : Manager γ) (retryIntervalSec : Option Int) (force : Bool) (now : ℚ) : Bool :=
  m.configuredProvider = .postgresql ∧
    ¬ (force = false ∧ m.failing = true ∧ now - m.lastPostgresAttempt < postgresRetryInterval retryIntervalSec)

def promoted (m : Manager γ) (now : ℚ) : Manager γ :=
  { m with activeProvider := .postgresql, lastError := none, lastPostgresSuccess := some now }

def fallenBack (m : Manager γ) (e : String) : Manager γ :=
  { m with activeProvider := .sqlite, lastError := some e }

end Manager

/-! ## Sync -/

def microsecond : ℚ := 1 / 1000000

def batchSize : Nat := 5000

def syncLoop (sqlite : Table ℚ γ) : Nat → Option ℚ → Nat → Call γ Nat
  | 0, _, synced, p => (.ok synced, p)
  | rounds + 1, since, synced, p =>
    let items := readForward sqlite since batchSize
    match items.getLast? with
    | none => (.ok synced, p)
    | some last =>
      match Postgres.writeMany items p with
      | (.error e, p) => (.error e, p)
      | (.ok n, p) =>
        if items.length < batchSize then (.ok (synced + n), p)
        else syncLoop sqlite rounds (some (last.1 + microsecond)) (synced + n) p

def syncPostgres (sqlite : Table ℚ γ) (full : Bool) : Call γ Nat := fun p =>
  if full then syncLoop sqlite (sqlite.rows.length + 1) none 0 p
  else
    match Postgres.latestTimestamp p with
    | (.error e, p) => (.error e, p)
    | (.ok latest, p) => syncLoop sqlite (sqlite.rows.length + 1) (latest.map (· + microsecond)) 0 p

/-! ## The calls of the manager -/

namespace Manager

def write (retryIntervalSec : Option Int) (clock : Clock) (sample : Sample γ) (fates : List Fate) (m : Manager γ) :
    Manager γ :=
  let m := { m with sqlite := m.sqlite.upsert sample }
  if m.configuredProvider = .postgresql ∧ m.postgresAvailable retryIntervalSec false clock.check then
    let m := { m with lastPostgresAttempt := clock.attempt }
    match syncPostgres m.sqlite (m.activeProvider ≠ .postgresql) ⟨m.postgres, fates⟩ with
    | (.ok _, p) => { m with postgres := p.table }.promoted clock.success
    | (.error e, p) => { m with postgres := p.table }.fallenBack e
  else m

def activatePostgresql (clock : Clock) (fates : List Fate) (m : Manager γ) : Except String (Nat × Stats) × Manager γ :=
  if m.configuredProvider ≠ .postgresql then (.error "Metrics history is not configured to use PostgreSQL.", m)
  else
    let m := { m with lastPostgresAttempt := clock.attempt }
    match syncPostgres m.sqlite true ⟨m.postgres, fates⟩ with
    | (.error e, p) => (.error e, { m with postgres := p.table }.fallenBack e)
    | (.ok synced, p) =>
      let m := { m with postgres := p.table }.promoted clock.success
      match Postgres.status p with
      | (.ok stats, p) => (.ok (synced, stats), { m with postgres := p.table })
      | (.error e, p) => (.error e, { m with postgres := p.table }.fallenBack e)

def ask {α : Type} (query : Call γ α) (clock : Clock) (fates : List Fate) (m : Manager γ) : Option α × Manager γ :=
  let m := { m with lastPostgresAttempt := clock.attempt }
  let synced : Except String Nat × Postgres γ :=
    if m.activeProvider ≠ .postgresql then syncPostgres m.sqlite true ⟨m.postgres, fates⟩
    else (.ok 0, ⟨m.postgres, fates⟩)
  match synced with
  | (.error e, p) => (none, { m with postgres := p.table }.fallenBack e)
  | (.ok _, p) =>
    match query p with
    | (.error e, p) => (none, { m with postgres := p.table }.fallenBack e)
    | (.ok a, p) => (some a, { m with postgres := p.table }.promoted clock.success)

def truncated (items : List (Sample γ)) (limit : Int) : Bool := limit ≠ 0 ∧ limit ≤ items.length

def readSince (clock : Clock) (since : Option ℚ) (full : Bool) (defaultHours : ℚ) : Option ℚ :=
  if since = none ∧ full = false then some (clock.start - defaultHours * 60 * 60) else since

def read (retryIntervalSec : Option Int) (clock : Clock) (since : Option ℚ) (full : Bool) (limit : Int)
    (defaultHours : ℚ) (fates : List Fate) (m : Manager γ) : (List (Sample γ) × Bool) × Manager γ :=
  let since := readSince clock since full defaultHours
  let asked :=
    if m.configuredProvider = .postgresql ∧ m.postgresAvailable retryIntervalSec false clock.check then
      m.ask (Postgres.read since limit) clock fates
    else (none, m)
  match asked with
  | (some items, m) => ((items, truncated items limit), m)
  | (none, m) =>
    let items := readRows m.sqlite since limit
    ((items, truncated items limit), m)

structure Status where
  configuredProvider : Provider
  activeProvider : Provider
  fallbackActive : Bool
  lastError : Option String
  lastPostgresqlSuccess : Option ℚ
  sqlite : Stats
  postgresql : Option Stats
  migration : Migration

def status (retryIntervalSec : Option Int) (clock : Clock) (probePostgresql : Bool) (fates : List Fate)
    (m : Manager γ) : Status × Manager γ :=
  let sqliteStatus := tableStatus m.sqlite
  let asked :=
    if m.configuredProvider = .postgresql ∧ m.postgresAvailable retryIntervalSec probePostgresql clock.check then
      m.ask Postgres.status clock fates
    else (none, m)
  let m := asked.2
  (⟨m.configuredProvider, m.activeProvider, m.configuredProvider ≠ m.activeProvider, m.lastError,
    m.lastPostgresSuccess, sqliteStatus, asked.1, m.lastMigration⟩, m)

end Manager

/-! ## The import of the JSONL files -/

inductive Line (γ : Type) where
  | sample (x : Sample γ)
  /-- Valid JSON that `write_many` cannot store. -/
  | other
  | malformed

structure File (γ : Type) where
  lines : List (Line γ)
  raises : Option String

structure Import (γ : Type) where
  sqlite : Table ℚ γ
  samples : Nat
  skipped : Nat
  batch : List (Option (Sample γ))

def importBatch : Nat := 1000

def Line.isMalformed : Line γ → Bool
  | .malformed => true
  | _ => false

namespace Import

def flush (i : Import γ) (least : Nat) : Import γ :=
  match i.batch.mapM id with
  | some rows => ⟨i.sqlite.upsertMany rows, i.samples + rows.length, i.skipped, []⟩
  | none => ⟨i.sqlite, i.samples, i.skipped + max least i.batch.length, []⟩

def add (i : Import γ) (snapshot : Option (Sample γ)) : Import γ :=
  let i := { i with batch := i.batch ++ [snapshot] }
  if importBatch ≤ i.batch.length then i.flush 1 else i

def line (i : Import γ) : Line γ → Import γ
  | .sample x => i.add (some x)
  | .other => i.add none
  | .malformed => i

def files (i : Import γ) : List (File γ) → Except String Unit × Import γ
  | [] => (.ok (), i)
  | f :: fs =>
    let i := f.lines.foldl line i
    match f.raises with
    | some e => (.error e, i)
    | none => files { i with skipped := i.skipped + f.lines.countP Line.isMalformed } fs

end Import

def Manager.migrateLegacy (force : Bool) (files : List (File γ)) (m : Manager γ) :
    Except String Migration × Manager γ :=
  match force, m.metadata with
  | false, some ⟨true, files, samples, _⟩ =>
    (.ok ⟨true, files, samples, 0⟩, { m with lastMigration := ⟨true, files, samples, 0⟩ })
  | _, _ =>
    match Import.files ⟨m.sqlite, 0, 0, []⟩ files with
    | (.error e, i) => (.error e, { m with sqlite := i.sqlite })
    | (.ok _, i) =>
      let i := if i.batch = [] then i else i.flush 0
      let migration : Migration := ⟨i.skipped = 0, files.length, i.samples, i.skipped⟩
      (.ok migration, { m with
        sqlite := i.sqlite
        metadata := some migration
        lastMigration := migration
        activeProvider := if m.configuredProvider = .postgresql then .sqlite else m.activeProvider })

/-! ## Runs -/

inductive Step (γ : Type) where
  | write (clock : Clock) (sample : Sample γ) (fates : List Fate)
  | read (clock : Clock) (since : Option ℚ) (full : Bool) (limit : Int) (defaultHours : ℚ) (fates : List Fate)
  | status (clock : Clock) (probePostgresql : Bool) (fates : List Fate)
  | migrateLegacy (force : Bool) (files : List (File γ))
  | activatePostgresql (clock : Clock) (fates : List Fate)

def Manager.after (retryIntervalSec : Option Int) (m : Manager γ) : Step γ → Manager γ
  | .write clock sample fates => m.write retryIntervalSec clock sample fates
  | .read clock since full limit defaultHours fates =>
    (m.read retryIntervalSec clock since full limit defaultHours fates).2
  | .status clock probePostgresql fates => (m.status retryIntervalSec clock probePostgresql fates).2
  | .migrateLegacy force files => (m.migrateLegacy force files).2
  | .activatePostgresql clock fates => (m.activatePostgresql clock fates).2

def Manager.run (retryIntervalSec : Option Int) (m : Manager γ) (steps : List (Step γ)) : Manager γ :=
  steps.foldl (Manager.after retryIntervalSec) m

end Dumb.Metrics
