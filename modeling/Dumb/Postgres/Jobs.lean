import Dumb.Lib.Dict
import Dumb.Lib.Raise

/-!
# Jobs of the PostgreSQL migration

From `utils/arr_postgres_migration.py`: who may run when. What a worker and a rollback do to the service is left out here;
they write their job record, and anything between two writes may raise. A section under `_lock` is one step, and so is the
writing of a record, but `get_job` reads a record in one step and marks it as interrupted in another one.
-/

namespace Dumb.Postgres

open Py

inductive Status where
  | queued
  | running
  | finalizing
  | rollingBack
  | completed
  | failed
  | failedRolledBack
  | interrupted
  | rolledBack
  | rollbackFailed
  deriving DecidableEq

def Status.active : Status → Bool
  | .queued | .running | .finalizing | .rollingBack => true
  | _ => false

inductive Mode where
  | rehearsal
  | cutover
  deriving DecidableEq

/-- A job record. `coldBackupVerified` is its `rollback_checkpoint`. -/
structure Payload where
  processName : String
  serviceKey : String
  mode : Mode
  status : Status
  rollbackAvailable : Bool
  coldBackupVerified : Bool
  workerId : Nat
  updatedAt : Nat
  deriving DecidableEq

inductive Write where
  | done
  | raisedBefore
  | raisedAfter
  deriving DecidableEq

def Write.raises : Write → Bool
  | .done => false
  | _ => true

def Write.writes : Write → Bool
  | .raisedBefore => false
  | _ => true

inductive WorkerAt where
  /-- Before the `try`. -/
  | prologue
  | body
  /-- After the progress `finalizing`. -/
  | finalizing
  | marking
  /-- After the progress `completed`. -/
  | completed
  /-- At the start of the `except`. -/
  | failing
  /-- In the `except`, with the record still to be written for the first time after what has been restored. -/
  | restoring
  /-- After the progress `failed`. -/
  | failed
  /-- In the `finally`. -/
  | ending
  deriving DecidableEq

inductive RollbackAt where
  | restoring
  /-- After the progress `rolled_back`. -/
  | rolledBack
  /-- In the `finally`. -/
  | ending
  deriving DecidableEq

/-- A call of `create_job` that is admitted, a worker, or a rollback, with the payload it holds in memory. -/
inductive Stage where
  | creating
  | worker (place : WorkerAt)
  | rollback (place : RollbackAt)
  deriving DecidableEq

structure Task where
  jobId : String
  payload : Payload
  stage : Stage

def Task.processName (t : Task) : String := t.payload.processName

inductive Move where
  | raise
  | write (w : Write)
  | verified (w : Write)
  | complete (w : Write)
  /-- There is no `dumb_config.json` in the backup. -/
  | skip
  | restored (rollback runtimeRestored backupValid : Bool) (w : Write)
  | rollbackFailed (retrySafe : Bool) (w : Write)
  | finish
  deriving DecidableEq

structure Outcome where
  next : Option Task
  written : Option Payload
  /-- `_active_processes.discard` -/
  discards : Bool
  /-- `rollback_job` returns. -/
  returns : Bool

namespace Task

variable (now : Nat)

def save (t : Task) (p : Payload) (w : Write) (ok : Option Stage) (raised : Option Stage) : Outcome where
  next := (if w.raises then raised else ok).map fun stage => ⟨t.jobId, { p with updatedAt := now }, stage⟩
  written := if w.writes then some { p with updatedAt := now } else none
  discards := false
  returns := false

def goOn (t : Task) (stage : Option Stage) : Outcome := ⟨stage.map fun stage => { t with stage := stage }, none, false, false⟩

def finally_ : Outcome := ⟨none, none, true, false⟩

def create (t : Task) : Move → Option Outcome
  | .write w => some (t.save now t.payload w (some (.worker .prologue)) none)
  | _ => none

def runJob (own : Nat) (t : Task) : WorkerAt → Move → Option Outcome
  | .prologue, .raise => some (t.goOn none)
  | .prologue, .write w =>
    some (t.save now { t.payload with status := .running, workerId := own } w (some (.worker .body)) none)
  | .body, .raise => some (t.goOn (some (.worker .failing)))
  | .body, .write w => some (t.save now t.payload w (some (.worker .body)) (some (.worker .failing)))
  | .body, .verified w =>
    if t.payload.mode = .cutover then
      some (t.save now { t.payload with rollbackAvailable := true, coldBackupVerified := true } w (some (.worker .body))
        (some (.worker .failing)))
    else none
  | .body, .complete w =>
    match t.payload.mode with
    | .rehearsal => some (t.save now { t.payload with status := .completed } w (some (.worker .completed)) (some (.worker .failing)))
    | .cutover =>
      if t.payload.serviceKey = "infinidysk" then
        some (t.save now { t.payload with status := .finalizing, rollbackAvailable := true } w (some (.worker .finalizing))
          (some (.worker .failing)))
      else
        some (t.save now { t.payload with status := .completed, rollbackAvailable := true } w (some (.worker .completed))
          (some (.worker .failing)))
  | .finalizing, .write w => some (t.save now t.payload w (some (.worker .marking)) (some (.worker .failing)))
  | .marking, .raise => some (t.goOn (some (.worker .failing)))
  | .marking, .complete w =>
    some (t.save now { t.payload with status := .completed } w (some (.worker .completed)) (some (.worker .failing)))
  | .completed, .write w => some (t.save now t.payload w (some (.worker .ending)) (some (.worker .failing)))
  | .failing, .skip => some (t.goOn (some (.worker .restoring)))
  | .failing, .write w =>
    some (t.save now { t.payload with status := .rollingBack } w (some (.worker .restoring)) (some (.worker .ending)))
  | .restoring, .restored rollback runtimeRestored backupValid w =>
    some (t.save now { t.payload with
      status := if rollback && runtimeRestored then .failedRolledBack else .failed
      rollbackAvailable := t.payload.mode = .cutover && !runtimeRestored &&
        (t.payload.serviceKey ≠ "infinidysk" || t.payload.coldBackupVerified) && backupValid } w
      (some (.worker .failed)) (some (.worker .ending)))
  | .failed, .write w => some (t.save now t.payload w (some (.worker .ending)) (some (.worker .ending)))
  | .ending, .finish => some finally_
  | _, _ => none

def rollbackJob (t : Task) : RollbackAt → Move → Option Outcome
  | .restoring, .rollbackFailed retrySafe w =>
    some (t.save now { t.payload with status := .rollbackFailed, rollbackAvailable := retrySafe } w (some (.rollback .ending))
      (some (.rollback .ending)))
  | .restoring, .complete w =>
    some (t.save now { t.payload with status := .rolledBack, rollbackAvailable := false } w (some (.rollback .rolledBack))
      (some (.rollback .ending)))
  | .rolledBack, .write w =>
    some { t.save now t.payload w (some (.rollback .ending)) (some (.rollback .ending)) with returns := !w.raises }
  | .ending, .finish => some finally_
  | _, _ => none

def move (own : Nat) (t : Task) (m : Move) : Option Outcome :=
  match t.stage with
  | .creating => t.create now m
  | .worker place => t.runJob now own place m
  | .rollback place => t.rollbackJob now place m

end Task

structure Jobs where
  workerId : Nat
  now : Nat
  records : Dict String Payload
  activeProcesses : List String
  tasks : List Task
  /-- What `get_job` has read of a dead worker's job and is to mark as interrupted. -/
  marks : List (String × Payload)
  rolledBack : List String

namespace Jobs

def dead (w : Jobs) (p : Payload) : Bool := p.status.active && p.workerId ≠ w.workerId

def interrupted (w : Jobs) (p : Payload) : Payload := { p with status := .interrupted, updatedAt := w.now }

def reported (w : Jobs) (p : Payload) : Payload := if w.dead p then w.interrupted p else p

def latestJob (w : Jobs) (processName : String) : Option Payload :=
  ((Dict.values w.records).map w.reported).foldl
    (fun latest p =>
      if p.processName = processName then
        match latest with
        | none => some p
        | some q => if q.updatedAt < p.updatedAt then some p else some q
      else latest)
    none

def unresolved (p : Payload) : Bool :=
  p.status.active || p.status = .rollbackFailed ||
    (p.status = .failed || p.status = .interrupted) && p.rollbackAvailable

def hasActiveInfinidyskJob (w : Jobs) : Bool :=
  (Dict.values w.records).any fun p => p.serviceKey = "infinidysk" && unresolved (w.reported p)

def hasNamespaceConflictingJob (w : Jobs) : Bool := (Dict.values w.records).any fun p => unresolved (w.reported p)

def markAll (w : Jobs) : Jobs := { w with records := w.records.map fun e => (e.1, w.reported e.2) }

def admits (w : Jobs) (processName serviceKey : String) (ready : Bool) : Bool :=
  ready && !(serviceKey = "infinidysk" && w.hasActiveInfinidyskJob) && !w.activeProcesses.contains processName &&
    !(w.latestJob processName).any fun p => p.status.active

def createJob (jobId processName serviceKey : String) (mode : Mode) (ready : Bool) (w : Jobs) : Jobs :=
  if w.admits processName serviceKey ready then
    { w.markAll with
      activeProcesses := processName :: w.activeProcesses
      tasks := ⟨jobId, ⟨processName, serviceKey, mode, .queued, false, false, w.workerId, w.now⟩, .creating⟩ :: w.tasks }
  else w.markAll

def reservable (p : Payload) (valid : Bool) : Bool :=
  !p.status.active && p.mode = .cutover && p.rollbackAvailable &&
    (p.serviceKey ≠ "infinidysk" || p.coldBackupVerified) &&
    (p.status = .completed || p.status = .failed || p.status = .interrupted || p.status = .rollbackFailed) && valid

def reserveRollback (jobId : String) (valid : Bool) (write : Write) (w : Jobs) : Jobs :=
  match w.records.get? jobId with
  | none => w
  | some p =>
    let p := w.reported p
    let w := { w with records := w.records.set jobId p }
    if reservable p valid then
      let q := { p with status := .rollingBack, workerId := w.workerId, updatedAt := w.now }
      let records := if write.writes then w.records.set jobId q else w.records
      if write.raises then { w with records := records }
      else
        { w with
          records := records
          activeProcesses := q.processName :: w.activeProcesses
          tasks := ⟨jobId, q, .rollback .restoring⟩ :: w.tasks }
    else w

def read (jobId : String) (w : Jobs) : Jobs :=
  match w.records.get? jobId with
  | none => w
  | some p => if w.dead p then { w with marks := (jobId, p) :: w.marks } else w

def mark (n : Nat) (write : Write) (w : Jobs) : Jobs :=
  match w.marks[n]? with
  | none => w
  | some (jobId, p) =>
    { w with
      marks := w.marks.eraseIdx n
      records := if write.writes then w.records.set jobId (w.interrupted p) else w.records }

def perform (t : Task) (n : Nat) (o : Outcome) (w : Jobs) : Jobs where
  workerId := w.workerId
  now := w.now
  records := match o.written with
    | none => w.records
    | some p => w.records.set t.jobId p
  activeProcesses := if o.discards then w.activeProcesses.filter (· ≠ t.processName) else w.activeProcesses
  tasks := match o.next with
    | none => w.tasks.eraseIdx n
    | some t' => w.tasks.set n t'
  marks := w.marks
  rolledBack := if o.returns then t.jobId :: w.rolledBack else w.rolledBack

def move (n : Nat) (m : Move) (w : Jobs) : Jobs :=
  match w.tasks[n]? with
  | none => w
  | some t =>
    match t.move w.now w.workerId m with
    | none => w
    | some o => w.perform t n o

def restart (workerId : Nat) (w : Jobs) : Jobs :=
  { w with workerId := workerId, activeProcesses := [], tasks := [], marks := [] }

end Jobs

inductive Step where
  | createJob (jobId processName serviceKey : String) (mode : Mode) (ready : Bool)
  | reserveRollback (jobId : String) (valid : Bool) (write : Write)
  | move (n : Nat) (m : Move)
  | read (jobId : String)
  | mark (n : Nat) (write : Write)
  | wait (seconds : Nat)
  | restart (workerId : Nat)

def Jobs.step (w : Jobs) : Step → Jobs
  | .createJob jobId processName serviceKey mode ready => w.createJob jobId processName serviceKey mode ready
  | .reserveRollback jobId valid write => w.reserveRollback jobId valid write
  | .move n m => w.move n m
  | .read jobId => w.read jobId
  | .mark n write => w.mark n write
  | .wait seconds => { w with now := w.now + seconds }
  | .restart workerId => w.restart workerId

def Jobs.start (workerId now : Nat) : Jobs := ⟨workerId, now, [], [], [], [], []⟩

end Dumb.Postgres
