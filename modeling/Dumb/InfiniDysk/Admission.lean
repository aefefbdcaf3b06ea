import Dumb.Postgres.Jobs

/-!
# Admission of the InfiniDysk namespace migration

From `utils/infinidysk_migration_admission.py` and `utils/infinidysk_migration.py`, beside the jobs of the PostgreSQL
migration. What runs under `INFINIDYSK_MIGRATION_ADMISSION_LOCK` is one step, but for `create_job`, which holds the lock
over two steps of its own. Times are nanoseconds.
-/

namespace Dumb.InfiniDysk

open Py
open Postgres (Jobs Write)

inductive Status where
  | queued
  | running
  | rollingBack
  | completed
  | failed
  | failedRolledBack
  | rollbackAttentionRequired
  | interrupted
  deriving DecidableEq

def Status.active : Status → Bool
  | .queued | .running | .rollingBack => true
  | _ => false

def Status.recoveryPending : Status → Bool
  | .interrupted | .rollbackAttentionRequired => true
  | _ => false

def Status.text : Status → String
  | .queued => "queued"
  | .running => "running"
  | .rollingBack => "rolling_back"
  | .completed => "completed"
  | .failed => "failed"
  | .failedRolledBack => "failed_rolled_back"
  | .rollbackAttentionRequired => "rollback_attention_required"
  | .interrupted => "interrupted"

def preMutationInterruptionStages : List String := ["queued", "blocked", "validating", "preflight", "backup"]

structure Job where
  jobId : String
  status : Status
  stage : String
  workerId : Nat
  interruptedFromStage : String
  interruptedAtNs : Nat

def Job.isPreMutationInterruption (j : Job) : Bool :=
  j.status = .interrupted && preMutationInterruptionStages.contains j.interruptedFromStage

inductive WorkerAt where
  | locking
  | applying
  /-- In the `except`. -/
  | failing
  deriving DecidableEq

structure Worker where
  job : Job
  place : WorkerAt

inductive Move where
  | blocked (w : Write)
  | acquired
  /-- A progress of `apply_full_namespace`; one that raises is met by its `except`, or by the one of the worker. -/
  | progress (status : Status) (stage : String) (w : Write)
  | raise
  | complete (w : Write)
  | fail (status : Status) (w : Write)
  deriving DecidableEq

structure World where
  postgres : Jobs
  workerId : Nat
  now : Nat
  job : Option Job
  /-- `_EXTERNAL_MUTATIONS` -/
  external : List String
  /-- The `created_at_ns` of the saved preflight. -/
  preflight : Option Nat
  workers : List Worker
  cutShort : Option (Job × Nat)

namespace World

def dead (w : World) (j : Job) : Bool := j.status.active && j.workerId ≠ w.workerId

def reported (w : World) (j : Job) : Job :=
  if w.dead j then
    { j with interruptedFromStage := j.stage, status := .interrupted, interruptedAtNs := w.now, stage := "interrupted" }
  else j

def getJob (w : World) : World := { w with job := w.job.map w.reported }

def hasBlockingJob (w : World) : Bool :=
  (w.job.map w.reported).any fun j => j.status.active || j.status.recoveryPending

def locked (w : World) : Bool := w.postgres.tasks.any fun t => t.stage = .creating

def reserveExternalMutation (token : String) (w : World) : World :=
  if w.locked then w
  else if w.hasBlockingJob then w.getJob
  else { w.getJob with external := token :: w.external }

def releaseExternalMutation (token : String) (w : World) : World :=
  if w.locked then w else { w with external := w.external.filter (· ≠ token) }

def assertExternalMutationReserved (token : String) (w : World) : Bool := w.external.contains token && !w.hasBlockingJob

/-- What `start_full_namespace_job` asks of the job there is. -/
def supersedes (w : World) (j : Job) : Bool :=
  !(j.status.active || j.status = .rollbackAttentionRequired) &&
    (j.status ≠ .interrupted || j.isPreMutationInterruption &&
      w.preflight.any fun createdAt => createdAt ≠ 0 && !decide (createdAt ≤ j.interruptedAtNs))

/-- Whether it admits a job; `valid` says that the preflight passes the other checks. -/
def admits (w : World) (valid : Bool) : Bool :=
  !w.postgres.hasNamespaceConflictingJob && w.external = [] && valid && (w.job.map w.reported).all w.supersedes

def startFullNamespaceJob (jobId : String) (valid : Bool) (write : Write) (w : World) : World :=
  if w.locked then w
  else
    let w := { w with postgres := w.postgres.markAll }
    if w.admits valid then
      let job : Job := ⟨jobId, .queued, "queued", w.workerId, "", 0⟩
      let w := if write.writes then { w with job := some job, cutShort := none } else w.getJob
      if write.raises then w else { w with workers := ⟨job, .locking⟩ :: w.workers }
    else w.getJob

def updateJob (n : Nat) (job : Job) (write : Write) (ok raised : Option WorkerAt) (w : World) : World :=
  { w with
    job := if write.writes then some job else w.job
    workers := match if write.raises then raised else ok with
      | none => w.workers.eraseIdx n
      | some place => w.workers.set n ⟨job, place⟩ }

def move (n : Nat) (m : Move) (w : World) : World :=
  match w.workers[n]? with
  | none => w
  | some t =>
    match t.place, m with
    | .locking, .blocked write => w.updateJob n { t.job with status := .failed, stage := "blocked" } write none none
    | .locking, .acquired => { w with workers := w.workers.set n { t with place := .applying } }
    | .applying, .progress status stage write =>
      if status = .running || status = .rollingBack then
        w.updateJob n { t.job with status := status, stage := stage } write (some .applying) (some .applying)
      else w
    | .applying, .raise => { w with workers := w.workers.set n { t with place := .failing } }
    | .applying, .complete write =>
      w.updateJob n { t.job with status := .completed, stage := "completed" } write none (some .failing)
    | .failing, .fail status write =>
      if status = .failed || status = .failedRolledBack || status = .rollbackAttentionRequired then
        w.updateJob n { t.job with status := status, stage := status.text } write none none
      else w
    | _, _ => w

def savePreflight (w : World) : World :=
  if w.locked then w else { w with preflight := some w.now }

def cleanup (w : World) : World :=
  if w.locked then w
  else if w.external = [] && w.job.all fun j => j.status = .completed then { w with job := none, preflight := none }
  else w

def postgresStep (s : Postgres.Step) (w : World) : World :=
  match s with
  | .createJob _ _ serviceKey _ _ =>
    if w.locked then w
    else if w.hasBlockingJob then w.getJob
    else if serviceKey = "infinidysk" && w.external ≠ [] then w.getJob
    else { w.getJob with postgres := w.postgres.step s }
  | .reserveRollback jobId _ _ =>
    if (w.postgres.records.get? jobId).any fun p => p.serviceKey = "infinidysk" then
      if w.locked then w
      else if w.hasBlockingJob then w.getJob
      else { w.getJob with postgres := w.postgres.step s }
    else { w with postgres := w.postgres.step s }
  | .move .. | .read _ | .mark .. => { w with postgres := w.postgres.step s }
  | .wait _ | .restart _ => w

def restart (workerId postgresWorkerId : Nat) (w : World) : World :=
  { w with
    workerId := workerId
    postgres := w.postgres.restart postgresWorkerId
    external := []
    workers := []
    cutShort := w.cutShort.or ((w.job.filter (·.status.active)).map (·, w.now)) }

end World

inductive Step where
  | postgres (s : Postgres.Step)
  | reserve (token : String)
  | release (token : String)
  | start (jobId : String) (valid : Bool) (write : Write)
  | move (n : Nat) (m : Move)
  | getJob
  | preflight
  | cleanup
  | wait (ns : Nat)
  | restart (workerId postgresWorkerId : Nat)

def World.step (w : World) : Step → World
  | .postgres s => w.postgresStep s
  | .reserve token => w.reserveExternalMutation token
  | .release token => w.releaseExternalMutation token
  | .start jobId valid write => w.startFullNamespaceJob jobId valid write
  | .move n m => w.move n m
  | .getJob => w.getJob
  | .preflight => w.savePreflight
  | .cleanup => w.cleanup
  | .wait ns => { w with now := w.now + ns, postgres := w.postgres.step (.wait ns) }
  | .restart workerId postgresWorkerId => w.restart workerId postgresWorkerId

def World.fresh (workerId postgresWorkerId now : Nat) : World :=
  ⟨.start postgresWorkerId now, workerId, now, none, [], none, [], none⟩

end Dumb.InfiniDysk
