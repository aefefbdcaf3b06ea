import Mathlib.Algebra.Order.Field.Rat
import Mathlib.Data.List.Sort
import Dumb.Lib.Raise
import Dumb.Lib.Text

/-!
# The delivery of notifications

From `utils/notifications.py`, with a database that works. One thread delivers; emits, the configuration and the
history may change between any two of its steps. `calls` is what the providers have seen, the last call first. The texts of a
notification go from `emit` to the provider as they are and are left out.
-/

namespace Dumb.Notifications

open Py

inductive Severity where
  | info
  | success
  | warning
  | critical

def Severity.rank : Severity → Nat
  | .info => 0
  | .success => 1
  | .warning => 2
  | .critical => 3

inductive Provider where
  | apprise
  | webhook
  | other (name : String)

structure Destination where
  id : String
  enabled : Bool
  provider : Provider
  url : String
  minimumSeverity : Severity
  eventTypes : List String
  serviceNames : List String
  cooldownSec : Nat
  sendRecovery : Bool

/-- `dumb.notifications`, with the bounds of its schema. -/
structure Config where
  enabled : Bool
  historyRetentionDays : Nat
  maxAttempts : Nat
  retryBaseSec : Nat
  destinations : List Destination
  one_le_maxAttempts : 1 ≤ maxAttempts
  one_le_retryBaseSec : 1 ≤ retryBaseSec

namespace Config

def attemptLimit (c : Config) : Nat := max 1 (if c.maxAttempts = 0 then 3 else c.maxAttempts)

def retryBase (c : Config) : Nat := max 1 (if c.retryBaseSec = 0 then 30 else c.retryBaseSec)

@[simp] theorem attemptLimit_eq (c : Config) : c.attemptLimit = c.maxAttempts := by
  have := c.one_le_maxAttempts
  unfold attemptLimit
  split <;> omega

@[simp] theorem retryBase_eq (c : Config) : c.retryBase = c.retryBaseSec := by
  have := c.one_le_retryBaseSec
  unfold retryBase
  split <;> omega

end Config

inductive Status where
  | queued
  | retrying
  | sent
  | failed
  | suppressed
  deriving DecidableEq

structure Delivery where
  destinationId : String
  status : Status
  attempts : Nat
  bypassEnabled : Bool
  bypassDestinationEnabled : Bool
  nextAttemptAt : ℚ
  error : Option String
  createdAt : ℚ
  updatedAt : ℚ
  sentAt : Option ℚ

def Delivery.pending (d : Delivery) : Bool := d.status = .queued || d.status = .retrying

structure Emit where
  eventType : String
  severity : Severity
  serviceName : Option String
  conditionKey : Option String
  recoveredEventType : Option String
  destinationIds : Option (List String)
  force : Bool
  includeDisabledDestinations : Bool

def startupSuppressedEventTypes : List String :=
  ["service.preinstall.failed", "service.start.failed", "service.unhealthy", "service.stopped.unexpectedly",
    "service.auto_restart.attempt", "service.auto_restart.succeeded", "service.auto_restart.failed",
    "service.auto_restart.suppressed", "resource.cpu.high", "resource.memory.high", "resource.disk.high",
    "resource.inode.high", "database.pressure", "database.collection.failed", "media.protection.outage",
    "media.protection.recovery_failed", "recovery"]

def destinationMatches (text : Text) (e : Emit) (d : Destination) : Bool :=
  (match e.destinationIds with
    | none => true
    | some ids => ids.contains d.id) &&
  (d.enabled || e.includeDisabledDestinations) && text.strip d.url ≠ "" &&
  (e.force ||
    (e.eventType = "recovery" || d.minimumSeverity.rank ≤ e.severity.rank) &&
    (d.eventTypes = [] || d.eventTypes.contains e.eventType ||
      e.eventType = "recovery" && e.recoveredEventType.any d.eventTypes.contains) &&
    (d.serviceNames = [] ||
      (d.serviceNames.map fun name => text.lower (text.strip name)).contains (text.lower (text.strip (e.serviceName.getD "")))) &&
    (e.eventType ≠ "recovery" || d.sendRecovery))

def cooldownKey (e : Emit) (d : Destination) : String :=
  "|".intercalate ["cooldown", d.id, e.eventType, e.serviceName.getD "", e.conditionKey.getD ""]

structure Draft where
  emit : Emit
  destination : Destination
  now : ℚ

/-- A call of a provider, and where it has failed, when and with which `retry_base_sec`. -/
structure Call where
  id : String
  startedAt : ℚ
  failure : Option (ℚ × Nat)
  deriving DecidableEq

/-- Where the thread is: in `_deliver_due` before and after its query, and in `_deliver` for the first row. -/
inductive Worker where
  | idle
  | due (now : ℚ) (enabled startupReady : Bool)
  | batch (rows : List (String × Delivery))
  | calling (id : String) (row : Delivery) (rows : List (String × Delivery))
  | deferring (id : String) (row : Delivery) (rows : List (String × Delivery))
  | finishing (called : Bool) (id : String) (row : Delivery) (error : Option String) (rows : List (String × Delivery))

structure World where
  config : Config
  startupComplete : Bool
  now : ℚ
  deliveries : Dict String Delivery
  lastSent : Dict String ℚ
  drafts : List Draft
  worker : Worker
  calls : List Call

namespace World

def emit (text : Text) (e : Emit) (w : World) : World :=
  if !e.force && !w.config.enabled then w
  else if !e.force && !w.startupComplete && startupSuppressedEventTypes.contains e.eventType then w
  else { w with drafts := w.drafts ++ (w.config.destinations.filter (destinationMatches text e)).map (⟨e, ·, w.now⟩) }

def isSuppressed (d : Draft) (w : World) : Bool :=
  !d.emit.force && d.destination.cooldownSec ≠ 0 &&
    match w.lastSent.get? (cooldownKey d.emit d.destination) with
    | none => false
    | some sentAt => sentAt ≠ 0 && d.now - sentAt < d.destination.cooldownSec

def inserted (d : Draft) (status : Status) : Delivery where
  destinationId := d.destination.id
  status := status
  attempts := 0
  bypassEnabled := status = .queued && d.emit.force
  bypassDestinationEnabled := status = .queued && d.emit.includeDisabledDestinations
  nextAttemptAt := d.now
  error := none
  createdAt := d.now
  updatedAt := d.now
  sentAt := none

def record (n : Nat) (id : String) (w : World) : World :=
  match w.drafts[n]? with
  | none => w
  | some d =>
    if w.isSuppressed d then
      { w with drafts := w.drafts.eraseIdx n, deliveries := w.deliveries.set id (inserted d .suppressed) }
    else
      { w with
        drafts := w.drafts.eraseIdx n
        deliveries := w.deliveries.set id (inserted d .queued)
        lastSent := w.lastSent.set (cooldownKey d.emit d.destination) d.now }

def clearHistory (w : World) : World := { w with deliveries := w.deliveries.filter fun e => e.2.pending }

def pruneHistory (w : World) : World :=
  let cutoff := w.now - (max 1 (if w.config.historyRetentionDays = 0 then 30 else w.config.historyRetentionDays)) * 86400
  { w with deliveries := w.deliveries.filter fun e => !(e.2.createdAt < cutoff && !e.2.pending) }

def tick (w : World) : World :=
  match w.worker with
  | .idle => { w with worker := .due w.now w.config.enabled w.startupComplete }
  | _ => w

def isDue (now : ℚ) (enabled startupReady : Bool) (d : Delivery) : Bool :=
  d.pending && d.nextAttemptAt ≤ now && (enabled || d.bypassEnabled) && (startupReady || d.bypassEnabled)

def dueRows (now : ℚ) (enabled startupReady : Bool) (w : World) : List (String × Delivery) :=
  ((w.deliveries.filter fun e => isDue now enabled startupReady e.2).insertionSort
    fun a b => a.2.createdAt ≤ b.2.createdAt).take 20

def query (w : World) : World :=
  match w.worker with
  | .due now enabled startupReady => { w with worker := .batch (w.dueRows now enabled startupReady) }
  | _ => w

def deliver (w : World) : World :=
  match w.worker with
  | .batch [] => { w with worker := .idle }
  | .batch ((id, row) :: rows) =>
    match w.config.destinations.find? fun d => d.id = row.destinationId with
    | none => { w with worker := .finishing false id row (some "Destination no longer exists.") rows }
    | some destination =>
      if !destination.enabled && !row.bypassDestinationEnabled then { w with worker := .deferring id row rows }
      else
        match destination.provider with
        | .other name =>
          { w with worker := .finishing false id row (some ("Unsupported notification provider: " ++ name)) rows }
        | _ => { w with worker := .calling id row rows, calls := ⟨id, w.now, none⟩ :: w.calls }
  | _ => w

def answer (error : Option String) (w : World) : World :=
  match w.worker with
  | .calling id row rows => { w with worker := .finishing true id row error rows }
  | _ => w

def update (id : String) (f : Delivery → Delivery) (w : World) : World :=
  match w.deliveries.get? id with
  | none => w
  | some d => { w with deliveries := w.deliveries.set id (f d) }

def deferDelivery (w : World) : World :=
  match w.worker with
  | .deferring id _ rows =>
    { w.update id fun d => { d with nextAttemptAt := w.now + max 1 30, updatedAt := w.now } with worker := .batch rows }
  | _ => w

def finished (c : Config) (now : ℚ) (attempts : Nat) (error : Option String) (d : Delivery) : Delivery :=
  match error with
  | none =>
    { d with status := .sent, attempts := attempts, nextAttemptAt := now, error := none, updatedAt := now, sentAt := some now }
  | some error =>
    if c.attemptLimit ≤ attempts then
      { d with status := .failed, attempts := attempts, nextAttemptAt := now, error := some error, updatedAt := now, sentAt := none }
    else
      { d with
        status := .retrying
        attempts := attempts
        nextAttemptAt := now + c.retryBase * 2 ^ (attempts - 1)
        error := some error
        updatedAt := now
        sentAt := none }

def failLast (now : ℚ) (retryBaseSec : Nat) : List Call → List Call
  | [] => []
  | c :: calls => { c with failure := some (now, retryBaseSec) } :: calls

def finishDelivery (w : World) : World :=
  match w.worker with
  | .finishing called id row error rows =>
    { w.update id (finished w.config w.now (row.attempts + 1) error) with
      worker := .batch rows
      calls := if called && error.isSome then failLast w.now w.config.retryBaseSec w.calls else w.calls }
  | _ => w

end World

inductive Step where
  | emit (e : Emit)
  | record (n : Nat) (id : String)
  | clearHistory
  | pruneHistory
  | configure (c : Config)
  | startup (complete : Bool)
  | wait (seconds : ℚ)
  | tick
  | query
  | deliver
  | answer (error : Option String)
  | deferDelivery
  | finishDelivery

def World.step (text : Text) (w : World) : Step → World
  | .emit e => w.emit text e
  | .record n id => w.record n id
  | .clearHistory => w.clearHistory
  | .pruneHistory => w.pruneHistory
  | .configure c => { w with config := c }
  | .startup complete => { w with startupComplete := complete }
  | .wait seconds => { w with now := w.now + seconds }
  | .tick => w.tick
  | .query => w.query
  | .deliver => w.deliver
  | .answer error => w.answer error
  | .deferDelivery => w.deferDelivery
  | .finishDelivery => w.finishDelivery

def World.start (c : Config) (startupComplete : Bool) (now : ℚ) : World where
  config := c
  startupComplete := startupComplete
  now := now
  deliveries := []
  lastSent := []
  drafts := []
  worker := .idle
  calls := []

end Dumb.Notifications
