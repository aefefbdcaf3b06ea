import Dumb.Notifications.Delivery

/-!
# Monitored conditions

`_condition` of `utils/notifications.py` for one key, and the `emit` that it calls, with a database that may be locked or
fail. Between two observations everything else may change: the configuration, the storage, and what was sent last.
-/

namespace Dumb.Notifications

open Py

/-! ## Storage -/

inductive Access where
  | works
  | locked
  | fails
  deriving DecidableEq

structure Storage where
  ready : Bool
  retryAt : ℚ

def storageRetryIntervalSeconds : ℚ := 30

/-- `_initialize_storage(attempts=1)`: nothing where an error is raised that is no lock. -/
def initializeStorage (access : Access) (monotonic : ℚ) (s : Storage) : Option Bool × Storage :=
  match access with
  | .works => (some true, ⟨true, 0⟩)
  | .locked => (some false, ⟨false, monotonic + storageRetryIntervalSeconds⟩)
  | .fails => (none, s)

def ensureStorageReady (access : Access) (monotonic : ℚ) (s : Storage) : Option Bool × Storage :=
  if s.ready then (some true, s)
  else if monotonic < s.retryAt then (some false, s)
  else initializeStorage access monotonic s

def handleRuntimeStorageError (access : Access) (monotonic : ℚ) (s : Storage) : Storage :=
  match access with
  | .locked => ⟨false, monotonic + storageRetryIntervalSeconds⟩
  | _ => s

/-! ## Emit -/

structure Writes where
  query : Access
  insert : Access
  lastSent : Access
  deriving DecidableEq

structure Outside where
  config : Config
  startupComplete : Bool
  now : ℚ
  monotonic : ℚ
  storage : Storage
  initialization : Access
  lastSent : Dict String ℚ
  writes : Destination → Writes

/-- The destinations for which a delivery was queued, and the error that `emit` has raised. -/
structure Emission where
  queued : List String
  raised : Option Access

def cooling (now : ℚ) (lastSent : Dict String ℚ) (e : Emit) (d : Destination) : Bool :=
  d.cooldownSec ≠ 0 &&
    match lastSent.get? (cooldownKey e d) with
    | none => false
    | some sentAt => sentAt ≠ 0 && now - sentAt < d.cooldownSec

def queueFor (o : Outside) (e : Emit) (lastSent : Dict String ℚ) : List Destination → Emission
  | [] => ⟨[], none⟩
  | d :: ds =>
    let w := o.writes d
    if d.cooldownSec ≠ 0 ∧ w.query ≠ .works then ⟨[], some w.query⟩
    else if w.insert ≠ .works then ⟨[], some w.insert⟩
    else if cooling o.now lastSent e d then queueFor o e lastSent ds
    else if w.lastSent ≠ .works then ⟨[d.id], some w.lastSent⟩
    else
      let rest := queueFor o e (lastSent.set (cooldownKey e d) o.now) ds
      ⟨d.id :: rest.queued, rest.raised⟩

def emission (text : Text) (o : Outside) (e : Emit) : Emission :=
  if !o.config.enabled then ⟨[], none⟩
  else if !o.startupComplete && startupSuppressedEventTypes.contains e.eventType then ⟨[], none⟩
  else
    match (ensureStorageReady o.initialization o.monotonic o.storage).1 with
    | none => ⟨[], some .fails⟩
    | some false => ⟨[], none⟩
    | some true => queueFor o e o.lastSent (o.config.destinations.filter (destinationMatches text e))

/-! ## Conditions -/

structure Watch where
  firstSeen : Option ℚ
  active : Bool

structure Observation where
  now : ℚ
  active : Bool
  duration : ℚ
  eventType : String
  severity : Severity
  serviceName : Option String
  outside : Outside
  pos : 0 < now

inductive Edge where
  | alert
  | recovery
  deriving DecidableEq

def Observation.emit (key : String) (o : Observation) : Edge → Emit
  | .alert => ⟨o.eventType, o.severity, o.serviceName, some key, none, none, false, false⟩
  | .recovery => ⟨"recovery", .success, o.serviceName, some key, some o.eventType, none, false, false⟩

def Observation.queues (text : Text) (key : String) (o : Observation) (e : Edge) : Bool :=
  !(emission text o.outside (o.emit key e)).queued.isEmpty

def baseline (o : Observation) : Watch := ⟨if o.active then some o.now else none, false⟩

def condition (o : Observation) (w : Watch) : Watch × Option Edge :=
  if o.active then
    let firstSeen := (w.firstSeen.filter (· ≠ 0)).getD o.now
    if !w.active && o.duration ≤ o.now - firstSeen then (⟨some firstSeen, true⟩, some .alert)
    else (⟨some firstSeen, w.active⟩, none)
  else (⟨none, false⟩, if w.active then some .recovery else none)

structure Run where
  watch : Watch
  queued : List Edge

def Run.observe (text : Text) (key : String) (r : Run) (o : Observation) : Run :=
  let (watch, edge) := condition o r.watch
  ⟨watch, r.queued ++ (edge.filter (o.queues text key)).toList⟩

def observe (text : Text) (key : String) (first : Observation) (os : List Observation) : Run :=
  os.foldl (Run.observe text key) ⟨baseline first, []⟩

end Dumb.Notifications
