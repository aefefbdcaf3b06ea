import Mathlib.Logic.Function.Basic
import Dumb.Media.Adapters

/-!
# Incidents of storage targets

From `utils/media_protection.py`. All that changes a media server holds one lock, and each such call is one step. When the
monitor finds a target ready depends on clocks and mounts, so that an incident may be recovered at any time at which
it may be. Process names are given as `_normalize_name` makes them.
-/

namespace Dumb.Media

open Py Crash

variable {σ π κ : Type}

structure MediaServer where
  key : String
  processName : String
  /-- The policy's `protected_mounts`, or `wait_for_mounts`. -/
  protectedMounts : List String
  policyEnabled : Bool
  stopWhenIdleOnOutage : Bool

structure Storage where
  processName : String
  mounts : List String

structure Setup where
  enabled : Bool
  media : List MediaServer
  storage : List Storage

def Disjoint (xs ys : List String) : Prop := ∀ x ∈ xs, x ∉ ys

instance (xs ys : List String) : Decidable (Disjoint xs ys) := inferInstanceAs (Decidable (∀ x ∈ xs, _))

def Setup.mountsForTarget (c : Setup) (target : String) : List String :=
  ((c.storage.find? fun t => t.processName = target).map (·.mounts)).getD []

def Setup.mountsOf (c : Setup) (processName : String) : List String :=
  ((c.media.find? fun m => m.processName = processName).map (·.protectedMounts)).getD []

inductive Kind where
  | planned
  | unexpected

inductive Status where
  | active
  | waitingForRecovery
  | recovering
  | recoveryFailed
  | recovered
  deriving DecidableEq

structure ServerState (π : Type) where
  key : String
  processName : String
  wasRunning : Bool
  stoppedByDumb : Bool
  guardSnapshot : Option π

structure Incident (π : Type) where
  kind : Kind
  targetProcess : String
  action : String
  status : Status
  awaitingOperationCompletion : Bool
  mediaServers : List (ServerState π)

structure World (σ π : Type) where
  incidents : Dict String (Incident π)
  running : List String
  remote : String → σ

inductive Activity where
  | idle
  | busy
  | unknown
  deriving DecidableEq

inductive Override where
  | safe
  | keepRunning
  | stopNow
  deriving DecidableEq

def affectedMediaServers (c : Setup) (w : World σ π) (target : String) : List MediaServer :=
  if !c.enabled || (c.storage.find? fun t => t.processName = target).isNone then []
  else
    c.media.filter fun m => m.policyEnabled && w.running.contains m.processName &&
      !(c.mountsForTarget target ≠ [] && m.protectedMounts ≠ [] && decide (Disjoint (c.mountsForTarget target) m.protectedMounts))

structure Outside where
  activity : String → Activity
  fates : String → List (Fate String Bool)
  starts : String → Bool

namespace World

variable (adapter : String → Adapter σ π κ)

def stopProcess (name : String) (w : World σ π) : World σ π := { w with running := w.running.filter (· ≠ name) }

def startProcess (name : String) (w : World σ π) : World σ π := { w with running := name :: w.running }

def protect (o : Outside) (stop : MediaServer → Bool) (m : MediaServer) (w : World σ π) : ServerState π × World σ π :=
  let snapshot := match (adapter m.key).enterScanGuard (w.remote m.processName) (o.fates m.processName) with
    | .done snapshot _ _ => some snapshot
    | _ => none
  let remote := ((adapter m.key).enterScanGuard (w.remote m.processName) (o.fates m.processName)).state
  let w := { w with remote := Function.update w.remote m.processName remote }
  (⟨m.key, m.processName, true, stop m, snapshot⟩, if stop m then w.stopProcess m.processName else w)

def protectAll (o : Outside) (stop : MediaServer → Bool) : List MediaServer → World σ π → List (ServerState π) × World σ π
  | [], w => ([], w)
  | m :: media, w =>
    let (state, w) := protect adapter o stop m w
    let (states, w) := protectAll o stop media w
    (state :: states, w)

/-- `begin_planned` without a namespace migration: whether it starts an incident. -/
def plannedStarts (c : Setup) (o : Outside) (override : Override) (target : String) (w : World σ π) : Bool :=
  let media := affectedMediaServers c w target
  media ≠ [] && !(override = .safe && media.any fun m => o.activity m.processName ≠ .idle)

def beginPlanned (c : Setup) (o : Outside) (token target action : String) (override : Override) (w : World σ π) :
    World σ π :=
  if plannedStarts c o override target w then
    let (states, w') := protectAll adapter o (fun _ => override ≠ .keepRunning) (affectedMediaServers c w target) w
    { w' with incidents := w'.incidents.set token ⟨.planned, target, action, .active, true, states⟩ }
  else w

def unplannedStarts (c : Setup) (target : String) (w : World σ π) : Bool :=
  !(Dict.values w.incidents).any (fun i => i.targetProcess = target && (i.status = .active || i.status = .waitingForRecovery)) &&
    affectedMediaServers c w target ≠ []

def beginUnplanned (c : Setup) (o : Outside) (token target : String) (w : World σ π) : World σ π :=
  if unplannedStarts c target w then
    let stop := fun m : MediaServer => m.stopWhenIdleOnOutage && o.activity m.processName = .idle
    let (states, w') := protectAll adapter o stop (affectedMediaServers c w target) w
    { w' with incidents := w'.incidents.set token ⟨.unexpected, target, "unexpected_outage", .active, false, states⟩ }
  else w

def completePlanned (token : String) (w : World σ π) : World σ π :=
  match w.incidents.get? token with
  | none => w
  | some i =>
    { w with incidents := w.incidents.set token { i with awaitingOperationCompletion := false, status := .waitingForRecovery } }

def recoverServer (o : Outside) (state : ServerState π) (w : World σ π) : Bool × World σ π :=
  let down := state.stoppedByDumb && state.wasRunning && !w.running.contains state.processName
  if down && !o.starts state.processName then (false, w)
  else
    let w := if down then w.startProcess state.processName else w
    match state.guardSnapshot with
    | none => (true, w)
    | some snapshot =>
      let result := (adapter state.key).restoreScanGuard snapshot (w.remote state.processName) (o.fates state.processName)
      (result matches .done .., { w with remote := Function.update w.remote state.processName result.state })

def recoverServers (o : Outside) : List (ServerState π) → World σ π → Bool × World σ π
  | [], w => (true, w)
  | state :: states, w =>
    let (fine, w) := recoverServer adapter o state w
    let (rest, w) := recoverServers o states w
    (fine && rest, w)

def recover (o : Outside) (token : String) (w : World σ π) : World σ π :=
  match w.incidents.get? token with
  | none => w
  | some i =>
    let (fine, w) := recoverServers adapter o i.mediaServers w
    { w with incidents := w.incidents.set token { i with status := if fine then .recovered else .recoveryFailed } }

def ripe (i : Incident π) : Bool :=
  (i.status = .active || i.status = .waitingForRecovery || i.status = .recoveryFailed) && !i.awaitingOperationCompletion

def stopIdle (c : Setup) (o : Outside) (token name : String) (w : World σ π) : World σ π :=
  match w.incidents.get? token with
  | none => w
  | some i =>
    let policy := (c.media.find? fun m => m.processName = name).any (·.stopWhenIdleOnOutage)
    if (i.mediaServers.find? fun s => s.processName = name).any (fun s => !s.stoppedByDumb) &&
        w.running.contains name && policy && o.activity name = .idle then
      let states := i.mediaServers.map fun s => if s.processName = name then { s with stoppedByDumb := true } else s
      { w.stopProcess name with incidents := w.incidents.set token { i with mediaServers := states } }
    else w

def reload (i : Incident π) : Incident π :=
  let i := if i.status = .recovering || i.status = .recoveryFailed then { i with status := .waitingForRecovery } else i
  if i.awaitingOperationCompletion then { i with awaitingOperationCompletion := false, status := .waitingForRecovery } else i

end World

inductive Step where
  | beginPlanned (o : Outside) (token target action : String) (override : Override)
  | beginUnplanned (o : Outside) (token target : String)
  | completePlanned (token : String)
  | recover (o : Outside) (token : String)
  | stopIdle (o : Outside) (token name : String)
  | restart (running : List String)
  | starts (name : String)
  | stops (name : String)

def World.step (adapter : String → Adapter σ π κ) (c : Setup) (w : World σ π) : Step → World σ π
  | .beginPlanned o token target action override => w.beginPlanned adapter c o token target action override
  | .beginUnplanned o token target => w.beginUnplanned adapter c o token target
  | .completePlanned token => w.completePlanned token
  | .recover o token => if (w.incidents.get? token).any World.ripe then w.recover adapter o token else w
  | .stopIdle o token name => w.stopIdle c o token name
  | .restart running => { w with running := running, incidents := w.incidents.map fun e => (e.1, World.reload e.2) }
  | .starts name => w.startProcess name
  | .stops name => w.stopProcess name

end Dumb.Media
