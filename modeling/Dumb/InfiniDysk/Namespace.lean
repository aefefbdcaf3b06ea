import Dumb.InfiniDysk.Admission
import Dumb.InfiniDysk.Database
import Dumb.Lib.Script

/-!
# The namespace cutover

`apply_full_namespace` of `utils/infinidysk_migration.py`: its steps forward, and those of its `except`. What a step asks of
the services, the disk and the configuration is answered from outside, and may raise. The rounds of `_quiesce_for_cutover`
end when its deadline has passed.
-/

namespace Dumb.InfiniDysk

open Py Crash

structure Exn where
  message : String
  rollbackErrors : List String
  osError : Bool

def failure (message : String) : Exn := ⟨message, [], false⟩

structure Snapshot where
  processName : String
  serviceKey : String
  references : Nat
  externalApiOnly : Bool

structure Preflight where
  filesystem : List Action
  arr : List Snapshot
  prowlarr : List Snapshot
  media : List Snapshot

structure ScanGuard where
  serviceKey : String
  processName : String
  deriving DecidableEq

structure HealthCheckGuard where
  applicable : Bool
  originalValue : String
  environmentVariableName : String
  changed : Bool
  restored : Bool

inductive Api where
  | arr
  | prowlarr
  | media
  deriving DecidableEq

inductive Activity where
  | idle
  | busy
  | unknown

inductive Op where
  | admission
  | progress (status : Status) (stage : String)
  | savedPreflight
  | repeatPreflight
  | createNamespaceBackup
  | captureHealthCheckGuard
  | writePrivateJson (name : String)
  | setHealthChecks (value : String)
  | storedHealthChecks
  | processRunning (name : String)
  | stopProcesses (names : List String)
  | startProcesses (names : List String) (forceSetup : Bool) (continueOnError : Bool)
  | arrQueue (name : String)
  | playbackStopRequested
  | activity (name : String)
  | libraryPaths (name : String)
  | enterScanGuard (guard : ScanGuard)
  | restoreScanGuard (guard : ScanGuard)
  | activeReads
  | reportDue
  | deadlinePassed
  | moveNamespacePaths (actions : List Action)
  | rollbackNamespacePath (action : Action)
  | rewriteConfig
  | adoptInfinidyskIdentity
  | restoreLegacyIdentity
  | saveConfig
  | directoriesAmong (paths : List String)
  | repairSymlinks (roots : List String) (fromPrefix : String) (toPrefix : String)
  | chmodManifest
  | validateNamespacePaths (actions : List Action)
  | validateSymlinkTargets (roots : List String)
  | migrateDatabase
  | status (api : Api) (name : String)
  | applyReference (name : String)
  | applySnapshot (api : Api) (name : String) (restore : Bool)
  | validateSnapshot (api : Api) (name : String) (restore : Bool)
  | validateFilesystem (api : Api) (name : String)
  | validateConfiguration
  | restoreSymlinkManifest
  | restoreBackupFiles
  | saveCompletedState
  | saveFailureState
  deriving DecidableEq

def Op.Answer (κ : Type) : Op → Type
  | .savedPreflight => Option Preflight
  | .repeatPreflight => Preflight
  | .captureHealthCheckGuard => HealthCheckGuard
  | .storedHealthChecks => String
  | .processRunning _ | .playbackStopRequested | .reportDue | .deadlinePassed | .repairSymlinks .. => Bool
  | .stopProcesses _ | .startProcesses .. | .directoriesAmong _ | .restoreSymlinkManifest | .restoreBackupFiles => List String
  | .arrQueue _ => Option Snapshot
  | .activity _ => Activity
  | .activeReads => Nat
  | .moveNamespacePaths _ => List Action
  | .rewriteConfig => κ
  | _ => Unit

structure Reading (κ : Type) where
  /-- `str(_service_config(config).get("process_name") or "InfiniDysk")` -/
  serviceName : κ → String
  /-- `_affected_processes` -/
  affectedProcesses : κ → Preflight → Bool → List String
  /-- `_quiesce_producer_processes` -/
  quiesceProducerProcesses : κ → Preflight → List String
  /-- The process names of `_enabled_instances`. -/
  enabledInstances : κ → List String

/-- What `apply_full_namespace` has in hand when it comes to its `try`. -/
structure Captured (κ : Type) where
  backupConfig : κ
  legacyIdentity : Bool
  oldProcessNames : List String
  producerProcessNames : List String
  originalServiceName : String
  renameAttachedServices : Bool

/-- The configuration manager, what this run has written as the status of the migration, and the variables that the steps
and the `except` share. -/
structure Locals (κ : Type) where
  config : κ
  legacyIdentity : Bool
  state : Option Status
  preflight : Preflight
  running : List String
  moved : List Action
  scanGuards : List ScanGuard
  healthCheckGuard : HealthCheckGuard
  rollbackErrors : List String

structure Env (κ : Type) where
  outside : Outside (Op.Answer κ) Exn
  reading : Reading κ
  text : Text
  word : Char → Bool
  rounds : Nat

abbrev Saga (κ α : Type) : Type := Asking Exn Op (Locals κ) α

namespace Saga

open Prog

variable {κ : Type} (env : Env κ)

def call (o : Op) : Saga κ (o.Answer κ) := ask env.outside o

def progress (stage : String) : Saga κ Unit := call env (.progress .running stage)

def note (label : String) (e : Exn) : Saga κ Unit :=
  assign fun l => { l with rollbackErrors := l.rollbackErrors ++ [label ++ e.message] }

def attempt (label : String) (p : Saga κ Unit) : Saga κ Unit := tryExcept p (note label)

def addErrors (errors : List String) : Saga κ Unit := assign fun l => { l with rollbackErrors := l.rollbackErrors ++ errors }

def renamed (c : Captured κ) (name : String) : String :=
  if name = c.originalServiceName then "InfiniDysk"
  else if c.renameAttachedServices && c.oldProcessNames.contains name && containsLegacyName env.word name then
    replaceDisplayName env.word name
  else name

/-! ## Health checks -/

def pauseHealthChecks : Saga κ Unit := do
  let l ← locals
  let guard := l.healthCheckGuard
  if !guard.applicable then pure ()
  else if env.text.lower (env.text.strip guard.originalValue) ≠ "true" then
    assign fun l => { l with healthCheckGuard := { guard with changed := false, restored := true } }
  else if env.text.strip guard.environmentVariableName ≠ "" then throw (failure "InfiniDysk scheduled health checks cannot be paused")
  else do
    call env (.setHealthChecks "false")
    assign fun l => { l with healthCheckGuard := { guard with changed := true, restored := false } }

def healthChecksRestored : Saga κ Unit := assign fun l => { l with healthCheckGuard := { l.healthCheckGuard with restored := true } }

def restoreHealthChecks (config : κ) (verifyOffline : Bool) : Saga κ Unit := do
  let l ← locals
  let guard := l.healthCheckGuard
  if !guard.applicable || guard.restored then pure ()
  else if !guard.changed then healthChecksRestored
  else do
    let isRunning : Bool ← call env (.processRunning (env.reading.serviceName config))
    if isRunning then
      call env (.setHealthChecks guard.originalValue)
      healthChecksRestored
    else if !verifyOffline then throw (failure "InfiniDysk is not running")
    else do
      let observed : String ← call env .storedHealthChecks
      if env.text.lower observed ≠ env.text.lower guard.originalValue then
        throw (failure "The restored InfiniDysk database does not contain the original scheduled health-check setting.")
      else healthChecksRestored

/-! ## Quiescence -/

def stopProcesses (names : List String) : Saga κ Unit := do
  let stopped : List String ← call env (.stopProcesses names)
  assign fun l => { l with running := l.running ++ stopped }

def captured (name : String) (snapshots : List Snapshot) : Bool := snapshots.any (·.processName = name)

def quiesceArrs : List String → List Snapshot → Saga κ (List Snapshot)
  | [], snapshots => pure snapshots
  | name :: names, snapshots =>
    if captured name snapshots then quiesceArrs names snapshots
    else do
      match ← call env (.arrQueue name) with
      | none => quiesceArrs names snapshots
      | some snapshot =>
        stopProcesses env [name]
        quiesceArrs names (snapshots ++ [{ snapshot with processName := name }])

def captureMedia (target : Snapshot) : Saga κ Unit := do
  let guard : ScanGuard := ⟨target.serviceKey, target.processName⟩
  call env (.libraryPaths target.processName)
  call env (.enterScanGuard guard)
  assign fun l => { l with scanGuards := l.scanGuards ++ [guard] }
  if !target.externalApiOnly then stopProcesses env [target.processName] else pure ()

def quiesceMedia (stopActivePlayback : Bool) : List Snapshot → List Snapshot × Bool → Saga κ (List Snapshot × Bool)
  | [], done => pure done
  | target :: targets, (snapshots, pending) =>
    if captured target.processName snapshots then
      if !target.externalApiOnly then quiesceMedia stopActivePlayback targets (snapshots, pending)
      else do
        match ← call env (.activity target.processName) with
        | .unknown => throw (failure "activity could not be verified while quiescing")
        | .busy => quiesceMedia stopActivePlayback targets (snapshots, true)
        | .idle => quiesceMedia stopActivePlayback targets (snapshots, pending)
    else do
      match ← call env (.activity target.processName) with
      | .unknown => throw (failure "activity could not be verified while quiescing")
      | .busy =>
        if stopActivePlayback && !target.externalApiOnly then
          captureMedia env target
          quiesceMedia stopActivePlayback targets (snapshots ++ [target], pending)
        else quiesceMedia stopActivePlayback targets (snapshots, true)
      | .idle =>
        captureMedia env target
        quiesceMedia stopActivePlayback targets (snapshots ++ [target], pending)

/-- The `while True`; the captured snapshots come back. -/
def quiesceRounds (arrTargets : List String) (mediaTargets : List Snapshot) :
    Nat → List Snapshot → List Snapshot → Saga κ (List Snapshot × List Snapshot)
  | 0, _, _ => throw (failure "Automatic quiescence timed out")
  | rounds + 1, arrs, media => do
    let arrs ← quiesceArrs env arrTargets arrs
    let stopActivePlayback : Bool ← call env .playbackStopRequested
    if stopActivePlayback then progress env "quiescing"
    let (media, pending) ← quiesceMedia env stopActivePlayback mediaTargets (media, false)
    let activeReads : Nat ← call env .activeReads
    if arrs.length = arrTargets.length && media.length = mediaTargets.length && !pending && activeReads = 0 then
      pure (arrs, media)
    else do
      let reportDue : Bool ← call env .reportDue
      if reportDue then progress env "quiescing"
      let passed : Bool ← call env .deadlinePassed
      if passed then throw (failure "Automatic quiescence timed out")
      else quiesceRounds arrTargets mediaTargets rounds arrs media

def quiesceForCutover (c : Captured κ) : Saga κ Unit := do
  let l ← locals
  let producers := env.reading.quiesceProducerProcesses l.config l.preflight
  if producers ≠ [] then do
    progress env "quiescing"
    stopProcesses env producers
  let arrTargets := (env.reading.enabledInstances l.config).filter fun name => captured name l.preflight.arr
  let (arrs, media) ← quiesceRounds env arrTargets l.preflight.media env.rounds [] []
  progress env "quiescing"
  stopProcesses env c.oldProcessNames
  assign fun l => { l with
    running := c.oldProcessNames.filter l.running.contains
    preflight := { l.preflight with arr := arrs, media := media } }

end Saga

end Dumb.InfiniDysk
