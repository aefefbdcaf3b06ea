import Dumb.InfiniDysk.Lemmas.Admission
import Dumb.InfiniDysk.Lemmas.Rollback

/-!
# What the migration to InfiniDysk guarantees
-/

namespace Dumb.InfiniDysk

open Py Crash

/-! ## Admission -/

theorem admission_safe (workerId postgresWorkerId now : Nat) (steps : List Step)
    (hproper : Along World.step Proper (World.fresh workerId postgresWorkerId now) steps)
    (hguarded : Along World.step Guarded (World.fresh workerId postgresWorkerId now) steps) :
    Safe (steps.foldl World.step (World.fresh workerId postgresWorkerId now)) :=
  ((hproper.and hguarded).foldl (fun _ _ _ hs hw => Inv.step hw hs.1 hs.2) (inv_fresh workerId postgresWorkerId now)).safe

def cutShortAndRetried : List Step :=
  [.preflight, .reserve "update", .start "1" true .done, .release "update", .start "1" true .done, .move 0 .acquired,
    .move 0 (.progress .running "validating" .done), .wait 5, .restart 1 1, .reserve "update", .start "2" true .done, .wait 1,
    .preflight, .start "2" true .done, .move 0 .acquired, .move 0 (.complete .done), .reserve "update"]

theorem admission_safe_cutShort : Safe (cutShortAndRetried.foldl World.step (World.fresh 0 0 0)) :=
  admission_safe 0 0 0 cutShortAndRetried (by decide +kernel) (by decide +kernel)

def rolledBackMeanwhile : List Step :=
  [.postgres (.createJob "1" "Sonarr" "sonarr" .cutover true), .postgres (.move 0 (.write .done)),
    .postgres (.move 0 (.write .done)), .postgres (.move 0 (.verified .done)), .postgres (.move 0 (.complete .done)),
    .postgres (.move 0 (.write .done)), .postgres (.move 0 .finish), .preflight, .start "2" true .done, .move 0 .acquired,
    .postgres (.reserveRollback "1" true .done)]

/-- `rollback_job` asks for a namespace job only where the service is InfiniDysk. -/
theorem admission_overlaps :
    Along World.step Proper (World.fresh 0 0 0) rolledBackMeanwhile ∧
      ¬Safe (rolledBackMeanwhile.foldl World.step (World.fresh 0 0 0)) := by
  refine ⟨by decide +kernel, fun h => ?_⟩
  have hbusy : Busy (rolledBackMeanwhile.foldl World.step (World.fresh 0 0 0)) := by decide +kernel
  have hlive : Postgres.LiveAt (rolledBackMeanwhile.foldl World.step (World.fresh 0 0 0)).postgres "1" := by decide +kernel
  exact (h.clear hbusy).2 "1" hlive

/-! ## The way back from the namespace cutover -/

def calm : (o : Op) → o.Answer String
  | .savedPreflight => some ⟨[], [], [], []⟩
  | .repeatPreflight => ⟨[⟨"/nzbdav", "/nzbdav", "/infinidysk", .directory, .absent, false, none⟩], [], [], []⟩
  | .captureHealthCheckGuard => ⟨false, "", "", false, true⟩
  | .moveNamespacePaths actions => actions
  | .stopProcesses names => names
  | .startProcesses .. | .directoriesAmong _ | .restoreSymlinkManifest | .restoreBackupFiles => ([] : List String)
  | .rewriteConfig => "infinidysk"
  | .storedHealthChecks => "true"
  | .arrQueue _ => none
  | .activity _ => .idle
  | .activeReads => (0 : Nat)
  | .processRunning _ | .playbackStopRequested | .reportDue | .deadlinePassed | .repairSymlinks .. => false
  | .admission | .progress .. | .createNamespaceBackup | .writePrivateJson _ | .setHealthChecks _ | .libraryPaths _
  | .enterScanGuard _ | .restoreScanGuard _ | .rollbackNamespacePath _ | .adoptInfinidyskIdentity | .restoreLegacyIdentity
  | .saveConfig | .chmodManifest | .validateNamespacePaths _ | .validateSymlinkTargets _ | .migrateDatabase | .status ..
  | .applyReference _ | .applySnapshot .. | .validateSnapshot .. | .validateFilesystem .. | .validateConfiguration
  | .saveCompletedState | .saveFailureState => ()

/-- The calls `raising` raise, the others are answered. -/
def raisingAt (raising : List Op) : Env String where
  outside o _ := if o ∈ raising then .error ⟨"No space left on device", [], true⟩ else .ok (calm o)
  reading := ⟨fun _ => "NzbDAV", fun _ _ _ => ["NzbDAV"], fun _ _ => [], fun _ => []⟩
  text := .ascii
  word := fun c => c.isAlphanum || c = '_'
  rounds := 1

end Dumb.InfiniDysk
