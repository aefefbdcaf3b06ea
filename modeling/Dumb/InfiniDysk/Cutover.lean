import Mathlib.Data.List.Infix
import Dumb.InfiniDysk.Namespace

/-!
# The steps of the namespace cutover
-/

namespace Dumb.InfiniDysk

open Py Crash

namespace Saga

open Prog

variable {κ : Type} (env : Env κ)

/-! ## Forward -/

def prepare (renameAttachedServices : Bool) : Saga κ (Option (Captured κ)) := do
  call env .admission
  progress env "validating"
  let saved : Option Preflight ← call env .savedPreflight
  match saved with
  | none => pure none
  | some _ => do
    progress env "preflight"
    let preflight ← call env .repeatPreflight
    assign fun l => { l with preflight := preflight }
    progress env "backup"
    call env .createNamespaceBackup
    let l ← locals
    pure (some {
      backupConfig := l.config
      legacyIdentity := l.legacyIdentity
      oldProcessNames := env.reading.affectedProcesses l.config preflight renameAttachedServices
      producerProcessNames := env.reading.quiesceProducerProcesses l.config preflight
      originalServiceName := env.reading.serviceName l.config
      renameAttachedServices := renameAttachedServices })

def isSymlinkRoot (text : Text) (action : Action) : Bool :=
  let name := (text.lower (pathName action.destination)).toList
  decide ("symlink".toList <:+: name) && decide ("infinidysk".toList <:+: name)

def symlinkRoots (moved : List Action) : Saga κ (List String) :=
  call env (.directoriesAmong ((moved.filter (isSymlinkRoot env.text)).map (·.destination)))

def holdHealthChecks : Saga κ Unit := do
  progress env "quiescing_health_checks"
  let guard ← call env .captureHealthCheckGuard
  assign fun l => { l with healthCheckGuard := guard }
  call env (.writePrivateJson "infinidysk-health-check-guard.json")
  pauseHealthChecks env
  call env (.writePrivateJson "infinidysk-health-check-guard.json")

def moveFiles : Saga κ Unit := do
  call env (.writePrivateJson "scan-guards.json")
  call env (.writePrivateJson "preflight.json")
  progress env "filesystem"
  let l ← locals
  let moved ← call env (.moveNamespacePaths l.preflight.filesystem)
  assign fun l => { l with moved := moved }

def saveCanonicalConfig : Saga κ Unit := do
  progress env "configuration"
  let rewritten ← call env .rewriteConfig
  assign fun l => { l with config := rewritten }
  call env .adoptInfinidyskIdentity
  assign fun l => { l with legacyIdentity := false }
  call env .saveConfig

def rewriteSymlinks : Saga κ Unit := do
  progress env "symlinks"
  let l ← locals
  let roots ← symlinkRoots env l.moved
  if roots ≠ [] then do
    let errors : Bool ← call env (.repairSymlinks roots "/mnt/debrid/nzbdav" "/mnt/debrid/infinidysk")
    if errors then
      throw (failure "Symlink target rewriting reported errors")
    else call env .chmodManifest
  call env (.validateNamespacePaths l.moved)
  call env (.validateSymlinkTargets roots)

def startServices (c : Captured κ) : Saga κ Unit := do
  progress env "database"
  call env .migrateDatabase
  progress env "starting"
  let l ← locals
  let names := l.running.filter fun name => !c.producerProcessNames.contains name
  let _ ← call env (.startProcesses (names.map (renamed env c)) true false)

def updateArr (original : Snapshot) : Saga κ Unit := do
  progress env "arr"
  call env (.status .arr original.processName)
  forEach (fun _ => do
    call env (.applyReference original.processName)
    progress env "arr") (List.range original.references)
  call env (.applySnapshot .arr original.processName false)
  progress env "arr"
  call env (.validateSnapshot .arr original.processName false)
  call env (.validateFilesystem .arr original.processName)

def heldProducers (c : Captured κ) (l : Locals κ) (prowlarr : Bool) : List String :=
  ((l.running.filter c.producerProcessNames.contains).map (renamed env c)).filter fun name =>
    (l.preflight.prowlarr.map fun item => renamed env c item.processName).contains name = prowlarr

def updateProwlarr (original : Snapshot) : Saga κ Unit := do
  progress env "prowlarr"
  call env (.status .prowlarr original.processName)
  call env (.applySnapshot .prowlarr original.processName false)
  call env (.validateSnapshot .prowlarr original.processName false)

def updateMedia (original : Snapshot) : Saga κ Unit := do
  progress env "media"
  call env (.status .media original.processName)
  call env (.applySnapshot .media original.processName false)
  call env (.validateSnapshot .media original.processName false)
  call env (.validateFilesystem .media original.processName)

def updateServices (c : Captured κ) : Saga κ Unit := do
  let l ← locals
  forEach (updateArr env) l.preflight.arr
  let held := heldProducers env c l true
  if held ≠ [] then do
    progress env "starting_prowlarr"
    let _ ← call env (.startProcesses held false false)
  forEach (updateProwlarr env) l.preflight.prowlarr
  forEach (updateMedia env) l.preflight.media

def releaseGuards : Saga κ Unit := do
  progress env "scan_guards"
  let l ← locals
  forEach (fun guard => call env (.restoreScanGuard { guard with processName := replaceDisplayName env.word guard.processName }))
    l.scanGuards
  progress env "health_checks"
  restoreHealthChecks env l.config false
  call env (.writePrivateJson "infinidysk-health-check-guard.json")

def complete (c : Captured κ) : Saga κ Unit := do
  let l ← locals
  let held := heldProducers env c l false
  if held ≠ [] then do
    progress env "starting_producers"
    let _ ← call env (.startProcesses held true false)
  progress env "validation"
  call env .validateConfiguration
  call env .saveCompletedState
  assign fun l => { l with state := some .completed }

def cutover (c : Captured κ) : Saga κ Unit := do
  holdHealthChecks env
  quiesceForCutover env c
  moveFiles env
  saveCanonicalConfig env
  rewriteSymlinks env
  startServices env c
  updateServices env c
  releaseGuards env
  complete env c

/-! ## Back -/

def rollbackProgress (stage : String) : Saga κ Unit := call env (.progress .rollingBack stage)

def resumeHealthChecks (label : String) (p : Saga κ Unit) : Saga κ Unit := do
  let l ← locals
  if l.healthCheckGuard.changed && !l.healthCheckGuard.restored then
    attempt label p

def resumeBeforeRollback : Saga κ Unit :=
  resumeHealthChecks "InfiniDysk health-check setting before rollback: " do
    let l ← locals
    let isRunning : Bool ← call env (.processRunning (env.reading.serviceName l.config))
    if isRunning then
      restoreHealthChecks env l.config false
      call env (.writePrivateJson "infinidysk-health-check-guard.json")

def stopMigrated (c : Captured κ) : Saga κ Unit :=
  attempt "stop: " do
    let l ← locals
    let newNames := l.running.map (renamed env c)
    let provider := env.reading.serviceName l.config
    let isRunning : Bool ← call env (.processRunning provider)
    if isRunning && !newNames.contains provider then
      if !l.running.contains c.originalServiceName then
        assign fun l => { l with running := l.running ++ [c.originalServiceName] }
      let _ ← call env (.stopProcesses (newNames ++ [provider]))
    else
      let _ ← call env (.stopProcesses newNames)

def restoreSymlinkTargets : Saga κ Unit :=
  attempt "symlink targets: " do
    let l ← locals
    let roots ← symlinkRoots env l.moved
    if roots ≠ [] then do
      let errors : Bool ← call env (.repairSymlinks roots "/mnt/debrid/infinidysk" "/mnt/debrid/nzbdav")
      if errors then
        addErrors ["symlink target rollback reported errors"]

def rollbackNamespacePaths : Saga κ Unit := do
  let l ← locals
  forEach (fun action => attempt (action.destination ++ " -> " ++ action.source ++ ": ") (call env (.rollbackNamespacePath action)))
    l.moved.reverse

def restoreConfig (c : Captured κ) : Saga κ Unit :=
  attempt "config: " do
    assign fun l => { l with config := c.backupConfig }
    if c.legacyIdentity then do
      call env .restoreLegacyIdentity
      assign fun l => { l with legacyIdentity := true }
    call env .saveConfig

def restartServices (c : Captured κ) : Saga κ Unit := do
  attempt "start recovery: " do
    let l ← locals
    let errors : List String ← call env (.startProcesses l.running false true)
    addErrors (errors.map ("start: " ++ ·))
  resumeHealthChecks "InfiniDysk health-check setting: " do
    restoreHealthChecks env c.backupConfig true
    call env (.writePrivateJson "infinidysk-health-check-guard.json")

def restoreReferences (api : Api) (label : String) (originals : List Snapshot) : Saga κ Unit :=
  forEach (fun original => attempt (original.processName ++ label) do
    call env (.status api original.processName)
    call env (.applySnapshot api original.processName true)
    call env (.validateSnapshot api original.processName true)) originals

def restoreArr : Saga κ Unit := do restoreReferences env .arr " Arr paths: " (← locals).preflight.arr

def restoreProwlarr : Saga κ Unit := do restoreReferences env .prowlarr " Prowlarr applications: " (← locals).preflight.prowlarr

def restoreMedia : Saga κ Unit := do restoreReferences env .media " libraries: " (← locals).preflight.media

def restoreScanGuards : Saga κ Unit := do
  let l ← locals
  forEach (fun guard => attempt (guard.processName ++ " scan guard: ") (call env (.restoreScanGuard guard))) l.scanGuards

def saveFailureState : Saga κ Unit :=
  tryExcept (do
    call env .saveFailureState
    assign fun l => { l with
      state := some (if l.rollbackErrors.isEmpty then .failedRolledBack else .rollbackAttentionRequired) })
    fun e => if e.osError then pure () else throw e

def recover (c : Captured κ) (error : Exn) : Saga κ Unit := do
  assign fun l => { l with running := c.oldProcessNames.filter l.running.contains }
  rollbackProgress env "rollback"
  assign fun l => { l with rollbackErrors := error.rollbackErrors }
  resumeBeforeRollback env
  rollbackProgress env "rollback_stop"
  stopMigrated env c
  rollbackProgress env "rollback_symlinks"
  restoreSymlinkTargets env
  rollbackProgress env "rollback_paths"
  rollbackNamespacePaths env
  rollbackProgress env "rollback_symlink_manifest"
  addErrors (← call env .restoreSymlinkManifest)
  rollbackProgress env "rollback_files"
  addErrors (← call env .restoreBackupFiles)
  rollbackProgress env "rollback_config"
  restoreConfig env c
  rollbackProgress env "rollback_services"
  restartServices env c
  rollbackProgress env "rollback_arr"
  restoreArr env
  rollbackProgress env "rollback_prowlarr"
  restoreProwlarr env
  rollbackProgress env "rollback_media"
  restoreMedia env
  rollbackProgress env "rollback_scan_guards"
  restoreScanGuards env
  saveFailureState env
  throw (failure "The full namespace migration failed.")

def applyFullNamespace (renameAttachedServices : Bool) : Saga κ Unit := do
  match ← prepare env renameAttachedServices with
  | none => pure ()
  | some c => tryExcept (cutover env c) (recover env c)

end Saga

def Locals.start {κ : Type} (config : κ) (legacyIdentity : Bool) : Asked Op (Locals κ) where
  calls := []
  locals := {
    config := config
    legacyIdentity := legacyIdentity
    state := none
    preflight := ⟨[], [], [], []⟩
    running := []
    moved := []
    scanGuards := []
    healthCheckGuard := ⟨false, "", "", false, false⟩
    rollbackErrors := [] }

end Dumb.InfiniDysk

/-! ## The namespace cutover, forward -/

namespace Dumb.InfiniDysk

open Py Crash

namespace Saga

open Prog

variable {κ : Type} {env : Env κ} {c : Captured κ}

/-- What the `except` calls outside a `try` of its own. -/
def rollbackCalls : List Op :=
  [.progress .rollingBack "rollback", .progress .rollingBack "rollback_stop", .progress .rollingBack "rollback_symlinks",
    .progress .rollingBack "rollback_paths", .progress .rollingBack "rollback_symlink_manifest", .restoreSymlinkManifest,
    .progress .rollingBack "rollback_files", .restoreBackupFiles, .progress .rollingBack "rollback_config",
    .progress .rollingBack "rollback_services", .progress .rollingBack "rollback_arr", .progress .rollingBack "rollback_prowlarr",
    .progress .rollingBack "rollback_media", .progress .rollingBack "rollback_scan_guards"]

/-- The `except` makes the call outside a `try` of its own, or to write the failure. -/
def unguarded : Op → Bool
  | .progress .rollingBack _ | .restoreSymlinkManifest | .restoreBackupFiles | .saveFailureState => true
  | _ => false

structure Forth (s s' : Asked Op (Locals κ)) : Prop where
  calls : Adds (fun o => unguarded o = false) s s'
  state : s'.locals.state = s.locals.state ∨ s'.locals.state = some .completed

theorem forth : Frame (@Forth κ) where
  refl _ := ⟨.of_eq rfl, .inl rfl⟩
  trans h h' := by
    refine ⟨h.calls.trans h'.calls, ?_⟩
    rcases h'.state with heq | heq
    · rw [heq]
      exact h.state
    · exact .inr heq

theorem forth_call {o : Op} (h : unguarded o = false) : Within Forth (call env o) :=
  within_ask fun s => ⟨adds_ask (P := fun o => unguarded o = false) h s, .inl rfl⟩

theorem forth_assign {f : Locals κ → Locals κ} (h : ∀ l, (f l).state = l.state) :
    Within Forth (assign f : Saga κ Unit) :=
  within_assign fun s => ⟨.of_eq rfl, .inl (h s.locals)⟩

theorem forth_progress (stage : String) : Within Forth (progress env stage) := forth_call rfl

theorem forth_ite {α : Type} {P : Prop} [Decidable P] {p q : Saga κ α} (hp : Within Forth p) (hq : Within Forth q) :
    Within Forth (if P then p else q) := by
  split
  · exact hp
  · exact hq

theorem forth_pauseHealthChecks : Within Forth (pauseHealthChecks env) :=
  forth.bind forth.locals fun _ =>
  forth_ite (forth.pure _) <|
  forth_ite (forth_assign fun _ => rfl) <|
  forth_ite (forth.throw _) <|
  forth.bind (forth_call rfl) fun _ =>
  forth_assign fun _ => rfl

theorem forth_restoreHealthChecks (config : κ) (verifyOffline : Bool) : Within Forth (restoreHealthChecks env config verifyOffline) :=
  forth.bind forth.locals fun _ =>
  forth_ite (forth.pure _) <|
  forth_ite (forth_assign fun _ => rfl) <|
  forth.bind (forth_call rfl) fun _ =>
  forth_ite (forth.bind (forth_call rfl) fun _ => forth_assign fun _ => rfl) <|
  forth_ite (forth.throw _) <|
  forth.bind (forth_call rfl) fun _ =>
  forth_ite (forth.throw _) (forth_assign fun _ => rfl)

theorem forth_holdHealthChecks : Within Forth (holdHealthChecks env) :=
  forth.bind (forth_progress _) fun _ =>
  forth.bind (forth_call rfl) fun _ =>
  forth.bind (forth_assign fun _ => rfl) fun _ =>
  forth.bind (forth_call rfl) fun _ =>
  forth.bind forth_pauseHealthChecks fun _ =>
  forth_call rfl

theorem forth_stopProcesses (names : List String) : Within Forth (stopProcesses env names) :=
  forth.bind (forth_call rfl) fun _ =>
  forth_assign fun _ => rfl

theorem forth_quiesceArrs : ∀ (names : List String) (snapshots : List Snapshot), Within Forth (quiesceArrs env names snapshots)
  | [], _ => forth.pure _
  | name :: names, snapshots => by
    rw [quiesceArrs]
    apply forth_ite (forth_quiesceArrs names snapshots)
    apply forth.bind (forth_call rfl)
    rintro (_ | snapshot)
    · exact forth_quiesceArrs names snapshots
    · exact forth.bind (forth_stopProcesses _) fun _ => forth_quiesceArrs names _

theorem forth_captureMedia (target : Snapshot) : Within Forth (captureMedia env target) :=
  forth.bind (forth_call rfl) fun _ =>
  forth.bind (forth_call rfl) fun _ =>
  forth.bind (forth_assign fun _ => rfl) fun _ =>
  forth_ite (forth_stopProcesses _) (forth.pure _)

theorem forth_quiesceMedia (stop : Bool) : ∀ (targets : List Snapshot) (done : List Snapshot × Bool),
    Within Forth (quiesceMedia env stop targets done)
  | [], _ => forth.pure _
  | target :: targets, (snapshots, pending) => by
    rw [quiesceMedia]
    apply forth_ite
    · apply forth_ite (forth_quiesceMedia stop targets _)
      apply forth.bind (forth_call rfl)
      rintro (_ | _ | _)
      · exact forth_quiesceMedia stop targets _
      · exact forth_quiesceMedia stop targets _
      · exact forth.throw _
    · apply forth.bind (forth_call rfl)
      rintro (_ | _ | _)
      · exact forth.bind (forth_captureMedia _) fun _ => forth_quiesceMedia stop targets _
      · apply forth_ite
        · exact forth.bind (forth_captureMedia _) fun _ => forth_quiesceMedia stop targets _
        · exact forth_quiesceMedia stop targets _
      · exact forth.throw _

theorem forth_when {β : Type} {P : Prop} [Decidable P] {p : Saga κ Unit} {f : Unit → Saga κ β} (hp : Within Forth p)
    (hf : Within Forth (f ())) : Within Forth (if P then p >>= f else f ()) :=
  forth_ite (forth.bind hp fun _ => hf) hf

theorem forth_quiesceRounds (arrTargets : List String) (mediaTargets : List Snapshot) :
    ∀ (rounds : Nat) (arrs media : List Snapshot), Within Forth (quiesceRounds env arrTargets mediaTargets rounds arrs media)
  | 0, _, _ => forth.throw _
  | rounds + 1, arrs, media => by
    rw [quiesceRounds]
    apply forth.bind (forth_quiesceArrs _ _)
    intro arrs
    apply forth.bind (forth_call rfl)
    intro (stop : Bool)
    apply forth_when (forth_progress _)
    apply forth.bind (forth_quiesceMedia _ _ _)
    rintro ⟨media, pending⟩
    apply forth.bind (forth_call rfl)
    intro (activeReads : Nat)
    apply forth_ite (forth.pure _)
    apply forth.bind (forth_call rfl)
    intro (reportDue : Bool)
    apply forth_when (forth_progress _)
    apply forth.bind (forth_call rfl)
    intro (passed : Bool)
    exact forth_ite (forth.throw _) (forth_quiesceRounds _ _ rounds _ _)

theorem forth_quiesceThenStop (l : Locals κ) (arrTargets : List String) : Within Forth (do
    let (arrs, media) ← quiesceRounds env arrTargets l.preflight.media env.rounds [] []
    progress env "quiescing"
    stopProcesses env c.oldProcessNames
    assign fun l => { l with
      running := c.oldProcessNames.filter l.running.contains
      preflight := { l.preflight with arr := arrs, media := media } }) := by
  apply forth.bind (forth_quiesceRounds _ _ _ _ _)
  rintro ⟨arrs, media⟩
  exact forth.bind (forth_progress _) fun _ => forth.bind (forth_stopProcesses _) fun _ => forth_assign fun _ => rfl

theorem forth_quiesceForCutover : Within Forth (quiesceForCutover env c) := by
  apply forth.bind forth.locals
  intro l
  apply forth_ite
  · exact forth.bind (forth_progress _) fun _ => forth.bind (forth_stopProcesses _) fun _ => forth_quiesceThenStop _ _
  · exact forth_quiesceThenStop _ _

theorem forth_moveFiles : Within Forth (moveFiles env) :=
  forth.bind (forth_call rfl) fun _ =>
  forth.bind (forth_call rfl) fun _ =>
  forth.bind (forth_progress _) fun _ =>
  forth.bind forth.locals fun _ =>
  forth.bind (forth_call rfl) fun _ =>
  forth_assign fun _ => rfl

theorem forth_saveCanonicalConfig : Within Forth (saveCanonicalConfig env) :=
  forth.bind (forth_progress _) fun _ =>
  forth.bind (forth_call rfl) fun _ =>
  forth.bind (forth_assign fun _ => rfl) fun _ =>
  forth.bind (forth_call rfl) fun _ =>
  forth.bind (forth_assign fun _ => rfl) fun _ =>
  forth_call rfl

variable (original : Snapshot)

theorem forth_updateArr : Within Forth (updateArr env original) :=
  forth.bind (forth_progress _) fun _ =>
  forth.bind (forth_call rfl) fun _ =>
  forth.bind (forth.forEach fun _ _ => forth.bind (forth_call rfl) fun _ => forth_progress _) fun _ =>
  forth.bind (forth_call rfl) fun _ =>
  forth.bind (forth_progress _) fun _ =>
  forth.bind (forth_call rfl) fun _ =>
  forth_call rfl

theorem forth_rewriteSymlinks : Within Forth (rewriteSymlinks env) := by
  apply forth.bind (forth_progress _)
  intro _
  apply forth.bind forth.locals
  intro l
  apply forth.bind (forth_call rfl)
  intro (roots : List String)
  have hvalidated : Within Forth (do
      call env (.validateNamespacePaths l.moved)
      call env (.validateSymlinkTargets roots)) :=
    forth.bind (forth_call rfl) fun _ => forth_call rfl
  apply forth_ite
  · apply forth.bind (forth_call rfl)
    intro (errors : Bool)
    exact forth_ite (forth.throw _) (forth.bind (forth_call rfl) fun _ => hvalidated)
  · exact hvalidated

theorem forth_startServices : Within Forth (startServices env c) :=
  forth.bind (forth_progress _) fun _ =>
  forth.bind (forth_call rfl) fun _ =>
  forth.bind (forth_progress _) fun _ =>
  forth.bind forth.locals fun _ =>
  forth.bind (forth_call rfl) fun _ =>
  forth.pure _

theorem forth_updateProwlarr : Within Forth (updateProwlarr env original) :=
  forth.bind (forth_progress _) fun _ =>
  forth.bind (forth_call rfl) fun _ =>
  forth.bind (forth_call rfl) fun _ =>
  forth_call rfl

theorem forth_updateMedia : Within Forth (updateMedia env original) :=
  forth.bind (forth_progress _) fun _ =>
  forth.bind (forth_call rfl) fun _ =>
  forth.bind (forth_call rfl) fun _ =>
  forth.bind (forth_call rfl) fun _ =>
  forth_call rfl

theorem forth_updateServices : Within Forth (updateServices env c) := by
  apply forth.bind forth.locals
  intro l
  apply forth.bind (forth.forEach fun _ _ => forth_updateArr _)
  intro _
  have hrest : Within Forth (do
      forEach (updateProwlarr env) l.preflight.prowlarr
      forEach (updateMedia env) l.preflight.media) :=
    forth.bind (forth.forEach fun _ _ => forth_updateProwlarr _) fun _ => forth.forEach fun _ _ => forth_updateMedia _
  apply forth_ite
  · exact forth.bind (forth_progress _) fun _ => forth.bind (forth_call rfl) fun _ => hrest
  · exact hrest

theorem forth_releaseGuards : Within Forth (releaseGuards env) :=
  forth.bind (forth_progress _) fun _ =>
  forth.bind forth.locals fun _ =>
  forth.bind (forth.forEach fun _ _ => forth_call rfl) fun _ =>
  forth.bind (forth_progress _) fun _ =>
  forth.bind (forth_restoreHealthChecks _ _) fun _ =>
  forth_call rfl

theorem forth_complete : Within Forth (complete env c) := by
  apply forth.bind forth.locals
  intro l
  have hrest : Within Forth (do
      progress env "validation"
      call env .validateConfiguration
      call env .saveCompletedState
      assign fun l => { l with state := some .completed }) :=
    forth.bind (forth_progress _) fun _ =>
    forth.bind (forth_call rfl) fun _ =>
    forth.bind (forth_call rfl) fun _ =>
    within_assign fun s => ⟨.of_eq rfl, .inr rfl⟩
  apply forth_ite
  · exact forth.bind (forth_progress _) fun _ => forth.bind (forth_call rfl) fun _ => hrest
  · exact hrest

theorem forth_cutover : Within Forth (cutover env c) :=
  forth.bind forth_holdHealthChecks fun _ =>
  forth.bind forth_quiesceForCutover fun _ =>
  forth.bind forth_moveFiles fun _ =>
  forth.bind forth_saveCanonicalConfig fun _ =>
  forth.bind forth_rewriteSymlinks fun _ =>
  forth.bind forth_startServices fun _ =>
  forth.bind forth_updateServices fun _ =>
  forth.bind forth_releaseGuards fun _ =>
  forth_complete

theorem forth_prepare (rename : Bool) : Within Forth (prepare env rename) := by
  apply forth.bind (forth_call rfl)
  intro _
  apply forth.bind (forth_progress _)
  intro _
  apply forth.bind (forth_call rfl)
  rintro (_ | saved)
  · exact forth.pure _
  · exact forth.bind (forth_progress _) fun _ =>
      forth.bind (forth_call rfl) fun _ =>
      forth.bind (forth_assign fun _ => rfl) fun _ =>
      forth.bind (forth_progress _) fun _ =>
      forth.bind (forth_call rfl) fun _ =>
      forth.bind forth.locals fun _ =>
      forth.pure _

end Saga

end Dumb.InfiniDysk
