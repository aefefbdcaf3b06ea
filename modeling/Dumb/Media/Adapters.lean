import Mathlib.Data.List.Infix
import Dumb.Lib.Crash
import Dumb.Lib.Text

/-!
# Scan guards of media servers

From `utils/media_protection.py`. A request may raise, before or after it took effect. A task or a library without an
id is passed over everywhere, so that they are given by their ids.
-/

namespace Dumb.Media

open Py Crash

abbrev Remote (σ α : Type) : Type := Prog String Bool σ α

variable {σ α : Type}

def request (eff : σ → Except String (α × σ)) : Remote σ α :=
  Prog.call eff fun took s =>
    match took, eff s with
    | true, .ok (_, s') => s'
    | _, _ => s

def tolerated (p : Remote σ Unit) : Remote σ Unit := Prog.tryExcept p fun _ => pure ()

def isBool (b : Bool) : Json → Bool
  | .bool c => b == c
  | _ => false

@[simp] theorem isBool_iff {b : Bool} {value : Json} : isBool b value = true ↔ value = .bool b := by
  cases value with
  | bool c =>
    simp only [isBool, beq_iff_eq, Json.bool.injEq]
    exact eq_comm
  | _ => simp [isBool]

structure Adapter (σ π κ : Type) where
  cell : σ → κ → Option Json
  enterScanGuard : Remote σ π
  restoreScanGuard : π → Remote σ Unit

/-! ## Jellyfin and Emby -/

structure Task where
  key : String
  name : String
  description : String
  category : String
  state : String
  triggers : List Json

structure Browser where
  tasks : Dict String Task
  folders : Dict String (Dict String Json)
  tasks_distinct : (Dict.keys tasks).Nodup
  folders_distinct : (Dict.keys folders).Nodup

namespace Browser

def realtimeMonitor : String := "EnableRealtimeMonitor"

def isScanTask (text : Text) (task : Task) : Prop :=
  let label := text.lower (join ' ' [task.key, task.name, task.description, task.category])
  "scan media library".toList <:+: label.toList ∨ "refreshlibrary".toList <:+: label.toList

instance (text : Text) (task : Task) : Decidable (isScanTask text task) := inferInstanceAs (Decidable (_ ∨ _))

def isActive (text : Text) (task : Task) : Prop := text.lower task.state = "running" ∨ text.lower task.state = "cancelling"

instance (text : Text) (task : Task) : Decidable (isActive text task) := inferInstanceAs (Decidable (_ ∨ _))

def withTask (id : String) (task : Task) (b : Browser) : Browser :=
  { b with tasks := b.tasks.set id task, tasks_distinct := Dict.nodup_keys_set b.tasks_distinct }

def withFolder (id : String) (options : Dict String Json) (b : Browser) : Browser :=
  { b with folders := b.folders.set id options, folders_distinct := Dict.nodup_keys_set b.folders_distinct }

def postTriggers (id : String) (triggers : List Json) (b : Browser) : Except String (Unit × Browser) :=
  match b.tasks.get? id with
  | some task => .ok ((), b.withTask id { task with triggers })
  | none => .error "404"

def stopTask (id : String) (b : Browser) : Except String (Unit × Browser) :=
  match b.tasks.get? id with
  | some task => .ok ((), b.withTask id { task with state := "Idle" })
  | none => .error "404"

def postOptions (id : String) (options : Dict String Json) (b : Browser) : Except String (Unit × Browser) :=
  match b.folders.get? id with
  | some _ => .ok ((), b.withFolder id options)
  | none => .error "404"

def getTasks : Remote Browser (Dict String Task) := request fun b => .ok (b.tasks, b)

def virtualFolders : Remote Browser (Dict String (Dict String Json)) :=
  let get := request fun b => .ok (b.folders, b)
  Prog.tryExcept get fun _ => get

structure Snapshot where
  tasks : List (String × List Json)
  libraries : List (String × Dict String Json)

def stopScan (text : Text) (id : String) (task : Task) : Remote Browser Unit :=
  if isActive text task then tolerated (request (stopTask id)) else pure ()

def clearTriggers (id : String) (task : Task) : Remote Browser Unit :=
  if task.triggers ≠ [] then request (postTriggers id []) else pure ()

def guardTasks (text : Text) : List (String × Task) → Remote Browser (List (String × List Json))
  | [] => pure []
  | (id, task) :: tasks =>
    if isScanTask text task ∧ id ≠ "" then do
      stopScan text id task
      clearTriggers id task
      let rest ← guardTasks text tasks
      pure ((id, task.triggers) :: rest)
    else guardTasks text tasks

def updateLibraryOptions (id : String) (options : Dict String Json) : Remote Browser Unit :=
  if id ≠ "" then request (postOptions id options) else pure ()

def guardFolders : List (String × Dict String Json) → Remote Browser (List (String × Dict String Json))
  | [] => pure []
  | (id, options) :: folders =>
    if (options.get? realtimeMonitor).any (isBool true) then do
      updateLibraryOptions id (options.set realtimeMonitor (.bool false))
      let rest ← guardFolders folders
      pure ((id, options) :: rest)
    else guardFolders folders

def enterScanGuard (text : Text) : Remote Browser Snapshot := do
  let tasks ← getTasks
  let guarded ← guardTasks text tasks
  let folders ← virtualFolders
  let libraries ← guardFolders folders
  pure ⟨guarded, libraries⟩

def restoreTask (current : Dict String Task) (task : String × List Json) : Remote Browser Unit :=
  let triggers := ((current.get? task.1).map (·.triggers)).getD []
  if triggers = [] ∧ task.2 ≠ [] then request (postTriggers task.1 task.2) else pure ()

def restoreFolder (current : Dict String (Dict String Json)) (library : String × Dict String Json) :
    Remote Browser Unit :=
  let options := (current.get? library.1).getD []
  if (options.get? realtimeMonitor).any (isBool false) then
    updateLibraryOptions library.1 (if library.2 ≠ [] then library.2 else options)
  else pure ()

def restoreScanGuard (snapshot : Snapshot) : Remote Browser Unit := do
  let tasks ← getTasks
  Prog.forEach (restoreTask tasks) snapshot.tasks
  let folders ← virtualFolders
  Prog.forEach (restoreFolder folders) snapshot.libraries

inductive Cell where
  | triggers (id : String)
  | option (id key : String)
  deriving DecidableEq

def cell (b : Browser) : Cell → Option Json
  | .triggers id => (b.tasks.get? id).map fun task => .arr task.triggers
  | .option id key => (b.folders.get? id).bind fun options => options.get? key

end Browser

def mediaBrowserAdapter (text : Text) : Adapter Browser Browser.Snapshot Browser.Cell where
  cell := Browser.cell
  enterScanGuard := Browser.enterScanGuard text
  restoreScanGuard := Browser.restoreScanGuard

/-! ## Plex -/

abbrev Plex := Dict String Json

namespace Plex

def guardedSettings : List String :=
  ["autoEmptyTrash", "fSEventLibraryUpdatesEnabled", "scheduledLibraryUpdatesEnabled"]

structure Snapshot where
  settings : Dict String Json
  changed : List String

def connect : Remote Plex Plex := do
  request fun s => .ok ((), s)
  request fun s => .ok (s, s)

def setting (settings : Plex) (id : String) : Remote Plex Json :=
  match settings.get? id with
  | some value => pure value
  | none => Prog.throw "NotFound"

def save (updates : Dict String Json) : Remote Plex Unit :=
  if updates = [] then pure () else request fun s => .ok ((), updates.foldl (fun s u => s.set u.1 u.2) s)

def readSettings (settings : Plex) : List String → Remote Plex (Dict String Json)
  | [] => pure []
  | id :: ids => do
    let value ← setting settings id
    let rest ← readSettings settings ids
    pure ((id, value) :: rest)

def cancelUpdate : Remote Plex Unit := request fun s => .ok ((), s)

def enterScanGuard : Remote Plex Snapshot := do
  let settings ← connect
  let values ← readSettings settings guardedSettings
  let changed := (values.filter fun v => !isBool false v.2).map (·.1)
  save (changed.map fun id => (id, .bool false))
  tolerated cancelUpdate
  pure ⟨values, changed⟩

def restored (settings : Plex) (snapshot : Snapshot) : List String → Remote Plex (Dict String Json)
  | [] => pure []
  | id :: ids => do
    let value ← setting settings id
    let rest ← restored settings snapshot ids
    let original := (snapshot.settings.get? id).getD .null
    pure (if isBool false value && !isBool false original then (id, original) :: rest else rest)

def restoreScanGuard (snapshot : Snapshot) : Remote Plex Unit := do
  let settings ← connect
  let updates ← restored settings snapshot snapshot.changed
  save updates

end Plex

def plexAdapter : Adapter Plex Plex.Snapshot String where
  cell s id := s.get? id
  enterScanGuard := Plex.enterScanGuard
  restoreScanGuard := Plex.restoreScanGuard

end Dumb.Media
