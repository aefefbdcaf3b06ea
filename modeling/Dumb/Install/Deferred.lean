import Dumb.Install.Snapshot

/-!
# The deferred clears of a setup run

`clear_directory` inside the scope of `setup_project` or `install_project`, and `_finish_deferred_clears`. All
targets and backups lie in one tree, so a later clear can move the backup of an earlier one. What the calls of the
operating system answer is given from outside.
-/

namespace Dumb.Install.Deferred

open Py Tree

variable {γ : Type}

structure Transaction where
  target : Path
  identifier : String
  excluded : List Path
  captured : Bool
  captureComplete : Bool
  deriving DecidableEq

namespace Transaction

def backup (t : Transaction) : Path :=
  t.target.dropLast ++ ["." ++ t.target.getLastD "" ++ ".dumb-clear-" ++ t.identifier]

def Concerns (t : Transaction) (p : Path) : Prop :=
  Below t.target p ∧ covers t.excluded (p.drop t.target.length) = false

instance (t : Transaction) (p : Path) : Decidable (t.Concerns p) := inferInstanceAs (Decidable (_ ∧ _))

end Transaction

/-! ## Capture -/

structure CaptureCalls (γ : Type) where
  walk : Walk γ
  mkdirRaises : Bool
  renameRaises : Path → Bool

def capture (calls : CaptureCalls γ) (t : Transaction) (fs : Files γ) : Bool × Transaction × Files γ :=
  if !Tree.isDir fs t.target then (false, t, fs)
  else if calls.mkdirRaises || (fs.get? t.backup).isSome then (false, t, fs)
  else
    let tree := under t.target fs
    let s := Clear.capture t.excluded calls.renameRaises (calls.walk.order tree) tree
    (s.captureComplete, { t with captured := true, captureComplete := s.captureComplete },
      graft t.backup s.backup (graft t.target s.target (fs.set t.backup .dir)))

/-! ## Rollback -/

/-- The order of the walk, the visit whose `unlink` raises, the entries whose copying raises, and what `rmtree`
leaves of the backup when it raises. -/
structure RollbackCalls (γ : Type) where
  walk : Walk γ
  unlinkRaises : Option Nat
  copyRaises : Path → Bool
  rmtreeLeaves : Option (Path → Bool)

/-- The first part of `rollback`: whether it came to its end, and the tree. -/
def clearTarget (calls : RollbackCalls γ) (t : Transaction) (fs : Files γ) : Bool × Files γ :=
  let tree := under t.target fs
  let visits := calls.walk.order tree
  match calls.unlinkRaises.filter (· < visits.length) with
  | some n => (false, graft t.target ((visits.take n).foldl (Clear.clearVisit t.excluded) tree) fs)
  | none => (true, graft t.target (visits.foldl (Clear.clearVisit t.excluded) tree) fs)

/-- `shutil.copy2` puts a file into the directory that has its place. -/
def copy2 (fs : Files γ) (e : Path × Node γ) : Except Conflict (Files γ) :=
  match e.2, fs.get? e.1 with
  | .file c, some .dir => copyEntry fs (e.1 ++ e.1.getLast?.toList, .file c)
  | _, _ => copyEntry fs e

/-- `copytree` goes on after an error, but not below a directory that it could not make. -/
def copyEntries (raises : Path → Bool) (src : Files γ) (s : List Path × Files γ) : List Path × Files γ :=
  src.foldl (fun s e =>
    if s.1.any (·.isPrefixOf e.1) then s
    else if raises e.1 then (e.1 :: s.1, s.2)
    else match copy2 s.2 e with
      | .ok fs => (s.1, fs)
      | .error _ => (e.1 :: s.1, s.2)) s

def copyBack (calls : RollbackCalls γ) (t : Transaction) (fs : Files γ) : Bool × Files γ :=
  if !Tree.isDir fs t.backup then (false, fs)
  else if t.target.inits.any fun p => (leaf fs p).isSome then (false, fs)
  else
    let fs := mkdirs t.target fs
    let (failed, tree) := copyEntries calls.copyRaises (under t.backup fs) ([], under t.target fs)
    (failed.isEmpty, graft t.target tree fs)

def removeBackup (calls : RollbackCalls γ) (t : Transaction) (fs : Files γ) : Bool × Files γ :=
  match calls.rmtreeLeaves with
  | some left => (false, fs.filter fun e => !(decide (Below t.backup e.1) && !left e.1))
  | none => (true, Tree.rmtree t.backup fs)

def rollback (calls : RollbackCalls γ) (t : Transaction) (fs : Files γ) : Bool × Transaction × Files γ :=
  if !t.captured then (true, t, fs)
  else
    let (cleared, fs) := if t.captureComplete then clearTarget calls t fs else (true, fs)
    if !cleared then (false, t, fs)
    else
      let (copied, fs) := copyBack calls t fs
      if !copied then (false, t, fs)
      else
        let (removed, fs) := removeBackup calls t fs
        if !removed then (false, t, fs)
        else (true, { t with captured := false, captureComplete := false }, fs)

def commit (t : Transaction) (fs : Files γ) : Transaction × Files γ :=
  ({ t with captured := false, captureComplete := false }, Tree.rmtree t.backup fs)

/-! ## The run -/

/-- What the run does between its calls: it makes a directory, or puts a file or a link where none of its
directories is something else. -/
def write (p : Path) (node : Node γ) (fs : Files γ) : Files γ :=
  if p = [] || p.dropLast.inits.any fun q => (leaf fs q).isSome then fs
  else match node, fs.get? p with
    | .dir, none => mkdirs p fs
    | .dir, some _ => fs
    | _, some .dir => fs
    | _, _ => (mkdirs p.dropLast fs).set p node

/-- The arguments of `clear_directory` and how its calls are answered, with the rollback that follows a failed
capture and the one at the end of the run. -/
structure Call (γ : Type) where
  directory : Path
  excludeDirs : List Path
  resolve : Path → Path
  identifier : String
  capture : CaptureCalls γ
  abort : RollbackCalls γ
  undo : RollbackCalls γ

/-- The directories below it that `clear_directory` keeps by itself, if they are there. -/
def keptDirs : List String := ["venv", ".dotnet-sdk"]

def Call.excludes (call : Call γ) (fs : Files γ) : List Path :=
  call.excludeDirs ++ (keptDirs.map fun name => call.directory ++ [name]).filter fun p =>
    (fs.get? (call.resolve p)).isSome && !call.excludeDirs.contains p

def Call.transaction (call : Call γ) (fs : Files γ) : Transaction where
  target := call.resolve call.directory
  identifier := call.identifier
  excluded := normalize call.resolve (call.resolve call.directory) ((call.excludes fs).map (⟨true, ·⟩))
  captured := false
  captureComplete := false

/-- `_INSTALL_CLEAR_SCOPE` with how the last rollback of each transaction will be answered, the tree, and whether
every rollback after a failed capture succeeded. -/
structure Run (γ : Type) where
  files : Files γ
  transactions : List (Transaction × RollbackCalls γ)
  sound : Bool

def clearDirectory (call : Call γ) (s : Run γ) : Bool × Run γ :=
  match capture call.capture (call.transaction s.files) s.files with
  | (true, t, fs) => (true, { s with files := fs, transactions := s.transactions ++ [(t, call.undo)] })
  | (false, t, fs) =>
    let (restored, _, fs) := rollback call.abort t fs
    (false, { s with files := fs, sound := s.sound && restored })

inductive Step (γ : Type) where
  | write (p : Path) (node : Node γ)
  | clear (call : Call γ)

def Step.run (s : Run γ) : Step γ → Run γ
  | .write p node => { s with files := Deferred.write p node s.files }
  | .clear call => (clearDirectory call s).2

def runSteps (steps : List (Step γ)) (s : Run γ) : Run γ := steps.foldl Step.run s

/-! ## The end of the run -/

def rollbackAll : List (Transaction × RollbackCalls γ) → Files γ → Bool × List Transaction × Files γ
  | [], fs => (true, [], fs)
  | (t, calls) :: rest, fs =>
    match rollback calls t fs with
    | (true, t, fs) =>
      let (restored, ts, fs) := rollbackAll rest fs
      (restored, t :: ts, fs)
    | (false, t, fs) => (false, t :: rest.map (·.1), fs)

def commitAll (ts : List (Transaction × RollbackCalls γ)) (fs : Files γ) : Files γ :=
  ts.foldl (fun fs t => (commit t.1 fs).2) fs

inductive Ending where
  | success
  | error (text : String)
  | raised (text : String)

def Ending.result (process : String) : Ending → Bool × String
  | .success => (true, "")
  | .error text => (false, text)
  | .raised text => (false, "Error during setup of " ++ process ++ ": " ++ text)

def finish (result : Bool × String) (s : Run γ) : (Bool × String) × Files γ :=
  if result.1 then (result, commitAll s.transactions s.files)
  else
    let (restored, _, fs) := rollbackAll s.transactions.reverse s.files
    if s.transactions.isEmpty then (result, fs)
    else if restored then ((false, result.2 ++ " Cleared runtime files restored."), fs)
    else ((false, result.2 ++ " Automatic runtime restore also failed."), fs)

def setupProject (process : String) (steps : List (Step γ)) (ending : Ending) (fs : Files γ) :
    (Bool × String) × Files γ :=
  finish (ending.result process) (runSteps steps { files := fs, transactions := [], sound := true })

end Dumb.Install.Deferred
