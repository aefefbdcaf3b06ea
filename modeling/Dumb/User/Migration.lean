import Dumb.Lib.Crash
import Dumb.Lib.Resolve

/-!
# migrate_and_symlink and cleanup_broken_symlinks

From `utils/user_management.py`. A directory of the image moves to the data volume and leaves a link to its
new place. The original path and the data path lie in separate trees.
-/

namespace Dumb.User

open Crash Py Tree

variable {γ : Type}

/-! ## The disk -/

inductive Errno where
  | enoent | eexist | enotdir | other

inductive Exc where
  | os (errno : Errno)
  | exception (message : String)
  /-- `RuntimeError(f"Migration failed for {original_path} to {data_path}: {e}")`. -/
  | migrationFailed (originalPath dataPath : String) (cause : Exc)

/-- What a path names. The data path is named through its links, so a `link` there is one that leads nowhere. -/
inductive Spot (γ : Type) where
  | missing
  | file
  | link (text : String)
  | dir (files : Files γ)

namespace Spot

def files : Spot γ → Files γ
  | .dir files => files
  | _ => []

def isLink : Spot γ → Bool
  | .link _ => true
  | _ => false

def isThere : Spot γ → Bool
  | .file | .dir _ => true
  | _ => false

end Spot

structure World (γ : Type) where
  original : Spot γ
  data : Spot γ
  /-- `os.path.ismount(original_path)`. -/
  mount : Bool

structure Job (γ : Type) where
  originalPath : String
  dataPath : String
  /-- `os.path.exists` of a link text other than `data_path`. -/
  found : String → Bool
  /-- `os.path.getsize` of a file, and of what a link below `original_path` or `data_path` leads to. -/
  size : γ → Nat
  originalLink : Path → String → Option Nat
  dataLink : Path → String → Option Nat

abbrev Fs (γ : Type) : Type → Type := Prog Exc (Files γ) (World γ)

namespace Job

variable (job : Job γ)

def originalExists (w : World γ) : Bool :=
  match w.original with
  | .missing => false
  | .link text => if text = job.dataPath then w.data.isThere else job.found text
  | .file | .dir _ => true

def isReal (w : World γ) : Bool := job.originalExists w && !w.original.isLink

def emptyDir (w : World γ) : Bool :=
  !job.originalExists w || match w.original with
    | .dir files => files.isEmpty
    | _ => false

end Job

def makedirsData : Fs γ Unit := Prog.atomic fun w =>
  match w.data with
  | .missing => .ok { w with data := .dir [] }
  | .dir _ => .ok w
  | _ => .error (.os .eexist)

/-- `chown_recursive`, and other calls that leave the two trees as they are. -/
def other : Fs γ Unit := Prog.look fun _ => ()

def dataIsEmpty : Fs γ Bool := Prog.call
  (fun w =>
    match w.data with
    | .dir files => .ok (files.isEmpty, w)
    | .file => .error (.os .enotdir)
    | _ => .error (.os .enoent))
  (fun _ w => w)

/-- `shutil.copytree(original_path, data_path, dirs_exist_ok=True, symlinks=True)`: cut short, it may have
left anything in `data_path`. -/
def copyOriginal : Fs γ Unit := Prog.call
  (fun w =>
    match w.original, w.data with
    | .dir src, .dir dst =>
      match copytree src dst with
      | .ok files => .ok ((), { w with data := .dir files })
      | .error _ => .error (.os .eexist)
    | _, _ => .error (.os .enotdir))
  (fun t w => { w with data := .dir t })

/-- The sum of `os.path.getsize` over the files of `os.walk`, which fails at a link that leads nowhere. -/
def totalSize (size : γ → Nat) (link : Path → String → Option Nat) (files : Files γ) : Option Nat :=
  files.foldrM (fun e total =>
    match e.2 with
    | .dir => some total
    | .file c => some (size c + total)
    | .link text => (link e.1 text).map (· + total)) 0

def sizeOf (size : γ → Nat) (link : Path → String → Option Nat) (spot : World γ → Spot γ) : Fs γ Nat := Prog.call
  (fun w =>
    match totalSize size link (spot w).files with
    | some n => .ok (n, w)
    | none => .error (.os .enoent))
  (fun _ w => w)

/-- `shutil.rmtree(original_path)`: cut short, it leaves some of the entries. -/
def removeOriginal : Fs γ Unit := Prog.call
  (fun w =>
    match w.original with
    | .dir _ => .ok ((), { w with original := .missing })
    | .missing => .error (.os .enoent)
    | _ => .error (.os .enotdir))
  (fun t w => { w with original := .dir (w.original.files.filter fun e => (Dict.keys t).contains e.1) })

def symlink (dataPath : String) : Fs γ Unit := Prog.atomic fun w =>
  match w.original with
  | .missing => .ok { w with original := .link dataPath }
  | _ => .error (.os .eexist)

def World.isSymlinkTo (w : World γ) (dataPath : String) : Bool :=
  match w.original with
  | .link text => text = dataPath
  | _ => false

/-! ## migrate_and_symlink -/

section
variable (job : Job γ)

def ensureData : Fs γ Unit := do
  if !(← Prog.look fun w => w.data.isThere) then
    makedirsData
    other

/-- Copies the original to an empty `data_path` and compares the sizes. -/
def copyAndCheck : Fs γ Unit := do
  copyOriginal
  other
  let originalSize ← sizeOf job.size job.originalLink World.original
  let dataSize ← sizeOf job.size job.dataLink World.data
  if originalSize ≠ dataSize then
    Prog.throw (.exception
      s!"Data size mismatch: {originalSize} bytes in original, {dataSize} bytes in data path")

def migrateData : Fs γ Unit := do
  if ← Prog.look fun w => job.isReal w && !job.emptyDir w then
    if ← dataIsEmpty then copyAndCheck job

def discardOriginal : Fs γ Unit := do
  if ← Prog.look job.isReal then removeOriginal

def linkOriginal : Fs γ Unit := do
  if !(← Prog.look job.originalExists) then
    other
    symlink job.dataPath
    if !(← Prog.look fun w => w.isSymlinkTo job.dataPath) then
      Prog.throw (.exception s!"Failed to create symlink: {job.originalPath} → {job.dataPath}")

def replaceOriginal : Fs γ Unit := do
  if ← Prog.look World.mount then pure () else
    discardOriginal job
    linkOriginal job

def migrateAndSymlink : Fs γ Unit :=
  Prog.tryExcept
    (do ensureData
        migrateData job
        replaceOriginal job)
    (fun e => Prog.throw (.migrationFailed job.originalPath job.dataPath e))

end

section
variable (cwd directory : Path) (fails : String → Bool)

/-- One turn of the loop. The text of the link is looked up in the working directory of the process; `fails`
says which calls of `unlink` raise. -/
def cleanupItem (fs : Files γ) (item : String) : Files γ :=
  match fs.get? (directory ++ [item]) with
  | some (.link text) => if !found fs cwd text && !fails item then fs.erase (directory ++ [item]) else fs
  | _ => fs

def cleanupBrokenSymlinks (items : List String) (fs : Files γ) : Files γ :=
  if directory = [] ∨ (fs.get? directory).isSome then items.foldl (cleanupItem cwd directory fails) fs else fs

end

end Dumb.User
