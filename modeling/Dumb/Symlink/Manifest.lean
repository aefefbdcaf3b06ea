import Mathlib.Data.List.Sort
import Dumb.Lib.Posix
import Dumb.Lib.Text

/-!
# Backup and restore of symbolic links

From `utils/symlink_repair.py`. The manifest is what `json.load` gets back of what `json.dump` wrote, and its file
lies outside the tree.
-/

namespace Dumb.Symlink

open Py Tree

variable {γ : Type}

def joinName (text name : String) : String :=
  if text.toList.getLast? = some '/' then text ++ name else text ++ "/" ++ name

def names (fs : Files γ) (p : Path) : List String :=
  (Dict.keys fs).filterMap fun q => if q.dropLast = p then q.getLast? else none

def depth (fs : Files γ) : Nat := (Dict.keys fs).foldr (fun p n => max p.length n) 0

/-- The links in the directory at `p` and below, as the stack `pending` yields them: the directory pushed last is the
first to be read. -/
def scan (fs : Files γ) : Nat → String → Path → List String
  | 0, _, _ => []
  | levels + 1, text, p =>
    let entries := (names fs p).insertionSort (· ≥ ·)
    let links := entries.filter fun name => fs.get? (p ++ [name]) matches some (.link _)
    let dirs := entries.filter fun name => fs.get? (p ++ [name]) matches some .dir
    links.map (joinName text) ++ dirs.reverse.flatMap fun name => scan fs levels (joinName text name) (p ++ [name])

def collectSymlinkPaths (fs : Files γ) (cwd : Path) : List String → Except Errno (List String × List String)
  | [] => .ok ([], [])
  | root :: roots =>
    match if root = "" then none else resolve fs (way cwd root) with
    | none => do
      let (paths, missing) ← collectSymlinkPaths fs cwd roots
      .ok (paths, root :: missing)
    | some p =>
      if isDirAt fs p then do
        let (paths, missing) ← collectSymlinkPaths fs cwd roots
        .ok (scan fs (depth fs + 1) root p ++ paths, missing)
      else .error .notdir

def normParts (absolute : Bool) (ps : Path) : Path :=
  (ps.foldl (fun kept name =>
    if name = "." then kept
    else if name = ".." then
      match kept with
      | [] => if absolute then [] else [".."]
      | last :: rest => if last = ".." then ".." :: kept else rest
    else name :: kept) []).reverse

def targetExists (fs : Files γ) (cwd : Path) (linkPath target : String) : Bool :=
  if isAbsolute target then exists? fs (way cwd target)
  else
    let joined := (way cwd linkPath).dirname.join (parts target)
    exists? fs ⟨joined.start, normParts (isAbsolute linkPath) joined.parts⟩

/-! ## Backup -/

structure Entry where
  linkPath : String
  target : String
  targetExists : Option Bool
  deriving DecidableEq

structure Backup where
  destination : String
  roots : List String
  missingRoots : List String
  scanned : Nat
  entries : List Entry
  skippedBroken : Nat
  errors : List (String × Errno)
  deriving DecidableEq

inductive ManifestError where
  | value (message : String)
  | os (e : Errno)
  deriving DecidableEq

def backupLink (fs : Files γ) (cwd : Path) (includeBroken checkTargets : Bool) (b : Backup) (linkPath : String) : Backup :=
  match readlink fs (way cwd linkPath) with
  | .error e => { b with errors := b.errors ++ [(linkPath, e)] }
  | .ok target =>
    let there := if checkTargets then some (targetExists fs cwd linkPath target) else none
    if checkTargets && !includeBroken && there ≠ some true then { b with skippedBroken := b.skippedBroken + 1 }
    else { b with entries := b.entries ++ [⟨linkPath, target, there⟩] }

def backupSymlinkManifest (text : Text) (defaultRoots : List String) (fs : Files γ) (cwd : Path)
    (roots : Option (List String)) (backupPath : String) (includeBroken checkTargets : Bool) :
    Except ManifestError Backup :=
  let destination := text.strip backupPath
  if destination = "" then .error (.value "backup_path is required.")
  else
    let resolvedRoots := match roots with
      | some (root :: rest) => root :: rest
      | _ => defaultRoots
    match collectSymlinkPaths fs cwd resolvedRoots with
    | .error e => .error (.os e)
    | .ok (paths, missing) =>
      .ok (paths.foldl (backupLink fs cwd includeBroken checkTargets)
        ⟨destination, resolvedRoots, missing, paths.length, [], 0, []⟩)

/-! ## Restore -/

structure RestoreOptions where
  dryRun : Bool
  overwriteExisting : Bool
  restoreBroken : Bool

inductive Failure where
  | os (e : Errno)
  | realDirectory
  deriving DecidableEq

structure RestoreReport where
  restored : Nat
  skippedExisting : Nat
  skippedUnchanged : Nat
  skippedInvalidEntries : Nat
  skippedNonexistentTarget : Nat
  errors : List (String × Failure)

def RestoreReport.fail (r : RestoreReport) (linkPath : String) (f : Failure) : RestoreReport :=
  { r with errors := r.errors ++ [(linkPath, f)] }

abbrev Restore (γ : Type) := Files γ × RestoreReport

def putLink (dryRun : Bool) (cwd : Path) (linkPath target : String) (s : Restore γ) : Restore γ :=
  if dryRun then (s.1, { s.2 with restored := s.2.restored + 1 })
  else
    match makedirs (way cwd linkPath).dirname s.1 with
    | (.error e, fs) => (fs, s.2.fail linkPath (.os e))
    | (.ok (), fs) =>
      match symlink target (way cwd linkPath) fs with
      | .error e => (fs, s.2.fail linkPath (.os e))
      | .ok fs => (fs, { s.2 with restored := s.2.restored + 1 })

def restoreEntry (text : Text) (options : RestoreOptions) (cwd : Path) (s : Restore γ) (entry : Entry) : Restore γ :=
  let linkPath := text.strip entry.linkPath
  let target := text.strip entry.target
  let w := way cwd linkPath
  if linkPath = "" ∨ target = "" then (s.1, { s.2 with skippedInvalidEntries := s.2.skippedInvalidEntries + 1 })
  else if !options.restoreBroken && !targetExists s.1 cwd linkPath target then
    (s.1, { s.2 with skippedNonexistentTarget := s.2.skippedNonexistentTarget + 1 })
  else if lexists s.1 w then
    if readlink s.1 w = .ok target then (s.1, { s.2 with skippedUnchanged := s.2.skippedUnchanged + 1 })
    else if !options.overwriteExisting then (s.1, { s.2 with skippedExisting := s.2.skippedExisting + 1 })
    else if isdir s.1 w && !islink s.1 w then (s.1, s.2.fail linkPath .realDirectory)
    else if options.dryRun then putLink true cwd linkPath target s
    else
      match unlink w s.1 with
      | .error e => (s.1, s.2.fail linkPath (.os e))
      | .ok fs => putLink false cwd linkPath target (fs, s.2)
  else putLink options.dryRun cwd linkPath target s

def restoreSymlinkManifest (text : Text) (options : RestoreOptions) (cwd : Path) (entries : List Entry) (fs : Files γ) :
    Restore γ :=
  entries.foldl (restoreEntry text options cwd) (fs, ⟨0, 0, 0, 0, 0, []⟩)

/-- `(entry.get(key) or "")`, where `.strip()` of something that is no text raises `AttributeError`. -/
def entryText (key : String) (item : Json) : Option String :=
  match item.field key with
  | .str s => some s
  | value => if value.truthy then none else some ""

def readEntry (item : Json) : Option Entry := do
  let linkPath ← entryText "link_path" item
  let target ← entryText "target" item
  some ⟨linkPath, target, none⟩

/-- `restore_symlink_manifest` with the entries as they were loaded: no report where an entry cannot be read. -/
def restoreItems (text : Text) (options : RestoreOptions) (cwd : Path) :
    List Json → Restore γ → Files γ × Option RestoreReport
  | [], s => (s.1, some s.2)
  | item :: items, s =>
    match readEntry item with
    | none => (s.1, none)
    | some entry => restoreItems text options cwd items (restoreEntry text options cwd s entry)

def RestoreReport.empty : RestoreReport := ⟨0, 0, 0, 0, 0, []⟩

/-! ## Preview -/

structure PreviewOptions where
  overwriteExisting : Bool
  restoreBroken : Bool
  sampleLimit : Int

structure Sample where
  action : String
  linkPath : String
  target : String
  currentTarget : Option (Option String)

structure PreviewReport where
  projectedRestored : Nat
  projectedSkippedExisting : Nat
  projectedSkippedUnchanged : Nat
  projectedSkippedInvalidEntries : Nat
  projectedSkippedNonexistentTarget : Nat
  projectedErrors : Nat
  sampleChanges : List Sample

def PreviewReport.empty : PreviewReport := ⟨0, 0, 0, 0, 0, 0, []⟩

def PreviewReport.sample (limit : Int) (change : Sample) (r : PreviewReport) : PreviewReport :=
  if r.sampleChanges.length < limit.toNat then { r with sampleChanges := r.sampleChanges ++ [change] } else r

def previewEntry (text : Text) (options : PreviewOptions) (fs : Files γ) (cwd : Path) (r : PreviewReport)
    (entry : Entry) : PreviewReport :=
  let linkPath := text.strip entry.linkPath
  let target := text.strip entry.target
  let w := way cwd linkPath
  let sample := fun action currentTarget =>
    PreviewReport.sample options.sampleLimit ⟨action, linkPath, target, currentTarget⟩
  if linkPath = "" ∨ target = "" then
    { r with projectedSkippedInvalidEntries := r.projectedSkippedInvalidEntries + 1 }
  else
    let there := targetExists fs cwd linkPath target
    if !options.restoreBroken && !there then
      sample "skip_missing_target" none
        { r with projectedSkippedNonexistentTarget := r.projectedSkippedNonexistentTarget + 1 }
    else if lexists fs w then
      let currentTarget := (readlink fs w).toOption
      if currentTarget = some target then
        sample "skip_unchanged" none { r with projectedSkippedUnchanged := r.projectedSkippedUnchanged + 1 }
      else if !options.overwriteExisting then
        sample "skip_existing" (some currentTarget) { r with projectedSkippedExisting := r.projectedSkippedExisting + 1 }
      else sample "overwrite" (some currentTarget) { r with projectedRestored := r.projectedRestored + 1 }
    else sample "create" none { r with projectedRestored := r.projectedRestored + 1 }

/-- `preview_symlink_manifest_restore` with the entries as they were loaded. -/
def previewItems (text : Text) (options : PreviewOptions) (fs : Files γ) (cwd : Path) :
    List Json → PreviewReport → Option PreviewReport
  | [], r => some r
  | item :: items, r =>
    match readEntry item with
    | none => none
    | some entry => previewItems text options fs cwd items (previewEntry text options fs cwd r entry)

end Dumb.Symlink
