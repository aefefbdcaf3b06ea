import Dumb.Symlink.Manifest

/-!
# Repair of symbolic links

From `utils/symlink_repair.py`. All moves are listed before anything is rewritten or moved. In which order a
directory is listed is free.
-/

namespace Dumb.Symlink

open Py Tree

variable {γ : Type}

structure RewriteRule where
  fromPrefix : String
  toPrefix : String
  deriving DecidableEq

structure RootMigration where
  fromRoot : String
  toRoot : String
  deriving DecidableEq

def normalizePrefix (value : String) : String := String.ofList (value.toList.reverse.dropWhile (· = '/')).reverse

def rewriteTarget (target : String) : List RewriteRule → String × Option RewriteRule
  | [] => (target, none)
  | rule :: rules =>
    let src := normalizePrefix rule.fromPrefix
    let dst := normalizePrefix rule.toPrefix
    if src = "" then rewriteTarget target rules
    else if target = src then (dst, some rule)
    else if (src ++ "/").toList.isPrefixOf target.toList then
      (dst ++ String.ofList (target.toList.drop src.toList.length), some rule)
    else rewriteTarget target rules

def presetRewriteRules (text : Text) (presets : List String) : List RewriteRule :=
  presets.flatMap fun preset =>
    if text.strip preset = "decypharr_beta_consolidated" then
      [⟨"/mnt/debrid/decypharr/realdebrid/__all__", "/mnt/debrid/decypharr/__all__"⟩]
    else []

structure Move where
  fromRoot : String
  toRoot : String
  sourcePath : String
  targetPath : String
  deriving DecidableEq

def below (rel name : String) : String := if rel = "" then name else rel ++ "/" ++ name

/-- The links that `os.walk` lists in the directory at `p` and below, where links are followed nowhere. -/
def walkMoves (listing : Path → List String) (fs : Files γ) (cwd : Path) (srcRoot dstRoot : String) :
    Nat → String → String → Path → List Move
  | 0, _, _, _ => []
  | levels + 1, current, rel, p =>
    let dirs := (listing p).filter fun name => isdir fs ⟨p, [name]⟩
    let files := (listing p).filter fun name => !isdir fs ⟨p, [name]⟩
    let links := (dirs ++ files).filter fun name => islink fs (way cwd (joinName current name))
    let down := dirs.filter fun name => !islink fs (way cwd (joinName current name))
    links.map (fun name => ⟨srcRoot, dstRoot, joinName current name, joinName dstRoot (below rel name)⟩) ++
      down.flatMap fun name =>
        walkMoves listing fs cwd srcRoot dstRoot levels (joinName current name) (below rel name) (p ++ [name])

def collectRootMigrationMoves (listing : Path → List String) (fs : Files γ) (cwd : Path) :
    List RootMigration → List Move × List String
  | [] => ([], [])
  | migration :: migrations =>
    let srcRoot := normalizePrefix migration.fromRoot
    let dstRoot := normalizePrefix migration.toRoot
    let (moves, missing) := collectRootMigrationMoves listing fs cwd migrations
    if srcRoot = "" ∨ dstRoot = "" then (moves, missing)
    else
      match resolve fs (way cwd srcRoot) with
      | none => (moves, srcRoot :: missing)
      | some p =>
        if isDirAt fs p then (walkMoves listing fs cwd srcRoot dstRoot (depth fs + 1) srcRoot "" p ++ moves, missing)
        else (moves, missing)

structure RepairOptions where
  dryRun : Bool
  includeBroken : Bool
  overwriteExisting : Bool
  copyInsteadOfMove : Bool

structure Change where
  linkPath : String
  oldTarget : String
  newTarget : String
  matchedRule : RewriteRule

inductive Operation where
  | copy
  | move
  deriving DecidableEq

structure MoveRecord extends Move where
  operation : Operation

inductive BackupRecord where
  | change (linkPath oldTarget newTarget : String)
  | move (sourcePath targetPath oldTarget : String) (operation : Operation)
  deriving DecidableEq

inductive RepairFailure where
  | link (linkPath : String) (e : Errno)
  | move (sourcePath targetPath : String) (e : Errno)
  | realDirectory (sourcePath targetPath : String)

structure Repair (γ : Type) where
  tree : Files γ
  changed : Nat
  moved : Nat
  copied : Nat
  skippedUnchanged : Nat
  skippedNonexistentTarget : Nat
  skippedExistingDestination : Nat
  errors : List RepairFailure
  changes : List Change
  moves : List MoveRecord
  backup : List BackupRecord

namespace Repair

def start (fs : Files γ) : Repair γ := ⟨fs, 0, 0, 0, 0, 0, 0, [], [], [], []⟩

def fail (f : RepairFailure) (s : Repair γ) : Repair γ := { s with errors := s.errors ++ [f] }

def recordChange (c : Change) (s : Repair γ) : Repair γ :=
  { s with changes := s.changes ++ [c], backup := s.backup ++ [.change c.linkPath c.oldTarget c.newTarget] }

def rewriteLink (options : RepairOptions) (rules : List RewriteRule) (cwd : Path) (s : Repair γ) (linkPath : String) :
    Repair γ :=
  let w := way cwd linkPath
  match readlink s.tree w with
  | .error e => s.fail (.link linkPath e)
  | .ok oldTarget =>
    match rewriteTarget oldTarget rules with
    | (_, none) => { s with skippedUnchanged := s.skippedUnchanged + 1 }
    | (newTarget, some rule) =>
      if oldTarget = newTarget then { s with skippedUnchanged := s.skippedUnchanged + 1 }
      else if !options.includeBroken && !targetExists s.tree cwd linkPath oldTarget then
        { s with skippedNonexistentTarget := s.skippedNonexistentTarget + 1 }
      else
        let s := s.recordChange ⟨linkPath, oldTarget, newTarget, rule⟩
        if options.dryRun then { s with changed := s.changed + 1 }
        else
          match unlink w s.tree with
          | .error e => s.fail (.link linkPath e)
          | .ok fs =>
            match symlink newTarget w fs with
            | .error e => { s with tree := fs }.fail (.link linkPath e)
            | .ok fs => { s with tree := fs, changed := s.changed + 1 }

def operation (options : RepairOptions) : Operation := if options.copyInsteadOfMove then .copy else .move

def counted (options : RepairOptions) (s : Repair γ) : Repair γ :=
  if options.copyInsteadOfMove then { s with copied := s.copied + 1 } else { s with moved := s.moved + 1 }

def recordMove (m : MoveRecord) (s : Repair γ) : Repair γ := { s with moves := s.moves ++ [m] }

def recordBackup (r : BackupRecord) (s : Repair γ) : Repair γ := { s with backup := s.backup ++ [r] }

def transfer (options : RepairOptions) (cwd : Path) (m : Move) (s : Repair γ) : Repair γ :=
  let s := s.recordMove ⟨m, operation options⟩
  match readlink s.tree (way cwd m.sourcePath) with
  | .error e => s.fail (.move m.sourcePath m.targetPath e)
  | .ok target =>
    let s := s.recordBackup (.move m.sourcePath m.targetPath target (operation options))
    if options.dryRun then s.counted options
    else
      match makedirs (way cwd m.targetPath).dirname s.tree with
      | (.error e, fs) => { s with tree := fs }.fail (.move m.sourcePath m.targetPath e)
      | (.ok (), fs) =>
        match if options.copyInsteadOfMove then symlink target (way cwd m.targetPath) fs
            else rename (way cwd m.sourcePath) (way cwd m.targetPath) fs with
        | .error e => { s with tree := fs }.fail (.move m.sourcePath m.targetPath e)
        | .ok fs => { s with tree := fs }.counted options

def moveLink (options : RepairOptions) (cwd : Path) (s : Repair γ) (m : Move) : Repair γ :=
  let src := way cwd m.sourcePath
  let dst := way cwd m.targetPath
  if !lexists s.tree src || !islink s.tree src then s
  else if lexists s.tree dst then
    if !options.overwriteExisting then { s with skippedExistingDestination := s.skippedExistingDestination + 1 }
    else if isdir s.tree dst && !islink s.tree dst then s.fail (.realDirectory m.sourcePath m.targetPath)
    else if options.dryRun then s.transfer options cwd m
    else
      match unlink dst s.tree with
      | .error e => s.fail (.move m.sourcePath m.targetPath e)
      | .ok fs => { s with tree := fs }.transfer options cwd m
  else s.transfer options cwd m

end Repair

/-- What `repair_symlinks` knows before it changes anything. -/
structure Plan where
  roots : List String
  missingRoots : List String
  rules : List RewriteRule
  migrations : List RootMigration
  paths : List String
  moves : List Move
  missingMigrationRoots : List String
  deriving DecidableEq

structure RepairRequest where
  roots : Option (List String)
  rewriteRules : List RewriteRule
  presets : List String
  rootMigrations : List RootMigration

def repairPlan (text : Text) (listing : Path → List String) (defaultRoots : List String) (fs : Files γ) (cwd : Path)
    (request : RepairRequest) : Except ManifestError Plan :=
  let roots := match request.roots with
    | some (root :: rest) => root :: rest
    | _ => defaultRoots
  let migrations := (request.rootMigrations.map fun m => RootMigration.mk (text.strip m.fromRoot) (text.strip m.toRoot)).filter
    fun m => m.fromRoot ≠ "" && m.toRoot ≠ ""
  let own := (request.rewriteRules.map fun r => RewriteRule.mk (text.strip r.fromPrefix) (text.strip r.toPrefix)).filter
    fun r => r.fromPrefix ≠ "" && r.toPrefix ≠ ""
  let rules := presetRewriteRules text request.presets ++ own
  if rules = [] ∧ migrations = [] then
    .error (.value "At least one rewrite rule, preset, or root migration is required.")
  else
    match collectSymlinkPaths fs cwd roots with
    | .error e => .error (.os e)
    | .ok (paths, missing) =>
      let (moves, missingMigrationRoots) := collectRootMigrationMoves listing fs cwd migrations
      .ok ⟨roots, missing, rules, migrations, paths, moves, missingMigrationRoots⟩

def rewriteLinks (options : RepairOptions) (cwd : Path) (plan : Plan) (fs : Files γ) : Repair γ :=
  plan.paths.foldl (Repair.rewriteLink options plan.rules cwd) (.start fs)

def repairLinks (options : RepairOptions) (cwd : Path) (plan : Plan) (fs : Files γ) : Repair γ :=
  plan.moves.foldl (Repair.moveLink options cwd) (rewriteLinks options cwd plan fs)

structure RepairManifest where
  path : String
  roots : List String
  changes : List BackupRecord
  deriving DecidableEq

def repairManifest (options : RepairOptions) (backupPath : Option String) (plan : Plan) (s : Repair γ) :
    Option RepairManifest :=
  match backupPath with
  | none => none
  | some path => if !options.dryRun && path ≠ "" && s.backup ≠ [] then some ⟨path, plan.roots, s.backup⟩ else none

def repairSymlinks (text : Text) (listing : Path → List String) (defaultRoots : List String) (options : RepairOptions)
    (cwd : Path) (request : RepairRequest) (backupPath : Option String) (fs : Files γ) :
    Except ManifestError (Plan × Repair γ × Option RepairManifest) :=
  match repairPlan text listing defaultRoots fs cwd request with
  | .error e => .error e
  | .ok plan =>
    let s := repairLinks options cwd plan fs
    .ok (plan, s, repairManifest options backupPath plan s)

end Dumb.Symlink
