import Dumb.Lib.Crash

/-!
# Restoring the SQLite snapshot

`_restore_infinidysk_sqlite_snapshot` of `utils/arr_postgres_migration.py`. InfiniDysk is stopped: no one else writes to the
files meanwhile. Every call to the system may raise or be the last one of the process.
-/

namespace Dumb.Postgres.Snapshot

open Crash

abbrev Bytes := List UInt8

/-- What `lstat` says of an entry, with its contents; `identity` is `st_dev` and `st_ino`. -/
structure File where
  identity : Nat × Nat
  regular : Bool
  links : Nat
  owner : Nat × Nat
  mode : Nat
  bytes : Bytes

inductive Suffix where
  | wal
  | shm
  | journal
  deriving DecidableEq

def Suffix.text : Suffix → String
  | .wal => "-wal"
  | .shm => "-shm"
  | .journal => "-journal"

def suffixes : List Suffix := [.wal, .shm, .journal]

inductive Place where
  | snapshot
  | destination
  | sidecar (suffix : Suffix)
  deriving DecidableEq

structure Disk where
  snapshot : Option File
  destination : Option File
  sidecar : Suffix → Option File
  temporary : Option File

def Disk.entry (d : Disk) : Place → Option File
  | .snapshot => d.snapshot
  | .destination => d.destination
  | .sidecar suffix => d.sidecar suffix

inductive Exn where
  | migration (message : String)
  | os
  | sqlite

structure World where
  disk : Disk
  staged : Bool

structure Outside where
  snapshotName : String
  destinationName : String
  /-- The file of `mkstemp`. -/
  fresh : Disk → File
  fresh_new : ∀ d p f, Disk.entry d p = some f → (fresh d).identity ≠ f.identity
  /-- The mode of a file after `fchown`. -/
  chownMode : Nat → Nat
  /-- Whether a sidecar with `stale` would be replayed onto a database of `main`. -/
  replays : Suffix → (stale main : Bytes) → Bool
  leaves : Bytes → Suffix → Option File
  fingerprintMatches : Bytes → Bool
  inspected : Bytes → Bool
  contractMatches : Bytes → Bool
  quickCheck : Bytes → Bool × String
  foreignKeyViolations : Bytes → Bool

abbrev Restoring := Prog Exn Bytes World

def tryFinally {α : Type} (p : Restoring α) (q : Restoring Unit) : Restoring α := do
  let a ← Prog.tryExcept p fun e => do q; Prog.throw e
  q
  pure a

variable (env : Outside)

def Place.name : Place → String
  | .snapshot => env.snapshotName
  | .destination => env.destinationName
  | .sidecar suffix => env.destinationName ++ suffix.text

def lexists (p : Place) : Restoring Bool := Prog.look fun w => (w.disk.entry p).isSome

def isRegularFileWithoutSymlink (p : Place) : Restoring Bool :=
  Prog.look fun w => (w.disk.entry p).any fun f => f.regular && f.links == 1

def directFileIdentity (p : Place) : Restoring (Nat × Nat) := do
  match ← (Prog.look fun w => w.disk.entry p : Restoring (Option File)) with
  | none => Prog.throw (.migration ("SQLite source " ++ p.name env ++ " could not be inspected safely."))
  | some f =>
    if f.regular && f.links == 1 then pure f.identity
    else Prog.throw (.migration ("SQLite source " ++ p.name env ++ " must be a direct regular file with one link."))

def lstat (p : Place) : Restoring File :=
  Prog.call (fun w => match w.disk.entry p with
    | none => .error .os
    | some f => .ok (f, w)) fun _ w => w

def Disk.opened (d : Disk) (main : Bytes) : Disk :=
  { d with sidecar := fun suffix => (d.sidecar suffix).or (env.leaves main suffix) }

def connect (p : Place) : Restoring Bytes :=
  Prog.call (fun w => match w.disk.entry p with
    | none => .error .sqlite
    | some f => .ok (f.bytes, if p = .destination then { w with disk := w.disk.opened env f.bytes } else w)) fun _ w => w

def validateInfinidyskSnapshot (p : Place) : Restoring Unit := do
  let bytes ← connect env p
  if env.fingerprintMatches bytes then
    let bytes ← connect env p
    if env.inspected bytes then
      let bytes ← connect env p
      if env.contractMatches bytes then pure ()
      else Prog.throw (.migration "The InfiniDysk SQLite backup does not match DUMB's supported source database contract.")
    else Prog.throw (.migration "The InfiniDysk SQLite backup schema could not be inspected.")
  else Prog.throw (.migration "The InfiniDysk SQLite backup schema does not match preflight.")

def inspectSidecars : List Suffix → Restoring (List (Suffix × (Nat × Nat)))
  | [] => pure []
  | suffix :: rest => do
    if ← lexists (.sidecar suffix) then
      if ← isRegularFileWithoutSymlink (.sidecar suffix) then
        let identity ← directFileIdentity env (.sidecar suffix)
        let others ← inspectSidecars rest
        pure ((suffix, identity) :: others)
      else Prog.throw (.migration "An unsafe InfiniDysk SQLite sidecar blocked rollback.")
    else inspectSidecars rest

def mkstemp : Restoring Unit := do
  Prog.atomic fun w => .ok { w with disk := { w.disk with temporary := some (env.fresh w.disk) } }
  Prog.modify fun w => { w with staged := true }

def onTemporary (f : File → File) (w : World) : World :=
  { w with disk := { w.disk with temporary := w.disk.temporary.map f } }

def copyfileobj : Restoring Unit :=
  Prog.call (fun w => match w.disk.snapshot with
    | none => .error .os
    | some s => .ok ((), onTemporary (fun f => { f with bytes := s.bytes }) w)) fun written w =>
      onTemporary (fun f => { f with bytes := written }) w

def fsync : Restoring Unit := Prog.look fun _ => ()

def fchmod (mode : Nat) : Restoring Unit := Prog.atomic fun w => .ok (onTemporary (fun f => { f with mode }) w)

def fchown (owner : Nat × Nat) : Restoring Unit :=
  Prog.atomic fun w => .ok (onTemporary (fun f => { f with owner, mode := env.chownMode f.mode }) w)

def anyChanged : List (Suffix × (Nat × Nat)) → Restoring Bool
  | [] => pure false
  | (suffix, identity) :: rest => do
    if (← directFileIdentity env (.sidecar suffix)) = identity then anyChanged rest else pure true

def replace : Restoring Unit := do
  Prog.atomic fun w => match w.disk.temporary with
    | none => .error .os
    | some f => .ok { w with disk := { w.disk with destination := some f, temporary := none } }
  Prog.modify fun w => { w with staged := false }

def unlink (suffix : Suffix) : Restoring Unit :=
  Prog.atomic fun w => match w.disk.sidecar suffix with
    | none => .error .os
    | some _ => .ok { w with disk := { w.disk with sidecar := Function.update w.disk.sidecar suffix none } }

def removeSidecar (sidecar : Suffix × (Nat × Nat)) : Restoring Unit := do
  if (← directFileIdentity env (.sidecar sidecar.1)) = sidecar.2 then unlink sidecar.1
  else Prog.throw (.migration "An InfiniDysk SQLite sidecar changed during rollback.")

def checkIntegrity : Restoring Unit := do
  let (healthy, message) ← (do
    if ← lexists .destination then
      let bytes ← connect env .destination
      pure (env.quickCheck bytes)
    else pure (false, "Database file is missing.") : Restoring (Bool × String))
  let violated ← (do
    if healthy then
      let bytes ← connect env .destination
      pure (env.foreignKeyViolations bytes)
    else pure true : Restoring Bool)
  if violated then Prog.throw (.migration ("Restored InfiniDysk SQLite failed integrity validation: " ++ message))
  else pure ()

def stage (destinationStat : File) : Restoring Unit := do
  mkstemp env
  copyfileobj
  fsync
  fchmod destinationStat.mode
  fchown env destinationStat.owner

def recheck (snapshotIdentity destinationIdentity : Nat × Nat) (sidecars : List (Suffix × (Nat × Nat))) :
    Restoring Unit := do
  if (← directFileIdentity env .destination) = destinationIdentity then
    let same ← (do
      if (← directFileIdentity env .snapshot) = snapshotIdentity then
        let changed ← anyChanged env sidecars
        pure !changed
      else pure false : Restoring Bool)
    if same then pure ()
    else Prog.throw (.migration "InfiniDysk rollback inputs changed while the snapshot was staged.")
  else Prog.throw (.migration "InfiniDysk SQLite changed while rollback was being restored.")

def copyAndReplace (snapshotIdentity destinationIdentity : Nat × Nat) (destinationStat : File)
    (sidecars : List (Suffix × (Nat × Nat))) : Restoring Unit := do
  stage env destinationStat
  recheck env snapshotIdentity destinationIdentity sidecars
  replace
  Prog.forEach (removeSidecar env) sidecars
  validateInfinidyskSnapshot env .destination
  checkIntegrity env

/-- Its `finally`; a file that is gone already is passed over. -/
def discardTemporary : Restoring Unit := do
  let w ← Prog.get
  if w.staged then Prog.atomic fun w => .ok { w with disk := { w.disk with temporary := none } }
  else pure ()

def restoreInfinidyskSqliteSnapshot : Restoring Unit := do
  let snapshotIdentity ← directFileIdentity env .snapshot
  validateInfinidyskSnapshot env .snapshot
  let destinationIdentity ← directFileIdentity env .destination
  let destinationStat ← lstat .destination
  let sidecars ← inspectSidecars env suffixes
  Prog.modify fun w => { w with staged := false }
  tryFinally (copyAndReplace env snapshotIdentity destinationIdentity destinationStat sidecars) discardTemporary

end Dumb.Postgres.Snapshot
