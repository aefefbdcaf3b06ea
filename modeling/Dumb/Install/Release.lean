import Dumb.Lib.Crash

/-!
# DirectoryReleaseTransaction

The directory transaction of `utils/transactional_install.py`: a candidate directory next to the target is
built, swapped in and committed, rolled back or abandoned, and a journal record tells the next attempt how
far an interrupted one came. Directory contents are of an arbitrary type `α`.
-/

namespace Dumb.Install

open Crash

inductive JournalState where
  | prepared | building | activating | copyingPrevious | replacingOverlayTarget | activated | failed
  | rollingBack | rolledBack | rollbackFailed | committing | committed
  deriving DecidableEq

inductive Errno where
  | exdev | enoent | eexist | enotempty | enotdir | eisdir | eio
  deriving DecidableEq

inductive Exc where
  | os (errno : Errno)
  | transaction (message : String)

inductive Entry (α : Type) where
  | dir (contents : α)
  | link (contents : α)
  | file

inductive Slot where
  | target | candidate | previous | previousStaging
  deriving DecidableEq

/-- The disk around the target, and the memory of the process (`activated`, `recovered`). -/
structure World (α : Type) where
  entry : Slot → Option (Entry α)
  aside : List (Entry α)
  journal : Option JournalState
  lower : Bool
  written : List JournalState
  activated : Bool
  recovered : List String

namespace World

variable {α : Type}

def set (w : World α) (p : Slot) (e : Option (Entry α)) : World α :=
  { w with entry := fun q => if q = p then e else w.entry q }

@[simp] theorem entry_set (w : World α) (p q : Slot) (e : Option (Entry α)) :
    (w.set p e).entry q = if q = p then e else w.entry q := rfl
@[simp] theorem aside_set (w : World α) (p : Slot) (e : Option (Entry α)) : (w.set p e).aside = w.aside := rfl
@[simp] theorem journal_set (w : World α) (p : Slot) (e : Option (Entry α)) :
    (w.set p e).journal = w.journal := rfl
@[simp] theorem lower_set (w : World α) (p : Slot) (e : Option (Entry α)) : (w.set p e).lower = w.lower := rfl
@[simp] theorem written_set (w : World α) (p : Slot) (e : Option (Entry α)) :
    (w.set p e).written = w.written := rfl
@[simp] theorem activated_set (w : World α) (p : Slot) (e : Option (Entry α)) :
    (w.set p e).activated = w.activated := rfl

def wrote (w : World α) (s : JournalState) : World α :=
  { w with journal := some s, written := s :: w.written }

@[simp] theorem entry_wrote (w : World α) (s : JournalState) : (w.wrote s).entry = w.entry := rfl
@[simp] theorem aside_wrote (w : World α) (s : JournalState) : (w.wrote s).aside = w.aside := rfl
@[simp] theorem activated_wrote (w : World α) (s : JournalState) : (w.wrote s).activated = w.activated := rfl
@[simp] theorem recovered_wrote (w : World α) (s : JournalState) : (w.wrote s).recovered = w.recovered := rfl
@[simp] theorem journal_wrote (w : World α) (s : JournalState) : (w.wrote s).journal = some s := rfl
@[simp] theorem lower_wrote (w : World α) (s : JournalState) : (w.wrote s).lower = w.lower := rfl
@[simp] theorem written_wrote (w : World α) (s : JournalState) : (w.wrote s).written = s :: w.written := rfl

def boot (w : World α) : World α := { w with activated := false, recovered := [] }

@[simp] theorem entry_boot (w : World α) : w.boot.entry = w.entry := rfl
@[simp] theorem journal_boot (w : World α) : w.boot.journal = w.journal := rfl
@[simp] theorem written_boot (w : World α) : w.boot.written = w.written := rfl

end World

abbrev Fs (α : Type) : Type → Type := Prog Exc α (World α)

variable {α : Type}

/-! ## Filesystem calls -/

def tryOSError {β : Type} (p : Fs α β) (h : Errno → Fs α β) : Fs α β :=
  Prog.tryExcept p fun
    | .os errno => h errno
    | e => Prog.throw e

def pathExists (p : Slot) : Fs α Bool := Prog.look fun w => (w.entry p).isSome

def isDir (p : Slot) : Fs α Bool := Prog.look fun w =>
  match w.entry p with
  | some (.dir _) | some (.link _) => true
  | _ => false

def isSymlink (p : Slot) : Fs α Bool := Prog.look fun w =>
  match w.entry p with
  | some (.link _) => true
  | _ => false

def mkdir [EmptyCollection α] (p : Slot) : Fs α Unit := Prog.atomic fun w =>
  match w.entry p with
  | none => .ok (w.set p (some (.dir ∅)))
  | some _ => .error (.os .eexist)

/-- `shutil.rmtree`: cut short, it leaves part of the directory. -/
def rmtree (p : Slot) : Fs α Unit := Prog.call
  (fun w =>
    match w.entry p with
    | none => .error (.os .enoent)
    | some (.dir _) => .ok ((), { w.set p none with lower := w.lower && p != .target })
    | some _ => .error (.os .enotdir))
  (fun t w => w.set p (some (.dir t)))

def rmtreeIgnoreErrors (p : Slot) : Fs α Unit := tryOSError (rmtree p) fun _ => pure ()

def unlink (p : Slot) : Fs α Unit := Prog.atomic fun w =>
  match w.entry p with
  | some (.dir _) => .error (.os .eisdir)
  | _ => .ok (w.set p none)

/-- `shutil.copytree(..., symlinks=True)`: cut short, it leaves part of the copy. -/
def copytree (src dst : Slot) : Fs α Unit := Prog.call
  (fun w =>
    match w.entry src, w.entry dst with
    | some (.dir c), none | some (.link c), none => .ok ((), w.set dst (some (.dir c)))
    | some .file, none => .error (.os .enotdir)
    | none, _ => .error (.os .enoent)
    | _, some _ => .error (.os .eexist))
  (fun t w => w.set dst (some (.dir t)))

def replace [DecidableEq α] [EmptyCollection α] (src dst : Slot) : Fs α Unit := Prog.atomic fun w =>
  if src = .target ∧ w.lower = true then .error (.os .exdev) else
    match w.entry src, w.entry dst with
    | none, _ => .error (.os .enoent)
    | some e, none => .ok ((w.set dst (some e)).set src none)
    | some (.dir c), some (.dir d) =>
        if d = ∅ then .ok ((w.set dst (some (.dir c))).set src none) else .error (.os .enotempty)
    | some (.dir _), some _ => .error (.os .enotdir)
    | some _, some (.dir _) => .error (.os .eisdir)
    | some e, some _ => .ok ((w.set dst (some e)).set src none)

def replaceAside : Fs α Unit := Prog.atomic fun w =>
  if w.lower then .error (.os .exdev) else
    match w.entry .target with
    | none => .error (.os .enoent)
    | some e => .ok { w.set .target none with aside := e :: w.aside }

def rmtreeAside : Fs α Unit := tryOSError
  (Prog.call
    (fun w =>
      match w.aside with
      | .dir _ :: rest => .ok ((), { w with aside := rest })
      | _ => .error (.os .enotdir))
    (fun t w => { w with aside := .dir t :: w.aside.tail }))
  fun _ => pure ()

def asideIsDir : Fs α Bool := Prog.look fun w =>
  match w.aside with
  | .dir _ :: _ => true
  | _ => false

def unlinkAside : Fs α Unit := Prog.atomic fun w =>
  match w.aside with
  | .dir _ :: _ => .error (.os .eisdir)
  | _ => .ok { w with aside := w.aside.tail }

def writeJournal (state : JournalState) : Fs α Unit := Prog.atomic fun w => .ok (w.wrote state)

def unlinkJournal : Fs α Unit := Prog.atomic fun w => .ok { w with journal := none }

def readJournal : Fs α (Option JournalState) := Prog.look World.journal

/-! ## Recovery -/

def note (what : String) : Fs α Unit := Prog.modify fun w => { w with recovered := w.recovered ++ [what] }

def discard (p : Slot) : Fs α Unit := do
  if ← pathExists p then rmtreeIgnoreErrors p

def discardDir (p : Slot) : Fs α Unit := do
  if ← isDir p then rmtreeIgnoreErrors p

def removeTarget : Fs α Unit := do
  if ← Prog.both (isDir .target) (not <$> isSymlink .target) then rmtree .target else unlink .target

/-- The branch of `recover_incomplete` for `copying_previous`: the target has not been touched. -/
def discardOverlayCopy : Fs α Unit := do
  discardDir .previousStaging
  discard .previous
  discard .candidate
  unlinkJournal
  note "discarded_incomplete_overlay_copy"

section
variable [DecidableEq α] [EmptyCollection α]

def undoActivation : Fs α Unit := do
  if ← pathExists .target then
    replaceAside
    if ← asideIsDir then rmtreeAside else unlinkAside
  replace .previous .target
  note "rolled_back_uncommitted_activation"

/-- The three ways in which `recover_incomplete` puts the previous release back. -/
def restorePrevious (state : JournalState) : Fs α Unit := do
  if ← Prog.both (pure (state = .replacingOverlayTarget)) (pathExists .previous) then
    if ← pathExists .target then removeTarget
    replace .previous .target
    note "restored_overlay_previous"
  else if ← Prog.both (not <$> pathExists .target) (pathExists .previous) then
    replace .previous .target
    note "restored_previous"
  else if ← Prog.both (pathExists .previous)
      (pure (state ∈ [JournalState.activating, .activated, .rollingBack, .rollbackFailed])) then
    undoActivation

/-- What `recover_incomplete` deletes once the target is in place. -/
def sweep (state : JournalState) : Fs α Unit := do
  if ← Prog.both (pure (state ∈ [JournalState.prepared, .building, .failed])) (pathExists .candidate) then
    rmtree .candidate
    note "removed_candidate"
  if ← Prog.both (pathExists .target) (pathExists .previous) then rmtree .previous
  discard .candidate
  discardDir .previousStaging
  unlinkJournal

def recoverIncomplete : Fs α Unit :=
  tryOSError
    (do match ← readJournal with
        | none => pure ()
        | some .copyingPrevious => discardOverlayCopy
        | some state => do restorePrevious state; sweep state)
    fun _ => pure ()

/-! ## The transaction -/

def prepare : Fs α Unit := do
  recoverIncomplete
  if ← pathExists .candidate then rmtree .candidate
  mkdir .candidate
  writeJournal .prepared

def markBuilding : Fs α Unit := writeJournal .building

def build (e : Entry α) : Fs α Unit := Prog.atomic fun w => .ok (w.set .candidate (some e))

def activateOverlayFallback : Fs α Unit := do
  writeJournal .copyingPrevious
  if ← pathExists .previousStaging then rmtree .previousStaging
  copytree .target .previousStaging
  replace .previousStaging .previous
  writeJournal .replacingOverlayTarget
  rmtree .target
  replace .candidate .target

def swap (targetExisted : Bool) : Fs α Unit := do
  if targetExisted then
    let renamed ← tryOSError (do replace .target .previous; pure true) fun errno => do
      if errno ≠ .exdev then Prog.throw (.os errno)
      activateOverlayFallback
      pure false
    if renamed then replace .candidate .target
  else
    replace .candidate .target
  Prog.modify fun w => { w with activated := true }
  writeJournal .activated

def restoreAfterFailure : Fs α Unit := do
  if ← pathExists .previous then
    if ← pathExists .target then removeTarget
    replace .previous .target
  discardDir .previousStaging
  writeJournal .failed
  Prog.throw (.transaction "failed activating install candidate")

def activate : Fs α Unit := do
  if !(← isDir .candidate) then Prog.throw (.transaction "install candidate does not exist")
  writeJournal .activating
  let targetExisted ← pathExists .target
  tryOSError (swap targetExisted) fun _ => restoreAfterFailure

def rollback : Fs α Bool := do
  writeJournal .rollingBack
  tryOSError
    (do if ← Prog.both (World.activated <$> Prog.get) (pathExists .target) then
          replaceAside
          rmtreeAside
        if ← pathExists .previous then replace .previous .target
        discard .candidate
        Prog.modify fun w => { w with activated := false }
        writeJournal .rolledBack
        unlinkJournal
        pure true)
    fun _ => do
      writeJournal .rollbackFailed
      pure false

def commit (keepPrevious : Bool) : Fs α Unit := do
  writeJournal .committing
  discard .candidate
  discard .previousStaging
  if ← Prog.both (pathExists .previous) (pure !keepPrevious) then rmtree .previous
  writeJournal .committed
  unlinkJournal

def abandon : Fs α Unit := do
  if (← Prog.get).activated then
    let _ ← rollback
  else
    discard .candidate
    discard .previousStaging
    writeJournal .failed
    unlinkJournal

end

end Dumb.Install
