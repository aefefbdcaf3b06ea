import Mathlib.Data.List.Basic
import Dumb.Lib.Crash

/-!
# The swap of the runtime

`_atomic_replace_runtime` of `utils/mediastorm_installer.py` and, with the same text, of `utils/aiostreams_installer.py`. Every
rename and every removal may raise or be the last call of the process; what runs ready is left to the caller.
-/

namespace Dumb.Mediastorm

open Crash

abbrev Tree := List (String × List UInt8)

inductive Entry where
  | absent
  | file
  | link (target : Option Tree)
  | dir (tree : Tree)
  deriving DecidableEq

namespace Entry

def exists_ : Entry → Bool
  | .absent => false
  | .link target => target.isSome
  | _ => true

def isSymlink : Entry → Bool
  | .link _ => true
  | _ => false

def tree? : Entry → Option Tree
  | .link target => target
  | .dir tree => some tree
  | _ => none

def mayReplace : Entry → Entry → Bool
  | .absent, _ => false
  | _, .absent => true
  | .dir _, .dir tree => tree.isEmpty
  | .dir _, _ => false
  | _, .dir _ => false
  | _, _ => true

end Entry

inductive Slot where
  | runtime
  | backup
  | staged
  deriving DecidableEq

abbrev World := Slot → Entry

def World.set (w : World) (slot : Slot) (entry : Entry) : World := fun s => if s = slot then entry else w s

@[simp] theorem World.set_self (w : World) (slot : Slot) (entry : Entry) : w.set slot entry slot = entry := if_pos rfl

@[simp] theorem World.set_other (w : World) {slot other : Slot} (entry : Entry) (h : other ≠ slot) :
    w.set slot entry other = w other := if_neg h

abbrev Keep := String → Bool

abbrev Prog := Crash.Prog Unit Keep World

abbrev Fates := List (Fate Unit Keep)

def Entry.torn (keep : Keep) : Entry → Entry
  | .dir tree => .dir (tree.filter fun f => keep f.1)
  | entry => entry

def removeExisting (slot : Slot) : Prog Unit := do
  let w ← Prog.get
  match w slot with
  | .absent => pure ()
  | _ => Prog.call (fun w => .ok ((), w.set slot .absent)) fun keep w => w.set slot ((w slot).torn keep)

def osReplace (source target : Slot) : Prog Unit :=
  Prog.atomic fun w =>
    if (w source).mayReplace (w target) then .ok ((w.set target (w source)).set source .absent) else .error ()

def found (entry : Entry) : Bool := entry.exists_ || entry.isSymlink

def dropBackup : Prog Unit := do
  let w ← Prog.get
  if found (w .backup) then removeExisting .backup else pure ()

def putBack (hadRuntime : Bool) : Prog Unit := do
  let w ← Prog.get
  if hadRuntime && (w .backup).exists_ && !(w .runtime).exists_ then osReplace .backup .runtime else pure ()

def install (hadRuntime : Bool) : Prog Unit :=
  Prog.tryExcept (osReplace .staged .runtime) fun e => do
    putBack hadRuntime
    Prog.throw e

def atomicReplaceRuntime : Prog Unit := do
  dropBackup
  let w ← Prog.get
  let hadRuntime := found (w .runtime)
  if hadRuntime then osReplace .runtime .backup else pure ()
  install hadRuntime
  dropBackup

/-! ## Sequences of calls -/

structure Call where
  staged : Tree
  fates : Fates

def swap (c : Call) (w : World) : Result Unit Keep World Unit := atomicReplaceRuntime (w.set .staged (.dir c.staged)) c.fates

def after (w : World) (calls : List Call) : World := calls.foldl (fun w c => (swap c w).state) w

section

variable (ready : Tree → Prop)

def Complete (entry : Entry) : Prop := ∃ tree, entry.tree? = some tree ∧ ready tree

def Kept (w : World) : Prop := Complete ready (w .runtime) ∨ Complete ready (w .backup)

def NeverLost (w : World) (calls : List Call) : Prop :=
  ∀ earlier more rest, calls = earlier ++ more ++ rest → Kept ready (after w earlier) → Kept ready (after w (earlier ++ more))

def RaisesSafely (w : World) (calls : List Call) : Prop :=
  ∀ earlier more c rest, calls = earlier ++ more ++ c :: rest → Kept ready (after w earlier) →
    ∀ e w' fates, swap c (after w (earlier ++ more)) = .raised e w' fates → Complete ready (w' .runtime)

def Starts (w : World) : Prop := Complete ready (w .backup) → Complete ready (w .runtime)

end

def raisesTwice : Fates → Bool
  | .raise _ _ :: .raise _ _ :: _ => true
  | _ :: fates => raisesTwice fates
  | [] => false

/-! ## The steps of the swap

How each step may end, and from them one call.
-/

theorem raisesTwice_tail {fates : Fates} (h : raisesTwice fates = false) : raisesTwice fates.tail = false := by
  cases fates with
  | nil => rfl
  | cons f rest =>
    cases f with
    | ok => exact h
    | die keep => exact h
    | raise e keep =>
      cases rest with
      | nil => rfl
      | cons g rest => cases g <;> simp_all [raisesTwice]

variable {entry : Entry}

theorem found_iff : found entry = true ↔ entry ≠ .absent := by
  cases entry <;> simp [found, Entry.exists_, Entry.isSymlink]

theorem mayReplace_absent (h : entry ≠ .absent) : entry.mayReplace .absent = true := by
  cases entry <;> simp_all [Entry.mayReplace]

theorem Complete.exists_ {ready : Tree → Prop} (h : Complete ready entry) : entry.exists_ = true := by
  obtain ⟨tree, htree, -⟩ := h
  cases entry <;> simp_all [Entry.exists_, Entry.tree?]

theorem Complete.ne_absent {ready : Tree → Prop} (h : Complete ready entry) : entry ≠ .absent := by
  rintro rfl
  exact absurd h.exists_ (by simp [Entry.exists_])

variable {w : World} {fates : Fates}

/-! ## The steps -/

theorem dropBackup_call (hbackup : w .backup ≠ .absent) (fates : Fates) :
    dropBackup w fates = Prog.call (fun w => .ok ((), w.set .backup .absent))
      (fun keep w => w.set .backup ((w .backup).torn keep)) w fates := by
  rw [dropBackup, Prog.run_bind]
  simp only [Prog.get, if_pos (found_iff.2 hbackup)]
  rw [removeExisting, Prog.run_bind]
  simp only [Prog.get]

theorem dropBackup_cases (w : World) (fates : Fates) :
    (∃ rest, dropBackup w fates = .done () (w.set .backup .absent) rest ∧
      (raisesTwice fates = false → raisesTwice rest = false)) ∨
      (∃ e entry rest, dropBackup w fates = .raised e (w.set .backup entry) rest) ∨
      ∃ entry, dropBackup w fates = .died (w.set .backup entry) := by
  by_cases hbackup : w .backup = .absent
  · refine .inl ⟨fates, ?_, id⟩
    have hsame : w.set .backup .absent = w := by
      funext s
      by_cases hs : s = .backup
      · rw [hs, World.set_self, hbackup]
      · exact World.set_other w _ hs
    rw [hsame, dropBackup, Prog.run_bind]
    simp [Prog.get, hbackup, found, Entry.exists_, Entry.isSymlink]
  · rw [dropBackup_call hbackup]
    rcases Prog.call_cases (fun w : World => .ok ((), w.set .backup .absent))
      (fun keep w => w.set .backup ((w .backup).torn keep)) (s := w) rfl fates with
      hdone | ⟨e, keep, rest, -, hraised⟩ | ⟨keep, hdied⟩
    · exact .inl ⟨_, hdone, raisesTwice_tail⟩
    · exact .inr (.inl ⟨e, _, rest, hraised⟩)
    · exact .inr (.inr ⟨_, hdied⟩)

theorem osReplace_cases {source target : Slot} (hsource : w source ≠ .absent) (htarget : w target = .absent)
    (fates : Fates) :
    osReplace source target w fates = .done () ((w.set target (w source)).set source .absent) fates.tail ∨
      (∃ e keep rest, fates = .raise e keep :: rest ∧ osReplace source target w fates = .raised e w rest) ∨
      osReplace source target w fates = .died w := by
  have hmay : (if (w source).mayReplace (w target) then .ok ((w.set target (w source)).set source .absent) else .error () :
      Except Unit World) = .ok ((w.set target (w source)).set source .absent) := by
    rw [htarget, if_pos (mayReplace_absent hsource)]
  exact Prog.atomic_cases _ hmay fates

theorem install_cases (hstaged : w .staged ≠ .absent) (hruntime : w .runtime = .absent) (hadRuntime : Bool)
    (hbackup : hadRuntime = true → (w .backup).exists_ = true) (fates : Fates) :
    (∃ w' rest, install hadRuntime w fates = .done () w' rest ∧ w' .runtime = w .staged) ∨
      (∃ e w' rest, install hadRuntime w fates = .raised e w' rest ∧
        ((hadRuntime = true → w' .runtime = w .backup) ∨ raisesTwice fates = true ∧ w' .backup = w .backup)) ∨
      ∃ w', install hadRuntime w fates = .died w' ∧ w' .backup = w .backup := by
  rw [install, Prog.tryExcept]
  rcases osReplace_cases hstaged hruntime fates with hdone | ⟨e, keep, rest, hfates, hraised⟩ | hdied
  · rw [hdone]
    exact .inl ⟨_, _, rfl, by simp⟩
  · rw [hraised]
    dsimp only
    rw [Prog.run_bind, putBack, Prog.run_bind]
    simp only [Prog.get]
    cases hadRuntime with
    | false => exact .inr (.inl ⟨e, w, rest, rfl, .inl (by simp)⟩)
    | true =>
      have hexists := hbackup rfl
      have hne : w .backup ≠ .absent := by
        intro h
        rw [h] at hexists
        simp [Entry.exists_] at hexists
      have hcondition : (true && (w .backup).exists_ && !(w .runtime).exists_) = true := by
        rw [hexists, hruntime]
        rfl
      rw [if_pos hcondition]
      rcases osReplace_cases hne hruntime rest with hdone | ⟨e', keep', rest', hrest, hraised'⟩ | hdied
      · rw [hdone]
        exact .inr (.inl ⟨e, _, _, rfl, .inl fun _ => by simp⟩)
      · rw [hraised']
        refine .inr (.inl ⟨e', w, rest', rfl, .inr ⟨?_, rfl⟩⟩)
        rw [hfates, hrest]
        rfl
      · rw [hdied]
        exact .inr (.inr ⟨w, rfl, rfl⟩)
  · rw [hdied]
    exact .inr (.inr ⟨w, rfl, rfl⟩)

variable {ready : Tree → Prop} {c : Call}

theorem install_keeps (tree : Tree) (hstaged : w .staged = .dir tree) (htree : ready tree) (hruntime : w .runtime = .absent)
    (hbackup : Complete ready (w .backup)) (fates : Fates) :
    Kept ready ((install true >>= fun _ => dropBackup) w fates).state ∧
      ∀ e w' rest, (install true >>= fun _ => dropBackup) w fates = .raised e w' rest → raisesTwice fates = false →
        Complete ready (w' .runtime) := by
  have hnew : Complete ready (w .staged) := ⟨tree, by rw [hstaged]; rfl, htree⟩
  rw [Prog.run_bind]
  rcases install_cases hnew.ne_absent hruntime true (fun _ => hbackup.exists_) fates with
    ⟨w', rest, hdone, hw'⟩ | ⟨e, w', rest, hraised, hw'⟩ | ⟨w', hdied, hw'⟩
  · rw [hdone]
    dsimp only
    have hleft : ∀ entry, Complete ready ((w'.set .backup entry) .runtime) := by
      intro entry
      rw [World.set_other _ _ (by simp), hw']
      exact hnew
    rcases dropBackup_cases w' rest with ⟨rest', hdrop, -⟩ | ⟨e, entry, rest', hdrop⟩ | ⟨entry, hdrop⟩
    · rw [hdrop]
      refine ⟨.inl (hleft _), ?_⟩
      rintro e w'' rest'' ⟨⟩
    · rw [hdrop]
      refine ⟨.inl (hleft _), ?_⟩
      rintro e w'' rest'' ⟨⟩ -
      exact hleft entry
    · rw [hdrop]
      refine ⟨.inl (hleft _), ?_⟩
      rintro e w'' rest'' ⟨⟩
  · rw [hraised]
    dsimp only
    rcases hw' with hback | ⟨htwice, hback⟩
    · have hcomplete : Complete ready (w' .runtime) := by rwa [hback rfl]
      refine ⟨.inl hcomplete, ?_⟩
      rintro e' w'' rest'' ⟨⟩ -
      exact hcomplete
    · refine ⟨.inr (by rw [← hback] at hbackup; exact hbackup), ?_⟩
      rintro e' w'' rest'' ⟨⟩ hnot
      rw [htwice] at hnot
      cases hnot
  · rw [hdied]
    refine ⟨.inr (by rw [← hw'] at hbackup; exact hbackup), ?_⟩
    rintro e' w'' rest'' ⟨⟩

theorem swap_keeps (hc : ready c.staged) (hw : Complete ready (w .runtime)) :
    Kept ready (swap c w).state ∧
      ∀ e w' rest, swap c w = .raised e w' rest → raisesTwice c.fates = false → Complete ready (w' .runtime) := by
  have hstart : ∀ entry, ((w.set .staged (.dir c.staged)).set .backup entry) .runtime = w .runtime := fun entry => by simp
  rw [swap, atomicReplaceRuntime, Prog.run_bind]
  rcases dropBackup_cases (w.set .staged (.dir c.staged)) c.fates with
    ⟨rest, hdone, htwice⟩ | ⟨e, entry, rest, hraised⟩ | ⟨entry, hdied⟩
  · rw [hdone]
    dsimp only
    rw [Prog.run_bind]
    simp only [Prog.get, hstart, if_pos (found_iff.2 hw.ne_absent)]
    rw [found_iff.2 hw.ne_absent, Prog.run_bind]
    have hsource : ((w.set .staged (.dir c.staged)).set .backup .absent) .runtime ≠ .absent := by
      rw [hstart]
      exact hw.ne_absent
    rcases osReplace_cases hsource (World.set_self _ _ _) rest with hmoved | ⟨e, keep, rest', -, hraised⟩ | hdied
    · rw [hmoved]
      dsimp only
      have h := install_keeps (w := (((w.set .staged (.dir c.staged)).set .backup .absent).set .backup (w .runtime)).set
        .runtime .absent) c.staged (by simp) hc (by simp) (by simpa using hw) rest.tail
      rw [hstart]
      exact ⟨h.1, fun e w' rest' hr htwo => h.2 e w' rest' hr (raisesTwice_tail (htwice htwo))⟩
    · rw [hraised]
      have hruntime : Complete ready (((w.set .staged (.dir c.staged)).set .backup .absent) .runtime) := by rwa [hstart]
      refine ⟨.inl hruntime, ?_⟩
      rintro e' w' rest'' ⟨⟩ -
      exact hruntime
    · rw [hdied]
      refine ⟨.inl (show Complete ready (((w.set .staged (.dir c.staged)).set .backup .absent) .runtime) by rwa [hstart]), ?_⟩
      rintro e' w' rest'' ⟨⟩
  · rw [hraised]
    dsimp only
    have hruntime : Complete ready (((w.set .staged (.dir c.staged)).set .backup entry) .runtime) := by rwa [hstart]
    refine ⟨.inl hruntime, ?_⟩
    rintro e' w' rest' ⟨⟩ -
    exact hruntime
  · rw [hdied]
    have hruntime : Complete ready (((w.set .staged (.dir c.staged)).set .backup entry) .runtime) := by rwa [hstart]
    refine ⟨.inl hruntime, ?_⟩
    rintro e' w' rest' ⟨⟩

end Dumb.Mediastorm
