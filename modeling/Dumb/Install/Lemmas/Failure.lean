import Dumb.Install.Lemmas.Run

/-!
# Activation with one failing call

The calls of `activate` in order, the run in which one of them raises, and what `abandon` and `rollback` do
after it.
-/

namespace Dumb.Install

open Crash Prog

variable {α : Type}

inductive Call where
  | isDir (p : Slot)
  | exists (p : Slot)
  | replace (src dst : Slot)
  | copytree (src dst : Slot)
  | rmtree (p : Slot)
  | writeJournal (s : JournalState)
  deriving DecidableEq

def swapCalls : Bool → List Call
  | false => [.replace .target .previous, .replace .candidate .target, .writeJournal .activated]
  | true => [.replace .target .previous, .writeJournal .copyingPrevious, .exists .previousStaging,
      .copytree .target .previousStaging, .replace .previousStaging .previous,
      .writeJournal .replacingOverlayTarget, .rmtree .target, .replace .candidate .target,
      .writeJournal .activated]

def activateCalls (lower : Bool) : List Call :=
  .isDir .candidate :: .writeJournal .activating :: .exists .target :: swapCalls lower

def failAt (i : Nat) (errno : Errno) (t : α) : List (Fate Exc α) :=
  List.replicate i .ok ++ [.raise (.os errno) t]

inductive FollowUp where
  | abandon
  | rollback

structure Ready (old : α) (w : World α) : Prop where
  target : w.entry .target = some (.dir old)
  previous : w.entry .previous = none
  staging : w.entry .previousStaging = none
  candidate : ∃ new, w.entry .candidate = some (.dir new) ∨ w.entry .candidate = some (.link new)
  inactive : w.activated = false

variable {old : α} {w : World α}

theorem Ready.wrote (h : Ready old w) (s : JournalState) : Ready old (w.wrote s) :=
  ⟨h.target, h.previous, h.staging, h.candidate, h.inactive⟩

def Kept (old : α) (w : World α) : Prop :=
  w.entry .target = some (.dir old) ∧ w.entry .previous = none

structure Touched (p : Slot) (w w' : World α) : Prop where
  entry : ∀ q, q ≠ p → w'.entry q = w.entry q
  activated : w'.activated = w.activated
  lower : w.lower = false → w'.lower = false

variable (p : Slot)

theorem Touched.refl (w : World α) : Touched p w w := ⟨fun _ _ => rfl, rfl, id⟩

theorem Touched.set (w : World α) (e : Option (Entry α)) : Touched p w (w.set p e) :=
  ⟨by simp +contextual, rfl, by simp⟩

theorem Touched.setLower (w : World α) (e : Option (Entry α)) (b : Bool) :
    Touched p w { w.set p e with lower := w.lower && b } :=
  ⟨by simp +contextual, rfl, by simp +contextual⟩

/-- The transaction no longer moves anything: the target path holds `e`. -/
structure Settled (e : Option (Entry α)) (w : World α) : Prop where
  target : w.entry .target = e
  previous : w.entry .previous = none
  inactive : w.activated = false

variable {e : Option (Entry α)}

theorem Touched.settled {p : Slot} {w w' : World α} (ht : Touched p w w')
    (hp : p = .candidate ∨ p = .previousStaging) (h : Settled e w) : Settled e w' := by
  rcases hp with rfl | rfl <;>
    exact ⟨(ht.entry _ (by simp)).trans h.target, (ht.entry _ (by simp)).trans h.previous,
      ht.activated.trans h.inactive⟩

theorem discardDir_run (w : World α) :
    ∃ w', discardDir p w [] = .done () w' [] ∧ Touched p w w' := by
  rcases hs : w.entry p with _ | ⟨c⟩ | ⟨c⟩ | _ <;>
    simp [discardDir, rmtreeIgnoreErrors, run_bind, isDir, look, tryOSError, tryExcept, rmtree, hs,
      Touched.refl]
  simpa using Touched.setLower p w none _

theorem discard_run (w : World α) :
    ∃ w', discard p w [] = .done () w' [] ∧ Touched p w w' := by
  rcases hs : w.entry p with _ | ⟨c⟩ | ⟨c⟩ | _ <;>
    simp [discard, rmtreeIgnoreErrors, run_bind, pathExists, look, tryOSError, tryExcept, rmtree, hs,
      Touched.refl]
  simpa using Touched.setLower p w none _

theorem removeTarget_run (w : World α) :
    ∃ w', removeTarget w [] = .done () w' [] ∧ w'.entry .target = none ∧ Touched .target w w' := by
  rcases hs : w.entry .target with _ | ⟨c⟩ | ⟨c⟩ | _ <;>
    simp [removeTarget, run_bind, run_map, both, isDir, isSymlink, look, rmtree, unlink, atomic, Except.map,
      hs, Touched.set]
  simpa using Touched.setLower .target w none false

section
variable [DecidableEq α] [EmptyCollection α]

def FollowUp.run : FollowUp → Fs α Unit
  | .abandon => Install.abandon
  | .rollback => do let _ ← Install.rollback

theorem restoreAfterFailure_run
    (h : Kept old w ∨ w.entry .previous = some (.dir old)) :
    ∃ w' m, restoreAfterFailure w [] = .raised (.transaction m) w' [] ∧ Kept old w' ∧
      w'.activated = w.activated ∧ (w.lower = false → w'.lower = false) := by
  have finish : ∀ w₁ : World α, Kept old w₁ → ∃ w' m,
      (do discardDir .previousStaging; writeJournal .failed
          Prog.throw (.transaction "failed activating install candidate") : Fs α Unit) w₁ [] =
        .raised (.transaction m) w' [] ∧ Kept old w' ∧ w'.activated = w₁.activated ∧
        (w₁.lower = false → w'.lower = false) := by
    intro w₁ h₁
    obtain ⟨w₂, h₂, ht⟩ := discardDir_run .previousStaging w₁
    have hk : Kept old w₂ := ⟨(ht.entry _ (by simp)).trans h₁.1, (ht.entry _ (by simp)).trans h₁.2⟩
    exact ⟨w₂.wrote .failed, _, by simp [run_bind, h₂, writeJournal, atomic, Except.map, Prog.throw]; rfl,
      hk, ht.activated, ht.lower⟩
  rcases h with h | hp
  · obtain ⟨w', m, h'⟩ := finish w h
    refine ⟨w', m, ?_, h'.2⟩
    simpa [restoreAfterFailure, run_bind, pathExists, look, h.2] using h'.1
  · have hput : ∀ w₁ : World α, w₁.entry .target = none → Touched .target w w₁ → ∃ w' m,
        (do replace .previous .target; discardDir .previousStaging; writeJournal .failed
            Prog.throw (.transaction "failed activating install candidate") : Fs α Unit) w₁ [] =
          .raised (.transaction m) w' [] ∧ Kept old w' ∧ w'.activated = w.activated ∧
          (w.lower = false → w'.lower = false) := by
      intro w₁ hn ht
      have hp₁ := (ht.entry .previous (by simp)).trans hp
      obtain ⟨w', m, h', hk, ha, hl⟩ := finish ((w₁.set .target (some (.dir old))).set .previous none)
        ⟨by simp, by simp⟩
      refine ⟨w', m, ?_, hk, ha.trans ht.activated, fun h => hl (ht.lower h)⟩
      simpa [replace, atomic, Except.map, hp₁, hn, run_bind] using h'
    cases ht : w.entry .target with
    | none =>
      obtain ⟨w', m, h', hk⟩ := hput w ht (.refl _ _)
      refine ⟨w', m, ?_, hk⟩
      simpa [restoreAfterFailure, run_bind, pathExists, look, hp, ht] using h'
    | some e =>
      obtain ⟨w₁, h₁, hn, ht₁⟩ := removeTarget_run w
      obtain ⟨w', m, h', hk⟩ := hput w₁ hn ht₁
      refine ⟨w', m, ?_, hk⟩
      simpa [restoreAfterFailure, run_bind, pathExists, look, hp, ht, h₁] using h'

def Stopped (old : α) (c : Call) : Result Exc α (World α) Unit → Prop
  | .done _ _ _ => True
  | .raised e w fs => (∃ errno, e = .os errno) ∧ fs = [] ∧ (Kept old w ∨ w.entry .previous = some (.dir old)) ∧
      (w.activated = true ↔ c = .writeJournal .activated) ∧ (w.activated = true → w.lower = false)
  | .died _ => False

section
attribute [local simp] failAt List.replicate swap activateOverlayFallback run_bind pathExists look writeJournal
  atomic tryOSError tryExcept replace rmtree copytree Prog.throw Except.map World.wrote Prog.modify Stopped Kept

theorem swap_fails_rename (h : Ready old w) (hl : w.lower = false) (i : Nat) {c : Call}
    (hc : (swapCalls false)[i]? = some c) (errno : Errno) (t : α) :
    Stopped old c (swap true w (failAt i errno t)) := by
  obtain ⟨ht, hp, hs, ⟨new, hn⟩, ha⟩ := h
  match i, hc with
  | 0, hc =>
    cases hc
    by_cases he : errno = .exdev
    · rcases hn with hn | hn <;> simp [he, ht, hp, hs, hn, ha, hl]
    · simp [he, ht, hp, ha, hl]
  | 1, hc => cases hc; simp [ht, hp, ha, hl]
  | 2, hc => cases hc; rcases hn with hn | hn <;> simp [ht, hp, hn, hl]
  | i + 3, hc => simp [swapCalls] at hc

theorem swap_fails_overlay (h : Ready old w) (hl : w.lower = true) (i : Nat) {c : Call}
    (hc : (swapCalls true)[i]? = some c) (errno : Errno) (t : α) :
    Stopped old c (swap true w (failAt i errno t)) := by
  obtain ⟨ht, hp, hs, ⟨new, hn⟩, ha⟩ := h
  match i, hc with
  | 0, hc =>
    cases hc
    by_cases he : errno = .exdev
    · rcases hn with hn | hn <;> simp [he, ht, hp, hs, hn, ha, hl]
    · simp [he, ht, hp, ha, hl]
  | 1, hc => cases hc; simp [ht, hp, ha, hl]
  | 2, hc => cases hc; simp [ht, hp, ha, hl]
  | 3, hc => cases hc; simp [ht, hp, hs, ha, hl]
  | 4, hc => cases hc; simp [ht, hp, hs, ha, hl]
  | 5, hc => cases hc; simp [ht, hp, hs, ha, hl]
  | 6, hc => cases hc; simp [ht, hp, hs, ha, hl]
  | 7, hc => cases hc; simp [ht, hp, hs, ha, hl]
  | 8, hc => cases hc; rcases hn with hn | hn <;> simp [ht, hp, hs, hn, ha, hl]
  | i + 9, hc => simp [swapCalls] at hc

end

theorem swap_fails (h : Ready old w) (i : Nat) {c : Call}
    (hc : (swapCalls w.lower)[i]? = some c) (errno : Errno) (t : α) :
    Stopped old c (swap true w (failAt i errno t)) := by
  cases hl : w.lower with
  | false => exact swap_fails_rename h hl i (hl ▸ hc) errno t
  | true => exact swap_fails_overlay h hl i (hl ▸ hc) errno t

/-- How `activate` can end when `c` is the call that raises and the handler meets no error. -/
def Failed (old : α) (c : Call) : Result Exc α (World α) Unit → Prop
  | .done _ _ _ => True
  | .raised _ w _ => Kept old w ∧ (w.activated = true ↔ c = .writeJournal .activated) ∧
      (w.activated = true → w.lower = false)
  | .died _ => False

theorem activate_fails (h : Ready old w) (i : Nat) {c : Call}
    (hc : (activateCalls w.lower)[i]? = some c) (errno : Errno) (t : α) :
    Failed old c (activate w (failAt i errno t)) := by
  have hkept : Kept old w := ⟨h.target, h.previous⟩
  obtain ⟨new, hn⟩ := h.candidate
  match i, hc with
  | 0, hc => cases hc; simp [activate, failAt, run_bind, isDir, look, Failed, hkept, h.inactive]
  | 1, hc =>
    cases hc
    rcases hn with hn | hn <;>
      simp [activate, failAt, run_bind, isDir, look, writeJournal, atomic, Failed, hkept, h.inactive, hn]
  | 2, hc =>
    cases hc
    have hkept' : Kept old (w.wrote .activating) := hkept
    rcases hn with hn | hn <;>
      simp [activate, failAt, run_bind, isDir, pathExists, look, writeJournal, atomic, Except.map, Failed,
        hkept', h.inactive, hn]
  | i + 3, hc =>
    have hrun : activate w (failAt (i + 3) errno t) =
        tryOSError (swap true) (fun _ => restoreAfterFailure) (w.wrote .activating) (failAt i errno t) := by
      rcases hn with hn | hn <;>
        simp [activate, failAt, List.replicate_succ, run_bind, isDir, pathExists, look, writeJournal, atomic,
          Except.map, hn, h.target]
    have hs := swap_fails (h.wrote .activating) i (c := c) hc errno t
    rw [hrun]
    simp only [tryOSError, tryExcept]
    cases hr : swap true (w.wrote .activating) (failAt i errno t) with
    | done a w₁ fs => trivial
    | died w₁ => rw [hr] at hs; exact hs.elim
    | raised e w₁ fs =>
      rw [hr] at hs
      obtain ⟨⟨errno', rfl⟩, rfl, hold, ha, hl⟩ := hs
      obtain ⟨w₂, m, h₂, hk, ha₂, hl₂⟩ := restoreAfterFailure_run hold
      simp only [h₂, Failed]
      exact ⟨hk, by rw [ha₂]; exact ha, fun h => hl₂ (hl (ha₂ ▸ h))⟩

/-! ## What follows a failed activation -/

theorem followUp_settled (h : Settled e w) (f : FollowUp) :
    ∃ w', f.run w [] = .done () w' [] ∧ Settled e w' := by
  cases f with
  | abandon =>
    obtain ⟨w₁, h₁, ht₁⟩ := discard_run .candidate w
    obtain ⟨w₂, h₂, ht₂⟩ := discard_run .previousStaging w₁
    have hw₂ := ht₂.settled (.inr rfl) (ht₁.settled (.inl rfl) h)
    refine ⟨{ w₂.wrote .failed with journal := none }, ?_, hw₂.target, hw₂.previous, hw₂.inactive⟩
    simp [FollowUp.run, abandon, Prog.get, run_bind, h.inactive, h₁, h₂, writeJournal, unlinkJournal, atomic,
      Except.map]
  | rollback =>
    obtain ⟨w₁, h₁, ht₁⟩ := discard_run .candidate (w.wrote .rollingBack)
    have hw₁ := ht₁.settled (.inl rfl) (e := e) ⟨h.target, h.previous, h.inactive⟩
    refine ⟨{ World.wrote { w₁ with activated := false } .rolledBack with journal := none }, ?_, hw₁.target,
      hw₁.previous, rfl⟩
    simp [FollowUp.run, rollback, Prog.get, run_bind, run_map, both, h.previous, h.inactive, h₁, writeJournal,
      unlinkJournal, pathExists, look, tryOSError, tryExcept, Prog.modify, atomic, Except.map]

theorem followUp_activated (h : Kept old w) (ha : w.activated = true)
    (hl : w.lower = false) (f : FollowUp) : ∃ w', f.run w [] = .done () w' [] ∧ Settled none w' := by
  have hroll : ∃ w', rollback w [] = .done true w' [] ∧ Settled none w' := by
    obtain ⟨w₂, h₂, ht₂⟩ := discard_run .candidate ((w.wrote .rollingBack).set .target none)
    have hp₂ : w₂.entry .previous = none := (ht₂.entry _ (by simp)).trans (by simp [h.2])
    refine ⟨{ World.wrote { w₂ with activated := false } .rolledBack with journal := none }, ?_,
      (ht₂.entry _ (by simp)).trans (by simp), hp₂, rfl⟩
    simp [World.set, ha, hl] at h₂
    simp [rollback, Prog.get, run_bind, run_map, both, h.1, h.2, h₂, ha, hl, writeJournal, unlinkJournal,
      replaceAside, rmtreeAside, pathExists, look, tryOSError, tryExcept, Prog.modify, atomic, Except.map,
      World.set]
  obtain ⟨w', h', hs⟩ := hroll
  refine ⟨w', ?_, hs⟩
  cases f with
  | abandon => simp [FollowUp.run, abandon, Prog.get, run_bind, ha, h']
  | rollback => simp [FollowUp.run, run_bind, h']

theorem followUps_settled : ∀ (seq : List FollowUp) {w : World α}, Settled e w →
    ∃ w', forEach FollowUp.run seq w [] = .done () w' [] ∧ Settled e w'
  | [], w, h => ⟨w, rfl, h⟩
  | f :: seq, w, h => by
    obtain ⟨w₁, h₁, hs₁⟩ := followUp_settled h f
    obtain ⟨w₂, h₂, hs₂⟩ := followUps_settled seq hs₁
    exact ⟨w₂, by simp [forEach, run_bind, h₁, h₂], hs₂⟩

end

end Dumb.Install
