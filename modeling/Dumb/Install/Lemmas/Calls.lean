import Dumb.Install.Release

/-!
# What each call of the release transaction does

One rule for each filesystem call, for runs in which the process may die but no call raises by itself.
-/

namespace Dumb.Install

open Crash Prog

variable {α β : Type} {Q : β → World α → Prop} {R : Exc → World α → Prop} {C : World α → Prop} {w : World α}

/-- An `OSError` leads on to `P`, everything else ends in `R`. -/
def OnOSError (P : Errno → World α → Prop) (R : Exc → World α → Prop) : Exc → World α → Prop
  | .os errno, w => P errno w
  | .transaction m, w => R (.transaction m) w

theorem onOSError_os (P : Errno → World α → Prop) (R : Exc → World α → Prop) (errno : Errno) (w : World α) :
    OnOSError P R (.os errno) w = P errno w := rfl

variable {A : Fate Exc α → Prop}

theorem wp_tryOSError {p : Fs α β} {h : Errno → Fs α β}
    (hp : wp A p Q (OnOSError (fun errno => wp A (h errno) Q R C) R) C w) : wp A (tryOSError p h) Q R C w := by
  refine wp_tryExcept (wp_mono hp (fun _ _ h => h) ?_ (fun _ h => h))
  intro e w' he
  cases e with
  | os errno => exact he
  | transaction m => exact wp_throw he

variable {I : World α → Prop}

theorem wp_ignoreErrors {p : Fs α Unit}
    (hp : wp A p (fun _ => I) (fun e w' => (∃ errno, e = .os errno) ∧ I w') C w) :
    wp A (tryOSError p fun _ => pure ()) (fun _ => I) R C w := by
  refine wp_tryOSError (wp_mono hp (fun _ _ h => h) ?_ (fun _ h => h))
  rintro e w' ⟨⟨errno, rfl⟩, h⟩
  rw [onOSError_os]
  exact wp_pure h

theorem wp_pathExists {Q : Bool → World α → Prop} (p : Slot) (h : Q (w.entry p).isSome w) (hC : C w) :
    wp Fate.NoRaise (pathExists p) Q R C w := wp_look h (fun _ _ h => h.elim) (fun _ => hC)

theorem wp_isDir {Q : Bool → World α → Prop} (p : Slot) (h : ∀ b, Q b w) (hC : C w) :
    wp Fate.NoRaise (isDir p) Q R C w := wp_look (h _) (fun _ _ h => h.elim) (fun _ => hC)

theorem wp_writeJournal {Q : Unit → World α → Prop} (s : JournalState)
    (h : Q () (w.wrote s)) (hC : C w) :
    wp Fate.NoRaise (writeJournal s) Q R C w :=
  wp_atomic (by intro s' hs; cases hs; exact h) (by intro e he; cases he) (fun _ _ h => h.elim) (fun _ => hC)

theorem wp_unlinkJournal {Q : Unit → World α → Prop} (h : Q () { w with journal := none }) (hC : C w) :
    wp Fate.NoRaise (unlinkJournal : Fs α Unit) Q R C w :=
  wp_atomic (by intro s' hs; cases hs; exact h) (by intro e he; cases he) (fun _ _ h => h.elim) (fun _ => hC)

theorem wp_note {Q : Unit → World α → Prop} (m : String)
    (h : Q () { w with recovered := w.recovered ++ [m] }) : wp A (note m) Q R C w := wp_modify h

variable {p : Slot}

theorem rmtree_effect (hp : p ≠ .target) :
    ({ w.set p none with lower := w.lower && p != .target } : World α) = w.set p none := by
  simp [World.set, hp]

theorem wp_rmtree (hp : p ≠ .target)
    (hI : ∀ e, I (w.set p e)) (hw : I w) :
    wp Fate.NoRaise (rmtree p) (fun _ => I) (fun e w' => (∃ errno, e = .os errno) ∧ I w') I w := by
  refine wp_call ?_ ?_ (fun _ _ h => h.elim) (fun t _ => hI _)
  · intro a s' h
    split at h
    · cases h
    · cases h; rw [rmtree_effect hp]; exact hI none
    · cases h
  · intro e h
    split at h
    · cases h; exact ⟨⟨_, rfl⟩, hw⟩
    · cases h
    · cases h; exact ⟨⟨_, rfl⟩, hw⟩

theorem wp_rmtree_target {Q : Unit → World α → Prop} {c : α} (hd : w.entry .target = some (.dir c))
    (h : Q () { w.set .target none with lower := false }) (hC : ∀ t, C (w.set .target (some (.dir t)))) :
    wp Fate.NoRaise (rmtree .target) Q R C w := by
  refine wp_call ?_ ?_ (fun _ _ h => h.elim) (fun t _ => hC t)
  · intro a s' hs
    rw [hd] at hs; cases hs
    simpa using h
  · intro e he
    rw [hd] at he; cases he

theorem wp_copytree {Q : Unit → World α → Prop} {src dst : Slot} {c : α} (hsrc : w.entry src = some (.dir c))
    (hdst : w.entry dst = none) (h : Q () (w.set dst (some (.dir c))))
    (hC : ∀ t, C (w.set dst (some (.dir t)))) : wp Fate.NoRaise (copytree src dst) Q R C w := by
  refine wp_call ?_ ?_ (fun _ _ h => h.elim) (fun t _ => hC t)
  · intro a s' hs
    simp only [hsrc, hdst, Except.ok.injEq, Prod.mk.injEq] at hs
    obtain ⟨-, rfl⟩ := hs
    exact h
  · intro e he
    simp [hsrc, hdst] at he

theorem wp_discard (hp : p ≠ .target) (hI : ∀ w e, I w → I (w.set p e))
    (hw : I w) : wp Fate.NoRaise (discard p) (fun _ => I) R I w := by
  refine wp_bind (wp_pathExists p ?_ hw)
  split
  · exact wp_ignoreErrors (wp_rmtree hp (fun e => hI w e hw) hw)
  · exact wp_pure hw

theorem wp_discardDir (hp : p ≠ .target)
    (hI : ∀ w e, I w → I (w.set p e)) (hw : I w) : wp Fate.NoRaise (discardDir p) (fun _ => I) R I w := by
  refine wp_bind (wp_isDir p ?_ hw)
  intro b
  split
  · exact wp_ignoreErrors (wp_rmtree hp (fun e => hI w e hw) hw)
  · exact wp_pure hw

section
variable [DecidableEq α] [EmptyCollection α]

theorem wp_replace {Q : Unit → World α → Prop} {src dst : Slot} {e : Entry α}
    (hsrc : w.entry src = some e) (hdst : w.entry dst = none) (hl : src = .target → w.lower = false)
    (h : Q () ((w.set dst (some e)).set src none)) (hC : C w) :
    wp Fate.NoRaise (replace src dst) Q R C w := by
  have hnl : ¬ (src = .target ∧ w.lower = true) := by
    rintro ⟨h₁, h₂⟩; rw [hl h₁] at h₂; cases h₂
  refine wp_atomic ?_ ?_ (fun _ _ h => h.elim) (fun _ => hC)
  · intro s' hs
    simp only [hnl, ↓reduceIte, hsrc, hdst, Except.ok.injEq] at hs
    subst hs; exact h
  · intro er he
    simp [hnl, hsrc, hdst] at he

theorem wp_replace_lower {Q : Unit → World α → Prop} {dst : Slot} (hl : w.lower = true)
    (h : R (.os .exdev) w) (hC : C w) : wp Fate.NoRaise (replace .target dst) Q R C w := by
  refine wp_atomic ?_ ?_ (fun _ _ h => h.elim) (fun _ => hC)
  · intro s' hs; simp [hl] at hs
  · intro er he
    simp only [hl, and_self, ↓reduceIte, Except.error.injEq] at he
    subst he; exact h

end

theorem wp_replaceAside {Q : Unit → World α → Prop} {e : Entry α} (ht : w.entry .target = some e)
    (hl : w.lower = false) (h : Q () { w.set .target none with aside := e :: w.aside }) (hC : C w) :
    wp Fate.NoRaise (replaceAside : Fs α Unit) Q R C w := by
  refine wp_atomic ?_ ?_ (fun _ _ h => h.elim) (fun _ => hC)
  · intro s' hs
    simp only [hl, Bool.false_eq_true, ↓reduceIte, ht, Except.ok.injEq] at hs
    subst hs; exact h
  · intro er he
    simp [hl, ht] at he

theorem wp_rmtreeAside (hI : ∀ w l, I w → I { w with aside := l }) (hw : I w) :
    wp Fate.NoRaise (rmtreeAside : Fs α Unit) (fun _ => I) R I w := by
  refine wp_ignoreErrors (wp_call ?_ ?_ (fun _ _ h => h.elim) (fun t _ => hI _ _ hw))
  · intro a s' h
    split at h
    · cases h; exact hI _ _ hw
    · cases h
  · intro e h
    split at h
    · cases h
    · cases h; exact ⟨⟨_, rfl⟩, hw⟩

end Dumb.Install
