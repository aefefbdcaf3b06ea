import Dumb.Install.Lemmas.Calls

/-!
# Recovery of an interrupted transaction

`Restorable old` is what every point of a transaction leaves on disk as long as the commit has not begun;
`Committed new` is what it leaves from then on. Recovery keeps both, and ends with the target they name.
-/

namespace Dumb.Install

open Crash Prog

variable {α : Type}

def JournalState.Swapping : JournalState → Prop
  | .activating | .activated | .rollingBack | .rollbackFailed => True
  | _ => False

def JournalState.Committing : JournalState → Prop
  | .committing | .committed => True
  | _ => False

/-- The old release is at the target path, or the journal tells recovery to fetch it from `previous`. -/
def Restorable (old : α) (w : World α) : Prop :=
  match w.journal with
  | none => w.entry .target = some (.dir old)
  | some s => ¬ s.Committing ∧
      (w.entry .target = some (.dir old) ∧ (w.entry .previous = none ∨ s = .copyingPrevious) ∨
        w.entry .previous = some (.dir old) ∧
          (s = .replacingOverlayTarget ∨ s.Swapping ∧ w.lower = false))

def Committed (new : Entry α) (w : World α) : Prop :=
  w.entry .target = some new ∧ ∀ s, w.journal = some s → s.Committing

def Restored (old : α) (w : World α) : Prop :=
  w.entry .target = some (.dir old) ∧ w.entry .previous = none ∧ ∀ s, w.journal = some s → ¬ s.Committing

variable {old : α} {w : World α}

theorem Restored.restorable (h : Restored old w) : Restorable old w := by
  obtain ⟨ht, hp, hj⟩ := h
  unfold Restorable
  cases hs : w.journal with
  | none => exact ht
  | some s => exact ⟨hj s hs, .inl ⟨ht, .inl hp⟩⟩

theorem Restored.set {p : Slot} (hp : p = .candidate ∨ p = .previousStaging) (w : World α)
    (e : Option (Entry α)) (h : Restored old w) : Restored old (w.set p e) := by
  rcases hp with rfl | rfl <;> simpa [Restored] using h

theorem Restored.recovered (h : Restored old w) (l : List String) :
    Restored old { w with recovered := l } := h

theorem Restored.unlinkJournal (h : Restored old w) :
    Restored old { w with journal := none } := ⟨h.1, h.2.1, fun _ hs => by cases hs⟩

theorem Restored.target (h : Restored old w) :
    w.entry .target = some (.dir old) := h.1

variable {new : Entry α}

theorem Committed.set {p : Slot} (hp : p ≠ .target) (w : World α) (e : Option (Entry α))
    (h : Committed new w) : Committed new (w.set p e) := by
  simpa [Committed, hp.symm] using h

theorem Committed.unlinkJournal (h : Committed new w) :
    Committed new { w with journal := none } := ⟨h.1, fun _ hs => by cases hs⟩

/-- What `discard_incomplete_overlay_copy` relies on: the target is untouched while the copy is made. -/
def Copying (old : α) (w : World α) : Prop :=
  w.journal = some .copyingPrevious ∧ w.entry .target = some (.dir old)

theorem Copying.restorable (h : Copying old w) : Restorable old w := by
  unfold Restorable
  rw [h.1]
  exact ⟨id, .inl ⟨h.2, .inr rfl⟩⟩

theorem Copying.set {p : Slot} (hp : p ≠ .target) (w : World α) (e : Option (Entry α))
    (h : Copying old w) : Copying old (w.set p e) := by
  simpa [Copying, hp.symm] using h

/-- The previous release still has to be fetched: the third and the fourth way out of an interruption. -/
def Fetching (old : α) (s : JournalState) (w : World α) : Prop :=
  w.journal = some s ∧ w.entry .previous = some (.dir old) ∧
    (s = .replacingOverlayTarget ∨ s.Swapping ∧ w.lower = false)

variable {s : JournalState}

theorem Fetching.restorable (h : Fetching old s w) :
    Restorable old w := by
  unfold Restorable
  rw [h.1]
  refine ⟨?_, .inr h.2⟩
  obtain ⟨-, -, rfl | ⟨hs, -⟩⟩ := h
  · exact id
  · cases s <;> first | exact hs.elim | exact id

theorem Fetching.notCommitting (h : Fetching old s w) :
    ¬ s.Committing := by
  have := h.restorable
  unfold Restorable at this
  rw [h.1] at this
  exact this.1

theorem Fetching.fetched (h : Fetching old s w) :
    Restored old ((w.set .target (some (.dir old))).set .previous none) := by
  refine ⟨rfl, rfl, ?_⟩
  intro s' hs'
  simp only [World.journal_set, h.1, Option.some.injEq] at hs'
  subst hs'
  exact h.notCommitting

/-! ## The parts of recover_incomplete -/

variable {R : Exc → World α → Prop}

theorem discardOverlayCopy_spec (h : Copying old w) :
    wp Fate.NoRaise discardOverlayCopy
      (fun _ w' => Restorable old w' ∧ w'.entry .target = some (.dir old)) R (Restorable old) w := by
  have keep {p : Slot} (hp : p ≠ .target) : ∀ w e, Copying old w → Copying old (w.set p e) :=
    fun w e => Copying.set hp w e
  have weak {β : Type} {p : Fs α β} {Q : β → World α → Prop} {w : World α}
      (h : wp Fate.NoRaise p Q R (Copying old) w) : wp Fate.NoRaise p Q R (Restorable old) w :=
    wp_mono h (fun _ _ h => h) (fun _ _ h => h) (fun _ h => h.restorable)
  refine wp_bind (weak (wp_mono (wp_discardDir (by decide) (keep (by decide)) h) ?_ (fun _ _ h => h)
    (fun _ h => h)))
  intro _ w₁ h₁
  refine wp_bind (weak (wp_mono (wp_discard (by decide) (keep (by decide)) h₁) ?_ (fun _ _ h => h)
    (fun _ h => h)))
  intro _ w₂ h₂
  refine wp_bind (weak (wp_mono (wp_discard (by decide) (keep (by decide)) h₂) ?_ (fun _ _ h => h)
    (fun _ h => h)))
  intro _ w₃ h₃
  exact wp_bind (wp_unlinkJournal (wp_note _ ⟨h₃.2, h₃.2⟩) h₃.restorable)

theorem removeTarget_spec
    (h : Fetching old .replacingOverlayTarget w) (ht : (w.entry .target).isSome) :
    wp Fate.NoRaise removeTarget
      (fun _ w' => Fetching old .replacingOverlayTarget w' ∧ w'.entry .target = none) R (Restorable old) w := by
  have keep : ∀ e, Fetching old .replacingOverlayTarget (w.set .target e) := fun e =>
    ⟨h.1, h.2.1, .inl rfl⟩
  cases he : w.entry .target with
  | none => rw [he] at ht; cases ht
  | some e =>
      -- `is_dir()` follows a link, `is_symlink()` tells it from a directory.
      have test (b : Bool) (hb : b = true ↔ ∃ c, e = .dir c)
          (hrest : wp Fate.NoRaise (if b then rmtree .target else unlink .target)
            (fun _ w' => Fetching old .replacingOverlayTarget w' ∧ w'.entry .target = none) R
            (Restorable old) w) :
          wp Fate.NoRaise removeTarget
            (fun _ w' => Fetching old .replacingOverlayTarget w' ∧ w'.entry .target = none) R
            (Restorable old) w := by
        refine wp_bind (wp_both (wp_look ⟨fun _ => ?_, fun hd => ?_⟩ (fun _ _ h => h.elim)
          (fun _ => h.restorable)))
        · refine wp_map (wp_look ?_ (fun _ _ h => h.elim) (fun _ => h.restorable))
          cases e <;> simp_all
        · cases e <;> simp_all
      cases e with
      | dir c =>
          exact test true (by simp) (wp_rmtree_target he ⟨⟨h.1, h.2.1, .inl rfl⟩, rfl⟩
            (fun t => (keep _).restorable))
      | link c =>
          refine test false (by simp) (wp_atomic ?_ ?_ (fun _ _ h => h.elim) (fun _ => h.restorable))
          · intro s' hs; rw [he] at hs; cases hs; exact ⟨keep none, rfl⟩
          · intro e' hs; rw [he] at hs; cases hs
      | file =>
          refine test false (by simp) (wp_atomic ?_ ?_ (fun _ _ h => h.elim) (fun _ => h.restorable))
          · intro s' hs; rw [he] at hs; cases hs; exact ⟨keep none, rfl⟩
          · intro e' hs; rw [he] at hs; cases hs

section
variable [DecidableEq α] [EmptyCollection α]

theorem fetch_spec (m : String)
    (h : Fetching old s w) (ht : w.entry .target = none) :
    wp Fate.NoRaise (do replace .previous .target; note m) (fun _ => Restored old) R (Restorable old) w :=
  wp_bind (wp_replace h.2.1 ht (by intro h; cases h) (wp_note _ (h.fetched.recovered _)) h.restorable)

theorem undoActivation_spec
    (hs : s.Swapping) (h : Fetching old s w) :
    wp Fate.NoRaise undoActivation (fun _ => Restored old) R (Restorable old) w := by
  have hl : w.lower = false := by
    obtain ⟨-, -, rfl | ⟨-, hl⟩⟩ := h
    · exact hs.elim
    · exact hl
  refine wp_bind (wp_pathExists _ ?_ h.restorable)
  cases he : w.entry .target with
  | none => exact fetch_spec _ h he
  | some e =>
      -- The target moves aside first; from then on the free target path is what recovery sees.
      have fetching (l : List (Entry α)) : Fetching old s { w.set .target none with aside := l } :=
        ⟨h.1, h.2.1, .inr ⟨hs, hl⟩⟩
      have keep : ∀ w l, (Fetching old s w ∧ w.entry .target = none) →
          (Fetching old s { w with aside := l } ∧ ({ w with aside := l } : World α).entry .target = none) :=
        fun w l h => h
      refine wp_bind (wp_replaceAside he hl ?_ h.restorable)
      refine wp_bind (wp_look ?_ (fun _ _ h => h.elim) (fun _ => (fetching _).restorable))
      have rest (w' : World α) (h' : Fetching old s w' ∧ w'.entry .target = none) :
          wp Fate.NoRaise (do replace .previous .target; note "rolled_back_uncommitted_activation")
            (fun _ => Restored old) R (Restorable old) w' := fetch_spec _ h'.1 h'.2
      cases e with
      | dir c =>
          exact wp_bind (wp_mono (wp_rmtreeAside keep ⟨fetching _, rfl⟩) (fun _ w' h' => rest w' h')
            (fun _ _ h => h) (fun _ h => h.1.restorable))
      | link c =>
          refine wp_bind (wp_atomic ?_ ?_ (fun _ _ h => h.elim) (fun _ => (fetching _).restorable))
          · intro s' hs; cases hs; exact rest _ ⟨fetching _, rfl⟩
          · intro e' hs; cases hs
      | file =>
          refine wp_bind (wp_atomic ?_ ?_ (fun _ _ h => h.elim) (fun _ => (fetching _).restorable))
          · intro s' hs; cases hs; exact rest _ ⟨fetching _, rfl⟩
          · intro e' hs; cases hs

theorem restorePrevious_skip {C : World α → Prop}
    (ht : (w.entry .target).isSome) (hp : w.entry .previous = none ∨ s.Committing) (hC : C w) :
    wp Fate.NoRaise (restorePrevious s) (fun _ w' => w' = w) R C w := by
  have hexists {Q : Bool → World α → Prop} (p : Slot) (h : Q (w.entry p).isSome w) :
      wp Fate.NoRaise (pathExists p) Q R C w := wp_pathExists p h hC
  refine wp_bind (wp_both (wp_pure ⟨fun hs => hexists _ ?_, fun _ => ?_⟩))
  · -- In the overlay state the copy would have to exist.
    rcases hp with hp | hp
    · simp only [hp, Option.isSome_none, Bool.false_eq_true, ↓reduceIte]
      refine wp_bind (wp_both (wp_map (hexists _ ?_)))
      simp only [ht, Bool.not_true, Bool.false_eq_true, false_implies, forall_const, true_and, ↓reduceIte]
      refine wp_bind (wp_both (hexists _ ?_))
      simp only [hp, Option.isSome_none, Bool.false_eq_true, false_implies, forall_const, true_and,
        ↓reduceIte]
      exact wp_pure rfl
    · simp only [decide_eq_true_eq] at hs
      subst hs
      exact hp.elim
  · simp only [Bool.false_eq_true, ↓reduceIte]
    refine wp_bind (wp_both (wp_map (hexists _ ?_)))
    simp only [ht, Bool.not_true, Bool.false_eq_true, false_implies, forall_const, true_and, ↓reduceIte]
    refine wp_bind (wp_both (hexists _ ⟨fun hx => wp_pure ?_, fun _ => ?_⟩))
    · rcases hp with hp | hp
      · rw [hp] at hx; cases hx
      · have : s ∉ [JournalState.activating, .activated, .rollingBack, .rollbackFailed] := by
          cases s <;> first | exact hp.elim | decide
        simp only [this, decide_false, Bool.false_eq_true, ↓reduceIte]
        exact wp_pure rfl
    · simp only [Bool.false_eq_true, ↓reduceIte]
      exact wp_pure rfl

theorem restorePrevious_spec
    (hs : w.journal = some s) (hne : s ≠ .copyingPrevious) (h : Restorable old w) :
    wp Fate.NoRaise (restorePrevious s) (fun _ => Restored old) R (Restorable old) w := by
  have h' := h
  unfold Restorable at h'
  rw [hs] at h'
  obtain ⟨hc, ⟨ht, hp | rfl⟩ | hf⟩ := h'
  · refine wp_mono (restorePrevious_skip (C := Restorable old) (by simp [ht]) (.inl hp) h) ?_
      (fun _ _ h => h) (fun _ h => h)
    rintro _ w' rfl
    exact ⟨ht, hp, fun s' hs' => by rw [hs] at hs'; cases hs'; exact hc⟩
  · exact absurd rfl hne
  · have hf : Fetching old s w := ⟨hs, hf⟩
    have hprev : (w.entry .previous).isSome := by rw [hf.2.1]; rfl
    have hexists {Q : Bool → World α → Prop} (p : Slot) (hq : Q (w.entry p).isSome w) :
        wp Fate.NoRaise (pathExists p) Q R (Restorable old) w := wp_pathExists p hq h
    refine wp_bind (wp_both (wp_pure ⟨fun ho => hexists _ ?_, fun hno => ?_⟩))
    · -- restored_overlay_previous
      simp only [decide_eq_true_eq] at ho
      subst ho
      simp only [hprev, ↓reduceIte]
      refine wp_bind (hexists _ ?_)
      cases ht : w.entry .target with
      | none => exact fetch_spec _ hf ht
      | some e =>
          exact wp_bind (wp_mono (removeTarget_spec hf (by rw [ht]; rfl))
            (fun _ _ h' => fetch_spec _ h'.1 h'.2) (fun _ _ h => h) (fun _ h => h))
    · simp only [decide_eq_false_iff_not] at hno
      have hswap : s.Swapping := hf.2.2.elim (fun h => absurd h hno) (·.1)
      simp only [Bool.false_eq_true, ↓reduceIte]
      refine wp_bind (wp_both (wp_map (hexists _ ⟨fun htn => hexists _ ?_, fun hts => ?_⟩)))
      · -- restored_previous
        simp only [hprev, ↓reduceIte]
        exact fetch_spec _ hf (by simpa using htn)
      · -- rolled_back_uncommitted_activation
        simp only [Bool.false_eq_true, ↓reduceIte]
        refine wp_bind (wp_both (hexists _ ⟨fun _ => wp_pure ?_, fun hn => ?_⟩))
        · have hmem : s ∈ [JournalState.activating, .activated, .rollingBack, .rollbackFailed] := by
            cases s <;> first | exact hswap.elim | decide
          simp only [hmem, decide_true, ↓reduceIte]
          exact undoActivation_spec hswap hf
        · rw [hprev] at hn; cases hn

end

theorem sweep_spec {I : World α → Prop}
    (hset : ∀ w p e, (p = .candidate ∨ p = .previousStaging) → I w → I (w.set p e))
    (hprev : ∀ w e, (w.entry .previous).isSome → I w → I (w.set .previous e))
    (hmem : ∀ (w : World α) l, I w → I { w with recovered := l })
    (hj : ∀ w : World α, I w → I { w with journal := none }) (hw : I w) :
    wp Fate.NoRaise (sweep s) (fun _ => I) (fun e w' => (∃ errno, e = .os errno) ∧ I w') I w := by
  have tail {w : World α} (hw : I w) : wp Fate.NoRaise
      (do discard .candidate; discardDir .previousStaging; unlinkJournal) (fun _ => I)
      (fun e w' => (∃ errno, e = .os errno) ∧ I w') I w := by
    refine wp_bind (wp_mono (wp_discard (by decide) (fun w e => hset w _ e (.inl rfl)) hw) ?_
      (fun _ _ h => h) (fun _ h => h))
    intro _ w₁ h₁
    refine wp_bind (wp_mono (wp_discardDir (by decide) (fun w e => hset w _ e (.inr rfl)) h₁) ?_
      (fun _ _ h => h) (fun _ h => h))
    intro _ w₂ h₂
    exact wp_unlinkJournal (hj _ h₂) h₂
  have middle {w : World α} (hw : I w) : wp Fate.NoRaise
      (do if ← both (pathExists .target) (pathExists .previous) then rmtree .previous
          discard .candidate; discardDir .previousStaging; unlinkJournal) (fun _ => I)
      (fun e w' => (∃ errno, e = .os errno) ∧ I w') I w := by
    refine wp_bind (wp_both (wp_pathExists _ ⟨fun _ => wp_pathExists _ ?_ hw, fun _ => ?_⟩ hw))
    · split
      · rename_i hsome
        exact wp_bind (wp_mono (wp_rmtree (by decide) (fun e => hprev w e hsome hw) hw)
          (fun _ _ h => tail h) (fun _ _ h => h) (fun _ h => h))
      · exact tail hw
    · exact tail hw
  refine wp_bind (wp_both (wp_pure ⟨fun _ => wp_pathExists _ ?_ hw, fun _ => ?_⟩))
  · split
    · exact wp_bind (wp_mono (wp_rmtree (by decide) (fun e => hset w _ e (.inl rfl) hw) hw)
        (fun _ _ h => wp_bind (wp_note _ (middle (hmem _ _ h)))) (fun _ _ h => h) (fun _ h => h))
    · exact middle hw
  · exact middle hw

section
variable [DecidableEq α] [EmptyCollection α]

theorem recoverIncomplete_spec (h : Restorable old w) :
    wp Fate.NoRaise recoverIncomplete
      (fun _ w' => Restorable old w' ∧ w'.entry .target = some (.dir old)) R (Restorable old) w := by
  refine wp_tryOSError (wp_bind (wp_look ?_ (fun _ _ h => h.elim) (fun _ => h)))
  cases hs : w.journal with
  | none =>
      have ht : w.entry .target = some (.dir old) := by
        unfold Restorable at h; rwa [hs] at h
      exact wp_pure ⟨h, ht⟩
  | some s =>
      by_cases hcopy : s = .copyingPrevious
      · subst hcopy
        refine discardOverlayCopy_spec ⟨hs, ?_⟩
        unfold Restorable at h
        rw [hs] at h
        obtain ⟨-, ⟨ht, -⟩ | ⟨-, hd | hd⟩⟩ := h
        · exact ht
        · cases hd
        · exact hd.1.elim
      · have hrest : wp Fate.NoRaise (do restorePrevious s; sweep s)
            (fun _ w' => Restorable old w' ∧ w'.entry .target = some (.dir old))
            (OnOSError (fun _ => wp Fate.NoRaise (pure () : Fs α Unit)
              (fun _ w' => Restorable old w' ∧ w'.entry .target = some (.dir old)) R (Restorable old)) R)
            (Restorable old) w := by
          refine wp_bind (wp_mono (restorePrevious_spec hs hcopy h) ?_ (fun _ _ h => h) (fun _ h => h))
          intro _ w₁ h₁
          refine wp_mono (sweep_spec (I := Restored old) (fun w p e hp => Restored.set hp w e) ?_
            (fun _ _ h => h.recovered _) (fun _ h => h.unlinkJournal) h₁)
            (fun _ _ h => ⟨h.restorable, h.target⟩) ?_ (fun _ h => h.restorable)
          · intro w e hsome hw
            rw [hw.2.1] at hsome; cases hsome
          · rintro e w' ⟨⟨errno, rfl⟩, h'⟩
            rw [onOSError_os]
            exact wp_pure ⟨h'.restorable, h'.target⟩
        cases s <;> first | exact absurd rfl hcopy | exact hrest

theorem recoverIncomplete_committed
    (h : Committed new w) :
    wp Fate.NoRaise recoverIncomplete (fun _ => Committed new) R (Committed new) w := by
  refine wp_tryOSError (wp_bind (wp_look ?_ (fun _ _ h => h.elim) (fun _ => h)))
  cases hs : w.journal with
  | none => exact wp_pure h
  | some s =>
      have hc : s.Committing := h.2 s hs
      have hrest : wp Fate.NoRaise (do restorePrevious s; sweep s) (fun _ => Committed new)
          (OnOSError (fun _ => wp Fate.NoRaise (pure () : Fs α Unit) (fun _ => Committed new) R (Committed new)) R)
          (Committed new) w := by
        refine wp_bind (wp_mono (restorePrevious_skip (C := Committed new) (by simp [h.1]) (.inr hc) h) ?_
          (fun _ _ h => h) (fun _ h => h))
        rintro _ w₁ rfl
        refine wp_mono (sweep_spec (I := Committed new) ?_ (fun w e _ => Committed.set (by decide) w e)
          (fun _ _ h => h) (fun _ h => h.unlinkJournal) h) (fun _ _ h => h) ?_ (fun _ h => h)
        · rintro w p e (rfl | rfl) <;> exact Committed.set (by decide) w e
        · rintro e w' ⟨⟨errno, rfl⟩, h'⟩
          rw [onOSError_os]
          exact wp_pure h'
      cases s <;> first | exact hc.elim | exact hrest

end

end Dumb.Install
