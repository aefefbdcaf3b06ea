import Dumb.Install.Lemmas.Recover

/-!
# The steps of a transaction

What every step from `prepare` to `commit`, `rollback` or `abandon` leaves on disk, wherever the process dies
in it.
-/

namespace Dumb.Install

open Crash Prog

variable {α : Type}

structure Pending (old : α) (w : World α) : Prop where
  restorable : Restorable old w
  uncommitted : JournalState.committing ∉ w.written

/-- The old release is at the target path and the transaction has not touched it. -/
structure Idle (old : α) (w : World α) : Prop where
  restored : Restored old w
  staging : w.entry .previousStaging = none
  inactive : w.activated = false
  uncommitted : JournalState.committing ∉ w.written

structure Activated (old : α) (new : Entry α) (w : World α) : Prop where
  target : w.entry .target = some new
  previous : w.entry .previous = some (.dir old)
  journal : w.journal = some .activated
  movable : w.lower = false
  active : w.activated = true
  uncommitted : JournalState.committing ∉ w.written

/-- What a whole run leaves: the new release if the commit has begun, else the old one within reach. -/
structure Safe (old : α) (new : Entry α) (w : World α) : Prop where
  pending : JournalState.committing ∉ w.written → Restorable old w
  committed : JournalState.committing ∈ w.written → Committed new w

variable {old : α} {new : Entry α} {w : World α}

theorem Pending.safe (h : Pending old w) : Safe old new w :=
  ⟨fun _ => h.restorable, fun hc => absurd hc h.uncommitted⟩

theorem Idle.pending (h : Idle old w) : Pending old w :=
  ⟨h.restored.restorable, h.uncommitted⟩

theorem Idle.setCandidate (h : Idle old w) (e : Option (Entry α)) :
    Idle old (w.set .candidate e) :=
  ⟨h.restored.set (.inl rfl) w e, h.staging, h.inactive, h.uncommitted⟩

variable {s : JournalState}

theorem Idle.wrote (h : Idle old w) (hs : ¬ s.Committing) :
    Idle old (w.wrote s) := by
  refine ⟨⟨h.restored.1, h.restored.2.1, ?_⟩, h.staging, h.inactive, ?_⟩
  · intro s' hs'; cases hs'; exact hs
  · rintro (_ | ⟨_, hmem⟩)
    · exact hs trivial
    · exact h.uncommitted hmem

theorem Fetching.pending (h : Fetching old s w)
    (hu : JournalState.committing ∉ w.written) : Pending old w := ⟨h.restorable, hu⟩

theorem uncommitted_cons {l : List JournalState} (h : JournalState.committing ∉ l)
    (hs : s ≠ .committing) : JournalState.committing ∉ s :: l := by
  simp [h, Ne.symm hs]

variable {R : Exc → World α → Prop}

theorem build_spec (e : Entry α) (h : Idle old w) :
    wp Fate.NoRaise (build e) (fun _ w' => Idle old w' ∧ w'.entry .candidate = some e) R (Pending old) w :=
  wp_atomic (by intro w' hw'; cases hw'; exact ⟨h.setCandidate _, rfl⟩) (by intro e' he'; cases he')
    (fun _ _ h => h.elim) (fun _ => h.pending)

theorem builds_spec : ∀ (es : List (Entry α)) {e : Entry α} {w : World α},
    Idle old w → w.entry .candidate = some e →
      wp Fate.NoRaise (forEach build es)
        (fun _ w' => Idle old w' ∧ w'.entry .candidate = some (es.getLastD e)) R (Pending old) w
  | [], _, _, h, hc => wp_pure ⟨h, hc⟩
  | e :: es, _, _, h, _ => by
      refine wp_bind (wp_mono (build_spec e h) ?_ (fun _ _ h => h) (fun _ h => h))
      rintro _ w' ⟨h', hc'⟩
      rw [List.getLastD_cons]
      exact builds_spec es h' hc'

theorem markBuilding_spec {e : Entry α} (h : Idle old w)
    (hc : w.entry .candidate = some e) :
    wp Fate.NoRaise markBuilding (fun _ w' => Idle old w' ∧ w'.entry .candidate = some e) R (Pending old) w :=
  wp_writeJournal _ ⟨h.wrote id, hc⟩ h.pending

section
variable [DecidableEq α] [EmptyCollection α]

theorem recoverIncomplete_nothing {Q : Unit → World α → Prop} {C : World α → Prop}
    (hj : w.journal = none) (h : Q () w) (hC : C w) :
    wp Fate.NoRaise recoverIncomplete Q R C w := by
  refine wp_tryOSError (wp_bind (wp_look ?_ (fun _ _ h => h.elim) (fun _ => hC)))
  rw [hj]
  exact wp_pure h

theorem prepare_spec (h : Idle old w) (hj : w.journal = none) :
    wp Fate.NoRaise prepare (fun _ w' => Idle old w' ∧ w'.entry .candidate = some (.dir ∅))
      (fun _ => Pending old) (Pending old) w := by
  have rest {w : World α} (h : Idle old w) : wp Fate.NoRaise
      (do mkdir .candidate; writeJournal .prepared)
      (fun _ w' => Idle old w' ∧ w'.entry .candidate = some (.dir ∅)) (fun _ => Pending old) (Pending old) w := by
    refine wp_bind (wp_atomic ?_ (fun _ _ => h.pending) (fun _ _ h => h.elim) (fun _ => h.pending))
    intro w' hw'
    split at hw'
    · cases hw'
      exact wp_writeJournal _ ⟨(h.setCandidate _).wrote id, rfl⟩ (h.setCandidate _).pending
    · cases hw'
  refine wp_bind (recoverIncomplete_nothing hj ?_ h.pending)
  refine wp_bind (wp_pathExists _ ?_ h.pending)
  split
  · exact wp_bind (wp_mono (wp_rmtree (I := Idle old) (by decide) h.setCandidate h)
      (fun _ _ h' => rest h') (fun _ _ h' => h'.2.pending) (fun _ h' => h'.pending))
  · exact rest h

/-! ## The swap -/

/-- The state between the `activating` record and the swap. -/
def Activating (old : α) (new : Entry α) (w : World α) : Prop :=
  Idle old w ∧ w.entry .candidate = some new ∧ w.journal = some .activating

theorem activateOverlayFallback_spec
    (h : Activating old new w) :
    wp Fate.NoRaise activateOverlayFallback
      (fun _ w' => w'.entry .target = some new ∧ w'.entry .previous = some (.dir old) ∧ w'.lower = false ∧
        w'.journal = some .replacingOverlayTarget ∧ JournalState.committing ∉ w'.written) R (Pending old) w := by
  obtain ⟨hi, hc, -⟩ := h
  obtain ⟨ht, hp, -⟩ := hi.restored
  have hu := hi.uncommitted
  refine wp_bind (wp_writeJournal _ ?_ hi.pending)
  have hu₁ : JournalState.committing ∉ .copyingPrevious :: w.written := uncommitted_cons hu (by decide)
  -- Up to the rename of the copy, `copying_previous` stands for an untouched target.
  have copying (w' : World α) (hj : w'.journal = some .copyingPrevious) (ht : w'.entry .target = some (.dir old))
      (hu : w'.written = .copyingPrevious :: w.written) : Pending old w' :=
    ⟨Copying.restorable ⟨hj, ht⟩, by rw [hu]; exact hu₁⟩
  refine wp_bind (wp_pathExists _ ?_ (copying _ rfl ht rfl))
  have hst : (w.wrote .copyingPrevious).entry .previousStaging = none := hi.staging
  simp only [hst, Option.isSome_none, Bool.false_eq_true, ↓reduceIte]
  refine wp_bind (wp_copytree (w := w.wrote .copyingPrevious) ht hst ?_ (fun t => copying _ rfl ht rfl))
  refine wp_bind (wp_replace rfl hp (by intro h; cases h) ?_ (copying _ rfl ht rfl))
  refine wp_bind (wp_writeJournal _ ?_ (copying _ rfl ht rfl))
  have hu₂ : JournalState.committing ∉ .replacingOverlayTarget :: .copyingPrevious :: w.written :=
    uncommitted_cons hu₁ (by decide)
  -- From here on the copy is complete and the target may go.
  have replacing (w' : World α) (hj : w'.journal = some .replacingOverlayTarget)
      (hp : w'.entry .previous = some (.dir old))
      (hu : w'.written = .replacingOverlayTarget :: .copyingPrevious :: w.written) : Pending old w' :=
    Fetching.pending (s := .replacingOverlayTarget) ⟨hj, hp, .inl rfl⟩ (by rw [hu]; exact hu₂)
  refine wp_bind (wp_rmtree_target ht ?_ (fun t => replacing _ rfl rfl rfl))
  exact wp_replace hc rfl (by intro h; cases h) ⟨rfl, rfl, rfl, rfl, hu₂⟩ (replacing _ rfl rfl rfl)

theorem swap_spec
    (h : Activating old new w) :
    wp Fate.NoRaise (swap true) (fun _ => Activated old new) R (Pending old) w := by
  have h' := h
  obtain ⟨hi, hc, hj⟩ := h'
  obtain ⟨ht, hp, -⟩ := hi.restored
  have hu := hi.uncommitted
  -- The last two steps, common to both ways of swapping.
  have finish {w : World α} (ht : w.entry .target = some new) (hp : w.entry .previous = some (.dir old))
      (hl : w.lower = false) (hu : JournalState.committing ∉ w.written) (hpend : Pending old w) :
      wp Fate.NoRaise (do Prog.modify fun w => { w with activated := true }; writeJournal .activated)
        (fun _ => Activated old new) R (Pending old) w :=
    wp_bind (wp_modify (wp_writeJournal _ ⟨ht, hp, rfl, hl, rfl, uncommitted_cons hu (by decide)⟩
      ⟨hpend.restorable, hpend.uncommitted⟩))
  have fetching (w' : World α) (hj : w'.journal = some .activating)
      (hp : w'.entry .previous = some (.dir old)) (hl : w'.lower = false) (hw : w'.written = w.written) :
      Pending old w' :=
    Fetching.pending (s := .activating) ⟨hj, hp, .inr ⟨trivial, hl⟩⟩ (by rw [hw]; exact hu)
  simp only [swap, ↓reduceIte]
  refine wp_bind (wp_tryOSError ?_)
  cases hl : w.lower with
  | false =>
      -- The plain rename path.
      refine wp_bind (wp_replace ht hp (fun _ => hl) (wp_pure ?_) hi.pending)
      simp only [↓reduceIte]
      refine wp_bind (wp_replace hc rfl (by intro h; cases h) ?_ (fetching _ hj rfl hl rfl))
      exact finish rfl rfl hl hu (fetching _ hj rfl hl rfl)
  | true =>
      refine wp_bind (wp_replace_lower hl ?_ hi.pending)
      simp only [ne_eq, not_true_eq_false, ↓reduceIte]
      refine wp_bind (wp_mono (activateOverlayFallback_spec h) ?_ (fun _ _ h => h) (fun _ h => h))
      rintro _ w' ⟨ht', hp', hl', hj', hu'⟩
      exact wp_pure (finish ht' hp' hl' hu'
        (Fetching.pending (s := .replacingOverlayTarget) ⟨hj', hp', .inl rfl⟩ hu'))

theorem activate_spec (h : Idle old w)
    (hc : w.entry .candidate = some new) :
    wp Fate.NoRaise activate (fun _ => Activated old new) (fun _ => Pending old) (Pending old) w := by
  refine wp_bind (wp_isDir _ (fun b => ?_) h.pending)
  cases b with
  | false => exact wp_bind (wp_throw h.pending)
  | true =>
      have ha : Activating old new
          (w.wrote .activating) :=
        ⟨h.wrote id, hc, rfl⟩
      refine wp_bind (wp_writeJournal _ ?_ h.pending)
      refine wp_bind (wp_pathExists _ ?_ ha.1.pending)
      rw [ha.1.restored.target]
      refine wp_tryOSError (wp_mono (swap_spec (R := fun _ _ => False) ha) (fun _ _ h => h)
        (fun _ _ h => h.elim) (fun _ h => h))

end

/-! ## The three ends -/

theorem commit_spec (keepPrevious : Bool) (h : Activated old new w) :
    wp Fate.NoRaise (commit keepPrevious) (fun _ => Safe old new) (fun _ => Safe old new) (Safe old new) w := by
  let I : World α → Prop := fun w => Committed new w ∧ JournalState.committing ∈ w.written
  have safe : ∀ w, I w → Safe old new w := fun w h => ⟨fun hn => absurd h.2 hn, fun _ => h.1⟩
  have hset {p : Slot} (hp : p ≠ .target) : ∀ w e, I w → I (w.set p e) :=
    fun w e h => ⟨h.1.set hp w e, h.2⟩
  have weak {β : Type} {p : Fs α β} {Q : β → World α → Prop} {w : World α}
      (h : wp Fate.NoRaise p Q (fun _ => Safe old new) I w) :
      wp Fate.NoRaise p Q (fun _ => Safe old new) (Safe old new) w :=
    wp_mono h (fun _ _ h => h) (fun _ _ h => h) safe
  have last {w : World α} (h : I w) : wp Fate.NoRaise
      (do writeJournal .committed; unlinkJournal) (fun _ => Safe old new) (fun _ => Safe old new)
      (Safe old new) w := by
    have h' : I (w.wrote .committed) :=
      ⟨⟨h.1.1, fun s hs => by cases hs; trivial⟩, List.mem_cons_of_mem _ h.2⟩
    exact wp_bind (wp_writeJournal _ (wp_unlinkJournal (safe _ ⟨h'.1.unlinkJournal, h'.2⟩) (safe _ h'))
      (safe _ h))
  have hpend : Pending old w := Fetching.pending (s := .activated)
    ⟨h.journal, h.previous, .inr ⟨trivial, h.movable⟩⟩ h.uncommitted
  refine wp_bind (wp_writeJournal _ ?_ hpend.safe)
  have h₀ : I (w.wrote .committing) :=
    ⟨⟨h.target, fun s hs => by cases hs; trivial⟩, List.mem_cons_self⟩
  refine wp_bind (weak (wp_mono (wp_discard (by decide) (hset (by decide)) h₀) ?_ (fun _ _ h => h)
    (fun _ h => h)))
  intro _ w₁ h₁
  refine wp_bind (weak (wp_mono (wp_discard (by decide) (hset (by decide)) h₁) ?_ (fun _ _ h => h)
    (fun _ h => h)))
  intro _ w₂ h₂
  refine wp_bind (wp_both (wp_pathExists _ ⟨fun _ => wp_pure ?_, fun _ => last h₂⟩ (safe _ h₂)))
  split
  · exact wp_bind (weak (wp_mono (wp_rmtree (by decide) (fun e => hset (by decide) _ e h₂) h₂)
      (fun _ _ h => last h) (fun _ _ h => safe _ h.2) (fun _ h => h)))
  · exact last h₂

section
variable [DecidableEq α] [EmptyCollection α]

theorem rollback_spec (h : Activated old new w) :
    wp Fate.NoRaise rollback (fun _ => Pending old) (fun _ => Pending old) (Pending old) w := by
  have hu := uncommitted_cons (s := .rollingBack) h.uncommitted (by decide)
  have fetching (w' : World α) (hj : w'.journal = some .rollingBack)
      (hp : w'.entry .previous = some (.dir old)) (hl : w'.lower = false)
      (hu : JournalState.committing ∉ w'.written) : Pending old w' :=
    Fetching.pending (s := .rollingBack) ⟨hj, hp, .inr ⟨trivial, hl⟩⟩ hu
  refine wp_bind (wp_writeJournal _ ?_ (Fetching.pending (s := .activated)
    ⟨h.journal, h.previous, .inr ⟨trivial, h.movable⟩⟩ h.uncommitted))
  have hpend := fetching (w.wrote .rollingBack) rfl h.previous h.movable hu
  -- The target moves aside, the previous release comes back.
  let Aside : World α → Prop := fun w =>
    w.entry .target = none ∧ w.entry .previous = some (.dir old) ∧ w.journal = some .rollingBack ∧
      w.lower = false ∧ JournalState.committing ∉ w.written
  have hAside : ∀ w, Aside w → Pending old w := fun w h => fetching w h.2.2.1 h.2.1 h.2.2.2.1 h.2.2.2.2
  let Back : World α → Prop := fun w => Restored old w ∧ JournalState.committing ∉ w.written
  have hBack : ∀ w, Back w → Pending old w := fun w h => ⟨h.1.restorable, h.2⟩
  have fin {w : World α} (h : Back w) : wp Fate.NoRaise
      (do discard .candidate
          Prog.modify fun w => { w with activated := false }
          writeJournal .rolledBack
          unlinkJournal
          pure true)
      (fun _ => Pending old) (OnOSError (fun _ => wp Fate.NoRaise (do writeJournal .rollbackFailed; pure false)
        (fun _ => Pending old) (fun _ => Pending old) (Pending old)) fun _ => Pending old) (Pending old) w := by
    refine wp_bind (wp_mono (wp_discard (I := Back) (by decide)
      (fun w e hw => ⟨hw.1.set (.inl rfl) w e, hw.2⟩) h) ?_ (fun _ _ h => h) hBack)
    intro _ w₁ h₁
    refine wp_bind (wp_modify ?_)
    have h₂ : Back { w₁ with activated := false } := ⟨⟨h₁.1.1, h₁.1.2.1, h₁.1.2.2⟩, h₁.2⟩
    refine wp_bind (wp_writeJournal _ ?_ (hBack _ h₂))
    have h₃ : Back (({ w₁ with activated := false } : World α).wrote .rolledBack) :=
      ⟨⟨h₁.1.1, h₁.1.2.1, fun s hs => by cases hs; exact id⟩, uncommitted_cons h₁.2 (by decide)⟩
    exact wp_bind (wp_unlinkJournal (wp_pure (hBack _ ⟨h₃.1.unlinkJournal, h₃.2⟩)) (hBack _ h₃))
  refine wp_tryOSError (wp_bind (wp_both (wp_map (wp_get ⟨fun _ => wp_pathExists _ ?_ hpend, ?_⟩))))
  · have ht : (w.wrote .rollingBack).entry .target = some new := h.target
    simp only [ht, Option.isSome_some, ↓reduceIte]
    refine wp_bind (wp_replaceAside ht h.movable ?_ hpend)
    refine wp_bind (wp_mono (wp_rmtreeAside (I := Aside) (fun _ _ h => h)
      ⟨rfl, h.previous, rfl, h.movable, hu⟩) ?_ (fun _ _ h => h) hAside)
    rintro _ w₁ ⟨ht₁, hp₁, hj₁, hl₁, hu₁⟩
    refine wp_bind (wp_pathExists _ ?_ (hAside _ ⟨ht₁, hp₁, hj₁, hl₁, hu₁⟩))
    simp only [hp₁, Option.isSome_some, ↓reduceIte]
    refine wp_bind (wp_replace hp₁ ht₁ (by intro h; cases h) ?_ (hAside _ ⟨ht₁, hp₁, hj₁, hl₁, hu₁⟩))
    exact fin ⟨Fetching.fetched (s := .rollingBack) ⟨hj₁, hp₁, .inr ⟨trivial, hl₁⟩⟩, hu₁⟩
  · intro hact
    have : w.activated = false := hact
    rw [h.active] at this; cases this

theorem abandon_spec (h : Activated old new w) :
    wp Fate.NoRaise abandon (fun _ => Pending old) (fun _ => Pending old) (Pending old) w := by
  refine wp_bind (wp_get ?_)
  simp only [h.active, ↓reduceIte]
  exact wp_bind (wp_mono (rollback_spec h) (fun _ _ h => wp_pure h) (fun _ _ h => h) (fun _ h => h))

end

end Dumb.Install
