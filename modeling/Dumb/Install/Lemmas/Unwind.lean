import Dumb.Install.Lemmas.Deferred

/-!
# What a run of deferred clears leaves behind

When all rollbacks succeed, every path has in the end what was found there when a clear first concerned it. By
induction on the steps of the run, from the first clear on, since it is undone last.
-/

namespace Dumb.Install.Deferred

open Py Tree

variable {γ : Type} {t : Transaction}

/-! ## A write -/

variable {fs : Files γ}

theorem write_closed (hclosed : Closed fs) (p : Path) (node : Node γ) : Closed (write p node fs) := by
  unfold write
  split
  · exact hclosed
  rename_i hp
  simp only [Bool.or_eq_true, decide_eq_true_eq, not_or, Bool.not_eq_true, List.any_eq_false, List.mem_inits] at hp
  obtain ⟨hne, hdirs⟩ := hp
  have hleaf : ∀ q, q <+: p.dropLast → leaf fs q = none := fun q hq => by simpa using hdirs q hq
  split
  · rename_i hnone
    apply hclosed.mkdirs
    intro q hq
    by_cases heq : q = p
    · exact leaf_eq_none.2 (.inl (heq ▸ hnone))
    · exact hleaf q ((Clear.prefix_dropLast hne).2 ⟨hq, heq⟩)
  · exact hclosed
  · exact hclosed
  · rename_i hnodir _ _
    apply (hclosed.mkdirs hleaf).set hne
    · intro q hq hq'
      have hpre := (Clear.prefix_dropLast hne).2 hq
      rw [get?_mkdirs]
      rcases leaf_eq_none.1 (hleaf q hpre) with h | h <;> simp [h, hq', hpre]
    · have hpre : ¬ p <+: p.dropLast := fun h => ((Clear.prefix_dropLast hne).1 h).2 rfl
      rw [get?_mkdirs]
      simpa [hpre] using hnodir

theorem leaf_mkdirs (p q : Path) : leaf (mkdirs p fs) q = leaf fs q := by
  by_cases h : fs.get? q = none ∧ q ≠ [] ∧ q <+: p
  · rw [leaf_eq_none.2 (.inl h.1), leaf_eq_none, get?_mkdirs, if_pos h]
    exact .inr rfl
  · apply leaf_congr
    rw [get?_mkdirs, if_neg h]

theorem leaf_write {p q : Path} (node : Node γ) (h : q ≠ p) : leaf (write p node fs) q = leaf fs q := by
  unfold write
  split
  · rfl
  split
  · exact leaf_mkdirs p q
  · rfl
  · rfl
  · rw [leaf_congr (Dict.get?_set_ne h ..), leaf_mkdirs]

theorem write_new {p q : Path} (node : Node γ) (h : (write p node fs).get? q ≠ none) :
    fs.get? q ≠ none ∨ q <+: p := by
  have hmk : ∀ r, r <+: p → (mkdirs r fs).get? q ≠ none → fs.get? q ≠ none ∨ q <+: p := by
    intro r hr hq
    rw [get?_mkdirs] at hq
    split at hq
    · rename_i hnew
      exact .inr (hnew.2.2.trans hr)
    · exact .inl hq
  unfold write at h
  split at h
  · exact .inl h
  split at h
  · exact hmk p (List.prefix_refl p) h
  · exact .inl h
  · exact .inl h
  · by_cases heq : q = p
    · exact .inr (heq ▸ List.prefix_refl q)
    · rw [Dict.get?_set_ne heq] at h
      exact hmk _ (List.dropLast_prefix p) h

/-! ## A run -/

def Step.captures (s : Run γ) : Step γ → Option Transaction
  | .write .. => none
  | .clear call =>
    if (capture call.capture (call.transaction s.files) s.files).1 then some (call.transaction s.files) else none

def Step.writes : Step γ → Option Path
  | .write p _ => some p
  | .clear _ => none

def Ever (P : Transaction → Files γ → Path → Prop) : List (Step γ) → Run γ → Prop
  | [], _ => True
  | step :: steps, s =>
    (∀ t, step.captures s = some t → ∀ later ∈ steps, ∀ p, later.writes = some p → P t s.files p) ∧
      Ever P steps (step.run s)

def Unguessed (steps : List (Step γ)) (s : Run γ) : Prop := Ever (fun t _ p => ¬ t.backup <+: p) steps s

/-- Nothing excluded is written below the place of a file or link that was moved. -/
def Plain (steps : List (Step γ)) (s : Run γ) : Prop :=
  Ever (fun t fs p => ∀ q, t.Concerns q → leaf fs q ≠ none → Below q p →
    covers t.excluded (p.drop t.target.length) = false) steps s

def found : List (Step γ) → Run γ → Path → Option (Node γ)
  | [], s, p => leaf s.files p
  | step :: steps, s, p =>
    match step.captures s with
    | some t => if t.Concerns p ∨ t.backup <+: p then leaf s.files p else found steps (step.run s) p
    | none => found steps (step.run s) p

/-- All rollbacks succeed and leave `fs`. -/
def Unwinds : List (Step γ) → Run γ → Files γ → Prop
  | [], s, fs => fs = s.files
  | .write p node :: steps, s, fs => Unwinds steps (Step.run s (.write p node)) fs
  | .clear call :: steps, s, fs =>
    match capture call.capture (call.transaction s.files) s.files with
    | (true, t, _) => ∃ t' fs', Unwinds steps (Step.run s (.clear call)) fs' ∧ rollback call.undo t fs' = (true, t', fs)
    | (false, t, now) => (rollback call.abort t now).1 = true ∧ Unwinds steps (Step.run s (.clear call)) fs

variable {step : Step γ} {steps : List (Step γ)} {s : Run γ}

theorem run_quiet (hclosed : Closed s.files)
    (h : Unwinds (step :: steps) s fs) (hnone : step.captures s = none) :
    Unwinds steps (step.run s) fs ∧ Closed (step.run s).files ∧
      (∀ q, step.writes ≠ some q → leaf (step.run s).files q = leaf s.files q) ∧
      ∀ q, (step.run s).files.get? q ≠ none → s.files.get? q ≠ none ∨ ∃ p, step.writes = some p ∧ q <+: p := by
  cases step with
  | write p node =>
    refine ⟨h, write_closed hclosed p node, fun q hq => leaf_write node ?_, fun q hq => ?_⟩
    · rintro rfl
      exact hq rfl
    · exact (write_new node hq).imp_right fun hp => ⟨p, rfl, hp⟩
  | clear call =>
    simp only [Step.captures] at hnone
    cases hcap : capture call.capture (call.transaction s.files) s.files with
    | mk ok rest =>
      obtain ⟨t, now⟩ := rest
      cases ok with
      | true => simp [hcap] at hnone
      | false =>
        simp only [Unwinds, hcap] at h
        cases hroll : rollback call.abort t now with
        | mk restored rest =>
          obtain ⟨t', fs'⟩ := rest
          have hrun : (Step.run s (.clear call)).files = fs' := by simp [Step.run, clearDirectory, hcap, hroll]
          rw [hroll] at h
          obtain ⟨hok, h⟩ := h
          dsimp only at hok
          subst hok
          have hun := abort_unharmed hclosed rfl hcap hroll
          rw [hrun]
          exact ⟨h, hun.closed, fun q _ => hun.leaf q, fun q hq => .inl (hun.old q hq)⟩

theorem run_captures
    (hclosed : Closed s.files) (h : Unwinds (step :: steps) s fs) (hsome : step.captures s = some t) :
    Moved t s.files (step.run s).files ∧ ∃ calls t' fs', Unwinds steps (step.run s) fs' ∧
      rollback calls { t with captured := true, captureComplete := true } fs' = (true, t', fs) := by
  cases step with
  | write p node => cases hsome
  | clear call =>
    simp only [Step.captures] at hsome
    cases hcap : capture call.capture (call.transaction s.files) s.files with
    | mk ok rest =>
      obtain ⟨t', now⟩ := rest
      cases ok with
      | false => simp [hcap] at hsome
      | true =>
        rw [hcap] at hsome
        cases hsome
        obtain ⟨rfl, hmoved⟩ := capture_ok hclosed hcap
        have hrun : (Step.run s (.clear call)).files = now := by simp [Step.run, clearDirectory, hcap]
        simp only [Unwinds, hcap] at h
        obtain ⟨t', fs', h, hroll⟩ := h
        exact ⟨hrun ▸ hmoved, call.undo, t', fs', h, hroll⟩

theorem found_unwritten {fs : Files γ} {p : Path} : ∀ {steps : List (Step γ)} {s : Run γ}, Closed s.files →
    Unwinds steps s fs → (∀ step ∈ steps, step.writes ≠ some p) → found steps s p = leaf s.files p
  | [], _, _, _, _ => rfl
  | step :: steps, s, hclosed, h, hp => by
    have hrest : ∀ later ∈ steps, later.writes ≠ some p := fun later hl => hp later (List.mem_cons_of_mem _ hl)
    unfold found
    cases hcap : step.captures s with
    | none =>
      obtain ⟨h', hclosed', hleaf, -⟩ := run_quiet hclosed h hcap
      exact (found_unwritten hclosed' h' hrest).trans (hleaf p (hp step List.mem_cons_self))
    | some t =>
      obtain ⟨hmoved, -, -, fs', h', -⟩ := run_captures hclosed h hcap
      dsimp only
      split
      · rfl
      · rename_i hnot
        rw [not_or] at hnot
        rw [found_unwritten hmoved.closed h' hrest]
        exact leaf_congr (hmoved.kept p hnot.1 hnot.2)

theorem Ever.tail {P : Transaction → Files γ → Path → Prop}
    (h : Ever P (step :: steps) s) : Ever P steps (step.run s) := h.2

theorem nothing_below_leaf (hclosed : Closed fs) {p q : Path} (hp : leaf fs p ≠ none)
    (hpq : Below p q) : fs.get? q = none := by
  obtain ⟨node, hnode⟩ := Option.ne_none_iff_exists'.1 hp
  obtain ⟨hget, hd⟩ := leaf_eq_some.1 hnode
  have hroot : p ≠ [] := by
    rintro rfl
    rw [hclosed.root] at hget
    cases hget
  by_contra hq
  rw [hclosed.parent p q hpq.1 hpq.2 hroot hq] at hget
  exact hd (Option.some.inj hget).symm

theorem fitting_later {fs now fs' : Files γ} (hclosed : Closed fs) (hmoved : Moved t fs now)
    (hback : ∀ r, fs'.get? (t.backup ++ r) ≠ none → now.get? (t.backup ++ r) ≠ none)
    (hleaf : ∀ r, leaf fs' (t.backup ++ r) = leaf now (t.backup ++ r))
    (hout : ∀ r q, t.Concerns (t.target ++ r) → leaf fs (t.target ++ r) ≠ none → Below r q →
      covers t.excluded q = true → now.get? (t.target ++ q) = none → fs'.get? (t.target ++ q) = none) :
    Fitting t fs' := by
  have hne := target_ne hclosed hmoved.root
  refine ⟨fun r hr hx => ?_, fun r q hr hl hrq hcov => ?_⟩
  · obtain ⟨node, hnode⟩ := Option.ne_none_iff_exists'.1 (hback r hx)
    exact (concerns_append.1 (hmoved.held r node hr hnode).1).2
  · rw [hleaf] at hl
    obtain ⟨node, hnode⟩ := Option.ne_none_iff_exists'.1 hl
    have hcon := (hmoved.held r node hr (leaf_eq_some.1 hnode).1).1
    rw [hmoved.moved r hcon] at hl
    apply hout r q hcon hl hrq hcov
    have hq : q ≠ [] := by
      rintro rfl
      exact hr (List.prefix_nil.1 hrq.1)
    have hnot : ¬ t.Concerns (t.target ++ q) := by
      intro hc
      rw [(concerns_append.1 hc).2] at hcov
      cases hcov
    rw [hmoved.kept _ hnot (not_backup_of_below hne (below_append.2 hq))]
    have hbelow : Below (t.target ++ r) (t.target ++ q) :=
      ⟨(List.prefix_append_right_inj _).2 hrq.1, by simpa using hrq.2⟩
    exact nothing_below_leaf hclosed hl hbelow

theorem unwinds_found {fs : Files γ} : ∀ {steps : List (Step γ)} {s : Run γ}, Closed s.files → Unguessed steps s →
    Plain steps s → Unwinds steps s fs → Closed fs ∧ (∀ p, leaf fs p = found steps s p) ∧
      ∀ q, fs.get? q ≠ none → s.files.get? q ≠ none ∨ ∃ step ∈ steps, ∃ p, step.writes = some p ∧ q <+: p
  | [], s, hclosed, _, _, h => by
    have heq : fs = s.files := h
    subst heq
    exact ⟨hclosed, fun _ => rfl, fun q hq => .inl hq⟩
  | step :: steps, s, hclosed, hfresh, hplain, h => by
    have hlater : ∀ {q : Path}, (∃ later ∈ steps, ∃ p, later.writes = some p ∧ q <+: p) →
        ∃ later ∈ step :: steps, ∃ p, later.writes = some p ∧ q <+: p := by
      rintro q ⟨later, hl, hp⟩
      exact ⟨later, List.mem_cons_of_mem _ hl, hp⟩
    cases hcap : step.captures s with
    | none =>
      obtain ⟨h', hclosed', -, hold⟩ := run_quiet hclosed h hcap
      obtain ⟨hfs, hleaf, hnew⟩ := unwinds_found hclosed' hfresh.tail hplain.tail h'
      refine ⟨hfs, fun p => ?_, fun q hq => ?_⟩
      · rw [found, hcap, hleaf]
      · rcases hnew q hq with hq | hq
        · exact (hold q hq).imp_right fun ⟨p, hp⟩ => ⟨step, List.mem_cons_self, p, hp⟩
        · exact .inr (hlater hq)
    | some t =>
      obtain ⟨hmoved, calls, t', fs', h', hroll⟩ := run_captures hclosed h hcap
      obtain ⟨hfs', hleaf, hnew⟩ := unwinds_found hmoved.closed hfresh.tail hplain.tail h'
      have hfree : ∀ later ∈ steps, ∀ p, later.writes = some p → ¬ t.backup <+: p := hfresh.1 t hcap
      have hne := target_ne hclosed hmoved.root
      have hback : ∀ r, fs'.get? (t.backup ++ r) ≠ none → (step.run s).files.get? (t.backup ++ r) ≠ none := by
        intro r hr
        rcases hnew _ hr with hr | ⟨later, hl, p, hp, hpre⟩
        · exact hr
        · exact absurd ((List.prefix_append _ r).trans hpre) (hfree later hl p hp)
      have hsame : ∀ r, leaf fs' (t.backup ++ r) = leaf (step.run s).files (t.backup ++ r) := by
        intro r
        rw [hleaf]
        apply found_unwritten hmoved.closed h'
        exact fun later hl hw => hfree later hl _ hw (List.prefix_append _ r)
      have hfit : Fitting t fs' := by
        apply fitting_later hclosed hmoved hback hsame
        intro r q hcon hl hrq hcov hnone
        by_contra hq
        rcases hnew _ hq with hq | ⟨later, hlt, p, hp, hpre⟩
        · exact hq hnone
        · have hbelow : Below (t.target ++ r) (t.target ++ q) :=
            ⟨(List.prefix_append_right_inj _).2 hrq.1, by simpa using hrq.2⟩
          have hfalse := hplain.1 t hcap later hlt p hp (t.target ++ r) hcon hl (hbelow.trans_prefix hpre)
          obtain ⟨u, rfl⟩ := hpre
          rw [List.append_assoc, List.drop_left, covers_mono (List.prefix_append q u) hcov] at hfalse
          cases hfalse
      have hres : Restored t fs' fs := by
        have hr := rollback_restored (t := { t with captured := true, captureComplete := true }) hfs' hne rfl rfl
          ⟨hfit.held, hfit.clear⟩ hroll
        exact ⟨hr.closed, hr.concerned, hr.other, hr.removed, hr.new⟩
      refine ⟨hres.closed, fun p => ?_, fun q hq => ?_⟩
      · rw [found, hcap]
        dsimp only
        split
        · rename_i hor
          rcases hor with hcon | hb
          · obtain ⟨r, hr, rfl⟩ := hcon.1.exists
            rw [hres.concerned r hcon]
            exact (hsame r).trans (hmoved.moved r hcon)
          · rw [leaf_eq_none.2 (.inl (hres.removed p hb)),
              leaf_eq_none.2 (.inl (nothing_below hclosed hmoved.fresh backup_ne_nil hb))]
        · rename_i hnot
          rw [not_or] at hnot
          rw [hres.other p hnot.1 hnot.2, hleaf]
      · have hb : ¬ t.backup <+: q := fun hb => hq (hres.removed q hb)
        rcases hres.new q hq with hq | ⟨hpre, hroot⟩ | ⟨r, hr, rfl, hx⟩
        · rcases hnew q hq with hq | hq
          · rcases hmoved.gone q hb with hg | hg
            · exact absurd hg hq
            · exact .inl (hg ▸ hq)
          · exact .inr (hlater hq)
        · left
          by_cases heq : q = t.target
          · simp [heq, hmoved.root]
          · rw [hclosed.parent q t.target hpre heq hroot (by simp [hmoved.root])]
            simp
        · left
          obtain ⟨node, hnode⟩ := Option.ne_none_iff_exists'.1 (hback r hx)
          simp [(hmoved.held r node hr hnode).2]

/-! ## The end of a run -/

theorem rollbackAll_cons {fs fs' : Files γ} {ts : List Transaction} {calls : RollbackCalls γ}
    {rest : List (Transaction × RollbackCalls γ)} (h : rollbackAll ((t, calls) :: rest) fs = (true, ts, fs')) :
    ∃ t' mid ts', rollback calls t fs = (true, t', mid) ∧ rollbackAll rest mid = (true, ts', fs') := by
  rw [rollbackAll] at h
  split at h
  · rename_i t' mid hroll
    dsimp only at h
    cases hrest : rollbackAll rest mid with
    | mk ok r =>
      rw [hrest] at h
      simp only [Prod.mk.injEq] at h
      obtain ⟨rfl, -, h⟩ := h
      exact ⟨t', mid, r.1, hroll, by rw [hrest, ← h]⟩
  · cases h

theorem rollbackAll_append {fs' : Files γ} {later : List (Transaction × RollbackCalls γ)} :
    ∀ {first : List (Transaction × RollbackCalls γ)} {fs : Files γ} {ts : List Transaction},
      rollbackAll (first ++ later) fs = (true, ts, fs') →
      ∃ ts₁ ts₂ mid, rollbackAll first fs = (true, ts₁, mid) ∧ rollbackAll later mid = (true, ts₂, fs')
  | [], fs, ts, h => ⟨[], ts, fs, rfl, h⟩
  | (t, calls) :: first, fs, ts, h => by
    obtain ⟨t', mid, ts', hroll, hrest⟩ := rollbackAll_cons h
    obtain ⟨ts₁, ts₂, mid', h₁, h₂⟩ := rollbackAll_append hrest
    exact ⟨t' :: ts₁, ts₂, mid', by simp [rollbackAll, hroll, h₁], h₂⟩

theorem runSteps_cons (step : Step γ) (steps : List (Step γ)) (s : Run γ) :
    runSteps (step :: steps) s = runSteps steps (step.run s) := rfl

theorem sound_of_step (h : (step.run s).sound = true) : s.sound = true := by
  cases step with
  | write p node => exact h
  | clear call =>
    simp only [Step.run, clearDirectory] at h
    split at h
    · exact h
    · exact (Bool.and_eq_true_iff.1 h).1

theorem sound_of_run : ∀ (steps : List (Step γ)) {s : Run γ}, (runSteps steps s).sound = true → s.sound = true
  | [], _, h => h
  | _ :: steps, _, h => sound_of_step (sound_of_run steps h)

theorem captured_of_capture {calls : CaptureCalls γ} {t' : Transaction} {fs fs' : Files γ}
    (h : capture calls t fs = (true, t', fs')) : t'.captured = true := by
  unfold capture at h
  split at h
  · cases h
  split at h
  · cases h
  · simp only [Prod.mk.injEq] at h
    rw [← h.2.1]

theorem unwinds_of_run : ∀ (steps : List (Step γ)) {s : Run γ}, (runSteps steps s).sound = true →
    ∃ new, (runSteps steps s).transactions = s.transactions ++ new ∧
      ∀ ts fs, rollbackAll new.reverse (runSteps steps s).files = (true, ts, fs) → Unwinds steps s fs
  | [], s, _ => by
    refine ⟨[], by simp [runSteps], fun ts fs h => ?_⟩
    simp only [List.reverse_nil, rollbackAll, Prod.mk.injEq] at h
    exact h.2.2.symm
  | .write p node :: steps, s, h => unwinds_of_run steps h
  | .clear call :: steps, s, h => by
    obtain ⟨new, hnew, hall⟩ := unwinds_of_run steps h
    rw [← runSteps_cons] at hnew hall
    have hsound := sound_of_run steps h
    cases hcap : capture call.capture (call.transaction s.files) s.files with
    | mk ok rest =>
      obtain ⟨t, now⟩ := rest
      have hrun : Step.run s (.clear call) = (clearDirectory call s).2 := rfl
      cases ok with
      | true =>
        simp only [clearDirectory, hcap] at hrun
        refine ⟨(t, call.undo) :: new, by rw [hnew, hrun, List.append_assoc]; rfl, fun ts fs hroll => ?_⟩
        rw [List.reverse_cons] at hroll
        obtain ⟨ts₁, ts₂, mid, h₁, h₂⟩ := rollbackAll_append hroll
        obtain ⟨t', fs', ts', ht, hrest⟩ := rollbackAll_cons h₂
        simp only [rollbackAll, Prod.mk.injEq] at hrest
        obtain ⟨-, -, rfl⟩ := hrest
        simp only [Unwinds, hcap]
        exact ⟨t', mid, hall ts₁ mid h₁, ht⟩
      | false =>
        simp only [clearDirectory, hcap] at hrun
        rw [hrun] at hsound
        refine ⟨new, by rw [hnew, hrun], fun ts fs hroll => ?_⟩
        simp only [Unwinds, hcap]
        exact ⟨(Bool.and_eq_true_iff.1 hsound).2, hall ts fs hroll⟩

theorem captured_of_run : ∀ (steps : List (Step γ)) {s : Run γ}, (∀ t ∈ s.transactions, t.1.captured = true) →
    ∀ t ∈ (runSteps steps s).transactions, t.1.captured = true
  | [], _, h => h
  | .write _ _ :: steps, s, h => captured_of_run steps h
  | .clear call :: steps, s, h => by
    apply captured_of_run steps
    simp only [Step.run, clearDirectory]
    cases hcap : capture call.capture (call.transaction s.files) s.files with
    | mk ok rest =>
      obtain ⟨t, now⟩ := rest
      cases ok with
      | false => exact h
      | true =>
        intro t' ht'
        rcases List.mem_append.1 ht' with ht' | ht'
        · exact h t' ht'
        · rw [List.mem_singleton.1 ht']
          exact captured_of_capture hcap

/-! ## Rollbacks that fail -/

def attemptAll : List (Transaction × RollbackCalls γ) → Files γ → List Bool × Files γ
  | [], fs => ([], fs)
  | (t, calls) :: rest, fs =>
    let (ok, _, fs) := rollback calls t fs
    let (oks, fs) := attemptAll rest fs
    (ok :: oks, fs)

theorem rollback_failed {calls : RollbackCalls γ} {fs fs' : Files γ} {t' : Transaction}
    (h : rollback calls t fs = (false, t', fs')) : t' = t := by
  unfold rollback at h
  split at h
  · cases h
  dsimp only at h
  generalize (if t.captureComplete = true then clearTarget calls t fs else (true, fs)) = cleared at h
  split at h
  · cases h
    rfl
  split at h
  · cases h
    rfl
  split at h
  · cases h
    rfl
  · cases h

theorem rolledBack_iff : ∀ (ts : List (Transaction × RollbackCalls γ)) {fs : Files γ},
    (∀ t ∈ ts, t.1.captured = true) →
    ((∀ k : Nat, (attemptAll ts fs).1[k]? = some true →
        ∃ t : Transaction, (rollbackAll ts fs).2.1[k]? = some t ∧ t.captured = false) ↔
      (attemptAll ts fs).1.Pairwise fun first later => later = true → first = true)
  | [], fs, _ => by simp [attemptAll]
  | (t, calls) :: ts, fs, hcap => by
    have hcap' : ∀ t ∈ ts, t.1.captured = true := fun t' ht' => hcap t' (List.mem_cons_of_mem _ ht')
    cases hroll : rollback calls t fs with
    | mk ok rest =>
      obtain ⟨t', fs'⟩ := rest
      have ih := @rolledBack_iff ts fs' hcap'
      simp only [attemptAll, hroll, rollbackAll]
      cases ok with
      | true =>
        have hdone : t'.captured = false := by
          rw [(rollback_ok (hcap _ List.mem_cons_self) hroll).1]
        rw [List.pairwise_cons, ← ih]
        constructor
        · intro h
          exact ⟨fun _ _ _ => rfl, fun k hk => h (k + 1) hk⟩
        · intro h k hk
          cases k with
          | zero => exact ⟨t', rfl, hdone⟩
          | succ k => exact h.2 k hk
      | false =>
        obtain rfl := rollback_failed hroll
        have hlate : ∀ k : Nat, ¬ ∃ t'' : Transaction, (ts.map (·.1))[k]? = some t'' ∧ t''.captured = false := by
          rintro k ⟨t'', hk, hc⟩
          obtain ⟨t, ht, rfl⟩ := List.mem_map.1 (List.mem_of_getElem? hk)
          rw [hcap' t ht] at hc
          cases hc
        rw [List.pairwise_cons]
        constructor
        · intro h
          have hnone : ∀ ok ∈ (attemptAll ts fs').1, ok = false := by
            intro ok hok
            obtain ⟨k, hk⟩ := List.mem_iff_getElem?.1 hok
            cases ok with
            | false => rfl
            | true => exact absurd (h (k + 1) hk) (hlate k)
          refine ⟨fun ok hok htrue => ?_, List.pairwise_of_forall_mem_list fun a ha b hb htrue => ?_⟩
          · rw [hnone ok hok] at htrue
            cases htrue
          · rw [hnone b hb] at htrue
            cases htrue
        · intro h k hk
          cases k with
          | zero => cases hk
          | succ k => exact absurd (h.1 true (List.mem_of_getElem? hk) rfl) (by simp)

theorem rollbackAll_of_attempts : ∀ {ts : List (Transaction × RollbackCalls γ)} {fs : Files γ},
    (∀ ok ∈ (attemptAll ts fs).1, ok = true) → ∃ ts', rollbackAll ts fs = (true, ts', (attemptAll ts fs).2)
  | [], fs, _ => ⟨[], rfl⟩
  | (t, calls) :: ts, fs, h => by
    cases hroll : rollback calls t fs with
    | mk ok rest =>
      obtain ⟨t', fs'⟩ := rest
      simp only [attemptAll, hroll] at h ⊢
      obtain rfl : ok = true := h ok List.mem_cons_self
      obtain ⟨ts', hts⟩ := rollbackAll_of_attempts fun b hb => h b (List.mem_cons_of_mem _ hb)
      exact ⟨t' :: ts', by simp [rollbackAll, hroll, hts]⟩

end Dumb.Install.Deferred
