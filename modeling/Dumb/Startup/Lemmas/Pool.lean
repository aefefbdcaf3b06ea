import Mathlib.Data.Finset.Dedup
import Mathlib.Data.Finset.Max
import Dumb.Startup.Dependencies

/-!
# The start loop keeps its books

Pending, in progress and completed divide the enabled keys among them, and the log says that a key was
submitted after everything it depends on had finished.
-/

namespace Dumb.Startup

open Py

namespace Pool

def submitted (s : Pool) : List Key := s.log.filterMap fun
  | .submitted k => some k
  | .finished _ => none

def Ordered (deps : Key → List Key) (log : List Event) : Prop :=
  ∀ before k after, log = before ++ .submitted k :: after → ∀ d ∈ deps k, .finished d ∈ before

structure Inv (enabled : Key → Prop) (deps : Key → List Key) (s : Pool) : Prop where
  distinct : (s.pending ++ s.inProgress ++ s.completed).Nodup
  cover : ∀ k, k ∈ s.pending ++ s.inProgress ++ s.completed ↔ enabled k
  once : s.submitted.Nodup
  sent : ∀ k, k ∈ s.submitted ↔ k ∈ s.inProgress ++ s.completed
  ended : ∀ k ∈ s.completed, .finished k ∈ s.log
  ordered : Ordered deps s.log

theorem Ordered.finished {deps : Key → List Key} {log : List Event} (h : Ordered deps log) (k : Key) :
    Ordered deps (log ++ [.finished k]) := by
  intro before q after hlog d hd
  rcases List.eq_nil_or_concat after with rfl | ⟨init, e, rfl⟩
  · have := List.append_inj_right' hlog rfl
    simp at this
  · have hlog' : log ++ [.finished k] = (before ++ .submitted q :: init) ++ [e] := by simpa using hlog
    obtain ⟨hlog', -⟩ := List.append_inj' hlog' rfl
    exact h before q init hlog' d hd

theorem Ordered.submitted {deps : Key → List Key} {log : List Event} (h : Ordered deps log) {k : Key}
    (hk : ∀ d ∈ deps k, .finished d ∈ log) : Ordered deps (log ++ [.submitted k]) := by
  intro before q after hlog d hd
  rcases List.eq_nil_or_concat after with rfl | ⟨init, e, rfl⟩
  · obtain ⟨rfl, hq⟩ := List.append_inj' hlog rfl
    simp only [List.cons.injEq, Event.submitted.injEq, and_true] at hq
    exact hk d (hq ▸ hd)
  · have hlog' : log ++ [.submitted k] = (before ++ .submitted q :: init) ++ [e] := by simpa using hlog
    obtain ⟨hlog', -⟩ := List.append_inj' hlog' rfl
    exact h before q init hlog' d hd

variable {enabled : Key → Prop} {deps : Key → List Key} {s : Pool}

theorem submit_inv (h : Inv enabled deps s) {k : Key} (hk : k ∈ s.pending) (hd : ∀ d ∈ deps k, d ∈ s.completed) :
    Inv enabled deps (s.submit k) := by
  have hperm : (s.pending.erase k ++ (s.inProgress ++ [k]) ++ s.completed).Perm
      (s.pending ++ s.inProgress ++ s.completed) := by
    refine List.Perm.append_right _ ?_
    calc (s.pending.erase k ++ (s.inProgress ++ [k])).Perm (k :: (s.pending.erase k ++ s.inProgress)) := by
          rw [← List.append_assoc]; exact List.perm_append_singleton _ _
      _ = (k :: s.pending.erase k) ++ s.inProgress := rfl
      List.Perm _ (s.pending ++ s.inProgress) := (List.perm_cons_erase hk).symm.append_right _
  have hnew : k ∉ s.submitted := by
    rw [h.sent]
    intro hmem
    have := List.disjoint_of_nodup_append (List.append_assoc .. ▸ h.distinct)
    exact this hk hmem
  have hsub : (s.submit k).submitted = s.submitted ++ [k] := by simp [submitted, submit]
  refine ⟨hperm.nodup_iff.2 h.distinct, fun q => hperm.mem_iff.trans (h.cover q), ?_, ?_, ?_, ?_⟩
  · rw [hsub]
    refine List.nodup_append.2 ⟨h.once, List.nodup_singleton k, ?_⟩
    simpa using fun q hq (hqk : q = k) => hnew (hqk ▸ hq)
  · intro q
    rw [hsub]
    simp only [List.mem_append, List.mem_singleton, submit, h.sent]
    tauto
  · intro q hq
    exact List.mem_append_left _ (h.ended q hq)
  · exact h.ordered.submitted fun d hmem => h.ended d (hd d hmem)

theorem submits_inv : ∀ (ready : List Key) {s : Pool}, Inv enabled deps s → ready.Nodup →
    (∀ k ∈ ready, k ∈ s.pending ∧ ∀ d ∈ deps k, d ∈ s.completed) → Inv enabled deps (ready.foldl submit s)
  | [], _, h, _, _ => h
  | k :: ready, s, h, hn, hr => by
    have hk := hr k List.mem_cons_self
    obtain ⟨hnot, hn'⟩ := List.nodup_cons.1 hn
    refine submits_inv ready (submit_inv h hk.1 hk.2) hn' fun q hq => ?_
    have hqk : q ≠ k := fun heq => hnot (heq ▸ hq)
    exact ⟨(List.mem_erase_of_ne hqk).2 (hr q (List.mem_cons_of_mem _ hq)).1,
      (hr q (List.mem_cons_of_mem _ hq)).2⟩

theorem submits_inProgress : ∀ (ready : List Key) (s : Pool),
    (ready.foldl submit s).inProgress = s.inProgress ++ ready
  | [], s => by simp
  | k :: ready, s => by
    rw [List.foldl_cons, submits_inProgress ready]
    simp [submit]

theorem finish_inv (h : Inv enabled deps s) {done : Key × Outcome} (hd : done.1 ∈ s.inProgress) :
    Inv enabled deps (s.finish done) := by
  have hperm : (s.pending ++ s.inProgress.erase done.1 ++ done.1 :: s.completed).Perm
      (s.pending ++ s.inProgress ++ s.completed) := by
    rw [List.append_assoc, List.append_assoc]
    refine List.Perm.append_left _ ?_
    exact (List.perm_middle).trans ((List.perm_cons_erase hd).symm.append_right _)
  have hsub : (s.finish done).submitted = s.submitted := by simp [submitted, finish]
  refine ⟨hperm.nodup_iff.2 h.distinct, fun q => hperm.mem_iff.trans (h.cover q), hsub ▸ h.once, ?_, ?_, ?_⟩
  · intro q
    have hperm' : (s.inProgress.erase done.1 ++ done.1 :: s.completed).Perm (s.inProgress ++ s.completed) :=
      (List.perm_middle).trans ((List.perm_cons_erase hd).symm.append_right _)
    rw [hsub, h.sent]
    exact hperm'.mem_iff.symm
  · intro q hq
    rcases List.mem_cons.1 hq with rfl | hq
    · exact List.mem_append_right _ (by simp)
    · exact List.mem_append_left _ (h.ended q hq)
  · exact h.ordered.finished done.1

theorem finishes_inv : ∀ (done : List (Key × Outcome)) {s : Pool}, Inv enabled deps s → (done.map (·.1)).Nodup →
    (∀ d ∈ done, d.1 ∈ s.inProgress) → Inv enabled deps (done.foldl finish s)
  | [], _, h, _, _ => h
  | d :: done, s, h, hn, hr => by
    obtain ⟨hnot, hn'⟩ := List.nodup_cons.1 hn
    refine finishes_inv done (finish_inv h (hr d List.mem_cons_self)) hn' fun e he => ?_
    have hed : e.1 ≠ d.1 := fun heq => hnot (List.mem_map.2 ⟨e, he, heq⟩)
    exact (List.mem_erase_of_ne hed).2 (hr e (List.mem_cons_of_mem _ he))

theorem mem_ready {k : Key} : k ∈ s.ready deps ↔ k ∈ s.pending ∧ ∀ d ∈ deps k, d ∈ s.completed := by
  simp [ready]

theorem submitReady_eq {ready : List Key} {s' : Pool} (hs : s.submitReady ready = .ok s') :
    s' = ready.foldl submit s := by
  unfold submitReady at hs
  dsimp only at hs
  split at hs <;> cases hs
  rfl

theorem exists_ready (h : Inv enabled deps s) {rank : Key → Nat}
    (hdeps : ∀ k, ∀ d ∈ deps k, enabled d ∧ rank d < rank k) (hp : s.pending ≠ []) (hi : s.inProgress = []) :
    ∃ k, k ∈ s.ready deps := by
  obtain ⟨k, hk, hmin⟩ := s.pending.toFinset.exists_min_image rank
    (by simpa [List.toFinset_nonempty_iff] using hp)
  rw [List.mem_toFinset] at hk
  refine ⟨k, mem_ready.2 ⟨hk, fun d hd => ?_⟩⟩
  obtain ⟨hen, hlt⟩ := hdeps k d hd
  have hmem := (h.cover d).2 hen
  simp only [hi, List.append_nil, List.mem_append] at hmem
  rcases hmem with hpend | hcomp
  · have := hmin d (List.mem_toFinset.2 hpend)
    omega
  · exact hcomp

theorem submitReady_ok (h : Inv enabled deps s) {rank : Key → Nat}
    (hdeps : ∀ k, ∀ d ∈ deps k, enabled d ∧ rank d < rank k) (hrun : s.running = true) {ready : List Key}
    (hready : ready.Perm (s.ready deps)) : ∃ s', s.submitReady ready = .ok s' := by
  have hne : (ready.foldl submit s).inProgress ≠ [] := by
    rw [submits_inProgress]
    cases hi : s.inProgress with
    | cons k ks => simp
    | nil =>
      have hp : s.pending ≠ [] := by simpa [running, hi] using hrun
      obtain ⟨k, hk⟩ := exists_ready h hdeps hp hi
      have hk' := hready.mem_iff.2 hk
      intro hnil
      simp only [List.nil_append] at hnil
      rw [hnil] at hk'
      cases hk'
  refine ⟨_, if_neg ?_⟩
  simpa using hne

/-! ## Runs -/

variable {c c' : Phase × Pool}

theorem step_inv (hs : Step deps c c') (h : Inv enabled deps c.2) :
    Inv enabled deps c'.2 := by
  cases hs with
  | submit hrun hready hs =>
    rw [submitReady_eq hs]
    refine submits_inv _ h (hready.nodup_iff.2 (List.Nodup.filter _ ?_)) fun k hk => mem_ready.1 (hready.mem_iff.1 hk)
    exact (List.nodup_append.1 (List.nodup_append.1 h.distinct).1).1
  | wait hd => exact finishes_inv _ h hd.2.1 hd.2.2

theorem steps_inv (hs : Steps deps c c') (h : Inv enabled deps c.2) :
    Inv enabled deps c'.2 := by
  induction hs with
  | refl => exact h
  | tail _ hstep ih => exact step_inv hstep ih

def left : Phase × Pool → Nat
  | (.head, s) => 4 * s.pending.length + 2 * s.inProgress.length + 1
  | (.waiting, s) => 4 * s.pending.length + 2 * s.inProgress.length

theorem submits_left : ∀ (ready : List Key) {s : Pool}, ready.Nodup → (∀ k ∈ ready, k ∈ s.pending) →
    left (.waiting, ready.foldl submit s) ≤ left (.waiting, s)
  | [], _, _, _ => Nat.le_refl _
  | k :: ready, s, hn, hr => by
    obtain ⟨hnot, hn'⟩ := List.nodup_cons.1 hn
    have hk := hr k List.mem_cons_self
    have ih := submits_left ready (s := s.submit k) hn' fun q hq =>
      (List.mem_erase_of_ne fun heq : q = k => hnot (heq ▸ hq)).2 (hr q (List.mem_cons_of_mem _ hq))
    have hlen := List.length_erase_of_mem hk
    have hpos := List.length_pos_of_mem hk
    simp only [left, submit, List.length_append, List.length_singleton, List.foldl_cons] at ih ⊢
    omega

theorem finishes_left : ∀ (done : List (Key × Outcome)) {s : Pool}, (done.map (·.1)).Nodup →
    (∀ d ∈ done, d.1 ∈ s.inProgress) →
    left (.waiting, done.foldl finish s) + 2 * done.length ≤ left (.waiting, s)
  | [], _, _, _ => Nat.le_refl _
  | d :: done, s, hn, hr => by
    obtain ⟨hnot, hn'⟩ := List.nodup_cons.1 hn
    have hd := hr d List.mem_cons_self
    have ih := finishes_left done (s := s.finish d) hn' fun e he =>
      (List.mem_erase_of_ne fun heq => hnot (List.mem_map.2 ⟨e, he, heq⟩)).2 (hr e (List.mem_cons_of_mem _ he))
    have hlen := List.length_erase_of_mem hd
    have hpos := List.length_pos_of_mem hd
    simp only [left, finish, List.length_cons, List.foldl_cons] at ih ⊢
    omega

theorem step_left (hs : Step deps c c') (h : Inv enabled deps c.2) : left c' < left c := by
  cases hs with
  | submit hrun hready hs =>
    have hn := (List.nodup_append.1 (List.nodup_append.1 h.distinct).1).1
    have hle := submits_left _ (hready.nodup_iff.2 (hn.filter _)) fun k hk => (mem_ready.1 (hready.mem_iff.1 hk)).1
    rw [submitReady_eq hs]
    exact Nat.lt_succ_of_le hle
  | @wait s done hd =>
    have hle := finishes_left done hd.2.1 hd.2.2
    have hpos := List.length_pos_of_ne_nil hd.1
    simp only [left] at hle ⊢
    omega

theorem steps_end (n : Nat) : ∀ {c : Phase × Pool}, left c < n → Inv enabled deps c.2 →
    Acc (fun c' c => Step deps c c') c := by
  induction n with
  | zero => intro c hl; cases hl
  | succ n ih =>
    intro c hl h
    refine ⟨_, fun c' hs => ih ?_ (step_inv hs h)⟩
    have := step_left hs h
    omega

end Pool

theorem startPool_inv (get : Key → Json) (keys : List Key) (deps : Key → List Key) :
    Pool.Inv (fun k => enabled get keys k = true) deps (startPool get keys) where
  distinct := by simpa [startPool] using (List.nodup_dedup keys).filter _
  cover := by
    intro k
    simp only [startPool, List.append_nil, List.mem_filter, List.mem_dedup]
    constructor
    · exact fun h => h.2
    · intro h
      simp only [enabled, Bool.and_eq_true, List.contains_iff_mem] at h ⊢
      exact ⟨h.1, h⟩
  once := List.nodup_nil
  sent := by intro k; simp [Pool.submitted, startPool]
  ended := by intro k hk; cases hk
  ordered := by
    intro before k after h
    simp [startPool] at h

end Dumb.Startup
