import Dumb.InfiniDysk.Admission
import Dumb.Postgres.Lemmas.Active

/-!
# One of three
-/

namespace Dumb.InfiniDysk

open Py
open Postgres (Jobs Write Steady LiveAt)

variable {w : World}

def Busy (w : World) : Prop := ∃ j ∈ w.job, j.status.active = true ∧ j.workerId = w.workerId

instance Busy.decidable (w : World) : Decidable (Busy w) :=
  inferInstanceAs (Decidable (∃ j ∈ w.job, j.status.active = true ∧ j.workerId = w.workerId))

structure Interrupted (j : Job) (since : Nat) (j' : Job) : Prop where
  status : j'.status = .interrupted
  stage : j'.interruptedFromStage = j.stage
  later : since ≤ j'.interruptedAtNs

structure Inv (w : World) : Prop where
  steady : Steady w.postgres
  clear : Busy w → w.external = [] ∧ w.locked = false ∧ ∀ jobId, ¬LiveAt w.postgres jobId
  single : w.workers.length ≤ 1
  /-- A worker is in its `except`, or its job is active. -/
  workers : ∀ t ∈ w.workers, t.job.workerId = w.workerId ∧ (Busy w ∨ t.place = .failing)
  cut : ∀ j since, w.cutShort = some (j, since) → w.workers = [] ∧ since ≤ w.now ∧
    ∃ j' ∈ w.job, j' = j ∧ w.dead j = true ∨ Interrupted j since j'

theorem inv_fresh (workerId postgresWorkerId now : Nat) : Inv (World.fresh workerId postgresWorkerId now) where
  steady := Postgres.steady_start postgresWorkerId now
  clear h := by simp [Busy, World.fresh] at h
  single := by simp [World.fresh]
  workers := by simp [World.fresh]
  cut := by simp [World.fresh]

/-! ## What is reported -/

variable {j : Job}

theorem reported_of_own (h : j.workerId = w.workerId) : w.reported j = j := by
  simp [World.reported, World.dead, h]

theorem active_of_reported (h : (w.reported j).status.active = true) :
    w.reported j = j ∧ j.status.active = true ∧ j.workerId = w.workerId := by
  unfold World.reported at h ⊢
  split at h
  case isTrue => cases h
  case isFalse hdead =>
    rw [if_neg hdead]
    simp only [World.dead, h, Bool.true_and, decide_eq_true_eq, not_not] at hdead
    exact ⟨rfl, h, hdead⟩

variable {since : Nat}

theorem Interrupted.reported {j j' : Job} (h : Interrupted j since j') : Interrupted j since (w.reported j') := by
  unfold World.reported World.dead
  rw [h.status]
  exact h

theorem interrupted_of_dead (h : w.dead j = true) (hsince : since ≤ w.now) :
    Interrupted j since (w.reported j) := by
  rw [World.reported, if_pos h]
  exact ⟨rfl, rfl, hsince⟩

theorem Inv.reports (h : Inv w) (hcut : w.cutShort = some (j, since)) :
    ∃ j' ∈ w.job, Interrupted j since (w.reported j') := by
  obtain ⟨-, hsince, j', hj', ⟨rfl, hdead⟩ | hinterrupted⟩ := h.cut j since hcut
  · exact ⟨j', hj', interrupted_of_dead hdead hsince⟩
  · exact ⟨j', hj', hinterrupted.reported⟩

theorem busy_getJob : Busy w.getJob ↔ Busy w := by
  constructor
  · rintro ⟨j, hj, hactive, hown⟩
    obtain ⟨j', hj', rfl⟩ := Option.map_eq_some_iff.1 hj
    obtain ⟨-, hactive, hown⟩ := active_of_reported hactive
    exact ⟨j', hj', hactive, hown⟩
  · rintro ⟨j, hj, hactive, hown⟩
    exact ⟨j, Option.map_eq_some_iff.2 ⟨j, hj, reported_of_own hown⟩, hactive, hown⟩

theorem blocking_of_busy (h : Busy w) : w.hasBlockingJob = true := by
  obtain ⟨j, hj, hactive, hown⟩ := h
  rw [World.hasBlockingJob, hj, Option.map_some, Option.any_some, reported_of_own hown, hactive, Bool.true_or]

theorem Inv.blocking_of_cut (h : Inv w) (hcut : w.cutShort ≠ none) : w.hasBlockingJob = true := by
  obtain ⟨⟨j, since⟩, hcut⟩ := Option.ne_none_iff_exists'.1 hcut
  obtain ⟨j', hj', hinterrupted⟩ := h.reports hcut
  rw [World.hasBlockingJob, hj', Option.map_some, Option.any_some, hinterrupted.status]
  rfl

/-! ## What keeps the invariant -/

theorem Inv.getJob (h : Inv w) : Inv w.getJob where
  steady := h.steady
  clear hbusy := h.clear (busy_getJob.1 hbusy)
  single := h.single
  workers t ht := ⟨(h.workers t ht).1, (h.workers t ht).2.imp_left busy_getJob.2⟩
  cut j since hcut := by
    obtain ⟨hworkers, hsince, -⟩ := h.cut j since hcut
    obtain ⟨j', hj', hinterrupted⟩ := h.reports hcut
    exact ⟨hworkers, hsince, _, Option.map_eq_some_iff.2 ⟨j', hj', rfl⟩, .inr hinterrupted⟩

theorem Inv.setExternal (h : Inv w) {external : List String} (hclear : Busy w → external = []) :
    Inv { w with external := external } where
  steady := h.steady
  clear hbusy := ⟨hclear hbusy, (h.clear hbusy).2⟩
  single := h.single
  workers := h.workers
  cut := h.cut

theorem Inv.setPostgres (h : Inv w) {postgres : Jobs} (hsteady : Steady postgres)
    (hclear : Busy w → (∀ t ∈ postgres.tasks, t.stage ≠ .creating) ∧ ∀ jobId, ¬LiveAt postgres jobId) :
    Inv { w with postgres := postgres } where
  steady := hsteady
  clear hbusy := by
    refine ⟨(h.clear hbusy).1, ?_, (hclear hbusy).2⟩
    simpa [World.locked] using (hclear hbusy).1
  single := h.single
  workers := h.workers
  cut := h.cut

variable {write : Write}

theorem Inv.updateJob (h : Inv w) {n : Nat} {t : Worker} (hn : w.workers[n]? = some t) {job : Job}
    {ok raised : Option WorkerAt} (hown : job.workerId = w.workerId) (hactive : job.status.active = true → Busy w)
    (hplace : ∀ place, (if write.raises then raised else ok) = some place →
      place = .failing ∨ Busy w ∧ job.status.active = true) : Inv (w.updateJob n job write ok raised) := by
  have hback : Busy (w.updateJob n job write ok raised) → Busy w := by
    rintro ⟨j, hj, hj'⟩
    cases hw : write.writes with
    | false =>
      rw [World.updateJob, hw] at hj
      exact ⟨j, hj, hj'⟩
    | true =>
      rw [World.updateJob, hw] at hj
      cases hj
      exact hactive hj'.1
  have hbusy : Busy w → job.status.active = true → Busy (w.updateJob n job write ok raised) := by
    rintro ⟨j, hj, hj'⟩ hactive
    cases hw : write.writes with
    | false => exact ⟨j, by simpa [World.updateJob, hw] using hj, hj'⟩
    | true => exact ⟨job, by simp [World.updateJob, hw], hactive, hown⟩
  have hlength : w.workers.length = 1 := by
    have hlt := (List.getElem?_eq_some_iff.1 hn).1
    have hsingle := h.single
    omega
  have hlone : ∀ t' ∈ (w.updateJob n job write ok raised).workers, ∃ place,
      (if write.raises then raised else ok) = some place ∧ t' = ⟨job, place⟩ := by
    intro t' ht'
    obtain ⟨t₀, ht₀⟩ := List.length_eq_one_iff.1 hlength
    have hzero : n = 0 := by
      have hlt := (List.getElem?_eq_some_iff.1 hn).1
      omega
    subst hzero
    simp only [World.updateJob, ht₀] at ht'
    split at ht'
    case h_1 => simp at ht'
    case h_2 place heq => exact ⟨place, heq, by simpa using ht'⟩
  constructor
  · exact h.steady
  · exact fun hb => h.clear (hback hb)
  · unfold World.updateJob
    dsimp only
    split
    · simp [List.length_eraseIdx, hlength]
      split <;> omega
    · simp [hlength]
  · intro t' ht'
    obtain ⟨place, heq, rfl⟩ := hlone t' ht'
    refine ⟨hown, ?_⟩
    rcases hplace place heq with hfailing | ⟨hb, hactive⟩
    · exact .inr hfailing
    · exact .inl (hbusy hb hactive)
  · intro j since hcut
    rw [(h.cut j since hcut).1] at hn
    cases hn

/-! ## Steps -/

def Proper (w : World) : Step → Prop
  | .postgres s => Postgres.Proper w.postgres s
  | .restart workerId _ => ∀ j ∈ w.job, j.workerId ≠ workerId
  | _ => True

instance Proper.decidable (w : World) : ∀ s : Step, Decidable (Proper w s)
  | .postgres s => inferInstanceAs (Decidable (Postgres.Proper w.postgres s))
  | .restart workerId _ => inferInstanceAs (Decidable (∀ j ∈ w.job, j.workerId ≠ workerId))
  | .reserve _ | .release _ | .start .. | .move .. | .getJob | .preflight | .cleanup | .wait _ => .isTrue trivial

/-- While a namespace job is active no other service is rolled back, and no worker of the PostgreSQL migration falls back
after its record was over. -/
def Guarded (w : World) : Step → Prop
  | .postgres (.reserveRollback jobId valid write) =>
    (∃ p ∈ w.postgres.records.get? jobId, p.serviceKey ≠ "infinidysk") →
      Postgres.Revives w.postgres (.reserveRollback jobId valid write) → ¬Busy w
  | .postgres (.move n m) => Postgres.Revives w.postgres (.move n m) → ¬Busy w
  | .start _ valid write =>
    w.locked = false → write = .done → { w with postgres := w.postgres.markAll }.admits valid = true → w.workers = []
  | _ => True

instance Guarded.decidable (w : World) : ∀ s : Step, Decidable (Guarded w s)
  | .postgres (.reserveRollback jobId valid write) => inferInstanceAs (Decidable (
      (∃ p ∈ w.postgres.records.get? jobId, p.serviceKey ≠ "infinidysk") →
        Postgres.Revives w.postgres (.reserveRollback jobId valid write) → ¬Busy w))
  | .postgres (.move n m) => inferInstanceAs (Decidable (Postgres.Revives w.postgres (.move n m) → ¬Busy w))
  | .start _ valid write => inferInstanceAs (Decidable (w.locked = false → write = .done →
      { w with postgres := w.postgres.markAll }.admits valid = true → w.workers = []))
  | .postgres (.createJob ..) | .postgres (.read _) | .postgres (.mark ..) | .postgres (.wait _) | .postgres (.restart _)
  | .reserve _ | .release _ | .move .. | .getJob | .preflight | .cleanup | .wait _ | .restart .. => .isTrue trivial

theorem Inv.postgresQuiet (h : Inv w) {s : Postgres.Step} (hproper : Postgres.Proper w.postgres s)
    (hadmits : ∀ jobId processName serviceKey mode ready, s ≠ .createJob jobId processName serviceKey mode ready)
    (hrestart : ∀ workerId, s ≠ .restart workerId) (hback : Busy w → ¬Postgres.Revives w.postgres s) :
    Inv { w with postgres := w.postgres.step s } := by
  apply h.setPostgres (h.steady.step hproper)
  intro hbusy
  obtain ⟨-, hlocked, hlive⟩ := h.clear hbusy
  have hcreating : ∀ t ∈ w.postgres.tasks, t.stage ≠ .creating := by simpa [World.locked] using hlocked
  constructor
  · exact h.steady.creating_of_step hcreating hadmits
  · exact fun jobId hjob => hlive jobId (h.steady.live_of_step hcreating hadmits hrestart (hback hbusy) hjob)

theorem Inv.postgresStep (h : Inv w) {s : Postgres.Step} (hproper : Postgres.Proper w.postgres s)
    (hguarded : Guarded w (.postgres s)) : Inv (w.postgresStep s) := by
  -- What is admitted while `has_blocking_job` is not so is admitted while no namespace job is active.
  have hfree : w.hasBlockingJob = false → Inv { w.getJob with postgres := w.postgres.step s } := by
    intro hblocking
    apply h.getJob.setPostgres (h.steady.step hproper)
    intro hbusy
    exact absurd ((blocking_of_busy (busy_getJob.1 hbusy)).symm.trans hblocking) Bool.false_ne_true.symm
  cases s with
  | createJob jobId processName serviceKey mode ready =>
    rw [World.postgresStep]
    split
    case isTrue => exact h
    case isFalse =>
      split
      case isTrue => exact h.getJob
      case isFalse hblocking =>
        split
        case isTrue => exact h.getJob
        case isFalse => exact hfree (by simpa using hblocking)
  | reserveRollback jobId valid write =>
    rw [World.postgresStep]
    split
    case isTrue =>
      split
      case isTrue => exact h
      case isFalse =>
        split
        case isTrue => exact h.getJob
        case isFalse hblocking => exact hfree (by simpa using hblocking)
    case isFalse hother =>
      apply h.postgresQuiet hproper (by simp) (by simp)
      intro hbusy hrevives
      obtain ⟨-, p, hp, -⟩ := id hrevives
      refine hguarded ⟨p, hp, ?_⟩ hrevives hbusy
      rintro hkey
      rw [Option.mem_def] at hp
      exact hother (by rw [hp, Option.any_some, hkey]; rfl)
  | move n m => exact h.postgresQuiet hproper (by simp) (by simp) fun hbusy hrevives => hguarded hrevives hbusy
  | read => exact h.postgresQuiet hproper (by simp) (by simp) fun _ => id
  | mark => exact h.postgresQuiet hproper (by simp) (by simp) fun _ => id
  | wait => exact h
  | restart => exact h

theorem Inv.reserve (h : Inv w) (token : String) : Inv (w.reserveExternalMutation token) := by
  unfold World.reserveExternalMutation
  split
  case isTrue => exact h
  case isFalse =>
    split
    case isTrue => exact h.getJob
    case isFalse hblocking =>
      apply h.getJob.setExternal
      intro hbusy
      exact absurd (blocking_of_busy (busy_getJob.1 hbusy)) hblocking

theorem Inv.release (h : Inv w) (token : String) : Inv (w.releaseExternalMutation token) := by
  unfold World.releaseExternalMutation
  split
  case isTrue => exact h
  case isFalse =>
    apply h.setExternal
    intro hbusy
    rw [(h.clear hbusy).1, List.filter_nil]

theorem Inv.start (h : Inv w) {jobId : String} {valid : Bool} (hguarded : Guarded w (.start jobId valid write)) :
    Inv (w.startFullNamespaceJob jobId valid write) := by
  unfold World.startFullNamespaceJob
  split
  case isTrue => exact h
  case isFalse hlocked =>
    have hmarked : Inv { w with postgres := w.postgres.markAll } := by
      apply h.setPostgres h.steady.markAll
      intro hbusy
      obtain ⟨-, hlocked, hlive⟩ := h.clear hbusy
      constructor
      · simpa [World.locked, Jobs.markAll] using hlocked
      · exact fun jobId hjob => hlive jobId (Postgres.live_of_markAll hjob)
    dsimp only
    split
    case isFalse => exact hmarked.getJob
    case isTrue hadmits =>
      have hfree := hadmits
      simp only [World.admits, Bool.and_eq_true, Bool.not_eq_true', decide_eq_true_eq] at hfree
      obtain ⟨⟨⟨hconflict, hexternal⟩, -⟩, -⟩ := hfree
      have hdead := Postgres.dead_of_conflict hconflict
      have hidle : ∀ t ∈ w.postgres.markAll.tasks, t.stage ≠ .creating := by
        simpa [World.locked, Jobs.markAll] using hlocked
      have hwritten : ∀ (workers : List Worker), workers.length ≤ 1 → (∀ t ∈ workers, t.job.workerId = w.workerId) →
          Inv { w with
            postgres := w.postgres.markAll, job := some ⟨jobId, .queued, "queued", w.workerId, "", 0⟩, cutShort := none
            workers := workers } := by
        intro workers hlength hown
        refine ⟨h.steady.markAll, fun _ => ⟨hexternal, ?_, hdead⟩, hlength, fun t ht => ⟨hown t ht, .inl ⟨_, rfl, rfl, rfl⟩⟩,
          fun _ _ hcut => by cases hcut⟩
        simpa [World.locked] using hidle
      cases write with
      | done =>
        have hworkers := hguarded (by simpa using hlocked) rfl hadmits
        apply hwritten
        · simp [hworkers, Write.writes]
        · simp [hworkers, Write.writes]
      | raisedBefore => exact hmarked.getJob
      | raisedAfter => exact hwritten _ h.single fun t ht => (h.workers t ht).1

theorem Inv.goOn (h : Inv w) {n : Nat} {t : Worker} (hn : w.workers[n]? = some t) {place : WorkerAt}
    (hplace : t.place ≠ .failing ∨ place = .failing) : Inv { w with workers := w.workers.set n { t with place := place } } where
  steady := h.steady
  clear := h.clear
  single := by simpa using h.single
  workers t' ht' := by
    rcases List.mem_or_eq_of_mem_set ht' with ht' | rfl
    · exact h.workers t' ht'
    · obtain ⟨hown, hbusy⟩ := h.workers t (List.mem_of_getElem? hn)
      refine ⟨hown, ?_⟩
      rcases hplace with hplace | hplace
      · exact .inl (hbusy.resolve_right hplace)
      · exact .inr hplace
  cut j since hcut := by
    rw [(h.cut j since hcut).1] at hn
    cases hn

theorem Inv.move (h : Inv w) (n : Nat) (m : Move) : Inv (w.move n m) := by
  unfold World.move
  split
  case h_1 => exact h
  case h_2 t hn =>
    obtain ⟨hown, hbusy⟩ := h.workers t (List.mem_of_getElem? hn)
    split
    case h_1 write _ =>
      apply h.updateJob hn
      · exact hown
      · intro hactive
        cases hactive
      · cases write <;> intro place hraises <;> cases hraises
    case h_2 hplace => exact h.goOn hn (.inl (by simp [hplace]))
    case h_3 status stage write hplace =>
      split
      case isTrue hstatus =>
        have hb : Busy w := hbusy.resolve_right (by simp [hplace])
        have hactive : status.active = true := by
          simp only [Bool.or_eq_true, decide_eq_true_eq] at hstatus
          rcases hstatus with rfl | rfl <;> rfl
        apply h.updateJob hn
        · exact hown
        · exact fun _ => hb
        · exact fun _ _ => .inr ⟨hb, hactive⟩
      case isFalse => exact h
    case h_4 => exact h.goOn hn (.inr rfl)
    case h_5 write _ =>
      apply h.updateJob hn
      · exact hown
      · intro hactive
        cases hactive
      · cases write <;> simp [Postgres.Write.raises]
    case h_6 status write _ =>
      split
      case isTrue hstatus =>
        have hinactive : status.active = false := by
          simp only [Bool.or_eq_true, decide_eq_true_eq] at hstatus
          rcases hstatus with (rfl | rfl) | rfl <;> rfl
        apply h.updateJob hn
        · exact hown
        · exact fun hactive => absurd (hinactive.symm.trans hactive) Bool.false_ne_true
        · cases write <;> intro place hraises <;> cases hraises
      case isFalse => exact h
    case h_7 => exact h

theorem Inv.cleanup (h : Inv w) : Inv w.cleanup := by
  unfold World.cleanup
  split
  case isTrue => exact h
  case isFalse =>
    split
    case isFalse => exact h
    case isTrue hsafe =>
      simp only [Bool.and_eq_true, decide_eq_true_eq] at hsafe
      obtain ⟨-, hcompleted⟩ := hsafe
      have hstatus : ∀ j ∈ w.job, j.status = .completed := by
        intro j hj
        rw [Option.mem_def] at hj
        simpa [hj] using hcompleted
      have hidle : ¬Busy w := by
        rintro ⟨j, hj, hactive, -⟩
        rw [hstatus j hj] at hactive
        cases hactive
      constructor
      · exact h.steady
      · rintro ⟨j, hj, -⟩
        cases hj
      · exact h.single
      · exact fun t ht => ⟨(h.workers t ht).1, .inr ((h.workers t ht).2.resolve_left hidle)⟩
      · intro j since hcut
        obtain ⟨-, -, j', hj', ⟨rfl, hdead⟩ | hinterrupted⟩ := h.cut j since hcut
        · rw [World.dead, hstatus j' hj'] at hdead
          cases hdead
        · cases hinterrupted.status.symm.trans (hstatus j' hj')

theorem Inv.restart (h : Inv w) {workerId : Nat} (postgresWorkerId : Nat) (hnew : ∀ j ∈ w.job, j.workerId ≠ workerId) :
    Inv (w.restart workerId postgresWorkerId) where
  steady := h.steady.step (s := .restart postgresWorkerId) trivial
  clear := by
    rintro ⟨j, hj, -, hown⟩
    exact absurd hown (hnew j hj)
  single := Nat.zero_le _
  workers _ ht := absurd ht List.not_mem_nil
  cut j since hcut := by
    refine ⟨rfl, ?_⟩
    have hdead : ∀ j ∈ w.job, j.status.active = true → (w.restart workerId postgresWorkerId).dead j = true := by
      intro j hj hactive
      simp [World.dead, World.restart, hactive, hnew j hj]
    simp only [World.restart, Option.or_eq_some_iff, Option.map_eq_some_iff, Prod.mk.injEq] at hcut
    rcases hcut with hcut | ⟨-, j', hj', rfl, rfl⟩
    · obtain ⟨-, hsince, j', hj', hj⟩ := h.cut j since hcut
      refine ⟨hsince, j', hj', hj.imp_left ?_⟩
      rintro ⟨rfl, hold⟩
      simp only [World.dead, Bool.and_eq_true] at hold
      exact ⟨rfl, hdead j' hj' hold.1⟩
    · rw [Option.filter_eq_some_iff] at hj'
      exact ⟨Nat.le_refl _, j', hj'.1, .inl ⟨rfl, hdead j' hj'.1 hj'.2⟩⟩

theorem Inv.step (h : Inv w) {s : Step} (hproper : Proper w s) (hguarded : Guarded w s) : Inv (w.step s) := by
  cases s with
  | postgres s => exact h.postgresStep hproper hguarded
  | reserve token => exact h.reserve token
  | release token => exact h.release token
  | start jobId valid write => exact h.start hguarded
  | move n m => exact h.move n m
  | getJob => exact h.getJob
  | preflight =>
    rw [World.step, World.savePreflight]
    split
    · exact h
    · exact ⟨h.steady, h.clear, h.single, h.workers, h.cut⟩
  | cleanup => exact h.cleanup
  | wait ns =>
    refine ⟨h.steady.step (s := .wait ns) trivial, h.clear, h.single, h.workers, fun j since hcut => ?_⟩
    obtain ⟨hworkers, hsince, hjob⟩ := h.cut j since hcut
    exact ⟨hworkers, Nat.le_add_right_of_le hsince, hjob⟩
  | restart workerId postgresWorkerId => exact h.restart postgresWorkerId hproper

/-! ## What admission is for -/

/-- A namespace job excludes reservations, jobs of the PostgreSQL migration and other namespace jobs. -/
structure Safe (w : World) : Prop where
  clear : Busy w → w.external = [] ∧ ∀ jobId, ¬LiveAt w.postgres jobId
  single : w.workers.length ≤ 1
  asserted : ∀ token, w.assertExternalMutationReserved token = true → ¬Busy w
  reports : ∀ j since, w.cutShort = some (j, since) → ∃ j' ∈ w.job, Interrupted j since (w.reported j')
  blocks : w.cutShort ≠ none → ∀ token, (w.step (.reserve token)).external = w.external
  supersedes : ∀ j since s, w.cutShort = some (j, since) → (w.step s).cutShort ≠ some (j, since) →
    j.stage ∈ preMutationInterruptionStages ∧ ∃ createdAt ∈ w.preflight, since < createdAt

theorem Interrupted.superseded {j j' : Job} (h : Interrupted j since j') (hsupersedes : w.supersedes j' = true) :
    j.stage ∈ preMutationInterruptionStages ∧ ∃ createdAt ∈ w.preflight, since < createdAt := by
  rw [World.supersedes, Job.isPreMutationInterruption, h.status, h.stage] at hsupersedes
  simp only [ne_eq, not_true_eq_false, decide_false, Bool.false_or, Bool.and_eq_true, List.contains_iff_mem] at hsupersedes
  obtain ⟨-, ⟨-, hstage⟩, hpreflight⟩ := hsupersedes
  refine ⟨hstage, ?_⟩
  cases hp : w.preflight with
  | none => simp [hp] at hpreflight
  | some createdAt =>
    have hlater := h.later
    refine ⟨createdAt, rfl, ?_⟩
    simp only [hp, Option.any_some, Bool.and_eq_true, Bool.not_eq_true', decide_eq_false_iff_not] at hpreflight
    omega

theorem Inv.superseded (h : Inv w) (hcut : w.cutShort = some (j, since)) {jobId : String} {valid : Bool}
    (hnext : (w.startFullNamespaceJob jobId valid write).cutShort ≠ some (j, since)) :
    j.stage ∈ preMutationInterruptionStages ∧ ∃ createdAt ∈ w.preflight, since < createdAt := by
  obtain ⟨j', hj', hinterrupted⟩ := h.reports hcut
  unfold World.startFullNamespaceJob at hnext
  split at hnext
  case isTrue => exact absurd hcut hnext
  case isFalse =>
    dsimp only at hnext
    split at hnext
    case isFalse => exact absurd hcut hnext
    case isTrue hadmits =>
      simp only [World.admits, Bool.and_eq_true] at hadmits
      have hsupersedes : (w.job.map w.reported).all w.supersedes = true := hadmits.2
      rw [hj', Option.map_some, Option.all_some] at hsupersedes
      exact hinterrupted.superseded hsupersedes

theorem postgresStep_cutShort (s : Postgres.Step) : (w.postgresStep s).cutShort = w.cutShort := by
  unfold World.postgresStep
  split
  case h_1 =>
    split
    · rfl
    · split
      · rfl
      · split <;> rfl
  case h_2 =>
    split
    · split
      · rfl
      · split <;> rfl
    · rfl
  all_goals rfl

theorem move_cutShort (n : Nat) (m : Move) : (w.move n m).cutShort = w.cutShort := by
  unfold World.move
  split
  · rfl
  · split <;> first | rfl | (split <;> rfl)

theorem Inv.safe (h : Inv w) : Safe w where
  clear hbusy := ⟨(h.clear hbusy).1, (h.clear hbusy).2.2⟩
  single := h.single
  asserted token hasserted hbusy := by
    rw [World.assertExternalMutationReserved, blocking_of_busy hbusy, Bool.not_true, Bool.and_false] at hasserted
    cases hasserted
  reports _ _ := h.reports
  blocks hcut token := by
    rw [World.step, World.reserveExternalMutation, h.blocking_of_cut hcut]
    split <;> rfl
  supersedes j since s hcut hnext := by
    have hkept : ∀ {w' : World}, w'.cutShort = w.cutShort → w'.cutShort ≠ some (j, since) → False :=
      fun hsame hnext => hnext (hsame.trans hcut)
    cases s with
    | start jobId valid write => exact h.superseded hcut hnext
    | postgres s => exact (hkept (postgresStep_cutShort s) hnext).elim
    | reserve token =>
      rw [World.step, World.reserveExternalMutation] at hnext
      split at hnext
      · exact (hkept rfl hnext).elim
      · split at hnext <;> exact (hkept rfl hnext).elim
    | release token =>
      rw [World.step, World.releaseExternalMutation] at hnext
      split at hnext <;> exact (hkept rfl hnext).elim
    | move n m => exact (hkept (move_cutShort n m) hnext).elim
    | getJob => exact (hkept rfl hnext).elim
    | preflight =>
      rw [World.step, World.savePreflight] at hnext
      split at hnext <;> exact (hkept rfl hnext).elim
    | cleanup =>
      rw [World.step, World.cleanup] at hnext
      split at hnext
      · exact (hkept rfl hnext).elim
      · split at hnext <;> exact (hkept rfl hnext).elim
    | wait => exact (hkept rfl hnext).elim
    | restart => exact (hkept (by rw [World.step, World.restart, hcut]; rfl) hnext).elim

end Dumb.InfiniDysk
