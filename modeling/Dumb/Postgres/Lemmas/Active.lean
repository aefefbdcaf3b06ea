import Dumb.Postgres.Lemmas.Jobs

/-!
# Active records

Which steps can make a job active that was not.
-/

namespace Dumb.Postgres

open Py

variable {w : Jobs}

/-- `get_job` reports the record as active. -/
def Live (w : Jobs) (p : Payload) : Prop := p.status.active = true ∧ p.workerId = w.workerId

def LiveAt (w : Jobs) (jobId : String) : Prop := ∃ r, w.records.get? jobId = some r ∧ Live w r

instance LiveAt.decidable (w : Jobs) (jobId : String) : Decidable (LiveAt w jobId) :=
  inferInstanceAs (Decidable (∃ r ∈ w.records.get? jobId, r.status.active = true ∧ r.workerId = w.workerId))

def Stage.running : Stage → Bool
  | .creating | .worker .prologue | .worker .body | .worker .finalizing | .worker .marking => true
  | _ => false

def Stage.over : Stage → Bool
  | .worker .completed | .worker .failed | .rollback .rolledBack => true
  | _ => false

def Task.Fits (own : Nat) (t : Task) : Prop :=
  (t.stage.running = true → t.payload.status.active = true ∧ t.payload.workerId = own) ∧
    (t.stage.over = true → t.payload.status.active = false)

structure Activity (own : Nat) (t : Task) (o : Outcome) : Prop where
  next : ∀ t', o.next = some t' → t'.jobId = t.jobId ∧ t'.Fits own ∧ t'.stage ≠ .creating ∧ (t'.stage.running = true →
    t.stage.running = true ∧ ∃ p, o.written = some p ∧ p.status.active = true ∧ p.workerId = own)
  written : ∀ p, o.written = some p → p.status.active = true → t.stage.running = true ∨ t.stage = .worker .failing

variable {t : Task}

theorem activity_save {own now : Nat} {p : Payload} {w : Write} {ok raised : Option Stage}
    (hok : ∀ stage, ok = some stage → stage ≠ .creating ∧ (stage.running = true → t.stage.running = true ∧
      p.status.active = true ∧ p.workerId = own) ∧ (stage.over = true → p.status.active = false))
    (hraised : ∀ stage, raised = some stage → stage ≠ .creating ∧ stage.running = false ∧ stage.over = false)
    (hwritten : p.status.active = true → t.stage.running = true ∨ t.stage = .worker .failing) :
    Activity own t (t.save now p w ok raised) where
  next t' h := by
    cases w with
    | done =>
      simp only [Task.save, Write.raises, Bool.false_eq_true, if_false, Option.map_eq_some_iff] at h
      obtain ⟨stage, hstage, rfl⟩ := h
      obtain ⟨hne, hrunning, hover⟩ := hok stage hstage
      exact ⟨rfl, ⟨fun h => (hrunning h).2, hover⟩, hne, fun h => ⟨(hrunning h).1, _, rfl, (hrunning h).2⟩⟩
    | raisedBefore | raisedAfter =>
      simp only [Task.save, Write.raises, if_true, Option.map_eq_some_iff] at h
      obtain ⟨stage, hstage, rfl⟩ := h
      obtain ⟨hne, hrunning, hover⟩ := hraised stage hstage
      exact ⟨rfl, ⟨fun h => absurd (hrunning.symm.trans h) Bool.false_ne_true,
        fun h => absurd (hover.symm.trans h) Bool.false_ne_true⟩, hne,
        fun h => absurd (hrunning.symm.trans h) Bool.false_ne_true⟩
  written q h hactive := by
    rw [save_written h] at hactive
    exact hwritten hactive

theorem activity_goOn {own : Nat} {place : Option Stage}
    (hplace : ∀ stage, place = some stage → stage ≠ .creating ∧ stage.running = false ∧ stage.over = false) :
    Activity own t (t.goOn place) where
  next t' h := by
    simp only [Task.goOn, Option.map_eq_some_iff] at h
    obtain ⟨stage, hstage, rfl⟩ := h
    obtain ⟨hne, hrunning, hover⟩ := hplace stage hstage
    exact ⟨rfl, ⟨fun h => absurd (hrunning.symm.trans h) Bool.false_ne_true,
      fun h => absurd (hover.symm.trans h) Bool.false_ne_true⟩, hne, fun h => absurd (hrunning.symm.trans h) Bool.false_ne_true⟩
  written _ h := nomatch h

theorem activity_finally {own : Nat} : Activity own t Task.finally_ :=
  ⟨fun _ h => (nomatch h), fun _ h => (nomatch h)⟩

theorem move_activity {now own : Nat} {m : Move} {o : Outcome} (h : t.move now own m = some o) (hfits : t.Fits own) :
    Activity own t o := by
  obtain ⟨hrunning, hover⟩ := hfits
  unfold Task.move at h
  split at h
  case h_1 hstage =>
    rw [hstage] at hrunning
    unfold Task.create at h
    split at h <;> cases h
    exact activity_save (by simp [Stage.running, Stage.over, hstage, hrunning rfl]) (by simp) (by simp [hstage, Stage.running])
  case h_2 place hstage =>
    rw [hstage] at hrunning hover
    unfold Task.runJob at h
    split at h <;> (try split at h) <;> (try split at h) <;> cases h
    all_goals
      first
      | exact activity_finally
      | exact activity_goOn (by simp [Stage.running, Stage.over])
      | exact activity_save (by simp_all [Stage.running, Stage.over, Status.active]) (by simp [Stage.running, Stage.over])
          (by simp_all [Stage.running, Stage.over, Status.active])
  case h_3 place hstage =>
    rw [hstage] at hrunning hover
    unfold Task.rollbackJob at h
    split at h
    case h_1 | h_2 =>
      cases h
      exact activity_save (by simp [Stage.running, Stage.over, Status.active]) (by simp [Stage.running, Stage.over])
        (by simp [Status.active])
    case h_3 w =>
      cases h
      have hquiet := hover rfl
      have hsave : Activity own t (t.save now t.payload w (some (.rollback .ending)) (some (.rollback .ending))) :=
        activity_save (by simp [Stage.running, Stage.over]) (by simp [Stage.running, Stage.over]) (by simp [hquiet])
      exact ⟨hsave.next, hsave.written⟩
    case h_4 =>
      cases h
      exact activity_finally
    case h_5 => cases h

/-! ## What holds in every run -/

structure Steady (w : Jobs) : Prop where
  creating : ∀ t ∈ w.tasks, t.stage = .creating → w.records.get? t.jobId = none
  live : ∀ t ∈ w.tasks, t.stage.running = true → t.stage ≠ .creating → LiveAt w t.jobId
  apart : ∀ (i j : Nat) (t t' : Task), w.tasks[i]? = some t → w.tasks[j]? = some t' → i ≠ j → t.stage.running = true → t'.jobId ≠ t.jobId
  fits : ∀ t ∈ w.tasks, t.Fits w.workerId
  marks : ∀ m ∈ w.marks, w.records.get? m.1 ≠ none ∧ ∀ t ∈ w.tasks, t.stage.running = true → t.jobId ≠ m.1

theorem steady_start (workerId now : Nat) : Steady (Jobs.start workerId now) := by
  constructor <;> simp [Jobs.start]

theorem Steady.record (h : Steady w) (ht : t ∈ w.tasks) (hrunning : t.stage.running = true) {r : Payload}
    (hr : w.records.get? t.jobId = some r) : Live w r := by
  by_cases hstage : t.stage = .creating
  · cases (h.creating t ht hstage).symm.trans hr
  · obtain ⟨r', hr', hlive⟩ := h.live t ht hrunning hstage
    exact Option.some.inj (hr'.symm.trans hr) ▸ hlive

theorem Steady.records (h : Steady w) {records : Dict String Payload}
    (hsame : ∀ t ∈ w.tasks, t.stage.running = true → Dict.get? t.jobId records = w.records.get? t.jobId)
    (hknown : ∀ j, w.records.get? j ≠ none → Dict.get? j records ≠ none) : Steady { w with records := records } where
  creating t ht hstage := (hsame t ht (by rw [hstage]; rfl)).trans (h.creating t ht hstage)
  live t ht hrunning hstage := by
    obtain ⟨r, hr, hlive⟩ := h.live t ht hrunning hstage
    exact ⟨r, (hsame t ht hrunning).trans hr, hlive⟩
  apart := h.apart
  fits := h.fits
  marks m hm := ⟨hknown _ (h.marks m hm).1, (h.marks m hm).2⟩

theorem known_set {ms : Dict String Payload} {j j' : String} {p : Payload} (h : ms.get? j' ≠ none) :
    (ms.set j p).get? j' ≠ none := by
  rw [Dict.get?_set]
  split
  · exact Option.some_ne_none _
  · exact h

theorem live_not_dead {r : Payload} (h : Live w r) : w.reported r = r := by
  simp [Jobs.reported, Jobs.dead, h.2]

theorem Steady.markAll (h : Steady w) : Steady w.markAll := by
  apply h.records
  · intro t ht hrunning
    rw [Dict.get?_map_values]
    cases hr : w.records.get? t.jobId with
    | none => rfl
    | some r => rw [Option.map_some, live_not_dead (h.record ht hrunning hr)]
  · intro j hj
    rw [Dict.get?_map_values]
    simpa using hj

theorem Steady.add (h : Steady w) {names : List String}
    (hid : ∀ t' ∈ w.tasks, t.stage.running = true ∨ t'.stage.running = true → t'.jobId ≠ t.jobId)
    (hcreating : t.stage.running = true → t.stage = .creating ∧ w.records.get? t.jobId = none) (hfits : t.Fits w.workerId) :
    Steady { w with activeProcesses := names, tasks := t :: w.tasks } where
  creating t' ht' hstage := by
    rcases List.mem_cons.1 ht' with rfl | ht'
    · exact (hcreating (by rw [hstage]; rfl)).2
    · exact h.creating t' ht' hstage
  live t' ht' hrunning hstage := by
    rcases List.mem_cons.1 ht' with rfl | ht'
    · exact absurd (hcreating hrunning).1 hstage
    · exact h.live t' ht' hrunning hstage
  apart i j t₁ t₂ hi hj hne hrunning := by
    cases i with
    | zero =>
      cases j with
      | zero => exact absurd rfl hne
      | succ j =>
        cases hi
        exact hid t₂ (List.mem_of_getElem? hj) (.inl hrunning)
    | succ i =>
      cases j with
      | zero =>
        cases hj
        exact (hid t₁ (List.mem_of_getElem? hi) (.inr hrunning)).symm
      | succ j => exact h.apart i j t₁ t₂ hi hj (fun heq => hne (congrArg _ heq)) hrunning
  fits t' ht' := by
    rcases List.mem_cons.1 ht' with rfl | ht'
    · exact hfits
    · exact h.fits t' ht'
  marks m hm := by
    obtain ⟨hknown, htasks⟩ := h.marks m hm
    refine ⟨hknown, fun t' ht' hrunning => ?_⟩
    rcases List.mem_cons.1 ht' with rfl | ht'
    · rintro heq
      exact hknown (heq ▸ (hcreating hrunning).2)
    · exact htasks t' ht' hrunning

theorem Steady.createJob (h : Steady w) {jobId processName serviceKey : String} {mode : Mode} {ready : Bool}
    (hnone : w.records.get? jobId = none) (hids : ∀ t ∈ w.tasks, t.jobId ≠ jobId) :
    Steady (w.createJob jobId processName serviceKey mode ready) := by
  unfold Jobs.createJob
  split
  case isFalse => exact h.markAll
  case isTrue =>
    apply h.markAll.add
    · exact fun t ht _ => hids t ht
    · intro _
      refine ⟨rfl, ?_⟩
      rw [Jobs.markAll, Dict.get?_map_values, hnone]
      rfl
    · exact ⟨fun _ => ⟨rfl, rfl⟩, fun hover => by cases hover⟩

theorem Steady.reserveRollback (h : Steady w) {jobId : String} {valid : Bool} {write : Write} :
    Steady (w.reserveRollback jobId valid write) := by
  unfold Jobs.reserveRollback
  split
  case h_1 => exact h
  case h_2 p hp =>
    have hmarked : Steady { w with records := w.records.set jobId (w.reported p) } := by
      apply h.records
      · intro t ht hrunning
        rw [Dict.get?_set]
        split
        case isTrue heq => rw [heq, hp, live_not_dead (h.record ht hrunning (heq ▸ hp))]
        case isFalse => rfl
      · exact fun j hj => known_set hj
    dsimp only
    split
    case isFalse => exact hmarked
    case isTrue hreservable =>
      have hinactive : (w.reported p).status.active = false := by
        simp only [Jobs.reservable, Bool.and_eq_true, Bool.not_eq_true'] at hreservable
        exact hreservable.1.1.1.1.1
      have hidle : ∀ t ∈ w.tasks, t.stage.running = true → t.jobId ≠ jobId := by
        rintro t ht hrunning rfl
        have hlive := h.record ht hrunning hp
        rw [live_not_dead hlive] at hinactive
        exact absurd (hinactive.symm.trans hlive.1) Bool.false_ne_true
      have hreserved : ∀ q, Steady { w with records := (w.records.set jobId (w.reported p)).set jobId q } := by
        intro q
        apply hmarked.records
        · exact fun t ht hrunning => Dict.get?_set_ne (hidle t ht hrunning) _ _
        · exact fun j hj => known_set hj
      cases write with
      | done =>
        apply (hreserved _).add
        · intro t ht hrunning
          rcases hrunning with hcreating | hrunning
          · cases hcreating
          · exact hidle t ht hrunning
        · intro hcreating
          cases hcreating
        · constructor <;> intro hstage <;> cases hstage
      | raisedBefore => exact hmarked
      | raisedAfter => exact hreserved _

theorem Steady.perform (h : Steady w) {n : Nat} {o : Outcome} (hn : w.tasks[n]? = some t)
    (hactivity : Activity w.workerId t o) : Steady (w.perform t n o) := by
  have ht : t ∈ w.tasks := List.mem_of_getElem? hn
  have hother : ∀ i t', w.tasks[i]? = some t' → i ≠ n → t'.stage.running = true →
      (w.perform t n o).records.get? t'.jobId = w.records.get? t'.jobId := by
    intro i t' hi hin hrunning
    exact perform_record (Ne.symm (h.apart i n t' t hi hn hin hrunning))
  constructor
  · intro t' ht' hstage
    rcases mem_tasks hn ht' with ht' | ⟨i, hin, hi⟩
    · exact absurd hstage (hactivity.next t' ht').2.2.1
    · rw [hother i t' hi hin (by rw [hstage]; rfl)]
      exact h.creating t' (List.mem_of_getElem? hi) hstage
  · intro t' ht' hrunning hstage
    rcases mem_tasks hn ht' with ht' | ⟨i, hin, hi⟩
    · obtain ⟨hid, -, -, hnext⟩ := hactivity.next t' ht'
      obtain ⟨-, p, hp, hlive⟩ := hnext hrunning
      exact ⟨p, by rw [hid, perform_written, hp, Option.some_or], hlive⟩
    · obtain ⟨r, hr, hlive⟩ := h.live t' (List.mem_of_getElem? hi) hrunning hstage
      exact ⟨r, (hother i t' hi hin hrunning).trans hr, hlive⟩
  · intro i j t₁ t₂ hi hj hne hrunning
    cases hnext : o.next with
    | none =>
      simp only [Jobs.perform, hnext, List.getElem?_eraseIdx] at hi hj
      split at hi <;> split at hj
      all_goals exact h.apart _ _ t₁ t₂ hi hj (by omega) hrunning
    | some t' =>
      obtain ⟨hid, -, -, hrun⟩ := hactivity.next t' hnext
      have hlt := (List.getElem?_eq_some_iff.1 hn).1
      simp only [Jobs.perform, hnext, List.getElem?_set, if_pos hlt] at hi hj
      split at hi
      case isTrue hin =>
        cases hi
        rw [if_neg fun heq => hne (hin.symm.trans heq)] at hj
        rw [hid]
        exact h.apart n j t t₂ hn hj (fun heq => hne (hin.symm.trans heq)) (hrun hrunning).1
      case isFalse hin =>
        split at hj
        case isTrue =>
          cases hj
          rw [hid]
          exact h.apart i n t₁ t hi hn (Ne.symm hin) hrunning
        case isFalse => exact h.apart i j t₁ t₂ hi hj hne hrunning
  · intro t' ht'
    rcases mem_tasks hn ht' with ht' | ⟨i, hin, hi⟩
    · exact (hactivity.next t' ht').2.1
    · exact h.fits t' (List.mem_of_getElem? hi)
  · intro m hm
    obtain ⟨hknown, htasks⟩ := h.marks m hm
    refine ⟨?_, fun t' ht' hrunning => ?_⟩
    · by_cases heq : m.1 = t.jobId
      · rw [heq] at hknown ⊢
        rw [perform_written]
        cases o.written with
        | none => rwa [Option.none_or]
        | some p => simp
      · rwa [perform_record heq]
    · rcases mem_tasks hn ht' with ht' | ⟨i, hin, hi⟩
      · obtain ⟨hid, -, -, hrun⟩ := hactivity.next t' ht'
        exact hid ▸ htasks t ht (hrun hrunning).1
      · exact htasks t' (List.mem_of_getElem? hi) hrunning

theorem Steady.step (h : Steady w) {s : Step} (hproper : Proper w s) : Steady (w.step s) := by
  cases s with
  | createJob jobId processName serviceKey mode ready => exact h.createJob hproper.1 hproper.2
  | reserveRollback jobId valid write => exact h.reserveRollback
  | move n m =>
    rw [Jobs.step, Jobs.move]
    split
    case h_1 => exact h
    case h_2 t hn =>
      split
      case h_1 => exact h
      case h_2 o ho => exact h.perform hn (move_activity ho (h.fits t (List.mem_of_getElem? hn)))
  | read jobId =>
    rw [Jobs.step, Jobs.read]
    split
    case h_1 => exact h
    case h_2 p hp =>
      split
      case isFalse => exact h
      case isTrue hdead =>
        refine ⟨h.creating, h.live, h.apart, h.fits, fun m hm => ?_⟩
        rcases List.mem_cons.1 hm with rfl | hm
        · refine ⟨by simp [hp], ?_⟩
          rintro t ht hrunning rfl
          simp [Jobs.dead, (h.record ht hrunning hp).2] at hdead
        · exact h.marks m hm
  | mark n write =>
    rw [Jobs.step, Jobs.mark]
    split
    case h_1 => exact h
    case h_2 j p hn =>
      obtain ⟨-, htasks⟩ := h.marks _ (List.mem_of_getElem? hn)
      have hsub : ∀ {w' : Jobs}, Steady w' → w'.marks = w.marks → Steady { w' with marks := w.marks.eraseIdx n } :=
        fun h hmarks => ⟨h.creating, h.live, h.apart, h.fits, fun m hm => h.marks m (hmarks ▸ List.mem_of_mem_eraseIdx hm)⟩
      split
      case isFalse => exact hsub h rfl
      case isTrue =>
        have hset : Steady { w with records := w.records.set j (w.interrupted p) } :=
          h.records (fun t ht hrunning => Dict.get?_set_ne (htasks t ht hrunning) _ _) fun j hj => known_set hj
        exact hsub hset rfl
  | wait seconds => exact ⟨h.creating, h.live, h.apart, h.fits, h.marks⟩
  | restart workerId => constructor <;> simp [Jobs.step, Jobs.restart]

/-! ## What makes a record live -/

/-- The move writes a record that was not live as `rolling_back`: a worker falls back after it has written that it is over. -/
def FallsBack (w : Jobs) (n : Nat) : Move → Prop
  | .write write => write.writes = true ∧ ∃ t ∈ w.tasks[n]?, t.stage = .worker .failing ∧ ¬LiveAt w t.jobId
  | _ => False

instance FallsBack.decidable (w : Jobs) (n : Nat) : ∀ m : Move, Decidable (FallsBack w n m)
  | .write write =>
    inferInstanceAs (Decidable (write.writes = true ∧ ∃ t ∈ w.tasks[n]?, t.stage = .worker .failing ∧ ¬LiveAt w t.jobId))
  | .raise | .verified _ | .complete _ | .skip | .restored .. | .rollbackFailed .. | .finish => .isFalse id

theorem failing_written {now own : Nat} {m : Move} {o : Outcome} {p : Payload} (h : t.move now own m = some o)
    (hstage : t.stage = .worker .failing) (hp : o.written = some p) : ∃ write, m = .write write ∧ write.writes = true := by
  simp only [Task.move, hstage] at h
  cases m with
  | write write =>
    cases h
    refine ⟨write, rfl, ?_⟩
    cases write with
    | raisedBefore => cases hp
    | done | raisedAfter => rfl
  | skip =>
    cases h
    cases hp
  | raise | verified | complete | restored | rollbackFailed | finish => cases h

variable {j : String}

theorem Steady.live_of_move (h : Steady w) {n : Nat} {m : Move} (hcreating : ∀ t ∈ w.tasks, t.stage ≠ .creating)
    (hback : ¬FallsBack w n m) (hlive : LiveAt (w.step (.move n m)) j) : LiveAt w j := by
  rw [Jobs.step, Jobs.move] at hlive
  split at hlive
  case h_1 => exact hlive
  case h_2 t hn =>
    have ht : t ∈ w.tasks := List.mem_of_getElem? hn
    split at hlive
    case h_1 => exact hlive
    case h_2 o ho =>
      obtain ⟨r, hr, hlive⟩ := hlive
      by_cases hj : j = t.jobId
      · subst hj
        rw [perform_written] at hr
        cases hw : o.written with
        | none =>
          rw [hw, Option.none_or] at hr
          exact ⟨r, hr, hlive⟩
        | some p =>
          rw [hw, Option.some_or, Option.some.injEq] at hr
          subst hr
          rcases (move_activity ho (h.fits t ht)).written p hw hlive.1 with hrunning | hfailing
          · exact h.live t ht hrunning (hcreating t ht)
          · by_contra hnot
            obtain ⟨write, rfl, hwrites⟩ := failing_written ho hfailing hw
            exact hback ⟨hwrites, t, hn, hfailing, hnot⟩
      · rw [perform_record hj] at hr
        exact ⟨r, hr, hlive⟩

def Revives (w : Jobs) : Step → Prop
  | .reserveRollback jobId valid write =>
    write.writes = true ∧ ∃ p ∈ w.records.get? jobId, Jobs.reservable (w.reported p) valid = true
  | .move n m => FallsBack w n m
  | _ => False

instance Revives.decidable (w : Jobs) : ∀ s : Step, Decidable (Revives w s)
  | .reserveRollback jobId valid write => inferInstanceAs (Decidable (write.writes = true ∧
      ∃ p ∈ w.records.get? jobId, Jobs.reservable (w.reported p) valid = true))
  | .move n m => inferInstanceAs (Decidable (FallsBack w n m))
  | .createJob .. | .read _ | .mark .. | .wait _ | .restart _ => .isFalse id

theorem live_of_reserveRollback {jobId : String} {valid : Bool} {write : Write}
    (hback : ¬Revives w (.reserveRollback jobId valid write))
    (hlive : LiveAt (w.reserveRollback jobId valid write) j) : LiveAt w j := by
  unfold Jobs.reserveRollback at hlive
  split at hlive
  case h_1 => exact hlive
  case h_2 p hp =>
    have hmarked : ∀ {w' : Jobs}, LiveAt w' j → w'.records = w.records.set jobId (w.reported p) →
        w'.workerId = w.workerId → LiveAt w j := by
      rintro w' ⟨r, hr, hactive, hown⟩ hrecords hworker
      rw [hrecords, Dict.get?_set] at hr
      split at hr
      case isTrue heq =>
        subst heq
        cases hr
        rcases reported_cases w p with hsame | ⟨hsame, -, -⟩
        · exact ⟨p, hp, by rwa [hsame] at hactive, by rwa [hsame, hworker] at hown⟩
        · rw [hsame] at hactive
          cases hactive
      case isFalse => exact ⟨r, hr, hactive, hworker ▸ hown⟩
    dsimp only at hlive
    split at hlive
    case isFalse => exact hmarked hlive rfl rfl
    case isTrue hreservable =>
      cases write with
      | raisedBefore => exact hmarked hlive rfl rfl
      | done | raisedAfter => exact absurd ⟨rfl, p, hp, hreservable⟩ hback

theorem Steady.live_of_step (h : Steady w) (hcreating : ∀ t ∈ w.tasks, t.stage ≠ .creating) {s : Step}
    (hadmits : ∀ jobId processName serviceKey mode ready, s ≠ .createJob jobId processName serviceKey mode ready)
    (hrestart : ∀ workerId, s ≠ .restart workerId) (hback : ¬Revives w s) (hlive : LiveAt (w.step s) j) :
    LiveAt w j := by
  cases s with
  | createJob => exact absurd rfl (hadmits _ _ _ _ _)
  | reserveRollback => exact live_of_reserveRollback hback hlive
  | move n m => exact h.live_of_move hcreating hback hlive
  | read =>
    rw [Jobs.step, Jobs.read] at hlive
    split at hlive
    · exact hlive
    · split at hlive <;> exact hlive
  | mark =>
    rw [Jobs.step, Jobs.mark] at hlive
    split at hlive
    case h_1 => exact hlive
    case h_2 =>
      obtain ⟨r, hr, hactive, hown⟩ := hlive
      dsimp only at hr
      split at hr
      case isFalse => exact ⟨r, hr, hactive, hown⟩
      case isTrue =>
        rw [Dict.get?_set] at hr
        split at hr
        case isTrue =>
          cases hr
          cases hactive
        case isFalse => exact ⟨r, hr, hactive, hown⟩
  | wait => exact hlive
  | restart => exact absurd rfl (hrestart _)

theorem Steady.creating_of_step (h : Steady w) (hcreating : ∀ t ∈ w.tasks, t.stage ≠ .creating) {s : Step}
    (hadmits : ∀ jobId processName serviceKey mode ready, s ≠ .createJob jobId processName serviceKey mode ready) :
    ∀ t ∈ (w.step s).tasks, t.stage ≠ .creating := by
  cases s with
  | createJob => exact absurd rfl (hadmits _ _ _ _ _)
  | reserveRollback =>
    rw [Jobs.step, Jobs.reserveRollback]
    split
    case h_1 => exact hcreating
    case h_2 =>
      dsimp only
      split
      case isFalse => exact hcreating
      case isTrue =>
        split
        case isTrue => exact hcreating
        case isFalse => simpa using hcreating
  | move n m =>
    rw [Jobs.step, Jobs.move]
    split
    case h_1 => exact hcreating
    case h_2 t hn =>
      split
      case h_1 => exact hcreating
      case h_2 o ho =>
        intro t' ht'
        rcases mem_tasks hn ht' with hnext | ⟨i, -, hi⟩
        · exact ((move_activity ho (h.fits t (List.mem_of_getElem? hn))).next t' hnext).2.2.1
        · exact hcreating t' (List.mem_of_getElem? hi)
  | read =>
    rw [Jobs.step, Jobs.read]
    split
    · exact hcreating
    · split <;> exact hcreating
  | mark =>
    rw [Jobs.step, Jobs.mark]
    split <;> exact hcreating
  | wait => exact hcreating
  | restart => exact fun _ ht => absurd ht List.not_mem_nil

theorem live_of_markAll (hlive : LiveAt w.markAll j) : LiveAt w j := by
  obtain ⟨r, hr, hactive, hown⟩ := hlive
  rw [Jobs.markAll, Dict.get?_map_values, Option.map_eq_some_iff] at hr
  obtain ⟨p, hp, rfl⟩ := hr
  rcases reported_cases w p with hsame | ⟨hsame, -⟩
  · rw [hsame] at hactive hown
    exact ⟨p, hp, hactive, hown⟩
  · rw [hsame] at hactive
    cases hactive

theorem dead_of_conflict (h : w.hasNamespaceConflictingJob = false) (j : String) : ¬LiveAt w j := by
  rintro ⟨r, hr, hlive⟩
  have hmem : r ∈ Dict.values w.records := List.mem_map.2 ⟨(j, r), Dict.mem_of_get? hr, rfl⟩
  have hresolved : Jobs.unresolved (w.reported r) = false := by
    simpa using List.any_eq_false.1 h r hmem
  rw [live_not_dead hlive, Jobs.unresolved, hlive.1] at hresolved
  cases hresolved

end Dumb.Postgres
