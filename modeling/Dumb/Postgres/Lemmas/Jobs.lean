import Dumb.Postgres.Jobs

/-!
# One operation per service
-/

namespace Dumb.Postgres

open Py

variable {w : Jobs}

/-! ## What a move can do -/

structure Legal (own : Nat) (t : Task) (o : Outcome) : Prop where
  next : ∀ t', o.next = some t' → t'.jobId = t.jobId ∧ t'.processName = t.processName ∧ t'.stage ≠ .creating ∧
    (t'.stage = .worker .prologue → t.stage = .creating ∧ ∃ p, o.written = some p ∧ p.status = t.payload.status ∧
      p.workerId = t.payload.workerId) ∧
    (t'.stage = .rollback .rolledBack → t'.payload.status = .rolledBack)
  written : ∀ p, o.written = some p → p.processName = t.processName ∧
    (t.stage = .creating → p.status = t.payload.status ∧ p.workerId = t.payload.workerId) ∧
    (t.stage = .worker .prologue → p.status = .running ∧ p.workerId = own)
  ending : t.stage = .rollback .ending → o.written = none ∧ o.next = none
  /-- A thread ends with its `finally`, or before it has come to its `try`. -/
  ends : o.next = none → o.discards = true ∨ t.stage = .worker .prologue ∨ t.stage = .creating
  discards : o.discards = true → o.next = none ∧ o.written = none ∧ t.stage ≠ .creating
  returns : o.returns = true → t.stage = .rollback .rolledBack ∧ (∃ t', o.next = some t' ∧ t'.stage = .rollback .ending) ∧
    ∃ p, o.written = some p ∧ p.status = t.payload.status

variable {p : Payload}

theorem save_next {now : Nat} {t t' : Task} {w : Write} {ok raised : Option Stage}
    (h : (t.save now p w ok raised).next = some t') :
    t'.jobId = t.jobId ∧ t'.payload = { p with updatedAt := now } ∧ (ok = some t'.stage ∨ raised = some t'.stage) := by
  cases w <;> simp only [Task.save, Write.raises, Bool.false_eq_true, if_false, if_true, Option.map_eq_some_iff] at h <;>
    obtain ⟨stage, hstage, rfl⟩ := h <;> simp [hstage]

variable {t : Task}

theorem save_written {now : Nat} {p q : Payload} {w : Write} {ok raised : Option Stage}
    (h : (t.save now p w ok raised).written = some q) : q = { p with updatedAt := now } := by
  cases w <;> simp [Task.save, Write.writes] at h <;> exact h.symm

theorem legal_save {own now : Nat} {w : Write} {place place' : Stage}
    (hname : p.processName = t.payload.processName) (hplace : place ≠ .creating ∧ place ≠ .worker .prologue)
    (hplace' : place' ≠ .creating ∧ place' ≠ .worker .prologue)
    (hrolled : place = .rollback .rolledBack ∨ place' = .rollback .rolledBack → p.status = .rolledBack)
    (hstage : t.stage ≠ .creating ∧ t.stage ≠ .worker .prologue ∧ t.stage ≠ .rollback .ending) :
    Legal own t (t.save now p w (some place) (some place')) where
  next t' h := by
    obtain ⟨hid, hpayload, hstages⟩ := save_next h
    refine ⟨hid, ?_, ?_, ?_, ?_⟩
    · rw [Task.processName, hpayload, Task.processName, ← hname]
    · rcases hstages with h | h <;> cases h
      · exact hplace.1
      · exact hplace'.1
    · intro hprologue
      rcases hstages with h | h <;> rw [hprologue, Option.some.injEq] at h
      · exact absurd h hplace.2
      · exact absurd h hplace'.2
    · intro hback
      rw [hpayload]
      rw [hback, Option.some.injEq, Option.some.injEq] at hstages
      exact hrolled hstages
  written q h := by
    rw [save_written h]
    exact ⟨hname, fun h => absurd h hstage.1, fun h => absurd h hstage.2.1⟩
  ending h := absurd h hstage.2.2
  ends h := by
    cases w <;> cases h
  discards h := nomatch h
  returns h := nomatch h

theorem legal_goOn {own : Nat} {place : Stage} (hplace : place ≠ .creating ∧ place ≠ .worker .prologue ∧
    place ≠ .rollback .rolledBack) (hstage : t.stage ≠ .rollback .ending) : Legal own t (t.goOn (some place)) where
  next t' h := by
    cases h
    exact ⟨rfl, rfl, hplace.1, fun h => absurd h hplace.2.1, fun h => absurd h hplace.2.2⟩
  written _ h := nomatch h
  ending h := absurd h hstage
  ends h := nomatch h
  discards h := nomatch h
  returns h := nomatch h

theorem legal_finally {own : Nat} (hstage : t.stage ≠ .creating) : Legal own t Task.finally_ where
  next _ h := nomatch h
  written _ h := nomatch h
  ending _ := ⟨rfl, rfl⟩
  ends _ := .inl rfl
  discards _ := ⟨rfl, rfl, hstage⟩
  returns h := nomatch h

theorem legal_worker {own now : Nat} {w : Write} {place ok raised : WorkerAt}
    (hstage : t.stage = .worker place) (hplace : place ≠ .prologue ∧ ok ≠ .prologue ∧ raised ≠ .prologue)
    (hname : p.processName = t.payload.processName) :
    Legal own t (t.save now p w (some (.worker ok)) (some (.worker raised))) := by
  apply legal_save hname
  · simpa using hplace.2.1
  · simpa using hplace.2.2
  · simp
  · simpa [hstage] using hplace.1

variable {m : Move} {o : Outcome}

variable {now own : Nat}

theorem create_legal (hstage : t.stage = .creating)
    (h : t.create now m = some o) : Legal own t o := by
  unfold Task.create at h
  split at h <;> cases h
  rename_i w
  constructor
  · intro t' ht'
    cases w with
    | done =>
      cases ht'
      exact ⟨rfl, rfl, by simp, fun _ => ⟨hstage, _, rfl, rfl, rfl⟩, by simp⟩
    | raisedBefore => cases ht'
    | raisedAfter => cases ht'
  · intro p hp
    rw [save_written hp]
    exact ⟨rfl, fun _ => ⟨rfl, rfl⟩, by simp [hstage]⟩
  · simp [hstage]
  · exact fun _ => .inr (.inr hstage)
  · exact fun h => nomatch h
  · exact fun h => nomatch h

theorem runJob_legal {place : WorkerAt} (hstage : t.stage = .worker place)
    (h : t.runJob now own place m = some o) : Legal own t o := by
  have hfirst : ∀ w, place = .prologue → Legal own t
      (t.save now { t.payload with status := .running, workerId := own } w (some (.worker .body)) none) := by
    rintro w rfl
    constructor
    · intro t' ht'
      obtain ⟨hid, hpayload, hstages⟩ := save_next ht'
      have hbody : t'.stage = .worker .body := by simpa [eq_comm] using hstages
      exact ⟨hid, by rw [Task.processName, hpayload]; rfl, by simp [hbody], by simp [hbody], by simp [hbody]⟩
    · intro p hp
      rw [save_written hp]
      exact ⟨rfl, by simp [hstage], fun _ => ⟨rfl, rfl⟩⟩
    · simp [hstage]
    · exact fun _ => .inr (.inl hstage)
    · exact fun h => nomatch h
    · exact fun h => nomatch h
  have hlost : place = .prologue → Legal own t (t.goOn none) := by
    rintro rfl
    exact ⟨fun _ h => (nomatch h), fun _ h => (nomatch h), fun _ => ⟨rfl, rfl⟩, fun _ => .inr (.inl hstage), fun h => (nomatch h),
      fun h => (nomatch h)⟩
  unfold Task.runJob at h
  split at h
  case h_1 => cases h; exact hlost rfl
  case h_2 w => cases h; exact hfirst w rfl
  case h_3 | h_8 | h_11 => cases h; exact legal_goOn (by simp) (by simp [hstage])
  case h_5 =>
    split at h <;> cases h
    exact legal_worker hstage (by simp) rfl
  case h_6 =>
    split at h
    · cases h
      exact legal_worker hstage (by simp) rfl
    · split at h <;> cases h <;> exact legal_worker hstage (by simp) rfl
  case h_15 => cases h; exact legal_finally (by simp [hstage])
  case h_16 => cases h
  all_goals cases h; exact legal_worker hstage (by simp) rfl

theorem rollbackJob_legal {place : RollbackAt}
    (hstage : t.stage = .rollback place) (hrolled : place = .rolledBack → t.payload.status = .rolledBack)
    (h : t.rollbackJob now place m = some o) : Legal own t o := by
  have hsave : ∀ (p : Payload) (w : Write) (ok : RollbackAt), place ≠ .ending → p.processName = t.payload.processName →
      (ok = .rolledBack → p.status = .rolledBack) →
        Legal own t (t.save now p w (some (.rollback ok)) (some (.rollback .ending))) := by
    intro p w ok hplace hname hok
    apply legal_save hname
    · simp
    · simp
    · simpa using hok
    · simpa [hstage] using hplace
  unfold Task.rollbackJob at h
  split at h
  case h_1 => cases h; exact hsave _ _ _ nofun rfl nofun
  case h_2 => cases h; exact hsave _ _ _ nofun rfl fun _ => rfl
  case h_3 w =>
    cases h
    have hlegal := hsave t.payload w .ending nofun rfl nofun
    refine ⟨hlegal.next, hlegal.written, hlegal.ending, hlegal.ends, hlegal.discards, fun hreturns => ?_⟩
    cases w with
    | done => exact ⟨hstage, ⟨_, rfl, rfl⟩, _, rfl, rfl⟩
    | raisedBefore => cases hreturns
    | raisedAfter => cases hreturns
  case h_4 => cases h; exact legal_finally (by simp [hstage])
  case h_5 => cases h

theorem move_legal (h : t.move now own m = some o)
    (hrolled : t.stage = .rollback .rolledBack → t.payload.status = .rolledBack) : Legal own t o := by
  unfold Task.move at h
  split at h
  case h_1 hstage => exact create_legal hstage h
  case h_2 place hstage => exact runJob_legal hstage h
  case h_3 place hstage => exact rollbackJob_legal hstage (fun hplace => hrolled (hplace ▸ hstage)) h

/-! ## The invariant -/

structure Inv (w : Jobs) : Prop where
  held : ∀ t ∈ w.tasks, t.processName ∈ w.activeProcesses
  alone : (w.tasks.map (·.processName)).Nodup
  ids : (w.tasks.map (·.jobId)).Nodup
  named : ∀ t ∈ w.tasks, ∀ r, w.records.get? t.jobId = some r → r.processName = t.processName
  creating : ∀ t ∈ w.tasks, t.stage = .creating →
    w.records.get? t.jobId = none ∧ t.payload.status = .queued ∧ t.payload.workerId = w.workerId
  prologue : ∀ t ∈ w.tasks, t.stage = .worker .prologue →
    ∃ r, w.records.get? t.jobId = some r ∧ r.status.active = true ∧ r.workerId = w.workerId
  rolled : ∀ t ∈ w.tasks, t.stage = .rollback .rolledBack → t.payload.status = .rolledBack
  left : ∀ p ∈ w.activeProcesses, (∃ t ∈ w.tasks, t.processName = p) ∨
    ∃ j r, w.records.get? j = some r ∧ r.processName = p ∧ r.status.active = true ∧ r.workerId = w.workerId
  marks : ∀ m ∈ w.marks, m.2.status.active = true ∧ m.2.workerId ≠ w.workerId
  ended : ∀ j ∈ w.rolledBack, (∃ r, w.records.get? j = some r ∧ r.status = .rolledBack) ∧
    ∀ t ∈ w.tasks, t.jobId = j → t.stage = .rollback .ending
  once : w.rolledBack.Nodup

theorem inv_start (workerId now : Nat) : Inv (Jobs.start workerId now) := by
  constructor <;> simp [Jobs.start]

theorem Inv.records (h : Inv w) {records : Dict String Payload}
    (hnone : ∀ j, w.records.get? j = none → Dict.get? j records = none)
    (hsame : ∀ j r, w.records.get? j = some r → Dict.get? j records = some r ∨
      ∃ r', Dict.get? j records = some r' ∧ r'.processName = r.processName ∧ r.status ≠ .rolledBack ∧
        (r.status.active = true → r.workerId ≠ w.workerId)) : Inv { w with records := records } where
  held := h.held
  alone := h.alone
  ids := h.ids
  named t ht r hr := by
    cases hold : w.records.get? t.jobId with
    | none => exact absurd ((hnone _ hold).symm.trans hr) nofun
    | some r' =>
      have hname := h.named t ht r' hold
      rcases hsame _ _ hold with hkept | ⟨r'', hget, hprocess, -⟩
      · exact Option.some.inj (hkept.symm.trans hr) ▸ hname
      · exact (Option.some.inj (hget.symm.trans hr) ▸ hprocess).trans hname
  creating t ht hstage := by
    obtain ⟨hrecord, hpayload⟩ := h.creating t ht hstage
    exact ⟨hnone _ hrecord, hpayload⟩
  prologue t ht hstage := by
    obtain ⟨r, hr, hactive, hown⟩ := h.prologue t ht hstage
    rcases hsame _ _ hr with hkept | ⟨-, -, -, -, hforeign⟩
    · exact ⟨r, hkept, hactive, hown⟩
    · exact absurd hown (hforeign hactive)
  rolled := h.rolled
  left p hp := by
    apply (h.left p hp).imp_right
    rintro ⟨j, r, hr, hname, hactive, hown⟩
    rcases hsame _ _ hr with hkept | ⟨-, -, -, -, hforeign⟩
    · exact ⟨j, r, hkept, hname, hactive, hown⟩
    · exact absurd hown (hforeign hactive)
  marks := h.marks
  ended j hj := by
    obtain ⟨⟨r, hr, hstatus⟩, htasks⟩ := h.ended j hj
    rcases hsame _ _ hr with hkept | ⟨-, -, -, hne, -⟩
    · exact ⟨⟨r, hkept, hstatus⟩, htasks⟩
    · exact absurd hstatus hne
  once := h.once

theorem reported_cases (w : Jobs) (p : Payload) : w.reported p = p ∨
    w.reported p = w.interrupted p ∧ p.status ≠ .rolledBack ∧ p.workerId ≠ w.workerId := by
  unfold Jobs.reported
  split
  case isTrue hdead =>
    right
    simp only [Jobs.dead, Bool.and_eq_true, decide_eq_true_eq] at hdead
    refine ⟨rfl, ?_, hdead.2⟩
    intro hstatus
    rw [hstatus] at hdead
    exact absurd hdead.1 (by decide)
  case isFalse => exact .inl rfl

theorem Inv.markAll (h : Inv w) : Inv w.markAll := by
  apply h.records
  · intro j hj
    rw [Dict.get?_map_values, hj]
    rfl
  · intro j r hj
    rw [Dict.get?_map_values, hj, Option.map_some]
    rcases reported_cases w r with heq | ⟨heq, hstatus, hown⟩
    · exact .inl (congrArg some heq)
    · exact .inr ⟨_, congrArg some heq, rfl, hstatus, fun _ => hown⟩

/-! ## Steps -/

def Proper (w : Jobs) : Step → Prop
  | .createJob jobId .. => w.records.get? jobId = none ∧ ∀ t ∈ w.tasks, t.jobId ≠ jobId
  | _ => True

/-- A rollback is reserved while nothing runs for its service, a new job is recorded, and a record is marked while it is as
it was read or as another reader has marked it. -/
def Guarded (w : Jobs) : Step → Prop
  | .reserveRollback jobId _ _ => ∀ p, w.records.get? jobId = some p → p.processName ∉ w.activeProcesses
  | .move n m => ∀ t, w.tasks[n]? = some t → t.stage = .creating → m ≠ .write .raisedBefore
  | .mark n write => ∀ j p, w.marks[n]? = some (j, p) → write.writes = true →
      ∃ r, w.records.get? j = some r ∧ (r = p ∨ r.status = .interrupted ∧ r.processName = p.processName)
  | _ => True

instance Proper.decidable (w : Jobs) : ∀ s : Step, Decidable (Proper w s)
  | .createJob jobId .. => inferInstanceAs (Decidable (_ = _ ∧ ∀ t ∈ w.tasks, t.jobId ≠ jobId))
  | .reserveRollback .. | .move .. | .read _ | .mark .. | .wait _ | .restart _ => .isTrue trivial

instance Guarded.decidable (w : Jobs) : ∀ s : Step, Decidable (Guarded w s)
  | .reserveRollback jobId _ _ => inferInstanceAs (Decidable (∀ p ∈ w.records.get? jobId, p.processName ∉ w.activeProcesses))
  | .move n m => inferInstanceAs (Decidable (∀ t ∈ w.tasks[n]?, t.stage = .creating → m ≠ .write .raisedBefore))
  | .mark n write =>
    decidable_of_iff (∀ e ∈ w.marks[n]?, write.writes = true →
        ∃ r ∈ w.records.get? e.1, r = e.2 ∨ r.status = .interrupted ∧ r.processName = e.2.processName)
      ⟨fun h j p hn => h (j, p) hn, fun h e => h e.1 e.2⟩
  | .createJob .. | .read _ | .wait _ | .restart _ => .isTrue trivial

theorem Inv.add (h : Inv w) (hfree : t.processName ∉ w.activeProcesses) (hid : ∀ t' ∈ w.tasks, t'.jobId ≠ t.jobId)
    (hnamed : ∀ r, w.records.get? t.jobId = some r → r.processName = t.processName ∧ r.status ≠ .rolledBack)
    (hcreating : t.stage = .creating → w.records.get? t.jobId = none ∧ t.payload.status = .queued ∧ t.payload.workerId = w.workerId)
    (hprologue : t.stage ≠ .worker .prologue) (hrolled : t.stage ≠ .rollback .rolledBack) :
    Inv { w with activeProcesses := t.processName :: w.activeProcesses, tasks := t :: w.tasks } where
  held t' ht' := by
    rcases List.mem_cons.1 ht' with rfl | ht'
    · exact List.mem_cons_self
    · exact List.mem_cons_of_mem _ (h.held t' ht')
  alone := by
    rw [List.map_cons, List.nodup_cons]
    refine ⟨fun hmem => ?_, h.alone⟩
    obtain ⟨t', ht', hname⟩ := List.mem_map.1 hmem
    exact hfree (hname ▸ h.held t' ht')
  ids := by
    rw [List.map_cons, List.nodup_cons]
    refine ⟨fun hmem => ?_, h.ids⟩
    obtain ⟨t', ht', heq⟩ := List.mem_map.1 hmem
    exact hid t' ht' heq
  named t' ht' r hr := by
    rcases List.mem_cons.1 ht' with rfl | ht'
    · exact (hnamed r hr).1
    · exact h.named t' ht' r hr
  creating t' ht' hstage := by
    rcases List.mem_cons.1 ht' with rfl | ht'
    · exact hcreating hstage
    · exact h.creating t' ht' hstage
  prologue t' ht' hstage := by
    rcases List.mem_cons.1 ht' with rfl | ht'
    · exact absurd hstage hprologue
    · exact h.prologue t' ht' hstage
  rolled t' ht' hstage := by
    rcases List.mem_cons.1 ht' with rfl | ht'
    · exact absurd hstage hrolled
    · exact h.rolled t' ht' hstage
  left p hp := by
    rcases List.mem_cons.1 hp with rfl | hp
    · exact .inl ⟨t, List.mem_cons_self, rfl⟩
    · apply (h.left p hp).imp_left
      rintro ⟨t', ht', hname⟩
      exact ⟨t', List.mem_cons_of_mem _ ht', hname⟩
  marks := h.marks
  ended j hj := by
    obtain ⟨⟨r, hr, hstatus⟩, htasks⟩ := h.ended j hj
    refine ⟨⟨r, hr, hstatus⟩, fun t' ht' hjob => ?_⟩
    rcases List.mem_cons.1 ht' with rfl | ht'
    · exact absurd hstatus (hnamed r (hjob ▸ hr)).2
    · exact htasks t' ht' hjob
  once := h.once

theorem Inv.createJob (h : Inv w) {jobId processName serviceKey : String} {mode : Mode} {ready : Bool}
    (hnone : w.records.get? jobId = none) (hids : ∀ t ∈ w.tasks, t.jobId ≠ jobId) :
    Inv (w.createJob jobId processName serviceKey mode ready) := by
  unfold Jobs.createJob
  split
  case isFalse => exact h.markAll
  case isTrue hadmits =>
    have hnone' : Dict.get? jobId w.markAll.records = none := by
      rw [Jobs.markAll, Dict.get?_map_values, hnone]
      rfl
    have hfree : processName ∉ w.activeProcesses := by
      simp only [Jobs.admits, Bool.and_eq_true, Bool.not_eq_true'] at hadmits
      simpa using hadmits.1.2
    apply h.markAll.add (t := ⟨jobId, ⟨processName, serviceKey, mode, .queued, false, false, w.workerId, w.now⟩, .creating⟩)
    · exact hfree
    · exact hids
    · exact fun r hr => absurd (hnone'.symm.trans hr) nofun
    · exact fun _ => ⟨hnone', rfl, rfl⟩
    · exact nofun
    · exact nofun

theorem Inv.reserveRollback (h : Inv w) {jobId : String} {valid : Bool} {write : Write}
    (hfree : ∀ p, w.records.get? jobId = some p → p.processName ∉ w.activeProcesses) :
    Inv (w.reserveRollback jobId valid write) := by
  unfold Jobs.reserveRollback
  split
  case h_1 => exact h
  case h_2 p hp =>
    have hset : ∀ {w' : Jobs} {r : Payload} (r' : Payload), Inv w' → w'.records.get? jobId = some r → r'.processName = r.processName →
        (r' = r ∨ r.status ≠ .rolledBack ∧ (r.status.active = true → r.workerId ≠ w'.workerId)) →
          Inv { w' with records := w'.records.set jobId r' } := by
      intro w' r r' hw' hr hname hcases
      apply hw'.records
      · intro j hj
        have hne : j ≠ jobId := by
          rintro rfl
          exact absurd (hj.symm.trans hr) nofun
        rw [Dict.get?_set_ne hne, hj]
      · intro j q hj
        by_cases hne : j = jobId
        · subst hne
          rw [Dict.get?_set_self]
          obtain rfl : q = r := Option.some.inj (hj.symm.trans hr)
          rcases hcases with rfl | hcases
          · exact .inl rfl
          · exact .inr ⟨r', rfl, hname, hcases⟩
        · exact .inl ((Dict.get?_set_ne hne _ _).trans hj)
    have hmarked : Inv { w with records := w.records.set jobId (w.reported p) } ∧ (w.reported p).processName = p.processName := by
      rcases reported_cases w p with heq | ⟨heq, hstatus, hown⟩
      · exact ⟨hset _ h hp (congrArg _ heq) (.inl heq), congrArg _ heq⟩
      · have hname : (w.reported p).processName = p.processName := by
          rw [heq]
          rfl
        exact ⟨hset _ h hp hname (.inr ⟨hstatus, fun _ => hown⟩), hname⟩
    dsimp only
    split
    case isFalse => exact hmarked.1
    case isTrue hreservable =>
      have hstatus : (w.reported p).status ≠ .rolledBack ∧ (w.reported p).status.active = false := by
        simp only [Jobs.reservable, Bool.and_eq_true, Bool.or_eq_true, decide_eq_true_eq, Bool.not_eq_true'] at hreservable
        refine ⟨fun h => ?_, hreservable.1.1.1.1.1⟩
        simp [h] at hreservable
      have hreserved := hset { w.reported p with status := .rollingBack, workerId := w.workerId, updatedAt := w.now } hmarked.1
        (Dict.get?_set_self _ _ _) rfl (.inr ⟨hstatus.1, fun hactive => absurd (hstatus.2.symm.trans hactive) nofun⟩)
      cases write with
      | done =>
        have hname : p.processName ∉ w.activeProcesses := hfree p hp
        apply hreserved.add (t := ⟨jobId, { w.reported p with status := .rollingBack, workerId := w.workerId, updatedAt := w.now },
          .rollback .restoring⟩)
        · exact fun hmem => hname (hmarked.2 ▸ hmem)
        · rintro t' ht' rfl
          exact hname (h.named t' ht' p hp ▸ h.held t' ht')
        · intro r hr
          rw [Dict.get?_set_self, Option.some.injEq] at hr
          exact hr ▸ ⟨rfl, nofun⟩
        · exact nofun
        · exact nofun
        · exact nofun
      | raisedBefore => exact hmarked.1
      | raisedAfter => exact hreserved

variable {n : Nat}

theorem Inv.mark (h : Inv w) {write : Write}
    (hkept : ∀ j p, w.marks[n]? = some (j, p) → write.writes = true →
      ∃ r, w.records.get? j = some r ∧ (r = p ∨ r.status = .interrupted ∧ r.processName = p.processName)) :
    Inv (w.mark n write) := by
  have hmarks : ∀ {w' : Jobs} {marks : List (String × Payload)}, Inv w' → (∀ m ∈ marks, m ∈ w'.marks) →
      Inv { w' with marks := marks } := fun h hsub => ⟨h.held, h.alone, h.ids, h.named, h.creating, h.prologue, h.rolled, h.left,
    fun m hm => h.marks m (hsub m hm), h.ended, h.once⟩
  unfold Jobs.mark
  split
  case h_1 => exact h
  case h_2 j p hn =>
    have hsub : ∀ m ∈ w.marks.eraseIdx n, m ∈ w.marks := fun m hm => List.mem_of_mem_eraseIdx hm
    split
    case isFalse => exact hmarks h hsub
    case isTrue hwrites =>
      obtain ⟨r, hr, hcases⟩ := hkept j p hn hwrites
      obtain ⟨hactive, hforeign⟩ := h.marks _ (List.mem_of_getElem? hn)
      have hset : Inv { w with records := w.records.set j (w.interrupted p) } := by
        apply h.records
        · intro j' hj'
          have hne : j' ≠ j := by
            rintro rfl
            exact absurd (hj'.symm.trans hr) nofun
          rw [Dict.get?_set_ne hne, hj']
        · intro j' q hq
          by_cases hne : j' = j
          · subst hne
            obtain rfl : q = r := Option.some.inj (hq.symm.trans hr)
            right
            refine ⟨_, Dict.get?_set_self _ _ _, ?_⟩
            rcases hcases with rfl | ⟨hstatus, hname⟩
            · refine ⟨rfl, fun hstatus => ?_, fun _ => hforeign⟩
              rw [hstatus] at hactive
              cases hactive
            · refine ⟨hname.symm, by simp [hstatus], fun hq => ?_⟩
              rw [hstatus] at hq
              cases hq
          · exact .inl ((Dict.get?_set_ne hne _ _).trans hq)
      exact hmarks hset hsub

theorem mem_tasks {t t' : Task} (hn : w.tasks[n]? = some t) (h : t' ∈ (w.perform t n o).tasks) :
    o.next = some t' ∨ ∃ i, i ≠ n ∧ w.tasks[i]? = some t' := by
  unfold Jobs.perform at h
  dsimp only at h
  split at h
  case h_1 => exact .inr (List.mem_eraseIdx_iff_getElem?.1 h)
  case h_2 t'' hnext =>
    obtain ⟨i, hi⟩ := List.mem_iff_getElem?.1 h
    have hlt := (List.getElem?_eq_some_iff.1 hn).1
    by_cases hin : n = i
    · subst hin
      rw [List.getElem?_set_self hlt] at hi
      exact .inl (hnext.trans hi)
    · rw [List.getElem?_set_ne hin] at hi
      exact .inr ⟨i, Ne.symm hin, hi⟩

theorem tasks_mem {t t' : Task} {n i : Nat} (o : Outcome) (hi : w.tasks[i]? = some t') (hin : i ≠ n) :
    t' ∈ (w.perform t n o).tasks := by
  unfold Jobs.perform
  dsimp only
  split
  · exact List.mem_eraseIdx_iff_getElem?.2 ⟨i, hin, hi⟩
  · exact List.mem_iff_getElem?.2 ⟨i, (List.getElem?_set_ne (Ne.symm hin)).trans hi⟩

theorem Inv.other (h : Inv w) {t t' : Task} {n i : Nat} (hn : w.tasks[n]? = some t) (hi : w.tasks[i]? = some t') (hin : i ≠ n) :
    t' ∈ w.tasks ∧ t'.processName ≠ t.processName ∧ t'.jobId ≠ t.jobId := by
  have hneq : ∀ f : Task → String, (w.tasks.map f).Nodup → f t' ≠ f t := by
    intro f hnodup heq
    have hlt : i < (w.tasks.map f).length := by
      rw [List.length_map]
      exact (List.getElem?_eq_some_iff.1 hi).1
    apply hin
    apply (List.getElem?_inj hlt hnodup).1
    rw [List.getElem?_map, List.getElem?_map, hi, hn, Option.map_some, Option.map_some, heq]
  exact ⟨List.mem_of_getElem? hi, hneq _ h.alone, hneq _ h.ids⟩

theorem perform_record {j : String} (hj : j ≠ t.jobId) :
    (w.perform t n o).records.get? j = w.records.get? j := by
  unfold Jobs.perform
  dsimp only
  split
  · rfl
  · exact Dict.get?_set_ne hj _ _

theorem perform_written :
    (w.perform t n o).records.get? t.jobId = o.written.or (w.records.get? t.jobId) := by
  unfold Jobs.perform
  dsimp only
  split
  case h_1 h => rw [h, Option.none_or]
  case h_2 p h => rw [h, Dict.get?_set_self, Option.some_or]

theorem perform_names {f : Task → String} (hn : w.tasks[n]? = some t)
    (hf : ∀ t', o.next = some t' → f t' = f t) (h : (w.tasks.map f).Nodup) : ((w.perform t n o).tasks.map f).Nodup := by
  unfold Jobs.perform
  dsimp only
  split
  case h_1 => exact h.sublist ((List.eraseIdx_sublist _ _).map f)
  case h_2 t' hnext =>
    obtain ⟨hlt, heq⟩ := List.getElem?_eq_some_iff.1 hn
    have hsame : (w.tasks.map f).set n (f t') = w.tasks.map f := by
      rw [hf t' hnext, ← heq, ← List.getElem_map f (h := by simpa using hlt)]
      exact List.set_getElem_self _
    rw [List.map_set, hsame]
    exact h

theorem Inv.lost (h : Inv w) (hn : w.tasks[n]? = some t) (hlegal : Legal w.workerId t o)
    (hnext : o.next = none) (hdiscards : o.discards = false) (hwritten : t.stage = .creating → o.written ≠ none) :
    ∃ r, (w.perform t n o).records.get? t.jobId = some r ∧ r.processName = t.processName ∧ r.status.active = true ∧
      r.workerId = w.workerId := by
  have ht : t ∈ w.tasks := List.mem_of_getElem? hn
  rw [perform_written]
  rcases hlegal.ends hnext with hfalse | hstage | hstage
  · rw [hdiscards] at hfalse
    cases hfalse
  · cases hw : o.written with
    | none =>
      obtain ⟨r, hr, hactive, hown⟩ := h.prologue t ht hstage
      exact ⟨r, by rw [Option.none_or, hr], h.named t ht r hr, hactive, hown⟩
    | some p =>
      obtain ⟨hname, -, hprologue⟩ := hlegal.written p hw
      obtain ⟨hstatus, hown⟩ := hprologue hstage
      exact ⟨p, rfl, hname, by rw [hstatus]; rfl, hown⟩
  · cases hw : o.written with
    | none => exact absurd hw (hwritten hstage)
    | some p =>
      obtain ⟨hname, hcreating, -⟩ := hlegal.written p hw
      obtain ⟨hstatus, hown⟩ := hcreating hstage
      obtain ⟨-, hqueued, hown'⟩ := h.creating t ht hstage
      exact ⟨p, rfl, hname, by rw [hstatus, hqueued]; rfl, hown.trans hown'⟩

theorem Inv.perform (h : Inv w) (hn : w.tasks[n]? = some t) (hlegal : Legal w.workerId t o)
    (hwritten : t.stage = .creating → o.next = none → o.written ≠ none) : Inv (w.perform t n o) := by
  have ht : t ∈ w.tasks := List.mem_of_getElem? hn
  have hnext : ∀ t', o.next = some t' → t' ∈ (w.perform t n o).tasks := by
    intro t' ht'
    have hlt := (List.getElem?_eq_some_iff.1 hn).1
    simp only [Jobs.perform, ht']
    exact List.mem_set hlt _
  have hactive : ∀ {p : String}, p ∈ w.activeProcesses → p ≠ t.processName ∨ o.discards = false →
      p ∈ (w.perform t n o).activeProcesses := by
    intro p hp hcases
    unfold Jobs.perform
    dsimp only
    split
    case isTrue hdiscards => exact List.mem_filter.2 ⟨hp, by simpa using hcases.resolve_right (by simp [hdiscards])⟩
    case isFalse => exact hp
  constructor
  · intro t' ht'
    rcases mem_tasks hn ht' with ht' | ⟨i, hin, hi⟩
    · have hdiscards : o.discards = false := by
        by_contra hdiscards
        have := (hlegal.discards (by simpa using hdiscards)).1
        rw [ht'] at this
        cases this
      rw [(hlegal.next t' ht').2.1]
      exact hactive (h.held t ht) (.inr hdiscards)
    · obtain ⟨hmem, hname, -⟩ := h.other hn hi hin
      exact hactive (h.held t' hmem) (.inl hname)
  · exact perform_names hn (fun t' ht' => (hlegal.next t' ht').2.1) h.alone
  · exact perform_names hn (fun t' ht' => (hlegal.next t' ht').1) h.ids
  · intro t' ht' r hr
    rcases mem_tasks hn ht' with ht' | ⟨i, hin, hi⟩
    · obtain ⟨hid, hname, -⟩ := hlegal.next t' ht'
      rw [hid, perform_written] at hr
      rw [hname]
      cases hw : o.written with
      | none =>
        rw [hw, Option.none_or] at hr
        exact h.named t ht r hr
      | some p =>
        rw [hw, Option.some_or, Option.some.injEq] at hr
        exact hr ▸ (hlegal.written p hw).1
    · obtain ⟨hmem, -, hid⟩ := h.other hn hi hin
      rw [perform_record hid] at hr
      exact h.named t' hmem r hr
  · intro t' ht' hstage
    rcases mem_tasks hn ht' with ht' | ⟨i, hin, hi⟩
    · exact absurd hstage (hlegal.next t' ht').2.2.1
    · obtain ⟨hmem, -, hid⟩ := h.other hn hi hin
      rw [perform_record hid]
      exact h.creating t' hmem hstage
  · intro t' ht' hstage
    rcases mem_tasks hn ht' with ht' | ⟨i, hin, hi⟩
    · obtain ⟨hid, -, -, hprologue, -⟩ := hlegal.next t' ht'
      obtain ⟨hcreating, p, hw, hstatus, hown⟩ := hprologue hstage
      obtain ⟨-, hqueued, hown'⟩ := h.creating t ht hcreating
      exact ⟨p, by rw [hid, perform_written, hw, Option.some_or], by rw [hstatus, hqueued]; rfl, hown.trans hown'⟩
    · obtain ⟨hmem, -, hid⟩ := h.other hn hi hin
      rw [perform_record hid]
      exact h.prologue t' hmem hstage
  · intro t' ht' hstage
    rcases mem_tasks hn ht' with ht' | ⟨i, hin, hi⟩
    · exact (hlegal.next t' ht').2.2.2.2 hstage
    · exact h.rolled t' (h.other hn hi hin).1 hstage
  · intro p hp
    have hp' : p ∈ w.activeProcesses ∧ (o.discards = true → p ≠ t.processName) := by
      unfold Jobs.perform at hp
      dsimp only at hp
      split at hp
      case isTrue => exact ⟨(List.mem_filter.1 hp).1, fun _ => by simpa using (List.mem_filter.1 hp).2⟩
      case isFalse hdiscards => exact ⟨hp, fun h => absurd h hdiscards⟩
    by_cases hname : p = t.processName
    · cases hdiscards : o.discards with
      | true => exact absurd hname (hp'.2 hdiscards)
      | false =>
        cases ho : o.next with
        | none =>
          obtain ⟨r, hr, hprocess, hrest⟩ := h.lost hn hlegal ho hdiscards fun hstage => hwritten hstage ho
          exact .inr ⟨t.jobId, r, hr, hprocess.trans hname.symm, hrest⟩
        | some t' => exact .inl ⟨t', hnext t' ho, (hlegal.next t' ho).2.1.trans hname.symm⟩
    · rcases h.left p hp'.1 with ⟨t', ht', heq⟩ | ⟨j, r, hr, hprocess, hrest⟩
      · obtain ⟨i, hi⟩ := List.mem_iff_getElem?.1 ht'
        have hin : i ≠ n := by
          rintro rfl
          obtain rfl : t' = t := Option.some.inj (hi.symm.trans hn)
          exact hname heq.symm
        exact .inl ⟨t', tasks_mem o hi hin, heq⟩
      · have hj : j ≠ t.jobId := by
          rintro rfl
          exact hname (hprocess.symm.trans (h.named t ht r hr))
        exact .inr ⟨j, r, (perform_record hj).trans hr, hprocess, hrest⟩
  · exact h.marks
  · intro j hj
    have hcases : j ∈ w.rolledBack ∨ o.returns = true ∧ j = t.jobId := by
      unfold Jobs.perform at hj
      dsimp only at hj
      split at hj
      case isTrue hreturns => exact (List.mem_cons.1 hj).symm.imp_right fun hj => ⟨hreturns, hj⟩
      case isFalse => exact .inl hj
    rcases hcases with hold | ⟨hreturns, rfl⟩
    · obtain ⟨⟨r, hr, hstatus⟩, htasks⟩ := h.ended j hold
      have hquiet : j = t.jobId → o.written = none ∧ o.next = none := fun hjob => hlegal.ending (htasks t ht hjob.symm)
      refine ⟨⟨r, ?_, hstatus⟩, fun t' ht' hjob => ?_⟩
      · by_cases hjob : j = t.jobId
        · rw [hjob, perform_written, (hquiet hjob).1, Option.none_or, ← hjob, hr]
        · rw [perform_record hjob, hr]
      · rcases mem_tasks hn ht' with ht' | ⟨i, hin, hi⟩
        · have hjob' := hjob.symm.trans (hlegal.next t' ht').1
          exact absurd ((hquiet hjob').2.symm.trans ht') nofun
        · exact htasks t' (h.other hn hi hin).1 hjob
    · obtain ⟨hstage, ⟨t', ht', hending⟩, p, hw, hstatus⟩ := hlegal.returns hreturns
      refine ⟨⟨p, by rw [perform_written, hw, Option.some_or], hstatus.trans (h.rolled t ht hstage)⟩, fun t'' ht'' hjob => ?_⟩
      rcases mem_tasks hn ht'' with ht'' | ⟨i, hin, hi⟩
      · obtain rfl : t' = t'' := Option.some.inj (ht'.symm.trans ht'')
        exact hending
      · exact absurd hjob (h.other hn hi hin).2.2
  · unfold Jobs.perform
    dsimp only
    split
    case isTrue hreturns =>
      refine List.nodup_cons.2 ⟨fun hmem => ?_, h.once⟩
      have hending := (h.ended t.jobId hmem).2 t ht rfl
      rw [(hlegal.returns hreturns).1] at hending
      cases hending
    case isFalse => exact h.once

theorem Inv.step (h : Inv w) {s : Step} (hproper : Proper w s) (hguarded : Guarded w s) : Inv (w.step s) := by
  cases s with
  | createJob jobId processName serviceKey mode ready => exact h.createJob hproper.1 hproper.2
  | reserveRollback jobId valid write => exact h.reserveRollback hguarded
  | move n m =>
    rw [Jobs.step, Jobs.move]
    split
    case h_1 => exact h
    case h_2 t hn =>
      split
      case h_1 => exact h
      case h_2 o ho =>
        apply h.perform hn (move_legal ho (h.rolled t (List.mem_of_getElem? hn)))
        intro hstage hnext hnone
        have hm := hguarded t hn hstage
        simp only [Task.move, hstage, Task.create] at ho
        split at ho
        case h_2 => cases ho
        case h_1 write =>
          cases ho
          cases write with
          | done => cases hnext
          | raisedBefore => exact hm rfl
          | raisedAfter => cases hnone
  | read jobId =>
    rw [Jobs.step, Jobs.read]
    split
    case h_1 => exact h
    case h_2 p hp =>
      split
      case isFalse => exact h
      case isTrue hdead =>
        refine ⟨h.held, h.alone, h.ids, h.named, h.creating, h.prologue, h.rolled, h.left, fun m hm => ?_, h.ended, h.once⟩
        rcases List.mem_cons.1 hm with rfl | hm
        · simpa [Jobs.dead] using hdead
        · exact h.marks m hm
  | mark n write => exact h.mark hguarded
  | wait seconds => exact ⟨h.held, h.alone, h.ids, h.named, h.creating, h.prologue, h.rolled, h.left, h.marks, h.ended, h.once⟩
  | restart workerId =>
    refine ⟨?_, List.nodup_nil, List.nodup_nil, ?_, ?_, ?_, ?_, ?_, ?_, ?_, h.once⟩
    · simp [Jobs.step, Jobs.restart]
    · simp [Jobs.step, Jobs.restart]
    · simp [Jobs.step, Jobs.restart]
    · simp [Jobs.step, Jobs.restart]
    · simp [Jobs.step, Jobs.restart]
    · simp [Jobs.step, Jobs.restart]
    · simp [Jobs.step, Jobs.restart]
    · intro j hj
      exact ⟨(h.ended j hj).1, by simp [Jobs.step, Jobs.restart]⟩

/-! ## Admission -/

theorem latestJob_mem {processName : String} (h : w.latestJob processName = some p) :
    p ∈ (Dict.values w.records).map w.reported ∧ p.processName = processName := by
  unfold Jobs.latestJob at h
  apply (foldl_picks _ h).resolve_left (by simp)
  intro latest q p h
  split at h
  case isTrue hname =>
    split at h
    · cases h
      exact .inr ⟨rfl, hname⟩
    · split at h
      · cases h
        exact .inr ⟨rfl, hname⟩
      · exact .inl h
  case isFalse => exact .inl h

/-- One operation a service, one success a rollback, and a service that is free once nothing is about it. -/
structure Exclusive (w : Jobs) : Prop where
  alone : (w.tasks.map (·.processName)).Nodup
  once : w.rolledBack.Nodup
  free : ∀ processName, (∀ t ∈ w.tasks, t.processName ≠ processName) →
    (∀ j r, w.records.get? j = some r → r.processName = processName → r.status.active = false) →
      processName ∉ w.activeProcesses ∧ ∀ serviceKey, w.admits processName serviceKey true =
        !(serviceKey = "infinidysk" && w.hasActiveInfinidyskJob)

theorem Inv.exclusive (h : Inv w) (hdistinct : (Dict.keys w.records).Nodup) : Exclusive w where
  alone := h.alone
  once := h.once
  free processName htasks hrecords := by
    have hfree : processName ∉ w.activeProcesses := by
      intro hmem
      rcases h.left processName hmem with ⟨t, ht, hname⟩ | ⟨j, r, hr, hname, hactive, -⟩
      · exact htasks t ht hname
      · exact absurd ((hrecords j r hr hname).symm.trans hactive) nofun
    refine ⟨hfree, fun serviceKey => ?_⟩
    have hlatest : (w.latestJob processName).any (fun p => p.status.active) = false := by
      cases hp : w.latestJob processName with
      | none => rfl
      | some p =>
        obtain ⟨hmem, hname⟩ := latestJob_mem hp
        obtain ⟨r, hr, rfl⟩ := List.mem_map.1 hmem
        obtain ⟨⟨j, r'⟩, hj, rfl⟩ := List.mem_map.1 hr
        have hget := Dict.get?_of_mem hdistinct hj
        rcases reported_cases w r' with heq | ⟨heq, -⟩
        · rw [heq] at hname ⊢
          exact hrecords j r' hget hname
        · rw [heq]
          rfl
    simp [Jobs.admits, hfree, hlatest]

theorem keys_step (h : (Dict.keys w.records).Nodup) (s : Step) : (Dict.keys (w.step s).records).Nodup := by
  have hmarkAll : (Dict.keys w.markAll.records).Nodup := by
    have hkeys : Dict.keys w.markAll.records = Dict.keys w.records := by simp [Jobs.markAll, Dict.keys]
    exact hkeys ▸ h
  cases s with
  | createJob =>
    rw [Jobs.step, Jobs.createJob]
    split <;> exact hmarkAll
  | reserveRollback =>
    rw [Jobs.step, Jobs.reserveRollback]
    split
    · exact h
    · have hset : ∀ {ms : Dict String Payload} {j : String} {p : Payload}, (Dict.keys ms).Nodup → (Dict.keys (ms.set j p)).Nodup :=
        fun h => Dict.nodup_keys_set h
      dsimp only
      split
      · split <;> split <;> first | exact hset (hset h) | exact hset h
      · exact hset h
  | move n m =>
    rw [Jobs.step, Jobs.move]
    split
    · exact h
    · split
      · exact h
      · unfold Jobs.perform
        dsimp only
        split
        · exact h
        · exact Dict.nodup_keys_set h
  | read =>
    rw [Jobs.step, Jobs.read]
    split
    · exact h
    · split <;> exact h
  | mark =>
    rw [Jobs.step, Jobs.mark]
    split
    · exact h
    · dsimp only
      split
      · exact Dict.nodup_keys_set h
      · exact h
  | wait => exact h
  | restart => exact h

end Dumb.Postgres
