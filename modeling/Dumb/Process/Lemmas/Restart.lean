import Mathlib.Tactic.Linarith
import Mathlib.Data.List.Basic
import Dumb.Process.Restart

/-!
# What one turn does to the pending restart and to the attempts
-/

namespace Dumb.Process

variable {policy : Policy}

def window (policy : Policy) (now : Rat) (attempts : List Rat) : List Rat :=
  attempts.filter fun t => now - t < policy.windowSeconds

theorem window_window {now now' : Rat} (h : now ≤ now') (attempts : List Rat) :
    window policy now' (window policy now attempts) = window policy now' attempts := by
  simp only [window, List.filter_filter]
  refine List.filter_congr fun t _ => ?_
  simp only [Bool.and_eq_left_iff_imp, decide_eq_true_eq]
  intro ht
  linarith

theorem window_append (now : Rat) (attempts attempts' : List Rat) :
    window policy now (attempts ++ attempts') = window policy now attempts ++ window policy now attempts' := by
  simp [window]

theorem window_length (policy : Policy) {now now' : Rat} (h : now ≤ now') (attempts : List Rat) :
    (window policy now' attempts).length ≤ (window policy now attempts).length := by
  rw [← window_window h]
  exact List.length_filter_le _ _

structure SamePending (w w' : World) : Prop where
  pending : w'.state.pending = w.state.pending
  next : w'.state.nextRestartTime = w.state.nextRestartTime

structure Cleared (w : World) : Prop where
  pending : w.state.pending = false
  next : w.state.nextRestartTime = none

structure SameAttempts (policy : Policy) (w w' : World) : Prop where
  clock : w'.clock = w.clock
  recorded : w'.recorded = w.recorded
  recent : window policy w.clock w'.state.recentAttempts = window policy w.clock w.state.recentAttempts

/-! ## Calls -/

inductive CallTurn (policy : Policy) (w w' : World) (t : Thread World String (Option Rat)) : Prop
  | same (hsame : SamePending w w') (hend : ∀ delay, t ≠ .ret (some delay))
  | clear (hclear : Cleared w') (hend : ∀ delay, t ≠ .ret (some delay))
  | schedule (hfree : w.state.pending = false) (hpending : w'.state.pending = true)
      (hroom : ((window policy w.clock w.state.recentAttempts).length : Int) < policy.maxRestarts)
      (delay : Rat) (hend : t = .ret (some delay))

def Calling (policy : Policy) : Thread World String (Option Rat) → Rat → Prop
  | .ret _, _ => True
  | .raise _, _ => True
  | .act f k, now => ∀ w, now ≤ w.clock →
      SameAttempts policy w (f w) ∧ CallTurn policy w (f w) (k w) ∧ Calling policy (k w) w.clock

theorem Calling.mono {t : Thread World String (Option Rat)} {now now' : Rat} (h : Calling policy t now)
    (hle : now ≤ now') : Calling policy t now' := by
  cases t with
  | ret a => trivial
  | raise e => trivial
  | act f k => exact fun w hw => h w (hle.trans hw)

theorem SameAttempts.refl (w : World) : SameAttempts policy w w := ⟨rfl, rfl, rfl⟩

def Open (t : Thread World String (Option Rat)) : Prop := ∀ delay, t ≠ .ret (some delay)

variable {now : Rat}

theorem calling_read {β : Type} {g : World → β} {k : β → Thread World String (Option Rat)}
    (hopen : ∀ w, Open (k (g w))) (h : ∀ w, now ≤ w.clock → Calling policy (k (g w)) w.clock) :
    Calling policy (Thread.read g >>= k) now :=
  fun w hw => ⟨.refl w, .same ⟨rfl, rfl⟩ (hopen w), h w hw⟩

theorem calling_modify {f : World → World} {k : Unit → Thread World String (Option Rat)}
    (hattempts : ∀ w, SameAttempts policy w (f w)) (hpending : ∀ w, SamePending w (f w)) (hopen : Open (k ()))
    (h : ∀ now', now ≤ now' → Calling policy (k ()) now') : Calling policy (Thread.modify f >>= k) now :=
  fun w hw => ⟨hattempts w, .same (hpending w) hopen, h _ hw⟩

theorem calling_update {β : Type} {f : World → β × World} {k : β → Thread World String (Option Rat)}
    (hattempts : ∀ w, SameAttempts policy w (f w).2) (hpending : ∀ w, SamePending w (f w).2) (hopen : ∀ b, Open (k b))
    (h : ∀ b now', now ≤ now' → Calling policy (k b) now') : Calling policy (Thread.update f >>= k) now :=
  fun w hw => ⟨hattempts w, .same (hpending w) (hopen _), h _ _ hw⟩

theorem open_none : Open (.ret none : Thread World String (Option Rat)) := by
  rintro delay ⟨⟩

theorem open_act {f : World → World} {k : World → Thread World String (Option Rat)} : Open (.act f k) := by
  rintro delay ⟨⟩

theorem schedule_calling (policy : Policy) (reason : String) {w : World} (hnow : now ≤ w.clock) :
    SameAttempts policy w { w with state := (schedule policy reason now w.state).2 } ∧
      CallTurn policy w { w with state := (schedule policy reason now w.state).2 }
        (.ret (schedule policy reason now w.state).1) := by
  have hrecent : (schedule policy reason now w.state).2.recentAttempts =
      window policy now w.state.recentAttempts := by
    simp only [schedule]
    split
    · rfl
    · split <;> rfl
  refine ⟨⟨rfl, rfl, ?_⟩, ?_⟩
  · dsimp only
    rw [hrecent, window_window hnow]
  · simp only [schedule]
    split
    · exact .same ⟨rfl, rfl⟩ open_none
    · rename_i hroom
      split
      · exact .same ⟨rfl, rfl⟩ open_none
      · rename_i hfree
        refine .schedule (by simpa using hfree) rfl ?_ _ rfl
        have hless := window_length policy hnow w.state.recentAttempts
        simp only [window] at hless ⊢
        omega

theorem calling_if {g : World → Bool} {t e : Thread World String (Option Rat)} (hopen : Open t ∧ Open e)
    (ht : Calling policy t now) (he : Calling policy e now) :
    Calling policy (Thread.read g >>= fun b => if b then t else e) now := by
  refine calling_read (fun w => ?_) fun w hw => ?_
  · split
    · exact hopen.1
    · exact hopen.2
  · split
    · exact ht.mono hw
    · exact he.mono hw

theorem clear_calling (now : Rat) :
    Calling policy (do clearPendingRestart; pure none) now :=
  fun _ _ => ⟨⟨rfl, rfl, rfl⟩, .clear ⟨rfl, rfl⟩ open_none, trivial⟩

theorem maybeScheduleRestart_calling (reason : String) (now : Rat) :
    Calling policy (maybeScheduleRestart policy reason) now := by
  refine calling_if ⟨open_none, open_act⟩ trivial ?_
  simp only [Bool.not_eq_true']
  refine calling_read (fun _ => ?_) fun _ _ => ?_
  · split <;> [exact open_none; exact open_act]
  split
  · trivial
  refine calling_if ⟨open_none, open_act⟩ trivial (calling_if ⟨open_act, open_act⟩ (clear_calling _) ?_)
  refine calling_read (fun _ => open_act) fun w hw w' hw' => ?_
  obtain ⟨hattempts, hturn⟩ := schedule_calling policy reason hw'
  exact ⟨hattempts, hturn, trivial⟩

theorem maybeScheduleRestart_open (reason : String) : Open (maybeScheduleRestart policy reason) := open_act

theorem record_same (healthy : Bool) (reason : Option String) (w : World) :
    SameAttempts policy w ((recordHealthcheckResult policy healthy reason).run w).2 ∧
      SamePending w ((recordHealthcheckResult policy healthy reason).run w).2 := by
  rw [recordHealthcheckResult, Thread.run_update]
  dsimp only
  split
  · split <;> exact ⟨⟨rfl, rfl, rfl⟩, rfl, rfl⟩
  · split
    · split <;> exact ⟨⟨rfl, rfl, rfl⟩, rfl, rfl⟩
    · exact ⟨⟨rfl, rfl, rfl⟩, rfl, rfl⟩

theorem startProcess_calling (outcome : Outcome) (now : Rat) :
    Calling policy (do let _ ← startProcess outcome; pure none) now := by
  have hstart {k : Unit → Thread World String (Option Rat)} (hopen : Open (k ()))
      (h : ∀ now, Calling policy (k ()) now) :
      Calling policy (do setRestartDisabled false; resetHealthcheckState; k ()) now :=
    calling_modify (fun _ => ⟨rfl, rfl, rfl⟩) (fun _ => ⟨rfl, rfl⟩) open_act fun _ _ =>
      calling_modify (fun _ => ⟨rfl, rfl, rfl⟩) (fun _ => ⟨rfl, rfl⟩) hopen fun _ _ => h _
  cases outcome with
  | blocked error => trivial
  | failed error => exact hstart (k := fun _ => pure none) open_none fun _ => trivial
  | started => exact hstart (k := fun _ => pure none) open_none fun _ => trivial
  | raised error => exact hstart (k := fun _ => .raise error) (by rintro delay ⟨⟩) fun _ => trivial

theorem call_calling (call : Call) (now : Rat) : Calling policy (call.thread policy) now := by
  cases call with
  | exited reason => exact maybeScheduleRestart_calling reason now
  | health healthy reason =>
    have hrecord {k : Bool → Thread World String (Option Rat)} (hopen : ∀ b, Open (k b))
        (h : ∀ b now, Calling policy (k b) now) :
        Calling policy (do let b ← recordHealthcheckResult policy healthy reason; setLastHealthcheckTime; k b) now :=
      calling_update (fun w => (record_same healthy reason w).1) (fun w => (record_same healthy reason w).2)
        (fun _ => open_act) fun b _ _ =>
          calling_modify (fun _ => ⟨rfl, rfl, rfl⟩) (fun _ => ⟨rfl, rfl⟩) (hopen b) fun _ _ => h b _
    cases reason with
    | none => exact hrecord (k := fun _ => pure none) (fun _ => open_none) fun _ _ => trivial
    | some reason =>
      refine hrecord (fun restart => ?_) fun restart now => ?_
      · dsimp only
        split <;> [exact maybeScheduleRestart_open reason; exact open_none]
      · dsimp only
        split <;> [exact maybeScheduleRestart_calling reason now; trivial]
  | stop running =>
    cases running with
    | false => trivial
    | true => exact calling_modify (fun _ => ⟨rfl, rfl, rfl⟩) (fun _ => ⟨rfl, rfl⟩) open_none fun _ _ => trivial
  | start outcome => exact startProcess_calling outcome now

/-! ## Bodies -/

structure Idle (w w' : World) : Prop extends SamePending w w' where
  clock : w'.clock = w.clock
  recorded : w'.recorded = w.recorded
  recent : w'.state.recentAttempts = w.state.recentAttempts

structure Settled (w w' : World) : Prop extends Cleared w' where
  clock : w'.clock = w.clock
  recorded : w'.recorded = w.recorded
  recent : w'.state.recentAttempts = w.state.recentAttempts

structure Recorded (w w' : World) : Prop extends SamePending w w' where
  clock : w'.clock = w.clock
  recorded : w'.recorded = w.recorded ++ [w.clock]
  recent : w'.state.recentAttempts = w.state.recentAttempts ++ [w.clock]

def Settling : Thread World String Unit → Prop
  | .ret _ => False
  | .raise _ => False
  | .act f k => ∀ w, (Idle w (f w) ∧ Settling (k w)) ∨ (Settled w (f w) ∧ k w = .ret ())

def Starting : Thread World String Unit → Prop
  | .ret _ => False
  | .raise _ => False
  | .act f k => ∀ w, (Idle w (f w) ∧ Starting (k w)) ∨ (Settled w (f w) ∧ k w = .ret ()) ∨
      (Recorded w (f w) ∧ Settling (k w))

theorem clear_starting : Starting clearPendingRestart := fun _ => .inr (.inl ⟨⟨⟨rfl, rfl⟩, rfl, rfl, rfl⟩, rfl⟩)

theorem starting_if {g : World → Bool} {e : Thread World String Unit} (he : Starting e) :
    Starting (Thread.read g >>= fun b => if b then clearPendingRestart else e) := by
  intro w
  refine .inl ⟨⟨⟨rfl, rfl⟩, rfl, rfl, rfl⟩, ?_⟩
  change Starting (if g w then clearPendingRestart else e)
  split
  · exact clear_starting
  · exact he

theorem settle_settling (success : Bool) (error : Option String) :
    Settling (setState fun state =>
      let state := { state with pending := false, nextRestartTime := none }
      if success then { state with awaitingRecovery := true, readinessState := "starting", readyAt := none }
      else { state with restartFailures := state.restartFailures + 1, lastFailureReason := error }) := by
  intro w
  refine .inr ⟨?_, rfl⟩
  cases success <;> exact ⟨⟨rfl, rfl⟩, rfl, rfl, rfl⟩

theorem settling_start {k : Unit → Thread World String Unit} (h : Settling (k ())) :
    Settling (do setRestartDisabled false; resetHealthcheckState; k ()) :=
  fun _ => .inl ⟨⟨⟨rfl, rfl⟩, rfl, rfl, rfl⟩, fun _ => .inl ⟨⟨⟨rfl, rfl⟩, rfl, rfl, rfl⟩, h⟩⟩

theorem doRestart_starting {outcome : Outcome} (h : ∀ error, outcome ≠ .raised error) :
    Starting (doRestart outcome) := by
  refine starting_if (starting_if (starting_if ?_))
  refine fun _ => .inr (.inr ⟨⟨⟨rfl, rfl⟩, rfl, rfl, rfl⟩, ?_⟩)
  cases outcome with
  | blocked error => exact settle_settling false (some error)
  | failed error => exact settling_start (k := fun _ => _) (settle_settling false (some error))
  | started => exact settling_start (k := fun _ => _) (settle_settling true none)
  | raised error => exact absurd rfl (h error)

end Dumb.Process

/-! ## What each access does to the restart counters

A body counts an attempt with one access and gives its verdict with its last one. In between it is `Executing`.
-/

namespace Dumb.Process

variable {policy : Policy} {w w' w'' : World}

/-! ## Counters -/

def RestartState.settled (state : RestartState) : Nat := state.restartSuccesses + state.restartFailures

def RestartState.owed (state : RestartState) : Nat := if state.awaitingRecovery then 1 else 0

structure SameCounters (w w' : World) : Prop where
  attempts : w'.state.restartAttempts = w.state.restartAttempts
  successes : w'.state.restartSuccesses = w.state.restartSuccesses
  failures : w'.state.restartFailures = w.state.restartFailures
  awaiting : w'.state.awaitingRecovery = w.state.awaitingRecovery

structure Keeps (w w' : World) : Prop where
  attempts : w'.state.restartAttempts = w.state.restartAttempts
  balance : w'.state.settled + w'.state.owed = w.state.settled + w.state.owed
  awaiting : w.state.awaitingRecovery = false → w'.state.awaitingRecovery = false

structure Counted (w w' : World) : Prop where
  attempts : w'.state.restartAttempts = w.state.restartAttempts + 1
  successes : w'.state.restartSuccesses = w.state.restartSuccesses
  failures : w'.state.restartFailures = w.state.restartFailures
  awaiting : w'.state.awaitingRecovery = w.state.awaitingRecovery

structure Verdict (w w' : World) : Prop where
  attempts : w'.state.restartAttempts = w.state.restartAttempts
  successes : w'.state.restartSuccesses = w.state.restartSuccesses
  outcome : w'.state.awaitingRecovery = true ∧ w'.state.restartFailures = w.state.restartFailures ∨
    w'.state.awaitingRecovery = w.state.awaitingRecovery ∧ w'.state.restartFailures = w.state.restartFailures + 1

theorem SameCounters.refl (w : World) : SameCounters w w := ⟨rfl, rfl, rfl, rfl⟩

theorem SameCounters.keeps (h : SameCounters w w') : Keeps w w' := by
  constructor
  · exact h.attempts
  · rw [RestartState.settled, RestartState.settled, RestartState.owed, RestartState.owed, h.successes, h.failures, h.awaiting]
  · exact h.awaiting.trans

theorem Keeps.refl (w : World) : Keeps w w := (SameCounters.refl w).keeps

theorem owed_eq_zero {state : RestartState} (h : state.awaitingRecovery = false) : state.owed = 0 := by
  simp [RestartState.owed, h]

theorem Keeps.no_verdict (h : Keeps w w') (hnone : w.state.awaitingRecovery = false) : ¬Verdict w w' := by
  intro hverdict
  have hstill := h.awaiting hnone
  have hbalance := h.balance
  rw [owed_eq_zero hnone, owed_eq_zero hstill] at hbalance
  rcases hverdict.outcome with ⟨hawaits, -⟩ | ⟨-, hfails⟩
  · rw [hstill] at hawaits
    cases hawaits
  · simp only [RestartState.settled, hverdict.successes, hfails] at hbalance
    omega

/-! ## Calls -/

def Clerk {α : Type} : Thread World String α → Prop
  | .ret _ => True
  | .raise _ => True
  | .act f k => ∀ w, Keeps w (f w) ∧ Clerk (k w)

theorem clerk_bind {α β : Type} {t : Thread World String α} {g : α → Thread World String β} (h : Clerk t)
    (hg : ∀ a, Clerk (g a)) : Clerk (t >>= g) := by
  induction t with
  | ret a => exact hg a
  | raise e => trivial
  | act f k ih => exact fun w => ⟨(h w).1, ih w (h w).2⟩

theorem clerk_read {β : Type} (g : World → β) : Clerk (Thread.read g) := fun w => ⟨.refl w, trivial⟩

theorem clerk_modify {f : World → World} (h : ∀ w, SameCounters w (f w)) : Clerk (Thread.modify f) :=
  fun w => ⟨(h w).keeps, trivial⟩

theorem clerk_record (healthy : Bool) (reason : Option String) : Clerk (recordHealthcheckResult policy healthy reason) := by
  refine fun w => ⟨?_, trivial⟩
  cases hawaits : w.state.awaitingRecovery with
  | false =>
    apply SameCounters.keeps
    simp only [hawaits, Bool.false_eq_true, if_false]
    split_ifs <;> exact ⟨rfl, rfl, rfl, hawaits.symm⟩
  | true =>
    dsimp only
    split_ifs
    · refine ⟨rfl, ?_, fun h => by cases hawaits.symm.trans h⟩
      simp only [RestartState.settled, RestartState.owed, hawaits]
      simp
      omega
    · refine ⟨rfl, ?_, fun h => by cases hawaits.symm.trans h⟩
      simp only [RestartState.settled, RestartState.owed, hawaits]
      simp
      omega
    · exact SameCounters.keeps ⟨rfl, rfl, rfl, rfl⟩

theorem clerk_clear : Clerk clearPendingRestart := clerk_modify fun _ => ⟨rfl, rfl, rfl, rfl⟩

theorem schedule_counters (policy : Policy) (reason : String) (now : Rat) (w : World) :
    SameCounters w { w with state := (schedule policy reason now w.state).2 } := by
  unfold schedule
  dsimp only
  split_ifs <;> exact ⟨rfl, rfl, rfl, rfl⟩

theorem clerk_maybeScheduleRestart (reason : String) : Clerk (maybeScheduleRestart policy reason) := by
  unfold maybeScheduleRestart
  apply clerk_bind (clerk_read _)
  intro shuttingDown
  split
  · trivial
  apply clerk_bind (clerk_read _)
  intro startupComplete
  split
  · trivial
  apply clerk_bind (clerk_read _)
  intro disabled
  split
  · trivial
  apply clerk_bind (clerk_read _)
  intro blocks
  split
  · exact clerk_bind clerk_clear fun _ => trivial
  apply clerk_bind (clerk_read _)
  exact fun now w => ⟨(schedule_counters policy reason now w).keeps, trivial⟩

theorem clerk_startProcess (outcome : Outcome) : Clerk (startProcess outcome) := by
  have hstart : ∀ {k : Thread World String (Bool × Option String)}, Clerk k →
      Clerk (do setRestartDisabled false; resetHealthcheckState; k) := fun h =>
    clerk_bind (clerk_modify fun _ => ⟨rfl, rfl, rfl, rfl⟩) fun _ =>
      clerk_bind (clerk_modify fun _ => ⟨rfl, rfl, rfl, rfl⟩) fun _ => h
  cases outcome with
  | blocked => trivial
  | failed error => exact @hstart (pure _) trivial
  | started => exact @hstart (pure _) trivial
  | raised error => exact @hstart (.raise _) trivial

theorem clerk_call (call : Call) : Clerk (call.thread policy) := by
  cases call with
  | exited reason => exact clerk_maybeScheduleRestart reason
  | health healthy reason =>
    apply clerk_bind (clerk_record healthy reason)
    intro restart
    have hlast : Clerk setLastHealthcheckTime := clerk_modify fun _ => ⟨rfl, rfl, rfl, rfl⟩
    apply clerk_bind hlast
    intro _
    cases reason with
    | none => trivial
    | some reason =>
      dsimp only
      split
      · exact clerk_maybeScheduleRestart reason
      · trivial
  | stop running =>
    cases running with
    | false => trivial
    | true => exact clerk_bind (clerk_modify fun _ => ⟨rfl, rfl, rfl, rfl⟩) fun _ => trivial
  | start outcome => exact clerk_bind (clerk_startProcess outcome) fun _ => trivial

/-! ## Bodies -/

def Executing : Thread World String Unit → Prop
  | .ret _ => False
  | .raise _ => False
  | .act f k => ∀ w, SameCounters w (f w) ∧ (Executing (k w) ∨ ∃ e, k w = .raise e) ∨ Verdict w (f w) ∧ k w = .ret ()

def Deciding : Thread World String Unit → Prop
  | .ret _ => False
  | .raise _ => False
  | .act f k => ∀ w, SameCounters w (f w) ∧ Deciding (k w) ∨ Verdict w (f w) ∧ k w = .ret ()

def Waiting : Thread World String Unit → Prop
  | .ret _ => False
  | .raise _ => False
  | .act f k => ∀ w, SameCounters w (f w) ∧ (Waiting (k w) ∨ k w = .ret ()) ∨ Counted w (f w) ∧ Deciding (k w)

variable {t : Thread World String Unit}

theorem Deciding.executing (h : Deciding t) : Executing t := by
  induction t with
  | ret => exact h
  | raise => exact h
  | act f k ih =>
    intro w
    rcases h w with ⟨hsame, hrest⟩ | hverdict
    · exact .inl ⟨hsame, .inl (ih w hrest)⟩
    · exact .inr hverdict

def freshWorld : World := ⟨{}, 0, false, false, false, []⟩

theorem Waiting.not_executing (h : Waiting t) : ¬Executing t := by
  induction t with
  | ret => exact id
  | raise => exact id
  | act f k ih =>
    intro hexec
    rcases h freshWorld with ⟨hsame, hrest⟩ | ⟨hcounted, -⟩
    · rcases hexec freshWorld with ⟨-, hnext⟩ | ⟨hverdict, -⟩
      · rcases hrest with hwaits | hend
        · rcases hnext with hnext | ⟨e, he⟩
          · exact ih freshWorld hwaits hnext
          · rw [he] at hwaits
            exact hwaits
        · rw [hend] at hnext
          rcases hnext with hnext | ⟨e, he⟩
          · exact hnext
          · cases he
      · exact hsame.keeps.no_verdict rfl hverdict
    · have hattempts : (f freshWorld).state.restartAttempts = freshWorld.state.restartAttempts := by
        rcases hexec freshWorld with ⟨hsame, -⟩ | ⟨hverdict, -⟩
        · exact hsame.attempts
        · exact hverdict.attempts
      rw [hcounted.attempts] at hattempts
      cases hattempts

theorem waiting_clear : Waiting clearPendingRestart := fun _ => .inl ⟨⟨rfl, rfl, rfl, rfl⟩, .inr rfl⟩

theorem waiting_if {g : World → Bool} {e : Thread World String Unit} (he : Waiting e) :
    Waiting (Thread.read g >>= fun b => if b then clearPendingRestart else e) := by
  intro w
  refine .inl ⟨.refl w, .inl ?_⟩
  change Waiting (if g w then clearPendingRestart else e)
  split
  · exact waiting_clear
  · exact he

theorem deciding_verdict (success : Bool) (error : Option String) :
    Deciding (setState fun state =>
      let state := { state with pending := false, nextRestartTime := none }
      if success then { state with awaitingRecovery := true, readinessState := "starting", readyAt := none }
      else { state with restartFailures := state.restartFailures + 1, lastFailureReason := error }) := by
  intro w
  refine .inr ⟨?_, rfl⟩
  cases success with
  | false => exact ⟨rfl, rfl, .inr ⟨rfl, rfl⟩⟩
  | true => exact ⟨rfl, rfl, .inl ⟨rfl, rfl⟩⟩

theorem deciding_start {k : Thread World String Unit} (h : Deciding k) :
    Deciding (do setRestartDisabled false; resetHealthcheckState; k) :=
  fun _ => .inl ⟨⟨rfl, rfl, rfl, rfl⟩, fun _ => .inl ⟨⟨rfl, rfl, rfl, rfl⟩, h⟩⟩

theorem waiting_doRestart {outcome : Outcome} (h : ∀ error, outcome ≠ .raised error) : Waiting (doRestart outcome) := by
  apply waiting_if (waiting_if (waiting_if _))
  refine fun _ => .inr ⟨⟨rfl, rfl, rfl, rfl⟩, ?_⟩
  cases outcome with
  | blocked error => exact deciding_verdict false (some error)
  | failed error => exact deciding_start (deciding_verdict false (some error))
  | started => exact deciding_start (deciding_verdict true none)
  | raised error => exact absurd rfl (h error)

end Dumb.Process
