import Mathlib.Logic.Relation
import Dumb.Process.Lemmas.Restart

/-!
# The budget of automatic restarts, and the pending restart
-/

namespace Dumb.Process

open Relation (ReflTransGen)

variable {policy : Policy}

def Budget (policy : Policy) (recorded : List Rat) : Prop :=
  ∀ start, let attempts := recorded.filter fun t => start ≤ t ∧ t < start + policy.windowSeconds
    attempts ≠ [] → (attempts.length : Int) ≤ policy.maxRestarts

/-- The budget is kept, one body at most is outstanding, and with none outstanding nothing is pending. -/
structure Sane (policy : Policy) (s : Handler) : Prop where
  budget : Budget policy s.world.recorded
  single : s.bodies.length ≤ 1
  idle : s.bodies = [] → s.world.state.pending = false ∧ s.world.state.nextRestartTime = none

/-- No call clears the pending restart of a body that is outstanding, and a body that is started does not raise. -/
def Orderly : Event → Handler → Handler → Prop
  | .turn i outcome, s, s' => (s.bodies ≠ [] → s'.world.state.pending = s.world.state.pending) ∧
      ∀ delay, s'.calls[i]? = some (.ret (some delay)) → 0 ≤ delay ∧ ∀ error, outcome ≠ .raised error
  | _, _, _ => True

inductive Phase (policy : Policy) (s : Handler) : Prop
  | idle (hbodies : s.bodies = []) (hclear : Cleared s.world)
  | starting (b : Body) (hbodies : s.bodies = [b]) (hstarting : Starting b.thread)
      (hpending : s.world.state.pending = true)
      (hroom : ((window policy s.world.clock s.world.state.recentAttempts).length : Int) < policy.maxRestarts)
  | settling (b : Body) (hbodies : s.bodies = [b]) (hsettling : Settling b.thread)
      (hpending : s.world.state.pending = true)

structure Attempts (policy : Policy) (w : World) : Prop where
  recent : window policy w.clock w.state.recentAttempts = window policy w.clock w.recorded
  budget : Budget policy w.recorded

structure Inv (policy : Policy) (s : Handler) : Prop where
  attempts : Attempts policy s.world
  calls : ∀ t ∈ s.calls, Calling policy t s.world.clock
  phase : Phase policy s

theorem Attempts.same {w w' : World} (h : Attempts policy w) (hsame : SameAttempts policy w w') :
    Attempts policy w' := by
  obtain ⟨hclock, hrecorded, hrecent⟩ := hsame
  exact ⟨by rw [hclock, hrecorded, hrecent, h.recent], by rw [hrecorded]; exact h.budget⟩

variable {w : World}

theorem Attempts.tick (h : Attempts policy w) {seconds : Rat} (hs : 0 ≤ seconds) :
    Attempts policy { w with clock := w.clock + seconds } := by
  have hle : w.clock ≤ w.clock + seconds := by linarith
  refine ⟨?_, h.budget⟩
  dsimp only
  rw [← window_window hle, h.recent, window_window hle]

theorem Budget.snoc {recorded : List Rat} {now : Rat} (h : Budget policy recorded)
    (hroom : ((window policy now recorded).length : Int) < policy.maxRestarts) :
    Budget policy (recorded ++ [now]) := by
  intro start attempts hne
  simp only [attempts, List.filter_append] at hne ⊢
  by_cases hnow : start ≤ now ∧ now < start + policy.windowSeconds
  · have hless : (recorded.filter fun t => start ≤ t ∧ t < start + policy.windowSeconds).length ≤
        (window policy now recorded).length := by
      refine (List.monotone_filter_right recorded fun t ht => ?_).length_le
      simp only [Bool.decide_and, Bool.and_eq_true, decide_eq_true_eq] at ht ⊢
      linarith [hnow.2, ht.1]
    have hone : ([now].filter fun t => start ≤ t ∧ t < start + policy.windowSeconds) = [now] := by
      simpa using hnow
    rw [hone, List.length_append, List.length_singleton]
    omega
  · simp only [List.filter_cons, hnow, decide_false, Bool.false_eq_true, if_false, List.filter_nil,
      List.append_nil] at hne ⊢
    exact h start hne

theorem Attempts.record {w w' : World} (h : Attempts policy w) (hrec : Recorded w w')
    (hroom : ((window policy w.clock w.state.recentAttempts).length : Int) < policy.maxRestarts) :
    Attempts policy w' := by
  rw [h.recent] at hroom
  constructor
  · rw [hrec.clock, hrec.recorded, hrec.recent, window_append, window_append, h.recent]
  · rw [hrec.recorded]
    exact h.budget.snoc hroom

/-! ## The phases -/

theorem Inv.call {w : World} {calls : List (Thread World String (Option Rat))} {bodies : List Body}
    (h : Inv policy ⟨w, calls, bodies⟩) (call : Call) :
    Inv policy ⟨w, calls ++ [call.thread policy], bodies⟩ := by
  refine ⟨h.attempts, fun t ht => ?_, ?_⟩
  · rcases List.mem_append.1 ht with ht | ht
    · exact h.calls t ht
    · rw [List.mem_singleton.1 ht]
      exact call_calling call _
  · cases h.phase with
    | idle hbodies hclear => exact .idle hbodies hclear
    | starting b hbodies hstarting hpending hroom => exact .starting b hbodies hstarting hpending hroom
    | settling b hbodies hsettling hpending => exact .settling b hbodies hsettling hpending

variable {bodies : List Body}

theorem Phase.tick {calls : List (Thread World String (Option Rat))}
    (h : Phase policy ⟨w, calls, bodies⟩) {seconds : Rat} (hs : 0 ≤ seconds) :
    Phase policy ⟨{ w with clock := w.clock + seconds }, calls, bodies⟩ := by
  cases h with
  | idle hbodies hclear => exact .idle hbodies ⟨hclear.pending, hclear.next⟩
  | starting b hbodies hstarting hpending hroom =>
    have hle : w.clock ≤ w.clock + seconds := by linarith
    have hless := window_length policy hle w.state.recentAttempts
    refine .starting b hbodies hstarting hpending ?_
    dsimp only at hroom ⊢
    omega
  | settling b hbodies hsettling hpending => exact .settling b hbodies hsettling hpending

theorem launch_open {outcome : Outcome} {now : Rat} {t : Thread World String (Option Rat)} (h : Open t) :
    launch outcome now t = [] := by
  unfold launch
  split
  · exact absurd rfl (h _)
  · rfl

variable {wake : Rat} {t : Thread World String Unit}

theorem going_starting (h : Starting t) : going wake t = [⟨wake, t⟩] := by
  cases t with
  | ret a => exact h.elim
  | raise e => exact h.elim
  | act f k => rfl

theorem going_settling (h : Settling t) : going wake t = [⟨wake, t⟩] := by
  cases t with
  | ret a => exact h.elim
  | raise e => exact h.elim
  | act f k => rfl

theorem Phase.turn {w : World} {calls calls' : List (Thread World String (Option Rat))} {bodies : List Body}
    {f : World → World} {k : World → Thread World String (Option Rat)} {outcome : Outcome}
    (h : Phase policy ⟨w, calls, bodies⟩) (hattempts : SameAttempts policy w (f w))
    (hturn : CallTurn policy w (f w) (k w)) (hkeep : bodies ≠ [] → (f w).state.pending = w.state.pending)
    (hstart : ∀ delay, k w = .ret (some delay) → 0 ≤ delay ∧ ∀ error, outcome ≠ .raised error) :
    Phase policy ⟨f w, calls', bodies ++ launch outcome (f w).clock (k w)⟩ := by
  have hwindow : window policy (f w).clock (f w).state.recentAttempts =
      window policy w.clock w.state.recentAttempts := by rw [hattempts.clock, hattempts.recent]
  have hlaunch (hpending : w.state.pending = true) : launch outcome (f w).clock (k w) = [] := by
    cases hturn with
    | same _ hend => exact launch_open hend
    | clear _ hend => exact launch_open hend
    | schedule hfree => exact absurd (hfree.symm.trans hpending) (by decide)
  cases h with
  | idle hbodies hclear =>
    obtain rfl : bodies = [] := hbodies
    cases hturn with
    | same hsame hend =>
      rw [launch_open hend]
      exact .idle rfl ⟨hsame.pending.trans hclear.pending, hsame.next.trans hclear.next⟩
    | clear hcleared hend =>
      rw [launch_open hend]
      exact .idle rfl hcleared
    | schedule hfree hpending hroom delay hend =>
      obtain ⟨hdelay, hraise⟩ := hstart delay hend
      have hstarting := doRestart_starting hraise
      have hlaunch : launch outcome (f w).clock (k w) = [⟨(f w).clock + delay, doRestart outcome⟩] := by
        rw [hend, launch, if_neg (not_lt.2 hdelay), going_starting hstarting]
      rw [hlaunch]
      exact .starting _ rfl hstarting hpending (by rw [hwindow]; exact hroom)
  | starting b hbodies hstarting hpending hroom =>
    have hne : bodies ≠ [] := by rw [show bodies = [b] from hbodies]; simp
    have hpending' := (hkeep hne).trans hpending
    rw [hlaunch hpending, List.append_nil]
    exact .starting b hbodies hstarting hpending' (by rw [hwindow]; exact hroom)
  | settling b hbodies hsettling hpending =>
    have hne : bodies ≠ [] := by rw [show bodies = [b] from hbodies]; simp
    have hpending' := (hkeep hne).trans hpending
    rw [hlaunch hpending, List.append_nil]
    exact .settling b hbodies hsettling hpending'

theorem Inv.turn {w : World} {calls : List (Thread World String (Option Rat))} {bodies : List Body} {i : Nat}
    {f : World → World} {k : World → Thread World String (Option Rat)} {outcome : Outcome}
    (h : Inv policy ⟨w, calls, bodies⟩) (hi : calls[i]? = some (.act f k))
    (horderly : Orderly (.turn i outcome) ⟨w, calls, bodies⟩
      ⟨f w, calls.set i (k w), bodies ++ launch outcome (f w).clock (k w)⟩) :
    Inv policy ⟨f w, calls.set i (k w), bodies ++ launch outcome (f w).clock (k w)⟩ := by
  obtain ⟨hkeep, hstart⟩ := horderly
  obtain ⟨hattempts, hturn, hrest⟩ := h.calls _ (List.mem_of_getElem? hi) w (le_refl w.clock)
  refine ⟨h.attempts.same hattempts, fun t ht => ?_, ?_⟩
  · dsimp only
    rw [hattempts.clock]
    rcases List.mem_or_eq_of_mem_set ht with ht | rfl
    · exact h.calls t ht
    · exact hrest
  · refine h.phase.turn hattempts hturn hkeep fun delay hend => hstart delay ?_
    dsimp only
    rw [List.getElem?_set_self (List.getElem?_eq_some_iff.1 hi).1, hend]

theorem Attempts.idle {w w' : World} (h : Attempts policy w) (hclock : w'.clock = w.clock)
    (hrecorded : w'.recorded = w.recorded) (hrecent : w'.state.recentAttempts = w.state.recentAttempts) :
    Attempts policy w' := h.same ⟨hclock, hrecorded, by rw [hrecent]⟩

theorem Inv.body {w : World} {calls : List (Thread World String (Option Rat))} {bodies : List Body} {i : Nat}
    {wake : Rat} {f : World → World} {k : World → Thread World String Unit} (h : Inv policy ⟨w, calls, bodies⟩)
    (hi : bodies[i]? = some ⟨wake, .act f k⟩) :
    Inv policy ⟨f w, calls, bodies.take i ++ going wake (k w) ++ bodies.drop (i + 1)⟩ := by
  have hcalls (hclock : (f w).clock = w.clock) : ∀ t ∈ calls, Calling policy t (f w).clock := by
    rw [hclock]
    exact h.calls
  have honly {b : Body} (hbodies : bodies = [b]) :
      b = ⟨wake, .act f k⟩ ∧ bodies.take i ++ going wake (k w) ++ bodies.drop (i + 1) = going wake (k w) := by
    subst hbodies
    cases i with
    | zero => simpa using hi
    | succ i => simp at hi
  cases h.phase with
  | idle hbodies =>
    obtain rfl : bodies = [] := hbodies
    simp at hi
  | starting b hbodies hstarting hpending hroom =>
    obtain ⟨rfl, hrest⟩ := honly hbodies
    rw [hrest]
    rcases hstarting w with ⟨hidle, hk⟩ | ⟨hsettled, hk⟩ | ⟨hrecorded, hk⟩
    · refine ⟨h.attempts.idle hidle.clock hidle.recorded hidle.recent, hcalls hidle.clock, ?_⟩
      refine .starting _ (going_starting hk) hk (hidle.pending.trans hpending) ?_
      dsimp only at hroom ⊢
      rw [hidle.clock, hidle.recent]
      exact hroom
    · refine ⟨h.attempts.idle hsettled.clock hsettled.recorded hsettled.recent, hcalls hsettled.clock, ?_⟩
      exact .idle (by rw [hk]; rfl) hsettled.toCleared
    · refine ⟨h.attempts.record hrecorded hroom, hcalls hrecorded.clock, ?_⟩
      exact .settling _ (going_settling hk) hk (hrecorded.pending.trans hpending)
  | settling b hbodies hsettling hpending =>
    obtain ⟨rfl, hrest⟩ := honly hbodies
    rw [hrest]
    rcases hsettling w with ⟨hidle, hk⟩ | ⟨hsettled, hk⟩
    · refine ⟨h.attempts.idle hidle.clock hidle.recorded hidle.recent, hcalls hidle.clock, ?_⟩
      exact .settling _ (going_settling hk) hk (hidle.pending.trans hpending)
    · refine ⟨h.attempts.idle hsettled.clock hsettled.recorded hsettled.recent, hcalls hsettled.clock, ?_⟩
      exact .idle (by rw [hk]; rfl) hsettled.toCleared

theorem Inv.step {event : Event} {s s' : Handler} (h : Inv policy s) (hstep : Step policy event s s')
    (horderly : Orderly event s s') : Inv policy s' := by
  cases hstep with
  | tick hs =>
    refine ⟨h.attempts.tick hs, fun t ht => (h.calls t ht).mono ?_, h.phase.tick hs⟩
    dsimp only
    linarith
  | outside =>
    refine ⟨⟨h.attempts.recent, h.attempts.budget⟩, h.calls, ?_⟩
    cases h.phase with
    | idle hbodies hclear => exact .idle hbodies ⟨hclear.pending, hclear.next⟩
    | starting b hbodies hstarting hpending hroom => exact .starting b hbodies hstarting hpending hroom
    | settling b hbodies hsettling hpending => exact .settling b hbodies hsettling hpending
  | call call => exact h.call call
  | turn outcome hi => exact h.turn hi horderly
  | body hi => exact h.body hi

theorem Inv.initial (clock : Rat) : Inv policy (.initial clock) :=
  ⟨⟨rfl, fun _ hne => absurd rfl hne⟩, fun _ h => (nomatch h), .idle rfl ⟨rfl, rfl⟩⟩

theorem Inv.sane {s : Handler} (h : Inv policy s) : Sane policy s := by
  refine ⟨h.attempts.budget, ?_, fun hnone => ?_⟩
  · cases h.phase with
    | idle hbodies => simp [hbodies]
    | starting b hbodies => simp [hbodies]
    | settling b hbodies => simp [hbodies]
  · cases h.phase with
    | idle _ hclear => exact ⟨hclear.pending, hclear.next⟩
    | starting b hbodies => simp [hbodies] at hnone
    | settling b hbodies => simp [hbodies] at hnone

/-- In a run whose bodies do not raise and whose calls leave a pending restart alone while its body is outstanding,
the budget is kept, one body at most is outstanding, and a restart is pending only as long as one is. -/
theorem restarts_sane (policy : Policy) (clock : Rat) (s : Handler)
    (hrun : ReflTransGen (fun s s' => ∃ event, Step policy event s s' ∧ Orderly event s s') (.initial clock) s) :
    Sane policy s := by
  suffices h : Inv policy s from h.sane
  induction hrun with
  | refl => exact .initial clock
  | tail _ hstep ih =>
    obtain ⟨event, hstep, horderly⟩ := hstep
    exact ih.step hstep horderly

def samplePolicy : Policy := ⟨3, 300, [0], 3⟩

theorem restarts_sane_launch : ∃ s, s.bodies.length = 1 ∧ Sane samplePolicy s := by
  refine ⟨_, ?_, restarts_sane samplePolicy 0 _ <|
    .head ⟨.outside false true false, .outside false true false, trivial⟩ <|
    .head ⟨.call (.exited "Exited"), .call _, trivial⟩ <|
    .head ⟨.turn 0 .started, .turn _ rfl, fun h => absurd rfl h, fun _ h => nomatch h⟩ <|
    .head ⟨.turn 0 .started, .turn _ rfl, fun h => absurd rfl h, fun _ h => nomatch h⟩ <|
    .head ⟨.turn 0 .started, .turn _ rfl, fun h => absurd rfl h, fun _ h => nomatch h⟩ <|
    .head ⟨.turn 0 .started, .turn _ rfl, fun h => absurd rfl h, fun _ h => nomatch h⟩ <|
    .head ⟨.turn 0 .started, .turn _ rfl, fun h => absurd rfl h, fun _ h => nomatch h⟩ <|
    .head ⟨.turn 0 .started, .turn _ rfl, fun h => absurd rfl h, fun delay h => ⟨?_, fun _ => nofun⟩⟩ .refl⟩
  · rfl
  · cases h
    decide +kernel

/-- A body whose `start_process` raises leaves its restart pending. -/
theorem restarts_stuck : ∃ s, ReflTransGen (fun s s' => ∃ event, Step samplePolicy event s s') (.initial 0) s ∧
    s.bodies = [] ∧ s.world.state.pending = true ∧ ¬Sane samplePolicy s := by
  refine ⟨_, .head ⟨.outside false true false, .outside false true false⟩ <|
    .head ⟨.call (.exited "Exited"), .call _⟩ <|
    .head ⟨.turn 0 .started, .turn _ rfl⟩ <| .head ⟨.turn 0 .started, .turn _ rfl⟩ <|
    .head ⟨.turn 0 .started, .turn _ rfl⟩ <| .head ⟨.turn 0 .started, .turn _ rfl⟩ <|
    .head ⟨.turn 0 .started, .turn _ rfl⟩ <|
    .head ⟨.turn 0 (.raised "No such file"), .turn _ rfl⟩ <|
    .head ⟨.body 0, .body rfl ?_⟩ <| .head ⟨.body 0, .body rfl ?_⟩ <| .head ⟨.body 0, .body rfl ?_⟩ <|
    .head ⟨.body 0, .body rfl ?_⟩ <| .head ⟨.body 0, .body rfl ?_⟩ <| .head ⟨.body 0, .body rfl ?_⟩ .refl,
    rfl, rfl, fun h => ?_⟩
  · decide +kernel
  · decide +kernel
  · decide +kernel
  · decide +kernel
  · decide +kernel
  · decide +kernel
  · exact absurd (h.idle rfl).1 (by decide +kernel)

/-! ## Accounting -/

/-- Every attempt has succeeded or failed, but for one that awaits its verdict or executes. -/
structure Accounted (s : Handler) : Prop where
  owed : (s.world.state.awaitingRecovery = true ∨ ∃ b ∈ s.bodies, Executing b.thread) →
    s.world.state.restartAttempts = s.world.state.settled + 1
  settled : s.world.state.awaitingRecovery = false → (∀ b ∈ s.bodies, ¬Executing b.thread) →
    s.world.state.restartAttempts = s.world.state.settled

/-- `INFINIDYSK_MIGRATION_ADMISSION_LOCK`: while a body executes, no other one goes on. -/
def Admitted : Event → Handler → Prop
  | .body i, s => ∀ j b, j ≠ i → s.bodies[j]? = some b → ¬Executing b.thread
  | _, _ => True

/-- No attempt is counted while the one before awaits its verdict, and no `start_process` of a restart raises. -/
def Settles : Event → Handler → Prop
  | .body i, s => ∀ wake f k, s.bodies[i]? = some ⟨wake, .act f k⟩ →
      (f s.world).state.restartAttempts ≠ s.world.state.restartAttempts → s.world.state.awaitingRecovery = false
  | .turn _ outcome, _ => ∀ error, outcome ≠ .raised error
  | _, _ => True

inductive Ledger (w : World) (bodies : List Body) : Prop
  | idle (hwaiting : ∀ b ∈ bodies, Waiting b.thread)
      (hsum : w.state.restartAttempts = w.state.settled + w.state.owed)
  | executing (i : Nat) (b : Body) (hi : bodies[i]? = some b) (hdeciding : Deciding b.thread)
      (hwaiting : ∀ j b, j ≠ i → bodies[j]? = some b → Waiting b.thread)
      (hawaits : w.state.awaitingRecovery = false) (hsum : w.state.restartAttempts = w.state.settled + 1)

theorem Ledger.keeps {w w' : World} (h : Ledger w bodies) (hkeeps : Keeps w w') : Ledger w' bodies := by
  cases h with
  | idle hwaiting hsum => exact .idle hwaiting (by rw [hkeeps.attempts, hsum, hkeeps.balance])
  | executing i b hi hdeciding hwaiting hawaits hsum =>
    have hawaits' := hkeeps.awaiting hawaits
    have hbalance := hkeeps.balance
    rw [owed_eq_zero hawaits, owed_eq_zero hawaits'] at hbalance
    exact .executing i b hi hdeciding hwaiting hawaits' (by rw [hkeeps.attempts, hsum]; omega)

theorem Ledger.launch {bodies more : List Body} (h : Ledger w bodies)
    (hmore : ∀ b ∈ more, Waiting b.thread) : Ledger w (bodies ++ more) := by
  cases h with
  | idle hwaiting hsum => exact .idle (fun b hb => (List.mem_append.1 hb).elim (hwaiting b) (hmore b)) hsum
  | executing i b hi hdeciding hwaiting hawaits hsum =>
    have hlt := (List.getElem?_eq_some_iff.1 hi).1
    refine .executing i b ((List.getElem?_append_left hlt).trans hi) hdeciding (fun j b' hj hb' => ?_) hawaits hsum
    by_cases hold : j < bodies.length
    · rw [List.getElem?_append_left hold] at hb'
      exact hwaiting j b' hj hb'
    · rw [List.getElem?_append_right (by omega)] at hb'
      exact hmore b' (List.mem_of_getElem? hb')

theorem launch_waiting {outcome : Outcome} (houtcome : ∀ error, outcome ≠ .raised error) (now : Rat)
    (t : Thread World String (Option Rat)) : ∀ b ∈ launch outcome now t, Waiting b.thread := by
  intro b hb
  unfold launch going at hb
  split at hb
  · split at hb
    · cases hb
    · split at hb
      · cases hb
      · rw [List.mem_singleton.1 hb]
        exact waiting_doRestart houtcome
  · cases hb

theorem mem_turned {bodies rest : List Body} {i : Nat} {b : Body} (hb : b ∈ bodies.take i ++ rest ++ bodies.drop (i + 1)) :
    b ∈ rest ∨ ∃ j, j ≠ i ∧ bodies[j]? = some b := by
  simp only [List.append_assoc, List.mem_append] at hb
  rcases hb with hb | hb | hb
  · obtain ⟨j, hj⟩ := List.mem_iff_getElem?.1 hb
    rw [List.getElem?_take] at hj
    split at hj
    · exact .inr ⟨j, by omega, hj⟩
    · cases hj
  · exact .inl hb
  · obtain ⟨j, hj⟩ := List.mem_iff_getElem?.1 hb
    rw [List.getElem?_drop] at hj
    exact .inr ⟨i + 1 + j, by omega, hj⟩

theorem Ledger.goOn {i : Nat}
    (hlt : i < bodies.length) (hwaiting : ∀ j b, j ≠ i → bodies[j]? = some b → Waiting b.thread) (ht : Deciding t)
    (hawaits : w.state.awaitingRecovery = false) (hsum : w.state.restartAttempts = w.state.settled + 1) :
    Ledger w (bodies.take i ++ going wake t ++ bodies.drop (i + 1)) := by
  have hgoing : going wake t = [⟨wake, t⟩] := by
    cases t with
    | ret a => exact ht.elim
    | raise e => exact ht.elim
    | act f k => rfl
  have hset : bodies.take i ++ going wake t ++ bodies.drop (i + 1) = bodies.set i ⟨wake, t⟩ := by
    rw [hgoing, List.append_assoc, List.singleton_append, List.set_eq_take_append_cons_drop, if_pos hlt]
  rw [hset]
  refine .executing i ⟨wake, t⟩ (List.getElem?_set_self hlt) ht (fun j b hj hb => ?_) hawaits hsum
  rw [List.getElem?_set_ne hj.symm] at hb
  exact hwaiting j b hj hb

theorem Ledger.rest {i : Nat}
    (hwaiting : ∀ j b, j ≠ i → bodies[j]? = some b → Waiting b.thread) (ht : Waiting t ∨ t = .ret ())
    (hsum : w.state.restartAttempts = w.state.settled + w.state.owed) :
    Ledger w (bodies.take i ++ going wake t ++ bodies.drop (i + 1)) := by
  apply Ledger.idle _ hsum
  intro b hb
  rcases mem_turned hb with hb | ⟨j, hj, hb⟩
  · unfold going at hb
    split at hb
    · cases hb
    · next hgoing =>
      rw [List.mem_singleton.1 hb]
      rcases ht with ht | rfl
      · exact ht
      · exact absurd rfl hgoing
  · exact hwaiting j b hj hb

theorem Ledger.body {w : World} {bodies : List Body} {i : Nat} {wake : Rat} {f : World → World}
    {k : World → Thread World String Unit} (h : Ledger w bodies) (hi : bodies[i]? = some ⟨wake, .act f k⟩)
    (hadmitted : ∀ j b, j ≠ i → bodies[j]? = some b → ¬Executing b.thread)
    (hsettles : (f w).state.restartAttempts ≠ w.state.restartAttempts → w.state.awaitingRecovery = false) :
    Ledger (f w) (bodies.take i ++ going wake (k w) ++ bodies.drop (i + 1)) := by
  have hlt := (List.getElem?_eq_some_iff.1 hi).1
  cases h with
  | idle hwaiting hsum =>
    have hothers : ∀ j b, j ≠ i → bodies[j]? = some b → Waiting b.thread :=
      fun _ _ _ hb => hwaiting _ (List.mem_of_getElem? hb)
    have hbody : Waiting (.act f k) := hwaiting _ (List.mem_of_getElem? hi)
    rcases hbody w with ⟨hsame, hrest⟩ | ⟨hcounted, hrest⟩
    · exact .rest hothers hrest (by rw [hsame.keeps.attempts, hsum, hsame.keeps.balance])
    · have hawaits := hsettles (by rw [hcounted.attempts]; omega)
      apply Ledger.goOn hlt hothers hrest (hcounted.awaiting.trans hawaits)
      rw [hcounted.attempts, hsum, owed_eq_zero hawaits, RestartState.settled, RestartState.settled, hcounted.successes,
        hcounted.failures]
  | executing j b hj hdeciding hwaiting hawaits hsum =>
    obtain rfl : j = i := by
      by_contra hne
      exact hadmitted j b hne hj hdeciding.executing
    obtain rfl : b = ⟨wake, .act f k⟩ := Option.some.inj (hj.symm.trans hi)
    rcases hdeciding w with ⟨hsame, hrest⟩ | ⟨hverdict, hend⟩
    · apply Ledger.goOn hlt hwaiting hrest (hsame.awaiting.trans hawaits)
      rw [hsame.attempts, hsum, RestartState.settled, RestartState.settled, hsame.successes, hsame.failures]
    · apply Ledger.rest hwaiting (.inr hend)
      rw [hverdict.attempts, hsum]
      rcases hverdict.outcome with ⟨hnow, hfailures⟩ | ⟨hnow, hfailures⟩
      · simp [RestartState.settled, RestartState.owed, hnow, hverdict.successes, hfailures]
      · rw [owed_eq_zero (hnow.trans hawaits)]
        simp only [RestartState.settled, hverdict.successes, hfailures]
        omega

structure Books (s : Handler) : Prop where
  ledger : Ledger s.world s.bodies
  calls : ∀ t ∈ s.calls, Clerk t

theorem Books.step {event : Event} {s s' : Handler} (h : Books s) (hstep : Step policy event s s')
    (hadmitted : Admitted event s) (hsettles : Settles event s) : Books s' := by
  cases hstep with
  | tick => exact ⟨h.ledger.keeps (SameCounters.keeps ⟨rfl, rfl, rfl, rfl⟩), h.calls⟩
  | outside => exact ⟨h.ledger.keeps (SameCounters.keeps ⟨rfl, rfl, rfl, rfl⟩), h.calls⟩
  | call call =>
    refine ⟨h.ledger, fun t ht => ?_⟩
    rcases List.mem_append.1 ht with ht | ht
    · exact h.calls t ht
    · rw [List.mem_singleton.1 ht]
      exact clerk_call call
  | @turn w calls bodies i f k outcome hi =>
    have hcall : Clerk (.act f k) := h.calls _ (List.mem_of_getElem? hi)
    obtain ⟨hkeeps, hrest⟩ := hcall w
    refine ⟨(h.ledger.keeps hkeeps).launch (launch_waiting hsettles _ _), fun t ht => ?_⟩
    rcases List.mem_or_eq_of_mem_set ht with ht | rfl
    · exact h.calls t ht
    · exact hrest
  | @body w calls bodies i wake f k hi =>
    exact ⟨h.ledger.body hi hadmitted (hsettles wake f k hi), h.calls⟩

theorem Books.initial (clock : Rat) : Books (.initial clock) := by
  constructor
  · exact .idle (fun b hb => absurd hb List.not_mem_nil) rfl
  · exact fun t ht => absurd ht List.not_mem_nil

theorem Books.accounted {s : Handler} (h : Books s) : Accounted s := by
  cases h.ledger with
  | idle hwaiting hsum =>
    constructor
    · rintro (hawaits | ⟨b, hb, hexec⟩)
      · rw [hsum, RestartState.owed, if_pos hawaits]
      · exact absurd hexec (hwaiting b hb).not_executing
    · intro hawaits _
      rw [hsum, owed_eq_zero hawaits, Nat.add_zero]
  | executing i b hi hdeciding hwaiting hawaits hsum =>
    constructor
    · exact fun _ => hsum
    · exact fun _ hnone => absurd hdeciding.executing (hnone b (List.mem_of_getElem? hi))

/-- In a run in which no attempt is counted while a restarted process awaits its verdict, and no start of a restart
raises, the attempts are the successes, the failures and the one under way. -/
theorem restarts_accounted (policy : Policy) (clock : Rat) (s : Handler)
    (hrun : ReflTransGen (fun s s' => ∃ event, Step policy event s s' ∧ Admitted event s ∧ Settles event s)
      (.initial clock) s) : Accounted s := by
  suffices h : Books s from h.accounted
  induction hrun with
  | refl => exact .initial clock
  | tail _ hstep ih =>
    obtain ⟨event, hstep, hadmitted, hsettles⟩ := hstep
    exact ih.step hstep hadmitted hsettles

theorem admitted_single {s : Handler} {b : Body} (h : s.bodies = [b]) : Admitted (.body 0) s := by
  intro j b' hj hb'
  cases j with
  | zero => exact absurd rfl hj
  | succ j => simp [h] at hb'

theorem restarts_accounted_launch : ∃ s, s.world.state.restartAttempts = 1 ∧ Accounted s := by
  have hturn : ∀ {s : Handler} (i : Nat), Admitted (.turn i .started) s ∧ Settles (.turn i .started) s :=
    fun _ => ⟨trivial, fun _ => nofun⟩
  have hbody : ∀ {s : Handler} {b : Body}, s.bodies = [b] → s.world.state.awaitingRecovery = false →
      Admitted (.body 0) s ∧ Settles (.body 0) s := fun h hawaits => ⟨admitted_single h, fun _ _ _ _ _ => hawaits⟩
  refine ⟨_, ?_, restarts_accounted samplePolicy 0 _ <|
    .head ⟨.outside false true false, .outside false true false, trivial, trivial⟩ <|
    .head ⟨.call (.exited "Exited"), .call _, trivial, trivial⟩ <|
    .head ⟨.turn 0 .started, .turn _ rfl, hturn 0⟩ <| .head ⟨.turn 0 .started, .turn _ rfl, hturn 0⟩ <|
    .head ⟨.turn 0 .started, .turn _ rfl, hturn 0⟩ <| .head ⟨.turn 0 .started, .turn _ rfl, hturn 0⟩ <|
    .head ⟨.turn 0 .started, .turn _ rfl, hturn 0⟩ <| .head ⟨.turn 0 .started, .turn _ rfl, hturn 0⟩ <|
    .head ⟨.body 0, .body rfl ?_, ?_⟩ <| .head ⟨.body 0, .body rfl ?_, ?_⟩ <|
    .head ⟨.body 0, .body rfl ?_, ?_⟩ <| .head ⟨.body 0, .body rfl ?_, ?_⟩ <|
    .head ⟨.body 0, .body rfl ?_, ?_⟩ <| .head ⟨.body 0, .body rfl ?_, ?_⟩ <|
    .head ⟨.body 0, .body rfl ?_, ?_⟩ .refl⟩
  · rfl
  all_goals first | exact hbody rfl rfl | decide +kernel

def RestartState.relaunched (state : RestartState) (now : Rat) : RestartState :=
  { state with
    restartAttempts := state.restartAttempts + 1, recentAttempts := state.recentAttempts ++ [now]
    unhealthyCount := 0, lastHealthcheckTime := none, pending := false, nextRestartTime := none
    awaitingRecovery := true, readinessState := "starting", readyAt := none }

def upWorld (state : RestartState) (now : Rat) (recorded : List Rat) : World :=
  ⟨{ state with disabled := false }, now, false, true, false, recorded⟩

def crashed (state : RestartState) (now : Rat) : Option Rat × RestartState :=
  schedule samplePolicy "Exited" now { state with disabled := false }

theorem crash_relaunches {state : RestartState} {now : Rat} {recorded : List Rat}
    {calls : List (Thread World String (Option Rat))} (hdelay : (crashed state now).1 = some 0) :
    ∃ calls', ReflTransGen (fun s s' => ∃ event, Step samplePolicy event s s' ∧ Admitted event s)
      ⟨upWorld state now recorded, calls, []⟩
      ⟨upWorld ((crashed state now).2.relaunched now) now (recorded ++ [now]), calls', []⟩ := by
  have hcall : ∀ {f : World → World} {k : World → Thread World String (Option Rat)} {w : World} {bodies : List Body},
      Step samplePolicy (.turn calls.length .started) ⟨w, calls ++ [.act f k], bodies⟩
        ⟨f w, calls ++ [k w], bodies ++ launch .started (f w).clock (k w)⟩ := by
    intro f k w bodies
    have hturn : Step samplePolicy (.turn calls.length .started) ⟨w, calls ++ [.act f k], bodies⟩
        ⟨f w, (calls ++ [Thread.act f k]).set calls.length (k w), bodies ++ launch .started (f w).clock (k w)⟩ :=
      .turn .started List.getElem?_concat_length
    simpa using hturn
  have hbody : ∀ {f : World → World} {k : World → Thread World String Unit} {w : World}
      {calls : List (Thread World String (Option Rat))}, w.clock = now →
        ∃ event, Step samplePolicy event ⟨w, calls, [⟨now + 0, Thread.act f k⟩]⟩ ⟨f w, calls, going (now + 0) (k w)⟩ ∧
          Admitted event ⟨w, calls, [⟨now + 0, Thread.act f k⟩]⟩ := by
    intro f k w calls hclock
    have hstep : Step samplePolicy (.body 0) ⟨w, calls, [⟨now + 0, Thread.act f k⟩]⟩
        ⟨f w, calls, [] ++ going (now + 0) (k w) ++ []⟩ := .body rfl (by rw [hclock, add_zero])
    rw [List.append_nil] at hstep
    exact ⟨_, hstep, admitted_single rfl⟩
  have hscheduled : ReflTransGen (fun s s' => ∃ event, Step samplePolicy event s s' ∧ Admitted event s)
      ⟨upWorld state now recorded, calls, []⟩
      ⟨{ upWorld state now recorded with state := (crashed state now).2 },
        calls ++ [.ret (crashed state now).1], launch .started now (.ret (crashed state now).1)⟩ :=
    .head ⟨.call (.exited "Exited"), .call _, trivial⟩ <|
    .head ⟨_, hcall, trivial⟩ <| .head ⟨_, hcall, trivial⟩ <| .head ⟨_, hcall, trivial⟩ <| .head ⟨_, hcall, trivial⟩ <|
    .head ⟨_, hcall, trivial⟩ <| .head ⟨_, hcall, trivial⟩ .refl
  have hlaunch : launch .started now (.ret (some 0)) = [⟨now + 0, doRestart .started⟩] := by
    rw [launch, if_neg (lt_irrefl 0)]
    rfl
  have hon : { (crashed state now).2 with disabled := false } = (crashed state now).2 := by
    unfold crashed schedule
    dsimp only
    split_ifs <;> rfl
  rw [hdelay, hlaunch, ← hon] at hscheduled
  refine ⟨calls ++ [.ret (some 0)], hscheduled.trans ?_⟩
  exact .head (hbody rfl) <| .head (hbody rfl) <| .head (hbody rfl) <| .head (hbody rfl) <| .head (hbody rfl) <|
    .head (hbody rfl) <| .head (hbody rfl) .refl

def twiceStarted : RestartState := (crashed ((crashed {} 0).2.relaunched 0) 0).2.relaunched 0

/-- A restarted process crashes before it is healthy, and is started again: two attempts, and one verdict to come. -/
theorem crash_unaccounted : ∃ s, ReflTransGen (fun s s' => ∃ event, Step samplePolicy event s s' ∧ Admitted event s)
    (.initial 0) s ∧ s.world.state.restartAttempts = 2 ∧ s.bodies = [] ∧ ¬Accounted s := by
  have hstart : ReflTransGen (fun s s' => ∃ event, Step samplePolicy event s s' ∧ Admitted event s) (.initial 0)
      ⟨upWorld {} 0 [], [], []⟩ := .single ⟨_, .outside false true false, trivial⟩
  obtain ⟨calls, hfirst⟩ := @crash_relaunches {} 0 [] [] (by decide +kernel)
  obtain ⟨calls', hsecond⟩ := @crash_relaunches ((crashed {} 0).2.relaunched 0) 0 ([] ++ [0]) calls (by decide +kernel)
  have htwo : twiceStarted.restartAttempts = 2 := by decide +kernel
  have hnone : twiceStarted.settled = 0 := by decide +kernel
  refine ⟨⟨upWorld twiceStarted 0 ([] ++ [0] ++ [0]), calls', []⟩, (hstart.trans hfirst).trans hsecond, htwo, rfl, ?_⟩
  intro h
  have howed : twiceStarted.restartAttempts = twiceStarted.settled + 1 := h.owed (.inl rfl)
  rw [htwo, hnone] at howed
  cases howed

end Dumb.Process
