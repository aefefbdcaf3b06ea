import Mathlib.Data.Rat.Defs
import Mathlib.Algebra.Order.Ring.Unbundled.Rat
import Dumb.Lib.Thread

/-!
# Automatic restarts of one process

From `utils/processes.py`. A section under `auto_restart_lock` is one access. `_maybe_schedule_restart` runs in the
monitors; the `do_restart` body that it starts runs in a thread of its own.
-/

namespace Dumb.Process

structure RestartState where
  restartAttempts : Nat := 0
  restartSuccesses : Nat := 0
  restartFailures : Nat := 0
  recentAttempts : List Rat := []
  pending : Bool := false
  nextRestartTime : Option Rat := none
  disabled : Bool := false
  lastRestartTime : Option Rat := none
  lastFailureReason : Option String := none
  lastExitTime : Option Rat := none
  lastExitReason : Option String := none
  lastHealthcheckTime : Option Rat := none
  unhealthyCount : Nat := 0
  readinessState : String := "pending"
  readyAt : Option Rat := none
  awaitingRecovery : Bool := false

structure Policy where
  maxRestarts : Int
  windowSeconds : Rat
  backoffSeconds : List Rat
  unhealthyThreshold : Int

structure World where
  state : RestartState
  clock : Rat
  shuttingDown : Bool
  startupComplete : Bool
  migrationBlocks : Bool
  recorded : List Rat

/-- How `start_process` ends. It is refused before it touches the restart state, or after. -/
inductive Outcome where
  | blocked (error : String)
  | failed (error : String)
  | started
  | raised (error : String)

def setState (f : RestartState → RestartState) : Thread World String Unit :=
  Thread.modify fun w => { w with state := f w.state }

def setRestartDisabled (disabled : Bool) : Thread World String Unit :=
  setState fun state => { state with disabled := disabled }

def resetHealthcheckState : Thread World String Unit :=
  setState fun state =>
    { state with unhealthyCount := 0, lastHealthcheckTime := none, readinessState := "starting", readyAt := none }

def setLastHealthcheckTime : Thread World String Unit :=
  Thread.modify fun w => { w with state := { w.state with lastHealthcheckTime := some w.clock } }

def clearPendingRestart : Thread World String Unit :=
  setState fun state => { state with pending := false, nextRestartTime := none }

def startProcess (outcome : Outcome) : Thread World String (Bool × Option String) :=
  match outcome with
  | .blocked error => pure (false, some error)
  | outcome => do
    setRestartDisabled false
    resetHealthcheckState
    match outcome with
    | .raised error => Thread.raise error
    | .started => pure (true, none)
    | .blocked error | .failed error => pure (false, some error)

def stopProcess (running : Bool) : Thread World String Unit :=
  if running then setRestartDisabled true else pure ()

section
variable (policy : Policy)

def recordHealthcheckResult (healthy : Bool) (reason : Option String) : Thread World String Bool :=
  Thread.update fun w =>
    let state := w.state
    if healthy then
      let ready := { state with
        unhealthyCount := 0, readinessState := "ready", readyAt := some ((state.readyAt.filter (· ≠ 0)).getD w.clock) }
      if state.awaitingRecovery then
        (false, { w with state := { ready with
          awaitingRecovery := false, restartSuccesses := state.restartSuccesses + 1, lastRestartTime := some w.clock,
          lastFailureReason := none } })
      else (false, { w with state := ready })
    else
      let count := state.unhealthyCount + 1
      let unhealthy := { state with readinessState := "unhealthy", unhealthyCount := count }
      if policy.unhealthyThreshold ≤ count then
        if state.awaitingRecovery then
          (true, { w with state := { unhealthy with
            unhealthyCount := 0, awaitingRecovery := false, restartFailures := state.restartFailures + 1,
            lastFailureReason := reason } })
        else (true, { w with state := { unhealthy with unhealthyCount := 0 } })
      else (false, { w with state := unhealthy })

def backoff (recent : List Rat) : Rat :=
  (policy.backoffSeconds[min recent.length (max (policy.backoffSeconds.length - 1) 0)]?).getD 0

/-- The section of `_maybe_schedule_restart` under the lock: the delay of a restart that is to be started. -/
def schedule (reason : String) (now : Rat) (state : RestartState) : Option Rat × RestartState :=
  let recent := state.recentAttempts.filter fun t => now - t < policy.windowSeconds
  let state := { state with recentAttempts := recent }
  if policy.maxRestarts ≤ recent.length then (none, { state with lastFailureReason := some reason })
  else if state.pending then (none, state)
  else
    let delay := backoff policy recent
    (some delay, { state with
      pending := true, nextRestartTime := some (now + delay), lastExitTime := some now, lastExitReason := some reason })

def maybeScheduleRestart (reason : String) : Thread World String (Option Rat) := do
  let shuttingDown ← Thread.read (·.shuttingDown)
  if shuttingDown then pure none
  else do
    let startupComplete ← Thread.read (·.startupComplete)
    if !startupComplete then pure none
    else do
      let disabled ← Thread.read (·.state.disabled)
      if disabled then pure none
      else do
        let blocks ← Thread.read (·.migrationBlocks)
        if blocks then do
          clearPendingRestart
          pure none
        else do
          let now ← Thread.read (·.clock)
          Thread.update fun w =>
            let (delay, state) := schedule policy reason now w.state
            (delay, { w with state := state })

/-- `do_restart` after its sleep. The `stop_process` in it leaves the restart state alone. -/
def doRestart (outcome : Outcome) : Thread World String Unit := do
  let shuttingDown ← Thread.read (·.shuttingDown)
  if shuttingDown then clearPendingRestart
  else do
    let disabled ← Thread.read (·.state.disabled)
    if disabled then clearPendingRestart
    else do
      let blocks ← Thread.read (·.migrationBlocks)
      if blocks then clearPendingRestart
      else do
        Thread.modify fun w => { w with
          state := { w.state with
            restartAttempts := w.state.restartAttempts + 1, recentAttempts := w.state.recentAttempts ++ [w.clock] }
          recorded := w.recorded ++ [w.clock] }
        let (success, error) ← startProcess outcome
        setState fun state =>
          let state := { state with pending := false, nextRestartTime := none }
          if success then { state with awaitingRecovery := true, readinessState := "starting", readyAt := none }
          else { state with restartFailures := state.restartFailures + 1, lastFailureReason := error }

/-! ## The handler -/

inductive Call where
  | exited (reason : String)
  | health (healthy : Bool) (reason : Option String)
  | stop (running : Bool)
  | start (outcome : Outcome)

def Call.thread : Call → Thread World String (Option Rat)
  | .exited reason => maybeScheduleRestart policy reason
  | .health healthy reason => do
    let restart ← recordHealthcheckResult policy healthy reason
    setLastHealthcheckTime
    match reason with
    | some reason => if restart && reason ≠ "" then maybeScheduleRestart policy reason else pure none
    | none => pure none
  | .stop running => do
    stopProcess running
    pure none
  | .start outcome => do
    let _ ← startProcess outcome
    pure none

structure Body where
  wake : Rat
  thread : Thread World String Unit

structure Handler where
  world : World
  calls : List (Thread World String (Option Rat))
  bodies : List Body

def going (wake : Rat) (t : Thread World String Unit) : List Body := if t.result?.isSome then [] else [⟨wake, t⟩]

/-- The body that a call starts: `time.sleep` refuses a negative delay. -/
def launch (outcome : Outcome) (now : Rat) : Thread World String (Option Rat) → List Body
  | .ret (some delay) => if delay < 0 then [] else going (now + delay) (doRestart outcome)
  | _ => []

inductive Event where
  | tick (seconds : Rat)
  | outside (shuttingDown startupComplete migrationBlocks : Bool)
  | call (call : Call)
  | turn (i : Nat) (outcome : Outcome)
  | body (i : Nat)

inductive Step : Event → Handler → Handler → Prop
  | tick {w : World} {calls : List (Thread World String (Option Rat))} {bodies : List Body} {seconds : Rat}
      (h : 0 ≤ seconds) :
      Step (.tick seconds) ⟨w, calls, bodies⟩ ⟨{ w with clock := w.clock + seconds }, calls, bodies⟩
  | outside {w : World} {calls : List (Thread World String (Option Rat))} {bodies : List Body}
      (shuttingDown startupComplete migrationBlocks : Bool) :
      Step (.outside shuttingDown startupComplete migrationBlocks) ⟨w, calls, bodies⟩
        ⟨{ w with
          shuttingDown := shuttingDown, startupComplete := startupComplete, migrationBlocks := migrationBlocks },
          calls, bodies⟩
  | call {w : World} {calls : List (Thread World String (Option Rat))} {bodies : List Body} (call : Call) :
      Step (.call call) ⟨w, calls, bodies⟩ ⟨w, calls ++ [call.thread policy], bodies⟩
  | turn {w : World} {calls : List (Thread World String (Option Rat))} {bodies : List Body} {i : Nat}
      {f : World → World} {k : World → Thread World String (Option Rat)} (outcome : Outcome)
      (h : calls[i]? = some (.act f k)) :
      Step (.turn i outcome) ⟨w, calls, bodies⟩
        ⟨f w, calls.set i (k w), bodies ++ launch outcome (f w).clock (k w)⟩
  | body {w : World} {calls : List (Thread World String (Option Rat))} {bodies : List Body} {i : Nat} {wake : Rat}
      {f : World → World} {k : World → Thread World String Unit} (h : bodies[i]? = some ⟨wake, .act f k⟩)
      (hwake : wake ≤ w.clock) :
      Step (.body i) ⟨w, calls, bodies⟩ ⟨f w, calls, bodies.take i ++ going wake (k w) ++ bodies.drop (i + 1)⟩

def Handler.initial (clock : Rat) : Handler := ⟨⟨{}, clock, false, false, false, []⟩, [], []⟩

end

end Dumb.Process
