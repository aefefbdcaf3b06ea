import Dumb.Lib.Dict

/-!
# Database repair of Plex among the other users of the process handler

`_run_dbrepair` from `utils/plex_dbrepair.py` over `start_process`, `stop_process`, `wait` and `reap_zombies` from
`utils/processes.py`. Each access of the handler's dicts is one operation of a thread, and an operation that calls
others puts them before what its thread has left to do. A process runs from its `Popen` until it exits.
-/

namespace Dumb.Plex

open Py

inductive Program where
  | plex
  | dbrepair
  | other (name : String)
  deriving DecidableEq

/-- `internal_name`: the prefix of the thread's context and the name. -/
abbrev Key := Option String × Program

/-- What the threads share: `process_names`, `processes`, what runs, and the flags. -/
structure World where
  names : Dict Key Nat
  tracked : Dict Nat Key
  live : List (Nat × Program)
  next : Nat
  disabled : List Key
  enabled : Bool
  shuttingDown : Bool

namespace World

def initial : World := ⟨[], [], [], 0, [], true, false⟩

def setRestartDisabled (key : Key) (disabled : Bool) (w : World) : World :=
  { w with disabled := if disabled then key :: w.disabled else w.disabled.filter (· ≠ key) }

def exited (pid : Nat) (w : World) : World := { w with live := w.live.filter (·.1 ≠ pid) }

def runs (w : World) (pid : Nat) : Bool := w.live.any (·.1 = pid)

def forget (key : Key) (pid : Nat) (w : World) : World :=
  { w with names := w.names.erase key, tracked := w.tracked.erase pid }

end World

inductive Op where
  | start (p : Program) (repairFirst : Bool)
  | enable (p : Program)
  | check (p : Program)
  | launch (p : Program)
  | track (p : Program) (pid : Nat)
  | stop (p : Program) (disableRestart : Bool)
  | terminate (key : Key) (pid : Nat)
  | wait (p : Program)
  | await (key : Key) (pid : Nat)
  | forget (key : Key) (pid : Nat)
  | autoRestart (p : Program)
  | restart (p : Program)
  | recover (p : Program)
  | disable
  | repair
  | look
  | finish
  | repaired
  deriving DecidableEq

structure Meets where
  /-- The start is refused: a setup that fails, a wait that shutdown cuts short, a failed validation. -/
  refused : Bool := false
  /-- `Popen` raises, or what comes between it and the bookkeeping. -/
  raises : Bool := false
  survives : Bool := false
  exitZero : Bool := true

def startProcess (p : Program) (repairFirst : Bool) : List Op :=
  .enable p :: (if repairFirst then [.repair] else []) ++ [.check p]

def runDbrepair (plexRunning : Bool) : List Op :=
  (if plexRunning then [.stop .plex true, .wait .plex] else []) ++ startProcess .dbrepair false ++ [.wait .dbrepair] ++
    (if plexRunning then [.finish] else []) ++ [.repaired]

section
variable (context : Option String) (meets : Meets) (w : World)

def stopKey (p : Program) : Key := if (w.names.get? (none, p)).isSome then (none, p) else (context, p)

/-- `_is_running` of the media protection: the first tracked process of that name. -/
def isRunning (p : Program) : Bool :=
  match w.tracked.find? fun e => e.2.2 = p with
  | some (pid, _) => w.runs pid
  | none => false

def Op.run : Op → World × List Op
  | .start p repairFirst => (w, startProcess p repairFirst)
  | .enable p => (w.setRestartDisabled (context, p) false, [])
  | .check p => (w, if meets.refused || (w.names.get? (context, p)).isSome then [] else [.launch p])
  | .launch p =>
    if meets.raises then (w, [])
    else ({ w with live := (w.next, p) :: w.live, next := w.next + 1 }, [.track p w.next])
  | .track p pid =>
    -- a process that has exited is kept only if it is no configured service and returned 0
    if meets.raises || (!w.runs pid && !(meets.exitZero && p = .dbrepair)) then (w, [])
    else ({ w with names := w.names.set (context, p) pid, tracked := w.tracked.set pid (context, p) }, [])
  | .stop p disableRestart =>
    let key := stopKey context w p
    match w.names.get? key with
    | none => (w, [])
    | some pid => (if disableRestart then w.setRestartDisabled key true else w, [.terminate key pid])
  | .terminate key pid => if meets.survives then (w, []) else (w.exited pid, [.forget key pid])
  | .wait p =>
    if w.shuttingDown then (w, [])
    else match w.names.get? (context, p) with
      | none => (w, [])
      | some pid => (w, [.await (context, p) pid])
  | .await key pid => (w.exited pid, [.forget key pid])
  | .forget key pid => (w.forget key pid, [])
  | .autoRestart p =>
    (w, if w.shuttingDown || (none, p) ∈ w.disabled || meets.refused then [] else [.restart p])
  | .restart p =>
    (w, (if (w.names.get? (none, p)).isSome then [.stop p false] else []) ++ startProcess p false)
  | .recover p => (w, if isRunning w p then [] else startProcess p false)
  | .disable => ({ w with enabled := false }, [])
  | .repair => (w, if w.enabled && !meets.refused then [.look] else [])
  | .look => (w, runDbrepair (w.names.get? (none, .plex)).isSome)
  | .finish => (w, startProcess .plex false)
  | .repaired => (w, [])

end

structure Worker where
  context : Option String
  ops : List Op

def Worker.Repairing (t : Worker) : Prop := .repaired ∈ t.ops

instance (t : Worker) : Decidable t.Repairing := inferInstanceAs (Decidable (_ ∈ _))

structure Pool where
  world : World
  workers : List Worker
  wasRunning : Bool
  meddled : Bool
  misstarted : Bool

/-- Another thread than the one at place `i` has a repair under way. -/
def Pool.OtherRepairing (s : Pool) (i : Nat) : Prop := ∃ j t, j ≠ i ∧ s.workers[j]? = some t ∧ t.Repairing

def Op.meddles : Op → Bool
  | .stop .plex _ | .disable => true
  | _ => false

instance (s : Pool) (i : Nat) : Decidable (s.OtherRepairing i) :=
  decidable_of_iff (∃ j : Fin s.workers.length, j.val ≠ i ∧ (s.workers.get j).Repairing) <| by
    constructor
    · rintro ⟨j, hne, hr⟩
      exact ⟨j, _, hne, List.getElem?_eq_getElem j.isLt, hr⟩
    · rintro ⟨j, t, hne, hj, hr⟩
      obtain ⟨hlt, rfl⟩ := List.getElem?_eq_some_iff.1 hj
      exact ⟨⟨j, hlt⟩, hne, hr⟩

inductive Event where
  | turn (i : Nat) (meets : Meets)
  | exits (pid : Nat)
  | reaps (pid : Nat)
  | shutdown

/-- One event: a turn of a thread, a process that exits by itself, `reap_zombies` for one of the tracked processes, or
the begin of a shutdown. -/
def Pool.step (s : Pool) : Event → Pool
  | .turn i meets =>
    match s.workers[i]? with
    | some ⟨context, op :: ops⟩ =>
      let (world, calls) := op.run context meets s.world
      { world := world
        workers := s.workers.set i ⟨context, calls ++ ops⟩
        wasRunning := if op = .look then s.world.live.any (·.2 = .plex) else s.wasRunning
        meddled := (s.meddled && op ≠ .look) || (op.meddles && decide (s.OtherRepairing i))
        misstarted := s.misstarted || (op = .finish && (s.meddled || !s.wasRunning)) }
    | _ => s
  | .exits pid => { s with world := s.world.exited pid }
  | .reaps pid =>
    match s.world.tracked.get? pid with
    | some key => if s.world.runs pid then s else { s with world := s.world.forget key pid }
    | none => s
  | .shutdown => { s with world := { s.world with shuttingDown := true } }

def Pool.run (events : List Event) (s : Pool) : Pool := events.foldl Pool.step s

def Op.IsCall : Op → Prop
  | .start p _ | .autoRestart p | .recover p => p ≠ .dbrepair
  | .stop .. | .wait _ | .disable | .repair => True
  | _ => False

structure Initial (s : Pool) : Prop where
  world : s.world = World.initial
  calls : ∀ t ∈ s.workers, ∀ op ∈ t.ops, op.IsCall
  misstarted : s.misstarted = false

end Dumb.Plex
