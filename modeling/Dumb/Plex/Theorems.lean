import Dumb.Plex.Repair
import Dumb.Lib.Raise

/-!
# Where a repair is and what runs then

A repair passes through stages, and each stage says which Plex and DBRepair processes can be running. What the other
threads do keeps that, as long as they start no Plex and take no entry of a running process out of the handler.
-/

namespace Dumb.Plex

open Py

def Only (w : World) (p : Program) (allowed : Option Nat) : Prop := ∀ pid, (pid, p) ∈ w.live → allowed = some pid

def Spares (w : World) (key : Key) : Prop := ∀ pid ∈ w.names.get? key, w.runs pid = false

instance (w : World) (key : Key) : Decidable (Spares w key) :=
  inferInstanceAs (Decidable (∀ pid ∈ w.names.get? key, w.runs pid = false))

def Op.InFlight : Op → Prop
  | .launch .plex | .track .plex _ => True
  | _ => False

instance : DecidablePred Op.InFlight
  | .launch .plex | .track .plex _ => .isTrue trivial
  | .launch .dbrepair | .launch (.other _) | .track .dbrepair _ | .track (.other _) _ => .isFalse id
  | .start .. | .enable _ | .check _ | .stop .. | .terminate .. | .wait _ | .await .. | .forget .. | .autoRestart _
  | .restart _ | .recover _ | .disable | .repair | .look | .finish | .repaired => .isFalse id

/-- The running Plex processes are those that the handler knows by the name, and it runs what it knows. -/
def PlexKnown (w : World) : Prop :=
  (∀ e ∈ w.live, e.2 = .plex → w.names.get? (none, .plex) = some e.1) ∧
    ∀ pid ∈ w.names.get? (none, .plex), (pid, .plex) ∈ w.live

/-- The condition on one operation of the thread at place `i`. -/
def FineOp (s : Pool) (i : Nat) (t : Worker) (meets : Meets) : Op → Prop
  | .look => ¬ s.OtherRepairing i ∧ (∀ t' ∈ s.workers, ∀ op ∈ t'.ops, ¬ op.InFlight) ∧ PlexKnown s.world
  | .check .plex => s.OtherRepairing i → meets.refused = true ∨ (s.world.names.get? (t.context, .plex)).isSome
  | .track .dbrepair pid => meets.raises = true → s.world.runs pid = false
  | .terminate _ pid => t.Repairing → meets.survives = true → s.world.runs pid = false
  | .forget key _ => s.OtherRepairing i → Spares s.world key
  | .wait .dbrepair => t.Repairing → s.world.shuttingDown = false
  | .finish => s.meddled = false
  | _ => True

instance (w : World) : Decidable (PlexKnown w) := inferInstanceAs (Decidable (_ ∧ _))

instance FineOp.decidable (s : Pool) (i : Nat) (t : Worker) (meets : Meets) : ∀ op, Decidable (FineOp s i t meets op)
  | .look => inferInstanceAs (Decidable (_ ∧ _ ∧ _))
  | .check .plex => inferInstanceAs (Decidable (_ → _))
  | .track .dbrepair _ => inferInstanceAs (Decidable (_ → _))
  | .terminate .. => inferInstanceAs (Decidable (_ → _))
  | .forget .. => inferInstanceAs (Decidable (_ → _))
  | .wait .dbrepair => inferInstanceAs (Decidable (_ → _))
  | .finish => inferInstanceAs (Decidable (_ = _))
  | .check .dbrepair | .check (.other _) | .track .plex _ | .track (.other _) _ | .wait .plex | .wait (.other _)
  | .start .. | .enable _ | .launch _ | .stop .. | .await .. | .autoRestart _ | .restart _ | .recover _ | .disable
  | .repair | .repaired => .isTrue trivial

def Fine (s : Pool) : Event → Prop
  | .turn i meets =>
    match s.workers[i]? with
    | some ⟨context, op :: ops⟩ => FineOp s i ⟨context, op :: ops⟩ meets op
    | _ => True
  | .reaps pid => (∃ t ∈ s.workers, t.Repairing) → ∀ key ∈ s.world.tracked.get? pid, Spares s.world key
  | .exits _ | .shutdown => True

instance Fine.decidable (s : Pool) : ∀ event, Decidable (Fine s event)
  | .turn i meets =>
    match h : s.workers[i]? with
    | some ⟨context, op :: ops⟩ => decidable_of_iff (FineOp s i ⟨context, op :: ops⟩ meets op) (by simp [Fine, h])
    | some ⟨_, []⟩ => .isTrue (by simp [Fine, h])
    | none => .isTrue (by simp [Fine, h])
  | .reaps pid =>
    inferInstanceAs (Decidable ((∃ t ∈ s.workers, t.Repairing) → ∀ key ∈ s.world.tracked.get? pid, Spares s.world key))
  | .exits _ | .shutdown => .isTrue trivial

/-! ## Stages -/

def Op.Quiet : Op → Prop
  | .repaired | .finish => False
  | .start p _ | .check p | .launch p | .track p _ | .autoRestart p | .restart p | .recover p => p ≠ .dbrepair
  | _ => True

def last (again : Bool) (rest : List Op) : List Op := (if again then [.finish] else []) ++ .repaired :: rest

def fromWait (again : Bool) (rest : List Op) : List Op := .wait .dbrepair :: last again rest

def fromStart (again : Bool) (rest : List Op) : List Op := .enable .dbrepair :: .check .dbrepair :: fromWait again rest

inductive Stage (rest : List Op) : List Op → Prop
  | stop : Stage rest (.stop .plex true :: .wait .plex :: fromStart true rest)
  | terminate (key : Key) (pid : Nat) : Stage rest (.terminate key pid :: .wait .plex :: fromStart true rest)
  | forget (key : Key) (pid : Nat) : Stage rest (.forget key pid :: .wait .plex :: fromStart true rest)
  | wait : Stage rest (.wait .plex :: fromStart true rest)
  | await (key : Key) (pid : Nat) : Stage rest (.await key pid :: fromStart true rest)
  | forgetWaited (key : Key) (pid : Nat) : Stage rest (.forget key pid :: fromStart true rest)
  | enableDb (again : Bool) : Stage rest (fromStart again rest)
  | checkDb (again : Bool) : Stage rest (.check .dbrepair :: fromWait again rest)
  | launchDb (again : Bool) : Stage rest (.launch .dbrepair :: fromWait again rest)
  | trackDb (again : Bool) (pid : Nat) : Stage rest (.track .dbrepair pid :: fromWait again rest)
  | waitDb (again : Bool) : Stage rest (fromWait again rest)
  | awaitDb (again : Bool) (key : Key) (pid : Nat) : Stage rest (.await key pid :: last again rest)
  | forgetDb (again : Bool) (key : Key) (pid : Nat) : Stage rest (.forget key pid :: last again rest)
  | finish : Stage rest (.finish :: .repaired :: rest)
  | enable : Stage rest (.enable .plex :: .check .plex :: .repaired :: rest)
  | check : Stage rest (.check .plex :: .repaired :: rest)
  | launch : Stage rest (.launch .plex :: .repaired :: rest)
  | track (pid : Nat) : Stage rest (.track .plex pid :: .repaired :: rest)
  | repaired : Stage rest (.repaired :: rest)

def Allows (context : Option String) (w : World) : Op → Prop
  | .stop _ _ => Only w .plex (w.names.get? (none, .plex)) ∧ Only w .dbrepair none
  | .terminate _ pid => Only w .plex (some pid) ∧ Only w .dbrepair none
  | .track .dbrepair pid | .await _ pid => Only w .plex none ∧ Only w .dbrepair (some pid)
  | .wait .dbrepair => Only w .plex none ∧ Only w .dbrepair (w.names.get? (context, .dbrepair))
  | .finish | .enable .plex | .check .plex | .launch .plex | .track .plex _ | .repaired => Only w .dbrepair none
  | _ => Only w .plex none ∧ Only w .dbrepair none

def AllowsFirst (context : Option String) (w : World) : List Op → Prop
  | [] => False
  | op :: _ => Allows context w op

variable {p : Program}

theorem Only.exited {w : World} {allowed : Option Nat} (h : Only w p allowed) (pid : Nat) :
    Only (w.exited pid) p allowed := fun q hq => h q (List.mem_of_mem_filter hq)

variable {pid : Nat}

theorem Only.gone {w : World} (h : Only w p (some pid)) : Only (w.exited pid) p none := by
  intro q hq
  have hmem := List.mem_filter.1 hq
  have heq := Option.some.inj (h q hmem.1)
  simp [heq] at hmem

theorem Only.none_of_runs {w : World} (h : Only w p (some pid)) (hruns : w.runs pid = false) :
    Only w p none := by
  intro q hq
  have heq := Option.some.inj (h q hq)
  simp only [World.runs, List.any_eq_false, decide_eq_true_eq] at hruns
  exact absurd heq.symm (hruns _ hq)

theorem Only.of_none {w : World} (h : Only w p none) (allowed : Option Nat) : Only w p allowed := by
  intro pid hpid
  cases h pid hpid

variable (again : Bool)

theorem allowsFirst_last {context : Option String} {w : World} (rest : List Op)
    (h : Only w .dbrepair none) : AllowsFirst context w (last again rest) := by
  cases again <;> exact h

theorem Stage.last_stage (rest : List Op) : Stage rest (last again rest) := by
  cases again with
  | false => exact .repaired
  | true => exact .finish

variable {context : Option String} {w : World} {rest tail : List Op} {op : Op} {meets : Meets}

variable {s : Pool} {i : Nat}

theorem Stage.step (h : Stage rest (op :: tail)) (hne : op ≠ .repaired)
    (hallows : Allows context s.world op)
    (hfine : FineOp s i ⟨context, op :: tail⟩ meets op) (hrep : Op.repaired ∈ op :: tail) :
    Stage rest ((op.run context meets s.world).2 ++ tail) ∧
      AllowsFirst context (op.run context meets s.world).1 ((op.run context meets s.world).2 ++ tail) := by
  cases h with
  | stop =>
    obtain ⟨hplex, hdb⟩ := hallows
    simp only [Op.run]
    cases hget : s.world.names.get? (stopKey context s.world .plex) with
    | none =>
      refine ⟨.wait, fun pid hpid => ?_, hdb⟩
      have hname := hplex pid hpid
      simp [stopKey, hname] at hget
    | some pid =>
      refine ⟨.terminate _ pid, fun q hq => ?_, hdb⟩
      have hname := hplex q hq
      simp only [stopKey, hname, Option.isSome_some, ↓reduceIte] at hget
      exact hget.symm
  | terminate key pid =>
    obtain ⟨hplex, hdb⟩ := hallows
    simp only [Op.run]
    cases hsurvives : meets.survives with
    | true => exact ⟨.wait, hplex.none_of_runs (hfine hrep hsurvives), hdb⟩
    | false => exact ⟨.forget key pid, hplex.gone, hdb.exited pid⟩
  | forget key pid => exact ⟨.wait, hallows⟩
  | wait =>
    simp only [Op.run]
    split
    · exact ⟨.enableDb true, hallows⟩
    split
    · exact ⟨.enableDb true, hallows⟩
    · exact ⟨.await _ _, hallows.1, hallows.2.of_none _⟩
  | await key pid => exact ⟨.forgetWaited key pid, hallows.1.exited pid, hallows.2.gone⟩
  | forgetWaited key pid => exact ⟨.enableDb true, hallows⟩
  | enableDb again => exact ⟨.checkDb again, hallows⟩
  | checkDb again =>
    simp only [Op.run]
    split
    · exact ⟨.waitDb again, hallows.1, hallows.2.of_none _⟩
    · exact ⟨.launchDb again, hallows⟩
  | launchDb again =>
    obtain ⟨hplex, hdb⟩ := hallows
    simp only [Op.run]
    split
    · exact ⟨.waitDb again, hplex, hdb.of_none _⟩
    · refine ⟨.trackDb again _, fun pid hpid => ?_, fun pid hpid => ?_⟩
      · simpa using hplex pid (by simpa using hpid)
      · simp only [List.mem_cons, Prod.mk.injEq, and_true] at hpid
        rcases hpid with rfl | hpid
        · rfl
        · cases hdb pid hpid
  | trackDb again pid =>
    obtain ⟨hplex, hdb⟩ := hallows
    simp only [Op.run]
    split
    · rename_i hlost
      simp only [Bool.or_eq_true, Bool.and_eq_true, Bool.not_eq_true'] at hlost
      have hruns : s.world.runs pid = false := hlost.elim hfine fun h => h.1
      exact ⟨.waitDb again, hplex, (hdb.none_of_runs hruns).of_none _⟩
    · refine ⟨.waitDb again, hplex, fun q hq => ?_⟩
      rw [← hdb q hq]
      exact Dict.get?_set_self ..
  | waitDb again =>
    obtain ⟨hplex, hdb⟩ := hallows
    simp only [Op.run, hfine hrep, Bool.false_eq_true, ↓reduceIte]
    split
    · rename_i hnone
      rw [hnone] at hdb
      exact ⟨Stage.last_stage again rest, allowsFirst_last again rest hdb⟩
    · rename_i pid hsome
      rw [hsome] at hdb
      exact ⟨.awaitDb again _ pid, hplex, hdb⟩
  | awaitDb again key pid => exact ⟨.forgetDb again key pid, hallows.1.exited pid, hallows.2.gone⟩
  | forgetDb again key pid => exact ⟨Stage.last_stage again rest, allowsFirst_last again rest hallows.2⟩
  | finish => exact ⟨.enable, hallows⟩
  | enable => exact ⟨.check, hallows⟩
  | check =>
    simp only [Op.run]
    split
    · exact ⟨.repaired, hallows⟩
    · exact ⟨.launch, hallows⟩
  | launch =>
    simp only [Op.run]
    split
    · exact ⟨.repaired, hallows⟩
    · refine ⟨.track _, fun pid hpid => ?_⟩
      exact hallows pid (by simpa using hpid)
  | track pid =>
    simp only [Op.run]
    split
    · exact ⟨.repaired, hallows⟩
    · exact ⟨.repaired, hallows⟩
  | repaired => exact absurd rfl hne

variable {ops : List Op}

theorem Stage.repairing (h : Stage rest ops) : .repaired ∈ ops := by
  cases h <;> simp [fromStart, fromWait, last]

/-! ## Others -/

/-- What the others do to what runs and to the entries of it while a repair is under way. -/
structure Leaves (w w' : World) : Prop where
  live : ∀ pid p, p = .plex ∨ p = .dbrepair → (pid, p) ∈ w'.live → (pid, p) ∈ w.live
  names : ∀ (key : Key) pid, key.2 = .plex ∨ key.2 = .dbrepair → w.names.get? key = some pid → w'.runs pid = true →
    w'.names.get? key = some pid

theorem runs_of_live (h : (pid, p) ∈ w.live) : w.runs pid = true := by
  simp only [World.runs, List.any_eq_true, decide_eq_true_eq]
  exact ⟨_, h, rfl⟩

theorem Leaves.refl (w : World) : Leaves w w := ⟨fun _ _ _ h => h, fun _ _ _ h _ => h⟩

variable {w' : World}

theorem Leaves.only (h : Leaves w w') (hp : p = .plex ∨ p = .dbrepair)
    {allowed : Option Nat} (ho : Only w p allowed) : Only w' p allowed := fun pid hpid => ho pid (h.live pid p hp hpid)

theorem Leaves.only_name (h : Leaves w w') (hp : p = .plex ∨ p = .dbrepair)
    {prefixed : Option String} (ho : Only w p (w.names.get? (prefixed, p))) :
    Only w' p (w'.names.get? (prefixed, p)) := fun pid hpid =>
  h.names (prefixed, p) pid hp (ho pid (h.live pid p hp hpid)) (runs_of_live hpid)

theorem Leaves.allows (h : Leaves w w') (ha : Allows context w op) : Allows context w' op := by
  have hp : Program.plex = .plex ∨ Program.plex = .dbrepair := .inl rfl
  have hd : Program.dbrepair = .plex ∨ Program.dbrepair = .dbrepair := .inr rfl
  have both : ∀ {a b : Option Nat}, Only w .plex a ∧ Only w .dbrepair b → Only w' .plex a ∧ Only w' .dbrepair b :=
    fun ho => ⟨h.only hp ho.1, h.only hd ho.2⟩
  cases op with
  | stop p d => exact ⟨h.only_name hp ha.1, h.only hd ha.2⟩
  | terminate key pid => exact both ha
  | await key pid => exact both ha
  | finish => exact h.only hd ha
  | repaired => exact h.only hd ha
  | track p pid =>
    cases p with
    | plex => exact h.only hd ha
    | dbrepair => exact both ha
    | other name => exact both ha
  | wait p =>
    cases p with
    | plex => exact both ha
    | dbrepair => exact ⟨h.only hp ha.1, h.only_name hd ha.2⟩
    | other name => exact both ha
  | enable p =>
    cases p with
    | plex => exact h.only hd ha
    | dbrepair => exact both ha
    | other name => exact both ha
  | check p =>
    cases p with
    | plex => exact h.only hd ha
    | dbrepair => exact both ha
    | other name => exact both ha
  | launch p =>
    cases p with
    | plex => exact h.only hd ha
    | dbrepair => exact both ha
    | other name => exact both ha
  | _ => exact both ha

theorem leaves_exited (w : World) (pid : Nat) : Leaves w (w.exited pid) :=
  ⟨fun _ _ _ h => List.mem_of_mem_filter h, fun _ _ _ h _ => h⟩

theorem leaves_forget {key : Key} (h : Spares w key) : Leaves w (w.forget key pid) := by
  refine ⟨fun _ _ _ h => h, fun key' q _ hq hruns => ?_⟩
  by_cases heq : key' = key
  · rw [heq] at hq
    have hfalse := h q hq
    rw [show w.runs q = true from hruns] at hfalse
    cases hfalse
  · simpa [World.forget, Dict.get?_erase, heq] using hq

theorem leaves_of_same (hlive : w'.live = w.live) (hnames : w'.names = w.names) : Leaves w w' :=
  ⟨fun _ _ _ h => hlive ▸ h, fun _ _ _ h _ => hnames ▸ h⟩

theorem startProcess_calls {repairFirst : Bool} {call : Op} (h : call ∈ startProcess p repairFirst) :
    call = .enable p ∨ call = .repair ∨ call = .check p := by
  cases repairFirst <;> simp [startProcess] at h <;> tauto

theorem Op.Quiet.leaves {t : Worker} (hq : op.Quiet) (hflight : ¬ op.InFlight)
    (hother : s.OtherRepairing i) (hfine : FineOp s i t meets op) :
    Leaves s.world (op.run t.context meets s.world).1 ∧
      ∀ call ∈ (op.run t.context meets s.world).2, ¬ call.InFlight := by
  have hstart : ∀ {p b} {call : Op}, call ∈ startProcess p b → ¬ call.InFlight := by
    intro p b call hc
    rcases startProcess_calls hc with rfl | rfl | rfl <;> exact id
  cases op with
  | start p repairFirst => exact ⟨.refl _, fun call hc => hstart hc⟩
  | enable p => exact ⟨leaves_of_same rfl rfl, nofun⟩
  | check p =>
    refine ⟨.refl _, fun call hc => ?_⟩
    simp only [Op.run] at hc
    split at hc
    · cases hc
    · rename_i habsent
      rw [List.mem_singleton.1 hc]
      cases p with
      | plex =>
        rcases hfine hother with h | h
        · simp [h] at habsent
        · simp [h] at habsent
      | dbrepair => exact id
      | other name => exact id
  | launch p =>
    simp only [Op.run]
    split
    · exact ⟨.refl _, nofun⟩
    · cases p with
      | plex => exact absurd trivial hflight
      | dbrepair => exact absurd rfl hq
      | other name =>
        refine ⟨⟨fun pid p hp h => ?_, fun _ _ _ h _ => h⟩, fun call hc => by rw [List.mem_singleton.1 hc]; exact id⟩
        rcases List.mem_cons.1 h with heq | h
        · cases heq
          rcases hp with hp | hp <;> cases hp
        · exact h
  | track p pid =>
    simp only [Op.run]
    split
    · exact ⟨.refl _, nofun⟩
    · cases p with
      | plex => exact absurd trivial hflight
      | dbrepair => exact absurd rfl hq
      | other name =>
        refine ⟨⟨fun _ _ _ h => h, fun key q hk h _ => ?_⟩, nofun⟩
        have hne : key ≠ (t.context, .other name) := by
          rintro rfl
          rcases hk with hk | hk <;> cases hk
        simpa [Dict.get?_set_ne hne] using h
  | stop p d =>
    simp only [Op.run]
    split
    · exact ⟨.refl _, nofun⟩
    · refine ⟨?_, fun call hc => by rw [List.mem_singleton.1 hc]; exact id⟩
      cases d
      · exact .refl _
      · exact leaves_of_same rfl rfl
  | terminate key pid =>
    simp only [Op.run]
    split
    · exact ⟨.refl _, nofun⟩
    · exact ⟨leaves_exited _ pid, fun call hc => by rw [List.mem_singleton.1 hc]; exact id⟩
  | wait p =>
    simp only [Op.run]
    split
    · exact ⟨.refl _, nofun⟩
    split
    · exact ⟨.refl _, nofun⟩
    · exact ⟨.refl _, fun call hc => by rw [List.mem_singleton.1 hc]; exact id⟩
  | await key pid => exact ⟨leaves_exited _ pid, fun call hc => by rw [List.mem_singleton.1 hc]; exact id⟩
  | forget key pid => exact ⟨leaves_forget (hfine hother), nofun⟩
  | autoRestart p =>
    refine ⟨.refl _, fun call hc => ?_⟩
    simp only [Op.run] at hc
    split at hc
    · cases hc
    · rw [List.mem_singleton.1 hc]
      exact id
  | restart p =>
    refine ⟨.refl _, fun call hc => ?_⟩
    rcases List.mem_append.1 hc with hc | hc
    · split at hc
      · rw [List.mem_singleton.1 hc]
        exact id
      · cases hc
    · exact hstart hc
  | recover p =>
    refine ⟨.refl _, fun call hc => ?_⟩
    simp only [Op.run] at hc
    split at hc
    · cases hc
    · exact hstart hc
  | disable => exact ⟨leaves_of_same rfl rfl, nofun⟩
  | repair =>
    refine ⟨.refl _, fun call hc => ?_⟩
    simp only [Op.run] at hc
    split at hc
    · rw [List.mem_singleton.1 hc]
      exact id
    · cases hc
  | look => exact absurd hother hfine.1
  | finish => exact hq.elim
  | repaired => exact hq.elim

theorem Op.Quiet.calls (context : Option String) (w : World) (meets : Meets) (hq : op.Quiet) (hlook : op ≠ .look) :
    (∀ pid, (pid, .dbrepair) ∈ (op.run context meets w).1.live → (pid, .dbrepair) ∈ w.live) ∧
      ∀ call ∈ (op.run context meets w).2, call.Quiet := by
  have hstart : ∀ {p b} {call : Op}, p ≠ .dbrepair → call ∈ startProcess p b → call.Quiet := by
    intro p b call hp hc
    rcases startProcess_calls hc with rfl | rfl | rfl
    · trivial
    · trivial
    · exact hp
  cases op with
  | start p repairFirst => exact ⟨fun _ h => h, fun call hc => hstart hq hc⟩
  | enable p => exact ⟨fun _ h => h, nofun⟩
  | check p =>
    refine ⟨fun _ h => h, fun call hc => ?_⟩
    simp only [Op.run] at hc
    split at hc
    · cases hc
    · rw [List.mem_singleton.1 hc]
      exact hq
  | launch p =>
    simp only [Op.run]
    split
    · exact ⟨fun _ h => h, nofun⟩
    · refine ⟨fun pid h => ?_, fun call hc => by rw [List.mem_singleton.1 hc]; exact hq⟩
      rcases List.mem_cons.1 h with heq | h
      · cases heq
        exact absurd rfl hq
      · exact h
  | track p pid =>
    simp only [Op.run]
    split
    · exact ⟨fun _ h => h, nofun⟩
    · exact ⟨fun _ h => h, nofun⟩
  | stop p d =>
    simp only [Op.run]
    split
    · exact ⟨fun _ h => h, nofun⟩
    · refine ⟨fun _ h => ?_, fun call hc => by rw [List.mem_singleton.1 hc]; trivial⟩
      cases d <;> exact h
  | terminate key pid =>
    simp only [Op.run]
    split
    · exact ⟨fun _ h => h, nofun⟩
    · exact ⟨fun _ h => List.mem_of_mem_filter h, fun call hc => by rw [List.mem_singleton.1 hc]; trivial⟩
  | wait p =>
    simp only [Op.run]
    split
    · exact ⟨fun _ h => h, nofun⟩
    split
    · exact ⟨fun _ h => h, nofun⟩
    · exact ⟨fun _ h => h, fun call hc => by rw [List.mem_singleton.1 hc]; trivial⟩
  | await key pid =>
    exact ⟨fun _ h => List.mem_of_mem_filter h, fun call hc => by rw [List.mem_singleton.1 hc]; trivial⟩
  | forget key pid => exact ⟨fun _ h => h, nofun⟩
  | autoRestart p =>
    refine ⟨fun _ h => h, fun call hc => ?_⟩
    simp only [Op.run] at hc
    split at hc
    · cases hc
    · rw [List.mem_singleton.1 hc]
      exact hq
  | restart p =>
    refine ⟨fun _ h => h, fun call hc => ?_⟩
    rcases List.mem_append.1 hc with hc | hc
    · split at hc
      · rw [List.mem_singleton.1 hc]
        trivial
      · cases hc
    · exact hstart hq hc
  | recover p =>
    refine ⟨fun _ h => h, fun call hc => ?_⟩
    simp only [Op.run] at hc
    split at hc
    · cases hc
    · exact hstart hq hc
  | disable => exact ⟨fun _ h => h, nofun⟩
  | repair =>
    refine ⟨fun _ h => h, fun call hc => ?_⟩
    simp only [Op.run] at hc
    split at hc
    · rw [List.mem_singleton.1 hc]
      trivial
    · cases hc
  | look => exact absurd rfl hlook
  | finish => exact hq.elim
  | repaired => exact hq.elim

theorem finish_mem_run (context : Option String) (w : World) (meets : Meets) (hlook : op ≠ .look) :
    .finish ∉ (op.run context meets w).2 := by
  have hstart : ∀ p b, Op.finish ∉ startProcess p b := by
    intro p b h
    rcases startProcess_calls h with h | h | h <;> cases h
  cases op with
  | look => exact absurd rfl hlook
  | _ =>
    simp only [Op.run]
    (try split) <;> (try split) <;> simp [hstart]

/-! ## The pool -/

/-- Of the threads at most one is repairing, the others are not starting Plex, and without one no repair runs. -/
structure Inv (s : Pool) : Prop where
  idle : (∀ t ∈ s.workers, ¬ t.Repairing) → Only s.world .dbrepair none
  quiet : ∀ t ∈ s.workers, ¬ t.Repairing → ∀ op ∈ t.ops, op.Quiet
  stage : ∀ (i : Nat) t, s.workers[i]? = some t → t.Repairing → ∃ rest, (∀ op ∈ rest, op.Quiet) ∧ Stage rest t.ops
  allows : ∀ (i : Nat) t, s.workers[i]? = some t → t.Repairing → AllowsFirst t.context s.world t.ops
  again : ∀ (i : Nat) t, s.workers[i]? = some t → t.Repairing → .finish ∈ t.ops → s.wasRunning = true
  alone : ∀ (i : Nat) t, s.workers[i]? = some t → t.Repairing → ∀ (j : Nat) t', j ≠ i → s.workers[j]? = some t' →
    ¬ t'.Repairing ∧ ∀ op ∈ t'.ops, ¬ op.InFlight
  fine : s.misstarted = false

theorem Inv.initial (h : Initial s) : Inv s := by
  have hcall : ∀ {op : Op}, op.IsCall → op.Quiet := by
    intro op hop
    cases op <;> first | exact hop | trivial
  have hnot : ∀ t ∈ s.workers, ¬ t.Repairing := fun t ht hr => h.calls t ht _ hr
  have hnot' : ∀ (i : Nat) t, s.workers[i]? = some t → ¬ t.Repairing := fun i t ht => hnot t (List.mem_of_getElem? ht)
  refine ⟨fun _ pid hpid => ?_, fun t ht _ op hop => hcall (h.calls t ht op hop), ?_, ?_, ?_, ?_, h.misstarted⟩
  · rw [h.world] at hpid
    cases hpid
  · exact fun i t ht hr => absurd hr (hnot' i t ht)
  · exact fun i t ht hr => absurd hr (hnot' i t ht)
  · exact fun i t ht hr => absurd hr (hnot' i t ht)
  · exact fun i t ht hr => absurd hr (hnot' i t ht)

theorem Inv.outside (h : Inv s)
    (hleaves : (∃ t ∈ s.workers, t.Repairing) → Leaves s.world w)
    (hlive : ∀ pid, (pid, .dbrepair) ∈ w.live → (pid, .dbrepair) ∈ s.world.live) : Inv { s with world := w } where
  idle := fun hno pid hpid => h.idle hno pid (hlive pid hpid)
  quiet := h.quiet
  stage := h.stage
  allows := by
    intro i t ht hr
    have ha := h.allows i t ht hr
    have hl := hleaves ⟨t, List.mem_of_getElem? ht, hr⟩
    cases hops : t.ops with
    | nil => rw [hops] at ha; exact ha
    | cons op ops =>
      rw [hops] at ha
      exact hl.allows ha
  again := h.again
  alone := h.alone
  fine := h.fine

theorem step_turn (hi : s.workers[i]? = some ⟨context, op :: ops⟩) :
    s.step (.turn i meets) =
      { world := (op.run context meets s.world).1
        workers := s.workers.set i ⟨context, (op.run context meets s.world).2 ++ ops⟩
        wasRunning := if op = .look then s.world.live.any (·.2 = .plex) else s.wasRunning
        meddled := (s.meddled && op ≠ .look) || (op.meddles && decide (s.OtherRepairing i))
        misstarted := s.misstarted || (op = .finish && (s.meddled || !s.wasRunning)) } := by
  simp only [Pool.step, hi]

variable {ws : List Worker}

variable {t t' : Worker}

theorem get_set {i j : Nat} (h : (ws.set i t)[j]? = some t') :
    (j = i ∧ t' = t) ∨ (j ≠ i ∧ ws[j]? = some t') := by
  by_cases hij : i = j
  · subst hij
    rw [List.getElem?_set, if_pos rfl] at h
    split at h
    · exact .inl ⟨rfl, (Option.some.inj h).symm⟩
    · cases h
  · rw [List.getElem?_set_ne hij] at h
    exact .inr ⟨Ne.symm hij, h⟩

theorem mem_set (h : t' ∈ ws.set i t) :
    t' = t ∨ ∃ j, j ≠ i ∧ ws[j]? = some t' := by
  obtain ⟨j, hj⟩ := List.mem_iff_getElem?.1 h
  exact (get_set hj).imp (·.2) fun hj => ⟨j, hj⟩

theorem mem_set_self (h : ws[i]? = some t) : t' ∈ ws.set i t' :=
  List.mem_set (List.getElem?_eq_some_iff.1 h).1 _

theorem Inv.own (h : Inv s) (hi : s.workers[i]? = some ⟨context, op :: ops⟩)
    (hr : Worker.Repairing ⟨context, op :: ops⟩) (hfine : FineOp s i ⟨context, op :: ops⟩ meets op) :
    Inv (s.step (.turn i meets)) := by
  obtain ⟨rest, hrest, hstage⟩ := h.stage i _ hi hr
  have hallows : Allows context s.world op := h.allows i _ hi hr
  have hagain := h.again i _ hi hr
  have halone := h.alone i _ hi hr
  rw [step_turn hi]
  have hlook : op ≠ .look := by
    rintro rfl
    cases hstage
  -- no other thread is repairing
  have hself : ∀ {j : Nat} {t t' : Worker}, (s.workers.set i t)[j]? = some t' → t'.Repairing → j = i ∧ t' = t := by
    intro j t t' hj hr'
    rcases get_set hj with hj | ⟨hne, hj⟩
    · exact hj
    · exact absurd hr' (halone j t' hne hj).1
  have hquiet : ∀ {j : Nat} {t' : Worker}, j ≠ i → s.workers[j]? = some t' → ∀ op ∈ t'.ops, op.Quiet :=
    fun hne hj => h.quiet _ (List.mem_of_getElem? hj) (halone _ _ hne hj).1
  have hmis : (s.misstarted || (op = .finish && (s.meddled || !s.wasRunning))) = false := by
    rw [h.fine, Bool.false_or, Bool.and_eq_false_iff]
    by_cases hop : op = .finish
    · subst hop
      simp [show s.meddled = false from hfine, hagain List.mem_cons_self]
    · exact .inl (by simpa using hop)
  by_cases hop : op = .repaired
  · subst hop
    cases hstage with
    | repaired =>
      have hnot : ¬ Worker.Repairing ⟨context, ops⟩ := fun hr' => hrest _ hr'
      have hnone : ∀ {j : Nat} {t' : Worker}, (s.workers.set i ⟨context, ops⟩)[j]? = some t' → ¬ t'.Repairing :=
        fun hj hr' => hnot ((hself hj hr').2 ▸ hr')
      refine ⟨fun _ => hallows, fun t ht _ => ?_, ?_, ?_, ?_, ?_, hmis⟩
      · rcases mem_set ht with rfl | ⟨j, hne, hj⟩
        · exact hrest
        · exact hquiet hne hj
      · exact fun j t ht hr' => absurd hr' (hnone ht)
      · exact fun j t ht hr' => absurd hr' (hnone ht)
      · exact fun j t ht hr' => absurd hr' (hnone ht)
      · exact fun j t ht hr' => absurd hr' (hnone ht)
  · obtain ⟨hnext, hallows'⟩ := hstage.step hop hallows hfine hr
    have hrep : Worker.Repairing ⟨context, (op.run context meets s.world).2 ++ ops⟩ := hnext.repairing
    refine ⟨fun hno => ?_, fun t ht hnr => ?_, fun j t ht hr' => ?_, fun j t ht hr' => ?_, fun j t ht hr' hf => ?_,
      fun j t ht hr' k t' hk ht' => ?_, hmis⟩
    · exact absurd hrep (hno _ (mem_set_self hi))
    · rcases mem_set ht with rfl | ⟨j, hne, hj⟩
      · exact absurd hrep hnr
      · exact hquiet hne hj
    · obtain ⟨-, rfl⟩ := hself ht hr'
      exact ⟨rest, hrest, hnext⟩
    · obtain ⟨-, rfl⟩ := hself ht hr'
      exact hallows'
    · obtain ⟨-, rfl⟩ := hself ht hr'
      rcases List.mem_append.1 hf with hf | hf
      · exact absurd hf (finish_mem_run context s.world meets hlook)
      · rw [if_neg hlook]
        exact hagain (List.mem_cons_of_mem _ hf)
    · obtain ⟨rfl, -⟩ := hself ht hr'
      rcases get_set ht' with ⟨hk', -⟩ | ⟨-, ht'⟩
      · exact absurd hk' hk
      · exact halone k t' hk ht'

theorem Inv.other (h : Inv s) (hi : s.workers[i]? = some ⟨context, op :: ops⟩)
    (hr : ¬ Worker.Repairing ⟨context, op :: ops⟩) (hfine : FineOp s i ⟨context, op :: ops⟩ meets op) (hlook : op ≠ .look) :
    Inv (s.step (.turn i meets)) := by
  have hall := h.quiet _ (List.mem_of_getElem? hi) hr
  have hop : op.Quiet := hall _ List.mem_cons_self
  obtain ⟨hlive, hcalls⟩ := hop.calls context s.world meets hlook
  rw [step_turn hi, if_neg hlook]
  have hquiet : ∀ q ∈ (op.run context meets s.world).2 ++ ops, q.Quiet := by
    intro q hq
    rcases List.mem_append.1 hq with hq | hq
    · exact hcalls q hq
    · exact hall q (List.mem_cons_of_mem _ hq)
  have hnot : ¬ Worker.Repairing ⟨context, (op.run context meets s.world).2 ++ ops⟩ := fun hr' => hquiet _ hr'
  have hold : ∀ {j : Nat} {t : Worker}, (s.workers.set i ⟨context, (op.run context meets s.world).2 ++ ops⟩)[j]? = some t →
      t.Repairing → j ≠ i ∧ s.workers[j]? = some t := by
    intro j t hj hr'
    rcases get_set hj with ⟨-, rfl⟩ | hj
    · exact absurd hr' hnot
    · exact hj
  have hmis : (s.misstarted || (op = .finish && (s.meddled || !s.wasRunning))) = false := by
    have hne : op ≠ .finish := by
      rintro rfl
      exact hop
    simp [h.fine, hne]
  -- what this thread does while the one at place `j` is repairing
  have hleaves : ∀ {j : Nat} {t : Worker}, j ≠ i → s.workers[j]? = some t → t.Repairing →
      Leaves s.world (op.run context meets s.world).1 ∧
        ∀ q ∈ (op.run context meets s.world).2 ++ ops, ¬ q.InFlight := by
    intro j t hne hj hr'
    have hflight := (h.alone j t hj hr' i _ hne.symm hi).2
    obtain ⟨hl, hc⟩ := hop.leaves (hflight _ List.mem_cons_self) ⟨j, t, hne, hj, hr'⟩ hfine
    refine ⟨hl, fun q hq => ?_⟩
    rcases List.mem_append.1 hq with hq | hq
    · exact hc q hq
    · exact hflight q (List.mem_cons_of_mem _ hq)
  refine ⟨fun hno pid hpid => ?_, fun t ht _ => ?_, fun j t ht hr' => ?_, fun j t ht hr' => ?_, fun j t ht hr' => ?_,
    fun j t ht hr' k t' hk ht' => ?_, hmis⟩
  · refine h.idle (fun t ht hr' => ?_) pid (hlive pid hpid)
    obtain ⟨j, hj⟩ := List.mem_iff_getElem?.1 ht
    by_cases hji : j = i
    · subst hji
      rw [hi] at hj
      cases hj
      exact hr hr'
    · exact hno t (List.mem_of_getElem? (i := j) (by rwa [List.getElem?_set_ne (Ne.symm hji)])) hr'
  · rcases mem_set ht with rfl | ⟨j, hne, hj⟩
    · exact hquiet
    · rename_i hnr
      exact h.quiet t (List.mem_of_getElem? hj) hnr
  · exact h.stage j t (hold ht hr').2 hr'
  · obtain ⟨hne, hj⟩ := hold ht hr'
    have ha := h.allows j t hj hr'
    cases hops : t.ops with
    | nil => rwa [hops] at ha
    | cons q qs =>
      rw [hops] at ha
      exact (hleaves hne hj hr').1.allows ha
  · exact h.again j t (hold ht hr').2 hr'
  · obtain ⟨hne, hj⟩ := hold ht hr'
    rcases get_set ht' with ⟨-, rfl⟩ | ⟨-, ht'⟩
    · exact ⟨hnot, (hleaves hne hj hr').2⟩
    · exact h.alone j t hj hr' k t' hk ht'

theorem runDbrepair_stage (rest : List Op) : Stage rest (runDbrepair again ++ rest) := by
  cases again with
  | false => exact .enableDb false
  | true => exact .stop

theorem Inv.look (h : Inv s) (hi : s.workers[i]? = some ⟨context, .look :: ops⟩)
    (hr : ¬ Worker.Repairing ⟨context, .look :: ops⟩) (hfine : FineOp s i ⟨context, .look :: ops⟩ meets .look) :
    Inv (s.step (.turn i meets)) := by
  obtain ⟨hothers, hflight, hknown⟩ := hfine
  have hall := h.quiet _ (List.mem_of_getElem? hi) hr
  have hrest : ∀ q ∈ ops, q.Quiet := fun q hq => hall q (List.mem_cons_of_mem _ hq)
  rw [step_turn hi, if_pos rfl]
  have hnone : ∀ t ∈ s.workers, ¬ t.Repairing := by
    intro t ht hr'
    obtain ⟨j, hj⟩ := List.mem_iff_getElem?.1 ht
    by_cases hji : j = i
    · subst hji
      rw [hi] at hj
      cases hj
      exact hr hr'
    · exact hothers ⟨j, t, hji, hj, hr'⟩
  have hstage : Stage ops ((Op.run context meets s.world .look).2 ++ ops) := runDbrepair_stage _ ops
  have hself : ∀ {j : Nat} {t t' : Worker}, (s.workers.set i t)[j]? = some t' → t'.Repairing → j = i ∧ t' = t := by
    intro j t t' hj hr'
    rcases get_set hj with hj | ⟨-, hj⟩
    · exact hj
    · exact absurd hr' (hnone t' (List.mem_of_getElem? hj))
  have hdb := h.idle hnone
  refine ⟨fun hno => ?_, fun t ht hnr => ?_, fun j t ht hr' => ?_, fun j t ht hr' => ?_, fun j t ht hr' hf => ?_,
    fun j t ht hr' k t' hk ht' => ?_, by simp [h.fine]⟩
  · exact absurd hstage.repairing (hno _ (mem_set_self hi))
  · rcases mem_set ht with rfl | ⟨j, -, hj⟩
    · exact absurd hstage.repairing hnr
    · exact h.quiet t (List.mem_of_getElem? hj) hnr
  · obtain ⟨-, rfl⟩ := hself ht hr'
    exact ⟨ops, hrest, hstage⟩
  · obtain ⟨-, rfl⟩ := hself ht hr'
    simp only [Op.run]
    cases hname : s.world.names.get? (none, .plex) with
    | none => exact ⟨fun pid hpid => by simpa [hname] using hknown.1 _ hpid rfl, hdb⟩
    | some pid => exact ⟨fun pid hpid => hknown.1 _ hpid rfl, hdb⟩
  · obtain ⟨-, rfl⟩ := hself ht hr'
    simp only [Op.run] at hf
    cases hname : s.world.names.get? (none, .plex) with
    | none =>
      simp only [hname, Option.isSome_none, runDbrepair, startProcess] at hf
      exact absurd (hrest .finish) (by simpa [Op.Quiet] using hf)
    | some pid =>
      rw [List.any_eq_true]
      exact ⟨_, hknown.2 pid hname, by simp⟩
  · obtain ⟨rfl, -⟩ := hself ht hr'
    rcases get_set ht' with ⟨hk', -⟩ | ⟨-, ht'⟩
    · exact absurd hk' hk
    · exact ⟨hnone t' (List.mem_of_getElem? ht'), hflight t' (List.mem_of_getElem? ht')⟩

theorem Inv.step (h : Inv s) (event : Event) (hfine : Fine s event) : Inv (s.step event) := by
  cases event with
  | turn i meets =>
    cases hi : s.workers[i]? with
    | none => simpa [Pool.step, hi] using h
    | some t =>
      obtain ⟨context, ops⟩ := t
      cases ops with
      | nil => simpa [Pool.step, hi] using h
      | cons op ops =>
        have hf : FineOp s i ⟨context, op :: ops⟩ meets op := by simpa [Fine, hi] using hfine
        by_cases hr : Worker.Repairing ⟨context, op :: ops⟩
        · exact h.own hi hr hf
        · by_cases hlook : op = .look
          · subst hlook
            exact h.look hi hr hf
          · exact h.other hi hr hf hlook
  | exits pid => exact h.outside (fun _ => leaves_exited _ pid) fun _ hq => List.mem_of_mem_filter hq
  | reaps pid =>
    simp only [Pool.step]
    split
    · rename_i key hkey
      split
      · exact h
      · exact h.outside (fun hr => leaves_forget (hfine hr key hkey)) fun _ hq => hq
    · exact h
  | shutdown => exact h.outside (fun _ => leaves_of_same rfl rfl) fun _ hq => hq

/-- What runs together, and whether a repair started Plex although it should not. -/
structure Exclusive (s : Pool) : Prop where
  apart : ∀ pid pid', (pid, .dbrepair) ∈ s.world.live → (pid', .plex) ∉ s.world.live
  one : ∀ pid pid', (pid, .dbrepair) ∈ s.world.live → (pid', .dbrepair) ∈ s.world.live → pid = pid'
  started : s.misstarted = false

theorem Allows.apart (h : Allows context w op) :
    Only w .dbrepair none ∨ (Only w .plex none ∧ ∃ allowed, Only w .dbrepair allowed) := by
  have both : ∀ {allowed : Option Nat}, Only w .plex none ∧ Only w .dbrepair allowed →
      Only w .dbrepair none ∨ (Only w .plex none ∧ ∃ allowed, Only w .dbrepair allowed) :=
    fun ho => .inr ⟨ho.1, _, ho.2⟩
  cases op with
  | stop p d => exact .inl h.2
  | terminate key pid => exact .inl h.2
  | await key pid => exact both h
  | finish => exact .inl h
  | repaired => exact .inl h
  | track p pid => cases p <;> first | exact .inl h | exact both h
  | wait p => cases p <;> exact both h
  | enable p => cases p <;> first | exact .inl h | exact both h
  | check p => cases p <;> first | exact .inl h | exact both h
  | launch p => cases p <;> first | exact .inl h | exact both h
  | _ => exact both h

theorem Inv.exclusive (h : Inv s) : Exclusive s := by
  have hworld : Only s.world .dbrepair none ∨
      (Only s.world .plex none ∧ ∃ allowed, Only s.world .dbrepair allowed) := by
    by_cases hr : ∃ t ∈ s.workers, t.Repairing
    · obtain ⟨t, ht, hr⟩ := hr
      obtain ⟨i, hi⟩ := List.mem_iff_getElem?.1 ht
      have ha := h.allows i t hi hr
      cases hops : t.ops with
      | nil =>
        rw [hops] at ha
        exact ha.elim
      | cons op ops =>
        rw [hops] at ha
        exact Allows.apart ha
    · exact .inl (h.idle fun t ht hrep => hr ⟨t, ht, hrep⟩)
  refine ⟨fun pid pid' hd hp => ?_, fun pid pid' hd hd' => ?_, h.fine⟩
  · rcases hworld with hnone | ⟨hnone, -⟩
    · cases hnone pid hd
    · cases hnone pid' hp
  · rcases hworld with hnone | ⟨-, allowed, ho⟩
    · cases hnone pid hd
    · exact Option.some.inj ((ho pid hd).symm.trans (ho pid' hd'))

end Dumb.Plex

/-! ## Database repair and Plex -/

namespace Dumb.Plex

theorem inv_of_run {s : Pool} (h : Inv s) : ∀ {events : List Event}, Along Pool.step Fine s events →
    Inv (s.run events) := fun hfine => hfine.foldl (fun _ event _ hf hinv => hinv.step event hf) h

def Pool.start (calls : List (List Op)) : Pool :=
  { world := World.initial
    workers := calls.map fun ops => ⟨none, ops⟩
    wasRunning := false
    meddled := false
    misstarted := false }

def turns (i n : Nat) : List Event := List.replicate n (.turn i {})

end Dumb.Plex
