import Dumb.Lib.Raise
import Dumb.Media.Protection

/-!
# Incidents that do not overlap

While every incident begins apart from the others, no open incident has a mount in common with a media server of another
one, whatever happens in between.
-/

namespace Dumb.Media

open Py Crash

variable {σ π κ : Type} {adapter : String → Adapter σ π κ} {c : Setup} {w : World σ π}

def Incident.Open (i : Incident π) : Prop := i.status ≠ .recovered

def ApartFrom (c : Setup) (i : Incident π) (target : String) : Prop :=
  ∀ s ∈ i.mediaServers, Disjoint (c.mountsForTarget target) (c.mountsOf s.processName)

structure Apart (c : Setup) (incidents : Dict String (Incident π)) : Prop where
  apart : ∀ t i t' j, incidents.get? t = some i → incidents.get? t' = some j → t ≠ t' → i.Open → j.Open →
    ApartFrom c i j.targetProcess
  awaiting : ∀ t i, incidents.get? t = some i → i.awaitingOperationCompletion = true → i.Open

variable {incidents : Dict String (Incident π)} {i : Incident π}

theorem Apart.set {token : String} (h : Apart c incidents)
    (hawaiting : i.awaitingOperationCompletion = true → i.Open)
    (hnew : i.Open → ∀ t j, t ≠ token → incidents.get? t = some j → j.Open →
      ApartFrom c i j.targetProcess ∧ ApartFrom c j i.targetProcess) : Apart c (incidents.set token i) := by
  constructor
  · intro t j t' j' ht ht' hne hopen hopen'
    rw [Dict.get?_set] at ht ht'
    by_cases htoken : t = token
    · rw [if_pos htoken, Option.some.injEq] at ht
      subst ht
      rw [if_neg fun heq => hne (htoken.trans heq.symm)] at ht'
      exact (hnew hopen t' j' (fun heq => hne (htoken.trans heq.symm)) ht' hopen').1
    · rw [if_neg htoken] at ht
      by_cases htoken' : t' = token
      · rw [if_pos htoken', Option.some.injEq] at ht'
        subst ht'
        exact (hnew hopen' t j htoken ht hopen).2
      · rw [if_neg htoken'] at ht'
        exact h.apart t j t' j' ht ht' hne hopen hopen'
  · intro t j ht hj
    rw [Dict.get?_set] at ht
    split at ht
    · cases ht
      exact hawaiting hj
    · exact h.awaiting t j ht hj

def Continues (i i' : Incident π) : Prop :=
  i'.targetProcess = i.targetProcess ∧ (∀ s ∈ i'.mediaServers, ∃ s' ∈ i.mediaServers, s'.processName = s.processName) ∧
    (i'.Open → i.Open) ∧ (i'.awaitingOperationCompletion = true → i'.Open)

theorem ApartFrom.continues {i i' : Incident π} {target : String} (h : ApartFrom c i target) (hc : Continues i i') :
    ApartFrom c i' target := by
  intro s hs
  obtain ⟨s', hs', hname⟩ := hc.2.1 s hs
  exact hname ▸ h s' hs'

theorem Apart.update {token : String} {i i' : Incident π} (h : Apart c incidents)
    (hget : incidents.get? token = some i) (hc : Continues i i') : Apart c (incidents.set token i') := by
  apply h.set hc.2.2.2
  intro hopen t j hne hj hopen'
  constructor
  · exact (h.apart token i t j hget hj (Ne.symm hne) (hc.2.2.1 hopen) hopen').continues hc
  · rw [hc.1]
    exact h.apart t j token i hj hget hne hopen' (hc.2.2.1 hopen)

def Alone (c : Setup) (w : World σ π) (target : String) : Prop :=
  ∀ t i, w.incidents.get? t = some i → i.Open → ApartFrom c i target ∧
    ∀ m ∈ affectedMediaServers c w target, Disjoint (c.mountsForTarget i.targetProcess) (c.mountsOf m.processName)

def StartsAlone (c : Setup) (w : World σ π) : Step → Prop
  | .beginPlanned o _ target _ override => w.plannedStarts c o override target = true → Alone c w target
  | .beginUnplanned _ _ target => w.unplannedStarts c target = true → Alone c w target
  | _ => True

def Proper (w : World σ π) : Step → Prop
  | .beginPlanned _ token .. | .beginUnplanned _ token _ => w.incidents.get? token = none
  | .completePlanned token => ∀ i, w.incidents.get? token = some i → i.awaitingOperationCompletion = true
  | _ => True

/-! ## What the calls leave alone -/

theorem protectAll_incidents (adapter : String → Adapter σ π κ) (o : Outside) (stop : MediaServer → Bool) (media : List MediaServer) (w : World σ π) :
    (World.protectAll adapter o stop media w).2.incidents = w.incidents ∧
      (World.protectAll adapter o stop media w).1.map (·.processName) = media.map (·.processName) := by
  induction media generalizing w with
  | nil => exact ⟨rfl, rfl⟩
  | cons m media ih =>
    obtain ⟨hincidents, hnames⟩ := ih (World.protect adapter o stop m w).2
    have hfirst : (World.protect adapter o stop m w).2.incidents = w.incidents := by
      unfold World.protect
      dsimp only
      split <;> rfl
    exact ⟨hincidents.trans hfirst, congrArg (m.processName :: ·) hnames⟩

theorem recoverServer_touches (adapter : String → Adapter σ π κ) (o : Outside) (state : ServerState π) (w : World σ π) :
    (World.recoverServer adapter o state w).2.incidents = w.incidents ∧
      ∀ name, name ≠ state.processName →
        (name ∈ (World.recoverServer adapter o state w).2.running ↔ name ∈ w.running) ∧
          (World.recoverServer adapter o state w).2.remote name = w.remote name := by
  unfold World.recoverServer
  dsimp only
  split
  · exact ⟨rfl, fun _ _ => ⟨Iff.rfl, rfl⟩⟩
  have hstart : ∀ down : Bool, (if down then w.startProcess state.processName else w).incidents = w.incidents ∧
      (if down then w.startProcess state.processName else w).remote = w.remote ∧ ∀ name, name ≠ state.processName →
        (name ∈ (if down then w.startProcess state.processName else w).running ↔ name ∈ w.running) := by
    intro down
    cases down with
    | false => exact ⟨rfl, rfl, fun _ _ => Iff.rfl⟩
    | true => exact ⟨rfl, rfl, fun name hname => by simp [World.startProcess, hname]⟩
  obtain ⟨hincidents, hremote, hrunning⟩ := hstart (state.stoppedByDumb && state.wasRunning && !w.running.contains state.processName)
  split
  · exact ⟨hincidents, fun name hname => ⟨hrunning name hname, congrFun hremote name⟩⟩
  · refine ⟨hincidents, fun name hname => ⟨hrunning name hname, ?_⟩⟩
    exact (Function.update_of_ne hname _ _).trans (congrFun hremote name)

theorem recoverServers_touches (adapter : String → Adapter σ π κ) (o : Outside) (states : List (ServerState π)) (w : World σ π) :
    (World.recoverServers adapter o states w).2.incidents = w.incidents ∧
      ∀ name, (∀ s ∈ states, name ≠ s.processName) →
        (name ∈ (World.recoverServers adapter o states w).2.running ↔ name ∈ w.running) ∧
          (World.recoverServers adapter o states w).2.remote name = w.remote name := by
  induction states generalizing w with
  | nil => exact ⟨rfl, fun _ _ => ⟨Iff.rfl, rfl⟩⟩
  | cons s states ih =>
    obtain ⟨hincidents, htouches⟩ := ih (World.recoverServer adapter o s w).2
    obtain ⟨hincidents', htouches'⟩ := recoverServer_touches adapter o s w
    refine ⟨hincidents.trans hincidents', fun name hname => ?_⟩
    obtain ⟨hrunning, hremote⟩ := htouches name fun s' hs' => hname s' (List.mem_cons_of_mem _ hs')
    obtain ⟨hrunning', hremote'⟩ := htouches' name (hname s List.mem_cons_self)
    exact ⟨hrunning.trans hrunning', hremote.trans hremote'⟩

/-! ## Steps -/

theorem Apart.begin {o : Outside} {stop : MediaServer → Bool} {token target : String}
    (h : Apart c w.incidents) (halone : Alone c w target) (htarget : i.targetProcess = target) (hopen : i.Open)
    (hservers : i.mediaServers = (World.protectAll adapter o stop (affectedMediaServers c w target) w).1) :
    Apart c ((World.protectAll adapter o stop (affectedMediaServers c w target) w).2.incidents.set token i) := by
  obtain ⟨hincidents, hnames⟩ := protectAll_incidents adapter o stop (affectedMediaServers c w target) w
  rw [hincidents]
  apply h.set fun _ => hopen
  intro _ t j _ hj hopen'
  obtain ⟨hother, hown⟩ := halone t j hj hopen'
  refine ⟨fun s hs => ?_, htarget ▸ hother⟩
  rw [hservers] at hs
  have hname : s.processName ∈ (affectedMediaServers c w target).map (·.processName) :=
    hnames ▸ List.mem_map_of_mem hs
  obtain ⟨m, hm, hname⟩ := List.mem_map.1 hname
  exact hname ▸ hown m hm

theorem Incident.continues_status {status : Status} (hopen : i.Open)
    (hawaiting : i.awaitingOperationCompletion = true → status ≠ .recovered) : Continues i { i with status := status } :=
  ⟨rfl, fun s hs => ⟨s, hs, rfl⟩, fun _ => hopen, hawaiting⟩

theorem reload_continues (h : i.awaitingOperationCompletion = true → i.Open) :
    Continues i (World.reload i) := by
  obtain ⟨kind, target, action, status, awaiting, media⟩ := i
  cases awaiting <;> cases status <;> simp_all [Continues, World.reload, Incident.Open] <;>
    exact fun s hs => ⟨s, hs, rfl⟩

theorem ripe_iff (h : World.ripe i = true) : i.Open ∧ i.awaitingOperationCompletion = false := by
  obtain ⟨kind, target, action, status, awaiting, media⟩ := i
  cases awaiting <;> cases status <;> simp_all [World.ripe, Incident.Open]

theorem Apart.reload (h : Apart c incidents) :
    Apart c (incidents.map fun e => (e.1, World.reload e.2)) := by
  have hget : ∀ t i, Dict.get? t (incidents.map fun e => (e.1, World.reload e.2)) = some i →
      ∃ j, incidents.get? t = some j ∧ i = World.reload j ∧ Continues j i := by
    intro t i ht
    rw [Dict.get?_map_values] at ht
    obtain ⟨j, hj, rfl⟩ := Option.map_eq_some_iff.1 ht
    exact ⟨j, hj, rfl, reload_continues (h.awaiting t j hj)⟩
  constructor
  · intro t i t' j ht ht' hne hopen hopen'
    obtain ⟨i', hi', -, hi⟩ := hget t i ht
    obtain ⟨j', hj', -, hj⟩ := hget t' j ht'
    have hapart := h.apart t i' t' j' hi' hj' hne (hi.2.2.1 hopen) (hj.2.2.1 hopen')
    exact hj.1 ▸ hapart.continues hi
  · intro t i ht hawaiting
    obtain ⟨j, -, -, hi⟩ := hget t i ht
    exact hi.2.2.2 hawaiting

theorem Apart.step {s : Step} (h : Apart c w.incidents) (hproper : Proper w s) (halone : StartsAlone c w s) :
    Apart c (w.step adapter c s).incidents := by
  cases s with
  | beginPlanned o token target action override =>
    rw [World.step, World.beginPlanned]
    split
    case isTrue hstarts => exact h.begin (halone hstarts) rfl (fun h => nomatch h) rfl
    case isFalse => exact h
  | beginUnplanned o token target =>
    rw [World.step, World.beginUnplanned]
    split
    case isTrue hstarts => exact h.begin (halone hstarts) rfl (fun h => nomatch h) rfl
    case isFalse => exact h
  | completePlanned token =>
    rw [World.step, World.completePlanned]
    split
    case h_1 => exact h
    case h_2 i hi =>
      exact h.update hi ⟨rfl, fun s hs => ⟨s, hs, rfl⟩, fun _ => h.awaiting token i hi (hproper i hi), fun h => nomatch h⟩
  | recover o token =>
    rw [World.step]
    split
    case isFalse => exact h
    case isTrue hripe =>
      rw [World.recover]
      split
      case h_1 => exact h
      case h_2 i hi =>
        rw [hi] at hripe
        obtain ⟨hopen, hawaiting⟩ := ripe_iff hripe
        dsimp only
        rw [(recoverServers_touches adapter o i.mediaServers w).1]
        exact h.update hi (i.continues_status hopen fun h => absurd (hawaiting.symm.trans h) Bool.false_ne_true)
  | stopIdle o token name =>
    rw [World.step, World.stopIdle]
    split
    case h_1 => exact h
    case h_2 i hi =>
      dsimp only
      split
      case isFalse => exact h
      case isTrue =>
        apply h.update hi
        refine ⟨rfl, fun s hs => ?_, id, h.awaiting token i hi⟩
        obtain ⟨s', hs', rfl⟩ := List.mem_map.1 hs
        exact ⟨s', hs', by split <;> rfl⟩
  | restart running => exact h.reload
  | starts name => exact h
  | stops name => exact h

/-! ## Recoveries -/

def Released (w w' : World σ π) (name : String) : Prop :=
  (name ∈ w'.running ∧ name ∉ w.running) ∨ w'.remote name ≠ w.remote name

def Protected (adapter : String → Adapter σ π κ) (c : Setup) (w : World σ π) : Step → Prop
  | .recover o token => ∀ name, Released w (w.step adapter c (.recover o token)) name →
      ∀ t j, w.incidents.get? t = some j → t ≠ token → j.Open →
        Disjoint (c.mountsForTarget j.targetProcess) (c.mountsOf name)
  | _ => True

theorem Apart.protected (h : Apart c w.incidents) (s : Step) : Protected adapter c w s := by
  cases s with
  | recover o token =>
    intro name hreleased t j hj hne hopen
    rw [World.step] at hreleased
    split at hreleased
    case isFalse => simp [Released] at hreleased
    case isTrue hripe =>
      rw [World.recover] at hreleased
      split at hreleased
      case h_1 => simp [Released] at hreleased
      case h_2 i hi =>
        rw [hi] at hripe
        by_contra hmeets
        have hother : ∀ s ∈ i.mediaServers, name ≠ s.processName := by
          rintro s hs rfl
          exact hmeets (h.apart token i t j hi hj (Ne.symm hne) (ripe_iff hripe).1 hopen s hs)
        obtain ⟨hrunning, hremote⟩ := (recoverServers_touches adapter o i.mediaServers w).2 name hother
        rcases hreleased with ⟨hnow, hbefore⟩ | hchanged
        · exact hbefore (hrunning.1 hnow)
        · exact hchanged hremote
  | _ => trivial

end Dumb.Media
