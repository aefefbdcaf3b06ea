import Mathlib.Data.List.Chain
import Mathlib.Data.List.Induction
import Dumb.Notifications.Conditions
import Dumb.Notifications.Theorems

/-!
# What a condition holds for its key

The state of a key is told by the observations alone: when the last stretch of active ones began, and whether it has
lasted. An edge that is queued is the one that was due.
-/

namespace Dumb.Notifications

open Py

variable {text : Text} {key : String} {first o : Observation} {os : List Observation}

/-! ## Stretches -/

def stretch (os : List Observation) : List Observation := (os.reverse.takeWhile (·.active)).reverse

def Held (os : List Observation) : Prop := ∃ a ∈ (stretch os).head?, ∃ o ∈ os.getLast?, o.duration ≤ o.now - a.now

/-- The condition has been active for its duration after the baseline, and has been active ever since. -/
def Due (first : Observation) (os : List Observation) : Prop :=
  ∃ before after, os = before ++ after ∧ before ≠ [] ∧ (∀ o ∈ after, o.active = true) ∧ Held (first :: before)

theorem stretch_concat (os : List Observation) (o : Observation) :
    stretch (os ++ [o]) = if o.active then stretch os ++ [o] else [] := by
  unfold stretch
  rw [List.reverse_append, List.reverse_singleton, List.singleton_append, List.takeWhile_cons]
  cases o.active <;> simp

theorem held_concat : Held (os ++ [o]) ↔
    o.active = true ∧ o.duration ≤ o.now - (((stretch os).head?.map (·.now)).getD o.now) := by
  unfold Held
  rw [stretch_concat, List.getLast?_concat]
  cases hactive : o.active with
  | false => simp
  | true =>
    cases hold : stretch os with
    | nil => simp
    | cons a rest => simp

theorem due_concat : Due first (os ++ [o]) ↔ o.active = true ∧ (Due first os ∨ Held (first :: os ++ [o])) := by
  constructor
  · rintro ⟨before, after, heq, hne, hactive, hheld⟩
    rcases List.eq_nil_or_concat after with rfl | ⟨after, last, rfl⟩
    · rw [List.append_nil] at heq
      subst heq
      have hlast := (held_concat.1 (show Held ((first :: os) ++ [o]) from hheld)).1
      exact ⟨hlast, .inr hheld⟩
    · rw [List.concat_eq_append, ← List.append_assoc] at heq
      obtain ⟨rfl, hlast⟩ := List.append_inj' heq rfl
      obtain rfl : o = last := by simpa using hlast
      rw [List.concat_eq_append] at hactive
      refine ⟨hactive o (by simp), .inl ⟨before, after, rfl, hne, fun x hx => hactive x (by simp [hx]), hheld⟩⟩
  · rintro ⟨hactive, ⟨before, after, rfl, hne, hafter, hheld⟩ | hheld⟩
    · refine ⟨before, after ++ [o], by simp, hne, fun x hx => ?_, hheld⟩
      rcases List.mem_append.1 hx with hx | hx
      · exact hafter x hx
      · rw [List.mem_singleton.1 hx]
        exact hactive
    · exact ⟨os ++ [o], [], by simp, by simp, fun x hx => absurd hx List.not_mem_nil, hheld⟩

theorem not_due_nil : ¬Due first [] := by
  rintro ⟨before, after, heq, hne, -⟩
  exact hne (List.append_eq_nil_iff.1 heq.symm).1

/-! ## The state of a key -/

theorem observe_concat (os : List Observation) (o : Observation) :
    observe text key first (os ++ [o]) = (observe text key first os).observe text key o := by
  simp [observe]

/-- What `_conditions` holds is what has been observed. -/
structure Knows (first : Observation) (os : List Observation) (w : Watch) : Prop where
  firstSeen : w.firstSeen = (stretch (first :: os)).head?.map (·.now)
  active : w.active = true ↔ Due first os

def Brings (first : Observation) (os : List Observation) (o : Observation) : Edge → Prop
  | .alert => o.active = true ∧ ¬Due first os ∧ Held (first :: os ++ [o])
  | .recovery => o.active = false ∧ Due first os

theorem firstSeen_filter (os : List Observation) :
    ((stretch os).head?.map (·.now)).filter (· ≠ 0) = (stretch os).head?.map (·.now) := by
  cases (stretch os).head? with
  | none => rfl
  | some a => simp [Option.filter, a.pos.ne']

theorem Knows.condition {w : Watch} (h : Knows first os w) (o : Observation) :
    Knows first (os ++ [o]) (condition o w).1 ∧ ∀ e, (condition o w).2 = some e ↔ Brings first os o e := by
  unfold Notifications.condition
  rw [h.firstSeen, firstSeen_filter]
  have hsnoc : stretch (first :: (os ++ [o])) = if o.active then stretch (first :: os) ++ [o] else [] :=
    stretch_concat (first :: os) o
  have hheld : Held (first :: os ++ [o]) ↔
      o.active = true ∧ o.duration ≤ o.now - (((stretch (first :: os)).head?.map (·.now)).getD o.now) := held_concat
  cases hactive : o.active with
  | false =>
    have hnot : ¬Due first (os ++ [o]) := fun hdue => by
      rw [due_concat, hactive] at hdue
      cases hdue.1
    refine ⟨⟨?_, ?_⟩, fun e => ?_⟩
    · simp [hsnoc, hactive]
    · simpa using hnot
    · cases hw : w.active with
      | false =>
        have hdue : ¬Due first os := fun hdue => by simp [h.active.2 hdue] at hw
        cases e <;> simp [Brings, hactive, hdue]
      | true => cases e <;> simp [Brings, hactive, h.active.1 hw]
  | true =>
    have hfirst : some ((((stretch (first :: os)).head?.map (·.now)).getD o.now)) =
        (stretch (first :: (os ++ [o]))).head?.map (·.now) := by
      rw [hsnoc, hactive, if_pos rfl]
      cases stretch (first :: os) <;> simp
    rw [if_pos rfl]
    by_cases hlong : o.duration ≤ o.now - (((stretch (first :: os)).head?.map (·.now)).getD o.now)
    · have hheld' := hheld.2 ⟨hactive, hlong⟩
      have hdue' : Due first (os ++ [o]) := due_concat.2 ⟨hactive, .inr hheld'⟩
      cases hw : w.active with
      | false =>
        have hdue : ¬Due first os := fun hdue => by simp [h.active.2 hdue] at hw
        rw [if_pos (by simpa using hlong)]
        refine ⟨⟨hfirst, by simpa using hdue'⟩, fun e => ?_⟩
        cases e with
        | alert => simpa [Brings, hactive, hdue] using hheld'
        | recovery => simp [Brings, hactive]
      | true =>
        rw [if_neg (by simp)]
        refine ⟨⟨hfirst, by simpa using hdue'⟩, fun e => ?_⟩
        cases e <;> simp [Brings, hactive, h.active.1 hw]
    · have hnot : ¬Held (first :: os ++ [o]) := fun hheld' => hlong (hheld.1 hheld').2
      rw [if_neg (by simp only [Bool.and_eq_true, decide_eq_true_eq, not_and]; exact fun _ => hlong)]
      refine ⟨⟨hfirst, ?_⟩, fun e => ?_⟩
      · rw [due_concat, h.active]
        exact ⟨fun hdue => ⟨hactive, .inl hdue⟩, fun hdue => hdue.2.resolve_right hnot⟩
      · cases e with
        | alert => simpa [Brings, hactive] using fun _ => hnot
        | recovery => simp [Brings, hactive]

theorem knows_observe (text : Text) (key : String) (first : Observation) (os : List Observation) :
    Knows first os (observe text key first os).watch := by
  induction os using List.reverseRecOn with
  | nil =>
    constructor
    · change (baseline first).firstSeen = _
      unfold baseline stretch
      cases hactive : first.active <;> simp [hactive]
    · change (baseline first).active = true ↔ _
      simp [baseline, not_due_nil]
  | append_singleton os o ih =>
    rw [observe_concat]
    exact (ih.condition o).1

theorem queued_concat (os : List Observation) (o : Observation) :
    ∃ edge, (∀ e, edge = some e ↔ Brings first os o e) ∧ (observe text key first (os ++ [o])).queued =
      (observe text key first os).queued ++ (edge.filter (o.queues text key)).toList := by
  rw [observe_concat]
  exact ⟨_, ((knows_observe text key first os).condition o).2, rfl⟩

/-! ## The queue -/

def Outside.StorageWorks (o : Outside) : Prop :=
  (o.storage.ready = true ∨ o.storage.retryAt ≤ o.monotonic ∧ o.initialization = .works) ∧
    ∀ d ∈ o.config.destinations, o.writes d = ⟨.works, .works, .works⟩

instance (o : Outside) : Decidable o.StorageWorks := inferInstanceAs (Decidable (_ ∧ _))

/-- Notifications are on, the event is not suppressed, and a destination that has not been told of it yet wants it. -/
def Outside.Wants (text : Text) (o : Outside) (e : Emit) : Prop :=
  o.config.enabled = true ∧ (o.startupComplete = true ∨ e.eventType ∉ startupSuppressedEventTypes) ∧
    ∃ d ∈ o.config.destinations, destinationMatches text e d = true ∧ cooling o.now o.lastSent e d = false

instance (text : Text) (o : Outside) (e : Emit) : Decidable (o.Wants text e) := inferInstanceAs (Decidable (_ ∧ _))

theorem queueFor_ne_nil {o : Outside} {e : Emit} {lastSent : Dict String ℚ} {ds : List Destination}
    (hwrites : ∀ d ∈ ds, o.writes d = ⟨.works, .works, .works⟩) (hfree : ∃ d ∈ ds, cooling o.now lastSent e d = false) :
    (queueFor o e lastSent ds).queued ≠ [] := by
  induction ds with
  | nil =>
    obtain ⟨d, hd, -⟩ := hfree
    cases hd
  | cons d ds ih =>
    rw [queueFor, hwrites d List.mem_cons_self]
    cases hcool : cooling o.now lastSent e d with
    | false => simp
    | true =>
      obtain ⟨d', hd', hfree'⟩ := hfree
      have hmem : d' ∈ ds := by
        rcases List.mem_cons.1 hd' with rfl | hmem
        · simp [hcool] at hfree'
        · exact hmem
      simpa using ih (fun x hx => hwrites x (List.mem_cons_of_mem d hx)) ⟨d', hmem, hfree'⟩

theorem queues_of_works {e : Edge} (hworks : o.outside.StorageWorks) (hwants : o.outside.Wants text (o.emit key e)) :
    o.queues text key e = true := by
  obtain ⟨henabled, hstartup, d, hd, hmatches, hfree⟩ := hwants
  have hready : (ensureStorageReady o.outside.initialization o.outside.monotonic o.outside.storage).1 = some true := by
    unfold ensureStorageReady
    rcases hworks.1 with hready | ⟨hretry, hinitialization⟩
    · rw [if_pos hready]
    · split
      · rfl
      · rw [if_neg (not_lt.2 hretry), hinitialization]
        rfl
  have hgate : ¬(!o.outside.startupComplete && startupSuppressedEventTypes.contains (o.emit key e).eventType) = true := by
    rcases hstartup with hcomplete | hother
    · simp [hcomplete]
    · simp [hother]
  have hqueued : (queueFor o.outside (o.emit key e) o.outside.lastSent
      (o.outside.config.destinations.filter (destinationMatches text (o.emit key e)))).queued ≠ [] := by
    apply queueFor_ne_nil
    · exact fun d hd => hworks.2 d (List.mem_of_mem_filter hd)
    · exact ⟨d, List.mem_filter.2 ⟨hd, hmatches⟩, hfree⟩
  unfold Observation.queues emission
  rw [if_neg (by simp [henabled]), if_neg hgate, hready]
  simpa using hqueued

/-! ## Alternation -/

/-- Alerts and recoveries take turns, and the last edge tells whether the condition is on. -/
structure Alternates (r : Run) : Prop where
  chain : r.queued.IsChain (· ≠ ·)
  first : r.queued.head? ≠ some .recovery
  last : r.queued.getLast? = some .alert ↔ r.watch.active = true

theorem head?_append_ne {α : Type} {xs : List α} {x y : α} (h : xs.head? ≠ some y) (hx : xs = [] → x ≠ y) :
    (xs ++ [x]).head? ≠ some y := by
  cases xs with
  | nil => simpa using hx rfl
  | cons a xs => exact h

theorem Alternates.add {r : Run} {w : Watch} {e : Edge} (h : Alternates r) (hbefore : r.watch.active = true ↔ e = .recovery)
    (hafter : w.active = true ↔ e = .alert) : Alternates ⟨w, r.queued ++ [e]⟩ := by
  have hlast : r.queued.getLast? = some .alert ↔ e = .recovery := h.last.trans hbefore
  constructor
  · apply h.chain.append (List.isChain_singleton e)
    rintro x hx y hy rfl
    obtain rfl : e = x := by simpa using hy
    rw [Option.mem_def] at hx
    cases e with
    | alert => cases hlast.1 hx
    | recovery => cases hx.symm.trans (hlast.2 rfl)
  · apply head?_append_ne h.first
    rintro hnil rfl
    rw [hnil] at hlast
    cases hlast.2 rfl
  · rw [List.getLast?_concat, hafter, Option.some.injEq]

theorem Alternates.stay {r : Run} {w : Watch} (h : Alternates r) (hsame : w.active = r.watch.active) :
    Alternates ⟨w, r.queued ++ []⟩ := by
  rw [List.append_nil]
  exact ⟨h.chain, h.first, by rw [h.last, hsame]⟩

theorem Alternates.observe {r : Run} (h : Alternates r)
    (hqueues : ∀ e, (condition o r.watch).2 = some e → o.queues text key e = true) :
    Alternates (r.observe text key o) := by
  have hedge : (condition o r.watch).2.filter (o.queues text key) = (condition o r.watch).2 := by
    cases he : (condition o r.watch).2 with
    | none => rfl
    | some e => rw [Option.filter_some, if_pos (hqueues e he)]
  unfold Run.observe
  dsimp only
  rw [hedge]
  clear hedge hqueues
  unfold condition
  split
  · dsimp only
    split
    · next hdue =>
      simp only [Bool.and_eq_true, Bool.not_eq_true'] at hdue
      exact h.add (by simp [hdue.1]) (by simp)
    · exact h.stay rfl
  · dsimp only
    cases hactive : r.watch.active with
    | false => exact h.stay hactive.symm
    | true => exact h.add (by simp [hactive]) (by simp)

end Dumb.Notifications

/-! ## No edge of a condition is lost -/

namespace Dumb.Notifications

open Py

variable {text : Text} {key : String} {first o : Observation} {os : List Observation}

/-- An alert is queued only once the condition has been active for its duration. -/
def Justified (text : Text) (key : String) (first : Observation) (os : List Observation) : Prop :=
  ∀ before o after, os = before ++ o :: after →
    (observe text key first (before ++ [o])).queued = (observe text key first before).queued ++ [.alert] →
      Held (first :: before ++ [o])

structure ConditionKept (text : Text) (key : String) (first : Observation) (os : List Observation) : Prop where
  chain : (observe text key first os).queued.IsChain (· ≠ ·)
  head : (observe text key first os).queued.head? ≠ some .recovery
  noLoss : Due first os → ∀ o ∈ os.getLast?, o.outside.StorageWorks → (observe text key first os).queued.getLast? = some .alert

def Heard (text : Text) (key : String) (first : Observation) (os : List Observation) : Prop :=
  ∀ before o after e, os = before ++ o :: after → Brings first before o e →
    o.outside.StorageWorks ∧ o.outside.Wants text (o.emit key e)

theorem Heard.left {os' : List Observation} (h : Heard text key first (os ++ os')) : Heard text key first os := by
  rintro before o after e rfl
  exact h before o (after ++ os') e (by simp)

theorem heard_alternates (h : Heard text key first os) : Alternates (observe text key first os) := by
  induction os using List.reverseRecOn with
  | nil => exact ⟨.nil, by simp [observe], by simp [observe, baseline]⟩
  | append_singleton os o ih =>
    rw [observe_concat]
    apply (ih h.left).observe
    intro e he
    have hbrings := (((knows_observe text key first os).condition o).2 e).1 he
    obtain ⟨hworks, hwants⟩ := h os o [] e (by simp) hbrings
    exact queues_of_works hworks hwants

theorem observe_justified (text : Text) (key : String) (first : Observation) (os : List Observation) :
    Justified text key first os := by
  intro before o after _ hqueued
  obtain ⟨edge, hedge, hadded⟩ := @queued_concat text key first before o
  rw [hadded, List.append_cancel_left_eq] at hqueued
  cases edge with
  | none => cases hqueued
  | some e =>
    have hbrings := (hedge e).1 rfl
    rw [Option.filter_some] at hqueued
    split at hqueued
    · obtain rfl : e = .alert := by simpa using hqueued
      exact hbrings.2.2
    · cases hqueued

/-- Alerts are justified in every run. -/
theorem conditions_kept (text : Text) (key : String) (first : Observation) (os : List Observation) :
    Justified text key first os ∧ (Heard text key first os → ConditionKept text key first os) := by
  apply And.intro (observe_justified text key first os)
  intro hheard
  have halternates := heard_alternates hheard
  constructor
  · exact halternates.chain
  · exact halternates.first
  · intro hdue _ _ _
    exact halternates.last.2 ((knows_observe text key first os).active.2 hdue)

/-! ## Samples -/

def oneWebhook : Config where
  enabled := true
  historyRetentionDays := 30
  maxAttempts := 3
  retryBaseSec := 30
  destinations := [webhook "x"]
  one_le_maxAttempts := Nat.succ_pos 2
  one_le_retryBaseSec := Nat.succ_pos 29

def outsideAt (now : ℚ) (storage : Storage) : Outside where
  config := oneWebhook
  startupComplete := true
  now := now
  monotonic := now
  storage := storage
  initialization := .works
  lastSent := []
  writes _ := ⟨.works, .works, .works⟩

def cpuAt (now : ℚ) (active : Bool) (storage : Storage) (pos : 0 < now) : Observation :=
  ⟨now, active, 60, "resource.cpu.high", .warning, none, outsideAt now storage, pos⟩

def busyForAWhile : List Observation :=
  [cpuAt 100 true ⟨true, 0⟩ (by decide), cpuAt 160 true ⟨true, 0⟩ (by decide), cpuAt 190 false ⟨true, 0⟩ (by decide)]

theorem conditions_kept_busy : ConditionKept Text.ascii "resource:cpu" (cpuAt 70 false ⟨true, 0⟩ (by decide)) busyForAWhile := by
  apply (conditions_kept Text.ascii "resource:cpu" (cpuAt 70 false ⟨true, 0⟩ (by decide)) busyForAWhile).2
  intro before o after e heq _
  have hall : ∀ o ∈ busyForAWhile, o.outside.StorageWorks ∧ o.outside.Wants Text.ascii (o.emit "resource:cpu" .alert) ∧
      o.outside.Wants Text.ascii (o.emit "resource:cpu" .recovery) := by decide +kernel
  obtain ⟨hworks, halert, hrecovery⟩ := hall o (by simp [heq])
  cases e with
  | alert => exact ⟨hworks, halert⟩
  | recovery => exact ⟨hworks, hrecovery⟩

def busyWhileLocked : List Observation :=
  [cpuAt 100 true ⟨true, 0⟩ (by decide), cpuAt 160 true ⟨false, 170⟩ (by decide), cpuAt 190 true ⟨true, 0⟩ (by decide)]

/-- The alert is dropped when it is due, and not sent again when the storage works. -/
theorem locked_alert_lost : Due (cpuAt 70 false ⟨true, 0⟩ (by decide)) busyWhileLocked ∧
    (∀ o ∈ busyWhileLocked, o.outside.Wants Text.ascii (o.emit "resource:cpu" .alert)) ∧
      ¬ConditionKept Text.ascii "resource:cpu" (cpuAt 70 false ⟨true, 0⟩ (by decide)) busyWhileLocked := by
  have hdue : Due (cpuAt 70 false ⟨true, 0⟩ (by decide)) busyWhileLocked := by
    refine ⟨busyWhileLocked.take 2, busyWhileLocked.drop 2, (List.take_append_drop 2 _).symm, by simp [busyWhileLocked],
      by simp [busyWhileLocked, cpuAt], cpuAt 100 true ⟨true, 0⟩ (by decide), rfl, cpuAt 160 true ⟨false, 170⟩ (by decide), rfl, ?_⟩
    decide +kernel
  refine ⟨hdue, by decide +kernel, fun h => ?_⟩
  have hlast := h.noLoss hdue (cpuAt 190 true ⟨true, 0⟩ (by decide)) rfl (by decide +kernel)
  exact absurd hlast (by decide +kernel)

end Dumb.Notifications
