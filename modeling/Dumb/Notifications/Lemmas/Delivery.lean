import Mathlib.Tactic.Linarith
import Dumb.Notifications.Delivery

/-!
# What the delivery keeps
-/

namespace Dumb.Notifications

open Py

variable {text : Text} {w w' : World}

namespace Worker

def rows : Worker → List (String × Delivery)
  | .idle | .due .. => []
  | .batch rows => rows
  | .calling id row rows | .deferring id row rows | .finishing _ id row _ rows => (id, row) :: rows

def waiting : Worker → List (String × Delivery)
  | .idle | .due .. => []
  | .batch rows | .calling _ _ rows | .deferring _ _ rows | .finishing _ _ _ _ rows => rows

def current : Worker → Option (String × Delivery)
  | .calling id row _ | .finishing true id row _ _ => some (id, row)
  | _ => none

theorem current_head {k : Worker} {e : String × Delivery} (h : k.current = some e) : ∃ rows, k.rows = e :: rows := by
  cases k with
  | calling id row rows =>
    cases h
    exact ⟨rows, rfl⟩
  | finishing called id row error rows =>
    cases called with
    | false => cases h
    | true =>
      cases h
      exact ⟨rows, rfl⟩
  | _ => cases h

end Worker

/-! ## Calls -/

def callsOf (id : String) (calls : List Call) : List Call := calls.filter fun c => c.id = id

/-- The calls have failed, and the next one may come at `t`: with `k` calls made, `retry_base_sec * 2^(k-1)` after the last. -/
def Ready (t : ℚ) : List Call → Prop
  | [] => True
  | c :: calls => ∃ f, c.failure = some f ∧ f.1 + f.2 * 2 ^ calls.length ≤ t

def Spaced : List Call → Prop
  | [] => True
  | c :: calls => Ready c.startedAt calls ∧ Spaced calls

variable {calls : List Call}

theorem Ready.mono {t t' : ℚ} (h : Ready t calls) (ht : t ≤ t') : Ready t' calls := by
  cases calls with
  | nil => trivial
  | cons c calls =>
    obtain ⟨f, hf, hle⟩ := h
    exact ⟨f, hf, hle.trans ht⟩

theorem callsOf_cons (id : String) (c : Call) (calls : List Call) :
    callsOf id (c :: calls) = if c.id = id then c :: callsOf id calls else callsOf id calls := by
  simp [callsOf, List.filter_cons]

variable {id : String}

theorem callsOf_eq_nil (h : ∀ c ∈ calls, c.id ≠ id) : callsOf id calls = [] :=
  List.filter_eq_nil_iff.2 fun c hc => by simpa using h c hc

/-! ## Statuses -/

def Follows (s s' : Status) : Prop :=
  s' = s ∨ (s = .queued ∨ s = .retrying) ∧ (s' = .retrying ∨ s' = .sent ∨ s' = .failed)

/-- What may become of the deliveries in one step, and which of them a provider is called for. -/
structure Moves (w w' : World) : Prop where
  pending : ∀ id d, w.deliveries.get? id = some d → d.pending = true →
    ∃ d', w'.deliveries.get? id = some d' ∧ Follows d.status d'.status
  ended : ∀ id d d', w.deliveries.get? id = some d → d.pending = false → w'.deliveries.get? id = some d' → d' = d
  new : ∀ id d', w.deliveries.get? id = none → w'.deliveries.get? id = some d' → d'.status = .queued ∨ d'.status = .suppressed
  called : ∀ c, w'.calls = c :: w.calls → ∃ d, w.deliveries.get? c.id = some d ∧ d.pending = true

theorem Moves.same (hdeliveries : w'.deliveries = w.deliveries) (hcalls : w'.calls = w.calls) : Moves w w' where
  pending id d hd _ := ⟨d, hdeliveries ▸ hd, .inl rfl⟩
  ended id d d' hd _ hd' := Option.some.inj ((hdeliveries ▸ hd').symm.trans hd)
  new id d' hnone hd' := by
    rw [hdeliveries, hnone] at hd'
    cases hd'
  called c hc := by
    rw [hcalls] at hc
    exact absurd (congrArg List.length hc) (by simp)

/-! ## The invariant -/

structure Inv (w : World) : Prop where
  distinct : (Dict.keys w.deliveries).Nodup
  due : ∀ t enabled startup, w.worker = .due t enabled startup → t ≤ w.now
  rowsDistinct : (w.worker.rows.map (·.1)).Nodup
  stored : ∀ e ∈ w.worker.rows, w.deliveries.get? e.1 = some e.2 ∧ e.2.pending = true ∧ e.2.nextAttemptAt ≤ w.now
  ready : ∀ id d, w.deliveries.get? id = some d → d.pending = true → w.worker.current ≠ some (id, d) →
    Ready d.nextAttemptAt (callsOf id w.calls) ∧ (callsOf id w.calls).length ≤ d.attempts
  current : ∀ id d, w.worker.current = some (id, d) → ∃ c calls, w.calls = c :: calls ∧ c.id = id ∧
    (callsOf id calls).length ≤ d.attempts
  spaced : ∀ id, Spaced (callsOf id w.calls)

theorem inv_start (c : Config) (startup : Bool) (now : ℚ) : Inv (World.start c startup now) where
  distinct := List.nodup_nil
  due _ _ _ h := nomatch h
  rowsDistinct := List.nodup_nil
  stored _ he := absurd he List.not_mem_nil
  ready _ _ hd := nomatch hd
  current _ _ hd := nomatch hd
  spaced _ := trivial

theorem Inv.frame (h : Inv w) (hdeliveries : w'.deliveries = w.deliveries) (hworker : w'.worker = w.worker)
    (hcalls : w'.calls = w.calls) (hnow : w.now ≤ w'.now) : Inv w' where
  distinct := hdeliveries ▸ h.distinct
  due t enabled startup ht := (h.due t enabled startup (hworker ▸ ht)).trans hnow
  rowsDistinct := hworker ▸ h.rowsDistinct
  stored e he := by
    obtain ⟨hget, hpending, hle⟩ := h.stored e (hworker ▸ he)
    exact ⟨hdeliveries ▸ hget, hpending, hle.trans hnow⟩
  ready := hcalls ▸ hworker ▸ hdeliveries ▸ h.ready
  current := hcalls ▸ hworker ▸ h.current
  spaced := hcalls ▸ h.spaced

theorem Inv.table (h : Inv w) (hworker : w'.worker = w.worker) (hcalls : w'.calls = w.calls) (hnow : w.now = w'.now)
    (hdistinct : (Dict.keys w'.deliveries).Nodup)
    (hkeep : ∀ id d, w.deliveries.get? id = some d → d.pending = true → w'.deliveries.get? id = some d)
    (hnew : ∀ id d, w'.deliveries.get? id = some d → w.deliveries.get? id = some d ∨ callsOf id w.calls = []) : Inv w' where
  distinct := hdistinct
  due t enabled startup ht := hnow ▸ h.due t enabled startup (hworker ▸ ht)
  rowsDistinct := hworker ▸ h.rowsDistinct
  stored e he := by
    obtain ⟨hget, hpending, hle⟩ := h.stored e (hworker ▸ he)
    exact ⟨hkeep _ _ hget hpending, hpending, hnow ▸ hle⟩
  ready id d hd hpending hcurrent := by
    rw [hcalls]
    rcases hnew id d hd with hold | hnone
    · exact h.ready id d hold hpending (hworker ▸ hcurrent)
    · rw [hnone]
      exact ⟨trivial, Nat.zero_le _⟩
  current := hcalls ▸ hworker ▸ h.current
  spaced := hcalls ▸ h.spaced

@[simp] theorem update_calls (id : String) (f : Delivery → Delivery) (w : World) : (w.update id f).calls = w.calls := by
  unfold World.update
  split <;> rfl

@[simp] theorem update_config (id : String) (f : Delivery → Delivery) (w : World) : (w.update id f).config = w.config := by
  unfold World.update
  split <;> rfl

variable {row : Delivery} {f : Delivery → Delivery}

variable {rows : List (String × Delivery)}

theorem Inv.write (h : Inv w)
    (hrows : w.worker.rows = (id, row) :: rows)
    (hother : ∀ id', id' ≠ id → callsOf id' calls = callsOf id' w.calls)
    (hready : (f row).pending = true → Ready (f row).nextAttemptAt (callsOf id calls) ∧ (callsOf id calls).length ≤ (f row).attempts)
    (hspaced : Spaced (callsOf id calls)) : Inv { w.update id f with worker := .batch rows, calls := calls } := by
  have hget := (h.stored (id, row) (hrows ▸ List.mem_cons_self)).1
  have hupdate : w.update id f = { w with deliveries := w.deliveries.set id (f row) } := by
    simp only [World.update, hget]
  have hdistinct := h.rowsDistinct
  rw [hrows, List.map_cons, List.nodup_cons] at hdistinct
  rw [hupdate]
  constructor
  · exact Dict.nodup_keys_set h.distinct
  · exact fun _ _ _ ht => nomatch ht
  · exact hdistinct.2
  · intro e (he : e ∈ rows)
    have hmem : e.1 ∈ rows.map (·.1) := List.mem_map_of_mem he
    have hne : e.1 ≠ id := fun heq => hdistinct.1 (heq ▸ hmem)
    obtain ⟨hstored, hpending⟩ := h.stored e (hrows ▸ List.mem_cons_of_mem _ he)
    exact ⟨(Dict.get?_set_ne hne _ _).trans hstored, hpending⟩
  · intro id' d hd hpending _
    by_cases hid : id' = id
    · subst hid
      rw [Dict.get?_set_self, Option.some.injEq] at hd
      exact hd ▸ hready (hd ▸ hpending)
    · rw [Dict.get?_set_ne hid] at hd
      have hcurrent : w.worker.current ≠ some (id', d) := by
        intro hcurrent
        obtain ⟨rows', hrows'⟩ := Worker.current_head hcurrent
        rw [hrows, List.cons.injEq, Prod.mk.injEq] at hrows'
        exact hid hrows'.1.1.symm
      rw [hother id' hid]
      exact h.ready id' d hd hpending hcurrent
  · exact fun _ _ hcurrent => nomatch hcurrent
  · intro id'
    by_cases hid : id' = id
    · exact hid ▸ hspaced
    · exact (hother id' hid).symm ▸ h.spaced id'

theorem Moves.write {k : Worker}
    (hget : w.deliveries.get? id = some row) (hpending : row.pending = true) (hfollows : Follows row.status (f row).status)
    (hcalls : calls.length = w.calls.length) : Moves w { w.update id f with worker := k, calls := calls } := by
  have hupdate : w.update id f = { w with deliveries := w.deliveries.set id (f row) } := by
    simp only [World.update, hget]
  rw [hupdate]
  constructor
  · intro id' d hd _
    by_cases hid : id' = id
    · subst hid
      rw [hget, Option.some.injEq] at hd
      exact ⟨f row, Dict.get?_set_self _ _ _, hd ▸ hfollows⟩
    · exact ⟨d, (Dict.get?_set_ne hid _ _).trans hd, .inl rfl⟩
  · intro id' d d' hd hover hd'
    have hid : id' ≠ id := by
      rintro rfl
      rw [hget, Option.some.injEq] at hd
      exact absurd hpending (by simp [hd, hover])
    have hsame := (Dict.get?_set_ne hid (f row) w.deliveries).symm.trans hd'
    exact Option.some.inj (hsame.symm.trans hd)
  · intro id' d' hnone hd'
    have hid : id' ≠ id := by
      rintro rfl
      exact absurd (hget.symm.trans hnone) (Option.some_ne_none _)
    have hsame := (Dict.get?_set_ne hid (f row) w.deliveries).symm.trans hd'
    exact absurd (hsame.symm.trans hnone) (Option.some_ne_none _)
  · intro c hc
    exact absurd (hcalls.symm.trans (congrArg List.length hc)) (by simp)

theorem Moves.table (hcalls : w'.calls = w.calls)
    (hkeep : ∀ id d, w.deliveries.get? id = some d → d.pending = true → w'.deliveries.get? id = some d)
    (hnew : ∀ id d, w'.deliveries.get? id = some d →
      w.deliveries.get? id = some d ∨ w.deliveries.get? id = none ∧ (d.status = .queued ∨ d.status = .suppressed)) : Moves w w' where
  pending id d hd hpending := ⟨d, hkeep id d hd hpending, .inl rfl⟩
  ended id d d' hd _ hd' := by
    rcases hnew id d' hd' with hold | ⟨hnone, -⟩
    · exact Option.some.inj (hold.symm.trans hd)
    · exact absurd (hd.symm.trans hnone) (Option.some_ne_none _)
  new id d' hnone hd' := by
    rcases hnew id d' hd' with hold | ⟨-, hstatus⟩
    · exact absurd (hold.symm.trans hnone) (Option.some_ne_none _)
    · exact hstatus
  called c hc := absurd (congrArg List.length (hcalls.symm.trans hc)) (by simp)

/-! ## Steps -/

def Proper (w : World) : Step → Prop
  | .record _ id => w.deliveries.get? id = none ∧ ∀ c ∈ w.calls, c.id ≠ id
  | .wait seconds => 0 ≤ seconds
  | _ => True

instance Proper.decidable (w : World) : ∀ s : Step, Decidable (Proper w s)
  | .record _ id => inferInstanceAs (Decidable (_ = _ ∧ ∀ c ∈ w.calls, c.id ≠ id))
  | .wait seconds => inferInstanceAs (Decidable (0 ≤ seconds))
  | .emit _ | .clearHistory | .pruneHistory | .configure _ | .startup _ | .tick | .query | .deliver | .answer _
  | .deferDelivery | .finishDelivery => .isTrue trivial

theorem record_fine (h : Inv w) {n : Nat} (hnone : w.deliveries.get? id = none)
    (hcalls : ∀ c ∈ w.calls, c.id ≠ id) : Inv (w.record n id) ∧ Moves w (w.record n id) := by
  have hset : ∀ d : Delivery, d.status = .queued ∨ d.status = .suppressed → ∀ w' : World, w'.worker = w.worker →
      w'.calls = w.calls → w'.now = w.now → w'.deliveries = w.deliveries.set id d → Inv w' ∧ Moves w w' := by
    intro d hd w' hworker hcalls' hnow hdeliveries
    have hkeep : ∀ id' d', w.deliveries.get? id' = some d' → d'.pending = true → w'.deliveries.get? id' = some d' := by
      intro id' d' hget _
      have hid : id' ≠ id := by
        rintro rfl
        exact absurd (hget.symm.trans hnone) (Option.some_ne_none _)
      rw [hdeliveries, Dict.get?_set_ne hid, hget]
    have hnew : ∀ id' d', w'.deliveries.get? id' = some d' → w.deliveries.get? id' = some d' ∨ id' = id ∧ d' = d := by
      intro id' d' hget
      rw [hdeliveries, Dict.get?_set] at hget
      split at hget
      case isTrue heq => exact .inr ⟨heq, (Option.some.inj hget).symm⟩
      case isFalse => exact .inl hget
    constructor
    · apply h.table hworker hcalls' hnow.symm (hdeliveries ▸ Dict.nodup_keys_set h.distinct) hkeep
      intro id' d' hget
      apply (hnew id' d' hget).imp_right
      rintro ⟨rfl, -⟩
      exact callsOf_eq_nil hcalls
    · apply Moves.table hcalls' hkeep
      intro id' d' hget
      apply (hnew id' d' hget).imp_right
      rintro ⟨rfl, rfl⟩
      exact ⟨hnone, hd⟩
  unfold World.record
  split
  · exact ⟨h, .same rfl rfl⟩
  · split
    · exact hset _ (.inr rfl) _ rfl rfl rfl rfl
    · exact hset _ (.inl rfl) _ rfl rfl rfl rfl

theorem filter_fine (h : Inv w) {P : String × Delivery → Bool} (hP : ∀ e, e.2.pending = true → P e = true) :
    Inv { w with deliveries := w.deliveries.filter P } ∧ Moves w { w with deliveries := w.deliveries.filter P } := by
  have hkeep : ∀ id d, w.deliveries.get? id = some d → d.pending = true →
      Dict.get? id (w.deliveries.filter P) = some d := fun id d hget hpending =>
    (Dict.get?_filter_iff h.distinct).2 ⟨hget, hP _ hpending⟩
  have hold : ∀ id d, Dict.get? id (w.deliveries.filter P) = some d → w.deliveries.get? id = some d := fun id d hget =>
    ((Dict.get?_filter_iff h.distinct).1 hget).1
  constructor
  · exact h.table rfl rfl rfl (Dict.nodup_keys_filter h.distinct) hkeep fun id d hget => .inl (hold id d hget)
  · exact .table rfl hkeep fun id d hget => .inl (hold id d hget)

theorem tick_fine (h : Inv w) : Inv w.tick ∧ Moves w w.tick := by
  unfold World.tick
  split
  case h_2 => exact ⟨h, .same rfl rfl⟩
  case h_1 hworker =>
    refine ⟨⟨h.distinct, ?_, List.nodup_nil, fun _ he => absurd he List.not_mem_nil, ?_, fun _ _ he => (nomatch he),
      h.spaced⟩, .same rfl rfl⟩
    · intro t enabled startup ht
      cases ht
      exact le_rfl
    · intro id d hd hpending _
      exact h.ready id d hd hpending (by simp [hworker, Worker.current])

theorem query_fine (h : Inv w) : Inv w.query ∧ Moves w w.query := by
  unfold World.query
  split
  case h_2 => exact ⟨h, .same rfl rfl⟩
  case h_1 now enabled startup hworker =>
    have hmem : ∀ e ∈ w.dueRows now enabled startup, e ∈ w.deliveries ∧ World.isDue now enabled startup e.2 = true := by
      intro e he
      exact List.mem_filter.1 ((List.mem_insertionSort _).1 (List.mem_of_mem_take he))
    refine ⟨?_, .same rfl rfl⟩
    constructor
    · exact h.distinct
    · exact fun _ _ _ ht => nomatch ht
    · have hsort : (((w.deliveries.filter fun e => World.isDue now enabled startup e.2).insertionSort
          fun a b => a.2.createdAt ≤ b.2.createdAt).map (·.1)).Nodup :=
        ((List.perm_insertionSort _ _).map _).nodup_iff.2 (Dict.nodup_keys_filter h.distinct)
      exact hsort.sublist ((List.take_sublist _ _).map _)
    · intro e he
      obtain ⟨hdeliveries, hdue⟩ := hmem e he
      simp only [World.isDue, Bool.and_eq_true, decide_eq_true_eq] at hdue
      exact ⟨Dict.get?_of_mem h.distinct hdeliveries, hdue.1.1.1, hdue.1.1.2.trans (h.due now enabled startup hworker)⟩
    · intro id d hd hpending _
      exact h.ready id d hd hpending (by simp [hworker, Worker.current])
    · exact fun _ _ hcurrent => nomatch hcurrent
    · exact h.spaced

theorem Inv.goOn (h : Inv w) {k : Worker} (hrows : k.rows = w.worker.rows) (hcurrent : k.current = w.worker.current)
    (hdue : ∀ t enabled startup, k ≠ .due t enabled startup) : Inv { w with worker := k } where
  distinct := h.distinct
  due t enabled startup ht := absurd ht (hdue t enabled startup)
  rowsDistinct := hrows.symm ▸ h.rowsDistinct
  stored := hrows.symm ▸ h.stored
  ready := hcurrent.symm ▸ h.ready
  current := hcurrent.symm ▸ h.current
  spaced := h.spaced

theorem Inv.call (h : Inv w)
    (hworker : w.worker = .batch ((id, row) :: rows)) :
    Inv { w with worker := .calling id row rows, calls := ⟨id, w.now, none⟩ :: w.calls } := by
  obtain ⟨hget, hpending, hnext⟩ := h.stored (id, row) (by rw [hworker]; exact List.mem_cons_self)
  obtain ⟨hready, hlength⟩ := h.ready id row hget hpending (by simp [hworker, Worker.current])
  constructor
  · exact h.distinct
  · exact fun _ _ _ ht => nomatch ht
  · have hdistinct := h.rowsDistinct
    rw [hworker] at hdistinct
    exact hdistinct
  · have hstored := h.stored
    rw [hworker] at hstored
    exact hstored
  · intro id' d hd hpending' hcurrent
    have hid : id ≠ id' := by
      rintro rfl
      have hsame : d = row := Option.some.inj (hd.symm.trans hget)
      exact hcurrent (hsame ▸ rfl)
    rw [callsOf_cons, if_neg hid]
    exact h.ready id' d hd hpending' (by simp [hworker, Worker.current])
  · intro id' d hcurrent
    cases hcurrent
    exact ⟨_, _, rfl, rfl, hlength⟩
  · intro id'
    rw [callsOf_cons]
    split
    case isTrue hid =>
      cases hid
      exact ⟨hready.mono hnext, h.spaced id⟩
    case isFalse => exact h.spaced id'

theorem deliver_fine (h : Inv w) : Inv w.deliver ∧ Moves w w.deliver := by
  unfold World.deliver
  split
  case h_3 => exact ⟨h, .same rfl rfl⟩
  case h_1 hworker => exact ⟨h.goOn (by rw [hworker]; rfl) (by rw [hworker]; rfl) nofun, .same rfl rfl⟩
  case h_2 id row rows hworker =>
    have hkept : ∀ k : Worker, k.rows = (id, row) :: rows → k.current = none → (∀ t enabled startup, k ≠ .due t enabled startup) →
        Inv { w with worker := k } ∧ Moves w { w with worker := k } := fun k hrows hcurrent hdue =>
      ⟨h.goOn (by rw [hrows, hworker]; rfl) (by rw [hcurrent, hworker]; rfl) hdue, .same rfl rfl⟩
    have hcalled : Inv { w with worker := .calling id row rows, calls := ⟨id, w.now, none⟩ :: w.calls } ∧
        Moves w { w with worker := .calling id row rows, calls := ⟨id, w.now, none⟩ :: w.calls } := by
      obtain ⟨hget, hpending, -⟩ := h.stored (id, row) (by rw [hworker]; exact List.mem_cons_self)
      have hsame : Moves w { w with worker := .calling id row rows } := .same rfl rfl
      apply And.intro (h.call hworker)
      exact ⟨hsame.pending, hsame.ended, hsame.new, fun c hc => ⟨row, by cases hc; exact ⟨hget, hpending⟩⟩⟩
    split
    · exact hkept _ rfl rfl nofun
    · split
      · exact hkept _ rfl rfl nofun
      · split
        · exact hkept _ rfl rfl nofun
        · exact hcalled

theorem answer_fine (h : Inv w) (error : Option String) : Inv (w.answer error) ∧ Moves w (w.answer error) := by
  unfold World.answer
  split
  case h_1 id row rows hworker =>
    exact ⟨h.goOn (by rw [hworker]; rfl) (by rw [hworker]; rfl) nofun, .same rfl rfl⟩
  case h_2 => exact ⟨h, .same rfl rfl⟩

theorem deferDelivery_fine (h : Inv w) : Inv w.deferDelivery ∧ Moves w w.deferDelivery := by
  unfold World.deferDelivery
  split
  case h_2 => exact ⟨h, .same rfl rfl⟩
  case h_1 id row rows hworker =>
    have hrows : w.worker.rows = (id, row) :: rows := by rw [hworker]; rfl
    obtain ⟨hget, hpending, hnext⟩ := h.stored (id, row) (hrows ▸ List.mem_cons_self)
    obtain ⟨hready, hlength⟩ := h.ready id row hget hpending (by simp [hworker, Worker.current])
    have hlater : row.nextAttemptAt ≤ w.now + max 1 30 := by
      have hdelay : (0 : ℚ) ≤ max 1 30 := by norm_num
      linarith
    dsimp only
    rw [update_calls]
    constructor
    · exact h.write hrows (fun _ _ => rfl) (fun _ => ⟨hready.mono hlater, hlength⟩) (h.spaced id)
    · exact .write hget hpending (.inl rfl) rfl

/-! ### The result -/

theorem finished_follows (c : Config) (now : ℚ) (attempts : Nat) (error : Option String) {d : Delivery} (h : d.pending = true) :
    Follows d.status (World.finished c now attempts error d).status := by
  have hpending : d.status = .queued ∨ d.status = .retrying := by simpa [Delivery.pending] using h
  unfold World.finished
  split
  · exact .inr ⟨hpending, .inr (.inl rfl)⟩
  · split
    · exact .inr ⟨hpending, .inr (.inr rfl)⟩
    · exact .inr ⟨hpending, .inl rfl⟩

theorem finished_pending {c : Config} {now : ℚ} {attempts : Nat} {error : Option String} {d : Delivery}
    (h : (World.finished c now attempts error d).pending = true) :
    error.isSome = true ∧ attempts < c.maxAttempts ∧ (World.finished c now attempts error d).attempts = attempts ∧
      (World.finished c now attempts error d).nextAttemptAt = now + c.retryBaseSec * 2 ^ (attempts - 1) := by
  unfold World.finished at h ⊢
  split at h
  · cases h
  · split at h
    · cases h
    · rename_i hlimit
      rw [c.attemptLimit_eq, not_le] at hlimit
      simp [hlimit, not_le.2 hlimit]

theorem finishDelivery_fine (h : Inv w) : Inv w.finishDelivery ∧ Moves w w.finishDelivery := by
  unfold World.finishDelivery
  split
  case h_2 => exact ⟨h, .same rfl rfl⟩
  case h_1 called id row error rows hworker =>
    have hrows : w.worker.rows = (id, row) :: rows := by rw [hworker]; rfl
    obtain ⟨hget, hpending, hnext⟩ := h.stored (id, row) (hrows ▸ List.mem_cons_self)
    have hfollows := finished_follows w.config w.now (row.attempts + 1) error hpending
    cases called with
    | false =>
      obtain ⟨hready, hlength⟩ := h.ready id row hget hpending (by simp [hworker, Worker.current])
      constructor
      · apply h.write hrows (fun _ _ => rfl) _ (h.spaced id)
        intro hagain
        obtain ⟨-, -, hattempts, hat⟩ := finished_pending hagain
        rw [hattempts, hat]
        apply And.intro (hready.mono _) (hlength.trans (Nat.le_succ _))
        have hdelay : (0 : ℚ) ≤ w.config.retryBaseSec * 2 ^ (row.attempts + 1 - 1) := by positivity
        linarith
      · exact .write hget hpending hfollows rfl
    | true =>
      obtain ⟨c, calls, hcalls, hid, hlength⟩ := h.current id row (by rw [hworker]; rfl)
      have hspaced := h.spaced id
      rw [hcalls, callsOf_cons, if_pos hid] at hspaced
      dsimp only
      split
      case isFalse herror =>
        constructor
        · apply h.write hrows (fun _ _ => rfl) _ (h.spaced id)
          intro hagain
          exact absurd (finished_pending hagain).1 (by simpa using herror)
        · exact .write hget hpending hfollows rfl
      case isTrue =>
        rw [hcalls, World.failLast]
        constructor
        · apply h.write hrows
          · intro id' hne
            rw [hcalls, callsOf_cons, callsOf_cons, if_neg (hid ▸ hne.symm), if_neg (hid ▸ hne.symm)]
          · intro hagain
            obtain ⟨-, -, hattempts, hat⟩ := finished_pending hagain
            rw [hattempts, hat, callsOf_cons, if_pos hid]
            refine ⟨⟨_, rfl, ?_⟩, Nat.succ_le_succ hlength⟩
            have hpow : (2 : ℚ) ^ (callsOf id calls).length ≤ 2 ^ (row.attempts + 1 - 1) :=
              pow_le_pow_right₀ (by norm_num) hlength
            have hbase : (0 : ℚ) ≤ w.config.retryBaseSec := by positivity
            have := mul_le_mul_of_nonneg_left hpow hbase
            dsimp only
            linarith
          · rw [callsOf_cons, if_pos hid]
            exact hspaced
        · exact .write hget hpending hfollows (by rw [hcalls]; rfl)

variable {s : Step}

theorem step_fine (text : Text) (h : Inv w) (hproper : Proper w s) :
    Inv (w.step text s) ∧ Moves w (w.step text s) := by
  cases s with
  | emit e =>
    rw [World.step, World.emit]
    split
    · exact ⟨h, .same rfl rfl⟩
    · split
      · exact ⟨h, .same rfl rfl⟩
      · exact ⟨h.frame rfl rfl rfl le_rfl, .same rfl rfl⟩
  | record n id => exact record_fine h hproper.1 hproper.2
  | clearHistory => exact filter_fine h fun _ hpending => hpending
  | pruneHistory => exact filter_fine h fun e hpending => by simp [hpending]
  | configure c => exact ⟨h.frame rfl rfl rfl le_rfl, .same rfl rfl⟩
  | startup complete => exact ⟨h.frame rfl rfl rfl le_rfl, .same rfl rfl⟩
  | wait seconds => exact ⟨h.frame rfl rfl rfl (le_add_of_nonneg_right hproper), .same rfl rfl⟩
  | tick => exact tick_fine h
  | query => exact query_fine h
  | deliver => exact deliver_fine h
  | answer error => exact answer_fine h error
  | deferDelivery => exact deferDelivery_fine h
  | finishDelivery => exact finishDelivery_fine h

/-! ## The limit -/

structure Limited (m : Nat) (w : World) : Prop where
  limit : w.config.maxAttempts = m
  pending : ∀ id d, w.deliveries.get? id = some d → d.pending = true → d.attempts < m
  calls : ∀ id, (callsOf id w.calls).length ≤ m

def KeepsAttempts (m : Nat) : Step → Prop
  | .configure c => c.maxAttempts = m
  | _ => True

theorem limited_start (c : Config) (startup : Bool) (now : ℚ) : Limited c.maxAttempts (World.start c startup now) :=
  ⟨rfl, fun _ _ hd => (nomatch hd), fun _ => Nat.zero_le _⟩

theorem Limited.same {m : Nat} (h : Limited m w) (hlimit : w'.config.maxAttempts = w.config.maxAttempts)
    (hpending : ∀ id d, w'.deliveries.get? id = some d → d.pending = true →
      w.deliveries.get? id = some d ∨ d.attempts < w.config.maxAttempts)
    (hcalls : ∀ id, (callsOf id w'.calls).length = (callsOf id w.calls).length) : Limited m w' where
  limit := hlimit.trans h.limit
  pending id d hd hp := by
    rcases hpending id d hd hp with hold | hless
    · exact h.pending id d hold hp
    · exact h.limit ▸ hless
  calls id := (hcalls id).trans_le (h.calls id)

theorem Limited.write {m : Nat} (h : Limited m w) {k : Worker}
    (hget : w.deliveries.get? id = some row)
    (hless : (f row).pending = true → (f row).attempts < w.config.maxAttempts)
    (hcalls : ∀ id, (callsOf id calls).length = (callsOf id w.calls).length) :
    Limited m { w.update id f with worker := k, calls := calls } := by
  have hupdate : w.update id f = { w with deliveries := w.deliveries.set id (f row) } := by
    simp only [World.update, hget]
  rw [hupdate]
  have hpending : ∀ id' d, Dict.get? id' (w.deliveries.set id (f row)) = some d → d.pending = true →
      w.deliveries.get? id' = some d ∨ d.attempts < w.config.maxAttempts := by
    intro id' d hd hp
    rw [Dict.get?_set] at hd
    split at hd
    case isTrue =>
      cases hd
      exact .inr (hless hp)
    case isFalse => exact .inl hd
  constructor
  · exact h.limit
  · exact fun id' d hd hp => (hpending id' d hd hp).elim (fun hold => h.pending id' d hold hp) (h.limit ▸ ·)
  · exact fun id' => (hcalls id').trans_le (h.calls id')

theorem callsOf_failLast (now : ℚ) (retryBaseSec : Nat) (id : String) (calls : List Call) :
    (callsOf id (World.failLast now retryBaseSec calls)).length = (callsOf id calls).length := by
  cases calls with
  | nil => rfl
  | cons c calls =>
    rw [World.failLast, callsOf_cons, callsOf_cons]
    split <;> rfl

theorem Limited.step {m : Nat} (h : Limited m w) (hinv : Inv w) (hkeeps : KeepsAttempts m s) :
    Limited m (w.step text s) := by
  have hpos : 0 < w.config.maxAttempts := w.config.one_le_maxAttempts
  cases s with
  | emit e =>
    rw [World.step, World.emit]
    split
    · exact h
    · split
      · exact h
      · exact h.same rfl (fun _ _ hd _ => .inl hd) fun _ => rfl
  | record n id =>
    have hset : ∀ d : Delivery, d.attempts = 0 → ∀ w' : World, w'.config = w.config → w'.calls = w.calls →
        w'.deliveries = w.deliveries.set id d → Limited m w' := by
      intro d hd w' hconfig hcalls hdeliveries
      apply h.same (congrArg _ hconfig) _ fun _ => by rw [hcalls]
      intro id' d' hd' _
      rw [hdeliveries, Dict.get?_set] at hd'
      split at hd'
      case isTrue =>
        cases hd'
        exact .inr (hd ▸ hpos)
      case isFalse => exact .inl hd'
    rw [World.step, World.record]
    split
    · exact h
    · split
      · exact hset _ rfl _ rfl rfl rfl
      · exact hset _ rfl _ rfl rfl rfl
  | clearHistory | pruneHistory =>
    exact h.same rfl (fun _ _ hd _ => .inl ((Dict.get?_filter_iff hinv.distinct).1 hd).1) fun _ => rfl
  | configure c => exact ⟨hkeeps, h.pending, h.calls⟩
  | startup complete => exact h.same rfl (fun _ _ hd _ => .inl hd) fun _ => rfl
  | wait seconds => exact h.same rfl (fun _ _ hd _ => .inl hd) fun _ => rfl
  | tick =>
    rw [World.step, World.tick]
    split
    · exact h.same rfl (fun _ _ hd _ => .inl hd) fun _ => rfl
    · exact h
  | query =>
    rw [World.step, World.query]
    split
    · exact h.same rfl (fun _ _ hd _ => .inl hd) fun _ => rfl
    · exact h
  | deliver =>
    have hkept : ∀ k : Worker, Limited m { w with worker := k } := fun k => h.same rfl (fun _ _ hd _ => .inl hd) fun _ => rfl
    rw [World.step, World.deliver]
    split
    case h_3 => exact h
    case h_1 => exact hkept _
    case h_2 id row rows hworker =>
      split
      · exact hkept _
      · split
        · exact hkept _
        · split
          · exact hkept _
          · obtain ⟨hget, hpending, -⟩ := hinv.stored (id, row) (by rw [hworker]; exact List.mem_cons_self)
            obtain ⟨-, hlength⟩ := hinv.ready id row hget hpending (by simp [hworker, Worker.current])
            refine ⟨h.limit, h.pending, fun id' => ?_⟩
            rw [callsOf_cons]
            split
            case isTrue hid =>
              cases hid
              exact Nat.succ_le_of_lt (hlength.trans_lt (h.pending id row hget hpending))
            case isFalse => exact h.calls id'
  | answer error =>
    rw [World.step, World.answer]
    split
    · exact h.same rfl (fun _ _ hd _ => .inl hd) fun _ => rfl
    · exact h
  | deferDelivery =>
    rw [World.step, World.deferDelivery]
    split
    case h_2 => exact h
    case h_1 id row rows hworker =>
      obtain ⟨hget, hpending, -⟩ := hinv.stored (id, row) (by rw [hworker]; exact List.mem_cons_self)
      exact h.write hget (fun _ => h.limit ▸ h.pending id row hget hpending) fun _ => by rw [update_calls]
  | finishDelivery =>
    rw [World.step, World.finishDelivery]
    split
    case h_2 => exact h
    case h_1 called id row error rows hworker =>
      obtain ⟨hget, hpending, -⟩ := hinv.stored (id, row) (by rw [hworker]; exact List.mem_cons_self)
      apply h.write hget
      · intro hagain
        obtain ⟨-, hless, hattempts, -⟩ := finished_pending hagain
        exact hattempts.trans_lt hless
      · intro id'
        split
        · exact callsOf_failLast _ _ _ _
        · rfl

/-! ## The global flag -/

def StaysOn (w : World) : Step → Prop
  | .configure c => c.enabled = false → ∀ e ∈ w.worker.waiting, e.2.bypassEnabled = true
  | .query => w.config.enabled = false → ∀ e ∈ w.query.worker.waiting, e.2.bypassEnabled = true
  | _ => True

instance StaysOn.decidable (w : World) : ∀ s : Step, Decidable (StaysOn w s)
  | .configure c => inferInstanceAs (Decidable (c.enabled = false → ∀ e ∈ w.worker.waiting, e.2.bypassEnabled = true))
  | .query => inferInstanceAs (Decidable (w.config.enabled = false → ∀ e ∈ w.query.worker.waiting, e.2.bypassEnabled = true))
  | .emit _ | .record .. | .clearHistory | .pruneHistory | .startup _ | .wait _ | .tick | .deliver | .answer _
  | .deferDelivery | .finishDelivery => .isTrue trivial

def Gated (text : Text) (w : World) (s : Step) : Prop :=
  ∀ c, (w.step text s).calls = c :: w.calls →
    w.config.enabled = true ∨ ∃ d, w.deliveries.get? c.id = some d ∧ d.bypassEnabled = true

def Gate (w : World) : Prop := w.config.enabled = false → ∀ e ∈ w.worker.waiting, e.2.bypassEnabled = true

theorem Gate.sub (h : Gate w) (hconfig : w'.config.enabled = w.config.enabled)
    (hwaiting : ∀ e ∈ w'.worker.waiting, e ∈ w.worker.waiting) : Gate w' :=
  fun hoff e he => h (hconfig ▸ hoff) e (hwaiting e he)

theorem Gate.step (h : Gate w) (hon : StaysOn w s) : Gate (w.step text s) := by
  cases s with
  | emit e =>
    rw [World.step, World.emit]
    split
    · exact h
    · split <;> exact h
  | record n id =>
    rw [World.step, World.record]
    split
    · exact h
    · split <;> exact h
  | clearHistory | pruneHistory | startup | wait => exact h
  | configure c => exact hon
  | tick =>
    rw [World.step, World.tick]
    split
    · exact fun _ e he => absurd he List.not_mem_nil
    · exact h
  | query =>
    intro hoff
    apply hon
    have hconfig : w.query.config = w.config := by
      unfold World.query
      split <;> rfl
    exact hconfig ▸ hoff
  | deliver =>
    rw [World.step, World.deliver]
    split
    case h_3 => exact h
    case h_1 => exact fun _ e he => absurd he List.not_mem_nil
    case h_2 id row rows hworker =>
      have hsub : ∀ e ∈ rows, e ∈ w.worker.waiting := fun e he => by
        rw [hworker]
        exact List.mem_cons_of_mem _ he
      split
      · exact h.sub rfl hsub
      · split
        · exact h.sub rfl hsub
        · split <;> exact h.sub rfl hsub
  | answer error =>
    rw [World.step, World.answer]
    split
    case h_2 => exact h
    case h_1 hworker => exact h.sub rfl fun e he => by rw [hworker]; exact he
  | deferDelivery =>
    rw [World.step, World.deferDelivery]
    split
    case h_2 => exact h
    case h_1 hworker => exact h.sub (by rw [update_config]) fun e he => by rw [hworker]; exact he
  | finishDelivery =>
    rw [World.step, World.finishDelivery]
    split
    case h_2 => exact h
    case h_1 hworker => exact h.sub (by rw [update_config]) fun e he => by rw [hworker]; exact he

theorem calls_cons {c : Call} (h : (w.step text s).calls = c :: w.calls) :
    ∃ row rows, w.worker = .batch ((c.id, row) :: rows) := by
  have hno : ∀ calls : List Call, calls.length = w.calls.length → calls ≠ c :: w.calls := by
    rintro calls hlength rfl
    simp at hlength
  cases s with
  | deliver =>
    rw [World.step, World.deliver] at h
    split at h
    case h_3 => exact absurd h (hno _ rfl)
    case h_1 => exact absurd h (hno _ rfl)
    case h_2 id row rows hworker =>
      split at h
      · exact absurd h (hno _ rfl)
      · split at h
        · exact absurd h (hno _ rfl)
        · split at h
          · exact absurd h (hno _ rfl)
          · cases h
            exact ⟨row, rows, hworker⟩
  | finishDelivery =>
    rw [World.step, World.finishDelivery] at h
    split at h
    case h_2 => exact absurd h (hno _ rfl)
    case h_1 =>
      refine absurd h (hno _ ?_)
      dsimp only
      split
      · cases hcalls : w.calls <;> rfl
      · rfl
  | deferDelivery =>
    rw [World.step, World.deferDelivery] at h
    split at h <;> exact absurd h (hno _ (by simp))
  | emit e =>
    rw [World.step, World.emit] at h
    split at h
    · exact absurd h (hno _ rfl)
    · split at h <;> exact absurd h (hno _ rfl)
  | record n id =>
    rw [World.step, World.record] at h
    split at h
    · exact absurd h (hno _ rfl)
    · split at h <;> exact absurd h (hno _ rfl)
  | tick =>
    rw [World.step, World.tick] at h
    split at h <;> exact absurd h (hno _ rfl)
  | query =>
    rw [World.step, World.query] at h
    split at h <;> exact absurd h (hno _ rfl)
  | answer error =>
    rw [World.step, World.answer] at h
    split at h <;> exact absurd h (hno _ rfl)
  | clearHistory | pruneHistory | configure | startup | wait => exact absurd h (hno _ rfl)

theorem Gate.gated (h : Gate w) (hinv : Inv w) (s : Step) : Gated text w s := by
  intro c hc
  obtain ⟨row, rows, hworker⟩ := calls_cons hc
  cases hon : w.config.enabled with
  | true => exact .inl rfl
  | false =>
    have hhead : (c.id, row) ∈ w.worker.waiting := by
      rw [hworker]
      exact List.mem_cons_self
    have hstored := (hinv.stored (c.id, row) (by rw [hworker]; exact List.mem_cons_self)).1
    exact .inr ⟨row, hstored, h hon _ hhead⟩

end Dumb.Notifications
