import Mathlib.Data.Rat.Floor
import Dumb.Lib.Beats

/-!
# Schedules

From `utils/auto_update.py`: `_calculate_next_run_at` and the loops that run a job when it is due. Instants are whole seconds,
and the local clock is ahead of UTC by a fixed number of them.
-/

namespace Dumb.AutoUpdate

structure Schedule where
  utcOffset : Int
  hour : Fin 24
  minute : Fin 60
  intervalHours : Rat

namespace Schedule

def day : Int := 86400

variable (s : Schedule)

def intervalSeconds : Int := max 60 (s.intervalHours * 3600).floor

def anchor (now : Int) : Int := (now + s.utcOffset) / day * day - s.utcOffset + s.hour * 3600 + s.minute * 60

def calculateNextRunAt (now : Int) : Int :=
  let anchor := s.anchor now
  if now ≤ anchor then anchor
  else
    let elapsed := now - anchor
    let intervalsElapsed := (elapsed + s.intervalSeconds - 1) / s.intervalSeconds
    anchor + intervalsElapsed * s.intervalSeconds

structure Run where
  due : Int
  now : Int
  next : Int

def runs (due : Int) : List Int → List Run
  | [] => []
  | now :: clock =>
    if now < due then runs due clock
    else
      let next := s.calculateNextRunAt (now + 1)
      ⟨due, now, next⟩ :: runs next clock

def WholeMinutes : Prop := ∃ minutes : Nat, 0 < minutes ∧ s.intervalHours = minutes / 60

/-- What is promised of two due times in a row: they are one interval apart, save that the daily start time may end an interval of
less than a day. -/
def Spaced (due next : Int) : Prop :=
  if day ≤ s.intervalSeconds then next = due + s.intervalSeconds
  else next = min (due + s.intervalSeconds) (Beats.after (s.anchor 0) day due)

/-- A run before the start time of its day leads to that start time; a later one counts its intervals from there. -/
def InStep (due now : Int) : Prop :=
  let anchor := s.anchor (now + 1)
  if now < anchor then
    if day ≤ s.intervalSeconds then anchor = due + s.intervalSeconds else anchor ≤ due + s.intervalSeconds
  else s.intervalSeconds ∣ due - anchor ∧ (day ≤ s.intervalSeconds ∨ due + s.intervalSeconds ≤ anchor + day)

instance (due next : Int) : Decidable (s.Spaced due next) := by
  unfold Spaced
  infer_instance

variable {s} {due now x : Int}

theorem intervalSeconds_pos : 60 ≤ s.intervalSeconds := le_max_left _ _

theorem dvd_intervalSeconds (h : s.WholeMinutes) : 60 ∣ s.intervalSeconds := by
  obtain ⟨minutes, hpos, hhours⟩ := h
  have hseconds : s.intervalHours * 3600 = ((minutes * 60 : Int) : Rat) := by
    rw [hhours]
    push_cast
    ring
  have hfloor : (s.intervalHours * 3600).floor = minutes * 60 := by
    rw [hseconds, Rat.floor_intCast]
  rw [intervalSeconds, hfloor]
  omega

theorem dvd_anchor (s : Schedule) (now x : Int) : day ∣ s.anchor now - s.anchor x := by
  have hsub : s.anchor now - s.anchor x = day * ((now + s.utcOffset) / day - (x + s.utcOffset) / day) := by
    rw [anchor, anchor]
    ring
  exact ⟨_, hsub⟩

theorem anchor_bounds (s : Schedule) (now : Int) : s.anchor now - day + 60 ≤ now ∧ now < s.anchor now + day := by
  have hhour := s.hour.isLt
  have hminute := s.minute.isLt
  rw [anchor, day]
  omega

theorem calculateNextRunAt_eq (s : Schedule) (now : Int) : s.calculateNextRunAt (now + 1) =
    if now < s.anchor (now + 1) then s.anchor (now + 1)
    else Beats.after (s.anchor (now + 1)) s.intervalSeconds now := by
  rw [calculateNextRunAt]
  simp only [Int.add_one_le_iff]
  split
  · rfl
  · rw [Beats.add_ceil_eq, add_sub_cancel_right]

theorem calculateNextRunAt_form (s : Schedule) (now : Int) :
    s.intervalSeconds ∣ s.calculateNextRunAt now - s.anchor now := by
  rw [calculateNextRunAt]
  simp only []
  split
  · rw [sub_self]
    exact dvd_zero _
  · rw [add_sub_cancel_left]
    exact dvd_mul_left _ _

theorem lt_calculateNextRunAt (s : Schedule) (now : Int) : now < s.calculateNextRunAt (now + 1) := by
  rw [calculateNextRunAt_eq]
  split
  · assumption
  · have := intervalSeconds_pos (s := s)
    exact Beats.lt_after (by omega)

/-! ## One run -/

theorem dvd_of_calculate (h : s.WholeMinutes) (hdue : due = s.calculateNextRunAt x) (now : Int) :
    60 ∣ due - s.anchor now := by
  have hform := (dvd_intervalSeconds h).trans (calculateNextRunAt_form s x)
  have hdays := dvd_anchor s x now
  rw [← hdue] at hform
  rw [day] at hdays
  omega

theorem dvd_of_dvd_day (hdue : due = s.calculateNextRunAt x) (hday : s.intervalSeconds ∣ day) (now : Int) :
    s.intervalSeconds ∣ due - s.anchor now := by
  have hform := calculateNextRunAt_form s x
  rw [← hdue] at hform
  have hsum := dvd_add hform (hday.trans (dvd_anchor s x now))
  rwa [sub_add_sub_cancel] at hsum

theorem after_anchor (now : Int) (hlt : due < s.anchor now) (hle : s.anchor now ≤ due + day) :
    Beats.after (s.anchor 0) day due = s.anchor now :=
  Beats.after_eq (by decide) (dvd_anchor s now 0) hlt hle

theorem after_anchor_tomorrow (now : Int) (hle : s.anchor now ≤ due) (hlt : due < s.anchor now + day) :
    Beats.after (s.anchor 0) day due = s.anchor now + day := by
  apply Beats.after_eq (by decide) _ hlt (by omega)
  have hsum := dvd_add (dvd_anchor s now 0) (dvd_refl day)
  rwa [sub_add_eq_add_sub] at hsum

theorem spaced_before (hle : due ≤ now) (hprompt : now < due + 60) (hbefore : now < s.anchor (now + 1)) :
    s.Spaced due (s.calculateNextRunAt (now + 1)) ↔ s.InStep due now := by
  have hbounds := anchor_bounds s (now + 1)
  have hafter : Beats.after (s.anchor 0) day due = s.anchor (now + 1) :=
    after_anchor (now + 1) (by omega) (by omega)
  rw [calculateNextRunAt_eq, if_pos hbefore, Spaced, InStep, hafter]
  simp only [if_pos hbefore]
  split
  · exact Iff.rfl
  · rw [eq_comm, min_eq_right_iff]

theorem spaced_later (h : s.WholeMinutes) (hdue : due = s.calculateNextRunAt x) (hle : due ≤ now) (hprompt : now < due + 60)
    (hlater : s.anchor (now + 1) ≤ now) :
    s.Spaced due (s.calculateNextRunAt (now + 1)) ↔ s.InStep due now := by
  have hbounds := anchor_bounds s (now + 1)
  have hpos := intervalSeconds_pos (s := s)
  have haligned := dvd_of_calculate h hdue (now + 1)
  have hanchor : s.anchor (now + 1) ≤ due := by omega
  have hnot : ¬now < s.anchor (now + 1) := by omega
  have hafter : Beats.after (s.anchor 0) day due = s.anchor (now + 1) + day :=
    after_anchor_tomorrow (now + 1) hanchor (by omega)
  have hbeat := Beats.dvd_after (s.anchor (now + 1)) s.intervalSeconds now
  -- the next due time is one interval later if and only if the due time counts from this start time
  have hone : Beats.after (s.anchor (now + 1)) s.intervalSeconds now = due + s.intervalSeconds ↔
      s.intervalSeconds ∣ due - s.anchor (now + 1) := by
    constructor
    · intro heq
      rw [heq, add_sub_right_comm] at hbeat
      exact (dvd_add_left (dvd_refl _)).1 hbeat
    · intro hdvd
      apply Beats.after_eq (by omega) _ (by omega) (by omega)
      rw [add_sub_right_comm]
      exact dvd_add hdvd (dvd_refl _)
  rw [calculateNextRunAt_eq, if_neg hnot, Spaced, InStep, hafter]
  simp only [if_neg hnot]
  by_cases hlong : day ≤ s.intervalSeconds
  · simp only [hone, hlong, if_true, true_or, and_true]
  · simp only [hlong, if_false, false_or]
    constructor
    · intro hmin
      have hdvd : s.intervalSeconds ∣ due - s.anchor (now + 1) := by
        rcases min_choice (due + s.intervalSeconds) (s.anchor (now + 1) + day) with heq | heq
        · exact hone.1 (hmin.trans heq)
        · rw [hmin, heq, add_sub_cancel_left] at hbeat
          exact dvd_of_dvd_day hdue hbeat (now + 1)
      refine ⟨hdvd, ?_⟩
      rw [hone.2 hdvd] at hmin
      exact min_eq_left_iff.1 hmin.symm
    · rintro ⟨hdvd, htomorrow⟩
      rw [hone.2 hdvd, min_eq_left htomorrow]

theorem spaced_iff (h : s.WholeMinutes) (hdue : due = s.calculateNextRunAt x) (hle : due ≤ now) (hprompt : now < due + 60) :
    s.Spaced due (s.calculateNextRunAt (now + 1)) ↔ s.InStep due now := by
  by_cases hbefore : now < s.anchor (now + 1)
  · exact spaced_before hle hprompt hbefore
  · exact spaced_later h hdue hle hprompt (by omega)

theorem runs_form : ∀ {clock : List Int} {due : Int}, (∃ x, due = s.calculateNextRunAt x) → ∀ r ∈ s.runs due clock,
    (∃ x, r.due = s.calculateNextRunAt x) ∧ r.due ≤ r.now ∧ r.next = s.calculateNextRunAt (r.now + 1)
  | [], _, _, r, hr => by cases hr
  | now :: clock, due, hdue, r, hr => by
    rw [runs] at hr
    split at hr
    · exact runs_form hdue r hr
    · rename_i hnow
      rcases List.mem_cons.1 hr with rfl | hr
      · exact ⟨hdue, not_lt.1 hnow, rfl⟩
      · exact runs_form ⟨now + 1, rfl⟩ r hr

def hourly (hour : Fin 24) (intervalHours : Rat) : Schedule := ⟨0, hour, 0, intervalHours⟩

def instant (days hours seconds : Int) : Int := days * day + hours * 3600 + seconds

end Schedule

end Dumb.AutoUpdate
