import Mathlib.Logic.Relation

/-!
# The download budget of the optimizer

`_read_sample` from `utils/rclone_optimizer.py`, for any number of samples at once. What a read returns, when the deadline
passes and when the job is cancelled is left open; a section under `budget_lock` is one step.
-/

namespace Dumb.Rclone

structure Sample where
  startupBytes : Int
  sizeBytes : Nat
  deriving DecidableEq

inductive Point where
  | opening
  | first
  | loop
  | reading
  | read
  | seeking
  | leaving
  deriving DecidableEq

inductive At where
  | waiting
  | busy (point : Point) (readLimit total : Int)
  | ended (total : Int)
  deriving DecidableEq

namespace Sample

variable (s : Sample)

def seekAllowance : Int := if 32 * 1024 * 1024 < s.sizeBytes then 1024 * 1024 else 0

def readLimit (remaining : Int) : Int :=
  min (min (max (s.startupBytes * 2) (64 * 1024 * 1024) + s.seekAllowance) remaining) s.sizeBytes

def sequentialLimit (readLimit : Int) : Int := max 1 (readLimit - s.seekAllowance)

def asked : At → Int
  | .busy .first limit _ => min (1024 * 1024) (s.sequentialLimit limit)
  | .busy .reading limit total => min (4 * 1024 * 1024) (s.sequentialLimit limit - total)
  | .busy .seeking _ _ => s.seekAllowance
  | _ => 0

/-- One step of a sample, with what remains of the budget. -/
inductive Move : Int → At → Int → At → Prop
  | reserve {r : Int} (h : 0 < s.readLimit r) :
    Move r .waiting (max 0 (r - s.readLimit r)) (.busy .opening (s.readLimit r) 0)
  | exhausted {r : Int} (h : s.readLimit r ≤ 0) : Move r .waiting (max 0 (r - s.readLimit r)) (.ended 0)
  | opened {r limit total : Int} : Move r (.busy .opening limit total) r (.busy .first limit total)
  | started {r limit total n : Int} (h : 0 < n) (hn : n ≤ s.asked (.busy .first limit total)) :
    Move r (.busy .first limit total) r (.busy .loop limit n)
  | next {r limit total : Int} (h : total < s.sequentialLimit limit) :
    Move r (.busy .loop limit total) r (.busy .reading limit total)
  -- The deadline may have passed.
  | stops {r limit total : Int} : Move r (.busy .loop limit total) r (.busy .read limit total)
  | block {r limit total n : Int} (h : 0 < n) (hn : n ≤ s.asked (.busy .reading limit total)) :
    Move r (.busy .reading limit total) r (.busy .loop limit (total + n))
  | endOfFile {r limit total : Int} : Move r (.busy .reading limit total) r (.busy .read limit total)
  | seek {r limit total : Int} (h : s.seekAllowance ≠ 0) (hroom : s.seekAllowance ≤ limit - total) :
    Move r (.busy .read limit total) r (.busy .seeking limit total)
  | seekData {r limit total n : Int} (h : 0 ≤ n) (hn : n ≤ s.asked (.busy .seeking limit total)) :
    Move r (.busy .seeking limit total) r (.busy .leaving limit (total + n))
  -- Without a seek, or with an exception, nothing more is read.
  | leave {r limit total : Int} {p : Point} (h : p ≠ .leaving) : Move r (.busy p limit total) r (.busy .leaving limit total)
  | release {r limit total : Int} : Move r (.busy .leaving limit total) (r + max 0 (limit - total)) (.ended total)

end Sample

structure Readers where
  remaining : Int
  samples : List (Sample × At)

def tally (f : Sample → At → Int) : List (Sample × At) → Int
  | [] => 0
  | (s, a) :: samples => f s a + tally f samples

namespace Readers

def start (budget : Nat) (samples : List Sample) : Readers := ⟨budget, samples.map fun s => (s, .waiting)⟩

inductive Step : Readers → Readers → Prop
  | move {before after : List (Sample × At)} {s : Sample} {r r' : Int} {a a' : At} (h : s.Move r a r' a') :
    Step ⟨r, before ++ (s, a) :: after⟩ ⟨r', before ++ (s, a') :: after⟩

abbrev Reach : Readers → Readers → Prop := Relation.ReflTransGen Step

def bytesRead : At → Int
  | .waiting => 0
  | .busy _ _ total => total
  | .ended total => total

def requested (w : Readers) : Int := tally (fun s a => bytesRead a + s.asked a) w.samples

def Ended (w : Readers) : Prop := ∀ x ∈ w.samples, ∃ total, x.2 = .ended total

end Readers

/-! ## What is reserved -/

/-- A sample has read, and asks for, no more than it has reserved. -/
def Fits (s : Sample) : At → Prop
  | .waiting => True
  | .busy p limit total =>
    0 < limit ∧ 0 ≤ total ∧ 0 ≤ s.asked (.busy p limit total) ∧ total + s.asked (.busy p limit total) ≤ limit ∧
      (p = .opening → total = 0)
  | .ended total => 0 ≤ total

def claimed : At → Int
  | .waiting => 0
  | .busy _ limit _ => limit
  | .ended total => total

theorem seekAllowance_nonneg (s : Sample) : 0 ≤ s.seekAllowance := by
  rw [Sample.seekAllowance]
  split <;> decide

theorem Fits.requested_le {s : Sample} {a : At} (h : Fits s a) : Readers.bytesRead a + s.asked a ≤ claimed a := by
  cases a with
  | waiting => exact Int.le_refl 0
  | busy p limit total => exact h.2.2.2.1
  | ended total => simp [Readers.bytesRead, Sample.asked, claimed]

/-- A step passes on what it does not keep. -/
theorem Sample.Move.keeps {s : Sample} {r r' : Int} {a a' : At} (h : s.Move r a r' a') (hr : 0 ≤ r) (hfits : Fits s a) :
    0 ≤ r' ∧ r' + claimed a' = r + claimed a ∧ Fits s a' := by
  have hseek := seekAllowance_nonneg s
  cases h with
  | reserve hpos =>
    have hle : s.readLimit r ≤ r := Int.le_trans (Int.min_le_left _ _) (Int.min_le_right _ _)
    simp only [claimed, Fits, Sample.asked]
    refine ⟨by omega, by omega, hpos, by omega, by omega, by omega, fun _ => trivial⟩
  | exhausted hnone =>
    have hzero : s.readLimit r = 0 := by
      simp only [Sample.readLimit] at hnone ⊢
      omega
    rw [hzero]
    simp only [claimed, Fits]
    omega
  | opened =>
    simp only [Fits, Sample.asked, Sample.sequentialLimit, claimed] at hfits ⊢
    obtain ⟨hlimit, -, -, -, htotal⟩ := hfits
    have := htotal trivial
    refine ⟨hr, trivial, hlimit, by omega, by omega, by omega, fun h => Point.noConfusion h⟩
  | started hpos hn | block hpos hn | seekData hpos hn =>
    simp only [Fits, Sample.asked, claimed] at hfits hn ⊢
    refine ⟨hr, trivial, by omega, by omega, by omega, by omega, fun h => Point.noConfusion h⟩
  | next hmore =>
    simp only [Fits, Sample.asked, Sample.sequentialLimit, claimed] at hfits hmore ⊢
    refine ⟨hr, trivial, by omega, by omega, by omega, by omega, fun h => Point.noConfusion h⟩
  | stops | endOfFile | seek =>
    simp only [Fits, Sample.asked, claimed] at hfits ⊢
    refine ⟨hr, trivial, by omega, by omega, by omega, by omega, fun h => Point.noConfusion h⟩
  | leave =>
    simp only [Fits, claimed] at hfits ⊢
    simp only [Sample.asked]
    refine ⟨hr, trivial, by omega, by omega, by omega, by omega, fun h => Point.noConfusion h⟩
  | release =>
    simp only [Fits, Sample.asked, claimed] at hfits ⊢
    omega

/-! ## Runs -/

theorem tally_append (f : Sample → At → Int) (xs ys : List (Sample × At)) : tally f (xs ++ ys) = tally f xs + tally f ys := by
  induction xs with
  | nil => simp [tally]
  | cons x xs ih => rw [List.cons_append, tally, ih, tally, Int.add_assoc]

theorem tally_mono {f g : Sample → At → Int} {xs : List (Sample × At)} (h : ∀ x ∈ xs, f x.1 x.2 ≤ g x.1 x.2) :
    tally f xs ≤ tally g xs := by
  induction xs with
  | nil => exact Int.le_refl 0
  | cons x xs ih =>
    have := h x List.mem_cons_self
    have := ih fun y hy => h y (List.mem_cons_of_mem x hy)
    simp only [tally]
    omega

structure Kept (budget : Nat) (w : Readers) : Prop where
  remaining : 0 ≤ w.remaining
  claims : w.remaining + tally (fun _ => claimed) w.samples = budget
  fits : ∀ x ∈ w.samples, Fits x.1 x.2

theorem kept_start (budget : Nat) (samples : List Sample) : Kept budget (Readers.start budget samples) := by
  refine ⟨Int.natCast_nonneg budget, ?_, fun x hx => ?_⟩
  · simp only [Readers.start]
    induction samples with
    | nil => simp [tally]
    | cons s samples ih => simpa [tally, claimed] using ih
  · obtain ⟨s, -, rfl⟩ := List.mem_map.1 hx
    trivial

theorem Kept.step {budget : Nat} {w w' : Readers} (hw : Kept budget w) (h : Readers.Step w w') : Kept budget w' := by
  obtain ⟨hmove⟩ := h
  rename_i before after s r r' a a'
  have hclaims := hw.claims
  obtain ⟨hr, hsame, hfits⟩ := hmove.keeps hw.remaining (hw.fits (s, a) (by simp))
  refine ⟨hr, ?_, fun x hx => ?_⟩
  · simp only [tally_append, tally] at hclaims ⊢
    omega
  · rcases List.mem_append.1 hx with hx | hx
    · exact hw.fits x (List.mem_append_left _ hx)
    · rcases List.mem_cons.1 hx with rfl | hx
      · exact hfits
      · exact hw.fits x (List.mem_append_right _ (List.mem_cons_of_mem _ hx))

theorem Kept.reach {budget : Nat} {w w' : Readers} (hw : Kept budget w) (h : Readers.Reach w w') : Kept budget w' := by
  induction h with
  | refl => exact hw
  | tail _ hstep ih => exact ih.step hstep

/-- The budget is never overdrawn, and it is down by what was read when all samples have ended. -/
theorem budget_kept (budget : Nat) (samples : List Sample) {w : Readers}
    (h : Readers.Reach (Readers.start budget samples) w) :
    0 ≤ w.remaining ∧ w.requested ≤ budget ∧
      (w.Ended → w.remaining = budget - tally (fun _ => Readers.bytesRead) w.samples) := by
  have hw := (kept_start budget samples).reach h
  have hremaining := hw.remaining
  have hclaims := hw.claims
  refine ⟨hremaining, ?_, fun hended => ?_⟩
  · have hle : w.requested ≤ tally (fun _ => claimed) w.samples := tally_mono fun x hx => (hw.fits x hx).requested_le
    omega
  · have hread : tally (fun _ => Readers.bytesRead) w.samples = tally (fun _ => claimed) w.samples := by
      apply Int.le_antisymm
      all_goals
        apply tally_mono
        intro x hx
        obtain ⟨total, htotal⟩ := hended x hx
        rw [htotal]
        exact Int.le_refl total
    omega

/-- One sample of ten bytes, of which seven come. -/
theorem budget_kept_one :
    Readers.Reach (Readers.start 100 [⟨0, 10⟩]) ⟨93, [(⟨0, 10⟩, .ended 7)]⟩ ∧ (93 : Int) = (100 : Nat) - (7 + 0) := by
  let s : Sample := ⟨0, 10⟩
  have step {r r' : Int} {a a' : At} (h : s.Move r a r' a') : Readers.Step ⟨r, [] ++ (s, a) :: []⟩ ⟨r', [] ++ (s, a') :: []⟩ :=
    .move h
  have hreach : Readers.Reach (Readers.start 100 [s]) ⟨93, [(s, .ended 7)]⟩ :=
    ((((Relation.ReflTransGen.single (step (.reserve (r := 100) (by decide)))).tail
      (step .opened)).tail (step (.started (n := 7) (by decide) (by decide)))).tail
      (step (.leave (by decide)))).tail (step .release)
  exact ⟨hreach, (budget_kept 100 [s] hreach).2.2 fun x hx => ⟨7, by rw [List.mem_singleton.1 hx]⟩⟩

/-! ## The end of a run -/

/-- More than the steps that a sample has before it. -/
def Sample.ahead (s : Sample) : At → Nat
  | .waiting => 2 * s.sizeBytes + 10
  | .busy .opening limit _ => 2 * (s.sequentialLimit limit).toNat + 7
  | .busy .first limit _ => 2 * (s.sequentialLimit limit).toNat + 6
  | .busy .loop limit total => 2 * (s.sequentialLimit limit - total).toNat + 5
  | .busy .reading limit total => 2 * (s.sequentialLimit limit - total).toNat + 4
  | .busy .read _ _ => 3
  | .busy .seeking _ _ => 2
  | .busy .leaving _ _ => 1
  | .ended _ => 0

theorem Sample.Move.ahead_lt {s : Sample} {r r' : Int} {a a' : At} (h : s.Move r a r' a') : s.ahead a' < s.ahead a := by
  have hseek := seekAllowance_nonneg s
  cases h with
  | reserve hpos =>
    have hsize : s.readLimit r ≤ s.sizeBytes := Int.min_le_right _ _
    simp only [Sample.ahead, Sample.sequentialLimit]
    omega
  | started hpos hn | block hpos hn =>
    simp only [Sample.ahead, Sample.asked] at hn ⊢
    omega
  | @leave _ _ p hp => cases p <;> simp_all [Sample.ahead]
  | _ =>
    simp only [Sample.ahead]
    omega

theorem Sample.move_of_busy (s : Sample) (r limit total : Int) (p : Point) : ∃ r' a', s.Move r (.busy p limit total) r' a' := by
  by_cases hp : p = .leaving
  · subst hp
    exact ⟨_, _, .release⟩
  · exact ⟨_, _, .leave hp⟩

/-- No run of the readers goes on for ever, and only where all samples have ended is there no step left. -/
theorem readers_end : (WellFounded fun w' w => Readers.Step w w') ∧ ∀ w : Readers, (∀ w', ¬Readers.Step w w') ↔ w.Ended := by
  refine ⟨Subrelation.wf (fun {w' w} h => ?_) (measure fun w : Readers => (w.samples.map fun x => x.1.ahead x.2).sum).wf,
    fun w => ⟨fun hstuck x hx => ?_, fun hended w' h => ?_⟩⟩
  · obtain ⟨hmove⟩ := h
    simpa [measure, invImage, InvImage, WellFoundedRelation.rel] using hmove.ahead_lt
  · obtain ⟨before, after, hsplit⟩ := List.append_of_mem hx
    obtain ⟨s, a⟩ := x
    obtain ⟨r, samples⟩ := w
    subst hsplit
    cases a with
    | waiting =>
      by_cases hpos : 0 < s.readLimit r
      · exact absurd (.move (.reserve hpos)) (hstuck _)
      · exact absurd (.move (.exhausted (Int.not_lt.1 hpos))) (hstuck _)
    | busy p limit total =>
      obtain ⟨r', a', hmove⟩ := s.move_of_busy r limit total p
      exact absurd (.move hmove) (hstuck _)
    | ended total => exact ⟨total, rfl⟩
  · obtain ⟨hmove⟩ := h
    obtain ⟨total, rfl⟩ := hended _ (List.mem_append_right _ List.mem_cons_self)
    cases hmove

end Dumb.Rclone
