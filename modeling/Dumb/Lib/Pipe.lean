import Mathlib.Logic.Relation
import Dumb.Lib.Raise

/-!
# A pipe between a writer and a reader

The writer has a text to write, the pipe holds so much of it, and the reader takes it out piece by piece until it raises
or comes to the end. Writer and reader take turns in any order.
-/

structure Reader (α σ ε : Type) where
  take : σ → α → Except ε σ
  close : σ → Except ε σ

namespace Reader

variable {α σ ε : Type}

inductive Status (σ ε : Type) where
  | reading (s : σ)
  | stopped (e : ε)
  | closed (s : σ)

structure State (α σ ε : Type) where
  left : List α
  pipe : List α
  status : Status σ ε

def Status.after (next : σ → Status σ ε) : Except ε σ → Status σ ε
  | .ok s => next s
  | .error e => .stopped e

variable (r : Reader α σ ε) (capacity : Nat)

inductive Step : State α σ ε → State α σ ε → Prop
  | write {a : α} {left pipe : List α} {status : Status σ ε} (h : pipe.length < capacity) :
      Step ⟨a :: left, pipe, status⟩ ⟨left, pipe ++ [a], status⟩
  | take {a : α} {left pipe : List α} {s : σ} :
      Step ⟨left, a :: pipe, .reading s⟩ ⟨left, pipe, .after .reading (r.take s a)⟩
  | close {s : σ} : Step ⟨[], [], .reading s⟩ ⟨[], [], .after .closed (r.close s)⟩

abbrev Reach : State α σ ε → State α σ ε → Prop := Relation.ReflTransGen (Step r capacity)

def start (s : σ) (text : List α) : State α σ ε := ⟨text, [], .reading s⟩

def readAll (s : σ) (text : List α) : Except ε σ := text.foldlM r.take s >>= r.close

/-! ## What holds in every run -/

def Follows (s : σ) (text : List α) (st : State α σ ε) : Prop :=
  match st.status with
  | .reading now => ∃ done, done ++ (st.pipe ++ st.left) = text ∧ done.foldlM r.take s = .ok now
  | .stopped e => r.readAll s text = .error e ∧ ∃ done taken now, done ++ (taken ++ (st.pipe ++ st.left)) = text ∧
      taken.length ≤ 1 ∧ done.foldlM r.take s = .ok now
  | .closed last => r.readAll s text = .ok last ∧ st.left = []

variable {r capacity} {s : σ} {text : List α} {st st' : State α σ ε}

theorem follows_start : r.Follows s text (start s text) := ⟨[], rfl, rfl⟩

theorem follows_take {a : α} {left pipe : List α} {now : σ} (h : r.Follows s text ⟨left, a :: pipe, .reading now⟩) :
    r.Follows s text ⟨left, pipe, .after .reading (r.take now a)⟩ := by
  obtain ⟨done, htext, hdone⟩ := h
  cases htake : r.take now a with
  | ok next =>
    have hdone' : (done ++ [a]).foldlM r.take s = .ok next := by
      rw [List.foldlM_append, hdone]
      simp [bind, Except.bind, pure, Except.pure, htake]
    exact ⟨done ++ [a], by simpa using htext, hdone'⟩
  | error e =>
    refine ⟨?_, done, [a], now, htext, Nat.le_refl _, hdone⟩
    rw [← htext, readAll, List.foldlM_append, hdone]
    simp [bind, Except.bind, htake]

theorem follows_close {now : σ} (h : r.Follows s text ⟨[], [], .reading now⟩) :
    r.Follows s text ⟨[], [], .after .closed (r.close now)⟩ := by
  obtain ⟨done, htext, hdone⟩ := h
  have hall : r.readAll s text = r.close now := by
    rw [← htext, readAll, List.append_nil, List.append_nil, hdone]
    rfl
  cases hclose : r.close now with
  | ok last => exact ⟨hall.trans hclose, rfl⟩
  | error e => exact ⟨hall.trans hclose, done, [], now, htext, Nat.zero_le _, hdone⟩

theorem follows_step (hstep : Step r capacity st st') (h : r.Follows s text st) : r.Follows s text st' := by
  cases hstep with
  | @write a left pipe status hroom =>
    cases status with
    | reading now =>
      obtain ⟨done, htext, hdone⟩ := h
      exact ⟨done, by simpa using htext, hdone⟩
    | stopped e =>
      obtain ⟨hall, done, taken, now, htext, htaken, hdone⟩ := h
      exact ⟨hall, done, taken, now, by simpa using htext, htaken, hdone⟩
    | closed last => cases h.2
  | take => exact follows_take h
  | close => exact follows_close h

theorem pipe_step (hstep : Step r capacity st st') (h : st.pipe.length ≤ capacity) : st'.pipe.length ≤ capacity := by
  cases hstep with
  | write hroom =>
    rw [List.length_append]
    exact hroom
  | take => exact Nat.le_of_succ_le h
  | close => exact h

theorem pipe_reach (h : Reach r capacity (start s text) st) : st.pipe.length ≤ capacity := by
  induction h with
  | refl => exact Nat.zero_le _
  | tail _ hstep ih => exact pipe_step hstep ih

theorem follows_reach (h : Reach r capacity (start s text) st) : r.Follows s text st := by
  induction h with
  | refl => exact follows_start
  | tail _ hstep ih => exact follows_step hstep ih

/-! ## Every run ends -/

def State.turns (st : State α σ ε) : Nat :=
  2 * st.left.length + st.pipe.length + match st.status with
    | .reading _ => 1
    | _ => 0

theorem turns_step (hstep : Step r capacity st st') : st'.turns < st.turns := by
  cases hstep with
  | write =>
    simp only [State.turns, List.length_cons, List.length_append, List.length_nil]
    omega
  | @take a left pipe now =>
    cases htake : r.take now a with
    | ok next => simp [State.turns, Status.after]
    | error e =>
      simp only [State.turns, Status.after, List.length_cons]
      omega
  | @close now =>
    cases hclose : r.close now <;> simp [State.turns, Status.after]

theorem exists_end (st : State α σ ε) : ∃ st', Reach r capacity st st' ∧ ∀ st'', ¬Step r capacity st' st'' := by
  induction hn : st.turns using Nat.strongRecOn generalizing st with
  | _ n ih =>
    by_cases hnext : ∃ st', Step r capacity st st'
    · obtain ⟨st', hstep⟩ := hnext
      obtain ⟨last, hreach, hend⟩ := ih st'.turns (hn ▸ turns_step hstep) st' rfl
      exact ⟨last, .head hstep hreach, hend⟩
    · exact ⟨st, .refl, fun st'' hstep => hnext ⟨st'', hstep⟩⟩

theorem step_of_reading (hcap : 0 < capacity) {left pipe : List α} {now : σ} :
    ∃ st', Step r capacity ⟨left, pipe, .reading now⟩ st' := by
  cases pipe with
  | cons a pipe => exact ⟨_, .take⟩
  | nil =>
    cases left with
    | nil => exact ⟨_, .close⟩
    | cons a left => exact ⟨_, .write hcap⟩

/-! ## A reader that does not raise -/

theorem closed_of_readAll {last : σ} (hcap : 0 < capacity) (hall : r.readAll s text = .ok last)
    (h : Reach r capacity (start s text) st) (hend : ∀ st', ¬Step r capacity st st') :
    st.status = .closed last ∧ st.left = [] := by
  have hfollows := follows_reach h
  obtain ⟨left, pipe, status⟩ := st
  cases status with
  | reading now =>
    obtain ⟨st', hstep⟩ := step_of_reading hcap
    exact absurd hstep (hend st')
  | stopped e =>
    have hstop := hfollows.1
    rw [hall] at hstop
    cases hstop
  | closed now =>
    have hsame := hfollows.1
    rw [hall] at hsame
    cases hsame
    exact ⟨rfl, hfollows.2⟩

theorem exists_stopped {e : ε} (hcap : 0 < capacity) (hall : r.readAll s text = .error e) :
    ∃ st, Reach r capacity (start s text) st ∧ st.status = .stopped e ∧ ∀ st', ¬Step r capacity st st' := by
  obtain ⟨st, hreach, hend⟩ := @exists_end _ _ _ r capacity (start s text)
  have hfollows := follows_reach hreach
  obtain ⟨left, pipe, status⟩ := st
  cases status with
  | reading now =>
    obtain ⟨st', hstep⟩ := step_of_reading hcap
    exact absurd hstep (hend st')
  | stopped e' =>
    have hstop := hfollows.1
    rw [hall] at hstop
    cases hstop
    exact ⟨_, hreach, rfl, hend⟩
  | closed last =>
    have hlast := hfollows.1
    rw [hall] at hlast
    cases hlast

theorem never_stopped_iff (hcap : 0 < capacity) :
    (∀ st, Reach r capacity (start s text) st → ∀ e, st.status ≠ .stopped e) ↔ ∃ last, r.readAll s text = .ok last := by
  constructor
  · intro hnever
    cases hall : r.readAll s text with
    | ok last => exact ⟨last, rfl⟩
    | error e =>
      obtain ⟨st, hreach, hstatus, -⟩ := exists_stopped hcap hall
      exact absurd hstatus (hnever st hreach e)
  · rintro ⟨last, hall⟩ st hreach e hstatus
    have hfollows := follows_reach hreach
    rw [Follows, hstatus] at hfollows
    rw [hall] at hfollows
    cases hfollows.1

theorem step_of_left {last : σ} (hcap : 0 < capacity) (hall : r.readAll s text = .ok last)
    (h : Reach r capacity (start s text) st) (hleft : st.left ≠ []) : ∃ st', Step r capacity st st' := by
  by_contra hnone
  exact hleft (closed_of_readAll hcap hall h fun st' hstep => hnone ⟨st', hstep⟩).2

theorem exists_blocked {before after : List α} {e : ε} (hcap : 0 < capacity) (hstop : before.foldlM r.take s = .error e)
    (hlong : capacity < after.length) : ∃ st, Reach r capacity (start s (before ++ after)) st ∧ st.left ≠ [] ∧
      ∀ st', ¬Step r capacity st st' := by
  have hall : r.readAll s (before ++ after) = .error e := by
    rw [readAll, List.foldlM_append, hstop]
    rfl
  obtain ⟨st, hreach, hstatus, hend⟩ := exists_stopped hcap hall
  refine ⟨st, hreach, fun hleft => ?_, hend⟩
  have hfollows := follows_reach hreach
  rw [Follows, hstatus] at hfollows
  obtain ⟨-, done, taken, now, htext, htaken, hdone⟩ := hfollows
  have hlength := congrArg List.length htext
  have hpipe := pipe_reach hreach
  simp only [hleft, List.append_nil, List.length_append] at hlength
  -- The reader has got beyond the piece it raises at.
  have hpast : before <+: done :=
    List.prefix_of_prefix_length_le (List.prefix_append before after) (htext ▸ List.prefix_append done _) (by omega)
  obtain ⟨more, rfl⟩ := hpast
  rw [List.foldlM_append, hstop] at hdone
  cases hdone

/-! ## Reading line by line -/

section
variable {γ : Type} (handle : γ → List α → Except ε γ) (ends : α → Bool)

def byLine : Reader α (List α × γ) ε where
  take now a :=
    if ends a then (handle now.2 (now.1 ++ [a])).map fun g => ([], g) else .ok (now.1 ++ [a], now.2)
  close now := if now.1.isEmpty then .ok now else (handle now.2 now.1).map fun g => ([], g)

def linesAfter (now : List α) : List α → List (List α)
  | [] => if now.isEmpty then [] else [now]
  | a :: rest => if ends a then (now ++ [a]) :: linesAfter [] rest else linesAfter (now ++ [a]) rest

theorem readAll_byLine (g : γ) (now text : List α) :
    (byLine handle ends).readAll (now, g) text = ((linesAfter ends now text).foldlM handle g).map fun g => ([], g) := by
  induction text generalizing now g with
  | nil =>
    cases now with
    | nil => rfl
    | cons a now =>
      cases hline : handle g (a :: now) <;>
        simp [readAll, byLine, linesAfter, hline, Except.map, bind, Except.bind, pure, Except.pure]
  | cons a rest ih =>
    cases hends : ends a with
    | false =>
      rw [linesAfter, hends, if_neg Bool.false_ne_true, ← ih]
      simp [readAll, byLine, hends, bind, Except.bind]
    | true =>
      rw [linesAfter, hends, if_pos rfl, List.foldlM_cons]
      cases hline : handle g (now ++ [a]) with
      | error e => simp [readAll, byLine, hends, hline, Except.map, bind, Except.bind]
      | ok g' =>
        have hrest := ih g' []
        simp only [readAll] at hrest
        simpa [readAll, byLine, hends, hline, Except.map, bind, Except.bind] using hrest

end

end Reader
