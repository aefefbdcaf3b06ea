import Mathlib.Data.Fintype.Card
import Mathlib.Data.List.Basic
import Mathlib.Logic.Relation
import Mathlib.Order.WellFoundedSet
import Dumb.Lib.Raise

/-!
# Threads that wait for locks and for each other's services

A thread is the list of what it is still to do: it takes and gives back locks, waits for services, and brings services up.
A deadlock is a set of threads that wait for each other. It is ruled out where no held lock leads back to itself, through what
its holders are still to take before they give it back.
-/

namespace Waits

inductive Act (κ σ : Type) where
  | acquire (l : κ)
  | release (l : κ)
  | await (s : σ)
  | started (s : σ)
  | stopped (s : σ)
  deriving DecidableEq

structure Actor (κ σ : Type) where
  held : List κ
  rest : List (Act κ σ)

structure State (κ σ : Type) where
  up : List σ
  actors : List (Actor κ σ)

section

variable {κ σ : Type} [DecidableEq κ] [DecidableEq σ]

namespace State

def Free (w : State κ σ) (i : Nat) (l : κ) : Prop :=
  ∀ j < w.actors.length, j ≠ i → ∀ b ∈ w.actors[j]?, l ∉ b.held

instance (w : State κ σ) (i : Nat) (l : κ) : Decidable (w.Free i l) := by
  unfold Free
  infer_instance

def step (reentrant : κ → Bool) (w : State κ σ) (i : Nat) : State κ σ :=
  match w.actors[i]? with
  | none => w
  | some a =>
    match a.rest with
    | [] => w
    | .acquire l :: rest =>
      if w.Free i l ∧ (l ∈ a.held → reentrant l = true) then { w with actors := w.actors.set i ⟨l :: a.held, rest⟩ } else w
    | .release l :: rest => { w with actors := w.actors.set i ⟨a.held.erase l, rest⟩ }
    | .await s :: rest => if s ∈ w.up then { w with actors := w.actors.set i ⟨a.held, rest⟩ } else w
    | .started s :: rest => ⟨s :: w.up, w.actors.set i ⟨a.held, rest⟩⟩
    | .stopped s :: rest => ⟨w.up.filter (· ≠ s), w.actors.set i ⟨a.held, rest⟩⟩

/-- What is next is a lock that another of these actors holds, or a service that one of them is to bring up. -/
def Stuck (w : State κ σ) (S : List Nat) (i : Nat) : List (Act κ σ) → Prop
  | .acquire l :: _ => ∃ j ∈ S, j ≠ i ∧ ∃ b ∈ w.actors[j]?, l ∈ b.held
  | .await s :: _ => s ∉ w.up ∧ ∃ j ∈ S, ∃ b ∈ w.actors[j]?, .started s ∈ b.rest
  | _ => False

instance (w : State κ σ) (S : List Nat) (i : Nat) (acts : List (Act κ σ)) : Decidable (w.Stuck S i acts) := by
  unfold Stuck
  split <;> infer_instance

def Blocked (w : State κ σ) (S : List Nat) (i : Nat) : Prop := ∃ a ∈ w.actors[i]?, w.Stuck S i a.rest

instance (w : State κ σ) (S : List Nat) (i : Nat) : Decidable (w.Blocked S i) :=
  inferInstanceAs (Decidable (∃ a ∈ w.actors[i]?, w.Stuck S i a.rest))

def Deadlocked (w : State κ σ) : Prop := ∃ S, S ≠ [] ∧ ∀ i ∈ S, w.Blocked S i

end State

def holding (l : κ) : Nat → List (Act κ σ) → List (Act κ σ)
  | 0, _ => []
  | _ + 1, [] => []
  | d + 1, .acquire k :: acts => .acquire k :: holding l (if k = l then d + 2 else d + 1) acts
  | d + 1, .release k :: acts => .release k :: holding l (if k = l then d else d + 1) acts
  | d + 1, act :: acts => act :: holding l (d + 1) acts

/-- A start of the service, or of a service that such a start waits for, is still to take the lock. -/
inductive Pending (w : State κ σ) : σ → κ → Prop
  | takes {b : Actor κ σ} {before after : List (Act κ σ)} {s : σ} {m : κ} (hb : b ∈ w.actors) (hs : s ∉ w.up)
    (hrest : b.rest = before ++ .started s :: after) (hm : .acquire m ∈ before) (hheld : m ∉ b.held) : Pending w s m
  | waits {b : Actor κ σ} {before after : List (Act κ σ)} {s t : σ} {m : κ} (hb : b ∈ w.actors) (hs : s ∉ w.up)
    (hrest : b.rest = .await t :: before ++ .started s :: after) (h : Pending w t m) : Pending w s m

/-- Before it gives the one lock back, the actor is to take the other, or stands waiting for a start that is to take it. -/
def Needs (w : State κ σ) (a : Actor κ σ) (l m : κ) : Prop :=
  (m ∉ a.held ∧ .acquire m ∈ holding l (a.held.count l) a.rest) ∨
    ∃ s rest, a.rest = .await s :: rest ∧ Pending w s m

def Over (w : State κ σ) (l m : κ) : Prop := ∃ a ∈ w.actors, l ∈ a.held ∧ Needs w a l m

def Orderly (w : State κ σ) : Prop := ∀ l, ¬Relation.TransGen (Over w) l l

/-! ## Runs -/

def Exclusive (w : State κ σ) : Prop :=
  ∀ (i j : Nat) (a b : Actor κ σ) (l : κ), w.actors[i]? = some a → w.actors[j]? = some b → l ∈ a.held → l ∈ b.held → i = j

def Formed (needs : σ → List σ) (acts : List (Act κ σ)) : Prop :=
  ∀ before s after, acts = before ++ .started s :: after → ∀ t, .await t ∈ before → t ∈ needs s

omit [DecidableEq κ] [DecidableEq σ] in
theorem Formed.tail {needs : σ → List σ} {act : Act κ σ} {acts : List (Act κ σ)} (h : Formed needs (act :: acts)) :
    Formed needs acts := by
  intro before s after heq t ht
  exact h (act :: before) s after (by rw [heq, List.cons_append]) t (List.mem_cons_of_mem _ ht)

structure Inv (needs : σ → List σ) (w : State κ σ) : Prop where
  exclusive : Exclusive w
  formed : ∀ a ∈ w.actors, Formed needs a.rest

variable {needs : σ → List σ} {reentrant : κ → Bool} {w : State κ σ}

omit [DecidableEq κ] [DecidableEq σ] in
theorem Inv.set (h : Inv needs w) {i : Nat} {a a' : Actor κ σ} (up : List σ) (ha : w.actors[i]? = some a)
    (hheld : ∀ l ∈ a'.held, l ∈ a.held ∨ w.Free i l) (hformed : Formed needs a'.rest) :
    Inv needs ⟨up, w.actors.set i a'⟩ where
  exclusive := by
    have hother : ∀ (j : Nat) (b : Actor κ σ) (l : κ), w.actors[j]? = some b → j ≠ i → l ∈ a'.held → l ∉ b.held := by
      intro j b l hb hji hl hlb
      rcases hheld l hl with hla | hfree
      · exact hji (h.exclusive j i b a l hb ha hlb hla)
      · exact hfree j (List.getElem?_eq_some_iff.1 hb).1 hji b hb hlb
    intro j k b c l hb hc hlb hlc
    dsimp only at hb hc
    rw [List.getElem?_set] at hb hc
    split at hb <;> split at hc
    · rename_i hj hk
      rw [← hj, ← hk]
    · rename_i hj hk
      split at hb
      · cases hb
        exact absurd hlc (hother k c l hc (Ne.symm hk) hlb)
      · cases hb
    · rename_i hj hk
      split at hc
      · cases hc
        exact absurd hlb (hother j b l hb (Ne.symm hj) hlc)
      · cases hc
    · exact h.exclusive j k b c l hb hc hlb hlc
  formed := by
    intro b hb
    rcases List.mem_or_eq_of_mem_set hb with hb | rfl
    · exact h.formed b hb
    · exact hformed

theorem Inv.step (h : Inv needs w) (reentrant : κ → Bool) (i : Nat) : Inv needs (w.step reentrant i) := by
  rw [State.step]
  cases ha : w.actors[i]? with
  | none => exact h
  | some a =>
    have hformed := h.formed a (List.mem_of_getElem? ha)
    cases hrest : a.rest with
    | nil => simpa [hrest] using h
    | cons act rest =>
      rw [hrest] at hformed
      have hkeep : ∀ up, Inv needs ⟨up, w.actors.set i ⟨a.held, rest⟩⟩ :=
        fun up => h.set up ha (fun l hl => .inl hl) hformed.tail
      cases act with
      | acquire l =>
        simp only [hrest]
        split
        · rename_i hfree
          refine h.set w.up ha (fun k hk => ?_) hformed.tail
          rcases List.mem_cons.1 hk with rfl | hk
          · exact .inr hfree.1
          · exact .inl hk
        · exact h
      | release l =>
        simp only [hrest]
        exact h.set w.up ha (fun k hk => .inl (List.mem_of_mem_erase hk)) hformed.tail
      | await s =>
        simp only [hrest]
        split
        · exact hkeep w.up
        · exact h
      | started s =>
        simp only [hrest]
        exact hkeep _
      | stopped s =>
        simp only [hrest]
        exact hkeep _

/-! ## Deadlocks -/

omit [DecidableEq σ] in
theorem mem_holding_head {l m : κ} {d : Nat} {rest : List (Act κ σ)} (hd : 0 < d) :
    .acquire m ∈ holding l d (.acquire m :: rest) := by
  obtain ⟨d, rfl⟩ := Nat.exists_eq_succ_of_ne_zero hd.ne'
  exact List.mem_cons_self

def Acyclic (needs : σ → List σ) : Prop := ∀ s, ¬Relation.TransGen (fun s t => t ∈ needs s) s s

omit [DecidableEq κ] [DecidableEq σ] in
theorem wellFoundedOn_started (hneeds : Acyclic needs) (w : State κ σ) :
    {s | ∃ b ∈ w.actors, .started s ∈ b.rest}.WellFoundedOn fun t s => Relation.TransGen (fun s t => t ∈ needs s) s t := by
  have hstrict : IsStrictOrder σ fun t s => Relation.TransGen (fun s t => t ∈ needs s) s t :=
    { irrefl := hneeds, trans := fun _ _ _ hab hbc => hbc.trans hab }
  apply Set.Finite.wellFoundedOn
  apply (List.finite_toSet (w.actors.flatMap fun b => b.rest.filterMap fun act => match act with
    | .started s => some s
    | _ => none)).subset
  rintro s ⟨b, hb, hs⟩
  exact List.mem_flatMap.2 ⟨b, hb, List.mem_filterMap.2 ⟨_, hs, rfl⟩⟩

omit [DecidableEq κ] [DecidableEq σ] in
theorem pending_of_blocked (h : Inv needs w) (hneeds : Acyclic needs) {S : List Nat} (hS : ∀ i ∈ S, w.Blocked S i) (s : σ)
    (hs : s ∉ w.up) (hstart : ∃ j ∈ S, ∃ b ∈ w.actors[j]?, .started s ∈ b.rest) :
    ∃ m, Pending w s m ∧ ∃ k ∈ S, ∃ c ∈ w.actors[k]?, m ∈ c.held := by
  have hstarted : s ∈ {s | ∃ b ∈ w.actors, .started s ∈ b.rest} := by
    obtain ⟨j, -, b, hb, hstart⟩ := hstart
    exact ⟨b, List.mem_of_getElem? hb, hstart⟩
  revert hs hstart
  apply (wellFoundedOn_started hneeds w).induction hstarted
  intro s _ ih hs hstart
  obtain ⟨j, hj, b, hb, hstart⟩ := hstart
  have hmem := List.mem_of_getElem? hb
  obtain ⟨b', hb', hblocked⟩ := hS j hj
  obtain rfl : b' = b := Option.some.inj (hb'.symm.trans hb)
  cases hrest : b'.rest with
  | nil => simp [hrest, State.Stuck] at hblocked
  | cons act rest =>
    have hlater : act ≠ .started s → ∃ before after, b'.rest = act :: before ++ .started s :: after := by
      intro hne
      rw [hrest] at hstart
      obtain ⟨before, after, heq⟩ := List.append_of_mem ((List.mem_cons.1 hstart).resolve_left (Ne.symm hne))
      exact ⟨before, after, by rw [hrest, heq, List.cons_append]⟩
    cases act with
    | acquire m =>
      simp only [hrest, State.Stuck] at hblocked
      obtain ⟨k, hk, hkj, c, hc, hm⟩ := hblocked
      obtain ⟨before, after, heq⟩ := hlater nofun
      have hheld : m ∉ b'.held := fun hm' => hkj (h.exclusive k j c b' m hc hb hm hm')
      exact ⟨m, .takes hmem hs heq List.mem_cons_self hheld, k, hk, c, hc, hm⟩
    | await t =>
      simp only [hrest, State.Stuck] at hblocked
      obtain ⟨before, after, heq⟩ := hlater nofun
      have ht : t ∈ needs s := h.formed b' hmem (.await t :: before) s after heq t List.mem_cons_self
      have hstarted : ∃ b ∈ w.actors, .started t ∈ b.rest := by
        obtain ⟨k, -, c, hc, hstarted⟩ := hblocked.2
        exact ⟨c, List.mem_of_getElem? hc, hstarted⟩
      obtain ⟨m, hm, hholder⟩ := ih t hstarted (.single ht) hblocked.1 hblocked.2
      exact ⟨m, .waits hmem hs heq hm, hholder⟩
    | release l => simp [hrest, State.Stuck] at hblocked
    | started t => simp [hrest, State.Stuck] at hblocked
    | stopped t => simp [hrest, State.Stuck] at hblocked

omit [DecidableEq σ] in
theorem over_of_blocked (h : Inv needs w) (hneeds : Acyclic needs) {S : List Nat}
    (hS : ∀ i ∈ S, w.Blocked S i) {i : Nat} (hi : i ∈ S) : ∃ a ∈ w.actors[i]?, ∃ m, (∀ l ∈ a.held, Over w l m) ∧
      ∃ k ∈ S, ∃ c ∈ w.actors[k]?, m ∈ c.held := by
  obtain ⟨a, ha, hblocked⟩ := hS i hi
  have hmem := List.mem_of_getElem? ha
  refine ⟨a, ha, ?_⟩
  cases hrest : a.rest with
  | nil => simp [hrest, State.Stuck] at hblocked
  | cons act rest =>
    cases act with
    | acquire m =>
      simp only [hrest, State.Stuck] at hblocked
      obtain ⟨k, hk, hki, c, hc, hm⟩ := hblocked
      have hheld : m ∉ a.held := fun hm' => hki (h.exclusive k i c a m hc ha hm hm')
      refine ⟨m, fun l hl => ⟨a, hmem, hl, .inl ⟨hheld, ?_⟩⟩, k, hk, c, hc, hm⟩
      rw [hrest]
      exact mem_holding_head (List.count_pos_iff.2 hl)
    | await s =>
      simp only [hrest, State.Stuck] at hblocked
      obtain ⟨m, hm, hholder⟩ := pending_of_blocked h hneeds hS s hblocked.1 hblocked.2
      exact ⟨m, fun l hl => ⟨a, hmem, hl, .inr ⟨s, rest, hrest, hm⟩⟩, hholder⟩
    | release l => simp [hrest, State.Stuck] at hblocked
    | started t => simp [hrest, State.Stuck] at hblocked
    | stopped t => simp [hrest, State.Stuck] at hblocked

omit [DecidableEq σ] in
theorem Orderly.not_deadlocked [Finite κ] (horderly : Orderly w) (h : Inv needs w)
    (hneeds : Acyclic needs) : ¬w.Deadlocked := by
  rintro ⟨S, hne, hS⟩
  have hirrefl : Std.Irrefl (Function.swap (Relation.TransGen (Over w))) := ⟨horderly⟩
  have htrans : IsTrans κ (Function.swap (Relation.TransGen (Over w))) := ⟨fun _ _ _ hab hbc => hbc.trans hab⟩
  have hwf : WellFounded (Function.swap (Relation.TransGen (Over w))) := Finite.wellFounded_of_trans_of_irrefl _
  have hheld : ∃ m, ∃ k ∈ S, ∃ c ∈ w.actors[k]?, m ∈ c.held := by
    obtain ⟨i, hi⟩ := List.exists_mem_of_ne_nil S hne
    obtain ⟨a, -, m, -, hm⟩ := over_of_blocked h hneeds hS hi
    exact ⟨m, hm⟩
  -- The last of the held locks would be over another one.
  obtain ⟨m, ⟨k, hk, c, hc, hm⟩, hlast⟩ := hwf.has_min {m | ∃ k ∈ S, ∃ c ∈ w.actors[k]?, m ∈ c.held} hheld
  obtain ⟨c', hc', m', hover, hholder⟩ := over_of_blocked h hneeds hS hk
  obtain rfl : c' = c := Option.some.inj (hc'.symm.trans hc)
  exact hlast m' hholder (.single (hover m hm))

theorem not_deadlocked_of_orderly [Finite κ] (hneeds : Acyclic needs) (reentrant : κ → Bool)
    (hstart : Inv needs w) (hidle : ∀ a ∈ w.actors, a.held = []) (steps : List Nat)
    (horderly : Along (State.step reentrant) (fun w i => Orderly (w.step reentrant i)) w steps) :
    ¬(steps.foldl (State.step reentrant) w).Deadlocked := by
  have hover : Orderly w := by
    intro l hl
    obtain ⟨m, ⟨a, ha, hheld, -⟩, -⟩ := Relation.TransGen.head'_iff.1 hl
    rw [hidle a ha] at hheld
    exact absurd hheld List.not_mem_nil
  have hrun := horderly.foldl (I := fun w => Inv needs w ∧ Orderly w)
    (fun w i _ ho hw => ⟨hw.1.step reentrant i, ho⟩) ⟨hstart, hover⟩
  exact hrun.2.not_deadlocked hrun.1 hneeds

/-! ## Where nobody waits for a service -/

def Act.lock? : Act κ σ → Option κ
  | .acquire l => some l
  | _ => none

def Act.isAwait : Act κ σ → Bool
  | .await _ => true
  | _ => false

/-- Nobody stands waiting, and who holds a lock takes only higher ones before it gives it back. -/
def Ranked (rank : κ → Nat) (w : State κ σ) : Prop :=
  ∀ a ∈ w.actors, (∀ act ∈ a.rest.head?, act.isAwait = false) ∧
    ∀ l ∈ a.held, ∀ act ∈ holding l (a.held.count l) a.rest, ∀ m ∈ act.lock?, m ∈ a.held ∨ rank l < rank m

instance (rank : κ → Nat) (w : State κ σ) : Decidable (Ranked rank w) := by
  unfold Ranked
  infer_instance

omit [DecidableEq σ] in
theorem Ranked.orderly {rank : κ → Nat} (h : Ranked rank w) : Orderly w := by
  have hover : ∀ l m, Over w l m → rank l < rank m := by
    rintro l m ⟨a, ha, hl, ⟨hm, hacquire⟩ | ⟨s, rest, hrest, -⟩⟩
    · exact ((h a ha).2 l hl _ hacquire m rfl).resolve_left hm
    · have hwaits := (h a ha).1 (.await s) (by simp [hrest])
      cases hwaits
  intro l hl
  have hlt : ∀ m, Relation.TransGen (Over w) l m → rank l < rank m := by
    intro m hm
    induction hm with
    | single hm => exact hover l _ hm
    | tail _ hm ih => exact ih.trans (hover _ _ hm)
  exact lt_irrefl _ (hlt l hl)

end

end Waits
