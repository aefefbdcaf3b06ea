import Mathlib.Data.List.Count
import Mathlib.Data.List.Forall2
import Mathlib.Data.List.Basic
import Dumb.Lib.Crash

/-!
# Programs that ask

What is outside answers a call or raises, and may do otherwise when it is called again. The calls are remembered, also
those that raised.
-/

namespace Crash

variable {Ω : Type} {Answer : Ω → Type} {ε σ α β : Type}

abbrev Outside (Answer : Ω → Type) (ε : Type) : Type := (o : Ω) → Nat → Except ε (Answer o)

structure Asked (Ω σ : Type) where
  calls : List Ω
  locals : σ

def Asked.ask (s : Asked Ω σ) (o : Ω) : Asked Ω σ := { s with calls := s.calls ++ [o] }

abbrev Asking (ε Ω σ α : Type) : Type := Prog ε Unit (Asked Ω σ) α

namespace Prog

def ask [DecidableEq Ω] (env : Outside Answer ε) (o : Ω) : Asking ε Ω σ (Answer o) := fun s fs =>
  match env o (s.calls.count o) with
  | .ok a => .done a (s.ask o) fs
  | .error e => .raised e (s.ask o) fs

def locals : Asking ε Ω σ σ := fun s fs => .done s.locals s fs

def assign (f : σ → σ) : Asking ε Ω σ Unit := modify fun s => { s with locals := f s.locals }

def staged [DecidableEq Ω] (env : Outside Answer ε) : List ((o : Ω) × (Answer o → Asking ε Ω σ Unit)) → Asking ε Ω σ Unit
  | [] => pure ()
  | ⟨o, k⟩ :: steps => do
    let a ← ask env o
    k a
    staged env steps

theorem bind_then (p : Asking ε Ω σ α) (f : α → Asking ε Ω σ β) {γ : Type} (g : β → Asking ε Ω σ γ) :
    p >>= f >>= g = p >>= fun a => f a >>= g := by
  funext s fs
  rw [run_bind, run_bind, run_bind]
  cases p s fs <;> rfl

theorem pure_then (a : α) (f : α → Asking ε Ω σ β) : pure a >>= f = f a := rfl

/-! ## What a program stays within -/

/-- Whichever way `p` ends, `F` relates where it started to where it ended. -/
def Within (F : Asked Ω σ → Asked Ω σ → Prop) (p : Asking ε Ω σ α) : Prop := ∀ s fs, F s (p s fs).state

/-- `F` may be gone through step by step. -/
structure Frame (F : Asked Ω σ → Asked Ω σ → Prop) : Prop where
  refl : ∀ s, F s s
  trans : ∀ {a b c}, F a b → F b c → F a c

variable {F : Asked Ω σ → Asked Ω σ → Prop}

theorem Frame.pure (hF : Frame F) (a : α) : Within F (pure a : Asking ε Ω σ α) := fun s _ => hF.refl s

theorem Frame.throw (hF : Frame F) (e : ε) : Within F (throw e : Asking ε Ω σ α) := fun s _ => hF.refl s

theorem Frame.locals (hF : Frame F) : Within F (locals : Asking ε Ω σ σ) := fun s _ => hF.refl s

theorem within_assign {f : σ → σ} (h : ∀ s, F s { s with locals := f s.locals }) : Within F (assign f : Asking ε Ω σ Unit) :=
  fun s _ => h s

variable {env : Outside Answer ε}

theorem within_ask [DecidableEq Ω] {o : Ω} (h : ∀ s, F s (s.ask o)) :
    Within F (ask env o : Asking ε Ω σ (Answer o)) := by
  intro s fs
  unfold ask
  split <;> exact h s

variable {p : Asking ε Ω σ α}

theorem Frame.bind (hF : Frame F) {f : α → Asking ε Ω σ β} (hp : Within F p) (hf : ∀ a, Within F (f a)) :
    Within F (p >>= f) := by
  intro s fs
  have hps := hp s fs
  rw [run_bind]
  cases hr : p s fs with
  | done a s' fs' =>
    rw [hr] at hps
    exact hF.trans hps (hf a s' fs')
  | raised e s' fs' =>
    rw [hr] at hps
    exact hps
  | died s' =>
    rw [hr] at hps
    exact hps

theorem Frame.tryExcept (hF : Frame F) {h : ε → Asking ε Ω σ α} (hp : Within F p) (hh : ∀ e, Within F (h e)) :
    Within F (tryExcept p h) := by
  intro s fs
  have hps := hp s fs
  unfold Prog.tryExcept
  cases hr : p s fs with
  | raised e s' fs' =>
    rw [hr] at hps
    exact hF.trans hps (hh e s' fs')
  | done a s' fs' =>
    rw [hr] at hps
    exact hps
  | died s' =>
    rw [hr] at hps
    exact hps

theorem Frame.forEach (hF : Frame F) {body : β → Asking ε Ω σ Unit} : ∀ {xs : List β}, (∀ x ∈ xs, Within F (body x)) →
    Within F (forEach body xs)
  | [], _ => hF.pure ()
  | x :: _, h => hF.bind (h x List.mem_cons_self) fun _ => hF.forEach fun y hy => h y (List.mem_cons_of_mem _ hy)

def Adds (P : Ω → Prop) (s s' : Asked Ω σ) : Prop := ∃ more, s'.calls = s.calls ++ more ∧ ∀ o ∈ more, P o

variable {P : Ω → Prop}

theorem Adds.of_eq {s s' : Asked Ω σ} (h : s'.calls = s.calls) : Adds P s s' := ⟨[], by simp [h], by simp⟩

theorem adds_ask {o : Ω} (h : P o) (s : Asked Ω σ) : Adds P s (s.ask o) := ⟨[o], rfl, by simpa using h⟩

theorem Adds.trans {a b c : Asked Ω σ} (h : Adds P a b) (h' : Adds P b c) : Adds P a c := by
  obtain ⟨more, hcalls, hmore⟩ := h
  obtain ⟨more', hcalls', hmore'⟩ := h'
  refine ⟨more ++ more', by rw [hcalls', hcalls, List.append_assoc], fun o ho => ?_⟩
  exact (List.mem_append.1 ho).elim (hmore o) (hmore' o)

theorem Adds.not_mem {s s' : Asked Ω σ} {o : Ω} (h : Adds P s s') (hs : o ∉ s.calls) (ho : ¬P o) : o ∉ s'.calls := by
  obtain ⟨more, hcalls, hmore⟩ := h
  rw [hcalls, List.mem_append]
  exact fun hmem => hmem.elim hs fun hmem => ho (hmore o hmem)

/-! ## Assertions -/

abbrev Ends (p : Asking ε Ω σ α) (Q : α → Asked Ω σ → Prop) (R : ε → Asked Ω σ → Prop) (s : Asked Ω σ) : Prop :=
  wp (fun _ => False) p Q R (fun _ => False) s

variable {s : Asked Ω σ} {A : Fate ε Unit → Prop} {R : ε → Asked Ω σ → Prop} {C : Asked Ω σ → Prop}

theorem wp_locals {Q : σ → Asked Ω σ → Prop} (h : Q s.locals s) : wp A locals Q R C s := fun _ hfs => ⟨h, hfs⟩

theorem wp_assign {f : σ → σ} {Q : Unit → Asked Ω σ → Prop} (h : Q () { s with locals := f s.locals }) :
    wp A (assign f) Q R C s := wp_modify h

theorem ends_ask [DecidableEq Ω] {o : Ω} {Q : Answer o → Asked Ω σ → Prop} (hok : ∀ a, env o (s.calls.count o) = .ok a → Q a (s.ask o))
    (herr : ∀ e, env o (s.calls.count o) = .error e → R e (s.ask o)) : Ends (ask env o) Q R s := by
  intro fs hfs
  unfold ask
  cases h : env o (s.calls.count o) with
  | ok a => exact ⟨hok a h, hfs⟩
  | error e => exact ⟨herr e h, hfs⟩

theorem wp_within {Q : α → Asked Ω σ → Prop} (h : wp A p Q R C s) (hF : Within F p) :
    wp A p (fun a s' => Q a s' ∧ F s s') (fun e s' => R e s' ∧ F s s') (fun s' => C s' ∧ F s s') s := by
  intro fs hfs
  have hends := h fs hfs
  have hstate := hF s fs
  cases hr : p s fs with
  | done a s' fs' =>
    rw [hr] at hends hstate
    exact ⟨⟨hends.1, hstate⟩, hends.2⟩
  | raised e s' fs' =>
    rw [hr] at hends hstate
    exact ⟨⟨hends.1, hstate⟩, hends.2⟩
  | died s' =>
    rw [hr] at hends hstate
    exact ⟨hends, hstate⟩

/-! ## What the steps of a list bring about -/

/-- Within `G`, what is done with the answer of `step` brings `D` about, wherever it is asked for after `s`, and `F` keeps it. -/
structure Brings (F G : Asked Ω σ → Asked Ω σ → Prop) (s : Asked Ω σ) (step : (o : Ω) × (Answer o → Asking ε Ω σ Unit))
    (D : Asked Ω σ → Prop) : Prop where
  within : ∀ a, Within G (step.2 a)
  ends : ∀ a s', F s s' → Ends (step.2 a) (fun _ s'' => D s'') (fun _ _ => False) (s'.ask step.1)
  keeps : ∀ s s', F s s' → D s → D s'

variable {G : Asked Ω σ → Asked Ω σ → Prop}

theorem Brings.later (hF : Frame F) {s s' : Asked Ω σ} {step : (o : Ω) × (Answer o → Asking ε Ω σ Unit)} {D : Asked Ω σ → Prop}
    (hs : F s s') (h : Brings F G s step D) : Brings F G s' step D where
  within := h.within
  ends a s'' hs'' := h.ends a s'' (hF.trans hs hs'')
  keeps := h.keeps

theorem ends_staged [DecidableEq Ω] (hF : Frame F) (hG : ∀ s s', G s s' → F s s' ∧ Adds P s s') :
    ∀ {steps : List ((o : Ω) × (Answer o → Asking ε Ω σ Unit))} {Ds : List (Asked Ω σ → Prop)} {s : Asked Ω σ},
    List.Forall₂ (Brings F G s) steps Ds → (∀ o ∈ steps.map Sigma.fst, ∀ s, F s (s.ask o)) →
    (steps.map Sigma.fst).Nodup → (∀ o ∈ steps.map Sigma.fst, o ∉ s.calls ∧ ¬P o) →
    Ends (staged env steps)
      (fun _ s' => F s s' ∧ (∀ o ∈ steps.map Sigma.fst, ∃ a, env o 0 = .ok a) ∧ Ds.Forall (· s'))
      (fun _ s' => F s s' ∧ ∃ o ∈ steps.map Sigma.fst, ∃ e, env o 0 = .error e) s
  | [], [], s, _, _, _, _ => wp_pure ⟨hF.refl s, fun o h => absurd h List.not_mem_nil, trivial⟩
  | ⟨o, k⟩ :: steps, D :: Ds, s, .cons hstep hsteps, hask, hdistinct, hnew => by
    rw [List.map_cons, List.nodup_cons] at hdistinct
    have hcount : s.calls.count o = 0 := List.count_eq_zero_of_not_mem (hnew o List.mem_cons_self).1
    have hasked : F s (s.ask o) := hask o List.mem_cons_self s
    apply wp_bind
    apply ends_ask
    · intro a ha
      rw [hcount] at ha
      apply wp_bind
      apply wp_mono (wp_within (hstep.ends a s (hF.refl s)) (hstep.within a))
      · rintro - s₁ ⟨hD, hs₁⟩
        obtain ⟨hF₁, hadds⟩ := hG _ _ hs₁
        have hstart : F s s₁ := hF.trans hasked hF₁
        have hrest : Ends (staged env steps) _ _ s₁ := ends_staged hF hG (hsteps.imp fun _ _ h => h.later hF hstart)
          (fun o' h => hask o' (List.mem_cons_of_mem _ h)) hdistinct.2 fun o' h => by
            have hne : o' ≠ o := fun heq => hdistinct.1 (heq ▸ h)
            obtain ⟨hcalls, hP⟩ := hnew o' (List.mem_cons_of_mem _ h)
            exact ⟨hadds.not_mem (by simpa [Asked.ask, hne] using hcalls) hP, hP⟩
        apply wp_mono hrest
        · rintro - s' ⟨hF', hok, hall⟩
          have hD' : (D :: Ds).Forall (· s') := (List.forall_cons _ _ _).2 ⟨hstep.keeps _ _ hF' hD, hall⟩
          exact ⟨hF.trans hstart hF', List.forall_mem_cons.2 ⟨⟨a, ha⟩, hok⟩, hD'⟩
        · rintro - s' ⟨hF', o', h, hraised⟩
          exact ⟨hF.trans hstart hF', o', List.mem_cons_of_mem _ h, hraised⟩
        · exact fun _ h => h
      · exact fun _ _ h => h.1.elim
      · exact fun _ h => h.1
    · intro e he
      rw [hcount] at he
      exact ⟨hasked, o, List.mem_cons_self, e, he⟩

end Prog

end Crash

/-! ## Programs that make calls

A program looks at the state, makes calls that change it, and may raise. Its trace has the state before and after each
call, so that what holds at every moment of a run is a statement about a list.
-/

namespace Py

inductive Script (σ κ δ ε α : Type) : Type where
  | ret (a : α)
  | raise (e : ε)
  | look (next : σ → Script σ κ δ ε α)
  | call (c : κ) (next : Except δ Unit → Script σ κ δ ε α)

namespace Script

variable {σ κ δ ε α β : Type}

def bind : Script σ κ δ ε α → (α → Script σ κ δ ε β) → Script σ κ δ ε β
  | ret a, f => f a
  | raise e, _ => raise e
  | look next, f => look fun s => (next s).bind f
  | call c next, f => call c fun r => (next r).bind f

instance : Monad (Script σ κ δ ε) where
  pure := ret
  bind := bind

def see (g : σ → α) : Script σ κ δ ε α := look fun s => ret (g s)

def act (f : δ → ε) (c : κ) : Script σ κ δ ε Unit :=
  call c fun
    | .ok () => ret ()
    | .error d => raise (f d)

def require (b : Bool) (e : ε) : Script σ κ δ ε Unit := if b then ret () else raise e

def orRaise (e : ε) : Option α → Script σ κ δ ε α
  | some a => ret a
  | none => raise e

def forEach (body : β → Script σ κ δ ε Unit) : List β → Script σ κ δ ε Unit
  | [] => ret ()
  | b :: bs => do
    body b
    forEach body bs

def fold (body : α → β → Script σ κ δ ε α) : α → List β → Script σ κ δ ε α
  | a, [] => ret a
  | a, b :: bs => do fold body (← body a b) bs

def attempt : Script σ κ δ ε α → Script σ κ δ ε (Except ε α)
  | ret a => ret (.ok a)
  | raise e => ret (.error e)
  | look next => look fun s => (next s).attempt
  | call c next => call c fun r => (next r).attempt

/-! ## Runs -/

structure Step (σ κ : Type) where
  before : σ
  call : κ
  after : σ

variable (exec : κ → σ → Except δ Unit × σ)

def run : Script σ κ δ ε α → σ → Except ε α × σ
  | ret a, s => (.ok a, s)
  | raise e, s => (.error e, s)
  | look next, s => (next s).run s
  | call c next, s => (next (exec c s).1).run (exec c s).2

def trace : Script σ κ δ ε α → σ → List (Step σ κ)
  | ret _, _ => []
  | raise _, _ => []
  | look next, s => (next s).trace s
  | call c next, s => ⟨s, c, (exec c s).2⟩ :: (next (exec c s).1).trace (exec c s).2

variable {exec}

@[simp] theorem run_pure (a : α) (s : σ) : run exec (pure a : Script σ κ δ ε α) s = (.ok a, s) := rfl

@[simp] theorem trace_pure (a : α) (s : σ) : trace exec (pure a : Script σ κ δ ε α) s = [] := rfl

@[simp] theorem run_see (g : σ → α) (s : σ) : run exec (see g : Script σ κ δ ε α) s = (.ok (g s), s) := rfl

@[simp] theorem trace_see (g : σ → α) (s : σ) : trace exec (see g : Script σ κ δ ε α) s = [] := rfl

theorem bind_assoc {γ : Type} (t : Script σ κ δ ε α) (f : α → Script σ κ δ ε β) (g : β → Script σ κ δ ε γ) :
    t >>= f >>= g = t >>= fun a => f a >>= g := by
  induction t with
  | ret a => rfl
  | raise e => rfl
  | look next ih => exact congrArg look (funext ih)
  | call c next ih => exact congrArg (call c) (funext ih)

theorem run_bind (t : Script σ κ δ ε α) (f : α → Script σ κ δ ε β) : ∀ s, run exec (t >>= f) s =
    match run exec t s with
    | (.ok a, s) => run exec (f a) s
    | (.error e, s) => (.error e, s) := by
  induction t with
  | ret a => exact fun s => rfl
  | raise e => exact fun s => rfl
  | look next ih => exact fun s => ih s s
  | call c next ih => exact fun s => ih _ _

theorem trace_bind (t : Script σ κ δ ε α) (f : α → Script σ κ δ ε β) : ∀ s, trace exec (t >>= f) s =
    trace exec t s ++ match run exec t s with
    | (.ok a, s) => trace exec (f a) s
    | (.error _, _) => [] := by
  induction t with
  | ret a => exact fun s => rfl
  | raise e => exact fun s => rfl
  | look next ih => exact fun s => ih s s
  | call c next ih => exact fun s => congrArg (_ :: ·) (ih _ _)

theorem run_attempt (t : Script σ κ δ ε α) : ∀ s, run exec t.attempt s = (.ok (run exec t s).1, (run exec t s).2) := by
  induction t with
  | ret a => exact fun s => rfl
  | raise e => exact fun s => rfl
  | look next ih => exact fun s => ih s s
  | call c next ih => exact fun s => ih _ _

theorem trace_attempt (t : Script σ κ δ ε α) : ∀ s, trace exec t.attempt s = trace exec t s := by
  induction t with
  | ret a => exact fun s => rfl
  | raise e => exact fun s => rfl
  | look next ih => exact fun s => ih s s
  | call c next ih => exact fun s => congrArg (_ :: ·) (ih _ _)

/-! ## What a program keeps -/

def Keeps (exec : κ → σ → Except δ Unit × σ) (C : κ → σ → Prop) (I : σ → Prop) (t : Script σ κ δ ε α) : Prop :=
  ∀ s, I s → (∀ step ∈ t.trace exec s, C step.call step.before) →
    (∀ step ∈ t.trace exec s, I step.after) ∧ I (t.run exec s).2

section
variable {C : κ → σ → Prop} {I : σ → Prop}

theorem keeps_ret (a : α) : Keeps exec C I (ret a : Script σ κ δ ε α) := fun _ hs _ => ⟨by simp [trace], hs⟩

theorem keeps_pure (a : α) : Keeps exec C I (pure a : Script σ κ δ ε α) := keeps_ret a

theorem keeps_raise (e : ε) : Keeps exec C I (raise e : Script σ κ δ ε α) := fun _ hs _ => ⟨by simp [trace], hs⟩

theorem keeps_call {c : κ} {next : Except δ Unit → Script σ κ δ ε α} (hcall : ∀ s, I s → C c s → I (exec c s).2)
    (hnext : ∀ s, I s → ∀ r, (exec c s).1 = r → Keeps exec C I (next r)) : Keeps exec C I (call c next) := by
  intro s hs h
  have hafter := hcall s hs (h _ List.mem_cons_self)
  obtain ⟨hsteps, hend⟩ := hnext s hs _ rfl _ hafter fun step hstep => h step (List.mem_cons_of_mem _ hstep)
  apply And.intro _ hend
  intro step hstep
  rcases List.mem_cons.1 hstep with rfl | hstep
  · exact hafter
  · exact hsteps step hstep

theorem keeps_act {f : δ → ε} {c : κ} (hcall : ∀ s, I s → C c s → I (exec c s).2) :
    Keeps exec C I (act f c : Script σ κ δ ε Unit) := by
  apply keeps_call hcall
  intro s hs r hr
  cases r with
  | ok u => exact keeps_ret ()
  | error d => exact keeps_raise (f d)

variable {f : α → Script σ κ δ ε β}

theorem Keeps.bind {t : Script σ κ δ ε α} (ht : Keeps exec C I t)
    (hf : ∀ a, Keeps exec C I (f a)) : Keeps exec C I (t >>= f) := by
  intro s hs h
  rw [trace_bind] at h ⊢
  rw [run_bind]
  obtain ⟨hsteps, hend⟩ := ht s hs fun step hstep => h step (List.mem_append_left _ hstep)
  cases hrun : t.run exec s with
  | mk r s' =>
    rw [hrun] at h hend
    cases r with
    | error e => exact ⟨by simpa using hsteps, hend⟩
    | ok a =>
      obtain ⟨hsteps', hend'⟩ := hf a s' hend fun step hstep => h step (List.mem_append_right _ hstep)
      apply And.intro _ hend'
      intro step hstep
      exact (List.mem_append.1 hstep).elim (hsteps step) (hsteps' step)

theorem Keeps.attempt {t : Script σ κ δ ε α} (h : Keeps exec C I t) : Keeps exec C I t.attempt := by
  intro s hs hsteps
  rw [trace_attempt] at hsteps ⊢
  rw [run_attempt]
  exact h s hs hsteps

theorem keeps_see_bind {g : σ → α} (h : ∀ s, I s → Keeps exec C I (f (g s))) :
    Keeps exec C I (see g >>= f) := fun s hs hsteps => h s hs s hs hsteps

theorem keeps_require_bind {b : Bool} {e : ε} {f : Unit → Script σ κ δ ε α} (h : b = true → Keeps exec C I (f ())) :
    Keeps exec C I (require b e >>= f) := by
  cases b with
  | false => exact keeps_raise e
  | true => exact h rfl

theorem keeps_orRaise_bind {x : Option α} {e : ε}
    (h : ∀ a, x = some a → Keeps exec C I (f a)) : Keeps exec C I (orRaise e x >>= f) := by
  cases x with
  | none => exact keeps_raise e
  | some a => exact h a rfl

theorem keeps_forEach {body : β → Script σ κ δ ε Unit} {bs : List β} (h : ∀ b ∈ bs, Keeps exec C I (body b)) :
    Keeps exec C I (forEach body bs) := by
  induction bs with
  | nil => exact keeps_ret ()
  | cons b bs ih =>
    apply Keeps.bind (h b List.mem_cons_self)
    intro _
    exact ih fun b hb => h b (List.mem_cons_of_mem _ hb)

end

/-! ## What a program comes to -/

/-- From `P` on, the program keeps `I` as above, and where it returns, `Q` holds of what it returns. -/
def Comes (exec : κ → σ → Except δ Unit × σ) (C : κ → σ → Prop) (I P : σ → Prop) (t : Script σ κ δ ε α)
    (Q : α → σ → Prop) : Prop :=
  ∀ s, P s → (∀ step ∈ t.trace exec s, C step.call step.before) →
    (∀ step ∈ t.trace exec s, I step.after) ∧ I (t.run exec s).2 ∧ ∀ a, (t.run exec s).1 = .ok a → Q a (t.run exec s).2

section
variable {C : κ → σ → Prop} {I J P : σ → Prop} {Q : α → σ → Prop} {R : β → σ → Prop}

theorem comes_ret {a : α} (hI : ∀ s, P s → I s) (h : ∀ s, P s → Q a s) :
    Comes exec C I P (ret a : Script σ κ δ ε α) Q := by
  intro s hs _
  apply And.intro (by simp [trace])
  apply And.intro (hI s hs)
  rintro b ⟨⟩
  exact h s hs

theorem comes_raise {e : ε} (hI : ∀ s, P s → I s) : Comes exec C I P (raise e : Script σ κ δ ε α) Q := by
  intro s hs _
  apply And.intro (by simp [trace])
  apply And.intro (hI s hs)
  rintro b ⟨⟩

variable {t : Script σ κ δ ε α}

theorem Keeps.comes (h : Keeps exec C J t) (hI : ∀ s, J s → I s) :
    Comes exec C I J t fun _ => J := by
  intro s hs hsteps
  obtain ⟨hafter, hend⟩ := h s hs hsteps
  exact ⟨fun step hstep => hI _ (hafter step hstep), hI _ hend, fun _ _ => hend⟩

theorem comes_act {f : δ → ε} {c : κ} (hcall : ∀ s, P s → C c s → J (exec c s).2) (hI : ∀ s, J s → I s) :
    Comes exec C I P (act f c : Script σ κ δ ε Unit) fun _ => J := by
  intro s hs h
  have hafter := hcall s hs (h _ List.mem_cons_self)
  unfold act at h ⊢
  rw [trace, run] at *
  cases hr : (exec c s).1 with
  | ok u =>
    apply And.intro
    · rintro step hstep
      rw [List.mem_singleton.1 hstep]
      exact hI _ hafter
    · exact ⟨hI _ hafter, fun _ _ => hafter⟩
  | error d =>
    apply And.intro
    · rintro step hstep
      rw [List.mem_singleton.1 hstep]
      exact hI _ hafter
    · exact ⟨hI _ hafter, nofun⟩

theorem Comes.bind {f : α → Script σ κ δ ε β} (ht : Comes exec C I P t Q)
    (hf : ∀ a, Comes exec C I (Q a) (f a) R) : Comes exec C I P (t >>= f) R := by
  intro s hs h
  rw [trace_bind] at h ⊢
  rw [run_bind]
  obtain ⟨hsteps, hI, hend⟩ := ht s hs fun step hstep => h step (List.mem_append_left _ hstep)
  cases hrun : t.run exec s with
  | mk r s' =>
    rw [hrun] at h hI hend
    cases r with
    | error e => exact ⟨by simpa using hsteps, hI, nofun⟩
    | ok a =>
      obtain ⟨hsteps', hend'⟩ := hf a s' (hend a rfl) fun step hstep => h step (List.mem_append_right _ hstep)
      apply And.intro _ hend'
      intro step hstep
      exact (List.mem_append.1 hstep).elim (hsteps step) (hsteps' step)

theorem comes_and {p : Prop} (h : p → Comes exec C I P t Q) :
    Comes exec C I (fun s => P s ∧ p) t Q := fun s hs => h hs.2 s hs.1

theorem comes_see_bind {g : σ → β} {f : β → Script σ κ δ ε α} (h : ∀ b, Comes exec C I P (f b) Q) :
    Comes exec C I P (see g >>= f) Q := fun s hs hsteps => h (g s) s hs hsteps

theorem comes_require_bind {b : Bool} {e : ε} {f : Unit → Script σ κ δ ε α} (hI : ∀ s, P s → I s)
    (h : b = true → Comes exec C I P (f ()) Q) : Comes exec C I P (require b e >>= f) Q := by
  cases b with
  | false => exact comes_raise hI
  | true => exact h rfl

theorem comes_orRaise_bind {x : Option β} {e : ε} {f : β → Script σ κ δ ε α} (hI : ∀ s, P s → I s)
    (h : ∀ b, x = some b → Comes exec C I P (f b) Q) : Comes exec C I P (orRaise e x >>= f) Q := by
  cases x with
  | none => exact comes_raise hI
  | some b => exact h b rfl

theorem comes_fold {body : α → β → Script σ κ δ ε α} {bs : List β} (hI : ∀ a s, Q a s → I s)
    (h : ∀ a, ∀ b ∈ bs, Comes exec C I (Q a) (body a b) Q) :
    ∀ {P : σ → Prop} (a : α), (∀ s, P s → Q a s) → Comes exec C I P (fold body a bs) Q := by
  induction bs with
  | nil => exact fun a hP => comes_ret (fun s hs => hI a s (hP s hs)) hP
  | cons b bs ih =>
    intro P a hP s hs
    have hrest : ∀ a, Comes exec C I (Q a) (fold body a bs) Q :=
      fun a => ih (fun a b hb => h a b (List.mem_cons_of_mem _ hb)) a fun _ => id
    exact (h a b List.mem_cons_self).bind hrest s (hP s hs)

end

end Script

end Py
