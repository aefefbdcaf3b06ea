import Mathlib.Logic.Relation
import Mathlib.Data.List.Basic

/-!
# Threads over a shared state

A thread is a program whose accesses to the shared state are atomic, one `act` each. Threads of a pool take turns
in any order. `Sound` is the rely and guarantee of one thread, and a pool of sound threads keeps the invariant
whatever the order.
-/

inductive Thread (σ ε α : Type) where
  | ret (a : α)
  | raise (e : ε)
  | act (f : σ → σ) (k : σ → Thread σ ε α)

namespace Thread

variable {σ ε α β : Type}

def bind : Thread σ ε α → (α → Thread σ ε β) → Thread σ ε β
  | ret a, g => g a
  | raise e, _ => raise e
  | act f k, g => act f fun s => (k s).bind g

instance : Monad (Thread σ ε) where
  pure := ret
  bind := bind

theorem bind_ret (t : Thread σ ε α) : t.bind ret = t := by
  induction t with
  | ret a => rfl
  | raise e => rfl
  | act f k ih => exact congrArg (act f) (funext ih)

theorem bind_bind {γ : Type} (t : Thread σ ε α) (g : α → Thread σ ε β) (h : β → Thread σ ε γ) :
    (t.bind g).bind h = t.bind fun a => (g a).bind h := by
  induction t with
  | ret a => rfl
  | raise e => rfl
  | act f k ih => exact congrArg (act f) (funext ih)

instance : LawfulMonad (Thread σ ε) := LawfulMonad.mk' (Thread σ ε) bind_ret (fun _ _ => rfl) bind_bind

def read (g : σ → α) : Thread σ ε α := act id fun s => ret (g s)

def modify (f : σ → σ) : Thread σ ε Unit := act f fun _ => ret ()

def update (f : σ → α × σ) : Thread σ ε α := act (fun s => (f s).2) fun s => ret (f s).1

def require (b : Bool) (e : ε) : Thread σ ε Unit := if b then ret () else raise e

def ofExcept : Except ε α → Thread σ ε α
  | .ok a => ret a
  | .error e => raise e

def attempt {δ : Type} : Thread σ ε α → Thread σ δ (Except ε α)
  | ret a => ret (.ok a)
  | raise e => ret (.error e)
  | act f k => act f fun s => (k s).attempt

def result? : Thread σ ε α → Option (Except ε α)
  | ret a => some (.ok a)
  | raise e => some (.error e)
  | act _ _ => none

/-! ## Alone -/

def run : Thread σ ε α → σ → Except ε α × σ
  | ret a, s => (.ok a, s)
  | raise e, s => (.error e, s)
  | act f k, s => run (k s) (f s)

@[simp] theorem run_ret (a : α) (s : σ) : run (ret a : Thread σ ε α) s = (.ok a, s) := rfl
@[simp] theorem run_pure (a : α) (s : σ) : run (pure a : Thread σ ε α) s = (.ok a, s) := rfl
@[simp] theorem run_raise (e : ε) (s : σ) : run (raise e : Thread σ ε α) s = (.error e, s) := rfl
@[simp] theorem run_read (g : σ → α) (s : σ) : run (read g : Thread σ ε α) s = (.ok (g s), s) := rfl
@[simp] theorem run_modify (f : σ → σ) (s : σ) : run (modify f : Thread σ ε Unit) s = (.ok (), f s) := rfl
@[simp] theorem run_update (f : σ → α × σ) (s : σ) : run (update f : Thread σ ε α) s = (.ok (f s).1, (f s).2) := rfl

@[simp] theorem run_require (b : Bool) (e : ε) (s : σ) :
    run (require b e : Thread σ ε Unit) s = if b then (.ok (), s) else (.error e, s) := by
  cases b <;> rfl

@[simp] theorem run_ofExcept (r : Except ε α) (s : σ) : run (ofExcept r : Thread σ ε α) s = (r, s) := by
  cases r <;> rfl

theorem run_bind (t : Thread σ ε α) (g : α → Thread σ ε β) (s : σ) : run (t >>= g) s =
    match run t s with
    | (.ok a, s') => run (g a) s'
    | (.error e, s') => (.error e, s') := by
  induction t generalizing s with
  | ret a => rfl
  | raise e => rfl
  | act f k ih => exact ih s (f s)

theorem run_bind_ok {t : Thread σ ε α} {g : α → Thread σ ε β} {s s' : σ} {b : β} :
    run (t >>= g) s = (.ok b, s') ↔ ∃ a s₁, run t s = (.ok a, s₁) ∧ run (g a) s₁ = (.ok b, s') := by
  rw [run_bind]
  obtain ⟨r, s₁⟩ := run t s
  cases r with
  | error e => simp
  | ok a => simp

@[simp] theorem run_read_bind (g : σ → β) (k : β → Thread σ ε α) (s : σ) : run (read g >>= k) s = run (k (g s)) s := rfl

@[simp] theorem run_modify_bind (f : σ → σ) (k : Unit → Thread σ ε α) (s : σ) :
    run (modify f >>= k) s = run (k ()) (f s) := rfl

variable {k : β → Thread σ ε α}

theorem run_ofExcept_bind_ok {r : Except ε β} {s s' : σ} {a : α} :
    run (ofExcept r >>= k) s = (.ok a, s') ↔ ∃ b, r = .ok b ∧ run (k b) s = (.ok a, s') := by
  rw [run_bind, run_ofExcept]
  cases r with
  | error e => simp
  | ok b => simp

variable {b : Bool} {e : ε}

theorem run_require_bind_ok {k : Unit → Thread σ ε α} {s s' : σ} {a : α} :
    run (require b e >>= k) s = (.ok a, s') ↔ b = true ∧ run (k ()) s = (.ok a, s') := by
  rw [run_bind, run_require]
  cases b with
  | false => simp
  | true => simp

def Keeps {γ : Type} (g : σ → γ) (t : Thread σ ε α) : Prop := ∀ s, g (run t s).2 = g s

section
variable {γ : Type} {g : σ → γ}

theorem Keeps.pure (a : α) : Keeps g (Pure.pure a : Thread σ ε α) := fun _ => rfl
theorem Keeps.raise (e : ε) : Keeps g (Thread.raise e : Thread σ ε α) := fun _ => rfl
theorem Keeps.read (f : σ → α) : Keeps g (Thread.read f : Thread σ ε α) := fun _ => rfl
theorem Keeps.modify {f : σ → σ} (h : ∀ s, g (f s) = g s) : Keeps g (Thread.modify f : Thread σ ε Unit) := h

theorem Keeps.require (b : Bool) (e : ε) : Keeps g (Thread.require b e : Thread σ ε Unit) := by
  intro s
  cases b <;> rfl

theorem Keeps.ofExcept (r : Except ε α) : Keeps g (Thread.ofExcept r : Thread σ ε α) := by
  intro s
  cases r <;> rfl

theorem Keeps.bind {t : Thread σ ε α} {k : α → Thread σ ε β} (ht : Keeps g t) (hk : ∀ a, Keeps g (k a)) :
    Keeps g (t >>= k) := by
  intro s
  rw [run_bind]
  have ht := ht s
  cases hrun : run t s with
  | mk r s₁ =>
    rw [hrun] at ht
    cases r with
    | error e => exact ht
    | ok a => exact (hk a s₁).trans ht

theorem Keeps.ite {p : Prop} [Decidable p] {t u : Thread σ ε α} (ht : Keeps g t) (hu : Keeps g u) :
    Keeps g (if p then t else u) := by
  split
  · exact ht
  · exact hu

end

def Leaves (P : σ → Prop) (t : Thread σ ε α) (s : σ) : Prop := P (run t s).2

section
variable {P : σ → Prop} {s : σ}

theorem Leaves.read_bind {g : σ → β} (h : Leaves P (k (g s)) s) :
    Leaves P (read g >>= k) s := h

theorem Leaves.require_bind {k : Unit → Thread σ ε α} (h : b = true → Leaves P (k ()) s)
    (hfalse : P s) : Leaves P (require b e >>= k) s := by
  cases b with
  | false => exact hfalse
  | true => exact h rfl

theorem Leaves.ofExcept_bind {r : Except ε β} (h : ∀ a, r = .ok a → Leaves P (k a) s)
    (herr : P s) : Leaves P (ofExcept r >>= k) s := by
  cases r with
  | ok a => exact h a rfl
  | error e => exact herr

end

/-! ## Among others -/

/-- From `s` on, whatever the others do within `G`, the thread keeps `I`, stays within `G` itself and ends
with `Q`. -/
def Sound (I : σ → Prop) (G : σ → σ → Prop) (Q : Except ε α → σ → Prop) : Thread σ ε α → σ → Prop
  | ret a, s => Q (.ok a) s
  | raise e, s => Q (.error e) s
  | act f k, s => ∀ s', G s s' → I s' → I (f s') ∧ G s' (f s') ∧ Sound I G Q (k s') (f s')

section
variable {I : σ → Prop} {G : σ → σ → Prop} {Q : Except ε α → σ → Prop} {R : Except ε β → σ → Prop}

theorem Sound.stable (htrans : ∀ a b c, G a b → G b c → G a c) (hQ : ∀ r s s', G s s' → Q r s → Q r s')
    {t : Thread σ ε α} {s s' : σ} (h : Sound I G Q t s) (hG : G s s') : Sound I G Q t s' := by
  cases t with
  | ret a => exact hQ _ _ _ hG h
  | raise e => exact hQ _ _ _ hG h
  | act f k => exact fun s₁ h₁ hI => h s₁ (htrans _ _ _ hG h₁) hI

theorem Sound.run {t : Thread σ ε α} (hrefl : ∀ s, G s s) (h : Sound I G Q t s) (hI : I s) :
    I (t.run s).2 ∧ Q (t.run s).1 (t.run s).2 := by
  induction t generalizing s with
  | ret a => exact ⟨hI, h⟩
  | raise e => exact ⟨hI, h⟩
  | act f k ih =>
    obtain ⟨hI', -, hk⟩ := h s (hrefl s) hI
    exact ih s hk hI'

theorem Sound.read_bind {g : σ → β} (hrefl : ∀ s, G s s)
    (h : ∀ s', G s s' → I s' → Sound I G Q (k (g s')) s') : Sound I G Q (read g >>= k) s :=
  fun s' hG hI => ⟨hI, hrefl s', h s' hG hI⟩

theorem Sound.update_bind {f : σ → β × σ}
    (h : ∀ s', G s s' → I s' → I (f s').2 ∧ G s' (f s').2 ∧ Sound I G Q (k (f s').1) (f s').2) :
    Sound I G Q (update f >>= k) s := h

theorem Sound.modify_bind {f : σ → σ} {k : Unit → Thread σ ε α}
    (h : ∀ s', G s s' → I s' → I (f s') ∧ G s' (f s') ∧ Sound I G Q (k ()) (f s')) :
    Sound I G Q (modify f >>= k) s := h

theorem Sound.require_bind {k : Unit → Thread σ ε α}
    (h : b = true → Sound I G Q (k ()) s) (hfalse : b = false → Q (.error e) s) :
    Sound I G Q (require b e >>= k) s := by
  cases b with
  | false => exact hfalse rfl
  | true => exact h rfl

theorem Sound.ofExcept_bind {r : Except ε β}
    (h : ∀ a, r = .ok a → Sound I G Q (k a) s) (herr : ∀ e, r = .error e → Q (.error e) s) :
    Sound I G Q (ofExcept r >>= k) s := by
  cases r with
  | ok a => exact h a rfl
  | error e => exact herr e rfl

theorem Sound.attempt_bind {δ : Type} {t : Thread σ δ β} {k : Except δ β → Thread σ ε α}
    {R : Except δ β → σ → Prop} (ht : Sound I G R t s) (h : ∀ r s, R r s → Sound I G Q (k r) s) :
    Sound I G Q (t.attempt >>= k) s := by
  induction t generalizing s with
  | ret a => exact h _ s ht
  | raise e => exact h _ s ht
  | act f k' ih =>
    intro s' hG hI
    obtain ⟨hI', hG', hk⟩ := ht s' hG hI
    exact ⟨hI', hG', ih s' hk⟩

end

/-! ## Beside others -/

/-- A run of the thread to its end, beside others that do `R` before each of its accesses: the states around every access
of its own, how it ends, and the state after its last access. -/
inductive Beside (R : σ → σ → Prop) : Thread σ ε α → σ → List (σ × σ) → Except ε α → σ → Prop
  | ret (a : α) (s : σ) : Beside R (ret a) s [] (.ok a) s
  | raise (e : ε) (s : σ) : Beside R (raise e) s [] (.error e) s
  | act {f : σ → σ} {k : σ → Thread σ ε α} {s s' t : σ} {tr : List (σ × σ)} {r : Except ε α} (hothers : R s s')
      (h : Beside R (k s') (f s') tr r t) : Beside R (act f k) s ((s', f s') :: tr) r t

namespace Beside

variable {R S : σ → σ → Prop} {s t : σ} {tr : List (σ × σ)} {r : Except ε α}

variable {p : Thread σ ε α}

theorem head {b : σ × σ} (h : Beside R p s (b :: tr) r t) : R s b.1 := by
  cases h with
  | act hothers _ => exact hothers

theorem nil (h : Beside R p s tr r t) (hnil : tr = []) : t = s := by
  cases h with
  | ret => rfl
  | raise => rfl
  | act => cases hnil

theorem last (h : Beside R p s tr r t) : ∀ a ∈ tr.getLast?, a.2 = t := by
  induction h with
  | ret => simp
  | raise => simp
  | @act f k s s' t tr r _ h ih =>
    cases tr with
    | nil => simp [h.nil rfl]
    | cons b tr => simpa using ih

theorem alone (p : Thread σ ε α) (s : σ) : ∃ tr, Beside (fun s s' => s' = s) p s tr (p.run s).1 (p.run s).2 := by
  induction p generalizing s with
  | ret a => exact ⟨[], .ret a s⟩
  | raise e => exact ⟨[], .raise e s⟩
  | act f k ih =>
    obtain ⟨tr, htr⟩ := ih s (f s)
    exact ⟨_, .act rfl htr⟩

theorem ret_iff {a : α} : Beside R (.ret a : Thread σ ε α) s tr r t ↔ tr = [] ∧ r = .ok a ∧ t = s := by
  constructor
  · rintro ⟨⟩
    exact ⟨rfl, rfl, rfl⟩
  · rintro ⟨rfl, rfl, rfl⟩
    exact .ret a t

theorem pure_iff {a : α} : Beside R (pure a : Thread σ ε α) s tr r t ↔ tr = [] ∧ r = .ok a ∧ t = s := ret_iff

theorem raise_iff : Beside R (.raise e : Thread σ ε α) s tr r t ↔ tr = [] ∧ r = .error e ∧ t = s := by
  constructor
  · rintro ⟨⟩
    exact ⟨rfl, rfl, rfl⟩
  · rintro ⟨rfl, rfl, rfl⟩
    exact .raise e t

theorem update_bind {f : σ → β × σ} (h : Beside R (update f >>= k) s tr r t) :
    ∃ s' tr', R s s' ∧ tr = (s', (f s').2) :: tr' ∧ Beside R (k (f s').1) (f s').2 tr' r t := by
  cases h with
  | act hothers h => exact ⟨_, _, hothers, rfl, h⟩

theorem read_bind {g : σ → β} (h : Beside R (read g >>= k) s tr r t) :
    ∃ s' tr', R s s' ∧ tr = (s', s') :: tr' ∧ Beside R (k (g s')) s' tr' r t := by
  cases h with
  | act hothers h => exact ⟨_, _, hothers, rfl, h⟩

theorem modify_bind {f : σ → σ} {k : Unit → Thread σ ε α} (h : Beside R (modify f >>= k) s tr r t) :
    ∃ s' tr', R s s' ∧ tr = (s', f s') :: tr' ∧ Beside R (k ()) (f s') tr' r t := by
  cases h with
  | act hothers h => exact ⟨_, _, hothers, rfl, h⟩

theorem require_bind {k : Unit → Thread σ ε α} (h : Beside R (require b e >>= k) s tr r t) :
    b = true ∧ Beside R (k ()) s tr r t ∨ b = false ∧ tr = [] ∧ r = .error e ∧ t = s := by
  cases b with
  | false => exact .inr ⟨rfl, raise_iff.1 h⟩
  | true => exact .inl ⟨rfl, h⟩

theorem require_end {r : Except ε Unit} (h : Beside R (require b e) s tr r t) :
    tr = [] ∧ t = s ∧ r = if b then .ok () else .error e := by
  cases b with
  | false =>
    obtain ⟨rfl, rfl, rfl⟩ := raise_iff.1 h
    exact ⟨rfl, rfl, rfl⟩
  | true =>
    obtain ⟨rfl, rfl, rfl⟩ := ret_iff.1 h
    exact ⟨rfl, rfl, rfl⟩

theorem ofExcept_bind {x : Except ε β} (h : Beside R (ofExcept x >>= k) s tr r t) :
    (∃ a, x = .ok a ∧ Beside R (k a) s tr r t) ∨ ∃ e, x = .error e ∧ tr = [] ∧ r = .error e ∧ t = s := by
  cases x with
  | error e => exact .inr ⟨e, rfl, raise_iff.1 h⟩
  | ok a => exact .inl ⟨a, rfl, h⟩

theorem bind {p : Thread σ ε β} : ∀ {s tr}, Beside R (p >>= k) s tr r t →
    (∃ a tr₁ tr₂ s₁, Beside R p s tr₁ (.ok a) s₁ ∧ Beside R (k a) s₁ tr₂ r t ∧ tr = tr₁ ++ tr₂) ∨
      ∃ e, Beside R p s tr (.error e) t ∧ r = .error e := by
  induction p with
  | ret a => exact fun h => .inl ⟨a, [], _, _, .ret a _, h, rfl⟩
  | raise e =>
    intro s tr h
    obtain ⟨rfl, rfl, rfl⟩ := raise_iff.1 h
    exact .inr ⟨e, .raise e _, rfl⟩
  | act f k' ih =>
    intro s tr h
    cases h with
    | act hothers h =>
      obtain ⟨a, tr₁, tr₂, s₁, h₁, h₂, rfl⟩ | ⟨e, h₁, rfl⟩ := ih _ h
      · exact .inl ⟨a, _, _, s₁, .act hothers h₁, h₂, rfl⟩
      · exact .inr ⟨e, .act hothers h₁, rfl⟩

end Beside

end Thread

structure Threads (σ ε α : Type) where
  state : σ
  threads : List (Bool × Thread σ ε α)

namespace Threads

variable {σ ε α : Type}

def start (s : σ) (threads : List (Thread σ ε α)) : Threads σ ε α := ⟨s, threads.map fun t => (false, t)⟩

inductive Turn (i : Nat) : Threads σ ε α → Threads σ ε α → Prop
  | mk {s : σ} {threads : List (Bool × Thread σ ε α)} {started : Bool} {f : σ → σ} {k : σ → Thread σ ε α}
      (h : threads[i]? = some (started, .act f k)) :
      Turn i ⟨s, threads⟩ ⟨f s, threads.set i (true, k s)⟩

def Step (p q : Threads σ ε α) : Prop := ∃ i, Turn i p q

def InProgress (p : Threads σ ε α) (i : Nat) : Prop := ∃ f k, p.threads[i]? = some (true, .act f k)

theorem run_alone (t : Thread σ ε α) (s : σ) (started : Bool) :
    ∃ started', Relation.ReflTransGen Step ⟨s, [(started, t)]⟩
      ⟨(t.run s).2, [(started', Thread.ofExcept (t.run s).1)]⟩ := by
  induction t generalizing s started with
  | ret a => exact ⟨started, .refl⟩
  | raise e => exact ⟨started, .refl⟩
  | act f k ih =>
    obtain ⟨started', hrun⟩ := ih s (f s) true
    have hturn : Turn 0 ⟨s, [(started, .act f k)]⟩ ⟨f s, [(true, k s)]⟩ := .mk rfl
    exact ⟨started', .head ⟨0, hturn⟩ hrun⟩

section
variable {I : σ → Prop} {G : σ → σ → Prop} {Q : Nat → Except ε α → σ → Prop}

structure Safe (I : σ → Prop) (G : σ → σ → Prop) (Q : Nat → Except ε α → σ → Prop) (p : Threads σ ε α) : Prop where
  inv : I p.state
  sound : ∀ (i : Nat) (x : Bool × Thread σ ε α), p.threads[i]? = some x → x.2.Sound I G (Q i) p.state

theorem Safe.turn (htrans : ∀ a b c, G a b → G b c → G a c) (hrefl : ∀ a, G a a)
    (hQ : ∀ i r s s', G s s' → Q i r s → Q i r s') {p q : Threads σ ε α} (h : Safe I G Q p) {i : Nat}
    (hturn : Turn i p q) : Safe I G Q q ∧ G p.state q.state := by
  cases hturn with
  | @mk s threads started f k hi =>
    obtain ⟨hI, hG, hk⟩ := h.sound i _ hi s (hrefl s) h.inv
    refine ⟨⟨hI, fun j x hj => ?_⟩, hG⟩
    by_cases hij : i = j
    · subst hij
      have hlt := (List.getElem?_eq_some_iff.1 hi).1
      simp only [List.getElem?_set_self hlt, Option.some.injEq] at hj
      subst hj
      exact hk
    · rw [List.getElem?_set_ne hij] at hj
      exact (h.sound j x hj).stable htrans (hQ j) hG

theorem Safe.run (htrans : ∀ a b c, G a b → G b c → G a c) (hrefl : ∀ a, G a a)
    (hQ : ∀ i r s s', G s s' → Q i r s → Q i r s') {p q : Threads σ ε α} (h : Safe I G Q p)
    (hrun : Relation.ReflTransGen Step p q) : Safe I G Q q ∧ G p.state q.state := by
  induction hrun with
  | refl => exact ⟨h, hrefl _⟩
  | tail _ hstep ih =>
    obtain ⟨hsafe, hG⟩ := ih
    obtain ⟨i, hturn⟩ := hstep
    obtain ⟨hsafe', hG'⟩ := hsafe.turn htrans hrefl hQ hturn
    exact ⟨hsafe', htrans _ _ _ hG hG'⟩

theorem Safe.result {p : Threads σ ε α} (h : Safe I G Q p) {i : Nat} {x : Bool × Thread σ ε α} {r : Except ε α}
    (hi : p.threads[i]? = some x) (hr : x.2.result? = some r) : Q i r p.state := by
  have hsound := h.sound i x hi
  obtain ⟨started, t⟩ := x
  cases t with
  | ret a =>
    cases hr
    exact hsound
  | raise e =>
    cases hr
    exact hsound
  | act f k => cases hr

end

end Threads
