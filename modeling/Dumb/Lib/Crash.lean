import Mathlib.Data.List.Basic

/-!
# Programs whose calls can fail or be cut short

A program is run against a list of fates, one for each call it makes to the outside: the call succeeds,
it raises after a partial effect, or the process dies after a partial effect. Assertions about such a
program speak about three ends: it returned, it raised, or it died. A recovery program is one whose
crash condition is its own precondition, so that it can be started again after any number of deaths.
-/

namespace Crash

inductive Fate (ε τ : Type) where
  | ok
  | raise (e : ε) (t : τ)
  | die (t : τ)

namespace Fate

variable {ε τ : Type}

def NoRaise : Fate ε τ → Prop
  | .raise _ _ => False
  | _ => True

def NoDeath : Fate ε τ → Prop
  | .die _ => False
  | _ => True

@[simp] theorem noRaise_die (t : τ) : NoRaise (.die t : Fate ε τ) := trivial
@[simp] theorem noRaise_raise (e : ε) (t : τ) : NoRaise (.raise e t) ↔ False := Iff.rfl
@[simp] theorem noDeath_die (t : τ) : NoDeath (.die t : Fate ε τ) ↔ False := Iff.rfl
@[simp] theorem noDeath_raise (e : ε) (t : τ) : NoDeath (.raise e t) := trivial

end Fate

inductive Result (ε τ σ α : Type) where
  | done (a : α) (s : σ) (fs : List (Fate ε τ))
  | raised (e : ε) (s : σ) (fs : List (Fate ε τ))
  | died (s : σ)

def Result.state {ε τ σ α : Type} : Result ε τ σ α → σ
  | .done _ s _ => s
  | .raised _ s _ => s
  | .died s => s

def Prog (ε τ σ α : Type) : Type := σ → List (Fate ε τ) → Result ε τ σ α

namespace Prog

variable {ε τ σ α β : Type}

instance : Monad (Prog ε τ σ) where
  pure a := fun s fs => .done a s fs
  bind p f := fun s fs =>
    match p s fs with
    | .done a s' fs' => f a s' fs'
    | .raised e s' fs' => .raised e s' fs'
    | .died s' => .died s'

/-- One call: `eff` is its whole effect, `torn t` what is left of it when it is cut short. -/
def call (eff : σ → Except ε (α × σ)) (torn : τ → σ → σ) : Prog ε τ σ α := fun s fs =>
  match fs with
  | .raise e t :: fs => .raised e (torn t s) fs
  | .die t :: _ => .died (torn t s)
  | _ =>
      match eff s with
      | .ok (a, s') => .done a s' fs.tail
      | .error e => .raised e s fs.tail

def look (f : σ → α) : Prog ε τ σ α := call (fun s => .ok (f s, s)) (fun _ s => s)

def atomic (f : σ → Except ε σ) : Prog ε τ σ Unit :=
  call (fun s => (f s).map ((), ·)) (fun _ s => s)

def get : Prog ε τ σ σ := fun s fs => .done s s fs

def modify (f : σ → σ) : Prog ε τ σ Unit := fun s fs => .done () (f s) fs

def throw (e : ε) : Prog ε τ σ α := fun s fs => .raised e s fs

def tryExcept (p : Prog ε τ σ α) (h : ε → Prog ε τ σ α) : Prog ε τ σ α := fun s fs =>
  match p s fs with
  | .raised e s' fs' => h e s' fs'
  | r => r

def both (p q : Prog ε τ σ Bool) : Prog ε τ σ Bool := do
  if ← p then q else pure false

def forEach (body : β → Prog ε τ σ Unit) : List β → Prog ε τ σ Unit
  | [] => pure ()
  | x :: xs => do body x; forEach body xs

/-! ## Running a program on given fates -/

@[simp] theorem run_pure (a : α) (s : σ) (fs : List (Fate ε τ)) :
    (pure a : Prog ε τ σ α) s fs = .done a s fs := rfl

theorem run_bind (p : Prog ε τ σ α) (f : α → Prog ε τ σ β) (s : σ) (fs : List (Fate ε τ)) :
    (p >>= f) s fs = match p s fs with
      | .done a s' fs' => f a s' fs'
      | .raised e s' fs' => .raised e s' fs'
      | .died s' => .died s' := rfl

theorem run_map (f : α → β) (p : Prog ε τ σ α) (s : σ) (fs : List (Fate ε τ)) :
    (f <$> p) s fs = match p s fs with
      | .done a s' fs' => .done (f a) s' fs'
      | .raised e s' fs' => .raised e s' fs'
      | .died s' => .died s' := by
  show (p >>= (pure ∘ f)) s fs = _
  rw [run_bind]
  cases p s fs <;> rfl

@[simp] theorem run_call_nil (eff : σ → Except ε (α × σ)) (torn : τ → σ → σ) (s : σ) :
    call eff torn s [] = match eff s with
      | .ok (a, s') => .done a s' []
      | .error e => .raised e s [] := rfl

@[simp] theorem run_call_ok (eff : σ → Except ε (α × σ)) (torn : τ → σ → σ) (s : σ)
    (fs : List (Fate ε τ)) :
    call eff torn s (.ok :: fs) = match eff s with
      | .ok (a, s') => .done a s' fs
      | .error e => .raised e s fs := rfl

@[simp] theorem run_call_raise (eff : σ → Except ε (α × σ)) (torn : τ → σ → σ) (s : σ) (e : ε) (t : τ)
    (fs : List (Fate ε τ)) : call eff torn s (.raise e t :: fs) = .raised e (torn t s) fs := rfl

@[simp] theorem run_call_die (eff : σ → Except ε (α × σ)) (torn : τ → σ → σ) (s : σ) (t : τ)
    (fs : List (Fate ε τ)) : call eff torn s (.die t :: fs) = .died (torn t s) := rfl

/-! ## Assertions -/

/-- From `s`, whatever fates of the kind `A` the calls meet, `p` returns with `Q`, raises with `R` or dies
with `C`. -/
def wp (A : Fate ε τ → Prop) (p : Prog ε τ σ α) (Q : α → σ → Prop) (R : ε → σ → Prop) (C : σ → Prop)
    (s : σ) : Prop :=
  ∀ fs, (∀ f ∈ fs, A f) →
    match p s fs with
    | .done a s' fs' => Q a s' ∧ ∀ f ∈ fs', A f
    | .raised e s' fs' => R e s' ∧ ∀ f ∈ fs', A f
    | .died s' => C s'

variable {A : Fate ε τ → Prop} {Q : α → σ → Prop} {R : ε → σ → Prop} {C : σ → Prop} {s : σ}

variable {p : Prog ε τ σ α} {a : α} {s' : σ}

theorem wp_done (h : wp A p Q R C s) {fs fs' : List (Fate ε τ)}
    (hfs : ∀ f ∈ fs, A f) (hr : p s fs = .done a s' fs') : Q a s' := by
  have := h fs hfs
  rw [hr] at this
  exact this.1

theorem wp_died (h : wp A p Q R C s) {fs : List (Fate ε τ)}
    (hfs : ∀ f ∈ fs, A f) (hr : p s fs = .died s') : C s' := by
  have := h fs hfs
  rw [hr] at this
  exact this

theorem wp_state {I : σ → Prop} (h : wp A p (fun _ => I) (fun _ => I) I s)
    {fs : List (Fate ε τ)} (hfs : ∀ f ∈ fs, A f) : I (p s fs).state := by
  have := h fs hfs
  cases hr : p s fs <;> rw [hr] at this
  · exact this.1
  · exact this.1
  · exact this

theorem wp_mono {Q' : α → σ → Prop} {R' : ε → σ → Prop} {C' : σ → Prop}
    (h : wp A p Q R C s) (hQ : ∀ a s', Q a s' → Q' a s') (hR : ∀ e s', R e s' → R' e s')
    (hC : ∀ s', C s' → C' s') : wp A p Q' R' C' s := by
  intro fs hfs
  have := h fs hfs
  split at this
  · exact ⟨hQ _ _ this.1, this.2⟩
  · exact ⟨hR _ _ this.1, this.2⟩
  · exact hC _ this

theorem wp_pure (h : Q a s) : wp A (pure a) Q R C s := fun _ hfs => ⟨h, hfs⟩

theorem wp_get {Q : σ → σ → Prop} (h : Q s s) : wp A get Q R C s := fun _ hfs => ⟨h, hfs⟩

theorem wp_modify {f : σ → σ} {Q : Unit → σ → Prop} (h : Q () (f s)) : wp A (modify f) Q R C s :=
  fun _ hfs => ⟨h, hfs⟩

theorem wp_throw {e : ε} (h : R e s) : wp A (throw e) Q R C s := fun _ hfs => ⟨h, hfs⟩

variable {f : α → Prog ε τ σ β}

theorem wp_bind {Q : β → σ → Prop}
    (h : wp A p (fun a s' => wp A (f a) Q R C s') R C s) : wp A (p >>= f) Q R C s := by
  intro fs hfs
  have := h fs hfs
  rw [run_bind]
  cases hr : p s fs <;> rw [hr] at this
  · exact this.1 _ this.2
  · exact this
  · exact this

theorem wp_map {f : α → β} {Q : β → σ → Prop}
    (h : wp A p (fun a s' => Q (f a) s') R C s) : wp A (f <$> p) Q R C s :=
  wp_bind (wp_mono h (fun _ _ h => wp_pure h) (fun _ _ h => h) (fun _ h => h))

variable {h : ε → Prog ε τ σ α}

theorem wp_tryExcept
    (hp : wp A p Q (fun e s' => wp A (h e) Q R C s') C s) : wp A (tryExcept p h) Q R C s := by
  intro fs hfs
  have := hp fs hfs
  unfold tryExcept
  cases hr : p s fs <;> rw [hr] at this
  · exact this
  · exact this.1 _ this.2
  · exact this

theorem wp_both {p q : Prog ε τ σ Bool} {Q : Bool → σ → Prop}
    (hp : wp A p (fun a s' => (a = true → wp A q Q R C s') ∧ (a = false → Q false s')) R C s) :
    wp A (both p q) Q R C s := by
  refine wp_bind (wp_mono hp ?_ (fun _ _ h => h) (fun _ h => h))
  intro a s' h
  cases a with
  | true => exact h.1 rfl
  | false => exact wp_pure (h.2 rfl)

variable {eff : σ → Except ε (α × σ)} {torn : τ → σ → σ}

theorem wp_call
    (hok : ∀ a s', eff s = .ok (a, s') → Q a s') (herr : ∀ e, eff s = .error e → R e s)
    (hraise : ∀ e t, A (.raise e t) → R e (torn t s)) (hdie : ∀ t, A (.die t) → C (torn t s)) :
    wp A (call eff torn) Q R C s := by
  have heff : ∀ fs : List (Fate ε τ), (∀ f ∈ fs, A f) →
      match (match eff s with
        | .ok (a, s') => Result.done a s' fs
        | .error e => .raised e s fs : Result ε τ σ α) with
      | .done a s' fs' => Q a s' ∧ ∀ f ∈ fs', A f
      | .raised e s' fs' => R e s' ∧ ∀ f ∈ fs', A f
      | .died s' => C s' := by
    intro fs hfs
    cases he : eff s with
    | error e => exact ⟨herr e he, hfs⟩
    | ok r => exact ⟨hok r.1 r.2 he, hfs⟩
  intro fs hfs
  match fs, hfs with
  | [], hfs => exact heff [] hfs
  | .ok :: fs, hfs => exact heff fs (fun f hf => hfs f (List.mem_cons_of_mem _ hf))
  | .raise e t :: fs, hfs =>
      exact ⟨hraise e t (hfs _ List.mem_cons_self), fun f hf => hfs f (List.mem_cons_of_mem _ hf)⟩
  | .die t :: fs, hfs => exact hdie t (hfs _ List.mem_cons_self)

theorem wp_look {f : σ → α} (hok : Q (f s) s) (hraise : ∀ e t, A (.raise e t) → R e s)
    (hdie : (∃ t, A (.die t)) → C s) : wp A (look f) Q R C s :=
  wp_call (by intro a s' h; cases h; exact hok) (by intro e h; cases h) hraise (fun t ht => hdie ⟨t, ht⟩)

theorem wp_atomic {f : σ → Except ε σ} {Q : Unit → σ → Prop} (hok : ∀ s', f s = .ok s' → Q () s')
    (herr : ∀ e, f s = .error e → R e s) (hraise : ∀ e t, A (.raise e t) → R e s)
    (hdie : (∃ t, A (.die t)) → C s) : wp A (atomic f) Q R C s := by
  refine wp_call ?_ ?_ hraise (fun t ht => hdie ⟨t, ht⟩)
  · intro a s' h
    cases hf : f s with
    | error e => rw [hf] at h; cases h
    | ok s₁ => rw [hf] at h; cases h; exact hok _ hf
  · intro e h
    cases hf : f s with
    | error e' => rw [hf] at h; cases h; exact herr _ hf
    | ok s₁ => rw [hf] at h; cases h

theorem wp_forEach {body : β → Prog ε τ σ Unit} {I : List β → σ → Prop} {Q : Unit → σ → Prop}
    (hbody : ∀ x xs s, I (x :: xs) s → wp A (body x) (fun _ s' => I xs s') R C s)
    (hQ : ∀ s, I [] s → Q () s) : ∀ (xs : List β) {s : σ}, I xs s → wp A (forEach body xs) Q R C s
  | [], _, h => wp_pure (hQ _ h)
  | x :: xs, s, h =>
      wp_bind (wp_mono (hbody x xs s h) (fun _ _ h' => wp_forEach hbody hQ xs h') (fun _ _ h' => h')
        (fun _ h' => h'))

/-! ## Runs that are known -/

/-- With enough fates that are `ok` the program returns `a` in `s'`, and has the other fates before it. -/
def Passes (p : Prog ε τ σ α) (s : σ) (a : α) (s' : σ) : Prop :=
  ∃ n, ∀ fs, p s (List.replicate n .ok ++ fs) = .done a s' fs

theorem passes_pure (a : α) (s : σ) : Passes (pure a : Prog ε τ σ α) s a s := ⟨0, fun _ => rfl⟩

theorem passes_get (s : σ) : Passes (get : Prog ε τ σ σ) s s s := ⟨0, fun _ => rfl⟩

theorem passes_modify (f : σ → σ) (s : σ) : Passes (modify f : Prog ε τ σ Unit) s () (f s) := ⟨0, fun _ => rfl⟩

theorem passes_call (h : eff s = .ok (a, s')) :
    Passes (call eff torn) s a s' :=
  ⟨1, fun fs => by rw [List.replicate_one, List.singleton_append, run_call_ok, h]⟩

theorem passes_look (f : σ → α) (s : σ) : Passes (look f : Prog ε τ σ α) s (f s) s := passes_call rfl

theorem passes_atomic {f : σ → Except ε σ} (h : f s = .ok s') : Passes (atomic f : Prog ε τ σ Unit) s () s' :=
  passes_call (by rw [h]; rfl)

theorem passes_bind {b : β} {s₁ s₂ : σ} (hp : Passes p s a s₁)
    (hf : Passes (f a) s₁ b s₂) : Passes (p >>= f) s b s₂ := by
  obtain ⟨m, hm⟩ := hp
  obtain ⟨n, hn⟩ := hf
  refine ⟨m + n, fun fs => ?_⟩
  rw [run_bind, List.replicate_add, List.append_assoc, hm]
  exact hn fs

theorem passes_tryExcept (hp : Passes p s a s') :
    Passes (tryExcept p h) s a s' := by
  obtain ⟨n, hn⟩ := hp
  refine ⟨n, fun fs => ?_⟩
  rw [tryExcept, hn]

def CanDie (p : Prog ε τ σ α) (s s' : σ) : Prop := ∃ fs, p s fs = .died s'

theorem canDie_call (t : τ) : CanDie (call eff torn) s (torn t s) :=
  ⟨[.die t], rfl⟩

theorem canDie_bind (h : CanDie p s s') : CanDie (p >>= f) s s' := by
  obtain ⟨fs, hfs⟩ := h
  exact ⟨fs, by rw [run_bind, hfs]⟩

theorem Passes.canDie {s₁ s' : σ} (hp : Passes p s a s₁)
    (hf : CanDie (f a) s₁ s') : CanDie (p >>= f) s s' := by
  obtain ⟨n, hn⟩ := hp
  obtain ⟨fs, hfs⟩ := hf
  exact ⟨List.replicate n .ok ++ fs, by rw [run_bind, hn]; exact hfs⟩

theorem canDie_tryExcept (hp : CanDie p s s') :
    CanDie (tryExcept p h) s s' := by
  obtain ⟨fs, hfs⟩ := hp
  exact ⟨fs, by rw [tryExcept, hfs]⟩

theorem call_cases (eff : σ → Except ε (α × σ)) (torn : τ → σ → σ) (h : eff s = .ok (a, s'))
    (fs : List (Fate ε τ)) :
    call eff torn s fs = .done a s' fs.tail ∨
      (∃ e t rest, fs = .raise e t :: rest ∧ call eff torn s fs = .raised e (torn t s) rest) ∨
      ∃ t, call eff torn s fs = .died (torn t s) := by
  cases fs with
  | nil => left; rw [run_call_nil, h]; rfl
  | cons f rest =>
    cases f with
    | ok => left; rw [run_call_ok, h]; rfl
    | raise e t => exact .inr (.inl ⟨e, t, rest, rfl, rfl⟩)
    | die t => exact .inr (.inr ⟨t, rfl⟩)

theorem atomic_cases (f : σ → Except ε σ) (h : f s = .ok s') (fs : List (Fate ε τ)) :
    atomic f s fs = .done () s' fs.tail ∨ (∃ e t rest, fs = .raise e t :: rest ∧ atomic f s fs = .raised e s rest) ∨
      atomic f s fs = .died s := by
  have heff : (f s).map ((), ·) = .ok ((), s') := by rw [h]; rfl
  rcases call_cases (fun s => (f s).map ((), ·)) (fun (_ : τ) s => s) heff fs with hdone | hraised | ⟨-, hdied⟩
  · exact .inl hdone
  · exact .inr (.inl hraised)
  · exact .inr (.inr hdied)

/-! ## Recovery -/

inductive Deaths (A : Fate ε τ → Prop) (boot : σ → σ) (p : Prog ε τ σ α) : σ → σ → Prop
  | refl (s : σ) : Deaths A boot p s s
  | again {s s₁ s₂ : σ} {fs : List (Fate ε τ)} (hfs : ∀ f ∈ fs, A f) (hr : p (boot s) fs = .died s₁)
      (h : Deaths A boot p s₁ s₂) : Deaths A boot p s s₂

theorem Deaths.recover {boot : σ → σ} {P : σ → Prop}
    (hp : ∀ s, P s → wp A p Q R P (boot s)) {s s' : σ} (h : Deaths A boot p s s') (hs : P s) : P s' := by
  induction h with
  | refl => exact hs
  | again hfs hr _ ih => exact ih (wp_died (hp _ hs) hfs hr)

/-- `s'` is left after some number of runs of `p` from `s`, however each of them ended. -/
inductive Reruns (A : Fate ε τ → Prop) (P : σ → Prop) (p : Prog ε τ σ α) : σ → σ → Prop
  | refl (s : σ) : Reruns A P p s s
  | again {s s₁ : σ} {fs : List (Fate ε τ)} (h : Reruns A P p s s₁) (hP : P s₁) (hfs : ∀ f ∈ fs, A f) :
      Reruns A P p s (p s₁ fs).state

theorem Reruns.invariant {P I : σ → Prop}
    (hp : ∀ s, I s → P s → wp A p (fun _ => I) (fun _ => I) I s) {s s' : σ} (h : Reruns A P p s s') (hs : I s) :
    I s' := by
  induction h with
  | refl => exact hs
  | again _ hP hfs ih => exact wp_state (hp _ ih hP) hfs

end Prog

end Crash
