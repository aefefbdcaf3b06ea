import Mathlib.Tactic.TypeStar
import Mathlib.Data.List.Basic

/-!
# Python exceptions

A step of a function that may raise is an `Except`. A chain of steps returns where every one does.
-/

namespace Py

variable {ε : Type} {α β : Type*}

def require (b : Bool) (e : ε) : Except ε Unit := if b then .ok () else .error e

@[simp] theorem require_ok {b : Bool} {e : ε} {u : Unit} : require b e = .ok u ↔ b = true := by
  cases b <;> simp [require]

def orRaise (e : ε) : Option α → Except ε α
  | some a => .ok a
  | none => .error e

@[simp] theorem orRaise_ok {e : ε} {x : Option α} {a : α} : orRaise e x = .ok a ↔ x = some a := by
  cases x <;> simp [orRaise]

theorem bind_ok_iff {α β : Type} {x : Except ε α} {f : α → Except ε β} {b : β} :
    x >>= f = .ok b ↔ ∃ a, x = .ok a ∧ f a = .ok b := by
  cases x with
  | error e => simp [bind, Except.bind]
  | ok a => simp [bind, Except.bind]

theorem map_ok_iff {α β : Type} {x : Except ε α} {f : α → β} {b : β} : x.map f = .ok b ↔ ∃ a, x = .ok a ∧ f a = b := by
  cases x with
  | error e => simp [Except.map]
  | ok a => simp [Except.map]

theorem foldlM_count {α : Type} {f : Nat → α → Except ε Nat} {P : α → Prop}
    (hf : ∀ m a k, f m a = .ok k ↔ P a ∧ k = m + 1) {l : List α} {m n : Nat} :
    l.foldlM f m = .ok n ↔ (∀ a ∈ l, P a) ∧ n = m + l.length := by
  induction l generalizing m with
  | nil => exact ⟨fun h => ⟨fun a ha => absurd ha List.not_mem_nil, (Except.ok.inj h).symm⟩, fun h => congrArg _ h.2.symm⟩
  | cons a l ih =>
    simp only [List.foldlM_cons, bind_ok_iff, hf, ih, List.forall_mem_cons, List.length_cons]
    constructor
    · rintro ⟨_, ⟨ha, rfl⟩, hl, rfl⟩
      exact ⟨⟨ha, hl⟩, by omega⟩
    · rintro ⟨⟨ha, hl⟩, rfl⟩
      exact ⟨_, ⟨ha, rfl⟩, hl, by omega⟩

end Py

/-! ## Folds as runs

A fold over a list is a run that takes one step an element. `Along` says something of every step where it is taken.
-/

variable {α β : Type}

def Along (f : β → α → β) (P : β → α → Prop) : β → List α → Prop
  | _, [] => True
  | b, a :: as => P b a ∧ Along f P (f b a) as

instance Along.decidable {f : β → α → β} {P : β → α → Prop} [∀ b a, Decidable (P b a)] :
    ∀ (b : β) (as : List α), Decidable (Along f P b as)
  | _, [] => .isTrue trivial
  | b, a :: as =>
    have := Along.decidable (f := f) (P := P) (f b a) as
    inferInstanceAs (Decidable (P b a ∧ Along f P (f b a) as))

variable {f : β → α → β} {P : β → α → Prop} {b : β}

theorem along_append {as more : List α} :
    Along f P b (as ++ more) ↔ Along f P b as ∧ Along f P (as.foldl f b) more := by
  induction as generalizing b with
  | nil => simp [Along]
  | cons a as ih =>
    simp only [List.cons_append, Along, ih, List.foldl_cons]
    exact and_assoc.symm

variable {I : β → Prop} {as : List α}

theorem Along.foldl (h : Along f P b as)
    (hstep : ∀ b, ∀ a ∈ as, P b a → I b → I (f b a)) (hb : I b) : I (as.foldl f b) := by
  induction as generalizing b with
  | nil => exact hb
  | cons a as ih =>
    apply ih h.2
    · exact fun b a' ha' => hstep b a' (List.mem_cons_of_mem _ ha')
    · exact hstep b a List.mem_cons_self h.1 hb

theorem along_of_forall (h : ∀ b a, P b a) (b : β) (as : List α) :
    Along f P b as := by
  induction as generalizing b with
  | nil => trivial
  | cons a as ih => exact ⟨h b a, ih _⟩

theorem Along.foldl_done {D : β → α → Prop}
    (h : Along f P b as) (hstep : ∀ b, ∀ a ∈ as, P b a → I b → I (f b a) ∧ D (f b a) a)
    (hkeep : ∀ b, ∀ a ∈ as, P b a → I b → ∀ a', D b a' → D (f b a) a') (hb : I b) :
    I (as.foldl f b) ∧ ∀ a ∈ as, D (as.foldl f b) a := by
  induction as generalizing b with
  | nil => exact ⟨hb, fun a ha => absurd ha List.not_mem_nil⟩
  | cons a as ih =>
    obtain ⟨hI, hD⟩ := hstep b a List.mem_cons_self h.1 hb
    have htail := ih h.2 (fun b a' ha' => hstep b a' (List.mem_cons_of_mem _ ha'))
      (fun b a' ha' => hkeep b a' (List.mem_cons_of_mem _ ha')) hI
    have hstays : I (as.foldl f (f b a)) ∧ D (as.foldl f (f b a)) a := by
      apply Along.foldl (I := fun b => I b ∧ D b a) h.2 _ ⟨hI, hD⟩
      intro b' a' ha' hP hID
      have ha'' := List.mem_cons_of_mem a ha'
      exact ⟨(hstep b' a' ha'' hP hID.1).1, hkeep b' a' ha'' hP hID.1 a hID.2⟩
    apply And.intro htail.1
    intro x hx
    rcases List.mem_cons.1 hx with rfl | hx
    · exact hstays.2
    · exact htail.2 x hx

theorem along_iff :
    Along f P b as ↔ ∀ before a after, as = before ++ a :: after → P (before.foldl f b) a := by
  induction as generalizing b with
  | nil => simp [Along]
  | cons x as ih =>
    rw [Along, ih]
    constructor
    · rintro ⟨hx, has⟩ before a after heq
      cases before with
      | nil =>
        rw [List.nil_append, List.cons.injEq] at heq
        exact heq.1 ▸ hx
      | cons y before =>
        rw [List.cons_append, List.cons.injEq] at heq
        rw [List.foldl_cons, ← heq.1]
        exact has before a after heq.2
    · intro h
      constructor
      · exact h [] x as rfl
      · intro before a after heq
        exact h (x :: before) a after (by rw [heq, List.cons_append])

theorem Along.and {P Q : β → α → Prop} (hP : Along f P b as) (hQ : Along f Q b as) :
    Along f (fun b a => P b a ∧ Q b a) b as := by
  induction as generalizing b with
  | nil => trivial
  | cons a as ih => exact ⟨⟨hP.1, hQ.1⟩, ih hP.2 hQ.2⟩

theorem Along.imp {P Q : β → α → Prop} (hPQ : ∀ b, ∀ a ∈ as, P b a → Q b a)
    (h : Along f P b as) : Along f Q b as := by
  induction as generalizing b with
  | nil => trivial
  | cons a as ih =>
    exact ⟨hPQ b a List.mem_cons_self h.1, ih (fun b a' ha' => hPQ b a' (List.mem_cons_of_mem _ ha')) h.2⟩

theorem Along.always (h : Along f P b as)
    (hstep : ∀ b a, P b a → I b → I (f b a)) (hb : I b) : Along f (fun b a => P b a ∧ I b) b as := by
  induction as generalizing b with
  | nil => trivial
  | cons a as ih => exact ⟨⟨h.1, hb⟩, ih h.2 (hstep b a h.1 hb)⟩

theorem along_of_foldl {F : β → Prop} (hback : ∀ b a, F (f b a) → F b)
    (h : F (as.foldl f b)) : F b ∧ Along f (fun b a => F (f b a)) b as := by
  induction as generalizing b with
  | nil => exact ⟨h, trivial⟩
  | cons a as ih =>
    obtain ⟨hfirst, hrest⟩ := ih h
    exact ⟨hback b a hfirst, hfirst, hrest⟩

theorem foldl_picks {f : Option α → α → Option α} {p : α → Prop}
    (hf : ∀ o a x, f o a = some x → o = some x ∨ a = x ∧ p a) {o : Option α} {x : α}
    (h : as.foldl f o = some x) : o = some x ∨ x ∈ as ∧ p x := by
  induction as generalizing o with
  | nil => exact .inl h
  | cons a as ih =>
    rcases ih h with hfirst | ⟨hmem, hx⟩
    · rcases hf o a x hfirst with ho | ⟨rfl, ha⟩
      · exact .inl ho
      · exact .inr ⟨List.mem_cons_self, ha⟩
    · exact .inr ⟨List.mem_cons_of_mem a hmem, hx⟩
