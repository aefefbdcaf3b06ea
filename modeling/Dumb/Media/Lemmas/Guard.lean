import Dumb.Lib.Raise
import Dumb.Media.Adapters

/-!
# What a guard changes, and what a restore brings back

A restore goes from cell to cell and may stop anywhere. `Nearer` is what all its ends have in common: a cell is as it
was, or it is one that the guard changed and has the value from before the guard.
-/

namespace Dumb.Media

open Py Crash

variable {σ π κ α : Type}

/-! ## Requests -/

variable {R : String → σ → Prop} {C : σ → Prop}

theorem wp_request {eff : σ → Except String (α × σ)} {Q : α → σ → Prop} {s : σ}
    (hok : ∀ a s', eff s = .ok (a, s') → Q a s' ∧ ∀ e, R e s') (hraise : ∀ e, R e s) :
    Prog.wp Fate.NoDeath (request eff) Q R C s := by
  apply Prog.wp_call
  · exact fun a s' h => (hok a s' h).1
  · exact fun e _ => hraise e
  · intro e took _
    split
    · next h _ => exact (hok _ _ h).2 e
    · exact hraise e
  · exact fun _ h => absurd h (by simp)

theorem wp_ask {f : σ → α} {Q : α → σ → Prop} {s : σ} (hok : Q (f s) s)
    (hraise : ∀ e, R e s) : Prog.wp Fate.NoDeath (request fun s => .ok (f s, s)) Q R C s := by
  apply wp_request
  · intro a s' h
    cases h
    exact ⟨hok, hraise⟩
  · exact hraise

theorem wp_tolerated {p : Remote σ Unit} {I : σ → Prop} {s : σ}
    (h : Prog.wp Fate.NoDeath p (fun _ => I) (fun _ => I) C s) :
    Prog.wp Fate.NoDeath (tolerated p) (fun _ => I) R C s :=
  Prog.wp_tryExcept (Prog.wp_mono h (fun _ _ hI => hI) (fun _ _ hI => Prog.wp_pure hI) fun _ hC => hC)

/-! ## Cells -/

def Changed (a : Adapter σ π κ) (s₀ s₁ : σ) (c : κ) : Prop := a.cell s₁ c ≠ a.cell s₀ c

def Nearer (a : Adapter σ π κ) (s₀ s₁ s s' : σ) : Prop :=
  ∀ c, a.cell s' c = a.cell s c ∨ Changed a s₀ s₁ c ∧ a.cell s' c = a.cell s₀ c

def Held (a : Adapter σ π κ) (s₀ s₁ s : σ) : Prop :=
  ∀ c, Changed a s₀ s₁ c → a.cell s c = a.cell s₁ c ∨ a.cell s c = a.cell s₀ c

def Restored (a : Adapter σ π κ) (s₀ s₁ s : σ) : Prop := ∀ c, Changed a s₀ s₁ c → a.cell s c = a.cell s₀ c

variable {a : Adapter σ π κ} {s₀ s₁ s s' s'' : σ}

theorem Nearer.refl : Nearer a s₀ s₁ s s := fun _ => .inl rfl

theorem Nearer.trans (h : Nearer a s₀ s₁ s s') (h' : Nearer a s₀ s₁ s' s'') : Nearer a s₀ s₁ s s'' := by
  intro c
  rcases h' c with heq | hback
  · rw [heq]
    exact h c
  · exact .inr hback

theorem Nearer.held (h : Nearer a s₀ s₁ s s') (hheld : Held a s₀ s₁ s) : Held a s₀ s₁ s' := by
  intro c hc
  rcases h c with heq | hback
  · rw [heq]
    exact hheld c hc
  · exact .inr hback.2

theorem Nearer.same (h : Nearer a s₀ s₁ s s') {c : κ} (hc : ¬Changed a s₀ s₁ c) : a.cell s' c = a.cell s c :=
  (h c).resolve_right fun hback => hc hback.1

theorem Nearer.back (h : Nearer a s₀ s₁ s s') {c : κ} (hc : a.cell s c = a.cell s₀ c) : a.cell s' c = a.cell s₀ c :=
  (h c).elim (·.trans hc) And.right

theorem wp_forEach_nearer {ι : Type} {body : ι → Remote σ Unit} (Done : ι → σ → Prop)
    (hkeep : ∀ x s' s'', Nearer a s₀ s₁ s' s'' → Done x s' → Done x s'') :
    ∀ (items : List ι) {s : σ},
      (∀ x ∈ items, ∀ s', Nearer a s₀ s₁ s s' → Prog.wp Fate.NoDeath (body x)
        (fun _ s'' => Nearer a s₀ s₁ s' s'' ∧ Done x s'') (fun _ s'' => Nearer a s₀ s₁ s' s'') (fun _ => False) s') →
        Prog.wp Fate.NoDeath (Prog.forEach body items) (fun _ s' => Nearer a s₀ s₁ s s' ∧ ∀ x ∈ items, Done x s')
          (fun _ s' => Nearer a s₀ s₁ s s') (fun _ => False) s
  | [], s, _ => Prog.wp_pure ⟨.refl, by simp⟩
  | x :: items, s, hbody => by
    apply Prog.wp_bind
    apply Prog.wp_mono (hbody x List.mem_cons_self s .refl) _ (fun _ _ h => h) fun _ h => h
    rintro _ s' ⟨hnear, hx⟩
    have hrest := wp_forEach_nearer Done hkeep items (s := s') fun y hy s'' hnear' =>
      hbody y (List.mem_cons_of_mem _ hy) s'' (hnear.trans hnear')
    apply Prog.wp_mono hrest _ (fun _ _ h => hnear.trans h) fun _ h => h
    rintro _ s'' ⟨hnear', hitems⟩
    refine ⟨hnear.trans hnear', fun y hy => ?_⟩
    rcases List.mem_cons.1 hy with rfl | hy
    · exact hkeep _ _ _ hnear' hx
    · exact hitems y hy

/-! ## Between the guard and the recovery -/

inductive Event (σ : Type) where
  | edit (s : σ)
  | attempt (fates : List (Fate String Bool))

def Adapter.attempt (a : Adapter σ π κ) (snapshot : Option π) (fates : List (Fate String Bool)) (s : σ) :
    Crash.Result String Bool σ Unit :=
  match snapshot with
  | none => .done () s fates
  | some snapshot => a.restoreScanGuard snapshot s fates

def Adapter.after (a : Adapter σ π κ) (snapshot : Option π) (s : σ) : Event σ → σ
  | .edit s' => s'
  | .attempt fates => (a.attempt snapshot fates s).state

def Succeeds (a : Adapter σ π κ) (snapshot : Option π) (s : σ) (fates : List (Fate String Bool)) : Prop :=
  ∃ s' fates', a.attempt snapshot fates s = .done () s' fates'

def Permitted (a : Adapter σ π κ) (s₀ s₁ : σ) (s : σ) : Event σ → Prop
  | .edit s' => ∀ c, Changed a s₀ s₁ c → a.cell s' c = a.cell s c
  | .attempt fates => ∀ f ∈ fates, f.NoDeath

/-- What recoveries owe: all else stays at each of them, and one that succeeds brings back what the guard changed. -/
def Undone (a : Adapter σ π κ) (s₀ s₁ : σ) (snapshot : Option π) (s : σ) : Event σ → Prop
  | .edit _ => True
  | .attempt fates =>
    (∀ c, ¬Changed a s₀ s₁ c → a.cell (a.after snapshot s (.attempt fates)) c = a.cell s c) ∧
      (Succeeds a snapshot s fates → Restored a s₀ s₁ (a.after snapshot s (.attempt fates)))

/-- A restore from where the cells are held comes nearer, and restores all when it returns. -/
def Restores (a : Adapter σ π κ) (s₀ s₁ : σ) (snapshot : π) (s : σ) : Prop :=
  Prog.wp Fate.NoDeath (a.restoreScanGuard snapshot) (fun _ s' => Nearer a s₀ s₁ s s' ∧ Restored a s₀ s₁ s')
    (fun _ s' => Nearer a s₀ s₁ s s') (fun _ => False) s

theorem restores_run {snapshot : π} {fates : List (Fate String Bool)} (h : Restores a s₀ s₁ snapshot s)
    (hfates : ∀ f ∈ fates, f.NoDeath) :
    Nearer a s₀ s₁ s (a.after (some snapshot) s (.attempt fates)) ∧
      (Succeeds a (some snapshot) s fates → Restored a s₀ s₁ (a.after (some snapshot) s (.attempt fates))) := by
  have hrun := h fates hfates
  show Nearer a s₀ s₁ s (a.restoreScanGuard snapshot s fates).state ∧
    ((∃ s' fates', a.restoreScanGuard snapshot s fates = .done () s' fates') →
      Restored a s₀ s₁ (a.restoreScanGuard snapshot s fates).state)
  cases hr : a.restoreScanGuard snapshot s fates with
  | done _ s' fates' =>
    rw [hr] at hrun
    exact ⟨hrun.1.1, fun _ => hrun.1.2⟩
  | raised e s' fates' =>
    rw [hr] at hrun
    exact ⟨hrun.1, fun hdone => by simp at hdone⟩
  | died s' =>
    rw [hr] at hrun
    exact hrun.elim

/-- How the guard ended: with a snapshot from which a restore can start, or with nothing changed. -/
structure Entered (a : Adapter σ π κ) (current : π → σ → Prop) (s₀ s₁ : σ) (snapshot : Option π) : Prop where
  nothing : snapshot = none → ∀ c, ¬Changed a s₀ s₁ c
  restores : ∀ snap, snapshot = some snap → ∀ s, Held a s₀ s₁ s → current snap s → Restores a s₀ s₁ snap s

def CurrentAt (current : π → σ → Prop) (snapshot : Option π) (s : σ) : Event σ → Prop
  | .edit _ => True
  | .attempt _ => ∀ snap ∈ snapshot, current snap s

variable {current : π → σ → Prop} {snapshot : Option π}

theorem after_held {ev : Event σ}
    (hentered : Entered a current s₀ s₁ snapshot) (hpermitted : Permitted a s₀ s₁ s ev)
    (hcurrent : CurrentAt current snapshot s ev) (hheld : Held a s₀ s₁ s) :
    Held a s₀ s₁ (a.after snapshot s ev) := by
  cases ev with
  | edit s' =>
    intro c hc
    rw [Adapter.after, hpermitted c hc]
    exact hheld c hc
  | attempt fates =>
    cases snapshot with
    | none => exact hheld
    | some snap =>
      exact (restores_run (hentered.restores snap rfl s hheld (hcurrent snap rfl)) hpermitted).1.held hheld

theorem after_undone {ev : Event σ}
    (hentered : Entered a current s₀ s₁ snapshot) (hpermitted : Permitted a s₀ s₁ s ev)
    (hcurrent : CurrentAt current snapshot s ev) (hheld : Held a s₀ s₁ s) : Undone a s₀ s₁ snapshot s ev := by
  cases ev with
  | edit s' => trivial
  | attempt fates =>
    cases snapshot with
    | none => exact ⟨fun _ _ => rfl, fun _ c hc => absurd hc (hentered.nothing rfl c)⟩
    | some snap =>
      obtain ⟨hnear, hrestored⟩ :=
        restores_run (hentered.restores snap rfl s hheld (hcurrent snap rfl)) hpermitted
      exact ⟨fun c hc => hnear.same hc, hrestored⟩

theorem run_undone (hentered : Entered a current s₀ s₁ snapshot)
    {events : List (Event σ)} (hpermitted : Along (a.after snapshot) (Permitted a s₀ s₁) s₁ events)
    (hcurrent : Along (a.after snapshot) (CurrentAt current snapshot) s₁ events) :
    Along (a.after snapshot) (Undone a s₀ s₁ snapshot) s₁ events := by
  have halways := (hpermitted.and hcurrent).always (I := Held a s₀ s₁)
    (fun s ev h hheld => after_held hentered h.1 h.2 hheld) fun _ _ => .inl rfl
  exact halways.imp fun s ev _ h => after_undone hentered h.1.1 h.1.2 h.2

end Dumb.Media

/-! ## The guard of Plex

The settings go out in one request, so that a snapshot tells all that was changed.
-/

namespace Dumb.Media.Plex

open Py Crash

theorem get?_foldl_set (c : String) : ∀ (updates : Dict String Json) (s : Plex),
    (∃ u ∈ updates, u.1 = c ∧ (updates.foldl (fun s u => s.set u.1 u.2) s).get? c = some u.2) ∨
      c ∉ Dict.keys updates ∧ (updates.foldl (fun s u => s.set u.1 u.2) s).get? c = s.get? c
  | [], s => .inr ⟨List.not_mem_nil, rfl⟩
  | u :: updates, s => by
    rw [List.foldl_cons]
    rcases get?_foldl_set c updates (s.set u.1 u.2) with ⟨v, hv, hvc, hget⟩ | ⟨hnot, hget⟩
    · exact .inl ⟨v, List.mem_cons_of_mem _ hv, hvc, hget⟩
    · rw [Dict.get?_set] at hget
      by_cases hc : c = u.1
      · rw [if_pos hc] at hget
        exact .inl ⟨u, List.mem_cons_self, hc.symm, hget⟩
      · rw [if_neg hc] at hget
        refine .inr ⟨?_, hget⟩
        rw [Dict.keys, List.map_cons, List.mem_cons, not_or]
        exact ⟨hc, hnot⟩

theorem wp_connect {Q : Plex → Plex → Prop} {R : String → Plex → Prop} {C : Plex → Prop} {s : Plex} (hok : Q s s)
    (hraise : ∀ e, R e s) : Prog.wp Fate.NoDeath connect Q R C s :=
  Prog.wp_bind (wp_ask (wp_ask hok hraise) hraise)

theorem wp_setting {Q : Json → Plex → Prop} {R : String → Plex → Prop} {C : Plex → Prop} {s settings : Plex}
    {id : String} (hok : ∀ value, settings.get? id = some value → Q value s) (hraise : ∀ e, R e s) :
    Prog.wp Fate.NoDeath (setting settings id) Q R C s := by
  unfold setting
  split
  · next value hget => exact Prog.wp_pure (hok value hget)
  · exact Prog.wp_throw (hraise _)

theorem wp_save {updates : Dict String Json} {Q : Unit → Plex → Prop} {R : String → Plex → Prop} {C : Plex → Prop}
    {s : Plex} (hok : Q () (updates.foldl (fun s u => s.set u.1 u.2) s))
    (hraise : ∀ e, R e s ∧ R e (updates.foldl (fun s u => s.set u.1 u.2) s)) :
    Prog.wp Fate.NoDeath (save updates) Q R C s := by
  unfold save
  split
  · next hnil =>
    subst hnil
    exact Prog.wp_pure hok
  · apply wp_request
    · intro _ s' h
      cases h
      exact ⟨hok, fun e => (hraise e).2⟩
    · exact fun e => (hraise e).1

theorem wp_readSettings {settings s : Plex} {R : String → Plex → Prop} {C : Plex → Prop} (hraise : ∀ e, R e s) :
    ∀ (ids : List String) {Q : Dict String Json → Plex → Prop},
      (∀ values, Dict.keys values = ids → (∀ v ∈ values, settings.get? v.1 = some v.2) → Q values s) →
        Prog.wp Fate.NoDeath (readSettings settings ids) Q R C s
  | [], Q, hok => Prog.wp_pure (hok [] rfl (by simp))
  | id :: ids, Q, hok => by
    apply Prog.wp_bind
    apply wp_setting _ hraise
    intro value hget
    apply Prog.wp_bind
    apply wp_readSettings hraise ids
    intro values hkeys hvalues
    apply Prog.wp_pure
    apply hok
    · rw [Dict.keys, List.map_cons]
      exact congrArg (id :: ·) hkeys
    · intro v hv
      rcases List.mem_cons.1 hv with rfl | hv
      · exact hget
      · exact hvalues v hv

structure Tells (s₀ s₁ : Plex) (snapshot : Snapshot) : Prop where
  changed : ∀ id ∈ snapshot.changed, ∃ value, s₀.get? id = some value ∧ value ≠ .bool false ∧
    snapshot.settings.get? id = some value ∧ s₁.get? id = some (.bool false)
  rest : ∀ id, id ∉ snapshot.changed → s₁.get? id = s₀.get? id

theorem enter_tells (s₀ : Plex) :
    Prog.wp Fate.NoDeath enterScanGuard (fun snapshot s₁ => Tells s₀ s₁ snapshot) (fun _ _ => True) (fun _ => False)
      s₀ := by
  apply Prog.wp_bind
  apply wp_connect _ fun _ => trivial
  apply Prog.wp_bind
  apply wp_readSettings (fun _ => trivial) guardedSettings
  intro values hkeys hvalues
  have hnodup : (Dict.keys values).Nodup := by
    rw [hkeys]
    decide
  dsimp only
  apply Prog.wp_bind
  apply wp_save _ fun _ => ⟨trivial, trivial⟩
  apply Prog.wp_bind
  have htells : Tells s₀ ((((values.filter fun v => !isBool false v.2).map (·.1)).map fun id => (id, .bool false)).foldl
      (fun s u => s.set u.1 u.2) s₀) ⟨values, (values.filter fun v => !isBool false v.2).map (·.1)⟩ := by
    have hkey : ∀ u ∈ ((values.filter fun v => !isBool false v.2).map (·.1)).map fun id => (id, Json.bool false),
        u.1 ∈ (values.filter fun v => !isBool false v.2).map (·.1) ∧ u.2 = .bool false := by
      intro u hu
      obtain ⟨id, hid, rfl⟩ := List.mem_map.1 hu
      exact ⟨hid, rfl⟩
    constructor
    · intro id hid
      obtain ⟨v, hv, rfl⟩ := List.mem_map.1 hid
      obtain ⟨hv, hfalse⟩ := List.mem_filter.1 hv
      refine ⟨v.2, hvalues v hv, fun heq => ?_, Dict.get?_of_mem hnodup hv, ?_⟩
      · rw [heq] at hfalse
        cases hfalse
      · rcases get?_foldl_set v.1 _ s₀ with ⟨u, hu, -, hget⟩ | ⟨hnot, -⟩
        · exact hget.trans (congrArg some (hkey u hu).2)
        · apply absurd _ hnot
          rw [Dict.keys, List.map_map]
          simpa using hid
    · intro id hid
      rcases get?_foldl_set id _ s₀ with ⟨u, hu, hid', -⟩ | ⟨-, hget⟩
      · exact absurd (hid' ▸ (hkey u hu).1) hid
      · exact hget
  apply wp_tolerated
  apply wp_ask
  · exact Prog.wp_pure htells
  · exact fun _ => Prog.wp_pure htells

theorem wp_restored {settings s : Plex} {snapshot : Snapshot} {R : String → Plex → Prop} {C : Plex → Prop}
    (hraise : ∀ e, R e s) : ∀ (ids : List String) {Q : Dict String Json → Plex → Prop},
      (∀ updates : Dict String Json,
        (∀ u ∈ updates, u.1 ∈ ids ∧ u.2 = (snapshot.settings.get? u.1).getD .null) →
        (∀ id ∈ ids, settings.get? id = some (.bool false) → (snapshot.settings.get? id).getD .null ≠ .bool false →
          id ∈ Dict.keys updates) → Q updates s) →
        Prog.wp Fate.NoDeath (restored settings snapshot ids) Q R C s
  | [], Q, hok => Prog.wp_pure (hok [] (by simp) (by simp))
  | id :: ids, Q, hok => by
    apply Prog.wp_bind
    apply wp_setting _ hraise
    intro value hget
    apply Prog.wp_bind
    apply wp_restored hraise ids
    intro updates hfrom hall
    apply Prog.wp_pure
    split
    · next hset =>
      apply hok
      · intro u hu
        rcases List.mem_cons.1 hu with rfl | hu
        · exact ⟨List.mem_cons_self, rfl⟩
        · exact ⟨List.mem_cons_of_mem _ (hfrom u hu).1, (hfrom u hu).2⟩
      · intro id' hid' hfalse horig
        rcases List.mem_cons.1 hid' with rfl | hid'
        · exact List.mem_cons_self
        · exact List.mem_cons_of_mem _ (hall id' hid' hfalse horig)
    · next hset =>
      apply hok
      · exact fun u hu => ⟨List.mem_cons_of_mem _ (hfrom u hu).1, (hfrom u hu).2⟩
      · intro id' hid' hfalse horig
        rcases List.mem_cons.1 hid' with rfl | hid'
        · rw [hget, Option.some.injEq] at hfalse
          apply absurd _ hset
          rw [hfalse, Bool.and_eq_true, Bool.not_eq_true', Bool.eq_false_iff]
          exact ⟨rfl, mt isBool_iff.1 horig⟩
        · exact hall id' hid' hfalse horig

theorem restores {s₀ s₁ s : Plex} {snapshot : Snapshot} (htells : Tells s₀ s₁ snapshot)
    (hheld : Held plexAdapter s₀ s₁ s) : Restores plexAdapter s₀ s₁ snapshot s := by
  have hchanged : ∀ c, Changed plexAdapter s₀ s₁ c ↔ c ∈ snapshot.changed := by
    intro c
    constructor
    · intro hc
      by_contra hnot
      exact hc (htells.rest c hnot)
    · intro hc heq
      obtain ⟨value, hget, hvalue, -, hget₁⟩ := htells.changed c hc
      have hsame : s₁.get? c = s₀.get? c := heq
      rw [hget, hget₁, Option.some.injEq] at hsame
      exact hvalue hsame.symm
  apply Prog.wp_bind
  apply wp_connect _ fun _ => .refl
  apply Prog.wp_bind
  apply wp_restored (fun _ => .refl)
  intro updates hfrom hall
  have hnear : Nearer plexAdapter s₀ s₁ s (updates.foldl (fun s u => s.set u.1 u.2) s) := by
    intro c
    rcases get?_foldl_set c updates s with ⟨u, hu, rfl, hget⟩ | ⟨-, hget⟩
    · obtain ⟨hin, hu⟩ := hfrom u hu
      obtain ⟨value, hget₀, -, hsnap, -⟩ := htells.changed u.1 hin
      refine .inr ⟨(hchanged u.1).2 hin, hget.trans ?_⟩
      rw [hu, hsnap]
      exact hget₀.symm
    · exact .inl hget
  apply wp_save _ fun _ => ⟨.refl, hnear⟩
  refine ⟨hnear, fun c hc => ?_⟩
  have hin := (hchanged c).1 hc
  obtain ⟨value, hget₀, hvalue, hsnap, hget₁⟩ := htells.changed c hin
  rcases hheld c hc with hoff | hback
  · have hfalse : s.get? c = some (.bool false) := Eq.trans hoff hget₁
    have hkey := hall c hin hfalse (by rwa [hsnap, Option.getD_some])
    rcases get?_foldl_set c updates s with ⟨u, hu, rfl, hget⟩ | ⟨hnot, -⟩
    · refine Eq.trans hget ?_
      rw [(hfrom u hu).2, hsnap]
      exact hget₀.symm
    · exact absurd hkey hnot
  · exact hnear.back hback

end Dumb.Media.Plex
