import Dumb.Lib.Waits

/-!
# The locks of the lifecycle operations

From `utils/auto_update.py` and `utils/processes.py`: what the operations take, give back and wait for, in order. `needs` says
whose starts provide what the start of a service waits for.
-/

namespace Dumb.Lifecycle

open Waits

inductive Lock where
  /-- `INFINIDYSK_MIGRATION_ADMISSION_LOCK` -/
  | admission
  /-- `Update.updating` -/
  | updating
  deriving DecidableEq

def reentrant : Lock → Bool
  | .admission => true
  | .updating => false

instance : Finite Lock := Finite.of_injective reentrant fun l m h => by
  cases l <;> cases m <;> first | rfl | cases h

section

variable {σ : Type}

abbrev Acts (σ : Type) : Type := List (Act Lock σ)

def within (l : Lock) (body : Acts σ) : Acts σ := .acquire l :: body ++ [.release l]

inductive Start where
  | blocked
  /-- It ends after so many of its waits: its setup fails, the process runs already, or a wait is given up. -/
  | ended (waits : Nat)
  | launched

inductive Attempt where
  /-- `stop_process` -/
  | stop
  /-- `Update.start_process` gives up after so many of its own waits. -/
  | waits (n : Nat)
  /-- `Update.start_process` with the start of the handler. -/
  | start (o : Start)
  | restart (o : Start)
  /-- `begin_planned`, `complete_planned` and the patches take the admission lock for a moment. -/
  | admitted

inductive Entry (σ : Type) where
  /-- `auto_update`: the attempts of `initial_update_check`, if it is made, and those that follow. -/
  | startup (s : σ) (blocked reserves : Bool) (first : Option (List Attempt)) (after : List Attempt)
  /-- `scheduled_update_check` -/
  | scheduled (s : σ) (before : List Attempt) (update : Option (List Attempt)) (after : List Attempt)
  /-- `manual_update_check` -/
  | check
  /-- `manual_update_install` -/
  | install (s : σ) (before : List Attempt) (update : Option (List Attempt)) (after : List Attempt)
  /-- `do_restart`: whether it stops the process, and how the start ends, if it is made. -/
  | restart (s : σ) (stops : Bool) (outcome : Option Start)
  /-- `ProcessHandler.start_process` -/
  | start (s : σ) (o : Start)

variable (needs : σ → List σ)

def startProcess (s : σ) : Start → Acts σ
  | .blocked => within .admission []
  | .ended n => within .admission [] ++ ((needs s).take n).map .await
  | .launched => within .admission [] ++ (needs s).map .await ++ [.started s]

def attempt (s : σ) : Attempt → Acts σ
  | .stop => [.stopped s]
  | .waits n => ((needs s).take n).map .await
  | .start o => (needs s).map .await ++ startProcess needs s o
  | .restart o => startProcess needs s o
  | .admitted => within .admission []

def attempts (s : σ) (as : List Attempt) : Acts σ := as.flatMap (attempt needs s)

/-- `scheduled_update_check` and `manual_update_install`: the whole update is admitted. -/
def update (s : σ) (before : List Attempt) (body : Option (List Attempt)) (after : List Attempt) : Acts σ :=
  within .admission <| attempts needs s before ++
    (match body with
      | some as => within .updating (attempts needs s as)
      | none => []) ++ attempts needs s after

def Entry.acts : Entry σ → Acts σ
  | .startup s blocked reserves first after =>
    let reservation := if reserves then within .admission [] else []
    if blocked then within .admission []
    else within .admission reservation ++
      (match first with
        | some as => within .updating (attempts needs s as)
        | none => []) ++ attempts needs s after ++ reservation
  | .scheduled s before body after => update needs s before body after
  | .check => within .updating []
  | .install s before body after => update needs s before body after
  | .restart s stops outcome => within .admission <| match outcome with
    | none => []
    | some o => (if stops then [.stopped s] else []) ++ startProcess needs s o
  | .start s o => startProcess needs s o

def threads (up : List σ) (entries : List (Entry σ)) : State Lock σ := ⟨up, entries.map fun e => ⟨[], e.acts needs⟩⟩

end

/-! ## Which runs of lifecycle operations cannot deadlock -/

variable {σ : Type} {needs : σ → List σ}

/-! ## What an operation waits for -/

def Own (needs : σ → List σ) (s : σ) (acts : Acts σ) : Prop :=
  ∀ act ∈ acts, (∀ t, act = .started t → t = s) ∧ ∀ t, act = .await t → t ∈ needs s

theorem Own.formed {s : σ} {acts : Acts σ} (h : Own needs s acts) : Formed needs acts := by
  rintro before t after rfl u hu
  have ht : t = s := (h (.started t) (by simp)).1 t rfl
  rw [ht]
  exact (h (.await u) (by simp [hu])).2 u rfl

theorem own_append {s : σ} {acts acts' : Acts σ} (h : Own needs s acts) (h' : Own needs s acts') : Own needs s (acts ++ acts') :=
  fun act hact => (List.mem_append.1 hact).elim (h act) (h' act)

variable (s : σ)

theorem own_nil : Own needs s ([] : Acts σ) := fun _ h => absurd h List.not_mem_nil

theorem own_within {s : σ} {acts : Acts σ} (l : Lock) (h : Own needs s acts) : Own needs s (within l acts) := by
  intro act hact
  simp only [within, List.cons_append, List.mem_cons, List.mem_append, List.not_mem_nil, or_false] at hact
  rcases hact with rfl | hact | rfl
  · constructor <;> intro u hu <;> cases hu
  · exact h act hact
  · constructor <;> intro u hu <;> cases hu

theorem own_awaits {s : σ} {ts : List σ} (h : ∀ t ∈ ts, t ∈ needs s) : Own needs s (ts.map .await : Acts σ) := by
  intro act hact
  obtain ⟨t, ht, rfl⟩ := List.mem_map.1 hact
  constructor
  · intro u hu
    cases hu
  · intro u hu
    cases hu
    exact h t ht

theorem own_startProcess (o : Start) : Own needs s (startProcess needs s o) := by
  have hadmission : Own needs s (within .admission []) := own_within _ (own_nil s)
  cases o with
  | blocked => exact hadmission
  | ended n => exact own_append hadmission (own_awaits fun t ht => List.mem_of_mem_take ht)
  | launched =>
    apply own_append (own_append hadmission (own_awaits fun t ht => ht))
    intro act hact
    rw [List.mem_singleton.1 hact]
    constructor
    · intro t ht
      cases ht
      rfl
    · intro t ht
      cases ht

theorem own_attempt (a : Attempt) : Own needs s (attempt needs s a) := by
  cases a with
  | stop =>
    intro act hact
    rw [List.mem_singleton.1 hact]
    constructor <;> intro t ht <;> cases ht
  | waits n => exact own_awaits fun t ht => List.mem_of_mem_take ht
  | start o => exact own_append (own_awaits fun t ht => ht) (own_startProcess s o)
  | restart o => exact own_startProcess s o
  | admitted => exact own_within _ (own_nil s)

theorem own_attempts (as : List Attempt) : Own needs s (attempts needs s as) := by
  intro act hact
  obtain ⟨a, -, hact⟩ := List.mem_flatMap.1 hact
  exact own_attempt s a act hact

theorem own_update (before : List Attempt) (body : Option (List Attempt)) (after : List Attempt) :
    Own needs s (update needs s before body after) := by
  apply own_within
  apply own_append (own_append (own_attempts s before) _) (own_attempts s after)
  cases body with
  | none => exact own_nil s
  | some as => exact own_within _ (own_attempts s as)

theorem formed_acts (e : Entry σ) : Formed needs (e.acts needs) := by
  cases e with
  | startup s blocked reserves first after =>
    have hreservation : Own needs s (if reserves then within .admission [] else []) := by
      split
      · exact own_within _ (own_nil s)
      · exact own_nil s
    apply Own.formed (s := s)
    cases blocked with
    | true => exact own_within _ (own_nil s)
    | false =>
      apply own_append (own_append (own_append (own_within _ hreservation) _) (own_attempts s after)) hreservation
      cases first with
      | none => exact own_nil s
      | some as => exact own_within _ (own_attempts s as)
  | scheduled s before body after => exact (own_update s before body after).formed
  | check =>
    intro before s after heq t ht
    have hmem : Act.await t ∈ (within .updating [] : Acts σ) := by
      change _ ∈ (Entry.check : Entry σ).acts needs
      rw [heq]
      exact List.mem_append_left _ ht
    simp [within] at hmem
  | install s before body after => exact (own_update s before body after).formed
  | restart s stops outcome =>
    apply Own.formed (s := s)
    apply own_within
    cases outcome with
    | none => exact own_nil s
    | some o =>
      apply own_append _ (own_startProcess s o)
      intro act hact
      split at hact
      · rw [List.mem_singleton.1 hact]
        constructor <;> intro u hu <;> cases hu
      · cases hact
  | start s o => exact (own_startProcess s o).formed

/-! ## The theorem -/

theorem inv_threads (up : List σ) (entries : List (Entry σ)) : Inv needs (threads needs up entries) where
  exclusive i j a b l ha _ hla _ := by
    obtain ⟨e, -, rfl⟩ := List.mem_map.1 (List.mem_of_getElem? ha)
    cases hla
  formed a ha := by
    obtain ⟨e, -, rfl⟩ := List.mem_map.1 ha
    exact formed_acts e

def rank : Lock → Nat
  | .admission => 0
  | .updating => 1

def installAndCheck : List (Entry String) := [.install "plex" [] (some [.stop, .start .launched]) [], .check]

def plexNeeds (s : String) : List String := if s = "plex" then ["rclone"] else []

theorem acyclic_plexNeeds : Acyclic plexNeeds := by
  have hplex : ∀ s t, t ∈ plexNeeds s → s = "plex" ∧ t = "rclone" := by
    intro s t ht
    unfold plexNeeds at ht
    split at ht
    · rename_i hs
      exact ⟨hs, List.mem_singleton.1 ht⟩
    · cases ht
  intro s hs
  obtain ⟨t, ht, -⟩ := Relation.TransGen.head'_iff.1 hs
  obtain ⟨u, -, hu⟩ := Relation.TransGen.tail'_iff.1 hs
  have hsame := (hplex s t ht).1.symm.trans (hplex u s hu).2
  exact absurd hsame (by decide)

def startupAndInstall : List (Entry String) :=
  [.startup "sonarr" false true (some [.start .launched]) [], .install "radarr" [] (some [.stop, .start .launched]) []]

def twoStartups : List (Entry String) :=
  [.startup "plex" false true (some [.start .launched]) [], .startup "rclone" false true (some [.start .launched]) []]

def restartAndStart : List (Entry String) := [.restart "plex" true (some .launched), .start "rclone" .launched]

end Dumb.Lifecycle
