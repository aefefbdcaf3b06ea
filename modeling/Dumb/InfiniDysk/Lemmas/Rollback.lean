import Dumb.InfiniDysk.Cutover

/-!
# The namespace cutover, back
-/

namespace Dumb.InfiniDysk

open Py Crash

namespace Saga

open Prog

variable {κ : Type} {env : Env κ} {c : Captured κ}

/-! ## What a step back keeps -/

structure Kept (c : Captured κ) (l l' : Locals κ) : Prop where
  moved : l'.moved = l.moved
  preflight : l'.preflight = l.preflight
  scanGuards : l'.scanGuards = l.scanGuards
  state : l'.state = l.state
  running : ∀ name ∈ l.running, name ∈ l'.running
  errors : ∀ error ∈ l.rollbackErrors, error ∈ l'.rollbackErrors
  config : l.config = c.backupConfig → l'.config = c.backupConfig

theorem Kept.refl (l : Locals κ) : Kept c l l := ⟨rfl, rfl, rfl, rfl, fun _ => id, fun _ => id, id⟩

theorem Kept.trans {l l' l'' : Locals κ} (h : Kept c l l') (h' : Kept c l' l'') : Kept c l l'' where
  moved := h'.moved.trans h.moved
  preflight := h'.preflight.trans h.preflight
  scanGuards := h'.scanGuards.trans h.scanGuards
  state := h'.state.trans h.state
  running name hname := h'.running name (h.running name hname)
  errors error herror := h'.errors error (h.errors error herror)
  config hconfig := h'.config (h.config hconfig)

structure Quiet (c : Captured κ) (s s' : Asked Op (Locals κ)) : Prop where
  calls : Adds (fun o => unguarded o = false) s s'
  kept : Kept c s.locals s'.locals

theorem quiet : Frame (Quiet c) where
  refl _ := ⟨.of_eq rfl, .refl _⟩
  trans h h' := ⟨h.calls.trans h'.calls, h.kept.trans h'.kept⟩

structure Back (c : Captured κ) (s s' : Asked Op (Locals κ)) : Prop where
  calls : Adds (fun o => o ≠ .saveFailureState) s s'
  kept : Kept c s.locals s'.locals

theorem back : Frame (Back c) where
  refl _ := ⟨.of_eq rfl, .refl _⟩
  trans h h' := ⟨h.calls.trans h'.calls, h.kept.trans h'.kept⟩

structure Later (c : Captured κ) (s s' : Asked Op (Locals κ)) : Prop where
  calls : Adds (fun _ => True) s s'
  errors : ∀ error ∈ s.locals.rollbackErrors, error ∈ s'.locals.rollbackErrors
  config : s.locals.config = c.backupConfig → s'.locals.config = c.backupConfig

theorem Back.later {s s' : Asked Op (Locals κ)} (h : Back c s s') : Later c s s' := by
  obtain ⟨more, hcalls, -⟩ := h.calls
  exact ⟨⟨more, hcalls, fun _ _ => trivial⟩, h.kept.errors, h.kept.config⟩

theorem Quiet.back {s s' : Asked Op (Locals κ)} (h : Quiet c s s') : Back c s s' := by
  obtain ⟨more, hcalls, hmore⟩ := h.calls
  refine ⟨⟨more, hcalls, fun o ho => ?_⟩, h.kept⟩
  rintro rfl
  exact absurd (hmore _ ho) nofun

theorem quiet_call {o : Op} (h : unguarded o = false) : Within (Quiet c) (call env o) :=
  within_ask fun s => ⟨adds_ask (P := fun o => unguarded o = false) h s, .refl _⟩

theorem quiet_assign {f : Locals κ → Locals κ} (h : ∀ l, Kept c l (f l)) : Within (Quiet c) (assign f : Saga κ Unit) :=
  within_assign fun s => ⟨.of_eq rfl, h s.locals⟩

theorem quiet_ite {α : Type} {P : Prop} [Decidable P] {p q : Saga κ α} (hp : Within (Quiet c) p) (hq : Within (Quiet c) q) :
    Within (Quiet c) (if P then p else q) := by
  split
  · exact hp
  · exact hq

theorem quiet_healthChecksRestored : Within (Quiet c) (healthChecksRestored : Saga κ Unit) :=
  quiet_assign fun _ => ⟨rfl, rfl, rfl, rfl, fun _ => id, fun _ => id, id⟩

theorem quiet_addErrors (errors : List String) : Within (Quiet c) (addErrors errors) :=
  quiet_assign fun _ => ⟨rfl, rfl, rfl, rfl, fun _ => id, fun _ h => List.mem_append_left _ h, id⟩

variable {label : String} {p : Saga κ Unit}

theorem quiet_attempt (hp : Within (Quiet c) p) : Within (Quiet c) (attempt label p) :=
  quiet.tryExcept hp fun _ => quiet_addErrors [_]

theorem quiet_restoreHealthChecks (config : κ) (verifyOffline : Bool) :
    Within (Quiet c) (restoreHealthChecks env config verifyOffline) :=
  quiet.bind quiet.locals fun _ =>
  quiet_ite (quiet.pure _) <|
  quiet_ite quiet_healthChecksRestored <|
  quiet.bind (quiet_call rfl) fun _ =>
  quiet_ite (quiet.bind (quiet_call rfl) fun _ => quiet_healthChecksRestored) <|
  quiet_ite (quiet.throw _) <|
  quiet.bind (quiet_call rfl) fun _ =>
  quiet_ite (quiet.throw _) quiet_healthChecksRestored

theorem quiet_resumeHealthChecks (hp : Within (Quiet c) p) :
    Within (Quiet c) (resumeHealthChecks label p) :=
  quiet.bind quiet.locals fun _ =>
  quiet_ite (quiet_attempt hp) (quiet.pure _)

theorem quiet_resumeBeforeRollback : Within (Quiet c) (resumeBeforeRollback env) :=
  quiet_resumeHealthChecks <|
  quiet.bind quiet.locals fun _ =>
  quiet.bind (quiet_call rfl) fun _ =>
  quiet_ite (quiet.bind (quiet_restoreHealthChecks _ _) fun _ => quiet_call rfl) (quiet.pure _)

theorem quiet_stopMigrated : Within (Quiet c) (stopMigrated env c) :=
  quiet_attempt <|
  quiet.bind quiet.locals fun _ =>
  quiet.bind (quiet_call rfl) fun _ =>
  quiet_ite
    (quiet_ite
      (quiet.bind (quiet_assign fun _ => ⟨rfl, rfl, rfl, rfl, fun _ h => List.mem_append_left _ h, fun _ => id, id⟩) fun _ =>
        quiet.bind (quiet_call rfl) fun _ => quiet.pure _)
      (quiet.bind (quiet_call rfl) fun _ => quiet.pure _))
    (quiet.bind (quiet_call rfl) fun _ => quiet.pure _)

theorem quiet_restoreSymlinkTargets : Within (Quiet c) (restoreSymlinkTargets env) :=
  quiet_attempt <|
  quiet.bind quiet.locals fun _ =>
  quiet.bind (quiet_call rfl) fun _ =>
  quiet_ite (quiet.bind (quiet_call rfl) fun _ => quiet_ite (quiet_addErrors _) (quiet.pure _)) (quiet.pure _)

theorem quiet_rollbackNamespacePaths : Within (Quiet c) (rollbackNamespacePaths env) :=
  quiet.bind quiet.locals fun _ =>
  quiet.forEach fun _ _ => quiet_attempt (quiet_call rfl)

theorem quiet_restoreConfig : Within (Quiet c) (restoreConfig env c) :=
  quiet_attempt <|
  quiet.bind (quiet_assign fun _ => ⟨rfl, rfl, rfl, rfl, fun _ => id, fun _ => id, fun _ => rfl⟩) fun _ =>
  quiet_ite
    (quiet.bind (quiet_call rfl) fun _ =>
      quiet.bind (quiet_assign fun _ => ⟨rfl, rfl, rfl, rfl, fun _ => id, fun _ => id, id⟩) fun _ => quiet_call rfl)
    (quiet_call rfl)

theorem quiet_restartServices : Within (Quiet c) (restartServices env c) :=
  quiet.bind
    (quiet_attempt <| quiet.bind quiet.locals fun _ => quiet.bind (quiet_call rfl) fun _ => quiet_addErrors _) fun _ =>
  quiet_resumeHealthChecks <|
  quiet.bind (quiet_restoreHealthChecks _ _) fun _ =>
  quiet_call rfl

theorem quiet_restoreReferences (api : Api) (label : String) (originals : List Snapshot) :
    Within (Quiet c) (restoreReferences env api label originals) :=
  quiet.forEach fun _ _ =>
  quiet_attempt <|
  quiet.bind (quiet_call rfl) fun _ =>
  quiet.bind (quiet_call rfl) fun _ =>
  quiet_call rfl

theorem quiet_restoreScanGuards : Within (Quiet c) (restoreScanGuards env) :=
  quiet.bind quiet.locals fun _ =>
  quiet.forEach fun _ _ => quiet_attempt (quiet_call rfl)

/-! ## What a step back brings about -/

def since (n : Nat) (s : Asked Op (Locals κ)) : List Op := s.calls.drop n

def Tried (n : Nat) (P : Op → Prop) (label : String) (s : Asked Op (Locals κ)) : Prop :=
  (∃ o ∈ since n s, P o) ∨ ∃ message, label ++ message ∈ s.locals.rollbackErrors

variable {n : Nat} {s s' : Asked Op (Locals κ)}

theorem since_adds {P : Op → Prop} (h : Adds P s s') {o : Op} (ho : o ∈ since n s) : o ∈ since n s' := by
  obtain ⟨more, hcalls, -⟩ := h
  rw [since, hcalls, List.drop_append]
  exact List.mem_append_left _ ho

theorem since_ask (h : n ≤ s.calls.length) (o : Op) : o ∈ since n (s.ask o) := by
  rw [since, Asked.ask, List.drop_append_of_le_length h]
  exact List.mem_append_right _ (List.mem_singleton_self o)

theorem Tried.later {P : Op → Prop} (ht : Tried n P label s) (h : Later c s s') : Tried n P label s' := by
  rcases ht with ⟨o, ho, hP⟩ | ⟨message, hmessage⟩
  · exact .inl ⟨o, since_adds h.calls ho, hP⟩
  · exact .inr ⟨message, h.errors _ hmessage⟩

theorem Back.length (h : Back c s s') : s.calls.length ≤ s'.calls.length := by
  obtain ⟨more, hcalls, -⟩ := h.calls
  rw [hcalls, List.length_append]
  omega

theorem ask_length (o : Op) (h : n ≤ s.calls.length) : n ≤ (s.ask o).calls.length := by
  rw [Asked.ask, List.length_append]
  omega

def noted (label : String) (e : Exn) (s : Asked Op (Locals κ)) : Asked Op (Locals κ) :=
  { s with locals := { s.locals with rollbackErrors := s.locals.rollbackErrors ++ [label ++ e.message] } }

theorem tried_noted {P : Op → Prop} (label : String) (e : Exn) (s : Asked Op (Locals κ)) : Tried n P label (noted label e s) :=
  .inr ⟨e.message, by simp [noted]⟩

theorem ends_attempt {D : Asked Op (Locals κ) → Prop}
    (h : Ends p (fun _ s' => D s') (fun e s' => D (noted label e s')) s) :
    Ends (attempt label p) (fun _ s' => D s') (fun _ _ => False) s :=
  wp_tryExcept (wp_mono h (fun _ _ h => h) (fun _ _ h => wp_assign h) fun _ h => h)

theorem ends_stopMigrated (h : n ≤ s.calls.length) : Ends (stopMigrated env c)
    (fun _ s' => Tried n (fun o => ∃ names, o = .stopProcesses names ∧ ∀ name ∈ s.locals.running, renamed env c name ∈ names)
      "stop: " s') (fun _ _ => False) s := by
  have hstop : ∀ {names : List String} {s' : Asked Op (Locals κ)}, n ≤ s'.calls.length →
      (∀ name ∈ s.locals.running, renamed env c name ∈ names) →
        Ends (do let _ ← call env (.stopProcesses names))
          (fun _ s' => Tried n (fun o => ∃ names, o = .stopProcesses names ∧ ∀ name ∈ s.locals.running, renamed env c name ∈ names)
            "stop: " s') (fun e s' => Tried n
              (fun o => ∃ names, o = .stopProcesses names ∧ ∀ name ∈ s.locals.running, renamed env c name ∈ names)
                "stop: " (noted "stop: " e s')) s' := by
    intro names s' h' hnames
    apply wp_bind
    apply ends_ask
    · exact fun _ _ => wp_pure (.inl ⟨_, since_ask h' _, names, rfl, hnames⟩)
    · exact fun e _ => tried_noted _ e _
  have hrenamed : ∀ name ∈ s.locals.running, renamed env c name ∈ s.locals.running.map (renamed env c) :=
    fun name hname => List.mem_map_of_mem hname
  apply ends_attempt
  apply wp_bind
  apply wp_locals
  apply wp_bind
  apply ends_ask
  · intro isRunning _
    dsimp only
    split
    · split
      · apply wp_bind
        apply wp_assign
        exact hstop (ask_length _ h) fun name hname => List.mem_append_left _ (hrenamed name hname)
      · exact hstop (ask_length _ h) fun name hname => List.mem_append_left _ (hrenamed name hname)
    · exact hstop (ask_length _ h) hrenamed
  · exact fun e _ => tried_noted _ e _

/-- The roots that are directories are gone through, unless asking for them or going through them raised. -/
def TargetsRestored (env : Env κ) (n : Nat) (moved : List Action) (s : Asked Op (Locals κ)) : Prop :=
  ∃ k, match env.outside (.directoriesAmong ((moved.filter (isSymlinkRoot env.text)).map (·.destination))) k with
    | .ok (roots : List String) =>
      roots ≠ [] → .repairSymlinks roots "/mnt/debrid/infinidysk" "/mnt/debrid/nzbdav" ∈ since n s
    | .error e => "symlink targets: " ++ e.message ∈ s.locals.rollbackErrors

theorem TargetsRestored.later {moved : List Action} (ht : TargetsRestored env n moved s) (h : Later c s s') :
    TargetsRestored env n moved s' := by
  obtain ⟨k, hk⟩ := ht
  refine ⟨k, ?_⟩
  split at hk
  case h_1 => exact fun hroots => since_adds h.calls (hk hroots)
  case h_2 => exact h.errors _ hk

theorem ends_restoreSymlinkTargets (h : n ≤ s.calls.length) : Ends (restoreSymlinkTargets env)
    (fun _ s' => TargetsRestored env n s.locals.moved s') (fun _ _ => False) s := by
  apply ends_attempt
  apply wp_bind
  apply wp_locals
  apply wp_bind
  apply ends_ask
  · intro roots hroots
    have hdone : ∀ {s' : Asked Op (Locals κ)}, (roots ≠ ([] : List String) →
        .repairSymlinks roots "/mnt/debrid/infinidysk" "/mnt/debrid/nzbdav" ∈ since n s') →
          TargetsRestored env n s.locals.moved s' := by
      intro s' hs'
      unfold TargetsRestored
      exact ⟨_, by rw [hroots]; exact hs'⟩
    split
    case isFalse hnone => exact wp_pure (hdone fun hne => absurd hne hnone)
    case isTrue =>
      have hcalled : ∀ {s₁ s' : Asked Op (Locals κ)}, n ≤ s₁.calls.length →
          s'.calls = (s₁.ask (.repairSymlinks roots "/mnt/debrid/infinidysk" "/mnt/debrid/nzbdav")).calls →
            TargetsRestored env n s.locals.moved s' := by
        intro s₁ s' h' hcalls
        apply hdone
        intro _
        rw [since, hcalls]
        exact since_ask h' _
      apply wp_bind
      apply ends_ask
      · intro errors _
        split
        · exact wp_assign (hcalled (ask_length _ h) rfl)
        · exact wp_pure (hcalled (ask_length _ h) rfl)
      · exact fun _ _ => hcalled (ask_length _ h) rfl
  · intro e he
    unfold TargetsRestored
    exact ⟨_, by rw [he]; simp [noted]⟩

theorem ends_attempts {β : Type} (c : Captured κ) (label : β → String) (body : β → Saga κ Unit)
    (D : β → Asked Op (Locals κ) → Prop) (hquiet : ∀ x, Within (Quiet c) (body x))
    (hkeep : ∀ x s s', Back c s s' → D x s → D x s')
    (hbody : ∀ x s, n ≤ s.calls.length → Ends (attempt (label x) (body x)) (fun _ s' => D x s') (fun _ _ => False) s) :
    ∀ (xs : List β) {s : Asked Op (Locals κ)}, n ≤ s.calls.length →
      Ends (forEach (fun x => attempt (label x) (body x)) xs) (fun _ s' => ∀ x ∈ xs, D x s') (fun _ _ => False) s
  | [], _, _ => wp_pure fun x hx => absurd hx List.not_mem_nil
  | x :: xs, s, h => by
    apply wp_bind
    apply wp_mono (wp_within (hbody x s h) (quiet_attempt (hquiet x)))
    · rintro - s₁ ⟨hx, hs₁⟩
      have hrest := ends_attempts c label body D hquiet hkeep hbody xs (Nat.le_trans h hs₁.back.length)
      apply wp_mono (wp_within hrest (quiet.forEach fun x _ => quiet_attempt (hquiet x)))
      · rintro - s₂ ⟨hxs, hs₂⟩ y hy
        rcases List.mem_cons.1 hy with rfl | hy
        · exact hkeep _ _ _ hs₂.back hx
        · exact hxs y hy
      · exact fun _ _ h => h.1.elim
      · exact fun _ h => h.1
    · exact fun _ _ h => h.1.elim
    · exact fun _ h => h.1

theorem ends_call (h : n ≤ s.calls.length) (o : Op) :
    Ends (call env o) (fun _ s' => o ∈ since n s') (fun _ s' => o ∈ since n s') s :=
  ends_ask (fun _ _ => since_ask h o) fun _ _ => since_ask h o

theorem ends_rollbackNamespacePaths (h : n ≤ s.calls.length) : Ends (rollbackNamespacePaths env)
    (fun _ s' => ∀ action ∈ s.locals.moved, .rollbackNamespacePath action ∈ since n s') (fun _ _ => False) s := by
  apply wp_bind
  apply wp_locals
  have hall := ends_attempts ⟨s.locals.config, false, [], [], "", false⟩
    (fun action : Action => action.destination ++ " -> " ++ action.source ++ ": ")
    (fun action => call env (.rollbackNamespacePath action)) (fun action s' => .rollbackNamespacePath action ∈ since n s')
    (fun _ => quiet_call rfl) (fun _ _ _ hs h => since_adds hs.calls h)
    (fun action _ h => ends_attempt (ends_call h (.rollbackNamespacePath action))) s.locals.moved.reverse h
  exact wp_mono hall (fun _ _ h action haction => h action (List.mem_reverse.2 haction)) (fun _ _ h => h) fun _ h => h

theorem ends_restoreScanGuards (h : n ≤ s.calls.length) : Ends (restoreScanGuards env)
    (fun _ s' => ∀ guard ∈ s.locals.scanGuards, .restoreScanGuard guard ∈ since n s') (fun _ _ => False) s := by
  apply wp_bind
  apply wp_locals
  exact ends_attempts ⟨s.locals.config, false, [], [], "", false⟩ (fun guard : ScanGuard => guard.processName ++ " scan guard: ")
    (fun guard => call env (.restoreScanGuard guard)) (fun guard s' => .restoreScanGuard guard ∈ since n s')
    (fun _ => quiet_call rfl) (fun _ _ _ hs h => since_adds hs.calls h)
    (fun guard _ h => ends_attempt (ends_call h (.restoreScanGuard guard))) s.locals.scanGuards h

def ReferencesRestored (n : Nat) (api : Api) (label : String) (originals : List Snapshot) (s : Asked Op (Locals κ)) : Prop :=
  ∀ original ∈ originals, Tried n (· = .applySnapshot api original.processName true) (original.processName ++ label) s

theorem ReferencesRestored.later {api : Api} {originals : List Snapshot}
    (hr : ReferencesRestored n api label originals s) (h : Later c s s') : ReferencesRestored n api label originals s' :=
  fun original ho => (hr original ho).later h

theorem ends_restoreReferences (api : Api) (label : String) (originals : List Snapshot) (h : n ≤ s.calls.length) :
    Ends (restoreReferences env api label originals) (fun _ s' => ReferencesRestored n api label originals s')
      (fun _ _ => False) s := by
  apply ends_attempts ⟨s.locals.config, false, [], [], "", false⟩ (fun original : Snapshot => original.processName ++ label)
  · exact fun _ => quiet.bind (quiet_call rfl) fun _ => quiet.bind (quiet_call rfl) fun _ => quiet_call rfl
  · exact fun _ _ _ hs h => h.later hs.later
  · intro original s h
    have hmade : ∀ {s' : Asked Op (Locals κ)} {o : Op},
        s'.calls = ((s.ask (.status api original.processName)).ask (.applySnapshot api original.processName true)).calls →
          Tried n (· = .applySnapshot api original.processName true) (original.processName ++ label) (s'.ask o) := by
      intro s' o hcalls
      refine .inl ⟨.applySnapshot api original.processName true, ?_, rfl⟩
      have hmem := since_ask (ask_length (.status api original.processName) h) (.applySnapshot api original.processName true)
      rw [since, ← hcalls] at hmem
      exact since_adds (adds_ask (P := fun _ => True) trivial s') hmem
    apply ends_attempt
    apply wp_bind
    apply ends_ask
    · intro _ _
      apply wp_bind
      apply ends_ask
      · intro _ _
        apply ends_ask
        · exact fun _ _ => hmade rfl
        · exact fun e _ => tried_noted _ e _
      · exact fun e _ => tried_noted _ e _
    · exact fun e _ => tried_noted _ e _
  · exact h

theorem ends_restoreConfig (h : n ≤ s.calls.length) : Ends (restoreConfig env c)
    (fun _ s' => s'.locals.config = c.backupConfig ∧ Tried n (· = .saveConfig) "config: " s') (fun _ _ => False) s := by
  have hsave : ∀ {s' : Asked Op (Locals κ)}, n ≤ s'.calls.length → s'.locals.config = c.backupConfig →
      Ends (call env .saveConfig) (fun _ s' => s'.locals.config = c.backupConfig ∧ Tried n (· = .saveConfig) "config: " s')
        (fun e s' => (noted "config: " e s').locals.config = c.backupConfig ∧
          Tried n (· = .saveConfig) "config: " (noted "config: " e s')) s' :=
    fun h' hconfig => ends_ask (fun _ _ => ⟨hconfig, .inl ⟨_, since_ask h' _, rfl⟩⟩) fun e _ => ⟨hconfig, tried_noted _ e _⟩
  apply ends_attempt
  apply wp_bind
  apply wp_assign
  split
  · apply wp_bind
    apply ends_ask
    · intro _ _
      apply wp_bind
      apply wp_assign
      exact hsave (ask_length _ h) rfl
    · exact fun e _ => ⟨rfl, tried_noted _ e _⟩
  · exact hsave h rfl

theorem ends_restoreHealthChecks (config : κ) (verifyOffline : Bool) (s : Asked Op (Locals κ)) :
    Ends (restoreHealthChecks env config verifyOffline) (fun _ _ => True) (fun _ _ => True) s := by
  apply wp_bind
  apply wp_locals
  dsimp only
  split
  · exact wp_pure trivial
  · split
    · exact wp_assign trivial
    · apply wp_bind
      apply ends_ask
      · intro (isRunning : Bool) _
        split
        · exact wp_bind (ends_ask (fun _ _ => wp_assign trivial) fun _ _ => trivial)
        · split
          · exact wp_throw trivial
          · apply wp_bind
            apply ends_ask
            · intro (observed : String) _
              split
              · exact wp_throw trivial
              · exact wp_assign trivial
            · exact fun _ _ => trivial
      · exact fun _ _ => trivial

theorem ends_resumed (config : κ) (verifyOffline : Bool) (s : Asked Op (Locals κ)) :
    Ends (do
      restoreHealthChecks env config verifyOffline
      call env (.writePrivateJson "infinidysk-health-check-guard.json"))
      (fun _ _ => True) (fun _ _ => True) s := by
  apply wp_bind
  apply wp_mono (ends_restoreHealthChecks config verifyOffline s)
  · exact fun _ _ _ => ends_ask (fun _ _ => trivial) fun _ _ => trivial
  · exact fun _ _ h => h
  · exact fun _ h => h

theorem ends_resumeHealthChecks
    (hp : ∀ s, Ends p (fun _ _ => True) (fun _ _ => True) s) (s : Asked Op (Locals κ)) :
    Ends (resumeHealthChecks label p) (fun _ _ => True) (fun _ _ => False) s := by
  apply wp_bind
  apply wp_locals
  split
  · exact ends_attempt (hp s)
  · exact wp_pure trivial

theorem ends_resumeBeforeRollback (s : Asked Op (Locals κ)) :
    Ends (resumeBeforeRollback env) (fun _ _ => True) (fun _ _ => False) s := by
  apply ends_resumeHealthChecks
  intro s
  apply wp_bind
  apply wp_locals
  apply wp_bind
  apply ends_ask
  · intro (isRunning : Bool) _
    cases isRunning with
    | true => exact ends_resumed _ _ _
    | false => exact wp_pure trivial
  · exact fun _ _ => trivial

theorem ends_restartServices (h : n ≤ s.calls.length) : Ends (restartServices env c)
    (fun _ s' => .startProcesses s.locals.running false true ∈ since n s') (fun _ _ => False) s := by
  apply wp_bind
  have hstart : Ends (attempt "start recovery: " do
      let l ← locals
      let errors : List String ← call env (.startProcesses l.running false true)
      addErrors (errors.map ("start: " ++ ·)))
      (fun _ s' => .startProcesses s.locals.running false true ∈ since n s') (fun _ _ => False) s := by
    apply ends_attempt
    apply wp_bind
    apply wp_locals
    apply wp_bind
    apply ends_ask
    · exact fun _ _ => wp_assign (since_ask h _)
    · exact fun _ _ => since_ask h _
  apply wp_mono hstart
  · intro _ s₁ hs₁
    have hresume : Within (Quiet c) (resumeHealthChecks "InfiniDysk health-check setting: " do
        restoreHealthChecks env c.backupConfig true
        call env (.writePrivateJson "infinidysk-health-check-guard.json")) :=
      quiet_resumeHealthChecks <| quiet.bind (quiet_restoreHealthChecks _ _) fun _ => quiet_call rfl
    apply wp_mono (wp_within (ends_resumeHealthChecks (ends_resumed _ _) s₁) hresume)
    · exact fun _ _ h => since_adds h.2.calls hs₁
    · exact fun _ _ h => h.1
    · exact fun _ h => h.1
  · exact fun _ _ h => h.elim
  · exact fun _ h => h

/-! ## The way back as a whole -/

abbrev Leg (κ : Type) : Type := (o : Op) × (o.Answer κ → Saga κ Unit)

def rollbackLegs (env : Env κ) (c : Captured κ) : List (Leg κ) :=
  [⟨.progress .rollingBack "rollback_stop", fun _ => stopMigrated env c⟩,
    ⟨.progress .rollingBack "rollback_symlinks", fun _ => restoreSymlinkTargets env⟩,
    ⟨.progress .rollingBack "rollback_paths", fun _ => rollbackNamespacePaths env⟩,
    ⟨.progress .rollingBack "rollback_symlink_manifest", fun _ => pure ()⟩,
    ⟨.restoreSymlinkManifest, addErrors⟩,
    ⟨.progress .rollingBack "rollback_files", fun _ => pure ()⟩,
    ⟨.restoreBackupFiles, addErrors⟩,
    ⟨.progress .rollingBack "rollback_config", fun _ => restoreConfig env c⟩,
    ⟨.progress .rollingBack "rollback_services", fun _ => restartServices env c⟩,
    ⟨.progress .rollingBack "rollback_arr", fun _ => restoreArr env⟩,
    ⟨.progress .rollingBack "rollback_prowlarr", fun _ => restoreProwlarr env⟩,
    ⟨.progress .rollingBack "rollback_media", fun _ => restoreMedia env⟩,
    ⟨.progress .rollingBack "rollback_scan_guards", fun _ => restoreScanGuards env⟩]

theorem rollbackCalls_unguarded : ∀ o ∈ rollbackCalls, unguarded o = true ∧ o ≠ .saveFailureState := by decide

theorem rollbackCalls_nodup : rollbackCalls.Nodup := by decide

theorem recover_eq (error : Exn) : recover env c error = (do
    assign fun l => { l with running := c.oldProcessNames.filter l.running.contains }
    rollbackProgress env "rollback"
    assign fun l => { l with rollbackErrors := error.rollbackErrors }
    resumeBeforeRollback env
    staged env.outside (rollbackLegs env c)
    saveFailureState env
    throw (failure "The full namespace migration failed.")) := by
  simp only [staged, rollbackLegs, bind_then, pure_then]
  rfl

/-- The way back, each step attempted or its failure noted: `l` is what the `except` starts from. -/
structure Restored (env : Env κ) (c : Captured κ) (n : Nat) (l : Locals κ) (s : Asked Op (Locals κ)) : Prop where
  stop : Tried n (fun o => ∃ names, o = .stopProcesses names ∧ ∀ name ∈ l.running, renamed env c name ∈ names) "stop: " s
  symlinkTargets : TargetsRestored env n l.moved s
  paths : ∀ action ∈ l.moved, .rollbackNamespacePath action ∈ since n s
  symlinkManifest : .restoreSymlinkManifest ∈ since n s
  files : .restoreBackupFiles ∈ since n s
  config : s.locals.config = c.backupConfig ∧ Tried n (· = .saveConfig) "config: " s
  services : ∃ names, .startProcesses names false true ∈ since n s ∧ ∀ name ∈ l.running, name ∈ names
  arr : ReferencesRestored n .arr " Arr paths: " l.preflight.arr s
  prowlarr : ReferencesRestored n .prowlarr " Prowlarr applications: " l.preflight.prowlarr s
  media : ReferencesRestored n .media " libraries: " l.preflight.media s
  scanGuards : ∀ guard ∈ l.scanGuards, .restoreScanGuard guard ∈ since n s

theorem Tried.imp {P P' : Op → Prop} (h : Tried n P label s) (hP : ∀ o, P o → P' o) : Tried n P' label s := by
  rcases h with ⟨o, ho, hPo⟩ | herror
  · exact .inl ⟨o, ho, hP o hPo⟩
  · exact .inr herror

variable {l : Locals κ}

theorem Restored.later (hr : Restored env c n l s) (h : Later c s s') : Restored env c n l s' where
  stop := hr.stop.later h
  symlinkTargets := hr.symlinkTargets.later h
  paths action haction := since_adds h.calls (hr.paths action haction)
  symlinkManifest := since_adds h.calls hr.symlinkManifest
  files := since_adds h.calls hr.files
  config := ⟨h.config hr.config.1, hr.config.2.later h⟩
  services := by
    obtain ⟨names, hcall, hnames⟩ := hr.services
    exact ⟨names, since_adds h.calls hcall, hnames⟩
  arr := hr.arr.later h
  prowlarr := hr.prowlarr.later h
  media := hr.media.later h
  scanGuards guard hguard := since_adds h.calls (hr.scanGuards guard hguard)

theorem brings_leg (hn : n ≤ s.calls.length) (hl : Kept c l s.locals) {leg : Leg κ} {D : Asked Op (Locals κ) → Prop}
    (hquiet : ∀ a, Within (Quiet c) (leg.2 a))
    (hends : ∀ a s', n ≤ s'.calls.length → Kept c l s'.locals → leg.1 ∈ since n s' →
      Ends (leg.2 a) (fun _ s'' => D s'') (fun _ _ => False) s')
    (hkeeps : ∀ s s', Back c s s' → D s → D s') : Brings (Back c) (Quiet c) s leg D where
  within := hquiet
  ends a s' hs' := by
    have hlength : n ≤ s'.calls.length := Nat.le_trans hn hs'.length
    exact hends a (s'.ask leg.1) (ask_length _ hlength) (hl.trans hs'.kept) (since_ask hlength _)
  keeps := hkeeps

theorem brings_nothing (hn : n ≤ s.calls.length) (hl : Kept c l s.locals) (o : Op) :
    Brings (Back c) (Quiet c) s (⟨o, fun _ => pure ()⟩ : Leg κ) fun _ => True :=
  brings_leg hn hl (fun _ => quiet.pure ()) (fun _ _ _ _ _ => wp_pure trivial) fun _ _ _ h => h

theorem brings_call (hn : n ≤ s.calls.length) (hl : Kept c l s.locals) {o : Op} (k : o.Answer κ → List String) :
    Brings (Back c) (Quiet c) s (⟨o, fun a => addErrors (k a)⟩ : Leg κ) fun s' => o ∈ since n s' :=
  brings_leg hn hl (fun _ => quiet_addErrors _)
    (fun a s' _ _ ho => show Ends (addErrors (k a)) _ _ s' from wp_assign ho) fun _ _ hs h => since_adds hs.calls h

theorem brings_stop (hn : n ≤ s.calls.length) (hl : Kept c l s.locals) (o : Op) :
    Brings (Back c) (Quiet c) s (⟨o, fun _ => stopMigrated env c⟩ : Leg κ)
      (Tried n (fun o => ∃ names, o = .stopProcesses names ∧ ∀ name ∈ l.running, renamed env c name ∈ names) "stop: ") := by
  apply brings_leg hn hl
  · exact fun _ => quiet_stopMigrated
  · intro _ s' hlength hkept _
    apply wp_mono (ends_stopMigrated hlength)
    · intro _ _ h
      apply h.imp
      rintro o ⟨names, rfl, hnames⟩
      exact ⟨names, rfl, fun name hname => hnames name (hkept.running name hname)⟩
    · exact fun _ _ h => h
    · exact fun _ h => h
  · exact fun _ _ hs h => h.later hs.later

theorem brings_symlinkTargets (hn : n ≤ s.calls.length) (hl : Kept c l s.locals) (o : Op) :
    Brings (Back c) (Quiet c) s (⟨o, fun _ => restoreSymlinkTargets env⟩ : Leg κ) (TargetsRestored env n l.moved) := by
  apply brings_leg hn hl
  · exact fun _ => quiet_restoreSymlinkTargets
  · intro _ s' hlength hkept _
    rw [← hkept.moved]
    exact ends_restoreSymlinkTargets hlength
  · exact fun _ _ hs h => h.later hs.later

theorem brings_paths (hn : n ≤ s.calls.length) (hl : Kept c l s.locals) (o : Op) :
    Brings (Back c) (Quiet c) s (⟨o, fun _ => rollbackNamespacePaths env⟩ : Leg κ)
      fun s' => ∀ action ∈ l.moved, .rollbackNamespacePath action ∈ since n s' := by
  apply brings_leg hn hl
  · exact fun _ => quiet_rollbackNamespacePaths
  · intro _ s' hlength hkept _
    rw [← hkept.moved]
    exact ends_rollbackNamespacePaths hlength
  · exact fun _ _ hs h action haction => since_adds hs.calls (h action haction)

theorem brings_config (hn : n ≤ s.calls.length) (hl : Kept c l s.locals) (o : Op) :
    Brings (Back c) (Quiet c) s (⟨o, fun _ => restoreConfig env c⟩ : Leg κ)
      fun s' => s'.locals.config = c.backupConfig ∧ Tried n (· = .saveConfig) "config: " s' := by
  apply brings_leg hn hl
  · exact fun _ => quiet_restoreConfig
  · exact fun _ _ hlength _ _ => ends_restoreConfig hlength
  · exact fun _ _ hs h => ⟨hs.kept.config h.1, h.2.later hs.later⟩

theorem brings_services (hn : n ≤ s.calls.length) (hl : Kept c l s.locals) (o : Op) :
    Brings (Back c) (Quiet c) s (⟨o, fun _ => restartServices env c⟩ : Leg κ)
      fun s' => ∃ names, .startProcesses names false true ∈ since n s' ∧ ∀ name ∈ l.running, name ∈ names := by
  apply brings_leg hn hl
  · exact fun _ => quiet_restartServices
  · intro _ s' hlength hkept _
    apply wp_mono (ends_restartServices hlength)
    · exact fun _ _ h => ⟨_, h, hkept.running⟩
    · exact fun _ _ h => h
    · exact fun _ h => h
  · exact fun _ _ hs ⟨names, hcall, hnames⟩ => ⟨names, since_adds hs.calls hcall, hnames⟩

theorem brings_references (hn : n ≤ s.calls.length) (hl : Kept c l s.locals) (o : Op) (api : Api) (label : String)
    (originals : Preflight → List Snapshot) :
    Brings (Back c) (Quiet c) s
      (⟨o, fun _ => do restoreReferences env api label (originals (← locals).preflight)⟩ : Leg κ)
      (ReferencesRestored n api label (originals l.preflight)) := by
  apply brings_leg hn hl
  · exact fun _ => quiet.bind quiet.locals fun _ => quiet_restoreReferences _ _ _
  · intro _ s' hlength hkept _
    rw [← hkept.preflight]
    exact wp_bind (wp_locals (ends_restoreReferences _ _ _ hlength))
  · exact fun _ _ hs h => h.later hs.later

theorem brings_scanGuards (hn : n ≤ s.calls.length) (hl : Kept c l s.locals) (o : Op) :
    Brings (Back c) (Quiet c) s (⟨o, fun _ => restoreScanGuards env⟩ : Leg κ)
      fun s' => ∀ guard ∈ l.scanGuards, .restoreScanGuard guard ∈ since n s' := by
  apply brings_leg hn hl
  · exact fun _ => quiet_restoreScanGuards
  · intro _ s' hlength hkept _
    rw [← hkept.scanGuards]
    exact ends_restoreScanGuards hlength
  · exact fun _ _ hs h guard hguard => since_adds hs.calls (h guard hguard)

theorem ends_legs (hn : n ≤ s.calls.length) (hl : Kept c l s.locals) (hnew : ∀ o ∈ rollbackCalls.tail, o ∉ s.calls) :
    Ends (staged env.outside (rollbackLegs env c))
      (fun _ s' => Back c s s' ∧ (∀ o ∈ rollbackCalls.tail, ∃ a, env.outside o 0 = .ok a) ∧ Restored env c n l s')
      (fun _ s' => Back c s s' ∧ ∃ o ∈ rollbackCalls.tail, ∃ e, env.outside o 0 = .error e) s := by
  have hlegs : List.Forall₂ (Brings (Back c) (Quiet c) s) (rollbackLegs env c) _ :=
    .cons (brings_stop hn hl (.progress .rollingBack "rollback_stop")) <|
    .cons (brings_symlinkTargets hn hl (.progress .rollingBack "rollback_symlinks")) <|
    .cons (brings_paths hn hl (.progress .rollingBack "rollback_paths")) <|
    .cons (brings_nothing hn hl (.progress .rollingBack "rollback_symlink_manifest")) <|
    .cons (brings_call hn hl (o := .restoreSymlinkManifest) id) <|
    .cons (brings_nothing hn hl (.progress .rollingBack "rollback_files")) <|
    .cons (brings_call hn hl (o := .restoreBackupFiles) id) <|
    .cons (brings_config hn hl (.progress .rollingBack "rollback_config")) <|
    .cons (brings_services hn hl (.progress .rollingBack "rollback_services")) <|
    .cons (brings_references hn hl (.progress .rollingBack "rollback_arr") .arr " Arr paths: " (·.arr)) <|
    .cons (brings_references hn hl (.progress .rollingBack "rollback_prowlarr") .prowlarr
      " Prowlarr applications: " (·.prowlarr)) <|
    .cons (brings_references hn hl (.progress .rollingBack "rollback_media") .media " libraries: " (·.media)) <|
    .cons (brings_scanGuards hn hl (.progress .rollingBack "rollback_scan_guards")) .nil
  have hcall : ∀ o ∈ rollbackCalls.tail, unguarded o = true ∧ o ≠ .saveFailureState :=
    fun o ho => rollbackCalls_unguarded o (List.mem_of_mem_tail ho)
  have hback : ∀ o ∈ rollbackCalls.tail, ∀ s, Back c s (s.ask o) :=
    fun o ho s => ⟨adds_ask (P := fun o => o ≠ .saveFailureState) (hcall o ho).2 s, .refl _⟩
  have hfresh : ∀ o ∈ rollbackCalls.tail, o ∉ s.calls ∧ ¬unguarded o = false :=
    fun o ho => ⟨hnew o ho, by simp [(hcall o ho).1]⟩
  apply wp_mono (ends_staged back (fun _ _ h => ⟨h.back, h.calls⟩) hlegs hback rollbackCalls_nodup.tail hfresh)
  · rintro - s' ⟨hs', hok, hstop, htargets, hpaths, -, hmanifest, -, hfiles, hconfig, hservices, harr, hprowlarr, hmedia, hguards⟩
    exact ⟨hs', hok, hstop, htargets, hpaths, hmanifest, hfiles, hconfig, hservices, harr, hprowlarr, hmedia, hguards⟩
  · exact fun _ _ h => h
  · exact fun _ h => h

def RolledBackState (s : Asked Op (Locals κ)) : Prop :=
  s.locals.state = some .failedRolledBack ∨ s.locals.state = some .rollbackAttentionRequired

theorem ends_saveFailureState (hnew : Op.saveFailureState ∉ s.calls) : Ends (saveFailureState env)
    (fun _ s' => (∃ a, env.outside .saveFailureState 0 = .ok a) ∧ Later c s s' ∧ RolledBackState s' ∨
      (∃ e, env.outside .saveFailureState 0 = .error e) ∧ s'.locals = s.locals)
    (fun _ s' => (∃ e, env.outside .saveFailureState 0 = .error e) ∧ s'.locals = s.locals) s := by
  have hcount : s.calls.count .saveFailureState = 0 := List.count_eq_zero_of_not_mem hnew
  apply wp_tryExcept
  apply wp_bind
  apply ends_ask
  · intro a ha
    rw [hcount] at ha
    apply wp_assign
    left
    refine ⟨⟨a, ha⟩, ⟨adds_ask (P := fun _ => True) trivial s, fun _ => id, id⟩, ?_⟩
    unfold RolledBackState
    dsimp only
    split
    · exact .inl rfl
    · exact .inr rfl
  · intro e he
    rw [hcount] at he
    split
    · exact wp_pure (.inr ⟨⟨e, he⟩, rfl⟩)
    · exact wp_throw ⟨⟨e, he⟩, rfl⟩

def caught (l : Locals κ) (c : Captured κ) : Locals κ :=
  { l with running := c.oldProcessNames.filter l.running.contains, rollbackErrors := [] }

/-- Every restoration was attempted since `s`, and the run has ended as a failure. -/
structure RolledBack (env : Env κ) (c : Captured κ) (s s' : Asked Op (Locals κ)) : Prop where
  restored : Restored env c s.calls.length (caught s.locals c) s'
  state : RolledBackState s'

def neededCalls : List Op := rollbackCalls ++ [.saveFailureState]

theorem ends_rest (hn : n ≤ s.calls.length) (hl : Kept c l s.locals) (hnew : ∀ o ∈ neededCalls.tail, o ∉ s.calls) :
    Ends (do
      staged env.outside (rollbackLegs env c)
      saveFailureState env
      throw (failure "The full namespace migration failed.")) (fun (_ : Unit) _ => False)
      (fun _ s' => (∀ o ∈ neededCalls.tail, ∃ a, env.outside o 0 = .ok a) ∧ Restored env c n l s' ∧ RolledBackState s' ∨
        (∃ o ∈ neededCalls.tail, ∃ e, env.outside o 0 = .error e) ∧ s'.locals.state = s.locals.state) s := by
  apply wp_bind
  apply wp_mono (ends_legs hn hl fun o ho => hnew o (List.mem_append_left _ ho))
  · rintro - s₂ ⟨hs₂, hok, hrestored⟩
    have hlast : Op.saveFailureState ∉ s₂.calls := hs₂.calls.not_mem (hnew _ (by decide)) fun h => h rfl
    have hunsaved : ∀ {s₃ : Asked Op (Locals κ)}, (∃ e, env.outside .saveFailureState 0 = .error e) → s₃.locals = s₂.locals →
        (∃ o ∈ neededCalls.tail, ∃ e, env.outside o 0 = .error e) ∧ s₃.locals.state = s.locals.state :=
      fun he hs₃ => ⟨⟨_, by decide, he⟩, by rw [hs₃, hs₂.kept.state]⟩
    apply wp_bind
    apply wp_mono (ends_saveFailureState hlast)
    · rintro - s₃ (⟨hsaved, hs₃, hstate⟩ | ⟨he, hs₃⟩)
      · apply wp_throw
        left
        refine ⟨fun o ho => ?_, hrestored.later hs₃, hstate⟩
        rcases List.mem_append.1 (show o ∈ rollbackCalls.tail ++ [.saveFailureState] from ho) with ho | ho
        · exact hok o ho
        · rw [List.mem_singleton.1 ho]
          exact hsaved
      · exact wp_throw (.inr (hunsaved he hs₃))
    · exact fun e s₃ ⟨he, hs₃⟩ => .inr (hunsaved he hs₃)
    · exact fun _ h => h
  · rintro e s₂ ⟨hs₂, o, ho, he⟩
    exact .inr ⟨⟨o, List.mem_append_left _ ho, he⟩, hs₂.kept.state⟩
  · exact fun _ h => h

theorem ends_recover (error : Exn) (hnew : ∀ o ∈ neededCalls, o ∉ s.calls) : Ends (recover env c error) (fun _ _ => False)
    (fun _ s' => (∀ o ∈ neededCalls, ∃ a, env.outside o 0 = .ok a) ∧ RolledBack env c s s' ∨
      (∃ o ∈ neededCalls, ∃ e, env.outside o 0 = .error e) ∧ s'.locals.state = s.locals.state) s := by
  have hfirst : s.calls.count (.progress .rollingBack "rollback") = 0 :=
    List.count_eq_zero_of_not_mem (hnew _ (by decide))
  rw [recover_eq]
  apply wp_bind
  apply wp_assign
  apply wp_bind
  apply ends_ask
  · intro a ha
    apply wp_bind
    apply wp_assign
    apply wp_bind
    apply wp_mono (wp_within (ends_resumeBeforeRollback _) quiet_resumeBeforeRollback)
    · rintro - s₁ ⟨-, hs₁⟩
      have hkept : Kept c (caught s.locals c) s₁.locals :=
        ⟨hs₁.kept.moved, hs₁.kept.preflight, hs₁.kept.scanGuards, hs₁.kept.state, hs₁.kept.running,
          fun _ h => absurd h List.not_mem_nil, hs₁.kept.config⟩
      have hlength : s.calls.length ≤ s₁.calls.length :=
        Nat.le_trans (ask_length (.progress .rollingBack "rollback") (Nat.le_refl _)) hs₁.back.length
      have hnew₁ : ∀ o ∈ neededCalls.tail, o ∉ s₁.calls := by
        intro o ho
        have hlater : ∀ o ∈ neededCalls.tail, unguarded o = true ∧ o ≠ .progress .rollingBack "rollback" := by decide
        apply hs₁.calls.not_mem
        · simpa [Asked.ask, (hlater o ho).2] using hnew o (List.mem_of_mem_tail ho)
        · simp [(hlater o ho).1]
      have hstate : s₁.locals.state = s.locals.state := hkept.state
      apply wp_mono (ends_rest hlength hkept hnew₁)
      · exact fun _ _ h => h
      · rintro e s' (⟨hok, hrestored, hended⟩ | ⟨⟨o, ho, he⟩, hs'⟩)
        · exact .inl ⟨List.forall_mem_cons.2 ⟨⟨a, hfirst ▸ ha⟩, hok⟩, hrestored, hended⟩
        · exact .inr ⟨⟨o, List.mem_of_mem_tail ho, he⟩, hs'.trans hstate⟩
      · exact fun _ h => h
    · exact fun _ _ h => h.1.elim
    · exact fun _ h => h.1
  · intro e he
    exact .inr ⟨⟨_, by decide, e, hfirst ▸ he⟩, rfl⟩

end Saga

end Dumb.InfiniDysk
