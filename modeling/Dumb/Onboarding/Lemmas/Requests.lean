import Mathlib.Data.List.Nodup
import Mathlib.Data.List.Perm.Subperm
import Dumb.Lib.Binary
import Dumb.Onboarding.Instances

/-!
# What a request keeps

The calls of a request are gone through once, for whatever each of them keeps.
-/

namespace Dumb.Onboarding

open Py Py.Script

variable {env : Env} {C : Call → State → Prop} {I : State → Prop}

def Proper : Call → State → Prop
  | .add service name _, s => name ∉ Dict.keys (s.instances service)
  | .postgres _ _ key _, _ => key = "postgres_enabled" ∨ key = "env"
  | _, _ => True

def Steady (env : Env) (C : Call → State → Prop) (I : State → Prop) : Prop :=
  ∀ c s, I s → C c s → Proper c s → I (exec env c s).2

theorem keeps_call_act (h : Steady env C I) {c : Call} (hc : ∀ s, Proper c s) : Keeps (exec env) C I (act c) :=
  keeps_act fun s hs hC => h c s hs hC (hc s)

theorem keeps_require {b : Bool} {e : Failure} : Keeps (exec env) C I (require b e : Onboard Unit) := by
  cases b with
  | false => exact keeps_raise e
  | true => exact keeps_ret ()

theorem keeps_if {p : Prop} [Decidable p] {α : Type} {t u : Onboard α} (ht : Keeps (exec env) C I t) (hu : Keeps (exec env) C I u) :
    Keeps (exec env) C I (if p then t else u) := by
  split
  · exact ht
  · exact hu

theorem keeps_see_any {α β : Type} {g : State → α} {f : α → Onboard β} (h : ∀ a, Keeps (exec env) C I (f a)) :
    Keeps (exec env) C I (see g >>= f) := keeps_see_bind fun s _ => h (g s)

/-! ## PostgreSQL -/

theorem keeps_ensureFlag (h : Steady env C I) (answers : Answers) (service : Service) (name : String) :
    Keeps (exec env) C I (ensureFlag answers service name) :=
  keeps_see_any fun _ => keeps_if (keeps_call_act h fun _ => .inl rfl) (keeps_pure ())

theorem keeps_configureArrPostgres (h : Steady env C I) (answers : Answers) :
    Keeps (exec env) C I (configureArrPostgres answers) := by
  apply keeps_forEach
  intro service _
  apply keeps_see_any
  intro instances
  apply keeps_forEach
  intro m _
  exact keeps_if (keeps_ensureFlag h answers service m.1) (keeps_pure ())

theorem keeps_configureSeerrPostgres (h : Steady env C I) (answers : Answers) :
    Keeps (exec env) C I (configureSeerrPostgres answers) := by
  apply keeps_see_any
  intro instances
  apply keeps_forEach
  intro m _
  exact keeps_if (keeps_call_act h fun _ => .inr rfl) (keeps_pure ())

theorem keeps_ensurePostgres (h : Steady env C I) (answers : Answers) (service : Service) (name : String) :
    Keeps (exec env) C I (ensurePostgres answers service name) := by
  unfold ensurePostgres
  apply keeps_if
  · apply (keeps_ensureFlag h answers service name).bind
    intro _
    apply keeps_see_any
    intro cfg
    apply keeps_if _ (keeps_pure ())
    exact (keeps_configureArrPostgres h answers).bind fun _ => keeps_require
  · apply keeps_if _ (keeps_pure ())
    apply keeps_see_any
    intro cfg
    apply keeps_if _ (keeps_pure ())
    exact (keeps_configureSeerrPostgres h answers).bind fun _ => keeps_require

/-! ## Instances -/

theorem keeps_reservePort (h : Steady env C I) (answers : Answers) (service : Service) (name : String) :
    Keeps (exec env) C I (reservePort answers service name) := by
  unfold reservePort
  cases answers.port service name with
  | none => exact keeps_pure ()
  | some value => exact keeps_call_act h fun _ => trivial

theorem keeps_startInstance (h : Steady env C I) (answers : Answers) (service : Service) (name : String) (options : Settings) :
    Keeps (exec env) C I (startInstance answers service name options) := by
  have hconfigure : Keeps (exec env) C I (act (.configure service name options)) := keeps_call_act h fun _ => trivial
  apply hconfigure.bind
  intro _
  apply (keeps_ensurePostgres h answers service name).bind
  intro _
  apply keeps_see_any
  intro cfg
  apply keeps_require.bind
  intro _
  exact (keeps_reservePort h answers service name).bind fun _ => keeps_require

theorem keeps_see_now {α β : Type} {g : State → α} {f : α → Onboard β}
    (h : ∀ a, Comes (exec env) C I (fun s => I s ∧ g s = a) (f a) fun _ => I) : Keeps (exec env) C I (see g >>= f) := by
  intro s hs hsteps
  obtain ⟨hafter, hend, -⟩ := h (g s) s ⟨hs, rfl⟩ hsteps
  exact ⟨hafter, hend⟩

theorem comes_keeps {α : Type} {P : State → Prop} {t : Onboard α} (h : Keeps (exec env) C I t) (hP : ∀ s, P s → I s) :
    Comes (exec env) C I P t fun _ => I := by
  intro s hs hsteps
  obtain ⟨hafter, hend⟩ := h s (hP s hs) hsteps
  exact ⟨hafter, hend, fun _ _ => hend⟩

theorem comes_if {p : Prop} [Decidable p] {α : Type} {P : State → Prop} {t u : Onboard α} {Q : α → State → Prop}
    (ht : Comes (exec env) C I P t Q) (hu : Comes (exec env) C I P u Q) :
    Comes (exec env) C I P (if p then t else u) Q := by
  split
  · exact ht
  · exact hu

theorem suffixed_new (taken : List String) (base : String) : suffixed taken base ∉ taken := by
  rw [suffixed]
  cases hfind : ((List.range (taken.length + 1)).map fun i => base ++ " " ++ toString (i + 2)).find? fun name => name ∉ taken with
  | some name => simpa using List.find?_some hfind
  | none =>
    have hall : ∀ name ∈ (List.range (taken.length + 1)).map fun i => base ++ " " ++ toString (i + 2), name ∈ taken := by
      simpa using List.find?_eq_none.1 hfind
    have hnodup : ((List.range (taken.length + 1)).map fun i => base ++ " " ++ toString (i + 2)).Nodup := by
      apply List.Nodup.map _ List.nodup_range
      intro i j heq
      have hlist := congrArg String.toList heq
      rw [String.toList_append, String.toList_append (s := base ++ " ")] at hlist
      have hrepr := List.append_cancel_left hlist
      have := repr_injective (n := i + 2) (m := j + 2) hrepr
      omega
    have hle := (List.subperm_of_subset hnodup hall).length_le
    rw [List.length_map, List.length_range] at hle
    omega

theorem named_new (taken : List String) (service : Service) (clone : String × Settings) :
    (named taken service clone).1 ∉ taken := by
  rw [named]
  split
  · exact suffixed_new taken clone.1
  · next h => exact h

theorem comes_add (h : Steady env C I) {service : Service} {name : String} {cfg : Settings} :
    Comes (exec env) C I (fun s => I s ∧ name ∉ Dict.keys (s.instances service))
      (act (.add service name cfg) >>= fun _ => pure [name]) fun _ => I := by
  have hadd : Comes (exec env) C I (fun s => I s ∧ name ∉ Dict.keys (s.instances service)) (act (.add service name cfg))
      fun _ => I := comes_act (fun s hs hC => h _ s hs.1 hC hs.2) fun _ hs => hs
  exact hadd.bind fun _ => comes_ret (fun _ hs => hs) fun _ hs => hs

theorem keys_purge {s : State} {service : Service} {name : String} (h : name ∉ Dict.keys (s.instances service)) :
    name ∉ Dict.keys ((exec env (.purge service) s).2.instances service) := by
  intro hmem
  apply h
  obtain ⟨m, hm, rfl⟩ := List.mem_map.1 hmem
  simp only [exec, State.update, if_true] at hm
  exact List.mem_map_of_mem (List.mem_of_mem_filter hm)

theorem keeps_chooseTargets (h : Steady env C I) (core : CoreService) : Keeps (exec env) C I (chooseTargets env core) := by
  have hpurge : Keeps (exec env) C I (act (.purge core.service)) := keeps_call_act h fun _ => trivial
  unfold chooseTargets
  apply keeps_if
  · apply hpurge.bind
    intro _
    apply keeps_see_now
    intro taken
    apply comes_if
    · exact comes_keeps (keeps_pure _) fun s hs => hs.1
    · intro s hs
      refine comes_add h s ⟨hs.1, ?_⟩
      rw [hs.2]
      exact named_new taken core.service _
  · apply keeps_see_now
    intro instances
    apply comes_if
    · exact comes_keeps (keeps_pure _) fun s hs => hs.1
    · apply comes_if
      · have hgone : Comes (exec env) C I (fun s => I s ∧ s.instances core.service = instances) (act (.purge core.service))
            fun _ s => I s ∧ (named (Dict.keys instances) core.service
              (cloneFromTemplate (env.template core.service) none core.service)).1 ∉ Dict.keys (s.instances core.service) := by
          apply comes_act
          · rintro s ⟨hs, heq⟩ hC
            refine ⟨h _ s hs hC trivial, keys_purge ?_⟩
            rw [heq]
            exact named_new _ _ _
          · exact fun s hs => hs.1
        exact hgone.bind fun _ => comes_add h
      · exact comes_keeps (keeps_pure _) fun s hs => hs.1

/-! ## Requests -/

theorem keeps_startCoreService (h : Steady env C I) (core : CoreService) :
    Keeps (exec env) C I (startCoreService env core) := by
  apply (keeps_chooseTargets h core).bind
  intro targets
  exact keeps_forEach fun name _ => keeps_startInstance h core.answers core.service name _

theorem keeps_startOptionalService (h : Steady env C I) (answers : Answers) (service : Service) (options : Settings) :
    Keeps (exec env) C I (startOptionalService answers service options) := by
  apply keeps_see_any
  intro names
  exact keeps_forEach fun name _ => keeps_startInstance h answers service name options

theorem keeps_enableFirst (h : Steady env C I) (service : Service) : Keeps (exec env) C I (enableFirst service) := by
  apply keeps_see_any
  intro instances
  apply keeps_if (keeps_pure ())
  cases instances with
  | nil => exact keeps_pure ()
  | cons first rest => exact keeps_call_act h fun _ => trivial

theorem keeps_startNeutarr (h : Steady env C I) (request : StartRequest) : Keeps (exec env) C I (startNeutarr request) := by
  apply keeps_see_any
  intro uses
  apply keeps_if _ (keeps_pure ())
  exact (keeps_enableFirst h .neutarr).bind fun _ => keeps_startOptionalService h request.answers .neutarr _

theorem keeps_fold {α β : Type} {body : α → β → Onboard α} (h : ∀ a b, Keeps (exec env) C I (body a b)) :
    ∀ (bs : List β) (a : α), Keeps (exec env) C I (fold body a bs)
  | [], a => keeps_ret a
  | b :: bs, a => (h a b).bind fun a => keeps_fold h bs a

theorem keeps_runStartup (h : Steady env C I) (request : StartRequest) : Keeps (exec env) C I (runStartup env request) := by
  have hreload : Keeps (exec env) C I (act .reload) := keeps_call_act h fun _ => trivial
  apply (keeps_forEach fun service _ => keeps_startOptionalService h request.answers service _).bind
  intro _
  have hcores : Keeps (exec env) C I (fold (fun ok core => do
      let result ← (startCoreService env core).attempt
      pure (ok && result.isOk)) true request.coreServices) := by
    apply keeps_fold
    intro ok core
    exact (keeps_startCoreService h core).attempt.bind fun result => keeps_pure _
  apply hcores.bind
  intro ok
  apply (keeps_startNeutarr h request).attempt.bind
  intro _
  exact hreload.bind fun _ => keeps_pure ok

end Dumb.Onboarding
