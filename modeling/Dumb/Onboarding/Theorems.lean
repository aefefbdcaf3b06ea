import Dumb.Lib.Same
import Dumb.Onboarding.Lemmas.Kept

/-!
# Instances under onboarding

Over any requests, what an earlier one created stays as it was, and the instances of a service differ, where no request
takes a name or a path that is in use.
-/

namespace Dumb.Onboarding

open Py Py.Script

section
variable (env : Env)

def initial : State := { instances := fun service => (env.template service).instances, calls := [] }

def turn (s : State) (request : StartRequest) : State := (run (exec env) (runStartup env request) s).2

def turns (s : State) (requests : List StartRequest) : State := requests.foldl (turn env) s

def succeeds (s : State) (request : StartRequest) : Bool :=
  match (run (exec env) (runStartup env request) s).1 with
  | .ok ok => ok
  | .error _ => false

def doneBy (s s' : State) : List Call := s'.calls.drop s.calls.length

def created (s : State) (request : StartRequest) : List (Service × String) :=
  if succeeds env s request then added (doneBy s (turn env s request)) else []

def Careful (s : State) (earlier : List (Service × String)) : List StartRequest → Prop
  | [] => True
  | request :: requests =>
    (∀ step ∈ trace (exec env) (runStartup env request) s, Clear env earlier s.calls.length step.call step.before) ∧
      Careful (turn env s request) (earlier ++ created env s request) requests

/-- What was created is as it was after its request, but for its port and what options have set since. -/
def Preserved (s : State) (requests : List StartRequest) : Prop :=
  ∀ before request rest, requests = before ++ request :: rest → ∀ m ∈ created env (turns env s before) request,
    ∃ old, ((turns env s (before ++ [request])).instances m.1).get? m.2 = some old ∧
      Kept m old (turns env s (before ++ [request])).calls.length (turns env s requests)

end

variable {env : Env}

theorem turns_append (s : State) (before rest : List StartRequest) :
    turns env s (before ++ rest) = turns env (turns env s before) rest := List.foldl_append

theorem turns_cons (s : State) (request : StartRequest) (requests : List StartRequest) :
    turns env s (request :: requests) = turns env (turn env s request) requests := rfl

theorem careful_keeps {I : State → Prop} : ∀ {requests : List StartRequest} {s : State} {earlier : List (Service × String)},
    (∀ earlier', (∀ m ∈ earlier, m ∈ earlier') → ∀ since, Steady env (Clear env earlier' since) I) → Careful env s earlier requests →
      I s → I (turns env s requests)
  | [], _, _, _, _, hs => hs
  | request :: requests, s, earlier, hsteady, hcareful, hs => by
    have hturn := (keeps_runStartup (hsteady earlier (fun _ hm => hm) _) request s hs hcareful.1).2
    rw [turns_cons]
    apply careful_keeps _ hcareful.2 hturn
    exact fun earlier' hsub => hsteady earlier' fun m hm => hsub m (List.mem_append_left _ hm)

theorem Careful.rest : ∀ {before rest : List StartRequest} {s : State} {earlier : List (Service × String)},
    Careful env s earlier (before ++ rest) → ∃ earlier', Careful env (turns env s before) earlier' rest
  | [], _, _, earlier, h => ⟨earlier, h⟩
  | _ :: _, _, _, _, h => h.2.rest

theorem created_there {s : State} {request : StartRequest} {earlier : List (Service × String)} {m : Service × String}
    (h : ∀ step ∈ trace (exec env) (runStartup env request) s, Clear env earlier s.calls.length step.call step.before)
    (hm : m ∈ created env s request) : m.2 ∈ Dict.keys ((turn env s request).instances m.1) := by
  have hstart : s.calls.length ≤ s.calls.length ∧ (m ∈ added (s.calls.drop s.calls.length) → m.2 ∈ Dict.keys (s.instances m.1)) := by
    refine ⟨le_rfl, fun hmem => ?_⟩
    rw [List.drop_length] at hmem
    exact absurd hmem List.not_mem_nil
  have hkeep := (keeps_runStartup (added_steady m) request s hstart h).2
  rw [created] at hm
  split at hm
  · exact hkeep.2 hm
  · exact absurd hm List.not_mem_nil

instance (instances : Instances) (name : String) (option : String × Json) : Decidable (Unshared instances name option) :=
  inferInstanceAs (Decidable (∀ t ∈ textOf option.2, _))

instance (earlier : List (Service × String)) (since : Nat) : ∀ (c : Call) (s : State), Decidable (Clear env earlier since c s)
  | .purge _, _ => inferInstanceAs (Decidable (_ ∧ _))
  | .add .., s => inferInstanceAs (Decidable (∀ o ∈ s.instances _, ∀ k ∈ identityKeys, _ ∨ _))
  | .configure _ _ options, _ => inferInstanceAs (Decidable ((∀ option ∈ options, _) ∧ (_ → _ ∨ ∃ option ∈ options, _)))
  | .port .., _ => inferInstanceAs (Decidable True)
  | .postgres .., _ => inferInstanceAs (Decidable (_ → _ = _))
  | .reload, _ => inferInstanceAs (Decidable (∀ m ∈ earlier, _ = _))

instance decidableCareful : ∀ (requests : List StartRequest) (s : State) (earlier : List (Service × String)),
    Decidable (Careful env s earlier requests)
  | [], _, _ => inferInstanceAs (Decidable True)
  | request :: requests, s, earlier =>
    have := decidableCareful requests (turn env s request) (earlier ++ created env s request)
    inferInstanceAs (Decidable ((∀ step ∈ trace (exec env) (runStartup env request) s, _) ∧ _))

def shippedTemplate (service : Service) : Template :=
  match (Json.obj Config.Shipped.config).at? [service.key, "instances"] with
  | some (.obj ((name, .obj settings) :: _)) => { name, settings }
  | _ => { name := "Default", settings := [] }

def shipped : Env where
  text := Text.ascii
  template := shippedTemplate
  legacyIdentity := false

def calm : Answers where
  port _ _ := none
  started _ _ := true
  postgresFile _ := false
  postgresEnv env := env
  postgresStarted := true

def sonarrRequest (name : String) : StartRequest where
  coreServices := [{ service := .sonarr, instanceName := some name, resolved := none, serviceOptions := [], answers := calm }]
  optionalServices := []
  optionalServiceOptions := []
  answers := calm

def sonarrRequests (names : List String) : List StartRequest := names.map sonarrRequest

end Dumb.Onboarding
