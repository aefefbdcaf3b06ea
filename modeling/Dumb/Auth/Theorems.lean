import Dumb.Auth.Lemmas.FirstUser
import Dumb.Auth.Lemmas.Lockout

/-!
# Who can change authentication, and who can still log in
-/

namespace Dumb.Auth

open Py
open Thread (Leaves)
open Relation (ReflTransGen)

def State.initial : State := ⟨.default, .default, ⟨[], [], []⟩⟩

def serve (env : Env) (s : State) : List Call → State
  | [] => s
  | call :: calls => serve env (Thread.run (handle env call) s).2 calls

/-! ## Without a valid token -/

section
variable {env : Env}

/-- Requests without a valid token, however their steps mix, change nothing of the configuration, and whoever gets
tokens is entitled to them. -/
def Shielded (env : Env) (s : State) : Prop :=
  ∀ calls : List Call, (∀ call ∈ calls, Unauthorized env s.file call) →
    ∀ p, ReflTransGen Threads.Step (Threads.start s (calls.map (handle env))) p →
      p.state.config = s.config ∧ p.state.file = s.file ∧
        ∀ (i : Nat) (call : Call) (started : Bool) (pair : TokenResponse), calls[i]? = some call →
          p.threads[i]? = some (started, .ret (.tokens pair)) → Granted env s.config call.request pair p.state

theorem shielded_of_users {s : State} (hfile : s.file.enabled = true)
    (hissued : ∀ code ∈ Dict.keys s.flows.exchanges, code ∈ s.flows.issued) (husers : s.config.users ≠ []) :
    Shielded env s := by
  intro calls hcalls p hrun
  let Q (i : Nat) (r : Except HttpError Response) (s' : State) : Prop :=
    ∀ call, calls[i]? = some call → Entitled env s.config call r s'
  have hQ (i : Nat) (r : Except HttpError Response) (s₁ s₂ : State) (hG : Later s₁ s₂) (h : Q i r s₁) : Q i r s₂ :=
    fun call hcall => Entitled.later r s₁ s₂ hG (h call hcall)
  have hsafe : Threads.Safe (Fixed s.config s.file) Later Q (Threads.start s (calls.map (handle env))) := by
    refine ⟨⟨rfl, rfl, hissued⟩, fun i x hx => ?_⟩
    simp only [Threads.start, List.map_map, List.getElem?_map, Option.map_eq_some_iff, Function.comp_apply] at hx
    obtain ⟨call, hcall, rfl⟩ := hx
    have hharmless := handle_harmless (s := s) hfile husers (hcalls call (List.mem_of_getElem? hcall))
    have hQeq : Q i = Entitled env s.config call := by
      funext r s'
      simp [Q, hcall]
    rw [hQeq]
    exact hharmless
  obtain ⟨hend, -⟩ := hsafe.run Later.trans Later.refl hQ hrun
  refine ⟨hend.inv.config, hend.inv.file, fun i call started pair hcall hp => ?_⟩
  exact hend.result hp rfl call hcall

theorem skipSetup_disables {s : State} (henabled : s.config.enabled = true) (husers : s.config.users = []) :
    ¬Shielded env s := by
  intro h
  let call : Call := ⟨none, .skipSetup, ⟨0, 0, .error "", .error "", "", "", "", ""⟩⟩
  obtain ⟨started, hrun⟩ := Threads.run_alone (handle env call) s false
  obtain ⟨hconfig, -, -⟩ := h [call] (by simp [Unauthorized, call]) _ hrun
  have hoff : (Thread.run (handle env call) s).2.config.enabled = false := by
    simp only [handle, call, skipAuthSetup, Thread.run_bind, Thread.run_read, Thread.run_require, husers,
      List.length_nil, decide_true, if_true]
    rfl
  rw [show (Thread.run (handle env call) s).2.config = s.config from hconfig, henabled] at hoff
  cases hoff

/-- With authentication on, requests without a valid token are harmless if and only if there is a local user; and
where requests to create a user keep apart, the first one stays the only one. -/
theorem without_token (env : Env) (s : State) :
    (s.config.enabled = true → s.file = s.config.saved env.text →
      (∀ code ∈ Dict.keys s.flows.exchanges, code ∈ s.flows.issued) →
      (Shielded env s ↔ s.config.users ≠ [])) ∧
    (s.config.users = [] → ∀ calls : List Call, (∀ call ∈ calls, CreatesUser call.request) →
      ∀ p, ReflTransGen (Apart env calls) (Threads.start s (calls.map (handle env))) p →
        p.state.config.users.length ≤ 1) := by
  constructor
  · intro henabled hfile hissued
    constructor
    · intro hshielded husers
      exact skipSetup_disables henabled husers hshielded
    · intro husers
      have hon : s.file.enabled = true := by rw [hfile]; exact henabled
      exact shielded_of_users hon hissued husers
  · intro husers calls hcalls p hrun
    exact ((AtMostOne.start husers hcalls).run hrun).length

/-! ## Samples -/

def sampleEnv : Env where
  text := .ascii
  passwords := ⟨fun password => "$2b$" ++ password, fun password hashed => hashed = "$2b$" ++ password⟩
  redirect uri := uri = "https://dumb.example.org/api/auth/oidc/callback"
  words s := [s]

def quiet : Outside := ⟨0, 0, .error "unreachable", .error "unreachable", "", "", "", ""⟩

def sampleProvider : OIDCProviderRequest :=
  { OIDCProviderRequest.default with
    issuerUrl := "https://sso.example.org", clientId := "dumb", clientSecret := "secret",
    redirectUri := "https://dumb.example.org/api/auth/oidc/callback" }

def singleSignOn : List Call := [⟨none, .updateProvider sampleProvider, quiet⟩, ⟨none, .enable, quiet⟩]

def withAlice : List Call := [⟨none, .setup "alice" "correct horse", quiet⟩]

theorem without_token_alice : Shielded sampleEnv (serve sampleEnv .initial withAlice) :=
  ((without_token sampleEnv _).1 (by decide +kernel) rfl (by decide +kernel)).2 (by decide +kernel)

def twoSetups : List Call :=
  [⟨none, .setup "alice" "correct horse", quiet⟩, ⟨none, .setup "mallory" "battery staple", quiet⟩]

/-- With single sign-on alone, a request without credentials puts authentication off. -/
theorem without_token_fails : (serve sampleEnv .initial singleSignOn).config.enabled = true ∧
    ¬Shielded sampleEnv (serve sampleEnv .initial singleSignOn) ∧
    ∃ p, ReflTransGen Threads.Step (Threads.start State.initial (twoSetups.map (handle sampleEnv))) p ∧
      p.state.config.users.length = 2 := by
  refine ⟨by decide +kernel, skipSetup_disables (by decide +kernel) (by decide +kernel), ?_⟩
  -- Both count, both look for the name, both add.
  exact ⟨_, .head ⟨0, .mk rfl⟩ <| .head ⟨1, .mk rfl⟩ <| .head ⟨0, .mk rfl⟩ <| .head ⟨1, .mk rfl⟩ <|
    .head ⟨0, .mk rfl⟩ <| .head ⟨1, .mk rfl⟩ .refl, rfl⟩

end

/-! ## Nobody is locked out -/

section
variable {env : Env}

def AllCareful (env : Env) (s : State) : List Call → Prop
  | [] => True
  | call :: calls => Careful env s call ∧ AllCareful env (Thread.run (handle env call) s).2 calls

theorem unlocked_initial : Unlocked env .initial := ⟨rfl, .inl rfl, fun _ h => (nomatch h), fun h => (nomatch h)⟩

theorem serve_unlocked {s : State} (h : Unlocked env s) {calls : List Call} (hno : ∀ call ∈ calls, NoOidcOnly call)
    (hcareful : AllCareful env s calls) : Unlocked env (serve env s calls) := by
  induction calls generalizing s with
  | nil => exact h
  | cons call calls ih =>
    obtain ⟨hfirst, hrest⟩ := hcareful
    have hstep := handle_unlocked h hfirst (hno call List.mem_cons_self)
    exact ih hstep (fun call hcall => hno call (List.mem_cons_of_mem _ hcall)) hrest

/-- However requests follow each other, somebody can log in as long as authentication is on, where no change of the
provider takes away the only login and authentication is not enabled for disabled users alone. -/
theorem serve_canLogin (env : Env) (calls : List Call) (hno : ∀ call ∈ calls, NoOidcOnly call)
    (hcareful : AllCareful env .initial calls) (henabled : (serve env .initial calls).config.enabled = true) :
    CanLogin env.text (serve env .initial calls).config :=
  (serve_unlocked unlocked_initial hno hcareful).canLogin henabled

theorem serve_canLogin_alice : CanLogin Text.ascii (serve sampleEnv .initial withAlice).config :=
  serve_canLogin sampleEnv withAlice (by simp [withAlice, NoOidcOnly]) ⟨trivial, trivial⟩ (by decide +kernel)

def leaveSingleSignOn : List Call :=
  singleSignOn ++ [⟨some (some ⟨"bob", "access", "oidc", []⟩),
    .updateProvider { OIDCProviderRequest.default with mode := "local" }, quiet⟩]

instance (text : Text) (config : UserConfig) : Decidable (CanLogin text config) :=
  inferInstanceAs (Decidable (_ ∨ _))

theorem leaveSingleSignOn_locks_out : (∀ call ∈ leaveSingleSignOn, NoOidcOnly call) ∧
    (serve sampleEnv .initial leaveSingleSignOn).config.enabled = true ∧
    ¬CanLogin sampleEnv.text (serve sampleEnv .initial leaveSingleSignOn).config := by
  refine ⟨?_, by decide +kernel, by decide +kernel⟩
  simp [leaveSingleSignOn, singleSignOn, NoOidcOnly, sampleProvider, OIDCProviderRequest.default]

end

end Dumb.Auth
