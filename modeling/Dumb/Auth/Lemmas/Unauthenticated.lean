import Dumb.Auth.Router

/-!
# Requests without a valid access token

Where authentication is on and there is a user, a handler that looks at the credentials refuses, one that looks at
the number of users refuses as well, and the others only read.
-/

namespace Dumb.Auth

open Py

variable {env : Env}

def Unauthorized (env : Env) (config : UserConfig) (call : Call) : Prop :=
  ∀ payload, call.credentials = some (some payload) → payload.type = "access" →
    config.validateTokenPrincipal env.text payload ≠ some true

def Granted (env : Env) (config : UserConfig) (request : Request) (pair : TokenResponse) (s : State) : Prop :=
  match request with
  | .login username password => pair = createTokenPair username "local" [] ∧ ∃ user ∈ config.users,
      user.username = username ∧ user.disabled = false ∧ env.passwords.verify password user.hashedPassword = true
  | .refresh token => ∃ payload, token = some payload ∧ payload.type = "refresh" ∧
      config.validateTokenPrincipal env.text payload = some true ∧
      pair = createTokenPair payload.sub payload.provider payload.groups
  | .oidcExchange code => code ∈ s.flows.issued
  | _ => False

def Entitled (env : Env) (config : UserConfig) (call : Call) : Except HttpError Response → State → Prop
  | .ok (.tokens pair), s => Granted env config call.request pair s
  | _, _ => True

structure Fixed (config file : UserConfig) (s : State) : Prop where
  config : s.config = config
  file : s.file = file
  issued : ∀ code ∈ Dict.keys s.flows.exchanges, code ∈ s.flows.issued

def Later (s s' : State) : Prop := ∀ code ∈ s.flows.issued, code ∈ s'.flows.issued

theorem Later.refl (s : State) : Later s s := fun _ h => h

theorem Later.trans (a b c : State) (h₁ : Later a b) (h₂ : Later b c) : Later a c := fun code h => h₂ code (h₁ code h)

theorem Entitled.later {config : UserConfig} {call : Call} (r : Except HttpError Response) (s s' : State)
    (hG : Later s s') (h : Entitled env config call r s) : Entitled env config call r s' := by
  unfold Entitled at h ⊢
  split at h
  · unfold Granted at h ⊢
    split at h
    · exact h
    · exact h
    · exact hG _ h
    · exact h
  · trivial

/-! ## The flows -/

theorem keys_prune {now : Rat} {flows : Flows} {code : String} (h : code ∈ Dict.keys (flows.prune now).exchanges) :
    code ∈ Dict.keys flows.exchanges := by
  obtain ⟨m, hm, rfl⟩ := List.mem_map.1 h
  exact List.mem_map_of_mem (List.mem_filter.1 hm).1

/-! ## The handlers -/

section
variable {config file : UserConfig} {call : Call} {s : State}

abbrev Harmless (config file : UserConfig) (Q : Except HttpError Response → State → Prop) (t : Handler) (s : State) :
    Prop := t.Sound (Fixed config file) Later Q s

variable {Q : Except HttpError Response → State → Prop}

theorem harmless_read {β : Type} {g : State → β} {k : β → Handler}
    (h : ∀ s', Fixed config file s' → Harmless config file Q (k (g s')) s') :
    Harmless config file Q (Thread.read g >>= k) s :=
  Thread.Sound.read_bind Later.refl fun s' _ hI => h s' hI

theorem harmless_config {β : Type} {g : UserConfig → β}
    {k : β → Handler} (h : ∀ s', Fixed config file s' → Harmless config file Q (k (g config)) s') :
    Harmless config file Q ((Thread.read fun s => g s.config) >>= k) s :=
  harmless_read fun s' hI => by
    rw [hI.config]
    exact h s' hI

theorem currentUser_refused (hfile : file.enabled = true) (hun : Unauthorized env file call) :
    ∃ e, currentUser env.text file call.credentials = .error e := by
  simp only [currentUser, hfile, Bool.not_true, Bool.false_eq_true, if_false]
  cases hc : call.credentials with
  | none => exact ⟨_, rfl⟩
  | some token =>
    cases token with
    | none => exact ⟨_, rfl⟩
    | some payload =>
      by_cases htype : payload.type = "access"
      · have hno := hun payload hc htype
        simp only [htype, ne_eq, not_true_eq_false, if_false]
        cases hv : file.validateTokenPrincipal env.text payload with
        | none => exact ⟨_, rfl⟩
        | some b =>
          cases b with
          | false => exact ⟨_, rfl⟩
          | true => exact absurd hv hno
      · simp [htype]

theorem refused (hfile : file.enabled = true) (hun : Unauthorized env file call) {k : Option String → Handler} :
    Harmless config file (Entitled env config call) (getOptionalCurrentUser env.text call.credentials >>= k) s := by
  intro s' _ hI
  obtain ⟨e, he⟩ := currentUser_refused hfile hun
  refine ⟨hI, Later.refl _, ?_⟩
  change Thread.Sound _ _ _ (Thread.ofExcept (currentUser env.text s'.file call.credentials) >>= k) s'
  rw [hI.file, he]
  trivial

theorem harmless_require {b : Bool} {e : HttpError} {k : Unit → Handler}
    (h : b = true → Harmless config file Q (k ()) s) (hQ : Q (.error e) s) :
    Harmless config file Q (Thread.require b e >>= k) s :=
  Thread.Sound.require_bind h fun _ => hQ

theorem login_harmless {username password : String} (hcall : call.request = .login username password) :
    Harmless config file (Entitled env config call) (login env username password) s := by
  rw [login]
  refine harmless_config fun s₁ _ => harmless_require (fun henabled => ?_) trivial
  refine harmless_config fun s₂ _ => harmless_require (fun hlocal => ?_) trivial
  rw [authenticateUser]
  simp only [bind_assoc]
  refine harmless_config fun s₃ _ => harmless_config fun s₄ _ => harmless_config fun s₅ _ => ?_
  simp only [henabled, hlocal, Bool.not_true, Bool.or_false, Bool.false_eq_true, if_false]
  refine harmless_require (fun hsome => ?_) trivial
  obtain ⟨user, huser⟩ := Option.isSome_iff_exists.1 hsome
  obtain ⟨hget, hvalid⟩ := Option.filter_eq_some_iff.1 huser
  have hname := List.find?_some hget
  have hmem := List.mem_of_find?_eq_some hget
  simp only [Bool.and_eq_true, Bool.not_eq_true'] at hvalid
  change Granted env config call.request _ _
  rw [hcall]
  exact ⟨rfl, user, hmem, by simpa using hname, hvalid.1, hvalid.2⟩

variable {token : Option TokenPayload}

theorem refresh_harmless (hcall : call.request = .refresh token) :
    Harmless config file (Entitled env config call) (refreshToken env token) s := by
  rw [refreshToken]
  refine harmless_config fun s₁ _ => harmless_require (fun henabled => ?_) trivial
  cases hpayload : token.filter fun payload => payload.type = "refresh" with
  | none => trivial
  | some payload =>
    obtain ⟨htoken, htype⟩ := Option.filter_eq_some_iff.1 hpayload
    dsimp only
    refine harmless_config (g := fun config => config.validateTokenPrincipal env.text payload) fun s₂ _ => ?_
    cases hv : config.validateTokenPrincipal env.text payload with
    | none => trivial
    | some permitted =>
      refine harmless_require (fun hpermitted => ?_) trivial
      subst hpermitted
      change Granted env config call.request _ _
      rw [hcall]
      exact ⟨payload, htoken, by simpa using htype, hv, rfl⟩

theorem verify_harmless :
    Harmless config file (Entitled env config call) (verifyToken env token) s := by
  rw [verifyToken]
  refine harmless_config fun s₁ _ => ?_
  cases token.filter fun payload => config.enabled && payload.type = "access" with
  | none => trivial
  | some payload =>
    dsimp only
    refine harmless_config (g := fun config => config.validateTokenPrincipal env.text payload) fun s₂ _ => ?_
    cases config.validateTokenPrincipal env.text payload with
    | none => trivial
    | some b => cases b <;> trivial

theorem harmless_flows {β : Type} {f : State → β × State}
    {k : β → Handler} (hf : ∀ s, (f s).2.config = s.config ∧ (f s).2.file = s.file ∧ Later s (f s).2)
    (hissued : ∀ s, (∀ code ∈ Dict.keys s.flows.exchanges, code ∈ s.flows.issued) →
      ∀ code ∈ Dict.keys (f s).2.flows.exchanges, code ∈ (f s).2.flows.issued)
    (h : ∀ s', Fixed config file s' → Fixed config file (f s').2 → Harmless config file Q (k (f s').1) (f s').2) :
    Harmless config file Q (Thread.update f >>= k) s := by
  refine Thread.Sound.update_bind fun s' _ hI => ?_
  obtain ⟨hconfig, hfile, hlater⟩ := hf s'
  have hI' : Fixed config file (f s').2 := ⟨hconfig.trans hI.config, hfile.trans hI.file, hissued s' hI.issued⟩
  exact ⟨hI', hlater, h s' hI hI'⟩

theorem oidcOn_harmless {k : Bool → Handler}
    (h : ∀ b s', Fixed config file s' → Harmless config file Q (k b) s') :
    Harmless config file Q (oidcOn env >>= k) s := by
  rw [oidcOn]
  simp only [bind_assoc, pure_bind]
  refine harmless_config fun s₁ _ => ?_
  exact harmless_config (g := fun config => config.oidcLoginEnabled env.text) fun s₂ h₂ => h _ s₂ h₂

variable {outside : Outside}

theorem exchange_harmless {code : String} (hcall : call.request = .oidcExchange code) :
    Harmless config file (Entitled env config call) (exchangeOidcCode env code outside) s := by
  rw [exchangeOidcCode]
  refine oidcOn_harmless fun on s₁ _ => harmless_require (fun _ => ?_) trivial
  simp only [redeem, bind_assoc]
  refine harmless_flows (fun s => ⟨rfl, rfl, fun _ h => h⟩)
    (fun s h code hcode => h code (keys_prune (Dict.mem_keys_erase hcode))) fun s₂ h₂ _ => ?_
  cases hget : Dict.get? code (s₂.flows.prune outside.now).exchanges with
  | none => trivial
  | some exchange =>
    change Granted env config call.request _ _
    rw [hcall]
    have hmem : code ∈ Dict.keys (s₂.flows.prune outside.now).exchanges := Dict.mem_keys.2 (by simp [hget])
    exact h₂.issued code (keys_prune hmem)

variable {config' : List (String × Json)}

theorem begin_harmless {returnTo : String}
    {k : List (String × String) → Handler}
    (hQ : ∀ e s, Entitled env config call (.error e) s)
    (h : ∀ fields s', Fixed config file s' → Harmless config file (Entitled env config call) (k fields) s') :
    Harmless config file (Entitled env config call) (beginFlow env config' returnTo outside >>= k) s := by
  simp only [beginFlow, bind_assoc, pure_bind]
  refine Thread.Sound.ofExcept_bind (fun endpoints _ => ?_) fun e _ => hQ e s
  refine harmless_require (fun _ => ?_) (hQ _ s)
  refine harmless_flows (fun s => ?_) (fun s hissued code hcode => ?_) fun s₂ _ h₂ => ?_
  · split
    · exact ⟨rfl, rfl, fun _ h => h⟩
    · exact ⟨rfl, rfl, fun _ h => h⟩
  · by_cases hfull : 256 ≤ (s.flows.prune outside.now).authorizations.length
    · simp only [hfull, if_true] at hcode ⊢
      exact hissued code (keys_prune hcode)
    · simp only [hfull, if_false] at hcode ⊢
      exact hissued code (keys_prune hcode)
  · exact harmless_require (fun _ => h _ _ h₂) (hQ _ _)

theorem complete_harmless {state code : String} :
    (completeFlow env config' state code outside).Sound (Fixed config file) Later (fun _ _ => True) s := by
  rw [completeFlow]
  refine Thread.Sound.update_bind fun s₁ _ h₁ => ?_
  refine ⟨⟨h₁.config, h₁.file, fun code hcode => h₁.issued code (keys_prune hcode)⟩, fun _ h => h, ?_⟩
  dsimp only
  cases Dict.get? state (s₁.flows.prune outside.now).authorizations with
  | none => trivial
  | some pending =>
    refine Thread.Sound.require_bind (fun _ => ?_) fun _ => trivial
    refine Thread.Sound.ofExcept_bind (fun _ _ => ?_) fun _ _ => trivial
    refine Thread.Sound.ofExcept_bind (fun claims _ => ?_) fun _ _ => trivial
    refine Thread.Sound.ofExcept_bind (fun user _ => ?_) fun _ _ => trivial
    refine Thread.Sound.modify_bind fun s₂ _ h₂ => ⟨⟨h₂.config, h₂.file, fun code hcode => ?_⟩, fun _ h => ?_, trivial⟩
    · rcases Dict.mem_keys_set hcode with rfl | hcode
      · exact List.mem_cons_self
      · exact List.mem_cons_of_mem _ (h₂.issued code (keys_prune hcode))
    · exact List.mem_cons_of_mem _ h

theorem callback_harmless {state code error : String} :
    Harmless config file (Entitled env config call) (oidcCallback env state code error outside) s := by
  rw [oidcCallback]
  split
  · trivial
  · refine oidcOn_harmless fun on s₁ _ => ?_
    split
    · trivial
    · refine harmless_config fun s₂ _ => ?_
      refine Thread.Sound.attempt_bind complete_harmless fun r s₃ _ => ?_
      cases r with
      | error detail => trivial
      | ok issued => trivial

theorem start_harmless {returnTo : String} :
    Harmless config file (Entitled env config call) (startOidcLogin env returnTo outside) s := by
  rw [startOidcLogin]
  refine oidcOn_harmless fun on s₁ _ => harmless_require (fun _ => ?_) trivial
  refine harmless_config fun s₂ _ => ?_
  exact begin_harmless (fun _ _ => trivial) fun _ _ _ => trivial

theorem users_refused {k : Nat → Handler} {e : HttpError}
    (husers : config.users ≠ []) (hQ : ∀ s, Q (.error e) s) :
    Harmless config file Q ((Thread.read fun s => s.config.users.length) >>= fun users =>
      Thread.require (users = 0) e >>= fun _ => k users) s := by
  refine harmless_config (g := fun config => config.users.length) fun s₁ _ => harmless_require (fun hzero => ?_) (hQ _)
  simp only [decide_eq_true_eq, List.length_eq_zero_iff] at hzero
  exact absurd hzero husers

theorem handle_harmless (hfile : file.enabled = true) (husers : config.users ≠ [])
    (hun : Unauthorized env file call) :
    Harmless config file (Entitled env config call) (handle env call) s := by
  unfold handle
  cases hcall : call.request with
  | login username password => exact login_harmless hcall
  | refresh token => exact refresh_harmless hcall
  | verify token => exact verify_harmless
  | status =>
    rw [getAuthStatus]
    exact harmless_read fun _ _ => trivial
  | provider => exact refused hfile hun
  | updateProvider request => exact refused hfile hun
  | testProvider request => exact refused hfile hun
  | oidcStart returnTo => exact start_harmless
  | oidcCallback state code error => exact callback_harmless
  | oidcExchange code => exact exchange_harmless hcall
  | skipSetup => exact users_refused husers fun _ => trivial
  | enable => exact refused hfile hun
  | disable => exact refused hfile hun
  | setup username password => exact users_refused husers fun _ => trivial
  | users => exact refused hfile hun
  | createUser username password => exact refused hfile hun
  | updateUser username disabled => exact refused hfile hun
  | deleteUser username => exact refused hfile hun

end

end Dumb.Auth
