import Dumb.Auth.Lemmas.Unauthenticated

/-!
# Requests one after the other

What one request makes of the configuration, and when somebody can still log in afterwards.
-/

namespace Dumb.Auth

open Py
open Thread (Leaves)

variable {env : Env}

def State.commit (text : Text) (config : UserConfig) (s : State) : State :=
  { s with config := config, file := config.saved text }

def SomeActive (config : UserConfig) : Prop := ∃ user ∈ config.users, user.disabled = false

instance (config : UserConfig) : Decidable (SomeActive config) :=
  inferInstanceAs (Decidable (∃ user ∈ config.users, _))

def CanLogin (text : Text) (config : UserConfig) : Prop :=
  (config.localLoginEnabled text = true ∧ SomeActive config) ∨ config.oidcLoginEnabled text = true

/-! ## What a request does -/

section
variable {s : State} {P : State → Prop}

variable {credentials : Credentials}

theorem leaves_caller {k : Option String → Handler} (hself : P s)
    (h : ∀ caller, currentUser env.text s.file credentials = .ok caller → Leaves P (k caller) s) :
    Leaves P (getOptionalCurrentUser env.text credentials >>= k) s := by
  simp only [getOptionalCurrentUser, bind_assoc]
  exact Leaves.read_bind (Leaves.ofExcept_bind h hself)

theorem updateAuthProvider_leaves {request : OIDCProviderRequest} (hself : P s)
    (h : ∀ caller mode oidc, currentUser env.text s.file credentials = .ok caller →
      validateOidcProvider env s.config.oidc request = .ok (mode, oidc) →
      env.text.lower (env.text.strip mode) ∈ ["local", "oidc", "hybrid"] →
      P (s.commit env.text { s.config with mode := env.text.lower (env.text.strip mode), oidc := oidc })) :
    Leaves P (updateAuthProvider env credentials request) s := by
  rw [updateAuthProvider]
  refine leaves_caller hself fun caller hcaller => Leaves.read_bind (Leaves.ofExcept_bind (fun r hr => ?_) hself)
  obtain ⟨mode, oidc⟩ := r
  simp only [updateProvider, bind_assoc]
  refine Leaves.require_bind (fun hmode => ?_) hself
  exact h caller mode oidc hcaller hr (by simpa using hmode)

theorem skipAuthSetup_leaves (hself : P s)
    (h : s.config.users = [] → P (s.commit env.text { s.config with enabled := false, setupSkipped := true })) :
    Leaves P (skipAuthSetup env) s := by
  rw [skipAuthSetup]
  refine Leaves.read_bind (Leaves.require_bind (fun husers => ?_) hself)
  exact h (by simpa using husers)

theorem enableAuthentication_leaves (hself : P s)
    (h : (s.config.users ≠ [] ∨ s.config.oidcLoginEnabled env.text = true) →
      P (s.commit env.text { s.config with enabled := true })) :
    Leaves P (enableAuthentication env credentials) s := by
  rw [enableAuthentication]
  refine leaves_caller hself fun caller hcaller => Leaves.read_bind (Leaves.read_bind ?_)
  refine Leaves.require_bind (fun hallowed => ?_) hself
  exact h (by simpa using hallowed)

theorem disableAuthentication_leaves (hself : P s)
    (h : P (s.commit env.text { s.config with enabled := false })) :
    Leaves P (disableAuthentication env credentials) s := by
  rw [disableAuthentication]
  refine leaves_caller hself fun caller hcaller => ?_
  simp only [requireUser, bind_assoc]
  exact Leaves.read_bind (Leaves.require_bind (fun _ => h) hself)

variable {username password : String}

theorem leaves_check {k : Unit → Handler} (hself : P s) (h : Leaves P (k ()) s) :
    Leaves P (checkNewUser username password >>= k) s := by
  simp only [checkNewUser, bind_assoc]
  exact Leaves.require_bind (fun _ => Leaves.require_bind (fun _ => Leaves.require_bind (fun _ => h) hself) hself) hself

def UserConfig.withUser (passwords : Passwords) (username password : String) (config : UserConfig) : UserConfig :=
  { config with users := config.users ++ [⟨username, passwords.hash password, false⟩] }

theorem leaves_addUser {k : Bool → Handler} (hfalse : Leaves P (k false) s)
    (h : Leaves P (k true) (s.commit env.text (s.config.withUser env.passwords username password))) :
    Leaves P (addUser env.text env.passwords username password >>= k) s := by
  simp only [addUser, bind_assoc]
  refine Leaves.read_bind ?_
  split
  · exact hfalse
  · simp only [bind_assoc, pure_bind]
    exact h

theorem initialSetup_leaves (hself : P s)
    (h : P (s.commit env.text { s.config.withUser env.passwords username password with enabled := true })) :
    Leaves P (initialSetup env username password) s := by
  rw [initialSetup]
  refine Leaves.read_bind (Leaves.require_bind (fun _ => leaves_check hself (leaves_addUser hself ?_)) hself)
  exact h

theorem createUser_leaves (hself : P s)
    (hadd : P (s.commit env.text (s.config.withUser env.passwords username password)))
    (hfirst : P (s.commit env.text
      { s.config.withUser env.passwords username password with setupSkipped := false, enabled := true })) :
    Leaves P (createUser env credentials username password) s := by
  rw [createUser]
  refine leaves_caller hself fun caller hcaller => Leaves.read_bind (Leaves.read_bind ?_)
  simp only [requireUser, bind_assoc]
  refine Leaves.read_bind (Leaves.require_bind (fun _ => leaves_check hself ?_) hself)
  refine Leaves.read_bind (Leaves.require_bind (fun _ => leaves_addUser hself ?_) hself)
  refine Leaves.require_bind (fun _ => ?_) hadd
  split
  · exact hfirst
  · exact hadd

theorem leaves_requireCaller {caller : Option String} {k : Unit → Handler} (hself : P s)
    (h : s.config.enabled = true → Leaves P (k ()) s) : Leaves P (requireCaller caller >>= k) s := by
  simp only [requireCaller, bind_assoc]
  exact Leaves.read_bind (Leaves.require_bind (fun henabled => Leaves.require_bind (fun _ => h henabled) hself) hself)

theorem updateUser_leaves {username : String} {disabled : Bool} (hself : P s)
    (h : ∀ user, s.config.getUser username = some user →
      (disabled = true → user.disabled = false → 1 < (activeUsers s.config).length) →
      P (s.commit env.text { s.config with users := setDisabled username disabled s.config.users })) :
    Leaves P (updateUser env credentials username disabled) s := by
  rw [updateUser]
  refine leaves_caller hself fun caller _ => leaves_requireCaller hself fun _ => Leaves.read_bind ?_
  cases huser : s.config.getUser username with
  | none => exact hself
  | some user =>
    dsimp only
    split
    · refine Leaves.read_bind (Leaves.require_bind (fun hactive => ?_) hself)
      exact h user huser fun _ _ => by simpa using hactive
    · rename_i hnot
      simp only [Bool.and_eq_true, Bool.not_eq_true', not_and, Bool.not_eq_false] at hnot
      exact h user huser fun hd hu => by simp [hnot hd] at hu

theorem deleteUser_leaves {username : String} (hself : P s)
    (h : ∀ caller, currentUser env.text s.file credentials = .ok caller → some username ≠ caller →
      s.config.enabled = true →
      P (s.commit env.text { s.config with users := s.config.users.filter fun user => user.username ≠ username })) :
    Leaves P (deleteUser env credentials username) s := by
  rw [deleteUser]
  refine leaves_caller hself fun caller hcaller => leaves_requireCaller hself fun henabled => ?_
  refine Leaves.require_bind (fun hother => Leaves.read_bind ?_) hself
  refine Leaves.require_bind (fun _ => Leaves.read_bind (Leaves.require_bind (fun _ => ?_) hself)) hself
  exact h caller hcaller (by simpa using hother) henabled

end

/-! ## Modes -/

variable {mode : String}

theorem normal_mode (h : mode ∈ ["local", "oidc", "hybrid"]) :
    env.text.lower (env.text.strip mode) = mode := by
  have hfixed (m : String) (hm : Plain m) (hlower : asciiLower m = m) : env.text.lower (env.text.strip m) = m := by
    rw [env.text.strip_plain hm, env.text.lower_plain hm, hlower]
  simp only [List.mem_cons, List.not_mem_nil, or_false] at h
  rcases h with rfl | rfl | rfl
  · exact hfixed _ (by decide) (by decide)
  · exact hfixed _ (by decide) (by decide)
  · exact hfixed _ (by decide) (by decide)

variable {config : UserConfig}

theorem getAuthMode_of_mem (h : config.mode ∈ ["local", "oidc", "hybrid"]) :
    config.getAuthMode env.text = config.mode := by
  have hne : config.mode ≠ "" := by
    rintro he
    rw [he] at h
    exact absurd h (by decide)
  simp only [UserConfig.getAuthMode, if_pos hne, normal_mode h, if_pos h]

theorem saved_mode (h : config.mode ∈ ["local", "oidc", "hybrid"]) :
    config.saved env.text = config := by
  simp only [UserConfig.saved, getAuthMode_of_mem h]

theorem ite_error_eq_ok {ε α : Type} {p : Prop} [Decidable p] {e : ε} {x : Except ε α} {a : α} :
    (if p then .error e else x) = .ok a ↔ ¬p ∧ x = .ok a := by
  by_cases hp : p <;> simp [hp]

theorem validate_mode {current : List (String × Json)} {request : OIDCProviderRequest}
    {oidc : List (String × Json)} (hconfirm : request.confirmOidcOnly = false)
    (h : validateOidcProvider env current request = .ok (mode, oidc)) :
    mode = env.text.lower (env.text.strip request.mode) ∧
      (mode = "local" ∨ mode = "hybrid" ∧ Dict.get? "enabled" oidc = some (.bool request.enabled)) := by
  simp only [validateOidcProvider, bind, Except.bind, throw, throwThe, MonadExceptOf.throw, pure, Except.pure,
    ite_error_eq_ok, not_not, not_and, hconfirm] at h
  obtain ⟨hmodes, honly, h⟩ := h
  by_cases hlocal : env.text.lower (env.text.strip request.mode) = "local"
  · rw [if_pos hlocal] at h
    cases h
    exact ⟨rfl, .inl hlocal⟩
  · rw [if_neg hlocal, ite_error_eq_ok, ite_error_eq_ok] at h
    obtain ⟨-, -, h⟩ := h
    cases huri : validatedOidcRedirectUri env request.redirectUri with
    | error e => simp [huri] at h
    | ok uri =>
      simp only [huri, Except.ok.injEq, Prod.mk.injEq] at h
      obtain ⟨rfl, rfl⟩ := h
      simp only [List.mem_cons, List.not_mem_nil, or_false] at hmodes
      refine ⟨rfl, .inr ⟨?_, rfl⟩⟩
      rcases hmodes with h | h | h
      · exact absurd h hlocal
      · exact absurd trivial (honly h)
      · exact h

/-! ## Users -/

theorem someActive_iff : SomeActive config ↔ 0 < (activeUsers config).length := by
  simp [SomeActive, activeUsers, List.length_pos_iff_exists_mem, List.mem_filter]

variable {user : User}

theorem someActive_of_mem (h : user ∈ config.users) (hactive : user.disabled = false) :
    SomeActive config := ⟨user, h, hactive⟩

theorem setDisabled_length (username : String) (disabled : Bool) (users : List User) :
    (users.filter fun user => !user.disabled).length ≤
      ((setDisabled username disabled users).filter fun user => !user.disabled).length + 1 := by
  induction users with
  | nil => exact Nat.zero_le _
  | cons user users ih =>
    rw [setDisabled]
    by_cases hname : user.username = username
    · simp only [hname, if_true, List.filter_cons]
      cases user.disabled <;> cases disabled <;> simp
      omega
    · simp only [hname, if_false, List.filter_cons]
      split
      · simpa using ih
      · exact ih

variable {users : List User}

theorem setDisabled_same {username : String}
    (h : users.find? (fun user => user.username = username) = some user) :
    setDisabled username user.disabled users = users := by
  induction users with
  | nil => rfl
  | cons first users ih =>
    rw [setDisabled]
    by_cases hname : first.username = username
    · rw [List.find?_cons_of_pos (by simpa using hname), Option.some.injEq] at h
      rw [if_pos hname, h]
    · rw [List.find?_cons_of_neg (by simpa using hname)] at h
      rw [if_neg hname, ih h]

theorem setDisabled_mem {username : String} {disabled : Bool}
    (h : users.find? (fun user => user.username = username) = some user) :
    { user with disabled := disabled } ∈ setDisabled username disabled users := by
  induction users with
  | nil => cases h
  | cons first users ih =>
    rw [setDisabled]
    by_cases hname : first.username = username
    · rw [List.find?_cons_of_pos (by simpa using hname), Option.some.injEq] at h
      rw [if_pos hname, h]
      exact List.mem_cons_self
    · rw [List.find?_cons_of_neg (by simpa using hname)] at h
      rw [if_neg hname]
      exact List.mem_cons_of_mem _ (ih h)

theorem setDisabled_active {username : String} {disabled : Bool}
    (huser : config.getUser username = some user)
    (hlast : disabled = true → user.disabled = false → 1 < (activeUsers config).length) (h : SomeActive config) :
    SomeActive { config with users := setDisabled username disabled config.users } := by
  cases hdisabled : disabled with
  | false => exact someActive_of_mem (setDisabled_mem huser) rfl
  | true =>
    cases hwas : user.disabled with
    | true =>
      have hsame := setDisabled_same huser
      rw [hwas] at hsame
      rw [hsame]
      exact h
    | false =>
      have hless := setDisabled_length username true config.users
      have hmore := hlast hdisabled hwas
      rw [someActive_iff]
      simp only [activeUsers] at hmore ⊢
      omega

theorem currentUser_ok {credentials : Credentials} {caller : Option String}
    (henabled : config.enabled = true) (h : currentUser env.text config credentials = .ok caller) :
    ∃ payload, caller = some payload.sub ∧ config.validateTokenPrincipal env.text payload = some true := by
  simp only [currentUser, henabled, Bool.not_true, Bool.false_eq_true, if_false] at h
  split at h
  · cases h
  · cases h
  · rename_i payload
    split at h
    · cases h
    · split at h
      · cases h
      · cases h
      · rename_i hvalid
        cases h
        exact ⟨payload, rfl, hvalid⟩

theorem permitted_cases {payload : TokenPayload}
    (h : config.validateTokenPrincipal env.text payload = some true) :
    (∃ user ∈ config.users, user.username = payload.sub ∧ user.disabled = false) ∨
      config.oidcLoginEnabled env.text = true := by
  rw [UserConfig.validateTokenPrincipal] at h
  by_cases hprovider : (if payload.provider ≠ "" then payload.provider else "local") = "local"
  · rw [if_pos hprovider] at h
    by_cases hlocal : (!config.localLoginEnabled env.text) = true
    · rw [if_pos hlocal] at h
      cases h
    · rw [if_neg hlocal, Option.some.injEq, Option.any_eq_true] at h
      obtain ⟨user, hget, hactive⟩ := h
      have hname := List.find?_some hget
      exact .inl ⟨user, List.mem_of_find?_eq_some hget, by simpa using hname, by simpa using hactive⟩
  · rw [if_neg hprovider] at h
    cases hoidc : config.oidcLoginEnabled env.text with
    | true => exact .inr rfl
    | false =>
      rw [if_pos (by simp [hoidc])] at h
      cases h

/-! ## The invariant -/

/-- The file says what the manager holds, and where authentication is on, somebody can log in. -/
structure Unlocked (env : Env) (s : State) : Prop where
  file : s.file = s.config
  mode : s.config.mode = "local" ∨ s.config.mode = "hybrid"
  issued : ∀ code ∈ Dict.keys s.flows.exchanges, code ∈ s.flows.issued
  login : s.config.enabled = true → SomeActive s.config ∨ s.config.oidcLoginEnabled env.text = true

theorem mode_mem (h : mode = "local" ∨ mode = "hybrid") : mode ∈ ["local", "oidc", "hybrid"] := by
  rcases h with rfl | rfl <;> decide

theorem localLogin (h : config.mode = "local" ∨ config.mode = "hybrid") :
    config.localLoginEnabled env.text = true := by
  rw [UserConfig.localLoginEnabled, getAuthMode_of_mem (mode_mem h)]
  rcases h with h | h <;> rw [h] <;> decide

theorem Unlocked.canLogin (h : Unlocked env s) (henabled : s.config.enabled = true) :
    CanLogin env.text s.config :=
  (h.login henabled).imp_left fun hactive => ⟨localLogin h.mode, hactive⟩

theorem Unlocked.commit (h : Unlocked env s)
    (hmode : config.mode = "local" ∨ config.mode = "hybrid")
    (hlogin : config.enabled = true → SomeActive config ∨ config.oidcLoginEnabled env.text = true) :
    Unlocked env (s.commit env.text config) :=
  ⟨saved_mode (mode_mem hmode), hmode, h.issued, hlogin⟩

theorem Unlocked.fixed {s s' : State} (h : Unlocked env s) (hfixed : Fixed s.config s.file s') : Unlocked env s' :=
  ⟨by rw [hfixed.file, hfixed.config, h.file], by rw [hfixed.config]; exact h.mode, hfixed.issued,
    by rw [hfixed.config]; exact h.login⟩

theorem Unlocked.harmless (h : Unlocked env s) {t : Handler} {Q : Except HttpError Response → State → Prop}
    (ht : Harmless s.config s.file Q t s) : Leaves (Unlocked env) t s :=
  h.fixed (ht.run Later.refl ⟨rfl, rfl, h.issued⟩).1

/-- The guard that a change of the provider lacks, and the one that `/enable` has for the number of users only. -/
def Careful (env : Env) (s : State) (call : Call) : Prop :=
  match call.request with
  | .updateProvider request => s.config.enabled = true → ¬SomeActive s.config →
      ∀ caller r, currentUser env.text s.file call.credentials = .ok caller →
        validateOidcProvider env s.config.oidc request = .ok r →
        env.text.lower (env.text.strip request.mode) ≠ "local" ∧ request.enabled = true
  | .enable => s.config.enabled = false → s.config.users ≠ [] →
      SomeActive s.config ∨ s.config.oidcLoginEnabled env.text = true
  | _ => True

def NoOidcOnly (call : Call) : Prop :=
  ∀ request, call.request = .updateProvider request → request.confirmOidcOnly = false

theorem oidcLogin_of_enabled (hmode : config.mode = "hybrid")
    (henabled : Dict.get? "enabled" config.oidc = some (.bool true)) : config.oidcLoginEnabled env.text = true := by
  rw [UserConfig.oidcLoginEnabled, getAuthMode_of_mem (mode_mem (.inr hmode)), hmode]
  simp [Json.field, henabled, Json.truthy]

section
variable {s : State} {call : Call}

theorem unlocked_updateProvider (h : Unlocked env s) {request : OIDCProviderRequest}
    (hcall : call.request = .updateProvider request) (hcareful : Careful env s call) (hno : NoOidcOnly call) :
    Leaves (Unlocked env) (updateAuthProvider env call.credentials request) s := by
  simp only [Careful, hcall] at hcareful
  refine updateAuthProvider_leaves h fun caller mode oidc hcaller hvalid _ => ?_
  obtain ⟨hmode, hcases⟩ := validate_mode (hno request hcall) hvalid
  have hmodes : mode = "local" ∨ mode = "hybrid" := hcases.imp_right And.left
  rw [normal_mode (mode_mem hmodes)]
  refine h.commit hmodes fun henabled => ?_
  by_cases hactive : SomeActive s.config
  · exact .inl hactive
  · obtain ⟨hnotLocal, hon⟩ := hcareful henabled hactive caller _ hcaller hvalid
    rcases hcases with hlocal | ⟨hhybrid, hoidc⟩
    · exact absurd (hmode.symm.trans hlocal) hnotLocal
    · exact .inr (oidcLogin_of_enabled hhybrid (by rw [hoidc, hon]))

theorem unlocked_users (h : Unlocked env s)
    (husers : SomeActive s.config → SomeActive { s.config with users := users }) :
    Unlocked env (s.commit env.text { s.config with users := users }) :=
  h.commit h.mode fun henabled => (h.login henabled).imp_left husers

theorem unlocked_withUser (h : Unlocked env s) {username password : String} {enabled skipped : Bool} :
    Unlocked env (s.commit env.text
      { s.config.withUser env.passwords username password with enabled := enabled, setupSkipped := skipped }) :=
  h.commit h.mode fun _ => .inl
    ⟨⟨username, env.passwords.hash password, false⟩, by simp [UserConfig.withUser], rfl⟩

theorem unlocked_deleteUser (h : Unlocked env s) {username : String} :
    Leaves (Unlocked env) (deleteUser env call.credentials username) s := by
  refine deleteUser_leaves h fun caller hcaller hother henabled => ?_
  rw [h.file] at hcaller
  obtain ⟨payload, rfl, hpermitted⟩ := currentUser_ok henabled hcaller
  rcases permitted_cases hpermitted with ⟨user, hmem, hname, hactive⟩ | hoidc
  · refine unlocked_users h fun _ => ⟨user, List.mem_filter.2 ⟨hmem, ?_⟩, hactive⟩
    rw [hname]
    simpa using fun he => hother (by rw [he])
  · exact h.commit h.mode fun _ => .inr hoidc

theorem handle_unlocked (h : Unlocked env s) (hcareful : Careful env s call) (hno : NoOidcOnly call) :
    Leaves (Unlocked env) (handle env call) s := by
  unfold handle
  cases hcall : call.request with
  | login username password => exact h.harmless (login_harmless hcall)
  | refresh token => exact h.harmless (refresh_harmless hcall)
  | verify token =>
    have hverify : Harmless s.config s.file (Entitled env s.config call) (verifyToken env token) s := verify_harmless
    exact h.harmless hverify
  | status => exact h
  | provider => exact leaves_caller h fun _ _ => h
  | updateProvider request => exact unlocked_updateProvider h hcall hcareful hno
  | testProvider request =>
    refine leaves_caller h fun _ _ => Leaves.read_bind (Leaves.ofExcept_bind (fun _ _ => ?_) h)
    exact Leaves.require_bind (fun _ => Leaves.ofExcept_bind (fun _ _ => h) h) h
  | oidcStart returnTo =>
    have hstart : Harmless s.config s.file (Entitled env s.config call)
      (startOidcLogin env returnTo call.outside) s := start_harmless
    exact h.harmless hstart
  | oidcCallback state code error =>
    have hcallback : Harmless s.config s.file (Entitled env s.config call)
      (oidcCallback env state code error call.outside) s := callback_harmless
    exact h.harmless hcallback
  | oidcExchange code => exact h.harmless (exchange_harmless hcall)
  | skipSetup => exact skipAuthSetup_leaves h fun _ => h.commit h.mode fun henabled => nomatch henabled
  | enable =>
    simp only [Careful, hcall] at hcareful
    refine enableAuthentication_leaves h fun hallowed => h.commit h.mode fun _ => ?_
    cases henabled : s.config.enabled with
    | true => exact h.login henabled
    | false => exact hallowed.elim (hcareful henabled) .inr
  | disable => exact disableAuthentication_leaves h (h.commit h.mode fun henabled => nomatch henabled)
  | setup username password => exact initialSetup_leaves h (unlocked_withUser h)
  | users =>
    refine leaves_caller h fun _ _ => ?_
    simp only [requireUser, bind_assoc]
    exact Leaves.read_bind (Leaves.require_bind (fun _ => h) h)
  | createUser username password => exact createUser_leaves h (unlocked_withUser h) (unlocked_withUser h)
  | updateUser username disabled =>
    exact updateUser_leaves h fun user huser hlast => unlocked_users h (setDisabled_active huser hlast)
  | deleteUser username => exact unlocked_deleteUser h

end

end Dumb.Auth
