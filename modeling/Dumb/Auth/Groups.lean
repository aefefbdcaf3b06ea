import Mathlib.Tactic.Choose
import Dumb.Auth.Router

/-!
# Allowed groups

From `utils/oidc.py`, `utils/auth.py` and `utils/auth_config.py`. A callback compares the groups of the identity with
the allowed ones, and so does every later request, with the groups that the token carries.
-/

namespace Dumb.Auth

open Py

section
variable (env : Env)

/-! ## Tokens -/

/-- The claims of a token, as `create_access_token` and `create_refresh_token` encode them. -/
def encodeToken (type : String) (pair : TokenResponse) : List (String × Json) :=
  [("sub", .str pair.username), ("type", .str type), ("provider", .str pair.provider), ("groups", strings pair.groups)]

def TokenResponse.tokens (pair : TokenResponse) : List (List (String × Json)) :=
  [encodeToken "access" pair, encodeToken "refresh" pair]

def stringsOf : Json → List String
  | .arr items => items.filterMap fun
    | .str s => some s
    | _ => none
  | _ => []

def decodeToken (claims : List (String × Json)) : Option TokenPayload :=
  match (Json.obj claims).field "sub", (Json.obj claims).field "type" with
  | .str sub, .str type =>
    let provider := (Json.obj claims).field "provider"
    some ⟨sub, type, if provider.truthy then env.text.str provider else "local",
      stringsOf ((Json.obj claims).field "groups")⟩
  | _, _ => none

/-! ## Logins -/

/-- A login that goes through: a callback is completed, and its code is exchanged while the configuration is still the
same and nobody has touched what the code stands for. -/
structure SignOn where
  before : State
  state : String
  code : String
  outside : Outside
  exchangeCode : String
  returnTo : String
  after : State
  completed : Thread.run (completeFlow env before.config.oidc state code outside) before = (.ok (exchangeCode, returnTo), after)
  meanwhile : State
  config_eq : meanwhile.config = before.config
  nodup : (Dict.keys meanwhile.flows.exchanges).Nodup
  kept : Dict.get? exchangeCode meanwhile.flows.exchanges = Dict.get? exchangeCode after.flows.exchanges
  later : Outside
  pair : TokenResponse
  final : State
  exchanged : Thread.run (exchangeOidcCode env exchangeCode later) meanwhile = (.ok (.tokens pair), final)

def groupsClaim (oidc : List (String × Json)) : String :=
  match (Json.obj oidc).field "groups_claim" with
  | j => if j.truthy then env.text.str j else "groups"

def claimedGroups (oidc claims : List (String × Json)) : List String :=
  stringList env ((Json.obj claims).field (groupsClaim env oidc))

def notAllowed : String := "OIDC identity is not in an allowed group"

def TurnsAway (oidc : List (String × Json)) (groups : List String) : Prop :=
  ∃ claims, claimedGroups env oidc claims = groups ∧ identity env oidc claims = .error notAllowed

/-- Under the mode and the provider of `config`, tokens pass where their login was accepted, and fail where their groups
would be turned away. -/
structure ChecksAgree (config : UserConfig) : Prop where
  passes : ∀ login : SignOn env, login.before.config.mode = config.mode → login.before.config.oidc = config.oidc →
    ∀ token ∈ login.pair.tokens,
      ∃ payload, decodeToken env token = some payload ∧ config.validateTokenPrincipal env.text payload = some true
  fails : ∀ login : SignOn env, TurnsAway env config.oidc login.pair.groups → ∀ token ∈ login.pair.tokens,
    ∃ payload, decodeToken env token = some payload ∧ config.validateTokenPrincipal env.text payload = some false

def UserConfig.allowedGroupsValue (config : UserConfig) : Json :=
  (Dict.get? "allowed_groups" config.oidc).getD (.arr [])

/-- Allowed groups in which the words that a callback reads are the characters that a request reads. -/
def SameNames : Json → Prop
  | .str s => ∀ name, name ∈ ((env.words (replace "," " " s)).filter (· ≠ "")).map env.text.casefold ↔
      name ∈ UserConfig.groupNames env.text (s.toList.map String.singleton)
  | _ => True

end

section
variable {env : Env}

theorem stringsOf_strings (xs : List String) : stringsOf (strings xs) = xs := by
  induction xs with
  | nil => rfl
  | cons x xs ih =>
    simp only [stringsOf, strings] at ih
    simp [stringsOf, strings, ih]

theorem decode_encode (type : String) {pair : TokenResponse} (hprovider : pair.provider ≠ "") :
    decodeToken env (encodeToken type pair) = some ⟨pair.username, type, pair.provider, pair.groups⟩ := by
  simp [decodeToken, encodeToken, Json.field, Dict.get?, Json.truthy, hprovider, env.text.str_str, stringsOf_strings]

/-! ## Identities -/

def claimedName (env : Env) (oidc claims : List (String × Json)) : String :=
  let usernameClaim := match (Json.obj oidc).field "username_claim" with
    | j => if j.truthy then env.text.str j else "preferred_username"
  let named := [usernameClaim, "email", "sub"].map fun claim => (Json.obj claims).field claim
  env.text.strip (env.text.orEmpty ((named.find? Json.truthy).getD (.str "")))

def loginNames (env : Env) (oidc : List (String × Json)) : List String :=
  (stringList env ((Json.obj oidc).field "allowed_groups")).map env.text.casefold

theorem identity_eq (oidc claims : List (String × Json)) : identity env oidc claims =
    if claimedName env oidc claims = "" then .error "OIDC identity does not include a usable username"
    else if loginNames env oidc ≠ [] ∧
      ∀ group ∈ claimedGroups env oidc claims, env.text.casefold group ∉ loginNames env oidc then .error notAllowed
    else .ok (claimedName env oidc claims, claimedGroups env oidc claims) := by
  have hcheck : (!(loginNames env oidc).isEmpty &&
      !((claimedGroups env oidc claims).any fun group => (loginNames env oidc).contains (env.text.casefold group))) = true ↔
      loginNames env oidc ≠ [] ∧
        ∀ group ∈ claimedGroups env oidc claims, env.text.casefold group ∉ loginNames env oidc := by
    simp
  by_cases hname : claimedName env oidc claims = ""
  · rw [if_pos hname]
    have hname' := hname
    simp only [claimedName] at hname'
    simp only [identity, hname', ↓reduceIte]
    rfl
  · rw [if_neg hname]
    have hname' := hname
    simp only [claimedName] at hname'
    simp only [identity, hname', ↓reduceIte]
    simp only [loginNames, claimedGroups, groupsClaim] at hcheck
    simp only [← hcheck, loginNames, claimedGroups, groupsClaim, claimedName]
    split
    · rfl
    · rfl

/-! ## What a login leaves in its tokens -/

variable {oidc : List (String × Json)}

theorem completeFlow_ok {state code : String} {outside : Outside} {s t : State}
    {exchangeCode returnTo : String}
    (h : Thread.run (completeFlow env oidc state code outside) s = (.ok (exchangeCode, returnTo), t)) :
    ∃ claims exchange, identity env oidc claims = .ok (exchange.username, exchange.groups) ∧
      Dict.get? exchangeCode t.flows.exchanges = some exchange := by
  simp only [completeFlow, Thread.run_bind, Thread.run_update] at h
  cases hpending : Dict.get? state (s.flows.prune outside.now).authorizations with
  | none => simp [hpending] at h
  | some pending =>
    simp only [hpending, Thread.run_bind, Thread.run_require] at h
    by_cases hcode : code = ""
    · simp [hcode] at h
    · simp only [hcode, ne_eq, not_false_eq_true, decide_true, ↓reduceIte, Thread.run_ofExcept] at h
      cases hendpoints : outside.endpoints with
      | error detail => simp [hendpoints] at h
      | ok endpoints =>
        cases hclaims : outside.claims with
        | error detail => simp [hendpoints, hclaims] at h
        | ok claims =>
          cases hidentity : identity env oidc claims with
          | error detail => simp [hendpoints, hclaims, hidentity] at h
          | ok named =>
            simp only [hendpoints, hclaims, hidentity, Thread.run_modify, Thread.run_pure, Prod.mk.injEq,
              Except.ok.injEq] at h
            obtain ⟨⟨rfl, -⟩, rfl⟩ := h
            exact ⟨claims, ⟨named.1, named.2, pending.returnTo, outside.later + 60⟩, hidentity, by simp⟩

theorem get?_prune {flows : Flows} {now : Rat} {code : String} {exchange : PendingExchange}
    (hnodup : (Dict.keys flows.exchanges).Nodup)
    (h : Dict.get? code (flows.prune now).exchanges = some exchange) : Dict.get? code flows.exchanges = some exchange := by
  have hmem := Dict.mem_of_get? h
  exact Dict.get?_of_mem hnodup (List.mem_filter.1 hmem).1

theorem exchangeOidcCode_ok {code : String} {outside : Outside} {s t : State} {pair : TokenResponse}
    (hnodup : (Dict.keys s.flows.exchanges).Nodup)
    (h : Thread.run (exchangeOidcCode env code outside) s = (.ok (.tokens pair), t)) :
    s.config.oidcLoginEnabled env.text = true ∧
      ∃ exchange, Dict.get? code s.flows.exchanges = some exchange ∧ pair = ⟨exchange.username, "oidc", exchange.groups⟩ := by
  simp only [exchangeOidcCode, oidcOn, redeem, Thread.run_bind, Thread.run_read, Thread.run_pure, Thread.run_require,
    Thread.run_update] at h
  cases henabled : (s.config.enabled && s.config.oidcLoginEnabled env.text) with
  | false => simp [henabled] at h
  | true =>
    simp only [henabled, ↓reduceIte] at h
    cases hexchange : Dict.get? code (s.flows.prune outside.now).exchanges with
    | none => simp [hexchange] at h
    | some exchange =>
      simp only [hexchange, Thread.run_pure, Prod.mk.injEq, Except.ok.injEq, Response.tokens.injEq] at h
      obtain ⟨rfl, -⟩ := h
      simp only [Bool.and_eq_true] at henabled
      exact ⟨henabled.2, exchange, get?_prune hnodup hexchange, rfl⟩

theorem SignOn.issued (login : SignOn env) : login.before.config.oidcLoginEnabled env.text = true ∧
    login.pair.provider = "oidc" ∧
      ∃ claims, identity env login.before.config.oidc claims = .ok (login.pair.username, login.pair.groups) := by
  obtain ⟨claims, exchange, hidentity, hkept⟩ := completeFlow_ok login.completed
  obtain ⟨henabled, exchange', hexchange', hpair⟩ := exchangeOidcCode_ok login.nodup login.exchanged
  rw [login.kept, hkept] at hexchange'
  cases hexchange'
  rw [login.config_eq] at henabled
  rw [hpair]
  exact ⟨henabled, rfl, claims, hidentity⟩

/-! ## Names -/

def Permits (names groups : List String) : Prop := names = [] ∨ ∃ name ∈ names, name ∈ groups

theorem permits_congr {names names' : List String} (h : ∀ name, name ∈ names ↔ name ∈ names') (groups : List String) :
    Permits names groups ↔ Permits names' groups := by
  have hnil : names = [] ↔ names' = [] := by simp only [List.eq_nil_iff_forall_not_mem, h]
  simp only [Permits, hnil, h]

theorem exists_permits_ne {names names' : List String} (h : ¬∀ name, name ∈ names ↔ name ∈ names') :
    ∃ groups : List String, (∀ group ∈ groups, group ∈ names ∨ group ∈ names') ∧
      ¬(Permits names groups ↔ Permits names' groups) := by
  by_cases hnil : names = [] ↔ names' = []
  · obtain ⟨name, hname⟩ := not_forall.1 h
    have hne : names ≠ [] := by
      intro hnames
      simp [hnames, hnil.1 hnames] at hname
    have hne' : names' ≠ [] := fun hnames => hne (hnil.2 hnames)
    refine ⟨[name], ?_, ?_⟩
    · simp only [List.mem_singleton, forall_eq]
      by_contra hneither
      simp only [not_or] at hneither
      simp [hneither] at hname
    · simpa [Permits, hne, hne'] using hname
  · exact ⟨[], by simp, by simpa [Permits] using hnil⟩

structure Stripping (env : Env) : Prop where
  strip_strip : ∀ s, env.text.strip (env.text.strip s) = env.text.strip s
  strip_word : ∀ s, ∀ word ∈ env.words s, env.text.strip word = word

variable {name : String}

theorem stripped_of_mem_stringList (hstripping : Stripping env) {j : Json} (h : name ∈ stringList env j) :
    env.text.strip name = name ∧ name ≠ "" := by
  cases j with
  | arr items =>
    simp only [stringList, List.mem_filter, List.mem_map, decide_eq_true_eq] at h
    obtain ⟨⟨item, -, rfl⟩, hne⟩ := h
    exact ⟨hstripping.strip_strip _, hne⟩
  | str s =>
    simp only [stringList, List.mem_filter, decide_eq_true_eq] at h
    exact ⟨hstripping.strip_word _ name h.1, h.2⟩
  | _ => simp [stringList] at h

variable {groups : List String}

theorem groupNames_eq (h : ∀ group ∈ groups, env.text.strip group = group ∧ group ≠ "") :
    UserConfig.groupNames env.text groups = groups.map env.text.casefold := by
  have hfilter : groups.filter (fun group => env.text.strip group ≠ "") = groups := by
    refine List.filter_eq_self.2 fun group hgroup => ?_
    simpa [(h group hgroup).1] using (h group hgroup).2
  rw [UserConfig.groupNames, hfilter]
  exact List.map_congr_left fun group hgroup => by rw [(h group hgroup).1]

theorem exists_of_mem_groupNames (hstripping : Stripping env)
    (h : name ∈ UserConfig.groupNames env.text groups) :
    ∃ group, env.text.strip group = group ∧ group ≠ "" ∧ env.text.casefold group = name := by
  simp only [UserConfig.groupNames, List.mem_map, List.mem_filter, decide_eq_true_eq] at h
  obtain ⟨group, ⟨-, hne⟩, rfl⟩ := h
  exact ⟨_, hstripping.strip_strip group, hne, rfl⟩

def IsNames : Json → Prop
  | .arr _ => True
  | .str _ => True
  | _ => False

theorem mem_stringList_arr (items : List Json) (name : String) :
    name ∈ (stringList env (.arr items)).map env.text.casefold ↔
      name ∈ UserConfig.groupNames env.text (items.map env.text.str) := by
  simp only [stringList, UserConfig.groupNames, List.mem_map, List.mem_filter, decide_eq_true_eq]
  constructor
  · rintro ⟨_, ⟨⟨item, hitem, rfl⟩, hne⟩, rfl⟩
    exact ⟨_, ⟨⟨item, hitem, rfl⟩, hne⟩, rfl⟩
  · rintro ⟨_, ⟨⟨item, hitem, rfl⟩, hne⟩, rfl⟩
    exact ⟨_, ⟨⟨item, hitem, rfl⟩, hne⟩, rfl⟩

variable {config : UserConfig}

theorem allowedGroups_eq (h : IsNames config.allowedGroupsValue) :
    ∃ groups, config.allowedGroups env.text = some (UserConfig.groupNames env.text groups) ∧
      (SameNames env config.allowedGroupsValue ↔
        ∀ name, name ∈ loginNames env config.oidc ↔ name ∈ UserConfig.groupNames env.text groups) := by
  simp only [UserConfig.allowedGroupsValue] at h
  simp only [UserConfig.allowedGroups, UserConfig.allowedGroupsValue, loginNames, Json.field]
  cases hvalue : Dict.get? "allowed_groups" config.oidc with
  | none => exact ⟨[], rfl, by simp [SameNames, stringList, UserConfig.groupNames]⟩
  | some value =>
    rw [hvalue] at h
    cases value with
    | arr items => exact ⟨items.map env.text.str, rfl, by simp [SameNames, mem_stringList_arr]⟩
    | str s =>
      refine ⟨s.toList.map String.singleton, ?_, by simp [SameNames, stringList]⟩
      simp [UserConfig.items, env.text.str_str, Function.comp_def]
    | _ => exact absurd h id

/-! ## The two checks -/

theorem refused_iff (names groups : List String) :
    (names ≠ [] ∧ ∀ group ∈ groups, env.text.casefold group ∉ names) ↔ ¬Permits names (groups.map env.text.casefold) := by
  simp only [Permits, not_or, not_exists, not_and, List.mem_map]
  constructor
  · rintro ⟨hne, hnone⟩
    refine ⟨hne, fun name hname group hgroup heq => ?_⟩
    rw [← heq] at hname
    exact hnone group hgroup hname
  · rintro ⟨hne, hnone⟩
    exact ⟨hne, fun group hgroup hmem => hnone _ hmem group hgroup rfl⟩

theorem identity_ok {oidc claims : List (String × Json)}
    (h : identity env oidc claims = .ok (name, groups)) :
    claimedGroups env oidc claims = groups ∧ Permits (loginNames env oidc) (groups.map env.text.casefold) := by
  rw [identity_eq] at h
  split at h
  · cases h
  · split at h
    · cases h
    · rename_i hpermits
      cases h
      rw [refused_iff, not_not] at hpermits
      exact ⟨rfl, hpermits⟩

theorem not_permits_of_turnsAway (h : TurnsAway env oidc groups) :
    ¬Permits (loginNames env oidc) (groups.map env.text.casefold) := by
  obtain ⟨claims, rfl, h⟩ := h
  rw [identity_eq] at h
  split at h
  · exact absurd h (by simp [notAllowed])
  · split at h
    · rename_i hrefused
      rwa [refused_iff] at hrefused
    · cases h

theorem validate_token (hstripping : Stripping env) (login : SignOn env) (config : UserConfig)
    (hgroups : config.allowedGroups env.text = some (UserConfig.groupNames env.text groups)) :
    ∀ token ∈ login.pair.tokens, ∃ payload, decodeToken env token = some payload ∧
      ∃ passes : Bool, config.validateTokenPrincipal env.text payload = some passes ∧
        (passes = true ↔ config.oidcLoginEnabled env.text = true ∧
          Permits (UserConfig.groupNames env.text groups) (login.pair.groups.map env.text.casefold)) := by
  obtain ⟨-, hprovider, claims, hidentity⟩ := login.issued
  have hstripped (group : String) (h : group ∈ login.pair.groups) : env.text.strip group = group ∧ group ≠ "" := by
    rw [← (identity_ok hidentity).1] at h
    exact stripped_of_mem_stringList hstripping h
  have hdecode (type : String) : decodeToken env (encodeToken type login.pair) =
      some ⟨login.pair.username, type, "oidc", login.pair.groups⟩ := by
    rw [decode_encode type (by simp [hprovider]), hprovider]
  have hvalidate (type : String) : ∃ passes : Bool,
      config.validateTokenPrincipal env.text ⟨login.pair.username, type, "oidc", login.pair.groups⟩ = some passes ∧
        (passes = true ↔ config.oidcLoginEnabled env.text = true ∧
          Permits (UserConfig.groupNames env.text groups) (login.pair.groups.map env.text.casefold)) := by
    cases hon : config.oidcLoginEnabled env.text with
    | false => exact ⟨false, by simp [UserConfig.validateTokenPrincipal, hon], by simp⟩
    | true =>
      refine ⟨_, by simp [UserConfig.validateTokenPrincipal, hon, hgroups]; rfl, ?_⟩
      rw [groupNames_eq hstripped]
      simp [Permits, List.isEmpty_iff]
  intro token htoken
  simp only [TokenResponse.tokens, List.mem_cons, List.not_mem_nil, or_false] at htoken
  rcases htoken with rfl | rfl
  · exact ⟨_, hdecode "access", hvalidate "access"⟩
  · exact ⟨_, hdecode "refresh", hvalidate "refresh"⟩

theorem checksAgree_of_sameNames (hstripping : Stripping env)
    (hnames : IsNames config.allowedGroupsValue) (h : SameNames env config.allowedGroupsValue) : ChecksAgree env config := by
  obtain ⟨groups, hgroups, hsame⟩ := allowedGroups_eq hnames
  rw [hsame] at h
  constructor
  · intro login hmode hoidc token htoken
    obtain ⟨hon, -, claims, hidentity⟩ := login.issued
    obtain ⟨payload, hdecode, passes, hvalidate, hpasses⟩ := validate_token hstripping login config hgroups token htoken
    refine ⟨payload, hdecode, ?_⟩
    have hon' : config.oidcLoginEnabled env.text = true := by
      rw [← hon, UserConfig.oidcLoginEnabled, UserConfig.oidcLoginEnabled, UserConfig.getAuthMode, UserConfig.getAuthMode,
        hmode, hoidc]
    rw [hoidc] at hidentity
    rw [hvalidate, hpasses.2 ⟨hon', (permits_congr h _).1 (identity_ok hidentity).2⟩]
  · intro login hturns token htoken
    obtain ⟨payload, hdecode, passes, hvalidate, hpasses⟩ := validate_token hstripping login config hgroups token htoken
    refine ⟨payload, hdecode, ?_⟩
    have hrefused : ¬passes = true := by
      rw [hpasses]
      rintro ⟨-, hpermits⟩
      exact not_permits_of_turnsAway hturns ((permits_congr h _).2 hpermits)
    rw [hvalidate, Bool.eq_false_iff.2 hrefused]

theorem checksAgree_of_off (hstripping : Stripping env) (hnames : IsNames config.allowedGroupsValue)
    (hoff : config.oidcLoginEnabled env.text = false) : ChecksAgree env config := by
  obtain ⟨groups, hgroups, -⟩ := @allowedGroups_eq env _ hnames
  constructor
  · intro login hmode hoidc
    obtain ⟨hon, -⟩ := login.issued
    rw [UserConfig.oidcLoginEnabled, UserConfig.getAuthMode, hmode, hoidc] at hon
    rw [UserConfig.oidcLoginEnabled, UserConfig.getAuthMode, hon] at hoff
    cases hoff
  · intro login _ token htoken
    obtain ⟨payload, hdecode, passes, hvalidate, hpasses⟩ := validate_token hstripping login config hgroups token htoken
    have hrefused : ¬passes = true := by simp [hpasses, hoff]
    exact ⟨payload, hdecode, by rw [hvalidate, Bool.eq_false_iff.2 hrefused]⟩

/-! ## Identities with given groups -/

def claimsWith (env : Env) (oidc : List (String × Json)) (groups : List String) : List (String × Json) :=
  [(groupsClaim env oidc, strings ("" :: groups)), ("sub", .str "user")]

theorem field_claimsWith (oidc : List (String × Json)) (groups : List String) (claim : String) :
    (Json.obj (claimsWith env oidc groups)).field claim =
      if groupsClaim env oidc = claim then strings ("" :: groups)
      else if "sub" = claim then .str "user" else .null := by
  simp only [Json.field, claimsWith, Dict.get?]
  split
  · rfl
  · split
    · rfl
    · rfl

theorem claimedGroups_claimsWith (oidc : List (String × Json))
    (h : ∀ group ∈ groups, env.text.strip group = group ∧ group ≠ "") :
    claimedGroups env oidc (claimsWith env oidc groups) = groups := by
  have hempty : env.text.strip "" = "" := env.text.strip_plain (show Plain "" by decide)
  have hmap : groups.map (fun group => env.text.strip (env.text.str (.str group))) = groups := by
    conv_rhs => rw [← List.map_id groups]
    exact List.map_congr_left fun group hgroup => by rw [env.text.str_str, (h group hgroup).1, id]
  have hfilter : groups.filter (· ≠ "") = groups :=
    List.filter_eq_self.2 fun group hgroup => by simpa using (h group hgroup).2
  simp only [claimedGroups, field_claimsWith, if_true, strings, List.map_cons, stringList, List.map_map, Function.comp_def,
    env.text.str_str, hempty]
  simp only [env.text.str_str] at hmap
  rw [hmap, List.filter_cons_of_neg (by simp), hfilter]

theorem claimedName_claimsWith (oidc : List (String × Json)) (groups : List String) :
    claimedName env oidc (claimsWith env oidc groups) ≠ "" := by
  have hfield (claim : String) (htruthy : ((Json.obj (claimsWith env oidc groups)).field claim).truthy = true) :
      env.text.strip (env.text.orEmpty ((Json.obj (claimsWith env oidc groups)).field claim)) ≠ "" := by
    rw [Text.orEmpty, if_pos htruthy]
    rw [field_claimsWith] at htruthy ⊢
    split
    · exact env.text.str_arr _
    · rename_i hclaim
      rw [if_neg hclaim] at htruthy
      split
      · simp [env.text.str_str, env.text.strip_plain (show Plain "user" by decide)]
      · rename_i hsub
        simp [hsub, Json.truthy] at htruthy
  have hsub : ((Json.obj (claimsWith env oidc groups)).field "sub").truthy = true := by
    rw [field_claimsWith]
    split
    · simp [strings, Json.truthy]
    · simp [Json.truthy]
  simp only [claimedName, List.map_cons, List.map_nil]
  generalize (match (Json.obj oidc).field "username_claim" with
    | j => if j.truthy then env.text.str j else "preferred_username") = usernameClaim
  cases hfirst : ((Json.obj (claimsWith env oidc groups)).field usernameClaim).truthy with
  | true => simpa [List.find?_cons, hfirst] using hfield _ hfirst
  | false =>
    cases hemail : ((Json.obj (claimsWith env oidc groups)).field "email").truthy with
    | true => simpa [List.find?_cons, hfirst, hemail] using hfield _ hemail
    | false => simpa [List.find?_cons, hfirst, hemail, hsub] using hfield _ hsub

theorem turnsAway_of_not_permits
    (hgroups : ∀ group ∈ groups, env.text.strip group = group ∧ group ≠ "")
    (h : ¬Permits (loginNames env oidc) (groups.map env.text.casefold)) : TurnsAway env oidc groups := by
  refine ⟨claimsWith env oidc groups, claimedGroups_claimsWith oidc hgroups, ?_⟩
  rw [identity_eq, if_neg (claimedName_claimsWith oidc groups), if_pos]
  rw [claimedGroups_claimsWith oidc hgroups, refused_iff]
  exact h

theorem exists_signOn (henabled : config.enabled = true)
    (hon : config.oidcLoginEnabled env.text = true)
    (hgroups : ∀ group ∈ groups, env.text.strip group = group ∧ group ≠ "")
    (h : Permits (loginNames env config.oidc) (groups.map env.text.casefold)) :
    ∃ login : SignOn env, login.before.config = config ∧ login.pair.groups = groups := by
  have hidentity : identity env config.oidc (claimsWith env config.oidc groups) =
      .ok (claimedName env config.oidc (claimsWith env config.oidc groups), groups) := by
    rw [identity_eq, if_neg (claimedName_claimsWith config.oidc groups), if_neg]
    · rw [claimedGroups_claimsWith config.oidc hgroups]
    · rw [claimedGroups_claimsWith config.oidc hgroups, refused_iff, not_not]
      exact h
  generalize claimedName env config.oidc (claimsWith env config.oidc groups) = name at hidentity
  let before : State := ⟨config, config, ⟨[("state", ⟨"nonce", "verifier", "/", 600⟩)], [], []⟩⟩
  let outside : Outside := ⟨0, 0, .ok [], .ok (claimsWith env config.oidc groups), "", "", "", "exchange"⟩
  let exchange : PendingExchange := ⟨name, groups, "/", 60⟩
  let after : State := ⟨config, config, ⟨[], [("exchange", exchange)], ["exchange"]⟩⟩
  let final : State := ⟨config, config, ⟨[], [], ["exchange"]⟩⟩
  have hcompleted : Thread.run (completeFlow env config.oidc "state" "code" outside) before =
      (.ok ("exchange", "/"), after) := by
    have hfresh : (0 : Rat) < 600 := by decide
    simp [completeFlow, Thread.run_bind, before, after, outside, exchange, Flows.prune, Dict.get?, Dict.erase, Dict.set,
      hidentity, hfresh, -bind_pure_comp]
  have hexchanged : Thread.run (exchangeOidcCode env "exchange" outside) after =
      (.ok (.tokens ⟨name, "oidc", groups⟩), final) := by
    have hfresh : (0 : Rat) < 60 := by decide
    simp [exchangeOidcCode, oidcOn, redeem, createTokenPair, Thread.run_bind, after, final, outside, exchange, Flows.prune,
      Dict.get?, Dict.erase, henabled, hon, hfresh]
  exact ⟨⟨before, "state", "code", outside, "exchange", "/", after, hcompleted, after, rfl, by simp [after, Dict.keys], rfl,
    outside, ⟨name, "oidc", groups⟩, final, hexchanged⟩, rfl, rfl⟩

theorem sameNames_of_checksAgree (hstripping : Stripping env)
    (hnames : IsNames config.allowedGroupsValue) (hon : config.oidcLoginEnabled env.text = true)
    (h : ChecksAgree env config) : SameNames env config.allowedGroupsValue := by
  obtain ⟨groups, hgroups, hsame⟩ := allowedGroups_eq hnames
  rw [hsame]
  by_contra hdiffer
  obtain ⟨folded, hfolded, hpermits⟩ := exists_permits_ne hdiffer
  -- The names are those of some groups.
  have hheld : ∀ name ∈ folded, ∃ group, (env.text.strip group = group ∧ group ≠ "") ∧ env.text.casefold group = name := by
    intro name hname
    rcases hfolded name hname with hlogin | hlater
    · obtain ⟨group, hgroup, rfl⟩ := List.mem_map.1 hlogin
      exact ⟨group, stripped_of_mem_stringList hstripping hgroup, rfl⟩
    · obtain ⟨group, hstrip, hne, rfl⟩ := exists_of_mem_groupNames hstripping hlater
      exact ⟨group, ⟨hstrip, hne⟩, rfl⟩
  choose! named hnamed hcasefold using hheld
  have hmap : (folded.map named).map env.text.casefold = folded := by
    rw [List.map_map]
    conv_rhs => rw [← List.map_id folded]
    exact List.map_congr_left hcasefold
  have hstripped : ∀ group ∈ folded.map named, env.text.strip group = group ∧ group ≠ "" := by simpa using hnamed
  have haccess (login : SignOn env) : encodeToken "access" login.pair ∈ login.pair.tokens := List.mem_cons_self
  by_cases hlogin : Permits (loginNames env config.oidc) folded
  · -- A callback accepts them, and every request turns them away.
    have hlater : ¬Permits (UserConfig.groupNames env.text groups) folded :=
      fun hlater => hpermits ⟨fun _ => hlater, fun _ => hlogin⟩
    rw [← hmap] at hlogin
    let enabled : UserConfig := { config with enabled := true }
    have henabled : enabled.enabled = true := rfl
    obtain ⟨login, hbefore, hpair⟩ := exists_signOn henabled hon hstripped hlogin
    obtain ⟨payload, hdecode, hpass⟩ := h.passes login (by rw [hbefore]) (by rw [hbefore]) _ (haccess login)
    obtain ⟨payload', hdecode', passes, hvalidate, hpasses⟩ :=
      validate_token hstripping login config hgroups _ (haccess login)
    cases hdecode.symm.trans hdecode'
    rw [hpass, Option.some.injEq] at hvalidate
    rw [hpair, hmap] at hpasses
    exact hlater (hpasses.1 hvalidate.symm).2
  · -- A callback turns them away, and requests accept a token that they came by before.
    have hlater : Permits (UserConfig.groupNames env.text groups) folded := by
      by_contra hlater
      exact hpermits ⟨fun h => absurd h hlogin, fun h => absurd h hlater⟩
    let before : UserConfig := ⟨true, [], false, "oidc", [("enabled", .bool true)]⟩
    have hmode : env.text.lower (env.text.strip "oidc") = "oidc" := by
      rw [env.text.strip_plain (show Plain "oidc" by decide), env.text.lower_plain (show Plain "oidc" by decide)]
      rfl
    have hopen : before.oidcLoginEnabled env.text = true := by
      simp [before, UserConfig.oidcLoginEnabled, UserConfig.getAuthMode, hmode, Json.field, Dict.get?, Json.truthy]
    have hbefore : before.enabled = true := rfl
    obtain ⟨login, -, hpair⟩ := exists_signOn hbefore hopen hstripped (.inl rfl)
    rw [← hmap] at hlogin
    have hturns := turnsAway_of_not_permits hstripped hlogin
    rw [← hpair] at hturns
    obtain ⟨payload, hdecode, hfail⟩ := h.fails login hturns _ (haccess login)
    obtain ⟨payload', hdecode', passes, hvalidate, hpasses⟩ :=
      validate_token hstripping login config hgroups _ (haccess login)
    cases hdecode.symm.trans hdecode'
    rw [hfail, Option.some.injEq] at hvalidate
    rw [hpair, hmap] at hpasses
    rw [← hvalidate] at hpasses
    exact absurd (hpasses.2 ⟨hon, hlater⟩) (by simp)

/-- The two checks agree if and only if single sign-on is off or they read the same names in the allowed groups: always
in a list, in a string where its words and its characters are the same names. -/
theorem checksAgree_iff (hstripping : Stripping env) (config : UserConfig) (hnames : IsNames config.allowedGroupsValue) :
    ChecksAgree env config ↔
      (config.oidcLoginEnabled env.text = true → SameNames env config.allowedGroupsValue) := by
  constructor
  · intro h hon
    exact sameNames_of_checksAgree hstripping hnames hon h
  · intro h
    cases hon : config.oidcLoginEnabled env.text with
    | false => exact checksAgree_of_off hstripping hnames hon
    | true => exact checksAgree_of_sameNames hstripping hnames (h hon)

/-! ## Samples -/

def spacedEnv : Env where
  text := .ascii
  passwords := ⟨id, fun password hashed => hashed = password⟩
  redirect _ := true
  words s := (split ' ' s).map asciiStrip

theorem stripping_spacedEnv : Stripping spacedEnv := by
  constructor
  · exact asciiStrip_asciiStrip
  · intro s word hword
    obtain ⟨part, -, rfl⟩ := List.mem_map.1 hword
    exact asciiStrip_asciiStrip part

def withAllowedGroups (allowed : Json) : UserConfig :=
  ⟨true, [], false, "oidc", [("enabled", .bool true), ("allowed_groups", allowed)]⟩

theorem checksAgree_admins : ChecksAgree spacedEnv (withAllowedGroups (strings [" Admins", "media"])) := by
  have hnames : IsNames (withAllowedGroups (strings [" Admins", "media"])).allowedGroupsValue := trivial
  exact (checksAgree_iff stripping_spacedEnv _ hnames).2 fun _ => trivial

/-- With `admins` as a string, members of `admins` come in and their tokens fail. -/
theorem admins_turned_away :
    (∃ login : SignOn spacedEnv, login.before.config = withAllowedGroups (.str "admins") ∧ login.pair.groups = ["admins"]) ∧
      ¬ChecksAgree spacedEnv (withAllowedGroups (.str "admins")) := by
  constructor
  · have hpermits : Permits (loginNames spacedEnv (withAllowedGroups (.str "admins")).oidc)
        (["admins"].map spacedEnv.text.casefold) := .inr ⟨"admins", by decide, by decide⟩
    exact exists_signOn rfl (by decide) (by decide) hpermits
  · intro h
    have hnames : IsNames (withAllowedGroups (.str "admins")).allowedGroupsValue := trivial
    have hsame := sameNames_of_checksAgree stripping_spacedEnv hnames (by decide) h
    exact absurd ((hsame "admins").1 (by decide)) (by decide)

end

end Dumb.Auth
