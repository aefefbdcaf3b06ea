import Dumb.Auth.Config

/-!
# auth_router

From `api/routers/auth.py` and `utils/oidc.py`. A handler is a thread over the shared state. What the outside
says to a request (the time, the endpoints and the claims of the provider, fresh secrets) comes with the request.
-/

namespace Dumb.Auth

open Py

/-! ## The provider -/

structure OIDCProviderRequest where
  mode : String
  enabled : Bool
  providerName : String
  source : String
  issuerUrl : String
  discoveryUrl : String
  authorizationEndpoint : String
  tokenEndpoint : String
  userinfoEndpoint : String
  jwksUri : String
  clientId : String
  clientSecret : String
  redirectUri : String
  scopes : List String
  usernameClaim : String
  groupsClaim : String
  allowedGroups : List String
  tlsVerify : Bool
  allowPrivateEndpoints : Bool
  allowHttp : Bool
  timeoutSeconds : Int
  confirmOidcOnly : Bool

def OIDCProviderRequest.default : OIDCProviderRequest where
  mode := "hybrid"
  enabled := true
  providerName := "Single Sign-On"
  source := "custom_oidc"
  issuerUrl := ""
  discoveryUrl := ""
  authorizationEndpoint := ""
  tokenEndpoint := ""
  userinfoEndpoint := ""
  jwksUri := ""
  clientId := ""
  clientSecret := ""
  redirectUri := ""
  scopes := ["openid", "profile", "email", "groups"]
  usernameClaim := "preferred_username"
  groupsClaim := "groups"
  allowedGroups := []
  tlsVerify := true
  allowPrivateEndpoints := false
  allowHttp := false
  timeoutSeconds := 10
  confirmOidcOnly := false

/-- What the router runs on. `redirect` says of a redirect URI whether `urlparse` and the checks on its parts
accept it. -/
structure Env where
  text : Text
  passwords : Passwords
  redirect : String → Bool
  /-- `s.split()`. -/
  words : String → List String

def rstripSlash (s : String) : String := String.ofList (s.toList.reverse.dropWhile (· = '/')).reverse

def currentSource (s : String) : String := if s = "external" then "custom_oidc" else s

def redirectRefused : HttpError :=
  ⟨400, "OIDC redirect URI must use DUMB's browser-facing HTTPS FQDN and exact /api/auth/oidc/callback path; localhost and IP addresses are not accepted"⟩

section
variable (env : Env)

def validatedOidcRedirectUri (value : String) : Except HttpError String :=
  let raw := env.text.strip value
  if env.redirect raw then .ok raw else .error redirectRefused

def strings (xs : List String) : Json := .arr (xs.map .str)

def validateOidcProvider (current : List (String × Json)) (request : OIDCProviderRequest) :
    Except HttpError (String × List (String × Json)) := do
  let mode := env.text.lower (env.text.strip request.mode)
  if mode ∉ ["local", "oidc", "hybrid"] then
    throw ⟨400, "Authentication mode must be local, oidc, or hybrid"⟩
  if mode = "oidc" ∧ request.confirmOidcOnly = false then
    throw ⟨400, "OIDC-only mode requires explicit lockout-risk confirmation"⟩
  if mode = "local" then return (mode, current)
  let source := currentSource
    (env.text.lower (env.text.strip (if request.source ≠ "" then request.source else "external")))
  if source ∉ ["managed", "external_authelia", "custom_oidc"] then
    throw ⟨400, "Unsupported OIDC provider source"⟩
  let unchanged := source = currentSource
    (env.text.lower (env.text.strip (env.text.orEmpty ((Json.obj current).field "source"))))
  let clientSecret := if unchanged ∧ env.text.blank (.str request.clientSecret) = true then
    (Dict.get? "client_secret" current).getD (.str "") else .str request.clientSecret
  let missing := [("issuer_url", .str request.issuerUrl), ("client_id", .str request.clientId),
    ("client_secret", clientSecret), ("redirect_uri", .str request.redirectUri)].filter fun m => env.text.blank m.2
  if missing ≠ [] then
    throw ⟨400, "Missing required OIDC field(s): " ++ ", ".intercalate (missing.map (·.1))⟩
  let redirectUri ← validatedOidcRedirectUri env request.redirectUri
  return (mode, [("enabled", .bool request.enabled),
    ("provider_name",
      .str (env.text.strip (if request.providerName ≠ "" then request.providerName else "Single Sign-On"))),
    ("source", .str source), ("issuer_url", .str (rstripSlash (env.text.strip request.issuerUrl))),
    ("discovery_url", .str request.discoveryUrl), ("authorization_endpoint", .str request.authorizationEndpoint),
    ("token_endpoint", .str request.tokenEndpoint), ("userinfo_endpoint", .str request.userinfoEndpoint),
    ("jwks_uri", .str request.jwksUri), ("client_id", .str request.clientId), ("client_secret", clientSecret),
    ("redirect_uri", .str redirectUri), ("scopes", strings request.scopes.eraseDups),
    ("username_claim", .str request.usernameClaim), ("groups_claim", .str request.groupsClaim),
    ("allowed_groups", strings request.allowedGroups.eraseDups), ("tls_verify", .bool request.tlsVerify),
    ("allow_private_endpoints", .bool request.allowPrivateEndpoints), ("allow_http", .bool request.allowHttp),
    ("timeout_seconds", .int (max 2 (min 30 request.timeoutSeconds)))])

def redactOidc (config : List (String × Json)) : List (String × Json) :=
  Dict.set "client_secret_configured" (.bool ((Json.obj config).field "client_secret").truthy)
    (Dict.erase "client_secret" config)

/-! ## OIDC flows -/

def safeReturnTo (value : String) : String :=
  let candidate := env.text.strip (if value ≠ "" then value else "/")
  if !"/".toList.isPrefixOf candidate.toList || "//".toList.isPrefixOf candidate.toList then "/"
  else if candidate.toList.any fun c => c ∈ ['\\', '\r', '\n'] then "/"
  else String.ofList (candidate.toList.take 2048)

def stringList : Json → List String
  | .arr items => (items.map fun item => env.text.strip (env.text.str item)).filter (· ≠ "")
  | .str s => (env.words (replace "," " " s)).filter (· ≠ "")
  | _ => []

structure Outside where
  now : Rat
  later : Rat
  /-- `resolved_endpoints`. -/
  endpoints : Except String (Dict String String)
  claims : Except String (List (String × Json))
  state : String
  nonce : String
  verifier : String
  code : String

namespace Flows

def prune (now : Rat) (flows : Flows) : Flows :=
  { flows with
    authorizations := flows.authorizations.filter fun m => now < m.2.expiresAt
    exchanges := flows.exchanges.filter fun m => now < m.2.expiresAt }

end Flows

def beginFlow (config : List (String × Json)) (returnTo : String) (outside : Outside) :
    Thread State HttpError (List (String × String)) := do
  let endpoints ← Thread.ofExcept (outside.endpoints.mapError fun detail => ⟨400, detail⟩)
  let clientId := env.text.strip (env.text.orEmpty ((Json.obj config).field "client_id"))
  let redirectUri := env.text.strip (env.text.orEmpty ((Json.obj config).field "redirect_uri"))
  Thread.require (clientId ≠ "" && redirectUri ≠ "") ⟨400, "OIDC client ID and redirect URI are required"⟩
  let full ← Thread.update fun s =>
    let flows := s.flows.prune outside.now
    let pending := ⟨outside.nonce, outside.verifier, safeReturnTo env returnTo, outside.now + 600⟩
    if 256 ≤ flows.authorizations.length then (true, { s with flows := flows })
    else (false, { s with
      flows := { flows with authorizations := Dict.set outside.state pending flows.authorizations } })
  Thread.require (!full) ⟨400, "Too many OIDC authorization attempts"⟩
  let scopes := match stringList env ((Json.obj config).field "scopes"), (Json.obj config).field "scopes" with
    | scopes, .arr _ => scopes
    | scopes, .str _ => scopes
    | _, _ => ["openid", "profile", "email", "groups"]
  pure [("authorization_endpoint", (Dict.get? "authorization_endpoint" endpoints).getD ""), ("client_id", clientId),
    ("redirect_uri", redirectUri), ("scope", " ".intercalate scopes), ("state", outside.state),
    ("nonce", outside.nonce), ("code_verifier", outside.verifier)]

def identity (config claims : List (String × Json)) : Except String (String × List String) := do
  let usernameClaim := match (Json.obj config).field "username_claim" with
    | j => if j.truthy then env.text.str j else "preferred_username"
  let named := [usernameClaim, "email", "sub"].map fun claim => (Json.obj claims).field claim
  let username := env.text.strip (env.text.orEmpty ((named.find? Json.truthy).getD (.str "")))
  if username = "" then throw "OIDC identity does not include a usable username"
  let groupsClaim := match (Json.obj config).field "groups_claim" with
    | j => if j.truthy then env.text.str j else "groups"
  let groups := stringList env ((Json.obj claims).field groupsClaim)
  let allowed := (stringList env ((Json.obj config).field "allowed_groups")).map env.text.casefold
  if !allowed.isEmpty && !(groups.any fun group => allowed.contains (env.text.casefold group)) then
    throw "OIDC identity is not in an allowed group"
  return (username, groups)

def completeFlow (config : List (String × Json)) (state code : String) (outside : Outside) :
    Thread State String (String × String) := do
  let pending ← Thread.update fun s =>
    let flows := s.flows.prune outside.now
    (Dict.get? state flows.authorizations,
      { s with flows := { flows with authorizations := Dict.erase state flows.authorizations } })
  match pending with
  | none => Thread.raise "OIDC state is invalid or expired"
  | some pending => do
    Thread.require (code ≠ "") "OIDC authorization code is missing"
    let _ ← Thread.ofExcept outside.endpoints
    let claims ← Thread.ofExcept outside.claims
    let (username, groups) ← Thread.ofExcept (identity env config claims)
    Thread.modify fun s =>
      let flows := s.flows.prune outside.later
      let exchange := ⟨username, groups, pending.returnTo, outside.later + 60⟩
      { s with
        flows := { flows with
          exchanges := Dict.set outside.code exchange flows.exchanges
          issued := outside.code :: flows.issued } }
    pure (outside.code, pending.returnTo)

def redeem (code : String) (now : Rat) : Thread State HttpError PendingExchange := do
  let exchange ← Thread.update fun s =>
    let flows := s.flows.prune now
    (Dict.get? code flows.exchanges, { s with flows := { flows with exchanges := Dict.erase code flows.exchanges } })
  match exchange with
  | none => Thread.raise ⟨401, "OIDC exchange code is invalid or expired"⟩
  | some exchange => pure exchange

end

/-! ## The endpoints -/

inductive Request where
  | login (username password : String)
  | refresh (token : Option TokenPayload)
  | verify (token : Option TokenPayload)
  | status
  | provider
  | updateProvider (request : OIDCProviderRequest)
  | testProvider (request : OIDCProviderRequest)
  | oidcStart (returnTo : String)
  | oidcCallback (state code error : String)
  | oidcExchange (code : String)
  | skipSetup
  | enable
  | disable
  | setup (username password : String)
  | users
  | createUser (username password : String)
  | updateUser (username : String) (disabled : Bool)
  | deleteUser (username : String)

inductive Response where
  | tokens (pair : TokenResponse)
  | verified (valid : Bool) (username : Option String)
  | status (enabled hasUsers setupSkipped : Bool) (mode : String) (localLogin oidcLogin : Bool) (providerName : String)
  | provider (mode : String) (oidc : List (String × Json))
  | endpoints (names : Dict String String)
  | authorization (fields : List (String × String))
  | redirect (fragment : List (String × String))
  | message (text : String)
  | users (users : List (String × Bool))
  | user (username : String) (disabled : Bool)

abbrev Handler := Thread State HttpError Response

section
variable (env : Env)

def login (username password : String) : Handler := do
  let enabled ← Thread.read fun s => s.config.enabled
  Thread.require enabled ⟨401, "Authentication is not enabled"⟩
  let localLogin ← Thread.read fun s => s.config.localLoginEnabled env.text
  Thread.require localLogin ⟨401, "Local password login is disabled"⟩
  let user ← authenticateUser env.text env.passwords username password
  Thread.require user.isSome ⟨401, "Incorrect username or password"⟩
  pure (.tokens (createTokenPair username "local" []))

def refreshToken (token : Option TokenPayload) : Handler := do
  let enabled ← Thread.read fun s => s.config.enabled
  Thread.require enabled ⟨401, "Authentication is not enabled"⟩
  match token.filter fun payload => payload.type = "refresh" with
  | none => Thread.raise ⟨401, "Invalid or expired refresh token"⟩
  | some payload => do
    let permitted ← Thread.read fun s => s.config.validateTokenPrincipal env.text payload
    match permitted with
    | none => Thread.raise internalError
    | some permitted => do
      Thread.require permitted ⟨401, "User account or identity provider is no longer authorized"⟩
      pure (.tokens (createTokenPair payload.sub payload.provider payload.groups))

def verifyToken (token : Option TokenPayload) : Handler := do
  let enabled ← Thread.read fun s => s.config.enabled
  match token.filter fun payload => enabled && payload.type = "access" with
  | none => pure (.verified false none)
  | some payload => do
    let permitted ← Thread.read fun s => s.config.validateTokenPrincipal env.text payload
    match permitted with
    | none => Thread.raise internalError
    | some true => pure (.verified true (some payload.sub))
    | some false => pure (.verified false none)

def getAuthStatus : Handler := do
  let config ← Thread.read fun s => s.config
  pure (.status config.enabled (!config.users.isEmpty) config.setupSkipped (config.getAuthMode env.text)
    (config.localLoginEnabled env.text) (config.oidcLoginEnabled env.text)
    (env.text.orEmpty ((Json.obj config.oidc).field "provider_name")))

def shownProvider : Handler := do
  let config ← Thread.read fun s => s.config
  pure (.provider (config.getAuthMode env.text) (redactOidc config.oidc))

def getAuthProvider (credentials : Credentials) : Handler := do
  let _ ← getOptionalCurrentUser env.text credentials
  shownProvider env

def updateAuthProvider (credentials : Credentials) (request : OIDCProviderRequest) : Handler := do
  let _ ← getOptionalCurrentUser env.text credentials
  let current ← Thread.read fun s => s.config.oidc
  let (mode, oidc) ← Thread.ofExcept (validateOidcProvider env current request)
  updateProvider env.text mode oidc
  shownProvider env

def testOidcProvider (credentials : Credentials) (request : OIDCProviderRequest) (outside : Outside) : Handler := do
  let _ ← getOptionalCurrentUser env.text credentials
  let current ← Thread.read fun s => s.config.oidc
  let (mode, _) ← Thread.ofExcept (validateOidcProvider env current request)
  Thread.require (mode ≠ "local") ⟨400, "Select OIDC or hybrid mode to test SSO"⟩
  let endpoints ← Thread.ofExcept (outside.endpoints.mapError fun detail => ⟨400, detail⟩)
  pure (.endpoints endpoints)

def oidcOn : Thread State HttpError Bool := do
  let enabled ← Thread.read fun s => s.config.enabled
  let oidcLogin ← Thread.read fun s => s.config.oidcLoginEnabled env.text
  pure (enabled && oidcLogin)

def startOidcLogin (returnTo : String) (outside : Outside) : Handler := do
  let on ← oidcOn env
  Thread.require on ⟨404, "OIDC login is not enabled"⟩
  let config ← Thread.read fun s => s.config.oidc
  let fields ← beginFlow env config returnTo outside
  pure (.authorization fields)

def oidcCallback (state code error : String) (outside : Outside) : Handler := do
  if error ≠ "" then pure (.redirect [("oidc_error", "Authorization was denied")])
  else do
    let on ← oidcOn env
    if !on then pure (.redirect [("oidc_error", "OIDC login is not enabled")])
    else do
      let config ← Thread.read fun s => s.config.oidc
      let completed ← (completeFlow env config state code outside).attempt
      match completed with
      | .error detail => pure (.redirect [("oidc_error", detail)])
      | .ok (code, returnTo) => pure (.redirect [("oidc_code", code), ("return_to", returnTo)])

def exchangeOidcCode (code : String) (outside : Outside) : Handler := do
  let on ← oidcOn env
  Thread.require on ⟨404, "OIDC login is not enabled"⟩
  let exchange ← redeem code outside.now
  pure (.tokens (createTokenPair exchange.username "oidc" exchange.groups))

def skipAuthSetup : Handler := do
  let users ← Thread.read fun s => s.config.users.length
  Thread.require (users = 0) ⟨400, "Cannot skip setup - users already exist. Use the disable endpoint instead."⟩
  disableAuth env.text
  markSetupSkipped env.text
  pure (.message "Authentication setup skipped successfully")

def enableAuthentication (credentials : Credentials) : Handler := do
  let _ ← getOptionalCurrentUser env.text credentials
  let users ← Thread.read fun s => s.config.users.length
  let oidcLogin ← Thread.read fun s => s.config.oidcLoginEnabled env.text
  Thread.require (users ≠ 0 || oidcLogin)
    ⟨400, "Cannot enable authentication - configure OIDC or create a local user first."⟩
  enableAuth env.text
  pure (.message "Authentication enabled successfully")

def requireUser (currentUser : Option String) (detail : String) : Thread State HttpError Unit := do
  let enabled ← Thread.read fun s => s.config.enabled
  Thread.require (!enabled || currentUser.any (· ≠ "")) ⟨401, detail⟩

def disableAuthentication (credentials : Credentials) : Handler := do
  let currentUser ← getOptionalCurrentUser env.text credentials
  requireUser currentUser "Authentication required to disable auth"
  disableAuth env.text
  pure (.message "Authentication disabled successfully")

def checkNewUser (username password : String) : Thread State HttpError Unit := do
  Thread.require (3 ≤ username.length) ⟨400, "Username must be at least 3 characters long"⟩
  Thread.require (8 ≤ password.length) ⟨400, "Password must be at least 8 characters long"⟩
  Thread.require (password.length ≤ 72) ⟨400, "Password cannot be longer than 72 characters"⟩

def initialSetup (username password : String) : Handler := do
  let users ← Thread.read fun s => s.config.users.length
  Thread.require (users = 0) ⟨400, "Users already exist. Use the login endpoint instead."⟩
  checkNewUser username password
  let success ← addUser env.text env.passwords username password
  Thread.require success ⟨500, "Failed to create user account"⟩
  enableAuth env.text
  pure (.tokens (createTokenPair username "local" []))

def listUsers (credentials : Credentials) : Handler := do
  let currentUser ← getOptionalCurrentUser env.text credentials
  requireUser currentUser "Authentication required"
  let users ← Thread.read fun s => s.config.users
  pure (.users (users.map fun user => (user.username, user.disabled)))

def createUser (credentials : Credentials) (username password : String) : Handler := do
  let currentUser ← getOptionalCurrentUser env.text credentials
  let enabled ← Thread.read fun s => s.config.enabled
  let users ← Thread.read fun s => s.config.users.length
  let isFirstUser := !enabled && users = 0
  requireUser currentUser "Authentication required"
  checkNewUser username password
  let existing ← Thread.read fun s => s.config.getUser username
  Thread.require existing.isNone ⟨400, "Username already exists"⟩
  let success ← addUser env.text env.passwords username password
  Thread.require success ⟨500, "Failed to create user account"⟩
  if isFirstUser then do
    setConfig fun config => { config with setupSkipped := false }
    enableAuth env.text
  pure (.user username false)

/-- `/users/{username}` is for callers with a name, and only while authentication is on. -/
def requireCaller (currentUser : Option String) : Thread State HttpError Unit := do
  let enabled ← Thread.read fun s => s.config.enabled
  Thread.require enabled ⟨401, "Authentication is not enabled"⟩
  Thread.require (currentUser.any (· ≠ "")) ⟨401, "Authentication required"⟩

def activeUsers (config : UserConfig) : List User := config.users.filter fun user => !user.disabled

def setDisabled (username : String) (disabled : Bool) : List User → List User
  | [] => []
  | user :: users =>
    if user.username = username then { user with disabled := disabled } :: users
    else user :: setDisabled username disabled users

def updateUser (credentials : Credentials) (username : String) (disabled : Bool) : Handler := do
  let currentUser ← getOptionalCurrentUser env.text credentials
  requireCaller currentUser
  let user ← Thread.read fun s => s.config.getUser username
  match user with
  | none => Thread.raise ⟨400, "User not found"⟩
  | some user => do
    if disabled && !user.disabled then do
      let active ← Thread.read fun s => (activeUsers s.config).length
      Thread.require (1 < active)
        ⟨400, "Cannot disable the last active user account. This would lock you out of the system."⟩
    setConfig fun config => { config with users := setDisabled username disabled config.users }
    saveConfig env.text
    pure (.user user.username disabled)

def deleteUser (credentials : Credentials) (username : String) : Handler := do
  let currentUser ← getOptionalCurrentUser env.text credentials
  requireCaller currentUser
  Thread.require (some username ≠ currentUser) ⟨400, "Cannot delete your own account"⟩
  let user ← Thread.read fun s => s.config.getUser username
  Thread.require user.isSome ⟨400, "User not found"⟩
  let users ← Thread.read fun s => s.config.users.length
  Thread.require (1 < users) ⟨400, "Cannot delete the last user"⟩
  setConfig fun config => { config with users := config.users.filter fun user => user.username ≠ username }
  saveConfig env.text
  pure (.message "User deleted successfully")

structure Call where
  credentials : Credentials
  request : Request
  outside : Outside

def handle (call : Call) : Handler :=
  match call.request with
  | .login username password => login env username password
  | .refresh token => refreshToken env token
  | .verify token => verifyToken env token
  | .status => getAuthStatus env
  | .provider => getAuthProvider env call.credentials
  | .updateProvider request => updateAuthProvider env call.credentials request
  | .testProvider request => testOidcProvider env call.credentials request call.outside
  | .oidcStart returnTo => startOidcLogin env returnTo call.outside
  | .oidcCallback state code error => oidcCallback env state code error call.outside
  | .oidcExchange code => exchangeOidcCode env code call.outside
  | .skipSetup => skipAuthSetup env
  | .enable => enableAuthentication env call.credentials
  | .disable => disableAuthentication env call.credentials
  | .setup username password => initialSetup env username password
  | .users => listUsers env call.credentials
  | .createUser username password => createUser env call.credentials username password
  | .updateUser username disabled => updateUser env call.credentials username disabled
  | .deleteUser username => deleteUser env call.credentials username

end

end Dumb.Auth
