import Dumb.Authelia.Settings
import Dumb.Config.Update

/-!
# authelia_router

The two requests that set up sign-in, from `api/routers/authelia.py`: `bootstrap_managed_authelia` and
`link_dumb_auth`.
-/

namespace Dumb.Authelia

open Py
open Dumb.Auth (HttpError OIDCProviderRequest)

inductive Mode where
  | oidc
  | hybrid
  deriving DecidableEq

def Mode.text : Mode → String
  | .oidc => "oidc"
  | .hybrid => "hybrid"

inductive Source where
  | managed
  | externalAuthelia
  | customOidc
  deriving DecidableEq

def Source.text : Source → String
  | .managed => "managed"
  | .externalAuthelia => "external_authelia"
  | .customOidc => "custom_oidc"

structure LinkDumbRequest where
  source : Source
  mode : Mode
  providerName : String
  dumbPublicUrl : String
  issuerUrl : String
  discoveryUrl : String
  clientId : String
  clientSecret : String
  scopes : List String
  usernameClaim : String
  groupsClaim : String
  allowedGroups : List String
  tlsVerify : Bool
  allowPrivateEndpoints : Bool
  allowHttp : Bool
  confirmOidcOnly : Bool

structure LinkDumbResponse where
  mode : String
  source : String
  redirectUri : String
  localFallbackEnabled : Bool

section
variable (env : Env)

def serviceConfig : Handler Config := do
  let config ← Thread.read (·.config)
  Thread.ofExcept (orRaise (.http ⟨404, "Authelia service configuration is unavailable"⟩)
    (membersOf (config.field "authelia")))

def postgresConfig : Handler Json := do
  let config ← Thread.read (·.config)
  pure (if (config.field "postgres").truthy then config.field "postgres" else .obj [])

/-! ## Addresses for browsers -/

def browserFacing (p : Url.Parts) : Bool :=
  let hostname := hostname env p
  String.ofList p.scheme = "https" && hostname ≠ "" && hostname ≠ "localhost" &&
    !".localhost".toList.isSuffixOf hostname.toList && !env.isIp hostname && hostname.toList.contains '.' &&
    !p.hasUsername && !p.hasPassword && p.params = [] && p.query = [] && p.fragment = []

def basePath (p : Url.Parts) : Bool := p.path = [] || p.path = ['/']

def absoluteBaseUrl (value label : String) : Except Failure String :=
  match (urlparse env (env.text.strip value)).filter fun p => browserFacing env p && basePath p with
  | some p => .ok (rstripSlash p.geturl)
  | none => .error (.http ⟨400, label ++ " must be a browser-facing HTTPS FQDN"⟩)

def callbackPath : List Char :=
  ['/', 'a', 'p', 'i', '/', 'a', 'u', 't', 'h', '/', 'o', 'i', 'd', 'c', '/', 'c', 'a', 'l', 'l', 'b', 'a', 'c', 'k']

def redirectAccepted (raw : String) : Bool :=
  (urlparse env raw).any fun p => p.portReadable && browserFacing env p && p.path = callbackPath

def routerEnv (passwords : Auth.Passwords) (words : String → List String) : Auth.Env :=
  ⟨env.text, passwords, redirectAccepted env, words⟩

/-! ## link_dumb_auth -/

def restartManagedAuthelia : Handler Unit :=
  Thread.require (env.fate .restart = .fine) (.http ⟨500, "The OIDC client was saved, but Authelia could not restart with its updated configuration. DUMB authentication was not changed."⟩)

def managedProvider (redirectUri : String) : Handler (String × Credentials) := do
  let config ← serviceConfig
  let issuer := strOr env config "public_url" ""
  Thread.require (issuer ≠ "") (.http ⟨400, "Bootstrap managed Authelia first"⟩)
  let credentials ← ensureOidcClient env "dumb" "dumb" "DUMB" redirectUri
    (strOr env config "authorization_policy" "two_factor")
  let postgres ← postgresConfig
  renderConfiguration env config postgres
  restartManagedAuthelia env
  pure (issuer, credentials)

def provider (request : LinkDumbRequest) (redirectUri issuer : String) (credentials : Credentials) : OIDCProviderRequest where
  mode := request.mode.text
  enabled := true
  providerName :=
    if env.text.strip request.providerName ≠ "" then env.text.strip request.providerName else "Single Sign-On"
  source := request.source.text
  issuerUrl := issuer
  discoveryUrl := env.text.strip request.discoveryUrl
  authorizationEndpoint := ""
  tokenEndpoint := ""
  userinfoEndpoint := ""
  jwksUri := ""
  clientId := credentials.clientId
  clientSecret := credentials.clientSecret
  redirectUri := redirectUri
  scopes := request.scopes
  usernameClaim := request.usernameClaim
  groupsClaim := request.groupsClaim
  allowedGroups := request.allowedGroups
  tlsVerify := request.tlsVerify
  allowPrivateEndpoints := request.allowPrivateEndpoints
  allowHttp := request.allowHttp
  timeoutSeconds := 10
  confirmOidcOnly := request.confirmOidcOnly

/-- `model_dump` without the mode and the confirmation. -/
def dump (p : OIDCProviderRequest) : List (String × Json) :=
  [("enabled", .bool p.enabled), ("provider_name", .str p.providerName), ("source", .str p.source),
    ("issuer_url", .str p.issuerUrl), ("discovery_url", .str p.discoveryUrl),
    ("authorization_endpoint", .str p.authorizationEndpoint), ("token_endpoint", .str p.tokenEndpoint),
    ("userinfo_endpoint", .str p.userinfoEndpoint), ("jwks_uri", .str p.jwksUri), ("client_id", .str p.clientId),
    ("client_secret", .str p.clientSecret), ("redirect_uri", .str p.redirectUri), ("scopes", Auth.strings p.scopes),
    ("username_claim", .str p.usernameClaim), ("groups_claim", .str p.groupsClaim),
    ("allowed_groups", Auth.strings p.allowedGroups), ("tls_verify", .bool p.tlsVerify),
    ("allow_private_endpoints", .bool p.allowPrivateEndpoints), ("allow_http", .bool p.allowHttp),
    ("timeout_seconds", .int p.timeoutSeconds)]

def linkCredentials (request : LinkDumbRequest) (redirectUri : String) : Handler (String × Credentials) :=
  match request.source with
  | .managed => managedProvider env redirectUri
  | _ => pure (Auth.rstripSlash (env.text.strip request.issuerUrl),
      ⟨env.text.strip request.clientId, request.clientSecret⟩)

def linkProvider (request : LinkDumbRequest) : Handler OIDCProviderRequest := do
  let dumbBase ← Thread.ofExcept (absoluteBaseUrl env request.dumbPublicUrl "DUMB public URL")
  let redirectUri := dumbBase ++ String.ofList callbackPath
  Thread.require (request.mode ≠ .oidc || request.confirmOidcOnly)
    (.http ⟨400, "OIDC-only mode requires explicit lockout-risk confirmation"⟩)
  let (issuer, credentials) ← linkCredentials env request redirectUri
  Thread.require (issuer ≠ "" && credentials.clientId ≠ "" && credentials.clientSecret ≠ "")
    (.http ⟨400, "Issuer URL and OIDC client credentials are required"⟩)
  pure (provider env request redirectUri issuer credentials)

def setAuth (f : Auth.UserConfig → Auth.UserConfig) : Handler Unit :=
  Thread.modify fun s => { s with auth := { s.auth with config := f s.auth.config } }

def saveAuth (op : Op) : Handler Unit :=
  match env.fate op with
  | .fine => Thread.modify fun s => { s with auth := { s.auth with file := s.auth.config.saved env.text } }
  | _ => Thread.raise .other

def linkDumbAuth (request : LinkDumbRequest) : Handler LinkDumbResponse := do
  let provider ← linkProvider env request
  setAuth fun config => { config with mode := provider.mode, oidc := dump provider }
  saveAuth env .saveProvider
  setAuth fun config => { config with enabled := true }
  saveAuth env .saveEnabled
  pure ⟨request.mode.text, request.source.text, provider.redirectUri, request.mode = .hybrid⟩

end

end Dumb.Authelia
