import Dumb.Lib.Text
import Dumb.Lib.Thread

/-!
# AuthConfigManager

From `utils/auth_config.py`, `utils/auth.py` and `utils/dependencies.py`. The router holds one manager; the
dependency that looks at a request's credentials reads the file anew. A token is given by what `decode_token`
makes of it.
-/

namespace Dumb.Auth

open Py

structure User where
  username : String
  hashedPassword : String
  disabled : Bool

structure UserConfig where
  enabled : Bool
  users : List User
  setupSkipped : Bool
  mode : String
  oidc : List (String × Json)

def UserConfig.default : UserConfig := ⟨false, [], false, "local", []⟩

structure TokenPayload where
  sub : String
  type : String
  provider : String
  groups : List String

structure TokenResponse where
  username : String
  provider : String
  groups : List String

def createTokenPair (username : String) (provider : String) (groups : List String) : TokenResponse :=
  ⟨username, provider, groups⟩

structure HttpError where
  status : Nat
  detail : String

def internalError : HttpError := ⟨500, "Internal Server Error"⟩

structure Passwords where
  hash : String → String
  verify : String → String → Bool

/-! ## OIDC flows in progress -/

structure PendingAuthorization where
  nonce : String
  verifier : String
  returnTo : String
  expiresAt : Rat

structure PendingExchange where
  username : String
  groups : List String
  returnTo : String
  expiresAt : Rat

/-- `OIDCFlowManager`. `issued` remembers the codes that completed callbacks gave out. -/
structure Flows where
  authorizations : Dict String PendingAuthorization
  exchanges : Dict String PendingExchange
  issued : List String

structure State where
  config : UserConfig
  file : UserConfig
  flows : Flows

section
variable (text : Text)

namespace UserConfig

def getAuthMode (config : UserConfig) : String :=
  let mode := text.lower (text.strip (if config.mode ≠ "" then config.mode else "local"))
  if mode ∈ ["local", "oidc", "hybrid"] then mode else "local"

def localLoginEnabled (config : UserConfig) : Bool := config.getAuthMode text ∈ ["local", "hybrid"]

def oidcLoginEnabled (config : UserConfig) : Bool :=
  config.getAuthMode text ∈ ["oidc", "hybrid"] && ((Json.obj config.oidc).field "enabled").truthy

def getUser (username : String) (config : UserConfig) : Option User :=
  config.users.find? fun user => user.username = username

def saved (config : UserConfig) : UserConfig := { config with mode := config.getAuthMode text }

def items : Json → Option (List Json)
  | .arr items => some items
  | .str s => some (s.toList.map fun c => .str (String.singleton c))
  | .obj members => some (members.map fun m => .str m.1)
  | _ => none

def groupNames (groups : List String) : List String :=
  (groups.filter fun group => text.strip group ≠ "").map fun group => text.casefold (text.strip group)

def allowedGroups (config : UserConfig) : Option (List String) :=
  (items ((Dict.get? "allowed_groups" config.oidc).getD (.arr []))).map fun groups => groupNames text (groups.map text.str)

def validateTokenPrincipal (config : UserConfig) (payload : TokenPayload) : Option Bool :=
  let provider := if payload.provider ≠ "" then payload.provider else "local"
  if provider = "local" then
    if !config.localLoginEnabled text then some false
    else some ((config.getUser payload.sub).any fun user => !user.disabled)
  else if provider ≠ "oidc" || !config.oidcLoginEnabled text then some false
  else (config.allowedGroups text).map fun allowed =>
    allowed.isEmpty || allowed.any fun group => (groupNames text payload.groups).contains group

end UserConfig

/-! ## The manager of the router -/

def saveConfig : Thread State HttpError Unit := Thread.modify fun s => { s with file := s.config.saved text }

def setConfig (f : UserConfig → UserConfig) : Thread State HttpError Unit :=
  Thread.modify fun s => { s with config := f s.config }

def enableAuth : Thread State HttpError Unit := do
  setConfig fun config => { config with enabled := true }
  saveConfig text

def disableAuth : Thread State HttpError Unit := do
  setConfig fun config => { config with enabled := false }
  saveConfig text

def markSetupSkipped : Thread State HttpError Unit := do
  setConfig fun config => { config with setupSkipped := true }
  saveConfig text

variable (passwords : Passwords)

def authenticateUser (username password : String) : Thread State HttpError (Option User) := do
  let enabled ← Thread.read fun s => s.config.enabled
  let localLogin ← Thread.read fun s => s.config.localLoginEnabled text
  let user ← Thread.read fun s => s.config.getUser username
  if !enabled || !localLogin then pure none
  else pure (user.filter fun user => !user.disabled && passwords.verify password user.hashedPassword)

def addUser (username password : String) : Thread State HttpError Bool := do
  let existing ← Thread.read fun s => s.config.getUser username
  if existing.isSome then pure false
  else do
    setConfig fun config => { config with users := config.users ++ [⟨username, passwords.hash password, false⟩] }
    saveConfig text
    pure true

def updateProvider (mode : String) (oidc : List (String × Json)) : Thread State HttpError Unit := do
  let normalized := text.lower (text.strip mode)
  Thread.require (normalized ∈ ["local", "oidc", "hybrid"]) internalError
  setConfig fun config => { config with mode := normalized }
  setConfig fun config => { config with oidc := oidc }
  saveConfig text

/-! ## Who asks -/

abbrev Credentials := Option (Option TokenPayload)

def currentUser (config : UserConfig) (credentials : Credentials) : Except HttpError (Option String) :=
  if !config.enabled then .ok none
  else match credentials with
    | none => .error ⟨401, "Authentication required"⟩
    | some none => .error ⟨401, "Invalid or expired token"⟩
    | some (some payload) =>
      if payload.type ≠ "access" then .error ⟨401, "Invalid or expired token"⟩
      else match config.validateTokenPrincipal text payload with
        | none => .error internalError
        | some false => .error ⟨401, "User account or identity provider is no longer authorized"⟩
        | some true => .ok (some payload.sub)

def getOptionalCurrentUser (credentials : Credentials) : Thread State HttpError (Option String) := do
  let config ← Thread.read (·.file)
  Thread.ofExcept (currentUser text config credentials)

end

end Dumb.Auth
