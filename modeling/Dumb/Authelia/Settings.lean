import Dumb.Auth.Router
import Dumb.Lib.Raise
import Dumb.Lib.Url

/-!
# Managed Authelia

From `utils/authelia_settings.py`. What the faults of one request are, operation by operation, is given: a write may
also raise once the file is replaced. YAML, JSON and the hashes are parameters.
-/

namespace Dumb.Authelia

open Py
open Dumb.Auth (HttpError)

inductive File where
  | missing
  | text (s : String)
  | undecodable
  deriving DecidableEq

structure Files where
  users : File
  configuration : File
  managed : File
  secrets : Dict String File

structure World where
  /-- `CONFIG_MANAGER.config` -/
  config : Json
  saved : Option Json
  files : Files
  auth : Auth.State

inductive Failure where
  /-- `AutheliaSetupError` -/
  | setup (message : String)
  | http (e : HttpError)
  | other

inductive Op where
  | smtpPassword
  | readUsers
  | writeUsers
  | readSecret (name : String)
  | writeSecret (name : String)
  | notification
  | readManaged
  | writeManaged
  | writeConfiguration
  | seedUsers
  | readConfig
  | writeConfig
  | saveProvider
  | saveEnabled
  | restart
  deriving DecidableEq

inductive Fate where
  | fine
  | fails
  | failsLate
  deriving DecidableEq

structure Env where
  text : Text
  /-- What `urlsplit` checks on the part between the slashes. -/
  checkNetloc : List Char → Bool
  /-- Whether `ip_address` reads a host. -/
  isIp : String → Bool
  /-- `int(value)` -/
  int : Json → Option Int
  /-- `get_password_hash` -/
  passwordHash : String → Option String
  clientHash : String → String
  fresh : String → String
  yamlLoad : String → Option Json
  /-- `yaml.safe_dump` with sorted keys. -/
  yamlDumpSorted : Json → String
  yamlDump : Json → String
  jsonLoad : String → Option Json
  jsonDump : Json → String
  fate : Op → Fate

abbrev Handler (α : Type) := Thread World Failure α

section
variable (env : Env)

/-! ## Files -/

def write (op : Op) (f : World → World) : Handler Unit :=
  match env.fate op with
  | .fine => Thread.modify f
  | .fails => Thread.raise .other
  | .failsLate => do
    Thread.modify f
    Thread.raise .other

def readText (op : Op) (file : World → File) : Handler (Option String) := do
  let file ← Thread.read file
  match env.fate op, file with
  | .fine, .text s => pure (some s)
  | .fine, .undecodable => Thread.raise .other
  | _, _ => pure none

def setFiles (f : Files → Files) (s : World) : World := { s with files := f s.files }

def secretFile (name : String) (files : Files) : File := (Dict.get? name files.secrets).getD .missing

def setSecret (name value : String) : World → World :=
  setFiles fun files => { files with secrets := Dict.set name (.text value) files.secrets }

def setUsers (text : String) : World → World := setFiles fun files => { files with users := .text text }

def secret (name : String) : Handler String := do
  let existing ← readText env (.readSecret name) fun s => secretFile name s.files
  let existing := env.text.strip (existing.getD "")
  if existing ≠ "" then pure existing
  else do
    write env (.writeSecret name) (setSecret name (env.fresh name))
    pure (env.fresh name)

def loadState (files : Files) : List (String × Json) :=
  match env.fate .readManaged, files.managed with
  | .fine, .text s =>
    match env.jsonLoad s with
    | some (.obj members) => members
    | _ => []
  | _, _ => []

/-! ## URLs -/

def urlparse (value : String) : Option Url.Parts := Url.urlparse env.checkNetloc value.toList

def hostname (p : Url.Parts) : String :=
  let (name, percent, zone) := Url.partition '%' p.host
  env.text.lower (env.text.lower (String.ofList name) ++ (if percent then "%" else "") ++ String.ofList zone)

def rstripSlash (s : List Char) : String := String.ofList (s.rdropWhile (· = '/'))

def normalizePublicUrl (value : String) : Except Failure (String × String) :=
  match urlparse env (env.text.strip value) with
  | none => .error (.setup "Authelia public URL is invalid")
  | some p =>
    if String.ofList p.scheme ≠ "https" || p.host = [] then .error (.setup "Authelia public URL must be an HTTPS URL")
    else if p.hasUsername || p.hasPassword || p.query ≠ [] || p.fragment ≠ [] then
      .error (.setup "Authelia public URL contains unsupported components")
    else .ok (rstripSlash p.geturl, hostname env p)

def validateCookieDomain (publicHost cookieDomain : String) : Except Failure String :=
  let domain := String.ofList ((env.text.lower (env.text.strip cookieDomain)).toList.dropWhile (· = '.'))
  if !domain.toList.contains '.' then .error (.setup "Cookie domain must contain at least one dot")
  else if publicHost ≠ domain && !(('.' :: domain.toList).isSuffixOf publicHost.toList) then
    .error (.setup "Cookie domain must match or be a parent of the Authelia hostname")
  else .ok domain

/-! ## The first user -/

structure NewUser where
  username : String
  password : String
  displayName : String
  email : String
  groups : List String

def NewUser.refused (user : NewUser) : Option String :=
  if (env.text.strip user.username).length < 3 then some "Authelia username must be at least 3 characters"
  else if user.password.length < 12 then some "Authelia password must be at least 12 characters"
  else if 72 < user.password.utf8ByteSize then some "Authelia bootstrap password cannot exceed 72 bytes"
  else none

def NewUser.entry (user : NewUser) (hash : String) : Json :=
  let displayName := env.text.strip user.displayName
  let groups := ((user.groups.map env.text.strip).filter (· ≠ "")).eraseDups
  .obj [("disabled", .bool false),
    ("displayname", .str (if displayName ≠ "" then displayName else env.text.strip user.username)),
    ("password", .str hash), ("email", .str (env.text.strip user.email)),
    ("groups", .arr ((if groups ≠ [] then groups else ["admins"]).map .str))]

def usersDocument (text : Option String) : Json :=
  match text.bind env.yamlLoad with
  | some document => if document.truthy then document else .obj []
  | none => .obj []

def withUser (username : String) (entry : Json) : Json → Option Json
  | .obj document =>
    match (Dict.get? "users" document).getD (.obj []) with
    | .obj users => some (.obj (Dict.set "users" (.obj (Dict.set username entry users)) document))
    | _ => none
  | _ => none

def bootstrapUser (user : NewUser) : Handler Unit := do
  match user.refused env with
  | some message => Thread.raise (.setup message)
  | none => do
    let text ← readText env .readUsers fun s => s.files.users
    let hash ← Thread.ofExcept (orRaise .other (env.passwordHash user.password))
    let document ← Thread.ofExcept
      (orRaise .other (withUser (env.text.strip user.username) (user.entry env hash) (usersDocument env text)))
    write env .writeUsers (setUsers (env.yamlDumpSorted document))

/-- A file that cannot be read is an empty one. -/
def usersText (s : World) : Option String :=
  match env.fate .readUsers, s.files.users with
  | .fine, .text t => some t
  | _, _ => none

theorem run_readUsers (s : World) : (readText env .readUsers fun s => s.files.users).run s = (.error .other, s) ∨
    (readText env .readUsers fun s => s.files.users).run s = (.ok (usersText env s), s) := by
  rw [readText, Thread.run_read_bind, usersText]
  cases env.fate .readUsers <;> cases s.files.users <;> simp

theorem withUser_keeps {username : String} {entry document written : Json} (h : withUser username entry document = some written) :
    (∀ name, Json.getPath ["users", name] written = if name = username then entry else Json.getPath ["users", name] document) ∧
      ∀ key, key ≠ "users" → written.field key = document.field key := by
  cases document with
  | obj members =>
    simp only [withUser] at h
    split at h
    · next users husers =>
      cases h
      refine ⟨fun name => ?_, fun key hkey => by simp [Json.field_set, hkey]⟩
      simp only [Json.getPath_cons, Json.getPath_nil, Json.field_set, if_true]
      split
      · rfl
      · cases hget : Dict.get? "users" members <;> simp_all [Json.field]
    · cases h
  | _ => cases h

structure Credentials where
  clientId : String
  clientSecret : String

def clientSecret (key : String) (clients : List (String × Json)) : String :=
  let secret := ((Dict.get? key clients).getD .null).field "client_secret"
  if secret.truthy then env.text.str secret else env.fresh key

def ensureOidcClient (key clientId clientName redirectUri authorizationPolicy : String) : Handler Credentials := do
  let parsed ← Thread.ofExcept (orRaise .other (urlparse env redirectUri))
  Thread.require (["http", "https"].contains (String.ofList parsed.scheme) && parsed.netloc ≠ [])
    (.setup "OIDC redirect URI must be an absolute HTTP(S) URL")
  let state ← Thread.read fun s => loadState env s.files
  match (Dict.get? "clients" state).getD (.obj []) with
  | .obj clients => do
    let value := clientSecret env key clients
    let entry := Json.obj [("client_id", .str clientId), ("client_name", .str clientName), ("client_secret", .str value),
      ("client_secret_hash", .str (env.clientHash value)), ("redirect_uri", .str redirectUri),
      ("authorization_policy", .str authorizationPolicy)]
    let state := Dict.set "clients" (.obj (Dict.set key entry clients)) state
    write env .writeManaged (setFiles fun files => { files with managed := .text (env.jsonDump (.obj state)) })
    pure ⟨clientId, value⟩
  | _ => Thread.raise .other

/-! ## The configuration of the service -/

abbrev Config := List (String × Json)

def membersOf : Json → Option Config
  | .obj members => some members
  | _ => none

def strOr (config : Config) (key default : String) : String :=
  let value := (Json.obj config).field key
  if value.truthy then env.text.str value else default

def getOr (config : Config) (key : String) (default : Json) : Json := (Dict.get? key config).getD default

def configPath (config : Config) (name : String) : String :=
  let dir := strOr env config "config_dir" "/config/authelia"
  if "/".toList.isSuffixOf dir.toList then dir ++ name else dir ++ "/" ++ name

def notifierConfig (config : Config) : Config :=
  match (Json.obj config).field "notifier" with
  | .obj members => members
  | _ => []

def notifier (config : Config) : Handler Json := do
  let settings := notifierConfig config
  if env.text.lower (env.text.strip (strOr env settings "type" "filesystem")) = "smtp" then do
    let address := env.text.strip (strOr env settings "address" "")
    let sender := env.text.strip (strOr env settings "sender" "")
    Thread.require (address ≠ "" && sender ≠ "") (.setup "SMTP notifier requires address and sender")
    pure (.obj [("smtp", .obj [("address", .str address), ("username", .str (strOr env settings "username" "")),
      ("password", .str ""), ("sender", .str sender),
      ("startup_check_address", .str (strOr env settings "startup_check_address" sender)),
      ("disable_require_tls", .bool (getOr settings "disable_require_tls" (.bool false)).truthy)])])
  else do
    write env .notification id
    pure (.obj [("filesystem", .obj [("filename", .str (configPath env config "notification.txt"))])])

def notifierPassword (config : Config) : Handler Unit := do
  let settings := notifierConfig config
  if env.text.lower (strOr env settings "type" "") = "smtp" then do
    let existing ← Thread.read fun s => secretFile "smtp-password" s.files
    let supplied := strOr env settings "password" ""
    if supplied ≠ "" || existing = .missing then write env (.writeSecret "smtp-password") (setSecret "smtp-password" supplied)
    else pure ()
  else pure ()

def managedClient (policy : String) (value : Config) : Option Json := do
  let clientId ← Dict.get? "client_id" value
  let clientName ← Dict.get? "client_name" value
  let clientSecret ← Dict.get? "client_secret_hash" value
  let redirectUri ← Dict.get? "redirect_uri" value
  some (.obj [("client_id", clientId), ("client_name", clientName), ("client_secret", clientSecret),
    ("redirect_uris", .arr [redirectUri]), ("scopes", Auth.strings ["openid", "profile", "email", "groups"]),
    ("authorization_policy", getOr value "authorization_policy" (.str policy)),
    ("token_endpoint_auth_method", .str "client_secret_basic")])

def managedClients (policy : String) (state : Config) : Option (List Json) :=
  let clients := (Json.obj state).field "clients"
  match if clients.truthy then clients else .obj [] with
  | .obj clients =>
    ((Dict.values clients).filterMap membersOf).mapM (managedClient policy)
  | _ => none

structure Checked where
  publicUrl : String
  publicHost : String
  cookieDomain : String
  policy : String

def checkConfig (config : Config) : Except Failure Checked := do
  let (publicUrl, publicHost) ← normalizePublicUrl env (strOr env config "public_url" "")
  let cookieDomain ← validateCookieDomain env publicHost (strOr env config "cookie_domain" "")
  let policy := strOr env config "authorization_policy" "two_factor"
  require (["one_factor", "two_factor"].contains policy)
    (.setup "Authorization policy must be one_factor or two_factor")
  pure ⟨publicUrl, publicHost, cookieDomain, policy⟩

def cookie (config : Config) (checked : Checked) : Except Failure Json := do
  let defaultRedirect := env.text.strip (strOr env config "default_redirection_url" "")
  let members : Config := [("domain", .str checked.cookieDomain), ("authelia_url", .str checked.publicUrl), ("same_site", .str "lax"),
    ("inactivity", .str "15m"), ("expiration", .str "8h"), ("remember_me", .str "30d")]
  if defaultRedirect = "" then pure (.obj members)
  else do
    let (redirect, _) ← normalizePublicUrl env defaultRedirect
    require (redirect ≠ checked.publicUrl) (.setup "Default redirection URL must differ from the Authelia URL")
    pure (.obj (members ++ [("default_redirection_url", .str redirect)]))

def baseDocument (config postgres : Config) (checked : Checked) (notifier cookie : Json) : Option Config := do
  let port ← env.int (getOr config "port" (.int 9091))
  let postgresPort ← env.int (getOr postgres "port" (.int 5432))
  some [("theme", .str "auto"),
    ("server", .obj [("address", .str ("tcp://0.0.0.0:" ++ toString port ++ "/")), ("disable_healthcheck", .bool true)]),
    ("log", .obj [("level", .str (env.text.lower (strOr env config "log_level" "info"))), ("format", .str "text"),
      ("file_path", .str (strOr env config "log_file" "/log/authelia.log")), ("keep_stdout", .bool true)]),
    ("totp", .obj [("issuer", .str checked.publicHost)]),
    ("authentication_backend", .obj [("password_reset", .obj [("disable", .bool false)]),
      ("password_change", .obj [("disable", .bool false)]),
      ("file", .obj [("path", .str (configPath env config "users_database.yml")), ("watch", .bool true),
        ("password", .obj [("algorithm", .str "bcrypt"), ("bcrypt", .obj [("cost", .int 12)])])])]),
    ("access_control", .obj [("default_policy", .str "deny"), ("rules", .arr [.obj [
      ("domain", Auth.strings [checked.cookieDomain, "*." ++ checked.cookieDomain]), ("policy", .str checked.policy)]])]),
    ("session", .obj [("secret", .str ""), ("cookies", .arr [cookie])]),
    ("regulation", .obj [("max_retries", .int 5), ("find_time", .str "2m"), ("ban_time", .str "5m")]),
    ("storage", .obj [("encryption_key", .str ""), ("postgres", .obj [
      ("address", .str ("tcp://" ++ env.text.str (getOr postgres "host" (.str "127.0.0.1")) ++ ":" ++ toString postgresPort)),
      ("database", .str "authelia"), ("schema", .str "public"), ("username", .str (strOr env postgres "user" "DUMB")),
      ("password", .str ""), ("timeout", .str "5s")])]),
    ("notifier", notifier), ("identity_validation", .obj [("reset_password", .obj [("jwt_secret", .str "")])])]

def identityProviders (clients : List Json) : Handler Config :=
  if clients = [] then pure []
  else do
    let key ← secret env "oidc-jwk.pem"
    pure [("identity_providers", .obj [("oidc", .obj [("hmac_secret", .str ""),
      ("jwks", .arr [.obj [("algorithm", .str "RS256"), ("use", .str "sig"), ("key", .str key)]]), ("clients", .arr clients)])])]

def secretNames : List String := ["session", "storage", "reset-password", "oidc-hmac"]

def writeSecrets : List String → Handler Unit
  | [] => pure ()
  | name :: names => do
    let _ ← secret env name
    writeSecrets names

def renderConfiguration (config : Config) (postgres : Json) : Handler Unit := do
  let checked ← Thread.ofExcept (checkConfig env config)
  writeSecrets env secretNames
  let postgres ← Thread.ofExcept (orRaise .other (membersOf postgres))
  write env (.writeSecret "postgres-password") (setSecret "postgres-password" (strOr env postgres "password" ""))
  let notifier ← notifier env config
  notifierPassword env config
  let state ← Thread.read fun s => loadState env s.files
  let clients ← Thread.ofExcept (orRaise .other (managedClients checked.policy state))
  let cookie ← Thread.ofExcept (cookie env config checked)
  let document ← Thread.ofExcept (orRaise .other (baseDocument env config postgres checked notifier cookie))
  let providers ← identityProviders env clients
  write env .writeConfiguration
    (setFiles fun files => { files with configuration := .text (env.yamlDump (.obj (document ++ providers))) })
  let users ← Thread.read fun s => s.files.users
  if users = .missing then write env .seedUsers (setUsers "users: \x7b\x7d\n") else pure ()

end

end Dumb.Authelia
