import Dumb.Postgres.Settings

/-!
# The guard of the PostgreSQL cutover of InfiniDysk

From `utils/service_postgres.py`: the evidence of a cutover that is kept on disk, the runtime that it asks for, and what an
update of the configuration may change after it. Every call asks the live target. `none` stands for an exception, `sha256` for
the digest of what is dumped.
-/

namespace Dumb.Postgres.Guard

open Py

/-! ## Fingerprints -/

/-- The `identity` of `infinidysk_launch_config_fingerprint`, with the environment in the order of its keys. -/
structure Launch where
  command : List String
  configDir : String
  backendOutputDir : String
  backendPort : String
  frontendPort : String
  waitForUrl : String
  env : List String
  deriving DecidableEq

structure Target where
  host : String
  port : Int
  user : String
  database : String
  configDir : String

inductive Hashed where
  | launch (l : Launch)
  | path (p : String)
  | target (t : Target)

/-- What `lstat` says of a file of the SQLite database. -/
inductive Artifact where
  | missing
  | failing
  | irregular
  | regular (size : Nat)

inductive Marker where
  | absent
  /-- It exists, and its directory is not private, or it cannot be read as a private record. -/
  | unusable
  | record (authorization : Settings)

structure World where
  text : Text
  sha256 : Hashed → String
  realpath : String → String
  /-- `shlex.split` -/
  shlexSplit : String → Option (List String)
  /-- `int(value)` -/
  int : Json → Option Int
  disk : String → Artifact
  /-- What `_sqlite_source_fingerprints` reads from a regular file. -/
  sqlite : String → Option (String × String)
  rootPrivate : Bool
  marker : Marker
  /-- What `_authorization_from_completed_job` makes of the records of the jobs. -/
  completed : List Settings
  /-- `infinidysk_installed_runtime_commit`, by the real path. -/
  installed : String → Option String
  markerWritable : Bool
  latestRelease : Option String
  /-- `get_ref_commit_sha` -/
  refCommit : String → Option String
  ahead : String → String → Bool
  /-- `infinidysk_postgres_migration_authorized` -/
  authorized : Bool

/-- `infinidysk_postgres_physical_identity`: the system identifier and the object id of the database. -/
abbrev Live : Type := Settings → String → Option (String × String)

def down : Live := fun _ _ => none

inductive Refusal where
  | raised
  | source
  | breaksBinding
  | bound
  | renamed
  | managed (key : String)
  | providerSwitch
  | artifacts
  | sqlitePreserved
  | sqliteExists
  | toSqlite
  deriving DecidableEq

def authorizationFormat : String := "dumb.infinidysk-postgres-cutover"
def adapterSchema : String := "infinidysk-postgres-v1.2.0"
def baselineCommit : String := "8c960ffc39fc85fdf9166aafd6cb2846878ec3c2"
def schemaFingerprint : String := "8d436ac58ce66de4f2bc44b97e5741735c516eee5fe296bea3f5dab7eca1424a"
def migrationHistoryFingerprint : String := "321ace5aa1e2a72c23d92f95cf5f9173e4aa6bdba68ff8cfcc7c0cba48020834"

def isHex (n : Nat) (s : String) : Bool :=
  s.length = n && s.toList.all fun c => ('0' ≤ c && c ≤ '9') || ('a' ≤ c && c ≤ 'f')

variable (w : World)

def World.value (settings : Settings) (name default : String) : String := connectionValue w.text settings name default

def World.word (value : Json) : String := w.text.lower (w.text.strip (w.text.orEmpty value))

/-- `env`, where a value that is no dict counts as empty. -/
def envOf (service : Settings) : Settings :=
  match setting service "env" with
  | .obj env => env
  | _ => []

def envUsable (service : Settings) : Bool := !(setting service "env").truthy || (setting service "env").isObj

def World.launch (service : Settings) : Launch :=
  let configDir := w.realpath (w.value service "config_dir" "/infinidysk")
  { command :=
      if (setting service "command").truthy then
        match setting service "command" with
        | .str s => (w.shlexSplit s).getD [w.text.strip s]
        | .arr items => items.map w.text.str
        | command => [w.text.str command]
      else []
    configDir := configDir
    backendOutputDir := w.realpath (w.value service "backend_output_dir" (joinPath configDir "app"))
    backendPort := w.value service "backend_port" ""
    frontendPort := w.value service "frontend_port" ""
    waitForUrl := w.value service "wait_for_url" ""
    env := ["ASPNETCORE_URLS", "BACKEND_URL", "CONFIG_PATH", "FRONTEND_URL", "PORT"].map fun key =>
      w.value (envOf service) key "" }

def World.launchConfigFingerprint (service : Settings) : String := w.sha256 (.launch (w.launch service))

def World.configPath (service : Settings) : String :=
  w.value (envOf service) "CONFIG_PATH" (w.value service "config_dir" "/infinidysk")

def World.mainDatabase (configPath : String) : String := joinPath (w.realpath configPath) "db.sqlite"

def World.sourcePathFingerprint (path : String) : String := w.sha256 (.path (w.realpath path))

def World.sqliteSourceFingerprints (path : String) : Option (String × String) :=
  match w.disk path with
  | .regular size => if size < 1 then none else w.sqlite path
  | _ => none

def World.databaseName (service : Settings) : String := servicePostgresDatabaseName w.text "infinidysk" none service

def World.port (postgres : Settings) : Option Int :=
  if (setting postgres "port").truthy then w.int (setting postgres "port") else some 5432

def World.target (postgres : Settings) (database : String) : Option Target :=
  (w.port postgres).map fun port =>
    { host := w.value postgres "host" "127.0.0.1"
      port := port
      user := w.value postgres "user" "DUMB"
      database := database
      configDir := w.realpath (w.value postgres "config_dir" "/postgres_data") }

/-! ## The connection string -/

def segments : Option Char → List Char → List Char → Option (List (List Char))
  | none, current, [] => some [current]
  | some _, _, [] => none
  | some quote, current, [c] => if c = quote then segments none current [] else segments (some quote) (current ++ [c]) []
  | some quote, current, c :: d :: rest =>
    if c = quote then
      if d = quote then segments (some quote) (current ++ [c]) rest else segments none current (d :: rest)
    else segments (some quote) (current ++ [c]) (d :: rest)
  | none, current, c :: rest =>
    if c = '"' || c = '\'' then segments (some c) current rest
    else if c = ';' then (segments none [] rest).map (current :: ·)
    else segments none (current ++ [c]) rest

def connectionAliases : Dict String String :=
  [("host", "host"), ("server", "host"), ("data source", "host"), ("port", "port"), ("database", "database"),
    ("initial catalog", "database"), ("username", "user"), ("user id", "user"), ("userid", "user"), ("user", "user"),
    ("password", "password"), ("pwd", "password")]

def parseFields (text : Text) : List (List Char) → Dict String String → Option (Dict String String)
  | [], parsed => some parsed
  | segment :: rest, parsed =>
    if segment.contains '=' then
      let name := String.ofList (segment.takeWhile (· ≠ '='))
      let value := String.ofList ((segment.dropWhile (· ≠ '=')).drop 1)
      match connectionAliases.get? (text.lower (text.strip name)) with
      | some canonical =>
        if (parsed.get? canonical).isSome then none
        else parseFields text rest (parsed.set canonical (text.strip value))
      | none => parseFields text rest parsed
    else if text.strip (String.ofList segment) ≠ "" then none
    else parseFields text rest parsed

def World.connectionTargetsRuntime (value : String) (postgres : Settings) (database : String) : Option Bool :=
  if value = "" || 16 * 1024 < value.length then some false
  else match (segments none [] value.toList).bind fun found => parseFields w.text found [] with
    | none => some false
    | some parsed => (w.port postgres).map fun port =>
      parsed.get? "host" = some (w.value postgres "host" "127.0.0.1") && parsed.get? "port" = some (toString port) &&
        parsed.get? "database" = some database && parsed.get? "user" = some (w.value postgres "user" "DUMB")

/-! ## The evidence -/

/-- What `_authorization_matches_runtime` compares before the fingerprint of the target, but for the launch contract. -/
def World.matchesBinding (authorization service : Settings) (source : String × String) : Bool :=
  isText authorizationFormat (authorization.get? "format") && (setting authorization "version").pyEq (.int 1) &&
    isHex 32 (w.text.orEmpty (setting authorization "job_id")) &&
    isHex 32 (w.text.orEmpty (setting authorization "rehearsal_job_id")) &&
    isText "infinidysk" (authorization.get? "service_key") &&
    isText (w.value service "process_name" "") (authorization.get? "process_name") &&
    isText adapterSchema (authorization.get? "adapter_schema") &&
    isText source.1 (authorization.get? "source_schema_fingerprint") &&
    isText (w.sourcePathFingerprint (w.mainDatabase (w.configPath service))) (authorization.get? "source_path_fingerprint") &&
    isText source.2 (authorization.get? "source_migration_history_fingerprint") && source.2 = migrationHistoryFingerprint &&
    isText (w.databaseName service) (authorization.get? "postgres_database")

def World.matchesLaunch (authorization service : Settings) : Bool :=
  isText (w.launchConfigFingerprint service) (authorization.get? "launch_config_fingerprint")

def World.matchesIdentity (live : Live) (authorization service postgres : Settings) : Bool :=
  isText schemaFingerprint (authorization.get? "postgres_schema_fingerprint") &&
    ((live postgres (w.databaseName service)).any fun identity =>
      (setting authorization "postgres_physical_identity").pyEq
        (.obj [("system_identifier", .str identity.1), ("database_oid", .str identity.2)])) &&
    (setting authorization "application_health_verified").isTrue

def World.authorizationMatchesRuntime (live : Live) (authorization service postgres : Settings) (source : String × String) :
    Option Bool :=
  if w.matchesBinding authorization service source && w.matchesLaunch authorization service then
    (w.target postgres (w.databaseName service)).map fun target =>
      isText (w.sha256 (.target target)) (authorization.get? "postgres_target_fingerprint") &&
        w.matchesIdentity live authorization service postgres
  else some false

def World.completedJobAuthorization (live : Live) (service postgres : Settings) (source : String × String) :
    List Settings → Option Bool
  | [] => some false
  | authorization :: rest => do
    if ← w.authorizationMatchesRuntime live authorization service postgres source then some true
    else World.completedJobAuthorization live service postgres source rest

def World.cutoverCompleted (live : Live) (service postgres : Settings) : Option Bool :=
  match w.sqliteSourceFingerprints (w.mainDatabase (w.configPath service)) with
  | none => some false
  | some source =>
    if !w.rootPrivate then some false
    else match w.marker with
    | .absent => w.completedJobAuthorization live service postgres source w.completed
    | .unusable => some false
    | .record authorization => w.authorizationMatchesRuntime live authorization service postgres source

def World.providerIsPostgres (service : Settings) : Bool :=
  ["postgres", "postgresql"].contains (w.word (setting (envOf service) "DATABASE_PROVIDER"))

def World.environmentTargets (service postgres : Settings) : Option Bool :=
  if w.providerIsPostgres service then
    w.connectionTargetsRuntime (w.text.orEmpty (setting (envOf service) "DATABASE_CONNECTION_STRING")) postgres
      (w.databaseName service)
  else some false

def World.runtimeConfigured (live : Live) (service postgres : Settings) : Option Bool := do
  if ← w.environmentTargets service postgres then w.cutoverCompleted live service postgres else some false

/-- `infinidysk_postgres_runtime_floor`, without what it writes into a marker that has no commit yet. -/
def World.runtimeFloor (service : Settings) : Option String :=
  match w.rootPrivate, w.marker with
  | true, .record authorization =>
    if isText authorizationFormat (authorization.get? "format") && (setting authorization "version").pyEq (.int 1) &&
        isText "infinidysk" (authorization.get? "service_key") &&
        isText (w.value service "process_name" "") (authorization.get? "process_name") &&
        isText adapterSchema (authorization.get? "adapter_schema") &&
        isHex 32 (w.text.orEmpty (setting authorization "job_id")) &&
        w.matchesLaunch authorization service &&
        isText (w.sourcePathFingerprint (w.mainDatabase (w.configPath service)))
          (authorization.get? "source_path_fingerprint") then
      let minimum := w.word (setting authorization "minimum_runtime_commit")
      if isHex 40 minimum then some minimum
      else match w.installed (w.realpath (w.value service "config_dir" "/infinidysk")) with
        | some commit => if isHex 40 commit && w.markerWritable then some commit else none
        | none => none
    else none
  | _, _ => none

/-! ## The source of the runtime -/

def leadingDigits (cs : List Char) : Option (Nat × List Char) :=
  match cs.takeWhile Char.isDigit with
  | [] => none
  | digits => some (digits.foldl (fun n c => 10 * n + (c.toNat - 48)) 0, cs.dropWhile Char.isDigit)

def stableVersion (release : String) : Option (Nat × Nat × Nat) := do
  let cs := match release.toList with
    | c :: cs => if c = 'v' || c = 'V' then cs else c :: cs
    | [] => []
  let (major, rest) ← leadingDigits cs
  let '.' :: rest := rest | none
  let (minor, rest) ← leadingDigits rest
  let '.' :: rest := rest | none
  let (patch, rest) ← leadingDigits rest
  if rest = [] then some (major, minor, patch) else none

/-- `validate_infinidysk_postgres_release_version`: v1.2.0 or newer. -/
def releaseVersionSafe (release : String) : Bool :=
  (stableVersion release).any fun (major, minor, _) => 1 < major || (major = 1 && 2 ≤ minor)

def World.postgresSelected (service : Settings) : Bool := postgresEnabled service || w.providerIsPostgres service

def World.release (service : Settings) : String :=
  let release :=
    if (setting service "release_version_enabled").isTrue then
      w.text.strip (w.text.orEmpty (setting service "release_version"))
    else "latest"
  if release = "" then "latest" else release

def World.official (service : Settings) : Bool :=
  w.word (setting service "repo_owner") = "infinidysk" && w.word (setting service "repo_name") = "infinidysk"

def World.selectedRuntimeCommit (service : Settings) : Option String :=
  let commitSha := w.word (setting service "commit_sha")
  if commitSha ≠ "" then if isHex 40 commitSha then some commitSha else none
  else do
    let ref ←
      if (setting service "branch_enabled").isTrue then
        let branch := w.text.strip (w.value service "branch" "main")
        some (if branch = "" then "main" else branch)
      else if w.text.lower (w.release service) = "latest" then w.latestRelease
      else some (w.release service)
    let commit ← w.refCommit ref
    if isHex 40 (w.text.lower commit) then some (w.text.lower commit) else none

def World.sourceSelectionSafe (service : Settings) (minimumCommit : Option String) : Bool :=
  if !w.postgresSelected service then true
  else
    let minimum := w.text.lower (w.text.strip (minimumCommit.getD ""))
    if minimum ≠ "" then
      isHex 40 minimum && w.official service &&
        (w.selectedRuntimeCommit service).any fun target => target = minimum || w.ahead minimum target
    else
      let commitSha := w.word (setting service "commit_sha")
      if commitSha ≠ "" then commitSha = baselineCommit
      else if (setting service "branch_enabled").isTrue then false
      else w.official service &&
        (w.text.lower (w.release service) = "latest" || releaseVersionSafe (w.release service))

/-! ## The guard -/

def World.initialized (configPath : String) : Option Bool :=
  ["", "-wal", "-shm", "-journal"].foldlM (fun found suffix =>
    match w.disk (w.mainDatabase configPath ++ suffix) with
    | .missing => some found
    | .regular size => some (found || 0 < size)
    | _ => none) false

def decided {α : Type} (x : Option α) : Except Refusal α := x.elim (.error .raised) .ok

def require (b : Bool) (e : Refusal) : Except Refusal Unit := if b then .ok () else .error e

def World.validateFreshInstall (live : Live) (configPath : String) (enabled : Bool) (service postgres : Settings) :
    Except Refusal Unit := do
  require (!(!enabled && w.providerIsPostgres service && !w.authorized)) .providerSwitch
  let initialized ← (w.initialized configPath).elim (.error .artifacts) .ok
  if !initialized then .ok ()
  else if !enabled then
    let completed ← decided (w.cutoverCompleted live service postgres)
    require (!completed) .sqlitePreserved
  else if w.authorized then .ok ()
  else
    let configured ← decided (w.runtimeConfigured live service postgres)
    require configured .sqliteExists

def World.staticBindingMatches (current candidate postgres candidatePostgres : Settings) : Option Bool :=
  if w.value candidate "process_name" "" = w.value current "process_name" "" &&
      w.sourcePathFingerprint (w.mainDatabase (w.configPath current)) =
        w.sourcePathFingerprint (w.mainDatabase (w.configPath candidate)) &&
      w.databaseName current = w.databaseName candidate then do
    let currentTarget ← w.target postgres (w.databaseName current)
    let candidateTarget ← w.target candidatePostgres (w.databaseName candidate)
    some (w.sha256 (.target currentTarget) = w.sha256 (.target candidateTarget))
  else some false

def managedKept (current candidate : Settings) (key : String) : Bool :=
  (setting (envOf current) key).pyEq (setting (envOf candidate) key)

def isFalse : Json → Bool
  | .bool b => !b
  | _ => false

def World.checkBinding (current candidate postgres candidatePostgres : Settings) : Except Refusal Unit :=
  if w.providerIsPostgres current then do
    let bound ← decided (w.staticBindingMatches current candidate postgres candidatePostgres)
    require bound .bound
  else .ok ()

def World.checkEnabling (live : Live) (current candidate postgres candidatePostgres : Settings) : Except Refusal Unit :=
  if !postgresEnabled current && postgresEnabled candidate then do
    w.validateFreshInstall live (w.configPath current) true current postgres
    w.validateFreshInstall live (w.configPath candidate) true candidate candidatePostgres
  else .ok ()

def World.checkDisabling (live : Live) (selected : Bool) (candidate candidatePostgres : Settings) : Except Refusal Unit :=
  if isFalse (setting candidate "postgres_enabled") && selected then do
    w.validateFreshInstall live (w.configPath candidate) false candidate candidatePostgres
    .error .toSqlite
  else .ok ()

def World.validateCandidateUpdate (live : Live) (current candidate postgres candidatePostgres : Settings) :
    Except Refusal Unit := do
  require (envUsable current && envUsable candidate) .raised
  let currentCutover ← decided (w.cutoverCompleted live current postgres)
  let currentRuntime ← decided (w.runtimeConfigured live current postgres)
  let candidateCutover ← decided (w.cutoverCompleted live candidate candidatePostgres)
  let candidateRuntime ← decided (w.runtimeConfigured live candidate candidatePostgres)
  let minimum := if currentCutover || currentRuntime then w.runtimeFloor current else none
  require (w.sourceSelectionSafe candidate minimum) .source
  require (!((currentCutover && !candidateCutover) || (currentRuntime && !candidateRuntime))) .breaksBinding
  w.checkBinding current candidate postgres candidatePostgres
  let selected := w.providerIsPostgres current || currentCutover || currentRuntime
  require (!(selected && w.value candidate "process_name" "" ≠ w.value current "process_name" "")) .renamed
  require (w.authorized || managedKept current candidate "DATABASE_PROVIDER") (.managed "DATABASE_PROVIDER")
  require (w.authorized || managedKept current candidate "DATABASE_CONNECTION_STRING") (.managed "DATABASE_CONNECTION_STRING")
  w.checkEnabling live current candidate postgres candidatePostgres
  w.checkDisabling live selected candidate candidatePostgres

end Dumb.Postgres.Guard
