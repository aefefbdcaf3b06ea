import Dumb.Config.Loader
import Dumb.Config.Shipped
import Dumb.Lib.Script

/-!
# Onboarding of services with instances

`_run_startup_admitted` of `api/routers/process.py`, for the core services whose configuration holds instances. None of them
has dependencies. What ports are chosen, whether a process starts and what the PostgreSQL set-up finds comes from outside.
-/

namespace Dumb.Onboarding

open Py

inductive Service where
  | lidarr
  | neutarr
  | profilarr
  | seerr
  | prowlarr
  | radarr
  | sonarr
  | whisparr
  deriving DecidableEq

def Service.key : Service → String
  | .lidarr => "lidarr"
  | .neutarr => "neutarr"
  | .profilarr => "profilarr"
  | .seerr => "seerr"
  | .prowlarr => "prowlarr"
  | .radarr => "radarr"
  | .sonarr => "sonarr"
  | .whisparr => "whisparr"

def Service.display : Service → String
  | .lidarr => "Lidarr"
  | .neutarr => "NeutArr"
  | .profilarr => "Profilarr"
  | .seerr => "Seerr"
  | .prowlarr => "Prowlarr"
  | .radarr => "Radarr"
  | .sonarr => "Sonarr"
  | .whisparr => "Whisparr"

def arrPostgresKeys : List Service := [.sonarr, .radarr, .lidarr, .prowlarr, .whisparr]

def neutarrKeys : List Service := [.sonarr, .radarr, .lidarr, .whisparr]

abbrev Settings := Dict String Json

abbrev Instances := Dict String Settings

structure Template where
  name : String
  settings : Settings

def Template.instances (template : Template) : Instances := [(template.name, template.settings)]

/-! ## Names and paths -/

def isNameChar (c : Char) : Bool :=
  ('A' ≤ c && c ≤ 'Z') || ('a' ≤ c && c ≤ 'z') || ('0' ≤ c && c ≤ '9') || c = ' ' || c = '_' || c = '-'

def normalizeInstanceName (name : String) : String × String :=
  let cleanedDisplay := asciiStrip (String.ofList (name.toList.filter isNameChar))
  (cleanedDisplay, replace " " "_" (asciiLower cleanedDisplay))

def rewriteValue (service : Service) (segment : String) : Json → Json
  | .str value =>
    let base := "/" ++ service.key ++ "/default"
    let target := "/" ++ service.key ++ "/" ++ segment
    .str (replace "/default/" ("/" ++ segment ++ "/") (replace base target value))
  | j => j

def rewritePath (service : Service) (segment : String) (cfg : Settings) (k : String) : Settings :=
  match cfg.get? k with
  | some value => cfg.set k (rewriteValue service segment value)
  | none => cfg

def rewritePathsForInstance (cfg : Settings) (service : Service) (segment : String) : Settings :=
  ["config_dir", "config_file", "log_file"].foldl (rewritePath service segment) cfg

def cloneFromTemplate (template : Template) (target : Option String) (service : Service) : String × Settings :=
  let requested := match target with
    | some name => if name = "" then template.name else name
    | none => template.name
  let (cleanedDisplay, cleanedPath) := normalizeInstanceName requested
  let instName := if cleanedDisplay = "" then "Instance" else cleanedDisplay
  let cfg := (template.settings.set "enabled" (.bool true)).set "process_name" (.str (service.display ++ " " ++ instName))
  (instName, rewritePathsForInstance cfg service cleanedPath)

def suffixed (taken : List String) (base : String) : String :=
  (((List.range (taken.length + 1)).map fun i => base ++ " " ++ toString (i + 2)).find? fun name => name ∉ taken).getD base

def named (taken : List String) (service : Service) (clone : String × Settings) : String × Settings :=
  if clone.1 ∈ taken then
    let name := suffixed taken clone.1
    (name, clone.2.set "process_name" (.str (service.display ++ " " ++ name)))
  else clone

/-! ## The configuration -/

inductive Call where
  /-- `_purge_template_placeholders` -/
  | purge (service : Service)
  | add (service : Service) (name : String) (cfg : Settings)
  /-- The instance is enabled, and `apply_service_options`. -/
  | configure (service : Service) (name : String) (options : Settings)
  | port (service : Service) (name : String) (value : Json)
  | postgres (service : Service) (name key : String) (value : Json)
  /-- `CONFIG_MANAGER.save_config` and `CONFIG_MANAGER.reload` -/
  | reload

structure State where
  instances : Service → Instances
  calls : List Call

structure Env where
  text : Text
  template : Service → Template
  legacyIdentity : Bool

def applyOption (cfg : Settings) (option : String × Json) : Settings :=
  match option.2 with
  | .null => cfg
  | value => if (cfg.get? option.1).any fun old => old.pyEq value then cfg else cfg.set option.1 value

def applyServiceOptions (cfg options : Settings) : Settings := options.foldl applyOption cfg

def enable (cfg : Settings) : Settings :=
  if ((cfg.get? "enabled").getD .null).truthy then cfg else cfg.set "enabled" (.bool true)

def reloaded (env : Env) (cfg : Settings) : Settings :=
  let saved := Config.normalizeReleaseSelectors env.text (.obj cfg)
  let disk := if env.legacyIdentity then Config.mapInfinidyskTokens env.text Config.infinidyskLegacyKey false saved else saved
  match Config.normalizeReleaseSelectors env.text (Config.mapInfinidyskTokens env.text Config.infinidyskKey false disk) with
  | .obj loaded => loaded
  | _ => cfg

namespace State

def update (s : State) (service : Service) (f : Instances → Instances) : Service → Instances :=
  fun other => if other = service then f (s.instances other) else s.instances other

def modify (s : State) (service : Service) (name : String) (f : Settings → Settings) : Service → Instances :=
  s.update service fun instances => instances.map fun m => if m.1 = name then (m.1, f m.2) else m

end State

def exec (env : Env) (c : Call) (s : State) : Except Empty Unit × State :=
  let instances := match c with
    | .purge service => s.update service fun instances => instances.filter fun m => m.1 ≠ (env.template service).name
    | .add service name cfg => s.update service fun instances => instances.set name cfg
    | .configure service name options => s.modify service name fun cfg => applyServiceOptions (enable cfg) options
    | .port service name value => s.modify service name fun cfg => cfg.set "port" value
    | .postgres service name key value => s.modify service name fun cfg => cfg.set key value
    | .reload => fun service => (s.instances service).map fun m => (m.1, reloaded env m.2)
  (.ok (), { instances, calls := s.calls ++ [c] })

/-! ## Requests -/

structure Answers where
  port : Service → String → Option Json
  started : Service → String → Bool
  /-- `arr_postgres_config_file_enabled` of a `config_file`. -/
  postgresFile : Json → Bool
  postgresEnv : Json → Json
  postgresStarted : Bool

structure CoreService where
  service : Service
  instanceName : Option String
  resolved : Option String
  serviceOptions : Dict String Settings
  answers : Answers

structure StartRequest where
  coreServices : List CoreService
  optionalServices : List Service
  optionalServiceOptions : Dict String Settings
  answers : Answers

inductive Failure where
  | noProcessName
  | notStarted
  | postgresNotStarted

abbrev Onboard := Script State Call Empty Failure

def act (c : Call) : Onboard Unit := Script.act (fun e => e.elim) c

def instOf (service : Service) (name : String) (s : State) : Settings := ((s.instances service).get? name).getD []

def setting (cfg : Settings) (k : String) : Json := (cfg.get? k).getD .null

def postgresEnabled (cfg : Settings) : Bool := (setting cfg "postgres_enabled").isTrue

/-! ## PostgreSQL -/

def ensureFlag (answers : Answers) (service : Service) (name : String) : Onboard Unit := do
  let cfg ← Script.see (instOf service name)
  if !postgresEnabled cfg && answers.postgresFile (setting cfg "config_file") then
    act (.postgres service name "postgres_enabled" (.bool true))
  else pure ()

def configureArrPostgres (answers : Answers) : Onboard Unit :=
  Script.forEach (fun service => do
    let instances ← Script.see fun s => s.instances service
    Script.forEach (fun m => if (setting m.2 "enabled").truthy then ensureFlag answers service m.1 else pure ()) instances)
    arrPostgresKeys

def configureSeerrPostgres (answers : Answers) : Onboard Unit := do
  let instances ← Script.see fun s => s.instances .seerr
  Script.forEach (fun m =>
    if (setting m.2 "enabled").truthy && postgresEnabled m.2 then
      act (.postgres .seerr m.1 "env" (answers.postgresEnv (setting m.2 "env")))
    else pure ()) instances

def ensurePostgres (answers : Answers) (service : Service) (name : String) : Onboard Unit :=
  if service ∈ arrPostgresKeys then do
    ensureFlag answers service name
    let cfg ← Script.see (instOf service name)
    if postgresEnabled cfg then do
      configureArrPostgres answers
      Script.require answers.postgresStarted .postgresNotStarted
    else pure ()
  else if service = .seerr then do
    let cfg ← Script.see (instOf service name)
    if postgresEnabled cfg then do
      configureSeerrPostgres answers
      Script.require answers.postgresStarted .postgresNotStarted
    else pure ()
  else pure ()

/-! ## Instances -/

def reservePort (answers : Answers) (service : Service) (name : String) : Onboard Unit :=
  match answers.port service name with
  | some value => act (.port service name value)
  | none => pure ()

def startInstance (answers : Answers) (service : Service) (name : String) (options : Settings) : Onboard Unit := do
  act (.configure service name options)
  ensurePostgres answers service name
  let cfg ← Script.see (instOf service name)
  Script.require (setting cfg "process_name").truthy .noProcessName
  reservePort answers service name
  Script.require (answers.started service name) .notStarted

def instanceOptions (core : CoreService) (name : String) : Settings :=
  let own := (core.serviceOptions.get? name).getD []
  own ++ ((core.serviceOptions.get? core.service.key).getD []).filter fun m => (own.get? m.1).isNone

def chooseTargets (env : Env) (core : CoreService) : Onboard (List String) :=
  let service := core.service
  let template := env.template service
  let requested := match core.instanceName with
    | some name => if name = "" then core.resolved.getD "" else name
    | none => core.resolved.getD ""
  if requested ≠ "" then do
    let displayName := (normalizeInstanceName requested).1
    act (.purge service)
    let taken ← Script.see fun s => Dict.keys (s.instances service)
    if displayName ∈ taken then pure [displayName]
    else do
      let (name, cfg) := named taken service (cloneFromTemplate template (some displayName) service)
      act (.add service name cfg)
      pure [name]
  else do
    let instances ← Script.see fun s => s.instances service
    let enabledNonTemplates := instances.filter fun m => (setting m.2 "enabled").truthy && m.1 ≠ template.name
    if enabledNonTemplates ≠ [] then pure (Dict.keys enabledNonTemplates)
    else if instances.all fun m => m.1 = template.name then do
      let (name, cfg) := named (Dict.keys instances) service (cloneFromTemplate template none service)
      act (.purge service)
      act (.add service name cfg)
      pure [name]
    else pure []

def startCoreService (env : Env) (core : CoreService) : Onboard Unit := do
  let targets ← chooseTargets env core
  Script.forEach (fun name => startInstance core.answers core.service name (instanceOptions core name)) targets

def startOptionalService (answers : Answers) (service : Service) (options : Settings) : Onboard Unit := do
  let names ← Script.see fun s => Dict.keys (s.instances service)
  Script.forEach (fun name => startInstance answers service name options) names

def mergedOptions (request : StartRequest) (service : Service) : Settings :=
  let services := request.coreServices.map fun core => (core.serviceOptions.get? service.key).getD []
  (services ++ [(request.optionalServiceOptions.get? service.key).getD []]).foldl
    (fun merged options => options.foldl (fun merged m => merged.set m.1 m.2) merged) []

def anyArrUsesNeutarr (s : State) : Bool :=
  neutarrKeys.any fun service => (s.instances service).any fun m =>
    (setting m.2 "enabled").truthy && (setting m.2 "use_neutarr").truthy

def enableFirst (service : Service) : Onboard Unit := do
  let instances ← Script.see fun s => s.instances service
  if instances.any fun m => (setting m.2 "enabled").truthy then pure ()
  else match instances with
    | first :: _ => act (.configure service first.1 [])
    | [] => pure ()

def startNeutarr (request : StartRequest) : Onboard Unit := do
  let uses ← Script.see anyArrUsesNeutarr
  if uses then do
    enableFirst .neutarr
    startOptionalService request.answers .neutarr ((request.optionalServiceOptions.get? "neutarr").getD [])
  else pure ()

def runStartup (env : Env) (request : StartRequest) : Onboard Bool := do
  Script.forEach (fun service => startOptionalService request.answers service (mergedOptions request service))
    request.optionalServices
  let ok ← Script.fold (fun ok core => do
    let result ← (startCoreService env core).attempt
    pure (ok && result.isOk)) true request.coreServices
  let _ ← (startNeutarr request).attempt
  act .reload
  pure ok

end Dumb.Onboarding
