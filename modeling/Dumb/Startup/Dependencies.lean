import Mathlib.Data.List.Perm.Basic
import Mathlib.Data.List.Dedup
import Mathlib.Logic.Relation
import Dumb.Lib.Json

/-!
# Startup order

`build_conditional_dependency_map` of `utils/dependency_map.py` and `_start_processes_with_dependencies` of
`main.py`. A set is a list without repetitions. What a library decides is a parameter: `str.lower` and
`str.strip`, and `arr_postgres_config_file_enabled`, which reads an XML file.
-/

namespace Dumb.Startup

open Py

abbrev Key := String

inductive Exc where
  | attributeError (message : String)
  | runtimeError (message : String)
  | raised (message : String)

/-- What the builder uses of `str` and of the file system. -/
structure Env where
  lower : String → String
  strip : String → String
  arrPostgresConfigFileEnabled : Json → Except Exc Bool

def serviceHasEnabledInstance (config : Json) : Bool :=
  match config with
  | .obj _ =>
    match config.field "instances" with
    | .obj instances => instances.any fun inst => inst.2.isObj && (inst.2.field "enabled").truthy
    | _ => (config.field "enabled").truthy
  | _ => false

def serviceHasNeutarrInstance (config : Json) : Bool :=
  match config.field "instances" with
  | .obj instances => instances.any fun inst =>
      inst.2.isObj && (inst.2.field "enabled").truthy && (inst.2.field "use_neutarr").truthy
  | _ => false

/-! ## Core services -/

def canonicalServiceKey (env : Env) (value : String) : String :=
  let normalized := env.lower (env.strip value)
  if normalized = "nzbdav" then "infinidysk" else normalized

def normalizeParts (env : Env) (value : String) : List String :=
  ((value.splitOn ",").map (canonicalServiceKey env)).filter (· ≠ "")

def normalizeCoreServices (env : Env) : Json → List String
  | .str value => normalizeParts env value
  | .arr items => items.flatMap fun
      | .str item => normalizeParts env item
      | _ => []
  | _ => []

/-- `get_core_services` without its removal of repetitions, which no membership test sees. -/
def getCoreServices (env : Env) (inst : Json) : List String :=
  normalizeCoreServices env (inst.field "core_services") ++ normalizeCoreServices env (inst.field "core_service")

def hasCoreService (env : Env) (inst : Json) (serviceName : String) : Bool :=
  let name := canonicalServiceKey env serviceName
  name ≠ "" && (getCoreServices env inst).contains name

/-! ## The dependency map -/

abbrev DepMap := Dict Key (List Key)

namespace DepMap

def deps (m : DepMap) (k : Key) : List Key := (m.get? k).getD []

def update (m : DepMap) (k : Key) (ds : List Key) : DepMap :=
  Dict.set k (m.deps k ∪ ds) m

def add (m : DepMap) (k d : Key) : DepMap := m.update k [d]

def assign (m : DepMap) (k : Key) (ds : List Key) : DepMap := Dict.set k ds m

end DepMap

def arrPostgresKeys : List Key := ["sonarr", "radarr", "lidarr", "prowlarr", "whisparr"]

def servicePostgresKeys : List Key := ["altmount", "bazarr", "infinidysk", "pulsarr", "seerr"]

def initialDeps : DepMap :=
  [("riven_backend", ["postgres"]), ("riven_frontend", ["riven_backend"]), ("zilean", ["postgres"]),
    ("pgadmin", ["postgres"]), ("mediastorm", ["postgres"]), ("traefik_proxy_admin", ["postgres"]),
    ("authelia", ["postgres"]), ("cloudflared", ["traefik"])]

def postgresEnabled (inst : Json) : Bool := inst.isObj && (inst.field "postgres_enabled").isTrue

def instanceValues (config : Json) : Except Exc (List Json) :=
  match config.field "instances" with
  | .obj instances => .ok (Dict.values instances)
  | other => if other.truthy then .error (.attributeError "values") else .ok []

/-- `any(...)` over the instances of an Arr service, up to the first one that uses PostgreSQL. -/
def arrUsesPostgres (env : Env) : List Json → Except Exc Bool
  | [] => .ok false
  | inst :: rest => do
    if inst.isObj && (inst.field "enabled").truthy then
      if postgresEnabled inst then return true
      if ← env.arrPostgresConfigFileEnabled inst then return true
    arrUsesPostgres env rest

def serviceUsesPostgres (config : Json) : Bool :=
  let candidates := match config.field "instances" with
    | .obj instances => Dict.values instances
    | _ => [config]
  candidates.any fun service =>
    service.isObj && (service.field "enabled").truthy && postgresEnabled service

section
variable (env : Env) (get : Key → Json)

def enabledAmong (keys : List Key) : List Key := keys.filter fun k => serviceHasEnabledInstance (get k)

def addCliBattery (m : DepMap) : DepMap :=
  if serviceHasEnabledInstance (get "cli_battery") then m.add "cli_debrid" "cli_battery" else m

def addTraefikProxyAdmin (m : DepMap) : DepMap :=
  if serviceHasEnabledInstance (get "traefik_proxy_admin") then m.add "traefik" "traefik_proxy_admin" else m

def addArrPostgres (m : DepMap) (k : Key) : Except Exc DepMap := do
  let instances ← instanceValues (get k)
  if ← arrUsesPostgres env instances then return m.add k "postgres"
  return m

def addServicePostgres (m : DepMap) (k : Key) : DepMap :=
  if serviceUsesPostgres (get k) then m.add k "postgres" else m

def addMediaServers (m : DepMap) : DepMap :=
  let m := if serviceHasEnabledInstance (get "plex")
    then (m.assign "tautulli" ["plex"]).add "seerr" "plex" else m
  let m := if serviceHasEnabledInstance (get "jellyfin") then m.add "seerr" "jellyfin" else m
  if serviceHasEnabledInstance (get "emby") then m.add "seerr" "emby" else m

def addProwlarr (m : DepMap) : DepMap :=
  let ds := enabledAmong get ["sonarr", "radarr", "lidarr", "whisparr"]
  if ds.isEmpty then m else m.update "prowlarr" ds

def addBazarr (m : DepMap) : DepMap :=
  let ds := enabledAmong get ["sonarr", "radarr"]
  if ds.isEmpty then m else m.assign "bazarr" ds

def addProfilarr (m : DepMap) : DepMap :=
  let ds := enabledAmong get ["sonarr", "radarr", "lidarr", "whisparr"]
  if ds.isEmpty then m else m.assign "profilarr" ds

def addNeutarr (m : DepMap) : DepMap :=
  let ds := ["sonarr", "radarr", "lidarr", "whisparr"].filter fun k => serviceHasNeutarrInstance (get k)
  if ds.isEmpty then m else m.assign "neutarr" ds

def rcloneInstanceDeps (inst : Json) : Except Exc (List Key) := do
  if !(inst.isObj && (inst.field "enabled").truthy) then return []
  let zurg := if (inst.field "zurg_enabled").truthy then ["zurg"] else []
  let decypharr := if (inst.field "decypharr_enabled").truthy then ["decypharr"] else []
  let keyType ← match inst.field "key_type" with
    | .str s => pure (env.lower s)
    | other => if other.truthy then throw (.attributeError "lower") else pure (env.lower "")
  let infinidysk := if keyType = "infinidysk" || hasCoreService env inst "infinidysk" then ["infinidysk"] else []
  return zurg ++ decypharr ++ infinidysk

def rcloneDeps : List Json → Except Exc (List Key)
  | [] => .ok []
  | inst :: rest => do
    let ds ← rcloneInstanceDeps env inst
    let rest ← rcloneDeps rest
    return ds ∪ rest

def addRclone (m : DepMap) : Except Exc DepMap := do
  let instances ← instanceValues (get "rclone")
  let ds ← rcloneDeps env instances
  return if ds.isEmpty then m else m.assign "rclone" ds

/-- `get k` is what `config_getter` returns for `k`, null where there is no such entry. -/
def buildConditionalDependencyMap : Except Exc DepMap := do
  let m := addTraefikProxyAdmin get (addCliBattery get initialDeps)
  let m ← arrPostgresKeys.foldlM (addArrPostgres env get) m
  let m := servicePostgresKeys.foldl (addServicePostgres get) m
  let m := addNeutarr get (addProfilarr get (addBazarr get (addProwlarr get (addMediaServers get m))))
  addRclone env get m

end

/-! ## The start loop

`_start_processes_with_dependencies` with no shutdown request. The loop body has two parts: the submission
of every ready key, and `wait`, which answers with some of the jobs in progress and how each of them ended.
-/

/-- How a start job ended: `start_configured_process` returned true or false, or it raised. -/
inductive Outcome where
  | started
  | notStarted
  | raised (message : String)

inductive Event where
  | submitted (k : Key)
  | finished (k : Key)

structure Pool where
  pending : List Key
  inProgress : List Key
  completed : List Key
  failures : Dict Key String
  log : List Event

namespace Pool

def running (s : Pool) : Bool := !s.pending.isEmpty || !s.inProgress.isEmpty

def ready (deps : Key → List Key) (s : Pool) : List Key :=
  s.pending.filter fun k => (deps k).all fun d => s.completed.contains d

def submit (s : Pool) (k : Key) : Pool :=
  { s with pending := s.pending.erase k, inProgress := s.inProgress ++ [k], log := s.log ++ [.submitted k] }

def reprKeys (ks : List Key) : String := "[" ++ ", ".intercalate (ks.map fun k => "'" ++ k ++ "'") ++ "]"

def stalled (s : Pool) : Exc :=
  .runtimeError ("Dependency resolution stalled. Remaining: " ++ reprKeys (s.pending.mergeSort (· ≤ ·)))

/-- The loop body up to `wait`. `ready` is the order in which the set yields the ready keys. -/
def submitReady (s : Pool) (ready : List Key) : Except Exc Pool :=
  let s := ready.foldl submit s
  if s.inProgress.isEmpty then .error s.stalled else .ok s

def finish (s : Pool) (done : Key × Outcome) : Pool :=
  { s with
    inProgress := s.inProgress.erase done.1
    completed := done.1 :: s.completed
    failures := match done.2 with
      | .started => s.failures
      | .notStarted => Dict.set done.1 "One or more configured processes failed to start." s.failures
      | .raised message => Dict.set done.1 message s.failures
    log := s.log ++ [.finished done.1] }

/-- `wait(..., return_when=FIRST_COMPLETED)` may answer with `done`. -/
def Answers (s : Pool) (done : List (Key × Outcome)) : Prop :=
  done ≠ [] ∧ (done.map (·.1)).Nodup ∧ ∀ d ∈ done, d.1 ∈ s.inProgress

end Pool

inductive Phase where
  | head
  | waiting

inductive Step (deps : Key → List Key) : Phase × Pool → Phase × Pool → Prop
  | submit {s s' : Pool} {ready : List Key} (hrun : s.running = true) (hready : ready.Perm (s.ready deps))
      (hs : s.submitReady ready = .ok s') : Step deps (.head, s) (.waiting, s')
  | wait {s : Pool} {done : List (Key × Outcome)} (hd : s.Answers done) :
      Step deps (.waiting, s) (.head, done.foldl Pool.finish s)

abbrev Steps (deps : Key → List Key) := Relation.ReflTransGen (Step deps)

section
variable (get : Key → Json) (keys : List Key)

def enabled (k : Key) : Bool := keys.contains k && serviceHasEnabledInstance (get k)

def enabledDeps (m : DepMap) (k : Key) : List Key := (m.deps k).filter (enabled get keys)

def startPool : Pool where
  pending := keys.dedup.filter (enabled get keys)
  inProgress := []
  completed := []
  failures := []
  log := []

end

def groupedKeys : List Key :=
  ["traefik", "zurg", "radarr", "sonarr", "lidarr", "whisparr", "prowlarr", "neutarr", "profilarr", "decypharr",
    "infinidysk", "altmount", "rclone", "postgres", "authelia", "traefik_proxy_admin", "pgadmin", "zilean",
    "phalanx_db", "cli_debrid", "cli_battery", "riven_backend", "riven_frontend", "plex", "jellyfin", "emby",
    "tautulli", "seerr", "bazarr", "pulsarr", "maintainerr", "aiostreams", "mediastorm", "cloudflared"]

end Dumb.Startup
