import Dumb.Startup.Dependencies

/-!
# Global port reservation

`_apply_global_port_reservations` of `main.py` with its helpers, and `synchronize_traefik_web_port` of
`utils/traefik_setup.py`. Which ports the host has free is a predicate. The upward search of
`_find_free_port` has no bound of its own, so it runs on fuel.
-/

namespace Dumb.Startup

open Py

inductive Stop where
  | outOfFuel
  | exc (e : Exc)

/-- The host, and what the Traefik setup uses of `str`: `str(value).strip()` and the value of a `\d`. -/
structure Host where
  free : Int → Bool
  strStrip : Json → String
  decimal : Char → Option Nat

namespace Host

def isPortAvailable (host : Host) : Json → Bool
  | .int port => 0 < port && port ≤ 65535 && host.free port
  | _ => false

end Host

/-- `used_ports`: each claimed port with the owner that claimed it. -/
abbrev Used := Dict Int String

section
variable (host : Host)

def findFreePort (used : Used) : Nat → Int → Except Stop Int
  | 0, _ => .error .outOfFuel
  | fuel + 1, port =>
    if (Dict.get? port used).isSome || !host.isPortAvailable (.int port) then findFreePort used fuel (port + 1)
    else .ok port

def claimed (used : Used) (port : Int) (owner : String) : Bool :=
  match Dict.get? port used with
  | some existing => existing ≠ "" && existing ≠ owner
  | none => false

def reservePort (fuel : Nat) (used : Used) (desired : Json) (owner : String) :
    Except Stop (Option Json × Bool × Used) :=
  match desired.asInt with
  | none => .ok (none, false, used)
  | some port =>
    if port ≤ 0 then .ok (none, false, used)
    else if claimed used port owner || !host.isPortAvailable desired then do
      let newPort ← findFreePort host used fuel (port + 1)
      return (some (.int newPort), true, Dict.set newPort owner used)
    else .ok (some desired, false, Dict.set port owner used)

/-! ## Traefik -/

/-- `re.search(r":(\d+)$", value)`: what stands before the match, and its digits. -/
def searchPort : List Char → Option (List Char × List Char)
  | [] => none
  | c :: rest =>
    if c = ':' && rest ≠ [] && rest.all fun d => (host.decimal d).isSome then some ([], rest)
    else (searchPort rest).map fun found => (c :: found.1, found.2)

def parseDigits (digits : List Char) : Option Int :=
  if digits.length > 4300 then none
  else some (digits.foldl (fun n d => 10 * n + (host.decimal d).getD 0) 0)

def parseEntrypointPort (address : Json) (fallback : Int) : Int :=
  match searchPort host (host.strStrip address).toList with
  | none => fallback
  | some (_, digits) => (parseDigits host digits).getD fallback

def showPort : Json → String
  | .int n => toString n
  | .bool b => if b then "True" else "False"
  | _ => ""

def entrypointAddressWithPort (address port : Json) : String :=
  let value := host.strStrip (if address.truthy then address else .str "")
  match searchPort host value.toList with
  | some (start, _) => String.ofList start ++ ":" ++ showPort port
  | none => ":" ++ showPort port

def dictOf (key : String) (config : Json) : Json :=
  match config.field key with
  | .obj members => .obj members
  | _ => .obj []

def webAddress : Json → Json
  | .obj web => (Dict.get? "address" web).getD (.str ":18080")
  | _ => .str ":18080"

def synchronizeTraefikWebPort (config : Json) : Json × Bool × Json :=
  let entrypoints := dictOf "entrypoints" config
  let web := dictOf "web" entrypoints
  let port := config.field "port"
  let configuredPort := match port.asInt with
    | some n => if n ≤ 0 then .int (parseEntrypointPort host (webAddress web) 18080) else port
    | none => .int (parseEntrypointPort host (webAddress web) 18080)
  let expectedAddress := entrypointAddressWithPort host (webAddress web) configuredPort
  let sameAddress := match web.field "address" with
    | .str address => address = expectedAddress
    | _ => false
  let changed := port.num ≠ configuredPort.num || !sameAddress
  let web := Json.setPath (.str expectedAddress) ["address"] web
  let config := Json.setPath (Json.setPath web ["web"] entrypoints) ["entrypoints"] config
  (configuredPort, changed, Json.setPath configuredPort ["port"] config)

def claimedByOther (used : Used) (port : Int) (owner : String) : Bool :=
  match Dict.get? port used with
  | some existing => existing ≠ owner
  | none => false

def findTraefikPair (used : Used) : Nat → Json → Option Json
  | 0, _ => none
  | n + 1, candidate =>
    let port := candidate.asInt.getD 0
    if claimedByOther used port "traefik:port" || claimedByOther used (port + 1) "traefik:dashboard" ||
        !host.isPortAvailable candidate || !host.isPortAvailable (.int (port + 1)) then
      findTraefikPair used n (.int (port + 1))
    else some candidate

def reserveTraefikPorts (cfg : Json) (used : Used) : Except Stop (Bool × Json × Used) :=
  let (desired, synced, cfg) := synchronizeTraefikWebPort host cfg
  let port := desired.asInt.getD 0
  let used := if Dict.get? port used = some "traefik:port" then Dict.erase port used else used
  match findTraefikPair host used (65535 - port).toNat desired with
  | none => .error (.exc (.runtimeError "No consecutive ports are available for Traefik."))
  | some candidate =>
    let web := candidate.asInt.getD 0
    let claim := fun used : Used => Dict.set (web + 1) "traefik:dashboard" (Dict.set web "traefik:port" used)
    if web = port then .ok (synced, cfg, claim used)
    else
      let (_, _, cfg) := synchronizeTraefikWebPort host (Json.setPath candidate ["port"] cfg)
      .ok (true, cfg, claim used)

end

/-! ## The owners of ports -/

structure Target where
  path : List String
  field : String
  owner : String

namespace Target

def leaf (t : Target) : List String := t.path ++ [t.field]

def isTraefik (t : Target) : Bool := t.path = ["traefik"]

end Target

def isEnabled (cfg : Json) : Bool := cfg.isObj && (cfg.field "enabled").truthy

def dumbTargets (cfg : Json) : List Target :=
  ["api_service", "frontend"].filterMap fun subkey =>
    if isEnabled (cfg.field subkey) then some ⟨["dumb", subkey], "port", "dumb_" ++ subkey ++ ":port"⟩ else none

def instanceTargets (key : String) (instances : List (String × Json)) : List Target :=
  instances.filterMap fun inst =>
    if isEnabled inst.2 then some ⟨[key, "instances", inst.1], "port", key ++ ":" ++ inst.1⟩ else none

def portFields (key : String) : List String :=
  if key = "infinidysk" then ["frontend_port", "backend_port", "port"] else ["port"]

def serviceTargets (key : String) (cfg : Json) : List Target :=
  match cfg.field "instances" with
  | .obj instances => instanceTargets key instances
  | _ => if isEnabled cfg then (portFields key).map fun field => ⟨[key], field, key ++ ":" ++ field⟩ else []

def items : Json → List (String × Json)
  | .obj members => members
  | _ => []

/-- The owners in configuration order, as `_seed_used_ports` meets them. -/
def seedTargets (config : Json) : List Target :=
  (items config).flatMap fun item =>
    if item.1 = "dumb" then dumbTargets item.2 else serviceTargets item.1 item.2

def reserveTargets (config : Json) : List Target :=
  dumbTargets (config.field "dumb") ++ (items config).flatMap fun item =>
    if item.1 = "dumb" then [] else serviceTargets item.1 item.2

def addSeed (used : Used) (port : Json) (owner : String) : Used :=
  match port.asInt with
  | none => used
  | some n =>
    if n ≤ 0 then used
    else match Dict.get? n used with
      | some existing => if existing ≠ owner then used else Dict.set n owner used
      | none => Dict.set n owner used

def seedUsedPorts (config : Json) : Used :=
  (seedTargets config).foldl (fun used t => addSeed used (Json.getPath t.leaf config) t.owner) []

/-! ## The reservation pass -/

structure Reservation where
  config : Json
  used : Used
  changed : Bool

section
variable (host : Host) (fuel : Nat)

def reserveConfigPort (s : Reservation) (t : Target) : Except Stop Reservation := do
  let desired := Json.getPath t.leaf s.config
  match ← reservePort host fuel s.used desired t.owner with
  | (none, _, used) => return { s with used := used }
  | (some chosen, moved, used) =>
    if desired.num ≠ chosen.num then
      return { config := Json.setPath chosen t.leaf s.config, used := used, changed := true }
    else return { s with used := used, changed := s.changed || moved }

def reserveTraefik (s : Reservation) (t : Target) : Except Stop Reservation := do
  let (changed, cfg, used) ← reserveTraefikPorts host (Json.getPath t.path s.config) s.used
  return { config := Json.setPath cfg t.path s.config, used := used, changed := s.changed || changed }

def reserve (s : Reservation) (t : Target) : Except Stop Reservation :=
  if t.isTraefik then reserveTraefik host s t else reserveConfigPort host fuel s t

def applyGlobalPortReservations (config : Json) : Except Stop Reservation := do
  if !(config.field "dumb").isObj then throw (.exc (.attributeError "get"))
  (reserveTargets config).foldlM (reserve host fuel) ⟨config, seedUsedPorts config, false⟩

end

end Dumb.Startup
