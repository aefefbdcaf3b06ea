import Dumb.Config.Loader

/-!
# _migrate_huntarr_to_neutarr

From `main.py`. It runs on the configuration that the update loaded. Every step says whether it changed
anything, and `none` stands for an exception.
-/

namespace Dumb.Config

open Py

/-! ## One instance -/

def isIn (sub s : String) : Bool := s.toList.tails.any sub.toList.isPrefixOf

def replaceValue (key old new : String) (inst : List (String × Json)) : List (String × Json) × Bool :=
  if isStr old ((Json.obj inst).field key) then (Dict.set key (.str new) inst, true) else (inst, false)

def renamePath (s : String) : String := replace "/huntarr/" "/neutarr/" s

def renameItem : Json → Json
  | .str s => .str (renamePath s)
  | j => j

def replacePath (key : String) (inst : List (String × Json)) : List (String × Json) × Bool :=
  match Dict.get? key inst with
  | some (.str s) => if isIn "/huntarr/" s then (Dict.set key (.str (renamePath s)) inst, true) else (inst, false)
  | _ => (inst, false)

def replaceDatabase (inst : List (String × Json)) : List (String × Json) × Bool :=
  match Dict.get? "config_file" inst with
  | some (.str s) =>
    if "huntarr.db".toList.isSuffixOf s.toList then
      (Dict.set "config_file"
        (.str (String.ofList (s.toList.take (s.length - "huntarr.db".length) ++ "general.json".toList))) inst, true)
    else (inst, false)
  | _ => (inst, false)

def replaceItems (key : String) (inst : List (String × Json)) : List (String × Json) × Bool :=
  match Dict.get? key inst with
  | some (.arr items) =>
    let renamed := items.map renameItem
    if !(Json.arr renamed).pyEq (.arr items) then (Dict.set key (.arr renamed) inst, true) else (inst, false)
  | _ => (inst, false)

def renameConfigDir (env : List (String × Json)) : Option (List (String × Json) × Bool) :=
  match Dict.get? "HUNTARR_CONFIG_DIR" env with
  | none => some (env, false)
  | some (.str s) =>
    some (Dict.set "NEUTARR_CONFIG_DIR" (.str (renamePath s)) (Dict.erase "HUNTARR_CONFIG_DIR" env), true)
  | some _ => none

def renamePort (env : List (String × Json)) : List (String × Json) × Bool :=
  match Dict.get? "HUNTARR_PORT" env with
  | none => (env, false)
  | some v => (Dict.set "NEUTARR_PORT" v (Dict.erase "HUNTARR_PORT" env), true)

def hasPath : Json → Bool
  | .str s => isIn "/huntarr/" s
  | _ => false

def renameEnv (env : List (String × Json)) : Option (List (String × Json) × Bool) :=
  (renameConfigDir env).map fun (env, dir) =>
    let (env, port) := renamePort env
    (env.map fun m => (m.1, if hasPath m.2 then renameItem m.2 else m.2), dir || port || env.any fun m => hasPath m.2)

def instanceSteps : List (List (String × Json) → List (String × Json) × Bool) :=
  [replaceValue "process_name" "Huntarr" "NeutArr", replaceValue "repo_owner" "plexguide" "I-am-PUID-0",
    replaceValue "repo_name" "Huntarr.io" "NeutArr", replacePath "config_dir", replacePath "config_file",
    replacePath "log_file", replaceDatabase, replaceItems "command", replaceItems "exclude_dirs"]

def runSteps (inst : List (String × Json)) : List (String × Json) × Bool :=
  instanceSteps.foldl (fun (inst, changed) step => let (inst, here) := step inst; (inst, changed || here)) (inst, false)

def renameInstance : Json → Option (Json × Bool)
  | .obj inst =>
    let (inst, changed) := runSteps inst
    match Dict.get? "env" inst with
    | some (.obj env) => (renameEnv env).map fun (env, here) => (.obj (Dict.set "env" (.obj env) inst), changed || here)
    | _ => some (.obj inst, changed)
  | j => some (j, false)

/-! ## The configuration -/

def onInstances (f : Json → Option (Json × Bool)) :
    List (String × Json) → Option (List (String × Json) × Bool)
  | [] => some ([], false)
  | (name, inst) :: instances => do
    let (inst, here) ← f inst
    let (instances, rest) ← onInstances f instances
    some ((name, inst) :: instances, here || rest)

def renameService (config : List (String × Json)) : List (String × Json) × Bool :=
  match Dict.get? "huntarr" config with
  | some v =>
    if (Dict.keys config).contains "neutarr" then (config, false)
    else (Dict.set "neutarr" v (Dict.erase "huntarr" config), true)
  | none => (config, false)

def renameInstances (config : List (String × Json)) : Option (List (String × Json) × Bool) :=
  match Dict.get? "neutarr" config with
  | some (.obj service) =>
    match Dict.get? "instances" service with
    | some (.obj instances) => (onInstances renameInstance instances).map fun (instances, changed) =>
      (Dict.set "neutarr" (.obj (Dict.set "instances" (.obj instances) service)) config, changed)
    | _ => some (config, false)
  | _ => some (config, false)

def renameFlag : Json → Json × Bool
  | .obj inst =>
    match Dict.get? "use_huntarr" inst with
    | some v => (.obj (Dict.set "use_neutarr" v (Dict.erase "use_huntarr" inst)), true)
    | none => (.obj inst, false)
  | j => (j, false)

def renameFlags (key : String) (config : List (String × Json)) : Option (List (String × Json) × Bool) :=
  match Dict.get? key config with
  | some (.obj service) =>
    let instances := (Dict.get? "instances" service).getD .null
    if instances.truthy then
      match instances with
      | .obj instances => (onInstances (fun inst => some (renameFlag inst)) instances).map fun (instances, changed) =>
        (Dict.set key (.obj (Dict.set "instances" (.obj instances) service)) config, changed)
      | _ => none
    else some (config, false)
  | _ => some (config, false)

def flagKeys : List String := ["sonarr", "radarr", "lidarr", "whisparr", "eros"]

def renameAllFlags : List String → List (String × Json) → Option (List (String × Json) × Bool)
  | [], config => some (config, false)
  | key :: keys, config => do
    let (config, here) ← renameFlags key config
    let (config, rest) ← renameAllFlags keys config
    some (config, here || rest)

def migrateHuntarrToNeutarr (config : List (String × Json)) : Option (List (String × Json) × Bool) := do
  let (config, service) := renameService config
  let (config, instances) ← renameInstances config
  let (config, flags) ← renameAllFlags flagKeys config
  some (config, service || instances || flags)

def initialConfig (text : Text) (default : List (String × Json)) (disk : Disk) : Option (List (String × Json)) :=
  match (updateConfigWithDefaults text default disk).2 with
  | some ⟨.obj config, _⟩ => (migrateHuntarrToNeutarr config).map Prod.fst
  | _ => none

end Dumb.Config
