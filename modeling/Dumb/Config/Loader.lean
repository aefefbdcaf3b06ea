import Dumb.Lib.Text

/-!
# ConfigManager.update_config_with_defaults

From `utils/config_loader.py` and `utils/release_selection.py`. The file of the user is read under the current
service name, brought up to date, laid over the shipped defaults, cut back to their keys and written again if
it changed. `none` stands for an exception, which leaves the file as it is.
-/

namespace Dumb.Config

open Py

def infinidyskKey : String := "infinidysk"
def infinidyskLegacyKey : String := "nzbdav"

/-! ## The identity of the service -/

def mapInfinidyskIdentity (target : String) : Json → Option Json
  | .obj members =>
    let keys := Dict.keys members
    if keys.contains infinidyskKey && keys.contains infinidyskLegacyKey then none
    else
      let source := if target = infinidyskKey then infinidyskLegacyKey else infinidyskKey
      if !keys.contains source || keys.contains target then some (.obj members)
      else some (.obj (members.map fun m => (if m.1 = source then target else m.1, m.2)))
  | j => some j

section
variable (text : Text)

def mapTokens (target s : String) : String :=
  join ',' ((split ',' s).map fun part =>
    if text.lower (text.strip part) ∈ [infinidyskLegacyKey, infinidyskKey] then target else part)

def mapItem (target : String) : Json → Json
  | .str s => .str (mapTokens text target s)
  | j => j

def mapInfinidyskTokens (target : String) (top : Bool) : Json → Json
  | .obj members => .obj (ofMembers top members)
  | .arr items => .arr (ofItems items)
  | j => j
where
  ofMembers (top : Bool) : List (String × Json) → List (String × Json)
    | [] => []
    | (key, child) :: members =>
      (key,
        if top && text.lower key = "zurg" then child
        else match child with
          | .str s => if key ∈ ["core_service", "key_type"] then .str (mapTokens text target s) else .str s
          | .arr items =>
            if key = "core_services" then .arr (items.map (mapItem text target))
            else mapInfinidyskTokens target false (.arr items)
          | j => mapInfinidyskTokens target false j) :: ofMembers top members
  ofItems : List Json → List Json
    | [] => []
    | item :: items => mapInfinidyskTokens target false item :: ofItems items

/-! ## Release selectors -/

def blankSelector (members : List (String × Json)) : Bool :=
  ((Json.obj members).field "release_version_enabled").isTrue &&
    text.blank ((Json.obj members).field "release_version")

def normalizeReleaseSelectors : Json → Json
  | .obj members =>
    .obj (if blankSelector text members then Dict.set "release_version" (.str "latest") (ofMembers members)
      else ofMembers members)
  | .arr items => .arr (ofItems items)
  | j => j
where
  ofMembers : List (String × Json) → List (String × Json)
    | [] => []
    | (key, child) :: members => (key, normalizeReleaseSelectors child) :: ofMembers members
  ofItems : List Json → List Json
    | [] => []
    | item :: items => normalizeReleaseSelectors item :: ofItems items

def canonicalizeRuntimeConfig (config : Json) : Option Json :=
  (mapInfinidyskIdentity infinidyskKey config).map fun mapped =>
    normalizeReleaseSelectors text (mapInfinidyskTokens text infinidyskKey true mapped)

def serializeConfigForDisk (legacy : Bool) (config : Json) : Option Json :=
  let serialized := normalizeReleaseSelectors text config
  if legacy then mapInfinidyskIdentity infinidyskLegacyKey (mapInfinidyskTokens text infinidyskLegacyKey true serialized)
  else some serialized

end

/-! ## Merge and prune -/

mutual
def mergeConfigs : Json → Json → Option Json
  | .obj default, .obj existing => do
    let merged ← mergeMembers default existing
    some (.obj (merged ++ existing.filter fun m => !(Dict.keys merged).contains m.1))
  | _, existing => some existing

def mergeMembers : List (String × Json) → List (String × Json) → Option (List (String × Json))
  | [], _ => some []
  | (key, defaultValue) :: default, existing => do
    let value ←
      if key = "instances" ∧ defaultValue.isObj = true then
        mergeInstances defaultValue ((Dict.get? "instances" existing).getD (.obj []))
      else match Dict.get? key existing with
        | some value => mergeConfigs defaultValue value
        | none => some defaultValue
    let rest ← mergeMembers default existing
    some ((key, value) :: rest)

def mergeInstances : Json → Json → Option Json
  | .obj ((name, template) :: more), instances =>
    if instances.truthy then
      match instances with
      | .obj instances => (Dict.mapValues (mergeConfigs template) instances).map .obj
      | _ => none
    else some (.obj ((name, template) :: more))
  | _, _ => none
end

mutual
def pruneExtraneousKeys : Json → Json → Option Json
  | .obj reference, .obj config =>
    if reference.isEmpty then some (.obj config) else (pruneMembers reference config).map .obj
  | _, config => some config

def pruneMembers : List (String × Json) → List (String × Json) → Option (List (String × Json))
  | [], _ => some []
  | (key, refVal) :: reference, config => do
    let rest ← pruneMembers reference config
    if key = "instances" ∧ refVal.isObj = true then
      let value ← pruneInstances refVal ((Dict.get? "instances" config).getD (.obj []))
      some ((key, value) :: rest)
    else match Dict.get? key config with
      | some value =>
        -- environment blocks are open-ended
        if key = "env" ∧ value.isObj = true then some ((key, value) :: rest)
        else do
          let value ← pruneExtraneousKeys refVal value
          some ((key, value) :: rest)
      | none => some rest

def pruneInstances : Json → Json → Option Json
  | .obj ((_, template) :: _), .obj instances => (Dict.mapValues (pruneExtraneousKeys template) instances).map .obj
  | _, _ => none
end

/-! ## The explicit migrations -/

def modify (key : String) (f : List (String × Json) → List (String × Json)) (config : List (String × Json)) :
    List (String × Json) :=
  match Dict.get? key config with
  | some (.obj members) => Dict.set key (.obj (f members)) config
  | _ => config

def checks (key : String) (P : List (String × Json) → Bool) (config : List (String × Json)) : Bool :=
  match Dict.get? key config with
  | some (.obj members) => P members
  | _ => false

def isStr (s : String) : Json → Bool
  | .str t => t = s
  | _ => false

def bazarrMigrates (members : List (String × Json)) : Bool :=
  isStr "/bazarr/data/config.yaml" ((Json.obj members).field "config_file")

def migrateBazarr (members : List (String × Json)) : List (String × Json) :=
  if bazarrMigrates members then Dict.set "config_file" (.str "/bazarr/data/config/config.yaml") members else members

section
variable (text : Text)

def mediastormMigrates (members : List (String × Json)) : Bool :=
  let name := (Json.obj members).field "process_name"
  text.casefold (text.orEmpty name) = "mediastorm" && !isStr "mediastorm" name

def migrateMediastorm (members : List (String × Json)) : List (String × Json) :=
  if mediastormMigrates text members then Dict.set "process_name" (.str "mediastorm") members else members

def repositoryMigrates (members : List (String × Json)) : Bool :=
  let owner := text.casefold (text.strip (text.orEmpty ((Json.obj members).field "repo_owner")))
  let name := text.casefold (text.strip (text.orEmpty ((Json.obj members).field "repo_name")))
  (owner, name) ∈ [("nzbdav-dev", "nzbdav"), ("nzbdav", "nzbdav")]

def migrateRepository (members : List (String × Json)) : List (String × Json) :=
  if repositoryMigrates text members then
    Dict.set "repo_name" (.str "infinidysk") (Dict.set "repo_owner" (.str "infinidysk") members)
  else members

def migrateDecypharr (members : List (String × Json)) : List (String × Json) :=
  let toggle := Dict.get? "use_embedded_rclone" members
  let members :=
    if text.blank ((Json.obj members).field "mount_type") && toggle.isSome then
      Dict.set "mount_type" (.str (if (toggle.getD .null).truthy then "rclone" else "external_rclone")) members
    else members
  Dict.erase "use_embedded_rclone" members

def blankMountType (members : List (String × Json)) : Bool := text.blank ((Json.obj members).field "mount_type")

def trimDefault (existing default : List (String × Json)) : List (String × Json) :=
  if checks "decypharr" (blankMountType text) existing then
    modify "decypharr" (fun members => Dict.erase "dfs" (Dict.erase "mount_type" members)) default
  else default

end

def keepSqlite : Json → Json
  | .obj members =>
    if (Dict.get? "postgres_enabled" members).isSome then .obj members
    else .obj (Dict.set "postgres_enabled" (.bool false) members)
  | j => j

def arrKeys : List String := ["sonarr", "radarr", "lidarr", "prowlarr", "whisparr"]

def migrateArr (config : List (String × Json)) : List (String × Json) :=
  arrKeys.foldl
    (fun config key => modify key (modify "instances" fun instances => instances.map fun m => (m.1, keepSqlite m.2)) config)
    config

section
variable (text : Text)

def migrates (config : List (String × Json)) : Bool :=
  checks "bazarr" bazarrMigrates config || checks "mediastorm" (mediastormMigrates text) config ||
    checks infinidyskKey (repositoryMigrates text) config

def migrate (config : List (String × Json)) : List (String × Json) :=
  migrateArr (modify "decypharr" (migrateDecypharr text) (modify infinidyskKey (migrateRepository text)
    (modify "mediastorm" (migrateMediastorm text) (modify "bazarr" migrateBazarr config))))

/-! ## The update -/

def overlay (default config : Json) : Option Json := do
  let merged ← mergeConfigs default config
  pruneExtraneousKeys default merged

structure Disk where
  file : Json
  backup : Option Json

structure Loaded where
  config : Json
  legacy : Bool

def isLegacy (members : List (String × Json)) : Bool :=
  (Dict.keys members).contains infinidyskLegacyKey && !(Dict.keys members).contains infinidyskKey

def upgrade (default : List (String × Json)) (file : Json) : Option (Loaded × Bool) :=
  match file with
  | .obj members => do
    match ← canonicalizeRuntimeConfig text (.obj members) with
    | .obj existing =>
      let config ← overlay (.obj (trimDefault text (migrate text existing) default)) (.obj (migrate text existing))
      some (⟨config, isLegacy members⟩, migrates text existing)
    | _ => none
  | _ => none

def updateConfigWithDefaults (default : List (String × Json)) (disk : Disk) : Disk × Option Loaded :=
  match upgrade text default disk.file with
  | none => (disk, none)
  | some (loaded, migrated) =>
    match serializeConfigForDisk text loaded.legacy loaded.config with
    | none => (disk, none)
    | some serialized =>
      if !serialized.pyEq disk.file || migrated then (⟨serialized, some disk.file⟩, some loaded)
      else (disk, some loaded)

end

end Dumb.Config
