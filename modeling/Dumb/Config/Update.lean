import Dumb.Config.Huntarr
import Dumb.Lib.Thread

/-!
# update_config

From `api/routers/config.py`, with `save_config` of `utils/config_loader.py`. A request is a thread over the configuration in
memory and its file. What `jsonschema` accepts, and what the guard of the PostgreSQL cutover accepts, comes with the request,
as does what the migrations block.
-/

namespace Dumb.Config

open Py

abbrev Members : Type := Dict String Json

def membersOf : Json → Members
  | .obj members => members
  | _ => []

def orEmpty (value : Json) : Json := if value.truthy then value else .obj []

/-! ## Merging -/

def assignAll (updates target : Members) : Members := updates.foldl (fun target u => Dict.set u.1 u.2 target) target

mutual
def mergeValue : Json → Json → Json
  | .obj updates, .obj target => .obj (deepMergeDict updates target)
  | value, _ => value

def deepMergeDict : Members → Members → Members
  | [], target => target
  | (key, value) :: updates, target =>
    deepMergeDict updates (Dict.set key (mergeValue value ((Json.obj target).field key)) target)
end

def normalizeLegacyGlobalConfig (config : Members) : Option Members :=
  let keys := Dict.keys config
  if keys.contains infinidyskLegacyKey && keys.contains infinidyskKey then none
  else
    let legacy := (Json.obj config).field infinidyskLegacyKey
    let config := Dict.erase infinidyskLegacyKey config
    let config := if legacy.isObj then Dict.set infinidyskKey legacy config else config
    some (modify "riven_backend" (fun backend =>
      match (Json.obj backend).field "wait_for_dir" with
      | .null => Dict.set "wait_for_dir" (.str "") backend
      | _ => backend) config)

/-! ## Redacted secrets -/

def iterate : Json → Option (List Json)
  | .arr items => some items
  | .obj members => some ((Dict.keys members).map .str)
  | .str s => some (s.toList.map fun c => .str (String.singleton c))
  | _ => none

/-- A list of the `dumb` section whose secrets are left out of a redacted configuration. -/
structure Redacted (κ : Type) where
  place : String
  items : String
  added : List String
  identity : String
  key : Json → Option κ
  same : κ → κ → Bool
  secrets : List (String × (Json → Bool) × Json)

section

variable {κ : Type}

def Redacted.stored (d : Redacted κ) (item : Json) : Option (Option (κ × Members)) :=
  match item with
  | .obj members =>
    if (item.field d.identity).truthy then (d.key (item.field d.identity)).map fun k => some (k, members) else some none
  | _ => some none

def Redacted.restore (d : Redacted κ) (stored : List (κ × Members)) : Json → Option Json
  | .obj members =>
    let item := members.filter fun m => !d.added.contains m.1
    (d.key ((Json.obj item).field d.identity)).map fun k =>
      match (stored.filter fun c => d.same k c.1).getLast? with
      | none => .obj item
      | some (_, current) => .obj <| d.secrets.foldl (fun item (name, blank, default) =>
          if blank ((Json.obj item).field name) then Dict.set name ((Dict.get? name current).getD default) item
          else item) item
  | item => some item

/-- `_preserve_redacted_notification_secrets` and `_preserve_redacted_media_protection_secrets`; `none` stands for an
exception. -/
def Redacted.preserve (d : Redacted κ) (updates : Members) (config : Json) : Option Members :=
  match orEmpty ((Json.obj updates).field "dumb") with
  | .obj dumb =>
    match (Json.obj dumb).field d.place with
    | .obj place =>
      match (Json.obj place).field d.items with
      | .arr items => do
        let .obj currentDumb := orEmpty (config.field "dumb") | none
        let .obj current := (Dict.get? d.place currentDumb).getD (.obj []) | none
        let stored ← (← iterate ((Dict.get? d.items current).getD (.arr []))).mapM d.stored
        let items ← items.mapM (d.restore (stored.filterMap id))
        some (Dict.set "dumb" (.obj (Dict.set d.place (.obj (Dict.set d.items (.arr items) place)) dumb)) updates)
      | _ => some updates
    | _ => some updates
  | _ => none

variable (text : Text)

def blank (value : Json) : Bool := text.strip (if value.truthy then text.str value else "") = ""

def notificationSecrets : Redacted Json where
  place := "notifications"
  items := "destinations"
  added := ["url_configured", "headers_configured"]
  identity := "id"
  key := fun
    | .arr _ | .obj _ => none
    | id => some id
  same := Json.pyEq
  secrets := [("url", blank text, .str ""), ("headers", fun value => !value.truthy, .obj [])]

def mediaProtectionSecrets : Redacted String where
  place := "media_protection"
  items := "services"
  added := ["api_key_configured"]
  identity := "process_name"
  key := fun value => some (text.lower (text.strip (if value.truthy then text.str value else "")))
  same := fun k q => k = q
  secrets := [("api_key", blank text, .str "")]

end

/-! ## Looking up -/

inductive Refusal where
  | notFound
  | schemaNotFound
  | invalid
  | frozen
  | unsafeChange
  | invalidKey (key : String)
  | conflict
  | noUpdates
  /-- `save_config` raises. -/
  | unsaved
  | malformed
  deriving DecidableEq

def isProcess (name : String) (value : Json) : Bool := value.isObj && isStr name (value.field "process_name")

def findInstance (name : String) : Json → Except Refusal (Option String)
  | .obj members => match Dict.get? "instances" members with
    | none => .ok none
    | some (.obj instances) => .ok ((instances.find? fun i => isProcess name i.2).map (·.1))
    | some _ => .error .malformed
  | _ => .ok none

mutual
def findServiceConfig (name : String) : Json → Except Refusal (Option (List String))
  | .obj config => findServiceMember name config
  | _ => .ok none

def findServiceMember (name : String) : Members → Except Refusal (Option (List String))
  | [] => .ok none
  | (key, value) :: config =>
    if isProcess name value then .ok (some [key])
    else do
      match ← findInstance name value with
      | some i => .ok (some [key, "instances", i])
      | none =>
        match ← findServiceConfig name value with
        | some path => .ok (some (key :: path))
        | none => findServiceMember name config
end

mutual
def findSection (name : String) : Json → Option (List String)
  | .obj config => findSectionMember name config
  | _ => none

def findSectionMember (name : String) : Members → Option (List String)
  | [] => none
  | (key, value) :: config =>
    if isProcess name value then some [key]
    else match findSection name value with
      | some path => some (key :: path)
      | none => findSectionMember name config
end

/-- The instance of the process, for `find_key_for_process`: an instance that is no dict raises before a later one is looked
at. -/
def findInstanceKey (name : String) : Json → Except Refusal (Option String)
  | .obj members => match Dict.get? "instances" members with
    | none => .ok none
    | some (.obj instances) =>
      match instances.find? fun i => !i.2.isObj || isProcess name i.2 with
      | some (i, .obj _) => .ok (some i)
      | some _ => .error .malformed
      | none => .ok none
    | some _ => .error .malformed
  | _ => .ok none

def findKeyForProcess (name : String) : Members → Except Refusal (Option String × Option String)
  | [] => .ok (none, none)
  | (key, value) :: config =>
    if isProcess name value then .ok (some key, none)
    else do
      match ← findInstanceKey name value with
      | some i => .ok (some key, some i)
      | none =>
        if key = "dumb" then
          match (membersOf value).find? fun m => isProcess name m.2 with
          | some (sub, _) => .ok (some (key ++ "_" ++ sub), none)
          | none => findKeyForProcess name config
        else findKeyForProcess name config

def findSchema : Json → List String → Option Json
  | schema, [] => some schema
  | .obj schema, part :: parts =>
    match Dict.get? part schema with
    | some below => findSchema below parts
    | none =>
      match (Dict.get? "properties" schema).bind fun properties => Dict.get? part (membersOf properties) with
      | some below => findSchema below parts
      | none =>
        match (membersOf ((Json.obj schema).field "patternProperties")).find? fun m => m.1 = ".*" || isIn m.1 part with
        | some (_, below) => findSchema below parts
        | none => none
  | _, _ :: _ => none

def propertyKeys (schema : Json) : List String := Dict.keys (membersOf (schema.field "properties"))

def allowedDynamicKeys : List String :=
  ["symlink_backup_enabled", "symlink_backup_interval", "symlink_backup_start_time", "symlink_backup_path",
    "symlink_backup_include_broken", "symlink_backup_retention_count", "symlink_backup_roots"]

/-! ## save_config -/

mutual
def fixNullStrings : Json → Json → Json
  | .obj data, schema => .obj (fixNullMembers data (membersOf (schema.field "properties")))
  | data, _ => data

def fixNullMembers : Members → Members → Members
  | [], _ => []
  | (key, value) :: data, properties =>
    let fixed := match Dict.get? key properties with
      | none => value
      | some schema => match value with
        | .null => if isStr "string" (schema.field "type") then .str "" else .null
        | value => fixNullStrings value schema
    (key, fixed) :: fixNullMembers data properties
end

mutual
def updateNestedConfig (name : String) (updated : Json) : Json → Option Json
  | .obj data => (updateNestedMember name updated data).map .obj
  | _ => none

def updateNestedMember (name : String) (updated : Json) : Members → Option Members
  | [] => none
  | (key, value) :: data =>
    if isProcess name value then some ((key, updated) :: data)
    else match updateNestedConfig name updated value with
      | some value => some ((key, value) :: data)
      | none => (updateNestedMember name updated data).map ((key, value) :: ·)
end

/-! ## The request -/

structure Found where
  path : List String
  apart : Option Members

inductive Stage where
  | finding
  | merging
  | locked
  | saving

structure Live where
  /-- `CONFIG_MANAGER.config` -/
  config : Json
  file : Option Json
  writable : Bool
  found : Option Found
  stage : Stage

def Live.service (s : Live) : Members :=
  match s.found with
  | none => []
  | some ⟨path, none⟩ => membersOf (Json.getPath path s.config)
  | some ⟨_, some members⟩ => members

def Live.assign (key : String) (value : Json) (s : Live) : Live :=
  match s.found with
  | none => s
  | some ⟨path, none⟩ => { s with config := Json.setPath (.obj (Dict.set key value s.service)) path s.config }
  | some ⟨path, some members⟩ => { s with found := some ⟨path, some (Dict.set key value members)⟩ }

structure Env where
  text : Text
  /-- `CONFIG_MANAGER.schema` -/
  schema : Json
  /-- `_legacy_infinidysk_identity` -/
  legacy : Bool
  /-- `jsonschema.validate`, of an instance and its schema. -/
  validate : Json → Json → Bool
  /-- `validate_infinidysk_postgres_candidate_update`, of two InfiniDysk and two PostgreSQL configurations. -/
  safe : Json → Json → Json → Json → Bool
  /-- `infinidysk_namespace_migration_active` -/
  namespaceBlocked : Bool
  /-- `infinidysk_postgres_migration_active` -/
  postgresBlocked : Bool

abbrev Handling : Type → Type := Thread Live Refusal

variable (env : Env)

/-- `_reject_infinidysk_postgres_reversal` does not raise. -/
def Env.accepts (current candidate currentPostgres candidatePostgres : Json) : Bool :=
  env.safe current candidate currentPostgres (if candidatePostgres.isObj then candidatePostgres else currentPostgres)

def Env.schemaAt (path : List String) : Option Json :=
  (findSchema (.obj (membersOf (env.schema.field "properties"))) (split '.' (join '.' path))).filter Json.truthy

def Env.allowedKeys (path : List String) : List String :=
  ((env.schemaAt path).elim [] propertyKeys) ++ allowedDynamicKeys

def required {α : Type} (e : Refusal) (x : Option α) : Handling α := Thread.ofExcept (x.elim (.error e) .ok)

def atomicWrite (data : Json) : Handling Unit := do
  let written ← Thread.update fun s =>
    match serializeConfigForDisk env.text env.legacy data with
    | some data => if s.writable then (true, { s with file := some data }) else (false, s)
    | none => (false, s)
  Thread.require written .unsaved

def saveProcess (name : String) : Handling Unit := do
  let section_ ← Thread.read fun s => (findSection name s.config).map fun path => (path, Json.getPath path s.config)
  let (path, read) ← required .unsaved section_
  let file ← Thread.read fun s => s.file
  let file ← required .unsaved file
  let updated ← Thread.update fun s =>
    if (updateNestedConfig name .null file).isSome then
      match Json.at? path s.config with
      | some current =>
        let fixed := fixNullStrings current env.schema
        (updateNestedConfig name fixed file, { s with config := Json.setPath fixed path s.config })
      | none =>
        -- the dict is no longer part of the configuration
        (updateNestedConfig name (fixNullStrings read env.schema) file, s)
    else (none, s)
  let updated ← required .unsaved updated
  atomicWrite env updated

def saveAll : Handling Unit := do
  let data ← Thread.update fun s =>
    let fixed := fixNullStrings s.config env.schema
    (fixed, { s with config := fixed })
  atomicWrite env data

def assignKeys (allowed : List String) : Members → Handling Unit
  | [] => pure ()
  | (key, value) :: updates => do
    let known ← Thread.read fun s => (Dict.keys s.service).contains key
    Thread.require (known || allowed.contains key) (.invalidKey key)
    Thread.modify (Live.assign key value)
    assignKeys allowed updates

def guardsService (key : Option String) (merged : Members) (s : Live) : Bool :=
  if key = some infinidyskKey then
    env.accepts (.obj s.service) (.obj merged) (orEmpty (s.config.field "postgres")) .null
  else if key = some "postgres" then
    let current := orEmpty (s.config.field infinidyskKey)
    !current.isObj || env.accepts current current (.obj s.service) (.obj merged)
  else true

def updateService (name : String) (updates : Members) (persist : Bool) : Handling Unit := do
  let found ← Thread.update fun s =>
    match findServiceConfig name s.config with
    | .ok (some path) => (.ok path, { s with found := some ⟨path, none⟩ })
    | .ok none => (.error .notFound, s)
    | .error e => (.error e, s)
  let path ← Thread.ofExcept found
  let schema ← required .schemaNotFound (env.schemaAt path)
  Thread.require (env.validate (.obj updates) schema) .invalid
  let merged ← Thread.update fun s => (assignAll updates s.service, { s with stage := .merging })
  Thread.require (env.validate (.obj merged) schema) .invalid
  let key ← Thread.read fun s => findKeyForProcess name (membersOf s.config)
  let (key, _) ← Thread.ofExcept key
  Thread.modify fun s => { s with stage := .locked }
  let guarded := key = some infinidyskKey || key = some "postgres"
  Thread.require (!(env.namespaceBlocked || guarded && env.postgresBlocked)) .frozen
  let safe ← Thread.read (guardsService env key merged)
  Thread.require safe .unsafeChange
  assignKeys (env.allowedKeys path) updates
  Thread.modify fun s => { s with stage := .saving }
  if persist then saveProcess env name else pure ()

mutual
/-- `_deep_merge_dict` of the configuration in memory, under one key. -/
def mergeAt : List String → Json → Handling Unit
  | path, .obj updates => do
    let existing ← Thread.read fun s => Json.getPath path s.config
    if existing.isObj then mergeInto path updates
    else Thread.modify fun s => { s with config := Json.setPath (.obj updates) path s.config }
  | path, value => Thread.modify fun s => { s with config := Json.setPath value path s.config }

def mergeInto : List String → Members → Handling Unit
  | _, [] => pure ()
  | path, (key, value) :: updates => do
    mergeAt (path ++ [key]) value
    mergeInto path updates
end

def guardsGlobal (merged : Members) (s : Live) : Bool :=
  let current := orEmpty (s.config.field infinidyskKey)
  let candidate := orEmpty ((Json.obj merged).field infinidyskKey)
  !(current.isObj && candidate.isObj) ||
    env.accepts current candidate (orEmpty (s.config.field "postgres")) (orEmpty ((Json.obj merged).field "postgres"))

def checkRootKeys (schema : Json) (updates : Members) : Except Refusal Unit :=
  let allowed := propertyKeys schema
  match (Dict.keys updates).filter fun key => !(allowed.isEmpty || allowed.contains key) with
  | [] => .ok ()
  | key :: keys => .error (.invalidKey (keys.foldl (fun a b => if b < a then b else a) key))

def updateGlobal (updates : Members) : Handling Unit := do
  let kept ← Thread.read fun s => (notificationSecrets env.text).preserve updates s.config
  let kept ← required .malformed kept
  let kept ← Thread.read fun s => (mediaProtectionSecrets env.text).preserve kept s.config
  let kept ← required .malformed kept
  let updates ← required .conflict (normalizeLegacyGlobalConfig kept)
  Thread.require (!updates.isEmpty) .noUpdates
  Thread.ofExcept (checkRootKeys env.schema updates)
  let merged ← Thread.update fun s =>
    (normalizeLegacyGlobalConfig (deepMergeDict updates (membersOf s.config)), { s with stage := .merging })
  let merged ← required .conflict merged
  Thread.require (env.validate (.obj merged) env.schema) .invalid
  Thread.modify fun s => { s with stage := .locked }
  let guarded := ((Json.obj updates).field infinidyskKey).isObj || (Dict.keys updates).contains "postgres"
  Thread.require (!(env.namespaceBlocked || guarded && env.postgresBlocked)) .frozen
  let safe ← Thread.read fun s => !guarded || guardsGlobal env merged s
  Thread.require safe .unsafeChange
  mergeInto [] updates
  let normal ← Thread.update fun s =>
    match normalizeLegacyGlobalConfig (membersOf s.config) with
    | some config => (true, { s with config := .obj config })
    | none => (false, s)
  Thread.require normal .conflict
  Thread.modify fun s => { s with stage := .saving }
  saveAll env

structure Request where
  processName : Option String
  updates : Members
  persist : Bool

def Request.service (request : Request) : Option String := request.processName.filter (· ≠ "")

def updateConfig (request : Request) : Handling Unit :=
  match request.service with
  | some name => updateService env name request.updates request.persist
  | none => updateGlobal env request.updates

end Dumb.Config
