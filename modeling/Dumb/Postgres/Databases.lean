import Dumb.Postgres.Settings

/-!
# The databases of all instances

The loops of `utils/arr_postgres.py` and `utils/service_postgres.py` over the instances of the configuration that run on
PostgreSQL. `none` stands for an exception.
-/

namespace Dumb.Postgres

open Py

structure Instance where
  service : Service
  name : Option String
  settings : Settings

def arrServices : List Service := [.sonarr, .radarr, .lidarr, .prowlarr, .whisparr]

def otherServices : List Service := [.altmount, .bazarr, .infinidysk, .pulsarr, .seerr]

def opted (settings : Json) : Option Settings :=
  match settings with
  | .obj settings => if (setting settings "enabled").truthy && postgresEnabled settings then some settings else none
  | _ => none

def optedInstances (service : Service) (instances : Dict String Json) : List Instance :=
  instances.filterMap fun (name, settings) => (opted settings).map fun settings => ⟨service, some name, settings⟩

def iterPostgresArrInstances (config : Settings) (service : Service) : Option (List Instance) :=
  match setting config service.key with
  | .obj section_ =>
    match (Dict.get? "instances" section_).getD (.obj []) with
    | .obj instances => some (optedInstances service instances)
    | instances => if instances.truthy then none else some []
  | _ => none

def iterPostgresServices (config : Settings) (service : Service) : Option (List Instance) :=
  match setting config service.key with
  | .obj section_ =>
    match setting section_ "instances" with
    | .obj instances => some (optedInstances service instances)
    | _ => some ((opted (.obj section_)).map fun settings => ⟨service, none, settings⟩).toList
  | section_ => if section_.truthy then none else some []

def postgresInstances (config : Settings) : Option (List Instance) := do
  let arr ← arrServices.mapM (iterPostgresArrInstances config)
  let others ← otherServices.mapM (iterPostgresServices config)
  return arr.flatten ++ others.flatten

variable (text : Text)

def Instance.file (files : Json → Option Contents) (user : Instance) : Option Contents :=
  files (setting user.settings "config_file")

/-- The databases that `configure_arr_postgres_runtime` and `configure_service_postgres_runtime` register for an instance. -/
def Instance.databases (files : Json → Option Contents) (user : Instance) : Option (List String) :=
  if user.service.isArr then
    (arrPostgresDatabaseNames text user.service.key (user.name.getD "") user.settings (user.file files)).map
      fun names => [names.1, names.2]
  else some [servicePostgresDatabaseName text user.service.key user.name user.settings]

def allDatabases (files : Json → Option Contents) (users : List Instance) : Option (List String) :=
  (users.mapM (Instance.databases text files)).map List.flatten

def configDatabases (files : Json → Option Contents) (config : Settings) : Option (List String) :=
  (postgresInstances config).bind (allDatabases text files)

structure Instance.Unset (files : Json → Option Contents) (user : Instance) : Prop where
  main : strippedOr text (setting user.settings "postgres_main_db") = some ""
  log : strippedOr text (setting user.settings "postgres_log_db") = some ""
  database : text.strip (text.orEmpty (setting user.settings "postgres_database")) = ""
  file : readArrPostgresXmlValues text user.settings (user.file files) = []

def Instance.slot (user : Instance) : Option String :=
  if user.service.isArr then
    if text.lower (user.name.getD "") = "default" then none else some (slug text false (user.name.getD ""))
  else match user.name with
  | none => none
  | some name => if name ≠ "" && text.lower name ≠ "default" then some (slug text true name) else none

/-- Two instances of one service whose names differ in nothing that a slug keeps. -/
def Alike (user other : Instance) : Prop := user.service = other.service ∧ user.slot text = other.slot text

instance (user other : Instance) : Decidable (Alike text user other) := inferInstanceAs (Decidable (_ ∧ _))

end Dumb.Postgres

/-! ## Which instances share a database

The key of a service is read back from the letters that a name starts with, and the role from its last letter.
-/

namespace Dumb.Postgres

open Py

variable {text : Text} {files : Json → Option Contents}

def letter (c : Char) : Bool := 'a' ≤ c && c ≤ 'z'

def keyOf (name : String) : List Char := name.toList.takeWhile letter

theorem keyOf_append (service : Service) {rest : String} (hrest : rest.toList.head?.all (fun c => !letter c) = true) :
    keyOf (service.key ++ rest) = service.key.toList := by
  have hkey : ∀ c ∈ service.key.toList, letter c = true := by
    apply List.all_eq_true.1
    cases service <;> decide
  rw [keyOf, String.toList_append, List.takeWhile_append_of_pos hkey]
  cases h : rest.toList with
  | nil => simp
  | cons c cs => simp_all

theorem key_injective {service other : Service} (h : service.key.toList = other.key.toList) : service = other := by
  cases service <;> cases other <;> first | rfl | exact absurd h (by decide)

def rest (arr : Bool) (log : Bool) : Option String → String
  | none => if arr then (if log then "-log" else "-main") else ""
  | some slug => if arr then "_" ++ slug ++ (if log then "_log" else "_main") else "_" ++ slug

theorem rest_head (arr log : Bool) (slot : Option String) :
    (rest arr log slot).toList.head?.all (fun c => !letter c) = true := by
  cases slot with
  | none => cases arr <;> cases log <;> decide
  | some slug => cases arr <;> cases log <;> simp [rest, letter]

theorem rest_getLast (log : Bool) (slot : Option String) :
    (rest true log slot).toList.getLast? = some (if log then 'g' else 'n') := by
  cases slot with
  | none => cases log <;> simp [rest]
  | some slug =>
    simp only [rest, ↓reduceIte, String.toList_append, List.getLast?_append]
    cases log <;> simp

theorem rest_mark (log : Bool) (slot : Option String) :
    (rest true log slot).toList.head? = some (if slot.isSome then '_' else '-') := by
  cases slot <;> cases log <;> simp [rest]

theorem rest_injective (arr : Bool) {log log' : Bool} {slot slot' : Option String}
    (h : rest arr log slot = rest arr log' slot') : slot = slot' ∧ (arr = true → log = log') := by
  cases arr with
  | false => cases slot <;> cases slot' <;> simp_all [rest]
  | true =>
    have hlast := congrArg (fun s => s.toList.getLast?) h
    have hmark := congrArg (fun s => s.toList.head?) h
    simp only [rest_getLast, rest_mark, Option.some.injEq] at hlast hmark
    have hlog : log = log' := by cases log <;> cases log' <;> simp_all
    subst hlog
    cases slot <;> cases slot' <;> simp_all [rest]

def givenDatabases (user : Instance) (text : Text) : List String :=
  (if user.service.isArr then [false, true] else [false]).map fun log =>
    user.service.key ++ rest user.service.isArr log (user.slot text)

theorem Instance.Unset.databases {user : Instance} (h : user.Unset text files) :
    user.databases text files = some (givenDatabases user text) := by
  have hempty : text.strip "" = "" := text.strip_plain (by decide)
  cases harr : user.service.isArr with
  | true =>
    by_cases hdefault : text.lower (user.name.getD "") = "default"
    · simp [Instance.databases, givenDatabases, Instance.slot, arrPostgresDatabaseNames, rest, harr, h.main, h.log, h.file,
        hempty, hdefault]
    · simp [Instance.databases, givenDatabases, Instance.slot, arrPostgresDatabaseNames, rest, harr, h.main, h.log, h.file,
        hempty, hdefault, String.append_assoc]
  | false =>
    have hconfigured : servicePostgresDatabaseName text user.service.key user.name user.settings =
        user.service.key ++ rest false false (user.slot text) := by
      cases hname : user.name with
      | none => simp [servicePostgresDatabaseName, Instance.slot, rest, hname, harr, h.database]
      | some name =>
        by_cases hslot : name ≠ "" ∧ text.lower name ≠ "default"
        · simp [servicePostgresDatabaseName, Instance.slot, rest, hname, harr, h.database, hslot, String.append_assoc]
        · simp [servicePostgresDatabaseName, Instance.slot, rest, hname, harr, h.database, hslot]
    simp [Instance.databases, givenDatabases, harr, hconfigured]

theorem mem_givenDatabases {user other : Instance} {name : String} (h : name ∈ givenDatabases user text)
    (ho : name ∈ givenDatabases other text) : Alike text user other := by
  obtain ⟨log, -, rfl⟩ := List.mem_map.1 h
  obtain ⟨log', -, heq⟩ := List.mem_map.1 ho
  have hkey : other.service = user.service := by
    apply key_injective
    rw [← keyOf_append user.service (rest_head user.service.isArr log (user.slot text)),
      ← keyOf_append other.service (rest_head other.service.isArr log' (other.slot text)), heq]
  rw [hkey] at heq
  have hrest := String.append_right_inj _ |>.1 heq
  exact ⟨hkey.symm, ((rest_injective _ hrest).1).symm⟩

theorem givenDatabases_nodup (user : Instance) : (givenDatabases user text).Nodup := by
  apply List.Nodup.map_on
  · intro log hlog log' hlog' heq
    have hrest := String.append_right_inj _ |>.1 heq
    have hlogs := (rest_injective _ hrest).2
    cases harr : user.service.isArr <;> simp_all
  · split <;> decide

theorem Alike.givenDatabases {user other : Instance} (h : Alike text user other) :
    givenDatabases user text = Postgres.givenDatabases other text := by
  simp only [Postgres.givenDatabases, h.1, h.2]

theorem givenDatabases_ne_nil (user : Instance) : givenDatabases user text ≠ [] := by
  unfold givenDatabases
  split <;> simp

theorem flatMap_nodup_iff (users : List Instance) :
    (users.flatMap (givenDatabases · text)).Nodup ↔ users.Pairwise fun user other => ¬Alike text user other := by
  rw [List.nodup_flatMap]
  constructor
  · rintro ⟨-, h⟩
    apply h.imp
    intro user other hdisjoint halike
    obtain ⟨name, hname⟩ := List.exists_mem_of_ne_nil _ (@givenDatabases_ne_nil text user)
    have hother : name ∈ givenDatabases other text := by
      rw [← halike.givenDatabases]
      exact hname
    exact hdisjoint hname hother
  · intro h
    apply And.intro
    · intro user _
      exact givenDatabases_nodup user
    · apply h.imp
      intro user other hne name hname hother
      exact hne (mem_givenDatabases hname hother)

theorem allDatabases_unset {users : List Instance} (h : ∀ user ∈ users, user.Unset text files) :
    allDatabases text files users = some (users.flatMap (givenDatabases · text)) := by
  have hmap : users.mapM (Instance.databases text files) = some (users.map (givenDatabases · text)) := by
    induction users with
    | nil => rfl
    | cons user users ih =>
      have huser := (h user List.mem_cons_self).databases
      have husers := ih fun other ho => h other (List.mem_cons_of_mem _ ho)
      simp [List.mapM_cons, huser, husers]
  simp [allDatabases, hmap, List.flatMap]

end Dumb.Postgres
