import Mathlib.Data.List.Sort
import Dumb.Lib.Text

/-!
# The database that a service runs on

From `utils/arr_postgres.py`, `utils/service_postgres.py` and `utils/arr_postgres_migration.py`: the settings of a service in
the configuration of DUMB, its own configuration file, and the entries of DUMB's PostgreSQL. `none` stands for an exception.
-/

namespace Dumb.Postgres

open Py

inductive Service where
  | sonarr
  | radarr
  | lidarr
  | prowlarr
  | whisparr
  | bazarr
  | pulsarr
  | seerr
  | altmount
  | infinidysk
  deriving DecidableEq

namespace Service

def key : Service → String
  | sonarr => "sonarr"
  | radarr => "radarr"
  | lidarr => "lidarr"
  | prowlarr => "prowlarr"
  | whisparr => "whisparr"
  | bazarr => "bazarr"
  | pulsarr => "pulsarr"
  | seerr => "seerr"
  | altmount => "altmount"
  | infinidysk => "infinidysk"

def isArr : Service → Bool
  | sonarr | radarr | lidarr | prowlarr | whisparr => true
  | _ => false

end Service

abbrev Settings : Type := Dict String Json

inductive Contents where
  | xml (children : Dict String String)
  | yaml (data : Json)
  | other (text : String)

def postgresEnabled (instance_ : Settings) : Bool := (instance_.get? "postgres_enabled").any Json.isTrue

def arrPostgresXmlTags : List String :=
  ["PostgresUser", "PostgresPassword", "PostgresHost", "PostgresPort", "PostgresMainDb", "PostgresLogDb"]

def setting (settings : Settings) (name : String) : Json := (settings.get? name).getD .null

section

variable (text : Text)

def readArrPostgresXmlValues (instance_ : Settings) (file : Option Contents) : Dict String String :=
  match (setting instance_ "config_file").truthy, file with
  | true, some (.xml children) => arrPostgresXmlTags.filterMap fun tag =>
    match children.get? tag with
    | some value => if value = "" then none else some (tag, text.strip value)
    | none => none
  | _, _ => []

/-- `re.sub(r"[^...]+", "_", value)`, where `between` says that such a character came last. -/
def subRuns (keep : Char → Bool) : Bool → List Char → List Char
  | _, [] => []
  | between, c :: cs =>
    if keep c then c :: subRuns keep false cs
    else if between then subRuns keep true cs else '_' :: subRuns keep true cs

def stripUnderscores (cs : List Char) : List Char :=
  ((cs.dropWhile (· = '_')).reverse.dropWhile (· = '_')).reverse

def slug (keepUnderscore : Bool) (name : String) : String :=
  let keep := fun c : Char => ('a' ≤ c && c ≤ 'z') || ('0' ≤ c && c ≤ '9') || (keepUnderscore && c = '_')
  let slugged := stripUnderscores (subRuns keep false (text.lower name).toList)
  if slugged = [] then "default" else String.ofList slugged

def strippedOr (value : Json) : Option String :=
  if value.truthy then
    match value with
    | .str s => some (text.strip s)
    | _ => none
  else some (text.strip "")

def arrPostgresDatabaseNames (key : String) (instanceName : String) (instance_ : Settings) (file : Option Contents) :
    Option (String × String) := do
  let main ← strippedOr text (setting instance_ "postgres_main_db")
  let log ← strippedOr text (setting instance_ "postgres_log_db")
  if main ≠ "" && log ≠ "" then return (main, log)
  let values := readArrPostgresXmlValues text instance_ file
  let xmlMain := text.strip ((values.get? "PostgresMainDb").getD "")
  let xmlLog := text.strip ((values.get? "PostgresLogDb").getD "")
  let (defaultMain, defaultLog) :=
    if text.lower instanceName = "default" then (key ++ "-main", key ++ "-log")
    else (key ++ "_" ++ slug text false instanceName ++ "_main", key ++ "_" ++ slug text false instanceName ++ "_log")
  let or := fun a b : String => if a ≠ "" then a else b
  return (or main (or xmlMain defaultMain), or log (or xmlLog defaultLog))

def servicePostgresDatabaseName (key : String) (instanceName : Option String) (instance_ : Settings) : String :=
  let configured := text.strip (text.orEmpty (setting instance_ "postgres_database"))
  if configured ≠ "" then configured
  else match instanceName with
    | some name => if name ≠ "" && text.lower name ≠ "default" then key ++ "_" ++ slug text true name else key
    | none => key

/-! ## The configuration file of a service -/

def connectionValue (postgres : Settings) (name default : String) : String :=
  if (setting postgres name).truthy then text.str (setting postgres name) else default

def joinPath (dir name : String) : String :=
  if dir.toList.getLast? = some '/' || dir = "" then dir ++ name else dir ++ "/" ++ name

def postgresNpgsqlConnectionString (postgres : Settings) (database : String) : String :=
  let quoted := fun value => "\"" ++ replace "\"" "\"\"" value ++ "\""
  ";".intercalate
    ["Host=" ++ quoted (connectionValue text postgres "host" "127.0.0.1"),
      "Port=" ++ quoted (connectionValue text postgres "port" "5432"), "Database=" ++ quoted database,
      "Username=" ++ quoted (connectionValue text postgres "user" "DUMB"),
      "Password=" ++ quoted (connectionValue text postgres "password" "postgres")]

def isText (text : String) : Option Json → Bool
  | some (.str s) => s = text
  | _ => false

end

end Dumb.Postgres
