import Dumb.Postgres.Databases
import Dumb.Postgres.Lemmas.Guard
import Dumb.Postgres.Lemmas.Jobs

/-!
# What the PostgreSQL migration guarantees
-/

namespace Dumb.Postgres

open Py

/-! ## A database for each instance -/

theorem databases_distinct (text : Text) (files : Json → Option Contents) (config : Settings) (users : List Instance)
    (husers : postgresInstances config = some users) (hunset : ∀ user ∈ users, user.Unset text files) :
    ∃ names, configDatabases text files config = some names ∧
      (names.Nodup ↔ users.Pairwise fun user other => ¬Alike text user other) := by
  have hnames : configDatabases text files config = some (users.flatMap (givenDatabases · text)) := by
    rw [configDatabases, husers]
    exact allDatabases_unset hunset
  exact ⟨_, hnames, flatMap_nodup_iff users⟩

def optedIn : Settings := [("enabled", .bool true), ("postgres_enabled", .bool true)]

def sonarrs (names : List String) : Settings :=
  (arrServices ++ otherServices).map fun service => (service.key,
    if service = .sonarr then .obj [("instances", .obj (names.map fun name => (name, .obj optedIn)))]
    else if service = .seerr then .obj [("instances", .obj [("Default", .obj optedIn), ("anime", .obj optedIn)])]
    else .obj [])

def sonarrUsers (names : List String) : List Instance :=
  names.map (⟨.sonarr, some ·, optedIn⟩) ++ [⟨.seerr, some "Default", optedIn⟩, ⟨.seerr, some "anime", optedIn⟩]

theorem optedIn_unset (service : Service) (name : Option String) :
    Instance.Unset .ascii (fun _ => none) ⟨service, name, optedIn⟩ where
  main := (by decide +kernel : strippedOr .ascii (setting optedIn "postgres_main_db") = some "")
  log := (by decide +kernel : strippedOr .ascii (setting optedIn "postgres_log_db") = some "")
  database := (by decide +kernel : Text.ascii.strip (Text.ascii.orEmpty (setting optedIn "postgres_database")) = "")
  file := (by decide +kernel : readArrPostgresXmlValues .ascii optedIn none = [])

theorem sonarrUsers_unset (names : List String) : ∀ user ∈ sonarrUsers names, user.Unset .ascii fun _ => none := by
  intro user huser
  rcases List.mem_append.1 huser with h | h
  · obtain ⟨name, -, rfl⟩ := List.mem_map.1 h
    exact optedIn_unset _ _
  · simp only [List.mem_cons, List.not_mem_nil, or_false] at h
    rcases h with rfl | rfl <;> exact optedIn_unset _ _

theorem databases_distinct_apart : ∃ names, configDatabases .ascii (fun _ => none) (sonarrs ["Default", "4K", "HD"]) =
    some names ∧ names.Nodup := by
  obtain ⟨names, hnames, hiff⟩ := databases_distinct .ascii (fun _ => none) (sonarrs ["Default", "4K", "HD"])
    (sonarrUsers ["Default", "4K", "HD"]) rfl (sonarrUsers_unset _)
  exact ⟨names, hnames, hiff.2 (by decide +kernel)⟩

/-- Two instances whose names differ in one capital are given the same two databases. -/
theorem databases_shared : postgresInstances (sonarrs ["4K", "4k"]) = some (sonarrUsers ["4K", "4k"]) ∧
    (∀ user ∈ sonarrUsers ["4K", "4k"], user.Unset .ascii fun _ => none) ∧
      ∃ names, configDatabases .ascii (fun _ => none) (sonarrs ["4K", "4k"]) = some names ∧ ¬names.Nodup :=
  ⟨rfl, sonarrUsers_unset _, ["sonarr_4k_main", "sonarr_4k_log", "sonarr_4k_main", "sonarr_4k_log", "seerr", "seerr_anime"],
    by decide +kernel, by decide⟩

/-! ## One operation per service -/

theorem one_operation (workerId now : Nat) (steps : List Step)
    (hproper : Along Jobs.step Proper (Jobs.start workerId now) steps)
    (hguarded : Along Jobs.step Guarded (Jobs.start workerId now) steps) :
    Exclusive (steps.foldl Jobs.step (Jobs.start workerId now)) := by
  have hrun := (hproper.and hguarded).foldl (I := fun w => Inv w ∧ (Dict.keys w.records).Nodup)
    (fun w s _ hs hw => ⟨hw.1.step hs.1 hs.2, keys_step hw.2 s⟩) ⟨inv_start workerId now, List.nodup_nil⟩
  exact hrun.1.exclusive hrun.2

def cutoverOf (jobId processName serviceKey : String) : List Step :=
  [.createJob jobId processName serviceKey .cutover true, .move 0 (.write .done), .move 0 (.write .done),
    .move 0 (.verified .done), .move 0 (.complete .done)]

def rollbackOf (jobId : String) (n : Nat) : List Step :=
  [.reserveRollback jobId true .done, .move n (.complete .done), .move n (.write .done), .move n .finish]

def inTurn : List Step :=
  cutoverOf "1" "Sonarr" "sonarr" ++ [.move 0 (.write .done), .move 0 .finish] ++ rollbackOf "1" 0 ++
    [.createJob "2" "Sonarr" "sonarr" .rehearsal true, .move 0 (.write .done), .move 0 (.write .done)]

theorem one_operation_inTurn : Exclusive (inTurn.foldl Jobs.step (Jobs.start 0 0)) :=
  one_operation 0 0 inTurn (by decide +kernel) (by decide +kernel)

def unwritten : List Step := [.createJob "1" "Sonarr" "sonarr" .rehearsal true, .move 0 (.write .raisedBefore)]

def rolledUnder : List Step :=
  cutoverOf "1" "Sonarr" "sonarr" ++ [.move 0 (.write .done), .move 0 .finish,
    .createJob "2" "Sonarr" "sonarr" .rehearsal true, .move 0 (.write .done), .move 0 (.write .done),
    .reserveRollback "1" true .done]

def rolledTwice : List Step :=
  cutoverOf "1" "Sonarr" "sonarr" ++ [.reserveRollback "1" true .done, .move 0 (.complete .done), .move 0 (.write .done),
    .move 0 .finish, .move 0 (.write .done)] ++ rollbackOf "1" 0

/-- The name stays claimed, two operations run at once, and a rollback succeeds twice. -/
theorem operations_overlap :
    (Along Jobs.step Proper (Jobs.start 0 0) unwritten ∧ ¬Exclusive (unwritten.foldl Jobs.step (Jobs.start 0 0))) ∧
      (Along Jobs.step Proper (Jobs.start 0 0) rolledUnder ∧ ¬Exclusive (rolledUnder.foldl Jobs.step (Jobs.start 0 0))) ∧
        Along Jobs.step Proper (Jobs.start 0 0) rolledTwice ∧ ¬Exclusive (rolledTwice.foldl Jobs.step (Jobs.start 0 0)) := by
  refine ⟨⟨by decide +kernel, fun h => ?_⟩, ⟨by decide +kernel, fun h => ?_⟩, by decide +kernel, fun h => ?_⟩
  · have hclaimed : "Sonarr" ∈ (unwritten.foldl Jobs.step (Jobs.start 0 0)).activeProcesses := by decide +kernel
    have htasks : (unwritten.foldl Jobs.step (Jobs.start 0 0)).tasks = [] := by decide +kernel
    have hrecords : (unwritten.foldl Jobs.step (Jobs.start 0 0)).records = [] := by decide +kernel
    exact (h.free "Sonarr" (by simp [htasks]) (by simp [hrecords])).1 hclaimed
  · have halone := h.alone
    revert halone
    decide +kernel
  · have honce := h.once
    revert honce
    decide +kernel

/-! ## The guard of the cutover -/

namespace Guard

abbrev Config : Type := Settings × Settings

/-- Updates that are accepted one after the other while the target is down, each of a service whose provider is persisted. -/
def Outage (w : World) : Config → List Config → Prop
  | _, [] => True
  | c, d :: updates => w.providerIsPostgres c.1 = true ∧ w.validateCandidateUpdate down c.1 d.1 c.2 d.2 = .ok () ∧
      Outage w d updates

/-- With the target they are accepted as well, and none leaves evidence or a floor that does not hold. -/
def Closed (w : World) (live : Live) : Config → List Config → Prop
  | _, [] => True
  | c, d :: updates => w.validateCandidateUpdate live c.1 d.1 c.2 d.2 = .ok () ∧
      w.cutoverCompleted live d.1 d.2 = some true ∧ w.sourceSelectionSafe d.1 (w.runtimeFloor d.1) = true ∧
      Closed w live d updates

def KeepsAll (w : World) (live : Live) : Config → List Config → Prop
  | _, [] => True
  | c, d :: updates => Keeps w live c.1 d.1 c.2 d.2 ∧ KeepsAll w live d updates

theorem guard_closed (w : World) (live : Live) (updates : List Config) : ∀ c : Config,
    Faithful w (c.1 :: updates.map (·.1)) → w.Recorded live c.1 c.2 → Outage w c updates →
    (Closed w live c updates ↔ KeepsAll w live c updates) := by
  induction updates with
  | nil => exact fun _ _ _ _ => Iff.rfl
  | cons d updates ih =>
    rintro c hw ⟨⟨authorization, hmarker⟩, hcurrent⟩ ⟨hprovider, hdown, hout⟩
    have hw' : Faithful w [c.1, d.1] := hw.mono (by simp)
    have hstep := accepts_online hw' hmarker hcurrent hprovider hdown
    have hbound := ((accepts_iff hprovider).1 hdown).1
    have hkept : Keeps w live c.1 d.1 c.2 d.2 → w.cutoverCompleted live d.1 d.2 = some true ∧
        w.sourceSelectionSafe d.1 (w.runtimeFloor d.1) = true := fun hk =>
      ⟨(cutoverCompleted_candidate hw' hmarker hcurrent hbound).2 ⟨hk.launch, hk.reaches _ hmarker⟩,
        by rw [runtimeFloor_candidate hw' hbound.name hk.launch, hk.source]⟩
    have hrest : Keeps w live c.1 d.1 c.2 d.2 → (Closed w live d updates ↔ KeepsAll w live d updates) := fun hk =>
      ih d (hw.mono fun s hs => List.mem_cons_of_mem _ hs) ⟨⟨authorization, hmarker⟩, (hkept hk).1⟩ hout
    constructor
    · rintro ⟨haccepts, -, -, hclosed⟩
      have hk := hstep.1 haccepts
      exact ⟨hk, (hrest hk).1 hclosed⟩
    · rintro ⟨hk, hall⟩
      exact ⟨hstep.2 hk, (hkept hk).1, (hkept hk).2, (hrest hk).2 hall⟩

def cutOver (command release : String) : Settings :=
  [("process_name", .str "InfiniDysk"), ("repo_owner", .str "infinidysk"), ("repo_name", .str "infinidysk"),
    ("release_version_enabled", .bool true), ("release_version", .str release), ("postgres_enabled", .bool true),
    ("command", .arr [.str command]), ("config_dir", .str "/infinidysk"),
    ("env", .obj [("CONFIG_PATH", .str "/infinidysk"), ("DATABASE_PROVIDER", .str "postgres"),
      ("DATABASE_CONNECTION_STRING", .str "Host=127.0.0.1;Port=5432;Database=infinidysk;Username=DUMB")])]

def bundled (password : String) : Settings :=
  [("host", .str "127.0.0.1"), ("port", .int 5432), ("user", .str "DUMB"), ("password", .str password),
    ("config_dir", .str "/postgres_data")]

def minimumCommit : String := "1111111111111111111111111111111111111111"

def digest : Hashed → String
  | .launch l => " ".intercalate (l.command ++ [l.configDir, l.backendOutputDir, l.backendPort, l.frontendPort, l.waitForUrl]
      ++ l.env)
  | .path p => p
  | .target t => " ".intercalate [t.host, toString t.port, t.user, t.database, t.configDir]

def recordedCutover : Settings :=
  [("format", .str authorizationFormat), ("version", .int 1), ("job_id", .str "0123456789abcdef0123456789abcdef"),
    ("rehearsal_job_id", .str "fedcba9876543210fedcba9876543210"), ("process_name", .str "InfiniDysk"),
    ("service_key", .str "infinidysk"), ("adapter_schema", .str adapterSchema),
    ("minimum_runtime_commit", .str minimumCommit), ("source_schema_fingerprint", .str "schema"),
    ("source_path_fingerprint", .str "/infinidysk/db.sqlite"),
    ("launch_config_fingerprint", .str "dotnet /infinidysk /infinidysk/app      /infinidysk  "),
    ("source_migration_history_fingerprint", .str migrationHistoryFingerprint), ("postgres_database", .str "infinidysk"),
    ("postgres_target_fingerprint", .str "127.0.0.1 5432 DUMB infinidysk /postgres_data"),
    ("postgres_schema_fingerprint", .str schemaFingerprint),
    ("postgres_physical_identity", .obj [("system_identifier", .str "7"), ("database_oid", .str "16384")]),
    ("application_health_verified", .bool true)]

def afterCutover : World where
  text := .ascii
  sha256 := digest
  realpath := id
  shlexSplit s := some [s]
  int
    | .int n => some n
    | _ => none
  disk path := if path = "/infinidysk/db.sqlite" then .regular 4096 else .missing
  sqlite _ := some ("schema", migrationHistoryFingerprint)
  rootPrivate := true
  marker := .record recordedCutover
  completed := []
  installed _ := none
  markerWritable := true
  latestRelease := some "v1.4.0"
  refCommit release := if release = "v1.4.0" then some "2222222222222222222222222222222222222222"
    else some baselineCommit
  ahead _ target := target = "2222222222222222222222222222222222222222"
  authorized := false

def answering (password : String) : Live := fun postgres _ =>
  if isText password (postgres.get? "password") then some ("7", "16384") else none

theorem afterCutover_recorded : afterCutover.Recorded (answering "postgres") (cutOver "dotnet" "v1.4.0") (bundled "postgres") :=
  ⟨⟨_, rfl⟩, by decide +kernel⟩

def keeping : Config := (cutOver "dotnet" "latest", bundled "postgres")

theorem guard_closed_keeping : Closed afterCutover (answering "postgres") (cutOver "dotnet" "v1.4.0", bundled "postgres")
    [keeping] := by
  have hfaithful : Faithful afterCutover (cutOver "dotnet" "v1.4.0" :: [keeping].map (·.1)) :=
    ⟨by decide +kernel, by decide +kernel⟩
  have hreaches : ∀ authorization, afterCutover.marker = .record authorization →
      afterCutover.matchesIdentity (answering "postgres") authorization keeping.1 keeping.2 = true := by
    rintro authorization ⟨⟩
    decide +kernel
  exact (guard_closed afterCutover (answering "postgres") [keeping] (cutOver "dotnet" "v1.4.0", bundled "postgres") hfaithful
    afterCutover_recorded ⟨by decide +kernel, by decide +kernel, trivial⟩).2
      ⟨⟨by decide +kernel, by decide +kernel, hreaches, by decide +kernel⟩, trivial⟩

/-- While the target is down another command is accepted, or a runtime older than the cutover, and not once it is back. -/
theorem guard_open : afterCutover.Recorded (answering "postgres") (cutOver "dotnet" "v1.4.0") (bundled "postgres") ∧
    ∀ c ∈ [cutOver "mono" "v1.4.0", cutOver "dotnet" "v1.2.0"],
      Outage afterCutover (cutOver "dotnet" "v1.4.0", bundled "postgres") [(c, bundled "postgres")] ∧
        ¬Closed afterCutover (answering "postgres") (cutOver "dotnet" "v1.4.0", bundled "postgres") [(c, bundled "postgres")] := by
  refine ⟨afterCutover_recorded, ?_⟩
  have hprovider : afterCutover.providerIsPostgres (cutOver "dotnet" "v1.4.0") = true := by decide +kernel
  have hkeeps : ∀ {c}, Faithful afterCutover [cutOver "dotnet" "v1.4.0", c] →
      Outage afterCutover (cutOver "dotnet" "v1.4.0", bundled "postgres") [(c, bundled "postgres")] →
      Closed afterCutover (answering "postgres") (cutOver "dotnet" "v1.4.0", bundled "postgres") [(c, bundled "postgres")] →
      Keeps afterCutover (answering "postgres") (cutOver "dotnet" "v1.4.0") c (bundled "postgres") (bundled "postgres") :=
    fun hw hout hclosed => (accepts_online hw rfl afterCutover_recorded.2 hprovider hout.2.1).1 hclosed.1
  simp only [List.mem_cons, List.not_mem_nil, or_false]
  rintro c (rfl | rfl)
  · have hout : Outage afterCutover (cutOver "dotnet" "v1.4.0", bundled "postgres") [(cutOver "mono" "v1.4.0", bundled "postgres")] :=
      ⟨hprovider, by decide +kernel, trivial⟩
    exact ⟨hout, fun h => absurd (hkeeps ⟨by decide +kernel, by decide +kernel⟩ hout h).launch (by decide +kernel)⟩
  · have hout : Outage afterCutover (cutOver "dotnet" "v1.4.0", bundled "postgres") [(cutOver "dotnet" "v1.2.0", bundled "postgres")] :=
      ⟨hprovider, by decide +kernel, trivial⟩
    exact ⟨hout, fun h => absurd (hkeeps ⟨by decide +kernel, by decide +kernel⟩ hout h).source (by decide +kernel)⟩

end Guard

end Dumb.Postgres
