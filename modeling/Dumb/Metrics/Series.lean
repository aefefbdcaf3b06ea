import Mathlib.Algebra.Order.Ring.Rat
import Dumb.Lib.Json

/-!
# The series that are plotted

From `utils/metrics_history_reader.py`, for snapshots of the right types: a field of what is not a dict is null here, and what
is not a list is an empty one.
-/

namespace Dumb.Metrics

open Py

abbrev Fields := List (String × (Json → Json))

def project (fields : Fields) (j : Json) : Json := .obj (fields.map fun f => (f.1, f.2 (j.field f.1)))

def plain (keys : List String) : Fields := keys.map fun key => (key, id)

/-- The fields of a dict that is not empty, and `None` for any other. -/
def object (keys : List String) (j : Json) : Json := if j.truthy then project (plain keys) j else .null

def items : Json → List Json
  | .arr items => items
  | _ => []

/-! ## Compaction -/

def filesystemFields : Fields :=
  plain ["path", "mount_point", "fs_type", "available", "percent"] ++ [("inode", object ["percent"])]

def interfaceFields : Fields := plain ["name", "available", "is_up", "speed_mbps", "mtu", "sent_bytes", "recv_bytes",
  "sent_packets", "recv_packets", "errors_in", "errors_out", "drops_in", "drops_out"]

def procFields : Fields := plain ["name", "pid", "cpu_percent", "rss"] ++ [("disk_io", object ["read_bytes", "write_bytes"])]

def compactDicts (fields : Fields) (j : Json) : Json := .arr (((items j).filter Json.isObj).map (project fields))

def compactProcs (j : Json) : Json := .arr ((items j).map (project procFields))

def systemFields : Fields := plain ["cpu_percent", "cpu_count"] ++ [
  ("mem", object ["percent"]), ("disk", object ["percent"]), ("inode", object ["percent"]),
  ("filesystems", compactDicts filesystemFields), ("disk_io", object ["read_bytes", "write_bytes"]),
  ("net_io", object ["sent_bytes", "recv_bytes"]), ("network_interfaces", compactDicts interfaceFields)]

def itemFields : Fields := [
  ("timestamp", id), ("system", project systemFields), ("dumb_managed", compactProcs), ("external", compactProcs),
  ("database_health", id)]

def compactHistoryItems (snapshots : List Json) : List Json := snapshots.map (project itemFields)

/-! ## Series -/

def rate : Option ℚ → Option ℚ → Option ℚ → Option ℚ → Option ℚ
  | some prevValue, some value, some ts, some prevTs =>
    if ts - prevTs ≤ 0 ∨ value - prevValue < 0 then none else some ((value - prevValue) / (ts - prevTs))
  | _, _, _, _ => none

def rateFrom (prevValue prevTs : Option ℚ) : List (Json × Json) → List (Option ℚ)
  | [] => []
  | (value, ts) :: rest => rate prevValue value.num ts.num prevTs :: rateFrom value.num ts.num rest

def buildRateSeries (values timestamps : List Json) : List (Option ℚ) := rateFrom none none (values.zip timestamps)

def textField (key : String) (j : Json) : Option String :=
  match j.field key with
  | .str s => if s = "" then none else some s
  | _ => none

def namedIn (list key : String) (snapshot : Json) : List (String × Json) :=
  ((items ((snapshot.field "system").field list)).filter Json.isObj).filterMap fun j => (textField key j).map fun name => (name, j)

def namesIn (list key : String) (snapshots : List Json) : List String :=
  (snapshots.flatMap (namedIn list key)).foldl (fun names entry => if entry.1 ∈ names then names else names ++ [entry.1]) []

def lookupIn (list key name : String) (snapshot : Json) : Json :=
  (((namedIn list key snapshot).foldl (fun lookup entry => Dict.set entry.1 entry.2 lookup) []).get? name).getD (.obj [])

structure HistorySeries where
  cpu : List Json
  mem : List Json
  disk : List Json
  inode : List Json
  diskReadRate : List (Option ℚ)
  diskWriteRate : List (Option ℚ)
  netSentRate : List (Option ℚ)
  netRecvRate : List (Option ℚ)
  /-- The `disk` and the `inode` of a path. -/
  filesystems : List (String × List Json × List Json)
  /-- The `sent_rate` and the `recv_rate` of a name. -/
  networkInterfaces : List (String × List (Option ℚ) × List (Option ℚ))

def systemField (part key : String) (snapshot : Json) : Json := ((snapshot.field "system").field part).field key

def buildHistorySeries (snapshots : List Json) : HistorySeries :=
  let timestamps := snapshots.map (Json.field "timestamp")
  let rates (reading : Json → Json) := buildRateSeries (snapshots.map reading) timestamps
  let filesystem := lookupIn "filesystems" "path"
  let interface := lookupIn "network_interfaces" "name"
  { cpu := snapshots.map fun snapshot => (snapshot.field "system").field "cpu_percent"
    mem := snapshots.map (systemField "mem" "percent")
    disk := snapshots.map (systemField "disk" "percent")
    inode := snapshots.map (systemField "inode" "percent")
    diskReadRate := rates (systemField "disk_io" "read_bytes")
    diskWriteRate := rates (systemField "disk_io" "write_bytes")
    netSentRate := rates (systemField "net_io" "sent_bytes")
    netRecvRate := rates (systemField "net_io" "recv_bytes")
    filesystems := (namesIn "filesystems" "path" snapshots).map fun path =>
      (path, snapshots.map fun snapshot => (filesystem path snapshot).field "percent",
        snapshots.map fun snapshot => ((filesystem path snapshot).field "inode").field "percent")
    networkInterfaces := (namesIn "network_interfaces" "name" snapshots).map fun name =>
      (name, rates fun snapshot => (interface name snapshot).field "sent_bytes",
        rates fun snapshot => (interface name snapshot).field "recv_bytes") }

def HistorySeries.Complete (n : Nat) (s : HistorySeries) : Prop :=
  (∀ series ∈ [s.cpu, s.mem, s.disk, s.inode], series.length = n) ∧
    (∀ series ∈ [s.diskReadRate, s.diskWriteRate, s.netSentRate, s.netRecvRate], series.length = n) ∧
      (∀ f ∈ s.filesystems, f.2.1.length = n ∧ f.2.2.length = n) ∧
        ∀ i ∈ s.networkInterfaces, i.2.1.length = n ∧ i.2.2.length = n

/-! ## Projections -/

variable {f : Json → Json}

theorem field_project {fields : Fields} {key : String} (h : Dict.get? key fields = some f) (j : Json) :
    (project fields j).field key = f (j.field key) := by
  have hget : Dict.get? key (fields.map fun f => (f.1, f.2 (j.field f.1))) = some (f (j.field key)) := by
    induction fields with
    | nil => cases h
    | cons g fields ih =>
      obtain ⟨k, g⟩ := g
      rw [Dict.get?] at h
      rw [List.map_cons, Dict.get?]
      split at h
      · rename_i hkey
        subst hkey
        rw [if_pos rfl, Option.some.inj h]
      · rename_i hkey
        rw [if_neg hkey]
        exact ih h
  rw [project, Json.field, hget]
  rfl

variable {keys : List String}

theorem get?_plain {key : String} (h : key ∈ keys) : Dict.get? key (plain keys) = some id := by
  induction keys with
  | nil => cases h
  | cons k keys ih =>
    rw [plain, List.map_cons, Dict.get?]
    split
    · rfl
    · rename_i hkey
      exact ih ((List.mem_cons.1 h).resolve_left (Ne.symm hkey))

theorem keys_plain (keys : List String) : Dict.keys (plain keys) = keys := by
  rw [Dict.keys, plain, List.map_map]
  exact List.map_id keys

theorem field_falsy {j : Json} (h : ¬j.truthy = true) (key : String) : j.field key = .null := by
  cases j with
  | obj members =>
    cases members with
    | nil => rfl
    | cons m members => exact absurd rfl h
  | _ => rfl

theorem field_object {key : String} (h : key ∈ keys) (j : Json) :
    (object keys j).field key = j.field key := by
  rw [object]
  split
  · exact field_project (get?_plain h) j
  · rename_i hfalsy
    rw [field_falsy hfalsy]
    rfl

def Idempotent (f : Json → Json) : Prop := ∀ j, f (f j) = f j

theorem idempotent_project {fields : Fields} (hkeys : (Dict.keys fields).Nodup) (h : ∀ f ∈ fields, Idempotent f.2) :
    Idempotent (project fields) := by
  intro j
  rw [project, project, Json.obj.injEq]
  refine List.map_congr_left fun f hf => ?_
  rw [← project, field_project (Dict.get?_of_mem hkeys hf), h f hf]

theorem idempotent_plain (keys : List String) : ∀ f ∈ plain keys, Idempotent f.2 := by
  intro f hf
  obtain ⟨key, -, rfl⟩ := List.mem_map.1 hf
  exact fun _ => rfl

theorem idempotent_object {key : String} (hkeys : (key :: keys).Nodup) : Idempotent (object (key :: keys)) := by
  intro j
  have hproject := idempotent_project (by rw [keys_plain]; exact hkeys) (idempotent_plain (key :: keys))
  by_cases hj : j.truthy = true
  · have hobject : object (key :: keys) j = project (plain (key :: keys)) j := if_pos hj
    have htruthy : (project (plain (key :: keys)) j).truthy = true := rfl
    rw [hobject, object, if_pos htruthy, hproject j]
  · have hnone : object (key :: keys) j = .null := if_neg hj
    rw [hnone]
    rfl

theorem filter_project (fields : Fields) (js : List Json) : (js.map (project fields)).filter Json.isObj = js.map (project fields) :=
  List.filter_eq_self.2 fun j hj => by
    obtain ⟨j, -, rfl⟩ := List.mem_map.1 hj
    rfl

theorem idempotent_compactDicts {fields : Fields} (h : Idempotent (project fields)) : Idempotent (compactDicts fields) := by
  intro j
  rw [compactDicts, compactDicts, items, filter_project, List.map_map]
  exact congrArg Json.arr (List.map_congr_left fun j _ => h j)

theorem idempotent_itemFields : ∀ f ∈ itemFields, Idempotent f.2 := by
  have hid : Idempotent id := fun _ => rfl
  have hprocs : Idempotent compactProcs := by
    have hproc : Idempotent (project procFields) := by
      refine idempotent_project (by decide) (List.forall_mem_append.2 ⟨idempotent_plain _, ?_⟩)
      simpa using idempotent_object (by decide)
    intro j
    rw [compactProcs, compactProcs, items, List.map_map]
    exact congrArg Json.arr (List.map_congr_left fun j _ => hproc j)
  have hfilesystem : Idempotent (project filesystemFields) := by
    refine idempotent_project (by decide) (List.forall_mem_append.2 ⟨idempotent_plain _, ?_⟩)
    simpa using idempotent_object (by decide)
  have hinterface : Idempotent (project interfaceFields) := idempotent_project (by decide) (idempotent_plain _)
  have hsystem : Idempotent (project systemFields) := by
    refine idempotent_project (by decide) (List.forall_mem_append.2 ⟨idempotent_plain _, ?_⟩)
    simp only [List.forall_mem_cons]
    exact ⟨idempotent_object (by decide), idempotent_object (by decide), idempotent_object (by decide),
      idempotent_compactDicts hfilesystem, idempotent_object (by decide), idempotent_object (by decide),
      idempotent_compactDicts hinterface, by simp⟩
  simp only [itemFields, List.forall_mem_cons]
  exact ⟨hid, hsystem, hprocs, hprocs, hid, by simp⟩

/-! ## What compaction keeps -/

theorem field_compact {part : String} (h : Dict.get? part systemFields = some f) (j : Json) :
    ((project itemFields j).field "system").field part = f ((j.field "system").field part) := by
  rw [field_project (f := project systemFields) rfl, field_project h]

theorem systemField_compact {part key : String} (h : Dict.get? part systemFields = some (object keys))
    (hkey : key ∈ keys) (j : Json) : systemField part key (project itemFields j) = systemField part key j := by
  rw [systemField, field_compact h, field_object hkey, systemField]

section
variable (list key : String) {fields : Fields} (hlist : Dict.get? list systemFields = some (compactDicts fields))
  (hkey : Dict.get? key fields = some id)
include hlist hkey

theorem namedIn_compact (j : Json) :
    namedIn list key (project itemFields j) = (namedIn list key j).map fun entry => (entry.1, project fields entry.2) := by
  have htext (j : Json) : textField key (project fields j) = textField key j := by
    rw [textField, field_project hkey, textField]
    rfl
  rw [namedIn, field_compact hlist, compactDicts, items, filter_project, List.filterMap_map, namedIn, List.map_filterMap]
  refine congrArg (fun f => List.filterMap f _) (funext fun j => ?_)
  rw [Function.comp_apply, htext, Option.map_map]
  rfl

theorem namesIn_compact (snapshots : List Json) :
    namesIn list key (compactHistoryItems snapshots) = namesIn list key snapshots := by
  rw [namesIn, compactHistoryItems, List.flatMap_map, funext (namedIn_compact list key hlist hkey), ← List.map_flatMap, List.foldl_map,
    namesIn]

theorem lookupIn_compact {field : String} (hfield : Dict.get? field fields = some f) (hnull : f .null = .null)
    (name : String) (j : Json) :
    (lookupIn list key name (project itemFields j)).field field = f ((lookupIn list key name j).field field) := by
  have hset (k : String) (v : Json) (lookup : Dict String Json) :
      Dict.set k (project fields v) (lookup.map fun entry => (entry.1, project fields entry.2)) =
        (Dict.set k v lookup).map fun entry => (entry.1, project fields entry.2) := by
    induction lookup with
    | nil => rfl
    | cons entry lookup ih =>
      rw [List.map_cons, Dict.set, Dict.set]
      split
      · rfl
      · rw [ih, List.map_cons]
  have hfold (entries lookup : Dict String Json) :
      (entries.map fun entry => (entry.1, project fields entry.2)).foldl (fun lookup entry => Dict.set entry.1 entry.2 lookup)
          (lookup.map fun entry => (entry.1, project fields entry.2)) =
        (entries.foldl (fun lookup entry => Dict.set entry.1 entry.2 lookup) lookup).map
          fun entry => (entry.1, project fields entry.2) := by
    induction entries generalizing lookup with
    | nil => rfl
    | cons entry entries ih => rw [List.map_cons, List.foldl_cons, hset, ih, List.foldl_cons]
  have hlookup := hfold (namedIn list key j) []
  rw [lookupIn, namedIn_compact list key hlist hkey, lookupIn]
  rw [List.map_nil] at hlookup
  rw [hlookup, Dict.get?_map_values]
  cases Dict.get? name ((namedIn list key j).foldl (fun lookup entry => Dict.set entry.1 entry.2 lookup) []) with
  | none => exact hnull.symm
  | some v => exact field_project hfield v

end

theorem length_rates {values timestamps : List Json} (h : values.length = timestamps.length) :
    (buildRateSeries values timestamps).length = timestamps.length := by
  have hlength (prevValue prevTs : Option ℚ) (readings : List (Json × Json)) :
      (rateFrom prevValue prevTs readings).length = readings.length := by
    induction readings generalizing prevValue prevTs with
    | nil => rfl
    | cons reading readings ih => rw [rateFrom, List.length_cons, ih, List.length_cons]
  rw [buildRateSeries, hlength, List.length_zip, h, Nat.min_self]

/-- Compaction keeps every series, each with one entry a snapshot, and is idempotent. -/
theorem compact_keeps_series (snapshots : List Json) :
    buildHistorySeries (compactHistoryItems snapshots) = buildHistorySeries snapshots ∧
      (buildHistorySeries snapshots).Complete snapshots.length ∧
        compactHistoryItems (compactHistoryItems snapshots) = compactHistoryItems snapshots := by
  refine ⟨?_, ?_, ?_⟩
  · have hmap {β : Type} {f : Json → β} (h : ∀ j, f (project itemFields j) = f j) :
        (compactHistoryItems snapshots).map f = snapshots.map f := by
      rw [compactHistoryItems, List.map_map]
      exact List.map_congr_left fun j _ => h j
    have htimestamp : (compactHistoryItems snapshots).map (Json.field "timestamp") = snapshots.map (Json.field "timestamp") :=
      hmap fun j => field_project (f := id) rfl j
    have hcpu : (compactHistoryItems snapshots).map (fun snapshot => (snapshot.field "system").field "cpu_percent") =
        snapshots.map fun snapshot => (snapshot.field "system").field "cpu_percent" :=
      hmap fun j => field_compact (f := id) rfl j
    have hsystem (part key : String) {keys : List String} (h : Dict.get? part systemFields = some (object keys))
        (hkey : key ∈ keys) := hmap (systemField_compact h hkey)
    have hpercent (path : String) : (compactHistoryItems snapshots).map
          (fun snapshot => (lookupIn "filesystems" "path" path snapshot).field "percent") =
        snapshots.map fun snapshot => (lookupIn "filesystems" "path" path snapshot).field "percent" :=
      hmap fun j => lookupIn_compact "filesystems" "path" (f := id) rfl rfl rfl rfl path j
    have hinode (path : String) : (compactHistoryItems snapshots).map
          (fun snapshot => ((lookupIn "filesystems" "path" path snapshot).field "inode").field "percent") =
        snapshots.map fun snapshot => ((lookupIn "filesystems" "path" path snapshot).field "inode").field "percent" :=
      hmap fun j => by
        rw [lookupIn_compact "filesystems" "path" (f := object ["percent"]) rfl rfl rfl rfl path, field_object (by decide)]
    have hbytes (field : String) (h : Dict.get? field interfaceFields = some id) (name : String) :
        (compactHistoryItems snapshots).map
            (fun snapshot => (lookupIn "network_interfaces" "name" name snapshot).field field) =
          snapshots.map fun snapshot => (lookupIn "network_interfaces" "name" name snapshot).field field :=
      hmap fun j => lookupIn_compact "network_interfaces" "name" (f := id) rfl rfl h rfl name j
    have hpaths := namesIn_compact "filesystems" "path" rfl rfl snapshots
    have hnames := namesIn_compact "network_interfaces" "name" rfl rfl snapshots
    have hsent := hbytes "sent_bytes" rfl
    have hrecv := hbytes "recv_bytes" rfl
    have hpercents (part : String) (h : Dict.get? part systemFields = some (object ["percent"])) :=
      hsystem part "percent" h List.mem_cons_self
    have hmem := hpercents "mem" rfl
    have hdisk := hpercents "disk" rfl
    have hnodes := hpercents "inode" rfl
    have hread := hsystem "disk_io" "read_bytes" rfl List.mem_cons_self
    have hwrite := hsystem "disk_io" "write_bytes" rfl (List.mem_cons_of_mem "read_bytes" List.mem_cons_self)
    have hnetSent := hsystem "net_io" "sent_bytes" rfl List.mem_cons_self
    have hnetRecv := hsystem "net_io" "recv_bytes" rfl (List.mem_cons_of_mem "sent_bytes" List.mem_cons_self)
    simp only [buildHistorySeries, htimestamp, hcpu, hmem, hdisk, hnodes, hread, hwrite, hnetSent, hnetRecv, hpaths, hnames,
      hpercent, hinode, hsent, hrecv]
  · have hrates (reading : Json → Json) :
        (buildRateSeries (snapshots.map reading) (snapshots.map (Json.field "timestamp"))).length = snapshots.length := by
      rw [length_rates (by rw [List.length_map, List.length_map]), List.length_map]
    refine ⟨?_, ?_, ?_, ?_⟩
    · simp [buildHistorySeries]
    · simp [buildHistorySeries, hrates]
    · intro f hf
      obtain ⟨path, -, rfl⟩ := List.mem_map.1 hf
      exact ⟨List.length_map _, List.length_map _⟩
    · intro i hi
      obtain ⟨name, -, rfl⟩ := List.mem_map.1 hi
      exact ⟨hrates _, hrates _⟩
  · rw [compactHistoryItems, compactHistoryItems, List.map_map]
    exact List.map_congr_left fun j _ => idempotent_project (by decide) idempotent_itemFields j

end Dumb.Metrics
