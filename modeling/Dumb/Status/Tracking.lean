import Dumb.Lib.Raise
import Dumb.Lib.Text

/-!
# The tracked processes and the status that is told of them

From `utils/processes.py` and `api/api_state.py`. The operations of the handler change its tables, list them and write the list
to `running_processes.json`; `get_status` reads the file through a cache. Every access is a step of its own, and the steps of
all calls interleave.
-/

namespace Dumb.Status

open Py

structure Info where
  name : String
  internalName : String
  deriving DecidableEq

structure Tables where
  processes : Dict Nat Info
  processNames : Dict String Nat
  externalProcesses : Dict String Nat
  deriving DecidableEq

namespace Tables

def runningProcesses (t : Tables) : Dict String Nat :=
  t.externalProcesses.foldl (fun running e => running.set e.1 e.2)
    (t.processes.foldl (fun running e => running.set e.2.name e.1) [])

def Tracks (normalize : String → String) (t : Tables) (name : String) : Prop :=
  (∃ e ∈ t.processes, normalize e.2.name = normalize name) ∨ ∃ e ∈ t.externalProcesses, normalize e.1 = normalize name

instance (normalize : String → String) (t : Tables) (name : String) : Decidable (t.Tracks normalize name) :=
  inferInstanceAs (Decidable (_ ∨ _))

end Tables

/-! ## The operations of the handler -/

inductive Change where
  | track (pid : Nat) (info : Info)
  | trackName (internalName : String) (pid : Nat)
  | register (name : String) (pid : Nat)
  /-- `if pid in self.processes`, and the `del` that may follow. -/
  | checkPid (pid : Nat)
  | deletePid (pid : Nat)
  | checkName (internalName : String)
  | deleteName (internalName : String)
  | deleteExternal (name : String)
  | popPid (pid : Nat)
  | popName (internalName : String)
  /-- `os.waitpid` has returned the pid. -/
  | reap (pid : Nat)

inductive Update where
  | before
  /-- It goes through `processes` and `external_processes`. -/
  | listing (tables : Tables)
  | listed (running : Dict String Nat) (serial : Nat)
  /-- `open(file_path, "w")` has truncated the file. -/
  | truncated (running : Dict String Nat) (serial : Nat)

structure Task where
  changes : List Change
  begun : Bool
  update : Option Update

namespace Task

def writing (t : Task) : Bool := t.begun && t.update.isSome

def pending (t : Task) : Bool :=
  t.begun && match t.update with
    | some .before | some (.listing _) => true
    | _ => false

def isTruncated (t : Task) : Bool :=
  match t.update with
  | some (.truncated _ _) => true
  | _ => false

def dead (t : Task) : Task := { t with changes := [], update := none }

end Task

/-! ## The file and its readers -/

structure File where
  document : Option (Dict String Nat)
  length : Nat
  mtime : Nat

def File.load (size : Dict String Nat → Nat) (f : File) : Dict String Nat :=
  match f.document with
  | some running => if f.length = size running then running else []
  | none => []

inductive Place where
  | asked
  | looked (mtime : Nat)
  | hit
  | missed
  | loaded (running : Dict String Nat)
  | kept (running : Dict String Nat)
  | stamped (running : Dict String Nat) (mtime : Nat)
  | answered (running : Dict String Nat)
  deriving DecidableEq

def Place.reading : Place → Bool
  | .loaded _ | .kept _ => true
  | _ => false

/-- What a call of `get_status` that starts while no writer runs has seen since. No access reads it. -/
structure Watch where
  seen : List Tables
  since : Nat
  born : Nat
  deriving DecidableEq

structure Reader where
  name : String
  place : Place
  watch : Option Watch
  deriving DecidableEq

def Reader.see (tables : Tables) (r : Reader) : Reader :=
  { r with watch := r.watch.map fun s => { s with seen := tables :: s.seen } }

/-- The last four are for the statements: the lists so far, which of them the file and the cache hold, and whether the tables
were changed by a call that does not list them. -/
structure World where
  tables : Tables
  file : File
  clock : Nat
  statusCache : Dict String Nat
  statusMtime : Nat
  tasks : List Task
  readers : List Reader
  lists : List (Dict String Nat)
  written : Nat
  cached : Nat
  unlisted : Bool

namespace World

/-- `APIState.__init__`, which makes the file where there is none. -/
def start (size : Dict String Nat → Nat) (found : Option File) : World :=
  let file := found.getD ⟨some [], size [], 0⟩
  ⟨⟨[], [], []⟩, file, file.mtime + 1, file.load size, file.mtime, [], [], [file.load size], 0, 0, false⟩

def change (tables : Tables) (w : World) : World := { w with tables := tables, readers := w.readers.map (Reader.see tables) }

def perform (c : Change) (t : Task) (w : World) : World × Task :=
  let tables := w.tables
  let raise := ({ w with unlisted := w.unlisted || t.update.isSome }, t.dead)
  match c with
  | .track pid info => (w.change { tables with processes := tables.processes.set pid info }, t)
  | .trackName internalName pid => (w.change { tables with processNames := tables.processNames.set internalName pid }, t)
  | .register name pid => (w.change { tables with externalProcesses := tables.externalProcesses.set name pid }, t)
  | .checkPid pid => (w, if (tables.processes.get? pid).isSome then { t with changes := .deletePid pid :: t.changes } else t)
  | .deletePid pid =>
    if (tables.processes.get? pid).isSome then (w.change { tables with processes := tables.processes.erase pid }, t) else raise
  | .checkName internalName =>
    (w, if (tables.processNames.get? internalName).isSome then { t with changes := .deleteName internalName :: t.changes } else t)
  | .deleteName internalName =>
    if (tables.processNames.get? internalName).isSome then
      (w.change { tables with processNames := tables.processNames.erase internalName }, t)
    else raise
  | .deleteExternal name =>
    if (tables.externalProcesses.get? name).isSome then
      (w.change { tables with externalProcesses := tables.externalProcesses.erase name }, t)
    else raise
  | .popPid pid => (w.change { tables with processes := tables.processes.erase pid }, t)
  | .popName internalName => (w.change { tables with processNames := tables.processNames.erase internalName }, t)
  | .reap pid =>
    match tables.processes.get? pid with
    | none => (w, t)
    | some info => ({ w.change { tables with processes := tables.processes.erase pid } with unlisted := true },
        { t with changes := .checkName info.internalName :: t.changes })

/-- What depends on the moment: the list that is made of tables that change under it, if it does not raise, and whether the
text comes at a later time than the truncation. -/
structure Chance where
  listed : Option (Dict String Nat)
  tick : Bool

def rewrite (size : Dict String Nat → Nat) (c : Chance) (u : Update) (w : World) : World × Option Update :=
  match u with
  | .before => (w, some (.listing w.tables))
  | .listing tables =>
    if tables = w.tables then
      ({ w with lists := w.lists ++ [w.tables.runningProcesses], unlisted := false },
        some (.listed w.tables.runningProcesses w.lists.length))
    else match c.listed with
      | some running => ({ w with lists := w.lists ++ [running], unlisted := true }, some (.listed running w.lists.length))
      | none => ({ w with unlisted := true }, none)
  | .listed running serial => ({ w with file := ⟨none, 0, w.clock⟩, clock := w.clock + 1 }, some (.truncated running serial))
  | .truncated running serial =>
    ({ w with
      file := ⟨some running, max w.file.length (size running), if c.tick then w.clock else w.file.mtime⟩
      clock := w.clock + 1
      written := serial }, none)

def advance (size : Dict String Nat → Nat) (c : Chance) (t : Task) (w : World) : World × Task :=
  match t.changes, t.update with
  | change :: changes, _ => w.perform change { t with changes := changes, begun := true }
  | [], some u => ((w.rewrite size c u).1, { t with begun := true, update := (w.rewrite size c u).2 })
  | [], none => (w, t)

def read (size : Dict String Nat → Nat) (r : Reader) (w : World) : World × Place :=
  match r.place with
  | .asked => (w, .looked w.file.mtime)
  | .looked mtime => (w, if mtime = w.statusMtime then .hit else .missed)
  | .hit => (w, .answered w.statusCache)
  | .missed => (w, .loaded (w.file.load size))
  | .loaded running => ({ w with statusCache := running, cached := w.written }, .kept running)
  | .kept running => (w, .stamped running w.file.mtime)
  | .stamped running mtime => ({ w with statusMtime := mtime }, .answered running)
  | .answered running => (w, .answered running)

def call (changes : List Change) (w : World) : World := { w with tasks := w.tasks ++ [⟨changes, false, some .before⟩] }

def quiet (w : World) : Bool := w.tasks.all fun t => !t.writing

end World

inductive Step where
  | startProcess (pid : Nat) (info : Info)
  /-- `wait` on a process of this name that has exited. -/
  | wait (internalName : String)
  | stopProcess (internalName : String)
  | registerExternalProcess (name : String) (pid : Nat)
  | unregisterExternalProcess (name : String)
  | reapZombies (pid : Nat)
  | advance (n : Nat) (c : World.Chance)
  | getStatus (name : String)
  | read (n : Nat)

def World.step (size : Dict String Nat → Nat) (w : World) : Step → World
  | .startProcess pid info =>
    if (w.tables.processNames.get? info.internalName).isSome then w
    else w.call [.track pid info, .trackName info.internalName pid]
  | .wait internalName =>
    match w.tables.processNames.get? internalName with
    | none => w
    | some pid => w.call [.checkPid pid, .checkName internalName]
  | .stopProcess internalName =>
    match w.tables.processNames.get? internalName with
    | none => w
    | some pid => w.call [.popName internalName, .popPid pid]
  | .registerExternalProcess name pid => if name = "" ∨ pid = 0 then w else w.call [.register name pid]
  | .unregisterExternalProcess name =>
    if (w.tables.externalProcesses.get? name).isSome then w.call [.deleteExternal name] else w
  | .reapZombies pid => { w with tasks := w.tasks ++ [⟨[.reap pid], false, none⟩] }
  | .advance n c =>
    match w.tasks[n]? with
    | none => w
    | some t => { (w.advance size c t).1 with tasks := w.tasks.set n (w.advance size c t).2 }
  | .getStatus name =>
    { w with readers := w.readers ++ [⟨name, .asked, if w.quiet then some ⟨[w.tables], w.written, w.file.mtime⟩ else none⟩] }
  | .read n =>
    match w.readers[n]? with
    | none => w
    | some r => { (w.read size r).1 with readers := w.readers.set n { r with place := (w.read size r).2 } }

/-! ## The status -/

inductive Answer where
  | running
  | idle
  | stopped
  deriving DecidableEq

def normalize (text : Text) (name : String) : String := text.lower (text.strip (replace "/ " "/" (replace " " "" name)))

/-- `get_status` of what the cache lists; `dbrepair` says that the repair of Plex is enabled. -/
def getStatus (text : Text) (dbrepair : Bool) (running : Dict String Nat) (name : String) : Answer :=
  let normalized := normalize text name
  if normalized = "dumbapi" || normalized = "dmbapi" then .running
  else if (Dict.keys running).any fun stored => normalized = normalize text stored then .running
  else if (normalized = "plexdbrepair" || normalized = "dbrepair") && dbrepair then .idle
  else .stopped

def excepted : List String := ["dumbapi", "dmbapi", "plexdbrepair", "dbrepair"]

/-- Every call that has started while no writer ran answers by the tables of a moment between its start and its answer. -/
def Truthful (text : Text) (dbrepair : Bool) (w : World) : Prop :=
  ∀ r ∈ w.readers, ∀ s, r.watch = some s → ∀ running, r.place = .answered running → normalize text r.name ∉ excepted →
    ∃ t ∈ s.seen, getStatus text dbrepair running r.name = .running ↔ t.Tracks (normalize text) r.name

end Dumb.Status
