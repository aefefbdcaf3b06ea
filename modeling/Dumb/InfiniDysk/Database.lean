import Dumb.Lib.Text

/-!
# The legacy name

From `utils/infinidysk_migration.py`: the name in texts, and the paths that are moved.
-/

namespace Dumb.InfiniDysk

open Py

def namedAt (cs : List Char) : Bool := (cs.take 6).map Char.toLower = "nzbdav".toList

/-- `re.sub(r"nzbdav", new, value, flags=re.I)`, with `skip` characters of a match still to pass over. -/
def subFrom (new : List Char) : Nat → List Char → List Char
  | _, [] => []
  | skip + 1, _ :: cs => subFrom new skip cs
  | 0, c :: cs => if namedAt (c :: cs) then new ++ subFrom new 5 cs else c :: subFrom new 0 cs

/-- The same with `\b` on both sides, after the character `prev`; `word` are the characters of `\w`. -/
def subWordFrom (word : Char → Bool) (new : List Char) : Nat → Option Char → List Char → List Char
  | _, _, [] => []
  | skip + 1, _, c :: cs => subWordFrom word new skip (some c) cs
  | 0, prev, c :: cs =>
    if namedAt (c :: cs) && !prev.any word && !(cs.drop 5).head?.any word then new ++ subWordFrom word new 5 (some c) cs
    else c :: subWordFrom word new 0 (some c) cs

/-- Whether `re.search(r"\bnzbdav\b", value, re.I)` finds anything. -/
def wordFrom (word : Char → Bool) : Option Char → List Char → Bool
  | _, [] => false
  | prev, c :: cs =>
    namedAt (c :: cs) && !prev.any word && !(cs.drop 5).head?.any word || wordFrom word (some c) cs

def containsLegacyName (word : Char → Bool) (value : String) : Bool := wordFrom word none value.toList

def replaceLegacyToken (word : Char → Bool) (value : String) (display : Bool) : String :=
  String.ofList (subWordFrom word (if display then "InfiniDysk" else "infinidysk").toList 0 none value.toList)

def replaceDisplayName (word : Char → Bool) (value : String) : String := replaceLegacyToken word value true

def namespacePathMappings : List (String × String) :=
  [("/mnt/debrid/nzbdav-symlinks", "/mnt/debrid/infinidysk-symlinks"), ("/mnt/debrid/nzbdav", "/mnt/debrid/infinidysk"),
    ("/data/nzbdav", "/data/infinidysk"), ("/log/nzbdav.log", "/log/infinidysk.log"), ("/nzbdav", "/infinidysk")]

def below (source value : List Char) : Option (List Char) :=
  if source.isPrefixOf value then
    match value.drop source.length with
    | [] => some []
    | c :: cs => if c = '/' then some (c :: cs) else none
  else none

def replaceNamespaceText (value : String) : String :=
  let rewritten := (namespacePathMappings.findSome? fun m =>
    (below m.1.toList value.toList).map (m.2.toList ++ ·)).getD value.toList
  String.ofList (if rewritten.head? = some '/' then subFrom "infinidysk".toList 0 rewritten else rewritten)

inductive Kind where
  | absent
  | symlink
  | directory
  | file
  deriving DecidableEq

/-- An action of the plan; `linkTarget` is put in when it is carried out. -/
structure Action where
  source : String
  preflightSource : String
  destination : String
  sourceType : Kind
  destinationState : Kind
  mounted : Bool
  linkTarget : Option String
  deriving DecidableEq

def pathName (value : String) : String := (((split '/' value).filter fun p => p ≠ "" && p ≠ ".").getLast?).getD ""

example : replaceNamespaceText "/data/nzbdav/NzbDAV.db" = "/data/infinidysk/infinidysk.db" := by decide +kernel

/-! ## The database of InfiniDysk

`_migrate_infinidysk_database` of `utils/infinidysk_migration.py`. A table that is not there counts as one without rows. Texts
hold no NUL. What `\w` and `str.islower` say of a character or a text are parameters.
-/

structure Row (ρ : Type) where
  id : String
  columns : ρ

structure Table (ρ : Type) where
  rows : List (Row ρ)
  keys : (rows.map Row.id).Nodup

namespace Table

variable {ρ : Type}

def updateRows (rows : List (Row ρ)) (id : String) (set : ρ → ρ) : List (Row ρ) :=
  rows.map fun r => if r.id = id then { r with columns := set r.columns } else r

theorem updateRows_ids (rows : List (Row ρ)) (id : String) (set : ρ → ρ) :
    (updateRows rows id set).map Row.id = rows.map Row.id := by
  simp only [updateRows, List.map_map]
  apply List.map_congr_left
  intro r _
  simp only [Function.comp_apply]
  split <;> rfl

def update (t : Table ρ) (id : String) (set : ρ → ρ) : Table ρ :=
  ⟨updateRows t.rows id set, by rw [updateRows_ids]; exact t.keys⟩

end Table

structure DavItem where
  path : String
  name : String

/-- The values of `ConfigItems` are under their names, `HistoryItems` and `QueueItems` hold categories. -/
structure Database where
  configItems : Table String
  historyItems : Table String
  queueItems : Table String
  davItems : Table DavItem

def likeFrom : List Char → Bool
  | [] => false
  | c :: cs => namedAt (c :: cs) || likeFrom cs

def like (value : String) : Bool := likeFrom value.toList

section

variable (word : Char → Bool) (islower : String → Bool)

def rewriteExternalText (value : String) : String :=
  let rewritten := replaceNamespaceText value
  if rewritten = value ∧ containsLegacyName word value then replaceLegacyToken word value !islower value else rewritten

def rewriteField (value : String) : String :=
  let rewritten := replaceNamespaceText value
  if rewritten = value ∧ containsLegacyName word value then replaceLegacyToken word value false else rewritten

/-- The rows read one by one, each written where its value has changed; `changed` counts them. -/
def rewriteConfigItems (t : Table String) : Nat × Table String :=
  t.rows.foldl (fun acc r =>
    let rewritten := rewriteExternalText word islower r.columns
    if rewritten = r.columns then acc else (acc.1 + 1, acc.2.update r.id fun _ => rewritten)) (0, t)

def rewriteColumn {ρ : Type} (get : ρ → String) (put : String → ρ → ρ) (t : Table ρ) : Nat × Table ρ :=
  let updates := (t.rows.filter fun r => like (get r.columns)).filterMap fun r =>
    let rewritten := rewriteField word (get r.columns)
    if rewritten ≠ get r.columns then some (rewritten, r.id) else none
  (updates.length, updates.foldl (fun t u => t.update u.2 (put u.1)) t)

def putPath (path : String) (d : DavItem) : DavItem := { d with path }

def putName (name : String) (d : DavItem) : DavItem := { d with name }

def residual {ρ : Type} (name : String) (get : ρ → String) (t : Table ρ) : Option String :=
  let count := t.rows.countP fun r => like (get r.columns)
  if count = 0 then none else some (name ++ ": " ++ toString count)

def residuals (db : Database) : List String :=
  [residual "HistoryItems.Category" id db.historyItems, residual "QueueItems.Category" id db.queueItems,
    residual "DavItems.Path" DavItem.path db.davItems, residual "DavItems.Name" DavItem.name db.davItems,
    residual "ConfigItems.ConfigValue" id db.configItems].reduceOption

def rewriteDatabase (db : Database) : Except String Nat × Database :=
  let config := rewriteConfigItems word islower db.configItems
  let history := rewriteColumn word id (fun value _ => value) db.historyItems
  let queue := rewriteColumn word id (fun value _ => value) db.queueItems
  let paths := rewriteColumn word DavItem.path putPath db.davItems
  let names := rewriteColumn word DavItem.name putName paths.2
  let written : Database := ⟨config.2, history.2, queue.2, names.2⟩
  if residuals written = [] then (.ok (config.1 + history.1 + queue.1 + paths.1 + names.1), written)
  else
    (.error ("InfiniDysk database still contains legacy namespace records: " ++ ", ".intercalate (residuals written)),
      written)

/-- `_migrate_infinidysk_database`: leaving `with sqlite3.connect(...)` by an exception rolls back. -/
def migrateInfinidyskDatabase (db : Database) : Except String Nat × Database :=
  match rewriteDatabase word islower db with
  | (.ok changed, written) => (.ok changed, written)
  | (.error message, _) => (.error message, db)

end

end Dumb.InfiniDysk
