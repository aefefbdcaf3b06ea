import Dumb.Prowlarr.Payload

/-!
# The store of applications, and what is sent to it

`patch_prowlarr_apps` of `utils/prowlarr_settings.py`, from the collected entries on. No request fails and every server is up.
-/

namespace Dumb.Prowlarr

open Py

structure Store (text : Text) where
  apps : Dict Nat (Application text)
  distinct : (Dict.keys apps).Nodup
  tags : Dict Nat String

def fresh {β : Type} (rows : Dict Nat β) : Nat := (Dict.keys rows).foldr max 0 + 1

theorem fresh_new {β : Type} (rows : Dict Nat β) : fresh rows ∉ Dict.keys rows := by
  have hle : ∀ ks : List Nat, ∀ k ∈ ks, k ≤ ks.foldr max 0 := by
    intro ks
    induction ks with
    | nil => simp
    | cons q ks ih =>
      intro k hk
      rcases List.mem_cons.1 hk with rfl | hk
      · exact le_max_left _ _
      · exact (ih k hk).trans (le_max_right _ _)
  intro hmem
  have := hle _ _ hmem
  rw [fresh] at this
  omega

section
variable {text : Text}

def Store.put (store : Store text) (id : Nat) (app : Application text) : Store text where
  apps := store.apps.set id app
  distinct := Dict.nodup_keys_set store.distinct
  tags := store.tags

def Store.post (store : Store text) (app : Application text) : Store text where
  apps := store.apps ++ [(fresh store.apps, app)]
  distinct := by
    rw [Dict.keys_append, List.nodup_append]
    refine ⟨store.distinct, by simp [Dict.keys], ?_⟩
    rintro k hk q hq rfl
    obtain rfl : k = fresh store.apps := by simpa [Dict.keys] using hq
    exact fresh_new store.apps hk
  tags := store.tags

def Store.addTag (store : Store text) (label : String) : Store text :=
  { store with tags := store.tags ++ [(fresh store.tags, label)] }

inductive Write (text : Text) where
  | put (id : Nat) (app : Application text)
  | post (app : Application text)
  | postTag (label : String)

def Write.isApplication : Write text → Bool
  | .postTag _ => false
  | _ => true

structure Session (text : Text) where
  store : Store text
  writes : List (Write text)

/-! ## Tags -/

def labelled (text : Text) (tags : Dict Nat String) : Dict String Nat :=
  tags.foldl (fun tagMap tag =>
    let label := text.lower (text.strip tag.2)
    if label = "" then tagMap else tagMap.set label tag.1) []

def addAlias (text : Text) (tagMap : Dict String Nat) (a : String × String) : Dict String Nat :=
  let label := text.lower (text.strip a.1)
  match tagMap.get? (text.lower (text.strip a.2)) with
  | some id => if label = "" ∨ (tagMap.get? label).isSome then tagMap else tagMap.set label id
  | none => tagMap

def ensureTag (state : Dict String Nat × Session text) (label : String) : Dict String Nat × Session text :=
  let label := text.lower (text.strip label)
  if label = "" ∨ (state.1.get? label).isSome then state
  else (state.1.set label (fresh state.2.store.tags),
    { store := state.2.store.addTag label, writes := state.2.writes ++ [.postTag label] })

def ensureTagIds (labels : List String) (aliases : Dict String String) (session : Session text) :
    Dict String Nat × Session text :=
  if labels = [] then ([], session)
  else labels.foldl ensureTag (aliases.foldl (addAlias text) (labelled text session.store.tags), session)

def neededTags (entries : List ArrEntry) (decypharrEnabled : Bool) : List String :=
  let needed := ["decypharr", "infinidysk"].filter fun svc => entries.any fun entry => entry.coreServices.contains svc
  if decypharrEnabled && !needed.contains "decypharr" then needed ++ ["decypharr"] else needed

/-! ## Applications -/

def applyApplication (desired : Application text) (found : Option (Nat × Application text)) (session : Session text) :
    Session text :=
  match found with
  | some (id, app) =>
    let body := { desired with tags := (app.tags ++ desired.tags).dedup.mergeSort }
    { store := session.store.put id body, writes := session.writes ++ [.put id body] }
  | none => { store := session.store.post desired, writes := session.writes ++ [.post desired] }

structure Server (text : Text) where
  host : String
  schemas : List (Schema text)
  complete : ∀ service : Service, (findSchema schemas service.appName).isSome
  store : Store text

def desiredApplication (prowlarrHost : String) (tagMap : Dict String Nat) (entry : ArrEntry) (schema : Schema text) :
    Application text :=
  buildApplicationPayload schema entry.service.appName entry.host entry.apiKey entry.inst prowlarrHost
    (entry.coreServices.filterMap fun svc => tagMap.get? svc)

def syncEntry (server : Server text) (tagMap : Dict String Nat) (existing : Dict Nat (Application text))
    (session : Session text) (entry : ArrEntry) : Session text :=
  match findSchema server.schemas entry.service.appName with
  | none => session
  | some schema =>
    let desired := desiredApplication server.host tagMap entry schema
    let found := findExistingApplication existing desired schema entry.host
    if found.any fun m => isApplicationCurrent m.2 desired then session
    else applyApplication desired found session

def syncServer (env : Env) (config : Json) (entries : List ArrEntry) (server : Server env.text) : Session env.text :=
  if server.schemas = [] then ⟨server.store, []⟩
  else
    let existing := server.store.apps
    let decypharrEnabled := ((config.field "decypharr").field "enabled").truthy
    let aliases := if env.legacyNamespace then [("infinidysk", "nzbdav")] else []
    let (tagMap, session) := ensureTagIds (neededTags entries decypharrEnabled) aliases ⟨server.store, []⟩
    entries.foldl (syncEntry server tagMap existing) session

def patchProwlarrApps (env : Env) (config : Json) (servers : List (Server env.text)) : List (Session env.text) :=
  let entries := collectArrEntries env config
  if entries = [] then servers.map fun server => ⟨server.store, []⟩
  else servers.map (syncServer env config entries)

end

end Dumb.Prowlarr
