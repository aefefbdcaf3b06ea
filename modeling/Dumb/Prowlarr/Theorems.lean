import Mathlib.Data.Set.Function
import Dumb.Prowlarr.Lemmas.Entries

/-!
# Runs

A run meets the wishes of the entries on the applications as they were before it, and the next run has the same wishes.
-/

namespace Dumb.Prowlarr

open Py

variable {text : Text} {server : Server text} {tagMap : Dict String Nat}

theorem findSchema_some (server : Server text) (entry : ArrEntry) :
    findSchema server.schemas entry.service.appName = some (server.schemaOf entry) := (Option.some_get _).symm

theorem syncEntry_eq (existing : Dict Nat (Application text)) (session : Session text) (entry : ArrEntry) :
    syncEntry server tagMap existing session entry =
      if (wishes server tagMap).met existing entry then session
      else applyApplication (server.desired tagMap entry) ((wishes server tagMap).find entry existing) session := by
  rw [syncEntry, findSchema_some]
  rfl

theorem syncEntry_apps (existing : Dict Nat (Application text)) (session : Session text) (entry : ArrEntry) :
    (syncEntry server tagMap existing session entry).store.apps =
      (wishes server tagMap).step fresh existing session.store.apps entry := by
  rw [syncEntry_eq, Wishes.met, Wishes.step]
  cases (wishes server tagMap).find entry existing with
  | none => rfl
  | some m =>
    rw [Option.any_some]
    dsimp only
    split
    · rfl
    · rfl

theorem syncEntry_tags (existing : Dict Nat (Application text)) (session : Session text) (entry : ArrEntry) :
    (syncEntry server tagMap existing session entry).store.tags = session.store.tags := by
  rw [syncEntry_eq]
  split
  · rfl
  · cases (wishes server tagMap).find entry existing <;> rfl

theorem syncEntry_writes (existing : Dict Nat (Application text)) (session : Session text) (entry : ArrEntry) :
    (syncEntry server tagMap existing session entry).writes.filter Write.isApplication = [] ↔
      session.writes.filter Write.isApplication = [] ∧ (wishes server tagMap).met existing entry = true := by
  rw [syncEntry_eq]
  split
  · next h => simp [h]
  · next h =>
    cases (wishes server tagMap).find entry existing with
    | none => simp [applyApplication, Write.isApplication, h]
    | some m => simp [applyApplication, Write.isApplication, h]

theorem syncEntries_apps (existing : Dict Nat (Application text)) : ∀ (entries : List ArrEntry) (s : Session text),
    (entries.foldl (syncEntry server tagMap existing) s).store.apps =
      entries.foldl ((wishes server tagMap).step fresh existing) s.store.apps
  | [], _ => rfl
  | entry :: entries, s => by
    rw [List.foldl_cons, List.foldl_cons, syncEntries_apps existing entries, syncEntry_apps]

theorem syncEntries_tags (existing : Dict Nat (Application text)) : ∀ (entries : List ArrEntry) (s : Session text),
    (entries.foldl (syncEntry server tagMap existing) s).store.tags = s.store.tags
  | [], _ => rfl
  | entry :: entries, s => by rw [List.foldl_cons, syncEntries_tags existing entries, syncEntry_tags]

theorem syncEntries_writes (existing : Dict Nat (Application text)) : ∀ (entries : List ArrEntry) (s : Session text),
    (entries.foldl (syncEntry server tagMap existing) s).writes.filter Write.isApplication = [] ↔
      s.writes.filter Write.isApplication = [] ∧ ∀ entry ∈ entries, (wishes server tagMap).met existing entry = true
  | [], s => by simp
  | entry :: entries, s => by
    rw [List.foldl_cons, syncEntries_writes existing entries, syncEntry_writes, List.forall_mem_cons, and_assoc]

/-! ## The tags of a run -/

theorem neededTags_mem {entries : List ArrEntry} {enabled : Bool} {label : String} (h : label ∈ neededTags entries enabled) :
    label = "decypharr" ∨ label = "infinidysk" := by
  have hfilter : ∀ label ∈ ["decypharr", "infinidysk"].filter fun svc => entries.any fun entry => entry.coreServices.contains svc,
      label = "decypharr" ∨ label = "infinidysk" := by
    intro label hmem
    simpa using List.mem_of_mem_filter hmem
  rw [neededTags] at h
  split at h
  · rcases List.mem_append.1 h with h | h
    · exact hfilter label h
    · exact .inl (List.mem_singleton.1 h)
  · exact hfilter label h

theorem neededTags_normal (entries : List ArrEntry) (enabled : Bool) : Normal text (neededTags entries enabled) := by
  intro label hmem
  rcases neededTags_mem hmem with rfl | rfl
  · exact ⟨norm_plain (by decide), by decide⟩
  · exact ⟨norm_plain (by decide), by decide⟩

theorem mem_neededTags {entries : List ArrEntry} {enabled : Bool} {entry : ArrEntry} {svc : String} (he : entry ∈ entries)
    (hsvc : svc ∈ entry.coreServices) (hmanaged : svc = "decypharr" ∨ svc = "infinidysk") :
    svc ∈ neededTags entries enabled := by
  have hmem : svc ∈ ["decypharr", "infinidysk"].filter fun svc => entries.any fun entry => entry.coreServices.contains svc := by
    rw [List.mem_filter, List.any_eq_true]
    exact ⟨by simpa using hmanaged, entry, he, by simpa using hsvc⟩
  rw [neededTags]
  split
  · exact List.mem_append_left _ hmem
  · exact hmem

def labelsOf (config : Json) (entries : List ArrEntry) : List String :=
  neededTags entries ((config.field "decypharr").field "enabled").truthy

def tagMapOf (env : Env) (config : Json) (entries : List ArrEntry) (store : Store env.text) : Dict String Nat :=
  (ensureTagIds (labelsOf config entries) (aliasesOf env.legacyNamespace) ⟨store, []⟩).1

theorem ensureTagIds_ensured (env : Env) (config : Json) (entries : List ArrEntry) (store : Store env.text) :
    ∃ new, Ensured (labelsOf config entries)
      (if labelsOf config entries = [] then [] else known env.text env.legacyNamespace store.tags, ⟨store, []⟩)
      (ensureTagIds (labelsOf config entries) (aliasesOf env.legacyNamespace) ⟨store, []⟩) new := by
  rw [ensureTagIds]
  by_cases hlabels : labelsOf config entries = []
  · rw [if_pos hlabels, if_pos hlabels, hlabels]
    exact ⟨[], rfl, by simp, rfl, rfl, by simp, by simp⟩
  · rw [if_neg hlabels, if_neg hlabels]
    exact ensured (neededTags_normal entries _)

theorem get?_tagMapOf_again (env : Env) (config : Json) (entries : List ArrEntry) {store store' : Store env.text}
    (h : store'.tags = (ensureTagIds (labelsOf config entries) (aliasesOf env.legacyNamespace) ⟨store, []⟩).2.store.tags)
    (k : String) : Dict.get? k (tagMapOf env config entries store') = Dict.get? k (tagMapOf env config entries store) := by
  by_cases hlabels : labelsOf config entries = []
  · rw [tagMapOf, tagMapOf, ensureTagIds, ensureTagIds, if_pos hlabels, if_pos hlabels]
  · obtain ⟨new, hnew⟩ := ensureTagIds_ensured env config entries store
    rw [if_neg hlabels] at hnew
    have hnormal : Normal env.text (labelsOf config entries) := neededTags_normal entries _
    have hmap : ∀ k, Dict.get? k (known env.text env.legacyNamespace store'.tags) =
        Dict.get? k (tagMapOf env config entries store) := by
      intro k
      rw [h, hnew.tags, tagMapOf, hnew.tagMap]
      apply known_append
      · exact fun tag htag => hnormal tag.2 (hnew.new_labels tag htag).1
      · intro tag htag heq
        rcases neededTags_mem (hnew.new_labels tag htag).1 with h | h <;> exact absurd (h.symm.trans heq) (by decide)
      · exact fun tag htag => (hnew.new_labels tag htag).2
    have hpresent : ∀ label ∈ labelsOf config entries,
        Dict.get? label (known env.text env.legacyNamespace store'.tags) ≠ none := by
      intro label hlabel
      rw [hmap, tagMapOf]
      exact hnew.present label hlabel
    have hsame := ensureTags_present (s := (known env.text env.legacyNamespace store'.tags, ⟨store', []⟩)) hnormal hpresent
    have hagain : tagMapOf env config entries store' = known env.text env.legacyNamespace store'.tags := by
      rw [tagMapOf, ensureTagIds, if_neg hlabels]
      exact congrArg Prod.fst hsame
    rw [hagain, hmap]

theorem desired_congr {m n : Dict String Nat} (h : ∀ k, Dict.get? k m = Dict.get? k n) (server : Server text) :
    server.desired m = server.desired n := by
  have hget : (fun svc => Dict.get? svc m) = fun svc => Dict.get? svc n := funext h
  funext entry
  rw [Server.desired, Server.desired, desiredApplication, desiredApplication, hget]

theorem wishes_congr {m n : Dict String Nat} (h : ∀ k, Dict.get? k m = Dict.get? k n) (server : Server text) :
    wishes server m = wishes server n := by
  rw [wishes, wishes, desired_congr h]

/-! ## A run -/

section
variable (env : Env) (config : Json) (entries : List ArrEntry) (server : Server env.text)

theorem schemas_ne (server : Server text) : server.schemas ≠ [] := by
  intro hnil
  have hsome := server.complete .sonarr
  rw [hnil] at hsome
  cases hsome

theorem syncServer_eq : syncServer env config entries server =
    entries.foldl (syncEntry server (tagMapOf env config entries server.store) server.store.apps)
      (ensureTagIds (labelsOf config entries) (aliasesOf env.legacyNamespace) ⟨server.store, []⟩).2 := by
  rw [syncServer, if_neg (schemas_ne server)]
  rfl

theorem syncServer_apps : (syncServer env config entries server).store.apps =
    (wishes server (tagMapOf env config entries server.store)).meet fresh server.store.apps entries := by
  obtain ⟨new, hnew⟩ := ensureTagIds_ensured env config entries server.store
  rw [syncServer_eq, syncEntries_apps, hnew.apps]
  rfl

theorem syncServer_tags : (syncServer env config entries server).store.tags =
    (ensureTagIds (labelsOf config entries) (aliasesOf env.legacyNamespace) ⟨server.store, []⟩).2.store.tags := by
  rw [syncServer_eq, syncEntries_tags]

theorem syncServer_writes : (syncServer env config entries server).writes.filter Write.isApplication = [] ↔
    ∀ entry ∈ entries, (wishes server (tagMapOf env config entries server.store)).met server.store.apps entry = true := by
  obtain ⟨new, hnew⟩ := ensureTagIds_ensured env config entries server.store
  rw [syncServer_eq, syncEntries_writes, hnew.writes]
  exact and_iff_right rfl

def Server.after (server : Server text) (session : Session text) : Server text := { server with store := session.store }

theorem wishes_after : wishes (server.after (syncServer env config entries server))
    (tagMapOf env config entries (syncServer env config entries server).store) =
      wishes server (tagMapOf env config entries server.store) :=
  wishes_congr (get?_tagMapOf_again env config entries (syncServer_tags env config entries server)) server

end

end Dumb.Prowlarr

/-! ## What Prowlarr ends with

One application for each Arr instance, and nothing to send in the next run: exactly when every application that is written
is the own one of an entry.
-/

namespace Dumb.Prowlarr

open Py

section
variable (env : Env) (config : Json)

structure Serves (tags : Dict Nat String) (entry : ArrEntry) (app : Application env.text) : Prop where
  baseUrl : (lowered env.text app.fields).get? "baseurl" = some (.str entry.host)
  apiKey : (lowered env.text app.fields).get? "apikey" = some (.str entry.apiKey)
  tags : ∀ svc ∈ entry.coreServices, svc = "decypharr" ∨ svc = "infinidysk" →
    ∃ id ∈ app.tags, IsTagOf env.text env.legacyNamespace tags svc id

structure Synced (server : Server env.text) (session : Session env.text) : Prop where
  own : ∃ id : ArrEntry → Nat, Set.InjOn id (fun entry => entry ∈ collectArrEntries env config) ∧
    ∀ entry ∈ collectArrEntries env config, ∃ app, session.store.apps.get? (id entry) = some app ∧
      Serves env session.store.tags entry app
  others : ∀ id app, server.store.apps.get? id = some app →
    (∀ entry ∈ collectArrEntries env config, hasBaseUrl app entry.host = false) → session.store.apps.get? id = some app
  operatorTags : ∀ id app, server.store.apps.get? id = some app →
    ∃ app', session.store.apps.get? id = some app' ∧ ∀ tag ∈ app.tags, tag ∈ app'.tags
  labels : server.store.tags <+: session.store.tags
  again : ∀ session' ∈ patchProwlarrApps env config [server.after session], session'.writes.filter Write.isApplication = []

def wishesOf (server : Server env.text) : Wishes (Application env.text) ArrEntry String :=
  wishes server (tagMapOf env config (collectArrEntries env config) server.store)

structure Apart (server : Server env.text) : Prop where
  named : ∀ entry ∈ collectArrEntries env config,
    (wishesOf env config server).Lasts server.store.apps (collectArrEntries env config) entry →
      ∀ other ∈ collectArrEntries env config,
        (wishesOf env config server).label other = (wishesOf env config server).label entry → other = entry
  kept : ∀ entry ∈ collectArrEntries env config,
    ¬(wishesOf env config server).Lasts server.store.apps (collectArrEntries env config) entry →
      (wishesOf env config server).met
        ((wishesOf env config server).untouched server.store.apps (collectArrEntries env config)) entry = true
  ours : ∀ entry ∈ collectArrEntries env config, (wishesOf env config server).met server.store.apps entry = false →
    ∀ m ∈ (wishesOf env config server).find entry server.store.apps,
      ∃ other ∈ collectArrEntries env config, hasBaseUrl m.2 other.host = true

end

section
variable {env : Env} {config : Json} {server : Server env.text}

theorem patched_eq (servers : List (Server env.text)) (h : collectArrEntries env config ≠ []) :
    patchProwlarrApps env config servers = servers.map (syncServer env config (collectArrEntries env config)) := by
  rw [patchProwlarrApps, if_neg h]

theorem get?_after {id : Nat} {app : Application env.text} (entries : List ArrEntry) (h : server.store.apps.get? id = some app) :
    (syncServer env config entries server).store.apps.get? id =
      some (((wishes server (tagMapOf env config entries server.store)).owner server.store.apps entries id).elim app
        fun entry => merged (server.desired (tagMapOf env config entries server.store) entry) (some app)) := by
  rw [syncServer_apps]
  exact Wishes.get?_meet fresh server.store.distinct h

theorem serves_of_current {entries : List ArrEntry} {entry : ArrEntry} {app : Application env.text} (he : entry ∈ entries)
    (h : isApplicationCurrent app (server.desired (tagMapOf env config entries server.store) entry) = true) :
    Serves env (syncServer env config entries server).store.tags entry app where
  baseUrl := current_field h (desired_baseUrl entry)
  apiKey := current_field h (desired_apiKey entry)
  tags svc hsvc hmanaged := by
    obtain ⟨new, hnew⟩ := ensureTagIds_ensured env config entries server.store
    have hlabel : svc ∈ labelsOf config entries := mem_neededTags he hsvc hmanaged
    have hne : labelsOf config entries ≠ [] := List.ne_nil_of_mem hlabel
    rw [if_neg hne] at hnew
    obtain ⟨id, hid⟩ := Option.ne_none_iff_exists'.1 (hnew.present svc hlabel)
    have hnormal : Normal env.text (labelsOf config entries) := neededTags_normal entries _
    have htag : id ∈ (server.desired (tagMapOf env config entries server.store) entry).tags :=
      List.mem_filterMap.2 ⟨svc, hsvc, hid⟩
    rw [hnew.tagMap] at hid
    rw [syncServer_tags, hnew.tags]
    exact ⟨id, current_tags h id htag, tag_of_extend (fun tag ht => hnormal tag.2 (hnew.new_labels tag ht).1) hid⟩

theorem own_of_met {entries : List ArrEntry} (hports : (entries.map (·.port)).Nodup)
    (h : ∀ entry ∈ entries, (wishes server (tagMapOf env config entries server.store)).met
      (syncServer env config entries server).store.apps entry = true) :
    ∃ id : ArrEntry → Nat, Set.InjOn id (fun entry => entry ∈ entries) ∧
      ∀ entry ∈ entries, ∃ app, (syncServer env config entries server).store.apps.get? (id entry) = some app ∧
        Serves env (syncServer env config entries server).store.tags entry app := by
  let rows := (syncServer env config entries server).store.apps
  let w := wishes server (tagMapOf env config entries server.store)
  have hfound : ∀ entry ∈ entries, ∃ m, w.find entry rows = some m ∧ w.current entry m.2 = true :=
    fun entry he => by simpa [Wishes.met, Option.any_eq_true] using h entry he
  have hget : ∀ entry m, w.find entry rows = some m → rows.get? m.1 = some m.2 := fun entry m hm =>
    Dict.get?_of_mem (syncServer env config entries server).store.distinct (Wishes.find_mem hm)
  refine ⟨fun entry => ((w.find entry rows).map (·.1)).getD 0, ?_, ?_⟩
  · intro e he e' he' heq
    obtain ⟨m, hm, hcurrent⟩ := hfound e he
    obtain ⟨m', hm', hcurrent'⟩ := hfound e' he'
    simp only [hm, hm', Option.map_some, Option.getD_some] at heq
    have hsame := hget e m hm
    rw [heq, hget e' m' hm', Option.some.injEq] at hsame
    exact (lawful hports).current_unique e he e' he' m.2 hcurrent (hsame ▸ hcurrent')
  · intro entry he
    obtain ⟨m, hm, hcurrent⟩ := hfound entry he
    simp only [hm, Option.map_some, Option.getD_some]
    exact ⟨m.2, hget entry m hm, serves_of_current he hcurrent⟩

theorem others_iff {entries : List ArrEntry} :
    (∀ id app, server.store.apps.get? id = some app → (∀ entry ∈ entries, hasBaseUrl app entry.host = false) →
      (syncServer env config entries server).store.apps.get? id = some app) ↔
    ∀ entry ∈ entries, (wishes server (tagMapOf env config entries server.store)).met server.store.apps entry = false →
      ∀ m ∈ (wishes server (tagMapOf env config entries server.store)).find entry server.store.apps,
        ∃ other ∈ entries, hasBaseUrl m.2 other.host = true := by
  constructor
  · intro h entry he hmet m hm
    by_contra hother
    have hforeign : ∀ entry ∈ entries, hasBaseUrl m.2 entry.host = false := by
      intro other ho
      rw [← Bool.not_eq_true]
      exact fun hurl => hother ⟨other, ho, hurl⟩
    have hget := Dict.get?_of_mem server.store.distinct (Wishes.find_mem hm)
    have hsame := h m.1 m.2 hget hforeign
    rw [get?_after entries hget, Option.some.injEq] at hsame
    cases howner : (wishes server (tagMapOf env config entries server.store)).owner server.store.apps entries m.1 with
    | none =>
      have hno := List.find?_eq_none.1 howner entry (List.mem_reverse.2 he)
      rw [Option.mem_def] at hm
      simp [hmet, hm] at hno
    | some e =>
      rw [howner, Option.elim_some] at hsame
      have hurl := hforeign e (Wishes.owner_some howner).1
      rw [← hsame, hasBaseUrl_merged.2 rfl] at hurl
      cases hurl
  · intro h id app hget hforeign
    rw [get?_after entries hget]
    cases howner : (wishes server (tagMapOf env config entries server.store)).owner server.store.apps entries id with
    | none => rfl
    | some e =>
      obtain ⟨he, hmet, b, hfind⟩ := Wishes.owner_some howner
      obtain ⟨other, ho, hurl⟩ := h e he hmet (id, b) hfind
      have hb := Dict.get?_of_mem server.store.distinct (Wishes.find_mem hfind)
      rw [hget, Option.some.injEq] at hb
      rw [← hb, hforeign other ho] at hurl
      cases hurl

theorem synced_iff (hports : ((collectArrEntries env config).map (·.port)).Nodup) (h : collectArrEntries env config ≠ [])
    (server : Server env.text) :
    Synced env config server (syncServer env config (collectArrEntries env config) server) ↔ Apart env config server := by
  have hagain : (∀ session' ∈ patchProwlarrApps env config
      [server.after (syncServer env config (collectArrEntries env config) server)],
        session'.writes.filter Write.isApplication = []) ↔
      ∀ entry ∈ collectArrEntries env config, (wishesOf env config server).met
        (syncServer env config (collectArrEntries env config) server).store.apps entry = true := by
    rw [patched_eq _ h, List.map_singleton, List.forall_mem_singleton, syncServer_writes]
    exact wishes_after env config (collectArrEntries env config) server ▸ Iff.rfl
  have hlawful : (wishesOf env config server).Lawful (collectArrEntries env config) := lawful hports
  have hmet := Wishes.met_iff fresh server.store.distinct hlawful
  rw [wishesOf, ← syncServer_apps] at hmet
  constructor
  · intro hsynced
    obtain ⟨hnamed, hkept⟩ := hmet.1 (hagain.1 hsynced.again)
    exact ⟨hnamed, hkept, others_iff.1 hsynced.others⟩
  · intro hapart
    have hall := hmet.2 ⟨hapart.named, hapart.kept⟩
    refine ⟨own_of_met hports hall, others_iff.2 hapart.ours, ?_, ?_, hagain.2 hall⟩
    · intro id app hget
      rw [get?_after _ hget]
      refine ⟨_, rfl, ?_⟩
      cases (wishes server (tagMapOf env config (collectArrEntries env config) server.store)).owner server.store.apps
        (collectArrEntries env config) id with
      | none => exact fun tag htag => htag
      | some e => exact (merged_tags _ (some app)).2 app rfl
    · obtain ⟨new, hnew⟩ := ensureTagIds_ensured env config (collectArrEntries env config) server.store
      rw [syncServer_tags, hnew.tags]
      exact List.prefix_append _ _

theorem synced_idle (h : collectArrEntries env config = []) (server : Server env.text) :
    Synced env config server ⟨server.store, []⟩ := by
  refine ⟨⟨fun _ => 0, ?_, ?_⟩, fun _ _ hget _ => hget, fun _ app hget => ⟨app, hget, fun _ htag => htag⟩,
    List.prefix_refl _, ?_⟩
  · intro e he
    rw [h] at he
    exact absurd he List.not_mem_nil
  · rw [h]
    exact List.forall_mem_nil _
  · rw [patchProwlarrApps, if_pos h]
    simp

theorem apart_idle (h : collectArrEntries env config = []) (server : Server env.text) : Apart env config server := by
  constructor <;> rw [h] <;> exact List.forall_mem_nil _

end

def plainSchema (implementation : String) : Schema Text.ascii where
  implementation := implementation
  implementationName := implementation
  configContract := implementation ++ "Settings"
  infoLink := ""
  fields := [("prowlarrUrl", .null), ("baseUrl", .null), ("apiKey", .null)]
  named := by decide
  distinct := by decide
  baseUrl := by decide
  apiKey := by decide

def plainEnv : Env where
  text := Text.ascii
  toInt
    | .int n => some n
    | _ => none
  apiKey _ := "key"
  legacyNamespace := false

def emptyServer : Server plainEnv.text where
  host := "http://127.0.0.1:9696"
  schemas := ["Sonarr", "Radarr", "Lidarr", "Readarr", "Whisparr"].map plainSchema
  complete service := by cases service <;> decide +kernel
  store := { apps := [], distinct := by decide, tags := [] }

def arrInstance (port : Int) : Json :=
  .obj [("Default", .obj [("enabled", .bool true), ("port", .int port)])]

def twoServices (first second : Service) : Json :=
  .obj [(first.key, .obj [("instances", arrInstance 6969)]), (second.key, .obj [("instances", arrInstance 7878)])]

end Dumb.Prowlarr
