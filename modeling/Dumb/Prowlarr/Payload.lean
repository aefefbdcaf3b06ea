import Mathlib.Data.List.Infix
import Dumb.Lib.Text
import Dumb.Lib.Wishes
import Dumb.Startup.Dependencies

/-!
# Prowlarr applications of the Arr instances

`patch_prowlarr_apps` of `utils/prowlarr_settings.py`. Prowlarr is a store of applications and tags that keeps what it is
sent, and no request fails. Its indexers are left out.
-/

namespace Dumb.Prowlarr

open Py

inductive Service where
  | sonarr
  | radarr
  | lidarr
  | readarr
  | whisparr
  | whisparrV3
  deriving DecidableEq

def arrServices : List Service := [.sonarr, .radarr, .lidarr, .readarr, .whisparr, .whisparrV3]

def Service.key : Service → String
  | .sonarr => "sonarr"
  | .radarr => "radarr"
  | .lidarr => "lidarr"
  | .readarr => "readarr"
  | .whisparr => "whisparr"
  | .whisparrV3 => "whisparr-v3"

def Service.appName : Service → String
  | .sonarr => "Sonarr"
  | .radarr => "Radarr"
  | .lidarr => "Lidarr"
  | .readarr => "Readarr"
  | .whisparr | .whisparrV3 => "Whisparr"

def whisparrSyncCategories : List Int :=
  [6000, 6010, 6020, 6030, 6040, 6045, 6050, 6060, 6070, 6080, 6090, 2000, 2010, 2020, 2030, 2040, 2045, 2050, 2060, 2070,
    2080, 5000, 5010, 5020, 5030, 5040, 5045, 5050, 5060, 5070, 5080]

/-- What the standard library, the disk and `_uses_legacy_infinidysk_namespace` answer. -/
structure Env where
  text : Text
  /-- `int` of a configured port, or none where it raises. -/
  toInt : Json → Option Int
  /-- `_parse_arr_api_key` of a `config_file`. -/
  apiKey : Json → String
  legacyNamespace : Bool

/-! ## The Arr instances -/

structure ArrEntry where
  service : Service
  inst : String
  port : Int
  apiKey : String
  coreServices : List String
  deriving DecidableEq

def ArrEntry.host (entry : ArrEntry) : String := "http://127.0.0.1:" ++ toString entry.port

def getCoreServices (env : Env) (inst : Json) : List String :=
  (Startup.getCoreServices ⟨env.text.lower, env.text.strip, fun _ => .ok false⟩ inst).eraseDups

def instancePort (env : Env) (inst : Json) : Option Int :=
  match if (inst.field "port").truthy then inst.field "port" else inst.field "host_port" with
  | .null => none
  | port => env.toInt port

def arrEntry (env : Env) (service : Service) (key : String) (inst : Json) : Option ArrEntry :=
  if (inst.field "enabled").truthy then
    match instancePort env inst with
    | none => none
    | some port =>
      let token := env.apiKey (inst.field "config_file")
      if token = "" then none
      else some { service, inst := key, port, apiKey := token, coreServices := getCoreServices env inst }
  else none

def instancesOf (config : Json) (service : Service) : List (String × Json) :=
  match (config.field service.key).field "instances" with
  | .obj instances => instances
  | _ => []

def collectArrEntries (env : Env) (config : Json) : List ArrEntry :=
  arrServices.flatMap fun service => (instancesOf config service).filterMap fun m => arrEntry env service m.1 m.2

/-! ## Payloads -/

def override (text : Text) (fields : Dict String Json) (o : String × Json) : Dict String Json :=
  match (Dict.keys fields).find? fun name => text.lower name = text.lower o.1 with
  | some name => fields.set name o.2
  | none => fields

def buildFieldsFromSchema (text : Text) (fields overrides : List (String × Json)) : Dict String Json :=
  overrides.foldl (override text) ((fields.filter fun f => f.1 ≠ "").foldl (fun fields f => fields.set f.1 f.2) [])

def isText : Json → Bool
  | .str _ | .null => true
  | _ => false

structure Application (text : Text) where
  name : String
  enable : Bool
  syncLevel : String
  implementation : String
  implementationName : String
  configContract : String
  infoLink : String
  tags : List Nat
  fields : List (String × Json)
  urls : ∀ f ∈ fields, text.lower f.1 = "baseurl" → isText f.2 = true

/-- What Prowlarr says of a kind of application: its fields have names of their own, and a base URL and an API key are
among them. -/
structure Schema (text : Text) where
  implementation : String
  implementationName : String
  configContract : String
  infoLink : String
  fields : List (String × Json)
  named : ∀ f ∈ fields, f.1 ≠ ""
  distinct : (fields.map fun f => text.lower f.1).Nodup
  baseUrl : "baseurl" ∈ fields.map fun f => text.lower f.1
  apiKey : "apikey" ∈ fields.map fun f => text.lower f.1

def overrides (text : Text) (appName arrHost arrApiKey prowlarrHost : String) : List (String × Json) :=
  [("baseUrl", .str arrHost), ("url", .str arrHost), ("host", .str arrHost), ("apiKey", .str arrApiKey),
    ("syncLevel", .str "fullSync"), ("prowlarrUrl", .str prowlarrHost)] ++
    if text.lower appName = "whisparr" then [("syncCategories", .arr (whisparrSyncCategories.map .int))] else []

section
variable {text : Text}

theorem override_keys (fields : Dict String Json) (o : String × Json) :
    Dict.keys (override text fields o) = Dict.keys fields := by
  unfold override
  split
  · next name hname => exact Dict.keys_set name o.2 fields (List.mem_of_find?_eq_some hname)
  · rfl

theorem mem_override {fields : Dict String Json} {o f : String × Json}
    (hn : ((Dict.keys fields).map text.lower).Nodup) (h : f ∈ override text fields o) :
    (f ∈ fields ∧ text.lower f.1 ≠ text.lower o.1) ∨ (text.lower f.1 = text.lower o.1 ∧ f.2 = o.2) := by
  have hkeys : (Dict.keys fields).Nodup := hn.of_map _
  unfold override at h
  split at h
  · next name hname =>
    have hlower := List.find?_some hname
    rw [decide_eq_true_eq] at hlower
    by_cases hf : text.lower f.1 = text.lower o.1
    · have hmem : f.1 ∈ Dict.keys fields := by
        rw [← Dict.keys_set name o.2 fields (List.mem_of_find?_eq_some hname)]
        exact List.mem_map_of_mem h
      have hsame : f.1 = name :=
        List.inj_on_of_nodup_map hn hmem (List.mem_of_find?_eq_some hname) (hf.trans hlower.symm)
      have hget := Dict.get?_of_mem (Dict.nodup_keys_set (k := name) (v := o.2) hkeys) (show (f.1, f.2) ∈ _ from h)
      rw [hsame, Dict.get?_set_self, Option.some.injEq] at hget
      exact .inr ⟨hf, hget.symm⟩
    · rcases Dict.mem_set h with rfl | h
      · exact absurd hlower hf
      · exact .inl ⟨h, hf⟩
  · next hnone =>
    refine .inl ⟨h, fun hf => ?_⟩
    have hno := List.find?_eq_none.1 hnone f.1 (List.mem_map_of_mem h)
    simp [hf] at hno

theorem foldl_override_keys : ∀ (os : List (String × Json)) (fields : Dict String Json),
    Dict.keys (os.foldl (override text) fields) = Dict.keys fields
  | [], _ => rfl
  | o :: os, fields => by rw [List.foldl_cons, foldl_override_keys os, override_keys]

theorem mem_overrides {v : Json} {k : String} : ∀ {os : List (String × Json)} {fields : Dict String Json} {f : String × Json},
    ((Dict.keys fields).map text.lower).Nodup → (∀ o ∈ os, text.lower o.1 = k → o.2 = v) →
      ((∃ o ∈ os, text.lower o.1 = k) ∨ ∀ f ∈ fields, text.lower f.1 = k → f.2 = v) →
        f ∈ os.foldl (override text) fields → text.lower f.1 = k → f.2 = v
  | [], fields, f, _, _, h, hf, hk => by
    rcases h with ⟨o, ho, -⟩ | h
    · exact absurd ho List.not_mem_nil
    · exact h f hf hk
  | o :: os, fields, f, hn, hv, h, hf, hk => by
    have hn' : ((Dict.keys (override text fields o)).map text.lower).Nodup := by rwa [override_keys]
    apply mem_overrides hn' (fun o' ho' => hv o' (List.mem_cons_of_mem _ ho')) _ hf hk
    by_cases hrest : ∃ o ∈ os, text.lower o.1 = k
    · exact .inl hrest
    · apply Or.inr
      intro f' hf' hk'
      rcases mem_override hn hf' with ⟨hmem, hne⟩ | ⟨heq, hval⟩
      · rcases h with ⟨o', ho', hko'⟩ | h
        · rcases List.mem_cons.1 ho' with rfl | ho'
          · exact absurd (hk'.trans hko'.symm) hne
          · exact absurd ⟨o', ho', hko'⟩ hrest
        · exact h f' hmem hk'
      · rw [hval]
        exact hv o List.mem_cons_self (heq.symm.trans hk')

theorem set_new {k : String} {v : Json} : ∀ {fields : Dict String Json}, k ∉ Dict.keys fields →
    Dict.set k v fields = fields ++ [(k, v)]
  | [], _ => rfl
  | (q, u) :: fields, h => by
    have hq : q ≠ k := fun he => h (he ▸ List.mem_cons_self)
    rw [Dict.set, if_neg hq, set_new fun hk => h (List.mem_cons_of_mem _ hk), List.cons_append]

theorem foldl_set : ∀ (fields done : Dict String Json), (Dict.keys (done ++ fields)).Nodup →
    fields.foldl (fun fields f => fields.set f.1 f.2) done = done ++ fields
  | [], done, _ => by simp
  | f :: fields, done, h => by
    have hnew : f.1 ∉ Dict.keys done := by
      rw [Dict.keys_append, List.nodup_append] at h
      exact fun hmem => h.2.2 f.1 hmem f.1 List.mem_cons_self rfl
    rw [List.foldl_cons, set_new hnew, foldl_set fields, List.append_assoc, List.singleton_append]
    rwa [List.append_assoc, List.singleton_append]

theorem Schema.distinct_keys (schema : Schema text) : (Dict.keys schema.fields).Nodup := by
  have h : (Dict.keys schema.fields).map text.lower = schema.fields.map fun f => text.lower f.1 := by
    rw [Dict.keys, List.map_map]
    rfl
  exact (h ▸ schema.distinct).of_map _

theorem buildFields_eq (schema : Schema text) (os : List (String × Json)) :
    buildFieldsFromSchema text schema.fields os = os.foldl (override text) schema.fields := by
  have hfilter : (schema.fields.filter fun f => f.1 ≠ "") = schema.fields :=
    List.filter_eq_self.2 fun f hf => by simpa using schema.named f hf
  rw [buildFieldsFromSchema, hfilter, foldl_set schema.fields [] schema.distinct_keys, List.nil_append]

theorem buildFields_keys (schema : Schema text) (os : List (String × Json)) :
    Dict.keys (buildFieldsFromSchema text schema.fields os) = Dict.keys schema.fields := by
  rw [buildFields_eq, foldl_override_keys]

variable {schema : Schema text} {f : String × Json}

theorem mem_buildFields {os : List (String × Json)} {k : String} {v : Json}
    (hv : ∀ o ∈ os, text.lower o.1 = k → o.2 = v) (hk : ∃ o ∈ os, text.lower o.1 = k)
    (h : f ∈ buildFieldsFromSchema text schema.fields os) (hf : text.lower f.1 = k) : f.2 = v := by
  rw [buildFields_eq] at h
  apply mem_overrides _ hv (.inl hk) h hf
  have hmap : (Dict.keys schema.fields).map text.lower = schema.fields.map fun f => text.lower f.1 := by
    rw [Dict.keys, List.map_map]
    rfl
  exact hmap ▸ schema.distinct

theorem lower_overrides {appName arrHost arrApiKey prowlarrHost : String} :
    (overrides text appName arrHost arrApiKey prowlarrHost).map (fun o => (text.lower o.1, o.2)) =
      [("baseurl", .str arrHost), ("url", .str arrHost), ("host", .str arrHost), ("apikey", .str arrApiKey),
        ("synclevel", .str "fullSync"), ("prowlarrurl", .str prowlarrHost)] ++
        if text.lower appName = "whisparr" then [("synccategories", .arr (whisparrSyncCategories.map .int))] else [] := by
  have hplain : ∀ {s : String}, Plain s → text.lower s = asciiLower s := text.lower_plain
  rw [overrides, List.map_append]
  have hlist : (List.map (fun o : String × Json => (text.lower o.1, o.2))
      (if text.lower appName = "whisparr" then [("syncCategories", .arr (whisparrSyncCategories.map .int))] else [])) =
      if text.lower appName = "whisparr" then [("synccategories", .arr (whisparrSyncCategories.map .int))] else [] := by
    split
    · rw [List.map_singleton, hplain (by decide)]
      rfl
    · rfl
  rw [hlist]
  simp only [List.map_cons, List.map_nil, hplain (show Plain "baseUrl" by decide), hplain (show Plain "url" by decide),
    hplain (show Plain "host" by decide), hplain (show Plain "apiKey" by decide), hplain (show Plain "syncLevel" by decide),
    hplain (show Plain "prowlarrUrl" by decide)]
  rfl

variable {o : String × Json}

theorem override_of_lower {appName arrHost arrApiKey prowlarrHost : String}
    (h : o ∈ overrides text appName arrHost arrApiKey prowlarrHost) :
    (text.lower o.1, o.2) ∈ (overrides text appName arrHost arrApiKey prowlarrHost).map fun o => (text.lower o.1, o.2) :=
  List.mem_map_of_mem (f := fun o : String × Json => (text.lower o.1, o.2)) h

theorem overrides_baseUrl {appName arrHost arrApiKey prowlarrHost : String}
    (h : o ∈ overrides text appName arrHost arrApiKey prowlarrHost) (hk : text.lower o.1 = "baseurl") : o.2 = .str arrHost := by
  have hmem := override_of_lower h
  rw [lower_overrides, hk] at hmem
  split at hmem
  · simpa using hmem
  · simpa using hmem

theorem overrides_apiKey {appName arrHost arrApiKey prowlarrHost : String}
    (h : o ∈ overrides text appName arrHost arrApiKey prowlarrHost) (hk : text.lower o.1 = "apikey") : o.2 = .str arrApiKey := by
  have hmem := override_of_lower h
  rw [lower_overrides, hk] at hmem
  split at hmem
  · simpa using hmem
  · simpa using hmem

theorem buildFields_baseUrl {appName arrHost arrApiKey prowlarrHost : String}
    (h : f ∈ buildFieldsFromSchema text schema.fields (overrides text appName arrHost arrApiKey prowlarrHost))
    (hf : text.lower f.1 = "baseurl") : f.2 = .str arrHost :=
  mem_buildFields (fun _ => overrides_baseUrl)
    ⟨("baseUrl", .str arrHost), by simp [overrides], text.lower_plain (s := "baseUrl") (by decide)⟩ h hf

theorem buildFields_apiKey {appName arrHost arrApiKey prowlarrHost : String}
    (h : f ∈ buildFieldsFromSchema text schema.fields (overrides text appName arrHost arrApiKey prowlarrHost))
    (hf : text.lower f.1 = "apikey") : f.2 = .str arrApiKey :=
  mem_buildFields (fun _ => overrides_apiKey)
    ⟨("apiKey", .str arrApiKey), by simp [overrides], text.lower_plain (s := "apiKey") (by decide)⟩ h hf

def buildApplicationPayload (schema : Schema text) (appName arrHost arrApiKey instanceName prowlarrHost : String)
    (tagIds : List Nat) : Application text where
  name := appName ++ " (" ++ instanceName ++ ")"
  enable := true
  syncLevel := "fullSync"
  implementation := schema.implementation
  implementationName := schema.implementationName
  configContract := schema.configContract
  infoLink := schema.infoLink
  tags := tagIds
  fields := buildFieldsFromSchema text schema.fields (overrides text appName arrHost arrApiKey prowlarrHost)
  urls f hf hname := by
    rw [buildFields_baseUrl hf hname]
    rfl

/-! ## Applications as they are -/

def lowered (text : Text) (fields : List (String × Json)) : Dict String Json :=
  fields.foldl (fun d f => d.set (text.lower f.1) f.2) []

def isApplicationCurrent (existing desired : Application text) : Bool :=
  existing.enable = desired.enable && existing.syncLevel = desired.syncLevel &&
    existing.implementation = desired.implementation && existing.configContract = desired.configContract &&
    desired.tags.all (fun tag => existing.tags.contains tag) &&
    (lowered text desired.fields).all fun m =>
      (((lowered text existing.fields).get? m.1).getD .null).pyEq m.2

/-- `(value or "").rstrip("/")` of a text, or of nothing. -/
def urlOf : Json → List Char
  | .str s => (s.toList.reverse.dropWhile (· = '/')).reverse
  | _ => []

def rstrip (s : String) : List Char := urlOf (.str s)

def hasBaseUrl (app : Application text) (arrHost : String) : Bool :=
  app.fields.any fun f => text.lower f.1 = "baseurl" && urlOf f.2 = rstrip arrHost

def findExistingApplication (existing : Dict Nat (Application text)) (desired : Application text) (schema : Schema text)
    (arrHost : String) : Option (Nat × Application text) :=
  (existing.find? fun m => text.lower m.2.name = text.lower desired.name).or
    (existing.find? fun m => text.lower m.2.implementation = text.lower schema.implementation && hasBaseUrl m.2 arrHost)

def contains (target s : String) : Bool := decide (target.toList <:+: s.toList)

def findSchema (schemas : List (Schema text)) (appName : String) : Option (Schema text) :=
  let target := text.lower appName
  schemas.find? fun schema =>
    contains target (text.lower schema.implementation) || contains target (text.lower schema.implementationName)

end

end Dumb.Prowlarr
