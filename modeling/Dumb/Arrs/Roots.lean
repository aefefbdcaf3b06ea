import Dumb.Lib.Slug
import Dumb.Lib.Text

/-!
# Root folders and categories of Arr instances

`_slugify_category`, `_collect_arr_entries`, `_instance_core_services` and the root folders of
`utils/nzbdav_settings.py` and `utils/decypharr_settings.py`.
-/

namespace Dumb.Arrs

open Py

structure Instance where
  enabled : Bool
  coreServices : Json
  coreService : Json
  instanceName : String
  name : String
  port : Json
  hostPort : Json
  configFile : String

abbrev Config := Dict String (Dict String Instance)

def instancesOf (config : Config) (service : String) : Dict String Instance := (Dict.get? service config).getD []

def arrServices : List String := ["sonarr", "radarr", "lidarr", "whisparr"]

structure Env where
  text : Text
  /-- `c.isalnum()` -/
  isalnum : Char → Bool
  /-- `int(value)`. -/
  int : Json → Option Int
  /-- `_parse_arr_api_key` -/
  apiKey : String → String

section
variable (env : Env)

def safeChar (c : Char) : Char := if env.isalnum c || c = '-' || c = '_' then c else '-'

def slugifyCategory (value : String) : String :=
  let text := env.text.lower (env.text.strip value)
  if text = "" then ""
  else
    let result := Slug.trim '-' (text.toList.map (safeChar env))
    String.ofList (Slug.mergeAll '-' result.length result)

def canonicalServiceKey (value : String) : String :=
  let normalized := env.text.lower (env.text.strip value)
  if normalized = "nzbdav" then "infinidysk" else normalized

def normalizeParts (value : String) : List String :=
  ((split ',' value).map (canonicalServiceKey env)).filter (· ≠ "")

def normalizeCoreServices : Json → List String
  | .str value => normalizeParts env value
  | .arr items => items.flatMap fun
      | .str item => normalizeParts env item
      | _ => []
  | _ => []

/-- `get_core_services` without its removal of repetitions, which no membership test sees. -/
def getCoreServices (inst : Instance) : List String :=
  normalizeCoreServices env inst.coreServices ++ normalizeCoreServices env inst.coreService

def instanceCoreServices (config : Config) (service instanceName : String) : List String :=
  let target := env.text.lower (env.text.strip instanceName)
  if target = "" then []
  else
    match (instancesOf config service).find? fun m =>
      [m.1, m.2.instanceName, m.2.name].any fun c => env.text.lower (env.text.strip c) = target with
    | some m => getCoreServices env m.2
    | none => []

def instName (key : String) (inst : Instance) : String :=
  env.text.strip (if inst.instanceName ≠ "" then inst.instanceName else if inst.name ≠ "" then inst.name else key)

def portOf (inst : Instance) : Option String :=
  match if inst.port.truthy then inst.port else inst.hostPort with
  | .null => none
  | port => (env.int port).map toString

def slugOf (service name : String) : String :=
  let slug := slugifyCategory env (service ++ "-" ++ name)
  if slug ≠ "" then slug else slugifyCategory env service

/-! ## InfiniDysk -/

structure NzbdavEntry where
  host : String
  apiKey : String
  inst : String
  category : String

def nzbdavEntry (service key : String) (inst : Instance) : Option NzbdavEntry :=
  if !inst.enabled then none
  else if !(getCoreServices env inst).contains "infinidysk" then none
  else match portOf env inst with
    | none => none
    | some port =>
      let token := env.apiKey (env.text.strip inst.configFile)
      if token = "" then none
      else some ⟨"http://127.0.0.1:" ++ port, token, instName env key inst, slugOf env service (instName env key inst)⟩

def infinidyskSymlinkRoot (legacy : Bool) : String :=
  if legacy then "/mnt/debrid/nzbdav-symlinks" else "/mnt/debrid/infinidysk-symlinks"

def combinedRoot : String := "/mnt/debrid/combined_symlinks"

def nzbdavBase (legacy : Bool) (config : Config) (service name : String) : String :=
  let coreServices := instanceCoreServices env config service name
  if coreServices.contains "decypharr" && coreServices.contains "infinidysk" then combinedRoot
  else infinidyskSymlinkRoot legacy

def joinPath (root part : String) : String := if "/".toList.isPrefixOf part.toList then part else root ++ "/" ++ part

def nzbdavRoot (legacy : Bool) (config : Config) (service : String) (entry : NzbdavEntry) : Option String :=
  let category := env.text.lower (env.text.strip entry.category)
  if category = "" then none else some (joinPath (nzbdavBase env legacy config service entry.inst) category)

/-! ## Decypharr -/

structure DecypharrEntry where
  name : String
  host : String
  token : String

def decypharrEntry (service key : String) (inst : Instance) : Option DecypharrEntry :=
  if !inst.enabled then none
  else if !(getCoreServices env inst).contains "decypharr" then none
  else
    let name := instName env key inst
    some ⟨if name ≠ "" then service ++ ":" ++ name else service,
      ((portOf env inst).map fun port => "http://127.0.0.1:" ++ port).getD "", env.apiKey (env.text.strip inst.configFile)⟩

def usesCombinedRoot (coreServices : List String) : Bool :=
  let normalized := coreServices.map fun service => env.text.lower (env.text.strip service)
  normalized.contains "decypharr" && (normalized.contains "infinidysk" || normalized.contains "altmount")

def decypharrBase (config : Config) (service name : String) : String :=
  if usesCombinedRoot env (instanceCoreServices env config service name) then combinedRoot
  else "/mnt/debrid/decypharr_symlinks"

def partition (sep : Char) (s : String) : String × String :=
  (String.ofList (s.toList.takeWhile (· ≠ sep)), String.ofList ((s.toList.dropWhile (· ≠ sep)).drop 1))

def decypharrRoot (config : Config) (entry : DecypharrEntry) : String :=
  let service := env.text.lower (env.text.strip (partition ':' entry.name).1)
  let instanceName := env.text.strip (partition ':' entry.name).2
  decypharrBase env config service instanceName ++ "/" ++ slugOf env service instanceName

/-! ## What the modules derive for an instance -/

structure Place where
  service : String
  key : String
  inst : Instance

def Place.In (config : Config) (p : Place) : Prop :=
  p.service ∈ arrServices ∧ (p.key, p.inst) ∈ instancesOf config p.service

def Place.name (p : Place) : String := instName env p.key p.inst

def Place.nzbdav (p : Place) : Option NzbdavEntry := nzbdavEntry env p.service p.key p.inst

def Place.decypharr (p : Place) : Option DecypharrEntry := decypharrEntry env p.service p.key p.inst

def roots (legacy : Bool) (config : Config) (p : Place) : List String :=
  ((p.nzbdav env).bind (nzbdavRoot env legacy config p.service)).toList ++
    ((p.decypharr env).map (decypharrRoot env config)).toList

def categories (p : Place) : List String :=
  ((p.nzbdav env).map (·.category)).toList ++ ((p.decypharr env).map (·.name)).toList

/-- Different instances share nothing, and an instance of both has one root folder. -/
structure RootsApart (legacy : Bool) (config : Config) : Prop where
  apart : ∀ p q : Place, p.In config → q.In config → (p.service ≠ q.service ∨ p.name env ≠ q.name env) →
    (∀ root ∈ roots env legacy config p, root ∉ roots env legacy config q) ∧
      ∀ category ∈ categories env p, category ∉ categories env q
  same : ∀ p : Place, p.In config → ∀ n d, p.nzbdav env = some n → p.decypharr env = some d →
    nzbdavRoot env legacy config p.service n = some (decypharrRoot env config d)

end

/-! ## Slugs -/

/-- What is used of Python's texts: blanks at the ends are taken off once for all, lower case is taken character by
character beside a hyphen and stays lower case, and letters and digits are no blanks. -/
structure Lawful (env : Env) : Prop where
  strip_strip : ∀ s, env.text.strip (env.text.strip s) = env.text.strip s
  strip_label : ∀ service ∈ arrServices, ∀ s, env.text.strip s = s →
    env.text.strip (service ++ "-" ++ s) = service ++ "-" ++ s
  strip_safe : ∀ s, (∀ c ∈ s.toList, env.isalnum c = true ∨ c = '-' ∨ c = '_') → env.text.strip s = s
  lower_label : ∀ service ∈ arrServices, ∀ s, env.text.lower (service ++ "-" ++ s) = service ++ "-" ++ env.text.lower s
  lower_lowered : ∀ s, (∀ c ∈ s.toList, c = '-' ∨ ∃ t, c ∈ (env.text.lower t).toList) → env.text.lower s = s
  isalnum_ascii : ∀ c, c.toNat < 128 → env.isalnum c = c.isAlphanum

def nameWords (env : Env) (name : String) : List (List Char) :=
  Slug.words '-' ((env.text.lower name).toList.map (safeChar env))

section
variable {env : Env} (hlaws : Lawful env) {service : String} (hservice : service ∈ arrServices)

theorem service_chars (hservice : service ∈ arrServices) :
    service.toList ≠ [] ∧ ∀ c ∈ service.toList, c.toNat < 128 ∧ c.isAlphanum = true := by
  have hall : arrServices.all (fun s =>
      !s.toList.isEmpty && s.toList.all fun c => decide (c.toNat < 128) && c.isAlphanum) = true := by decide
  have hone := List.all_eq_true.1 hall service hservice
  simpa using hone

theorem service_plain (hservice : service ∈ arrServices) : Plain service ∧ asciiLower service = service := by
  simp only [arrServices, List.mem_cons, List.not_mem_nil, or_false] at hservice
  rcases hservice with rfl | rfl | rfl | rfl
  all_goals exact ⟨by decide, by decide⟩

theorem not_mem_service (hservice : service ∈ arrServices) {c : Char} (hc : c.isAlphanum = false) : c ∉ service.toList := by
  intro hmem
  have hchar := ((service_chars hservice).2 c hmem).2
  rw [hc] at hchar
  cases hchar

include hlaws in
theorem safeChar_service (hservice : service ∈ arrServices) : service.toList.map (safeChar env) = service.toList := by
  conv_rhs => rw [← List.map_id service.toList]
  refine List.map_congr_left fun c hc => ?_
  obtain ⟨hascii, halnum⟩ := (service_chars hservice).2 c hc
  simp [safeChar, hlaws.isalnum_ascii c hascii, halnum]

theorem nameWords_spec (name : String) : ∀ word ∈ nameWords env name, '-' ∉ word := by
  intro word hword
  exact not_mem_splitOn '-' _ word (List.mem_filter.1 hword).1

include hlaws hservice in
theorem slugifyCategory_label {name : String} (hname : env.text.strip name = name) :
    slugifyCategory env (service ++ "-" ++ name) =
      String.ofList (['-'].intercalate (service.toList :: nameWords env name)) := by
  have hne : service ++ "-" ++ env.text.lower name ≠ "" := by
    intro h
    have hnil := congrArg String.toList h
    simp at hnil
  have hdash : safeChar env '-' = '-' := by simp [safeChar]
  rw [slugifyCategory]
  simp only [hlaws.strip_label service hservice name hname, hlaws.lower_label service hservice, hne, ↓reduceIte]
  rw [Slug.mergeAll_trim]
  simp only [String.toList_append, List.map_append, safeChar_service hlaws hservice]
  have hcons : service.toList ++ List.map (safeChar env) "-".toList ++ (env.text.lower name).toList.map (safeChar env) =
      service.toList ++ '-' :: (env.text.lower name).toList.map (safeChar env) := by simp [hdash]
  rw [hcons, Slug.words_word_append (service_chars hservice).1 (not_mem_service hservice (by decide)), nameWords]

def slugText (env : Env) (service name : String) : String :=
  String.ofList (['-'].intercalate (service.toList :: nameWords env name))

theorem slugText_ne (hservice : service ∈ arrServices) (name : String) : slugText env service name ≠ "" := by
  intro h
  have hnil := congrArg String.toList h
  rw [slugText, String.toList_ofList] at hnil
  cases hwords : nameWords env name with
  | nil => simp [hwords, (service_chars hservice).1] at hnil
  | cons word words => simp [hwords, List.intercalate_cons_cons] at hnil

include hlaws hservice in
theorem slugOf_eq {name : String} (hname : env.text.strip name = name) : slugOf env service name = slugText env service name := by
  have hlabel : slugifyCategory env (service ++ "-" ++ name) = slugText env service name :=
    slugifyCategory_label hlaws hservice hname
  rw [slugOf, hlabel]
  exact if_pos (slugText_ne hservice name)

theorem slugText_chars (name : String) : ∀ c ∈ (slugText env service name).toList,
    c = '-' ∨ c ∈ service.toList ∨ ((env.isalnum c = true ∨ c = '_') ∧ c ∈ (env.text.lower name).toList) := by
  intro c hc
  rw [slugText, String.toList_ofList] at hc
  obtain hc | ⟨word, hword, hc⟩ := Slug.mem_intercalate hc
  · exact .inl hc
  · rcases List.mem_cons.1 hword with rfl | hword
    · exact .inr (.inl hc)
    · have hmem := Slug.mem_of_mem_splitOn word (List.mem_filter.1 hword).1 hc
      obtain ⟨d, hd, rfl⟩ := List.mem_map.1 hmem
      by_cases hsafe : (env.isalnum d || d = '-' || d = '_') = true
      · have heq : safeChar env d = d := by rw [safeChar, if_pos hsafe]
        rw [heq]
        simp only [Bool.or_eq_true, decide_eq_true_eq] at hsafe
        rcases hsafe with (halnum | hdash) | hlow
        · exact .inr (.inr ⟨.inl halnum, hd⟩)
        · exact .inl hdash
        · exact .inr (.inr ⟨.inr hlow, hd⟩)
      · exact .inl (by rw [safeChar, if_neg hsafe])

include hlaws hservice in
theorem lower_slugText (name : String) :
    env.text.lower (env.text.strip (slugText env service name)) = slugText env service name := by
  have hstrip : env.text.strip (slugText env service name) = slugText env service name := by
    apply hlaws.strip_safe
    intro c hc
    rcases slugText_chars name c hc with rfl | hc | ⟨halnum | hlow, -⟩
    · exact .inr (.inl rfl)
    · obtain ⟨hascii, halnum⟩ := (service_chars hservice).2 c hc
      exact .inl (by rw [hlaws.isalnum_ascii c hascii, halnum])
    · exact .inl halnum
    · exact .inr (.inr hlow)
  rw [hstrip]
  apply hlaws.lower_lowered
  intro c hc
  rcases slugText_chars name c hc with rfl | hc | ⟨-, hlower⟩
  · exact .inl rfl
  · refine .inr ⟨service ++ "-" ++ "", ?_⟩
    rw [hlaws.lower_label service hservice]
    simp [hc]
  · exact .inr ⟨name, hlower⟩

include hlaws hservice in
theorem slash_not_mem_slugText (name : String) : '/' ∉ (slugText env service name).toList := by
  intro hc
  rcases slugText_chars name '/' hc with hdash | hc | ⟨halnum | hlow, -⟩
  · exact absurd hdash (by decide)
  · exact not_mem_service hservice (by decide) hc
  · rw [hlaws.isalnum_ascii '/' (by decide)] at halnum
    exact absurd halnum (by decide)
  · exact absurd hlow (by decide)

theorem slugText_inj {service' name name' : String} (hservice : service ∈ arrServices) (hservice' : service' ∈ arrServices) :
    slugText env service name = slugText env service' name' ↔ service = service' ∧ nameWords env name = nameWords env name' := by
  have hdash {service : String} (hservice : service ∈ arrServices) (name : String) :
      ∀ word ∈ service.toList :: nameWords env name, '-' ∉ word := by
    intro word hword
    rcases List.mem_cons.1 hword with rfl | hword
    · exact not_mem_service hservice (by decide)
    · exact nameWords_spec name word hword
  constructor
  · intro h
    rw [slugText, slugText, String.ofList_inj] at h
    have hwords := Slug.intercalate_inj (hdash hservice name) (hdash hservice' name') (by simp) (by simp) h
    rw [List.cons.injEq, String.toList_inj] at hwords
    exact hwords
  · rintro ⟨rfl, hwords⟩
    rw [slugText, slugText, hwords]

theorem colon_not_mem_slugText (hlaws : Lawful env) (hservice : service ∈ arrServices) (name : String) :
    ':' ∉ (slugText env service name).toList := by
  intro hc
  rcases slugText_chars name ':' hc with hdash | hc | ⟨halnum | hlow, -⟩
  · exact absurd hdash (by decide)
  · exact not_mem_service hservice (by decide) hc
  · rw [hlaws.isalnum_ascii ':' (by decide)] at halnum
    exact absurd halnum (by decide)
  · exact absurd hlow (by decide)

theorem slugText_empty (env : Env) (service : String) : slugText env service "" = service := by
  have hlower : env.text.lower "" = "" := env.text.lower_plain (show Plain "" by decide)
  have hwords : nameWords env "" = [] := by
    rw [nameWords, hlower]
    rfl
  rw [slugText, hwords]
  simp

/-! ## Labels -/

theorem partition_append {sep : Char} {first : String} (h : sep ∉ first.toList) (rest : String) :
    partition sep (first ++ String.singleton sep ++ rest) = (first, rest) := by
  have htake : ∀ c ∈ first.toList, (decide (c ≠ sep)) = true := by
    intro c hc
    simp only [decide_eq_true_eq]
    rintro rfl
    exact h hc
  have hlist : (first ++ String.singleton sep ++ rest).toList = first.toList ++ sep :: rest.toList := by simp
  rw [partition, hlist, List.takeWhile_append_of_pos htake, List.dropWhile_append_of_pos htake]
  simp

theorem partition_self {sep : Char} {s : String} (h : sep ∉ s.toList) : partition sep s = (s, "") := by
  have htake : ∀ c ∈ s.toList, (decide (c ≠ sep)) = true := by
    intro c hc
    simp only [decide_eq_true_eq]
    rintro rfl
    exact h hc
  rw [partition, List.takeWhile_eq_self_iff.2 htake, List.dropWhile_eq_nil_iff.2 htake]
  simp

def labelOf (service name : String) : String := if name ≠ "" then service ++ ":" ++ name else service

theorem partition_labelOf (hservice : service ∈ arrServices) (name : String) :
    partition ':' (labelOf service name) = (service, name) := by
  have hcolon : ':' ∉ service.toList := not_mem_service hservice (by decide)
  rw [labelOf]
  split
  · exact partition_append hcolon name
  · rename_i hname
    rw [partition_self hcolon, not_not.1 hname]

theorem labelOf_inj {service' name name' : String} (hservice : service ∈ arrServices) (hservice' : service' ∈ arrServices)
    (h : labelOf service name = labelOf service' name') : service = service' ∧ name = name' := by
  have hparts := congrArg (partition ':') h
  rw [partition_labelOf hservice, partition_labelOf hservice', Prod.mk.injEq] at hparts
  exact hparts

theorem slugText_eq_labelOf (hlaws : Lawful env) {service' name name' : String} (hservice : service ∈ arrServices)
    (hservice' : service' ∈ arrServices) : slugText env service name = labelOf service' name' ↔
      name' = "" ∧ service = service' ∧ nameWords env name = nameWords env name' := by
  rw [labelOf]
  by_cases hname : name' = ""
  · subst hname
    have hself := slugText_empty env service'
    rw [if_neg (by simp), ← hself, slugText_inj hservice hservice', hself]
    simp
  · rw [if_pos hname]
    constructor
    · intro h
      refine absurd ?_ (colon_not_mem_slugText hlaws hservice name)
      rw [h]
      simp
    · intro h
      exact absurd h.1 hname

/-! ## What is derived -/

theorem Place.strip_name (hlaws : Lawful env) (p : Place) : env.text.strip (p.name env) = p.name env := hlaws.strip_strip _

section
variable {legacy : Bool} {config : Config} {p : Place}

variable {n : NzbdavEntry}

theorem Place.nzbdav_eq (hlaws : Lawful env) (hservice : p.service ∈ arrServices)
    (h : p.nzbdav env = some n) : n.inst = p.name env ∧ n.category = slugText env p.service (p.name env) := by
  rw [Place.nzbdav, nzbdavEntry] at h
  split at h
  · cases h
  · split at h
    · cases h
    · split at h
      · cases h
      · dsimp only at h
        split at h
        · cases h
        · cases h
          exact ⟨rfl, slugOf_eq hlaws hservice (p.strip_name hlaws)⟩

variable {d : DecypharrEntry}

theorem Place.decypharr_eq (h : p.decypharr env = some d) :
    d.name = labelOf p.service (p.name env) := by
  rw [Place.decypharr, decypharrEntry] at h
  split at h
  · cases h
  · split at h
    · cases h
    · cases h
      rfl

theorem Place.nzbdavRoot_eq (hlaws : Lawful env) (hservice : p.service ∈ arrServices)
    (h : p.nzbdav env = some n) : nzbdavRoot env legacy config p.service n =
      some (nzbdavBase env legacy config p.service (p.name env) ++ "/" ++ slugText env p.service (p.name env)) := by
  obtain ⟨hinst, hcategory⟩ := Place.nzbdav_eq hlaws hservice h
  have hslash : "/".toList.isPrefixOf (slugText env p.service (p.name env)).toList = false := by
    rw [Bool.eq_false_iff]
    intro hstart
    obtain ⟨rest, hrest⟩ := List.isPrefixOf_iff_prefix.1 hstart
    refine slash_not_mem_slugText hlaws hservice (p.name env) ?_
    rw [← hrest]
    simp
  rw [nzbdavRoot, hcategory, hinst]
  simp only [lower_slugText hlaws hservice, slugText_ne hservice, joinPath, hslash, Bool.false_eq_true, ↓reduceIte]

theorem Place.decypharrRoot_eq (hlaws : Lawful env) (hservice : p.service ∈ arrServices)
    (h : p.decypharr env = some d) : decypharrRoot env config d =
      decypharrBase env config p.service (p.name env) ++ "/" ++ slugText env p.service (p.name env) := by
  have hlower : env.text.lower (env.text.strip p.service) = p.service := by
    obtain ⟨hplain, hascii⟩ := service_plain hservice
    rw [env.text.strip_plain hplain, env.text.lower_plain hplain, hascii]
  rw [decypharrRoot, Place.decypharr_eq h, partition_labelOf hservice]
  simp only [hlower, p.strip_name hlaws, slugOf_eq hlaws hservice (p.strip_name hlaws)]

def bases (env : Env) (legacy : Bool) (config : Config) (p : Place) : List String :=
  ((p.nzbdav env).map fun _ => nzbdavBase env legacy config p.service (p.name env)).toList ++
    ((p.decypharr env).map fun _ => decypharrBase env config p.service (p.name env)).toList

theorem roots_eq (hlaws : Lawful env) (hservice : p.service ∈ arrServices) : roots env legacy config p =
    (bases env legacy config p).map fun base => base ++ "/" ++ slugText env p.service (p.name env) := by
  rw [roots, bases]
  cases hn : p.nzbdav env with
  | none =>
    cases hd : p.decypharr env with
    | none => rfl
    | some d => simp [Place.decypharrRoot_eq hlaws hservice hd]
  | some n =>
    cases hd : p.decypharr env with
    | none => simp [Place.nzbdavRoot_eq hlaws hservice hn]
    | some d => simp [Place.nzbdavRoot_eq hlaws hservice hn, Place.decypharrRoot_eq hlaws hservice hd]

theorem mem_categories (hlaws : Lawful env) (hservice : p.service ∈ arrServices) (category : String) :
    category ∈ categories env p ↔
      ((p.nzbdav env).isSome = true ∧ category = slugText env p.service (p.name env)) ∨
      ((p.decypharr env).isSome = true ∧ category = labelOf p.service (p.name env)) := by
  rw [categories]
  cases hn : p.nzbdav env with
  | none =>
    cases hd : p.decypharr env with
    | none => simp
    | some d => simp [Place.decypharr_eq hd]
  | some n =>
    cases hd : p.decypharr env with
    | none => simp [(Place.nzbdav_eq hlaws hservice hn).2]
    | some d => simp [(Place.nzbdav_eq hlaws hservice hn).2, Place.decypharr_eq hd]

theorem append_slash_inj {base base' part part' : String} (hpart : '/' ∉ part.toList) (hpart' : '/' ∉ part'.toList) :
    base ++ "/" ++ part = base' ++ "/" ++ part' ↔ base = base' ∧ part = part' := by
  constructor
  · intro h
    have hlist : base.toList ++ '/' :: part.toList = base'.toList ++ '/' :: part'.toList := by
      have htoList := congrArg String.toList h
      simpa using htoList
    rcases List.append_eq_append_iff.1 hlist with ⟨rest, hbase, hrest⟩ | ⟨rest, hbase, hrest⟩
    · cases rest with
      | nil =>
        simp only [List.append_nil, List.nil_append, List.cons.injEq, true_and] at hbase hrest
        exact ⟨(String.toList_inj.1 hbase).symm, String.toList_inj.1 hrest⟩
      | cons c rest =>
        rw [List.cons_append, List.cons.injEq] at hrest
        exact absurd (hrest.2 ▸ List.mem_append_right rest List.mem_cons_self) hpart
    · cases rest with
      | nil =>
        simp only [List.append_nil, List.nil_append, List.cons.injEq, true_and] at hbase hrest
        exact ⟨String.toList_inj.1 hbase, (String.toList_inj.1 hrest).symm⟩
      | cons c rest =>
        rw [List.cons_append, List.cons.injEq] at hrest
        exact absurd (hrest.2 ▸ List.mem_append_right rest List.mem_cons_self) hpart'
  · rintro ⟨rfl, rfl⟩
    rfl

/-- Two instances of one service have names of the same words, and both are in InfiniDysk, or are put under one folder, or
one is in InfiniDysk and the other, without a name, in Decypharr. -/
def Clash (env : Env) (legacy : Bool) (config : Config) (p q : Place) : Prop :=
  p.service = q.service ∧ nameWords env (p.name env) = nameWords env (q.name env) ∧
    ((∃ base ∈ bases env legacy config p, base ∈ bases env legacy config q) ∨
      ((p.nzbdav env).isSome = true ∧ (q.nzbdav env).isSome = true) ∨
      ((p.nzbdav env).isSome = true ∧ (q.decypharr env).isSome = true ∧ q.name env = "") ∨
      ((p.decypharr env).isSome = true ∧ (q.nzbdav env).isSome = true ∧ p.name env = ""))

theorem apart_iff (hlaws : Lawful env) {q : Place} (hp : p.service ∈ arrServices) (hq : q.service ∈ arrServices)
    (hdiffer : p.service ≠ q.service ∨ p.name env ≠ q.name env) :
    ((∀ root ∈ roots env legacy config p, root ∉ roots env legacy config q) ∧
      ∀ category ∈ categories env p, category ∉ categories env q) ↔ ¬Clash env legacy config p q := by
  have hslash := slash_not_mem_slugText hlaws hp (p.name env)
  have hslash' := slash_not_mem_slugText hlaws hq (q.name env)
  constructor
  · rintro ⟨hroots, hcategories⟩ ⟨hservice, hwords, hcase⟩
    have hslug : slugText env p.service (p.name env) = slugText env q.service (q.name env) :=
      (slugText_inj hp hq).2 ⟨hservice, hwords⟩
    rcases hcase with ⟨base, hbase, hbase'⟩ | ⟨hn, hn'⟩ | ⟨hn, hd, hname⟩ | ⟨hd, hn, hname⟩
    · refine hroots (base ++ "/" ++ slugText env p.service (p.name env)) ?_ ?_
      · rw [roots_eq hlaws hp]
        exact List.mem_map.2 ⟨base, hbase, rfl⟩
      · rw [roots_eq hlaws hq, hslug]
        exact List.mem_map.2 ⟨base, hbase', rfl⟩
    · exact hcategories _ ((mem_categories hlaws hp _).2 (.inl ⟨hn, rfl⟩))
        ((mem_categories hlaws hq _).2 (.inl ⟨hn', hslug⟩))
    · refine hcategories _ ((mem_categories hlaws hp _).2 (.inl ⟨hn, rfl⟩))
        ((mem_categories hlaws hq _).2 (.inr ⟨hd, ?_⟩))
      exact (slugText_eq_labelOf hlaws hp hq).2 ⟨hname, hservice, hwords⟩
    · refine hcategories _ ((mem_categories hlaws hp _).2 (.inr ⟨hd, rfl⟩))
        ((mem_categories hlaws hq _).2 (.inl ⟨hn, ?_⟩))
      exact ((slugText_eq_labelOf hlaws hq hp).2 ⟨hname, hservice.symm, hwords.symm⟩).symm
  · intro hclash
    constructor
    · intro root hroot hroot'
      rw [roots_eq hlaws hp] at hroot
      rw [roots_eq hlaws hq] at hroot'
      obtain ⟨base, hbase, rfl⟩ := List.mem_map.1 hroot
      obtain ⟨base', hbase', heq⟩ := List.mem_map.1 hroot'
      obtain ⟨rfl, hslug⟩ := (append_slash_inj hslash' hslash).1 heq
      obtain ⟨hservice, hwords⟩ := (slugText_inj hq hp).1 hslug
      exact hclash ⟨hservice.symm, hwords.symm, .inl ⟨_, hbase, hbase'⟩⟩
    · intro category hcategory hcategory'
      rcases (mem_categories hlaws hp _).1 hcategory with ⟨hn, hslug⟩ | ⟨hd, hlabel⟩
      · rcases (mem_categories hlaws hq _).1 hcategory' with ⟨hn', hslug'⟩ | ⟨hd', hlabel'⟩
        · obtain ⟨hservice, hwords⟩ := (slugText_inj hp hq).1 (hslug.symm.trans hslug')
          exact hclash ⟨hservice, hwords, .inr (.inl ⟨hn, hn'⟩)⟩
        · obtain ⟨hname, hservice, hwords⟩ := (slugText_eq_labelOf hlaws hp hq).1 (hslug.symm.trans hlabel')
          exact hclash ⟨hservice, hwords, .inr (.inr (.inl ⟨hn, hd', hname⟩))⟩
      · rcases (mem_categories hlaws hq _).1 hcategory' with ⟨hn', hslug'⟩ | ⟨hd', hlabel'⟩
        · obtain ⟨hname, hservice, hwords⟩ := (slugText_eq_labelOf hlaws hq hp).1 (hslug'.symm.trans hlabel)
          exact hclash ⟨hservice.symm, hwords.symm, .inr (.inr (.inr ⟨hd, hn', hname⟩))⟩
        · obtain ⟨hservice, hname⟩ := labelOf_inj hp hq (hlabel.symm.trans hlabel')
          exact hdiffer.elim (fun h => h hservice) (fun h => h hname)

theorem same_iff (hlaws : Lawful env) (hservice : p.service ∈ arrServices)
    (hn : p.nzbdav env = some n) (hd : p.decypharr env = some d) :
    nzbdavRoot env legacy config p.service n = some (decypharrRoot env config d) ↔
      "decypharr" ∈ instanceCoreServices env config p.service (p.name env) ∧
        "infinidysk" ∈ instanceCoreServices env config p.service (p.name env) := by
  have hnormal {service : String} (hplain : Plain service ∧ asciiLower service = service) :
      env.text.lower (env.text.strip service) = service := by
    rw [env.text.strip_plain hplain.1, env.text.lower_plain hplain.1, hplain.2]
  have hcombined {services : List String} (hd : "decypharr" ∈ services) (hi : "infinidysk" ∈ services) :
      usesCombinedRoot env services = true := by
    simp only [usesCombinedRoot, Bool.and_eq_true, Bool.or_eq_true, List.contains_iff_mem]
    exact ⟨List.mem_map.2 ⟨_, hd, hnormal ⟨by decide, by decide⟩⟩,
      .inl (List.mem_map.2 ⟨_, hi, hnormal ⟨by decide, by decide⟩⟩)⟩
  have hslash := slash_not_mem_slugText hlaws hservice (p.name env)
  rw [Place.nzbdavRoot_eq hlaws hservice hn, Place.decypharrRoot_eq hlaws hservice hd, Option.some.injEq,
    append_slash_inj hslash hslash, nzbdavBase, decypharrBase]
  generalize instanceCoreServices env config p.service (p.name env) = services
  simp only [Bool.and_eq_true, List.contains_iff_mem, and_true]
  constructor
  · intro h
    by_contra hboth
    rw [if_neg hboth] at h
    split at h
    · cases legacy <;> exact absurd h (by decide)
    · cases legacy <;> exact absurd h (by decide)
  · rintro ⟨hd, hi⟩
    rw [if_pos ⟨hd, hi⟩, hcombined hd hi, if_pos rfl]

end

end

/-- Roots and categories keep apart if and only if no two instances clash, and an instance of both modules is found under
its name as one of both. -/
theorem rootsApart_iff (env : Env) (hlaws : Lawful env) (legacy : Bool) (config : Config) :
    RootsApart env legacy config ↔
      (∀ p q : Place, p.In config → q.In config → (p.service ≠ q.service ∨ p.name env ≠ q.name env) →
        ¬Clash env legacy config p q) ∧
      ∀ p : Place, p.In config → (p.nzbdav env).isSome = true → (p.decypharr env).isSome = true →
        "decypharr" ∈ instanceCoreServices env config p.service (p.name env) ∧
          "infinidysk" ∈ instanceCoreServices env config p.service (p.name env) := by
  constructor
  · rintro ⟨hapart, hsame⟩
    refine ⟨fun p q hp hq hdiffer => (apart_iff hlaws hp.1 hq.1 hdiffer).1 (hapart p q hp hq hdiffer),
      fun p hp hn hd => ?_⟩
    obtain ⟨n, hn⟩ := Option.isSome_iff_exists.1 hn
    obtain ⟨d, hd⟩ := Option.isSome_iff_exists.1 hd
    exact (same_iff hlaws hp.1 hn hd).1 (hsame p hp n d hn hd)
  · rintro ⟨hapart, hsame⟩
    refine ⟨fun p q hp hq hdiffer => (apart_iff hlaws hp.1 hq.1 hdiffer).2 (hapart p q hp hq hdiffer),
      fun p hp n d hn hd => ?_⟩
    refine (same_iff hlaws hp.1 hn hd).2 (hsame p hp ?_ ?_)
    · simp [hn]
    · simp [hd]

/-! ## Samples -/

def asciiEnv : Env := ⟨.ascii, Char.isAlphanum, fun j => j.asInt, fun _ => "key"⟩

theorem not_isWhitespace {c : Char} (h : c.isAlphanum = true ∨ c = '-' ∨ c = '_') : c.isWhitespace = false := by
  rcases h with h | rfl | rfl
  · rw [Bool.eq_false_iff]
    intro hwhite
    simp only [Char.isWhitespace, Bool.or_eq_true, decide_eq_true_eq] at hwhite
    rcases hwhite with ((rfl | rfl) | rfl) | rfl
    all_goals exact absurd h (by decide)
  · decide
  · decide

theorem lawful_asciiEnv : Lawful asciiEnv where
  strip_strip := asciiStrip_asciiStrip
  strip_label := by
    intro service hservice s hs
    obtain ⟨hne, hchars⟩ := service_chars hservice
    have hback := (asciiStrip_eq_self.1 hs).2
    refine asciiStrip_eq_self.2 ⟨fun c hc => ?_, fun c hc => ?_⟩
    · have hmem : c ∈ service.toList := by
        cases hlist : service.toList with
        | nil => exact absurd hlist hne
        | cons d ds =>
          simp only [String.toList_append, hlist, List.cons_append, List.head?_cons, Option.mem_def, Option.some.injEq] at hc
          simp [hc]
      exact not_isWhitespace (.inl (hchars c hmem).2)
    · rw [String.toList_append, List.getLast?_append] at hc
      cases hlast : s.toList.getLast? with
      | some d =>
        rw [hlast] at hc hback
        simp only [Option.some_or, Option.mem_def, Option.some.injEq] at hc
        subst hc
        exact hback d rfl
      | none =>
        rw [hlast] at hc
        simp at hc
        subst hc
        decide
  strip_safe := by
    intro s h
    refine asciiStrip_eq_self.2 ⟨fun c hc => ?_, fun c hc => ?_⟩
    · exact not_isWhitespace (h c (List.mem_of_mem_head? hc))
    · exact not_isWhitespace (h c (List.mem_of_getLast? hc))
  lower_label := by
    intro service hservice s
    have hlower := (service_plain hservice).2
    simp only [asciiEnv, Text.ascii, asciiLower, String.toList_append, List.map_append, String.ofList_append]
    rw [← asciiLower, hlower]
    rfl
  lower_lowered := by
    intro s h
    simp only [asciiEnv, Text.ascii, asciiLower] at h ⊢
    have hmap : s.toList.map Char.toLower = s.toList := by
      conv_rhs => rw [← List.map_id s.toList]
      refine List.map_congr_left fun c hc => ?_
      rcases h c hc with rfl | ⟨t, ht⟩
      · decide
      · rw [String.toList_ofList] at ht
        obtain ⟨d, -, rfl⟩ := List.mem_map.1 ht
        exact toLower_toLower d
    rw [hmap, String.ofList_toList]
  isalnum_ascii _ _ := rfl

def linked (name : String) (services : List String) : Instance :=
  ⟨true, .arr (services.map .str), .null, name, "", .int 8989, .null, "/sonarr/config.xml"⟩

def sonarrOnly (instances : Dict String Instance) : Config := [("sonarr", instances)]

theorem Place.in_sonarrOnly {instances : Dict String Instance} {p : Place} (h : p.In (sonarrOnly instances)) :
    p.service = "sonarr" ∧ (p.key, p.inst) ∈ instances := by
  obtain ⟨-, hin⟩ := h
  by_cases hservice : "sonarr" = p.service
  · rw [instancesOf, sonarrOnly, ← hservice] at hin
    exact ⟨hservice.symm, hin⟩
  · simp [instancesOf, sonarrOnly, Dict.get?, hservice] at hin

theorem rootsApart_two : RootsApart asciiEnv false
    (sonarrOnly [("a", linked "tv" ["infinidysk", "decypharr"]), ("b", linked "anime" ["infinidysk"])]) := by
  refine (rootsApart_iff asciiEnv lawful_asciiEnv false _).2 ⟨?_, ?_⟩
  · rintro ⟨service, key, inst⟩ ⟨service', key', inst'⟩ hp hq hdiffer ⟨-, hwords, -⟩
    obtain ⟨rfl, hp⟩ := Place.in_sonarrOnly hp
    obtain ⟨rfl, hq⟩ := Place.in_sonarrOnly hq
    simp only [List.mem_cons, Prod.mk.injEq, List.not_mem_nil, or_false] at hp hq
    rcases hp with ⟨rfl, rfl⟩ | ⟨rfl, rfl⟩
    all_goals rcases hq with ⟨rfl, rfl⟩ | ⟨rfl, rfl⟩
    · simp at hdiffer
    · exact absurd hwords (by decide)
    · exact absurd hwords (by decide)
    · simp at hdiffer
  · rintro ⟨service, key, inst⟩ hp hn hd
    obtain ⟨rfl, hp⟩ := Place.in_sonarrOnly hp
    simp only [List.mem_cons, Prod.mk.injEq, List.not_mem_nil, or_false] at hp
    rcases hp with ⟨rfl, rfl⟩ | ⟨rfl, rfl⟩
    · decide +kernel
    · exact absurd hd (by decide +kernel)

/-- `4K` and `4k` share the root folder and the category. -/
theorem roots_shared :
    (categories asciiEnv ⟨"sonarr", "a", linked "4K" ["infinidysk"]⟩ = ["sonarr-4k"] ∧
      categories asciiEnv ⟨"sonarr", "b", linked "4k" ["infinidysk"]⟩ = ["sonarr-4k"] ∧
      ¬RootsApart asciiEnv false (sonarrOnly [("a", linked "4K" ["infinidysk"]), ("b", linked "4k" ["infinidysk"])])) ∧
    roots asciiEnv false (sonarrOnly [("tv", linked "old" []), ("b", linked "tv" ["infinidysk", "decypharr"])])
        ⟨"sonarr", "b", linked "tv" ["infinidysk", "decypharr"]⟩ =
      ["/mnt/debrid/infinidysk-symlinks/sonarr-tv", "/mnt/debrid/decypharr_symlinks/sonarr-tv"] := by
  refine ⟨⟨by decide +kernel, by decide +kernel, fun h => ?_⟩, by decide +kernel⟩
  have hin : Place.In (sonarrOnly [("a", linked "4K" ["infinidysk"]), ("b", linked "4k" ["infinidysk"])])
      ⟨"sonarr", "a", linked "4K" ["infinidysk"]⟩ := ⟨by decide, List.mem_cons_self⟩
  have hin' : Place.In (sonarrOnly [("a", linked "4K" ["infinidysk"]), ("b", linked "4k" ["infinidysk"])])
      ⟨"sonarr", "b", linked "4k" ["infinidysk"]⟩ := ⟨by decide, List.mem_cons_of_mem _ List.mem_cons_self⟩
  have hcategories := (h.apart _ _ hin hin' (.inr (by decide +kernel))).2 "sonarr-4k" (by decide +kernel)
  exact absurd hcategories (by decide +kernel)

end Dumb.Arrs
