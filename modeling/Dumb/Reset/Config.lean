import Dumb.Lib.Rewriting
import Dumb.Lib.Text

/-!
# The configuration of a reset instance

From `service_reset.py`. The set of the identity fields has no order of its own, so the order in which a run
goes through it is a parameter.
-/

namespace Dumb.Reset

open Py Rewriting

abbrev Members := List (String × Json)

def identityFields : List String :=
  ["process_name", "port", "frontend_port", "backend_port", "config_dir", "install_dir", "config_file", "log_file",
    "access_log_file", "mount_dir", "mount_name", "cache_dir", "zurg_config_file", "key_type"]

/-! ## The code -/

/-- `sorted(replacements.items(), key=lambda item: len(item[0]), reverse=True)`. -/
def longestFirst (replacements : Dict String String) : List (String × String) :=
  replacements.insertionSort fun p q => q.1.length ≤ p.1.length

def replaceText (replacements : Dict String String) (value : String) : String :=
  (longestFirst replacements).foldl
    (fun updated p => if p.1 ≠ "" then Py.replace p.1 p.2 updated else updated) value

def replaceTemplateValues (replacements : Dict String String) : Json → Json := Json.mapStrings (replaceText replacements)

def oldNew (template current : Members) (field : String) : Option (String × String) :=
  match Dict.get? field template, Dict.get? field current with
  | some (.str old), some (.str new) => some (old, new)
  | _, _ => none

def collectField (template current : Members) (replacements : Dict String String) (field : String) : Dict String String :=
  match oldNew template current field with
  | some (old, new) => if old ≠ new then Dict.set old new replacements else replacements
  | none => replacements

/-- The replacements that `_reset_instance_config` collects from the fields in the given order. -/
def collect (template current : Members) (order : List String) : Dict String String :=
  order.foldl (collectField template current) []

def keepIdentity (current : Members) (order : List String) (reset : Members) : Members :=
  order.foldl (fun reset field =>
    match Dict.get? field current with
    | some value => Dict.set field value reset
    | none => reset) reset

def resetInstanceConfig (order : List String) (template current : Members) : Members :=
  let replacements := collect template current order
  let reset := template.map fun m => (m.1, replaceTemplateValues replacements m.2)
  Dict.set "enabled" (.bool false) (keepIdentity current order reset)

/-! ## What a reset is for -/

def texts (ps : List (String × String)) : List (List Char × List Char) :=
  (ps.filter fun p => p.1 ≠ "").map fun p => (p.1.toList, p.2.toList)

def identityValues (template current : Members) : List (List Char × List Char) :=
  texts (identityFields.filterMap (oldNew template current))

def rewriteText (ps : List (List Char × List Char)) (s : String) : String := String.ofList (rewritten ps s.toList)

def Kept (current : Members) (k : String) : Prop := k ∈ identityFields ∧ Dict.get? k current ≠ none

instance (current : Members) (k : String) : Decidable (Kept current k) := inferInstanceAs (Decidable (_ ∧ _))

/-- Whatever the order of the fields, the reset has the instance's identity, is disabled, and has the rest from the
template, with its identity values replaced once each, the longest first. -/
def Rebased (template current : Members) : Prop :=
  ∃ ps, Arranged (identityValues template current) ps ∧ ∀ order, order.Perm identityFields → ∀ k,
    Dict.get? k (resetInstanceConfig order template current) =
      if k = "enabled" then some (.bool false)
      else if Kept current k then Dict.get? k current
      else (Dict.get? k template).map (Json.mapStrings (rewriteText ps))

/-- In every text that is taken from the template, no search for a value that changes touches what is already written,
and values of one length, or fields with one value, leave no choice. -/
def Settled (template current : Members) : Prop :=
  ∀ k j, Dict.get? k template = some j → k ≠ "enabled" → ¬Kept current k → ∀ s ∈ j.strings,
    ∀ ps, Arranged (identityValues template current) ps →
      Untouched ps (fresh s.toList) ∧
        ∀ qs, Arranged (identityValues template current) qs → rewriteText ps s = rewriteText qs s

theorem get?_keepIdentity (current : Members) (k : String) : ∀ (order : List String) (reset : Members),
    Dict.get? k (keepIdentity current order reset) =
      if k ∈ order ∧ Dict.get? k current ≠ none then Dict.get? k current else Dict.get? k reset
  | [], reset => by simp [keepIdentity]
  | field :: order, reset => by
    have ih := get?_keepIdentity current k order
    rw [keepIdentity, List.foldl_cons, ← keepIdentity, ih]
    by_cases hk : k = field
    · subst hk
      cases hget : Dict.get? k current <;> simp
    · cases hget : Dict.get? field current <;> simp [hk, Dict.get?_set]

/-! ## The replacements -/

variable {template current : Members}

theorem collect_concat (order : List String) (field : String) :
    collect template current (order ++ [field]) = collectField template current (collect template current order) field := by
  rw [collect, List.foldl_concat, ← collect]

theorem nodup_collect (order : List String) : (Dict.keys (collect template current order)).Nodup := by
  induction order using List.reverseRecOn with
  | nil => exact List.nodup_nil
  | append_singleton order field ih =>
    rw [collect_concat, collectField]
    split
    · split
      · exact Dict.nodup_keys_set ih
      · exact ih
    · exact ih

variable {order : List String}

theorem mem_collect {p : String × String} (h : p ∈ collect template current order) :
    ∃ field ∈ order, oldNew template current field = some p ∧ p.1 ≠ p.2 := by
  induction order using List.reverseRecOn with
  | nil => exact absurd h List.not_mem_nil
  | append_singleton order field ih =>
    have hbefore : p ∈ collect template current order → ∃ f ∈ order ++ [field], oldNew template current f = some p ∧ p.1 ≠ p.2 :=
      fun hp => by
        obtain ⟨f, hf, hpair⟩ := ih hp
        exact ⟨f, List.mem_append_left _ hf, hpair⟩
    rw [collect_concat, collectField] at h
    split at h
    · next old new hfield =>
      split at h
      · next hne =>
        rcases Dict.mem_set h with rfl | hp
        · exact ⟨field, by simp, hfield, hne⟩
        · exact hbefore hp
      · exact hbefore h
    · exact hbefore h

theorem collected {field old new : String} (hfield : field ∈ order)
    (hpair : oldNew template current field = some (old, new)) (hne : old ≠ new) :
    old ∈ Dict.keys (collect template current order) := by
  induction order using List.reverseRecOn with
  | nil => exact absurd hfield List.not_mem_nil
  | append_singleton order f ih =>
    rw [collect_concat, collectField]
    rcases List.mem_append.1 hfield with hbefore | hlast
    · have hkey := ih hbefore
      split
      · next o n _ =>
        split
        · by_cases ho : o ∈ Dict.keys (collect template current order)
          · rwa [Dict.keys_set o n _ ho]
          · rw [Dict.keys_set_new o n _ ho]
            exact List.mem_append_left _ hkey
        · exact hkey
      · exact hkey
    · obtain rfl := List.mem_singleton.1 hlast
      simp only [hpair, ne_eq, hne, not_false_eq_true, if_true]
      exact Dict.mem_keys.2 (by simp)

/-! ## Replacing in one text -/

theorem replaceFrom_eq (old new : List Char) : ∀ (skip : Nat) (cs : List Char),
    Py.replaceFrom old new skip cs = Rewriting.replaceFrom old new skip cs
  | _, [] => by cases ‹Nat› <;> rfl
  | skip + 1, c :: cs => replaceFrom_eq old new skip cs
  | 0, c :: cs => by
    rw [Py.replaceFrom, Rewriting.replaceFrom, replaceFrom_eq old new _ cs, replaceFrom_eq old new _ cs]
    simp only [List.isPrefixOf_iff_prefix]

theorem replace_eq (old new s : String) :
    Py.replace old new s = String.ofList (Rewriting.replace old.toList new.toList s.toList) := by
  rw [Py.replace, replaceFrom_eq, Rewriting.replace]

theorem foldl_replace (ps : List (String × String)) (s : String) :
    ps.foldl (fun updated p => if p.1 ≠ "" then Py.replace p.1 p.2 updated else updated) s =
      String.ofList ((texts ps).foldl (fun t p => Rewriting.replace p.1 p.2 t) s.toList) := by
  induction ps generalizing s with
  | nil => simp [texts]
  | cons p ps ih =>
    rw [List.foldl_cons, ih]
    by_cases hp : p.1 = "" <;> simp [texts, hp, replace_eq]

variable {ps : List (String × String)}

theorem mem_texts {t : List Char × List Char} :
    t ∈ texts ps ↔ ∃ p ∈ ps, p.1 ≠ "" ∧ (p.1.toList, p.2.toList) = t := by
  simp [texts, and_assoc]

theorem nodup_texts (h : ps.Nodup) : (texts ps).Nodup := by
  refine (h.filter _).map fun p q hpq => ?_
  simp only [Prod.mk.injEq, String.toList_inj] at hpq
  exact Prod.ext hpq.1 hpq.2

theorem sorted_texts (h : ps.Pairwise fun p q => q.1.length ≤ p.1.length) :
    (texts ps).Pairwise fun p q => q.1.length ≤ p.1.length := by
  refine List.pairwise_map.2 ((h.filter _).imp fun {p q} hle => ?_)
  simpa only [String.length_toList] using hle

theorem exists_run (template current : Members) (hperm : order.Perm identityFields) :
    ∃ ps, Arranged (identityValues template current) ps ∧
      ∀ s, Untouched ps (fresh s.toList) → replaceText (collect template current order) s = rewriteText ps s := by
  have hsort := List.perm_insertionSort (fun p q : String × String => q.1.length ≤ p.1.length) (collect template current order)
  have hnodup : (collect template current order).Nodup := List.Nodup.of_map _ (nodup_collect order)
  have hmem : ∀ t ∈ texts (longestFirst (collect template current order)),
      t ∈ identityValues template current ∧ t.1 ≠ t.2 := by
    intro t ht
    obtain ⟨p, hp, hne, rfl⟩ := mem_texts.1 ht
    obtain ⟨field, hfield, hpair, hchange⟩ := mem_collect (hsort.mem_iff.1 hp)
    have hvalue : p ∈ identityFields.filterMap (oldNew template current) :=
      List.mem_filterMap.2 ⟨field, hperm.mem_iff.1 hfield, hpair⟩
    exact ⟨mem_texts.2 ⟨p, hvalue, hne, rfl⟩, by simpa [String.toList_inj] using hchange⟩
  have hall : ∀ t ∈ identityValues template current, t.1 ≠ t.2 →
      ∃ q ∈ texts (longestFirst (collect template current order)), q.1 = t.1 := by
    intro t ht hchange
    obtain ⟨p, hp, hne, rfl⟩ := mem_texts.1 ht
    obtain ⟨field, hfield, hpair⟩ := List.mem_filterMap.1 hp
    have hkey := collected (hperm.mem_iff.2 hfield) hpair (by simpa [String.toList_inj] using hchange)
    obtain ⟨q, hq, hqp⟩ := List.mem_map.1 hkey
    exact ⟨(q.1.toList, q.2.toList), mem_texts.2 ⟨q, hsort.mem_iff.2 hq, by rwa [hqp], rfl⟩, by rw [hqp]⟩
  have hne : ∀ t ∈ identityValues template current, t.1 ≠ [] := by
    intro t ht
    obtain ⟨p, _, hne, rfl⟩ := mem_texts.1 ht
    simpa using hne
  have hsorted : (longestFirst (collect template current order)).Pairwise fun p q => q.1.length ≤ p.1.length := by
    have : Std.Total fun p q : String × String => q.1.length ≤ p.1.length := ⟨fun p q => Nat.le_total _ _⟩
    have : IsTrans (String × String) fun p q => q.1.length ≤ p.1.length := ⟨fun p q r hpq hqr => hqr.trans hpq⟩
    exact List.pairwise_insertionSort _ _
  obtain ⟨ps, harranged, hrun⟩ := exists_arranged (sorted_texts hsorted) (nodup_texts (hsort.nodup_iff.2 hnodup)) hmem hall hne
  exact ⟨ps, harranged, fun s huntouched => by rw [replaceText, foldl_replace, hrun _ huntouched, rewriteText]⟩

/-! ## The reset -/

theorem reset_rebased (hsettled : Settled template current) : Rebased template current := by
  obtain ⟨ps, hps, _⟩ := exists_run template current (List.Perm.refl identityFields)
  refine ⟨ps, hps, fun order hperm k => ?_⟩
  obtain ⟨qs, hqs, hrun⟩ := exists_run template current hperm
  have hiff : k ∈ order ∧ Dict.get? k current ≠ none ↔ Kept current k := by rw [hperm.mem_iff, Kept]
  rw [resetInstanceConfig, Dict.get?_set, get?_keepIdentity]
  by_cases hk : k = "enabled"
  · rw [if_pos hk, if_pos hk]
  · rw [if_neg hk, if_neg hk, Dict.get?_map_values]
    by_cases hkept : Kept current k
    · rw [if_pos (hiff.2 hkept), if_pos hkept]
    · rw [if_neg (fun h => hkept (hiff.1 h)), if_neg hkept]
      cases hget : Dict.get? k template with
      | none => rfl
      | some j =>
        refine congrArg some (Json.mapStrings_congr fun s hs => ?_)
        obtain ⟨huntouched, hsame⟩ := hsettled k j hget hk hkept s hs qs hqs
        rw [hrun s huntouched, hsame ps hps]

theorem settled_of_lengths {ps : List (List Char × List Char)} (hps : Arranged (identityValues template current) ps)
    (hlength : ∀ p ∈ identityValues template current, ∀ q ∈ identityValues template current, p.1.length = q.1.length → p = q)
    (huntouched : ∀ m ∈ template, m.1 ≠ "enabled" → ¬Kept current m.1 → ∀ s ∈ m.2.strings, Untouched ps (fresh s.toList)) :
    Settled template current := by
  intro k j hget hk hkept s hs qs hqs
  have hunique : ∀ rs, Arranged (identityValues template current) rs → rs = ps := fun rs hrs => hrs.unique hlength hps
  rw [hunique qs hqs]
  exact ⟨huntouched (k, j) (Dict.mem_of_get? hget) hk hkept s hs, fun rs hrs => by rw [hunique rs hrs]⟩

def sonarrDefault : Members :=
  [("enabled", .bool true), ("process_name", .str "Sonarr"), ("port", .int 8989), ("config_dir", .str "/sonarr/default"),
    ("config_file", .str "/sonarr/default/config.xml"), ("api_key", .str ""),
    ("command", .arr [.str "/opt/sonarr/Sonarr", .str "-data=/sonarr/default"])]

def sonarrMovies : Members :=
  [("enabled", .bool true), ("process_name", .str "Movies"), ("port", .int 8990), ("config_dir", .str "/sonarr/movies"),
    ("config_file", .str "/sonarr/movies/config.xml"), ("api_key", .str "secret")]

theorem reset_rebased_sonarr : Settled sonarrDefault sonarrMovies ∧ Rebased sonarrDefault sonarrMovies := by
  have hsettled : Settled sonarrDefault sonarrMovies :=
    settled_of_lengths (arranged_insertionSort _) (by decide) (by decide)
  exact ⟨hsettled, reset_rebased hsettled⟩

def arrTemplate : Members :=
  [("process_name", .str "arr"), ("config_dir", .str "/config"), ("log_path", .str "/config/log")]

def arrMovies : Members := [("process_name", .str "movies"), ("config_dir", .str "/data/arr")]

/-- The directory of the instance holds the template's process name, which is then replaced in it. -/
theorem written_text_rewritten : ¬Rebased arrTemplate arrMovies := by
  rintro ⟨ps, hps, hreset⟩
  have hunique := hps.unique (by decide) (arranged_insertionSort (identityValues arrTemplate arrMovies))
  have hlog := hreset identityFields (List.Perm.refl _) "log_path"
  have hcode : Dict.get? "log_path" (resetInstanceConfig identityFields arrTemplate arrMovies) =
      some (.str "/data/movies/log") := rfl
  have hpurpose : rewriteText ((identityValues arrTemplate arrMovies).dedup.insertionSort Before) "/config/log" =
      "/data/arr/log" := by decide
  have htaken : Dict.get? "log_path" arrTemplate = some (.str "/config/log") := rfl
  rw [hcode, if_neg (by decide), if_neg (by decide), htaken, hunique] at hlog
  simp [Json.mapStrings, hpurpose] at hlog

end Dumb.Reset
