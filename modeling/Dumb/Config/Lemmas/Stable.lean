import Dumb.Config.Shipped
import Dumb.Config.Lemmas.Migrations

/-!
# The second update

What the first update left, read back and laid over the shipped defaults, is what it was.
-/

namespace Dumb.Config

open Py Py.Json

variable {text : Text}

/-! ## The shipped defaults -/

def plainTokens (members : List (String × Json)) : Bool := members.all fun m =>
  match m.2 with
  | .str s => m.1 ∉ ["core_service", "key_type"] || s ∈ ["", "RealDebrid"]
  | .arr _ => m.1 ≠ "core_services"
  | _ => true

def trimmed : List (String × Json) :=
  modify "decypharr" (fun members => Dict.erase "dfs" (Dict.erase "mount_type" members)) Shipped.config

theorem shipped_shaped : shaped (.obj Shipped.config) = true := by decide +kernel

theorem shipped_off : every selectorOff (.obj Shipped.config) = true := by decide +kernel

theorem trimmed_off : every selectorOff (.obj trimmed) = true := by decide +kernel

theorem shipped_plain : every plainTokens (.obj Shipped.config) = true := by decide +kernel

theorem trimmed_plain : every plainTokens (.obj trimmed) = true := by decide +kernel

theorem shipped_keys : (Dict.keys Shipped.config).contains infinidyskKey = true ∧
    (Dict.keys Shipped.config).contains infinidyskLegacyKey = false := by decide +kernel

theorem shapedMembers_iff : ∀ {members : List (String × Json)}, shaped.ofMembers members = true ↔
    ∀ m ∈ members, (if m.1 = "instances" then shaped.ofInstances m.2 else if m.1 = "env" then flat m.2
      else shaped m.2) = true
  | [] => by simp [shaped.ofMembers]
  | m :: members => by simp [shaped.ofMembers, @shapedMembers_iff members]

variable {k : String}

theorem nodup_erase : ∀ {ms : List (String × Json)}, (Dict.keys ms).Nodup →
    (Dict.keys (Dict.erase k ms)).Nodup
  | [], _ => .nil
  | (q, u) :: ms, h => by
    obtain ⟨hnot, h'⟩ := List.nodup_cons.1 h
    simp only [Dict.erase]
    split
    · exact nodup_erase h'
    · refine List.nodup_cons.2 ⟨fun hmem => hnot ?_, nodup_erase h'⟩
      obtain ⟨m, hm, hq⟩ := List.mem_map.1 hmem
      exact List.mem_map.2 ⟨m, Dict.mem_erase hm, hq⟩

theorem shaped_erase {ms : List (String × Json)} (h : shaped (.obj ms) = true) :
    shaped (.obj (Dict.erase k ms)) = true := by
  simp only [shaped, Bool.and_eq_true, decide_eq_true_eq, shapedMembers_iff] at h ⊢
  exact ⟨nodup_erase h.1, fun m hm => h.2 m (Dict.mem_erase hm)⟩

variable {f : List (String × Json) → List (String × Json)}

theorem shaped_modify {ds : List (String × Json)}
    (hi : k ≠ "instances") (he : k ≠ "env") (hf : ∀ ms, shaped (.obj ms) = true → shaped (.obj (f ms)) = true)
    (h : shaped (.obj ds) = true) : shaped (.obj (modify k f ds)) = true := by
  unfold modify
  split
  · rename_i ms hk
    have hms := shaped_value h hk hi he
    simp only [shaped, Bool.and_eq_true, decide_eq_true_eq, shapedMembers_iff] at h ⊢
    refine ⟨Dict.nodup_keys_set h.1, fun m hm => ?_⟩
    rcases Dict.mem_set hm with rfl | hm
    · simpa [hi, he] using hf ms hms
    · exact h.2 m hm
  · exact h

theorem trimmed_shaped : shaped (.obj trimmed) = true :=
  shaped_modify (by decide) (by decide) (fun _ h => shaped_erase (shaped_erase h)) shipped_shaped

theorem keys_modify {ds : List (String × Json)} :
    Dict.keys (modify k f ds) = Dict.keys ds := by
  unfold modify
  split
  · rename_i ms hk
    exact Dict.keys_set _ _ _ (Dict.mem_keys.2 (by simp [hk]))
  · rfl

structure Template (ds : List (String × Json)) : Prop where
  shaped : shaped (.obj ds) = true
  off : every selectorOff (.obj ds) = true
  plain : every plainTokens (.obj ds) = true
  keys : Dict.keys ds = Dict.keys Shipped.config
  other : ∀ k, k ≠ "decypharr" → Dict.get? k ds = Dict.get? k Shipped.config

theorem template_shipped : Template Shipped.config :=
  ⟨shipped_shaped, shipped_off, shipped_plain, rfl, fun _ _ => rfl⟩

theorem template_trimmed : Template trimmed :=
  ⟨trimmed_shaped, trimmed_off, trimmed_plain, keys_modify, fun k hk => by rw [trimmed, get?_modify, if_neg hk]⟩

theorem trimDefault_template (existing : List (String × Json)) : Template (trimDefault text existing Shipped.config) := by
  unfold trimDefault
  split
  · exact template_trimmed
  · exact template_shipped

theorem Template.ne_nil {ds : List (String × Json)} (h : Template ds) : ds ≠ [] := by
  rintro rfl
  have hk := h.keys
  cases hk

theorem mapped_plain {j : Json} : every plainTokens j = true → ∀ k, plainTokens [(k, j)] = true → Mapped text k j := by
  induction j using Json.ind with
  | obj members ih =>
    intro h k _
    rw [every_obj] at h
    have hall := List.all_eq_true.1 h.1
    refine mapped_obj.2 fun m hm => ih m hm (h.2 m hm) m.1 ?_
    simpa [plainTokens] using hall m hm
  | arr items ih =>
    intro h k hk
    rw [every_arr] at h
    have hne : k ≠ "core_services" := by simpa [plainTokens] using hk
    rw [mapped_arr, if_neg hne]
    refine fun item hitem => ih item hitem (h item hitem) "" ?_
    cases item <;> simp [plainTokens]
  | leaf j harr hobj =>
    intro _ k hk
    cases j with
    | arr items => exact absurd rfl (harr items)
    | obj members => exact absurd rfl (hobj members)
    | str s =>
      by_cases hkey : k ∈ ["core_service", "key_type"]
      · have hs : s ∈ ["", "RealDebrid"] := by
          simp only [plainTokens, List.all_cons, List.all_nil, Bool.and_true, Bool.or_eq_true, decide_eq_true_eq] at hk
          exact hk.resolve_left fun hnot => hnot hkey
        simp only [List.mem_cons, List.not_mem_nil, or_false] at hs
        simp only [Mapped, mapChild, if_pos hkey]
        rcases hs with rfl | rfl <;> rw [mapTokens_plain (by decide)]
      · simp only [Mapped, mapChild, if_neg hkey]
    | _ => rfl

/-! ## The services the migrations look at -/

theorem shipped_bazarr : ∃ dms, Dict.get? "bazarr" Shipped.config = some (.obj dms) ∧ dms ≠ [] ∧
    Dict.get? "config_file" dms = some (.str "/bazarr/data/config/config.yaml") :=
  ⟨_, rfl, nofun, rfl⟩

theorem shipped_mediastorm : ∃ dms, Dict.get? "mediastorm" Shipped.config = some (.obj dms) ∧ dms ≠ [] ∧
    Dict.get? "process_name" dms = some (.str "mediastorm") :=
  ⟨_, rfl, nofun, rfl⟩

theorem shipped_infinidysk : ∃ dms, Dict.get? infinidyskKey Shipped.config = some (.obj dms) ∧ dms ≠ [] ∧
    Dict.get? "repo_owner" dms = some (.str "infinidysk") ∧ Dict.get? "repo_name" dms = some (.str "infinidysk") :=
  ⟨_, rfl, nofun, rfl, rfl⟩

theorem shipped_decypharr : ∃ dms, Dict.get? "decypharr" Shipped.config = some (.obj dms) ∧
    Dict.get? "use_embedded_rclone" dms = none ∧ Dict.get? "mount_type" dms = some (.str "dfs") ∧
    Dict.get? "log_level" dms ≠ none :=
  ⟨_, rfl, rfl, rfl, nofun⟩

theorem shipped_arr : ∀ key ∈ arrKeys, ∃ name tms,
    Dict.get? key Shipped.config = some (.obj [("instances", .obj [(name, .obj tms)])]) ∧
    Dict.get? "postgres_enabled" tms ≠ none := by
  intro key hk
  simp only [arrKeys, List.mem_cons, List.not_mem_nil, or_false] at hk
  rcases hk with rfl | rfl | rfl | rfl | rfl <;> exact ⟨_, _, rfl, nofun⟩

theorem get?_migrateArr (hk : k ∉ arrKeys) (config : List (String × Json)) :
    Dict.get? k (migrateArr config) = Dict.get? k config := by
  unfold migrateArr
  revert hk
  generalize arrKeys = keys
  intro hk
  induction keys generalizing config with
  | nil => rfl
  | cons key keys ih =>
    rw [List.foldl_cons, ih _ fun hmem => hk (List.mem_cons_of_mem _ hmem), get?_modify,
      if_neg fun heq : k = key => hk (heq ▸ List.mem_cons_self)]

variable {config : List (String × Json)}

theorem migrateArr_self
    (h : ∀ key ∈ arrKeys, ∀ ms, Dict.get? key config = some (.obj ms) → SqliteKept ms) : migrateArr config = config := by
  unfold migrateArr
  revert h
  generalize arrKeys = keys
  intro h
  induction keys with
  | nil => rfl
  | cons key keys ih =>
    rw [List.foldl_cons, modify_self fun ms hms => h key List.mem_cons_self ms hms]
    exact ih fun k hk => h k (List.mem_cons_of_mem _ hk)

structure Quiet (text : Text) (config : List (String × Json)) : Prop where
  bazarr : ∀ ms, Dict.get? "bazarr" config = some (.obj ms) → bazarrMigrates ms = false
  mediastorm : ∀ ms, Dict.get? "mediastorm" config = some (.obj ms) → mediastormMigrates text ms = false
  infinidysk : ∀ ms, Dict.get? infinidyskKey config = some (.obj ms) → repositoryMigrates text ms = false
  decypharr : ∀ ms, Dict.get? "decypharr" config = some (.obj ms) → Dict.get? "use_embedded_rclone" ms = none
  arr : ∀ key ∈ arrKeys, ∀ ms, Dict.get? key config = some (.obj ms) → SqliteKept ms

theorem Quiet.migrates (h : Quiet text config) : migrates text config = false := by
  rw [Config.migrates, checks_false h.bazarr, checks_false h.mediastorm, checks_false h.infinidysk]
  rfl

theorem Quiet.migrate (h : Quiet text config) : migrate text config = config := by
  have hbazarr : modify "bazarr" migrateBazarr config = config :=
    modify_self fun ms hms => by simp [migrateBazarr, h.bazarr ms hms]
  have hmediastorm : modify "mediastorm" (migrateMediastorm text) config = config :=
    modify_self fun ms hms => by simp [migrateMediastorm, h.mediastorm ms hms]
  have hinfinidysk : modify infinidyskKey (migrateRepository text) config = config :=
    modify_self fun ms hms => by simp [migrateRepository, h.infinidysk ms hms]
  have hdecypharr : modify "decypharr" (migrateDecypharr text) config = config :=
    modify_self fun ms hms => decypharr_self (h.decypharr ms hms)
  rw [Config.migrate, hbazarr, hmediastorm, hinfinidysk, hdecypharr, migrateArr_self h.arr]

section
variable {existing ds cs : List (String × Json)}

theorem get?_migrate (existing : List (String × Json)) :
    Dict.get? "bazarr" (migrate text existing) = (Dict.get? "bazarr" existing).map (onObj migrateBazarr) ∧
    Dict.get? "mediastorm" (migrate text existing) =
      (Dict.get? "mediastorm" existing).map (onObj (migrateMediastorm text)) ∧
    Dict.get? infinidyskKey (migrate text existing) =
      (Dict.get? infinidyskKey existing).map (onObj (migrateRepository text)) := by
  refine ⟨?_, ?_, ?_⟩ <;> rw [migrate, get?_migrateArr (by decide)] <;> simp [get?_modify, infinidyskKey]

theorem onObj_obj {j : Option Json} {ms : List (String × Json)}
    (h : j.map (onObj f) = some (.obj ms)) : ∃ old, ms = f old := by
  cases j with
  | none => cases h
  | some j =>
    cases j with
    | obj old =>
      cases h
      exact ⟨old, rfl⟩
    | _ => cases h

theorem trimmed_decypharr : ∃ dms, Dict.get? "decypharr" trimmed = some (.obj dms) ∧ dms ≠ [] ∧
    Dict.get? "use_embedded_rclone" dms = none ∧ Dict.get? "mount_type" dms = none := by
  obtain ⟨dms, hd, hold, -, hlog⟩ := shipped_decypharr
  refine ⟨_, by rw [trimmed, get?_modify, if_pos rfl, hd]; rfl, ?_, ?_, ?_⟩
  · intro hnil
    have hget := congrArg (Dict.get? "log_level") hnil
    simp [Dict.get?_erase] at hget
    exact hlog hget
  · simp [Dict.get?_erase, hold]
  · simp [Dict.get?_erase]

theorem trimDefault_decypharr (existing : List (String × Json)) : ∃ dms,
    Dict.get? "decypharr" (trimDefault text existing Shipped.config) = some (.obj dms) ∧ dms ≠ [] ∧
      Dict.get? "use_embedded_rclone" dms = none := by
  unfold trimDefault
  split
  · obtain ⟨dms, hd, hne, hold, -⟩ := trimmed_decypharr
    exact ⟨dms, hd, hne, hold⟩
  · obtain ⟨dms, hd, hold, -, hlog⟩ := shipped_decypharr
    refine ⟨dms, hd, ?_, hold⟩
    rintro rfl
    exact hlog rfl

theorem Node.quiet (ht : Template ds) (h : Node Fits ds (Config.migrate text existing) cs)
    (hdec : ∃ dms, Dict.get? "decypharr" ds = some (.obj dms) ∧ dms ≠ [] ∧
      Dict.get? "use_embedded_rclone" dms = none) : Quiet text cs := by
  obtain ⟨hb, hm, hi⟩ := @get?_migrate text existing
  refine ⟨?_, ?_, ?_, ?_, ?_⟩
  · obtain ⟨dms, hd, hne, hfile⟩ := shipped_bazarr
    rw [← ht.other _ (by decide)] at hd
    refine h.service hd (by decide) (by decide) hne (by simp [bazarrMigrates, field, hfile, isStr]) ?_
    intro ws vs hw hnode
    rw [hb] at hw
    obtain ⟨old, rfl⟩ := onObj_obj hw
    exact bazarr_mix hnode hfile (by decide) (bazarr_migrated old)
  · obtain ⟨dms, hd, hne, hname⟩ := shipped_mediastorm
    rw [← ht.other _ (by decide)] at hd
    refine h.service hd (by decide) (by decide) hne (by simp [mediastormMigrates, field, hname, isStr]) ?_
    intro ws vs hw hnode
    rw [hm] at hw
    obtain ⟨old, rfl⟩ := onObj_obj hw
    exact mediastorm_mix hnode hname (mediastorm_migrated old)
  · obtain ⟨dms, hd, hne, howner, hname⟩ := shipped_infinidysk
    rw [← ht.other _ (by decide)] at hd
    refine h.service hd (by decide) (by decide) hne (by simp [repositoryMigrates, field, howner, casefold_name]) ?_
    intro ws vs hw hnode
    rw [hi] at hw
    obtain ⟨old, rfl⟩ := onObj_obj hw
    exact repository_mix hnode howner hname (repository_migrated old)
  · obtain ⟨dms, hd, hne, hold⟩ := hdec
    exact h.service hd (by decide) (by decide) hne hold fun ws vs _ hnode => hnode.lacks hold
  · intro key hk
    obtain ⟨name, tms, hd, hpg⟩ := shipped_arr key hk
    have hne : key ≠ "decypharr" ∧ key ≠ "instances" ∧ key ≠ "env" := by
      simp only [arrKeys, List.mem_cons, List.not_mem_nil, or_false] at hk
      rcases hk with rfl | rfl | rfl | rfl | rfl <;> decide
    rw [← ht.other _ hne.1] at hd
    have hsome : [("instances", Json.obj [(name, .obj tms)])] ≠ [] := List.cons_ne_nil _ _
    refine h.service hd hne.2.1 hne.2.2 hsome ?_ fun ws vs _ hnode => arr_mix hnode rfl hpg
    refine sqliteKept_of fun instances hinst m hm => ?_
    cases hinst
    obtain rfl : m = (name, .obj tms) := by simpa using hm
    apply keepSqlite_self
    intro ms hms
    cases hms
    exact hpg

theorem blank_null : text.blank .null = true := by
  simp [Text.blank, Text.orEmpty, truthy, text.strip_plain (show Plain "" by decide)]

theorem Node.trim (h : Node Fits (trimDefault text existing Shipped.config) existing cs) :
    trimDefault text cs Shipped.config = trimDefault text existing Shipped.config := by
  have hsame : checks "decypharr" (blankMountType text) cs = checks "decypharr" (blankMountType text) existing := by
    cases hc : checks "decypharr" (blankMountType text) existing with
    | true =>
      -- the mount type was blank: the result has none
      rw [trimDefault, hc] at h
      obtain ⟨dms, hd, hne, -, hmount⟩ := trimmed_decypharr
      unfold checks at hc
      split at hc
      · rename_i ws hw
        obtain ⟨v, hv⟩ := h.get? hd
        obtain ⟨vs, rfl, hnode⟩ := (h.value _ _ _ _ hd (by decide) (by simp) hw hv).to_node hne
        simp [checks, hv, blankMountType, field, hnode.lacks hmount, blank_null]
      · cases hc
    | false =>
      rw [trimDefault, hc] at h
      obtain ⟨dms, hd, -, hmount, hlog⟩ := shipped_decypharr
      have hne : dms ≠ [] := by
        rintro rfl
        exact hlog rfl
      refine checks_false (h.service hd (by decide) (by decide) hne ?_ fun ws vs hw hnode => ?_)
      · simpa [blankMountType, field, hmount] using text.not_blank_plain (show Plain "dfs" by decide) (by decide)
      · have hfield := hnode.scalar hmount rfl (by decide) (by decide)
        simp only [checks, hw, blankMountType, field] at hc
        cases hm : Dict.get? "mount_type" ws with
        | none => simp [hm, blank_null] at hc
        | some m => simpa [blankMountType, field, hfield, hm] using hc
  rw [trimDefault, trimDefault, hsame]

end

end Dumb.Config
