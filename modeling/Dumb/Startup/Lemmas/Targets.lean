import Dumb.Startup.Lemmas.Reservations

/-!
# The owners of a configuration

No two owners share a label or a place, every owner lies in a dict, and the seed pass claims a port for the
first owner that has it configured.
-/

namespace Dumb.Startup

open Py

def topLevelKeys : List String :=
  ["puid", "pgid", "tz", "data_root", "dumb", "traefik", "traefik_proxy_admin", "authelia", "cloudflared",
    "cli_debrid", "cli_battery", "decypharr", "infinidysk", "emby", "jellyfin", "lidarr", "phalanx_db", "plex",
    "tautulli", "bazarr", "pulsarr", "maintainerr", "aiostreams", "mediastorm", "altmount", "neutarr",
    "seerr_sync", "profilarr", "seerr", "postgres", "pgadmin", "prowlarr", "rclone", "riven_backend",
    "riven_frontend", "radarr", "sonarr", "whisparr", "zilean", "zurg"]

structure Loaded (config : Json) : Prop where
  distinct : config.Distinct
  keys : ∀ item ∈ items config, item.1 ∈ topLevelKeys

theorem topLevelKeys_plain : ∀ k ∈ topLevelKeys, ':' ∉ k.toList ∧ k ≠ "dumb_api_service" ∧ k ≠ "dumb_frontend" := by
  decide

/-! ## Labels -/

theorem split_at_first {α : Type} {c : α} : ∀ {l l' a b : List α}, c ∉ l → c ∉ l' → l ++ c :: a = l' ++ c :: b →
    l = l' ∧ a = b
  | [], [], _, _, _, _, h => ⟨rfl, (List.cons.inj h).2⟩
  | [], d :: _, _, _, _, h', h => absurd (List.cons.inj h).1 fun he => h' (he ▸ List.mem_cons_self)
  | d :: _, [], _, _, h', _, h => absurd (List.cons.inj h).1 fun he => h' (he ▸ List.mem_cons_self)
  | d :: l, e :: l', a, b, hl, hl', h => by
    obtain ⟨hd, ht⟩ := List.cons.inj h
    obtain ⟨hll, hab⟩ := split_at_first (fun hc => hl (List.mem_cons_of_mem _ hc))
      (fun hc => hl' (List.mem_cons_of_mem _ hc)) ht
    exact ⟨by rw [hd, hll], hab⟩

theorem label_inj {k k' a b : String} (hk : ':' ∉ k.toList) (hk' : ':' ∉ k'.toList)
    (h : k ++ ":" ++ a = k' ++ ":" ++ b) : k = k' ∧ a = b := by
  have hl : k.toList ++ ':' :: a.toList = k'.toList ++ ':' :: b.toList := by
    simpa using congrArg String.toList h
  obtain ⟨hk, ha⟩ := split_at_first hk hk' hl
  exact ⟨String.toList_inj.1 hk, String.toList_inj.1 ha⟩

theorem label_ne (k a : String) : k ++ ":" ++ a ≠ "" := by
  intro h
  have := congrArg String.toList h
  simp at this

def Labelled (k : String) (t : Target) : Prop := ∀ o ∈ t.owners, ∃ x, o = k ++ ":" ++ x

theorem separate_of_labels {k k' : String} {t t' : Target} (hk : ':' ∉ k.toList) (hk' : ':' ∉ k'.toList)
    (hne : k ≠ k') (ht : Labelled k t) (ht' : Labelled k' t') (hp : Json.Apart t.path t'.path) :
    t.Separate t' := by
  obtain ⟨x, hx⟩ := ht _ t.owner_mem
  obtain ⟨y, hy⟩ := ht' _ t'.owner_mem
  refine ⟨fun hmem => ?_, fun hmem => ?_, .inl hp⟩
  · obtain ⟨z, hz⟩ := ht' _ hmem
    exact hne (label_inj hk hk' (hx.symm.trans hz)).1
  · obtain ⟨z, hz⟩ := ht _ hmem
    exact hne (label_inj hk hk' (hz.symm.trans hy)).1

/-! ## One service -/

variable {key : String} {cfg : Json} {t : Target}

theorem mem_serviceTargets (h : t ∈ serviceTargets key cfg) :
    (∃ name inst, t = ⟨[key, "instances", name], "port", key ++ ":" ++ name⟩ ∧
      (name, inst) ∈ items (cfg.field "instances") ∧ isEnabled inst = true) ∨
    (∃ field, t = ⟨[key], field, key ++ ":" ++ field⟩ ∧ field ∈ portFields key ∧ isEnabled cfg = true) := by
  unfold serviceTargets at h
  split at h
  · rename_i instances hi
    obtain ⟨⟨name, inst⟩, hmem, heq⟩ := List.mem_filterMap.1 h
    split at heq
    · rename_i hen
      cases heq
      exact .inl ⟨name, inst, rfl, by simpa [hi, items] using hmem, hen⟩
    · cases heq
  · split at h
    · rename_i hen
      obtain ⟨field, hf, rfl⟩ := List.mem_map.1 h
      exact .inr ⟨field, rfl, hf, hen⟩
    · cases h

theorem portFields_traefik : portFields "traefik" = ["port"] := by decide

theorem serviceTargets_labelled (h : t ∈ serviceTargets key cfg) :
    Labelled key t ∧ t.Sound ∧ ∃ rest, t.path = key :: rest := by
  rcases mem_serviceTargets h with ⟨name, inst, rfl, -, -⟩ | ⟨field, rfl, hf, -⟩
  · refine ⟨?_, ⟨label_ne _ _, by simp [Target.isTraefik]⟩, _, rfl⟩
    intro o ho
    simp only [Target.owners, Target.isTraefik, List.cons.injEq, reduceCtorEq, and_false, decide_false,
      Bool.false_eq_true, ↓reduceIte, List.mem_singleton] at ho
    exact ⟨name, ho⟩
  · refine ⟨?_, ⟨label_ne _ _, ?_⟩, _, rfl⟩
    · intro o ho
      by_cases hkey : key = "traefik"
      · subst hkey
        simp only [Target.owners, Target.isTraefik, decide_true, ↓reduceIte, List.mem_cons, List.not_mem_nil,
          or_false] at ho
        rcases ho with rfl | rfl
        · exact ⟨field, rfl⟩
        · exact ⟨"dashboard", by decide⟩
      · simp only [Target.owners, Target.isTraefik, List.cons.injEq, hkey, and_true, decide_false,
          Bool.false_eq_true, ↓reduceIte, List.mem_singleton] at ho
        exact ⟨field, ho⟩
    · intro ht
      have hkey : key = "traefik" := by simpa [Target.isTraefik] using ht
      subst hkey
      rw [portFields_traefik, List.mem_singleton] at hf
      subst hf
      exact ⟨by decide, rfl⟩

theorem Distinct.instances (h : cfg.Distinct) {k : String} {ms : List (String × Json)}
    (hf : cfg.field k = .obj ms) : (Dict.keys ms).Nodup := by
  cases h with
  | obj hk hm =>
    simp only [Json.field] at hf
    rename_i members
    cases hg : Dict.get? k members with
    | none => rw [hg] at hf; cases hf
    | some v =>
      rw [hg] at hf
      have hv := hm _ (Dict.mem_of_get? hg)
      simp only [Option.getD_some] at hf
      subst hf
      cases hv with
      | obj hk _ => exact hk
  | _ => cases hf

theorem serviceTargets_pairwise (hk : ':' ∉ key.toList) (hd : cfg.Distinct) :
    (serviceTargets key cfg).Pairwise Target.Separate := by
  unfold serviceTargets
  split
  · rename_i instances hi
    have hn := Distinct.instances hd hi
    refine List.pairwise_filterMap.2 ((List.pairwise_map.1 hn).imp ?_)
    intro a b hab t ht t' ht'
    split at ht <;> cases ht
    split at ht' <;> cases ht'
    have hne : key ++ ":" ++ a.1 ≠ key ++ ":" ++ b.1 := fun h => hab (label_inj hk hk h).2
    exact ⟨by simpa [Target.owners, Target.isTraefik] using hne,
      by simpa [Target.owners, Target.isTraefik] using Ne.symm hne, .inl (.inr (.inr (.inl hab)))⟩
  · split
    · unfold portFields
      split
      · rename_i hkey
        subst hkey
        have hfields : ["frontend_port", "backend_port", "port"].Pairwise (· ≠ ·) := by decide
        refine List.pairwise_map.2 (hfields.imp ?_)
        intro a b hab
        have hne : "infinidysk" ++ ":" ++ a ≠ "infinidysk" ++ ":" ++ b := fun h => hab (label_inj hk hk h).2
        exact ⟨by simpa [Target.owners, Target.isTraefik] using hne,
          by simpa [Target.owners, Target.isTraefik] using Ne.symm hne,
          .inr ⟨rfl, hab, by simp [Target.isTraefik]⟩⟩
      · simp
    · exact .nil

/-! ## The whole configuration -/

theorem mem_dumbTargets (h : t ∈ dumbTargets cfg) :
    ∃ subkey ∈ ["api_service", "frontend"], t = ⟨["dumb", subkey], "port", "dumb_" ++ subkey ++ ":port"⟩ ∧
      isEnabled (cfg.field subkey) = true := by
  obtain ⟨subkey, hmem, heq⟩ := List.mem_filterMap.1 h
  split at heq
  · rename_i hen
    cases heq
    exact ⟨subkey, hmem, rfl, hen⟩
  · cases heq

theorem dumbTargets_labelled (h : t ∈ dumbTargets cfg) :
    t.Sound ∧ (∃ k ∈ ["dumb_api_service", "dumb_frontend"], Labelled k t) ∧ ∃ rest, t.path = "dumb" :: rest := by
  obtain ⟨subkey, hmem, rfl, -⟩ := mem_dumbTargets h
  refine ⟨⟨?_, by simp [Target.isTraefik]⟩, ⟨"dumb_" ++ subkey, ?_, ?_⟩, _, rfl⟩
  · intro he
    have := congrArg String.toList he
    simp at this
  · have hall : ∀ subkey ∈ ["api_service", "frontend"], "dumb_" ++ subkey ∈ ["dumb_api_service", "dumb_frontend"] := by
      decide
    exact hall subkey hmem
  · intro o ho
    simp only [Target.owners, Target.isTraefik, List.cons.injEq, reduceCtorEq, and_false, decide_false,
      Bool.false_eq_true, ↓reduceIte, List.mem_singleton] at ho
    exact ⟨"port", by rw [ho, String.append_assoc, String.append_assoc, String.append_assoc]; rfl⟩

theorem dumbTargets_pairwise (cfg : Json) : (dumbTargets cfg).Pairwise Target.Separate := by
  have hall : ["api_service", "frontend"].Pairwise fun a b =>
      "dumb_" ++ a ++ ":port" ≠ "dumb_" ++ b ++ ":port" ∧ a ≠ b := by decide
  refine List.pairwise_filterMap.2 (hall.imp ?_)
  intro a b hab t ht t' ht'
  split at ht <;> cases ht
  split at ht' <;> cases ht'
  exact ⟨by simpa [Target.owners, Target.isTraefik] using hab.1,
    by simpa [Target.owners, Target.isTraefik] using Ne.symm hab.1, .inl (.inr (.inl hab.2))⟩

variable {config : Json}

theorem Loaded.items_nodup (h : Loaded config) : (Dict.keys (items config)).Nodup := by
  cases h.distinct with
  | obj hk _ => exact hk
  | _ => exact .nil

theorem Loaded.item (h : Loaded config) {item : String × Json} (hi : item ∈ items config) :
    item.2.Distinct ∧ config.field item.1 = item.2 := by
  have hn := h.items_nodup
  cases h.distinct with
  | obj hk hm =>
    refine ⟨hm item hi, ?_⟩
    simp only [Json.field, items] at hi ⊢
    rw [Dict.get?_of_mem hk hi]
    rfl
  | _ => cases hi

theorem reserveTargets_pairwise (h : Loaded config) : (reserveTargets config).Pairwise Target.Separate := by
  refine List.pairwise_append.2 ⟨dumbTargets_pairwise _, List.pairwise_flatMap.2 ⟨?_, ?_⟩, ?_⟩
  · intro item hi
    split
    · exact .nil
    · exact serviceTargets_pairwise (topLevelKeys_plain _ (h.keys item hi)).1 (h.item hi).1
  · refine (List.pairwise_map.1 h.items_nodup).imp_of_mem ?_
    intro a b ha hb hab t ht t' ht'
    split at ht
    · cases ht
    · split at ht'
      · cases ht'
      · obtain ⟨hlab, -, rest, hrest⟩ := serviceTargets_labelled ht
        obtain ⟨hlab', -, rest', hrest'⟩ := serviceTargets_labelled ht'
        refine separate_of_labels (topLevelKeys_plain _ (h.keys a ha)).1
          (topLevelKeys_plain _ (h.keys b hb)).1 hab hlab hlab' ?_
        rw [hrest, hrest']
        exact .inl hab
  · intro t ht t' ht'
    obtain ⟨-, ⟨k, hk, hlab⟩, rest, hrest⟩ := dumbTargets_labelled ht
    obtain ⟨item, hi, hmem⟩ := List.mem_flatMap.1 ht'
    split at hmem
    · cases hmem
    · rename_i hdumb
      obtain ⟨hlab', -, rest', hrest'⟩ := serviceTargets_labelled hmem
      obtain ⟨hplain, hapi, hfront⟩ := topLevelKeys_plain _ (h.keys item hi)
      have hkplain : ∀ k ∈ ["dumb_api_service", "dumb_frontend"], ':' ∉ k.toList := by decide
      have hne : k ≠ item.1 := by
        simp only [List.mem_cons, List.not_mem_nil, or_false] at hk
        rcases hk with rfl | rfl
        · exact Ne.symm hapi
        · exact Ne.symm hfront
      refine separate_of_labels (hkplain k hk) hplain hne hlab hlab' ?_
      rw [hrest, hrest']
      exact .inl (Ne.symm hdumb)

theorem reserveTargets_sound : ∀ t ∈ reserveTargets config, t.Sound := by
  intro t ht
  rcases List.mem_append.1 ht with ht | ht
  · exact (dumbTargets_labelled ht).1
  · obtain ⟨item, -, hmem⟩ := List.mem_flatMap.1 ht
    split at hmem
    · cases hmem
    · exact (serviceTargets_labelled hmem).2.1

theorem isObj_of_isEnabled (h : isEnabled cfg = true) : cfg.isObj = true := by
  simp only [isEnabled, Bool.and_eq_true] at h
  exact h.1

theorem reserveTargets_parent (h : Loaded config) :
    ∀ t ∈ reserveTargets config, (Json.getPath t.path config).isObj = true := by
  intro t ht
  rcases List.mem_append.1 ht with ht | ht
  · obtain ⟨subkey, -, rfl, hen⟩ := mem_dumbTargets ht
    exact isObj_of_isEnabled hen
  · obtain ⟨item, hi, hmem⟩ := List.mem_flatMap.1 ht
    obtain ⟨hd, hfield⟩ := h.item hi
    split at hmem
    · cases hmem
    · rcases mem_serviceTargets hmem with ⟨name, inst, rfl, hin, hen⟩ | ⟨field, rfl, -, hen⟩
      · cases hinst : item.2.field "instances" with
        | obj instances =>
          rw [hinst] at hin
          have hget : Json.field name (.obj instances) = inst := by
            rw [Json.field, Dict.get?_of_mem (Distinct.instances hd hinst) hin]
            rfl
          simpa [hfield, hinst, hget] using isObj_of_isEnabled hen
        | _ => rw [hinst] at hin; cases hin
      · simpa [hfield] using isObj_of_isEnabled hen

theorem mem_reserveTargets (h : Loaded config) (ht : t ∈ seedTargets config) :
    t ∈ reserveTargets config := by
  obtain ⟨item, hi, hmem⟩ := List.mem_flatMap.1 ht
  split at hmem
  · rename_i hdumb
    refine List.mem_append_left _ ?_
    rw [← hdumb, (h.item hi).2]
    exact hmem
  · rename_i hdumb
    refine List.mem_append_right _ (List.mem_flatMap.2 ⟨item, hi, ?_⟩)
    rw [if_neg hdumb]
    exact hmem

/-! ## The seed pass -/

variable {p : Int}

theorem get?_addSeed_none {used : Used} {port : Json} {owner : String} (h : Dict.get? p used = none)
    (hp : port.asInt ≠ some p) : Dict.get? p (addSeed used port owner) = none := by
  unfold addSeed
  split
  · exact h
  · rename_i n hn
    have hpn : p ≠ n := fun he => hp (he ▸ hn)
    split
    · exact h
    · split
      · split
        · exact h
        · rw [Dict.get?_set_ne hpn, h]
      · rw [Dict.get?_set_ne hpn, h]

theorem get?_addSeed_some {used : Used} {port : Json} {owner o : String}
    (h : Dict.get? p used = some o) : Dict.get? p (addSeed used port owner) = some o := by
  unfold addSeed
  split
  · exact h
  · rename_i n hn
    split
    · exact h
    · split
      · rename_i existing he
        split
        · exact h
        · rename_i hsame
          by_cases hpn : p = n
          · rw [hpn] at h ⊢
            rw [h] at he
            cases he
            rw [Dict.get?_set_self, not_ne_iff.1 hsame]
          · rw [Dict.get?_set_ne hpn, h]
      · rename_i he
        have hpn : p ≠ n := by
          rintro rfl
          rw [h] at he
          cases he
        rw [Dict.get?_set_ne hpn, h]

theorem get?_addSeed_self {used : Used} {port : Json} {owner : String} (h : Dict.get? p used = none)
    (hp : port.asInt = some p) (hpos : 0 < p) : Dict.get? p (addSeed used port owner) = some owner := by
  have hnot : ¬ p ≤ 0 := by omega
  simp [addSeed, hp, hnot, h]

theorem seedUsedPorts_first {before after : List Target}
    (h : seedTargets config = before ++ t :: after) (hp : (Json.getPath t.leaf config).asInt = some p)
    (hpos : 0 < p) (hfirst : ∀ t' ∈ before, (Json.getPath t'.leaf config).asInt ≠ some p) :
    Dict.get? p (seedUsedPorts config) = some t.owner := by
  have hbefore : ∀ (ts : List Target) (used : Used), Dict.get? p used = none →
      (∀ t' ∈ ts, (Json.getPath t'.leaf config).asInt ≠ some p) →
      Dict.get? p (ts.foldl (fun used t => addSeed used (Json.getPath t.leaf config) t.owner) used) = none := by
    intro ts
    induction ts with
    | nil => exact fun _ h _ => h
    | cons q ts ih =>
      intro used hn hts
      exact ih _ (get?_addSeed_none hn (hts q List.mem_cons_self)) fun t' ht' => hts t' (List.mem_cons_of_mem _ ht')
  have hafter : ∀ (ts : List Target) (used : Used), Dict.get? p used = some t.owner →
      Dict.get? p (ts.foldl (fun used t => addSeed used (Json.getPath t.leaf config) t.owner) used) =
        some t.owner := by
    intro ts
    induction ts with
    | nil => exact fun _ h => h
    | cons q ts ih => exact fun used hn => ih _ (get?_addSeed_some hn)
  rw [seedUsedPorts, h, List.foldl_append, List.foldl_cons]
  exact hafter _ _ (get?_addSeed_self (hbefore before [] rfl hfirst) hp hpos)

end Dumb.Startup
