import Dumb.Startup.Lemmas.Acyclic

/-!
# The edges of the dependency map

Every section of the builder adds what it contributes to what the map says already, except that the one for Bazarr puts its
own dependencies in the place of those that are there.
-/

namespace Dumb.Startup

open Py

section
variable (env : Env) (get : Key → Json)

inductive Contributes : Key → Key → Prop where
  | always {k d : Key} {ds : List Key} (h : (k, ds) ∈ initialDeps) (hd : d ∈ ds) : Contributes k d
  | cliBattery (h : serviceHasEnabledInstance (get "cli_battery") = true) : Contributes "cli_debrid" "cli_battery"
  | traefikProxyAdmin (h : serviceHasEnabledInstance (get "traefik_proxy_admin") = true) :
    Contributes "traefik" "traefik_proxy_admin"
  | arrPostgres {k : Key} {instances : List Json} (hk : k ∈ arrPostgresKeys) (hi : instanceValues (get k) = .ok instances)
    (h : arrUsesPostgres env instances = .ok true) : Contributes k "postgres"
  | servicePostgres {k : Key} (hk : k ∈ servicePostgresKeys) (h : serviceUsesPostgres (get k) = true) :
    Contributes k "postgres"
  | tautulli (h : serviceHasEnabledInstance (get "plex") = true) : Contributes "tautulli" "plex"
  | seerr {d : Key} (hd : d ∈ ["plex", "jellyfin", "emby"]) (h : serviceHasEnabledInstance (get d) = true) :
    Contributes "seerr" d
  | arrs {k d : Key} (hk : k ∈ ["prowlarr", "profilarr"]) (hd : d ∈ ["sonarr", "radarr", "lidarr", "whisparr"])
    (h : serviceHasEnabledInstance (get d) = true) : Contributes k d
  | bazarr {d : Key} (hd : d ∈ ["sonarr", "radarr"]) (h : serviceHasEnabledInstance (get d) = true) : Contributes "bazarr" d
  | neutarr {d : Key} (hd : d ∈ ["sonarr", "radarr", "lidarr", "whisparr"])
    (h : serviceHasNeutarrInstance (get d) = true) : Contributes "neutarr" d
  | rclone {d : Key} {instances : List Json} {ds : List Key} (hi : instanceValues (get "rclone") = .ok instances)
    (h : rcloneDeps env instances = .ok ds) (hd : d ∈ ds) : Contributes "rclone" d

def Overwritten : Prop :=
  serviceUsesPostgres (get "bazarr") = true ∧ ∃ k ∈ ["sonarr", "radarr"], serviceHasEnabledInstance (get k) = true

instance : Decidable (Overwritten get) := inferInstanceAs (Decidable (_ ∧ _))

end

def Extends (m m' : DepMap) (R : Key → Key → Prop) : Prop := ∀ k d, d ∈ m'.deps k ↔ d ∈ m.deps k ∨ R k d

variable {m m' m'' : DepMap} {R S : Key → Key → Prop} {env : Env} {get : Key → Json}

theorem Extends.trans (h : Extends m m' R) (h' : Extends m' m'' S) : Extends m m'' fun k d => R k d ∨ S k d := by
  intro k d
  rw [h' k d, h k d, or_assoc]

theorem Extends.congr (h : Extends m m' R) (hRS : ∀ k d, R k d ↔ S k d) : Extends m m' S := by
  intro k d
  rw [h k d, hRS k d]

theorem extends_none (h : ∀ k d, ¬R k d) : Extends m m R := by
  intro k d
  simp [h k d]

theorem extends_update (m : DepMap) (k : Key) (ds : List Key) : Extends m (m.update k ds) fun q d => q = k ∧ d ∈ ds := by
  intro q d
  rw [DepMap.update, deps_set]
  split
  · rename_i heq
    simp [heq, List.mem_union_iff]
  · rename_i hne
    simp [hne]

theorem extends_add_if (m : DepMap) (k d : Key) {b : Bool} :
    Extends m (if b = true then m.add k d else m) fun q e => b = true ∧ q = k ∧ e = d := by
  cases b with
  | false => exact extends_none fun _ _ h => Bool.false_ne_true h.1
  | true => exact (extends_update m k [d]).congr fun q e => by simp

theorem extends_assign {k : Key} (h : ∀ d, d ∉ m.deps k) (ds : List Key) :
    Extends m (if ds.isEmpty then m else m.assign k ds) fun q d => q = k ∧ d ∈ ds := by
  split
  · rename_i hempty
    apply extends_none
    simp [List.isEmpty_iff.1 hempty]
  · intro q d
    rw [DepMap.assign, deps_set]
    split
    · rename_i heq
      simp [heq, h d]
    · rename_i hne
      simp [hne]

/-! ## The sections -/

theorem extends_cliBattery : Extends m (addCliBattery get m) fun k d =>
    serviceHasEnabledInstance (get "cli_battery") = true ∧ k = "cli_debrid" ∧ d = "cli_battery" := extends_add_if m _ _

theorem extends_traefikProxyAdmin : Extends m (addTraefikProxyAdmin get m) fun k d =>
    serviceHasEnabledInstance (get "traefik_proxy_admin") = true ∧ k = "traefik" ∧ d = "traefik_proxy_admin" :=
  extends_add_if m _ _

def UsesPostgres (env : Env) (get : Key → Json) (k : Key) : Prop :=
  ∃ instances, instanceValues (get k) = .ok instances ∧ arrUsesPostgres env instances = .ok true

theorem extends_arrPostgres {k : Key} (h : addArrPostgres env get m k = .ok m') :
    Extends m m' fun q d => UsesPostgres env get k ∧ q = k ∧ d = "postgres" := by
  simp only [addArrPostgres] at h
  cases hi : instanceValues (get k) with
  | error e => rw [hi] at h; cases h
  | ok instances =>
    cases hu : arrUsesPostgres env instances with
    | error e => rw [hi] at h; simp [bind, Except.bind, hu] at h
    | ok b =>
      rw [hi] at h
      simp only [bind, Except.bind, hu, pure, Except.pure] at h
      have huses : UsesPostgres env get k ↔ b = true := by
        simp [UsesPostgres, hi, hu]
      have hsame : m' = if b = true then m.add k "postgres" else m := by
        cases b <;> cases h <;> rfl
      rw [hsame]
      exact (extends_add_if m k "postgres").congr fun q d => by rw [huses]

theorem mem_cons_key {P : Key → Prop} {Q : Prop} {k q : Key} {keys : List Key} :
    (P k ∧ q = k ∧ Q ∨ q ∈ keys ∧ P q ∧ Q) ↔ q ∈ k :: keys ∧ P q ∧ Q := by
  rw [List.mem_cons]
  constructor
  · rintro (⟨hP, rfl, hQ⟩ | ⟨hq, h⟩)
    · exact ⟨.inl rfl, hP, hQ⟩
    · exact ⟨.inr hq, h⟩
  · rintro ⟨rfl | hq, hP, hQ⟩
    · exact .inl ⟨hP, rfl, hQ⟩
    · exact .inr ⟨hq, hP, hQ⟩

theorem extends_arrPostgres_foldlM : ∀ {keys : List Key} {m m' : DepMap}, keys.foldlM (addArrPostgres env get) m = .ok m' →
    Extends m m' fun q d => q ∈ keys ∧ UsesPostgres env get q ∧ d = "postgres"
  | [], m, m', h => by
    cases h
    exact extends_none fun _ _ h => by simp at h
  | k :: keys, m, m', h => by
    rw [List.foldlM_cons] at h
    cases h₁ : addArrPostgres env get m k with
    | error e => rw [h₁] at h; cases h
    | ok m₁ =>
      rw [h₁] at h
      exact ((extends_arrPostgres h₁).trans (extends_arrPostgres_foldlM h)).congr fun q d => mem_cons_key

theorem extends_servicePostgres_foldl : ∀ {keys : List Key} {m : DepMap},
    Extends m (keys.foldl (addServicePostgres get) m) fun q d =>
      q ∈ keys ∧ serviceUsesPostgres (get q) = true ∧ d = "postgres"
  | [], _ => extends_none fun _ _ h => by simp at h
  | k :: keys, m => by
    have hk : Extends m (addServicePostgres get m k) _ := extends_add_if m k "postgres"
    exact (hk.trans extends_servicePostgres_foldl).congr fun q d =>
      mem_cons_key (P := fun k => serviceUsesPostgres (get k) = true)

theorem extends_mediaServers (h : ∀ d, d ∉ m.deps "tautulli") : Extends m (addMediaServers get m) fun k d =>
    (serviceHasEnabledInstance (get "plex") = true ∧ k = "tautulli" ∧ d = "plex") ∨
      k = "seerr" ∧ d ∈ ["plex", "jellyfin", "emby"] ∧ serviceHasEnabledInstance (get d) = true := by
  have hplex : Extends m (if serviceHasEnabledInstance (get "plex") = true then
      (m.assign "tautulli" ["plex"]).add "seerr" "plex" else m) fun k d =>
      serviceHasEnabledInstance (get "plex") = true ∧ (k = "tautulli" ∧ d = "plex" ∨ k = "seerr" ∧ d = "plex") := by
    split
    · rename_i hon
      have hassign : Extends m (m.assign "tautulli" ["plex"]) _ := extends_assign h ["plex"]
      exact (hassign.trans (extends_update _ "seerr" ["plex"])).congr fun k d => by simp [hon]
    · rename_i hoff
      exact extends_none fun _ _ h => hoff h.1
  have hall := (hplex.trans (extends_add_if _ "seerr" "jellyfin" (b := serviceHasEnabledInstance (get "jellyfin")))).trans
    (extends_add_if _ "seerr" "emby" (b := serviceHasEnabledInstance (get "emby")))
  refine hall.congr fun k d => ?_
  simp only [List.mem_cons, List.not_mem_nil, or_false]
  constructor
  · rintro ((⟨h, hk | ⟨rfl, rfl⟩⟩ | ⟨h, rfl, rfl⟩) | ⟨h, rfl, rfl⟩)
    · exact .inl ⟨h, hk⟩
    · exact .inr ⟨rfl, .inl rfl, h⟩
    · exact .inr ⟨rfl, .inr (.inl rfl), h⟩
    · exact .inr ⟨rfl, .inr (.inr rfl), h⟩
  · rintro (⟨h, hk⟩ | ⟨rfl, rfl | rfl | rfl, h⟩)
    · exact .inl (.inl ⟨h, .inl hk⟩)
    · exact .inl (.inl ⟨h, .inr ⟨rfl, rfl⟩⟩)
    · exact .inl (.inr ⟨h, rfl, rfl⟩)
    · exact .inr ⟨h, rfl, rfl⟩

theorem extends_prowlarr : Extends m (addProwlarr get m) fun k d =>
    k = "prowlarr" ∧ d ∈ enabledAmong get ["sonarr", "radarr", "lidarr", "whisparr"] := by
  unfold addProwlarr
  dsimp only
  split
  · rename_i hempty
    apply extends_none
    simp [List.isEmpty_iff.1 hempty]
  · exact extends_update m _ _

theorem extends_profilarr (h : ∀ d, d ∉ m.deps "profilarr") : Extends m (addProfilarr get m) fun k d =>
    k = "profilarr" ∧ d ∈ enabledAmong get ["sonarr", "radarr", "lidarr", "whisparr"] := extends_assign h _

theorem extends_neutarr (h : ∀ d, d ∉ m.deps "neutarr") : Extends m (addNeutarr get m) fun k d =>
    k = "neutarr" ∧ d ∈ ["sonarr", "radarr", "lidarr", "whisparr"].filter fun k => serviceHasNeutarrInstance (get k) :=
  extends_assign h _

theorem extends_rclone (h : ∀ d, d ∉ m.deps "rclone") (hr : addRclone env get m = .ok m') : Extends m m' fun k d =>
    k = "rclone" ∧ ∃ instances ds, instanceValues (get "rclone") = .ok instances ∧ rcloneDeps env instances = .ok ds ∧ d ∈ ds := by
  simp only [addRclone] at hr
  cases hi : instanceValues (get "rclone") with
  | error e => rw [hi] at hr; cases hr
  | ok instances =>
    cases hd : rcloneDeps env instances with
    | error e => rw [hi] at hr; simp [bind, Except.bind, hd] at hr
    | ok ds =>
      rw [hi] at hr
      simp only [bind, Except.bind, hd, pure, Except.pure, Except.ok.injEq] at hr
      rw [← hr]
      exact (extends_assign h ds).congr fun k d => by simp [hd]

/-! ## The whole map -/

def Early (env : Env) (get : Key → Json) (k d : Key) : Prop :=
  (serviceHasEnabledInstance (get "cli_battery") = true ∧ k = "cli_debrid" ∧ d = "cli_battery") ∨
  (serviceHasEnabledInstance (get "traefik_proxy_admin") = true ∧ k = "traefik" ∧ d = "traefik_proxy_admin") ∨
  (k ∈ arrPostgresKeys ∧ UsesPostgres env get k ∧ d = "postgres") ∨
  (k ∈ servicePostgresKeys ∧ serviceUsesPostgres (get k) = true ∧ d = "postgres") ∨
  ((serviceHasEnabledInstance (get "plex") = true ∧ k = "tautulli" ∧ d = "plex") ∨
    k = "seerr" ∧ d ∈ ["plex", "jellyfin", "emby"] ∧ serviceHasEnabledInstance (get d) = true) ∨
  (k = "prowlarr" ∧ d ∈ enabledAmong get ["sonarr", "radarr", "lidarr", "whisparr"])

def Late (env : Env) (get : Key → Json) (k d : Key) : Prop :=
  (k = "profilarr" ∧ d ∈ enabledAmong get ["sonarr", "radarr", "lidarr", "whisparr"]) ∨
  (k = "neutarr" ∧ d ∈ ["sonarr", "radarr", "lidarr", "whisparr"].filter fun k => serviceHasNeutarrInstance (get k)) ∨
  (k = "rclone" ∧ ∃ instances ds, instanceValues (get "rclone") = .ok instances ∧ rcloneDeps env instances = .ok ds ∧ d ∈ ds)

def bazarrDeps (get : Key → Json) : List Key := enabledAmong get ["sonarr", "radarr"]

variable {k d : Key}

theorem mem_initialDeps : d ∈ initialDeps.deps k ↔ ∃ ds, (k, ds) ∈ initialDeps ∧ d ∈ ds := by
  have hnodup : (Dict.keys initialDeps).Nodup := by decide
  constructor
  · intro h
    cases hk : Dict.get? k initialDeps with
    | none => simp [DepMap.deps, hk] at h
    | some ds => exact ⟨ds, Dict.mem_of_get? hk, by simpa [DepMap.deps, hk] using h⟩
  · rintro ⟨ds, hmem, hd⟩
    rw [DepMap.deps, Dict.get?_of_mem hnodup hmem]
    exact hd

theorem contributes_iff : Contributes env get k d ↔
    d ∈ initialDeps.deps k ∨ Early env get k d ∨ (k = "bazarr" ∧ d ∈ bazarrDeps get) ∨ Late env get k d := by
  simp only [Early, Late, bazarrDeps, enabledAmong, List.mem_filter, mem_initialDeps]
  constructor
  · intro h
    cases h with
    | always h hd => exact .inl ⟨_, h, hd⟩
    | cliBattery h => exact .inr (.inl (.inl ⟨h, rfl, rfl⟩))
    | traefikProxyAdmin h => exact .inr (.inl (.inr (.inl ⟨h, rfl, rfl⟩)))
    | arrPostgres hk hi h => exact .inr (.inl (.inr (.inr (.inl ⟨hk, ⟨_, hi, h⟩, rfl⟩))))
    | servicePostgres hk h => exact .inr (.inl (.inr (.inr (.inr (.inl ⟨hk, h, rfl⟩)))))
    | tautulli h => exact .inr (.inl (.inr (.inr (.inr (.inr (.inl (.inl ⟨h, rfl, rfl⟩)))))))
    | seerr hd h => exact .inr (.inl (.inr (.inr (.inr (.inr (.inl (.inr ⟨rfl, hd, h⟩)))))))
    | arrs hk hd h =>
      simp only [List.mem_cons, List.not_mem_nil, or_false] at hk
      rcases hk with rfl | rfl
      · exact .inr (.inl (.inr (.inr (.inr (.inr (.inr ⟨rfl, hd, h⟩))))))
      · exact .inr (.inr (.inr (.inl ⟨rfl, hd, h⟩)))
    | bazarr hd h => exact .inr (.inr (.inl ⟨rfl, hd, h⟩))
    | neutarr hd h => exact .inr (.inr (.inr (.inr (.inl ⟨rfl, hd, h⟩))))
    | rclone hi h hd => exact .inr (.inr (.inr (.inr (.inr ⟨rfl, _, _, hi, h, hd⟩))))
  · rintro (⟨ds, h, hd⟩ | (⟨h, rfl, rfl⟩ | ⟨h, rfl, rfl⟩ | ⟨hk, ⟨_, hi, h⟩, rfl⟩ | ⟨hk, h, rfl⟩ |
      (⟨h, rfl, rfl⟩ | ⟨rfl, hd, h⟩) | ⟨rfl, hd, h⟩) | ⟨rfl, hd, h⟩ | ⟨rfl, hd, h⟩ | ⟨rfl, hd, h⟩ | ⟨rfl, _, _, hi, h, hd⟩)
    · exact .always h hd
    · exact .cliBattery h
    · exact .traefikProxyAdmin h
    · exact .arrPostgres hk hi h
    · exact .servicePostgres hk h
    · exact .tautulli h
    · exact .seerr hd h
    · exact .arrs (by simp) hd h
    · exact .bazarr hd h
    · exact .arrs (by simp) hd h
    · exact .neutarr hd h
    · exact .rclone hi h hd

theorem early_unsaid (h : Extends initialDeps m (Early env get)) {k : Key}
    (hk : k ∈ ["profilarr", "neutarr", "rclone"]) (d : Key) : d ∉ m.deps k := by
  rw [h k d]
  simp only [List.mem_cons, List.not_mem_nil, or_false] at hk
  rcases hk with rfl | rfl | rfl <;>
    simp [Early, arrPostgresKeys, servicePostgresKeys, DepMap.deps, initialDeps, Dict.get?]

theorem early_bazarr (h : Extends initialDeps m (Early env get)) (d : Key) :
    d ∈ m.deps "bazarr" ↔ serviceUsesPostgres (get "bazarr") = true ∧ d = "postgres" := by
  rw [h "bazarr" d]
  simp [Early, arrPostgresKeys, servicePostgresKeys, DepMap.deps, initialDeps, Dict.get?]

theorem build_sections (h : buildConditionalDependencyMap env get = .ok m) : ∃ m₀, Extends initialDeps m₀ (Early env get) ∧
    addRclone env get (addNeutarr get (addProfilarr get (addBazarr get m₀))) = .ok m := by
  rw [buildConditionalDependencyMap] at h
  cases ha : arrPostgresKeys.foldlM (addArrPostgres env get)
      (addTraefikProxyAdmin get (addCliBattery get initialDeps)) with
  | error e => rw [ha] at h; cases h
  | ok m₁ =>
    rw [ha] at h
    refine ⟨_, ?_, h⟩
    have hcli : Extends initialDeps (addCliBattery get initialDeps) _ := extends_cliBattery
    have harr := (hcli.trans extends_traefikProxyAdmin).trans (extends_arrPostgres_foldlM ha)
    have hfold : Extends m₁ (servicePostgresKeys.foldl (addServicePostgres get) m₁) _ := extends_servicePostgres_foldl
    have hservice := harr.trans hfold
    have htautulli : ∀ d, d ∉ DepMap.deps (servicePostgresKeys.foldl (addServicePostgres get) m₁) "tautulli" := by
      intro d
      rw [hservice "tautulli" d]
      simp [arrPostgresKeys, servicePostgresKeys, DepMap.deps, initialDeps, Dict.get?]
    have hmedia : Extends _ (addMediaServers get (servicePostgresKeys.foldl (addServicePostgres get) m₁)) _ :=
      extends_mediaServers htautulli
    exact ((hservice.trans hmedia).trans (@extends_prowlarr _ get)).congr fun k d => by simp only [Early, or_assoc]

theorem deps_addBazarr (k : Key) :
    (addBazarr get m).deps k = if k = "bazarr" ∧ bazarrDeps get ≠ [] then bazarrDeps get else m.deps k := by
  unfold addBazarr
  dsimp only
  split
  · rename_i hempty
    have hnil : bazarrDeps get = [] := List.isEmpty_iff.1 hempty
    simp [hnil]
  · rename_i hsome
    have hne : bazarrDeps get ≠ [] := by simpa [List.isEmpty_iff, bazarrDeps] using hsome
    rw [DepMap.assign, deps_set]
    simp only [hne, ne_eq, not_false_eq_true, and_true]
    rfl

theorem extends_late {m₀ : DepMap} (h : Extends initialDeps m₀ (Early env get))
    (hr : addRclone env get (addNeutarr get (addProfilarr get (addBazarr get m₀))) = .ok m) :
    Extends (addBazarr get m₀) m (Late env get) := by
  have hunsaid : ∀ k ∈ ["profilarr", "neutarr", "rclone"], ∀ d, d ∉ (addBazarr get m₀).deps k := by
    intro k hk d
    have hne : k ≠ "bazarr" := by
      rintro rfl
      simp at hk
    rw [deps_addBazarr, if_neg fun hb => hne hb.1]
    exact early_unsaid h hk d
  have hprofilarr : Extends (addBazarr get m₀) (addProfilarr get (addBazarr get m₀)) _ :=
    extends_profilarr (hunsaid "profilarr" (by simp))
  have hfree : ∀ d, d ∉ (addProfilarr get (addBazarr get m₀)).deps "neutarr" := by
    intro d
    rw [hprofilarr "neutarr" d]
    simp [hunsaid "neutarr" (by simp) d]
  have hneutarr := @extends_neutarr _ get hfree
  have htwo := hprofilarr.trans hneutarr
  have hrclone := extends_rclone (by
    intro d
    rw [htwo "rclone" d]
    simp [hunsaid "rclone" (by simp) d]) hr
  exact (htwo.trans hrclone).congr fun k d => by simp only [Late, or_assoc]

theorem build_contributes (h : buildConditionalDependencyMap env get = .ok m) (hd : d ∈ m.deps k) :
    Contributes env get k d := by
  obtain ⟨m₀, hearly, hr⟩ := build_sections h
  rw [extends_late hearly hr k d, deps_addBazarr] at hd
  apply contributes_iff.2
  rcases hd with hd | hd
  · split at hd
    · rename_i hb
      exact .inr (.inr (.inl ⟨hb.1, hd⟩))
    · rcases (hearly k d).1 hd with hi | he
      · exact .inl hi
      · exact .inr (.inl he)
  · exact .inr (.inr (.inr hd))

theorem bazarrDeps_ne_nil : bazarrDeps get ≠ [] ↔ ∃ k ∈ ["sonarr", "radarr"], serviceHasEnabledInstance (get k) = true := by
  rw [bazarrDeps, enabledAmong, ne_eq, List.filter_eq_nil_iff]
  push Not
  rfl

theorem contributed_in (h : buildConditionalDependencyMap env get = .ok m) (hover : ¬Overwritten get)
    (hc : Contributes env get k d) : d ∈ m.deps k := by
  obtain ⟨m₀, hearly, hr⟩ := build_sections h
  rw [extends_late hearly hr k d, deps_addBazarr]
  have hkept : d ∈ m₀.deps k → k = "bazarr" ∧ bazarrDeps get ≠ [] → False := by
    rintro hd ⟨rfl, hne⟩
    exact hover ⟨((early_bazarr hearly d).1 hd).1, bazarrDeps_ne_nil.1 hne⟩
  rcases contributes_iff.1 hc with hi | he | ⟨rfl, hb⟩ | hl
  · have hd := (hearly k d).2 (.inl hi)
    rw [if_neg (hkept hd)]
    exact .inl hd
  · have hd := (hearly k d).2 (.inr he)
    rw [if_neg (hkept hd)]
    exact .inl hd
  · rw [if_pos ⟨rfl, List.ne_nil_of_mem hb⟩]
    exact .inl hb
  · exact .inr hl

theorem overwritten_lost (h : buildConditionalDependencyMap env get = .ok m) (hover : Overwritten get) :
    "postgres" ∉ m.deps "bazarr" := by
  obtain ⟨m₀, hearly, hr⟩ := build_sections h
  rw [extends_late hearly hr, deps_addBazarr, if_pos ⟨rfl, bazarrDeps_ne_nil.2 hover.2⟩]
  simp [bazarrDeps, enabledAmong, Late]

/-! ## Configurations of the schema -/

/-- What the schema of the configuration says of the entries that are read. -/
structure Typed (env : Env) (get : Key → Json) : Prop where
  instances : ∀ k ∈ "rclone" :: arrPostgresKeys, ((get k).field "instances").isObj = true ∨
    ((get k).field "instances").truthy = false
  keyType : ∀ instances, (get "rclone").field "instances" = .obj instances → ∀ m ∈ instances,
    (∃ s, m.2.field "key_type" = .str s) ∨ (m.2.field "key_type").truthy = false
  file : ∀ inst, ∃ b, env.arrPostgresConfigFileEnabled inst = .ok b

variable {config : Json}

theorem instanceValues_typed (h : (config.field "instances").isObj = true ∨
    (config.field "instances").truthy = false) : ∃ instances, instanceValues config = .ok instances := by
  unfold instanceValues
  cases hfield : config.field "instances" with
  | obj members => exact ⟨_, rfl⟩
  | _ =>
    simp only [hfield, Json.isObj, Bool.false_eq_true, false_or] at h
    exact ⟨[], by simp [h]⟩

theorem arrUsesPostgres_typed (h : ∀ inst, ∃ b, env.arrPostgresConfigFileEnabled inst = .ok b) :
    ∀ instances, ∃ b, arrUsesPostgres env instances = .ok b
  | [] => ⟨false, rfl⟩
  | inst :: rest => by
    obtain ⟨b, hb⟩ := arrUsesPostgres_typed h rest
    obtain ⟨c, hc⟩ := h inst
    simp only [arrUsesPostgres, hc, hb, bind, Except.bind, pure, Except.pure]
    split
    · split
      · exact ⟨true, rfl⟩
      · cases c with
        | true => exact ⟨true, rfl⟩
        | false => exact ⟨b, rfl⟩
    · exact ⟨b, rfl⟩

theorem rcloneDeps_typed : ∀ {instances : List Json}, (∀ inst ∈ instances,
    (∃ s, inst.field "key_type" = .str s) ∨ (inst.field "key_type").truthy = false) → ∃ ds, rcloneDeps env instances = .ok ds
  | [], _ => ⟨[], rfl⟩
  | inst :: rest, h => by
    have hrest : ∃ ds, rcloneDeps env rest = .ok ds := rcloneDeps_typed fun i hi => h i (List.mem_cons_of_mem _ hi)
    obtain ⟨ds, hds⟩ := hrest
    have hone : ∃ d, rcloneInstanceDeps env inst = .ok d := by
      unfold rcloneInstanceDeps
      split
      · exact ⟨_, rfl⟩
      · rcases h inst List.mem_cons_self with ⟨s, hs⟩ | hfalse
        · rw [hs]
          exact ⟨_, rfl⟩
        · cases hfield : inst.field "key_type" with
          | str s => exact ⟨_, rfl⟩
          | _ =>
            rw [hfield] at hfalse
            simp only [hfalse]
            exact ⟨_, rfl⟩
    obtain ⟨d, hd⟩ := hone
    exact ⟨d ∪ ds, by simp [rcloneDeps, hd, hds, bind, Except.bind, pure, Except.pure]⟩

theorem addArrPostgres_typed (h : Typed env get) : ∀ {keys : List Key},
    keys ⊆ arrPostgresKeys → ∀ m : DepMap, ∃ m', keys.foldlM (addArrPostgres env get) m = .ok m'
  | [], _, m => ⟨m, rfl⟩
  | k :: keys, hkeys, m => by
    obtain ⟨instances, hi⟩ := instanceValues_typed (h.instances k (List.mem_cons_of_mem _ (hkeys List.mem_cons_self)))
    obtain ⟨b, hb⟩ := arrUsesPostgres_typed h.file instances
    have hadd : ∃ m₁, addArrPostgres env get m k = .ok m₁ := by
      simp only [addArrPostgres, hi, hb, bind, Except.bind, pure, Except.pure]
      cases b <;> exact ⟨_, rfl⟩
    obtain ⟨m₁, hm₁⟩ := hadd
    obtain ⟨m', hm'⟩ := addArrPostgres_typed h (fun q hq => hkeys (List.mem_cons_of_mem _ hq)) m₁
    refine ⟨m', ?_⟩
    rw [List.foldlM_cons, hm₁]
    exact hm'

theorem build_typed (h : Typed env get) :
    ∃ m, buildConditionalDependencyMap env get = .ok m := by
  obtain ⟨m₁, hm₁⟩ := addArrPostgres_typed h (List.Subset.refl _) (addTraefikProxyAdmin get (addCliBattery get initialDeps))
  obtain ⟨instances, hi⟩ := instanceValues_typed (h.instances "rclone" List.mem_cons_self)
  have hds : ∃ ds, rcloneDeps env instances = .ok ds := by
    apply rcloneDeps_typed
    intro inst hinst
    cases hfield : (get "rclone").field "instances" with
    | obj members =>
      simp only [instanceValues, hfield, Except.ok.injEq] at hi
      rw [← hi] at hinst
      obtain ⟨m, hm, rfl⟩ := List.mem_map.1 hinst
      exact h.keyType members hfield m hm
    | _ =>
      simp only [instanceValues, hfield] at hi
      split at hi
      · cases hi
      · cases hi
        cases hinst
  obtain ⟨ds, hds⟩ := hds
  rw [buildConditionalDependencyMap, hm₁]
  simp only [bind, Except.bind, addRclone, hi, hds]
  exact ⟨_, rfl⟩

/-! ## One more service -/

def Enabling (get get' : Key → Json) (s : Key) : Prop :=
  serviceHasEnabledInstance (get s) = false ∧ ∀ k, k ≠ s → get' k = get k

theorem enabled_of_values {instances : List Json} (hi : instanceValues config = .ok instances) {inst : Json}
    (hmem : inst ∈ instances) (h : (inst.isObj && (inst.field "enabled").truthy) = true) :
    serviceHasEnabledInstance config = true := by
  rw [instanceValues] at hi
  split at hi
  · rename_i members hfield
    cases hi
    obtain ⟨m, hm, rfl⟩ := List.mem_map.1 hmem
    cases config with
    | obj _ =>
      simp only [serviceHasEnabledInstance, hfield, List.any_eq_true]
      exact ⟨m, hm, h⟩
    | _ => simp [Json.field] at hfield
  · split at hi
    · cases hi
    · cases hi
      cases hmem

theorem enabled_of_servicePostgres (h : serviceUsesPostgres config = true) :
    serviceHasEnabledInstance config = true := by
  rw [serviceUsesPostgres] at h
  obtain ⟨service, hmem, hservice⟩ := List.any_eq_true.1 h
  simp only [Bool.and_eq_true] at hservice
  split at hmem
  · rename_i members hfield
    have hvalues : instanceValues config = .ok (Dict.values members) := by simp [instanceValues, hfield]
    exact enabled_of_values hvalues hmem (by simp [hservice])
  · rename_i hfield
    rw [List.mem_singleton] at hmem
    subst hmem
    cases service with
    | obj members =>
      unfold serviceHasEnabledInstance
      split
      · split
        · rename_i heq
          exact absurd heq (hfield _)
        · exact hservice.1.2
      · rename_i hno
        exact absurd rfl (hno _)
    | _ => simp [Json.isObj] at hservice

theorem enabled_of_neutarr (h : serviceHasNeutarrInstance config = true) :
    serviceHasEnabledInstance config = true := by
  rw [serviceHasNeutarrInstance] at h
  split at h
  · rename_i members hfield
    obtain ⟨m, hm, hinst⟩ := List.any_eq_true.1 h
    simp only [Bool.and_eq_true] at hinst
    have hvalues : instanceValues config = .ok (Dict.values members) := by simp [instanceValues, hfield]
    have hmem : m.2 ∈ Dict.values members := List.mem_map.2 ⟨m, hm, rfl⟩
    exact enabled_of_values hvalues hmem (by simp [hinst])
  · cases h

theorem arr_enabled : ∀ {instances : List Json}, arrUsesPostgres env instances = .ok true →
    ∃ inst ∈ instances, (inst.isObj && (inst.field "enabled").truthy) = true
  | [], h => by cases h
  | inst :: rest, h => by
    by_cases hon : (inst.isObj && (inst.field "enabled").truthy) = true
    · exact ⟨inst, List.mem_cons_self, hon⟩
    · simp only [arrUsesPostgres, hon] at h
      obtain ⟨inst', hmem, hon'⟩ := arr_enabled h
      exact ⟨inst', List.mem_cons_of_mem _ hmem, hon'⟩

theorem rclone_enabled : ∀ {instances : List Json} {ds : List Key}, rcloneDeps env instances = .ok ds → ∀ d ∈ ds,
    ∃ inst ∈ instances, (inst.isObj && (inst.field "enabled").truthy) = true
  | [], ds, h, d, hd => by
    cases h
    cases hd
  | inst :: rest, ds, h, d, hd => by
    by_cases hon : (inst.isObj && (inst.field "enabled").truthy) = true
    · exact ⟨inst, List.mem_cons_self, hon⟩
    · have hnone : rcloneInstanceDeps env inst = .ok [] := by
        simp [rcloneInstanceDeps, hon]
        rfl
      simp only [rcloneDeps, hnone] at h
      cases hrest : rcloneDeps env rest with
      | error e => rw [hrest] at h; cases h
      | ok ds' =>
        rw [hrest] at h
        cases h
        obtain ⟨inst', hmem, hon'⟩ := rclone_enabled hrest d (by simpa using hd)
        exact ⟨inst', List.mem_cons_of_mem _ hmem, hon'⟩

theorem Enabling.contributes {get' : Key → Json} {s k d : Key} (h : Enabling get get' s) (hc : Contributes env get k d) :
    Contributes env get' k d := by
  have hsame : ∀ key, serviceHasEnabledInstance (get key) = true → get' key = get key := by
    intro key hon
    apply h.2
    rintro rfl
    rw [h.1] at hon
    cases hon
  cases hc with
  | always h hd => exact .always h hd
  | cliBattery h => exact .cliBattery (by rw [hsame _ h]; exact h)
  | traefikProxyAdmin h => exact .traefikProxyAdmin (by rw [hsame _ h]; exact h)
  | arrPostgres hk hi h =>
    obtain ⟨inst, hmem, hon⟩ := arr_enabled h
    exact .arrPostgres hk (by rw [hsame _ (enabled_of_values hi hmem hon)]; exact hi) h
  | servicePostgres hk h => exact .servicePostgres hk (by rw [hsame _ (enabled_of_servicePostgres h)]; exact h)
  | tautulli h => exact .tautulli (by rw [hsame _ h]; exact h)
  | seerr hd h => exact .seerr hd (by rw [hsame _ h]; exact h)
  | arrs hk hd h => exact .arrs hk hd (by rw [hsame _ h]; exact h)
  | bazarr hd h => exact .bazarr hd (by rw [hsame _ h]; exact h)
  | neutarr hd h => exact .neutarr hd (by rw [hsame _ (enabled_of_neutarr h)]; exact h)
  | rclone hi h hd =>
    obtain ⟨inst, hmem, hon⟩ := rclone_enabled h d hd
    exact .rclone (by rw [hsame _ (enabled_of_values hi hmem hon)]; exact hi) h hd

end Dumb.Startup
