import Dumb.Startup.Dependencies

/-!
# The dependency map has no cycle

Every key has a rank, and whatever the configuration is, a dependency has a smaller rank than the key that
waits for it.
-/

namespace Dumb.Startup

open Py

def rank : Key → Nat
  | "cloudflared" => 3
  | "riven_frontend" | "traefik" | "prowlarr" | "bazarr" | "profilarr" | "neutarr" | "rclone" => 2
  | "riven_backend" | "zilean" | "pgadmin" | "mediastorm" | "traefik_proxy_admin" | "authelia" | "cli_debrid"
  | "sonarr" | "radarr" | "lidarr" | "whisparr" | "altmount" | "infinidysk" | "pulsarr" | "seerr"
  | "tautulli" => 1
  | _ => 0

/-- Where a dependency may point: down in rank, and to a key that `main` starts. -/
def Below (k d : Key) : Prop := rank d < rank k ∧ d ∈ groupedKeys

instance (k d : Key) : Decidable (Below k d) := inferInstanceAs (Decidable (_ ∧ _))

def Ranked (m : DepMap) : Prop := ∀ k, ∀ d ∈ m.deps k, Below k d

theorem deps_set (m : DepMap) (k q : Key) (ds : List Key) :
    DepMap.deps (Dict.set k ds m) q = if q = k then ds else m.deps q := by
  simp only [DepMap.deps, Dict.get?_set]
  split <;> rfl

variable {k : Key} {ds : List Key}

theorem Ranked.set {m : DepMap} (h : Ranked m) (hd : ∀ d ∈ ds, Below k d) :
    Ranked (Dict.set k ds m) := by
  intro q d hq
  rw [deps_set] at hq
  split at hq
  · rename_i heq
    exact heq ▸ hd d hq
  · exact h q d hq

theorem Ranked.update {m : DepMap} (h : Ranked m) (hd : ∀ d ∈ ds, Below k d) :
    Ranked (m.update k ds) := by
  refine h.set fun d hmem => ?_
  rcases List.mem_union_iff.1 hmem with hold | hnew
  · exact h k d hold
  · exact hd d hnew

theorem Ranked.add {m : DepMap} (h : Ranked m) {k d : Key} (hd : Below k d) : Ranked (m.add k d) :=
  h.update (by simpa using hd)

theorem ranked_of_items {m : DepMap} (h : ∀ item ∈ m, ∀ d ∈ item.2, Below item.1 d) : Ranked m := by
  intro k d hd
  cases hk : Dict.get? k m with
  | none => simp [DepMap.deps, hk] at hd
  | some ds => exact h (k, ds) (Dict.mem_of_get? hk) d (by simpa [DepMap.deps, hk] using hd)

theorem initialDeps_ranked : Ranked initialDeps := ranked_of_items (by decide)

section
variable {get : Key → Json} {env : Env} {m : DepMap}

theorem enabledAmong_below {keys : List Key} (h : ∀ d ∈ keys, Below k d) :
    ∀ d ∈ enabledAmong get keys, Below k d := fun d hd => h d (List.mem_filter.1 hd).1

theorem addCliBattery_ranked (h : Ranked m) : Ranked (addCliBattery get m) := by
  unfold addCliBattery
  split
  · exact h.add (by decide)
  · exact h

theorem addTraefikProxyAdmin_ranked (h : Ranked m) : Ranked (addTraefikProxyAdmin get m) := by
  unfold addTraefikProxyAdmin
  split
  · exact h.add (by decide)
  · exact h

theorem addArrPostgres_ranked (hk : Below k "postgres") (h : Ranked m) {m' : DepMap}
    (hr : addArrPostgres env get m k = .ok m') : Ranked m' := by
  simp only [addArrPostgres] at hr
  cases hi : instanceValues (get k) with
  | error e => rw [hi] at hr; cases hr
  | ok instances =>
    cases hu : arrUsesPostgres env instances with
    | error e => rw [hi] at hr; simp [bind, Except.bind, hu] at hr
    | ok b =>
      rw [hi] at hr
      simp only [bind, Except.bind, hu, pure, Except.pure] at hr
      split at hr <;> cases hr
      · exact h.add hk
      · exact h

theorem addArrPostgres_foldlM_ranked : ∀ {keys : List Key} (_ : ∀ k ∈ keys, Below k "postgres") {m m' : DepMap},
    Ranked m → keys.foldlM (addArrPostgres env get) m = .ok m' → Ranked m'
  | [], _, m, m', h, hr => by cases hr; exact h
  | k :: keys, hk, m, m', h, hr => by
    rw [List.foldlM_cons] at hr
    cases h₁ : addArrPostgres env get m k with
    | error e => rw [h₁] at hr; cases hr
    | ok m₁ =>
      rw [h₁] at hr
      exact addArrPostgres_foldlM_ranked (fun q hq => hk q (List.mem_cons_of_mem _ hq))
        (addArrPostgres_ranked (hk k List.mem_cons_self) h h₁) hr

theorem addServicePostgres_ranked (hk : Below k "postgres") (h : Ranked m) :
    Ranked (addServicePostgres get m k) := by
  unfold addServicePostgres
  split
  · exact h.add hk
  · exact h

theorem addServicePostgres_foldl_ranked : ∀ {keys : List Key} (_ : ∀ k ∈ keys, Below k "postgres") {m : DepMap},
    Ranked m → Ranked (keys.foldl (addServicePostgres get) m)
  | [], _, _, h => h
  | k :: _, hk, _, h =>
    addServicePostgres_foldl_ranked (fun q hq => hk q (List.mem_cons_of_mem _ hq))
      (addServicePostgres_ranked (hk k List.mem_cons_self) h)

theorem addMediaServers_ranked (h : Ranked m) : Ranked (addMediaServers get m) := by
  have hplex : Ranked ((m.assign "tautulli" ["plex"]).add "seerr" "plex") :=
    Ranked.add (h.set (by decide)) (by decide)
  have hseerr : ∀ {m : DepMap} {d : Key}, Below "seerr" d → Ranked m →
      ∀ b : Bool, Ranked (if b then m.add "seerr" d else m) := by
    intro m d hd h b
    cases b with
    | true => exact h.add hd
    | false => exact h
  unfold addMediaServers
  refine hseerr (by decide) (hseerr (by decide) ?_ _) _
  split
  · exact hplex
  · exact h

theorem addProwlarr_ranked (h : Ranked m) : Ranked (addProwlarr get m) := by
  unfold addProwlarr
  dsimp only
  split
  · exact h
  · exact h.update (enabledAmong_below (by decide))

theorem addBazarr_ranked (h : Ranked m) : Ranked (addBazarr get m) := by
  unfold addBazarr
  dsimp only
  split
  · exact h
  · exact h.set (enabledAmong_below (by decide))

theorem addProfilarr_ranked (h : Ranked m) : Ranked (addProfilarr get m) := by
  unfold addProfilarr
  dsimp only
  split
  · exact h
  · exact h.set (enabledAmong_below (by decide))

theorem addNeutarr_ranked (h : Ranked m) : Ranked (addNeutarr get m) := by
  have hd : ∀ d ∈ ["sonarr", "radarr", "lidarr", "whisparr"], Below "neutarr" d := by decide
  unfold addNeutarr
  dsimp only
  split
  · exact h
  · exact h.set fun d hmem => hd d (List.mem_filter.1 hmem).1

theorem rcloneInstanceDeps_below {inst : Json} (h : rcloneInstanceDeps env inst = .ok ds) :
    ∀ d ∈ ds, Below "rclone" d := by
  have hall : ∀ zurg decypharr infinidysk : Bool, ∀ d ∈ (if zurg then ["zurg"] else []) ++
      (if decypharr then ["decypharr"] else []) ++ (if infinidysk then ["infinidysk"] else []),
      Below "rclone" d := by decide
  unfold rcloneInstanceDeps at h
  split at h
  · cases h; simp
  · simp only [bind, Except.bind] at h
    split at h
    · cases h; exact hall _ _ _
    · split at h <;> cases h
      exact hall _ _ _

theorem rcloneDeps_below : ∀ {insts : List Json} {ds : List Key}, rcloneDeps env insts = .ok ds →
    ∀ d ∈ ds, Below "rclone" d
  | [], ds, h => by cases h; simp
  | inst :: rest, ds, h => by
    simp only [rcloneDeps, bind, Except.bind] at h
    cases h₁ : rcloneInstanceDeps env inst with
    | error e => rw [h₁] at h; cases h
    | ok ds₁ =>
      cases h₂ : rcloneDeps env rest with
      | error e => rw [h₁, h₂] at h; cases h
      | ok ds₂ =>
        rw [h₁, h₂] at h
        cases h
        intro d hd
        rcases List.mem_union_iff.1 hd with hd | hd
        · exact rcloneInstanceDeps_below h₁ d hd
        · exact rcloneDeps_below h₂ d hd

theorem addRclone_ranked (h : Ranked m) {m' : DepMap} (hr : addRclone env get m = .ok m') : Ranked m' := by
  simp only [addRclone, bind, Except.bind] at hr
  cases hi : instanceValues (get "rclone") with
  | error e => rw [hi] at hr; cases hr
  | ok instances =>
    cases hd : rcloneDeps env instances with
    | error e => rw [hi] at hr; simp only [hd] at hr; cases hr
    | ok ds =>
      rw [hi] at hr
      simp only [hd, pure, Except.pure, Except.ok.injEq] at hr
      subst hr
      split
      · exact h
      · exact h.set (rcloneDeps_below hd)

theorem buildConditionalDependencyMap_ranked
    (hm : buildConditionalDependencyMap env get = .ok m) : Ranked m := by
  have hkeys : ∀ k ∈ arrPostgresKeys ++ servicePostgresKeys, Below k "postgres" := by decide
  have harr : ∀ k ∈ arrPostgresKeys, Below k "postgres" := fun k hk => hkeys k (List.mem_append_left _ hk)
  have hserv : ∀ k ∈ servicePostgresKeys, Below k "postgres" := fun k hk => hkeys k (List.mem_append_right _ hk)
  simp only [buildConditionalDependencyMap, bind, Except.bind] at hm
  split at hm
  · cases hm
  · rename_i m₁ h₁
    have hr₁ := addArrPostgres_foldlM_ranked harr
      (addTraefikProxyAdmin_ranked (addCliBattery_ranked initialDeps_ranked)) h₁
    exact addRclone_ranked (addNeutarr_ranked (addProfilarr_ranked (addBazarr_ranked (addProwlarr_ranked
      (addMediaServers_ranked (addServicePostgres_foldl_ranked hserv hr₁)))))) hm

end

end Dumb.Startup
