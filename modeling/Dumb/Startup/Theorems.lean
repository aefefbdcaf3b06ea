import Dumb.Startup.Lemmas.Edges
import Dumb.Startup.Lemmas.Pool
import Dumb.Startup.Lemmas.Targets

/-!
# Startup: ports and order
-/

namespace Dumb.Startup

open Py

/-! ## Ports -/

/-- The ports that go with `t`: its own positive one, and Traefik's dashboard port above that. -/
def heldPorts (config : Json) (t : Target) : List Int :=
  match (Json.getPath t.leaf config).asInt with
  | some p => if p ≤ 0 then [] else if t.isTraefik then [p, p + 1] else [p]
  | none => []

/-- What a successful pass leaves: the ports of all owners are distinct, in range and free, and an owner whose
port was free and claimed by no earlier owner has kept it. -/
structure Reserved (host : Host) (config : Json) (s : Reservation) : Prop where
  distinct : ((reserveTargets config).flatMap (heldPorts s.config)).Nodup
  available : ∀ t ∈ reserveTargets config, ∀ p ∈ heldPorts s.config t, 1 ≤ p ∧ p ≤ 65535 ∧ host.free p = true
  keeps : ∀ before t after, seedTargets config = before ++ t :: after → t.isTraefik = false →
    ∀ p, Json.getPath t.leaf config = .int p → 1 ≤ p → p ≤ 65535 → host.free p = true →
      (∀ t' ∈ before, (Json.getPath t'.leaf config).asInt ≠ some p) → Json.getPath t.leaf s.config = .int p

theorem Held.claims {host : Host} {s : Reservation} {t : Target} (h : Held host s t) :
    (heldPorts s.config t).Nodup ∧ ∀ p ∈ heldPorts s.config t, host.isPortAvailable (.int p) = true ∧
      ∃ o ∈ t.owners, Dict.get? p s.used = some o := by
  unfold heldPorts
  rcases h with hnone | ⟨p, hp, ha, hown, hdash⟩
  · cases hn : (Json.getPath t.leaf s.config).asInt with
    | none => simp
    | some n => simp [hnone n hn]
  · have hpos : ¬ p ≤ 0 := by
      have := (Host.available_iff.1 ha).1
      omega
    rw [hp]
    simp only [Json.asInt_int, hpos, ↓reduceIte]
    cases ht : t.isTraefik with
    | true =>
      obtain ⟨ha', hown'⟩ := hdash ht
      simp only [↓reduceIte, List.nodup_cons, List.not_mem_nil, not_false_eq_true,
        List.nodup_nil, and_true, List.mem_cons, or_false, forall_eq_or_imp, forall_eq]
      exact ⟨by omega, ⟨ha, _, t.owner_mem, hown⟩, ha', _, by simp [Target.owners, ht], hown'⟩
    | false => simpa using ⟨ha, t.owner, t.owner_mem, hown⟩

theorem heldPorts_nodup {host : Host} {s : Reservation} {ts : List Target} (hp : ts.Pairwise Target.Separate)
    (hs : ∀ t ∈ ts, t.Sound) (h : ∀ t ∈ ts, Held host s t) : (ts.flatMap (heldPorts s.config)).Nodup := by
  refine List.nodup_flatMap.2 ⟨fun t ht => (h t ht).claims.1, hp.imp_of_mem ?_⟩
  intro t t' ht ht' hsep p hmem hmem'
  obtain ⟨-, o, ho, hget⟩ := (h t ht).claims.2 p hmem
  obtain ⟨-, o', ho', hget'⟩ := (h t' ht').claims.2 p hmem'
  rw [hget] at hget'
  cases hget'
  exact hsep.disjoint (hs t ht) (hs t' ht') ho ho'

/-- The reservation pass ends and leaves every port distinct, free and in range if and only if, whenever an
owner other than Traefik has to move, there is a free unclaimed port above the one it has configured. -/
theorem reservations_iff (host : Host) {config : Json} (h : Loaded config) :
    ((∃ fuel, applyGlobalPortReservations host fuel config ≠ .error .outOfFuel) ∧
      ∀ fuel s, applyGlobalPortReservations host fuel config = .ok s → Reserved host config s) ↔
    ((config.field "dumb").isObj = true →
      Roomy host (reserveTargets config) ⟨config, seedUsedPorts config, false⟩) := by
  have hpass (hdumb : (config.field "dumb").isObj = true) (fuel : Nat) :
      applyGlobalPortReservations host fuel config =
        (reserveTargets config).foldlM (reserve host fuel) ⟨config, seedUsedPorts config, false⟩ := by
    simp [applyGlobalPortReservations, hdumb]
  constructor
  · rintro ⟨⟨fuel, hend⟩, -⟩ hdumb
    rw [hpass hdumb] at hend
    exact reserves_room hend
  · intro hroom
    cases hdumb : (config.field "dumb").isObj with
    | false =>
      have hraise (fuel : Nat) : applyGlobalPortReservations host fuel config =
          .error (.exc (.attributeError "get")) := by
        simp [applyGlobalPortReservations, hdumb, bind, Except.bind, throw, throwThe, MonadExceptOf.throw]
      exact ⟨⟨0, by simp [hraise]⟩, fun fuel s hr => by rw [hraise] at hr; cases hr⟩
    | true =>
      obtain ⟨fuel, hend⟩ := reserves_ends (hroom hdumb)
      refine ⟨⟨fuel, by rw [hpass hdumb]; exact hend fuel (Nat.le_refl _)⟩, fun fuel s hr => ?_⟩
      rw [hpass hdumb] at hr
      obtain ⟨hsettled, -⟩ := reserves_settle (reserveTargets_pairwise h) reserveTargets_sound
        (fun t ht => ⟨reserveTargets_parent h t ht, rfl, fun _ hp => hp⟩) hr
      refine ⟨heldPorts_nodup (reserveTargets_pairwise h) reserveTargets_sound fun t ht => (hsettled t ht).held,
        fun t ht p hp => ?_, fun before t after hseed ht p hport hlow hhigh hfree hfirst => ?_⟩
      · exact Host.available_iff.1 ((hsettled t ht).held.claims.2 p hp).1
      · have hmem := mem_reserveTargets h (by rw [hseed]; simp : t ∈ seedTargets config)
        exact (hsettled t hmem).kept ht p hport (Host.available_iff.2 ⟨hlow, hhigh, hfree⟩)
          (seedUsedPorts_first hseed (by rw [hport]; rfl) hlow hfirst)

def hostWithout (busy : List Int) : Host where
  free p := !busy.contains p
  strStrip := fun
    | .str s => s.trimAscii.toString
    | _ => ""
  decimal c := if c.isDigit then some (c.toNat - 48) else none

def sharedPort : Json :=
  .obj [("dumb", .obj [("frontend", .obj [("enabled", .bool true), ("port", .int 3005)])]),
    ("pgadmin", .obj [("enabled", .bool true), ("port", .int 3005)])]

theorem sharedPort_loaded : Loaded sharedPort where
  distinct := by
    refine .obj (by decide) ?_
    simp only [List.mem_cons, List.not_mem_nil, or_false, forall_eq_or_imp, forall_eq]
    refine ⟨.obj (by decide) ?_, .obj (by decide) ?_⟩
    · simp only [List.mem_cons, List.not_mem_nil, or_false, forall_eq]
      refine .obj (by decide) ?_
      simp [Json.Distinct.bool, Json.Distinct.int]
    · simp [Json.Distinct.bool, Json.Distinct.int]
  keys := by simp [items, sharedPort, topLevelKeys]

theorem reservations_shared : ∃ s : Reservation,
    applyGlobalPortReservations (hostWithout [3006]) 5 sharedPort = .ok s ∧
      Json.getPath ["pgadmin", "port"] s.config = .int 3007 ∧ Reserved (hostWithout [3006]) sharedPort s := by
  have hroom : Roomy (hostWithout [3006]) (reserveTargets sharedPort)
      ⟨sharedPort, seedUsedPorts sharedPort, false⟩ := by
    refine @reserves_room _ 5 _ _ ?_
    intro h
    cases h
  exact ⟨_, rfl, rfl, ((reservations_iff _ sharedPort_loaded).2 fun _ => hroom).2 5 _ rfl⟩

def lastPort : Json :=
  .obj [("dumb", .obj []), ("pgadmin", .obj [("enabled", .bool true), ("port", .int 65535)])]

theorem lastPort_never_ends :
    ¬ ∃ fuel, applyGlobalPortReservations (hostWithout [65535]) fuel lastPort ≠ .error .outOfFuel := by
  rintro ⟨fuel, hend⟩
  have hroom : Roomy (hostWithout [65535]) (reserveTargets lastPort)
      ⟨lastPort, seedUsedPorts lastPort, false⟩ := reserves_room hend
  have hmoves : Moves (hostWithout [65535]) (seedUsedPorts lastPort) (.int 65535) "pgadmin:port" :=
    ⟨65535, rfl, by decide, .inr (by decide)⟩
  obtain ⟨n, q, hn, hlt, -, ha⟩ := hroom [] ⟨["pgadmin"], "port", "pgadmin:port"⟩ [] 0 _ rfl rfl rfl hmoves
  have hrange := Host.available_iff.1 ha
  cases hn
  omega

/-! ## Order -/

theorem enabledDeps_below {env : Env} {get : Key → Json} {keys : List Key} {m : DepMap}
    (hm : buildConditionalDependencyMap env get = .ok m) (k : Key) :
    ∀ d ∈ enabledDeps get keys m k, enabled get keys d = true ∧ rank d < rank k := by
  intro d hd
  obtain ⟨hmem, hen⟩ := List.mem_filter.1 hd
  exact ⟨hen, (buildConditionalDependencyMap_ranked hm k d hmem).1⟩

/-- Whatever the configuration is, in whatever order the jobs end and however they end: the loop never stalls, it comes to
an end with every enabled key submitted once and nothing else, and a key is submitted after its enabled dependencies have
finished. -/
theorem startup_order (env : Env) (get : Key → Json) (keys : List Key) {m : DepMap}
    (hm : buildConditionalDependencyMap env get = .ok m) {ph : Phase} {s : Pool}
    (hrun : Steps (enabledDeps get keys m) (.head, startPool get keys) (ph, s)) :
    (ph = .head → s.running = true → ∀ ready : List Key, ready.Perm (s.ready (enabledDeps get keys m)) →
      ∃ s', s.submitReady ready = .ok s') ∧
    Acc (fun c' c => Step (enabledDeps get keys m) c c') (ph, s) ∧
    s.submitted.Nodup ∧
    (∀ k ∈ s.submitted, k ∈ keys ∧ serviceHasEnabledInstance (get k) = true) ∧
    (s.running = false → ∀ k ∈ keys, serviceHasEnabledInstance (get k) = true → k ∈ s.submitted) ∧
    (∀ before k after, s.log = before ++ .submitted k :: after → ∀ d ∈ m.deps k, d ∈ keys →
      serviceHasEnabledInstance (get d) = true → .finished d ∈ before) ∧
    ∀ k, ∀ d ∈ m.deps k, d ∈ groupedKeys := by
  have hinv := Pool.steps_inv hrun (startPool_inv get keys (enabledDeps get keys m))
  have hmem : ∀ k, enabled get keys k = true ↔ k ∈ keys ∧ serviceHasEnabledInstance (get k) = true := by
    intro k
    simp [enabled]
  refine ⟨fun _ hr ready hready => Pool.submitReady_ok hinv (enabledDeps_below hm) hr hready,
    Pool.steps_end _ (Nat.lt_succ_self _) hinv, hinv.once, ?_, ?_, ?_, ?_⟩
  · intro k hk
    rw [hinv.sent] at hk
    exact (hmem k).1 ((hinv.cover k).1 (by simp only [List.append_assoc]; exact List.mem_append_right _ hk))
  · intro hstop k hk hen
    have hk' := (hinv.cover k).2 ((hmem k).2 ⟨hk, hen⟩)
    have hp : s.pending = [] := by simp_all [Pool.running]
    rw [hp] at hk'
    exact (hinv.sent k).2 hk'
  · intro before k after hlog d hd hdk hen
    exact hinv.ordered before k after hlog d (List.mem_filter.2 ⟨hd, (hmem d).2 ⟨hdk, hen⟩⟩)
  · intro k d hd
    exact (buildConditionalDependencyMap_ranked hm k d hd).2

def zileanConfig : Key → Json
  | "postgres" | "zilean" => .obj [("enabled", .bool true)]
  | _ => .null

def asciiEnv : Env where
  lower := String.toLower
  strip := fun s => s.trimAscii.toString
  arrPostgresConfigFileEnabled := fun _ => .ok false

theorem startup_order_zilean : ∃ s : Pool,
    Steps (enabledDeps zileanConfig groupedKeys initialDeps) (.head, startPool zileanConfig groupedKeys) (.waiting, s) ∧
      s.log = [.submitted "postgres", .finished "postgres", .submitted "zilean"] ∧ s.submitted.Nodup := by
  have hm : buildConditionalDependencyMap asciiEnv zileanConfig = .ok initialDeps := rfl
  have hrun : Steps (enabledDeps zileanConfig groupedKeys initialDeps)
      (.head, startPool zileanConfig groupedKeys) (.waiting,
        { pending := [], inProgress := ["zilean"], completed := ["postgres"],
          failures := [("postgres", "One or more configured processes failed to start.")],
          log := [.submitted "postgres", .finished "postgres", .submitted "zilean"] }) := by
    refine .tail (.tail (.tail .refl (@Step.submit _ _ _ ["postgres"] rfl ?_ rfl))
      (@Step.wait _ _ [("postgres", .notStarted)] ?_)) (@Step.submit _ _ _ ["zilean"] rfl ?_ rfl)
    · exact .refl _
    · exact ⟨by simp, by simp, by decide⟩
    · exact .refl _
  exact ⟨_, hrun, rfl, (startup_order asciiEnv zileanConfig groupedKeys hm hrun).2.2.1⟩

/-! ## Dependencies -/

structure EdgesKept (env : Env) (get : Key → Json) (m : DepMap) : Prop where
  services : ∀ k ∈ servicePostgresKeys, serviceUsesPostgres (get k) = true → "postgres" ∈ m.deps k
  arrs : ∀ k ∈ arrPostgresKeys, UsesPostgres env get k → "postgres" ∈ m.deps k
  union : ∀ k d, d ∈ m.deps k ↔ Contributes env get k d

/-- Every edge is in the map unless Bazarr runs on PostgreSQL beside a Sonarr or a Radarr, and until then enabling one more
service removes no edge. -/
theorem edges_kept (env : Env) (get : Key → Json) (h : Typed env get) : ∃ m, buildConditionalDependencyMap env get = .ok m ∧
    (EdgesKept env get m ↔ ¬Overwritten get) ∧
      ∀ s get' m', Enabling get get' s → buildConditionalDependencyMap env get' = .ok m' → ¬Overwritten get' →
        ∀ k, m.deps k ⊆ m'.deps k := by
  obtain ⟨m, hm⟩ := build_typed h
  refine ⟨m, hm, ⟨fun hkept hover => ?_, fun hover => ?_⟩, ?_⟩
  · exact overwritten_lost hm hover (hkept.services "bazarr" (by simp [servicePostgresKeys]) hover.1)
  · have hunion : ∀ k d, d ∈ m.deps k ↔ Contributes env get k d :=
      fun k d => ⟨build_contributes hm, contributed_in hm hover⟩
    exact {
      services := fun k hk huses => (hunion k _).2 (.servicePostgres hk huses)
      arrs := fun k hk huses => by
        obtain ⟨_, hi, huses⟩ := huses
        exact (hunion k _).2 (.arrPostgres hk hi huses)
      union := hunion }
  · intro s get' m' henabling hm' hover k d hd
    exact contributed_in hm' hover (henabling.contributes (build_contributes hm hd))

def bazarrConfig (radarr : Bool) : Key → Json
  | "bazarr" => .obj [("enabled", .bool true), ("postgres_enabled", .bool true)]
  | "radarr" => .obj [("instances", .obj [("Default", .obj [("enabled", .bool radarr)])])]
  | _ => .null

theorem bazarrConfig_typed (radarr : Bool) : Typed asciiEnv (bazarrConfig radarr) where
  instances := by cases radarr <;> decide +kernel
  keyType _ h := nomatch (h : Json.null = .obj _)
  file _ := ⟨false, rfl⟩

theorem edges_kept_bazarr : ∃ m, buildConditionalDependencyMap asciiEnv (bazarrConfig false) = .ok m ∧
    EdgesKept asciiEnv (bazarrConfig false) m := by
  obtain ⟨m, hm, hiff, -⟩ := edges_kept asciiEnv (bazarrConfig false) (bazarrConfig_typed false)
  exact ⟨m, hm, hiff.2 (by decide +kernel)⟩

/-- Once Radarr is enabled, Bazarr no longer waits for the PostgreSQL that it runs on. -/
theorem bazarr_edge_lost : Typed asciiEnv (bazarrConfig true) ∧ Enabling (bazarrConfig false) (bazarrConfig true) "radarr" ∧
    ∃ m m', buildConditionalDependencyMap asciiEnv (bazarrConfig false) = .ok m ∧ "postgres" ∈ m.deps "bazarr" ∧
      buildConditionalDependencyMap asciiEnv (bazarrConfig true) = .ok m' ∧
        serviceUsesPostgres (bazarrConfig true "bazarr") = true ∧ "postgres" ∉ m'.deps "bazarr" := by
  refine ⟨bazarrConfig_typed true, ⟨by decide +kernel, fun k hk => ?_⟩, _, _, rfl, by decide +kernel, rfl, by decide +kernel,
    by decide +kernel⟩
  unfold bazarrConfig
  split
  · rfl
  · exact absurd rfl hk
  · rfl

end Dumb.Startup
