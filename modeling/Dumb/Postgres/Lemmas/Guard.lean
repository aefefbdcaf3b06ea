import Dumb.Lib.Raise
import Dumb.Postgres.Guard

/-!
# What the guard accepts with and without its target
-/

namespace Dumb.Postgres.Guard

open Py

variable {w : World} {live : Live} {current candidate postgres candidatePostgres service : Settings}

@[simp] theorem decided_ok {α : Type} {x : Option α} {a : α} : decided x = .ok a ↔ x = some a := by
  cases x <;> simp [decided]

@[simp] theorem require_ok {b : Bool} {e : Refusal} {u : Unit} : require b e = .ok u ↔ b = true := by
  cases b <;> simp [require]

/-! ## The evidence -/

def World.Recorded (w : World) (live : Live) (service postgres : Settings) : Prop :=
  (∃ authorization, w.marker = .record authorization) ∧ w.cutoverCompleted live service postgres = some true

variable {authorization : Settings} {source : String × String}

theorem matches_iff :
    w.authorizationMatchesRuntime live authorization service postgres source = some true ↔
      w.matchesBinding authorization service source = true ∧ w.matchesLaunch authorization service = true ∧
        (∃ target, w.target postgres (w.databaseName service) = some target ∧
          isText (w.sha256 (.target target)) (authorization.get? "postgres_target_fingerprint") = true) ∧
        w.matchesIdentity live authorization service postgres = true := by
  unfold World.authorizationMatchesRuntime
  split
  · rename_i h
    simp only [Bool.and_eq_true] at h
    cases w.target postgres (w.databaseName service) <;> simp [h]
  · rename_i h
    simp only [Bool.and_eq_true, not_and] at h
    simp only [Option.some.injEq, Bool.false_eq_true, false_iff]
    exact fun hm => h hm.1 hm.2.1

theorem not_matchesIdentity_down : w.matchesIdentity down authorization service postgres = false := by
  simp [World.matchesIdentity, down]

theorem completedJob_down : ∀ {jobs : List Settings},
    w.completedJobAuthorization down service postgres source jobs ≠ some true
  | [] => by simp [World.completedJobAuthorization]
  | authorization :: rest => by
    rw [World.completedJobAuthorization]
    cases hm : w.authorizationMatchesRuntime down authorization service postgres source with
    | none => simp
    | some b =>
      cases b with
      | false => exact completedJob_down
      | true =>
        have hidentity := (matches_iff.1 hm).2.2.2
        rw [not_matchesIdentity_down] at hidentity
        cases hidentity

theorem cutoverCompleted_down : w.cutoverCompleted down service postgres ≠ some true := by
  unfold World.cutoverCompleted
  split
  · simp
  · split
    · simp
    · split
      · exact completedJob_down
      · simp
      · intro hm
        have hidentity := (matches_iff.1 hm).2.2.2
        rw [not_matchesIdentity_down] at hidentity
        cases hidentity

theorem runtimeConfigured_iff : w.runtimeConfigured live service postgres = some true ↔
    w.environmentTargets service postgres = some true ∧ w.cutoverCompleted live service postgres = some true := by
  unfold World.runtimeConfigured
  cases w.environmentTargets service postgres with
  | none => simp
  | some b => cases b <;> simp

theorem recorded_iff (hmarker : w.marker = .record authorization) :
    w.cutoverCompleted live service postgres = some true ↔
      ∃ source, w.sqliteSourceFingerprints (w.mainDatabase (w.configPath service)) = some source ∧ w.rootPrivate = true ∧
        w.authorizationMatchesRuntime live authorization service postgres source = some true := by
  unfold World.cutoverCompleted
  cases w.sqliteSourceFingerprints (w.mainDatabase (w.configPath service)) with
  | none => simp
  | some source => cases w.rootPrivate <;> simp [hmarker]

/-! ## Settings whose port is a number -/

variable {target : Target}

theorem port_of_target {database : String} (h : w.target postgres database = some target) :
    w.port postgres = some target.port := by
  unfold World.target at h
  obtain ⟨port, hport, rfl⟩ := Option.map_eq_some_iff.1 h
  exact hport

theorem environmentTargets_some (service : Settings) {port : Int} (h : w.port postgres = some port) :
    ∃ b, w.environmentTargets service postgres = some b := by
  unfold World.environmentTargets World.connectionTargetsRuntime
  split
  · split
    · exact ⟨_, rfl⟩
    · split
      · exact ⟨_, rfl⟩
      · exact ⟨_, by rw [h]; rfl⟩
  · exact ⟨_, rfl⟩

theorem matches_some (live : Live) (authorization : Settings) (source : String × String)
    (h : w.target postgres (w.databaseName service) = some target) :
    ∃ b, w.authorizationMatchesRuntime live authorization service postgres source = some b := by
  unfold World.authorizationMatchesRuntime
  split
  · exact ⟨_, by rw [h]; rfl⟩
  · exact ⟨_, rfl⟩

theorem completedJob_some
    (h : w.target postgres (w.databaseName service) = some target) : ∀ jobs : List Settings,
    ∃ b, w.completedJobAuthorization live service postgres source jobs = some b
  | [] => ⟨_, rfl⟩
  | authorization :: rest => by
    obtain ⟨b, hb⟩ := matches_some live authorization source h
    rw [World.completedJobAuthorization, hb]
    cases b with
    | false => exact completedJob_some h rest
    | true => exact ⟨_, rfl⟩

theorem cutoverCompleted_some (h : w.target postgres (w.databaseName service) = some target) :
    ∃ b, w.cutoverCompleted live service postgres = some b := by
  unfold World.cutoverCompleted
  split
  · exact ⟨_, rfl⟩
  · split
    · exact ⟨_, rfl⟩
    · split
      · exact completedJob_some h _
      · exact ⟨_, rfl⟩
      · exact matches_some live _ _ h

theorem runtimeConfigured_some (live : Live) (h : w.target postgres (w.databaseName service) = some target) :
    ∃ b, w.runtimeConfigured live service postgres = some b := by
  unfold World.runtimeConfigured
  obtain ⟨b, hb⟩ := environmentTargets_some service (port_of_target h)
  rw [hb]
  cases b with
  | false => exact ⟨_, rfl⟩
  | true => exact cutoverCompleted_some h

/-! ## What does not depend on the target -/

structure Bound (w : World) (current candidate postgres candidatePostgres : Settings) : Prop where
  usable : (envUsable current && envUsable candidate) = true
  static : w.staticBindingMatches current candidate postgres candidatePostgres = some true
  name : w.value candidate "process_name" "" = w.value current "process_name" ""
  provider : (w.authorized || managedKept current candidate "DATABASE_PROVIDER") = true
  connection : (w.authorized || managedKept current candidate "DATABASE_CONNECTION_STRING") = true
  enabled : isFalse (setting candidate "postgres_enabled") = false

theorem static_iff : w.staticBindingMatches current candidate postgres candidatePostgres = some true ↔
    w.value candidate "process_name" "" = w.value current "process_name" "" ∧
      w.sourcePathFingerprint (w.mainDatabase (w.configPath current)) =
        w.sourcePathFingerprint (w.mainDatabase (w.configPath candidate)) ∧
      w.databaseName current = w.databaseName candidate ∧
      ∃ target target', w.target postgres (w.databaseName current) = some target ∧
        w.target candidatePostgres (w.databaseName candidate) = some target' ∧
        w.sha256 (.target target) = w.sha256 (.target target') := by
  unfold World.staticBindingMatches
  split
  · rename_i h
    simp only [Bool.and_eq_true, decide_eq_true_eq] at h
    obtain ⟨⟨hname, hpath⟩, hdatabase⟩ := h
    simp [hname, hpath, hdatabase, Option.bind_eq_some_iff]
  · rename_i h
    simp only [Bool.and_eq_true, decide_eq_true_eq, not_and] at h
    simp only [Option.some.injEq, Bool.false_eq_true, false_iff]
    exact fun hall => h ⟨hall.1, hall.2.1⟩ hall.2.2.1

theorem checkEnabling_mono (h : w.checkEnabling down current candidate postgres candidatePostgres = .ok ()) (live : Live) :
    w.checkEnabling live current candidate postgres candidatePostgres = .ok () := by
  have hfresh : ∀ {path service postgres}, w.validateFreshInstall down path true service postgres = .ok () →
      w.validateFreshInstall live path true service postgres = .ok () := by
    intro path service postgres hdown
    unfold World.validateFreshInstall at hdown ⊢
    simp only [bind_ok_iff, require_ok] at hdown ⊢
    obtain ⟨_, hprovider, found, hfound, hrest⟩ := hdown
    refine ⟨(), hprovider, found, hfound, ?_⟩
    cases found with
    | false => rfl
    | true =>
      cases ha : w.authorized with
      | true => simp
      | false =>
        simp only [ha, Bool.not_true, Bool.false_eq_true, if_false, bind_ok_iff, decided_ok, require_ok] at hrest
        obtain ⟨b, hb, rfl⟩ := hrest
        exact absurd (runtimeConfigured_iff.1 hb).2 cutoverCompleted_down
  unfold World.checkEnabling at h ⊢
  split at h
  · rename_i henabling
    simp only [bind_ok_iff] at h
    obtain ⟨_, hcurrent, hcandidate⟩ := h
    rw [if_pos henabling]
    exact bind_ok_iff.2 ⟨(), hfresh hcurrent, hfresh hcandidate⟩
  · rename_i henabling
    rw [if_neg henabling]

theorem accepts_iff (hprovider : w.providerIsPostgres current = true) :
    w.validateCandidateUpdate live current candidate postgres candidatePostgres = .ok () ↔
      Bound w current candidate postgres candidatePostgres ∧
        w.checkEnabling live current candidate postgres candidatePostgres = .ok () ∧
        ∃ currentCutover currentRuntime candidateCutover candidateRuntime,
          w.cutoverCompleted live current postgres = some currentCutover ∧
          w.runtimeConfigured live current postgres = some currentRuntime ∧
          w.cutoverCompleted live candidate candidatePostgres = some candidateCutover ∧
          w.runtimeConfigured live candidate candidatePostgres = some candidateRuntime ∧
          w.sourceSelectionSafe candidate
            (if (currentCutover || currentRuntime) = true then w.runtimeFloor current else none) = true ∧
          (currentCutover = true → candidateCutover = true) ∧ (currentRuntime = true → candidateRuntime = true) := by
  have hdisabling : ∀ b, w.checkDisabling live (true || b) candidate candidatePostgres = .ok () ↔
      isFalse (setting candidate "postgres_enabled") = false := by
    intro b
    unfold World.checkDisabling
    cases isFalse (setting candidate "postgres_enabled") with
    | false => simp
    | true =>
      simp only [Bool.true_or, Bool.and_self, if_true, bind_ok_iff]
      simp
  simp only [World.validateCandidateUpdate, World.checkBinding, bind_ok_iff, decided_ok, require_ok, hprovider, if_true,
    Bool.or_assoc, hdisabling]
  constructor
  · rintro ⟨_, husable, cc, hcc, cr, hcr, dc, hdc, dr, hdr, _, hsource, _, hkept, _, ⟨_, hstatic, rfl⟩, _, hname, _,
      hp, _, hc, _, henabling, hdisabled⟩
    refine ⟨⟨husable, hstatic, by simpa using hname, hp, hc, hdisabled⟩, henabling, cc, cr, dc, dr, hcc, hcr, hdc, hdr,
      hsource, ?_, ?_⟩
    · rintro rfl
      cases dc <;> simp_all
    · rintro rfl
      cases dr <;> simp_all
  · rintro ⟨⟨husable, hstatic, hname, hp, hc, hdisabled⟩, henabling, cc, cr, dc, dr, hcc, hcr, hdc, hdr, hsource, hc', hr'⟩
    refine ⟨(), husable, cc, hcc, cr, hcr, dc, hdc, dr, hdr, (), hsource, (), ?_, (), ⟨_, hstatic, rfl⟩, (),
      by simp [hname], (), hp, (), hc, (), henabling, hdisabled⟩
    cases cc <;> cases cr <;> simp_all

/-! ## What the candidate is to keep -/

/-- The candidate keeps the launch contract and a runtime at or above the recorded floor, and reaches the recorded target. -/
structure Keeps (w : World) (live : Live) (current candidate postgres candidatePostgres : Settings) : Prop where
  launch : w.launchConfigFingerprint candidate = w.launchConfigFingerprint current
  source : w.sourceSelectionSafe candidate (w.runtimeFloor current) = true
  reaches : ∀ authorization, w.marker = .record authorization →
    w.matchesIdentity live authorization candidate candidatePostgres = true
  managed : w.environmentTargets current postgres = some true → w.environmentTargets candidate candidatePostgres = some true

/-- Among these services a digest tells one launch contract from another, and no value prints as nothing. -/
structure Faithful (w : World) (services : List Settings) : Prop where
  sha256 : ∀ service ∈ services, ∀ other ∈ services,
    w.launchConfigFingerprint service = w.launchConfigFingerprint other → w.launch service = w.launch other
  str : ∀ service ∈ services, (setting (envOf service) "CONFIG_PATH").truthy = true →
    w.text.str (setting (envOf service) "CONFIG_PATH") ≠ ""

theorem Faithful.mono {services others : List Settings} (h : Faithful w services) (hsub : ∀ s ∈ others, s ∈ services) :
    Faithful w others :=
  ⟨fun s hs t ht => h.sha256 s (hsub s hs) t (hsub t ht), fun s hs => h.str s (hsub s hs)⟩

theorem realpath_configPath (hw : Faithful w [current, candidate]) (h : w.launch candidate = w.launch current) :
    w.realpath (w.configPath candidate) = w.realpath (w.configPath current) := by
  have hdir : w.realpath (w.value candidate "config_dir" "/infinidysk") =
      w.realpath (w.value current "config_dir" "/infinidysk") := congrArg Launch.configDir h
  have henv := congrArg Launch.env h
  simp only [World.launch, List.map_cons, List.cons.injEq, List.map_nil, and_true] at henv
  obtain ⟨-, -, hpath, -, -⟩ := henv
  unfold World.configPath
  unfold World.value connectionValue at hpath
  unfold World.value connectionValue at hdir ⊢
  by_cases hc : (setting (envOf candidate) "CONFIG_PATH").truthy = true
  · by_cases hs : (setting (envOf current) "CONFIG_PATH").truthy = true
    · simpa only [hc, hs, if_true] using congrArg w.realpath (by simpa [hc, hs] using hpath)
    · exact absurd (by simpa [hc, hs] using hpath) (hw.str candidate (by simp) hc)
  · by_cases hs : (setting (envOf current) "CONFIG_PATH").truthy = true
    · exact absurd (by simpa [hc, hs] using hpath.symm) (hw.str current (by simp) hs)
    · rw [if_neg hc, if_neg hs]
      exact hdir

theorem isText_inj {s t : String} {j : Option Json} (hs : isText s j = true) (ht : isText t j = true) : s = t := by
  unfold isText at hs ht
  split at hs
  · simp only [decide_eq_true_eq] at hs ht
    exact hs.symm.trans ht
  · cases hs

theorem cutoverCompleted_candidate (hw : Faithful w [current, candidate])
    (hmarker : w.marker = .record authorization)
    (hcurrent : w.cutoverCompleted live current postgres = some true)
    (hbound : Bound w current candidate postgres candidatePostgres) :
    w.cutoverCompleted live candidate candidatePostgres = some true ↔
      w.launchConfigFingerprint candidate = w.launchConfigFingerprint current ∧
        w.matchesIdentity live authorization candidate candidatePostgres = true := by
  obtain ⟨source, hsource, hroot, hm⟩ := (recorded_iff hmarker).1 hcurrent
  obtain ⟨hbinding, hlaunch, ⟨target, htarget, hfingerprint⟩, -⟩ := matches_iff.1 hm
  obtain ⟨hname, hpath, hdatabase, target₀, target', htarget₀, htarget', hsha⟩ := static_iff.1 hbound.static
  obtain rfl : target = target₀ := by simpa [htarget] using htarget₀
  rw [recorded_iff hmarker]
  constructor
  · rintro ⟨source', -, -, hm'⟩
    obtain ⟨-, hlaunch', -, hidentity⟩ := matches_iff.1 hm'
    exact ⟨isText_inj hlaunch' hlaunch, hidentity⟩
  · rintro ⟨hkept, hidentity⟩
    have hmain : w.mainDatabase (w.configPath candidate) = w.mainDatabase (w.configPath current) := by
      have hcontract : w.launch candidate = w.launch current := hw.sha256 _ (by simp) _ (by simp) hkept
      rw [World.mainDatabase, World.mainDatabase, realpath_configPath hw hcontract]
    refine ⟨source, by rw [hmain, hsource], hroot, matches_iff.2 ⟨?_, ?_, ⟨target', htarget', ?_⟩, hidentity⟩⟩
    · unfold World.matchesBinding at hbinding ⊢
      rwa [hname, hmain, ← hdatabase]
    · unfold World.matchesLaunch at hlaunch ⊢
      rwa [hkept]
    · rwa [← hsha]

theorem runtimeFloor_candidate (hw : Faithful w [current, candidate])
    (hname : w.value candidate "process_name" "" = w.value current "process_name" "")
    (hlaunch : w.launchConfigFingerprint candidate = w.launchConfigFingerprint current) :
    w.runtimeFloor candidate = w.runtimeFloor current := by
  have hcontract : w.launch candidate = w.launch current := hw.sha256 _ (by simp) _ (by simp) hlaunch
  have hmain : w.mainDatabase (w.configPath candidate) = w.mainDatabase (w.configPath current) := by
    rw [World.mainDatabase, World.mainDatabase, realpath_configPath hw hcontract]
  have hdir : w.realpath (w.value candidate "config_dir" "/infinidysk") =
      w.realpath (w.value current "config_dir" "/infinidysk") := congrArg Launch.configDir hcontract
  unfold World.runtimeFloor World.matchesLaunch
  simp only [hname, hlaunch, hmain, hdir]

theorem accepts_online (hw : Faithful w [current, candidate])
    (hmarker : w.marker = .record authorization)
    (hcurrent : w.cutoverCompleted live current postgres = some true) (hprovider : w.providerIsPostgres current = true)
    (hdown : w.validateCandidateUpdate down current candidate postgres candidatePostgres = .ok ()) :
    w.validateCandidateUpdate live current candidate postgres candidatePostgres = .ok () ↔
      Keeps w live current candidate postgres candidatePostgres := by
  obtain ⟨hbound, henabling, -⟩ := (accepts_iff hprovider).1 hdown
  have hcandidate := cutoverCompleted_candidate hw hmarker hcurrent hbound
  obtain ⟨-, -, -, target, target', htarget, htarget', -⟩ := static_iff.1 hbound.static
  rw [accepts_iff hprovider]
  constructor
  · rintro ⟨-, -, cc, cr, dc, dr, hcc, hcr, hdc, hdr, hsource, hcutover, hruntime⟩
    obtain rfl : cc = true := by simpa [hcurrent] using hcc.symm
    obtain rfl : dc = true := hcutover rfl
    obtain ⟨hlaunch, hidentity⟩ := hcandidate.1 hdc
    refine ⟨hlaunch, by simpa using hsource, fun authorization' h => ?_, fun htargets => ?_⟩
    · cases hmarker.symm.trans h
      exact hidentity
    · obtain rfl : cr = true := by simpa [runtimeConfigured_iff.2 ⟨htargets, hcurrent⟩] using hcr.symm
      obtain rfl : dr = true := hruntime rfl
      exact (runtimeConfigured_iff.1 hdr).1
  · rintro ⟨hlaunch, hsource, hreaches, hmanaged⟩
    have hcompleted := hcandidate.2 ⟨hlaunch, hreaches _ hmarker⟩
    obtain ⟨cr, hcr⟩ := runtimeConfigured_some live htarget
    obtain ⟨dr, hdr⟩ := runtimeConfigured_some live htarget'
    refine ⟨hbound, checkEnabling_mono henabling live, true, cr, true, dr, hcurrent, hcr, hcompleted, hdr,
      by simpa using hsource, id, ?_⟩
    rintro rfl
    have htargets := hmanaged (runtimeConfigured_iff.1 hcr).1
    simpa [runtimeConfigured_iff.2 ⟨htargets, hcompleted⟩] using hdr.symm

end Dumb.Postgres.Guard
