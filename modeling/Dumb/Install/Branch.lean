import Dumb.Lib.Raise
import Dumb.Lib.Text

/-!
# Branch and release installs

`setup_branch_version` and `setup_release_version` of `utils/setup.py`, as far as they decide which source a directory has: the
archive they extract, the branch state they record, and the reinstall that is skipped for a recorded commit.
-/

namespace Dumb.Install.Branch

open Py

def commitPinServiceKeys : List String :=
  ["dumb_frontend", "traefik_proxy_admin", "cli_debrid", "decypharr", "infinidysk", "phalanx_db", "tautulli", "pulsarr",
    "maintainerr", "neutarr", "profilarr", "seerr", "riven_backend", "riven_frontend", "zilean"]

structure BranchState where
  repoOwner : Option String
  repoName : Option String
  sourceKind : Option String
  sourceRef : Option String
  branch : Option String
  commitSha : Option String

structure Source where
  repoOwner : String
  repoName : String
  commit : Option String
  deriving DecidableEq

/-- A service directory and the three files that are asked for its branch state; one that is missing or cannot be read as a dict is
`none`. -/
structure Directory where
  branchStatePath : Option BranchState
  sharedStatePath : Option BranchState
  legacyBranchStatePath : Option BranchState
  /-- What was extracted last; `none` for nothing or a part of an archive. -/
  source : Option Source
  ready : Bool

def Directory.readBranchState (d : Directory) : Option BranchState :=
  (d.branchStatePath.or d.sharedStatePath).or d.legacyBranchStatePath

structure Config where
  repoOwner : String
  repoName : String
  branch : Json
  commitSha : Json

inductive Extraction where
  | failed | broken | done

inductive Write where
  | notOpened | cutShort | done
  deriving DecidableEq

structure BranchOutcome where
  /-- `_validate_infinidysk_postgres_source` and `os.makedirs` succeed. -/
  admitted : Bool
  found : Bool
  head : Option String
  /-- `_has_branch_runtime_artifacts` -/
  artifacts : Bool
  /-- What `version.txt` holds. -/
  version : Option String
  cleared : Bool
  legacyLeft : Bool
  archived : String
  extraction : Extraction
  /-- `additional_setup` -/
  setup : Bool
  marked : Bool
  headAfter : Option String
  written : Write

structure ReleaseOutcome where
  legacyLeft : Bool
  commit : Option String
  extraction : Extraction
  setup : Bool

inductive Result where
  | failed | installed
  | skipped (commit : String)
  deriving DecidableEq

section
variable (text : Text) (key : String)

def stripped (value : Json) : String := text.strip (if value.truthy then text.str value else "")

def isCommit (s : String) : Bool := s.length = 40 && s.toList.all fun c => c.isDigit || ('a' ≤ c && c ≤ 'f')

def normalizeCommitSha (value : Json) : Option (Option String) :=
  let commitSha := text.lower (stripped text value)
  if commitSha = "" then some none else if isCommit commitSha then some (some commitSha) else none

def commitVersionMarkerMatches (version : Option String) (commitSha : String) : Bool :=
  version.any fun content => text.strip content = "commit-" ++ String.ofList (commitSha.toList.take 12)

def sourceKindRef (config : Config) : Option String → String × String
  | some commitSha => ("commit", commitSha)
  | none =>
    let branch := if config.branch.truthy then text.str config.branch else "main"
    ("branch", if text.strip branch = "" then "main" else text.strip branch)

def orElse (value other : Option String) : Option String := if value = none ∨ value = some "" then other else value

def stateMatches (config : Config) (kindRef : String × String) (currentSha : String) (o : BranchOutcome) (d : Directory) : Bool :=
  d.readBranchState.any fun previous =>
    previous.repoOwner = some config.repoOwner && previous.repoName = some config.repoName &&
      orElse previous.sourceKind (some "branch") = some kindRef.1 && orElse previous.sourceRef previous.branch = some kindRef.2 &&
      previous.commitSha = some currentSha && o.artifacts

def Directory.cleared (d : Directory) (legacyLeft : Bool) : Directory :=
  if legacyLeft then d else { d with legacyBranchStatePath := none }

def Directory.writeBranchState (d : Directory) (state : BranchState) : Write → Directory
  | .notOpened => d
  | .cutShort => { d with branchStatePath := none }
  | .done => { d with branchStatePath := some state }

def archive (config : Config) (commitSha : Option String) (o : BranchOutcome) : Source :=
  ⟨config.repoOwner, config.repoName, some (commitSha.getD o.archived)⟩

def recorded (commitSha : Option String) (o : BranchOutcome) : Option String := commitSha.or o.headAfter

def installBranch (config : Config) (commitSha : Option String) (o : BranchOutcome) (d : Directory) : Result × Directory :=
  if !o.cleared then (.failed, d.cleared o.legacyLeft)
  else
    match o.extraction with
    | .failed => (.failed, d.cleared o.legacyLeft)
    | .broken => (.failed, { d.cleared o.legacyLeft with source := none, ready := false })
    | .done =>
      let extracted := { d.cleared o.legacyLeft with source := some (archive config commitSha o), ready := o.setup }
      if !o.setup then (.failed, extracted)
      else if !commitPinServiceKeys.contains key then (.installed, extracted)
      else if commitSha = none ∧ key = "dumb_frontend" ∧ o.marked = false then (.failed, extracted)
      else
        match recorded commitSha o with
        | none => (.installed, extracted)
        | some current =>
          let (kind, ref) := sourceKindRef text config commitSha
          let state : BranchState :=
            { repoOwner := some config.repoOwner, repoName := some config.repoName, sourceKind := some kind, sourceRef := some ref
              branch := if kind = "branch" then some ref else none, commitSha := some current }
          (.installed, extracted.writeBranchState state o.written)

inductive Decision where
  | refuse
  | skip (currentSha : String)
  | install (commitSha : Option String)

/-- What `setup_branch_version` decides before it touches the directory. -/
def decision (config : Config) (o : BranchOutcome) (d : Directory) : Decision :=
  match normalizeCommitSha text config.commitSha with
  | none => .refuse
  | some commitSha =>
    if !o.admitted || (commitSha ≠ none && !commitPinServiceKeys.contains key) || key = "zurg" || !o.found then .refuse
    else
      match commitSha.or o.head with
      | none => .install commitSha
      | some currentSha =>
        if commitPinServiceKeys.contains key && stateMatches config (sourceKindRef text config commitSha) currentSha o d &&
            (commitSha = none || commitVersionMarkerMatches text o.version currentSha) then .skip currentSha
        else .install commitSha

def setupBranchVersion (config : Config) (o : BranchOutcome) (d : Directory) : Result × Directory :=
  match decision text key config o d with
  | .refuse => (.failed, d)
  | .skip currentSha => (.skipped currentSha, d)
  | .install commitSha => installBranch text key config commitSha o d

def setupReleaseVersion (config : Config) (o : ReleaseOutcome) (d : Directory) : Directory :=
  match o.extraction with
  | .failed => d.cleared o.legacyLeft
  | .broken => { d.cleared o.legacyLeft with source := none, ready := false }
  | .done => { d.cleared o.legacyLeft with source := some ⟨config.repoOwner, config.repoName, o.commit⟩, ready := o.setup }

/-! ## Runs -/

inductive Call where
  | branch (config : Config) (o : BranchOutcome)
  | release (config : Config) (o : ReleaseOutcome)

def Directory.after (d : Directory) : Call → Directory
  | .branch config o => (setupBranchVersion text key config o d).2
  | .release config o => setupReleaseVersion config o d

def Directory.SkipsRight (d : Directory) : Call → Prop
  | .branch config o => ∀ commit, (setupBranchVersion text key config o d).1 = .skipped commit →
      d.source = some ⟨config.repoOwner, config.repoName, some commit⟩ ∧ d.ready = true
  | .release _ _ => True

def Directory.Names (d : Directory) (source : Option Source) (ready : Bool) : Prop :=
  ∀ state ∈ d.readBranchState, ∀ commit ∈ state.commitSha, ready = true ∧
    ∃ s ∈ source, state.repoOwner = some s.repoOwner ∧ state.repoName = some s.repoName ∧ s.commit = some commit

/-- A call that extracts an archive records its commit, or leaves state files that name no commit or that one. -/
def Directory.Allowed (d : Directory) : Call → Prop
  | .branch config o =>
    match decision text key config o d with
    | .refuse => True
    | .skip _ => True
    | .install commitSha =>
      let files := d.cleared o.legacyLeft
      o.cleared = true →
        match o.extraction with
        | .failed => True
        | .broken => files.Names none false
        | .done =>
          if o.setup = false ∨ (commitSha = none ∧ key = "dumb_frontend" ∧ o.marked = false) ∨
              recorded commitSha o = none ∨ o.written = .notOpened then
            files.Names (some (archive config commitSha o)) o.setup
          else if o.written = .cutShort then
            { files with branchStatePath := none }.Names (some (archive config commitSha o)) true
          else recorded commitSha o = (archive config commitSha o).commit
  | .release config o =>
    match o.extraction with
    | .failed => True
    | .broken => (d.cleared o.legacyLeft).Names none false
    | .done => (d.cleared o.legacyLeft).Names (some ⟨config.repoOwner, config.repoName, o.commit⟩) o.setup

variable {text key}

@[simp] theorem cleared_source (d : Directory) (legacyLeft : Bool) : (d.cleared legacyLeft).source = d.source := by
  unfold Directory.cleared
  split <;> rfl

@[simp] theorem cleared_ready (d : Directory) (legacyLeft : Bool) : (d.cleared legacyLeft).ready = d.ready := by
  unfold Directory.cleared
  split <;> rfl

variable {d : Directory}

theorem Directory.Names.cleared {source : Option Source} {ready : Bool} (h : d.Names source ready)
    (legacyLeft : Bool) : (d.cleared legacyLeft).Names source ready := by
  intro state hstate
  apply h state
  unfold Directory.cleared at hstate
  split at hstate
  · exact hstate
  · simp only [Directory.readBranchState, Option.or_none] at hstate ⊢
    rw [Option.mem_def] at hstate ⊢
    rw [hstate, Option.some_or]

theorem names_writeBranchState {state : BranchState} {s : Source} (howner : state.repoOwner = some s.repoOwner)
    (hname : state.repoName = some s.repoName) (hcommit : state.commitSha = s.commit) :
    (d.writeBranchState state .done).Names (some s) true := by
  intro read hread commit hmem
  obtain rfl : state = read := by simpa [Directory.readBranchState, Directory.writeBranchState] using hread
  exact ⟨rfl, s, rfl, howner, hname, hcommit ▸ hmem⟩

variable {config : Config} {o : BranchOutcome}

theorem installBranch_names (hpin : commitPinServiceKeys.contains key = true) {commitSha : Option String}
    (h : d.Names d.source d.ready)
    (hdecision : decision text key config o d = .install commitSha) (hallowed : d.Allowed text key (.branch config o)) :
    (installBranch text key config commitSha o d).2.Names (installBranch text key config commitSha o d).2.source
      (installBranch text key config commitSha o d).2.ready := by
  simp only [Directory.Allowed, hdecision] at hallowed
  have hkept : (d.cleared o.legacyLeft).Names (d.cleared o.legacyLeft).source (d.cleared o.legacyLeft).ready := by
    rw [cleared_source, cleared_ready]
    exact h.cleared o.legacyLeft
  unfold installBranch
  cases hcleared : o.cleared with
  | false => exact hkept
  | true =>
    have hcall := hallowed hcleared
    cases hextraction : o.extraction with
    | failed => exact hkept
    | broken =>
      rw [hextraction] at hcall
      exact hcall
    | done =>
      simp only [hextraction] at hcall
      simp only [Bool.not_true, Bool.false_eq_true, if_false, hpin]
      cases hsetup : o.setup with
      | false =>
        rw [if_pos (.inl hsetup), hsetup] at hcall
        exact hcall
      | true =>
        simp only [Bool.not_true, Bool.false_eq_true, if_false]
        split
        · rename_i hunmarked
          rw [if_pos (.inr (.inl hunmarked)), hsetup] at hcall
          exact hcall
        · rename_i hmarked
          cases hrecorded : recorded commitSha o with
          | none =>
            rw [if_pos (.inr (.inr (.inl hrecorded))), hsetup] at hcall
            exact hcall
          | some current =>
            cases hwritten : o.written with
            | notOpened =>
              rw [if_pos (.inr (.inr (.inr hwritten))), hsetup] at hcall
              exact hcall
            | cutShort =>
              rw [if_neg (by simp [hsetup, hmarked, hrecorded, hwritten]), if_pos hwritten] at hcall
              exact hcall
            | done =>
              rw [if_neg (by simp [hsetup, hmarked, hrecorded, hwritten]), if_neg (by simp [hwritten]), hrecorded] at hcall
              exact names_writeBranchState rfl rfl hcall

theorem installBranch_not_skipped (config : Config) (commitSha : Option String) (o : BranchOutcome) (d : Directory)
    (commit : String) : (installBranch text key config commitSha o d).1 ≠ .skipped commit := by
  unfold installBranch
  grind

variable {commit : String}

theorem decision_of_skipped
    (h : (setupBranchVersion text key config o d).1 = .skipped commit) : decision text key config o d = .skip commit := by
  unfold setupBranchVersion at h
  split at h
  · cases h
  · cases h
    assumption
  · exact absurd h (installBranch_not_skipped _ _ _ _ _)

theorem decision_skip
    (h : decision text key config o d = .skip commit) :
    ∃ state ∈ d.readBranchState, state.repoOwner = some config.repoOwner ∧ state.repoName = some config.repoName ∧
      state.commitSha = some commit := by
  unfold decision at h
  split at h
  · cases h
  split at h
  · cases h
  split at h
  · cases h
  split at h
  · rename_i hmatches
    cases h
    simp only [Bool.and_eq_true, stateMatches, Option.any_eq_true, decide_eq_true_eq] at hmatches
    obtain ⟨⟨-, state, hread, ⟨⟨⟨⟨howner, hname⟩, -⟩, -⟩, hcommit⟩, -⟩, -⟩ := hmatches
    exact ⟨state, hread, howner, hname, hcommit⟩
  · cases h

theorem decision_unpinned (hpin : commitPinServiceKeys.contains key = false)
    : decision text key config o d ≠ .skip commit := by
  unfold decision
  simp only [hpin, Bool.false_and, Bool.false_eq_true, if_false]
  grind

theorem setupBranchVersion_names (hpin : commitPinServiceKeys.contains key = true)
    (h : d.Names d.source d.ready) (hallowed : d.Allowed text key (.branch config o)) :
    (d.after text key (.branch config o)).Names (d.after text key (.branch config o)).source
      (d.after text key (.branch config o)).ready := by
  simp only [Directory.after, setupBranchVersion]
  cases hdecision : decision text key config o d with
  | refuse => exact h
  | skip currentSha => exact h
  | install commitSha => exact installBranch_names hpin h hdecision hallowed

theorem setupReleaseVersion_names {o : ReleaseOutcome} (h : d.Names d.source d.ready)
    (hallowed : d.Allowed text key (.release config o)) :
    (setupReleaseVersion config o d).Names (setupReleaseVersion config o d).source (setupReleaseVersion config o d).ready := by
  simp only [Directory.Allowed] at hallowed
  unfold setupReleaseVersion
  cases hextraction : o.extraction with
  | failed =>
    dsimp only
    rw [cleared_source, cleared_ready]
    exact h.cleared o.legacyLeft
  | broken =>
    rw [hextraction] at hallowed
    exact hallowed
  | done =>
    rw [hextraction] at hallowed
    exact hallowed

theorem Directory.SkipsRight.of_unpinned (hpin : commitPinServiceKeys.contains key = false) (d : Directory) (call : Call) :
    d.SkipsRight text key call := by
  cases call with
  | release => trivial
  | branch config o =>
    intro commit hskip
    exact absurd (decision_of_skipped hskip) (decision_unpinned hpin)

theorem Directory.SkipsRight.of_names (h : d.Names d.source d.ready) (call : Call) :
    d.SkipsRight text key call := by
  cases call with
  | release => trivial
  | branch config o =>
    intro commit hskip
    obtain ⟨state, hread, howner, hname, hcommit⟩ := decision_skip (decision_of_skipped hskip)
    obtain ⟨hready, s, hs, hsowner, hsname, hscommit⟩ := h state hread commit hcommit
    rw [howner] at hsowner
    rw [hname] at hsname
    obtain ⟨repoOwner, repoName, sourceCommit⟩ := s
    cases hsowner
    cases hsname
    cases hscommit
    exact ⟨hs, hready⟩

/-- A skipped reinstall has its source installed, in every run whose calls record what they extract. -/
theorem skips_are_right (text : Text) (key : String) (d : Directory) (calls : List Call) (hstart : d.Names d.source d.ready)
    (h : commitPinServiceKeys.contains key = true →
      Along (Directory.after text key) (fun d call => d.Allowed text key call) d calls) :
    Along (Directory.after text key) (fun d call => d.SkipsRight text key call) d calls := by
  cases hpin : commitPinServiceKeys.contains key with
  | false => exact along_of_forall (fun d call => .of_unpinned hpin d call) d calls
  | true =>
    have hstep : ∀ (d : Directory) call, d.Allowed text key call → d.Names d.source d.ready →
        (d.after text key call).Names (d.after text key call).source (d.after text key call).ready := by
      intro d call hallowed hd
      cases call with
      | branch config o => exact setupBranchVersion_names hpin hd hallowed
      | release config o => exact setupReleaseVersion_names hd hallowed
    apply ((h hpin).always hstep hstart).imp
    rintro d call - ⟨-, hd⟩
    exact .of_names hd call

end

def tautulli : Config := ⟨"Tautulli", "Tautulli", .str "main", .str ""⟩

def headCommit : String := "0123456789012345678901234567890123456789"

def calm : BranchOutcome :=
  { admitted := true, found := true, head := some headCommit, artifacts := true, version := none, cleared := true
    legacyLeft := true, archived := headCommit, extraction := .done, setup := true, marked := true
    headAfter := some headCommit, written := .done }

def empty : Directory := ⟨none, none, none, none, false⟩

theorem skips_are_right_calm :
    Along (Directory.after Text.ascii "tautulli") (fun d call => d.SkipsRight Text.ascii "tautulli" call) empty
      [.branch tautulli calm, .branch tautulli calm] := by
  apply skips_are_right
  · intro state hstate
    cases hstate
  · exact fun _ => ⟨fun _ => rfl, trivial, trivial⟩

/-- A release is installed over the branch: the branch is still recorded, and its next install is skipped. -/
theorem skips_wrong :
    ¬Along (Directory.after Text.ascii "tautulli") (fun d call => d.SkipsRight Text.ascii "tautulli" call) empty
        [.branch tautulli calm, .release tautulli ⟨true, none, .done, true⟩, .branch tautulli calm] ∧
      ¬Along (Directory.after Text.ascii "tautulli") (fun d call => d.SkipsRight Text.ascii "tautulli" call) empty
        [.branch tautulli { calm with archived := "9876543210987654321098765432109876543210" }, .branch tautulli calm] := by
  constructor
  · rintro ⟨-, -, hskip, -⟩
    have hwrong := hskip headCommit (by decide +kernel)
    revert hwrong
    decide +kernel
  · rintro ⟨-, hskip, -⟩
    have hwrong := hskip headCommit (by decide +kernel)
    revert hwrong
    decide +kernel

end Dumb.Install.Branch
