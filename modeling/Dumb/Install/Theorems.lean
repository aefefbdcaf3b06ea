import Dumb.Install.Lemmas.Failure
import Dumb.Install.Lemmas.Unwind

/-!
# Install transactions: crash recovery, failed activation and rollback
-/

namespace Dumb.Install

open Crash Prog

variable {α : Type}

/-- The disk before `prepare`: the target exists, the other paths have fresh names, there is no journal. -/
def World.start (old : α) (lower : Bool) : World α where
  entry
    | .target => some (.dir old)
    | _ => none
  aside := []
  journal := none
  lower := lower
  written := []
  activated := false
  recovered := []

theorem start_idle (old : α) (lower : Bool) : Idle old (World.start old lower) :=
  ⟨⟨rfl, rfl, fun _ hs => by cases hs⟩, rfl, rfl, by simp [World.start]⟩

inductive Finish where
  | commit (keepPrevious : Bool)
  | rollback
  | abandon

section
variable [DecidableEq α] [EmptyCollection α]

def Finish.run : Finish → Fs α Unit
  | .commit keepPrevious => Install.commit keepPrevious
  | .rollback => discard <| Install.rollback
  | .abandon => Install.abandon
where
  discard (p : Fs α Bool) : Fs α Unit := do let _ ← p

/-- A whole transaction. The installer leaves one entry after another at the candidate path, before and after
`mark_building`. -/
def transaction (before after : List (Entry α)) (finish : Finish) : Fs α Unit := do
  prepare
  forEach build before
  markBuilding
  forEach build after
  activate
  finish.run

def candidateOf (before after : List (Entry α)) : Entry α := after.getLastD (before.getLastD (.dir ∅))

theorem finish_spec {old : α} {new : Entry α} {w : World α} (finish : Finish) (h : Activated old new w) :
    wp Fate.NoRaise finish.run (fun _ => Safe old new) (fun _ => Safe old new) (Safe old new) w := by
  have safe {p : Fs α Unit}
      (hp : wp Fate.NoRaise p (fun _ => Pending old) (fun _ => Pending old) (Pending old) w) :
      wp Fate.NoRaise p (fun _ => Safe old new) (fun _ => Safe old new) (Safe old new) w :=
    wp_mono hp (fun _ _ h => h.safe) (fun _ _ h => h.safe) (fun _ h => h.safe)
  cases finish with
  | commit keepPrevious => exact commit_spec keepPrevious h
  | rollback =>
      exact safe (wp_bind (wp_mono (rollback_spec h) (fun _ _ h => wp_pure h) (fun _ _ h => h)
        (fun _ h => h)))
  | abandon => exact safe (abandon_spec h)

theorem transaction_spec (old : α) (lower : Bool) (before after : List (Entry α)) (finish : Finish) :
    wp Fate.NoRaise (transaction before after finish) (fun _ => Safe old (candidateOf before after))
      (fun _ => Safe old (candidateOf before after)) (Safe old (candidateOf before after))
      (World.start old lower) := by
  have pend {β : Type} {p : Fs α β} {Q : β → World α → Prop} {w : World α}
      (hp : wp Fate.NoRaise p Q (fun _ => Pending old) (Pending old) w) :
      wp Fate.NoRaise p Q (fun _ => Safe old (candidateOf before after))
        (Safe old (candidateOf before after)) w :=
    wp_mono hp (fun _ _ h => h) (fun _ _ h => h.safe) (fun _ h => h.safe)
  refine wp_bind (pend (wp_mono (prepare_spec (start_idle old lower) rfl) ?_ (fun _ _ h => h)
    (fun _ h => h)))
  rintro _ w₁ ⟨h₁, hc₁⟩
  refine wp_bind (pend (wp_mono (builds_spec before h₁ hc₁) ?_ (fun _ _ h => h) (fun _ h => h)))
  rintro _ w₂ ⟨h₂, hc₂⟩
  refine wp_bind (pend (wp_mono (markBuilding_spec h₂ hc₂) ?_ (fun _ _ h => h) (fun _ h => h)))
  rintro _ w₃ ⟨h₃, hc₃⟩
  refine wp_bind (pend (wp_mono (builds_spec after h₃ hc₃) ?_ (fun _ _ h => h) (fun _ h => h)))
  rintro _ w₄ ⟨h₄, hc₄⟩
  exact wp_bind (pend (wp_mono (activate_spec h₄ hc₄) (fun _ _ h => finish_spec finish h)
    (fun _ _ h => h) (fun _ h => h)))

/-! ## Crash recovery -/

/-- The process may die at any call of the transaction and at any call of every recovery after that. -/
theorem recover_after_deaths (old : α) (lower : Bool) (before after : List (Entry α)) (finish : Finish)
    (fs fs' : List (Fate Exc α)) {rest : List (Fate Exc α)} {w w' : World α} {u : Unit}
    (hfs : ∀ f ∈ fs, f.NoRaise)
    (hd : Deaths Fate.NoRaise World.boot recoverIncomplete
      (transaction before after finish (World.start old lower) fs).state w)
    (hfs' : ∀ f ∈ fs', f.NoRaise) (hr : recoverIncomplete w.boot fs' = .done u w' rest) :
    w'.entry .target =
      if JournalState.committing ∈
          (transaction before after finish (World.start old lower) fs).state.written
      then some (candidateOf before after) else some (.dir old) := by
  have hsafe := wp_state (transaction_spec old lower before after finish) hfs
  split
  · rename_i hc
    have hrec : ∀ w : World α, Committed (candidateOf before after) w →
        wp Fate.NoRaise recoverIncomplete (fun _ => Committed (candidateOf before after))
          (fun _ _ => False) (Committed (candidateOf before after)) w.boot :=
      fun w hw => recoverIncomplete_committed hw
    have hw := hd.recover hrec (hsafe.committed hc)
    exact (wp_done (hrec w hw) hfs' hr).1
  · rename_i hc
    have hrec : ∀ w : World α, Restorable old w →
        wp Fate.NoRaise recoverIncomplete
          (fun _ w' => Restorable old w' ∧ w'.entry .target = some (.dir old))
          (fun _ _ => False) (Restorable old) w.boot :=
      fun w hw => recoverIncomplete_spec hw
    have hw := hd.recover hrec (hsafe.pending hc)
    exact (wp_done (hrec w hw) hfs' hr).2

end

theorem recover_after_deaths_overlay : ∃ w' : World (List String),
    recoverIncomplete ((recoverIncomplete ((transaction [.dir ["v2"]] [] .rollback
      (World.start ["v1"] true) (List.replicate 15 .ok ++ [.die ["part"]])).state.boot)
      [.ok, .ok, .ok, .ok, .ok, .die []]).state.boot) [] = .done () w' [] ∧
      w'.entry .target = some (.dir ["v1"]) := by
  have hfs : ∀ f ∈ (List.replicate 15 .ok ++ [.die ["part"]] : List (Fate Exc (List String))),
      f.NoRaise := by simp [Fate.NoRaise]
  have hfs' : ∀ f ∈ ([.ok, .ok, .ok, .ok, .ok, .die []] : List (Fate Exc (List String))),
      f.NoRaise := by simp [Fate.NoRaise]
  exact ⟨_, rfl, recover_after_deaths ["v1"] true [.dir ["v2"]] [] .rollback _ [] hfs
    (.again hfs' rfl (.refl _)) (by simp) rfl⟩

/-! ## Failed activation -/

/-- One call of `activate` raises and its handler restores the old release. -/
theorem followUps_keep_iff [DecidableEq α] [EmptyCollection α] {old : α} {w w₁ : World α} (h : Ready old w)
    (i : Nat) {c : Call} (hc : (activateCalls w.lower)[i]? = some c) (errno : Errno) (t : α) {x : Exc}
    {rest : List (Fate Exc α)} (hr : activate w (failAt i errno t) = .raised x w₁ rest)
    (seq : List FollowUp) :
    (∃ w₂, forEach FollowUp.run seq w₁ [] = .done () w₂ [] ∧ w₂.entry .target = some (.dir old)) ↔
      (c ≠ .writeJournal .activated ∨ seq = []) := by
  have hf := activate_fails h i hc errno t
  rw [hr] at hf
  obtain ⟨hk, ha, hl⟩ := hf
  by_cases hact : w₁.activated = true
  · have hce := ha.1 hact
    cases seq with
    | nil => exact ⟨fun _ => .inr rfl, fun _ => ⟨w₁, rfl, hk.1⟩⟩
    | cons f seq =>
      obtain ⟨w₂, h₂, hs₂⟩ := followUp_activated hk hact (hl hact) f
      obtain ⟨w₃, h₃, hs₃⟩ := followUps_settled seq hs₂
      have hrun : forEach FollowUp.run (f :: seq) w₁ [] = .done () w₃ [] := by
        simp [forEach, run_bind, h₂, h₃]
      constructor
      · rintro ⟨w', h', ht'⟩
        rw [hrun] at h'
        cases h'
        rw [hs₃.target] at ht'
        cases ht'
      · rintro (h' | h')
        · exact absurd hce h'
        · cases h'
  · have hs : Settled (some (.dir old)) w₁ := ⟨hk.1, hk.2, by simpa using hact⟩
    obtain ⟨w₂, h₂, hs₂⟩ := followUps_settled seq hs
    exact ⟨fun _ => .inl fun hce => hact (ha.2 hce), fun _ => ⟨w₂, h₂, hs₂.target⟩⟩

def ready (lower : Bool) : World (List String) :=
  (World.start ["v1"] lower).set .candidate (some (.dir ["v2"]))

theorem ready_ready (lower : Bool) : Ready ["v1"] (ready lower) :=
  ⟨rfl, rfl, rfl, ⟨["v2"], .inl rfl⟩, rfl⟩

theorem followUps_keep_rename : ∃ w₁ w₂ : World (List String),
    activate (ready false) (failAt 4 .eio []) =
      .raised (.transaction "failed activating install candidate") w₁ [] ∧
    forEach FollowUp.run [.abandon, .rollback] w₁ [] = .done () w₂ [] ∧
      w₂.entry .target = some (.dir ["v1"]) := by
  obtain ⟨w₂, h⟩ := (followUps_keep_iff (ready_ready false) 4 (c := .replace .candidate .target) rfl .eio []
    rfl [.abandon, .rollback]).2 (.inl (by decide))
  exact ⟨_, w₂, rfl, h⟩

/-- The write of `activated` raises, and `abandon` leaves no target at all. -/
theorem followUps_lose_target : ∃ w₁ w₂ : World (List String),
    activate (ready false) (failAt 5 .eio []) =
      .raised (.transaction "failed activating install candidate") w₁ [] ∧
    w₁.entry .target = some (.dir ["v1"]) ∧
    forEach FollowUp.run [.abandon] w₁ [] = .done () w₂ [] ∧ w₂.entry .target = none :=
  ⟨_, _, rfl, rfl, rfl, rfl⟩

/-! ## Runtime rollback -/

section
open Py Tree

variable {γ : Type}

def Untouched (persistent : List Path) (now files : Files γ) : Prop :=
  ∀ p node, node ≠ .dir → covers persistent p = true → (files.get? p = some node ↔ now.get? p = some node)

def Recovered (persistent : List Path) (before files : Files γ) : Prop :=
  ∀ p node, node ≠ .dir → covers persistent p = false → (files.get? p = some node ↔ before.get? p = some node)

/-- Whatever has become of the target since the capture, a rollback keeps the persistent files and recovers
the others if and only if every persistent file there is lies below a top-level entry that is persistent. -/
theorem runtimeRollback_iff (resolve : Path → Path) (target : Path) (values : List Given) {before now : Files γ}
    (old : Option (Files γ)) {place : Place γ} (hbefore : Closed before) (hplace : Runtime.opened place = some now)
    (hnow : Closed now) :
    let persistent := normalize resolve target values
    ∃ s files, Runtime.capture persistent ⟨.dir before, old⟩ = (true, s) ∧
      Runtime.rollback persistent { s with target := place } = (true, { s with target := .dir files }) ∧
      (Untouched persistent now files ∧ Recovered persistent before files ↔
        ∀ p node, now.get? p = some node → node ≠ .dir → covers persistent p = true →
          covers persistent (Runtime.top p) = true) := by
  intro persistent
  obtain ⟨files, hroll, hview⟩ := @Runtime.rollback_view _ persistent before
    ⟨place, some (before.filter fun e => !Runtime.ignored persistent e.1)⟩ now hplace hbefore hnow rfl
  refine ⟨⟨.dir before, _⟩, files, rfl, hroll, ?_⟩
  constructor
  · rintro ⟨hun, -⟩ p node hp hne hc
    have hfile := (hun p node hne hc).2 hp
    rw [hview, if_pos hc] at hfile
    by_contra ht
    rw [if_neg ht] at hfile
    cases hfile
  · intro h
    refine ⟨fun p node hne hc => ?_, fun p node hne hc => ?_⟩
    · rw [hview, if_pos hc]
      by_cases ht : covers persistent (Runtime.top p) = true
      · rw [if_pos ht]
      · rw [if_neg ht]
        exact ⟨nofun, fun hn => absurd (h p node hn hne hc) ht⟩
    · rw [hview, if_neg (by simp [hc])]

def configTree (database service : String) : Files String :=
  [(["config"], .dir), (["config", "db"], .file database), (["service"], .file service)]

theorem configTree_closed (database service : String) : Closed (configTree database service) := by
  refine closed_of_items (by simp [configTree, Dict.keys]) (by simp [configTree, Dict.keys]) ?_
  simp only [configTree, List.mem_cons, List.not_mem_nil, or_false, forall_eq_or_imp, forall_eq, List.inits]
  simp [Dict.get?]

theorem runtimeRollback_config : ∃ files : Files String,
    Untouched [["config"]] (configTree "new" "new") files ∧
      Recovered [["config"]] (configTree "old" "old") files := by
  have hopened : Runtime.opened (.dir (configTree "new" "new")) = some (configTree "new" "new") := rfl
  obtain ⟨-, files, -, -, h⟩ := runtimeRollback_iff id [] [⟨false, ["config"]⟩] none
    (configTree_closed "old" "old") hopened (configTree_closed "new" "new")
  refine ⟨files, h.2 fun p node _ _ hc => ?_⟩
  cases p with
  | nil => exact absurd hc (by decide)
  | cons n rest => simpa [Runtime.top, covers, normalize, relativeTo] using hc

/-- With only `config/db` persistent the rollback deletes the database with the rest of `config`. -/
theorem runtimeRollback_loses_nested : ∃ s files : _,
    Runtime.capture [["config", "db"]] ⟨.dir (configTree "old" "old"), none⟩ = (true, s) ∧
      Runtime.rollback [["config", "db"]] { s with target := .dir (configTree "new" "new") } =
        (true, { s with target := .dir files }) ∧
      covers [["config", "db"]] ["config", "db"] = true ∧ files.get? ["config", "db"] = none :=
  ⟨_, _, rfl, rfl, rfl, rfl⟩

/-! ## Deferred clear -/

/-- What the target may have become before the rollback: new entries that are not excluded after a complete
capture, nothing else after one that stopped at a rename. -/
def Clear.Written (excluded : List Path) (tree : Files γ) (s : Clear γ) (after : Files γ) : Prop :=
  if s.captureComplete = true then Closed after ∧ ∀ p, covers excluded p = true → after.get? p = tree.get? p
  else after = s.target

/-- The rollback brings the tree back, excluded paths and all, if and only if the capture visited no directory
with nothing but directories below it: those are removed and no backup knows of them. -/
theorem deferredClear_iff (resolve : Path → Path) (target : Path) (values : List Given) (fails : Path → Bool)
    {tree after : Files γ} {visits visits' : List Path} (hclosed : Closed tree) (hw : WalkOrder tree visits)
    (hw' : WalkOrder after visits')
    (hafter : Clear.Written (normalize resolve target values) tree
      (Clear.capture (normalize resolve target values) fails visits tree) after) :
    let excluded := normalize resolve target values
    ∃ r, Clear.rollback excluded visits' { Clear.capture excluded fails visits tree with target := after } =
        (true, r) ∧
      ((∀ p, r.target.get? p = tree.get? p) ↔
        ∀ p ∈ Clear.handled excluded fails tree visits, ¬ Clear.Hollow excluded tree p) := by
  dsimp only
  generalize normalize resolve target values = excluded at hafter ⊢
  have h := @Clear.capture_captured _ excluded tree visits fails hclosed hw
  generalize Clear.capture excluded fails visits tree = s at h hafter ⊢
  have hprefix : Clear.handled excluded fails tree visits <+: visits := List.takeWhile_prefix _
  -- what the rollback copies the backup into
  have hcleared : Clear.Cleared excluded tree (Clear.handled excluded fails tree visits)
      (if s.captureComplete then visits'.foldl (Clear.clearVisit excluded) after else after) := by
    unfold Clear.Written at hafter
    split
    · rename_i hcomplete
      rw [if_pos hcomplete] at hafter
      obtain ⟨hclosed', hsame⟩ := hafter
      rw [h.complete hcomplete]
      exact (Clear.clearVisits_cleared hclosed' hw' visits' [] rfl Clear.cleared_nil).of_later hclosed hclosed' hw hw'
        hsame
    · rename_i hpartial
      rw [if_neg hpartial] at hafter
      rw [hafter]
      exact h.cleared
  obtain ⟨files, hcopy, hiff⟩ := Clear.restore_iff hclosed hw hprefix hcleared h.kept
  refine ⟨⟨files, [], false, false⟩, ?_, hiff⟩
  simp [Clear.rollback, h.captured, hcopy]

def serviceTree (name : String) : Files String := [(["db"], .file "rows"), ([name], .file name)]

theorem serviceTree_closed {name : String} (h : name ≠ "db") : Closed (serviceTree name) := by
  refine closed_of_items (by simp [serviceTree, Dict.keys, h.symm]) (by simp [serviceTree, Dict.keys]) ?_
  simp only [serviceTree, List.mem_cons, List.not_mem_nil, or_false, forall_eq_or_imp, forall_eq, List.inits]
  simp

theorem serviceTree_walk {name : String} (h : name ≠ "db") :
    WalkOrder (serviceTree name) [["db"], [name]] :=
  walkOrder_of_perm (serviceTree_closed h).distinct (.refl _) (by simp [h.symm])

theorem deferredClear_service : ∃ r, Clear.rollback [["db"]] [["db"], ["v2"]]
      { Clear.capture [["db"]] (fun _ => false) [["db"], ["v1"]] (serviceTree "v1") with
        target := serviceTree "v2" } = (true, r) ∧
    ∀ p, r.target.get? p = (serviceTree "v1").get? p := by
  have hne : ∀ v ∈ ["v1", "v2"], v ≠ "db" := by decide
  have hafter : Clear.Written (normalize id [] [⟨false, ["db"]⟩]) (serviceTree "v1")
      (Clear.capture (normalize id [] [⟨false, ["db"]⟩]) (fun _ => false) [["db"], ["v1"]] (serviceTree "v1"))
      (serviceTree "v2") := by
    refine ⟨serviceTree_closed (by decide), fun p hp => ?_⟩
    have hp' : ["db"] <+: p := by simpa [covers, normalize, relativeTo] using hp
    obtain ⟨rest, rfl⟩ := hp'
    cases rest <;> simp [serviceTree, Dict.get?]
  obtain ⟨r, hr, h⟩ := deferredClear_iff id [] [⟨false, ["db"]⟩] (fun _ => false)
    (serviceTree_closed (by decide)) (serviceTree_walk (by decide)) (serviceTree_walk (by decide)) hafter
  refine ⟨r, hr, h.2 fun p hp hollow => ?_⟩
  have hmem : p ∈ [["db"], ["v1"]] := (List.takeWhile_prefix _).subset hp
  have hdir := hollow.1
  simp only [List.mem_cons, List.not_mem_nil, or_false] at hmem
  rcases hmem with rfl | rfl <;> simp [serviceTree, Dict.get?] at hdir

/-- An empty directory does not come back. -/
theorem deferredClear_loses_empty : ∃ r : Clear String,
    Clear.rollback [] [] (Clear.capture [] (fun _ => false) [["cache"]] [(["cache"], .dir)]) = (true, r) ∧
      r.target.get? ["cache"] = none :=
  ⟨_, rfl, rfl⟩

end

end Dumb.Install

/-! ## The clears of a failed run -/

namespace Dumb.Install.Deferred

open Py Tree

variable {γ : Type}

def Run.start (fs : Files γ) : Run γ := { files := fs, transactions := [], sound := true }

def Run.attempts (s : Run γ) : List Bool := (attemptAll s.transactions.reverse s.files).1

def RolledBack (s : Run γ) : Prop :=
  ∀ k : Nat, s.attempts[k]? = some true →
    ∃ t : Transaction, (rollbackAll s.transactions.reverse s.files).2.1[k]? = some t ∧ t.captured = false

def Unfailing (s : Run γ) : Prop := s.sound = true ∧ ∀ ok ∈ s.attempts, ok = true

/-- Outside their excluded paths the cleared directories have the files and links that they had. -/
def BroughtBack (s : Run γ) (before after : Files γ) : Prop :=
  ∀ t ∈ s.transactions, ∀ p, t.1.Concerns p → leaf after p = leaf before p

theorem failedRun_files {process : String} {steps : List (Step γ)} {ending : Ending} {fs : Files γ}
    (hfail : ending ≠ .success) : (setupProject process steps ending fs).2 =
      (rollbackAll (runSteps steps (Run.start fs)).transactions.reverse (runSteps steps (Run.start fs)).files).2.2 := by
  have hresult : (ending.result process).1 = false := by
    cases ending with
    | success => exact absurd rfl hfail
    | error text => rfl
    | raised text => rfl
  simp only [setupProject, finish, hresult, Bool.false_eq_true, ↓reduceIte]
  split
  · rfl
  split <;> rfl

def quietCapture : CaptureCalls String := ⟨.deepest _, false, fun _ => false⟩

def undoing (full : Bool) : RollbackCalls String := ⟨.deepest _, none, fun _ => full, none⟩

def clearOf (directory identifier : String) (full : Bool) : Step String :=
  .clear ⟨[directory], [], id, identifier, quietCapture, undoing false, undoing full⟩

def services : Files String :=
  [(["a"], .dir), (["a", "bin"], .file "v1"), (["b"], .dir), (["b", "bin"], .file "v1")]

theorem services_closed : Closed services := by
  apply closed_of_items (by simp [services, Dict.keys]) (by simp [services, Dict.keys])
  simp only [services, List.mem_cons, List.not_mem_nil, or_false, forall_eq_or_imp, forall_eq, List.inits]
  simp [Dict.get?]

def clearing (directory identifier : String) (captured : Bool) : Transaction :=
  ⟨[directory], identifier, [], captured, captured⟩

def release : List (Step String) := [clearOf "a" "1" false, .write ["a", "bin"] (.file "v2")]

theorem release_captures : (clearOf "a" "1" false).captures (Run.start services) = some (clearing "a" "1" false) := by
  decide +kernel

theorem release_transactions :
    (runSteps release (Run.start services)).transactions.map (·.1) = [clearing "a" "1" true] := by
  decide +kernel

end Dumb.Install.Deferred
