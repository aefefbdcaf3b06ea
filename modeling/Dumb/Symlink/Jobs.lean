import Dumb.Lib.Raise
import Dumb.Lib.Text
import Mathlib.Data.List.Nodup
import Mathlib.Data.List.Perm.Subperm

/-!
# Symlink jobs

The cache of background jobs of `api/api_state.py`: `create_symlink_job`, `update_symlink_job`, `get_symlink_job` and
`get_latest_symlink_job`. Each of them holds the lock, so that the calls of the router and of its workers come one after the
other.
-/

namespace Dumb.Symlink.Jobs

open Py

abbrev Payload : Type := Dict String Json

abbrev Cache : Type := Dict String Payload

structure Event where
  jobId : String
  event : String
  severity : String
  title : String
  message : Json
  serviceName : Json
  operation : Json

structure State where
  /-- `_symlink_job_cache` -/
  jobs : Cache
  events : List Event

section
variable (text : Text)

def word (value : Json) : String := text.lower (text.strip (if value.truthy then text.str value else ""))

def status (payload : Payload) : String := word text ((Json.obj payload).field "status")

def updatedAt (payload : Payload) : Int :=
  match (Json.obj payload).field "updated_at" with
  | .int n => n
  | _ => 0

def isTerminal (status : String) : Bool := ["completed", "error"].contains status

def isActive (status : String) : Bool := ["queued", "running"].contains status

def maxJobs : Nat := 500

def expired (now : Int) (payload : Payload) : Bool :=
  isTerminal (status text payload) && updatedAt payload ≠ 0 && updatedAt payload < now - 86400

def newestFirst (jobs : Cache) : Cache := jobs.mergeSort fun a b => updatedAt b.2 ≤ updatedAt a.2

def withoutExpired (now : Int) (jobs : Cache) : Cache := jobs.filter fun job => !expired text now job.2

def cleanupSymlinkJobs (now : Int) (jobs : Cache) : Cache :=
  if (withoutExpired text now jobs).length ≤ maxJobs then withoutExpired text now jobs
  else (newestFirst (withoutExpired text now jobs)).take maxJobs

def crowdedOut (now : Int) (jobs : Cache) : Cache :=
  if (withoutExpired text now jobs).length ≤ maxJobs then [] else (newestFirst (withoutExpired text now jobs)).drop maxJobs

def newPayload (now : Int) (jobId processName operation : String) (metadata : Json) : Payload :=
  [("job_id", .str jobId), ("process_name", .str processName),
    ("operation", .str (if text.strip operation = "" then "unknown" else text.strip operation)), ("status", .str "queued"),
    ("created_at", .int now), ("updated_at", .int now), ("metadata", if metadata.isObj then metadata else .obj []),
    ("result", .null), ("error", .null)]

def createSymlinkJob (now : Int) (jobId processName operation : String) (metadata : Json) (s : State) : State :=
  { s with jobs := Dict.set jobId (newPayload text now jobId processName operation metadata) (cleanupSymlinkJobs text now s.jobs) }

def amend (now : Int) (updates payload : Payload) : Payload :=
  Dict.set "updated_at" (.int now) (updates.foldl (fun payload u => Dict.set u.1 u.2 payload) payload)

def terminalEvent (jobId : String) (payload : Payload) : Event :=
  let field := (Json.obj payload).field
  let processName := if (field "process_name").truthy then field "process_name" else .str "DUMB"
  let operation := if (field "operation").truthy then field "operation" else .str "symlink job"
  let succeeded : Bool := match field "status" with
    | .str status => status = "completed"
    | _ => false
  { jobId
    event := if succeeded then "symlink.job.succeeded" else "symlink.job.failed"
    severity := if succeeded then "success" else "critical"
    title := "Symlink " ++ text.str operation ++ (if succeeded then " completed" else " failed") ++ " for " ++ text.str processName
    message :=
      if succeeded then .str "The background symlink operation completed successfully."
      else if (field "error").truthy then field "error" else .str "Review DUMB logs for details."
    serviceName := processName
    operation }

def updateSymlinkJob (now : Int) (jobId : String) (updates : Payload) (s : State) : State :=
  if jobId = "" then s
  else
    match Dict.get? jobId s.jobs with
    | none => s
    | some payload =>
      let next := amend now updates payload
      { jobs := Dict.set jobId next s.jobs
        events :=
          if isTerminal (status text next) && status text next ≠ status text payload then s.events ++ [terminalEvent text jobId next]
          else s.events }

def getSymlinkJob (jobId : String) (s : State) : Option Payload := if jobId = "" then none else Dict.get? jobId s.jobs

def normalizeProcessName (value : Json) : String :=
  text.lower (text.strip (replace "/ " "/" (replace " " "" (if value.truthy then text.str value else ""))))

def isCandidate (processName operation : String) (activeOnly : Bool) (payload : Payload) : Bool :=
  normalizeProcessName text ((Json.obj payload).field "process_name") = normalizeProcessName text (.str processName) &&
    (word text (.str operation) = "" || word text ((Json.obj payload).field "operation") = word text (.str operation)) &&
    (!activeOnly || isActive (status text payload))

def getLatestSymlinkJob (processName operation : String) (activeOnly : Bool) (s : State) : Option Payload :=
  let candidates := (Dict.values s.jobs).filter (isCandidate text processName operation activeOnly)
  (candidates.mergeSort fun a b => updatedAt b ≤ updatedAt a).head?

/-! ## Runs -/

inductive Call where
  | create (now : Int) (jobId processName operation : String) (metadata : Json)
  | update (now : Int) (jobId : String) (updates : Payload)

def State.after (s : State) : Call → State
  | .create now jobId processName operation metadata => createSymlinkJob text now jobId processName operation metadata s
  | .update now jobId updates => updateSymlinkJob text now jobId updates s

/-- The jobs as their callers know them, whatever is in the cache: those with no terminal update yet, and those that have had
one. -/
structure Ledger where
  unfinished : Cache
  finished : List String

def Ledger.after (l : Ledger) : Call → Ledger
  | .create now jobId processName operation metadata =>
    { l with unfinished := Dict.set jobId (newPayload text now jobId processName operation metadata) l.unfinished }
  | .update now jobId updates =>
    match Dict.get? jobId l.unfinished with
    | none => l
    | some payload =>
      let next := amend now updates payload
      if isTerminal (status text next) then ⟨Dict.erase jobId l.unfinished, l.finished ++ [jobId]⟩
      else { l with unfinished := Dict.set jobId next l.unfinished }

structure Run where
  state : State
  ledger : Ledger

def Run.start : Run := ⟨⟨[], []⟩, ⟨[], []⟩⟩

def Run.after (r : Run) (call : Call) : Run := ⟨r.state.after text call, r.ledger.after text call⟩

def Run.Fresh (r : Run) : Call → Prop
  | .create _ jobId _ _ _ => jobId ≠ "" ∧ jobId ∉ Dict.keys r.ledger.unfinished ∧ jobId ∉ r.ledger.finished
  | .update _ _ _ => True

/-- What is promised of every state: active jobs are found, under their identifiers and as the latest of their processes, and
every job that has finished was notified once. -/
structure Run.Kept (r : Run) : Prop where
  found : ∀ jobId payload, Dict.get? jobId r.ledger.unfinished = some payload → isActive (status text payload) = true →
    getSymlinkJob jobId r.state = some payload
  latest : ∀ processName operation jobId payload, Dict.get? jobId r.ledger.unfinished = some payload →
    isCandidate text processName operation true payload = true →
    ∃ found, getLatestSymlinkJob text processName operation true r.state = some found ∧
      isCandidate text processName operation true found = true
  notified : ∀ jobId, (r.state.events.map (·.jobId)).count jobId = if jobId ∈ r.ledger.finished then 1 else 0

/-- What is promised of every call: it does not evict an active job while it keeps a finished one. -/
def Run.EvictsInOrder (r : Run) (call : Call) : Prop :=
  ∀ jobId payload, Dict.get? jobId r.state.jobs = some payload → isActive (status text payload) = true →
    jobId ∉ Dict.keys (r.after text call).state.jobs →
    ∀ job ∈ (r.after text call).state.jobs, isTerminal (status text job.2) = false

def Run.Allowed (r : Run) : Call → Prop
  | .create now _ _ _ _ => ∀ job ∈ crowdedOut text now r.state.jobs, isTerminal (status text job.2) = true
  | .update now jobId updates => ∀ payload ∈ Dict.get? jobId r.state.jobs, jobId ∈ r.ledger.finished →
      isTerminal (status text (amend now updates payload)) = true →
      status text (amend now updates payload) = status text payload

instance : ∀ (r : Run) (call : Call), Decidable (r.Fresh call)
  | _, .create .. => inferInstanceAs (Decidable (_ ∧ _ ∧ _))
  | _, .update .. => .isTrue trivial

instance : ∀ (r : Run) (call : Call), Decidable (r.Allowed text call)
  | _, .create .. => inferInstanceAs (Decidable (∀ job ∈ crowdedOut _ _ _, _))
  | r, .update now jobId updates =>
    inferInstanceAs (Decidable (∀ payload ∈ Dict.get? jobId r.state.jobs, jobId ∈ r.ledger.finished →
      isTerminal (status text (amend now updates payload)) = true →
      status text (amend now updates payload) = status text payload))

/-! ## What a cleanup keeps -/

variable {text}

variable {job : String × Payload} {jobs : Cache}

theorem mem_newestFirst : job ∈ newestFirst jobs ↔ job ∈ jobs :=
  (List.mergeSort_perm jobs _).mem_iff

variable {now : Int}

theorem mem_of_cleanup (h : job ∈ cleanupSymlinkJobs text now jobs) :
    job ∈ jobs := by
  unfold cleanupSymlinkJobs at h
  split at h
  · exact List.mem_of_mem_filter h
  · exact List.mem_of_mem_filter (mem_newestFirst.1 (List.mem_of_mem_take h))

theorem nodup_cleanup (h : (Dict.keys jobs).Nodup) :
    (Dict.keys (cleanupSymlinkJobs text now jobs)).Nodup := by
  have hfresh : (Dict.keys (withoutExpired text now jobs)).Nodup := Dict.nodup_keys_filter h
  unfold cleanupSymlinkJobs
  split
  · exact hfresh
  · have hsorted : (Dict.keys (newestFirst (withoutExpired text now jobs))).Nodup :=
      ((List.mergeSort_perm _ _).map _).nodup_iff.2 hfresh
    exact hsorted.sublist ((List.take_sublist _ _).map _)

theorem length_cleanup (now : Int) (jobs : Cache) : (cleanupSymlinkJobs text now jobs).length ≤ maxJobs := by
  unfold cleanupSymlinkJobs
  split
  · assumption
  · exact List.length_take_le _ _

theorem kept_by_cleanup (hmem : job ∈ jobs)
    (hpending : isTerminal (status text job.2) = false)
    (hcrowd : ∀ job ∈ crowdedOut text now jobs, isTerminal (status text job.2) = true) :
    job ∈ cleanupSymlinkJobs text now jobs := by
  have hfresh : job ∈ withoutExpired text now jobs := List.mem_filter.2 ⟨hmem, by simp [expired, hpending]⟩
  unfold crowdedOut at hcrowd
  unfold cleanupSymlinkJobs
  split
  · exact hfresh
  · rename_i hmany
    rw [if_neg hmany] at hcrowd
    rw [← mem_newestFirst, ← List.take_append_drop maxJobs (newestFirst _), List.mem_append] at hfresh
    cases hfresh with
    | inl htake => exact htake
    | inr hdrop =>
      rw [hcrowd job hdrop] at hpending
      cases hpending

@[simp] theorem status_newPayload (now : Int) (jobId processName operation : String) (metadata : Json) :
    status text (newPayload text now jobId processName operation metadata) = "queued" := by
  have hfield : (Json.obj (newPayload text now jobId processName operation metadata)).field "status" = .str "queued" := rfl
  have hplain : Plain "queued" := by decide
  have htrue : (Json.str "queued").truthy = true := by decide
  rw [status, hfield, word, if_pos htrue, text.str_str, text.strip_plain hplain, text.lower_plain hplain]
  decide

/-! ## The invariant -/

variable (text)

/-- Unfinished jobs are in the cache as their callers know them, every other job of the cache has finished, and exactly the
finished jobs were notified. -/
structure Run.Sound (r : Run) : Prop where
  nodup : (Dict.keys r.state.jobs).Nodup
  named : Dict.get? "" r.ledger.unfinished = none
  cached : ∀ jobId payload, Dict.get? jobId r.ledger.unfinished = some payload →
    Dict.get? jobId r.state.jobs = some payload ∧ isTerminal (status text payload) = false
  known : ∀ jobId payload, Dict.get? jobId r.state.jobs = some payload →
    Dict.get? jobId r.ledger.unfinished = none → jobId ∈ r.ledger.finished
  apart : ∀ jobId ∈ r.ledger.finished, Dict.get? jobId r.ledger.unfinished = none
  notified : ∀ jobId, (r.state.events.map (·.jobId)).count jobId = if jobId ∈ r.ledger.finished then 1 else 0

theorem sound_start : Run.start.Sound text where
  nodup := List.nodup_nil
  named := rfl
  cached _ _ h := by cases h
  known _ _ h := by cases h
  apart _ h := by cases h
  notified _ := rfl

variable {text}

variable {r : Run}

theorem Run.Sound.create (h : r.Sound text) {jobId processName operation : String} {metadata : Json}
    (hfresh : r.Fresh (.create now jobId processName operation metadata))
    (hallowed : r.Allowed text (.create now jobId processName operation metadata)) :
    (r.after text (.create now jobId processName operation metadata)).Sound text := by
  obtain ⟨hname, hnew, hnot⟩ := hfresh
  have hclean : (Dict.keys (cleanupSymlinkJobs text now r.state.jobs)).Nodup := nodup_cleanup h.nodup
  constructor <;> simp only [Run.after, State.after, Ledger.after, createSymlinkJob]
  case nodup => exact Dict.nodup_keys_set hclean
  case named => rw [Dict.get?_set_ne (Ne.symm hname), h.named]
  case cached =>
    intro other payload hother
    rw [Dict.get?_set] at hother ⊢
    split at hother
    · rename_i heq
      rw [if_pos heq]
      cases hother
      exact ⟨rfl, by rw [status_newPayload]; rfl⟩
    · rename_i hne
      obtain ⟨hjob, hpending⟩ := h.cached other payload hother
      rw [if_neg hne]
      exact ⟨Dict.get?_of_mem hclean (kept_by_cleanup (Dict.mem_of_get? hjob) hpending hallowed), hpending⟩
  case known =>
    intro other payload hjob hother
    rw [Dict.get?_set] at hjob hother
    split at hother
    · cases hother
    · rename_i hne
      rw [if_neg hne] at hjob
      exact h.known other payload (Dict.get?_of_mem h.nodup (mem_of_cleanup (Dict.mem_of_get? hjob))) hother
  case apart =>
    intro other hother
    rw [Dict.get?_set_ne, h.apart other hother]
    rintro rfl
    exact hnot hother
  case notified => exact h.notified

theorem Run.Sound.update (h : r.Sound text) {jobId : String} {updates : Payload}
    (hallowed : r.Allowed text (.update now jobId updates)) : (r.after text (.update now jobId updates)).Sound text := by
  simp only [Run.after, State.after, Ledger.after, updateSymlinkJob]
  by_cases hname : jobId = ""
  · subst hname
    rw [if_pos rfl, h.named]
    exact h
  rw [if_neg hname]
  have hcached := h.cached jobId
  have hknown := h.known jobId
  have hapart := h.apart jobId
  obtain ⟨hnodup, hnamed, hall, hothers, hdisjoint, hcount⟩ := h
  cases hjob : Dict.get? jobId r.state.jobs with
  | none =>
    cases hunf : Dict.get? jobId r.ledger.unfinished with
    | none => exact ⟨hnodup, hnamed, hall, hothers, hdisjoint, hcount⟩
    | some payload =>
      rw [(hcached payload hunf).1] at hjob
      cases hjob
  | some payload =>
    have hset : (Dict.keys (Dict.set jobId (amend now updates payload) r.state.jobs)).Nodup := Dict.nodup_keys_set hnodup
    cases hunf : Dict.get? jobId r.ledger.unfinished with
    | none =>
      -- The job has finished: another terminal update leaves its status.
      have hfin := hknown payload hjob hunf
      have hquiet : (isTerminal (status text (amend now updates payload)) &&
          status text (amend now updates payload) ≠ status text payload) = false := by
        cases hterm : isTerminal (status text (amend now updates payload)) with
        | false => rfl
        | true => simp [hallowed payload hjob hfin hterm]
      simp only [hquiet, Bool.false_eq_true, if_false]
      exact ⟨hset, hnamed, by grind [Dict.get?_set], by grind [Dict.get?_set], hdisjoint, hcount⟩
    | some known =>
      obtain ⟨heq, hpending⟩ := hcached known hunf
      obtain rfl : payload = known := by simpa [hjob] using heq
      have hout : jobId ∉ r.ledger.finished := by
        intro hfin
        rw [hapart hfin] at hunf
        cases hunf
      cases hterm : isTerminal (status text (amend now updates payload)) with
      | true =>
        have hchanged : status text (amend now updates payload) ≠ status text payload := by
          intro heq
          rw [heq, hpending] at hterm
          cases hterm
        have hcounted : ∀ other, ((r.state.events ++ [terminalEvent text jobId (amend now updates payload)]).map (·.jobId)).count
            other = if other ∈ r.ledger.finished ++ [jobId] then 1 else 0 := by
          intro other
          by_cases hself : other = jobId
          · simp [terminalEvent, hcount, hself, hout]
          · simp [terminalEvent, hcount, hself, Ne.symm hself]
        simp only [hterm, hchanged, ne_eq, not_false_eq_true, decide_true, Bool.and_self, if_true]
        exact ⟨hset, by grind [Dict.get?_erase], by grind [Dict.get?_set, Dict.get?_erase],
          by grind [Dict.get?_set, Dict.get?_erase], by grind [Dict.get?_erase], hcounted⟩
      | false =>
        simp only [hterm, Bool.false_and, Bool.false_eq_true, if_false]
        exact ⟨hset, by grind [Dict.get?_set], by grind [Dict.get?_set], by grind [Dict.get?_set], by grind [Dict.get?_set],
          hcount⟩

/-! ## Every run -/

theorem Run.Sound.kept (h : r.Sound text) : r.Kept text := by
  have hfound : ∀ jobId payload, Dict.get? jobId r.ledger.unfinished = some payload →
      getSymlinkJob jobId r.state = some payload := by
    intro jobId payload hunf
    rw [getSymlinkJob, (h.cached jobId payload hunf).1]
    split
    · rename_i hname
      rw [hname, h.named] at hunf
      cases hunf
    · rfl
  constructor
  case found => exact fun jobId payload hunf _ => hfound jobId payload hunf
  case latest =>
    intro processName operation jobId payload hunf hcandidate
    have hmem : payload ∈ (Dict.values r.state.jobs).filter (isCandidate text processName operation true) :=
      List.mem_filter.2 ⟨List.mem_map.2 ⟨_, Dict.mem_of_get? (h.cached jobId payload hunf).1, rfl⟩, hcandidate⟩
    rw [← (List.mergeSort_perm _ fun a b => updatedAt b ≤ updatedAt a).mem_iff] at hmem
    have hhead := List.head?_eq_some_head (List.ne_nil_of_mem hmem)
    have hfrom := (List.mergeSort_perm _ _).mem_iff.1 (List.mem_of_head? hhead)
    exact ⟨_, hhead, (List.mem_filter.1 hfrom).2⟩
  case notified => exact h.notified

theorem Run.evictsInOrder (h : r.Sound text) {call : Call} (hallowed : r.Allowed text call) :
    r.EvictsInOrder text call := by
  intro jobId payload hjob hactive hgone
  exfalso
  have hpending : isTerminal (status text payload) = false := by
    simp only [isActive, List.contains_eq_mem, List.mem_cons, List.not_mem_nil, or_false, decide_eq_true_eq] at hactive
    rcases hactive with heq | heq <;> rw [heq] <;> rfl
  cases call with
  | create now newId processName operation metadata =>
    have hkept := kept_by_cleanup (Dict.mem_of_get? hjob) hpending hallowed
    exact hgone (Dict.mem_keys.2 (by
      simp only [Run.after, State.after, createSymlinkJob, Dict.get?_set]
      split
      · simp
      · simp [Dict.get?_of_mem (nodup_cleanup h.nodup) hkept]))
  | update now other updates =>
    apply hgone
    rw [Dict.mem_keys]
    simp only [Run.after, State.after, updateSymlinkJob]
    split
    · simp [hjob]
    · split
      · simp [hjob]
      · grind [Dict.get?_set]

/-- Symlink jobs are never lost while active, in every run in which only finished jobs are crowded out and no finished job is
given another terminal status. -/
theorem active_jobs_stay (text : Text) (calls : List Call)
    (h : Along (Run.after text) (fun r call => r.Fresh call ∧ r.Allowed text call) Run.start calls) :
    Along (Run.after text) (fun r call => r.EvictsInOrder text call ∧ (r.after text call).Kept text) Run.start calls := by
  have hstep : ∀ (r : Run) call, r.Fresh call ∧ r.Allowed text call → r.Sound text → (r.after text call).Sound text := by
    rintro r call ⟨hfresh, hallowed⟩ hr
    cases call with
    | create => exact hr.create hfresh hallowed
    | update => exact hr.update hallowed
  apply (h.always hstep (sound_start text)).imp
  rintro r call - ⟨hboth, hr⟩
  exact ⟨Run.evictsInOrder hr hboth.2, (hstep r call hboth hr).kept⟩

end

def oneJob : List Call :=
  [.create 1 "a" "Decypharr" "repair" .null, .update 2 "a" [("status", .str "running")],
    .update 3 "a" [("status", .str "completed"), ("result", .int 4)], .update 4 "a" [("result", .int 5)]]

theorem active_jobs_stay_one :
    Along (Run.after Text.ascii) (fun r call => r.EvictsInOrder Text.ascii call ∧ (r.after Text.ascii call).Kept Text.ascii)
      Run.start oneJob := by
  apply active_jobs_stay
  decide +kernel

def name (n : Nat) : String := String.ofList (List.replicate (n + 1) 'a')

def crowd (n : Nat) : List Call := (List.range n).map fun i => .create 1 (name i) "Decypharr" "repair" .null

def completedThenFailed : List Call :=
  [.create 1 "a" "Decypharr" "repair" .null, .update 2 "a" [("status", .str "completed")], .update 3 "a" [("status", .str "error")]]

theorem name_inj {m n : Nat} (h : name m = name n) : m = n := by
  have hlength := congrArg String.length h
  simpa [name] using hlength

theorem length_create {text : Text} (now : Int) (jobId processName operation : String) (metadata : Json) (s : State) :
    (createSymlinkJob text now jobId processName operation metadata s).jobs.length ≤ maxJobs + 1 := by
  have hset : ∀ (payload : Payload) (jobs : Cache), (Dict.set jobId payload jobs).length ≤ jobs.length + 1 := by
    intro payload jobs
    fun_induction Dict.set jobId payload jobs with grind
  exact (hset _ _).trans (Nat.succ_le_succ (length_cleanup now s.jobs))

theorem after_crowd (n : Nat) :
    Along (Run.after Text.ascii) Run.Fresh Run.start (crowd n) ∧
      (∀ i, Dict.get? (name i) ((crowd n).foldl (Run.after Text.ascii) Run.start).ledger.unfinished =
        if i < n then some (newPayload Text.ascii 1 (name i) "Decypharr" "repair" .null) else none) ∧
      ((crowd n).foldl (Run.after Text.ascii) Run.start).ledger.finished = [] ∧
      ((crowd n).foldl (Run.after Text.ascii) Run.start).state.jobs.length ≤ maxJobs + 1 := by
  induction n with
  | zero => exact ⟨trivial, fun i => rfl, rfl, by decide⟩
  | succ n ih =>
    obtain ⟨hfresh, hqueued, hnone, -⟩ := ih
    have hcrowd : crowd (n + 1) = crowd n ++ [.create 1 (name n) "Decypharr" "repair" .null] := by
      simp [crowd, List.range_succ]
    rw [hcrowd, along_append, List.foldl_append]
    refine ⟨⟨hfresh, ⟨?_, ?_, ?_⟩, trivial⟩, ?_, hnone, length_create ..⟩
    · simp [name]
    · simp [Dict.mem_keys, hqueued]
    · rw [hnone]
      exact List.not_mem_nil
    · intro i
      simp only [List.foldl_cons, List.foldl_nil, Run.after, Ledger.after, Dict.get?_set]
      by_cases hi : i = n
      · simp [hi]
      · rw [if_neg (fun h => hi (name_inj h)), hqueued]
        grind

theorem crowd_lost {n : Nat} (hn : maxJobs + 1 < n) :
    Along (Run.after Text.ascii) Run.Fresh Run.start (crowd n) ∧
      ¬((crowd n).foldl (Run.after Text.ascii) Run.start).Kept Text.ascii := by
  obtain ⟨hfresh, hqueued, -, hlength⟩ := after_crowd n
  apply And.intro hfresh
  intro hkept
  have hall : (List.range n).map name ⊆ Dict.keys ((crowd n).foldl (Run.after Text.ascii) Run.start).state.jobs := by
    intro jobId hmem
    obtain ⟨i, hi, rfl⟩ := List.mem_map.1 hmem
    have hactive : isActive (status Text.ascii (newPayload Text.ascii 1 (name i) "Decypharr" "repair" .null)) = true := by
      rw [status_newPayload]
      rfl
    have hfound := hkept.found (name i) _ ((hqueued i).trans (if_pos (List.mem_range.1 hi))) hactive
    rw [Dict.mem_keys]
    simp only [getSymlinkJob] at hfound
    split at hfound
    · cases hfound
    · simp [hfound]
  have hnodup : ((List.range n).map name).Nodup := List.Nodup.map (fun _ _ h => name_inj h) List.nodup_range
  have hmany := (List.subperm_of_subset hnodup hall).length_le
  simp only [List.length_map, List.length_range, Dict.keys] at hmany
  exact absurd (hmany.trans hlength) (Nat.not_le.2 hn)

/-- Five hundred and two queued jobs do not fit into the cache, and a job that fails after it has completed is notified
twice. -/
theorem active_jobs_lost :
    (Along (Run.after Text.ascii) Run.Fresh Run.start (crowd 502) ∧
      ¬((crowd 502).foldl (Run.after Text.ascii) Run.start).Kept Text.ascii) ∧
      Along (Run.after Text.ascii) Run.Fresh Run.start completedThenFailed ∧
      ¬(completedThenFailed.foldl (Run.after Text.ascii) Run.start).Kept Text.ascii := by
  constructor
  · exact crowd_lost (by decide)
  constructor
  · decide +kernel
  · intro hkept
    have htwice := hkept.notified "a"
    revert htwice
    decide +kernel

theorem length_after {text : Text} {s : State} (hs : s.jobs.length ≤ maxJobs + 1) (call : Call) :
    (s.after text call).jobs.length ≤ maxJobs + 1 := by
  cases call with
  | create => exact length_create ..
  | update now jobId updates =>
    simp only [State.after, updateSymlinkJob]
    split
    · exact hs
    · cases hjob : Dict.get? jobId s.jobs with
      | none => exact hs
      | some payload =>
        have hkeys := Dict.keys_set jobId (amend now updates payload) s.jobs (Dict.mem_keys.2 (by simp [hjob]))
        have hlength := congrArg List.length hkeys
        simp only [Dict.keys, List.length_map] at hlength
        exact hlength.trans_le hs

end Dumb.Symlink.Jobs
