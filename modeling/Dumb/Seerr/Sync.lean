import Mathlib.Data.List.Basic
import Dumb.Lib.Dict

/-!
# Request sync from one Seerr server to others

From `utils/seerr_sync.py`. A Seerr server is given by what its API does. Any HTTP call may fail, before or after it
took effect, and any page may be short.
-/

namespace Dumb.Seerr

open Py

def requestStatusPending : Nat := 1
def requestStatusApproved : Nat := 2
def requestStatusDeclined : Nat := 3

structure Media where
  mediaType : String
  tmdbId : Nat
  is4k : Bool
  deriving DecidableEq

structure Request where
  id : Nat
  media : Media
  /-- `seasonNumber` of the seasons, where they have one. -/
  seasons : List (Option Nat)
  status : Nat
  deriving DecidableEq

structure Remote where
  id : Nat
  media : Media
  seasons : List Nat
  status : Nat
  deriving DecidableEq

structure Payload where
  media : Media
  seasons : Option (List Nat)

inductive Created where
  | created (id : Nat)
  | conflict
  | refused (message : String)

/-- A later state of a server: ids stay given out, and what has an old id has the media it had. -/
def Later {σ : Type} (requests : σ → List Remote) (issued : σ → Nat → Prop) (s s' : σ) : Prop :=
  (∀ id, issued s id → issued s' id) ∧
    ∀ r ∈ requests s', issued s r.id → ∃ r' ∈ requests s, r'.id = r.id ∧ r'.media = r.media

structure Api (σ : Type) where
  requests : σ → List Remote
  issued : σ → Nat → Prop
  create : Payload → σ → Created × σ
  /-- `/approve` and `/decline`: whether there is such a request. -/
  setStatus : Nat → Nat → σ → Bool × σ
  delete : Nat → σ → Bool × σ
  create_later (payload : Payload) (s : σ) : Later requests issued s (create payload s).2
  create_new {payload : Payload} {s : σ} {id : Nat} (h : (create payload s).1 = .created id) :
    ¬issued s id ∧ issued (create payload s).2 id ∧
      ∀ r ∈ requests (create payload s).2, r.id = id → r.media = payload.media
  setStatus_later (status id : Nat) (s : σ) : Later requests issued s (setStatus status id s).2
  delete_later (id : Nat) (s : σ) : Later requests issued s (delete id s).2

structure Options where
  syncPending : Bool := true
  syncApproved : Bool := true
  syncDeclined : Bool := false
  syncDeletes : Bool := true
  retryFailedAfterHours : Int := 24

/-- How an HTTP call fares: `lost` takes effect and raises all the same, `short` cuts a page. -/
inductive Fate where
  | answered
  | refused
  | lost
  | short (results : Nat)

/-! ## State file -/

structure SubState where
  id : Nat
  status : Nat
  syncedAt : Int

structure RequestState where
  primaryId : Option Nat
  subordinates : Dict String SubState

structure Failure where
  failedAt : Int
  error : String

structure SyncState where
  lastPoll : Option Int
  requests : Dict Media RequestState
  failed : Dict (Media × String) Failure

def SyncState.empty : SyncState := ⟨none, [], []⟩

def SyncState.subState (fp : Media) (label : String) (state : SyncState) : Option SubState :=
  (state.requests.get? fp).bind fun r => r.subordinates.get? label

def SyncState.record (fp : Media) (label : String) (sub : SubState) (state : SyncState) : SyncState :=
  let r := (state.requests.get? fp).getD ⟨none, []⟩
  { state with requests := state.requests.set fp { r with subordinates := r.subordinates.set label sub } }

def SyncState.setPrimaryId (fp : Media) (id : Nat) (state : SyncState) : SyncState :=
  let r := (state.requests.get? fp).getD ⟨some id, []⟩
  { state with requests := state.requests.set fp { r with primaryId := some id } }

/-! ## The cycle -/

structure Deletion where
  label : String
  id : Nat
  fp : Media
  found : Option Remote
  deriving DecidableEq

structure Cycle (σ : Type) where
  servers : String → σ
  calls : Nat
  deletions : List Deletion
  state : SyncState

structure Setting where
  options : Options
  subordinates : List String
  now : Int
  /-- Seconds west of UTC: `time.mktime` reads a UTC time as a local one. -/
  west : Int
  fate : Nat → Fate
  loads : Bool
  saves : Bool

section
variable (setting : Setting)

def wanted (options : Options) (r : Request) : Bool :=
  !(r.status = requestStatusPending && !options.syncPending) &&
    !(r.status = requestStatusApproved && !options.syncApproved) &&
    !(r.status = requestStatusDeclined && !options.syncDeclined)

def take : Nat := 100

def page (primary : List Request) (skip : Nat) : Fate → Option (List Request)
  | .answered => some ((primary.drop skip).take take)
  | .short results => some (((primary.drop skip).take take).take results)
  | .refused | .lost => none

def pollRequests (primary : List Request) (skip calls : Nat) : List Request × Nat :=
  match page primary skip (setting.fate calls) with
  | none => ([], calls + 1)
  | some results =>
    if results = [] then ([], calls + 1)
    else if h : primary.length ≤ skip + results.length then (results.filter (wanted setting.options), calls + 1)
    else
      let rest := pollRequests primary (skip + take) (calls + 1)
      (results.filter (wanted setting.options) ++ rest.1, rest.2)
termination_by primary.length - skip
decreasing_by
  simp only [take]
  omega

def fingerprints (polled : List Request) : Dict Media Request := polled.foldl (fun m r => m.set r.media r) []

variable {σ : Type} (api : Api σ)

def Cycle.call {β : Type} (label : String) (f : σ → β × σ) (c : Cycle σ) : Option β × Cycle σ :=
  let answer := f (c.servers label)
  let c' := { c with calls := c.calls + 1 }
  match setting.fate c.calls with
  | .refused => (none, c')
  | .lost => (none, { c' with servers := Function.update c.servers label answer.2 })
  | _ => (some answer.1, { c' with servers := Function.update c.servers label answer.2 })

def Cycle.wait (c : Cycle σ) : Bool × Cycle σ :=
  (match setting.fate c.calls with | .refused | .lost => false | _ => true, { c with calls := c.calls + 1 })

def payload (r : Request) : Payload :=
  let numbers := r.seasons.filterMap id
  ⟨r.media, if r.media.mediaType = "tv" && numbers ≠ [] then some numbers else none⟩

def createRequest (label : String) (r : Request) (c : Cycle σ) : Except String Nat × Cycle σ :=
  if r.media.mediaType = "" || r.media.tmdbId = 0 then (.error "missing media type or TMDB ID", c)
  else
    let (answer, c) := c.call setting label (api.create (payload r))
    (match answer with
      | none => .error "request failed"
      | some (.created id) => if id = 0 then .error "response missing id" else .ok id
      | some .conflict => .error "already_exists"
      | some (.refused message) => .error message, c)

def updateRequestStatus (label : String) (id status : Nat) (c : Cycle σ) : Bool × Cycle σ :=
  if status = requestStatusApproved || status = requestStatusDeclined then
    let (answer, c) := c.call setting label (api.setStatus status id)
    (answer = some true, c)
  else (false, c)

def deleteRequest (label : String) (id : Nat) (fp : Media) (c : Cycle σ) : Bool × Cycle σ :=
  let found := (api.requests (c.servers label)).find? fun r => r.id = id
  let (answer, c) := c.call setting label (api.delete id)
  (answer = some true, { c with deletions := c.deletions ++ [⟨label, id, fp, found⟩] })

def skipped (failure : Option Failure) : Bool :=
  match failure with
  | none => false
  | some failure =>
    decide (0 < setting.options.retryFailedAfterHours) &&
      decide (setting.now - (failure.failedAt + setting.west) < 3600 * setting.options.retryFailedAfterHours)

def syncRequest (label : String) (c : Cycle σ) (fp : Media) (r : Request) : Cycle σ :=
  match (c.state.subState fp label).filter fun sub => sub.id ≠ 0 with
  | some sub =>
    if sub.status ≠ r.status && (r.status = requestStatusApproved || r.status = requestStatusDeclined) then
      let (updated, c) := updateRequestStatus setting api label sub.id r.status c
      if updated then { c with state := c.state.record fp label ⟨sub.id, r.status, setting.now⟩ } else c
    else c
  | none =>
    if skipped setting (c.state.failed.get? (fp, label)) then c
    else
      match createRequest setting api label r c with
      | (.ok id, c) =>
        let state := { c.state with failed := c.state.failed.erase (fp, label) }
        let state := (state.setPrimaryId fp r.id).record fp label ⟨id, r.status, setting.now⟩
        let c := { c with state := state }
        if r.status = requestStatusApproved then
          (updateRequestStatus setting api label id requestStatusApproved c).2
        else c
      | (.error message, c) =>
        if message = "already_exists" then c
        else { c with
          state := { c.state with failed := c.state.failed.set (fp, label) ⟨setting.now, message⟩ } }

def deletedFps (polled : Dict Media Request) (state : SyncState) : List Media :=
  (Dict.keys state.requests).filter fun fp => !(Dict.keys polled).contains fp

def deleteOne (label : String) (c : Cycle σ) (fp : Media) : Cycle σ :=
  match (c.state.subState fp label).filter fun sub => sub.id ≠ 0 with
  | some sub => (deleteRequest setting api label sub.id fp c).2
  | none => c

def syncSubordinate (polled : Dict Media Request) (c : Cycle σ) (label : String) : Cycle σ :=
  let (ready, c) := c.wait setting
  if !ready then c
  else
    let c := polled.foldl (fun c m => syncRequest setting api label c m.1 m.2) c
    if setting.options.syncDeletes then (deletedFps polled c.state).foldl (deleteOne setting api label) c else c

def cleanUp (polled : Dict Media Request) (state : SyncState) : SyncState :=
  let requests := if setting.options.syncDeletes then
    state.requests.filter fun m => (Dict.keys polled).contains m.1 else state.requests
  ⟨some setting.now, requests, state.failed.filter fun m => (Dict.keys polled).contains m.1.1⟩

def syncCycle (primary : List Request) (c : Cycle σ) : Bool × Cycle σ :=
  let (ready, c) := c.wait setting
  if !ready || setting.subordinates = [] then (false, c)
  else
    let (requests, calls) := pollRequests setting primary 0 c.calls
    let polled := fingerprints requests
    let c := setting.subordinates.foldl (syncSubordinate setting api polled) { c with calls := calls }
    (true, { c with state := cleanUp setting polled c.state })

structure World (σ : Type) where
  primary : List Request
  servers : String → σ
  file : SyncState

/-- `run_sync_cycle` where the sync is enabled and configured, before the state is saved. -/
def runSyncCycle (w : World σ) : Bool × Cycle σ :=
  syncCycle setting api w.primary ⟨w.servers, 0, [], if setting.loads then w.file else .empty⟩

def World.after (w : World σ) : World σ :=
  let (finished, c) := runSyncCycle setting api w
  { w with servers := c.servers, file := if finished && setting.saves then c.state else w.file }

end

inductive Step {σ : Type} (api : Api σ) : World σ → World σ → Prop
  | cycle (setting : Setting) (w : World σ) : Step api w (w.after setting api)
  | primary (requests : List Request) (w : World σ) : Step api w { w with primary := requests }
  | subordinate (label : String) (s : σ) (w : World σ) (h : Later api.requests api.issued (w.servers label) s) :
      Step api w { w with servers := Function.update w.servers label s }

end Dumb.Seerr
