import Dumb.Seerr.Lemmas.Known

/-!
# The state file as a ledger

The state file is the only memory of the sync: a subordinate has one request for each fingerprint that is recorded
for it, with the recorded id, and no other request.
-/

namespace Dumb.Seerr

open Py

variable {σ : Type} {api : Api σ} {setting : Setting}

structure Api.Documented (api : Api σ) : Prop where
  create (payload : Payload) (s : σ) (h : ∀ r ∈ api.requests s, r.media ≠ payload.media) :
    ∃ id, id ≠ 0 ∧ (api.create payload s).1 = .created id ∧ api.requests (api.create payload s).2 =
      api.requests s ++ [⟨id, payload.media, payload.seasons.getD [], requestStatusPending⟩]
  setStatus (status id : Nat) (s : σ) :
    (api.setStatus status id s).1 = (api.requests s).any (fun r => r.id = id) ∧
      api.requests (api.setStatus status id s).2 =
        (api.requests s).map fun r => if r.id = id then { r with status := status } else r
  delete (id : Nat) (s : σ) : api.requests (api.delete id s).2 = (api.requests s).filter fun r => r.id ≠ id

def Api.held (api : Api σ) (s : σ) (fp : Media) : List Remote := (api.requests s).filter fun r => r.media = fp

def Api.ids (api : Api σ) (s : σ) (fp : Media) : List Nat := (api.held s fp).map (·.id)

/-- The entry of the state file and the requests of the subordinate, for one fingerprint. -/
def Agree (sub : Option SubState) (ids : List Nat) : Prop :=
  match sub with
  | some sub => sub.id ≠ 0 ∧ ids = [sub.id]
  | none => ids = []

def Ledger (api : Api σ) (servers : String → σ) (state : SyncState) : Prop :=
  ∀ label fp, Agree (state.subState fp label) (api.ids (servers label) fp)

/-! ## Calls -/

variable {fp : Media}

theorem mem_held {s : σ} {r : Remote} : r ∈ api.held s fp ↔ r ∈ api.requests s ∧ r.media = fp := by
  simp [Api.held]

theorem ids_eq_nil {s : σ} : api.ids s fp = [] ↔ ∀ r ∈ api.requests s, r.media ≠ fp := by
  simp [Api.ids, Api.held]

theorem held_setStatus (hdoc : api.Documented) (status id : Nat) (s : σ) (fp : Media) :
    api.held (api.setStatus status id s).2 fp =
      (api.held s fp).map fun r => if r.id = id then { r with status := status } else r := by
  rw [Api.held, (hdoc.setStatus status id s).2, List.filter_map, Api.held]
  congr 1
  apply List.filter_congr
  intro r _
  by_cases hid : r.id = id <;> simp [hid]

theorem ids_setStatus (hdoc : api.Documented) (status id : Nat) (s : σ) (fp : Media) :
    api.ids (api.setStatus status id s).2 fp = api.ids s fp := by
  rw [Api.ids, held_setStatus hdoc, List.map_map, Api.ids]
  apply List.map_congr_left
  intro r _
  by_cases hid : r.id = id <;> simp [hid]

theorem held_delete (hdoc : api.Documented) (id : Nat) (s : σ) (fp : Media) :
    api.held (api.delete id s).2 fp = (api.held s fp).filter fun r => r.id ≠ id := by
  rw [Api.held, hdoc.delete, List.filter_filter, Api.held, List.filter_filter]
  apply List.filter_congr
  intro r _
  exact Bool.and_comm _ _

structure Added (api : Api σ) (s s' : σ) (r : Request) (id : Nat) : Prop where
  id_ne : id ≠ 0
  held : api.held s' r.media = [⟨id, r.media, (payload r).seasons.getD [], requestStatusPending⟩]
  other : ∀ fp, fp ≠ r.media → api.held s' fp = api.held s fp
  one : ∀ rem ∈ api.requests s', rem.id = id → rem.media = r.media

theorem create_added (hdoc : api.Documented) {s : σ} {r : Request} (h : api.ids s r.media = []) :
    ∃ id, (api.create (payload r) s).1 = .created id ∧ Added api s (api.create (payload r) s).2 r id := by
  obtain ⟨id, hid, hcreated, hrequests⟩ := hdoc.create (payload r) s (ids_eq_nil.1 h)
  have hnone : api.held s r.media = [] := List.map_eq_nil_iff.1 h
  refine ⟨id, hcreated, hid, ?_, ?_, (api.create_new hcreated).2.2⟩
  · rw [Api.held] at hnone
    rw [Api.held, hrequests, List.filter_append, hnone]
    simp [payload]
  · intro fp hfp
    rw [Api.held, hrequests, List.filter_append]
    simp [payload, Ne.symm hfp, Api.held]

theorem call_cases {β : Type} (setting : Setting) (label : String) (f : σ → β × σ) (c : Cycle σ) :
    ((c.call setting label f).1 = none ∧ (c.call setting label f).2.servers = c.servers ∧
        setting.fate c.calls = .refused) ∨
      (((c.call setting label f).1 = some (f (c.servers label)).1 ∧ setting.fate c.calls ≠ .refused ∨
        (c.call setting label f).1 = none ∧ setting.fate c.calls = .lost) ∧
          (c.call setting label f).2.servers = Function.update c.servers label (f (c.servers label)).2) := by
  unfold Cycle.call
  cases hfate : setting.fate c.calls with
  | refused => exact .inl ⟨rfl, rfl, rfl⟩
  | lost => exact .inr ⟨.inr ⟨rfl, rfl⟩, rfl⟩
  | answered => exact .inr ⟨.inl ⟨rfl, nofun⟩, rfl⟩
  | short results => exact .inr ⟨.inl ⟨rfl, nofun⟩, rfl⟩

theorem updateRequestStatus_state (api : Api σ) (setting : Setting) (label : String) (id status : Nat) (c : Cycle σ) :
    (updateRequestStatus setting api label id status c).2.state = c.state := by
  unfold updateRequestStatus
  split
  · exact (call_state setting label (api.setStatus status id) c).1
  · rfl

theorem updateRequestStatus_ids (hdoc : api.Documented) (setting : Setting) (label : String) (id status : Nat)
    (c : Cycle σ) (label' : String) (fp : Media) :
    api.ids ((updateRequestStatus setting api label id status c).2.servers label') fp = api.ids (c.servers label') fp := by
  unfold updateRequestStatus
  split
  · rcases call_cases setting label (api.setStatus status id) c with ⟨-, hservers, -⟩ | ⟨-, hservers⟩
    · exact congrArg (fun servers => api.ids (servers label') fp) hservers
    · dsimp only
      rw [hservers]
      by_cases hl : label' = label
      · subst hl
        rw [Function.update_self, ids_setStatus hdoc]
      · rw [Function.update_of_ne hl]
  · rfl

def sent (r : Request) : Prop := r.media.mediaType ≠ "" ∧ r.media.tmdbId ≠ 0

instance (r : Request) : Decidable (sent r) := inferInstanceAs (Decidable (_ ∧ _))

inductive CreateOutcome (api : Api σ) (setting : Setting) (label : String) (r : Request) (c : Cycle σ) :
    Except String Nat × Cycle σ → Prop
  | failed {message : String} {c' : Cycle σ} (hstate : c'.state = c.state) (hservers : c'.servers = c.servers) :
      CreateOutcome api setting label r c (.error message, c')
  | created {id : Nat} {c' : Cycle σ} {s : σ} (hstate : c'.state = c.state)
      (hservers : c'.servers = Function.update c.servers label s) (hadded : Added api (c.servers label) s r id) : CreateOutcome api setting label r c (.ok id, c')
  | lost {message : String} {c' : Cycle σ} (hsent : sent r) (hfate : setting.fate c.calls = .lost) :
      CreateOutcome api setting label r c (.error message, c')

theorem createRequest_cases (hdoc : api.Documented) (setting : Setting) (label : String) (r : Request) (c : Cycle σ)
    (h : api.ids (c.servers label) r.media = []) :
    CreateOutcome api setting label r c (createRequest setting api label r c) := by
  unfold createRequest
  split
  · exact .failed rfl rfl
  · next hinvalid =>
    have hsent : sent r := by simpa [sent] using hinvalid
    have hstate := (call_state setting label (api.create (payload r)) c).1
    obtain ⟨id, hcreated, hadded⟩ := create_added hdoc h
    rcases call_cases setting label (api.create (payload r)) c with
      ⟨hnone, hservers, -⟩ | ⟨⟨hsome, hfate⟩ | ⟨hnone, hfate⟩, hservers⟩
    · dsimp only
      rw [hnone]
      exact .failed hstate hservers
    · dsimp only
      rw [hsome, hcreated]
      simp only [if_neg hadded.id_ne]
      exact .created hstate hservers hadded
    · dsimp only
      rw [hnone]
      exact .lost hsent hfate

theorem createRequest_refused (api : Api σ) (setting : Setting) (label : String) (r : Request) (c : Cycle σ)
    (h : sent r → setting.fate c.calls = .refused) :
    (createRequest setting api label r c).2.servers = c.servers ∧
      ∀ id, (createRequest setting api label r c).1 ≠ .ok id := by
  unfold createRequest
  split
  · exact ⟨rfl, nofun⟩
  · next hinvalid =>
    have hrefused := h (by simpa [sent] using hinvalid)
    rcases call_cases setting label (api.create (payload r)) c with
      ⟨hnone, hservers, -⟩ | ⟨⟨-, hfate⟩ | ⟨-, hfate⟩, -⟩
    · dsimp only
      rw [hnone]
      exact ⟨hservers, nofun⟩
    · exact absurd hrefused hfate
    · rw [hfate] at hrefused
      exact nomatch hrefused

/-! ## Steps -/

variable (setting) in
def OrderlyRequest (label : String) (c : Cycle σ) (m : Media × Request) : Prop :=
  (c.state.subState m.1 label).filter (fun sub => sub.id ≠ 0) = none →
    skipped setting (c.state.failed.get? (m.1, label)) = false → sent m.2 →
      if setting.saves then setting.fate c.calls ≠ .lost else setting.fate c.calls = .refused

variable (setting) in
def OrderlyDelete (label : String) (c : Cycle σ) (fp : Media) : Prop :=
  (c.state.subState fp label).filter (fun sub => sub.id ≠ 0) ≠ none →
    if setting.saves then setting.fate c.calls ≠ .refused else setting.fate c.calls = .refused

/-- The entries and the ids of everything but one fingerprint on one subordinate are as they were. -/
def Elsewhere (api : Api σ) (label : String) (fp : Media) (c c' : Cycle σ) : Prop :=
  ∀ label' fp', ¬(label' = label ∧ fp' = fp) →
    c'.state.subState fp' label' = c.state.subState fp' label' ∧
      api.ids (c'.servers label') fp' = api.ids (c.servers label') fp'

theorem Agree.id_ne {sub : SubState} {ids : List Nat} (h : Agree (some sub) ids) : sub.id ≠ 0 := h.1

theorem Agree.filter {sub : Option SubState} {ids : List Nat} (h : Agree sub ids) :
    sub.filter (fun sub => sub.id ≠ 0) = sub := by
  cases sub with
  | none => rfl
  | some sub => simp [Option.filter, h.id_ne]

theorem syncRequest_agree (hdoc : api.Documented) {label : String} {c : Cycle σ} {r : Request}
    (hfp : r.media = fp) (hsaves : setting.saves = true) (horderly : OrderlyRequest setting label c (fp, r))
    (h : Agree (c.state.subState fp label) (api.ids (c.servers label) fp)) :
    Elsewhere api label fp c (syncRequest setting api label c fp r) ∧
      Agree ((syncRequest setting api label c fp r).state.subState fp label)
        (api.ids ((syncRequest setting api label c fp r).servers label) fp) := by
  have hsame : Elsewhere api label fp c c := fun _ _ _ => ⟨rfl, rfl⟩
  unfold syncRequest
  rw [h.filter]
  cases hsub : c.state.subState fp label with
  | some sub =>
    rw [hsub] at h
    dsimp only
    split
    · have hids := updateRequestStatus_ids hdoc setting label sub.id r.status c
      have hstate := updateRequestStatus_state api setting label sub.id r.status c
      split
      · constructor
        · intro label' fp' hne
          simp only [subState_record, hids]
          rw [if_neg (fun heq => hne ⟨heq.2, heq.1⟩), hstate]
          exact ⟨rfl, trivial⟩
        · simp only [subState_record, and_self, ↓reduceIte, hids]
          exact h
      · rw [hstate, hids, hsub]
        exact ⟨fun label' fp' _ => ⟨by rw [hstate], hids label' fp'⟩, h⟩
    · rw [hsub]
      exact ⟨hsame, h⟩
  | none =>
    rw [hsub] at h
    dsimp only
    split
    · rw [hsub]
      exact ⟨hsame, h⟩
    · next hskip =>
      have hcases := createRequest_cases hdoc setting label r c (hfp ▸ h)
      have hfate := horderly (by simp [hsub]) (Bool.not_eq_true _ ▸ hskip)
      rw [if_pos hsaves] at hfate
      generalize createRequest setting api label r c = outcome at hcases ⊢
      cases hcases with
      | @failed message c' hstate hservers =>
        dsimp only
        split
        · rw [hstate, hservers, hsub]
          exact ⟨fun label' fp' _ => ⟨by rw [hstate], by rw [hservers]⟩, h⟩
        · simp only [SyncState.subState] at hsub ⊢
          rw [hstate, hservers, hsub]
          exact ⟨fun label' fp' _ => ⟨by simp only [SyncState.subState], rfl⟩, h⟩
      | lost hsent hlost => exact absurd hlost (hfate hsent)
      | @created id c' s hstate hservers hadded =>
        have hother : ∀ label' fp', ¬(label' = label ∧ fp' = fp) →
            api.ids (c'.servers label') fp' = api.ids (c.servers label') fp' := by
          intro label' fp' hne
          rw [hservers]
          by_cases hl : label' = label
          · subst hl
            rw [Function.update_self, Api.ids, hadded.other fp' (fun heq => hne ⟨rfl, heq.trans hfp⟩), Api.ids]
          · rw [Function.update_of_ne hl]
        have hnew : api.ids (c'.servers label) fp = [id] := by
          rw [hservers, Function.update_self, Api.ids, ← hfp, hadded.held]
          rfl
        have hrecorded : ∀ (c'' : Cycle σ), c''.state =
              (({ c'.state with failed := c'.state.failed.erase (fp, label) }).setPrimaryId fp r.id).record fp label
                ⟨id, r.status, setting.now⟩ →
            (∀ label' fp', api.ids (c''.servers label') fp' = api.ids (c'.servers label') fp') →
            Elsewhere api label fp c c'' ∧
              Agree (c''.state.subState fp label) (api.ids (c''.servers label) fp) := by
          intro c'' hstate'' hids
          constructor
          · intro label' fp' hne
            rw [hstate'', subState_record, if_neg (fun heq => hne ⟨heq.2, heq.1⟩), subState_setPrimaryId, hids,
              hother label' fp' hne]
            apply And.intro _ rfl
            simp only [SyncState.subState]
            rw [hstate]
          · rw [hstate'', subState_record, if_pos ⟨rfl, rfl⟩, hids, hnew]
            exact ⟨hadded.id_ne, rfl⟩
        dsimp only
        split
        · apply hrecorded
          · rw [updateRequestStatus_state]
          · exact fun label' fp' => updateRequestStatus_ids hdoc setting label id _ _ label' fp'
        · exact hrecorded _ rfl fun _ _ => rfl

theorem syncRequest_ids (hdoc : api.Documented) {label : String} {c : Cycle σ} {r : Request}
    (hsaves : setting.saves = false) (horderly : OrderlyRequest setting label c (fp, r)) (label' : String) (fp' : Media) :
    api.ids ((syncRequest setting api label c fp r).servers label') fp' = api.ids (c.servers label') fp' := by
  unfold syncRequest
  split
  · next sub hsub =>
    split
    · have hids := updateRequestStatus_ids hdoc setting label sub.id r.status c label' fp'
      dsimp only
      split
      · exact hids
      · exact hids
    · rfl
  · next hsub =>
    split
    · rfl
    · next hskip =>
      have hfate := horderly hsub (Bool.not_eq_true _ ▸ hskip)
      rw [hsaves] at hfate
      obtain ⟨hservers, hok⟩ := createRequest_refused api setting label r c hfate
      split
      · next id c' heq =>
        rw [heq] at hok
        exact absurd rfl (hok id)
      · next message c' heq =>
        rw [heq] at hservers
        split
        · exact congrArg (fun servers => api.ids (servers label') fp') hservers
        · exact congrArg (fun servers => api.ids (servers label') fp') hservers

end Dumb.Seerr

/-! ## A Seerr server in memory -/

namespace Dumb.Seerr

structure Store where
  requests : List Remote
  next : Nat
  positive : next ≠ 0
  below : ∀ r ∈ requests, r.id < next

namespace Store

def taken (media : Media) (s : Store) : Bool :=
  s.requests.any fun r => r.media = media && r.status ≠ requestStatusDeclined

def create (payload : Payload) (s : Store) : Created × Store :=
  if s.taken payload.media then (.conflict, s)
  else
    (.created s.next, ⟨s.requests ++ [⟨s.next, payload.media, payload.seasons.getD [], requestStatusPending⟩],
      s.next + 1, Nat.succ_ne_zero _, fun r hr => by
        rcases List.mem_append.1 hr with hr | hr
        · exact Nat.lt_succ_of_lt (s.below r hr)
        · rw [List.mem_singleton.1 hr]
          exact Nat.lt_succ_self _⟩)

def setStatus (status id : Nat) (s : Store) : Bool × Store :=
  (s.requests.any fun r => r.id = id,
    ⟨s.requests.map fun r => if r.id = id then { r with status := status } else r, s.next, s.positive, fun r hr => by
      obtain ⟨r', hr', rfl⟩ := List.mem_map.1 hr
      have hbelow := s.below r' hr'
      split <;> exact hbelow⟩)

def delete (id : Nat) (s : Store) : Bool × Store :=
  (s.requests.any fun r => r.id = id,
    ⟨s.requests.filter fun r => r.id ≠ id, s.next, s.positive, fun r hr => s.below r (List.mem_filter.1 hr).1⟩)

def issued (s : Store) (id : Nat) : Prop := id < s.next

theorem create_later (payload : Payload) (s : Store) : Later requests issued s (create payload s).2 := by
  unfold create
  split
  · exact ⟨fun _ h => h, fun r hr _ => ⟨r, hr, rfl, rfl⟩⟩
  · refine ⟨fun id h => Nat.lt_succ_of_lt h, fun r hr hold => ?_⟩
    rcases List.mem_append.1 hr with hr | hr
    · exact ⟨r, hr, rfl, rfl⟩
    · rw [List.mem_singleton.1 hr] at hold
      exact absurd hold (Nat.lt_irrefl _)

theorem create_new {payload : Payload} {s : Store} {id : Nat} (h : (create payload s).1 = .created id) :
    ¬issued s id ∧ issued (create payload s).2 id ∧
      ∀ r ∈ (create payload s).2.requests, r.id = id → r.media = payload.media := by
  unfold create at h ⊢
  split at h
  · cases h
  · rename_i htaken
    cases h
    rw [if_neg htaken]
    refine ⟨Nat.lt_irrefl _, Nat.lt_succ_self _, fun r hr hid => ?_⟩
    rcases List.mem_append.1 hr with hr | hr
    · exact absurd (s.below r hr) (by rw [hid]; exact Nat.lt_irrefl _)
    · rw [List.mem_singleton.1 hr]

theorem setStatus_later (status id : Nat) (s : Store) : Later requests issued s (setStatus status id s).2 := by
  refine ⟨fun _ h => h, fun r hr _ => ?_⟩
  obtain ⟨r', hr', rfl⟩ := List.mem_map.1 hr
  refine ⟨r', hr', ?_⟩
  split <;> exact ⟨rfl, rfl⟩

theorem delete_later (id : Nat) (s : Store) : Later requests issued s (delete id s).2 :=
  ⟨fun _ h => h, fun r hr _ => ⟨r, (List.mem_filter.1 hr).1, rfl, rfl⟩⟩

def api : Api Store where
  requests := requests
  issued := issued
  create := create
  setStatus := setStatus
  delete := delete
  create_later := create_later
  create_new := create_new
  setStatus_later := setStatus_later
  delete_later := delete_later

def empty : Store := ⟨[], 1, Nat.one_ne_zero, fun _ h => nomatch h⟩

theorem documented : api.Documented where
  create payload s h := by
    have hfree : s.taken payload.media = false := by
      rw [taken, List.any_eq_false]
      intro r hr
      have hmedia : r.media ≠ payload.media := h r hr
      simp [hmedia]
    have hcreate : api.create payload s = create payload s := rfl
    refine ⟨s.next, s.positive, ?_, ?_⟩
    · rw [hcreate, create, hfree]
      rfl
    · rw [hcreate, create, hfree]
      rfl
  setStatus status id s := ⟨rfl, rfl⟩
  delete id s := rfl

end Store

end Dumb.Seerr
