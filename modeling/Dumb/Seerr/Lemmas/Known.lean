import Dumb.Seerr.Sync

/-!
# What the state file knows of the subordinates

An id that is recorded under a fingerprint was given out, and what has it has the media of the fingerprint.
-/

namespace Dumb.Seerr

open Py

variable {σ : Type} {api : Api σ} {setting : Setting}

def Api.Knows (api : Api σ) (s : σ) (id : Nat) (fp : Media) : Prop :=
  api.issued s id ∧ ∀ r ∈ api.requests s, r.id = id → r.media = fp

variable {fp : Media}

theorem Api.Knows.later {s s' : σ} {id : Nat} (h : api.Knows s id fp)
    (hlater : Later api.requests api.issued s s') : api.Knows s' id fp := by
  refine ⟨hlater.1 id h.1, fun r hr hid => ?_⟩
  obtain ⟨r', hr', hid', hmedia⟩ := hlater.2 r hr (hid ▸ h.1)
  rw [← hmedia]
  exact h.2 r' hr' (hid'.trans hid)

def Known (api : Api σ) (servers : String → σ) (state : SyncState) : Prop :=
  ∀ fp label sub, state.subState fp label = some sub → api.Knows (servers label) sub.id fp

variable {state : SyncState} {label : String}

theorem Known.later {servers : String → σ} (h : Known api servers state) {s : σ}
    (hlater : Later api.requests api.issued (servers label) s) :
    Known api (Function.update servers label s) state := by
  intro fp label' sub hsub
  by_cases hl : label' = label
  · subst hl
    rw [Function.update_self]
    exact (h fp label' sub hsub).later hlater
  · rw [Function.update_of_ne hl]
    exact h fp label' sub hsub

theorem subState_record (fp fp' : Media) (label label' : String) (sub : SubState) (state : SyncState) :
    (state.record fp label sub).subState fp' label' =
      if fp' = fp ∧ label' = label then some sub else state.subState fp' label' := by
  simp only [SyncState.subState, SyncState.record, Dict.get?_set]
  by_cases hfp : fp' = fp
  · subst hfp
    by_cases hl : label' = label
    · subst hl
      simp
    · cases hget : Dict.get? fp' state.requests <;> simp [hl, Dict.get?_set_ne hl, Dict.get?]
  · simp [hfp]

theorem Known.record {servers : String → σ} (h : Known api servers state)
    {sub : SubState} (hsub : api.Knows (servers label) sub.id fp) :
    Known api servers (state.record fp label sub) := by
  intro fp' label' sub' h'
  rw [subState_record] at h'
  split at h'
  · rename_i heq
    obtain ⟨rfl, rfl⟩ := heq
    cases h'
    exact hsub
  · exact h fp' label' sub' h'

theorem subState_setPrimaryId (fp fp' : Media) (label : String) (id : Nat) (state : SyncState) :
    (state.setPrimaryId fp id).subState fp' label = state.subState fp' label := by
  simp only [SyncState.subState, SyncState.setPrimaryId, Dict.get?_set]
  by_cases hfp : fp' = fp
  · subst hfp
    cases hget : Dict.get? fp' state.requests <;> simp [Dict.get?]
  · simp [hfp]

/-! ## Calls -/

theorem call_later {β : Type} {f : σ → β × σ} (c : Cycle σ)
    (hf : ∀ s, Later api.requests api.issued s (f s).2) (h : Known api c.servers state) :
    Known api (c.call setting label f).2.servers state := by
  unfold Cycle.call
  cases setting.fate c.calls with
  | refused => exact h
  | lost => exact h.later (hf _)
  | answered => exact h.later (hf _)
  | short results => exact h.later (hf _)

theorem call_state {β : Type} (setting : Setting) (label : String) (f : σ → β × σ) (c : Cycle σ) :
    (c.call setting label f).2.state = c.state ∧ (c.call setting label f).2.deletions = c.deletions := by
  unfold Cycle.call
  cases setting.fate c.calls <;> exact ⟨rfl, rfl⟩

theorem call_answer {β : Type} {f : σ → β × σ} (c : Cycle σ) {answer : β}
    (h : (c.call setting label f).1 = some answer) :
    answer = (f (c.servers label)).1 ∧ (c.call setting label f).2.servers label = (f (c.servers label)).2 := by
  unfold Cycle.call at h ⊢
  cases hfate : setting.fate c.calls <;> simp only [hfate] at h ⊢
  · cases h
    exact ⟨rfl, Function.update_self ..⟩
  · cases h
  · cases h
  · cases h
    exact ⟨rfl, Function.update_self ..⟩

/-! ## The cycle -/

structure Right (primary : List Request) (d : Deletion) : Prop where
  absent : ∀ r ∈ primary, r.media ≠ d.fp
  found : ∀ r, d.found = some r → r.media = d.fp

structure Fine (api : Api σ) (primary : List Request) (file : SyncState) (c : Cycle σ) : Prop where
  known : Known api c.servers c.state
  file : Known api c.servers file
  deletions : ∀ d ∈ c.deletions, Right primary d

variable {primary : List Request} {file : SyncState}

variable {c : Cycle σ}

theorem updateRequestStatus_fine (setting : Setting) (label : String) (id status : Nat) (h : Fine api primary file c) :
    Fine api primary file (updateRequestStatus setting api label id status c).2 ∧
      (updateRequestStatus setting api label id status c).2.state = c.state := by
  unfold updateRequestStatus
  split
  · have hstate := call_state setting label (api.setStatus status id) c
    refine ⟨⟨?_, call_later c (api.setStatus_later status id) h.file, ?_⟩, hstate.1⟩
    · dsimp only
      rw [hstate.1]
      exact call_later c (api.setStatus_later status id) h.known
    · dsimp only
      rw [hstate.2]
      exact h.deletions
  · exact ⟨h, rfl⟩

theorem createRequest_fine (setting : Setting) (label : String) (r : Request) (h : Fine api primary file c) :
    Fine api primary file (createRequest setting api label r c).2 ∧
      (createRequest setting api label r c).2.state = c.state ∧
      ∀ id, (createRequest setting api label r c).1 = .ok id →
        api.Knows ((createRequest setting api label r c).2.servers label) id r.media := by
  unfold createRequest
  split
  · exact ⟨h, rfl, fun id hid => nomatch hid⟩
  · have hstate := call_state setting label (api.create (payload r)) c
    refine ⟨⟨?_, call_later c (api.create_later (payload r)) h.file, ?_⟩, hstate.1, fun id hid => ?_⟩
    · dsimp only
      rw [hstate.1]
      exact call_later c (api.create_later (payload r)) h.known
    · dsimp only
      rw [hstate.2]
      exact h.deletions
    · dsimp only at hid ⊢
      split at hid
      · cases hid
      · rename_i id' hanswer
        obtain ⟨hcreated, hserver⟩ := call_answer c hanswer
        split at hid
        · cases hid
        · cases hid
          obtain ⟨-, hissued, hmedia⟩ := api.create_new hcreated.symm
          rw [hserver]
          exact ⟨hissued, hmedia⟩
      · cases hid
      · cases hid

theorem syncRequest_fine {r : Request} (h : Fine api primary file c)
    (hfp : r.media = fp) : Fine api primary file (syncRequest setting api label c fp r) := by
  unfold syncRequest
  split
  · rename_i sub hsub
    split
    · obtain ⟨hfine, hstate⟩ := updateRequestStatus_fine setting label sub.id r.status h
      dsimp only
      split
      · refine ⟨hfine.known.record ?_, hfine.file, hfine.deletions⟩
        have hget : c.state.subState fp label = some sub := (Option.filter_eq_some_iff.1 hsub).1
        exact hfine.known fp label sub (by rw [hstate]; exact hget)
      · exact hfine
    · exact h
  · split
    · exact h
    · obtain ⟨hfine, hstate, hcreated⟩ := createRequest_fine setting label r h
      split
      · rename_i id c' heq
        rw [heq] at hfine hstate hcreated
        have hknown : Known api c'.servers
            ((({ c'.state with failed := c'.state.failed.erase (fp, label) }).setPrimaryId fp r.id).record fp label
              ⟨id, r.status, setting.now⟩) := by
          refine Known.record (fun fp' label' sub' h' => ?_) ?_
          · rw [subState_setPrimaryId] at h'
            exact hfine.known fp' label' sub' h'
          · rw [← hfp]
            exact hcreated id rfl
        have hnext : Fine api primary file { c' with state := _ } := ⟨hknown, hfine.file, hfine.deletions⟩
        split
        · exact (updateRequestStatus_fine _ _ _ _ hnext).1
        · exact hnext
      · rename_i message c' heq
        rw [heq] at hfine
        split
        · exact hfine
        · exact ⟨hfine.known, hfine.file, hfine.deletions⟩

theorem deleteOne_fine (h : Fine api primary file c)
    (habsent : ∀ r ∈ primary, r.media ≠ fp) : Fine api primary file (deleteOne setting api label c fp) := by
  unfold deleteOne
  split
  · rename_i sub hsub
    have hget : c.state.subState fp label = some sub := (Option.filter_eq_some_iff.1 hsub).1
    have hstate := call_state setting label (api.delete sub.id) c
    refine ⟨?_, call_later c (api.delete_later sub.id) h.file, fun d hd => ?_⟩
    · simp only [deleteRequest]
      rw [hstate.1]
      exact call_later c (api.delete_later sub.id) h.known
    · simp only [deleteRequest] at hd
      rw [hstate.2] at hd
      rcases List.mem_append.1 hd with hd | hd
      · exact h.deletions d hd
      · rw [List.mem_singleton.1 hd]
        refine ⟨habsent, fun r hr => ?_⟩
        have hid := List.find?_some hr
        exact (h.known fp label sub hget).2 r (List.mem_of_find?_eq_some hr) (by simpa using hid)
  · exact h

/-! ## What was polled -/

structure Polled (requests : List Request) (polled : Dict Media Request) : Prop where
  media : ∀ m ∈ polled, m.2.media = m.1
  keys : ∀ fp, fp ∈ Dict.keys polled ↔ ∃ r ∈ requests, r.media = fp

theorem fingerprints_polled (requests : List Request) : Polled requests (fingerprints requests) := by
  suffices h : ∀ (rest before : List Request) (polled : Dict Media Request), Polled before polled →
      Polled (before ++ rest) (rest.foldl (fun m r => m.set r.media r) polled) from
    h requests [] [] ⟨fun _ h => (nomatch h), fun fp => by simp [Dict.keys]⟩
  intro rest
  induction rest with
  | nil =>
    intro before polled h
    simpa using h
  | cons r rest ih =>
    intro before polled h
    rw [List.foldl_cons, show before ++ r :: rest = before ++ [r] ++ rest by simp]
    refine ih _ _ ⟨fun m hm => ?_, fun fp => ?_⟩
    · rcases Dict.mem_set hm with rfl | hm
      · rfl
      · exact h.media m hm
    · rw [Dict.mem_keys, Dict.get?_set]
      by_cases hfp : fp = r.media
      · simp [hfp]
      · rw [if_neg hfp, ← Dict.mem_keys, h.keys]
        simp [Ne.symm hfp]

theorem pollRequests_complete (hwanted : ∀ r ∈ primary, wanted setting.options r = true)
    (hpages : ∀ n, take * n < primary.length →
      page primary (take * n) (setting.fate (n + 1)) = some ((primary.drop (take * n)).take take)) (n : Nat)
    (hn : take * n < primary.length) :
    (pollRequests setting primary (take * n) (n + 1)).1 = primary.drop (take * n) := by
  rw [pollRequests, hpages n hn]
  have hne : (primary.drop (take * n)).take take ≠ [] := by
    rw [← List.length_pos_iff, List.length_take, List.length_drop]
    simp only [take] at hn ⊢
    omega
  have hall (rs : List Request) (h : ∀ r ∈ rs, r ∈ primary) : rs.filter (wanted setting.options) = rs :=
    List.filter_eq_self.2 fun r hr => hwanted r (h r hr)
  have hpage := hall ((primary.drop (take * n)).take take) fun r hr => List.mem_of_mem_drop (List.mem_of_mem_take hr)
  simp only [if_neg hne]
  split
  · rename_i hlast
    rw [hpage, List.take_of_length_le]
    rw [List.length_take, List.length_drop] at hlast
    rw [List.length_drop]
    omega
  · rename_i hmore
    have hnext : take * (n + 1) < primary.length := by
      rw [List.length_take, List.length_drop] at hmore
      simp only [take] at hmore ⊢
      omega
    have ih := pollRequests_complete hwanted hpages (n + 1) hnext
    rw [Nat.mul_succ] at ih
    dsimp only
    rw [hpage, ih, ← List.drop_drop, List.take_append_drop]
termination_by primary.length - take * n
decreasing_by
  simp only [take] at hn ⊢
  omega

theorem foldl_fine {α : Type} {f : Cycle σ → α → Cycle σ} {xs : List α} {P : α → Prop} (hP : ∀ x ∈ xs, P x)
    (hf : ∀ c x, P x → Fine api primary file c → Fine api primary file (f c x)) (h : Fine api primary file c) :
    Fine api primary file (xs.foldl f c) := by
  induction xs generalizing c with
  | nil => exact h
  | cons x xs ih =>
    exact ih (fun y hy => hP y (List.mem_cons_of_mem _ hy)) (hf c x (hP x List.mem_cons_self) h)

theorem wait_fine (setting : Setting) (h : Fine api primary file c) : Fine api primary file (c.wait setting).2 :=
  ⟨h.known, h.file, h.deletions⟩

theorem syncSubordinate_fine {polled : Dict Media Request} (label : String)
    (h : Fine api primary file c) (hmedia : ∀ m ∈ polled, m.2.media = m.1)
    (hcomplete : setting.options.syncDeletes = true → ∀ r ∈ primary, r.media ∈ Dict.keys polled) :
    Fine api primary file (syncSubordinate setting api polled c label) := by
  have hsynced {c : Cycle σ} (h : Fine api primary file c) :
      Fine api primary file (polled.foldl (fun c m => syncRequest setting api label c m.1 m.2) c) :=
    foldl_fine hmedia (fun c m hm hc => syncRequest_fine hc hm) h
  unfold syncSubordinate
  dsimp only
  split
  · exact wait_fine setting h
  · split
    · rename_i hdeletes
      refine foldl_fine (P := fun fp => ∀ r ∈ primary, r.media ≠ fp) (fun fp hfp r hr hmedia => ?_)
        (fun c fp hfp hc => deleteOne_fine hc hfp) (hsynced (wait_fine setting h))
      have hgone := (List.mem_filter.1 hfp).2
      have hthere := hcomplete hdeletes r hr
      rw [hmedia] at hthere
      simp [hthere] at hgone
    · exact hsynced (wait_fine setting h)

end Dumb.Seerr
