import Mathlib.Data.List.Nodup
import Dumb.Seerr.Lemmas.History

/-! What a cycle in which no call fails makes of one request on one subordinate, and of all of them. -/

namespace Dumb.Seerr

open Py

variable {σ : Type} {api : Api σ} {setting : Setting} {file : SyncState}

def synced (status : Nat) : Prop :=
  status = requestStatusPending ∨ status = requestStatusApproved ∨ status = requestStatusDeclined

instance (status : Nat) : Decidable (synced status) := inferInstanceAs (Decidable (_ ∨ _ ∨ _))

def seasonsOf (r : Request) : List Nat := (payload r).seasons.getD []

/-- The entry of a subordinate lets a cycle bring a request of status `status` to what the primary has. -/
def Mends (sub : SubState) (status : Nat) (r : Request) : Prop :=
  status = r.status ∨ sub.status ≠ r.status ∧ (r.status = requestStatusApproved ∨ r.status = requestStatusDeclined)

structure Prepared (api : Api σ) (setting : Setting) (c : Cycle σ) (label : String) (fp : Media) (r : Request) :
    Prop where
  agree : Agree (c.state.subState fp label) (api.ids (c.servers label) fp)
  seasons : ∀ rem ∈ api.held (c.servers label) fp, rem.seasons = seasonsOf r
  mends : synced r.status → ∀ sub, c.state.subState fp label = some sub →
    ∀ rem ∈ api.held (c.servers label) fp, Mends sub rem.status r
  creates : synced r.status → c.state.subState fp label = none →
    sent r ∧ r.status ≠ requestStatusDeclined ∧ skipped setting (c.state.failed.get? (fp, label)) = false

structure Finished (api : Api σ) (c : Cycle σ) (label : String) (fp : Media) (r : Request) : Prop where
  agree : Agree (c.state.subState fp label) (api.ids (c.servers label) fp)
  seasons : ∀ rem ∈ api.held (c.servers label) fp, rem.seasons = seasonsOf r
  status : synced r.status → ∃ rem ∈ api.held (c.servers label) fp, rem.status = r.status

variable {fp : Media}

theorem Agree.held {sub : SubState} {s : σ} (h : Agree (some sub) (api.ids s fp)) :
    ∃ rem, api.held s fp = [rem] ∧ rem.id = sub.id := by
  obtain ⟨-, hids⟩ := h
  obtain ⟨rem, hheld, hid⟩ := List.map_eq_singleton_iff.1 hids
  exact ⟨rem, hheld, hid⟩

variable {c : Cycle σ} {label : String} {r : Request}

theorem Finished.prepared (h : Finished api c label fp r) :
    Prepared api setting c label fp r := by
  constructor
  · exact h.agree
  · exact h.seasons
  · intro hsynced sub hsub rem hrem
    obtain ⟨rem', hrem', hstatus⟩ := h.status hsynced
    obtain ⟨one, hheld, -⟩ := (hsub ▸ h.agree : Agree (some sub) _).held
    rw [hheld, List.mem_singleton] at hrem hrem'
    exact .inl (hrem.trans hrem'.symm ▸ hstatus)
  · intro hsynced hnone
    obtain ⟨rem, hrem, -⟩ := h.status hsynced
    have hids := h.agree
    rw [hnone] at hids
    rw [List.map_eq_nil_iff.1 hids] at hrem
    exact absurd hrem List.not_mem_nil

structure Kept (api : Api σ) (label : String) (fp : Media) (c c' : Cycle σ) : Prop where
  entry : c'.state.subState fp label = c.state.subState fp label
  held : api.held (c'.servers label) fp = api.held (c.servers label) fp
  failed : c'.state.failed.get? (fp, label) = c.state.failed.get? (fp, label)

theorem Kept.refl (label : String) (fp : Media) (c : Cycle σ) : Kept api label fp c c := ⟨rfl, rfl, rfl⟩

theorem Kept.trans {c c' c'' : Cycle σ} (h : Kept api label fp c c')
    (h' : Kept api label fp c' c'') : Kept api label fp c c'' :=
  ⟨h'.entry.trans h.entry, h'.held.trans h.held, h'.failed.trans h.failed⟩

theorem Kept.prepared {c c' : Cycle σ} (h : Kept api label fp c c')
    (hp : Prepared api setting c label fp r) : Prepared api setting c' label fp r := by
  obtain ⟨hagree, hseasons, hmends, hcreates⟩ := hp
  constructor
  · rw [h.entry, Api.ids, h.held]
    exact hagree
  · rw [h.held]
    exact hseasons
  · rw [h.entry, h.held]
    exact hmends
  · rw [h.entry, h.failed]
    exact hcreates

theorem Kept.finished {c c' : Cycle σ} (h : Kept api label fp c c')
    (hf : Finished api c label fp r) : Finished api c' label fp r := by
  obtain ⟨hagree, hseasons, hstatus⟩ := hf
  constructor
  · rw [h.entry, Api.ids, h.held]
    exact hagree
  · rw [h.held]
    exact hseasons
  · rw [h.held]
    exact hstatus

/-! ## One request -/

theorem call_answered {β : Type} (label : String) (f : σ → β × σ)
    (h : setting.fate c.calls = .answered) :
    c.call setting label f = (some (f (c.servers label)).1,
      { c with calls := c.calls + 1, servers := Function.update c.servers label (f (c.servers label)).2 }) := by
  unfold Cycle.call
  rw [h]

/-- A change of the server of `label` that leaves the requests for every other fingerprint. -/
def Changes (api : Api σ) (fp : Media) (s s' : σ) : Prop := ∀ fp', fp' ≠ fp → api.held s' fp' = api.held s fp'

theorem Changes.kept {c c' : Cycle σ} {s : σ}
    (hservers : c'.servers = Function.update c.servers label s) (hs : Changes api fp (c.servers label) s)
    (hstate : ∀ label' fp', ¬(label' = label ∧ fp' = fp) →
      c'.state.subState fp' label' = c.state.subState fp' label' ∧
        c'.state.failed.get? (fp', label') = c.state.failed.get? (fp', label'))
    {label' : String} {fp' : Media} (hne : ¬(label' = label ∧ fp' = fp)) : Kept api label' fp' c c' := by
  obtain ⟨hentry, hfailed⟩ := hstate label' fp' hne
  refine ⟨hentry, ?_, hfailed⟩
  rw [hservers]
  by_cases hl : label' = label
  · subst hl
    rw [Function.update_self]
    exact hs fp' fun heq => hne ⟨rfl, heq⟩
  · rw [Function.update_of_ne hl]

theorem setStatus_changes (hdoc : api.Documented) (status : Nat) {id : Nat} {s : σ}
    (h : ∀ r ∈ api.requests s, r.id = id → r.media = fp) : Changes api fp s (api.setStatus status id s).2 := by
  intro fp' hne
  rw [held_setStatus hdoc]
  calc (api.held s fp').map (fun r => if r.id = id then { r with status := status } else r)
      = (api.held s fp').map fun r => r := by
        apply List.map_congr_left
        intro r hr
        obtain ⟨hin, hmedia⟩ := mem_held.1 hr
        have hid : r.id ≠ id := fun heq => hne (hmedia.symm.trans (h r hin heq))
        simp [hid]
    _ = api.held s fp' := List.map_id' _

theorem updateRequestStatus_answered (hdoc : api.Documented) {id status : Nat}
    {rem : Remote} (hfate : setting.fate c.calls = .answered)
    (hstatus : status = requestStatusApproved ∨ status = requestStatusDeclined)
    (hheld : api.held (c.servers label) fp = [rem]) (hid : rem.id = id)
    (hone : ∀ r ∈ api.requests (c.servers label), r.id = id → r.media = fp) :
    (updateRequestStatus setting api label id status c).1 = true ∧
      ∃ s, (updateRequestStatus setting api label id status c).2.servers = Function.update c.servers label s ∧
        Changes api fp (c.servers label) s ∧ api.held s fp = [{ rem with status := status }] := by
  have hcond : (decide (status = requestStatusApproved) || decide (status = requestStatusDeclined)) = true := by
    simpa using hstatus
  have hin : rem ∈ api.requests (c.servers label) := (mem_held.1 (hheld ▸ List.mem_singleton.2 rfl)).1
  unfold updateRequestStatus
  rw [if_pos hcond, call_answered label (api.setStatus status id) hfate]
  refine ⟨?_, _, rfl, setStatus_changes hdoc status hone, ?_⟩
  · simp only [(hdoc.setStatus status id (c.servers label)).1, Option.some.injEq, List.any_eq_true, decide_eq_true_eq]
    exact ⟨rem, hin, hid⟩
  · rw [held_setStatus hdoc, hheld]
    simp [hid]

theorem createRequest_answered (hdoc : api.Documented)
    (hfate : setting.fate c.calls = .answered) (h : api.ids (c.servers label) r.media = []) :
    ¬sent r ∧ createRequest setting api label r c = (.error "missing media type or TMDB ID", c) ∨
      ∃ id s, Added api (c.servers label) s r id ∧ createRequest setting api label r c =
        (.ok id, { c with calls := c.calls + 1, servers := Function.update c.servers label s }) := by
  unfold createRequest
  split
  · next hinvalid =>
    left
    apply And.intro _ rfl
    rintro ⟨htype, hid⟩
    simp [htype, hid] at hinvalid
  · right
    obtain ⟨id, hcreated, hadded⟩ := create_added hdoc h
    refine ⟨id, _, hadded, ?_⟩
    rw [call_answered label (api.create (payload r)) hfate]
    dsimp only
    rw [hcreated]
    simp only [if_neg hadded.id_ne]

theorem syncRequest_finishes (hdoc : api.Documented)
    (hfp : r.media = fp) (hfate : ∀ n, setting.fate n = .answered) (hknown : Known api c.servers c.state)
    (h : Prepared api setting c label fp r) :
    Finished api (syncRequest setting api label c fp r) label fp r ∧
      ∀ label' fp', ¬(label' = label ∧ fp' = fp) → Kept api label' fp' c (syncRequest setting api label c fp r) := by
  unfold syncRequest
  rw [h.agree.filter]
  cases hsub : c.state.subState fp label with
  | some sub =>
    obtain ⟨rem, hheld, hid⟩ := (hsub ▸ h.agree : Agree (some sub) _).held
    have hone := (hknown fp label sub hsub).2
    have hmends : synced r.status → Mends sub rem.status r := fun hsynced =>
      h.mends hsynced sub hsub rem (hheld ▸ List.mem_singleton.2 rfl)
    have hseasons : rem.seasons = seasonsOf r := h.seasons rem (hheld ▸ List.mem_singleton.2 rfl)
    dsimp only
    split
    · next hcond =>
      simp only [ne_eq, decide_not, Bool.and_eq_true, Bool.not_eq_eq_eq_not, Bool.not_true, decide_eq_false_iff_not,
        Bool.or_eq_true, decide_eq_true_eq] at hcond
      obtain ⟨hupdated, s, hservers, hchanges, hnew⟩ :=
        updateRequestStatus_answered hdoc (hfate c.calls) hcond.2 hheld hid hone
      have hstate := updateRequestStatus_state api setting label sub.id r.status c
      rw [if_pos hupdated]
      constructor
      · constructor
        · simp only [subState_record, and_self, ↓reduceIte, hservers, Function.update_self, Api.ids, hnew]
          exact ⟨(hsub ▸ h.agree : Agree (some sub) _).id_ne, by simp [hid]⟩
        · simp only [hservers, Function.update_self, hnew, List.mem_singleton, forall_eq]
          exact hseasons
        · intro _
          simp only [hservers, Function.update_self, hnew]
          exact ⟨_, List.mem_singleton.2 rfl, rfl⟩
      · intro label' fp' hne
        refine Changes.kept ?_ hchanges ?_ hne
        · exact hservers
        intro label'' fp'' hne''
        simp only [subState_record]
        rw [if_neg fun heq => hne'' ⟨heq.2, heq.1⟩, hstate]
        exact ⟨rfl, rfl⟩
    · next hcond =>
      refine ⟨⟨h.agree, h.seasons, ?_⟩, fun _ _ _ => Kept.refl _ _ _⟩
      intro hsynced
      refine ⟨rem, hheld ▸ List.mem_singleton.2 rfl, ?_⟩
      rcases hmends hsynced with heq | hneeds
      · exact heq
      · exact absurd (by simpa using hneeds) hcond
  | none =>
    have hids : api.ids (c.servers label) fp = [] := by
      have hagree := h.agree
      rw [hsub] at hagree
      exact hagree
    have hheld : api.held (c.servers label) fp = [] := List.map_eq_nil_iff.1 hids
    dsimp only
    split
    · next hskip =>
      refine ⟨⟨h.agree, h.seasons, ?_⟩, fun _ _ _ => Kept.refl _ _ _⟩
      intro hsynced
      rw [(h.creates hsynced hsub).2.2] at hskip
      exact absurd hskip Bool.false_ne_true
    · have hmissing : ("missing media type or TMDB ID" : String) ≠ "already_exists" := by decide
      rcases createRequest_answered hdoc (hfate c.calls) (hfp.symm ▸ hids) with
        ⟨hnot, heq⟩ | ⟨id, s, hadded, heq⟩
      · rw [heq]
        simp only [if_neg hmissing]
        refine ⟨⟨h.agree, h.seasons, fun hsynced => absurd (h.creates hsynced hsub).1 hnot⟩, ?_⟩
        intro label' fp' hne
        refine ⟨rfl, rfl, ?_⟩
        exact Dict.get?_set_ne (fun hkey => hne ⟨(Prod.mk.inj hkey).2, (Prod.mk.inj hkey).1⟩) _ _
      · rw [heq]
        have hdone : ∀ (c' : Cycle σ) (s' : σ) (rem : Remote),
            c'.state = (({ c.state with failed := c.state.failed.erase (fp, label) }).setPrimaryId fp r.id).record fp label
              ⟨id, r.status, setting.now⟩ →
            c'.servers = Function.update c.servers label s' → Changes api fp (c.servers label) s' →
            api.held s' fp = [rem] → rem.id = id → rem.seasons = seasonsOf r →
            (synced r.status → rem.status = r.status) →
            Finished api c' label fp r ∧ ∀ label' fp', ¬(label' = label ∧ fp' = fp) → Kept api label' fp' c c' := by
          intro c' s' rem hstate hservers hchanges hnew hid hseasons hstatus
          constructor
          · constructor
            · rw [hstate, subState_record, if_pos ⟨rfl, rfl⟩, hservers, Function.update_self, Api.ids, hnew]
              exact ⟨hadded.id_ne, by simp [hid]⟩
            · rw [hservers, Function.update_self, hnew]
              simp [hseasons]
            · rw [hservers, Function.update_self, hnew]
              exact fun hsynced => ⟨rem, List.mem_singleton.2 rfl, hstatus hsynced⟩
          · intro label' fp' hne
            refine Changes.kept hservers hchanges ?_ hne
            intro label'' fp'' hne''
            rw [hstate, subState_record, if_neg fun heq => hne'' ⟨heq.2, heq.1⟩, subState_setPrimaryId]
            apply And.intro rfl
            show (c.state.failed.erase (fp, label)).get? (fp'', label'') = _
            rw [Dict.get?_erase, if_neg fun hkey => hne'' ⟨(Prod.mk.inj hkey).2, (Prod.mk.inj hkey).1⟩]
        have hchanges : Changes api fp (c.servers label) s := fun fp' hne => hadded.other fp' (hfp.symm ▸ hne)
        have hnew : api.held s fp = [⟨id, r.media, seasonsOf r, requestStatusPending⟩] := hfp ▸ hadded.held
        dsimp only
        split
        · next happroved =>
          generalize hc : ({ c with
            calls := c.calls + 1
            servers := Function.update c.servers label s
            state := (({ c.state with failed := c.state.failed.erase (fp, label) }).setPrimaryId fp r.id).record fp label
              ⟨id, r.status, setting.now⟩ } : Cycle σ) = c'
          have hserver : c'.servers label = s := by
            rw [← hc]
            exact Function.update_self ..
          have hone : ∀ rem ∈ api.requests s, rem.id = id → rem.media = fp :=
            fun rem hrem hid => (hadded.one rem hrem hid).trans hfp
          obtain ⟨-, s', hservers', hchanges', hnew'⟩ := updateRequestStatus_answered hdoc (hfate c'.calls) (.inl rfl)
            (hserver.symm ▸ hnew) rfl (hserver.symm ▸ hone)
          apply hdone _ s' ⟨id, r.media, seasonsOf r, requestStatusApproved⟩
          · rw [updateRequestStatus_state, ← hc]
          · rw [hservers', ← hc]
            exact Function.update_idem ..
          · rw [hserver] at hchanges'
            exact fun fp' hne => (hchanges' fp' hne).trans (hchanges fp' hne)
          · exact hnew'
          · rfl
          · rfl
          · exact fun _ => happroved.symm
        · next hnot =>
          apply hdone _ s ⟨id, r.media, seasonsOf r, requestStatusPending⟩ rfl rfl hchanges hnew rfl rfl
          intro hsynced
          rcases hsynced with hpending | happroved | hdeclined
          · exact hpending.symm
          · exact absurd happroved hnot
          · exact absurd hdeclined (h.creates (.inr (.inr hdeclined)) hsub).2.1

/-! ## One subordinate -/

theorem deleteOne_kept (hdoc : api.Documented)
    (hknown : Known api c.servers c.state) {label' : String} {fp' : Media} (hne : fp' ≠ fp) :
    Kept api label' fp' c (deleteOne setting api label c fp) := by
  unfold deleteOne
  split
  · next sub hsub =>
    have hget := (Option.filter_eq_some_iff.1 hsub).1
    have hstate := (call_state setting label (api.delete sub.id) c).1
    have hchanges : Changes api fp (c.servers label) (api.delete sub.id (c.servers label)).2 := by
      intro fp'' hne''
      rw [held_delete hdoc]
      apply List.filter_eq_self.2
      intro rem hrem
      obtain ⟨hin, hmedia⟩ := mem_held.1 hrem
      have hother : rem.id ≠ sub.id := fun heq => hne'' (hmedia.symm.trans ((hknown fp label sub hget).2 rem hin heq))
      simp [hother]
    simp only [deleteRequest]
    rcases call_cases setting label (api.delete sub.id) c with ⟨-, hservers, -⟩ | ⟨-, hservers⟩
    · exact ⟨by rw [hstate], by rw [hservers], by rw [hstate]⟩
    · refine Changes.kept ?_ hchanges ?_ (fun heq => hne heq.2)
      · exact hservers
      · exact fun _ _ _ => by rw [hstate]; exact ⟨rfl, rfl⟩
  · exact Kept.refl _ _ _

structure Clean (setting : Setting) : Prop where
  answered : ∀ n, setting.fate n = .answered
  loads : setting.loads = true
  saves : setting.saves = true
  deletes : setting.options.syncDeletes = true

theorem Clean.orderlySubordinate (h : Clean setting) (polled : Dict Media Request) (c : Cycle σ) (label : String) :
    OrderlySubordinate api setting polled c label := by
  have hready : (c.wait setting).1 = true := by simp [Cycle.wait, h.answered]
  unfold OrderlySubordinate
  rw [hready, if_pos rfl]
  constructor
  · apply along_of_forall
    intro c m _ _ _
    rw [if_pos h.saves, h.answered]
    exact nofun
  · intro c' _
    apply along_of_forall
    intro c fp _
    rw [if_pos h.saves, h.answered]
    exact nofun

def AllPrepared (api : Api σ) (setting : Setting) (polled : Dict Media Request) (c : Cycle σ) (label : String) : Prop :=
  ∀ m ∈ polled, Prepared api setting c label m.1 m.2

def AllFinished (api : Api σ) (polled : Dict Media Request) (c : Cycle σ) (label : String) : Prop :=
  ∀ m ∈ polled, Finished api c label m.1 m.2

variable {polled : Dict Media Request}

theorem syncSubordinate_finishes (hdoc : api.Documented) (hclean : Clean setting)
    (hmedia : ∀ m ∈ polled, m.2.media = m.1) (hkeys : (Dict.keys polled).Nodup)
    (hfine : Fine api [] file c) (h : AllPrepared api setting polled c label) :
    AllFinished api polled (syncSubordinate setting api polled c label) label ∧
      ∀ label', label' ≠ label → ∀ fp ∈ Dict.keys polled,
        Kept api label' fp c (syncSubordinate setting api polled c label) := by
  have hready : (c.wait setting).1 = true := by simp [Cycle.wait, hclean.answered]
  rw [syncSubordinate_ready api polled label hready]
  simp only [if_pos hclean.deletes]
  have hsame {m m' : Media × Request} (hm : m ∈ polled) (hm' : m' ∈ polled) (heq : m'.1 = m.1) : m' = m :=
    List.inj_on_of_nodup_map hkeys hm' hm heq
  have hwait : ∀ label' fp, Kept api label' fp c (c.wait setting).2 := fun _ _ => ⟨rfl, rfl, rfl⟩
  -- the requests, one after the other
  obtain ⟨⟨hfine₁, hprepared₁, helse₁⟩, hdone₁⟩ :=
    (along_of_forall (f := fun c m => syncRequest setting api label c m.1 m.2) (P := fun _ _ => True)
      (fun _ _ => trivial) (c.wait setting).2 polled).foldl_done
    (I := fun c' => Fine api [] file c' ∧ AllPrepared api setting polled c' label ∧
      ∀ label', label' ≠ label → ∀ fp, Kept api label' fp c c')
    (D := fun c' m => m ∈ polled → Finished api c' label m.1 m.2)
    (fun c' m hm _ hI => by
      obtain ⟨hf, hp, hk⟩ := hI
      obtain ⟨hfinished, hkept⟩ :=
        syncRequest_finishes hdoc (hmedia m hm) hclean.answered hf.known (hp m hm)
      refine ⟨⟨syncRequest_fine hf (hmedia m hm), ?_, ?_⟩, fun _ => hfinished⟩
      · intro m' hm'
        by_cases heq : m'.1 = m.1
        · rw [hsame hm hm' heq]
          exact hfinished.prepared
        · exact (hkept label m'.1 fun hboth => heq hboth.2).prepared (hp m' hm')
      · exact fun label' hl fp => (hk label' hl fp).trans (hkept label' fp fun hboth => hl hboth.1))
    (fun c' m hm _ hI m' hD hm' => by
      obtain ⟨hf, hp, -⟩ := hI
      obtain ⟨hfinished, hkept⟩ :=
        syncRequest_finishes hdoc (hmedia m hm) hclean.answered hf.known (hp m hm)
      by_cases heq : m'.1 = m.1
      · rw [hsame hm hm' heq]
        exact hfinished
      · exact (hkept label m'.1 fun hboth => heq hboth.2).finished (hD hm'))
    ⟨wait_fine setting hfine, fun m hm => (hwait label m.1).prepared (h m hm), fun label' _ fp => hwait label' fp⟩
  -- the deletions
  generalize polled.foldl (fun c m => syncRequest setting api label c m.1 m.2) (c.wait setting).2 = c₁ at *
  have hdeleted : Fine api [] file ((deletedFps polled c₁.state).foldl (deleteOne setting api label) c₁) ∧
      ∀ label' fp, fp ∈ Dict.keys polled →
        Kept api label' fp c₁ ((deletedFps polled c₁.state).foldl (deleteOne setting api label) c₁) :=
    (along_of_forall (f := deleteOne setting api label) (P := fun _ _ => True) (fun _ _ => trivial) c₁ _).foldl
    (I := fun c' => Fine api [] file c' ∧ ∀ label' fp, fp ∈ Dict.keys polled → Kept api label' fp c₁ c')
    (fun c' fp hfp _ hI => by
      have hgone : fp ∉ Dict.keys polled := by
        intro hin
        have hnot := (List.mem_filter.1 hfp).2
        simp [hin] at hnot
      refine ⟨deleteOne_fine hI.1 (fun _ hr => nomatch hr), ?_⟩
      intro label' fp' hfp'
      have hne : fp' ≠ fp := fun heq => hgone (heq ▸ hfp')
      exact (hI.2 label' fp' hfp').trans (deleteOne_kept hdoc hI.1.known hne))
    ⟨hfine₁, fun _ _ _ => Kept.refl _ _ _⟩
  constructor
  · intro m hm
    exact (hdeleted.2 label m.1 (List.mem_map_of_mem hm)).finished (hdone₁ m hm hm)
  · intro label' hl fp hfp
    exact (helse₁ label' hl fp).trans (hdeleted.2 label' fp hfp)

theorem subordinates_finish (hdoc : api.Documented) (hclean : Clean setting)
    (hmedia : ∀ m ∈ polled, m.2.media = m.1) (hkeys : (Dict.keys polled).Nodup)
    (hbooked : Booked api setting file polled c)
    (h : ∀ label ∈ setting.subordinates, AllPrepared api setting polled c label) :
    ∀ label ∈ setting.subordinates,
      AllFinished api polled (setting.subordinates.foldl (syncSubordinate setting api polled) c) label ∧
        Swept api polled (setting.subordinates.foldl (syncSubordinate setting api polled) c) label := by
  have hbooking (c : Cycle σ) (label : String) (hc : Booked api setting file polled c) :=
    syncSubordinate_booked hdoc hmedia hclean.saves (hclean.orderlySubordinate polled c label) hc
  have hkey {m : Media × Request} (hm : m ∈ polled) : m.1 ∈ Dict.keys polled := List.mem_map_of_mem hm
  exact ((along_of_forall (f := syncSubordinate setting api polled) (P := fun _ _ => True) (fun _ _ => trivial) c
      setting.subordinates).foldl_done
    (I := fun c' => Booked api setting file polled c' ∧
      ∀ label ∈ setting.subordinates, AllPrepared api setting polled c' label)
    (D := fun c' label => AllFinished api polled c' label ∧ Swept api polled c' label)
    (fun c' label hl _ hI => by
      obtain ⟨hb, -, hswept⟩ := hbooking c' label hI.1
      obtain ⟨hfinished, hkept⟩ := syncSubordinate_finishes hdoc hclean hmedia hkeys hI.1.fine (hI.2 label hl)
      refine ⟨⟨hb, ?_⟩, hfinished, hswept hclean.deletes⟩
      intro label' hl' m hm
      by_cases heq : label' = label
      · rw [heq]
        exact (hfinished m hm).prepared
      · exact (hkept label' heq m.1 (hkey hm)).prepared (hI.2 label' hl' m hm))
    (fun c' label hl _ hI label' hD => by
      obtain ⟨-, hunpolled, -⟩ := hbooking c' label hI.1
      obtain ⟨hfinished, hkept⟩ := syncSubordinate_finishes hdoc hclean hmedia hkeys hI.1.fine (hI.2 label hl)
      constructor
      · intro m hm
        by_cases heq : label' = label
        · rw [heq]
          exact hfinished m hm
        · exact (hkept label' heq m.1 (hkey hm)).finished (hD.1 m hm)
      · exact fun fp hfp => hunpolled.ids fp label' hfp (hD.2 fp hfp))
    ⟨hbooked, h⟩).2

end Dumb.Seerr
