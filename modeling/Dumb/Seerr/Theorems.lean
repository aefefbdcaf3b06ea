import Mathlib.Logic.Relation
import Dumb.Seerr.Lemmas.Repair

/-!
# What the sync deletes, and when it converges
-/

namespace Dumb.Seerr

open Py
open Relation (ReflTransGen)

variable {σ : Type} {api : Api σ} {setting : Setting}

/-- Where deletions are on, the options let every request of the primary through, and no page of the poll fails or
is cut. -/
def CompletePoll (setting : Setting) (primary : List Request) : Prop :=
  setting.options.syncDeletes = true →
    (∀ r ∈ primary, wanted setting.options r = true) ∧
    ∀ n, take * n < primary.length →
      page primary (take * n) (setting.fate (n + 1)) = some ((primary.drop (take * n)).take take)

theorem polled_of_complete {primary : List Request} (h : CompletePoll setting primary)
    (hdeletes : setting.options.syncDeletes = true) :
    ∀ r ∈ primary, r.media ∈ Dict.keys (fingerprints (pollRequests setting primary 0 1).1) := by
  intro r hr
  obtain ⟨hwanted, hpages⟩ := h hdeletes
  have hpolled := pollRequests_complete hwanted hpages 0 (by simpa using List.length_pos_of_mem hr)
  simp only [Nat.mul_zero, List.drop_zero, Nat.zero_add] at hpolled
  rw [hpolled, (fingerprints_polled primary).keys]
  exact ⟨r, hr, rfl⟩

/-! ## Runs -/

theorem subState_cleanUp {polled : Dict Media Request} {state : SyncState} {fp : Media} {label : String}
    {sub : SubState} (h : (cleanUp setting polled state).subState fp label = some sub) :
    state.subState fp label = some sub := by
  simp only [cleanUp, SyncState.subState] at h ⊢
  split at h
  · rw [Dict.get?_filter (fun fp => (Dict.keys polled).contains fp)] at h
    split at h
    · exact h
    · cases h
  · exact h

theorem syncCycle_fine {primary polled : List Request} {file : SyncState} {c : Cycle σ}
    (h : Fine api primary file c) (hcomplete : setting.options.syncDeletes = true → ∀ r ∈ primary,
      r.media ∈ Dict.keys (fingerprints (pollRequests setting polled 0 (c.calls + 1)).1)) :
    Fine api primary file (syncCycle setting api polled c).2 := by
  unfold syncCycle
  dsimp only
  split
  · exact wait_fine setting h
  · have hmedia := (fingerprints_polled (pollRequests setting polled 0 (c.calls + 1)).1).media
    have hpolled : Fine api primary file
        { c with calls := (pollRequests setting polled 0 (c.calls + 1)).2 } := ⟨h.known, h.file, h.deletions⟩
    have hsynced := foldl_fine (P := fun _ => True) (fun (label : String) (_ : label ∈ setting.subordinates) => trivial)
      (fun c label _ hc => syncSubordinate_fine label hc hmedia hcomplete) hpolled
    exact ⟨fun fp label sub hsub => hsynced.known fp label sub (subState_cleanUp hsub), hsynced.file,
      hsynced.deletions⟩

variable {w : World σ}

theorem start_fine (h : Known api w.servers w.file) (primary : List Request) :
    Fine api primary w.file ⟨w.servers, 0, [], if setting.loads then w.file else .empty⟩ := by
  refine ⟨?_, h, fun _ hd => (nomatch hd)⟩
  dsimp only
  split
  · exact h
  · exact fun _ _ _ hsub => nomatch hsub

theorem step_known {w w' : World σ} (h : Known api w.servers w.file) (hstep : Step api w w') :
    Known api w'.servers w'.file := by
  cases hstep with
  | primary requests => exact h
  | subordinate label s _ hlater => exact h.later hlater
  | cycle setting =>
    have hfine : Fine api [] w.file (runSyncCycle setting api w).2 :=
      syncCycle_fine (start_fine h []) fun _ r hr => nomatch hr
    simp only [World.after]
    split
    · exact hfine.known
    · exact hfine.file

structure Converged (api : Api σ) (primary : List Request) (s : σ) : Prop where
  has : ∀ r ∈ primary, synced r.status →
    ∃ rem ∈ api.requests s, rem.media = r.media ∧ rem.seasons = seasonsOf r ∧ rem.status = r.status
  only : ∀ rem ∈ api.requests s, ∃ r ∈ primary, rem.media = r.media ∧ rem.seasons = seasonsOf r

structure CleanCycle (setting : Setting) (w : World σ) : Prop extends Clean setting where
  pending : setting.options.syncPending = true
  approved : setting.options.syncApproved = true
  declined : setting.options.syncDeclined = true
  late : ∀ key failure, w.file.failed.get? key = some failure →
    3600 * setting.options.retryFailedAfterHours ≤ setting.now - failure.failedAt

/-- What a cycle can mend: where several requests share a fingerprint the last one stands for all of them, an entry
has a request with the right seasons whose status is right or still to be set, and a request that has no entry can be
created as it is. -/
structure Mendable (api : Api σ) (setting : Setting) (w : World σ) : Prop where
  last : ∀ r ∈ w.primary, synced r.status → ∀ m ∈ fingerprints w.primary, m.1 = r.media →
    seasonsOf m.2 = seasonsOf r ∧ m.2.status = r.status
  recorded : ∀ label ∈ setting.subordinates, ∀ m ∈ fingerprints w.primary, ∀ sub,
    w.file.subState m.1 label = some sub → ∀ rem ∈ api.held (w.servers label) m.1,
      rem.seasons = seasonsOf m.2 ∧ (synced m.2.status → Mends sub rem.status m.2)
  new : ∀ label ∈ setting.subordinates, ∀ m ∈ fingerprints w.primary, synced m.2.status →
    w.file.subState m.1 label = none → sent m.2 ∧ m.2.status ≠ requestStatusDeclined
  west : setting.west ≤ 0 ∨ ∀ key failure, w.file.failed.get? key = some failure →
    3600 * setting.options.retryFailedAfterHours ≤ setting.now - (failure.failedAt + setting.west)

theorem CleanCycle.retries (hclean : CleanCycle setting w) (h : Mendable api setting w)
    (key : Media × String) : skipped setting (w.file.failed.get? key) = false := by
  cases hget : w.file.failed.get? key with
  | none => rfl
  | some failure =>
    have hlate := hclean.late key failure hget
    have hnow : ¬setting.now - (failure.failedAt + setting.west) < 3600 * setting.options.retryFailedAfterHours := by
      rcases h.west with hwest | hlater
      · omega
      · exact Int.not_lt.2 (hlater key failure hget)
    simp [skipped, hnow]

theorem CleanCycle.polledOf (hclean : CleanCycle setting w) :
    polledOf setting w.primary = fingerprints w.primary := by
  have hwanted : ∀ r ∈ w.primary, wanted setting.options r = true := by
    intro r _
    simp [wanted, hclean.pending, hclean.approved, hclean.declined]
  have hpages : ∀ n, take * n < w.primary.length →
      page w.primary (take * n) (setting.fate (n + 1)) = some ((w.primary.drop (take * n)).take take) := by
    intro n _
    rw [hclean.answered]
    rfl
  rw [Seerr.polledOf]
  cases hprimary : w.primary with
  | nil => simp [pollRequests, page, hclean.answered]
  | cons r rest =>
    have hpolled := pollRequests_complete hwanted hpages 0 (by simp [hprimary])
    simp only [Nat.mul_zero, List.drop_zero, Nat.zero_add] at hpolled
    rw [← hprimary, hpolled]

theorem fingerprints_nodup (requests : List Request) : (Dict.keys (fingerprints requests)).Nodup := by
  suffices h : ∀ polled : Dict Media Request, (Dict.keys polled).Nodup →
      (Dict.keys (requests.foldl (fun m r => m.set r.media r) polled)).Nodup from h [] List.nodup_nil
  induction requests with
  | nil => exact fun _ h => h
  | cons r rest ih => exact fun polled h => ih _ (Dict.nodup_keys_set h)

theorem fingerprints_mem {requests : List Request} {m : Media × Request} (h : m ∈ fingerprints requests) :
    m.2 ∈ requests := by
  suffices hall : ∀ (rest : List Request) (polled : Dict Media Request), (∀ m ∈ polled, m.2 ∈ requests) →
      (∀ r ∈ rest, r ∈ requests) → ∀ m ∈ rest.foldl (fun m r => m.set r.media r) polled, m.2 ∈ requests from
    hall requests [] (fun _ hm => absurd hm List.not_mem_nil) (fun _ hr => hr) m h
  intro rest
  induction rest with
  | nil => exact fun _ hpolled _ => hpolled
  | cons r rest ih =>
    intro polled hpolled hrest
    apply ih
    · intro m hm
      rcases Dict.mem_set hm with rfl | hm
      · exact hrest r List.mem_cons_self
      · exact hpolled m hm
    · exact fun r' hr' => hrest r' (List.mem_cons_of_mem _ hr')

theorem OrderlyStep.step {w w' : World σ} (h : OrderlyStep api w w') : Step api w w' := by
  cases h with
  | cycle setting _ _ => exact .cycle setting w
  | primary requests => exact .primary requests w

theorem run_ledger (hdoc : api.Documented) {first w : World σ} (hempty : first.file = .empty)
    (hfresh : ∀ label, api.requests (first.servers label) = []) (hrun : ReflTransGen (OrderlyStep api) first w) :
    Known api w.servers w.file ∧ Ledger api w.servers w.file := by
  induction hrun with
  | refl =>
    rw [hempty]
    refine ⟨fun _ _ _ hsub => (nomatch hsub), fun label fp => ?_⟩
    show api.ids _ fp = []
    simp [Api.ids, Api.held, hfresh]
  | tail _ hstep ih =>
    refine ⟨step_known ih.1 hstep.step, ?_⟩
    cases hstep with
    | cycle setting _ horderly => exact after_ledger hdoc ih.1 horderly ih.2
    | primary requests => exact ih.2

/-- In every orderly run, a cycle in which no call fails brings each subordinate to what the primary has, if what it
finds can be mended. -/
theorem cycle_converges (api : Api σ) (hdoc : api.Documented) {first w : World σ} (hempty : first.file = .empty)
    (hfresh : ∀ label, api.requests (first.servers label) = []) (hrun : ReflTransGen (OrderlyStep api) first w)
    (setting : Setting) (hclean : CleanCycle setting w) (hmend : Mendable api setting w) :
    ∀ label ∈ setting.subordinates, Converged api w.primary ((w.after setting api).servers label) := by
  obtain ⟨hknown, hledger⟩ := run_ledger hdoc hempty hfresh hrun
  intro label hlabel
  have hgoes : Goes setting := by
    refine ⟨?_, ?_, List.ne_nil_of_mem hlabel⟩ <;> rw [hclean.answered] <;> exact nofun
  have hstate : (started setting w).state = w.file := if_pos hclean.loads
  have hbooked : Booked api setting w.file (fingerprints w.primary) (started setting w) := by
    constructor
    · exact ⟨hstate.symm ▸ hknown, hknown, fun d hd => nomatch hd⟩
    · intro label fp
      rw [hstate]
      exact .inl (hledger label fp)
  have hprepared : ∀ label ∈ setting.subordinates,
      AllPrepared api setting (fingerprints w.primary) (started setting w) label := by
    intro label hlabel m hm
    constructor
    · rw [hstate]
      exact hledger label m.1
    · intro rem hrem
      cases hsub : w.file.subState m.1 label with
      | some sub => exact (hmend.recorded label hlabel m hm sub hsub rem hrem).1
      | none =>
        have hnone := hledger label m.1
        rw [hsub] at hnone
        rw [show api.held ((started setting w).servers label) m.1 = [] from List.map_eq_nil_iff.1 hnone] at hrem
        exact absurd hrem List.not_mem_nil
    · rw [hstate]
      exact fun hsynced sub hsub rem hrem => (hmend.recorded label hlabel m hm sub hsub rem hrem).2 hsynced
    · rw [hstate]
      intro hsynced hnone
      obtain ⟨hsent, hdeclined⟩ := hmend.new label hlabel m hm hsynced hnone
      exact ⟨hsent, hdeclined, hclean.retries hmend (m.1, label)⟩
  have hpolled := fingerprints_polled w.primary
  obtain ⟨hfinished, hswept⟩ := subordinates_finish hdoc hclean.toClean hpolled.media (fingerprints_nodup w.primary)
    hbooked hprepared label hlabel
  have hservers : (w.after setting api).servers = (setting.subordinates.foldl
      (syncSubordinate setting api (fingerprints w.primary)) (started setting w)).servers := by
    simp only [World.after, runSyncCycle_goes api w hgoes, hclean.polledOf]
  rw [hservers]
  constructor
  · intro r hr hsynced
    obtain ⟨m, hm, hkey⟩ := List.mem_map.1 ((hpolled.keys r.media).2 ⟨r, hr, rfl⟩)
    obtain ⟨hseasons, hstatus⟩ := hmend.last r hr hsynced m hm hkey
    obtain ⟨rem, hrem, hrestatus⟩ := (hfinished m hm).status (hstatus.symm ▸ hsynced)
    obtain ⟨hin, hmedia⟩ := mem_held.1 hrem
    exact ⟨rem, hin, hmedia.trans hkey, ((hfinished m hm).seasons rem hrem).trans hseasons, hrestatus.trans hstatus⟩
  · intro rem hrem
    by_cases hkey : rem.media ∈ Dict.keys (fingerprints w.primary)
    · obtain ⟨m, hm, hmedia⟩ := List.mem_map.1 hkey
      exact ⟨m.2, fingerprints_mem hm, hmedia.symm.trans (hpolled.media m hm).symm,
        (hfinished m hm).seasons rem (mem_held.2 ⟨hrem, hmedia.symm⟩)⟩
    · exact absurd rfl (ids_eq_nil.1 (hswept rem.media hkey) rem hrem)

/-! ## Samples -/

def cycleWith (refused : List Nat) : Setting where
  options := {}
  subordinates := ["internal:kids"]
  now := 0
  west := 0
  fate n := if n ∈ refused then .refused else .answered
  loads := true
  saves := true

def oneMovie : World Store where
  primary := [⟨7, ⟨"movie", 603, false⟩, [], requestStatusApproved⟩]
  servers _ := .empty
  file := .empty

def allOn : Setting := { cycleWith [] with options := { syncDeclined := true } }

theorem cleanCycle_allOn (h : w.file.failed = []) : CleanCycle allOn w where
  answered _ := rfl
  loads := rfl
  saves := rfl
  deletes := rfl
  pending := rfl
  approved := rfl
  declined := rfl
  late key failure hget := by simp [h] at hget

theorem cycle_converges_movie :
    Converged Store.api oneMovie.primary ((oneMovie.after allOn Store.api).servers "internal:kids") :=
  have hmend : Mendable Store.api allOn oneMovie :=
    { last := by decide +kernel
      recorded := fun _ _ _ _ _ hsub => nomatch hsub
      new := by decide +kernel
      west := .inl (by decide) }
  cycle_converges Store.api Store.documented rfl (fun _ => rfl) .refl allOn (cleanCycle_allOn rfl) hmend "internal:kids"
    (List.mem_singleton.2 rfl)

def oneDeclined : World Store :=
  { oneMovie with primary := [⟨7, ⟨"movie", 603, false⟩, [], requestStatusDeclined⟩] }

/-- A declined request is created, recorded as declined, and left pending. -/
theorem declined_stays_pending : CleanCycle allOn oneDeclined ∧ ∃ label ∈ allOn.subordinates,
    ¬Converged Store.api oneDeclined.primary ((oneDeclined.after allOn Store.api).servers label) := by
  refine ⟨cleanCycle_allOn rfl, "internal:kids", by decide, fun h => ?_⟩
  obtain ⟨rem, hrem, -, -, hstatus⟩ := h.has _ (List.mem_singleton.2 rfl) (.inr (.inr rfl))
  revert rem
  decide +kernel

end Dumb.Seerr
