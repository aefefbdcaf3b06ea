import Dumb.Lib.Raise
import Dumb.Seerr.Lemmas.Ledger

/-! Which cycles of a history keep the ledger, whatever else of them fails. -/

namespace Dumb.Seerr

open Py

variable {σ : Type} {api : Api σ} {setting : Setting} {file : SyncState}

/-! ## Deletions -/

variable {label : String} {c : Cycle σ} {fp : Media}

theorem deleteOne_gone (hdoc : api.Documented) (hsaves : setting.saves = true)
    (hknown : Known api c.servers c.state) (horderly : OrderlyDelete setting label c fp)
    (h : Agree (c.state.subState fp label) (api.ids (c.servers label) fp) ∨ api.ids (c.servers label) fp = []) :
    (deleteOne setting api label c fp).state = c.state ∧
      Elsewhere api label fp c (deleteOne setting api label c fp) ∧
      api.ids ((deleteOne setting api label c fp).servers label) fp = [] := by
  unfold deleteOne
  split
  · next sub hsub =>
    have hfate := horderly (by rw [hsub]; simp)
    rw [if_pos hsaves] at hfate
    obtain ⟨hget, hid⟩ := Option.filter_eq_some_iff.1 hsub
    have hstate := (call_state setting label (api.delete sub.id) c).1
    rcases call_cases setting label (api.delete sub.id) c with ⟨-, -, hrefused⟩ | ⟨-, hservers⟩
    · exact absurd hrefused hfate
    · simp only [deleteRequest]
      refine ⟨hstate, ?_, ?_⟩
      · intro label' fp' hne
        rw [hservers]
        refine ⟨by rw [hstate], ?_⟩
        by_cases hl : label' = label
        · subst hl
          rw [Function.update_self, Api.ids, held_delete hdoc, Api.ids]
          congr 1
          apply List.filter_eq_self.2
          intro r hr
          obtain ⟨hin, hmedia⟩ := mem_held.1 hr
          have hother : r.id ≠ sub.id := by
            intro heq
            have hfp := (hknown fp label' sub hget).2 r hin heq
            exact hne ⟨rfl, hmedia.symm.trans hfp⟩
          simp [hother]
        · rw [Function.update_of_ne hl]
      · rw [hservers, Function.update_self, Api.ids, held_delete hdoc]
        rcases h with hagree | hnone
        · rw [hget] at hagree
          simp only [List.map_eq_nil_iff, List.filter_eq_nil_iff]
          intro r hr
          have hmem : r.id ∈ api.ids (c.servers label) fp := List.mem_map_of_mem hr
          rw [hagree.2, List.mem_singleton] at hmem
          simp [hmem]
        · rw [List.map_eq_nil_iff.1 hnone]
          rfl
  · next hsub =>
    refine ⟨rfl, fun _ _ _ => ⟨rfl, rfl⟩, ?_⟩
    rcases h with hagree | hnone
    · rw [hagree.filter] at hsub
      rw [hsub] at hagree
      exact hagree
    · exact hnone

theorem deleteOne_ids (hsaves : setting.saves = false)
    (horderly : OrderlyDelete setting label c fp) (label' : String) (fp' : Media) :
    api.ids ((deleteOne setting api label c fp).servers label') fp' = api.ids (c.servers label') fp' := by
  unfold deleteOne
  split
  · next sub hsub =>
    have hfate := horderly (by rw [hsub]; simp)
    rw [hsaves, if_neg Bool.false_ne_true] at hfate
    simp only [deleteRequest]
    rcases call_cases setting label (api.delete sub.id) c with
      ⟨-, hservers, -⟩ | ⟨⟨-, hnot⟩ | ⟨-, hlost⟩, -⟩
    · rw [hservers]
    · exact absurd hfate hnot
    · rw [hlost] at hfate
      cases hfate
  · rfl

/-! ## Subordinates -/

variable (setting api) in
def OrderlySubordinate (polled : Dict Media Request) (c : Cycle σ) (label : String) : Prop :=
  if (c.wait setting).1 then
    Along (fun c m => syncRequest setting api label c m.1 m.2) (OrderlyRequest setting label) (c.wait setting).2 polled ∧
      let c := polled.foldl (fun c m => syncRequest setting api label c m.1 m.2) (c.wait setting).2
      setting.options.syncDeletes = true →
        Along (deleteOne setting api label) (OrderlyDelete setting label) c (deletedFps polled c.state)
  else
    setting.saves = true → setting.options.syncDeletes = true →
      ∀ fp, c.state.subState fp label ≠ none → fp ∈ Dict.keys polled

theorem syncSubordinate_ready (api : Api σ) (polled : Dict Media Request)
    (label : String) (h : (c.wait setting).1 = true) :
    syncSubordinate setting api polled c label =
      let c := polled.foldl (fun c m => syncRequest setting api label c m.1 m.2) (c.wait setting).2
      if setting.options.syncDeletes then (deletedFps polled c.state).foldl (deleteOne setting api label) c else c := by
  unfold syncSubordinate
  dsimp only
  rw [h]
  rfl

theorem syncSubordinate_waiting (api : Api σ) (polled : Dict Media Request)
    (label : String) (h : (c.wait setting).1 = false) :
    syncSubordinate setting api polled c label = (c.wait setting).2 := by
  unfold syncSubordinate
  dsimp only
  rw [h]
  rfl

structure Booked (api : Api σ) (setting : Setting) (file : SyncState) (polled : Dict Media Request) (c : Cycle σ) :
    Prop where
  fine : Fine api [] file c
  agree : ∀ label fp, Agree (c.state.subState fp label) (api.ids (c.servers label) fp) ∨
    setting.options.syncDeletes = true ∧ fp ∉ Dict.keys polled ∧ api.ids (c.servers label) fp = []

structure Unpolled (api : Api σ) (polled : Dict Media Request) (c c' : Cycle σ) : Prop where
  entries : ∀ fp label, fp ∉ Dict.keys polled → c'.state.subState fp label = c.state.subState fp label
  ids : ∀ fp label, fp ∉ Dict.keys polled → api.ids (c.servers label) fp = [] → api.ids (c'.servers label) fp = []

theorem Unpolled.refl (polled : Dict Media Request) (c : Cycle σ) : Unpolled api polled c c :=
  ⟨fun _ _ _ => rfl, fun _ _ _ h => h⟩

variable {polled : Dict Media Request}

theorem Unpolled.trans {c c' c'' : Cycle σ} (h : Unpolled api polled c c')
    (h' : Unpolled api polled c' c'') : Unpolled api polled c c'' :=
  ⟨fun fp label hfp => (h'.entries fp label hfp).trans (h.entries fp label hfp),
    fun fp label hfp hnone => h'.ids fp label hfp (h.ids fp label hfp hnone)⟩

theorem subState_of_mem_keys {state : SyncState} {sub : SubState}
    (h : state.subState fp label = some sub) : fp ∈ Dict.keys state.requests := by
  rw [Dict.mem_keys]
  intro hnone
  simp [SyncState.subState, hnone] at h

theorem syncRequest_booked (hdoc : api.Documented)
    {m : Media × Request} (hm : m ∈ polled) (hmedia : m.2.media = m.1) (hsaves : setting.saves = true)
    (horderly : OrderlyRequest setting label c m) (h : Booked api setting file polled c) :
    Booked api setting file polled (syncRequest setting api label c m.1 m.2) ∧
      Unpolled api polled c (syncRequest setting api label c m.1 m.2) := by
  obtain ⟨fp, r⟩ := m
  have hkey : fp ∈ Dict.keys polled := List.mem_map.2 ⟨(fp, r), hm, rfl⟩
  have hagree := (h.agree label fp).resolve_right fun hgone => hgone.2.1 hkey
  obtain ⟨helse, hhere⟩ := syncRequest_agree hdoc hmedia hsaves horderly hagree
  have hother : ∀ fp', fp' ∉ Dict.keys polled → ∀ label', ¬(label' = label ∧ fp' = fp) :=
    fun fp' hfp' label' heq => hfp' (heq.2 ▸ hkey)
  constructor
  · constructor
    · exact syncRequest_fine h.fine hmedia
    · intro label' fp'
      by_cases heq : label' = label ∧ fp' = fp
      · obtain ⟨rfl, rfl⟩ := heq
        exact .inl hhere
      · obtain ⟨hentry, hids⟩ := helse label' fp' heq
        dsimp only
        rw [hentry, hids]
        exact h.agree label' fp'
  · constructor
    · exact fun fp' label' hfp' => (helse label' fp' (hother fp' hfp' label')).1
    · intro fp' label' hfp' hnone
      dsimp only
      rw [(helse label' fp' (hother fp' hfp' label')).2]
      exact hnone

theorem deleteOne_booked (hdoc : api.Documented)
    (hfp : fp ∉ Dict.keys polled) (hdeletes : setting.options.syncDeletes = true)
    (hsaves : setting.saves = true) (horderly : OrderlyDelete setting label c fp)
    (h : Booked api setting file polled c) :
    Booked api setting file polled (deleteOne setting api label c fp) ∧
      Unpolled api polled c (deleteOne setting api label c fp) ∧
      api.ids ((deleteOne setting api label c fp).servers label) fp = [] := by
  have hhere := (h.agree label fp).imp_right fun hgone => hgone.2.2
  obtain ⟨hstate, helse, hgone⟩ := deleteOne_gone hdoc hsaves h.fine.known horderly hhere
  refine ⟨⟨deleteOne_fine h.fine (fun _ hr => nomatch hr), ?_⟩, ⟨?_, ?_⟩, hgone⟩
  · intro label' fp'
    by_cases heq : label' = label ∧ fp' = fp
    · obtain ⟨rfl, rfl⟩ := heq
      exact .inr ⟨hdeletes, hfp, hgone⟩
    · obtain ⟨hentry, hids⟩ := helse label' fp' heq
      rw [hentry, hids]
      exact h.agree label' fp'
  · exact fun fp' label' _ => by rw [hstate]
  · intro fp' label' _ hnone
    by_cases heq : label' = label ∧ fp' = fp
    · obtain ⟨rfl, rfl⟩ := heq
      exact hgone
    · rw [(helse label' fp' heq).2]
      exact hnone

def Swept (api : Api σ) (polled : Dict Media Request) (c : Cycle σ) (label : String) : Prop :=
  ∀ fp, fp ∉ Dict.keys polled → api.ids (c.servers label) fp = []

theorem syncSubordinate_booked (hdoc : api.Documented)
    (hmedia : ∀ m ∈ polled, m.2.media = m.1) (hsaves : setting.saves = true)
    (horderly : OrderlySubordinate api setting polled c label) (h : Booked api setting file polled c) :
    Booked api setting file polled (syncSubordinate setting api polled c label) ∧
      Unpolled api polled c (syncSubordinate setting api polled c label) ∧
      (setting.options.syncDeletes = true → Swept api polled (syncSubordinate setting api polled c label) label) := by
  have hwait : Booked api setting file polled (c.wait setting).2 := ⟨wait_fine setting h.fine, h.agree⟩
  unfold OrderlySubordinate at horderly
  cases hready : (c.wait setting).1 with
  | false =>
    rw [hready, if_neg Bool.false_ne_true] at horderly
    rw [syncSubordinate_waiting api polled label hready]
    refine ⟨hwait, ⟨fun _ _ _ => rfl, fun _ _ _ hnone => hnone⟩, ?_⟩
    intro hdeletes fp hfp
    rcases h.agree label fp with hagree | hgone
    · have hnone : c.state.subState fp label = none := by
        by_contra hsome
        exact hfp (horderly hsaves hdeletes fp hsome)
      rw [hnone] at hagree
      exact hagree
    · exact hgone.2.2
  | true =>
    rw [hready, if_pos rfl] at horderly
    obtain ⟨hrequests, hdeleted⟩ := horderly
    have hsynced := hrequests.foldl
      (I := fun c' => Booked api setting file polled c' ∧ Unpolled api polled (c.wait setting).2 c')
      (fun c' m hm hP hI => by
        obtain ⟨hb, hu⟩ := syncRequest_booked hdoc hm (hmedia m hm) hsaves hP hI.1
        exact ⟨hb, hI.2.trans hu⟩)
      ⟨hwait, Unpolled.refl _ _⟩
    have hstart : Unpolled api polled c (c.wait setting).2 := ⟨fun _ _ _ => rfl, fun _ _ _ hnone => hnone⟩
    rw [syncSubordinate_ready api polled label hready]
    dsimp only
    generalize hc : polled.foldl (fun c m => syncRequest setting api label c m.1 m.2) (c.wait setting).2 = c' at *
    split
    · next hdeletes =>
      have hgone : ∀ fp ∈ deletedFps polled c'.state, fp ∉ Dict.keys polled := by
        intro fp hfp hin
        have hnot := (List.mem_filter.1 hfp).2
        simp [hin] at hnot
      obtain ⟨⟨hbooked, hunpolled⟩, hdone⟩ := (hdeleted hdeletes).foldl_done
        (I := fun c'' => Booked api setting file polled c'' ∧ Unpolled api polled c' c'')
        (D := fun c'' fp => fp ∉ Dict.keys polled → api.ids (c''.servers label) fp = [])
        (fun c'' fp hfp hP hI => by
          obtain ⟨hb, hu, hnone⟩ := deleteOne_booked hdoc (hgone fp hfp) hdeletes hsaves hP hI.1
          exact ⟨⟨hb, hI.2.trans hu⟩, fun _ => hnone⟩)
        (fun c'' fp hfp hP hI fp' hD hnot => by
          obtain ⟨-, hu, -⟩ := deleteOne_booked hdoc (hgone fp hfp) hdeletes hsaves hP hI.1
          exact hu.ids fp' label hnot (hD hnot))
        ⟨hsynced.1, Unpolled.refl _ _⟩
      refine ⟨hbooked, (hstart.trans hsynced.2).trans hunpolled, ?_⟩
      intro _ fp hfp
      by_cases hrec : fp ∈ Dict.keys c'.state.requests
      · exact hdone fp (List.mem_filter.2 ⟨hrec, by simp [hfp]⟩) hfp
      · apply hunpolled.ids fp label hfp
        rcases hsynced.1.agree label fp with hagree | hnone
        · cases hsub : c'.state.subState fp label with
          | none =>
            rw [hsub] at hagree
            exact hagree
          | some sub => exact absurd (subState_of_mem_keys hsub) hrec
        · exact hnone.2.2
    · next hdeletes => exact ⟨hsynced.1, hstart.trans hsynced.2, fun hon => absurd hon hdeletes⟩

theorem syncSubordinate_ids (hdoc : api.Documented)
    (hsaves : setting.saves = false) (horderly : OrderlySubordinate api setting polled c label) (label' : String)
    (fp' : Media) :
    api.ids ((syncSubordinate setting api polled c label).servers label') fp' = api.ids (c.servers label') fp' := by
  unfold OrderlySubordinate at horderly
  cases hready : (c.wait setting).1 with
  | false =>
    rw [syncSubordinate_waiting api polled label hready]
    rfl
  | true =>
    rw [hready, if_pos rfl] at horderly
    obtain ⟨hrequests, hdeleted⟩ := horderly
    have hsynced := hrequests.foldl (I := fun c' => api.ids (c'.servers label') fp' = api.ids (c.servers label') fp')
      (fun c' m _ hP hI => (syncRequest_ids hdoc hsaves hP label' fp').trans hI) rfl
    rw [syncSubordinate_ready api polled label hready]
    dsimp only
    split
    · next hdeletes =>
      exact (hdeleted hdeletes).foldl (I := fun c' => api.ids (c'.servers label') fp' = api.ids (c.servers label') fp')
        (fun c' fp _ hP hI => (deleteOne_ids hsaves hP label' fp').trans hI) hsynced
    · exact hsynced

/-! ## Cycles -/

def polledOf (setting : Setting) (primary : List Request) : Dict Media Request :=
  fingerprints (pollRequests setting primary 0 1).1

def started (setting : Setting) (w : World σ) : Cycle σ :=
  ⟨w.servers, (pollRequests setting w.primary 0 1).2, [], if setting.loads then w.file else .empty⟩

def Goes (setting : Setting) : Prop :=
  setting.fate 0 ≠ .refused ∧ setting.fate 0 ≠ .lost ∧ setting.subordinates ≠ []

theorem runSyncCycle_goes (api : Api σ) (w : World σ) (h : Goes setting) :
    runSyncCycle setting api w =
      let c := setting.subordinates.foldl (syncSubordinate setting api (polledOf setting w.primary)) (started setting w)
      (true, { c with state := cleanUp setting (polledOf setting w.primary) c.state }) := by
  obtain ⟨hrefused, hlost, hsome⟩ := h
  unfold runSyncCycle syncCycle Cycle.wait
  dsimp only
  cases hfate : setting.fate 0 with
  | refused => exact absurd hfate hrefused
  | lost => exact absurd hfate hlost
  | answered =>
    simp only [Bool.not_true, Bool.false_or, decide_eq_true_eq, if_neg hsome, Nat.zero_add]
    rfl
  | short results =>
    simp only [Bool.not_true, Bool.false_or, decide_eq_true_eq, if_neg hsome, Nat.zero_add]
    rfl

theorem runSyncCycle_stops (api : Api σ) (w : World σ) (h : ¬Goes setting) :
    (runSyncCycle setting api w).1 = false ∧ (runSyncCycle setting api w).2.servers = w.servers := by
  unfold runSyncCycle syncCycle Cycle.wait
  dsimp only
  cases hfate : setting.fate 0 with
  | refused => exact ⟨rfl, rfl⟩
  | lost => exact ⟨rfl, rfl⟩
  | answered =>
    have hnone : setting.subordinates = [] := by
      by_contra hsome
      exact h ⟨by simp [hfate], by simp [hfate], hsome⟩
    simp [hnone]
  | short results =>
    have hnone : setting.subordinates = [] := by
      by_contra hsome
      exact h ⟨by simp [hfate], by simp [hfate], hsome⟩
    simp [hnone]

variable (setting api) in
/-- A cycle whose new file, if it is saved, says all that the old one said of what stays, and whose subordinates are
orderly. -/
structure OrderlyCycle (w : World σ) : Prop where
  loads : setting.saves = true → setting.loads = true ∨ ∀ fp label, w.file.subState fp label = none
  listed : setting.saves = true → setting.options.syncDeletes = true → ∀ fp label, w.file.subState fp label ≠ none →
    fp ∉ Dict.keys (polledOf setting w.primary) → label ∈ setting.subordinates
  subordinates : Along (syncSubordinate setting api (polledOf setting w.primary))
    (OrderlySubordinate api setting (polledOf setting w.primary)) (started setting w) setting.subordinates

theorem subState_cleanUp_eq (setting : Setting) (polled : Dict Media Request) (state : SyncState) (fp : Media)
    (label : String) : (cleanUp setting polled state).subState fp label =
      if setting.options.syncDeletes = true ∧ fp ∉ Dict.keys polled then none else state.subState fp label := by
  simp only [cleanUp, SyncState.subState]
  by_cases hdeletes : setting.options.syncDeletes = true
  · rw [if_pos hdeletes, Dict.get?_filter (fun fp => (Dict.keys polled).contains fp)]
    by_cases hfp : fp ∈ Dict.keys polled <;> simp [hdeletes, hfp]
  · simp [hdeletes]

theorem after_ledger (hdoc : api.Documented) {w : World σ} (hknown : Known api w.servers w.file)
    (horderly : Goes setting → OrderlyCycle api setting w) (h : Ledger api w.servers w.file) :
    Ledger api (w.after setting api).servers (w.after setting api).file := by
  by_cases hgoes : Goes setting
  · obtain ⟨hloads, hlisted, hsubs⟩ := horderly hgoes
    have hmedia := (fingerprints_polled (pollRequests setting w.primary 0 1).1).media
    simp only [World.after, runSyncCycle_goes api w hgoes]
    cases hsaves : setting.saves with
    | false =>
      have hids : ∀ label fp, api.ids ((setting.subordinates.foldl
          (syncSubordinate setting api (polledOf setting w.primary)) (started setting w)).servers label) fp =
            api.ids (w.servers label) fp := by
        intro label fp
        exact hsubs.foldl (I := fun c => api.ids (c.servers label) fp = api.ids (w.servers label) fp)
          (fun c label' _ hP hI => (syncSubordinate_ids hdoc hsaves hP label fp).trans hI) rfl
      intro label fp
      simp only [Bool.and_false, Bool.false_eq_true, ↓reduceIte]
      rw [hids]
      exact h label fp
    | true =>
      have hstate : ∀ fp label, (started setting w).state.subState fp label = w.file.subState fp label := by
        intro fp label
        simp only [started]
        split
        · rfl
        · next hnot =>
          rw [((hloads hsaves).resolve_left hnot) fp label]
          rfl
      have hknown' : Known api (started setting w).servers (started setting w).state := by
        intro fp label sub hsub
        exact hknown fp label sub (hstate fp label ▸ hsub)
      have hfirst : Booked api setting w.file (polledOf setting w.primary) (started setting w) := by
        constructor
        · exact ⟨hknown', hknown, fun d hd => nomatch hd⟩
        · intro label fp
          rw [hstate]
          exact .inl (h label fp)
      obtain ⟨⟨hbooked, hunpolled⟩, hswept⟩ := hsubs.foldl_done
        (I := fun c => Booked api setting w.file (polledOf setting w.primary) c ∧
          Unpolled api (polledOf setting w.primary) (started setting w) c)
        (D := fun c label => setting.options.syncDeletes = true → Swept api (polledOf setting w.primary) c label)
        (fun c label _ hP hI => by
          obtain ⟨hb, hu, hs⟩ := syncSubordinate_booked hdoc hmedia hsaves hP hI.1
          exact ⟨⟨hb, hI.2.trans hu⟩, hs⟩)
        (fun c label _ hP hI label' hD hdeletes fp hfp => by
          obtain ⟨-, hu, -⟩ := syncSubordinate_booked hdoc hmedia hsaves hP hI.1
          exact hu.ids fp label' hfp (hD hdeletes fp hfp))
        ⟨hfirst, Unpolled.refl _ _⟩
      intro label fp
      simp only [Bool.and_self, ↓reduceIte, subState_cleanUp_eq]
      split
      · next hgone =>
        obtain ⟨hdeletes, hfp⟩ := hgone
        show api.ids _ fp = []
        by_cases hlabel : label ∈ setting.subordinates
        · exact hswept label hlabel hdeletes fp hfp
        · have hnone : w.file.subState fp label = none := by
            by_contra hsome
            exact hlabel (hlisted hsaves hdeletes fp label hsome hfp)
          rcases hbooked.agree label fp with hagree | hnil
          · rw [hunpolled.entries fp label hfp, hstate, hnone] at hagree
            exact hagree
          · exact hnil.2.2
      · next hstays =>
        rcases hbooked.agree label fp with hagree | hnil
        · exact hagree
        · exact absurd ⟨hnil.1, hnil.2.1⟩ hstays
  · obtain ⟨hfinished, hservers⟩ := runSyncCycle_stops api w hgoes
    simp only [World.after, hfinished, hservers, Bool.false_and, Bool.false_eq_true, ↓reduceIte]
    exact h

inductive OrderlyStep (api : Api σ) : World σ → World σ → Prop
  | cycle (setting : Setting) (w : World σ) (h : Goes setting → OrderlyCycle api setting w) :
      OrderlyStep api w (w.after setting api)
  | primary (requests : List Request) (w : World σ) : OrderlyStep api w { w with primary := requests }

end Dumb.Seerr
