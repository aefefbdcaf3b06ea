import Dumb.Media.Lemmas.Guard

/-!
# The guard of Jellyfin and Emby

One request for each task and each library. A snapshot holds all options of a library, so that a restore is right where
a user has not changed the others.
-/

namespace Dumb.Media.Browser

open Py Crash

variable {text : Text}

/-! ## Cells -/

@[simp] theorem cell_withTask_triggers (id id' : String) (task : Task) (b : Browser) :
    cell (b.withTask id task) (.triggers id') = if id' = id then some (.arr task.triggers) else cell b (.triggers id') := by
  simp only [cell, withTask, Dict.get?_set]
  split <;> rfl

@[simp] theorem cell_withFolder_option (id id' key : String) (options : Dict String Json) (b : Browser) :
    cell (b.withFolder id options) (.option id' key) =
      if id' = id then options.get? key else cell b (.option id' key) := by
  simp only [cell, withFolder, Dict.get?_set]
  split <;> rfl

variable {b : Browser} {id : String}

theorem cell_triggers {task : Task} (h : b.tasks.get? id = some task) :
    cell b (.triggers id) = some (.arr task.triggers) := by simp [cell, h]

theorem task_of_cell {triggers : List Json} (h : cell b (.triggers id) = some (.arr triggers)) :
    ∃ task, b.tasks.get? id = some task ∧ task.triggers = triggers := by
  obtain ⟨task, htask, heq⟩ := Option.map_eq_some_iff.1 h
  exact ⟨task, htask, Json.arr.inj heq⟩

/-! ## Requests -/

variable {R : String → Browser → Prop} {C : Browser → Prop}

theorem wp_postTriggers {triggers : List Json} {Q : Unit → Browser → Prop}
   
    (hok : ∀ task, b.tasks.get? id = some task →
      Q () (b.withTask id { task with triggers }) ∧ ∀ e, R e (b.withTask id { task with triggers }))
    (hraise : ∀ e, R e b) : Prog.wp Fate.NoDeath (request (postTriggers id triggers)) Q R C b := by
  apply wp_request _ hraise
  intro _ b' h
  unfold postTriggers at h
  split at h
  · next task htask =>
    cases h
    exact hok task htask
  · cases h

variable {options : Dict String Json}

theorem wp_postOptions {Q : Unit → Browser → Prop}
   
    (hok : Q () (b.withFolder id options) ∧ ∀ e, R e (b.withFolder id options)) (hraise : ∀ e, R e b) :
    Prog.wp Fate.NoDeath (request (postOptions id options)) Q R C b := by
  apply wp_request _ hraise
  intro _ b' h
  unfold postOptions at h
  split at h
  · cases h
    exact hok
  · cases h

theorem wp_stopTask {I : Browser → Prop}
    (hsame : I b) (hstopped : ∀ task, b.tasks.get? id = some task → I (b.withTask id { task with state := "Idle" })) :
    Prog.wp Fate.NoDeath (tolerated (request (stopTask id))) (fun _ => I) R C b := by
  apply wp_tolerated
  apply wp_request _ fun _ => hsame
  intro _ b' h
  unfold stopTask at h
  split at h
  · next task htask =>
    cases h
    exact ⟨hstopped task htask, fun _ => hstopped task htask⟩
  · cases h

theorem wp_virtualFolders {Q : Dict String (Dict String Json) → Browser → Prop}
    (hok : Q b.folders b) (hraise : ∀ e, R e b) :
    Prog.wp Fate.NoDeath virtualFolders Q R C b :=
  Prog.wp_tryExcept (wp_ask hok fun _ => wp_ask hok hraise)

/-! ## The guard -/

structure TellsTasks (b b' : Browser) (tasks : List (String × List Json)) : Prop where
  task : ∀ t ∈ tasks, cell b (.triggers t.1) = some (.arr t.2) ∧ cell b' (.triggers t.1) = some (.arr [])
  rest : ∀ c, (∀ t ∈ tasks, c ≠ .triggers t.1) → cell b' c = cell b c

theorem wp_stopScan {task : Task} :
    Prog.wp Fate.NoDeath (stopScan text id task) (fun _ b' => ∀ c, cell b' c = cell b c) R C b := by
  unfold stopScan
  split
  · apply wp_stopTask fun _ => rfl
    intro task' htask' c
    cases c with
    | option id' key => rfl
    | triggers id' =>
      rw [cell_withTask_triggers]
      split
      · next heq => rw [heq, cell_triggers htask']
      · rfl
  · exact Prog.wp_pure fun _ => rfl

theorem wp_clearTriggers {task : Task}
    (hraise : ∀ e b, R e b) (htask : cell b (.triggers id) = some (.arr task.triggers)) :
    Prog.wp Fate.NoDeath (clearTriggers id task)
      (fun _ b' => cell b' (.triggers id) = some (.arr []) ∧ ∀ c, c ≠ .triggers id → cell b' c = cell b c) R C b := by
  unfold clearTriggers
  split
  · apply wp_postTriggers _ fun e => hraise e b
    intro task' htask'
    refine ⟨⟨by simp, fun c hc => ?_⟩, fun e => hraise e _⟩
    cases c with
    | option id' key => rfl
    | triggers id' =>
      rw [cell_withTask_triggers, if_neg]
      exact fun heq => hc (congrArg Cell.triggers heq)
  · next hempty =>
    rw [not_not.1 hempty] at htask
    exact Prog.wp_pure ⟨htask, fun _ _ => rfl⟩

theorem wp_guardTasks (hraise : ∀ e b, R e b) : ∀ {tasks : Dict String Task} {b : Browser},
    (Dict.keys tasks).Nodup → (∀ t ∈ tasks, cell b (.triggers t.1) = some (.arr t.2.triggers)) →
      Prog.wp Fate.NoDeath (guardTasks text tasks)
        (fun guarded b' => TellsTasks b b' guarded ∧ ∀ t ∈ guarded, t.1 ∈ Dict.keys tasks) R (fun _ => False) b
  | [], b, _, _ => Prog.wp_pure ⟨⟨by simp, fun _ _ => rfl⟩, by simp⟩
  | (id, task) :: tasks, b, hnodup, htasks => by
    rw [Dict.keys, List.map_cons, List.nodup_cons] at hnodup
    obtain ⟨hid, hnodup⟩ := hnodup
    have hne : ∀ t ∈ tasks, t.1 ≠ id := fun t ht heq => hid (List.mem_map.2 ⟨t, ht, heq⟩)
    have hhead := htasks _ List.mem_cons_self
    unfold guardTasks
    split
    · apply Prog.wp_bind
      apply Prog.wp_mono wp_stopScan _ (fun _ _ h => h) fun _ h => h
      intro _ b₁ hstop
      apply Prog.wp_bind
      apply Prog.wp_mono (wp_clearTriggers hraise ((hstop _).trans hhead)) _ (fun _ _ h => h) fun _ h => h
      intro _ b₂ hclear
      have hsame : ∀ c, c ≠ .triggers id → cell b₂ c = cell b c := fun c hc => (hclear.2 c hc).trans (hstop c)
      apply Prog.wp_bind
      apply Prog.wp_mono (wp_guardTasks hraise hnodup _) _ (fun _ _ h => h) fun _ h => h
      · intro t ht
        rw [hsame _ fun heq => hne t ht (Cell.triggers.inj heq)]
        exact htasks t (List.mem_cons_of_mem _ ht)
      intro rest b' hrest
      have hoff : ∀ t ∈ rest, t.1 ≠ id := fun t ht heq => hid (heq ▸ hrest.2 t ht)
      apply Prog.wp_pure
      refine ⟨⟨?_, ?_⟩, ?_⟩
      · intro t ht
        rcases List.mem_cons.1 ht with rfl | ht
        · refine ⟨hhead, ?_⟩
          rw [hrest.1.rest _ fun t ht heq => hoff t ht (Cell.triggers.inj heq).symm]
          exact hclear.1
        · obtain ⟨hbefore, hafter⟩ := hrest.1.task t ht
          rw [hsame _ fun heq => hoff t ht (Cell.triggers.inj heq)] at hbefore
          exact ⟨hbefore, hafter⟩
      · intro c hc
        rw [hrest.1.rest c fun t ht => hc t (List.mem_cons_of_mem _ ht), hsame c (hc _ List.mem_cons_self)]
      · intro t ht
        rw [Dict.keys, List.map_cons]
        rcases List.mem_cons.1 ht with rfl | ht
        · exact List.mem_cons_self
        · exact List.mem_cons_of_mem _ (hrest.2 t ht)
    · apply Prog.wp_mono (wp_guardTasks hraise hnodup fun t ht => htasks t (List.mem_cons_of_mem _ ht)) _
        (fun _ _ h => h) fun _ h => h
      intro guarded b' h
      refine ⟨h.1, fun t ht => ?_⟩
      rw [Dict.keys, List.map_cons]
      exact List.mem_cons_of_mem _ (h.2 t ht)

structure TellsFolders (b b' : Browser) (libraries : List (String × Dict String Json)) : Prop where
  folder : ∀ l ∈ libraries, (∀ key, cell b (.option l.1 key) = l.2.get? key) ∧
    l.2.get? realtimeMonitor = some (.bool true) ∧
      (l.1 ≠ "" → cell b' (.option l.1 realtimeMonitor) = some (.bool false))
  rest : ∀ c, (∀ l ∈ libraries, l.1 ≠ "" → c ≠ .option l.1 realtimeMonitor) → cell b' c = cell b c

theorem isTrue_of_any {key : String} {b : Bool} (h : (options.get? key).any (isBool b) = true) :
    options.get? key = some (.bool b) := by
  cases hget : options.get? key with
  | none => simp [hget] at h
  | some value => simpa [hget] using h

theorem wp_turnOff
    (hraise : ∀ e b, R e b) (hoptions : ∀ key, cell b (.option id key) = options.get? key) :
    Prog.wp Fate.NoDeath (updateLibraryOptions id (options.set realtimeMonitor (.bool false)))
      (fun _ b' => (id ≠ "" → cell b' (.option id realtimeMonitor) = some (.bool false)) ∧
        ∀ c, (id ≠ "" → c ≠ .option id realtimeMonitor) → cell b' c = cell b c) R C b := by
  unfold updateLibraryOptions
  split
  · next hid =>
    apply wp_postOptions _ fun e => hraise e b
    refine ⟨⟨by simp, fun c hc => ?_⟩, fun e => hraise e _⟩
    cases c with
    | triggers id' => rfl
    | option id' key =>
      rw [cell_withFolder_option]
      split
      · next heq =>
        subst heq
        have hkey : key ≠ realtimeMonitor := by
          rintro rfl
          exact hc hid rfl
        rw [Dict.get?_set_ne hkey, hoptions]
      · rfl
  · next hid => exact Prog.wp_pure ⟨fun h => absurd h hid, fun _ _ => rfl⟩

theorem wp_guardFolders (hraise : ∀ e b, R e b) :
    ∀ {folders : Dict String (Dict String Json)} {b : Browser}, (Dict.keys folders).Nodup →
      (∀ f ∈ folders, ∀ key, cell b (.option f.1 key) = f.2.get? key) →
        Prog.wp Fate.NoDeath (guardFolders folders)
          (fun libraries b' => TellsFolders b b' libraries ∧ ∀ l ∈ libraries, l.1 ∈ Dict.keys folders) R (fun _ => False) b
  | [], b, _, _ => Prog.wp_pure ⟨⟨by simp, fun _ _ => rfl⟩, by simp⟩
  | (id, options) :: folders, b, hnodup, hfolders => by
    rw [Dict.keys, List.map_cons, List.nodup_cons] at hnodup
    obtain ⟨hid, hnodup⟩ := hnodup
    have hne : ∀ f ∈ folders, f.1 ≠ id := fun f hf heq => hid (List.mem_map.2 ⟨f, hf, heq⟩)
    have hhead := hfolders _ List.mem_cons_self
    unfold guardFolders
    split
    · next hon =>
      apply Prog.wp_bind
      apply Prog.wp_mono (wp_turnOff hraise hhead) _ (fun _ _ h => h) fun _ h => h
      intro _ b₁ hoff
      have hsame : ∀ id' key, id' ≠ id → cell b₁ (.option id' key) = cell b (.option id' key) :=
        fun id' key hid' => hoff.2 _ fun _ heq => hid' (Cell.option.inj heq).1
      apply Prog.wp_bind
      apply Prog.wp_mono (wp_guardFolders hraise hnodup _) _ (fun _ _ h => h) fun _ h => h
      · intro f hf key
        rw [hsame _ _ (hne f hf)]
        exact hfolders f (List.mem_cons_of_mem _ hf) key
      intro rest b' hrest
      have hapart : ∀ l ∈ rest, l.1 ≠ id := fun l hl heq => hid (heq ▸ hrest.2 l hl)
      apply Prog.wp_pure
      refine ⟨⟨?_, ?_⟩, ?_⟩
      · intro l hl
        rcases List.mem_cons.1 hl with rfl | hl
        · refine ⟨hhead, isTrue_of_any hon, fun hid' => ?_⟩
          rw [hrest.1.rest _ fun l hl _ heq => hapart l hl (Cell.option.inj heq).1.symm]
          exact hoff.1 hid'
        · obtain ⟨hoptions, hmonitor, hafter⟩ := hrest.1.folder l hl
          exact ⟨fun key => (hsame _ key (hapart l hl)).symm.trans (hoptions key), hmonitor, hafter⟩
      · intro c hc
        rw [hrest.1.rest c fun l hl => hc l (List.mem_cons_of_mem _ hl), hoff.2 c (hc _ List.mem_cons_self)]
      · intro l hl
        rw [Dict.keys, List.map_cons]
        rcases List.mem_cons.1 hl with rfl | hl
        · exact List.mem_cons_self
        · exact List.mem_cons_of_mem _ (hrest.2 l hl)
    · apply Prog.wp_mono (wp_guardFolders hraise hnodup fun f hf => hfolders f (List.mem_cons_of_mem _ hf)) _
        (fun _ _ h => h) fun _ h => h
      intro libraries b' h
      refine ⟨h.1, fun l hl => ?_⟩
      rw [Dict.keys, List.map_cons]
      exact List.mem_cons_of_mem _ (h.2 l hl)

structure Tells (b b' : Browser) (snapshot : Snapshot) : Prop where
  task : ∀ t ∈ snapshot.tasks, cell b (.triggers t.1) = some (.arr t.2) ∧ cell b' (.triggers t.1) = some (.arr [])
  folder : ∀ l ∈ snapshot.libraries, (∀ key, cell b (.option l.1 key) = l.2.get? key) ∧
    l.2.get? realtimeMonitor = some (.bool true) ∧
      (l.1 ≠ "" → cell b' (.option l.1 realtimeMonitor) = some (.bool false))
  rest : ∀ c, (∀ t ∈ snapshot.tasks, c ≠ .triggers t.1) →
    (∀ l ∈ snapshot.libraries, l.1 ≠ "" → c ≠ .option l.1 realtimeMonitor) → cell b' c = cell b c

theorem enter_tells (b : Browser) :
    Prog.wp Fate.NoDeath (enterScanGuard text) (fun snapshot b' => Tells b b' snapshot) (fun _ _ => True)
      (fun _ => False) b := by
  apply Prog.wp_bind
  apply wp_ask _ fun _ => trivial
  apply Prog.wp_bind
  apply Prog.wp_mono (wp_guardTasks (fun _ _ => trivial) b.tasks_distinct _) _ (fun _ _ h => h) fun _ h => h
  · exact fun t ht => cell_triggers (Dict.get?_of_mem b.tasks_distinct ht)
  rintro tasks b₁ ⟨htasks, -⟩
  apply Prog.wp_bind
  apply wp_virtualFolders _ fun _ => trivial
  apply Prog.wp_bind
  apply Prog.wp_mono (wp_guardFolders (fun _ _ => trivial) b₁.folders_distinct _) _ (fun _ _ h => h) fun _ h => h
  · intro f hf key
    simp [cell, Dict.get?_of_mem b₁.folders_distinct hf]
  rintro libraries b₂ ⟨hfolders, -⟩
  apply Prog.wp_pure
  constructor
  · intro t ht
    obtain ⟨hbefore, hafter⟩ := htasks.task t ht
    refine ⟨hbefore, ?_⟩
    rw [hfolders.rest (.triggers t.1) fun _ _ _ => nofun, hafter]
  · intro l hl
    obtain ⟨hoptions, hmonitor, hafter⟩ := hfolders.folder l hl
    refine ⟨fun key => ?_, hmonitor, hafter⟩
    rw [← hoptions, htasks.rest (.option l.1 key) fun _ _ => nofun]
  · intro c htask hfolder
    rw [hfolders.rest c hfolder, htasks.rest c htask]

/-! ## The restore -/

def Current (snapshot : Snapshot) (b : Browser) : Prop :=
  ∀ l ∈ snapshot.libraries, l.1 ≠ "" → cell b (.option l.1 realtimeMonitor) = some (.bool false) →
    ∀ key, key ≠ realtimeMonitor → cell b (.option l.1 key) = l.2.get? key

section

variable {s₀ s₁ s : Browser} {snapshot : Snapshot} (htells : Tells s₀ s₁ snapshot)

include htells

theorem changed_task {t : String × List Json} (ht : t ∈ snapshot.tasks) (hne : t.2 ≠ []) :
    Changed (mediaBrowserAdapter text) s₀ s₁ (.triggers t.1) := by
  obtain ⟨hbefore, hafter⟩ := htells.task t ht
  intro heq
  have hsame : cell s₁ (.triggers t.1) = cell s₀ (.triggers t.1) := heq
  rw [hbefore, hafter, Option.some.injEq, Json.arr.injEq] at hsame
  exact hne hsame.symm

variable {l : String × Dict String Json}

theorem folder_before (hl : l ∈ snapshot.libraries) :
    cell s₀ (.option l.1 realtimeMonitor) = some (.bool true) := by
  obtain ⟨hoptions, hmonitor, -⟩ := htells.folder l hl
  rw [hoptions, hmonitor]

theorem changed_folder (hl : l ∈ snapshot.libraries) (hne : l.1 ≠ "") :
    Changed (mediaBrowserAdapter text) s₀ s₁ (.option l.1 realtimeMonitor) := by
  intro heq
  have hsame : cell s₁ (.option l.1 realtimeMonitor) = cell s₀ (.option l.1 realtimeMonitor) := heq
  rw [folder_before htells hl, (htells.folder l hl).2.2 hne] at hsame
  simp at hsame

theorem changed_cases {c : Cell} (hc : Changed (mediaBrowserAdapter text) s₀ s₁ c) :
    (∃ t ∈ snapshot.tasks, t.2 ≠ [] ∧ c = .triggers t.1) ∨
      ∃ l ∈ snapshot.libraries, l.1 ≠ "" ∧ c = .option l.1 realtimeMonitor := by
  by_contra hnot
  obtain ⟨htask, hfolder⟩ := not_or.1 hnot
  by_cases hempty : ∃ t ∈ snapshot.tasks, c = .triggers t.1
  · obtain ⟨t, ht, rfl⟩ := hempty
    have hnil : t.2 = [] := by
      by_contra hne
      exact htask ⟨t, ht, hne, rfl⟩
    obtain ⟨hbefore, hafter⟩ := htells.task t ht
    apply hc
    show cell s₁ (.triggers t.1) = cell s₀ (.triggers t.1)
    rw [hafter, hbefore, hnil]
  · apply hc
    apply htells.rest c
    · exact fun t ht heq => hempty ⟨t, ht, heq⟩
    · exact fun l hl hne heq => hfolder ⟨l, hl, hne, heq⟩

theorem wp_restoreTask {s' : Browser} {t : String × List Json} (ht : t ∈ snapshot.tasks)
    (hheld : Held (mediaBrowserAdapter text) s₀ s₁ s) (hnear : Nearer (mediaBrowserAdapter text) s₀ s₁ s s') :
    Prog.wp Fate.NoDeath (restoreTask s.tasks t)
      (fun _ s'' => Nearer (mediaBrowserAdapter text) s₀ s₁ s' s'' ∧
        (t.2 ≠ [] → cell s'' (.triggers t.1) = cell s₀ (.triggers t.1)))
      (fun _ s'' => Nearer (mediaBrowserAdapter text) s₀ s₁ s' s'') (fun _ => False) s' := by
  obtain ⟨hbefore, hafter⟩ := htells.task t ht
  unfold restoreTask
  dsimp only
  split
  · next hempty =>
    apply wp_postTriggers _ fun _ => .refl
    intro task htask
    have hposted : cell (s'.withTask t.1 { task with triggers := t.2 }) (.triggers t.1) = cell s₀ (.triggers t.1) := by
      simp [hbefore]
    have hstep : Nearer (mediaBrowserAdapter text) s₀ s₁ s' (s'.withTask t.1 { task with triggers := t.2 }) := by
      intro c
      by_cases hc : c = .triggers t.1
      · subst hc
        exact .inr ⟨changed_task htells ht hempty.2, hposted⟩
      · left
        show cell _ c = cell _ c
        cases c with
        | option id key => rfl
        | triggers id =>
          rw [cell_withTask_triggers, if_neg fun heq => hc (congrArg Cell.triggers heq)]
    exact ⟨⟨hstep, fun _ => hposted⟩, fun _ => hstep⟩
  · next hkept =>
    apply Prog.wp_pure
    refine ⟨.refl, fun hne => ?_⟩
    rcases hheld _ (changed_task htells ht hne) with hoff | hback
    · have hnil : cell s (.triggers t.1) = some (.arr []) := Eq.trans hoff hafter
      obtain ⟨task, htask, htriggers⟩ := task_of_cell hnil
      exact absurd ⟨by simp [htask, htriggers], hne⟩ hkept
    · exact hnear.back hback

theorem wp_restoreFolder {s₂ s' : Browser} (hl : l ∈ snapshot.libraries)
    (hheld : Held (mediaBrowserAdapter text) s₀ s₁ s) (hcurrent : Current snapshot s)
    (hnear₂ : Nearer (mediaBrowserAdapter text) s₀ s₁ s s₂) (hnear : Nearer (mediaBrowserAdapter text) s₀ s₁ s₂ s') :
    Prog.wp Fate.NoDeath (restoreFolder s₂.folders l)
      (fun _ s'' => Nearer (mediaBrowserAdapter text) s₀ s₁ s' s'' ∧
        (l.1 ≠ "" → cell s'' (.option l.1 realtimeMonitor) = cell s₀ (.option l.1 realtimeMonitor)))
      (fun _ s'' => Nearer (mediaBrowserAdapter text) s₀ s₁ s' s'') (fun _ => False) s' := by
  obtain ⟨hoptions, hmonitor, hafter⟩ := htells.folder l hl
  have hbefore := folder_before htells hl
  have hread : cell s₂ (.option l.1 realtimeMonitor) = ((s₂.folders.get? l.1).getD []).get? realtimeMonitor := by
    cases hget : s₂.folders.get? l.1 <;> simp [cell, hget]
  unfold restoreFolder
  dsimp only
  split
  · next hoff =>
    have hoff₂ := hread.trans (isTrue_of_any hoff)
    have hfull : l.2 ≠ [] := by
      rintro hnil
      rw [hnil] at hmonitor
      cases hmonitor
    unfold updateLibraryOptions
    rw [if_pos hfull]
    split
    · next hid =>
      have hoff₁ : cell s (.option l.1 realtimeMonitor) = some (.bool false) := by
        rcases hnear₂ (.option l.1 realtimeMonitor) with heq | ⟨-, heq⟩
        · exact Eq.trans heq.symm hoff₂
        · have heq' : cell s₂ (.option l.1 realtimeMonitor) = cell s₀ (.option l.1 realtimeMonitor) := heq
          rw [hoff₂, hbefore] at heq'
          simp at heq'
      have hposted : cell (s'.withFolder l.1 l.2) (.option l.1 realtimeMonitor) =
          cell s₀ (.option l.1 realtimeMonitor) := by simp [hbefore, hmonitor]
      have hstep : Nearer (mediaBrowserAdapter text) s₀ s₁ s' (s'.withFolder l.1 l.2) := by
        intro c
        by_cases hc : c = .option l.1 realtimeMonitor
        · subst hc
          exact .inr ⟨changed_folder htells hl hid, hposted⟩
        · left
          show cell _ c = cell _ c
          cases c with
          | triggers id => rfl
          | option id key =>
            rw [cell_withFolder_option]
            split
            · next heq =>
              subst heq
              have hkey : key ≠ realtimeMonitor := by
                rintro rfl
                exact hc rfl
              have hsame : ¬Changed (mediaBrowserAdapter text) s₀ s₁ (.option l.1 key) := by
                intro hchanged
                rcases changed_cases htells hchanged with ⟨_, -, -, heq⟩ | ⟨_, -, -, heq⟩
                · cases heq
                · exact hkey (Cell.option.inj heq).2
              rw [← hcurrent l hl hid hoff₁ key hkey]
              exact ((hnear₂.trans hnear).same hsame).symm
            · rfl
      exact wp_postOptions ⟨⟨hstep, fun _ => hposted⟩, fun _ => hstep⟩ fun _ => .refl
    · next hid => exact Prog.wp_pure ⟨.refl, fun h => absurd h hid⟩
  · next hon =>
    apply Prog.wp_pure
    refine ⟨.refl, fun hid => ?_⟩
    rcases hnear₂.held hheld _ (changed_folder htells hl hid) with hoff | hback
    · have hoff₂ : cell s₂ (.option l.1 realtimeMonitor) = some (.bool false) := Eq.trans hoff (hafter hid)
      rw [hread] at hoff₂
      simp [hoff₂] at hon
    · exact hnear.back hback

theorem restores (hheld : Held (mediaBrowserAdapter text) s₀ s₁ s) (hcurrent : Current snapshot s) :
    Restores (mediaBrowserAdapter text) s₀ s₁ snapshot s := by
  apply Prog.wp_bind
  apply wp_ask _ fun _ => .refl
  apply Prog.wp_bind
  have htasks := wp_forEach_nearer
    (fun (t : String × List Json) s' => t.2 ≠ [] → cell s' (.triggers t.1) = cell s₀ (.triggers t.1))
    (fun t _ _ hstep hdone hne => hstep.back (c := .triggers t.1) (hdone hne)) snapshot.tasks
    fun t ht _ hnear => wp_restoreTask htells ht hheld hnear
  apply Prog.wp_mono htasks _ (fun _ _ h => h) fun _ h => h
  rintro _ s₂ ⟨hnear₂, htasks⟩
  apply Prog.wp_bind
  apply wp_virtualFolders _ fun _ => hnear₂
  have hfolders := wp_forEach_nearer
    (fun (l : String × Dict String Json) s' => l.1 ≠ "" → cell s' (.option l.1 realtimeMonitor) = cell s₀ (.option l.1 realtimeMonitor))
    (fun l _ _ hstep hdone hne => hstep.back (c := .option l.1 realtimeMonitor) (hdone hne)) snapshot.libraries
    fun l hl _ hnear => wp_restoreFolder htells hl hheld hcurrent hnear₂ hnear
  apply Prog.wp_mono hfolders _ (fun _ _ h => hnear₂.trans h) fun _ h => h
  rintro _ s₃ ⟨hnear₃, hfolders⟩
  refine ⟨hnear₂.trans hnear₃, fun c hc => ?_⟩
  rcases changed_cases htells hc with ⟨t, ht, hne, rfl⟩ | ⟨l, hl, hne, rfl⟩
  · exact hnear₃.back (c := .triggers t.1) (htasks t ht hne)
  · exact hfolders l hl hne

end

end Dumb.Media.Browser
