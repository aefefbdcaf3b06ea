import Dumb.Media.Lemmas.Browser
import Dumb.Media.Lemmas.Overlap

/-!
# What media protection guarantees
-/

namespace Dumb.Media

open Py Crash

variable {σ π κ : Type}

/-! ## Scan guards -/

/-- The snapshot that `begin_planned` and `begin_unplanned` keep, if the guard returned one. -/
def Adapter.guard (a : Adapter σ π κ) (fates : List (Fate String Bool)) (s : σ) : Option π × σ :=
  match a.enterScanGuard s fates with
  | .done snapshot s' _ => (some snapshot, s')
  | .raised _ s' _ => (none, s')
  | .died s' => (none, s')

/-- Where a guard that raised has changed nothing, and the snapshot is current at each recovery, every recovery owes
what it should. -/
def Undoes (a : Adapter σ π κ) (current : π → σ → Prop) : Prop :=
  ∀ (s₀ : σ) (fates : List (Fate String Bool)), (∀ f ∈ fates, f.NoDeath) →
    ((a.guard fates s₀).1 = none → ∀ c, ¬Changed a s₀ (a.guard fates s₀).2 c) →
      ∀ events : List (Event σ),
        Along (a.after (a.guard fates s₀).1) (Permitted a s₀ (a.guard fates s₀).2) (a.guard fates s₀).2 events →
        Along (a.after (a.guard fates s₀).1) (CurrentAt current (a.guard fates s₀).1) (a.guard fates s₀).2 events →
          Along (a.after (a.guard fates s₀).1) (Undone a s₀ (a.guard fates s₀).2 (a.guard fates s₀).1)
            (a.guard fates s₀).2 events

theorem undoes_of_tells {a : Adapter σ π κ} {current : π → σ → Prop} {tells : σ → σ → π → Prop}
    (henter : ∀ s₀, Prog.wp Fate.NoDeath a.enterScanGuard (fun snapshot s₁ => tells s₀ s₁ snapshot) (fun _ _ => True)
      (fun _ => False) s₀)
    (hrestores : ∀ s₀ s₁ s snapshot, tells s₀ s₁ snapshot → Held a s₀ s₁ s → current snapshot s →
      Restores a s₀ s₁ snapshot s) : Undoes a current := by
  intro s₀ fates hfates hnothing events hpermitted hcurrent
  apply run_undone _ hpermitted hcurrent
  constructor
  · exact hnothing
  · intro snapshot hsnapshot s hheld hcurrent
    have htells := henter s₀ fates hfates
    apply hrestores _ _ _ _ _ hheld hcurrent
    unfold Adapter.guard at hsnapshot ⊢
    cases hrun : a.enterScanGuard s₀ fates with
    | done snapshot' s₁ fates' =>
      rw [hrun] at htells hsnapshot
      exact Option.some.inj hsnapshot ▸ htells.1
    | raised e s₁ fates' =>
      rw [hrun] at hsnapshot
      cases hsnapshot
    | died s₁ =>
      rw [hrun] at hsnapshot
      cases hsnapshot

/-- For Plex any snapshot will do. -/
theorem guards_undone (text : Text) :
    Undoes (mediaBrowserAdapter text) Browser.Current ∧ Undoes plexAdapter fun _ _ => True := by
  constructor
  · exact undoes_of_tells Browser.enter_tells fun _ _ _ _ => Browser.restores
  · exact undoes_of_tells Plex.enter_tells fun _ _ _ _ htells hheld _ => Plex.restores htells hheld

def busyServer (x : Int) : Browser where
  tasks := [("t", ⟨"RefreshLibrary", "", "", "", "Idle", [.str "daily"]⟩), ("u", ⟨"RefreshLibrary", "", "", "", "Idle", [.str "daily"]⟩)]
  folders := [("l", [("EnableRealtimeMonitor", .bool true), ("x", .int x)])]
  tasks_distinct := show ["t", "u"].Nodup by decide
  folders_distinct := show ["l"].Nodup by decide

def secondFails : List (Fate String Bool) := [.ok, .ok, .raise "timeout" false]

def guardedServer (x : Int) : Browser where
  tasks := [("t", ⟨"RefreshLibrary", "", "", "", "Idle", []⟩), ("u", ⟨"RefreshLibrary", "", "", "", "Idle", []⟩)]
  folders := [("l", [("EnableRealtimeMonitor", .bool false), ("x", .int x)])]
  tasks_distinct := show ["t", "u"].Nodup by decide
  folders_distinct := show ["l"].Nodup by decide

def busySnapshot : Browser.Snapshot :=
  ⟨[("t", [.str "daily"]), ("u", [.str "daily"])], [("l", [("EnableRealtimeMonitor", .bool true), ("x", .int 1)])]⟩

theorem guard_fails : ∃ s₁, (mediaBrowserAdapter .ascii).guard secondFails (busyServer 1) = (none, s₁) ∧
    Browser.cell s₁ (.triggers "t") = some (.arr []) := ⟨_, rfl, rfl⟩

theorem restore_busy : (mediaBrowserAdapter .ascii).after (some busySnapshot) (guardedServer 2) (.attempt []) = busyServer 1 :=
  rfl

theorem edit_permitted :
    Permitted (mediaBrowserAdapter .ascii) (busyServer 1) (guardedServer 1) (guardedServer 1) (.edit (guardedServer 2)) := by
  intro c hc
  cases c with
  | triggers id => rfl
  | option id key =>
    have hcell : ∀ x, (mediaBrowserAdapter .ascii).cell (guardedServer x) (.option id key) =
        if id = "l" then if key = "EnableRealtimeMonitor" then some (.bool false) else if key = "x" then some (.int x) else none
        else none := by
      intro x
      by_cases hid : id = "l" <;> simp [mediaBrowserAdapter, Browser.cell, guardedServer, Dict.get?, hid, eq_comm]
    have hbusy : (mediaBrowserAdapter .ascii).cell (busyServer 1) (.option id key) =
        if id = "l" then if key = "EnableRealtimeMonitor" then some (.bool true) else if key = "x" then some (.int 1) else none
        else none := by
      by_cases hid : id = "l" <;> simp [mediaBrowserAdapter, Browser.cell, busyServer, Dict.get?, hid, eq_comm]
    rw [Changed, hcell, hbusy] at hc
    rw [hcell, hcell]
    by_cases hx : key = "x"
    · simp [hx] at hc
    · simp [hx]

/-- A guard that fails on its way is never undone, and a restore takes other options back with it. -/
theorem guard_not_undone :
    (∃ s₁, (mediaBrowserAdapter .ascii).guard secondFails (busyServer 1) = (none, s₁) ∧
      Succeeds (mediaBrowserAdapter .ascii) none s₁ [] ∧
        ¬Undone (mediaBrowserAdapter .ascii) (busyServer 1) s₁ none s₁ (.attempt [])) ∧
      Permitted (mediaBrowserAdapter .ascii) (busyServer 1) (guardedServer 1) (guardedServer 1) (.edit (guardedServer 2)) ∧
      ¬Undone (mediaBrowserAdapter .ascii) (busyServer 1) (guardedServer 1) (some busySnapshot) (guardedServer 2)
        (.attempt []) := by
  obtain ⟨s₁, hguard, hcleared⟩ := guard_fails
  have hbefore : Browser.cell (busyServer 1) (.triggers "t") = some (.arr [.str "daily"]) := rfl
  refine ⟨⟨s₁, hguard, ⟨s₁, [], rfl⟩, fun h => ?_⟩, edit_permitted, fun h => ?_⟩
  · have hne : Browser.cell s₁ (.triggers "t") ≠ Browser.cell (busyServer 1) (.triggers "t") := by
      simp [hcleared, hbefore]
    exact hne (h.2 ⟨s₁, [], rfl⟩ (.triggers "t") hne)
  · have hsame := h.1 (.option "l" "x") fun hc => hc rfl
    rw [restore_busy] at hsame
    have hbroken : some (Json.int 1) = some (Json.int 2) := hsame
    simp at hbroken

/-! ## Incidents -/

/-- While incidents start apart from the open ones, a recovery releases nothing that another incident holds. -/
theorem protection_holds (adapter : String → Adapter σ π κ) (c : Setup) (running : List String) (remote : String → σ)
    (steps : List Step) (hproper : Along (World.step adapter c) Proper ⟨[], running, remote⟩ steps)
    (halone : Along (World.step adapter c) (StartsAlone c) ⟨[], running, remote⟩ steps) :
    Along (World.step adapter c) (Protected adapter c) ⟨[], running, remote⟩ steps := by
  have hnone : Apart c ([] : Dict String (Incident π)) :=
    ⟨fun t i _ _ ht => by simp at ht, fun t i ht => by simp at ht⟩
  have hapart := (hproper.and halone).always (I := fun w => Apart c w.incidents)
    (fun w s hs hw => hw.step hs.1 hs.2) hnone
  exact hapart.imp fun w s _ hs => hs.2.protected s

def twoTargets (mounts : List String) : Setup where
  enabled := true
  media := [⟨"plex", "Plex", ["/mnt/debrid"], true, true⟩, ⟨"plex", "Plex Local", ["/mnt/local"], true, true⟩]
  storage := [⟨"rclone", ["/mnt/debrid"]⟩, ⟨"Decypharr", mounts⟩]

def plexSettings : Plex :=
  [("autoEmptyTrash", .bool true), ("fSEventLibraryUpdatesEnabled", .bool false), ("scheduledLibraryUpdatesEnabled", .bool false)]

def allRun : World Plex Plex.Snapshot := ⟨[], ["Plex", "Plex Local"], fun _ => plexSettings⟩

def allIdle : Outside := ⟨fun _ => .idle, fun _ => [], fun _ => true⟩

def bothRestart : List Step :=
  [.beginPlanned allIdle "a" "rclone" "restart" .keepRunning, .beginPlanned allIdle "b" "Decypharr" "restart" .keepRunning,
    .completePlanned "a", .recover allIdle "a"]

theorem bothRestart_proper (mounts : List String) (hmounts : mounts = ["/mnt/debrid"] ∨ mounts = ["/mnt/local"]) :
    Along (World.step (fun _ => plexAdapter) (twoTargets mounts)) Proper allRun bothRestart := by
  rcases hmounts with rfl | rfl
  all_goals
    refine ⟨rfl, rfl, fun i hi => ?_, trivial, trivial⟩
    cases hi
    rfl

theorem bothRestart_apart :
    Along (World.step (fun _ => plexAdapter) (twoTargets ["/mnt/local"])) (StartsAlone (twoTargets ["/mnt/local"])) allRun
      bothRestart := by
  refine ⟨fun _ t i hi => ?_, fun _ t i hi _ => ?_, trivial, trivial, trivial⟩
  · simp [allRun] at hi
  · obtain heq | hmem := Dict.mem_set (Dict.mem_of_get? hi)
    · cases heq
      exact ⟨by unfold ApartFrom; decide, by decide⟩
    · exact absurd hmem List.not_mem_nil

theorem protection_holds_apart :
    Along (World.step (fun _ => plexAdapter) (twoTargets ["/mnt/local"])) (Protected (fun _ => plexAdapter) (twoTargets ["/mnt/local"]))
      allRun bothRestart :=
  protection_holds _ _ _ _ _ (bothRestart_proper _ (.inr rfl)) bothRestart_apart

/-- The settings are on again while the second target is not yet back. -/
theorem overlap_releases :
    Along (World.step (fun _ => plexAdapter) (twoTargets ["/mnt/debrid"])) Proper allRun bothRestart ∧
      ¬Along (World.step (fun _ => plexAdapter) (twoTargets ["/mnt/debrid"]))
          (Protected (fun _ => plexAdapter) (twoTargets ["/mnt/debrid"])) allRun bothRestart := by
  constructor
  · exact bothRestart_proper _ (.inl rfl)
  · rintro ⟨-, -, -, hrecover, -⟩
    have hmeets : ¬Disjoint ["/mnt/debrid"] ["/mnt/debrid"] := by decide
    apply hmeets
    apply hrecover "Plex" _ "b" _ rfl (by decide) (fun h => nomatch h)
    right
    intro h
    have hon := congrArg (fun s : Plex => (s.get? "autoEmptyTrash").any (isBool true)) h
    revert hon
    decide

end Dumb.Media
