import Mathlib.Algebra.GroupWithZero.Nat
import Dumb.Status.Tracking

/-!
# The file holds the latest list, and the cache the file
-/

namespace Dumb.Status

open Py

variable {size : Dict String Nat → Nat} {w : World}

/-- The next access of a call is in order: the tables do not change under its list, its list is written after the earlier ones
and over no longer text, and the file is not rewritten under a reader. -/
def Orderly (size : Dict String Nat → Nat) (w : World) (c : World.Chance) (t : Task) : Prop :=
  match t.changes, t.update with
  | [], some (.listing tables) => tables = w.tables ∨ c.listed = none
  | [], some (.listed _ _) => ∀ r ∈ w.readers, r.place.reading = false
  | [], some (.truncated running serial) =>
    (∀ r ∈ w.readers, r.place.reading = false) ∧ w.written ≤ serial ∧ w.file.length ≤ size running
  | _, _ => True

/-- Where a run stays clear of what can go wrong: the calls rewrite the file in order, no file is read while it is rewritten,
and no status is asked for before what `reap_zombies` took out is listed, or of what a former run has left. -/
def Guarded (size : Dict String Nat → Nat) (w : World) : Step → Prop
  | .advance n c => ∀ t ∈ w.tasks[n]?, Orderly size w c t
  | .read n => ∀ r ∈ w.readers[n]?, r.place = .missed → ∀ t ∈ w.tasks, t.isTruncated = false
  | .getStatus _ => w.quiet = true → w.unlisted = false ∧ (w.written = 0 → w.file.load size = [])
  | _ => True

instance decidableOrderly (size : Dict String Nat → Nat) (w : World) (c : World.Chance) (t : Task) :
    Decidable (Orderly size w c t) := by
  unfold Orderly
  split <;> infer_instance

instance decidableGuarded (size : Dict String Nat → Nat) (w : World) (s : Step) : Decidable (Guarded size w s) := by
  unfold Guarded
  split <;> infer_instance

/-! ## The invariant -/

namespace Task

def held (t : Task) : Option (Dict String Nat × Nat) :=
  match t.update with
  | some (.listed running serial) | some (.truncated running serial) => some (running, serial)
  | _ => none

def reaping : Change → Bool
  | .reap _ | .checkName _ | .deleteName _ => true
  | _ => false

structure Formed (t : Task) : Prop where
  changes : t.changes ≠ [] → t.update = some .before ∨ t.update = none ∧ ∀ c ∈ t.changes, reaping c = true
  begun : t.begun = false → t.update = some .before ∨ t.update = none

theorem Formed.writing {t : Task} (h : t.Formed) (hheld : t.held ≠ none ∨ t.isTruncated = true) : t.writing = true := by
  rcases hb : t.begun with _ | _
  · rcases h.begun hb with hu | hu <;> simp [held, isTruncated, hu] at hheld
  · cases hu : t.update with
    | none => simp [held, isTruncated, hu] at hheld
    | some u => simp [Task.writing, hb, hu]

end Task

structure Current (size : Dict String Nat → Nat) (w : World) : Prop where
  cache : w.statusCache = w.file.load size
  list : w.cached = w.written
  whole : ∀ t ∈ w.tasks, t.isTruncated = false

def Placed (size : Dict String Nat → Nat) (w : World) : Place → Prop
  | .loaded running => running = w.file.load size ∧ ∀ t ∈ w.tasks, t.isTruncated = false
  | .kept running => running = w.file.load size ∧ Current size w
  | .stamped _ mtime => mtime ≤ w.file.mtime ∧ (mtime = w.file.mtime → Current size w)
  | _ => True

def Watch.Saw (s : Watch) (running : Dict String Nat) : Prop := ∃ t ∈ s.seen, t.runningProcesses = running

def Heading (w : World) (s : Watch) : Place → Prop
  | .looked mtime => s.born ≤ mtime
  | .hit => s.since ≤ w.cached
  | .loaded running | .kept running | .stamped running _ | .answered running => s.Saw running
  | _ => True

structure Watched (w : World) (s : Watch) (place : Place) : Prop where
  since : s.since ≤ w.written
  now : s.Saw w.tables.runningProcesses
  lists : ∀ j running, s.since ≤ j → w.lists[j]? = some running → s.Saw running
  born : s.born ≤ w.file.mtime
  fresh : s.born ≤ w.statusMtime → s.since ≤ w.cached
  heading : Heading w s place

structure Inv (size : Dict String Nat → Nat) (w : World) : Prop where
  clock : w.file.mtime < w.clock
  mtime : w.statusMtime ≤ w.file.mtime
  formed : ∀ t ∈ w.tasks, t.Formed
  tables : (∃ t ∈ w.tasks, t.pending = true) ∨ w.unlisted = true ∨
    w.lists.getLast? = some w.tables.runningProcesses ∨ w.lists.length = 1 ∧ w.tables.runningProcesses = []
  held : ∀ t ∈ w.tasks, ∀ running serial, t.held = some (running, serial) → w.lists[serial]? = some running
  latest : w.written + 1 = w.lists.length ∨
    ∃ t ∈ w.tasks, ∃ running serial, t.held = some (running, serial) ∧ serial + 1 = w.lists.length
  file : (∃ t ∈ w.tasks, t.isTruncated = true) ∨ w.lists[w.written]? = some (w.file.load size)
  cached : w.cached ≤ w.written ∧ w.lists[w.cached]? = some w.statusCache
  current : w.statusMtime = w.file.mtime → Current size w
  places : ∀ r ∈ w.readers, Placed size w r.place
  watches : ∀ r ∈ w.readers, ∀ s ∈ r.watch, Watched w s r.place
  stamps : ∀ r ∈ w.readers, ∀ running mtime, r.place = .stamped running mtime →
    ∀ r' ∈ w.readers, ∀ s ∈ r'.watch, s.born ≤ mtime → s.since ≤ w.cached

variable {n : Nat}

theorem mem_or_eq_of_mem {α : Type} {l : List α} {x y z : α} (hx : l[n]? = some x) (hz : z ∈ l) :
    z ∈ l.set n y ∨ z = x := by
  obtain ⟨m, hm⟩ := List.mem_iff_getElem?.1 hz
  by_cases hnm : n = m
  · subst hnm
    rw [hx, Option.some.injEq] at hm
    exact .inr hm.symm
  · apply Or.inl
    apply List.mem_iff_getElem?.2
    exact ⟨m, by rw [List.getElem?_set_ne hnm, hm]⟩

theorem mem_set_self {α : Type} {l : List α} {x y : α} (hx : l[n]? = some x) : y ∈ l.set n y := by
  obtain ⟨hlt, -⟩ := List.getElem?_eq_some_iff.1 hx
  exact List.mem_set hlt _

variable {t : Task}

theorem Task.held_of_truncated (h : t.isTruncated = true) : t.held ≠ none := by
  cases hu : t.update with
  | none => simp [isTruncated, hu] at h
  | some u => cases u <;> simp [isTruncated, held, hu] at h ⊢

/-! ## Steps that change only the calls -/

theorem whole_tasks {l l' : List Task} (h : ∀ t ∈ l, t.isTruncated = false) (hheld : ∀ t ∈ l', t.held ≠ none → t ∈ l) :
    ∀ t ∈ l', t.isTruncated = false := by
  intro t ht
  cases htrunc : t.isTruncated with
  | false => rfl
  | true => exact absurd (h t (hheld t ht (Task.held_of_truncated htrunc))) (by simp [htrunc])

theorem Current.tasks (h : Current size w) {tasks : List Task} {unlisted : Bool}
    (hheld : ∀ t ∈ tasks, t.held ≠ none → t ∈ w.tasks) :
    Current size { w with tasks := tasks, unlisted := unlisted } where
  cache := h.cache
  list := h.list
  whole := whole_tasks h.whole hheld

theorem Inv.tasks (h : Inv size w) {tasks : List Task} (unlisted : Bool) (hformed : ∀ t ∈ tasks, t.Formed)
    (hpending : (∃ t ∈ w.tasks, t.pending = true) → (∃ t ∈ tasks, t.pending = true) ∨ unlisted = true)
    (hunlisted : w.unlisted = true → unlisted = true) (hheld : ∀ t ∈ tasks, t.held ≠ none → t ∈ w.tasks)
    (hstays : ∀ t ∈ w.tasks, t.held ≠ none → t ∈ tasks) : Inv size { w with tasks := tasks, unlisted := unlisted } where
  clock := h.clock
  mtime := h.mtime
  formed := hformed
  tables := by
    rcases h.tables with hp | hu | hrest
    · exact (hpending hp).imp_right .inl
    · exact .inr (.inl (hunlisted hu))
    · exact .inr (.inr hrest)
  held t ht running serial hrunning := h.held t (hheld t ht (by simp [hrunning])) running serial hrunning
  latest := by
    refine h.latest.imp_right ?_
    rintro ⟨t, ht, running, serial, hrunning, hserial⟩
    exact ⟨t, hstays t ht (by simp [hrunning]), running, serial, hrunning, hserial⟩
  file := by
    refine h.file.imp_left ?_
    rintro ⟨t, ht, htrunc⟩
    exact ⟨t, hstays t ht (Task.held_of_truncated htrunc), htrunc⟩
  cached := h.cached
  current hm := (h.current hm).tasks hheld
  places r hr := by
    have hplaced := h.places r hr
    cases hplace : r.place with
    | loaded running =>
      rw [hplace] at hplaced
      exact ⟨hplaced.1, whole_tasks hplaced.2 hheld⟩
    | kept running =>
      rw [hplace] at hplaced
      exact ⟨hplaced.1, hplaced.2.tasks hheld⟩
    | stamped running mtime =>
      rw [hplace] at hplaced
      exact ⟨hplaced.1, fun hm => (hplaced.2 hm).tasks hheld⟩
    | _ => trivial
  watches r hr s hs :=
    have hwatched := h.watches r hr s hs
    ⟨hwatched.since, hwatched.now, hwatched.lists, hwatched.born, hwatched.fresh, by
      have hheading := hwatched.heading
      cases hplace : r.place <;> rw [hplace] at hheading <;> exact hheading⟩
  stamps := h.stamps

theorem Inv.retask (h : Inv size w) {t t' : Task} (unlisted : Bool) (ht : w.tasks[n]? = some t) (hformed : t'.Formed)
    (hpending : t.pending = true → t'.pending = true ∨ unlisted = true) (hunlisted : w.unlisted = true → unlisted = true)
    (hheld : t.held = none) (hheld' : t'.held = none) :
    Inv size { w with tasks := w.tasks.set n t', unlisted := unlisted } := by
  apply h.tasks unlisted
  · intro u hu
    rcases List.mem_or_eq_of_mem_set hu with hu | rfl
    · exact h.formed u hu
    · exact hformed
  · rintro ⟨u, hu, hup⟩
    rcases mem_or_eq_of_mem (y := t') ht hu with hu | rfl
    · exact .inl ⟨u, hu, hup⟩
    · exact (hpending hup).imp_left fun hp => ⟨t', mem_set_self ht, hp⟩
  · exact hunlisted
  · intro u hu hne
    rcases List.mem_or_eq_of_mem_set hu with hu | rfl
    · exact hu
    · exact absurd hheld' hne
  · intro u hu hne
    rcases mem_or_eq_of_mem (y := t') ht hu with hu | rfl
    · exact hu
    · exact absurd hheld hne

theorem Inv.call (h : Inv size w) (hformed : t.Formed) (hheld : t.held = none) :
    Inv size { w with tasks := w.tasks ++ [t] } := by
  apply h.tasks w.unlisted
  · intro u hu
    rcases List.mem_append.1 hu with hu | hu
    · exact h.formed u hu
    · rw [List.mem_singleton.1 hu]
      exact hformed
  · rintro ⟨u, hu, hup⟩
    exact .inl ⟨u, List.mem_append_left _ hu, hup⟩
  · exact id
  · intro u hu hne
    rcases List.mem_append.1 hu with hu | hu
    · exact hu
    · rw [List.mem_singleton.1 hu] at hne
      exact absurd hheld hne
  · intro u hu _
    exact List.mem_append_left _ hu

/-! ## A change of the tables -/

variable {running : Dict String Nat}

theorem Watch.Saw.see {s : Watch} (h : s.Saw running) (tables : Tables) :
    Watch.Saw { s with seen := tables :: s.seen } running := by
  obtain ⟨t, ht, rfl⟩ := h
  exact ⟨t, List.mem_cons_of_mem _ ht, rfl⟩

theorem Placed.change {place : Place} (h : Placed size w place) (tables : Tables) : Placed size (w.change tables) place := by
  cases place with
  | kept running => exact ⟨h.1, h.2.cache, h.2.list, h.2.whole⟩
  | stamped running mtime => exact ⟨h.1, fun hm => ⟨(h.2 hm).cache, (h.2 hm).list, (h.2 hm).whole⟩⟩
  | _ => exact h

theorem Watched.change {s : Watch} {place : Place} (h : Watched w s place) (tables : Tables) :
    Watched (w.change tables) { s with seen := tables :: s.seen } place where
  since := h.since
  now := ⟨tables, List.mem_cons_self, rfl⟩
  lists j running hj hrunning := (h.lists j running hj hrunning).see tables
  born := h.born
  fresh := h.fresh
  heading := by
    have hheading := h.heading
    cases place with
    | asked => trivial
    | missed => trivial
    | looked mtime => exact hheading
    | hit => exact hheading
    | loaded running => exact Watch.Saw.see hheading tables
    | kept running => exact Watch.Saw.see hheading tables
    | stamped running mtime => exact Watch.Saw.see hheading tables
    | answered running => exact Watch.Saw.see hheading tables

theorem Inv.change (h : Inv size w) {tables : Tables} (hlisted : (∃ t ∈ w.tasks, t.pending = true) ∨ w.unlisted = true ∨
    tables.runningProcesses = w.tables.runningProcesses) : Inv size (w.change tables) where
  clock := h.clock
  mtime := h.mtime
  formed := h.formed
  tables := by
    rcases hlisted with hp | hu | hsame
    · exact .inl hp
    · exact .inr (.inl hu)
    · change _ ∨ _ ∨ w.lists.getLast? = some tables.runningProcesses ∨ w.lists.length = 1 ∧ tables.runningProcesses = []
      rw [hsame]
      exact h.tables
  held := h.held
  latest := h.latest
  file := h.file
  cached := h.cached
  current hm := ⟨(h.current hm).cache, (h.current hm).list, (h.current hm).whole⟩
  places r hr := by
    obtain ⟨r₀, hr₀, rfl⟩ := List.mem_map.1 hr
    exact Placed.change (h.places r₀ hr₀) tables
  watches r hr s hs := by
    obtain ⟨r₀, hr₀, rfl⟩ := List.mem_map.1 hr
    obtain ⟨s₀, hs₀, rfl⟩ := Option.map_eq_some_iff.1 hs
    exact (h.watches r₀ hr₀ s₀ hs₀).change tables
  stamps r hr running mtime hplace r' hr' s hs := by
    obtain ⟨r₀, hr₀, rfl⟩ := List.mem_map.1 hr
    obtain ⟨r₁, hr₁, rfl⟩ := List.mem_map.1 hr'
    obtain ⟨s₀, hs₀, rfl⟩ := Option.map_eq_some_iff.1 hs
    exact h.stamps r₀ hr₀ running mtime hplace r₁ hr₁ s₀ hs₀

theorem Inv.perform (h : Inv size w) {n : Nat} {t : Task} {c : Change} {changes : List Change} (ht : w.tasks[n]? = some t)
    (hchanges : t.changes = c :: changes) :
    Inv size { (w.perform c { t with changes := changes, begun := true }).1 with
      tasks := w.tasks.set n (w.perform c { t with changes := changes, begun := true }).2 } := by
  have hformed := h.formed t (List.mem_of_getElem? ht)
  have hupdate := hformed.changes (by simp [hchanges])
  have hheld : t.held = none := by
    rcases hupdate with hu | ⟨hu, -⟩ <;> simp [Task.held, hu]
  have hpendings : t.pending = true → t.update = some .before := by
    intro hp
    rcases hupdate with hu | ⟨hu, -⟩
    · exact hu
    · simp [Task.pending, hu] at hp
  have hgo : ∀ {rest : List Change} (unlisted : Bool), (t.update = none → ∀ c ∈ rest, Task.reaping c = true) →
      (w.unlisted = true → unlisted = true) →
      Inv size { w with tasks := w.tasks.set n { t with changes := rest, begun := true }, unlisted := unlisted } := by
    intro rest unlisted hrest hunlisted
    have hformed' : Task.Formed { t with changes := rest, begun := true } :=
      ⟨fun _ => hupdate.imp_right fun hu => ⟨hu.1, hrest hu.1⟩, nofun⟩
    apply h.retask unlisted ht hformed' _ hunlisted hheld hheld
    intro hp
    simp [Task.pending, hpendings hp]
  have hwriter : ∀ rest : List Change, t.update = some .before →
      ∃ u ∈ w.tasks.set n { t with changes := rest, begun := true }, u.pending = true :=
    fun rest hu => ⟨_, mem_set_self ht, by simp [Task.pending, hu]⟩
  have hrest : t.update = none → ∀ c' ∈ changes, Task.reaping c' = true := by
    intro hu c' hc'
    rcases hupdate with hu' | ⟨-, hall⟩
    · rw [hu] at hu'
      cases hu'
    · exact hall c' (by simp [hchanges, hc'])
  have hmore : ∀ c', Task.reaping c' = true → t.update = none → ∀ c'' ∈ c' :: changes, Task.reaping c'' = true := by
    intro c' hc' hu c'' hc''
    rcases List.mem_cons.1 hc'' with rfl | hc''
    · exact hc'
    · exact hrest hu c'' hc''
  have hfirst : Task.reaping c = false → t.update = some .before := by
    intro hc
    rcases hupdate with hu | ⟨-, hall⟩
    · exact hu
    · rw [hall c (by simp [hchanges])] at hc
      cases hc
  have hdead : Inv size { w with
      tasks := w.tasks.set n (Task.dead { t with changes := changes, begun := true })
      unlisted := w.unlisted || t.update.isSome } := by
    have hformed' : Task.Formed (Task.dead { t with changes := changes, begun := true }) := ⟨fun hne => absurd rfl hne, nofun⟩
    apply h.retask (w.unlisted || t.update.isSome) ht hformed' _ (by simp +contextual) hheld rfl
    intro hp
    simp [hpendings hp]
  have hchange : ∀ tables : Tables, (Task.reaping c = true → tables.runningProcesses = w.tables.runningProcesses) →
      Inv size ({ w with tasks := w.tasks.set n { t with changes := changes, begun := true } }.change tables) := by
    intro tables hsame
    apply (hgo w.unlisted hrest id).change
    cases hc : Task.reaping c with
    | false => exact .inl (hwriter changes (hfirst hc))
    | true => exact .inr (.inr (hsame hc))
  cases c with
  | track pid info => exact hchange _ nofun
  | trackName internalName pid => exact hchange _ nofun
  | register name pid => exact hchange _ nofun
  | popPid pid => exact hchange _ nofun
  | popName internalName => exact hchange _ nofun
  | checkPid pid =>
    dsimp only [World.perform]
    split
    · have hu := hfirst rfl
      exact hgo w.unlisted (fun hn => by rw [hu] at hn; cases hn) id
    · exact hgo w.unlisted hrest id
  | checkName internalName =>
    dsimp only [World.perform]
    split
    · exact hgo w.unlisted (hmore _ rfl) id
    · exact hgo w.unlisted hrest id
  | deletePid pid =>
    dsimp only [World.perform]
    split
    · exact hchange _ nofun
    · exact hdead
  | deleteName internalName =>
    dsimp only [World.perform]
    split
    · exact hchange _ fun _ => rfl
    · exact hdead
  | deleteExternal name =>
    dsimp only [World.perform]
    split
    · exact hchange _ nofun
    · exact hdead
  | reap pid =>
    dsimp only [World.perform]
    split
    · exact hgo w.unlisted hrest id
    · exact (hgo true (hmore _ rfl) fun _ => rfl).change (.inr (.inl rfl))

/-! ## The rewriting of the file -/

theorem Inv.formed_set (h : Inv size w) (hchanges : t.changes = []) {update : Option Update} :
    ∀ u ∈ w.tasks.set n { t with begun := true, update := update }, u.Formed := by
  intro u hu
  rcases List.mem_or_eq_of_mem_set hu with hu | rfl
  · exact h.formed u hu
  · exact ⟨fun hne => absurd hchanges hne, nofun⟩

theorem Inv.tables_set (h : Inv size w) {t t' : Task} (ht : w.tasks[n]? = some t) (hidle : t.pending = false) :
    (∃ u ∈ w.tasks.set n t', u.pending = true) ∨ w.unlisted = true ∨
      w.lists.getLast? = some w.tables.runningProcesses ∨ w.lists.length = 1 ∧ w.tables.runningProcesses = [] := by
  refine h.tables.imp_left ?_
  rintro ⟨u, hu, hp⟩
  rcases mem_or_eq_of_mem ht hu with hu | rfl
  · exact ⟨u, hu, hp⟩
  · rw [hidle] at hp
    cases hp

theorem Placed.later {w' : World} {place : Place} (h : Placed size w place) (hreading : place.reading = false)
    (hlater : w.file.mtime ≤ w'.file.mtime)
    (hstamp : ∀ {mtime}, mtime ≤ w.file.mtime → (mtime = w.file.mtime → Current size w) → mtime ≠ w'.file.mtime) :
    Placed size w' place := by
  cases place with
  | loaded running => simp [Place.reading] at hreading
  | kept running => simp [Place.reading] at hreading
  | stamped running mtime => exact ⟨h.1.trans hlater, fun hm => absurd hm (hstamp h.1 h.2)⟩
  | _ => trivial

theorem Inv.list (h : Inv size w) {n : Nat} {t : Task} (ht : w.tasks[n]? = some t) (hchanges : t.changes = [])
    (hheld : t.held = none) :
    Inv size { w with
      lists := w.lists ++ [w.tables.runningProcesses]
      unlisted := false
      tasks := w.tasks.set n
        { t with begun := true, update := some (.listed w.tables.runningProcesses w.lists.length) } } := by
  have hstays : ∀ u ∈ w.tasks, u.held ≠ none →
      u ∈ w.tasks.set n { t with begun := true, update := some (.listed w.tables.runningProcesses w.lists.length) } := by
    intro u hu hne
    rcases mem_or_eq_of_mem ht hu with hu | rfl
    · exact hu
    · exact absurd hheld hne
  have hwhole : (∀ u ∈ w.tasks, u.isTruncated = false) → ∀ u ∈ w.tasks.set n
      { t with begun := true, update := some (.listed w.tables.runningProcesses w.lists.length) }, u.isTruncated = false := by
    intro hall u hu
    rcases List.mem_or_eq_of_mem_set hu with hu | rfl
    · exact hall u hu
    · rfl
  have hcurrent : Current size w → Current size { w with
      lists := w.lists ++ [w.tables.runningProcesses]
      unlisted := false
      tasks := w.tasks.set n
        { t with begun := true, update := some (.listed w.tables.runningProcesses w.lists.length) } } :=
    fun hc => ⟨hc.cache, hc.list, hwhole hc.whole⟩
  have hkeeps : ∀ {j : Nat} {running : Dict String Nat}, w.lists[j]? = some running →
      (w.lists ++ [w.tables.runningProcesses])[j]? = some running := by
    intro j running hj
    rw [List.getElem?_append_left (List.getElem?_eq_some_iff.1 hj).1]
    exact hj
  exact {
    clock := h.clock
    mtime := h.mtime
    formed := h.formed_set hchanges
    tables := .inr (.inr (.inl (by simp)))
    held := by
      intro u hu running serial hrunning
      rcases List.mem_or_eq_of_mem_set hu with hu | rfl
      · exact hkeeps (h.held u hu running serial hrunning)
      · cases hrunning
        simp
    latest := .inr ⟨_, mem_set_self ht, _, _, rfl, by simp⟩
    file := by
      rcases h.file with ⟨u, hu, htrunc⟩ | hfile
      · exact .inl ⟨u, hstays u hu (Task.held_of_truncated htrunc), htrunc⟩
      · exact .inr (hkeeps hfile)
    cached := ⟨h.cached.1, hkeeps h.cached.2⟩
    current := fun hm => hcurrent (h.current hm)
    places := by
      intro r hr
      have hplaced := h.places r hr
      cases hplace : r.place with
      | loaded running =>
        rw [hplace] at hplaced
        exact ⟨hplaced.1, hwhole hplaced.2⟩
      | kept running =>
        rw [hplace] at hplaced
        exact ⟨hplaced.1, hcurrent hplaced.2⟩
      | stamped running mtime =>
        rw [hplace] at hplaced
        exact ⟨hplaced.1, fun hm => hcurrent (hplaced.2 hm)⟩
      | _ => trivial
    watches := by
      intro r hr s hs
      have hwatched := h.watches r hr s hs
      refine ⟨hwatched.since, hwatched.now, ?_, hwatched.born, hwatched.fresh, ?_⟩
      · intro j running hj hrunning
        rcases Nat.lt_or_ge j w.lists.length with hlt | hge
        · rw [List.getElem?_append_left hlt] at hrunning
          exact hwatched.lists j running hj hrunning
        · rw [List.getElem?_append_right hge, List.getElem?_singleton] at hrunning
          split at hrunning
          · cases hrunning
            exact hwatched.now
          · cases hrunning
      · have hheading := hwatched.heading
        cases hplace : r.place <;> rw [hplace] at hheading <;> exact hheading
    stamps := h.stamps }

theorem Inv.truncate (h : Inv size w) {serial : Nat}
    (ht : w.tasks[n]? = some t) (hchanges : t.changes = []) (hu : t.update = some (.listed running serial))
    (halone : ∀ r ∈ w.readers, r.place.reading = false) :
    Inv size { w with
      file := ⟨none, 0, w.clock⟩
      clock := w.clock + 1
      tasks := w.tasks.set n { t with begun := true, update := some (.truncated running serial) } } := by
  have hstamp : ∀ {mtime}, mtime ≤ w.file.mtime → mtime ≠ w.clock := fun hle heq => by
    have := h.clock
    omega
  exact {
    clock := Nat.lt_succ_self _
    mtime := h.mtime.trans h.clock.le
    formed := h.formed_set hchanges
    tables := h.tables_set ht (by simp [Task.pending, hu])
    held := by
      intro u hu' running' serial' hrunning
      rcases List.mem_or_eq_of_mem_set hu' with hu' | rfl
      · exact h.held u hu' running' serial' hrunning
      · exact h.held t (List.mem_of_getElem? ht) running' serial' (by simpa [Task.held, hu] using hrunning)
    latest := by
      refine h.latest.imp_right ?_
      rintro ⟨u, hu', running', serial', hrunning, hserial⟩
      rcases mem_or_eq_of_mem ht hu' with hu' | rfl
      · exact ⟨u, hu', running', serial', hrunning, hserial⟩
      · exact ⟨_, mem_set_self ht, running', serial', by simpa [Task.held, hu] using hrunning, hserial⟩
    file := .inl ⟨_, mem_set_self ht, rfl⟩
    cached := h.cached
    current := fun hm => absurd hm (hstamp h.mtime)
    places := fun r hr => (h.places r hr).later (halone r hr) h.clock.le fun hle _ => hstamp hle
    watches := by
      intro r hr s hs
      have hwatched := h.watches r hr s hs
      refine ⟨hwatched.since, hwatched.now, hwatched.lists, hwatched.born.trans h.clock.le, hwatched.fresh, ?_⟩
      have hheading := hwatched.heading
      cases hplace : r.place <;> rw [hplace] at hheading <;> exact hheading
    stamps := h.stamps }

theorem Inv.write (h : Inv size w) {serial : Nat} (tick : Bool)
    (ht : w.tasks[n]? = some t) (hchanges : t.changes = []) (hu : t.update = some (.truncated running serial))
    (halone : ∀ r ∈ w.readers, r.place.reading = false) (hserial : w.written ≤ serial)
    (hlength : w.file.length ≤ size running) :
    Inv size { w with
      file := ⟨some running, max w.file.length (size running), if tick then w.clock else w.file.mtime⟩
      clock := w.clock + 1
      written := serial
      tasks := w.tasks.set n { t with begun := true, update := none } } := by
  have hmem := List.mem_of_getElem? ht
  have htrunc : t.isTruncated = true := by simp [Task.isTruncated, hu]
  have hlist : w.lists[serial]? = some running := h.held t hmem running serial (by simp [Task.held, hu])
  have hlater : w.file.mtime ≤ (if tick then w.clock else w.file.mtime) := by
    split
    · exact h.clock.le
    · exact le_rfl
  -- While the file is truncated nobody takes the cache for current.
  have hstamp : ∀ {mtime}, mtime ≤ w.file.mtime → (mtime = w.file.mtime → Current size w) →
      mtime ≠ if tick then w.clock else w.file.mtime := by
    intro mtime hle hcurrent heq
    split at heq
    · have := h.clock
      omega
    · rw [(hcurrent heq).whole t hmem] at htrunc
      cases htrunc
  exact {
    clock := by
      have := h.clock
      dsimp only
      split <;> omega
    mtime := h.mtime.trans hlater
    formed := h.formed_set hchanges
    tables := h.tables_set ht (by simp [Task.pending, hu])
    held := by
      intro u hu' running' serial' hrunning
      rcases List.mem_or_eq_of_mem_set hu' with hu' | rfl
      · exact h.held u hu' running' serial' hrunning
      · cases hrunning
    latest := by
      have hlt := (List.getElem?_eq_some_iff.1 hlist).1
      rcases h.latest with hlast | ⟨u, hu', running', serial', hrunning, hlast⟩
      · exact .inl (by dsimp only; omega)
      · rcases mem_or_eq_of_mem ht hu' with hu' | rfl
        · exact .inr ⟨u, hu', running', serial', hrunning, hlast⟩
        · simp only [Task.held, hu, Option.some.injEq, Prod.mk.injEq] at hrunning
          exact .inl (by dsimp only; omega)
    file := by
      apply Or.inr
      simp [File.load, hlength, hlist]
    cached := ⟨h.cached.1.trans hserial, h.cached.2⟩
    current := fun hm => absurd hm (hstamp h.mtime h.current)
    places := fun r hr => (h.places r hr).later (halone r hr) hlater hstamp
    watches := by
      intro r hr s hs
      have hwatched := h.watches r hr s hs
      refine ⟨hwatched.since.trans hserial, hwatched.now, hwatched.lists, hwatched.born.trans hlater, hwatched.fresh, ?_⟩
      have hheading := hwatched.heading
      cases hplace : r.place <;> rw [hplace] at hheading <;> exact hheading
    stamps := h.stamps }

theorem Inv.advance (h : Inv size w) {n : Nat} {c : World.Chance} {t : Task} (ht : w.tasks[n]? = some t)
    (hguard : Guarded size w (.advance n c)) :
    Inv size { (w.advance size c t).1 with tasks := w.tasks.set n (w.advance size c t).2 } := by
  have hformed := h.formed t (List.mem_of_getElem? ht)
  obtain ⟨changes, begun, update⟩ := t
  cases changes with
  | cons change changes => exact h.perform ht rfl
  | nil =>
    have hformed' : ∀ u : Option Update, Task.Formed ⟨[], true, u⟩ := fun u => ⟨fun hne => absurd rfl hne, nofun⟩
    have hguard := hguard _ ht
    cases update with
    | none => exact h.retask w.unlisted ht hformed .inl id rfl rfl
    | some u =>
      cases u with
      | before => exact h.retask w.unlisted ht (hformed' _) (fun _ => .inl rfl) id rfl rfl
      | listing tables =>
        dsimp only [World.advance, World.rewrite]
        split
        · exact h.list ht rfl rfl
        · rename_i hne
          rw [hguard.resolve_left hne]
          exact h.retask true ht (hformed' _) (fun _ => .inr rfl) (fun _ => rfl) rfl rfl
      | listed running serial => exact h.truncate ht rfl rfl hguard
      | truncated running serial => exact h.write c.tick ht rfl rfl hguard.1 hguard.2.1 hguard.2.2

/-! ## The readers -/

theorem Inv.readers (h : Inv size w) {readers : List Reader} (hplaces : ∀ r ∈ readers, Placed size w r.place)
    (hwatches : ∀ r ∈ readers, ∀ s ∈ r.watch, Watched w s r.place)
    (hstamps : ∀ r ∈ readers, ∀ running mtime, r.place = .stamped running mtime →
      ∀ r' ∈ readers, ∀ s ∈ r'.watch, s.born ≤ mtime → s.since ≤ w.cached) : Inv size { w with readers := readers } where
  clock := h.clock
  mtime := h.mtime
  formed := h.formed
  tables := h.tables
  held := h.held
  latest := h.latest
  file := h.file
  cached := h.cached
  current hm := ⟨(h.current hm).cache, (h.current hm).list, (h.current hm).whole⟩
  places r hr := by
    have hplaced := hplaces r hr
    cases hplace : r.place <;> rw [hplace] at hplaced
    case kept => exact ⟨hplaced.1, hplaced.2.cache, hplaced.2.list, hplaced.2.whole⟩
    case stamped =>
      exact ⟨hplaced.1, fun hm => ⟨(hplaced.2 hm).cache, (hplaced.2 hm).list, (hplaced.2 hm).whole⟩⟩
    all_goals exact hplaced
  watches r hr s hs := by
    have hwatched := hwatches r hr s hs
    refine ⟨hwatched.since, hwatched.now, hwatched.lists, hwatched.born, hwatched.fresh, ?_⟩
    have hheading := hwatched.heading
    cases hplace : r.place <;> rw [hplace] at hheading <;> exact hheading
  stamps := hstamps

theorem Inv.place (h : Inv size w) {n : Nat} {r : Reader} {place : Place} (hr : w.readers[n]? = some r)
    (hplaced : Placed size w place) (hheading : ∀ s ∈ r.watch, Watched w s r.place → Heading w s place)
    (hstamped : ∀ running mtime, place = .stamped running mtime → mtime = w.file.mtime ∧ Current size w) :
    Inv size { w with readers := w.readers.set n { r with place := place } } := by
  have hmem := List.mem_of_getElem? hr
  apply h.readers
  · intro r' hr'
    rcases List.mem_or_eq_of_mem_set hr' with hr' | rfl
    · exact h.places r' hr'
    · exact hplaced
  · intro r' hr' s hs
    rcases List.mem_or_eq_of_mem_set hr' with hr' | rfl
    · exact h.watches r' hr' s hs
    · have hwatched := h.watches r hmem s hs
      exact ⟨hwatched.since, hwatched.now, hwatched.lists, hwatched.born, hwatched.fresh, hheading s hs hwatched⟩
  · intro r₁ hr₁ running mtime hplace r₂ hr₂ s hs hborn
    obtain ⟨r₃, hr₃, hs₃⟩ : ∃ r₃ ∈ w.readers, s ∈ r₃.watch := by
      rcases List.mem_or_eq_of_mem_set hr₂ with hr₂ | rfl
      · exact ⟨r₂, hr₂, hs⟩
      · exact ⟨r, hmem, hs⟩
    rcases List.mem_or_eq_of_mem_set hr₁ with hr₁ | rfl
    · exact h.stamps r₁ hr₁ running mtime hplace r₃ hr₃ s hs₃ hborn
    · rw [(hstamped running mtime hplace).2.list]
      exact (h.watches r₃ hr₃ s hs₃).since

theorem Inv.keep (h : Inv size w) (hwhole : ∀ t ∈ w.tasks, t.isTruncated = false) :
    Inv size { w with statusCache := w.file.load size, cached := w.written } ∧
      Current size { w with statusCache := w.file.load size, cached := w.written } := by
  have hcurrent : Current size { w with statusCache := w.file.load size, cached := w.written } := ⟨rfl, rfl, hwhole⟩
  have hfile : w.lists[w.written]? = some (w.file.load size) := by
    rcases h.file with ⟨t, ht, htrunc⟩ | hfile
    · rw [hwhole t ht] at htrunc
      cases htrunc
    · exact hfile
  refine ⟨⟨h.clock, h.mtime, h.formed, h.tables, h.held, h.latest, h.file, ⟨le_rfl, hfile⟩, fun _ => hcurrent, ?_, ?_, ?_⟩,
    hcurrent⟩
  · intro r hr
    have hplaced := h.places r hr
    cases hplace : r.place <;> rw [hplace] at hplaced
    case kept => exact ⟨hplaced.1, hcurrent⟩
    case stamped => exact ⟨hplaced.1, fun _ => hcurrent⟩
    all_goals exact hplaced
  · intro r hr s hs
    have hwatched := h.watches r hr s hs
    refine ⟨hwatched.since, hwatched.now, hwatched.lists, hwatched.born, fun _ => hwatched.since, ?_⟩
    have hheading := hwatched.heading
    cases hplace : r.place <;> rw [hplace] at hheading
    case hit => exact hwatched.since
    all_goals exact hheading
  · intro r _ running mtime _ r' hr' s hs _
    exact (h.watches r' hr' s hs).since

theorem Inv.stamp (h : Inv size w) {r : Reader} (hr : r ∈ w.readers) {mtime : Nat}
    (hplace : r.place = .stamped running mtime) : Inv size { w with statusMtime := mtime } := by
  have hplaced := h.places r hr
  rw [hplace] at hplaced
  refine ⟨h.clock, hplaced.1, h.formed, h.tables, h.held, h.latest, h.file, h.cached, ?_, ?_, ?_, h.stamps⟩
  · exact fun hm => ⟨(hplaced.2 hm).cache, (hplaced.2 hm).list, (hplaced.2 hm).whole⟩
  · intro r' hr'
    have hplaced' := h.places r' hr'
    cases hplace' : r'.place <;> rw [hplace'] at hplaced'
    case kept => exact ⟨hplaced'.1, hplaced'.2.cache, hplaced'.2.list, hplaced'.2.whole⟩
    case stamped =>
      exact ⟨hplaced'.1, fun hm => ⟨(hplaced'.2 hm).cache, (hplaced'.2 hm).list, (hplaced'.2 hm).whole⟩⟩
    all_goals exact hplaced'
  · intro r' hr' s hs
    have hwatched := h.watches r' hr' s hs
    refine ⟨hwatched.since, hwatched.now, hwatched.lists, hwatched.born, h.stamps r hr running mtime hplace r' hr' s hs, ?_⟩
    have hheading := hwatched.heading
    cases hplace' : r'.place <;> rw [hplace'] at hheading <;> exact hheading

theorem Inv.read (h : Inv size w) {n : Nat} {r : Reader} (hr : w.readers[n]? = some r)
    (hguard : r.place = .missed → ∀ t ∈ w.tasks, t.isTruncated = false) :
    Inv size { (w.read size r).1 with readers := w.readers.set n { r with place := (w.read size r).2 } } := by
  have hplaced := h.places r (List.mem_of_getElem? hr)
  have hheading : ∀ s ∈ r.watch, Watched w s r.place → Heading w s r.place := fun _ _ hs => hs.heading
  obtain ⟨name, place, watch⟩ := r
  cases place with
  | asked =>
    apply Inv.place h hr
    · trivial
    · exact fun s _ hs => hs.born
    · nofun
  | looked mtime =>
    apply Inv.place h hr
    · dsimp only [World.read]
      split <;> trivial
    · intro s hw hs
      dsimp only [World.read]
      split
      · rename_i heq
        exact hs.fresh (heq ▸ hheading s hw hs)
      · trivial
    · intro running mtime' hstamped
      dsimp only [World.read] at hstamped
      split at hstamped <;> cases hstamped
  | hit =>
    apply Inv.place h hr
    · trivial
    · exact fun s hw hs => hs.lists _ _ (hheading s hw hs) h.cached.2
    · nofun
  | missed =>
    apply Inv.place h hr
    · exact ⟨rfl, hguard rfl⟩
    · intro s _ hs
      rcases h.file with ⟨t, ht, htrunc⟩ | hfile
      · rw [hguard rfl t ht] at htrunc
        cases htrunc
      · exact hs.lists _ _ hs.since hfile
    · nofun
  | loaded running =>
    obtain ⟨rfl, hwhole⟩ := hplaced
    obtain ⟨hinv, hcurrent⟩ := h.keep hwhole
    apply Inv.place hinv hr
    · exact ⟨rfl, hcurrent⟩
    · exact fun s _ hs => hs.heading
    · nofun
  | kept running =>
    apply Inv.place h hr
    · exact ⟨le_rfl, fun _ => hplaced.2⟩
    · exact hheading
    · rintro _ _ ⟨⟩
      exact ⟨rfl, hplaced.2⟩
  | stamped running mtime =>
    apply Inv.place (h.stamp (List.mem_of_getElem? hr) rfl) hr
    · trivial
    · exact fun s _ hs => hs.heading
    · nofun
  | answered running =>
    apply Inv.place h hr
    · trivial
    · exact hheading
    · nofun

theorem quiet_iff : w.quiet = true ↔ ∀ t ∈ w.tasks, t.writing = false := by
  simp [World.quiet]

theorem Inv.settled (h : Inv size w) (hquiet : w.quiet = true) : (∀ t ∈ w.tasks, t.isTruncated = false) ∧
    w.written + 1 = w.lists.length ∧ w.lists[w.written]? = some (w.file.load size) ∧
      (w.unlisted = false → (w.written = 0 → w.file.load size = []) → w.file.load size = w.tables.runningProcesses) := by
  have hidle : ∀ t ∈ w.tasks, t.held ≠ none ∨ t.isTruncated = true → False := by
    intro t ht hheld
    have hwriting := (h.formed t ht).writing hheld
    rw [quiet_iff.1 hquiet t ht] at hwriting
    cases hwriting
  have hwritten : w.written + 1 = w.lists.length := by
    rcases h.latest with hlast | ⟨t, ht, running, serial, hheld, -⟩
    · exact hlast
    · exact (hidle t ht (.inl (by simp [hheld]))).elim
  have hfile : w.lists[w.written]? = some (w.file.load size) := by
    rcases h.file with ⟨t, ht, htrunc⟩ | hfile
    · exact (hidle t ht (.inr htrunc)).elim
    · exact hfile
  refine ⟨fun t ht => ?_, hwritten, hfile, fun hunlisted hfound => ?_⟩
  · cases htrunc : t.isTruncated with
    | false => rfl
    | true => exact (hidle t ht (.inr htrunc)).elim
  · rcases h.tables with ⟨t, ht, hp⟩ | hu | hlast | ⟨hone, hnone⟩
    · have hwriting := quiet_iff.1 hquiet t ht
      cases hu : t.update <;> simp_all [Task.pending, Task.writing]
    · rw [hunlisted] at hu
      cases hu
    · rw [List.getLast?_eq_getElem?, ← hwritten, Nat.add_sub_cancel, hfile, Option.some.injEq] at hlast
      exact hlast
    · rw [hfound (by omega), hnone]

theorem Inv.ask (h : Inv size w) (name : String)
    (hguard : w.quiet = true → w.unlisted = false ∧ (w.written = 0 → w.file.load size = [])) :
    Inv size { w with readers := w.readers ++
      [⟨name, .asked, if w.quiet then some ⟨[w.tables], w.written, w.file.mtime⟩ else none⟩] } := by
  have hwatched : ∀ s, (if w.quiet then some (Watch.mk [w.tables] w.written w.file.mtime) else none) = some s →
      Watched w s .asked := by
    intro s hs
    split at hs
    · rename_i hquiet
      cases hs
      obtain ⟨-, hwritten, hfile, hload⟩ := h.settled hquiet
      have hsaw : Watch.Saw ⟨[w.tables], w.written, w.file.mtime⟩ w.tables.runningProcesses :=
        ⟨w.tables, List.mem_singleton_self _, rfl⟩
      refine ⟨le_rfl, hsaw, ?_, le_rfl, ?_, trivial⟩
      · intro j running hj hrunning
        have hlt := (List.getElem?_eq_some_iff.1 hrunning).1
        obtain rfl : j = w.written := by
          dsimp only at hj
          omega
        rw [hfile, Option.some.injEq] at hrunning
        rw [← hrunning, hload (hguard hquiet).1 (hguard hquiet).2]
        exact hsaw
      · exact fun hm => (h.current (le_antisymm h.mtime hm)).list.ge
    · cases hs
  apply h.readers
  · intro r hr
    rcases List.mem_append.1 hr with hr | hr
    · exact h.places r hr
    · rw [List.mem_singleton.1 hr]
      trivial
  · intro r hr s hs
    rcases List.mem_append.1 hr with hr | hr
    · exact h.watches r hr s hs
    · rw [List.mem_singleton.1 hr] at hs ⊢
      exact hwatched s hs
  · intro r₁ hr₁ running mtime hplace r₂ hr₂ s hs hborn
    rcases List.mem_append.1 hr₁ with hr₁ | hr₁
    · rcases List.mem_append.1 hr₂ with hr₂ | hr₂
      · exact h.stamps r₁ hr₁ running mtime hplace r₂ hr₂ s hs hborn
      · rw [List.mem_singleton.1 hr₂] at hs
        have hplaced := h.places r₁ hr₁
        rw [hplace] at hplaced
        have hmtime := (hwatched s hs).born
        dsimp only at hs
        split at hs
        · cases hs
          exact (hplaced.2 (le_antisymm hplaced.1 hborn)).list.ge
        · cases hs
    · rw [List.mem_singleton.1 hr₁] at hplace
      cases hplace

theorem inv_start (found : Option File) : Inv size (World.start size found) where
  clock := Nat.lt_succ_self _
  mtime := le_rfl
  formed _ ht := absurd ht List.not_mem_nil
  tables := .inr (.inr (.inr ⟨rfl, rfl⟩))
  held _ ht := absurd ht List.not_mem_nil
  latest := .inl rfl
  file := .inr rfl
  cached := ⟨le_rfl, rfl⟩
  current _ := ⟨rfl, rfl, fun _ ht => absurd ht List.not_mem_nil⟩
  places _ hr := absurd hr List.not_mem_nil
  watches _ hr := absurd hr List.not_mem_nil
  stamps _ hr := absurd hr List.not_mem_nil

theorem Inv.step (h : Inv size w) {s : Step} (hguard : Guarded size w s) : Inv size (w.step size s) := by
  have hcall : ∀ changes, Inv size (w.call changes) := fun changes =>
    h.call ⟨fun _ => .inl rfl, fun _ => .inl rfl⟩ rfl
  cases s with
  | startProcess pid info =>
    dsimp only [World.step]
    split
    · exact h
    · exact hcall _
  | wait internalName =>
    dsimp only [World.step]
    split
    · exact h
    · exact hcall _
  | stopProcess internalName =>
    dsimp only [World.step]
    split
    · exact h
    · exact hcall _
  | registerExternalProcess name pid =>
    dsimp only [World.step]
    split
    · exact h
    · exact hcall _
  | unregisterExternalProcess name =>
    dsimp only [World.step]
    split
    · exact hcall _
    · exact h
  | reapZombies pid => exact h.call ⟨fun _ => .inr ⟨rfl, by simp [Task.reaping]⟩, fun _ => .inr rfl⟩ rfl
  | advance n c =>
    dsimp only [World.step]
    split
    · exact h
    · rename_i t ht
      exact h.advance ht hguard
  | getStatus name => exact h.ask name hguard
  | read n =>
    dsimp only [World.step]
    split
    · exact h
    · rename_i r hr
      exact h.read hr (hguard r hr)

/-! ## What is answered -/

theorem mem_keys_foldl_set {ε : Type} (key : ε → String) (value : ε → Nat) (name : String) : ∀ (es : List ε) (running : Dict String Nat),
    name ∈ Dict.keys (es.foldl (fun running e => running.set (key e) (value e)) running) ↔
      name ∈ Dict.keys running ∨ ∃ e ∈ es, key e = name
  | [], running => by simp
  | e :: es, running => by
    rw [List.foldl_cons, mem_keys_foldl_set key value name es, Dict.mem_keys, Dict.mem_keys, Dict.get?_set]
    by_cases hname : name = key e
    · simp [hname]
    · simp [hname, Ne.symm hname]

theorem mem_runningProcesses {t : Tables} {name : String} : name ∈ Dict.keys t.runningProcesses ↔
    (∃ e ∈ t.processes, e.2.name = name) ∨ ∃ e ∈ t.externalProcesses, e.1 = name := by
  rw [Tables.runningProcesses, mem_keys_foldl_set, mem_keys_foldl_set]
  simp [Dict.keys]

theorem getStatus_running {text : Text} {dbrepair : Bool} {t : Tables} {name : String} (hname : normalize text name ∉ excepted) :
    getStatus text dbrepair t.runningProcesses name = .running ↔ t.Tracks (normalize text) name := by
  simp only [excepted, List.mem_cons, List.not_mem_nil, or_false, not_or] at hname
  have hany : ((Dict.keys t.runningProcesses).any fun stored => normalize text name = normalize text stored) = true ↔
      t.Tracks (normalize text) name := by
    simp only [List.any_eq_true, mem_runningProcesses, decide_eq_true_eq, Tables.Tracks]
    constructor
    · rintro ⟨stored, ⟨e, he, rfl⟩ | ⟨e, he, rfl⟩, heq⟩
      · exact .inl ⟨e, he, heq.symm⟩
      · exact .inr ⟨e, he, heq.symm⟩
    · rintro (⟨e, he, heq⟩ | ⟨e, he, heq⟩)
      · exact ⟨_, .inl ⟨e, he, rfl⟩, heq.symm⟩
      · exact ⟨_, .inr ⟨e, he, rfl⟩, heq.symm⟩
  rw [← hany]
  simp only [getStatus, hname.1, hname.2.1, hname.2.2.1, hname.2.2.2, decide_false, Bool.or_self, Bool.false_and,
    Bool.false_eq_true, if_false]
  split <;> simp_all

theorem Inv.truthful (h : Inv size w) (text : Text) (dbrepair : Bool) : Truthful text dbrepair w := by
  intro r hr s hs running hplace hname
  have hheading := (h.watches r hr s hs).heading
  rw [hplace] at hheading
  obtain ⟨t, ht, rfl⟩ := hheading
  exact ⟨t, ht, getStatus_running hname⟩

end Dumb.Status

/-! ## The status agrees with the tracked processes -/

namespace Dumb.Status

open Py

theorem status_truthful (text : Text) (dbrepair : Bool) (size : Dict String Nat → Nat) (found : Option File) (steps : List Step)
    (hguarded : Along (World.step size) (Guarded size) (World.start size found) steps) :
    Truthful text dbrepair (steps.foldl (World.step size) (World.start size found)) := by
  have hinv : Inv size (steps.foldl (World.step size) (World.start size found)) :=
    hguarded.foldl (fun w s _ hs hw => hw.step hs) (inv_start found)
  exact hinv.truthful text dbrepair

def jsonSize (running : Dict String Nat) : Nat :=
  (running.map fun e => e.1.length + (toString e.2).length + 4).sum + 2 + 2 * (running.length - 1)

def advances (n accesses : Nat) : List Step := List.replicate accesses (.advance n ⟨none, false⟩)

def asks (n : Nat) (name : String) : List Step := .getStatus name :: List.replicate 6 (.read n)

def startedAndStopped : List Step :=
  .startProcess 7 ⟨"Plex", "Plex"⟩ :: advances 0 6 ++ asks 0 "plex" ++ .stopProcess "Plex" :: advances 1 6 ++ asks 1 "Plex"

theorem status_truthful_stopped : Truthful .ascii false
    (startedAndStopped.foldl (World.step jsonSize) (World.start jsonSize none)) :=
  status_truthful .ascii false jsonSize none startedAndStopped (by decide +kernel)

def reaped : List Step :=
  .startProcess 7 ⟨"Plex", "Plex"⟩ :: advances 0 6 ++ .reapZombies 7 :: advances 1 3 ++ asks 0 "Plex"

def overlapped : List Step :=
  .startProcess 7 ⟨"Plex", "Plex"⟩ :: advances 0 6 ++ .getStatus "Plex" :: List.replicate 3 (.read 0) ++
    .stopProcess "Plex" :: advances 1 6 ++ List.replicate 3 (.read 0) ++ asks 1 "Plex"

def overtaken : List Step :=
  .startProcess 7 ⟨"Plex", "Plex"⟩ :: advances 0 4 ++ .startProcess 8 ⟨"Emby", "Emby"⟩ :: advances 1 6 ++ advances 0 2 ++
    asks 0 "Emby"

theorem not_truthful {w : World} {n : Nat} {name : String} {running : Dict String Nat} {s : Watch}
    (hr : w.readers[n]? = some ⟨name, .answered running, some s⟩) (hname : normalize .ascii name ∉ excepted)
    (hwrong : ∀ t ∈ s.seen, ¬(getStatus .ascii false running name = .running ↔ t.Tracks (normalize .ascii) name)) :
    ¬Truthful .ascii false w := by
  intro h
  obtain ⟨t, ht, hiff⟩ := h _ (List.mem_of_getElem? hr) s rfl running rfl hname
  exact hwrong t ht hiff

theorem status_wrong : ¬Truthful .ascii false (reaped.foldl (World.step jsonSize) (World.start jsonSize none)) ∧
    ¬Truthful .ascii false (overlapped.foldl (World.step jsonSize) (World.start jsonSize none)) ∧
      ¬Truthful .ascii false (overtaken.foldl (World.step jsonSize) (World.start jsonSize none)) := by
  refine ⟨?_, ?_, ?_⟩
  · apply @not_truthful _ 0 "Plex" [("Plex", 7)] ⟨[⟨[], [], []⟩], 1, 1⟩ <;> decide +kernel
  · apply @not_truthful _ 1 "Plex" [("Plex", 7)] ⟨[⟨[], [], []⟩], 2, 3⟩ <;> decide +kernel
  · apply @not_truthful _ 0 "Emby" [("Plex", 7)]
      ⟨[⟨[(7, ⟨"Plex", "Plex"⟩), (8, ⟨"Emby", "Emby"⟩)], [("Plex", 7), ("Emby", 8)], []⟩], 1, 3⟩ <;> decide +kernel

end Dumb.Status
