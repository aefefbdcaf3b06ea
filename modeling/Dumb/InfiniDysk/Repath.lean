import Mathlib.Data.List.DropRight
import Mathlib.Data.List.Perm.Basic
import Dumb.Lib.Dict

/-!
# New paths for the items of an Arr

`_update_arr_items` from `utils/infinidysk_migration.py`. How an ID prints, whether it is a number, and what is answered to a
request after those before it are parameters. The progress callback is left out.
-/

namespace Dumb.InfiniDysk.Repath

open Py

structure Item (ι : Type) where
  id : Option ι
  path : Option (List Char)

inductive Outcome where
  | ok
  | httpError (code : Nat)
  | error
  deriving DecidableEq

inductive Request (ι : Type) where
  | bulk (api : String × String) (ids : List Int) (rootFolderPath : List Char) (batch : List (Item ι))
  | item (target : Item ι)

inductive Raised where
  | keyError
  | valueError
  | request (outcome : Outcome)
  deriving DecidableEq

def arrEditorApi : Dict String (String × String) := [
  ("radarr", "movie/editor", "movieIds"), ("sonarr", "series/editor", "seriesIds"),
  ("lidarr", "artist/editor", "artistIds"), ("whisparr", "series/editor", "seriesIds")]

section
variable {ι : Type}

def Request.items : Request ι → List (Item ι)
  | .bulk _ _ _ batch => batch
  | .item target => [target]

abbrev Log (ι : Type) := List (Request ι × Outcome)

structure State (ι : Type) where
  log : Log ι
  exactUpdates : List (Item ι)
  completed : Nat

variable (str : Option ι → String) (int : ι → Option Int) (http : Log ι → Request ι → Outcome)

/-! ## The code -/

def byId (items : List (Item ι)) : Dict String (Item ι) := items.foldl (fun d item => d.set (str item.id) item) []

def changedItems (original desired : List (Item ι)) : List (Item ι) :=
  desired.filter fun item => item.id.isSome ∧ ((byId str original).get? (str item.id)).bind (·.path) ≠ item.path

def rootMappings (original desired : List (Item ι)) : List (List Char × List Char) :=
  (byId str desired).filterMap fun root =>
    match (byId str original).get? root.1 with
    | some old => if old.path ≠ root.2.path then some (old.path.getD [], root.2.path.getD []) else none
    | none => none

def rstrip (path : List Char) : List Char := path.rdropWhile (· = '/')

def itemRootDestination (oldPath newPath : List Char) : List (List Char × List Char) → Option (List Char)
  | [] => none
  | (oldRoot, newRoot) :: mappings =>
    if oldPath = rstrip oldRoot then
      if newPath = rstrip newRoot then some (rstrip newRoot) else itemRootDestination oldPath newPath mappings
    else if (rstrip oldRoot ++ ['/']).isPrefixOf oldPath then
      if newPath = rstrip newRoot ++ oldPath.drop (rstrip oldRoot).length then some (rstrip newRoot)
      else itemRootDestination oldPath newPath mappings
    else itemRootDestination oldPath newPath mappings

def group (destination : Item ι → Option (List Char)) :
    List (Item ι) → Dict (List Char) (List (Item ι)) × List (Item ι) → Dict (List Char) (List (Item ι)) × List (Item ι)
  | [], groups => groups
  | target :: changed, (grouped, exact) =>
    match destination target with
    | some (c :: root) =>
      group destination changed (grouped.set (c :: root) ((grouped.get? (c :: root)).getD [] ++ [target]), exact)
    | _ => group destination changed (grouped, exact ++ [target])

def batches {α : Type} : List α → List (List α)
  | [] => []
  | target :: targets => (target :: targets).take 500 :: batches ((target :: targets).drop 500)
termination_by targets => targets.length

def applyBulk (api : String × String) (rootPath : List Char) (batch : List (Item ι)) (s : State ι) :
    Except Raised Unit × State ι :=
  match batch.mapM fun item => item.id.bind int with
  | none => (.error .valueError, s)
  | some ids =>
    let request := .bulk api ids rootPath batch
    let outcome := http s.log request
    let s := { s with log := s.log ++ [(request, outcome)] }
    match outcome with
    | .ok => (.ok (), { s with completed := s.completed + batch.length })
    | .error => (.error (.request .error), s)
    | .httpError code =>
      if code ∉ [400, 404, 405, 409, 422] then (.error (.request (.httpError code)), s)
      else if _h : code ∈ [409, 422] ∧ 8 < batch.length then
        match applyBulk api rootPath (batch.take (batch.length / 2)) s with
        | (.ok (), s) => applyBulk api rootPath (batch.drop (batch.length / 2)) s
        | (.error e, s) => (.error e, s)
      else (.ok (), { s with exactUpdates := s.exactUpdates ++ batch })
termination_by batch.length
decreasing_by
  · rw [List.length_take]
    omega
  · rw [List.length_drop]
    omega

def updateItem (target : Item ι) (s : State ι) : Except Raised Unit × State ι :=
  let outcome := http s.log (.item target)
  let s := { s with log := s.log ++ [(.item target, outcome)] }
  if outcome = .ok then (.ok (), { s with completed := s.completed + 1 }) else (.error (.request outcome), s)

def forEach {α : Type} (f : α → State ι → Except Raised Unit × State ι) : List α → State ι → Except Raised Unit × State ι
  | [], s => (.ok (), s)
  | x :: xs, s =>
    match f x s with
    | (.ok (), s) => forEach f xs s
    | (.error e, s) => (.error e, s)

structure Snapshot (ι : Type) where
  serviceKey : String
  items : List (Item ι)
  roots : List (Item ι)

def updateArrItems (snapshot desired : Snapshot ι) : Except Raised Nat × Log ι :=
  let changed := changedItems str snapshot.items desired.items
  if changed.isEmpty then (.ok 0, [])
  else
    let mappings := rootMappings str snapshot.roots desired.roots
    let destination (target : Item ι) :=
      let original := ((byId str snapshot.items).get? (str target.id)).bind (·.path)
      itemRootDestination (rstrip (original.getD [])) (rstrip (target.path.getD [])) mappings
    let (grouped, exact) := group destination changed ([], [])
    match arrEditorApi.get? snapshot.serviceKey with
    | none => (.error .keyError, [])
    | some api =>
      let slices := grouped.flatMap fun g => (batches g.2).map fun batch => (g.1, batch)
      match forEach (fun slice => applyBulk int http api slice.1 slice.2) slices ⟨[], exact, 0⟩ with
      | (.error e, s) => (.error e, s.log)
      | (.ok (), s) =>
        match forEach (updateItem http) s.exactUpdates s with
        | (.error e, s) => (.error e, s.log)
        | (.ok (), s) => (.ok s.completed, s.log)

/-! ## What is covered -/

def Recoverable : Request ι × Outcome → Prop
  | (.bulk _ _ _ _, .httpError code) => code ∈ [400, 404, 405, 409, 422]
  | _ => False

def written (log : Log ι) : List (Item ι) := (log.filter (·.2 = .ok)).flatMap (·.1.items)

/-- Only `items` are in a request, no failure is passed over but one that is made up for, and what was returned is the number
of the items, each of them in one request that succeeded. -/
structure Covered {α : Type} (items : List (Item ι)) (count : α → Nat) (r : Except Raised α) (log : Log ι) : Prop where
  only : ∀ e ∈ log, ∀ i ∈ e.1.items, i ∈ items
  failures : ∀ e ∈ log, e.2 = .ok ∨ Recoverable e ∨ r = .error (.request e.2)
  once : ∀ a, r = .ok a → (written log).Perm items
  counted : ∀ a, r = .ok a → count a = items.length

structure Part (items left : List (Item ι)) (s : State ι) (r : Except Raised Unit) (s' : State ι) (log : Log ι) : Prop where
  appended : s'.log = s.log ++ log
  only : ∀ e ∈ log, ∀ i ∈ e.1.items, i ∈ items
  failures : ∀ e ∈ log, e.2 = .ok ∨ Recoverable e ∨ r = .error (.request e.2)
  exact : r = .ok () → s'.exactUpdates = s.exactUpdates ++ left
  once : r = .ok () → (written log ++ left).Perm items
  counted : r = .ok () → s'.completed = s.completed + (written log).length

theorem written_append (a b : Log ι) : written (a ++ b) = written a ++ written b := by
  rw [written, List.filter_append, List.flatMap_append, written, written]

theorem Part.append {xs ys l₁ l₂ : List (Item ι)} {s s₁ s₂ : State ι} {r : Except Raised Unit} {log₁ log₂ : Log ι}
    (h₁ : Part xs l₁ s (.ok ()) s₁ log₁) (h₂ : Part ys l₂ s₁ r s₂ log₂) :
    Part (xs ++ ys) (l₁ ++ l₂) s r s₂ (log₁ ++ log₂) where
  appended := by rw [h₂.appended, h₁.appended, List.append_assoc]
  only := by
    intro e he i hi
    rcases List.mem_append.1 he with he | he
    · exact List.mem_append_left _ (h₁.only e he i hi)
    · exact List.mem_append_right _ (h₂.only e he i hi)
  failures := by
    intro e he
    rcases List.mem_append.1 he with he | he
    · rcases h₁.failures e he with h | h | h
      · exact .inl h
      · exact .inr (.inl h)
      · cases h
    · exact h₂.failures e he
  exact := fun hr => by rw [h₂.exact hr, h₁.exact rfl, List.append_assoc]
  once := by
    intro hr
    rw [written_append]
    refine List.Perm.trans ?_ ((h₁.once rfl).append (h₂.once hr))
    rw [List.append_assoc, List.append_assoc, List.perm_append_left_iff, ← List.append_assoc, ← List.append_assoc]
    exact List.perm_append_comm.append_right l₂
  counted := fun hr => by rw [h₂.counted hr, h₁.counted rfl, written_append, List.length_append, Nat.add_assoc]

theorem Part.stop {xs left : List (Item ι)} (ys : List (Item ι)) {s s' : State ι} {e : Raised} {log : Log ι}
    (h : Part xs left s (.error e) s' log) : Part (xs ++ ys) left s (.error e) s' log where
  appended := h.appended
  only := fun x hx i hi => List.mem_append_left _ (h.only x hx i hi)
  failures := h.failures
  exact := fun hr => by cases hr
  once := fun hr => by cases hr
  counted := fun hr => by cases hr

/-- A request before it that failed and is made up for. -/
theorem Part.after {items left : List (Item ι)} {s s' : State ι} {r : Except Raised Unit} {log : Log ι}
    {e : Request ι × Outcome} (he : Recoverable e) (hitems : ∀ i ∈ e.1.items, i ∈ items)
    (h : Part items left { s with log := s.log ++ [e] } r s' log) : Part items left s r s' (e :: log) := by
  have hwritten : written (e :: log) = written log := by
    have hfailed : e.2 ≠ .ok := by
      obtain ⟨request, outcome⟩ := e
      rintro rfl
      cases request <;> exact he
    simp [written, hfailed]
  constructor
  case appended => rw [h.appended, List.append_assoc, List.singleton_append]
  case only => exact List.forall_mem_cons.2 ⟨hitems, h.only⟩
  case failures => exact List.forall_mem_cons.2 ⟨.inr (.inl he), h.failures⟩
  case exact => exact h.exact
  case once => rw [hwritten]; exact h.once
  case counted => rw [hwritten]; exact h.counted

theorem applyBulk_part (api : String × String) (rootPath : List Char) (batch : List (Item ι)) (s : State ι) :
    ∃ left log, Part batch left s (applyBulk int http api rootPath batch s).1 (applyBulk int http api rootPath batch s).2 log := by
  generalize hlen : batch.length = len
  induction len using Nat.strongRecOn generalizing batch s with
  | ind len ih =>
    rw [applyBulk]
    cases hids : batch.mapM fun item => item.id.bind int with
    | none => exact ⟨[], [], by simp, by simp, by simp, by simp, by simp, by simp⟩
    | some ids =>
      dsimp only
      cases houtcome : http s.log (.bulk api ids rootPath batch) with
      | ok => exact ⟨[], [(.bulk api ids rootPath batch, .ok)], rfl, by simp [Request.items], by simp, by simp,
          by simp [written, Request.items], by simp [written, Request.items]⟩
      | error => exact ⟨[], [(.bulk api ids rootPath batch, .error)], rfl, by simp [Request.items], by simp, by simp, by simp,
          by simp⟩
      | httpError code =>
        dsimp only
        by_cases hcode : code ∈ [400, 404, 405, 409, 422]
        · rw [if_neg (not_not.2 hcode)]
          have hfailed : Recoverable ((.bulk api ids rootPath batch, .httpError code) : Request ι × Outcome) := hcode
          split
          · rename_i hsplit
            -- Both halves are shorter, and together they are the batch.
            obtain ⟨left₁, log₁, h₁⟩ := ih (batch.take (batch.length / 2)).length (by rw [List.length_take]; omega)
              (batch.take (batch.length / 2)) { s with log := s.log ++ [(.bulk api ids rootPath batch, .httpError code)] } rfl
            rcases hfirst : applyBulk int http api rootPath (batch.take (batch.length / 2))
              { s with log := s.log ++ [(.bulk api ids rootPath batch, .httpError code)] } with ⟨r₁, s₁⟩
            rw [hfirst] at h₁
            cases r₁ with
            | error e =>
              have hstop := h₁.stop (batch.drop (batch.length / 2))
              rw [List.take_append_drop] at hstop
              exact ⟨left₁, _, hstop.after hfailed fun i hi => hi⟩
            | ok _ =>
              obtain ⟨left₂, log₂, h₂⟩ := ih (batch.drop (batch.length / 2)).length (by rw [List.length_drop]; omega)
                (batch.drop (batch.length / 2)) s₁ rfl
              have hboth := h₁.append h₂
              rw [List.take_append_drop] at hboth
              exact ⟨left₁ ++ left₂, _, hboth.after hfailed fun i hi => hi⟩
          · have hput : Part batch batch { s with log := s.log ++ [(.bulk api ids rootPath batch, .httpError code)] } (.ok ())
                { s with
                  log := s.log ++ [(.bulk api ids rootPath batch, .httpError code)]
                  exactUpdates := s.exactUpdates ++ batch } [] :=
              ⟨by simp, by simp, by simp, by simp, by simp [written], by simp [written]⟩
            exact ⟨batch, _, hput.after hfailed fun i hi => hi⟩
        · rw [if_pos hcode]
          exact ⟨[], [(.bulk api ids rootPath batch, .httpError code)], rfl, by simp [Request.items], by simp, by simp, by simp,
            by simp⟩

theorem updateItem_part (target : Item ι) (s : State ι) :
    ∃ log, Part [target] [] s (updateItem http target s).1 (updateItem http target s).2 log := by
  rw [updateItem]
  dsimp only
  by_cases hok : http s.log (.item target) = .ok
  · rw [if_pos hok, hok]
    exact ⟨[(.item target, .ok)], rfl, by simp [Request.items], by simp, by simp, by simp [written, Request.items],
      by simp [written, Request.items]⟩
  · rw [if_neg hok]
    exact ⟨[(.item target, http s.log (.item target))], rfl, by simp [Request.items], by simp, by simp, by simp, by simp⟩

/-- A loop does what its turns do; `P` holds of what is put off in any of them. -/
theorem forEach_part {α : Type} {f : α → State ι → Except Raised Unit × State ι} {items : α → List (Item ι)}
    {P : List (Item ι) → Prop} (hnil : P []) (happend : ∀ a b, P a → P b → P (a ++ b))
    (h : ∀ x s, ∃ left log, P left ∧ Part (items x) left s (f x s).1 (f x s).2 log) (xs : List α) (s : State ι) :
    ∃ left log, P left ∧ Part (xs.flatMap items) left s (forEach f xs s).1 (forEach f xs s).2 log := by
  induction xs generalizing s with
  | nil => exact ⟨[], [], hnil, by simp [forEach], by simp, by simp, by simp [forEach], by simp [written],
      by simp [forEach, written]⟩
  | cons x xs ih =>
    obtain ⟨left₁, log₁, hleft₁, h₁⟩ := h x s
    rw [forEach, List.flatMap_cons]
    rcases hx : f x s with ⟨r₁, s₁⟩
    rw [hx] at h₁
    cases r₁ with
    | error e => exact ⟨left₁, log₁, hleft₁, h₁.stop _⟩
    | ok _ =>
      obtain ⟨left₂, log₂, hleft₂, h₂⟩ := ih s₁
      exact ⟨left₁ ++ left₂, log₁ ++ log₂, happend _ _ hleft₁ hleft₂, h₁.append h₂⟩

/-! ## Groups and batches -/

theorem flatten_batches {α : Type} (targets : List α) : (batches targets).flatten = targets := by
  fun_induction batches targets with
  | case1 => rfl
  | case2 target targets ih => rw [List.flatten_cons, ih, List.take_append_drop]

theorem values_set {κ : Type} [DecidableEq κ] (k : κ) (x : Item ι) (d : Dict κ (List (Item ι))) :
    (((d.set k ((d.get? k).getD [] ++ [x])).flatMap (·.2))).Perm (d.flatMap (·.2) ++ [x]) := by
  induction d with
  | nil => simp [Dict.set]
  | cons m d ih =>
    obtain ⟨q, items⟩ := m
    by_cases hq : k = q
    · subst hq
      simpa [Dict.set, Dict.get?] using (@List.perm_append_comm _ [x] (d.flatMap (·.2))).append_left items
    · simpa [Dict.set, Dict.get?, hq, Ne.symm hq] using ih.append_left items

theorem group_perm (destination : Item ι → Option (List Char)) (changed : List (Item ι))
    (groups : Dict (List Char) (List (Item ι)) × List (Item ι)) :
    ((group destination changed groups).1.flatMap (·.2) ++ (group destination changed groups).2).Perm
      (groups.1.flatMap (·.2) ++ groups.2 ++ changed) := by
  induction changed generalizing groups with
  | nil => simp [group]
  | cons target changed ih =>
    obtain ⟨grouped, exact⟩ := groups
    have hexact := ih (grouped, exact ++ [target])
    rw [group]
    split
    · refine (ih _).trans ((((values_set _ target grouped).append_right exact).append_right changed).trans ?_)
      simpa using List.perm_middle.symm.append_left (grouped.flatMap (·.2))
    · simpa using hexact

/-- The items whose path changes, and only they, are written, each of them once, and their number is returned; a failure is
raised or made up for. -/
theorem updateArrItems_covered (snapshot desired : Snapshot ι) :
    Covered (changedItems str snapshot.items desired.items) id (updateArrItems str int http snapshot desired).1
      (updateArrItems str int http snapshot desired).2 := by
  simp only [updateArrItems]
  generalize changedItems str snapshot.items desired.items = changed
  split
  · rename_i hnone
    obtain rfl := List.isEmpty_iff.1 hnone
    exact ⟨by simp, by simp, by simp [written], by simp⟩
  · generalize (fun target : Item ι => itemRootDestination _ _ _) = destination
    have hgroups := group_perm destination changed ([], [])
    rcases hgroup : group destination changed ([], []) with ⟨grouped, exact⟩
    rw [hgroup] at hgroups
    dsimp only
    cases arrEditorApi.get? snapshot.serviceKey with
    | none => exact ⟨by simp, by simp, by simp, by simp⟩
    | some api =>
      dsimp only
      obtain ⟨left, log, -, hbulk⟩ := forEach_part (f := fun slice => applyBulk int http api slice.1 slice.2) (P := fun _ => True)
        trivial (fun _ _ _ _ => trivial) (fun slice s => by
          obtain ⟨left, log, h⟩ := applyBulk_part int http api slice.1 slice.2 s
          exact ⟨left, log, trivial, h⟩)
        (grouped.flatMap fun g => (batches g.2).map fun batch => (g.1, batch)) ⟨[], exact, 0⟩
      have hslices : (grouped.flatMap fun g => (batches g.2).map fun batch => (g.1, batch)).flatMap (·.2) =
          grouped.flatMap (·.2) := by
        rw [List.flatMap_assoc]
        refine congrArg (fun f => grouped.flatMap f) (funext fun g => ?_)
        rw [List.flatMap_map, List.flatMap_id', flatten_batches]
      rw [hslices] at hbulk
      have hchanged : (grouped.flatMap (·.2) ++ exact).Perm changed := by simpa using hgroups
      rcases hrun : forEach (fun slice => applyBulk int http api slice.1 slice.2)
        (grouped.flatMap fun g => (batches g.2).map fun batch => (g.1, batch)) ⟨[], exact, 0⟩ with ⟨r, s⟩
      rw [hrun] at hbulk ⊢
      cases r with
      | error e =>
        have hlog : s.log = log := hbulk.appended
        rw [← hlog] at hbulk
        refine ⟨fun e he i hi => hchanged.mem_iff.1 (List.mem_append_left _ (hbulk.only e he i hi)), fun e he => ?_, by simp,
          by simp⟩
        simpa using hbulk.failures e he
      | ok _ =>
        have hput : s.exactUpdates = exact ++ left := hbulk.exact rfl
        obtain ⟨_, log', rfl, hexact⟩ := forEach_part (f := updateItem http) (P := fun left => left = []) rfl
          (by rintro a b rfl rfl; rfl) (fun target s => by
            obtain ⟨log, h⟩ := updateItem_part http target s
            exact ⟨[], log, rfl, h⟩) (exact ++ left) s
        rw [List.flatMap_singleton'] at hexact
        have hall := hbulk.append hexact
        have hlog : (forEach (updateItem http) (exact ++ left) s).2.log = log ++ log' := hall.appended
        rw [← List.append_assoc, ← hlog] at hall
        have honly : ∀ e ∈ (forEach (updateItem http) (exact ++ left) s).2.log, ∀ i ∈ e.1.items, i ∈ changed := by
          intro e he i hi
          rcases List.mem_append.1 (hall.only e he i hi) with h | h
          · exact hchanged.mem_iff.1 h
          · exact hchanged.mem_iff.1 (List.mem_append_left _ ((hbulk.once rfl).mem_iff.1 (List.mem_append_right _ h)))
        dsimp only
        rw [hput]
        rcases hrest : forEach (updateItem http) (exact ++ left) s with ⟨r', s'⟩
        rw [hrest] at hall honly
        cases r' with
        | error e => exact ⟨honly, fun e he => by simpa using hall.failures e he, by simp, by simp⟩
        | ok _ =>
          -- What the bulk requests put off is written one by one.
          have hwritten : (written s'.log).Perm changed := by
            have honce := hall.once rfl
            rw [List.append_nil, List.perm_append_right_iff] at honce
            exact honce.trans hchanged
          refine ⟨honly, fun e he => by simpa using hall.failures e he, fun _ _ => hwritten, fun n hn => ?_⟩
          obtain rfl := Except.ok.inj hn
          rw [id, hall.counted rfl, Nat.zero_add]
          exact hwritten.length_eq

end
end Dumb.InfiniDysk.Repath
