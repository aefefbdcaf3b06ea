import Dumb.Lib.Text

/-!
# The source selection during a manual update

`Update._manual_update_install_unprotected` of `utils/auto_update.py`: the six fields that select a source are put aside, some are
overwritten for the install, and in the end they are put back, unless somebody else seems to have changed them.
-/

namespace Dumb.AutoUpdate.Selection

open Py

inductive SourceKey where
  | pinnedVersion | commitSha | releaseVersionEnabled | releaseVersion | branchEnabled | branch
  deriving DecidableEq

abbrev Fields : Type := SourceKey → Json

def guarded : List SourceKey := [.pinnedVersion, .commitSha, .releaseVersionEnabled, .branchEnabled, .branch]

inductive Event where
  | edit (key : SourceKey) (value : Json)
  /-- The install code writes a field, as `update_check` does with the release version. -/
  | write (key : SourceKey) (value : Json)
  | save

def Event.isEdit : Event → Bool
  | .edit .. => true
  | _ => false

structure State where
  live : Fields
  saved : Option Fields

def State.put (s : State) (key : SourceKey) (value : Json) : State :=
  { s with live := fun other => if other = key then value else s.live other }

def State.after (s : State) : Event → State
  | .edit key value => s.put key value
  | .write key value => s.put key value
  | .save => { s with saved := some s.live }

structure Request where
  supported : Bool
  /-- `_get_update_block_reason` -/
  blockReason : Option String
  allowOverride : Bool
  target : String

section
variable (text : Text)

def Request.applyConfiguredTarget (r : Request) : Bool := text.lower (text.strip r.target) = "configured"

def Request.installs (r : Request) : Bool :=
  r.supported && if r.applyConfiguredTarget text then r.blockReason.isSome else r.blockReason.isNone || r.allowOverride

def Request.temporary (r : Request) (original : Fields) : Fields :=
  if r.applyConfiguredTarget text then original
  else
    let overridden : Fields := fun
      | .pinnedVersion => if r.allowOverride then .str "" else original .pinnedVersion
      | .commitSha => if r.allowOverride then .str "" else original .commitSha
      | .branchEnabled => if r.allowOverride then .bool false else original .branchEnabled
      | .releaseVersionEnabled => if r.allowOverride then .bool false else original .releaseVersionEnabled
      | .releaseVersion => if r.allowOverride then .str "" else original .releaseVersion
      | .branch => original .branch
    if text.lower r.target = "prerelease" ∨ text.lower r.target = "nightly" then
      fun
      | .releaseVersionEnabled => .bool true
      | .releaseVersion => .str (text.lower r.target)
      | key => overridden key
    else overridden

def sourceChanged (expected live : Fields) : Bool := guarded.any fun key => !Json.pyEq (live key) (expected key)

def manualUpdateInstall (r : Request) (original : Fields) (events : List Event) : State :=
  if !r.installs text then (events.filter Event.isEdit).foldl State.after ⟨original, none⟩
  else
    let done := events.foldl State.after ⟨r.temporary text original, none⟩
    if sourceChanged (r.temporary text original) done.live then done else { done with live := original }

/-! ## The last writes -/

def Event.edited (key : SourceKey) : Event → Option Json
  | .edit other value => if key = other then some value else none
  | _ => none

def Event.written (key : SourceKey) : Event → Option Json
  | .edit other value => if key = other then some value else none
  | .write other value => if key = other then some value else none
  | .save => none

def lastEdit (key : SourceKey) (events : List Event) : Option Json := (events.filterMap (Event.edited key)).getLast?

def lastWrite (key : SourceKey) (events : List Event) : Option Json := (events.filterMap (Event.written key)).getLast?

def beforeLastSave : List Event → Option (List Event)
  | [] => none
  | event :: events =>
    match beforeLastSave events with
    | some before => some (event :: before)
    | none =>
      match event with
      | .save => some []
      | _ => none

def Request.held (r : Request) (original : Fields) (events : List Event) (key : SourceKey) : Json :=
  (lastWrite key events).getD (r.temporary text original key)

def wanted (original : Fields) (events : List Event) (key : SourceKey) : Json := (lastEdit key events).getD (original key)

/-- The operator's selection in memory and in the configuration that the update saved last. -/
def State.Selected (s : State) (original : Fields) (events : List Event) : Prop :=
  (∀ key, s.live key = wanted original events key) ∧ ∀ saved ∈ s.saved, ∀ key, saved key = wanted original events key

/-- The fields that the events leave hold what they should, as the code will see whether to keep them; and so do those of the
last save. -/
structure Request.Harmless (r : Request) (original : Fields) (events : List Event) : Prop where
  kept : (∃ key ∈ guarded, Json.pyEq (r.held text original events key) (r.temporary text original key) = false) →
    ∀ key, r.held text original events key = wanted original events key
  restored : (∀ key ∈ guarded, Json.pyEq (r.held text original events key) (r.temporary text original key) = true) →
    ∀ key, ∀ value ∈ lastEdit key events, value = original key
  saved : ∀ before ∈ beforeLastSave events, ∀ key, r.held text original before key = wanted original events key

theorem live_after (s : State) (event : Event) (key : SourceKey) :
    (s.after event).live key = (event.written key).getD (s.live key) := by
  cases event with
  | edit other value => by_cases h : key = other <;> simp [State.after, State.put, Event.written, h]
  | write other value => by_cases h : key = other <;> simp [State.after, State.put, Event.written, h]
  | save => rfl

theorem live_foldl (key : SourceKey) (events : List Event) (s : State) :
    (events.foldl State.after s).live key = (lastWrite key events).getD (s.live key) := by
  induction events generalizing s with
  | nil => rfl
  | cons event events ih =>
    rw [List.foldl_cons, ih]
    rw [live_after]
    cases hwritten : event.written key with
    | none => simp [lastWrite, hwritten]
    | some value => simp [lastWrite, hwritten, List.getLast?_cons]

theorem saved_foldl (events : List Event) (s : State) :
    (events.foldl State.after s).saved =
      match beforeLastSave events with
      | some before => some (before.foldl State.after s).live
      | none => s.saved := by
  induction events generalizing s with
  | nil => rfl
  | cons event events ih =>
    rw [List.foldl_cons, ih]
    cases hbefore : beforeLastSave events with
    | some before => simp [beforeLastSave, hbefore]
    | none => cases event <;> simp [beforeLastSave, hbefore, State.after, State.put]

theorem lastWrite_edits (key : SourceKey) (events : List Event) :
    lastWrite key (events.filter Event.isEdit) = lastEdit key events := by
  rw [lastWrite, List.filterMap_filter, lastEdit]
  congr 1
  apply List.filterMap_congr
  intro event _
  cases event <;> simp [Event.isEdit, Event.written, Event.edited]

theorem beforeLastSave_edits (events : List Event) : beforeLastSave (events.filter Event.isEdit) = none := by
  induction events with
  | nil => rfl
  | cons event events ih =>
    cases event with
    | edit key value =>
      have hnone : beforeLastSave (.edit key value :: events.filter Event.isEdit) = none := by simp [beforeLastSave, ih]
      exact hnone
    | write key value => exact ih
    | save => exact ih

/-- A manual update leaves the operator's source selection alone if and only if it does not get to its install, or what happens
during the install is harmless. -/
theorem source_selection_left (text : Text) (r : Request) (original : Fields) (events : List Event) :
    (manualUpdateInstall text r original events).Selected original events ↔
      r.installs text = false ∨ r.Harmless text original events := by
  unfold manualUpdateInstall
  cases hinstalls : r.installs text with
  | false =>
    simp only [Bool.not_false, if_true, true_or, iff_true]
    constructor
    · intro key
      rw [live_foldl, lastWrite_edits]
      rfl
    · intro saved hsaved
      rw [saved_foldl, beforeLastSave_edits] at hsaved
      cases hsaved
  | true =>
    simp only [Bool.not_true, Bool.false_eq_true, if_false, false_or, reduceCtorEq]
    have hlive : ∀ key, (events.foldl State.after ⟨r.temporary text original, none⟩).live key =
        r.held text original events key := fun key => live_foldl key events _
    have hchanged : sourceChanged (r.temporary text original)
        (events.foldl State.after ⟨r.temporary text original, none⟩).live = true ↔
        ∃ key ∈ guarded, Json.pyEq (r.held text original events key) (r.temporary text original key) = false := by
      simp [sourceChanged, hlive]
    have hsaved : (∀ saved ∈ (events.foldl State.after ⟨r.temporary text original, none⟩).saved, ∀ key,
          saved key = wanted original events key) ↔
        ∀ before ∈ beforeLastSave events, ∀ key, r.held text original before key = wanted original events key := by
      rw [saved_foldl]
      cases beforeLastSave events with
      | none => simp
      | some before => simp [live_foldl, Request.held]
    split
    · rename_i h
      obtain ⟨key, hguarded, hdiffers⟩ := hchanged.1 h
      constructor
      · rintro ⟨hmemory, hdisk⟩
        constructor
        case kept => exact fun _ other => (hlive other).symm.trans (hmemory other)
        case restored => exact fun hsame => absurd (hsame key hguarded) (by rw [hdiffers]; exact Bool.false_ne_true)
        case saved => exact hsaved.1 hdisk
      · rintro ⟨hkept, -, hdisk⟩
        exact ⟨fun other => (hlive other).trans (hkept ⟨key, hguarded, hdiffers⟩ other), hsaved.2 hdisk⟩
    · rename_i h
      have hsame : ¬∃ key ∈ guarded, Json.pyEq (r.held text original events key) (r.temporary text original key) = false :=
        fun hdiffers => h (hchanged.2 hdiffers)
      constructor
      · rintro ⟨hmemory, hdisk⟩
        constructor
        case kept => exact fun hdiffers => absurd hdiffers hsame
        case restored =>
          intro _ key value hedit
          have hkey := hmemory key
          rw [wanted, Option.mem_def.1 hedit] at hkey
          exact hkey.symm
        case saved => exact hsaved.1 hdisk
      · rintro ⟨-, hrestored, hdisk⟩
        constructor
        · intro key
          have hall : ∀ key ∈ guarded, Json.pyEq (r.held text original events key)
              (r.temporary text original key) = true := by
            intro other hother
            by_contra hne
            exact hsame ⟨other, hother, Bool.eq_false_iff.2 hne⟩
          rw [wanted]
          cases hedit : lastEdit key events with
          | none => rfl
          | some value => exact (hrestored hall key value hedit).symm
        · exact hsaved.2 hdisk

def pinned : Fields
  | .pinnedVersion => .str "v1.0.0"
  | .releaseVersionEnabled => .bool false
  | .branchEnabled => .bool false
  | _ => .str ""

def override : Request := ⟨true, some "pinned", true, ""⟩

/-- The operator corrects the release version while the update runs, and the install saves the configuration in between. -/
theorem source_selection_overwritten :
    ¬(manualUpdateInstall Text.ascii override pinned [.edit .releaseVersion (.str "v2.0.0")]).Selected pinned
        [.edit .releaseVersion (.str "v2.0.0")] ∧
      ¬(manualUpdateInstall Text.ascii override pinned [.edit .branch (.str "dev")]).Selected pinned [.edit .branch (.str "dev")] ∧
      ¬(manualUpdateInstall Text.ascii override pinned [.save]).Selected pinned [.save] := by
  refine ⟨fun h => ?_, fun h => ?_, fun h => ?_⟩
  · have hedited : (Json.str "" : Json) = .str "v2.0.0" := h.1 .releaseVersion
    exact absurd (Json.str.inj hedited) (by decide)
  · have hunedited : (Json.str "" : Json) = .str "v1.0.0" := h.1 .pinnedVersion
    exact absurd (Json.str.inj hunedited) (by decide)
  · have hsaved : (Json.str "" : Json) = .str "v1.0.0" := h.2 _ rfl .pinnedVersion
    exact absurd (Json.str.inj hsaved) (by decide)

end

end Dumb.AutoUpdate.Selection
