import Dumb.Lib.Dict
import Mathlib.Data.List.Infix
import Mathlib.Data.List.Nodup
import Mathlib.Data.List.Pairwise

/-!
# The activation of a build artifact

`_activate_nzbdav_build_artifact` of `utils/setup.py`: every live path is moved to a backup and its restored path is moved there; an
error undoes the records in reverse. Every call may raise; what a removal or `os.makedirs` has done before it raises is left to the
caller. Paths are resolved, so that no parent of one is a link.
-/

namespace Dumb.InfiniDysk.Activation

open Py

abbrev Path : Type := List String

inductive Node where
  | file (content : List UInt8)
  | link (target : String)
  | dir
  deriving DecidableEq

abbrev Files : Type := Path → Option Node

def Closed (fs : Files) : Prop := ∀ p q, fs p = none → fs (p ++ q) = none

def Files.at (fs : Files) (p : Path) : Files := fun q => fs (p ++ q)

def nothing : Files := fun _ => none

def Apart (p q : Path) : Prop := ¬p <+: q ∧ ¬q <+: p

def lexists (p : Path) (fs : Files) : Bool := (fs p).isSome

instance (p q : Path) : Decidable (Apart p q) := inferInstanceAs (Decidable (_ ∧ _))

def removePath (p : Path) (raises : Option (Path → Bool)) (fs : Files) : Files × Bool :=
  if lexists p fs then
    match raises with
    | none => (fun q => if p <+: q then none else fs q, true)
    | some keeps => (fun q => if p <+: q ∧ keeps q = false then none else fs q, false)
  else (fs, true)

def makedirs (p : Path) (raises : Option Nat) (fs : Files) : Files × Bool :=
  if p.inits.any fun q => fs q ≠ none && fs q ≠ some .dir then (fs, false)
  else
    match raises with
    | none => (fun q => if q <+: p ∧ fs q = none then some .dir else fs q, true)
    | some made => (fun q => if q <+: p ∧ q.length ≤ made ∧ fs q = none then some .dir else fs q, false)

def replace (src dst : Path) (raises : Bool) (fs : Files) : Option Files :=
  if raises || fs src = none || fs dst ≠ none || fs dst.dropLast ≠ some .dir || src.isPrefixOf dst then none
  else some fun q => if dst <+: q then fs (src ++ q.drop dst.length) else if src <+: q then none else fs q

structure Step where
  restored : Path
  live : Path
  clearing : Option (Path → Bool)
  parents : Option Nat
  backing : Bool
  moving : Bool
  undoClearing : Option (Path → Bool)
  undoMoving : Bool
  dropping : Option (Path → Bool)

section
variable (suffix : String)

def backup (live : Path) : Path := live.dropLast ++ [live.getLastD "" ++ ".dumb-artifact-previous-" ++ suffix]

def activateOne (s : Step) (fs : Files) : Files × Option Bool × Bool :=
  match removePath (backup suffix s.live) s.clearing fs with
  | (fs, false) => (fs, none, false)
  | (fs, true) =>
    match makedirs s.live.dropLast s.parents fs with
    | (fs, false) => (fs, none, false)
    | (fs, true) =>
      match if lexists s.live fs then replace s.live (backup suffix s.live) s.backing fs else some fs with
      | none => (fs, none, false)
      | some moved =>
        match replace s.restored s.live s.moving moved with
        | none => (moved, some (lexists s.live fs), false)
        | some moved' => (moved', some (lexists s.live fs), true)

def activateAll : List Step → List (Step × Bool) → Files → Files × List (Step × Bool) × Bool
  | [], records, fs => (fs, records, true)
  | s :: steps, records, fs =>
    match activateOne suffix s fs with
    | (fs, none, _) => (fs, records, false)
    | (fs, some existed, false) => (fs, (s, existed) :: records, false)
    | (fs, some existed, true) => activateAll steps ((s, existed) :: records) fs

def undoOne (record : Step × Bool) (fs : Files) : Files × Bool :=
  match removePath record.1.live record.1.undoClearing fs with
  | (fs, false) => (fs, false)
  | (fs, true) =>
    if record.2 && lexists (backup suffix record.1.live) fs then
      match replace (backup suffix record.1.live) record.1.live record.1.undoMoving fs with
      | none => (fs, false)
      | some fs => (fs, true)
    else (fs, true)

def undoAll : List (Step × Bool) → Files → Files × Bool
  | [], fs => (fs, true)
  | record :: records, fs =>
    let undone := undoOne suffix record fs
    let rest := undoAll records undone.1
    (rest.1, undone.2 && rest.2)

def dropBackups : List (Step × Bool) → Files → Files
  | [], fs => fs
  | record :: records, fs => (removePath (backup suffix record.1.live) record.1.dropping (dropBackups records fs)).1

inductive Result where
  | missing
  | undone (clean : Bool)
  | activated
  deriving DecidableEq

def activateNzbdavBuildArtifact (steps : List Step) (fs : Files) : Result × Files :=
  if steps.any fun s => !lexists s.restored fs then (.missing, fs)
  else
    match activateAll suffix steps [] fs with
    | (fs, records, true) => (.activated, dropBackups suffix records fs)
    | (fs, records, false) =>
      let undone := undoAll suffix records fs
      (.undone undone.2, undone.1)

def Step.paths (s : Step) : List Path := [s.restored, s.live, backup suffix s.live]

def Far (s t : Step) : Prop := ∀ p ∈ s.paths suffix, ∀ q ∈ t.paths suffix, Apart p q

instance (s t : Step) : Decidable (Far suffix s t) := inferInstanceAs (Decidable (∀ p ∈ _, ∀ q ∈ _, Apart p q))

structure Separate (steps : List Step) (fs : Files) : Prop where
  proper : ∀ s ∈ steps, (s.paths suffix).Pairwise Apart
  far : steps.Pairwise (Far suffix)
  fresh : ∀ s ∈ steps, fs.at (backup suffix s.live) = nothing

def AllOrNothing (steps : List Step) (fs : Files) : Prop :=
  match activateNzbdavBuildArtifact suffix steps fs with
  | (.missing, fs') => fs' = fs
  | (.undone clean, fs') =>
    clean = true → ∀ s ∈ steps, fs'.at s.live = fs.at s.live ∧ fs'.at (backup suffix s.live) = nothing
  | (.activated, fs') => ∀ s ∈ steps, fs'.at s.live = fs.at s.restored

end

/-! ## What each call leaves alone -/

variable {p q : Path}

theorem Apart.symm (h : Apart p q) : Apart q p := ⟨h.2, h.1⟩

theorem Apart.not_append (h : Apart p q) (r : Path) : ¬p <+: q ++ r := by
  intro hpre
  rcases List.prefix_or_prefix_of_prefix hpre (List.prefix_append q r) with hpq | hqp
  · exact h.1 hpq
  · exact h.2 hqp

theorem at_removePath_apart (h : Apart p q) (raises : Option (Path → Bool)) (fs : Files) :
    (removePath p raises fs).1.at q = fs.at q := by
  funext r
  unfold removePath
  split
  · cases raises <;> simp [Files.at, h.not_append r]
  · rfl

def Rooted (f : Files) : Prop := f [] = none → f = nothing

theorem Closed.rooted {fs : Files} (h : Closed fs) (p : Path) : Rooted (fs.at p) := by
  intro hnone
  funext q
  exact h p q (by simpa [Files.at] using hnone)

theorem lexists_iff {p : Path} {fs : Files} : lexists p fs = true ↔ fs.at p [] ≠ none := by
  simp [lexists, Files.at, Option.isSome_iff_ne_none]

theorem at_of_not_lexists {p : Path} {fs : Files} (hrooted : Rooted (fs.at p)) (h : lexists p fs = false) :
    fs.at p = nothing := by
  apply hrooted
  by_contra hne
  rw [lexists_iff.2 hne] at h
  cases h

theorem at_removePath_self {p : Path} {raises : Option (Path → Bool)} {fs : Files} (hrooted : Rooted (fs.at p))
    (h : (removePath p raises fs).2 = true) : (removePath p raises fs).1.at p = nothing := by
  unfold removePath at h ⊢
  cases hthere : lexists p fs with
  | false => exact at_of_not_lexists hrooted hthere
  | true =>
    rw [hthere, if_pos rfl] at h
    cases raises with
    | none => funext r; simp [Files.at, nothing]
    | some keeps => cases h

theorem removePath_absent {p : Path} {fs : Files} (h : fs.at p = nothing) (raises : Option (Path → Bool)) :
    removePath p raises fs = (fs, true) := by
  have habsent : lexists p fs = false := by
    rw [← Bool.not_eq_true, lexists_iff, h]
    simp [nothing]
  unfold removePath
  rw [habsent]
  rfl

theorem at_makedirs (h : ¬q <+: p) (raises : Option Nat) (fs : Files) : (makedirs p raises fs).1.at q = fs.at q := by
  have hnot : ∀ r, ¬q ++ r <+: p := fun r hpre => h ((List.prefix_append q r).trans hpre)
  funext r
  unfold makedirs
  split
  · rfl
  · cases raises <;> simp [Files.at, hnot r]

variable {src dst : Path} {fs fs' : Files}

theorem replace_some {raises : Bool} (h : replace src dst raises fs = some fs') :
    fs' = fun q => if dst <+: q then fs (src ++ q.drop dst.length) else if src <+: q then none else fs q := by
  unfold replace at h
  split at h
  · cases h
  · exact (Option.some.inj h).symm

theorem at_replace_dst {raises : Bool} (h : replace src dst raises fs = some fs') :
    fs'.at dst = fs.at src := by
  funext r
  simp [replace_some h, Files.at]

theorem at_replace_src (happart : Apart src dst) {raises : Bool}
    (h : replace src dst raises fs = some fs') : fs'.at src = nothing := by
  funext r
  simp [replace_some h, Files.at, nothing, happart.symm.not_append r]

theorem at_replace_apart {src dst q : Path} (hsrc : Apart src q) (hdst : Apart dst q) {raises : Bool}
    (h : replace src dst raises fs = some fs') : fs'.at q = fs.at q := by
  funext r
  simp [replace_some h, Files.at, hsrc.not_append r, hdst.not_append r]

/-! ## One pair -/

section
variable {suffix : String}

structure Saved (suffix : String) (before : Files) (record : Step × Bool) (fs : Files) : Prop where
  backup : fs.at (backup suffix record.1.live) = if record.2 then before.at record.1.live else nothing
  absent : record.2 = false → before.at record.1.live = nothing
  rooted : Rooted (fs.at record.1.live)

def Back (suffix : String) (before : Files) (s : Step) (fs : Files) : Prop :=
  fs.at s.live = before.at s.live ∧ fs.at (Activation.backup suffix s.live) = nothing

theorem not_prefix_dirname (h : Apart p q) : ¬p <+: q.dropLast := fun hpre =>
  h.1 (hpre.trans (List.dropLast_prefix q))

theorem Apart.not_prefix_own_dirname (h : Apart p q) : ¬p <+: p.dropLast := by
  intro hpre
  have hlength := hpre.length_le
  rw [List.length_dropLast] at hlength
  have hempty : p = [] := List.length_eq_zero_iff.1 (by omega)
  exact h.1 (hempty ▸ List.nil_prefix)

theorem rooted_nothing : Rooted nothing := fun _ => rfl

theorem apart_paths {s : Step} : (s.paths suffix).Pairwise Apart ↔
    Apart s.restored s.live ∧ Apart s.restored (Activation.backup suffix s.live) ∧ Apart s.live (Activation.backup suffix s.live) := by
  simp [Step.paths, and_assoc]

theorem activateOne_frame {s : Step} {fs : Files} {q : Path} (h : ∀ p ∈ s.paths suffix, Apart p q) :
    (activateOne suffix s fs).1.at q = fs.at q := by
  have hrestored : Apart s.restored q := h _ (by simp [Step.paths])
  have hlive : Apart s.live q := h _ (by simp [Step.paths])
  have hbackup : Apart (backup suffix s.live) q := h _ (by simp [Step.paths])
  have hcleared := at_removePath_apart hbackup s.clearing fs
  unfold activateOne
  cases hclear : removePath (backup suffix s.live) s.clearing fs with
  | mk fs₁ ok₁ =>
    rw [hclear] at hcleared
    cases ok₁ with
    | false => exact hcleared
    | true =>
      have hmade := at_makedirs (not_prefix_dirname hlive.symm) s.parents fs₁
      dsimp only
      cases hmake : makedirs s.live.dropLast s.parents fs₁ with
      | mk fs₂ ok₂ =>
        rw [hmake] at hmade
        cases ok₂ with
        | false => exact hmade.trans hcleared
        | true =>
          dsimp only
          split
          · exact hmade.trans hcleared
          · rename_i moved hmoved
            have hout : moved.at q = fs₂.at q := by
              split at hmoved
              · exact at_replace_apart hlive hbackup hmoved
              · rw [Option.some.inj hmoved]
            cases hmove : replace s.restored s.live s.moving moved with
            | none => exact hout.trans (hmade.trans hcleared)
            | some moved' => exact (at_replace_apart hrestored hlive hmove).trans (hout.trans (hmade.trans hcleared))

theorem activateOne_spec {s : Step} {before fs : Files} (hproper : (s.paths suffix).Pairwise Apart) (hclosed : Closed before)
    (hback : Back suffix before s fs) (hrestored : fs.at s.restored = before.at s.restored) :
    match activateOne suffix s fs with
    | (fs', none, ok) => Back suffix before s fs' ∧ ok = false
    | (fs', some existed, ok) => Saved suffix before (s, existed) fs' ∧ (ok = true → fs'.at s.live = before.at s.restored) := by
  obtain ⟨hrl, hrb, hlb⟩ := apart_paths.1 hproper
  obtain ⟨hlive, hbackup⟩ := hback
  unfold activateOne
  rw [removePath_absent hbackup]
  have hmadeLive := at_makedirs hlb.not_prefix_own_dirname s.parents fs
  have hmadeBackup := at_makedirs (not_prefix_dirname hlb.symm) s.parents fs
  have hmadeRestored := at_makedirs (not_prefix_dirname hrl) s.parents fs
  dsimp only
  cases hmake : makedirs s.live.dropLast s.parents fs with
  | mk made ok =>
    rw [hmake, hlive] at hmadeLive
    rw [hmake, hbackup] at hmadeBackup
    rw [hmake, hrestored] at hmadeRestored
    cases ok with
    | false => exact ⟨⟨hmadeLive, hmadeBackup⟩, rfl⟩
    | true =>
      dsimp only
      cases hexisted : lexists s.live made with
      | false =>
        have habsent : before.at s.live = nothing :=
          hmadeLive ▸ at_of_not_lexists (hmadeLive ▸ hclosed.rooted s.live) hexisted
        simp only [Bool.false_eq_true, if_false]
        cases hmove : replace s.restored s.live s.moving made with
        | none => exact ⟨⟨hmadeBackup, fun _ => habsent, hmadeLive ▸ hclosed.rooted s.live⟩, Bool.false_ne_true.elim⟩
        | some moved =>
          have hmoved : moved.at s.live = before.at s.restored := (at_replace_dst hmove).trans hmadeRestored
          exact ⟨⟨(at_replace_apart hrb hlb hmove).trans hmadeBackup, fun _ => habsent, hmoved ▸ hclosed.rooted s.restored⟩,
            fun _ => hmoved⟩
      | true =>
        simp only [if_true]
        cases hout : replace s.live (backup suffix s.live) s.backing made with
        | none => exact ⟨⟨hmadeLive, hmadeBackup⟩, rfl⟩
        | some aside =>
          have hasideBackup : aside.at (backup suffix s.live) = before.at s.live := (at_replace_dst hout).trans hmadeLive
          have hasideLive : aside.at s.live = nothing := at_replace_src hlb hout
          have hasideRestored : aside.at s.restored = before.at s.restored :=
            (at_replace_apart hrl.symm hrb.symm hout).trans hmadeRestored
          dsimp only
          cases hmove : replace s.restored s.live s.moving aside with
          | none => exact ⟨⟨hasideBackup, Bool.noConfusion, hasideLive ▸ rooted_nothing⟩, Bool.false_ne_true.elim⟩
          | some moved =>
            have hmoved : moved.at s.live = before.at s.restored := (at_replace_dst hmove).trans hasideRestored
            have hsaved : moved.at (Activation.backup suffix s.live) = before.at s.live :=
              (at_replace_apart hrb hlb hmove).trans hasideBackup
            exact ⟨⟨hsaved, Bool.noConfusion, hmoved ▸ hclosed.rooted s.restored⟩, fun _ => hmoved⟩

theorem undoOne_frame {record : Step × Bool} {fs : Files} {q : Path} (h : ∀ p ∈ record.1.paths suffix, Apart p q) :
    (undoOne suffix record fs).1.at q = fs.at q := by
  have hlive : Apart record.1.live q := h _ (by simp [Step.paths])
  have hbackup : Apart (backup suffix record.1.live) q := h _ (by simp [Step.paths])
  have hremoved := at_removePath_apart hlive record.1.undoClearing fs
  unfold undoOne
  cases hremove : removePath record.1.live record.1.undoClearing fs with
  | mk removed ok =>
    rw [hremove] at hremoved
    cases ok with
    | false => exact hremoved
    | true =>
      dsimp only
      split
      · cases hmove : replace (backup suffix record.1.live) record.1.live record.1.undoMoving removed with
        | none => exact hremoved
        | some moved => exact (at_replace_apart hbackup hlive hmove).trans hremoved
      · exact hremoved

theorem undoOne_spec {record : Step × Bool} {before fs : Files} (hproper : (record.1.paths suffix).Pairwise Apart)
    (hclosed : Closed before) (hsaved : Saved suffix before record fs) (hclean : (undoOne suffix record fs).2 = true) :
    Back suffix before record.1 (undoOne suffix record fs).1 := by
  obtain ⟨-, -, hlb⟩ := apart_paths.1 hproper
  have hempty : (removePath record.1.live record.1.undoClearing fs).2 = true →
      (removePath record.1.live record.1.undoClearing fs).1.at record.1.live = nothing := at_removePath_self hsaved.rooted
  have hbackup := at_removePath_apart hlb record.1.undoClearing fs
  unfold undoOne at hclean ⊢
  cases hremove : removePath record.1.live record.1.undoClearing fs with
  | mk removed ok =>
    rw [hremove] at hclean hempty hbackup
    cases ok with
    | false => cases hclean
    | true =>
      have hlive := hempty rfl
      rw [hsaved.backup] at hbackup
      dsimp only at hclean hlive hbackup ⊢
      cases hexisted : record.2 with
      | false =>
        rw [hexisted] at hbackup
        exact ⟨hlive.trans (hsaved.absent hexisted).symm, hbackup⟩
      | true =>
        rw [hexisted, if_pos rfl] at hbackup
        cases hthere : lexists (backup suffix record.1.live) removed with
        | false =>
          have hnone : before.at record.1.live = nothing :=
            hbackup ▸ at_of_not_lexists (hbackup ▸ hclosed.rooted record.1.live) hthere
          exact ⟨hlive.trans hnone.symm, hbackup.trans hnone⟩
        | true =>
          rw [hexisted, hthere] at hclean
          cases hmove : replace (backup suffix record.1.live) record.1.live record.1.undoMoving removed with
          | none =>
            rw [hmove] at hclean
            cases hclean
          | some moved => exact ⟨(at_replace_dst hmove).trans hbackup, at_replace_src hlb.symm hmove⟩

/-! ## All pairs -/

theorem Saved.frame {before fs fs' : Files} {record : Step × Bool} (h : Saved suffix before record fs)
    (hframe : ∀ p ∈ record.1.paths suffix, fs'.at p = fs.at p) : Saved suffix before record fs' := by
  have hlive := hframe record.1.live (by simp [Step.paths])
  have hbackup := hframe (Activation.backup suffix record.1.live) (by simp [Step.paths])
  exact ⟨hbackup.trans h.backup, h.absent, hlive ▸ h.rooted⟩

theorem Back.frame {before fs fs' : Files} {s : Step} (h : Back suffix before s fs)
    (hframe : ∀ p ∈ s.paths suffix, fs'.at p = fs.at p) : Back suffix before s fs' :=
  ⟨(hframe s.live (by simp [Step.paths])).trans h.1, (hframe _ (by simp [Step.paths])).trans h.2⟩

structure Apartness (suffix : String) (all : List Step) : Prop where
  proper : ∀ s ∈ all, (s.paths suffix).Pairwise Apart
  far : ∀ s ∈ all, ∀ t ∈ all, s ≠ t → Far suffix s t

theorem Separate.apartness {steps : List Step} {fs : Files} (h : Separate suffix steps fs) : Apartness suffix steps := by
  refine ⟨h.proper, fun s hs t ht hne => ?_⟩
  have hsymm : Std.Symm (Far suffix) := ⟨fun s t hst p hp q hq => (hst q hq p hp).symm⟩
  exact h.far.forall hs ht hne

theorem Separate.nodup {steps : List Step} {fs : Files} (h : Separate suffix steps fs) : steps.Nodup := by
  apply h.far.imp
  rintro s _ hfar rfl
  exact (hfar s.live (by simp [Step.paths]) s.live (by simp [Step.paths])).1 List.prefix_rfl

variable {all : List Step} {before : Files}

theorem activateAll_spec (hapart : Apartness suffix all) (hclosed : Closed before) {steps : List Step}
    {records : List (Step × Bool)} {fs : Files} (hnodup : (records.map (·.1) ++ steps).Nodup)
    (hall : ∀ s ∈ records.map (·.1) ++ steps, s ∈ all) (hsaved : ∀ record ∈ records, Saved suffix before record fs)
    (hmoved : ∀ record ∈ records, fs.at record.1.live = before.at record.1.restored)
    (hback : ∀ s ∈ steps, Back suffix before s fs) (hrestored : ∀ s ∈ steps, fs.at s.restored = before.at s.restored) :
    let result := activateAll suffix steps records fs
    (∀ record ∈ result.2.1, Saved suffix before record result.1) ∧ (result.2.1.map (·.1)).Nodup ∧
      (∀ record ∈ result.2.1, record.1 ∈ all) ∧
      (∀ s ∈ records.map (·.1) ++ steps, s ∈ result.2.1.map (·.1) ∨ Back suffix before s result.1) ∧
      (result.2.2 = true → ∀ s ∈ records.map (·.1) ++ steps, result.1.at s.live = before.at s.restored) := by
  induction steps generalizing records fs with
  | nil =>
    rw [List.append_nil] at hnodup hall ⊢
    refine ⟨hsaved, hnodup, fun record hr => hall _ (List.mem_map_of_mem hr), fun s hs => .inl hs, fun _ s hs => ?_⟩
    obtain ⟨record, hr, rfl⟩ := List.mem_map.1 hs
    exact hmoved record hr
  | cons s steps ih =>
    have hmine : s ∈ all := hall s (List.mem_append_right _ List.mem_cons_self)
    have hperm : (s :: (records.map (·.1) ++ steps)).Nodup := List.perm_middle.nodup_iff.1 hnodup
    have hframe : ∀ t ∈ records.map (·.1) ++ steps, ∀ p ∈ t.paths suffix, (activateOne suffix s fs).1.at p = fs.at p := by
      intro t ht p hp
      have hne : s ≠ t := fun heq => (List.nodup_cons.1 hperm).1 (heq ▸ ht)
      have htall : t ∈ all := hall t (by simp at ht ⊢; tauto)
      exact activateOne_frame fun q hq => hapart.far s hmine t htall hne q hq p hp
    have hspec := activateOne_spec (hapart.proper s hmine) hclosed (hback s List.mem_cons_self) (hrestored s List.mem_cons_self)
    simp only [activateAll]
    cases hone : activateOne suffix s fs with
    | mk fs' rest =>
      obtain ⟨recorded, ok⟩ := rest
      rw [hone] at hframe hspec
      have hsaved' : ∀ record ∈ records, Saved suffix before record fs' := fun record hr =>
        (hsaved record hr).frame (hframe record.1 (List.mem_append_left _ (List.mem_map_of_mem hr)))
      have hback' : ∀ t ∈ steps, Back suffix before t fs' := fun t ht =>
        (hback t (List.mem_cons_of_mem _ ht)).frame (hframe t (List.mem_append_right _ ht))
      have hdone : (records.map (·.1)).Nodup := (List.nodup_append.1 (List.nodup_cons.1 hperm).2).1
      have hdoneAll : ∀ record ∈ records, record.1 ∈ all := fun record hr =>
        hall record.1 (List.mem_append_left _ (List.mem_map_of_mem hr))
      cases recorded with
      | none =>
        obtain ⟨hself, rfl⟩ := hspec
        refine ⟨hsaved', hdone, hdoneAll, fun t ht => ?_, Bool.false_ne_true.elim⟩
        rcases List.mem_append.1 ht with hr | ht
        · exact .inl hr
        · rcases List.mem_cons.1 ht with rfl | ht
          · exact .inr hself
          · exact .inr (hback' t ht)
      | some existed =>
        obtain ⟨hself, hlive⟩ := hspec
        have hsaved'' : ∀ record ∈ (s, existed) :: records, Saved suffix before record fs' :=
          List.forall_mem_cons.2 ⟨hself, hsaved'⟩
        have hdone' : (((s, existed) :: records).map (·.1)).Nodup :=
          List.nodup_cons.2 ⟨fun hmem => (List.nodup_cons.1 hperm).1 (List.mem_append_left _ hmem), hdone⟩
        cases ok with
        | false =>
          refine ⟨hsaved'', hdone', List.forall_mem_cons.2 ⟨hmine, hdoneAll⟩, fun t ht => ?_, Bool.false_ne_true.elim⟩
          rcases List.mem_append.1 ht with hr | ht
          · exact .inl (List.mem_cons_of_mem _ hr)
          · rcases List.mem_cons.1 ht with rfl | ht
            · exact .inl List.mem_cons_self
            · exact .inr (hback' t ht)
        | true =>
          have hsame : ∀ t, t ∈ records.map (·.1) ++ s :: steps ↔ t ∈ ((s, existed) :: records).map (·.1) ++ steps :=
            fun t => List.perm_middle.mem_iff
          have hmoved' : ∀ record ∈ (s, existed) :: records, fs'.at record.1.live = before.at record.1.restored := by
            intro record hr
            rcases List.mem_cons.1 hr with rfl | hr
            · exact hlive rfl
            have hkept := hframe record.1 (List.mem_append_left _ (List.mem_map_of_mem hr)) record.1.live (by simp [Step.paths])
            exact hkept.trans (hmoved record hr)
          have hrestored' : ∀ t ∈ steps, fs'.at t.restored = before.at t.restored := fun t ht =>
            (hframe t (List.mem_append_right _ ht) t.restored (by simp [Step.paths])).trans
              (hrestored t (List.mem_cons_of_mem _ ht))
          have hrest := @ih ((s, existed) :: records) fs' hperm (fun t ht => hall t ((hsame t).2 ht)) hsaved'' hmoved'
            hback' hrestored'
          simp only [hsame]
          exact hrest

theorem undoAll_spec (hapart : Apartness suffix all) (hclosed : Closed before) {records : List (Step × Bool)} {fs : Files}
    (hnodup : (records.map (·.1)).Nodup) (hall : ∀ record ∈ records, record.1 ∈ all)
    (hsaved : ∀ record ∈ records, Saved suffix before record fs) (hclean : (undoAll suffix records fs).2 = true) :
    (∀ s ∈ records.map (·.1), Back suffix before s (undoAll suffix records fs).1) ∧
      ∀ s ∈ all, s ∉ records.map (·.1) → ∀ p ∈ s.paths suffix, (undoAll suffix records fs).1.at p = fs.at p := by
  induction records generalizing fs with
  | nil => exact ⟨fun s hs => absurd hs List.not_mem_nil, fun _ _ _ _ _ => rfl⟩
  | cons record records ih =>
    simp only [undoAll, Bool.and_eq_true] at hclean ⊢
    rw [List.map_cons, List.nodup_cons] at hnodup
    have hmine := hall record List.mem_cons_self
    have hframe : ∀ s ∈ all, s ≠ record.1 → ∀ p ∈ s.paths suffix, (undoOne suffix record fs).1.at p = fs.at p := by
      intro s hs hne p hp
      exact undoOne_frame fun q hq => hapart.far record.1 hmine s hs (Ne.symm hne) q hq p hp
    have hothers : ∀ other ∈ records, Saved suffix before other (undoOne suffix record fs).1 := by
      intro other hother
      apply (hsaved other (List.mem_cons_of_mem _ hother)).frame
      apply hframe other.1 (hall other (List.mem_cons_of_mem _ hother))
      rintro heq
      exact hnodup.1 (heq ▸ List.mem_map_of_mem hother)
    obtain ⟨hrest, hkept⟩ := ih hnodup.2 (fun other ho => hall other (List.mem_cons_of_mem _ ho)) hothers hclean.2
    have hself : Back suffix before record.1 (undoOne suffix record fs).1 :=
      undoOne_spec (hapart.proper record.1 hmine) hclosed (hsaved record List.mem_cons_self) hclean.1
    constructor
    · intro s hs
      rw [List.map_cons, List.mem_cons] at hs
      rcases hs with rfl | hs
      · exact hself.frame (hkept record.1 hmine hnodup.1)
      · exact hrest s hs
    · intro s hs hnot p hp
      rw [List.map_cons, List.mem_cons, not_or] at hnot
      exact (hkept s hs hnot.2 p hp).trans (hframe s hs hnot.1 p hp)

theorem dropBackups_live (hapart : Apartness suffix all) {records : List (Step × Bool)}
    (hall : ∀ record ∈ records, record.1 ∈ all) {s : Step} (hs : s ∈ all) (fs : Files) : (dropBackups suffix records fs).at s.live = fs.at s.live := by
  induction records with
  | nil => rfl
  | cons record records ih =>
    have hfar : Apart (Activation.backup suffix record.1.live) s.live := by
      have hmine := hall record List.mem_cons_self
      by_cases heq : record.1 = s
      · exact heq ▸ (apart_paths.1 (hapart.proper s hs)).2.2.symm
      · exact hapart.far record.1 hmine s hs heq _ (by simp [Step.paths]) _ (by simp [Step.paths])
    exact (at_removePath_apart hfar record.1.dropping _).trans (ih fun other ho => hall other (List.mem_cons_of_mem _ ho))

end

/-! ## Samples -/

def filesOf (entries : Dict Path Node) : Files := fun p => Dict.get? p entries

theorem closed_filesOf {entries : Dict Path Node} (h : ∀ p ∈ Dict.keys entries, ∀ q ∈ p.inits, q ∈ Dict.keys entries) :
    Closed (filesOf entries) := by
  intro p q hnone
  by_contra hthere
  have hp : p ∈ (p ++ q).inits := (List.mem_inits _ _).2 (List.prefix_append p q)
  exact Dict.mem_keys.1 (h (p ++ q) (Dict.mem_keys.2 hthere) p hp) hnone

def works (restored live : Path) : Step := ⟨restored, live, none, none, false, false, none, false, none⟩

def beside : Files := filesOf [([], .dir), (["new"], .dir), (["app"], .dir)]

def within : Files :=
  filesOf [([], .dir), (["app"], .dir), (["app", "new"], .dir), (["app", "new", "bin"], .file [1]), (["other"], .dir)]

def withinSteps : List Step := [works ["app", "new"] ["web"], { works ["other"] ["app"] with moving := true }]

end Dumb.InfiniDysk.Activation
