import Dumb.Lib.Raise
import Dumb.Symlink.Manifest

/-!
# A restore brings back what was backed up

`Nearer` is what every entry does to the tree: a path is left alone or becomes what it was at the time of the backup.
-/

namespace Dumb.Symlink

open Py Tree

variable {γ : Type} {fs₀ fs₁ fs fs' : Files γ} {cwd : Path}

/-! ## Backup -/

def Recorded (fs : Files γ) (cwd : Path) (e : Entry) : Prop := readlink fs (way cwd e.linkPath) = .ok e.target

variable {linkPath : String}

variable {includeBroken checkTargets : Bool}

theorem recorded_of_link {b : Backup}
    (h : ∀ e ∈ b.entries, Recorded fs cwd e) :
    ∀ e ∈ (backupLink fs cwd includeBroken checkTargets b linkPath).entries, Recorded fs cwd e := by
  intro e he
  unfold backupLink at he
  split at he
  · exact h e he
  · next target hread =>
    dsimp only at he
    generalize (if checkTargets then some (targetExists fs cwd linkPath target) else none) = there at he
    split at he
    · exact h e he
    · rcases List.mem_append.1 he with he | he
      · exact h e he
      · rw [List.mem_singleton.1 he]
        exact hread

theorem recorded_of_links (paths : List String) {b : Backup}
    (h : ∀ e ∈ b.entries, Recorded fs cwd e) :
    ∀ e ∈ (paths.foldl (backupLink fs cwd includeBroken checkTargets) b).entries, Recorded fs cwd e := by
  induction paths generalizing b with
  | nil => exact h
  | cons linkPath paths ih => exact ih (recorded_of_link h)

variable {text : Text}

theorem backup_recorded {defaultRoots : List String} {roots : Option (List String)} {backupPath : String}
    {b : Backup}
    (h : backupSymlinkManifest text defaultRoots fs cwd roots backupPath includeBroken checkTargets = .ok b) :
    ∀ e ∈ b.entries, Recorded fs cwd e := by
  unfold backupSymlinkManifest at h
  dsimp only at h
  split at h
  · cases h
  · split at h
    · cases h
    · cases h
      exact recorded_of_links _ fun e he => absurd he List.not_mem_nil

/-! ## Restore -/

def RestoreReport.Unfailing (r : RestoreReport) : Prop := ∀ e ∈ r.errors, e.2 = .realDirectory

instance RestoreReport.decidableUnfailing (r : RestoreReport) : Decidable r.Unfailing :=
  inferInstanceAs (Decidable (∀ e ∈ r.errors, _))

variable {r : RestoreReport}

theorem not_unfailing {e : Errno} :
    ¬(r.fail linkPath (.os e)).Unfailing := by
  intro h
  have hlast := h (linkPath, .os e) (by simp [RestoreReport.fail])
  cases hlast

/-- A path is left alone or becomes what it was in `fs₀`. -/
def Nearer (fs₀ fs fs' : Files γ) : Prop := ∀ q, fs'.get? q = fs.get? q ∨ fs'.get? q = fs₀.get? q

theorem Nearer.refl : Nearer fs₀ fs fs := fun _ => .inl rfl

theorem Nearer.trans {fs'' : Files γ} (h : Nearer fs₀ fs fs') (h' : Nearer fs₀ fs' fs'') : Nearer fs₀ fs fs'' := by
  intro q
  rcases h' q with heq | heq
  · rw [heq]
    exact h q
  · exact .inr heq

theorem Nearer.agrees (h : Nearer fs₀ fs fs') {q : Path} (hq : fs.get? q = fs₀.get? q) : fs'.get? q = fs₀.get? q :=
  (h q).elim (·.trans hq) id

structure Settled (fs₀ : Files γ) (cwd : Path) (e : Entry) (fs : Files γ) : Prop where
  onWay : ∀ q ∈ trailOf fs₀ (way cwd e.linkPath).dirname, fs.get? q = fs₀.get? q
  parent : isDirAt fs (parentOf fs₀ (way cwd e.linkPath)) = true
  link : ∀ p, place fs₀ (way cwd e.linkPath) = some p → fs.get? p = fs₀.get? p

theorem Settled.mono {e : Entry} (hparent : isDirAt fs₀ (parentOf fs₀ (way cwd e.linkPath)) = true)
    (h : Settled fs₀ cwd e fs) (hnear : Nearer fs₀ fs fs') : Settled fs₀ cwd e fs' where
  onWay q hq := hnear.agrees (h.onWay q hq)
  parent := by
    rcases isDirAt_iff.1 hparent with hroot | hdir
    · exact isDirAt_iff.2 (.inl hroot)
    rcases isDirAt_iff.1 h.parent with hroot | hdir'
    · exact isDirAt_iff.2 (.inl hroot)
    · exact isDirAt_iff.2 (.inr ((hnear.agrees (hdir'.trans hdir.symm)).trans hdir))
  link p hp := hnear.agrees (h.link p hp)

section

variable {e : Entry} {p : Path} (hplace : place fs₀ (way cwd e.linkPath) = some p) (hroot : p ≠ [])
  (hlink : fs₀.get? p = some (.link e.target))

include hplace hroot hlink

theorem parent_of_link : isDirAt fs₀ (parentOf fs₀ (way cwd e.linkPath)) = true :=
  isDirAt_parentOf hplace hroot (parts_ne_nil _) (by simp [hlink]) (fun _ _ => rfl) hplace

theorem Settled.readlink_eq (h : Settled fs₀ cwd e fs) : readlink fs (way cwd e.linkPath) = .ok e.target := by
  have hthere := place_agree hplace hroot (parts_ne_nil _) (by simp [hlink]) h.onWay h.parent
  simp [readlink, lstat_eq hthere hroot, h.link p hplace, hlink]

theorem putLink_settles
    (hmissing : ∀ q ∈ trailOf fs₀ (way cwd e.linkPath).dirname, Missing fs₀ fs q)
    (hfine : (putLink false cwd e.linkPath e.target (fs, r)).2.Unfailing) :
    Nearer fs₀ fs (putLink false cwd e.linkPath e.target (fs, r)).1 ∧
      Settled fs₀ cwd e (putLink false cwd e.linkPath e.target (fs, r)).1 := by
  have hnolink : fs₀.get? p ≠ some .dir := by simp [hlink]
  obtain ⟨-, -, d, -, -, -, hd, -, -⟩ := place_named hplace hroot (parts_ne_nil _) hnolink
  have hmade := makedirs_remade (by simp [hd]) (fun _ hq => hq) hmissing
  unfold putLink at hfine ⊢
  rw [if_neg Bool.false_ne_true] at hfine ⊢
  generalize makedirs (way cwd e.linkPath).dirname fs = made at hmade hfine ⊢
  obtain ⟨outcome, fs'⟩ := made
  cases outcome with
  | error e => exact absurd hfine not_unfailing
  | ok =>
    dsimp only at hmade hfine ⊢
    cases hsym : symlink e.target (way cwd e.linkPath) fs' with
    | error e =>
      rw [hsym] at hfine
      exact absurd hfine not_unfailing
    | ok fs'' =>
      dsimp only
      unfold symlink at hsym
      split at hsym
      · cases hsym
      obtain ⟨p', hp', -, hnone, rfl⟩ := enter_ok hsym
      obtain ⟨rfl, hagree⟩ := place_lacks hplace hroot (parts_ne_nil _) hnolink (fun q hq => (hmade.missing q hq).lacks) hp'
      have hparent := isDirAt_parentOf hplace hroot (parts_ne_nil _) hnolink hagree hp'
      have hself : (Dict.set p' (.link e.target) fs').get? p' = fs₀.get? p' := by rw [Dict.get?_set_self, hlink]
      have hother : ∀ q, q ≠ p' → (Dict.set p' (.link e.target) fs').get? q = fs'.get? q :=
        fun q hq => Dict.get?_set_ne hq ..
      constructor
      · intro q
        by_cases hq : q = p'
        · exact .inr (hq ▸ hself)
        rw [hother q hq]
        rcases hmade.new q with heq | ⟨-, hdir, hdir'⟩
        · exact .inl heq
        · exact .inr (hdir'.trans hdir.symm)
      · constructor
        · intro q hq
          by_cases hqp : q = p'
          · exact hqp ▸ hself
          · rw [hother q hqp]
            exact hagree q hq
        · rcases isDirAt_iff.1 hparent with htop | hdir
          · exact isDirAt_iff.2 (.inl htop)
          · have hne : parentOf fs₀ (way cwd e.linkPath) ≠ p' := by
              intro heq
              rw [heq, hnone] at hdir
              cases hdir
            exact isDirAt_iff.2 (.inr ((hother _ hne).trans hdir))
        · intro q hq
          rw [hplace, Option.some.injEq] at hq
          exact hq ▸ hself

def Entry.Stripped (text : Text) (e : Entry) : Prop :=
  text.strip e.linkPath = e.linkPath ∧ text.strip e.target = e.target ∧ e.target ≠ ""

instance (text : Text) (e : Entry) : Decidable (e.Stripped text) := inferInstanceAs (Decidable (_ ∧ _ ∧ _))

theorem restoreEntry_settles (hstripped : e.Stripped text)
    (hmissing : ∀ q ∈ trailOf fs₀ (way cwd e.linkPath).dirname, Missing fs₀ fs q) (hdir : fs.get? p ≠ some .dir)
    (hfine : (restoreEntry text ⟨false, true, true⟩ cwd (fs, r) e).2.Unfailing) :
    Nearer fs₀ fs (restoreEntry text ⟨false, true, true⟩ cwd (fs, r) e).1 ∧
      Settled fs₀ cwd e (restoreEntry text ⟨false, true, true⟩ cwd (fs, r) e).1 := by
  have hnolink : fs₀.get? p ≠ some .dir := by simp [hlink]
  obtain ⟨hpath, htarget, htarget'⟩ := hstripped
  have hpath' : e.linkPath ≠ "" := by
    intro hempty
    obtain ⟨init, name, -, hparts, hdot, -⟩ := place_named hplace hroot (parts_ne_nil _) hnolink
    rw [way, hempty, show parts "" = [] ++ ["."] by decide] at hparts
    exact hdot (List.singleton_inj.1 (List.append_inj' hparts rfl).2).symm
  unfold restoreEntry at hfine ⊢
  simp only [hpath, htarget, hpath', htarget', or_self, if_false, Bool.not_true, Bool.false_and, Bool.false_eq_true] at hfine ⊢
  by_cases hthere : lexists fs (way cwd e.linkPath) = true
  · simp only [hthere, if_true] at hfine ⊢
    obtain ⟨node, hstat⟩ := Option.isSome_iff_exists.1 hthere
    obtain ⟨p', hp', -⟩ := Option.bind_eq_some_iff.1 hstat
    obtain ⟨rfl, hagree⟩ := place_lacks hplace hroot (parts_ne_nil _) hnolink (fun q hq => (hmissing q hq).lacks) hp'
    rw [lstat_eq hp' hroot] at hstat
    by_cases hsame : readlink fs (way cwd e.linkPath) = .ok e.target
    · simp only [hsame, if_true]
      have hback : fs.get? p' = fs₀.get? p' := by
        obtain ⟨p, hp, -, hget⟩ := readlink_ok hsame
        rw [hp', Option.some.injEq] at hp
        rw [hp, hget, ← hp, hlink]
      refine ⟨.refl, hagree, isDirAt_parentOf hplace hroot (parts_ne_nil _) hnolink hagree hp', fun q hq => ?_⟩
      rw [hplace, Option.some.injEq] at hq
      exact hq ▸ hback
    · simp only [hsame, if_false] at hfine ⊢
      have hoff : p' ∉ trailOf fs₀ (way cwd e.linkPath).dirname := by
        intro hon
        apply hsame
        simp [readlink, lstat_eq hp' hroot, hagree p' hon, hlink]
      have hnodir : (isdir fs (way cwd e.linkPath) && !islink fs (way cwd e.linkPath)) = false := by
        rw [Bool.eq_false_iff]
        intro hreal
        obtain ⟨hisdir, hislink⟩ := Bool.and_eq_true_iff.1 hreal
        have hstat' := lstat_of_isdir hisdir (by simpa using hislink) hthere (parts_ne_nil _)
        rw [lstat_eq hp' hroot] at hstat'
        exact hdir hstat'
      rw [if_neg (Bool.eq_false_iff.1 hnodir)] at hfine ⊢
      cases hun : unlink (way cwd e.linkPath) fs with
      | error e =>
        rw [hun] at hfine
        exact absurd hfine not_unfailing
      | ok fs' =>
        rw [hun] at hfine
        obtain ⟨p, hp, -, -, -, rfl⟩ := unlink_ok hun
        rw [hp', Option.some.injEq] at hp
        subst hp
        have hgone : ∀ q, q ≠ p' → (Dict.erase p' fs).get? q = fs.get? q :=
          fun q hq => by rw [Dict.get?_erase, if_neg hq]
        have hmissing' : ∀ q ∈ trailOf fs₀ (way cwd e.linkPath).dirname, Missing fs₀ (Dict.erase p' fs) q := by
          intro q hq
          rw [Missing, hgone q fun heq => hoff (heq ▸ hq)]
          exact hmissing q hq
        obtain ⟨hnear, hsettled⟩ := putLink_settles hplace hroot hlink hmissing' hfine
        refine ⟨fun q => ?_, hsettled⟩
        by_cases hq : q = p'
        · exact .inr (hq ▸ hsettled.link p' hplace)
        · rw [← hgone q hq]
          exact hnear q
  · simp only [hthere, Bool.false_eq_true, if_false] at hfine ⊢
    exact putLink_settles hplace hroot hlink hmissing hfine

end

/-! ## The whole manifest -/

theorem RestoreReport.Unfailing.of_fail {f : Failure}
    (h : (r.fail linkPath f).Unfailing) : r.Unfailing := fun e he => h e (List.mem_append_left _ he)

variable {s : Restore γ}

theorem unfailing_of_putLink {dryRun : Bool} {linkPath target : String}
    (h : (putLink dryRun cwd linkPath target s).2.Unfailing) : s.2.Unfailing := by
  unfold putLink at h
  split at h
  · exact h
  · split at h
    · exact h.of_fail
    · split at h
      · exact h.of_fail
      · exact h

theorem unfailing_of_entry {options : RestoreOptions} {e : Entry}
    (h : (restoreEntry text options cwd s e).2.Unfailing) : s.2.Unfailing := by
  simp only [restoreEntry] at h
  split at h
  · exact h
  split at h
  · exact h
  split at h
  · split at h
    · exact h
    split at h
    · exact h
    split at h
    · exact h.of_fail
    split at h
    · exact unfailing_of_putLink h
    split at h
    · exact h.of_fail
    · have hbefore := unfailing_of_putLink h
      exact hbefore
  · exact unfailing_of_putLink h

def places (fs : Files γ) (cwd : Path) (entries : List Entry) : List Path :=
  entries.filterMap fun e => place fs (way cwd e.linkPath)

theorem place_mem_places {entries : List Entry} {e : Entry} {p : Path} (he : e ∈ entries)
    (hp : place fs (way cwd e.linkPath) = some p) : p ∈ places fs cwd entries := List.mem_filterMap.2 ⟨e, he, hp⟩

structure Altered (fs₀ : Files γ) (cwd : Path) (entries : List Entry) (fs₁ : Files γ) : Prop where
  elsewhere : ∀ q, q ∉ places fs₀ cwd entries → Missing fs₀ fs₁ q
  noDir : ∀ q ∈ places fs₀ cwd entries, fs₁.get? q ≠ some .dir

def Clear (fs₀ : Files γ) (cwd : Path) (fs₁ : Files γ) : List Entry → Prop
  | [] => True
  | e :: entries =>
    (∀ q ∈ trailOf fs₀ (way cwd e.linkPath).dirname, q ∈ places fs₀ cwd (e :: entries) → fs₁.get? q = fs₀.get? q) ∧
      Clear fs₀ cwd fs₁ entries

theorem restore_settles (before entries : List Entry)
    (hrecorded : ∀ e ∈ before ++ entries, Recorded fs₀ cwd e) (hstripped : ∀ e ∈ entries, e.Stripped text)
    (halt : Altered fs₀ cwd (before ++ entries) fs₁) (hclear : Clear fs₀ cwd fs₁ entries) (hnear : Nearer fs₀ fs₁ s.1)
    (hbefore : ∀ e ∈ before, Settled fs₀ cwd e s.1)
    (hfine : (entries.foldl (restoreEntry text ⟨false, true, true⟩ cwd) s).2.Unfailing) :
    Nearer fs₀ fs₁ (entries.foldl (restoreEntry text ⟨false, true, true⟩ cwd) s).1 ∧
      ∀ e ∈ before ++ entries, Settled fs₀ cwd e (entries.foldl (restoreEntry text ⟨false, true, true⟩ cwd) s).1 := by
  induction entries generalizing before s with
  | nil => exact ⟨hnear, by simpa using hbefore⟩
  | cons e entries ih =>
    obtain ⟨fs, r⟩ := s
    rw [List.foldl_cons] at hfine ⊢
    have hstep := (along_of_foldl (F := fun s : Restore γ => s.2.Unfailing) (fun _ _ => unfailing_of_entry) hfine).1
    obtain ⟨p, hp, hroot, hlink⟩ := readlink_ok (hrecorded e (by simp))
    have hmissing : ∀ q ∈ trailOf fs₀ (way cwd e.linkPath).dirname, Missing fs₀ fs q := by
      intro q hq
      by_cases hlisted : q ∈ places fs₀ cwd (before ++ e :: entries)
      · obtain ⟨e', he', hq'⟩ := List.mem_filterMap.1 hlisted
        rcases List.mem_append.1 he' with he' | he'
        · exact .inl ((hbefore e' he').link q hq')
        · exact .inl (hnear.agrees (hclear.1 q hq (place_mem_places he' hq')))
      · rcases hnear q with heq | heq
        · rw [Missing, heq]
          exact halt.elsewhere q hlisted
        · exact .inl heq
    have hdir : fs.get? p ≠ some .dir := by
      rcases hnear p with heq | heq
      · rw [heq]
        exact halt.noDir p (place_mem_places (by simp) hp)
      · rw [heq, hlink]
        simp
    obtain ⟨hnear', hsettled⟩ := restoreEntry_settles hp hroot hlink (hstripped e List.mem_cons_self) hmissing hdir hstep
    rw [List.append_cons] at hrecorded halt ⊢
    apply ih (before ++ [e]) hrecorded (fun e' he' => hstripped e' (List.mem_cons_of_mem _ he')) halt hclear.2 (hnear.trans hnear') _ hfine
    intro e' he'
    rcases List.mem_append.1 he' with he' | he'
    · obtain ⟨p', hp', hroot', hlink'⟩ := readlink_ok (hrecorded e' (by simp [he']))
      exact (hbefore e' he').mono (parent_of_link hp' hroot' hlink') hnear'
    · rw [List.mem_singleton.1 he']
      exact hsettled

end Dumb.Symlink
