import Dumb.Lib.Raise
import Dumb.Symlink.Repair

/-!
# What one step of a repair does

A step takes away only the places that it goes through with, and a link of which nothing is taken away is where it was.
-/

namespace Dumb.Symlink

open Py Tree

variable {γ : Type} {options : RepairOptions} {rules : List RewriteRule} {cwd : Path} {s : Repair γ} {m : Move}

/-! ## Failures -/

def RepairFailure.isOs : RepairFailure → Bool
  | .realDirectory .. => false
  | _ => true

def Repair.Unfailing (s : Repair γ) : Prop := ∀ f ∈ s.errors, f.isOs = false

instance Repair.decidableUnfailing (s : Repair γ) : Decidable s.Unfailing := inferInstanceAs (Decidable (∀ f ∈ s.errors, _))

theorem Repair.Unfailing.of_fail {f : RepairFailure} (h : (s.fail f).Unfailing) : s.Unfailing ∧ f.isOs = false :=
  ⟨fun f hf => h f (List.mem_append_left _ hf), h f (by simp [Repair.fail])⟩

@[simp] theorem counted_unfailing : (s.counted options).Unfailing ↔ s.Unfailing := by
  unfold Repair.counted
  split <;> rfl

@[simp] theorem counted_tree : (s.counted options).tree = s.tree := by
  unfold Repair.counted
  split <;> rfl

@[simp] theorem counted_moves : (s.counted options).moves = s.moves := by
  unfold Repair.counted
  split <;> rfl

@[simp] theorem counted_backup : (s.counted options).backup = s.backup := by
  unfold Repair.counted
  split <;> rfl

def rewriting (options : RepairOptions) (rules : List RewriteRule) (cwd : Path) (fs : Files γ) (linkPath : String) :
    Option (Path × String) :=
  match readlink fs (way cwd linkPath) with
  | .error _ => none
  | .ok old =>
    match rewriteTarget old rules with
    | (_, none) => none
    | (new, some _) =>
      if old = new || !options.includeBroken && !targetExists fs cwd linkPath old then none
      else (place fs (way cwd linkPath)).map fun p => (p, new)

theorem rewriteLink_step (hdry : options.dryRun = false) {linkPath : String}
    (hfine : (s.rewriteLink options rules cwd linkPath).Unfailing) :
    s.Unfailing ∧ (s.rewriteLink options rules cwd linkPath).moves = s.moves ∧
      (∀ r ∈ s.backup, r ∈ (s.rewriteLink options rules cwd linkPath).backup) ∧
      ((s.rewriteLink options rules cwd linkPath).tree = s.tree ∨
        ∃ p old new, rewriting options rules cwd s.tree linkPath = some (p, new) ∧ p ≠ [] ∧
          s.tree.get? p = some (.link old) ∧
          (s.rewriteLink options rules cwd linkPath).tree = (s.tree.erase p).set p (.link new)) := by
  unfold Repair.rewriteLink at hfine ⊢
  unfold rewriting
  dsimp only at hfine ⊢
  cases hread : readlink s.tree (way cwd linkPath) with
  | error e =>
    simp only [hread] at hfine ⊢
    exact ⟨hfine.of_fail.1, rfl, fun _ hr => hr, .inl rfl⟩
  | ok old =>
    obtain ⟨p, hp, hroot, hget⟩ := readlink_ok hread
    rcases hrule : rewriteTarget old rules with ⟨new, _ | rule⟩
    · simp only [hread, hrule] at hfine ⊢
      exact ⟨hfine, trivial, fun _ hr => hr, .inl trivial⟩
    simp only [hread, hrule] at hfine ⊢
    by_cases hsame : old = new
    · simp only [hsame, if_true] at hfine ⊢
      exact ⟨hfine, trivial, fun _ hr => hr, .inl trivial⟩
    by_cases hbroken : (!options.includeBroken && !targetExists s.tree cwd linkPath old) = true
    · simp only [hsame, hbroken, if_true, if_false] at hfine ⊢
      exact ⟨hfine, trivial, fun _ hr => hr, .inl trivial⟩
    simp only [hsame, hbroken, hdry, if_false, Bool.false_eq_true, decide_false, Bool.or_self, hp, Option.map_some] at hfine ⊢
    cases hunlink : unlink (way cwd linkPath) s.tree with
    | error e =>
      simp only [Repair.recordChange, hunlink] at hfine
      exact absurd hfine.of_fail.2 (by simp [RepairFailure.isOs])
    | ok fs =>
      simp only [Repair.recordChange, hunlink] at hfine ⊢
      obtain ⟨p', hp', -, -, -, rfl⟩ := unlink_ok hunlink
      obtain rfl : p = p' := Option.some.inj (hp.symm.trans hp')
      cases hsym : symlink new (way cwd linkPath) (s.tree.erase p) with
      | error e =>
        simp only [hsym] at hfine
        exact absurd hfine.of_fail.2 (by simp [RepairFailure.isOs])
      | ok fs =>
        simp only [hsym] at hfine ⊢
        unfold symlink at hsym
        split at hsym
        · cases hsym
        obtain ⟨q, hq, -, -, rfl⟩ := enter_ok hsym
        obtain ⟨rfl, -⟩ := place_lacks hp hroot (parts_ne_nil _) (by simp [hget]) (fun q _ => lacks_erase s.tree p q) hq
        exact ⟨hfine, trivial, fun _ hr => List.mem_append_left _ hr, .inr ⟨q, old, new, rfl, hroot, hget, rfl⟩⟩

/-! ## Moving -/

abbrev Goes (options : RepairOptions) (cwd : Path) (fs : Files γ) (m : Move) : Prop :=
  islink fs (way cwd m.sourcePath) = true ∧ (lexists fs (way cwd m.targetPath) = true →
    options.overwriteExisting = true ∧ (isdir fs (way cwd m.targetPath) && !islink fs (way cwd m.targetPath)) = false)

def cleared (cwd : Path) (fs : Files γ) (m : Move) : Files γ :=
  match unlink (way cwd m.targetPath) fs with
  | .ok fs => fs
  | .error _ => fs

def readied (cwd : Path) (fs : Files γ) (m : Move) : Files γ :=
  (makedirs (way cwd m.targetPath).dirname (cleared cwd fs m)).2

def occupied (fs : Files γ) (w : Way) : List Path := if lexists fs w then (place fs w).toList else []

def victims (options : RepairOptions) (cwd : Path) (fs : Files γ) (m : Move) : List Path :=
  occupied fs (way cwd m.targetPath) ++ occupied (readied cwd fs m) (way cwd m.targetPath) ++
    if options.copyInsteadOfMove then [] else (place fs (way cwd m.sourcePath)).toList

structure Put (options : RepairOptions) (cwd : Path) (fs : Files γ) (m : Move) (target : String) (fs' : Files γ) :
    Prop where
  source : readlink fs (way cwd m.sourcePath) = .ok target
  spares : Spares (victims options cwd fs m) fs fs'
  noDir : ∀ q ∈ victims options cwd fs m, fs.get? q ≠ some .dir
  there : options.copyInsteadOfMove = false →
    (∀ q ∈ victims options cwd fs m, q ∉ trailOf (readied cwd fs m) (way cwd m.targetPath).dirname) →
      readlink fs' (way cwd m.targetPath) = .ok target

variable {w : Way}

theorem islink_readlink {fs : Files γ} (h : islink fs w = true) : ∃ text, readlink fs w = .ok text := by
  unfold islink at h
  unfold readlink
  cases hstat : lstat fs w with
  | none => simp [hstat] at h
  | some node => cases node <;> simp [hstat] at h ⊢

theorem unlink_occupied {fs fs' : Files γ} (h : unlink w fs = .ok fs') :
    Spares (occupied fs w) fs fs' ∧ (∀ q, Lacks fs fs' q) ∧ ∀ q ∈ occupied fs w, fs.get? q ≠ some .dir := by
  obtain ⟨p, hp, hroot, hsome, hdir, rfl⟩ := unlink_ok h
  have hthere : lexists fs w = true := by
    rw [lexists, lstat_eq hp hroot]
    exact Option.isSome_iff_ne_none.2 hsome
  have hocc : occupied fs w = [p] := by simp [occupied, hthere, hp]
  rw [hocc]
  exact ⟨spares_erase fs p, lacks_erase fs p, by simpa using hdir⟩

theorem unlink_absent {fs : Files γ} (h : ¬lexists fs w = true) : unlink w fs = .error .noent := by
  rw [lexists, Bool.not_eq_true, Option.isSome_eq_false_iff, Option.isNone_iff_eq_none] at h
  unfold unlink
  rw [h]
  cases place fs w <;> rfl

theorem occupied_free {fs : Files γ} {p : Path} (hp : place fs w = some p) (hroot : p ≠ [])
    (hnone : fs.get? p = none) : occupied fs w = [] := by
  have hstat : lexists fs w = false := by simp [lexists, lstat_eq hp hroot, hnone]
  simp [occupied, hstat]

theorem mem_occupied {fs : Files γ} {p : Path} (hp : place fs w = some p) (hroot : p ≠ [])
    (hsome : fs.get? p ≠ none) : p ∈ occupied fs w := by
  have hstat : lexists fs w = true := by
    rw [lexists, lstat_eq hp hroot]
    exact Option.isSome_iff_ne_none.2 hsome
  simp [occupied, hstat, hp]

theorem place_of_mem_occupied {fs : Files γ} {p : Path} (h : p ∈ occupied fs w) : place fs w = some p := by
  unfold occupied at h
  split at h
  · simpa using h
  · exact absurd h List.not_mem_nil

section

variable {fs fs' : Files γ} {text : String} (hsource : readlink fs (way cwd m.sourcePath) = .ok text)
  (hspares : Spares (occupied fs (way cwd m.targetPath)) fs (readied cwd fs m))
  (hdir : ∀ q ∈ occupied fs (way cwd m.targetPath), fs.get? q ≠ some .dir)

include hsource hspares hdir

theorem symlink_put (hcopy : options.copyInsteadOfMove = true)
    (h : symlink text (way cwd m.targetPath) (readied cwd fs m) = .ok fs') : Put options cwd fs m text fs' := by
  unfold symlink at h
  split at h
  · cases h
  obtain ⟨q, hq, hroot, hnone, rfl⟩ := enter_ok h
  have hvictims : victims options cwd fs m = occupied fs (way cwd m.targetPath) := by
    simp [victims, hcopy, occupied_free hq hroot hnone]
  constructor
  · exact hsource
  · rw [hvictims]
    apply (hspares.trans (spares_new hnone _)).mono
    simp
  · rwa [hvictims]
  · simp [hcopy]

theorem rename_put (hcopy : options.copyInsteadOfMove = false)
    (hsource' : readlink (readied cwd fs m) (way cwd m.sourcePath) = .ok text)
    (hplace : place (readied cwd fs m) (way cwd m.sourcePath) = place fs (way cwd m.sourcePath))
    (h : rename (way cwd m.sourcePath) (way cwd m.targetPath) (readied cwd fs m) = .ok fs') :
    Put options cwd fs m text fs' := by
  obtain ⟨p, q, hp, hq, hroot, hroot', hlink, hnodir, hfs'⟩ := rename_ok hsource' h
  have hp₀ : place fs (way cwd m.sourcePath) = some p := hplace.symm.trans hp
  have hlink₀ : fs.get? p = some (.link text) := by
    obtain ⟨p', hp', -, hget⟩ := readlink_ok hsource
    rw [hp₀, Option.some.injEq] at hp'
    rw [hp', hget]
  have hthere : fs'.get? q = some (.link text) := by
    rcases hfs' with ⟨rfl, rfl⟩ | ⟨-, rfl⟩
    · exact hlink
    · exact Dict.get?_set_self ..
  have hgone : Spares (occupied (readied cwd fs m) (way cwd m.targetPath) ++ [p]) (readied cwd fs m) fs' := by
    rcases hfs' with ⟨-, rfl⟩ | ⟨-, rfl⟩
    · exact (Spares.refl _).mono fun q hq => absurd hq List.not_mem_nil
    · intro x hx hsome
      obtain ⟨hocc, hxp⟩ := not_or.1 (mt List.mem_append.2 hx)
      have hxq : x ≠ q := by
        rintro rfl
        exact hocc (mem_occupied hq hroot' hsome)
      rw [Dict.get?_set_ne hxq, Dict.get?_erase, if_neg (mt List.mem_singleton.2 hxp)]
  have hvictims : victims options cwd fs m = occupied fs (way cwd m.targetPath) ++
      (occupied (readied cwd fs m) (way cwd m.targetPath) ++ [p]) := by
    simp [victims, hcopy, hp₀]
  have hgoneDir : ∀ x ∈ occupied (readied cwd fs m) (way cwd m.targetPath) ++ [p],
      (readied cwd fs m).get? x ≠ some .dir := by
    intro x hx
    rcases List.mem_append.1 hx with hx | hx
    · have hxq := place_of_mem_occupied hx
      rw [hq, Option.some.injEq] at hxq
      exact hxq ▸ hnodir
    · simp [List.mem_singleton.1 hx, hlink]
  constructor
  · exact hsource
  · rw [hvictims]
    exact hspares.trans hgone
  · intro x hx hxdir
    rw [hvictims] at hx
    have hxocc : x ∉ occupied fs (way cwd m.targetPath) := fun hocc => hdir x hocc hxdir
    have hxgone := (List.mem_append.1 hx).resolve_left hxocc
    apply hgoneDir x hxgone
    rw [hspares x hxocc (by simp [hxdir]), hxdir]
  · intro _ hoff
    have hend : place fs' (way cwd m.targetPath) = some q := by
      apply place_spares hq hroot' (parts_ne_nil _) hnodir hgone hgoneDir
      intro x hx hxgone
      apply hoff x _ hx
      rw [hvictims]
      exact List.mem_append_right _ hxgone
    exact readlink_of_place hend hroot' hthere

end

theorem transfer_put (hdry : options.dryRun = false) {fs : Files γ} {text : String}
    (hclear : s.tree = cleared cwd fs m) (hspares : Spares (occupied fs (way cwd m.targetPath)) fs s.tree)
    (hlacks : ∀ q, Lacks fs s.tree q) (hdir : ∀ q ∈ occupied fs (way cwd m.targetPath), fs.get? q ≠ some .dir)
    (hsource : readlink fs (way cwd m.sourcePath) = .ok text) (hfine : (s.transfer options cwd m).Unfailing) :
    s.Unfailing ∧ (s.transfer options cwd m).moves = s.moves ++ [⟨m, Repair.operation options⟩] ∧
      (s.transfer options cwd m).backup =
        s.backup ++ [.move m.sourcePath m.targetPath text (Repair.operation options)] ∧
      Put options cwd fs m text (s.transfer options cwd m).tree := by
  unfold Repair.transfer at hfine ⊢
  simp only [Repair.recordMove, Repair.recordBackup, hdry, Bool.false_eq_true, if_false] at hfine ⊢
  obtain ⟨p, hp, hroot, hget⟩ := readlink_ok hsource
  cases hread : readlink s.tree (way cwd m.sourcePath) with
  | error e =>
    simp only [hread] at hfine
    exact absurd hfine.of_fail.2 (by simp [RepairFailure.isOs])
  | ok target =>
    obtain ⟨p', hp', -, hget'⟩ := readlink_ok hread
    obtain ⟨rfl, -⟩ := place_lacks hp hroot (parts_ne_nil _) (by simp [hget]) (fun q _ => hlacks q) hp'
    obtain rfl : target = text := by
      have hsame := (hlacks p').of_some (by simp [hget'])
      rw [hget', hget, Option.some.injEq, Node.link.injEq] at hsame
      exact hsame
    simp only [hread] at hfine ⊢
    have hgrown := (makedirs_grown (way cwd m.targetPath).dirname s.tree).spares
    have hready : (makedirs (way cwd m.targetPath).dirname s.tree).2 = readied cwd fs m := by rw [readied, ← hclear]
    have hread' := readlink_spares hread (parts_ne_nil _) hgrown (fun _ h => absurd h List.not_mem_nil)
      (fun _ _ => List.not_mem_nil)
    have hplace := place_spares hp' hroot (parts_ne_nil _) (by simp [hget']) hgrown (fun _ h => absurd h List.not_mem_nil)
      (fun _ _ => List.not_mem_nil)
    have hspares' := hspares.trans hgrown
    rcases hmade : makedirs (way cwd m.targetPath).dirname s.tree with ⟨e | ⟨⟩, fs'⟩
    · simp only [hmade] at hfine
      exact absurd hfine.of_fail.2 (by simp [RepairFailure.isOs])
    rw [hmade] at hready hread' hspares' hplace
    simp only [hmade] at hfine ⊢
    dsimp only at hready hread' hspares' hplace
    subst hready
    rw [List.append_nil] at hspares'
    cases hmove : (if options.copyInsteadOfMove then symlink target (way cwd m.targetPath) (readied cwd fs m)
        else rename (way cwd m.sourcePath) (way cwd m.targetPath) (readied cwd fs m)) with
    | error e =>
      rw [hmove] at hfine
      exact absurd hfine.of_fail.2 (by simp [RepairFailure.isOs])
    | ok fs'' =>
      rw [hmove] at hfine
      simp only [counted_unfailing, counted_tree, counted_moves, counted_backup] at hfine ⊢
      refine ⟨hfine, trivial, trivial, ?_⟩
      cases hcopy : options.copyInsteadOfMove with
      | true =>
        rw [hcopy, if_pos rfl] at hmove
        exact symlink_put hsource hspares' hdir hcopy hmove
      | false =>
        rw [hcopy, if_neg Bool.false_ne_true] at hmove
        exact rename_put hsource hspares' hdir hcopy hread' (hplace.trans hp.symm) hmove

theorem moveLink_step (hdry : options.dryRun = false) (hfine : (s.moveLink options cwd m).Unfailing) :
    s.Unfailing ∧
      (¬Goes options cwd s.tree m ∧ (s.moveLink options cwd m).tree = s.tree ∧
          (s.moveLink options cwd m).moves = s.moves ∧ (s.moveLink options cwd m).backup = s.backup ∨
        Goes options cwd s.tree m ∧ ∃ text,
          (s.moveLink options cwd m).moves = s.moves ++ [⟨m, Repair.operation options⟩] ∧
          (s.moveLink options cwd m).backup =
            s.backup ++ [.move m.sourcePath m.targetPath text (Repair.operation options)] ∧
          Put options cwd s.tree m text (s.moveLink options cwd m).tree) := by
  unfold Repair.moveLink at hfine ⊢
  dsimp only at hfine ⊢
  by_cases hsource : (!lexists s.tree (way cwd m.sourcePath) || !islink s.tree (way cwd m.sourcePath)) = true
  · rw [if_pos hsource] at hfine ⊢
    refine ⟨hfine, .inl ⟨fun hgoes => ?_, rfl, rfl, rfl⟩⟩
    obtain ⟨text, hread⟩ := islink_readlink hgoes.1
    obtain ⟨p, hp, hroot, hget⟩ := readlink_ok hread
    simp [hgoes.1, lexists, lstat_eq hp hroot, hget] at hsource
  rw [if_neg hsource] at hfine ⊢
  simp only [Bool.or_eq_true, Bool.not_eq_true', not_or, Bool.not_eq_false] at hsource
  obtain ⟨text, hread⟩ := islink_readlink hsource.2
  by_cases hdst : lexists s.tree (way cwd m.targetPath) = true
  · rw [if_pos hdst] at hfine ⊢
    by_cases hover : (!options.overwriteExisting) = true
    · rw [if_pos hover] at hfine ⊢
      refine ⟨hfine, .inl ⟨fun hgoes => ?_, rfl, rfl, rfl⟩⟩
      simp [(hgoes.2 hdst).1] at hover
    rw [if_neg hover] at hfine ⊢
    by_cases hreal : (isdir s.tree (way cwd m.targetPath) && !islink s.tree (way cwd m.targetPath)) = true
    · rw [if_pos hreal] at hfine ⊢
      refine ⟨hfine.of_fail.1, .inl ⟨fun hgoes => ?_, rfl, rfl, rfl⟩⟩
      rw [(hgoes.2 hdst).2] at hreal
      cases hreal
    simp only [if_neg hreal, hdry, Bool.false_eq_true, if_false] at hfine ⊢
    cases hunlink : unlink (way cwd m.targetPath) s.tree with
    | error e =>
      rw [hunlink] at hfine
      exact absurd hfine.of_fail.2 (by simp [RepairFailure.isOs])
    | ok fs =>
      rw [hunlink] at hfine
      obtain ⟨hspares, hlacks, hdir⟩ := unlink_occupied hunlink
      have hclear : fs = cleared cwd s.tree m := by rw [cleared, hunlink]
      obtain ⟨hbefore, hmoves, hbackup, hput⟩ :=
        transfer_put hdry (s := { s with tree := fs }) hclear hspares hlacks hdir hread hfine
      refine ⟨hbefore, .inr ⟨⟨hsource.2, fun _ => ⟨by simpa using hover, by simpa using hreal⟩⟩, text, hmoves, hbackup, hput⟩⟩
  · rw [if_neg hdst] at hfine ⊢
    have hclear : s.tree = cleared cwd s.tree m := by rw [cleared, unlink_absent hdst]
    have hocc : occupied s.tree (way cwd m.targetPath) = [] := by simp [occupied, hdst]
    obtain ⟨hbefore, hmoves, hbackup, hput⟩ := transfer_put hdry hclear
      (by rw [hocc]; exact Spares.refl s.tree) (fun _ => .inl rfl) (by simp [hocc]) hread hfine
    exact ⟨hbefore, .inr ⟨⟨hsource.2, fun h => absurd h hdst⟩, text, hmoves, hbackup, hput⟩⟩

end Dumb.Symlink
