import Dumb.Symlink.Lemmas.Repair

/-!
# A preview and a dry run count alike

A dry run leaves the tree alone, so both put every entry into one of six counts by the same tree. They differ where the
link path is a directory that would be overwritten.
-/

namespace Dumb.Symlink

open Py Tree

variable {γ : Type} {text : Text} {options : PreviewOptions} {fs : Files γ} {cwd : Path}

structure Counts where
  restored : Nat
  skippedExisting : Nat
  skippedUnchanged : Nat
  skippedInvalidEntries : Nat
  skippedNonexistentTarget : Nat
  errors : Nat
  deriving DecidableEq

def Counts.total (c : Counts) : Nat :=
  c.restored + c.skippedExisting + c.skippedUnchanged + c.skippedInvalidEntries + c.skippedNonexistentTarget + c.errors

def RestoreReport.counts (r : RestoreReport) : Counts :=
  ⟨r.restored, r.skippedExisting, r.skippedUnchanged, r.skippedInvalidEntries, r.skippedNonexistentTarget, r.errors.length⟩

def PreviewReport.counts (r : PreviewReport) : Counts :=
  ⟨r.projectedRestored, r.projectedSkippedExisting, r.projectedSkippedUnchanged, r.projectedSkippedInvalidEntries,
    r.projectedSkippedNonexistentTarget, r.projectedErrors⟩

@[simp] theorem counts_sample (limit : Int) (change : Sample) (r : PreviewReport) :
    (PreviewReport.sample limit change r).counts = r.counts := by
  unfold PreviewReport.sample
  split <;> rfl

def PreviewOptions.dryRun (o : PreviewOptions) : RestoreOptions := ⟨true, o.overwriteExisting, o.restoreBroken⟩

def RealDirectory (text : Text) (restoreBroken : Bool) (fs : Files γ) (cwd : Path) (entry : Entry) : Prop :=
  let linkPath := text.strip entry.linkPath
  let target := text.strip entry.target
  linkPath ≠ "" ∧ target ≠ "" ∧ (restoreBroken ∨ targetExists fs cwd linkPath target) ∧
    lexists fs (way cwd linkPath) ∧ isdir fs (way cwd linkPath) ∧ !islink fs (way cwd linkPath)

/-! ## One entry -/

theorem dryRun_tree (s : Restore γ) (entry : Entry) : (restoreEntry text options.dryRun cwd s entry).1 = s.1 := by
  simp only [restoreEntry, putLink, PreviewOptions.dryRun, if_true]
  split_ifs <;> rfl

theorem toOption_eq_some {target : String} {w : Way} :
    (readlink fs w).toOption = some target ↔ readlink fs w = .ok target := by
  cases readlink fs w <;> simp [Except.toOption]

theorem islink_of_readlink {target : String} {w : Way} (h : readlink fs w = .ok target) : islink fs w = true := by
  unfold readlink at h
  unfold islink
  split at h
  · next hstat => rw [hstat]
  · cases h
  · cases h

variable {s : RestoreReport}

theorem counts_of_entry {r : PreviewReport} (entry : Entry)
    (hdir : options.overwriteExisting = true → ¬RealDirectory text options.restoreBroken fs cwd entry)
    (h : r.counts = s.counts) :
    (previewEntry text options fs cwd r entry).counts = (restoreEntry text options.dryRun cwd (fs, s) entry).2.counts := by
  simp only [PreviewReport.counts, RestoreReport.counts, Counts.mk.injEq] at h
  obtain ⟨hrestored, hexisting, hunchanged, hinvalid, hmissing, herrors⟩ := h
  unfold previewEntry restoreEntry PreviewOptions.dryRun
  dsimp only
  by_cases hblank : text.strip entry.linkPath = "" ∨ text.strip entry.target = ""
  · rw [if_pos hblank, if_pos hblank]
    simp [PreviewReport.counts, RestoreReport.counts, *]
  rw [if_neg hblank, if_neg hblank]
  by_cases hbroken : (!options.restoreBroken && !targetExists fs cwd (text.strip entry.linkPath) (text.strip entry.target)) = true
  · rw [if_pos hbroken, if_pos hbroken, counts_sample]
    simp [PreviewReport.counts, RestoreReport.counts, *]
  rw [if_neg hbroken, if_neg hbroken]
  by_cases hthere : lexists fs (way cwd (text.strip entry.linkPath)) = true
  · rw [if_pos hthere, if_pos hthere]
    by_cases hsame : readlink fs (way cwd (text.strip entry.linkPath)) = .ok (text.strip entry.target)
    · rw [if_pos (toOption_eq_some.2 hsame), if_pos hsame, counts_sample]
      simp [PreviewReport.counts, RestoreReport.counts, *]
    rw [if_neg (mt toOption_eq_some.1 hsame), if_neg hsame]
    by_cases hover : options.overwriteExisting = true
    · have hno : ¬(isdir fs (way cwd (text.strip entry.linkPath)) && !islink fs (way cwd (text.strip entry.linkPath))) = true := by
        intro hreal
        rw [Bool.and_eq_true] at hreal
        apply hdir hover
        push Not at hblank
        refine ⟨hblank.1, hblank.2, ?_, hthere, hreal.1, hreal.2⟩
        simpa [or_iff_not_imp_left] using hbroken
      rw [if_neg (by simpa using hover), if_neg (by simpa using hover), if_neg hno, counts_sample]
      simp [putLink, PreviewReport.counts, RestoreReport.counts, *]
    · rw [if_pos (by simpa using hover), if_pos (by simpa using hover), counts_sample]
      simp [PreviewReport.counts, RestoreReport.counts, *]
  · rw [if_neg hthere, if_neg hthere, counts_sample]
    simp [putLink, PreviewReport.counts, RestoreReport.counts, *]

theorem preview_counts_one (r : PreviewReport) (entry : Entry) :
    (previewEntry text options fs cwd r entry).counts.total = r.counts.total + 1 ∧
      (previewEntry text options fs cwd r entry).projectedErrors = r.projectedErrors := by
  change _ ∧ (previewEntry text options fs cwd r entry).counts.errors = r.counts.errors
  unfold previewEntry
  dsimp only
  split_ifs <;> (try rw [counts_sample]) <;> simp only [PreviewReport.counts, Counts.total, and_true] <;> omega

theorem dryRun_counts_one (s : Restore γ) (entry : Entry) :
    (restoreEntry text options.dryRun cwd s entry).2.counts.total = s.2.counts.total + 1 ∧
      s.2.errors.length ≤ (restoreEntry text options.dryRun cwd s entry).2.errors.length := by
  simp only [restoreEntry, putLink, PreviewOptions.dryRun, RestoreReport.fail, if_true]
  split_ifs <;> simp only [RestoreReport.counts, Counts.total, List.length_append, List.length_singleton] <;> omega

theorem dryRun_fails {entry : Entry} (hover : options.overwriteExisting = true)
    (h : RealDirectory text options.restoreBroken fs cwd entry) :
    0 < (restoreEntry text options.dryRun cwd (fs, s) entry).2.errors.length := by
  obtain ⟨hlink, htarget, hbroken, hthere, hdir, hreal⟩ := h
  have hsame : readlink fs (way cwd (text.strip entry.linkPath)) ≠ .ok (text.strip entry.target) := by
    intro hread
    simp [islink_of_readlink hread] at hreal
  have hnot : ¬(!options.restoreBroken && !targetExists fs cwd (text.strip entry.linkPath) (text.strip entry.target)) = true := by
    simpa [or_iff_not_imp_left] using hbroken
  unfold restoreEntry PreviewOptions.dryRun
  dsimp only
  rw [if_neg (not_or.2 ⟨hlink, htarget⟩), if_neg hnot, if_pos hthere, if_neg hsame, if_neg (by simp [hover]),
    if_pos (by simp [hdir, hreal])]
  simp [RestoreReport.fail]

/-! ## All entries -/

theorem dryRun_items (options : RestoreOptions) (items : List Json) (s : Restore γ) :
    (restoreItems text options cwd items s).2 =
      (items.mapM readEntry).map fun entries => (entries.foldl (restoreEntry text options cwd) s).2 := by
  induction items generalizing s with
  | nil => rfl
  | cons item items ih =>
    cases hread : readEntry item with
    | none => simp [restoreItems, hread]
    | some entry =>
      rw [restoreItems, hread, ih, List.mapM_cons, hread]
      cases items.mapM readEntry <;> rfl

theorem preview_items (items : List Json) (r : PreviewReport) :
    previewItems text options fs cwd items r =
      (items.mapM readEntry).map fun entries => entries.foldl (previewEntry text options fs cwd) r := by
  induction items generalizing r with
  | nil => rfl
  | cons item items ih =>
    cases hread : readEntry item with
    | none => simp [previewItems, hread]
    | some entry =>
      simp only [previewItems, hread]
      rw [ih, List.mapM_cons, hread]
      cases items.mapM readEntry <;> rfl

variable {entries : List Entry}

theorem items_length {items : List Json} (h : items.mapM readEntry = some entries) :
    entries.length = items.length := by
  induction items generalizing entries with
  | nil =>
    cases h
    rfl
  | cons item items ih =>
    rw [List.mapM_cons, Option.bind_eq_bind, Option.bind_eq_some_iff] at h
    obtain ⟨entry, -, h⟩ := h
    obtain ⟨rest, hrest, h⟩ := Option.bind_eq_some_iff.1 h
    cases h
    rw [List.length_cons, List.length_cons, ih hrest]

theorem counts_of_entries
    (hdir : options.overwriteExisting = true → ∀ e ∈ entries, ¬RealDirectory text options.restoreBroken fs cwd e)
    {r : PreviewReport} (h : r.counts = s.counts) :
    (entries.foldl (previewEntry text options fs cwd) r).counts =
      (entries.foldl (restoreEntry text options.dryRun cwd) (fs, s)).2.counts := by
  induction entries generalizing s r with
  | nil => exact h
  | cons e entries ih =>
    have hone := counts_of_entry e (fun hover => hdir hover e List.mem_cons_self) h
    have htree : (restoreEntry text options.dryRun cwd (fs, s) e).1 = fs := dryRun_tree (fs, s) e
    rw [List.foldl_cons, List.foldl_cons, ← Prod.mk.eta (p := restoreEntry text options.dryRun cwd (fs, s) e), htree]
    exact ih (fun hover e he => hdir hover e (List.mem_cons_of_mem _ he)) hone

theorem preview_total (entries : List Entry) (r : PreviewReport) :
    (entries.foldl (previewEntry text options fs cwd) r).counts.total = r.counts.total + entries.length ∧
      (entries.foldl (previewEntry text options fs cwd) r).projectedErrors = r.projectedErrors := by
  induction entries generalizing r with
  | nil => exact ⟨rfl, rfl⟩
  | cons e entries ih =>
    obtain ⟨hone, hnone⟩ := @preview_counts_one _ text options fs cwd r e
    obtain ⟨hrest, herrors⟩ := ih (previewEntry text options fs cwd r e)
    rw [List.foldl_cons, hrest, herrors, hone, hnone, List.length_cons]
    exact ⟨by omega, rfl⟩

theorem dryRun_total (entries : List Entry) (s : Restore γ) :
    (entries.foldl (restoreEntry text options.dryRun cwd) s).2.counts.total = s.2.counts.total + entries.length ∧
      s.2.errors.length ≤ (entries.foldl (restoreEntry text options.dryRun cwd) s).2.errors.length := by
  induction entries generalizing s with
  | nil => exact ⟨rfl, le_rfl⟩
  | cons e entries ih =>
    obtain ⟨hone, hmore⟩ := @dryRun_counts_one _ text options cwd s e
    obtain ⟨hrest, hgrows⟩ := ih (restoreEntry text options.dryRun cwd s e)
    rw [List.foldl_cons, hrest, hone, List.length_cons]
    exact ⟨by omega, hmore.trans hgrows⟩

theorem dryRun_errors {e : Entry} (hover : options.overwriteExisting = true) (he : e ∈ entries)
    (h : RealDirectory text options.restoreBroken fs cwd e) (s : RestoreReport) :
    0 < (entries.foldl (restoreEntry text options.dryRun cwd) (fs, s)).2.errors.length := by
  induction entries generalizing s with
  | nil => cases he
  | cons x entries ih =>
    have htree : (restoreEntry text options.dryRun cwd (fs, s) x).1 = fs := dryRun_tree (fs, s) x
    rw [List.foldl_cons, ← Prod.mk.eta (p := restoreEntry text options.dryRun cwd (fs, s) x), htree]
    rcases List.mem_cons.1 he with rfl | he
    · exact (dryRun_fails hover h).trans_le (@dryRun_total _ text options cwd entries (fs, _)).2
    · exact ih he _

end Dumb.Symlink

/-! ## Links that a repair keeps

Every link that a migration is to move is kept at one path, which `current` computes from the moves that are done.
-/

namespace Dumb.Symlink

open Py Tree

variable {γ : Type} {fs₀ : Files γ} {options : RepairOptions} {rules : List RewriteRule} {cwd : Path} {moves : List Move}

def SameLink (fs₀ : Files γ) (cwd : Path) (d m : Move) : Prop :=
  place fs₀ (way cwd d.sourcePath) = place fs₀ (way cwd m.sourcePath)

instance (fs₀ : Files γ) (cwd : Path) (d m : Move) : Decidable (SameLink fs₀ cwd d m) :=
  inferInstanceAs (Decidable (_ = _))

def Repair.current (fs₀ : Files γ) (cwd : Path) (s : Repair γ) (m : Move) : String :=
  match s.moves.find? fun d => d.operation = .move && decide (SameLink fs₀ cwd d.toMove m) with
  | some d => d.targetPath
  | none => m.sourcePath

def KeptText (rules : List RewriteRule) (old new : String) : Prop := new = old ∨ new = (rewriteTarget old rules).1

instance (rules : List RewriteRule) (old new : String) : Decidable (KeptText rules old new) :=
  inferInstanceAs (Decidable (_ ∨ _))

def RewriteSafe (fs₀ : Files γ) (options : RepairOptions) (rules : List RewriteRule) (cwd : Path) (moves : List Move)
    (s : Repair γ) (linkPath : String) : Prop :=
  ∀ r ∈ rewriting options rules cwd s.tree linkPath, ∀ m ∈ moves,
    r.1 ∉ trailOf s.tree (way cwd m.sourcePath).dirname ∧
      (place s.tree (way cwd m.sourcePath) = some r.1 →
        ∀ old ∈ (readlink fs₀ (way cwd m.sourcePath)).toOption, KeptText rules old r.2)

/-- A move that goes through takes nothing away that is looked up for another link, and moves its own one. -/
structure Undisturbing (fs₀ : Files γ) (options : RepairOptions) (cwd : Path) (moves : List Move) (s : Repair γ)
    (m : Move) : Prop where
  others : ∀ d ∈ moves, options.copyInsteadOfMove = true ∨ ¬SameLink fs₀ cwd d m →
    ∀ q ∈ looked s.tree (way cwd (s.current fs₀ cwd d)), q ∉ victims options cwd s.tree m
  first : options.copyInsteadOfMove = false → ∀ d ∈ s.moves, ¬SameLink fs₀ cwd d.toMove m
  ahead : options.copyInsteadOfMove = false →
    ∀ q ∈ victims options cwd s.tree m, q ∉ trailOf (readied cwd s.tree m) (way cwd m.targetPath).dirname

def MoveSafe (fs₀ : Files γ) (options : RepairOptions) (cwd : Path) (moves : List Move) (s : Repair γ) (m : Move) : Prop :=
  Goes options cwd s.tree m → Undisturbing fs₀ options cwd moves s m

structure Holds (fs₀ : Files γ) (options : RepairOptions) (rules : List RewriteRule) (cwd : Path) (moves : List Move)
    (s : Repair γ) : Prop where
  done : ∀ d ∈ s.moves, d.toMove ∈ moves ∧ d.operation = Repair.operation options
  link : ∀ m ∈ moves, ∃ old new, readlink fs₀ (way cwd m.sourcePath) = .ok old ∧
    readlink s.tree (way cwd (s.current fs₀ cwd m)) = .ok new ∧ KeptText rules old new

theorem current_start {s : Repair γ} (h : s.moves = []) (m : Move) : s.current fs₀ cwd m = m.sourcePath := by
  simp [Repair.current, h]

theorem rewriteLink_holds (hdry : options.dryRun = false) {s : Repair γ} {linkPath : String} (hnone : s.moves = [])
    (hsafe : RewriteSafe fs₀ options rules cwd moves s linkPath)
    (hfine : (s.rewriteLink options rules cwd linkPath).Unfailing) (h : Holds fs₀ options rules cwd moves s) :
    (s.rewriteLink options rules cwd linkPath).moves = [] ∧
      Holds fs₀ options rules cwd moves (s.rewriteLink options rules cwd linkPath) := by
  obtain ⟨-, hmoves, -, htree⟩ := rewriteLink_step hdry hfine
  have hnone' := hmoves.trans hnone
  refine ⟨hnone', fun d hd => absurd hd (by simp [hnone']), fun m hm => ?_⟩
  obtain ⟨old, new, hold, hnew, hkept⟩ := h.link m hm
  rw [current_start hnone] at hnew
  rw [current_start hnone']
  rcases htree with htree | ⟨p, text, text', hrewrites, hroot, hget, htree⟩
  · exact ⟨old, new, hold, htree ▸ hnew, hkept⟩
  obtain ⟨hoff, hown⟩ := hsafe _ hrewrites m hm
  obtain ⟨q, hq, hroot', hget'⟩ := readlink_ok hnew
  have hspares : Spares [p] s.tree (s.rewriteLink options rules cwd linkPath).tree := by
    rw [htree]
    exact ((spares_erase s.tree p).trans (spares_set _ p _)).mono (by simp)
  have hdir : ∀ x ∈ [p], s.tree.get? x ≠ some .dir := by simp [hget]
  have hclear : ∀ x ∈ trailOf s.tree (way cwd m.sourcePath).dirname, x ∉ [p] := by
    intro x hx hxp
    exact hoff (List.mem_singleton.1 hxp ▸ hx)
  by_cases hqp : q = p
  · have hthere := place_spares hq hroot' (parts_ne_nil _) (by simp [hget']) hspares hdir hclear
    refine ⟨old, text', hold, readlink_of_place hthere hroot' ?_, hown (hqp ▸ hq) old (by simp [hold, Except.toOption])⟩
    rw [htree, hqp, Dict.get?_set_self]
  · refine ⟨old, new, hold, readlink_spares hnew (parts_ne_nil _) hspares hdir ?_, hkept⟩
    intro x hx
    rcases List.mem_append.1 hx with hx | hx
    · exact hclear x hx
    · rw [hq, Option.toList_some, List.mem_singleton] at hx
      simp [hx, hqp]

/-! ## The moves -/

theorem readlink_same {fs : Files γ} {w w' : Way} (h : place fs w = place fs w') : readlink fs w = readlink fs w' := by
  simp [readlink, lstat, h]

theorem current_of_record {s s' : Repair γ} {m d : Move} {op : Operation} (h : s'.moves = s.moves ++ [⟨m, op⟩])
    (hother : op = .copy ∨ ¬SameLink fs₀ cwd m d) : s'.current fs₀ cwd d = s.current fs₀ cwd d := by
  have hno : (op = .move && decide (SameLink fs₀ cwd m d)) = false := by
    rcases hother with rfl | hother <;> simp [*]
  unfold Repair.current
  rw [h, List.find?_append]
  simp [hno]

theorem current_congr {s s' : Repair γ} (h : s'.moves = s.moves) (d : Move) :
    s'.current fs₀ cwd d = s.current fs₀ cwd d := by rw [Repair.current, h, Repair.current]

theorem current_unmoved {s : Repair γ} {d : Move} (h : ∀ r ∈ s.moves, ¬SameLink fs₀ cwd r.toMove d) :
    s.current fs₀ cwd d = d.sourcePath := by
  have hnone : s.moves.find? (fun r => r.operation = .move && decide (SameLink fs₀ cwd r.toMove d)) = none := by
    apply List.find?_eq_none.2
    intro r hr
    simp [h r hr]
  rw [Repair.current, hnone]

theorem current_moved {s s' : Repair γ} {m d : Move} (h : s'.moves = s.moves ++ [⟨m, .move⟩])
    (hfirst : ∀ r ∈ s.moves, ¬SameLink fs₀ cwd r.toMove d) (hsame : SameLink fs₀ cwd m d) :
    s'.current fs₀ cwd d = m.targetPath := by
  have hnone : s.moves.find? (fun r => r.operation = .move && decide (SameLink fs₀ cwd r.toMove d)) = none := by
    apply List.find?_eq_none.2
    intro r hr
    simp [hfirst r hr]
  rw [Repair.current, h, List.find?_append, hnone]
  simp [hsame]

theorem moveLink_holds (hdry : options.dryRun = false) {s : Repair γ} {m : Move} (hm : m ∈ moves)
    (hsafe : MoveSafe fs₀ options cwd moves s m) (hfine : (s.moveLink options cwd m).Unfailing)
    (h : Holds fs₀ options rules cwd moves s) : Holds fs₀ options rules cwd moves (s.moveLink options cwd m) := by
  obtain ⟨-, ⟨-, htree, hmoves, -⟩ | ⟨hgoes, text, hmoves, -, hput⟩⟩ := moveLink_step hdry hfine
  · constructor
    · rw [hmoves]
      exact h.done
    · intro d hd
      rw [htree, current_congr hmoves]
      exact h.link d hd
  have hund := hsafe hgoes
  constructor
  · intro d hd
    rw [hmoves] at hd
    rcases List.mem_append.1 hd with hd | hd
    · exact h.done d hd
    · rw [List.mem_singleton.1 hd]
      exact ⟨hm, rfl⟩
  intro d hd
  obtain ⟨old, new, hold, hnew, hkept⟩ := h.link d hd
  by_cases hother : options.copyInsteadOfMove = true ∨ ¬SameLink fs₀ cwd d m
  · have hop : Repair.operation options = .copy ∨ ¬SameLink fs₀ cwd m d := by
      apply hother.imp
      · intro hcopy
        rw [Repair.operation, if_pos hcopy]
      · exact fun hne heq => hne heq.symm
    rw [current_of_record hmoves hop]
    exact ⟨old, new, hold, readlink_spares hnew (parts_ne_nil _) hput.spares hput.noDir (hund.others d hd hother), hkept⟩
  · obtain ⟨hcopy, hsame⟩ := not_or.1 hother
    rw [Bool.not_eq_true] at hcopy
    rw [not_not] at hsame
    rw [Repair.operation, if_neg (by simp [hcopy])] at hmoves
    have hfirst : ∀ r ∈ s.moves, ¬SameLink fs₀ cwd r.toMove d := fun r hr heq => hund.first hcopy r hr (heq.trans hsame)
    obtain ⟨old', new', hold', hnew', hkept'⟩ := h.link m hm
    rw [current_unmoved (hund.first hcopy), hput.source, Except.ok.injEq] at hnew'
    rw [readlink_same hsame, hold', Except.ok.injEq] at hold
    rw [current_moved hmoves hfirst hsame.symm]
    exact ⟨old, text, by rw [readlink_same hsame, hold', hold], hput.there hcopy (hund.ahead hcopy), by
      rwa [hnew', ← hold]⟩

theorem current_path {s : Repair γ} (h : ∀ d ∈ s.moves, d.toMove ∈ moves ∧ d.operation = Repair.operation options)
    (m : Move) : s.current fs₀ cwd m = m.sourcePath ∨
      ∃ d ∈ moves, SameLink fs₀ cwd d m ∧ s.current fs₀ cwd m = d.targetPath := by
  unfold Repair.current
  cases hfind : s.moves.find? fun d => d.operation = .move && decide (SameLink fs₀ cwd d.toMove m) with
  | none => exact .inl rfl
  | some d =>
    have hsame := List.find?_some hfind
    simp only [Bool.and_eq_true, decide_eq_true_eq] at hsame
    exact .inr ⟨d.toMove, (h d (List.mem_of_find?_eq_some hfind)).1, hsame.2, rfl⟩

theorem rewriteLinks_holds (hdry : options.dryRun = false) (paths : List String) {s : Repair γ} (hnone : s.moves = [])
    (hsafe : Along (Repair.rewriteLink options rules cwd) (RewriteSafe fs₀ options rules cwd moves) s paths)
    (hfine : (paths.foldl (Repair.rewriteLink options rules cwd) s).Unfailing)
    (h : Holds fs₀ options rules cwd moves s) :
    Holds fs₀ options rules cwd moves (paths.foldl (Repair.rewriteLink options rules cwd) s) := by
  have hall := (along_of_foldl (fun _ _ hstep => (rewriteLink_step hdry hstep).1) hfine).2
  refine ((hsafe.and hall).foldl (I := fun s => s.moves = [] ∧ Holds fs₀ options rules cwd moves s) ?_ ⟨hnone, h⟩).2
  intro s linkPath _ hstep hI
  exact rewriteLink_holds hdry hI.1 hstep.1 hstep.2 hI.2

theorem moveLinks_holds (hdry : options.dryRun = false) {s : Repair γ}
    (hsafe : Along (Repair.moveLink options cwd) (MoveSafe fs₀ options cwd moves) s moves)
    (hfine : (moves.foldl (Repair.moveLink options cwd) s).Unfailing) (h : Holds fs₀ options rules cwd moves s) :
    Holds fs₀ options rules cwd moves (moves.foldl (Repair.moveLink options cwd) s) := by
  have hall := (along_of_foldl (fun _ _ hstep => (moveLink_step hdry hstep).1) hfine).2
  refine (hsafe.and hall).foldl (I := Holds fs₀ options rules cwd moves) ?_ h
  intro s m hm hstep hI
  exact moveLink_holds hdry hm hstep.1 hstep.2 hI

/-! ## What is listed -/

variable {listing : Path → List String}

theorem islink_of_walkMoves {fs : Files γ} {srcRoot dstRoot : String} :
    ∀ {levels : Nat} {current rel : String} {p : Path},
      ∀ m ∈ walkMoves listing fs cwd srcRoot dstRoot levels current rel p, islink fs (way cwd m.sourcePath) = true
  | 0, _, _, _, m, hm => absurd hm List.not_mem_nil
  | levels + 1, current, rel, p, m, hm => by
    unfold walkMoves at hm
    rcases List.mem_append.1 hm with hm | hm
    · obtain ⟨name, hname, rfl⟩ := List.mem_map.1 hm
      exact (List.mem_filter.1 hname).2
    · obtain ⟨name, -, hm⟩ := List.mem_flatMap.1 hm
      exact islink_of_walkMoves m hm

theorem islink_of_moves {fs : Files γ} : ∀ {migrations : List RootMigration},
    ∀ m ∈ (collectRootMigrationMoves listing fs cwd migrations).1, islink fs (way cwd m.sourcePath) = true
  | [], m, hm => absurd hm List.not_mem_nil
  | migration :: migrations, m, hm => by
    simp only [collectRootMigrationMoves] at hm
    split at hm
    · exact islink_of_moves m hm
    split at hm
    · exact islink_of_moves m hm
    split at hm
    · rcases List.mem_append.1 hm with hm | hm
      · exact islink_of_walkMoves m hm
      · exact islink_of_moves m hm
    · exact islink_of_moves m hm

theorem holds_start (h : ∀ m ∈ moves, islink fs₀ (way cwd m.sourcePath) = true) :
    Holds fs₀ options rules cwd moves (.start fs₀) := by
  constructor
  · exact fun d hd => absurd hd List.not_mem_nil
  · intro m hm
    obtain ⟨text, hread⟩ := islink_readlink (h m hm)
    exact ⟨text, text, hread, hread, .inl rfl⟩

end Dumb.Symlink
