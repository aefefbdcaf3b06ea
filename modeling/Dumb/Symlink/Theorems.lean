import Dumb.Symlink.Lemmas.Preview
import Dumb.Symlink.Lemmas.Restore

/-!
# What backup, restore and repair of links guarantee
-/

namespace Dumb.Symlink

open Py Tree

variable {γ : Type}

/-! ## Backup and restore -/

/-- Every link of the manifest is at its place with its text, and elsewhere only directories that were missing are
new. -/
structure RoundTrip (fs₀ : Files γ) (cwd : Path) (entries : List Entry) (fs₁ fs₂ : Files γ) : Prop where
  again : ∀ e ∈ entries, place fs₂ (way cwd e.linkPath) = place fs₀ (way cwd e.linkPath) ∧
    readlink fs₂ (way cwd e.linkPath) = .ok e.target
  others : ∀ q, q ∉ places fs₀ cwd entries → fs₂.get? q = fs₁.get? q ∨
    fs₁.get? q = none ∧ fs₀.get? q = some .dir ∧ fs₂.get? q = some .dir

/-- `strip` changes no path and no text of the manifest, and no link on the way to another one is put back too late. -/
structure Restorable (text : Text) (fs₀ : Files γ) (cwd : Path) (entries : List Entry) (fs₁ : Files γ) : Prop where
  stripped : ∀ e ∈ entries, e.Stripped text
  clear : Clear fs₀ cwd fs₁ entries

theorem restore_roundTrip {text : Text} {defaultRoots : List String} {fs₀ fs₁ : Files γ} {cwd : Path}
    {roots : Option (List String)} {backupPath : String} {checkTargets : Bool} {b : Backup}
    (hbackup : backupSymlinkManifest text defaultRoots fs₀ cwd roots backupPath true checkTargets = .ok b)
    (halt : Altered fs₀ cwd b.entries fs₁) (hrestorable : Restorable text fs₀ cwd b.entries fs₁)
    (hfine : (restoreSymlinkManifest text ⟨false, true, true⟩ cwd b.entries fs₁).2.Unfailing) :
    RoundTrip fs₀ cwd b.entries fs₁ (restoreSymlinkManifest text ⟨false, true, true⟩ cwd b.entries fs₁).1 := by
  have hrecorded := backup_recorded hbackup
  obtain ⟨hnear, hsettled⟩ := restore_settles [] b.entries hrecorded hrestorable.stripped halt
    hrestorable.clear .refl (fun e he => absurd he List.not_mem_nil) hfine
  constructor
  · intro e he
    obtain ⟨p, hp, hroot, hlink⟩ := readlink_ok (hrecorded e he)
    have hthere := hsettled e he
    exact ⟨hp ▸ place_agree hp hroot (parts_ne_nil _) (by simp [hlink]) hthere.onWay hthere.parent,
      hthere.readlink_eq hp hroot hlink⟩
  · intro q hq
    rcases hnear q with heq | heq
    · exact .inl heq
    · rcases halt.elsewhere q hq with hsame | ⟨hdir, hnone⟩
      · exact .inl (heq.trans hsame.symm)
      · exact .inr ⟨hnone, hdir, heq.trans hdir⟩

def oneLink (target : String) : Files Unit := [(["r"], .dir), (["r", "l"], .link target)]

theorem altered_oneLink {target : String} {e : Entry} (he : place (oneLink target) (way [] e.linkPath) = some ["r", "l"]) :
    Altered (oneLink target) [] [e] [(["r"], .dir)] := by
  have hplaces : places (oneLink target) [] [e] = [["r", "l"]] := by simp [places, he]
  constructor
  · intro q hq
    rw [hplaces, List.mem_singleton] at hq
    refine .inl ?_
    simp [oneLink, Dict.get?, Ne.symm hq]
  · rw [hplaces]
    decide

theorem backup_oneLink :
    backupSymlinkManifest .ascii [] (oneLink "t") [] (some ["/r"]) "/m" true false =
      .ok ⟨"/m", ["/r"], [], 1, [⟨"/r/l", "t", none⟩], 0, []⟩ := by decide +kernel

theorem restore_roundTrip_oneLink :
    RoundTrip (oneLink "t") [] [⟨"/r/l", "t", none⟩] [(["r"], .dir)]
      (restoreSymlinkManifest Text.ascii ⟨false, true, true⟩ [] [⟨"/r/l", "t", none⟩] [(["r"], .dir)]).1 :=
  restore_roundTrip backup_oneLink (altered_oneLink (by decide +kernel))
    ⟨by decide +kernel, by decide +kernel, trivial⟩ (by decide +kernel)

/-- A text that ends with a blank comes back without it. -/
theorem blank_is_lost :
    backupSymlinkManifest Text.ascii [] (oneLink "t ") [] (some ["/r"]) "/m" true false =
        .ok ⟨"/m", ["/r"], [], 1, [⟨"/r/l", "t ", none⟩], 0, []⟩ ∧
      Altered (oneLink "t ") [] [⟨"/r/l", "t ", none⟩] [(["r"], .dir)] ∧
      (restoreSymlinkManifest Text.ascii ⟨false, true, true⟩ [] [⟨"/r/l", "t ", none⟩]
        ([(["r"], .dir)] : Files Unit)).2.Unfailing ∧
      ¬RoundTrip (oneLink "t ") [] [⟨"/r/l", "t ", none⟩] [(["r"], .dir)]
        (restoreSymlinkManifest Text.ascii ⟨false, true, true⟩ [] [⟨"/r/l", "t ", none⟩] [(["r"], .dir)]).1 := by
  refine ⟨by decide +kernel, altered_oneLink (by decide +kernel), by decide +kernel, fun h => ?_⟩
  have hread := (h.again _ (List.mem_singleton.2 rfl)).2
  revert hread
  decide +kernel

/-! ## Repair -/

/-- Every link that a migration is to move is at its source or where a migration moves it, with a text that is kept. -/
def KeepsLinks (fs₀ : Files γ) (rules : List RewriteRule) (cwd : Path) (moves : List Move) (fs : Files γ) : Prop :=
  ∀ m ∈ moves, ∃ path old new,
    (path = m.sourcePath ∨ ∃ d ∈ moves, SameLink fs₀ cwd d m ∧ path = d.targetPath) ∧
      readlink fs₀ (way cwd m.sourcePath) = .ok old ∧ readlink fs (way cwd path) = .ok new ∧ KeptText rules old new

def replacedNode (options : RepairOptions) (cwd : Path) (fs : Files γ) (m : Move) : Option (Node γ) :=
  if Goes options cwd fs m then lstat fs (way cwd m.targetPath) else none

def BackupRecord.says : BackupRecord → String × String
  | .change linkPath _ newTarget => (linkPath, newTarget)
  | .move _ targetPath oldTarget _ => (targetPath, oldTarget)

def Told (records : List BackupRecord) (cwd : Path) (fs : Files γ) (m : Move) (node : Node γ) : Prop :=
  ∃ r ∈ records, place fs (way cwd r.says.1) = place fs (way cwd m.targetPath) ∧ node = .link r.says.2

def KeepsReplaced (options : RepairOptions) (cwd : Path) (plan : Plan) (fs₀ : Files γ)
    (manifest : Option RepairManifest) : Prop :=
  Along (Repair.moveLink options cwd)
    (fun s m => ∀ node ∈ replacedNode options cwd s.tree m, ∃ file ∈ manifest, Told file.changes cwd s.tree m node)
    (rewriteLinks options cwd plan fs₀) plan.moves

/-- A manifest is asked for, and what is replaced is a link that it tells of already, or that is the same as the new
one. -/
def Backed (options : RepairOptions) (cwd : Path) (backupPath : Option String) (s : Repair γ) (m : Move) : Prop :=
  ∀ node ∈ replacedNode options cwd s.tree m, (∃ path ∈ backupPath, path ≠ "") ∧
    (Told s.backup cwd s.tree m node ∨ lstat s.tree (way cwd m.sourcePath) = some node)

structure SafeRepair (options : RepairOptions) (cwd : Path) (backupPath : Option String) (plan : Plan) (fs₀ : Files γ) :
    Prop where
  rewrites : Along (Repair.rewriteLink options plan.rules cwd) (RewriteSafe fs₀ options plan.rules cwd plan.moves)
    (.start fs₀) plan.paths
  moves : Along (Repair.moveLink options cwd) (MoveSafe fs₀ options cwd plan.moves) (rewriteLinks options cwd plan fs₀)
    plan.moves
  backed : Along (Repair.moveLink options cwd) (Backed options cwd backupPath) (rewriteLinks options cwd plan fs₀)
    plan.moves

variable {options : RepairOptions} {s : Repair γ}

theorem moveLink_tells {cwd : Path} {backupPath : Option String} {m : Move}
    (hdry : options.dryRun = false) (hbacked : Backed options cwd backupPath s m)
    (hfine : (s.moveLink options cwd m).Unfailing) :
    ∀ node ∈ replacedNode options cwd s.tree m, (∃ path ∈ backupPath, path ≠ "") ∧
      Told (s.moveLink options cwd m).backup cwd s.tree m node := by
  intro node hnode
  obtain ⟨hpath, htold⟩ := hbacked node hnode
  apply And.intro hpath
  obtain ⟨-, ⟨hstays, -⟩ | ⟨hgoes, text, -, hbackup, hput⟩⟩ := moveLink_step hdry hfine
  · simp [replacedNode, hstays] at hnode
  rw [hbackup]
  rcases htold with ⟨r, hr, htold⟩ | hsame
  · exact ⟨r, List.mem_append_left _ hr, htold⟩
  · refine ⟨_, List.mem_append_right _ (List.mem_singleton.2 rfl), rfl, ?_⟩
    obtain ⟨p, hp, hroot, hget⟩ := readlink_ok hput.source
    rw [lstat_eq hp hroot, hget, Option.some.injEq] at hsame
    exact hsame.symm

theorem backup_of_moves {cwd : Path} (hdry : options.dryRun = false) (moves : List Move)
    (hfine : (moves.foldl (Repair.moveLink options cwd) s).Unfailing) :
    ∀ r ∈ s.backup, r ∈ (moves.foldl (Repair.moveLink options cwd) s).backup := by
  have hall := (along_of_foldl (fun _ _ hstep => (moveLink_step hdry hstep).1) hfine).2
  intro r hr
  apply hall.foldl (I := fun s => r ∈ s.backup) _ hr
  intro s m _ hstep hin
  obtain ⟨-, ⟨-, -, -, hbackup⟩ | ⟨-, text, -, hbackup, -⟩⟩ := moveLink_step hdry hstep
  · rwa [hbackup]
  · rw [hbackup]
    exact List.mem_append_left _ hin

theorem islink_of_plan {text : Text} {listing : Path → List String} {defaultRoots : List String} {fs : Files γ}
    {cwd : Path} {request : RepairRequest} {plan : Plan}
    (h : repairPlan text listing defaultRoots fs cwd request = .ok plan) :
    ∀ m ∈ plan.moves, islink fs (way cwd m.sourcePath) = true := by
  simp only [repairPlan] at h
  split at h
  · cases h
  split at h
  · cases h
  · cases h
    exact islink_of_moves

theorem manifest_of_backup {backupPath : Option String} {plan : Plan}
    (hdry : options.dryRun = false) (hpath : ∃ path ∈ backupPath, path ≠ "") {r : BackupRecord} (hr : r ∈ s.backup) :
    ∃ file ∈ repairManifest options backupPath plan s, file.changes = s.backup := by
  obtain ⟨path, rfl, hne⟩ := hpath
  exact ⟨⟨path, plan.roots, s.backup⟩, by simp [repairManifest, hdry, hne, List.ne_nil_of_mem hr], rfl⟩

theorem repair_keeps {text : Text} {listing : Path → List String} {defaultRoots : List String} {options : RepairOptions}
    {cwd : Path} {request : RepairRequest} {backupPath : Option String} {fs₀ : Files γ} {plan : Plan} {s : Repair γ}
    {manifest : Option RepairManifest} (hdry : options.dryRun = false)
    (h : repairSymlinks text listing defaultRoots options cwd request backupPath fs₀ = .ok (plan, s, manifest))
    (hfine : s.Unfailing) (hsafe : SafeRepair options cwd backupPath plan fs₀) :
    KeepsLinks fs₀ plan.rules cwd plan.moves s.tree ∧ KeepsReplaced options cwd plan fs₀ manifest := by
  unfold repairSymlinks at h
  cases hplan : repairPlan text listing defaultRoots fs₀ cwd request with
  | error e => simp [hplan] at h
  | ok plan' =>
    simp only [hplan, Except.ok.injEq, Prod.mk.injEq] at h
    obtain ⟨rfl, rfl, rfl⟩ := h
    obtain ⟨hpass, hsteps⟩ := along_of_foldl (fun _ _ hstep => (moveLink_step hdry hstep).1) hfine
    constructor
    · have hrewritten := rewriteLinks_holds hdry plan'.paths rfl hsafe.rewrites hpass
        (holds_start (islink_of_plan hplan))
      have hholds := moveLinks_holds hdry hsafe.moves hfine hrewritten
      intro m hm
      obtain ⟨old, new, hold, hnew, hkept⟩ := hholds.link m hm
      exact ⟨_, old, new, current_path hholds.done m, hold, hnew, hkept⟩
    · apply along_iff.2
      intro before m after hsplit node hnode
      have hstep := along_iff.1 hsteps before m after hsplit
      obtain ⟨hpath, r, hr, htold⟩ := moveLink_tells hdry (along_iff.1 hsafe.backed before m after hsplit) hstep node hnode
      have hend : repairLinks options cwd plan' fs₀ = after.foldl (Repair.moveLink options cwd)
          ((before.foldl (Repair.moveLink options cwd) (rewriteLinks options cwd plan' fs₀)).moveLink options cwd m) := by
        rw [repairLinks, hsplit, List.foldl_append, List.foldl_cons]
      have hr' : r ∈ (repairLinks options cwd plan' fs₀).backup := by
        rw [hend] at hfine ⊢
        exact backup_of_moves hdry after hfine r hr
      obtain ⟨file, hfile, hchanges⟩ := manifest_of_backup hdry hpath hr'
      exact ⟨file, hfile, r, hchanges ▸ hr', htold⟩

def moveAll : RepairOptions := ⟨false, true, true, false⟩

def collision : Files Unit :=
  [(["a"], .dir), (["a", "x"], .link "t"), (["b"], .dir), (["b", "x"], .link "u"), (["c"], .dir), (["c", "x"], .link "w")]

def collisionRequest : RepairRequest := ⟨some ["/a"], [⟨"t", "q"⟩], [], [⟨"/a", "/c"⟩, ⟨"/b", "/c"⟩]⟩

def collisionPlan : Plan :=
  ⟨["/a"], [], [⟨"t", "q"⟩], [⟨"/a", "/c"⟩, ⟨"/b", "/c"⟩], ["/a/x"], [⟨"/a", "/c", "/a/x", "/c/x"⟩, ⟨"/b", "/c", "/b/x", "/c/x"⟩], []⟩

def lone : Files Unit := [(["a"], .dir), (["a", "x"], .link "t")]

def lonePlan : Plan :=
  ⟨["/a"], [], [⟨"t", "q"⟩], [⟨"/a", "/c"⟩], ["/a/x"], [⟨"/a", "/c", "/a/x", "/c/x"⟩], []⟩

theorem lone_repair :
    repairSymlinks .ascii (names lone) [] moveAll [] ⟨some ["/a"], [⟨"t", "q"⟩], [], [⟨"/a", "/c"⟩]⟩ (some "/m") lone =
      .ok (lonePlan, repairLinks moveAll [] lonePlan lone,
        repairManifest moveAll (some "/m") lonePlan (repairLinks moveAll [] lonePlan lone)) := by
  have hplan : repairPlan .ascii (names lone) [] lone [] ⟨some ["/a"], [⟨"t", "q"⟩], [], [⟨"/a", "/c"⟩]⟩ = .ok lonePlan := by
    decide +kernel
  rw [repairSymlinks, hplan]

theorem repair_keeps_lone :
    KeepsLinks lone lonePlan.rules [] lonePlan.moves (repairLinks moveAll [] lonePlan lone).tree ∧
      KeepsReplaced moveAll [] lonePlan lone
        (repairManifest moveAll (some "/m") lonePlan (repairLinks moveAll [] lonePlan lone)) := by
  apply repair_keeps rfl lone_repair (by decide +kernel)
  constructor
  · exact ⟨by unfold RewriteSafe; decide +kernel, trivial⟩
  · exact ⟨fun _ => ⟨by decide +kernel, by decide +kernel, by decide +kernel⟩, trivial⟩
  · refine ⟨fun node hnode => ?_, trivial⟩
    have hnone : replacedNode moveAll [] (rewriteLinks moveAll [] lonePlan lone).tree ⟨"/a", "/c", "/a/x", "/c/x"⟩ = none := by
      decide +kernel
    rw [hnone] at hnode
    cases hnode

/-- The link of `/a` is overwritten by that of `/b`, and the manifest does not tell what was at the destination. -/
theorem overwrite_loses :
    repairPlan .ascii (names collision) [] collision [] collisionRequest = .ok collisionPlan ∧
      (repairLinks moveAll [] collisionPlan collision).Unfailing ∧
      ¬KeepsLinks collision collisionPlan.rules [] collisionPlan.moves (repairLinks moveAll [] collisionPlan collision).tree ∧
      ¬KeepsReplaced moveAll [] collisionPlan collision
        (repairManifest moveAll (some "/m") collisionPlan (repairLinks moveAll [] collisionPlan collision)) := by
  refine ⟨by decide +kernel, by decide +kernel, fun h => ?_, fun h => ?_⟩
  · obtain ⟨path, old, new, hpath, hold, hnew, hkept⟩ := h ⟨"/a", "/c", "/a/x", "/c/x"⟩ List.mem_cons_self
    have hold' : readlink collision (way [] "/a/x") = .ok "t" := by decide +kernel
    have hsource : readlink (repairLinks moveAll [] collisionPlan collision).tree (way [] "/a/x") = .error .noent := by
      decide +kernel
    have htarget : readlink (repairLinks moveAll [] collisionPlan collision).tree (way [] "/c/x") = .ok "u" := by
      decide +kernel
    rw [hold', Except.ok.injEq] at hold
    subst hold
    rcases hpath with rfl | ⟨d, hd, -, rfl⟩
    · rw [hsource] at hnew
      cases hnew
    · have htargets : ∀ d ∈ collisionPlan.moves, d.targetPath = "/c/x" := by decide
      rw [htargets d hd, htarget, Except.ok.injEq] at hnew
      subst hnew
      revert hkept
      decide +kernel
  · obtain ⟨file, hfile, r, hr, hplace, hnode⟩ := h.1 (.link "w") (by decide +kernel)
    have hmanifest : repairManifest moveAll (some "/m") collisionPlan (repairLinks moveAll [] collisionPlan collision) =
        some ⟨"/m", ["/a"], [.change "/a/x" "t" "q", .move "/a/x" "/c/x" "q" .move, .move "/b/x" "/c/x" "u" .move]⟩ := by
      decide +kernel
    rw [hmanifest, Option.mem_some_iff] at hfile
    subst hfile
    have hsays : ∀ r ∈ ([.change "/a/x" "t" "q", .move "/a/x" "/c/x" "q" .move, .move "/b/x" "/c/x" "u" .move] :
        List BackupRecord), r.says.2 ≠ "w" := by decide
    exact hsays r hr (Node.link.inj hnode).symm

/-! ## Preview and dry run -/

/-- The counts are the same, or both functions raise, and every entry is counted once. -/
structure Agree (text : Text) (options : PreviewOptions) (cwd : Path) (items : List Json) (fs : Files γ) : Prop where
  same : (previewItems text options fs cwd items .empty).map PreviewReport.counts =
    (restoreItems text options.dryRun cwd items (fs, .empty)).2.map RestoreReport.counts
  previewed : ∀ r, previewItems text options fs cwd items .empty = some r → r.counts.total = items.length
  restored : ∀ r, (restoreItems text options.dryRun cwd items (fs, .empty)).2 = some r → r.counts.total = items.length

/-- A preview agrees with the dry run unless an entry of a manifest that both can read would overwrite a directory. -/
theorem preview_agrees_iff (text : Text) (options : PreviewOptions) (cwd : Path) (items : List Json) (fs : Files γ) :
    Agree text options cwd items fs ↔ (options.overwriteExisting = true →
      ∀ entries, items.mapM readEntry = some entries → ∀ e ∈ entries, ¬RealDirectory text options.restoreBroken fs cwd e) := by
  constructor
  · intro h hover entries hread e he hreal
    have hsame := h.same
    rw [preview_items, dryRun_items, hread, Option.map_some, Option.map_some, Option.map_some, Option.map_some,
      Option.some.injEq] at hsame
    have hfails := dryRun_errors hover he hreal .empty
    have hnone : (entries.foldl (previewEntry text options fs cwd) .empty).counts.errors = 0 :=
      (preview_total entries .empty).2
    rw [hsame] at hnone
    exact absurd hnone hfails.ne'
  · intro h
    constructor
    · rw [preview_items, dryRun_items]
      cases hread : items.mapM readEntry with
      | none => rfl
      | some entries =>
        rw [Option.map_some, Option.map_some, Option.map_some, Option.map_some,
          counts_of_entries (s := .empty) (fun hover => h hover entries hread) rfl]
    · intro r hr
      rw [preview_items, Option.map_eq_some_iff] at hr
      obtain ⟨entries, hread, rfl⟩ := hr
      rw [(preview_total entries _).1, items_length hread]
      exact Nat.zero_add _
    · intro r hr
      rw [dryRun_items, Option.map_eq_some_iff] at hr
      obtain ⟨entries, hread, rfl⟩ := hr
      rw [(dryRun_total entries _).1, items_length hread]
      exact Nat.zero_add _

/-- A link of the manifest that is a directory by now: the preview projects a restored link, the dry run an error. -/
theorem directory_previewed : ¬Agree Text.ascii ⟨true, true, 0⟩ []
    [.obj [("link_path", .str "/r/l"), ("target", .str "t")]] [(["r"], .dir), (["r", "l"], (.dir : Node Unit))] := by
  intro h
  exact absurd h.same (by decide +kernel)

end Dumb.Symlink
