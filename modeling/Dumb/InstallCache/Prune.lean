import Mathlib.Algebra.Order.Ring.Rat
import Dumb.Lib.Tree

/-!
# Pruning the install cache to a size

From `utils/install_cache.py`. The tree is the cache root after `ensure`, with the size of each file. What
`iterdir` lists twice below a namespace are the paths two names longer.
-/

namespace Dumb.InstallCache

open Py Tree

/-- A cache root without symlinks. -/
structure Root where
  files : Files Nat
  closed : Closed files
  plain (p : Path) (text : String) : files.get? p ≠ some (.link text)

def objects : Path := ["downloads", "objects"]

def artifacts : Path := ["artifacts"]

def dependencies : Path := ["dependencies"]

def quarantine : Path := ["quarantine"]

def namespaces : List Path := [objects, artifacts, dependencies, quarantine]

def telemetryDb : Path := ["install-operations.sqlite"]

def transactions : Path := ["transactions"]

def fileBytes : Files Nat → Nat
  | [] => 0
  | (_, .file size) :: fs => size + fileBytes fs
  | _ :: fs => fileBytes fs

def directorySize (path : Path) (fs : Files Nat) : Nat := fileBytes (fs.filter fun e => path.isPrefixOf e.1)

structure Candidate where
  atime : ℚ
  size : Nat
  path : Path
  deriving DecidableEq

/-- The namespaces in which an entry is a candidate, and how deep it has to lie there. -/
def places : Node Nat → List (Path × Nat)
  | .file _ => [(objects, 2), (quarantine, 1)]
  | .dir => [(artifacts, 2), (dependencies, 2), (quarantine, 1)]
  | .link _ => []

def candidate (atime : Path → ℚ) (fs : Files Nat) (e : Path × Node Nat) : Option Candidate :=
  let size := match e.2 with
    | .file size => size
    | _ => directorySize e.1 fs
  if ∃ s ∈ places e.2, s.1 <+: e.1 ∧ e.1.length = s.1.length + s.2 then some ⟨atime e.1, size, e.1⟩ else none

def candidates (atime : Path → ℚ) (fs : Files Nat) : List Candidate := fs.filterMap (candidate atime fs)

def pathLt (a b : Path) : Bool := List.lex a b fun s t => List.lex s.toList t.toList fun c d => c.val < d.val

/-- The order of the tuples. -/
def precedes (a b : Candidate) : Bool :=
  a.atime < b.atime ||
    a.atime == b.atime && (a.size < b.size || a.size == b.size && !pathLt b.path a.path)

structure Progress where
  total : Int
  removed : Nat
  reclaimed : Nat
  files : Files Nat

/-- Below a file that is unlinked there is nothing, so that what goes is what starts with the path. -/
def reclaim (limit : Int) : List Candidate → Progress → Progress
  | [], s => s
  | c :: rest, s =>
    if s.total ≤ limit then s
    else reclaim limit rest ⟨s.total - c.size, s.removed + 1, s.reclaimed + c.size, rmtree c.path s.files⟩

/-- What `os.walk(base, topdown=False)` lists is sent to `rmdir`, files aside. -/
def tidy (walk : Walk Nat) (fs : Files Nat) (base : Path) : Files Nat :=
  (walk.order (under base fs)).foldl (fun fs p => if isDir fs (base ++ p) then rmdir (base ++ p) fs else fs) fs

structure Report where
  removed : Nat
  reclaimedBytes : Nat
  remainingBytes : Int
  maxSizeBytes : Int

def prune (atime : Path → ℚ) (walk : Walk Nat) (configuredLimit : Int) (maxSizeBytes : Option Int) (fs : Files Nat) :
    Report × Files Nat :=
  let limit := match maxSizeBytes with
    | none => configuredLimit
    | some bytes => max 0 bytes
  let s := reclaim limit ((candidates atime fs).insertionSort fun a b => precedes a b) ⟨directorySize [] fs, 0, 0, fs⟩
  (⟨s.removed, s.reclaimed, s.total, limit⟩, namespaces.foldl (tidy walk) s.files)

/-! ## Least recently used -/

structure Evicted (atime : Path → ℚ) (before after : Files Nat) (r : Report) (gone rest : List Candidate) : Prop where
  all : (gone ++ rest).Perm (candidates atime before)
  ascending : (gone ++ rest).Pairwise fun a b => a.atime ≤ b.atime
  cleared : ∀ c ∈ gone, ∀ p, c.path <+: p → after.get? p = none
  kept : ∀ p, (∀ c ∈ gone, ¬ c.path <+: p) → after.get? p = before.get? p ∨
    (before.get? p = some .dir ∧ after.get? p = none ∧ ∀ q size, p <+: q → after.get? q ≠ some (.file size))
  needed : ∀ c ∈ gone.getLast?, r.maxSizeBytes < r.remainingBytes + c.size
  enough : rest = [] ∨ r.remainingBytes ≤ r.maxSizeBytes
  idle : directorySize [] before ≤ r.maxSizeBytes → gone = []
  exempt : ∀ base ∈ [telemetryDb, transactions], ∀ p, base <+: p → after.get? p = before.get? p
  remaining : r.remainingBytes = directorySize [] after

/-! ## Sizes -/

theorem fileBytes_filter (f : Path × Node Nat → Bool) (fs : Files Nat) :
    fileBytes (fs.filter f) + fileBytes (fs.filter fun e => !f e) = fileBytes fs := by
  induction fs with
  | nil => rfl
  | cons e fs ih =>
    obtain ⟨p, n⟩ := e
    cases hf : f (p, n) <;> cases n <;> simp [hf, fileBytes, ← ih] <;> omega

variable {fs : Files Nat}

theorem fileBytes_skip {f : Path × Node Nat → Bool} (h : ∀ e ∈ fs, f e = false → e.2 = .dir) :
    fileBytes (fs.filter f) = fileBytes fs := by
  induction fs with
  | nil => rfl
  | cons e fs ih =>
    obtain ⟨p, n⟩ := e
    obtain ⟨hhead, hrest⟩ := List.forall_mem_cons.1 h
    cases hf : f (p, n) with
    | true => cases n <;> simp [hf, fileBytes, ih hrest]
    | false =>
      obtain rfl : n = .dir := hhead hf
      simp [hf, fileBytes, ih hrest]

theorem fileBytes_single {p : Path} {size : Nat} (hdistinct : (Dict.keys fs).Nodup)
    (hmem : (p, .file size) ∈ fs) (halone : ∀ e ∈ fs, p <+: e.1 → e.1 = p) :
    fileBytes (fs.filter fun e => p.isPrefixOf e.1) = size := by
  obtain ⟨a, b, rfl⟩ := List.append_of_mem hmem
  have hother : ∀ e ∈ a ++ b, ¬ p.isPrefixOf e.1 = true := by
    intro e he hpre
    have hin : e ∈ a ++ (p, .file size) :: b := by
      rw [List.mem_append] at he ⊢
      exact he.imp_right (List.mem_cons_of_mem _)
    have hsame := halone e hin (List.isPrefixOf_iff_prefix.1 hpre)
    have hkey : p ∈ Dict.keys (a ++ b) := List.mem_map.2 ⟨e, he, hsame⟩
    simp only [Dict.keys, List.map_append, List.map_cons, List.nodup_middle, List.nodup_cons] at hdistinct hkey
    exact hdistinct.1 hkey
  have hself : p.isPrefixOf p = true := List.isPrefixOf_iff_prefix.2 List.prefix_rfl
  rw [List.filter_append, List.filter_cons_of_pos (by exact hself),
    List.filter_eq_nil_iff.2 fun e he => hother e (List.mem_append_left _ he),
    List.filter_eq_nil_iff.2 fun e he => hother e (List.mem_append_right _ he)]
  rfl

theorem directorySize_root (fs : Files Nat) : directorySize [] fs = fileBytes fs :=
  congrArg fileBytes (List.filter_eq_self.2 fun _ _ => List.isPrefixOf_iff_prefix.2 List.nil_prefix)

/-! ## The loop -/

def Apart (a b : Candidate) : Prop := ¬ a.path <+: b.path ∧ ¬ b.path <+: a.path

theorem directorySize_rmtree {a c : Candidate} (h : Apart a c) (fs : Files Nat) :
    directorySize c.path (rmtree a.path fs) = directorySize c.path fs := by
  rw [directorySize, rmtree, List.filter_filter]
  refine congrArg fileBytes (List.filter_congr fun e _ => ?_)
  by_cases hc : c.path.isPrefixOf e.1 = true
  · have hnot : ¬ a.path.isPrefixOf e.1 = true := fun ha =>
      (List.prefix_or_prefix_of_prefix (List.isPrefixOf_iff_prefix.1 ha) (List.isPrefixOf_iff_prefix.1 hc)).elim h.1 h.2
    simp [hc, hnot]
  · simp [hc]

def cutAll (gone : List Candidate) (fs : Files Nat) : Files Nat := gone.foldl (fun fs c => rmtree c.path fs) fs

theorem reclaim_spec (limit : Int) (cs : List Candidate) (hcs : cs.Pairwise Apart) (fs : Files Nat)
    (hsize : ∀ c ∈ cs, directorySize c.path fs = c.size) (removed reclaimed : Nat) :
    ∃ gone rest, cs = gone ++ rest ∧ (fileBytes fs ≤ limit → gone = []) ∧
      ∃ s, reclaim limit cs ⟨fileBytes fs, removed, reclaimed, fs⟩ = s ∧ s.files = cutAll gone fs ∧
        s.total = fileBytes s.files ∧ (∀ c ∈ gone.getLast?, limit < s.total + c.size) ∧ (rest = [] ∨ s.total ≤ limit) := by
  induction cs generalizing fs removed reclaimed with
  | nil => exact ⟨[], [], rfl, fun _ => rfl, _, rfl, rfl, rfl, by simp, .inl rfl⟩
  | cons c cs ih =>
    by_cases hfits : (fileBytes fs : Int) ≤ limit
    · exact ⟨[], c :: cs, rfl, fun _ => rfl, _, if_pos hfits, rfl, rfl, by simp, .inr hfits⟩
    · obtain ⟨hapart, hcs'⟩ := List.pairwise_cons.1 hcs
      obtain ⟨hc, hrest⟩ := List.forall_mem_cons.1 hsize
      have hsplit := fileBytes_filter (fun e => c.path.isPrefixOf e.1) fs
      have hafter : (fileBytes fs : Int) - c.size = fileBytes (rmtree c.path fs) := by
        rw [← hsplit, ← hc]
        simp [rmtree, directorySize]
      obtain ⟨gone, rest, rfl, -, s, hs, hfiles, htotal, hneeded, henough⟩ :=
        ih hcs' (rmtree c.path fs) (fun d hd => (directorySize_rmtree (hapart d hd) fs).trans (hrest d hd)) (removed + 1) (reclaimed + c.size)
      refine ⟨c :: gone, rest, rfl, fun h => absurd h hfits, s, ?_, hfiles, htotal, ?_, henough⟩
      · rw [reclaim, if_neg hfits, hafter]
        exact hs
      · cases gone with
        | nil =>
          have : s.total = fileBytes (rmtree c.path fs) := by rw [htotal, hfiles]; rfl
          simp only [List.getLast?_singleton, Option.mem_def, Option.some.injEq, forall_eq']
          omega
        | cons d gone => simpa using hneeded

theorem nodup_cutAll (gone : List Candidate) (h : (Dict.keys fs).Nodup) :
    (Dict.keys (cutAll gone fs)).Nodup := by
  induction gone generalizing fs with
  | nil => exact h
  | cons c gone ih => exact ih (nodup_rmtree h c.path)

theorem get?_cutAll (gone : List Candidate) (fs : Files Nat) (p : Path) :
    (cutAll gone fs).get? p = if ∃ c ∈ gone, c.path <+: p then none else fs.get? p := by
  induction gone generalizing fs with
  | nil => simp [cutAll]
  | cons c gone ih =>
    rw [cutAll, List.foldl_cons, ← cutAll, ih, get?_rmtree]
    by_cases hc : c.path <+: p <;> simp [hc]

/-! ## The candidates -/

def Spot (p : Path) : Prop :=
  ∃ s ∈ [(objects, 2), (artifacts, 2), (dependencies, 2), (quarantine, 1)], s.1 <+: p ∧ p.length = s.1.length + s.2

theorem Spot.eq_of_prefix {a b : Path} (ha : Spot a) (hb : Spot b) (h : a <+: b) : a = b := by
  obtain ⟨s, hs, hsa, hlen⟩ := ha
  obtain ⟨t, ht, htb, hlen'⟩ := hb
  have happart : ∀ s ∈ [(objects, 2), (artifacts, 2), (dependencies, 2), (quarantine, 1)],
      ∀ t ∈ [(objects, 2), (artifacts, 2), (dependencies, 2), (quarantine, 1)],
        s.1 <+: t.1 ∨ t.1 <+: s.1 → s = t := by decide
  have hsame := happart s hs t ht (List.prefix_or_prefix_of_prefix (hsa.trans h) htb)
  exact h.eq_of_length (by rw [hlen, hlen', hsame])

theorem Spot.exists_base {p : Path} (h : Spot p) : ∃ base ∈ namespaces, base <+: p := by
  obtain ⟨s, hs, hpre, -⟩ := h
  have hbase : ∀ s ∈ [(objects, 2), (artifacts, 2), (dependencies, 2), (quarantine, 1)], s.1 ∈ namespaces := by decide
  exact ⟨s.1, hbase s hs, hpre⟩

theorem not_exempt {p : Path} (hp : ∃ base ∈ namespaces, base <+: p) : ∀ base ∈ [telemetryDb, transactions], ¬ base <+: p := by
  intro r hr hpre
  obtain ⟨base, hbase, h⟩ := hp
  have happart : ∀ base ∈ namespaces, ∀ r ∈ [telemetryDb, transactions], ¬ (base <+: r ∨ r <+: base) := by decide
  exact happart base hbase r hr (List.prefix_or_prefix_of_prefix h hpre)

theorem candidate_spec {atime : Path → ℚ} (root : Root) {e : Path × Node Nat} (he : e ∈ root.files) {c : Candidate}
    (hc : candidate atime root.files e = some c) : c.path = e.1 ∧ Spot c.path ∧ directorySize c.path root.files = c.size := by
  obtain ⟨p, n⟩ := e
  obtain ⟨⟨s, hs, hspot⟩, hc⟩ := Option.ite_none_right_eq_some.1 hc
  obtain rfl := Option.some.inj hc
  refine ⟨rfl, ⟨s, ?_, hspot⟩, ?_⟩
  · cases n <;> simp only [places, List.mem_cons, List.not_mem_nil] at hs ⊢ <;> tauto
  · cases n with
    | link text => rfl
    | dir => rfl
    | file size =>
      have hget := Dict.get?_of_mem root.closed.distinct he
      refine fileBytes_single root.closed.distinct he fun e hin hpre => ?_
      by_contra hne
      have hroot : p ≠ [] := by
        rintro rfl
        cases root.closed.root.symm.trans hget
      cases (root.closed.parent p e.1 hpre (Ne.symm hne) hroot
        (Dict.mem_keys.1 (List.mem_map.2 ⟨e, hin, rfl⟩))).symm.trans hget

theorem pairwise_candidates (atime : Path → ℚ) (root : Root) : (candidates atime root.files).Pairwise Apart := by
  have hdistinct := List.pairwise_map.1 root.closed.distinct
  refine List.Pairwise.filterMap _ ?_ (List.Pairwise.and_mem.1 hdistinct)
  rintro e e' ⟨he, he', hne⟩ c hc c' hc'
  obtain ⟨hpath, hspot, -⟩ := candidate_spec root he hc
  obtain ⟨hpath', hspot', -⟩ := candidate_spec root he' hc'
  rw [← hpath, ← hpath'] at hne
  exact ⟨fun h => hne (hspot.eq_of_prefix hspot' h), fun h => hne (hspot'.eq_of_prefix hspot h).symm⟩

theorem pairwise_insertionSort (cs : List Candidate) :
    (cs.insertionSort fun a b => precedes a b).Pairwise fun a b => a.atime ≤ b.atime := by
  have hinsert (c : Candidate) (cs : List Candidate) (h : cs.Pairwise fun a b => a.atime ≤ b.atime) :
      (cs.orderedInsert (fun a b => precedes a b) c).Pairwise fun a b => a.atime ≤ b.atime := by
    induction cs with
    | nil => simp
    | cons d cs ih =>
      obtain ⟨hd, hcs⟩ := List.pairwise_cons.1 h
      by_cases hcd : precedes c d = true
      · have hle : c.atime ≤ d.atime := by
          simp only [precedes, Bool.or_eq_true, Bool.and_eq_true, decide_eq_true_eq, beq_iff_eq] at hcd
          exact hcd.elim le_of_lt fun h => h.1.le
        rw [List.orderedInsert, if_pos hcd]
        exact List.pairwise_cons.2 ⟨List.forall_mem_cons.2 ⟨hle, fun e he => hle.trans (hd e he)⟩, h⟩
      · have hle : d.atime ≤ c.atime := by
          simp only [precedes, Bool.or_eq_true, decide_eq_true_eq, not_or] at hcd
          exact le_of_not_gt hcd.1
        rw [List.orderedInsert, if_neg hcd]
        refine List.pairwise_cons.2 ⟨fun e he => ?_, ih hcs⟩
        rcases (List.mem_orderedInsert _).1 he with rfl | he
        · exact hle
        · exact hd e he
  induction cs with
  | nil => exact .nil
  | cons c cs ih => exact hinsert c _ ih

/-! ## The directories left empty -/

/-- Only directories without files went, each in a namespace. -/
structure Tidied (fs fs' : Files Nat) : Prop where
  distinct : (Dict.keys fs').Nodup
  bytes : fileBytes fs' = fileBytes fs
  entries : ∀ p, fs'.get? p = fs.get? p ∨ (fs.get? p = some .dir ∧ fs'.get? p = none ∧
    (∃ base ∈ namespaces, base <+: p) ∧
      ∀ q size, p <+: q → fs'.get? q ≠ some (.file size))

theorem Tidied.refl (h : (Dict.keys fs).Nodup) : Tidied fs fs := ⟨h, rfl, fun _ => .inl rfl⟩

theorem Tidied.trans {fs fs' fs'' : Files Nat} (h : Tidied fs fs') (h' : Tidied fs' fs'') : Tidied fs fs'' := by
  refine ⟨h'.distinct, h'.bytes.trans h.bytes, fun p => ?_⟩
  rcases h.entries p with hsame | ⟨hdir, hnone, hbase, hbare⟩
  · rw [← hsame]
    exact h'.entries p
  · refine .inr ⟨hdir, ?_, hbase, fun q size hpq hfile => ?_⟩
    · rcases h'.entries p with hsame | ⟨hdir', -⟩
      · rw [hsame, hnone]
      · cases hnone.symm.trans hdir'
    · rcases h'.entries q with hsame | ⟨-, hnone', -⟩
      · exact hbare q size hpq (hsame ▸ hfile)
      · cases hnone'.symm.trans hfile

theorem Tidied.foldl {α : Type} {f : Files Nat → α → Files Nat} :
    ∀ (xs : List α) {fs : Files Nat}, (∀ x ∈ xs, ∀ fs, (Dict.keys fs).Nodup → Tidied fs (f fs x)) →
      (Dict.keys fs).Nodup → Tidied fs (xs.foldl f fs)
  | [], _, _, hn => .refl hn
  | x :: xs, fs, hf, hn => by
    have hstep := hf x List.mem_cons_self fs hn
    exact hstep.trans (Tidied.foldl xs (fun y hy => hf y (List.mem_cons_of_mem _ hy)) hstep.distinct)

theorem tidied_rmdir {base : Path} (hbase : base ∈ namespaces)
    (p : Path) (hn : (Dict.keys fs).Nodup) :
    Tidied fs (if isDir fs (base ++ p) then rmdir (base ++ p) fs else fs) := by
  split
  · next hdir =>
    rw [isDir_iff] at hdir
    unfold rmdir
    split
    · next hempty =>
      refine ⟨Dict.nodup_keys_erase hn, ?_, fun q => ?_⟩
      · rw [Dict.erase_eq_filter]
        refine fileBytes_skip fun e he hsame => ?_
        have hkey : e.1 = base ++ p := by simpa using hsame
        exact Option.some.inj ((Dict.get?_of_mem hn (hkey ▸ he)).symm.trans hdir)
      · rw [Dict.get?_erase]
        by_cases hq : q = base ++ p
        · subst hq
          refine .inr ⟨hdir, if_pos rfl, ⟨base, hbase, List.prefix_append _ _⟩, fun r size hpre => ?_⟩
          rw [Dict.get?_erase]
          split
          · exact nofun
          · next hne => simp [isEmptyDir_iff.1 hempty r hpre (Ne.symm hne)]
        · exact .inl (if_neg hq)
    · exact .refl hn
  · exact .refl hn

theorem tidied_walks (walk : Walk Nat) (hn : (Dict.keys fs).Nodup) :
    Tidied fs (namespaces.foldl (tidy walk) fs) :=
  .foldl _ (fun _ hbase _ hn => .foldl _ (fun p _ _ hn => tidied_rmdir hbase p hn) hn) hn

/-! ## What goes -/

def idle : Root where
  files := [(["dependencies"], .dir), (["dependencies", "pnpm"], .dir), (["dependencies", "pnpm", "store"], .dir)]
  closed := closed_of_items (by decide) (by decide) (by decide)
  plain := by
    have hdirs : ∀ e ∈ ([(["dependencies"], .dir), (["dependencies", "pnpm"], .dir),
        (["dependencies", "pnpm", "store"], .dir)] : Files Nat), e.2 = .dir := by decide
    intro p text h
    cases hdirs _ (Dict.mem_of_get? h)

end Dumb.InstallCache
