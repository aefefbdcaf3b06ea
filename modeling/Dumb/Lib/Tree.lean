import Mathlib.Data.List.Infix
import Mathlib.Data.List.Nodup
import Mathlib.Data.List.Sort
import Dumb.Lib.Dict

/-!
# Directory trees

A tree is the dict of its entries by path below the root, which is a directory and no entry itself. What the
bottom-up walk yields and the order in which it does so is a predicate, since the order of a listing is free.
-/

namespace Tree

open Py

abbrev Path := List String

inductive Node (γ : Type) where
  | dir
  | file (contents : γ)
  | link (text : String)
  deriving DecidableEq

abbrev Files (γ : Type) := Dict Path (Node γ)

/-- `OSError` of a copy or an assignment that finds something in its way. -/
inductive Conflict where
  | exists (p : Path)

variable {γ : Type}

/-- Every path is entered once, every entry lies in a directory, and the root is no entry. -/
structure Closed (fs : Files γ) : Prop where
  distinct : (Dict.keys fs).Nodup
  root : fs.get? [] = none
  parent : ∀ p q, p <+: q → p ≠ q → p ≠ [] → fs.get? q ≠ none → fs.get? p = some .dir

def isEmptyDir (p : Path) (fs : Files γ) : Bool := fs.all fun e => !(p.isPrefixOf e.1 && p != e.1)

def mkdirs (p : Path) (fs : Files γ) : Files γ :=
  p.inits.foldl (fun fs q => if q = [] || (fs.get? q).isSome then fs else fs.set q .dir) fs

def rmdir (p : Path) (fs : Files γ) : Files γ := if isEmptyDir p fs then fs.erase p else fs

/-- One entry of `shutil.copytree(..., dirs_exist_ok=True, symlinks=True)`: a directory may be there, a file
is overwritten. -/
def copyEntry (fs : Files γ) (e : Path × Node γ) : Except Conflict (Files γ) :=
  match e.2, fs.get? e.1 with
  | _, none => .ok (fs.set e.1 e.2)
  | .dir, some .dir => .ok fs
  | .file c, some (.file _) => .ok (fs.set e.1 (.file c))
  | _, some _ => .error (.exists e.1)

def copytree (src dst : Files γ) : Except Conflict (Files γ) := src.foldlM copyEntry dst

theorem get?_mkdirs_fold (q : Path) : ∀ (ps : List Path) (fs : Files γ),
    (ps.foldl (fun fs q => if q = [] || (fs.get? q).isSome then fs else fs.set q .dir) fs).get? q =
      if fs.get? q = none ∧ q ≠ [] ∧ q ∈ ps then some .dir else fs.get? q
  | [], fs => by simp
  | p :: ps, fs => by
    rw [List.foldl_cons, get?_mkdirs_fold q ps]
    by_cases hp : p = [] || (fs.get? p).isSome
    · simp only [hp, if_true]
      simp only [Bool.or_eq_true, decide_eq_true_eq] at hp
      by_cases hq : q = p
      · subst hq
        rcases hp with hp | hp
        · simp [hp]
        · cases hg : fs.get? q <;> simp_all
      · simp [hq]
    · simp only [Bool.or_eq_true, decide_eq_true_eq, not_or, Option.not_isSome_iff_eq_none] at hp
      by_cases hq : q = p
      · subst hq
        simp [hp]
      · simp [hp, Dict.get?_set_ne hq, hq]

theorem get?_mkdirs (p q : Path) (fs : Files γ) : (mkdirs p fs).get? q =
    if fs.get? q = none ∧ q ≠ [] ∧ q <+: p then some .dir else fs.get? q := by
  rw [mkdirs, get?_mkdirs_fold]
  simp only [List.mem_inits]

theorem nodup_mkdirs {p : Path} {fs : Files γ} (h : (Dict.keys fs).Nodup) : (Dict.keys (mkdirs p fs)).Nodup := by
  unfold mkdirs
  generalize p.inits = ps
  induction ps generalizing fs with
  | nil => exact h
  | cons q ps ih =>
    rw [List.foldl_cons]
    split
    · exact ih h
    · exact ih (Dict.nodup_keys_set h)

theorem isEmptyDir_iff {p : Path} {fs : Files γ} :
    isEmptyDir p fs = true ↔ ∀ q, p <+: q → p ≠ q → fs.get? q = none := by
  simp only [isEmptyDir, List.all_eq_true, Bool.not_eq_true', Bool.and_eq_false_iff, bne_eq_false_iff_eq]
  constructor
  · intro h q hpq hne
    by_contra hq
    obtain ⟨e, he, rfl⟩ := List.mem_map.1 (Dict.mem_keys.2 hq)
    rcases h e he with hpre | heq
    · rw [← Bool.not_eq_true, List.isPrefixOf_iff_prefix] at hpre
      exact hpre hpq
    · exact hne heq
  · intro h e he
    by_contra hc
    simp only [not_or, Bool.not_eq_false, List.isPrefixOf_iff_prefix] at hc
    exact Dict.mem_keys.1 (List.mem_map.2 ⟨e, he, rfl⟩) (h e.1 hc.1 hc.2)

theorem get?_rmdir (p q : Path) (fs : Files γ) :
    (rmdir p fs).get? q = if q = p ∧ isEmptyDir p fs = true then none else fs.get? q := by
  unfold rmdir
  split
  · rename_i he
    simp [Dict.get?_erase, he]
  · rename_i he
    simp [he]

def Fits (src dst : Files γ) : Prop :=
  ∀ p n, src.get? p = some n → dst.get? p = none ∨ (n = .dir ∧ dst.get? p = some .dir)

theorem copyEntry_ok {dst : Files γ} {p : Path} {n : Node γ}
    (h : dst.get? p = none ∨ (n = .dir ∧ dst.get? p = some .dir)) :
    ∃ fs, copyEntry dst (p, n) = .ok fs ∧ fs.get? p = some n ∧ (∀ q, q ≠ p → fs.get? q = dst.get? q) ∧
      ((Dict.keys dst).Nodup → (Dict.keys fs).Nodup) := by
  rcases h with hd | ⟨rfl, hd⟩
  · refine ⟨dst.set p n, ?_, by simp, fun q hq => Dict.get?_set_ne hq .., Dict.nodup_keys_set⟩
    cases n <;> simp [copyEntry, hd]
  · exact ⟨dst, by simp [copyEntry, hd], hd, fun q _ => rfl, id⟩

theorem Fits.tail {src dst fs : Files γ} {p : Path} {n : Node γ} (hp : Dict.get? p src = none)
    (hf : Fits ((p, n) :: src) dst) (hother : ∀ q, q ≠ p → fs.get? q = dst.get? q) : Fits src fs := by
  intro q m hq
  have hqp : q ≠ p := by
    rintro rfl
    rw [hp] at hq
    cases hq
  rw [hother q hqp]
  exact hf q m (by simp [Dict.get?, Ne.symm hqp, hq])

theorem copytree_ok : ∀ {src dst : Files γ}, (Dict.keys src).Nodup → Fits src dst →
    ∃ fs, copytree src dst = .ok fs ∧ ∀ p, fs.get? p = (Dict.get? p src).or (dst.get? p)
  | [], dst, _, _ => ⟨dst, rfl, by simp⟩
  | (p, n) :: src, dst, hn, hf => by
    obtain ⟨hp, hn'⟩ := List.nodup_cons.1 hn
    have hsrc : Dict.get? p src = none := by
      by_contra hc
      exact hp (Dict.mem_keys.2 hc)
    obtain ⟨fs₁, h₁, hp₁, hq₁, -⟩ := copyEntry_ok (hf p n (by simp [Dict.get?]))
    obtain ⟨fs, h, hview⟩ := copytree_ok hn' (hf.tail hsrc hq₁)
    refine ⟨fs, ?_, fun q => ?_⟩
    · rw [copytree, List.foldlM_cons, h₁]
      exact h
    · rw [hview]
      by_cases hq : q = p
      · subst hq
        simp [Dict.get?, hsrc, hp₁]
      · simp [Dict.get?, Ne.symm hq, hq₁ q hq]

/-- `visits` is a possible order of the entries in `os.walk(..., topdown=False)`: what lies below a directory
comes before it. -/
structure WalkOrder (fs : Files γ) (visits : List Path) : Prop where
  nodup : visits.Nodup
  mem : ∀ p, p ∈ visits ↔ fs.get? p ≠ none
  below : visits.Pairwise fun p q => ¬ p <+: q

theorem closed_of_items {fs : Files γ} (hn : (Dict.keys fs).Nodup) (hr : [] ∉ Dict.keys fs)
    (h : ∀ e ∈ fs, ∀ p ∈ e.1.inits, p ≠ e.1 → p ≠ [] → fs.get? p = some .dir) : Closed fs := by
  refine ⟨hn, ?_, fun p q hpre hne hp hq => ?_⟩
  · by_contra hc
    exact hr (Dict.mem_keys.2 hc)
  · obtain ⟨e, he, rfl⟩ := List.mem_map.1 (Dict.mem_keys.2 hq)
    exact h e he p ((List.mem_inits _ _).2 hpre) hne hp

theorem walkOrder_of_perm {fs : Files γ} {visits : List Path} (hn : (Dict.keys fs).Nodup)
    (hp : visits.Perm (Dict.keys fs)) (hb : visits.Pairwise fun p q => ¬ p <+: q) : WalkOrder fs visits :=
  ⟨hp.nodup_iff.2 hn, fun _ => hp.mem_iff.trans Dict.mem_keys, hb⟩

end Tree

/-! ## Parts of a tree

What lies below a directory is a tree of its own, and a tree can take its place. Two trees agree on their leaves
where they have the same files and links, whatever their directories.
-/

namespace Tree

open Py

variable {γ : Type}

def Below (r q : Path) : Prop := r <+: q ∧ r ≠ q

instance (r q : Path) : Decidable (Below r q) := inferInstanceAs (Decidable (r <+: q ∧ r ≠ q))

def under (r : Path) (fs : Files γ) : Files γ :=
  fs.filterMap fun e => if Below r e.1 then some (e.1.drop r.length, e.2) else none

def graft (r : Path) (sub fs : Files γ) : Files γ :=
  fs.filter (fun e => ¬ Below r e.1) ++ sub.map fun e => (r ++ e.1, e.2)

def rmtree (r : Path) (fs : Files γ) : Files γ := fs.filter fun e => !r.isPrefixOf e.1

def leaf (fs : Files γ) (p : Path) : Option (Node γ) :=
  match fs.get? p with
  | some .dir => none
  | entry => entry

def isDir (fs : Files γ) (p : Path) : Bool :=
  match fs.get? p with
  | some .dir => true
  | _ => false

structure Walk (γ : Type) where
  order : Files γ → List Path
  bottomUp : ∀ fs, Closed fs → WalkOrder fs (order fs)

def Walk.deepest (γ : Type) : Walk γ where
  order fs := (Dict.keys fs).insertionSort fun p q => q.length ≤ p.length
  bottomUp fs hclosed := by
    have hperm := List.perm_insertionSort (fun p q : Path => q.length ≤ p.length) (Dict.keys fs)
    have hsorted := List.pairwise_insertionSort (fun p q : Path => q.length ≤ p.length) (Dict.keys fs)
    have hnodup := hperm.nodup_iff.2 hclosed.distinct
    apply walkOrder_of_perm hclosed.distinct hperm
    apply (hsorted.and hnodup).imp
    rintro p q ⟨hlen, hne⟩ hpre
    exact hne (hpre.eq_of_length (Nat.le_antisymm hpre.length_le hlen))

/-! ## Paths -/

theorem below_append {r p : Path} : Below r (r ++ p) ↔ p ≠ [] := by
  unfold Below
  constructor
  · rintro ⟨-, h⟩ rfl
    simp at h
  · intro h
    exact ⟨List.prefix_append r p, by simpa using h⟩

theorem Below.exists {r q : Path} (h : Below r q) : ∃ p, p ≠ [] ∧ q = r ++ p := by
  obtain ⟨⟨p, rfl⟩, hne⟩ := h
  exact ⟨p, by simpa using hne, rfl⟩

theorem not_below_self (r : Path) : ¬ Below r r := fun h => h.2 rfl

theorem Below.trans_prefix {a b c : Path} (h : Below a b) (h' : b <+: c) : Below a c := by
  refine ⟨h.1.trans h', ?_⟩
  rintro rfl
  exact h.2 (h.1.eq_of_length (Nat.le_antisymm h.1.length_le h'.length_le))

theorem Below.not_above {a b : Path} (h : Below a b) : ¬ b <+: a := fun h' =>
  h.2 (h.1.eq_of_length (Nat.le_antisymm h.1.length_le h'.length_le))

/-! ## What is where -/

@[simp] theorem get?_under (r p : Path) (fs : Files γ) :
    (under r fs).get? p = if p = [] then none else fs.get? (r ++ p) := by
  induction fs with
  | nil => simp [under]
  | cons e fs ih =>
    unfold under at ih ⊢
    rw [List.filterMap_cons]
    by_cases hb : Below r e.1
    · obtain ⟨q, hq, heq⟩ := hb.exists
      obtain ⟨e₁, n⟩ := e
      dsimp only at heq
      subst heq
      simp only [hb, if_true, List.drop_left, Dict.get?, List.append_cancel_left_eq, ih]
      by_cases hpq : q = p
      · simp [hpq ▸ hq, hpq]
      · simp [hpq]
    · have hne : p ≠ [] → e.1 ≠ r ++ p := fun hp heq => hb (heq ▸ below_append.2 hp)
      simp only [hb, if_false, ih, Dict.get?]
      by_cases hp : p = []
      · simp [hp]
      · simp [hp, hne hp]

theorem get?_map_append (r p : Path) : ∀ sub : Files γ,
    Dict.get? (r ++ p) (sub.map fun e => (r ++ e.1, e.2)) = sub.get? p
  | [] => rfl
  | e :: sub => by simp [Dict.get?, get?_map_append r p sub]

theorem get?_map_append_none {r q : Path} (h : ¬ r <+: q) : ∀ sub : Files γ,
    Dict.get? q (sub.map fun e => (r ++ e.1, e.2)) = none
  | [] => rfl
  | e :: sub => by
    have hne : r ++ e.1 ≠ q := fun heq => h (heq ▸ List.prefix_append r e.1)
    simp [Dict.get?, hne, get?_map_append_none h sub]

theorem get?_graft_below {r p : Path} (hp : p ≠ []) (sub fs : Files γ) :
    (graft r sub fs).get? (r ++ p) = sub.get? p := by
  rw [graft, Dict.get?_append, Dict.get?_filter fun q => decide (¬ Below r q)]
  simp [below_append.2 hp, get?_map_append]

theorem get?_graft_else {r q : Path} {sub : Files γ} (hsub : sub.get? [] = none) (h : ¬ Below r q) (fs : Files γ) :
    (graft r sub fs).get? q = fs.get? q := by
  rw [graft, Dict.get?_append, Dict.get?_filter fun q => decide (¬ Below r q)]
  have hnone : Dict.get? q (sub.map fun e => (r ++ e.1, e.2)) = none := by
    by_cases hpre : r <+: q
    · have heq : r = q := by
        by_contra hne
        exact h ⟨hpre, hne⟩
      subst heq
      simpa [hsub] using get?_map_append r [] sub
    · exact get?_map_append_none hpre sub
  simp [h, hnone]

theorem get?_rmtree (r q : Path) (fs : Files γ) : (rmtree r fs).get? q = if r <+: q then none else fs.get? q := by
  rw [rmtree, Dict.get?_filter fun q => !r.isPrefixOf q]
  by_cases h : r <+: q <;> simp [h, List.isPrefixOf_iff_prefix, ← Bool.not_eq_true]

variable {p : Path} {fs : Files γ}

theorem leaf_eq_some {n : Node γ} : leaf fs p = some n ↔ fs.get? p = some n ∧ n ≠ .dir := by
  unfold leaf
  cases h : fs.get? p with
  | none => simp
  | some m =>
    cases m with
    | dir =>
      constructor
      · nofun
      · rintro ⟨heq, hne⟩
        exact absurd (Option.some.inj heq).symm hne
    | file c => simp +contextual [eq_comm]
    | link text => simp +contextual [eq_comm]

theorem leaf_eq_none : leaf fs p = none ↔ fs.get? p = none ∨ fs.get? p = some .dir := by
  unfold leaf
  split <;> simp_all

@[simp] theorem isDir_iff : isDir fs p = true ↔ fs.get? p = some .dir := by
  unfold isDir
  split <;> simp_all

theorem leaf_congr {fs fs' : Files γ} {p q : Path} (h : fs.get? p = fs'.get? q) : leaf fs p = leaf fs' q := by
  rw [leaf, leaf, h]

/-! ## Closed trees -/

theorem Closed.congr {fs fs' : Files γ} (h : Closed fs) (hn : (Dict.keys fs').Nodup)
    (heq : ∀ p, fs'.get? p = fs.get? p) : Closed fs' := by
  refine ⟨hn, by rw [heq, h.root], fun p q hpre hne hp hq => ?_⟩
  rw [heq] at hq ⊢
  exact h.parent p q hpre hne hp hq

theorem nodup_rmtree (h : (Dict.keys fs).Nodup) (r : Path) : (Dict.keys (rmtree r fs)).Nodup :=
  Dict.nodup_keys_filter h

theorem keys_under (r : Path) (fs : Files γ) : Dict.keys (under r fs) =
    (Dict.keys fs).filterMap fun q => if Below r q then some (q.drop r.length) else none := by
  unfold under Dict.keys
  rw [List.map_filterMap, List.filterMap_map]
  apply List.filterMap_congr
  intro e _
  by_cases h : Below r e.1 <;> simp [h]

theorem nodup_under (h : (Dict.keys fs).Nodup) (r : Path) : (Dict.keys (under r fs)).Nodup := by
  rw [keys_under]
  apply h.filterMap
  intro a b c ha hb
  by_cases hra : Below r a
  · by_cases hrb : Below r b
    · obtain ⟨a, -, rfl⟩ := hra.exists
      obtain ⟨b, -, rfl⟩ := hrb.exists
      simp_all
    · simp [hrb] at hb
  · simp [hra] at ha

theorem Closed.under (h : Closed fs) (r : Path) : Closed (under r fs) := by
  refine ⟨nodup_under h.distinct r, by simp, fun p q hpre hne hp hq => ?_⟩
  have hq' : q ≠ [] := by
    rintro rfl
    simp at hq
  rw [get?_under, if_neg hq'] at hq
  rw [get?_under, if_neg hp]
  exact h.parent (r ++ p) (r ++ q) ((List.prefix_append_right_inj r).2 hpre) (by simpa using hne) (by simp [hp]) hq

variable {r : Path}

theorem keys_graft {sub fs : Files γ} :
    Dict.keys (graft r sub fs) = (Dict.keys fs).filter (fun q => ¬ Below r q) ++ (Dict.keys sub).map (r ++ ·) := by
  simp [graft, Dict.keys, List.filter_map, Function.comp_def]

theorem nodup_graft {sub fs : Files γ} (h : (Dict.keys fs).Nodup) (hsub : (Dict.keys sub).Nodup)
    (hroot : sub.get? [] = none) : (Dict.keys (graft r sub fs)).Nodup := by
  rw [keys_graft]
  apply List.Nodup.append (h.filter _) (hsub.map fun _ _ => List.append_cancel_left)
  intro q hq hq'
  obtain ⟨p, hp, rfl⟩ := List.mem_map.1 hq'
  have hne : p ≠ [] := by
    rintro rfl
    exact Dict.mem_keys.1 hp hroot
  simp [below_append.2 hne] at hq

theorem Closed.graft {sub fs : Files γ} (h : Closed fs) (hsub : Closed sub)
    (hr : fs.get? r = some .dir ∨ ∀ p, sub.get? p = none) : Closed (graft r sub fs) := by
  have hroot : ¬ Below r [] := fun hb => hb.2 (List.prefix_nil.1 hb.1)
  refine ⟨nodup_graft h.distinct hsub.distinct hsub.root, ?_, fun p q hpre hne hp hq => ?_⟩
  · rw [get?_graft_else hsub.root hroot, h.root]
  · by_cases hbq : Below r q
    · obtain ⟨q, hq', rfl⟩ := hbq.exists
      rw [get?_graft_below hq'] at hq
      by_cases hbp : Below r p
      · obtain ⟨p, hp', rfl⟩ := hbp.exists
        rw [get?_graft_below hp']
        exact hsub.parent p q ((List.prefix_append_right_inj r).1 hpre) (by simpa using hne) hp' hq
      · have hpr : p <+: r := by
          rcases List.prefix_or_prefix_of_prefix hpre (List.prefix_append r q) with hpr | hrp
          · exact hpr
          · by_contra hc
            exact hbp ⟨hrp, fun heq => hc (heq ▸ List.prefix_refl r)⟩
        have hdir : fs.get? r = some .dir := hr.resolve_right fun hnone => hq (hnone q)
        rw [get?_graft_else hsub.root hbp]
        by_cases heq : p = r
        · rw [heq, hdir]
        · exact h.parent p r hpr heq hp (by simp [hdir])
    · have hbp : ¬ Below r p := fun hb => hbq (hb.trans_prefix hpre)
      rw [get?_graft_else hsub.root hbq] at hq
      rw [get?_graft_else hsub.root hbp]
      exact h.parent p q hpre hne hp hq

theorem Closed.rmtree (h : Closed fs) (r : Path) : Closed (rmtree r fs) := by
  refine ⟨Dict.nodup_keys_filter h.distinct, ?_, fun p q hpre hne hp hq => ?_⟩
  · rw [get?_rmtree, h.root, ite_self]
  · rw [get?_rmtree] at hq ⊢
    by_cases hrq : r <+: q
    · simp [hrq] at hq
    · have hrp : ¬ r <+: p := fun hrp => hrq (hrp.trans hpre)
      rw [if_neg hrq] at hq
      rw [if_neg hrp]
      exact h.parent p q hpre hne hp hq

theorem Closed.mkdirs (h : Closed fs) (hr : ∀ p, p <+: r → leaf fs p = none) :
    Closed (mkdirs r fs) := by
  refine ⟨nodup_mkdirs h.distinct, by simp [get?_mkdirs, h.root], fun p q hpre hne hp hq => ?_⟩
  rw [get?_mkdirs] at hq ⊢
  by_cases hpr : p <+: r
  · rcases leaf_eq_none.1 (hr p hpr) with hnone | hdir
    · simp [hnone, hp, hpr]
    · simp [hdir]
  · have hqr : ¬ q <+: r := fun hqr => hpr (hpre.trans hqr)
    have hq' : fs.get? q ≠ none := by simpa [hqr] using hq
    simp [h.parent p q hpre hne hp hq']

theorem Closed.set (h : Closed fs) {node : Node γ} (hp : p ≠ [])
    (hdirs : ∀ q, Below q p → q ≠ [] → fs.get? q = some .dir) (hleaf : fs.get? p ≠ some .dir) :
    Closed (fs.set p node) := by
  refine ⟨Dict.nodup_keys_set h.distinct, ?_, fun q r hpre hne hq hr => ?_⟩
  · rw [Dict.get?_set_ne (Ne.symm hp), h.root]
  · have hqp : q ≠ p := by
      rintro rfl
      have hr' : fs.get? r ≠ none := by rwa [Dict.get?_set_ne hne.symm] at hr
      exact hleaf (h.parent q r hpre hne hq hr')
    rw [Dict.get?_set_ne hqp]
    by_cases hrp : r = p
    · exact hdirs q ⟨hrp ▸ hpre, hqp⟩ hq
    · rw [Dict.get?_set_ne hrp] at hr
      exact h.parent q r hpre hne hq hr

end Tree
