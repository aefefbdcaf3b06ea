import Dumb.Lib.Tree

/-!
# RuntimeRollbackSnapshot and DeferredClearTransaction

The two transactions of `utils/transactional_install.py` for installers that work in place. One copies the
replaceable part of the target aside, the other moves it aside. Both leave alone what lies at or below the
paths they were given.
-/

namespace Dumb.Install

open Py Tree

variable {γ : Type}

/-! ## Given paths -/

structure Given where
  absolute : Bool
  parts : Path

section
variable (resolve : Path → Path) (target : Path)

def relativeTo (value : Given) : Option Path :=
  if value.absolute then
    let path := resolve value.parts
    if target.isPrefixOf path then some (path.drop target.length) else none
  else some value.parts

def normalize (values : List Given) : List Path :=
  (values.filterMap (relativeTo resolve target)).filter fun parts => parts ≠ [] && !parts.contains ".."

end

def covers (given : List Path) (relative : Path) : Bool := given.any fun value => value.isPrefixOf relative

/-! ## RuntimeRollbackSnapshot -/

inductive Place (γ : Type) where
  | missing
  | other
  | dir (files : Files γ)

structure Runtime (γ : Type) where
  target : Place γ
  snapshot : Option (Files γ)

namespace Runtime

variable (persistent : List Path)

/-- The copy does not enter a directory whose name `ignore` returned. -/
def ignored (path : Path) : Bool := path.inits.any (covers persistent)

def capture (s : Runtime γ) : Bool × Runtime γ :=
  match s.target with
  | .dir files => (true, { s with snapshot := some (files.filter fun e => !ignored persistent e.1) })
  | _ => (false, s)

/-- `shutil.rmtree` of a directory, `unlink` of anything else. -/
def remove (path : Path) (files : Files γ) : Files γ := files.filter fun e => !path.isPrefixOf e.1

def topLevel (files : Files γ) : List String := files.filterMap fun
  | ([name], _) => some name
  | _ => none

def removeReplaceable (files : Files γ) : Files γ :=
  (topLevel files).foldl (fun files name => if covers persistent [name] then files else remove [name] files) files

def opened : Place γ → Option (Files γ)
  | .missing => some []
  | .other => none
  | .dir files => some files

def rollback (s : Runtime γ) : Bool × Runtime γ :=
  match s.snapshot, opened s.target with
  | some snapshot, some files =>
    let files := removeReplaceable persistent files
    match Tree.copytree snapshot files with
    | .ok files => (true, { s with target := .dir files })
    | .error _ => (false, { s with target := .dir files })
  | _, _ => (false, s)

end Runtime

/-! ## DeferredClearTransaction -/

structure Clear (γ : Type) where
  target : Files γ
  backup : Files γ
  captured : Bool
  captureComplete : Bool

namespace Clear

variable (excluded : List Path)

def captureVisits (fails : Path → Bool) : List Path → Clear γ → Clear γ
  | [], s => { s with captureComplete := true }
  | p :: visits, s =>
    if covers excluded p then captureVisits fails visits s
    else match s.target.get? p with
      | some .dir => captureVisits fails visits { s with target := rmdir p s.target }
      | some node =>
        let s := { s with backup := mkdirs p.dropLast s.backup }
        if fails p then s
        else captureVisits fails visits { s with target := s.target.erase p, backup := s.backup.set p node }
      | none => captureVisits fails visits s

def capture (fails : Path → Bool) (visits : List Path) (target : Files γ) : Clear γ :=
  captureVisits excluded fails visits
    { target := target, backup := [], captured := true, captureComplete := false }

def clearVisit (files : Files γ) (p : Path) : Files γ :=
  if covers excluded p then files
  else match files.get? p with
    | some .dir => rmdir p files
    | some _ => files.erase p
    | none => files

def rollback (visits : List Path) (s : Clear γ) : Bool × Clear γ :=
  if !s.captured then (true, s)
  else
    let target := if s.captureComplete then visits.foldl (clearVisit excluded) s.target else s.target
    match Tree.copytree s.backup target with
    | .ok files => (true, { target := files, backup := [], captured := false, captureComplete := false })
    | .error _ => (false, { s with target := target })

end Clear

end Dumb.Install

/-! ## What a runtime rollback leaves at each path -/

namespace Dumb.Install

open Py Tree

variable {γ : Type}

theorem covers_mono {given : List Path} {p q : Path} (h : p <+: q) (hp : covers given p = true) :
    covers given q = true := by
  simp only [covers, List.any_eq_true, List.isPrefixOf_iff_prefix] at hp ⊢
  obtain ⟨value, hmem, hpre⟩ := hp
  exact ⟨value, hmem, hpre.trans h⟩

theorem ignored_eq_covers (persistent : List Path) (p : Path) :
    Runtime.ignored persistent p = covers persistent p := by
  rw [Bool.eq_iff_iff, Runtime.ignored, List.any_eq_true]
  constructor
  · rintro ⟨q, hq, hc⟩
    exact covers_mono ((List.mem_inits _ _).1 hq) hc
  · intro h
    exact ⟨p, (List.mem_inits _ _).2 (List.prefix_refl p), h⟩

namespace Runtime

variable {persistent : List Path}

theorem get?_capture (files : Files γ) (p : Path) :
    Dict.get? p (files.filter fun e => !ignored persistent e.1) =
      if covers persistent p = true then none else Dict.get? p files := by
  rw [Dict.get?_filter (fun p => !ignored persistent p), ignored_eq_covers]
  cases covers persistent p <;> simp

theorem get?_remove (path p : Path) (files : Files γ) :
    Dict.get? p (remove path files) = if path <+: p then none else Dict.get? p files := by
  rw [remove, Dict.get?_filter (fun p => !path.isPrefixOf p)]
  by_cases h : path <+: p
  · simp [h, List.isPrefixOf_iff_prefix.2 h]
  · have hp : path.isPrefixOf p = false := by
      rw [← Bool.not_eq_true, List.isPrefixOf_iff_prefix]
      exact h
    simp [h, hp]

theorem get?_removeNames (name : String) (rest : Path) : ∀ (names : List String) (files : Files γ),
    Dict.get? (name :: rest)
      (names.foldl (fun files n => if covers persistent [n] then files else remove [n] files) files) =
      if name ∈ names ∧ covers persistent [name] = false then none else Dict.get? (name :: rest) files
  | [], files => by simp
  | n :: names, files => by
    rw [List.foldl_cons, get?_removeNames name rest names]
    by_cases hn : n = name
    · subst hn
      cases hc : covers persistent [n] with
      | true => simp
      | false => simp [get?_remove]
    · have hpre : ¬ [n] <+: name :: rest := by simp [hn]
      cases hc : covers persistent [n] with
      | true => simp [Ne.symm hn]
      | false => simp [Ne.symm hn, get?_remove, hpre]

theorem mem_topLevel {files : Files γ} {name : String} (h : Dict.get? [name] files ≠ none) :
    name ∈ topLevel files := by
  obtain ⟨⟨p, node⟩, hmem, hp⟩ := List.mem_map.1 (Dict.mem_keys.2 h)
  cases hp
  exact List.mem_filterMap.2 ⟨([name], node), hmem, rfl⟩

def top (p : Path) : Path := p.take 1

theorem get?_removeNames_nil : ∀ (names : List String) (files : Files γ),
    Dict.get? []
      (names.foldl (fun files n => if covers persistent [n] then files else remove [n] files) files) =
      Dict.get? [] files
  | [], _ => rfl
  | n :: names, files => by
    rw [List.foldl_cons, get?_removeNames_nil names]
    split
    · rfl
    · simp [get?_remove]

theorem get?_removeReplaceable {files : Files γ} (hclosed : Closed files) (p : Path) :
    Dict.get? p (removeReplaceable persistent files) =
      if covers persistent (top p) = true then Dict.get? p files else none := by
  cases p with
  | nil => simp [removeReplaceable, get?_removeNames_nil, hclosed.root]
  | cons name rest =>
    rw [removeReplaceable, get?_removeNames]
    cases hc : covers persistent (top (name :: rest)) with
    | true =>
      have hc' : covers persistent [name] = true := by simpa [top] using hc
      simp [hc']
    | false =>
      have hc' : covers persistent [name] = false := by simpa [top] using hc
      simp only [hc', and_true, Bool.false_eq_true, ↓reduceIte, ite_eq_left_iff]
      intro hnot
      by_contra hne
      refine hnot (mem_topLevel ?_)
      cases rest with
      | nil => exact hne
      | cons m rest =>
        rw [hclosed.parent [name] (name :: m :: rest) (by simp) (by simp) (by simp) hne]
        simp

theorem rollback_view {before : Files γ} {s : Runtime γ} {now : Files γ} (hnow : opened s.target = some now)
    (hbefore : Closed before) (hclosed : Closed now)
    (hs : s.snapshot = some (before.filter fun e => !ignored persistent e.1)) :
    ∃ files, rollback persistent s = (true, { s with target := .dir files }) ∧ ∀ p, Dict.get? p files =
      if covers persistent p = true then
        if covers persistent (top p) = true then Dict.get? p now else none
      else Dict.get? p before := by
  have htop : ∀ p, covers persistent (top p) = true → covers persistent p = true :=
    fun p => covers_mono (List.take_prefix 1 p)
  have hfits : Fits (before.filter fun e => !ignored persistent e.1) (removeReplaceable persistent now) := by
    intro p n hp
    rw [get?_capture] at hp
    split at hp
    · cases hp
    · rename_i hc
      left
      rw [get?_removeReplaceable hclosed]
      exact if_neg fun ht => hc (htop p ht)
  have hnodup : (Dict.keys (before.filter fun e => !ignored persistent e.1)).Nodup :=
    (List.filter_sublist.map _).nodup hbefore.distinct
  obtain ⟨files, hcopy, hview⟩ := copytree_ok hnodup hfits
  refine ⟨files, by simp [rollback, hs, hnow, hcopy], fun p => ?_⟩
  rw [hview, get?_capture, get?_removeReplaceable hclosed]
  by_cases hc : covers persistent p = true
  · simp [hc]
  · have ht : ¬ covers persistent (top p) = true := fun h => hc (htop p h)
    simp [hc, ht]

end Runtime

end Dumb.Install
