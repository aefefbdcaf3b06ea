import Mathlib.Data.List.Basic

/-!
# The two ways of clearing

`clear_directory` of `utils/setup.py` outside a deferred scope, and inside one with the capture and the commit of
`DeferredClearTransaction`. The tree is in the order in which its directories list it, and the only call that fails is the removal of
a directory that is not empty.
-/

namespace Dumb.Install.Clearing

abbrev Path : Type := List String

inductive Leaf where
  | file (content : List UInt8)
  | link (target : String) (leads : Bool)
  deriving DecidableEq

inductive Listing where
  | nil
  | leaf (name : String) (leaf : Leaf) (rest : Listing)
  | dir (name : String) (children rest : Listing)
  deriving DecidableEq

namespace Listing

def names : Listing → List String
  | nil => []
  | leaf name _ rest => name :: rest.names
  | dir name _ rest => name :: rest.names

def Distinct : Listing → Prop
  | nil => True
  | leaf name _ rest => name ∉ rest.names ∧ rest.Distinct
  | dir name children rest => name ∉ rest.names ∧ children.Distinct ∧ rest.Distinct

def exists_ (query : String) : Listing → Bool
  | nil => false
  | leaf name (.file _) rest => name = query || rest.exists_ query
  | leaf name (.link _ leads) rest => (name = query && leads) || rest.exists_ query
  | dir name _ rest => name = query || rest.exists_ query

section
variable (excluded : Path → Bool)

def clearContents (path : Path) : Listing → Listing × Bool
  | nil => (nil, false)
  | leaf name entry rest =>
    let cleared := clearContents path rest
    if excluded (path ++ [name]) then (leaf name entry cleared.1, cleared.2) else cleared
  | dir name children rest =>
    if excluded (path ++ [name]) then
      let cleared := clearContents path rest
      (dir name children cleared.1, cleared.2)
    else
      let inside := clearContents (path ++ [name]) children
      if inside.2 || inside.1 ≠ nil then (dir name inside.1 rest, true) else clearContents path rest

/-- What `capture` leaves, which goes through a directory before it tries to remove it. -/
def capture (path : Path) : Listing → Listing
  | nil => nil
  | leaf name entry rest => if excluded (path ++ [name]) then leaf name entry (capture path rest) else capture path rest
  | dir name children rest =>
    let inside := capture (path ++ [name]) children
    if excluded (path ++ [name]) || inside ≠ nil then dir name inside (capture path rest) else capture path rest

def holds (path : Path) : Listing → Bool
  | nil => false
  | leaf name _ rest => excluded (path ++ [name]) || rest.holds path
  | dir name children rest => excluded (path ++ [name]) || children.holds (path ++ [name]) || rest.holds path

def keep (path : Path) : Listing → Listing
  | nil => nil
  | leaf name entry rest => if excluded (path ++ [name]) then leaf name entry (rest.keep path) else rest.keep path
  | dir name children rest =>
    if excluded (path ++ [name]) then dir name children (rest.keep path)
    else if children.holds excluded (path ++ [name]) then dir name (children.keep (path ++ [name])) (rest.keep path)
    else rest.keep path

def Spared (path : Path) : Listing → Prop
  | nil => True
  | leaf name _ rest => excluded (path ++ [name]) = true ∧ rest.Spared path
  | dir name children rest =>
    (excluded (path ++ [name]) = true ∨ children.holds excluded (path ++ [name]) = true ∧ children.Spared (path ++ [name])) ∧
      rest.Spared path

def Tidy (path : Path) : Listing → Prop
  | nil => True
  | leaf _ _ rest => rest.Tidy path
  | dir name children rest =>
    if excluded (path ++ [name]) = true then rest.Tidy path
    else if children.holds excluded (path ++ [name]) = true then children.Tidy (path ++ [name]) ∧ rest.Spared excluded path
    else rest.Tidy path

end

def SameMarks (excluded resolved : Path → Bool) (path : Path) : Listing → Prop
  | nil => True
  | leaf name _ rest => excluded (path ++ [name]) = resolved (path ++ [name]) ∧ rest.SameMarks excluded resolved path
  | dir name children rest =>
    ((excluded (path ++ [name]) || children.holds excluded (path ++ [name])) =
        (resolved (path ++ [name]) || children.holds resolved (path ++ [name]))) ∧
      children.SameMarks excluded resolved (path ++ [name]) ∧ rest.SameMarks excluded resolved path

end Listing

open Listing

def excludeDirs (directory : Path) (tree : Listing) (given : List Path) : List Path :=
  let given := if tree.exists_ "venv" && !given.contains (directory ++ ["venv"]) then given ++ [directory ++ ["venv"]] else given
  if tree.exists_ ".dotnet-sdk" && !given.contains (directory ++ [".dotnet-sdk"]) then given ++ [directory ++ [".dotnet-sdk"]]
  else given

/-- `should_exclude`. Nothing starts with the root and another slash. -/
def shouldExclude (directory : Path) (excludes : List Path) (path : Path) : Bool :=
  excludes.any fun exclude => exclude ≠ [] && exclude.isPrefixOf (directory ++ path)

def isExcluded (resolve : Path → Path) (directory : Path) (excludes : List Path) (path : Path) : Bool :=
  excludes.any fun exclude =>
    (resolve directory).isPrefixOf (resolve exclude) && resolve exclude ≠ resolve directory &&
      ((resolve exclude).drop (resolve directory).length).isPrefixOf path

def clearDirectory (directory : Path) (given : List Path) (tree : Listing) : Bool × Listing :=
  match tree.clearContents (shouldExclude directory (excludeDirs directory tree given)) [] with
  | (left, false) => (true, left)
  | (left, true) => (true, left)

def clearDirectoryDeferred (resolve : Path → Path) (directory : Path) (given : List Path) (tree : Listing) : Bool × Listing :=
  (true, tree.capture (isExcluded resolve directory (excludeDirs directory tree given)) [])

def Agree (resolve : Path → Path) (directory : Path) (given : List Path) (tree : Listing) : Prop :=
  clearDirectory directory given tree = (true, tree.keep (shouldExclude directory (excludeDirs directory tree given)) []) ∧
    clearDirectoryDeferred resolve directory given tree = clearDirectory directory given tree

instance (resolve : Path → Path) (directory : Path) (given : List Path) (tree : Listing) :
    Decidable (Agree resolve directory given tree) := inferInstanceAs (Decidable (_ ∧ _))

/-! ## What is kept -/

namespace Listing

variable {excluded : Path → Bool}

theorem keep_below_excluded (hclosed : ∀ p q, excluded p = true → excluded (p ++ q) = true) {path : Path}
    (h : excluded path = true) : ∀ es : Listing, es.keep excluded path = es
  | nil => rfl
  | leaf name entry rest => by rw [keep, if_pos (hclosed _ _ h), keep_below_excluded hclosed h rest]
  | dir name children rest => by rw [keep, if_pos (hclosed _ _ h), keep_below_excluded hclosed h rest]

theorem keep_eq_nil (path : Path) : ∀ es : Listing, es.keep excluded path = nil ↔ es.holds excluded path = false
  | nil => by simp [keep, holds]
  | leaf name entry rest => by
    by_cases h : excluded (path ++ [name]) = true
    · simp [keep, holds, h]
    · simp [keep, holds, h, keep_eq_nil path rest]
  | dir name children rest => by
    by_cases h : excluded (path ++ [name]) = true
    · simp [keep, holds, h]
    · by_cases hc : children.holds excluded (path ++ [name]) = true
      · simp [keep, holds, h, hc]
      · simp [keep, holds, h, hc, keep_eq_nil path rest]

theorem capture_eq_keep (hclosed : ∀ p q, excluded p = true → excluded (p ++ q) = true) (path : Path) :
    ∀ es : Listing, es.capture excluded path = es.keep excluded path
  | nil => rfl
  | leaf name entry rest => by rw [capture, keep, capture_eq_keep hclosed path rest]
  | dir name children rest => by
    rw [capture, keep, capture_eq_keep hclosed path rest, capture_eq_keep hclosed _ children]
    by_cases h : excluded (path ++ [name]) = true
    · simp [h, keep_below_excluded hclosed h]
    · have hnil : children.keep excluded (path ++ [name]) = nil ↔ children.holds excluded (path ++ [name]) = false :=
        keep_eq_nil (path ++ [name]) children
      by_cases hc : children.holds excluded (path ++ [name]) = true
      · have hne : children.keep excluded (path ++ [name]) ≠ nil := fun heq => by simp [hnil.1 heq] at hc
        simp [h, hc, hne]
      · have heq : children.keep excluded (path ++ [name]) = nil := hnil.2 (by simpa using hc)
        simp [h, hc, heq]

def size : Listing → Nat
  | nil => 0
  | leaf _ _ rest => rest.size + 1
  | dir _ children rest => children.size + rest.size + 1

theorem size_keep_le (path : Path) : ∀ es : Listing, (es.keep excluded path).size ≤ es.size
  | nil => Nat.le_refl _
  | leaf name entry rest => by
    have hrest := size_keep_le path rest
    rw [keep]
    split <;> simp only [size] <;> omega
  | dir name children rest => by
    have hrest := size_keep_le path rest
    have hchildren := size_keep_le (path ++ [name]) children
    rw [keep]
    split
    · simp only [size]; omega
    · split <;> simp only [size] <;> omega

theorem keep_eq_self (hclosed : ∀ p q, excluded p = true → excluded (p ++ q) = true) (path : Path) :
    ∀ es : Listing, es.keep excluded path = es ↔ es.Spared excluded path
  | nil => by simp [keep, Spared]
  | leaf name entry rest => by
    by_cases h : excluded (path ++ [name]) = true
    · simp [keep, Spared, h, keep_eq_self hclosed path rest]
    · have hless : (rest.keep excluded path).size ≤ rest.size := size_keep_le path rest
      have hne : rest.keep excluded path ≠ leaf name entry rest := by
        intro heq
        rw [heq, size] at hless
        omega
      simp [keep, Spared, h, hne]
  | dir name children rest => by
    by_cases h : excluded (path ++ [name]) = true
    · simp [keep, Spared, h, keep_eq_self hclosed path rest]
    · by_cases hc : children.holds excluded (path ++ [name]) = true
      · simp [keep, Spared, h, hc, keep_eq_self hclosed path rest, keep_eq_self hclosed _ children]
      · have hless : (rest.keep excluded path).size ≤ rest.size := size_keep_le path rest
        have hne : rest.keep excluded path ≠ dir name children rest := by
          intro heq
          rw [heq, size] at hless
          omega
        simp [keep, Spared, h, hc, hne]

theorem clearContents_nil (path : Path) : ∀ es : Listing,
    ((es.clearContents excluded path).1 = nil ↔ es.holds excluded path = false) ∧
    ((es.clearContents excluded path).2 = true → (es.clearContents excluded path).1 ≠ nil)
  | nil => by simp [clearContents, holds]
  | leaf name entry rest => by
    have ih := clearContents_nil path rest
    by_cases h : excluded (path ++ [name]) = true
    · simp [clearContents, holds, h]
    · simpa [clearContents, holds, h] using ih
  | dir name children rest => by
    have ih := clearContents_nil path rest
    have ihc := clearContents_nil (path ++ [name]) children
    by_cases h : excluded (path ++ [name]) = true
    · simp [clearContents, holds, h]
    · by_cases hc : children.holds excluded (path ++ [name]) = true
      · have hne : (children.clearContents excluded (path ++ [name])).1 ≠ nil := fun heq => by simp [ihc.1.1 heq] at hc
        simp [clearContents, holds, h, hc, hne]
      · have heq : (children.clearContents excluded (path ++ [name])).1 = nil := ihc.1.2 (by simpa using hc)
        have hquiet : (children.clearContents excluded (path ++ [name])).2 = false := by
          by_contra hraised
          exact ihc.2 (by simpa using hraised) heq
        simpa [clearContents, holds, h, hc, heq, hquiet] using ih

theorem clearContents_eq_keep (hclosed : ∀ p q, excluded p = true → excluded (p ++ q) = true) (path : Path) :
    ∀ es : Listing, (es.clearContents excluded path).1 = es.keep excluded path ↔ es.Tidy excluded path
  | nil => by simp [clearContents, keep, Tidy]
  | leaf name entry rest => by
    have ih := clearContents_eq_keep hclosed path rest
    by_cases h : excluded (path ++ [name]) = true <;> simpa [clearContents, keep, Tidy, h] using ih
  | dir name children rest => by
    have ih := clearContents_eq_keep hclosed path rest
    have ihc := clearContents_eq_keep hclosed (path ++ [name]) children
    have hnil : ((children.clearContents excluded (path ++ [name])).1 = nil ↔ children.holds excluded (path ++ [name]) = false) ∧
        ((children.clearContents excluded (path ++ [name])).2 = true →
          (children.clearContents excluded (path ++ [name])).1 ≠ nil) := clearContents_nil (path ++ [name]) children
    by_cases h : excluded (path ++ [name]) = true
    · simpa [clearContents, keep, Tidy, h] using ih
    · by_cases hc : children.holds excluded (path ++ [name]) = true
      · have hne : (children.clearContents excluded (path ++ [name])).1 ≠ nil := fun heq => by simp [hnil.1.1 heq] at hc
        simp only [clearContents, keep, Tidy, h, hc, hne, Bool.false_eq_true, if_false, if_true, ne_eq, not_false_eq_true,
          decide_true, Bool.or_true, dir.injEq, true_and]
        rw [ihc, eq_comm, keep_eq_self hclosed]
      · have heq : (children.clearContents excluded (path ++ [name])).1 = nil := hnil.1.2 (by simpa using hc)
        have hquiet : (children.clearContents excluded (path ++ [name])).2 = false := by
          by_contra hraised
          exact hnil.2 (by simpa using hraised) heq
        simpa [clearContents, keep, Tidy, h, hc, heq, hquiet] using ih

theorem names_keep (path : Path) {name : String} : ∀ es : Listing, name ∈ (es.keep excluded path).names → name ∈ es.names
  | nil, h => h
  | leaf other entry rest, h => by
    have ih : name ∈ (rest.keep excluded path).names → name ∈ rest.names := names_keep path rest
    rw [keep] at h
    split at h
    · simp only [names, List.mem_cons] at h ⊢
      exact h.imp_right ih
    · exact List.mem_cons_of_mem _ (ih h)
  | dir other children rest, h => by
    have ih : name ∈ (rest.keep excluded path).names → name ∈ rest.names := names_keep path rest
    rw [keep] at h
    split at h
    · simp only [names, List.mem_cons] at h ⊢
      exact h.imp_right ih
    · split at h
      · simp only [names, List.mem_cons] at h ⊢
        exact h.imp_right ih
      · exact List.mem_cons_of_mem _ (ih h)

theorem keep_dir (hclosed : ∀ p q, excluded p = true → excluded (p ++ q) = true) (path : Path) (name : String)
    (children rest : Listing) : (dir name children rest).keep excluded path =
      if (excluded (path ++ [name]) || children.holds excluded (path ++ [name])) = true then
        dir name (children.keep excluded (path ++ [name])) (rest.keep excluded path)
      else rest.keep excluded path := by
  by_cases h : excluded (path ++ [name]) = true
  · simp [keep, h, keep_below_excluded hclosed h]
  · simp [keep, h]

theorem keep_eq_keep {resolved : Path → Bool} (hclosed : ∀ p q, excluded p = true → excluded (p ++ q) = true)
    (hresolved : ∀ p q, resolved p = true → resolved (p ++ q) = true) (path : Path) :
    ∀ es : Listing, es.Distinct → (es.keep excluded path = es.keep resolved path ↔ es.SameMarks excluded resolved path)
  | nil, _ => by simp [keep, SameMarks]
  | leaf name entry rest, hdistinct => by
    have ih := keep_eq_keep hclosed hresolved path rest hdistinct.2
    have hnew : ∀ (marks : Path → Bool) (entry : Leaf) (other : Listing), rest.keep marks path ≠ leaf name entry other := by
      intro marks entry other heq
      have hmem : name ∈ (rest.keep marks path).names := by
        rw [heq]
        exact List.mem_cons_self
      exact hdistinct.1 (names_keep path rest hmem)
    rw [keep, keep, SameMarks, ← ih]
    cases excluded (path ++ [name]) <;> cases resolved (path ++ [name]) <;> simp [hnew, (hnew _ _ _).symm]
  | dir name children rest, hdistinct => by
    have ih := keep_eq_keep hclosed hresolved path rest hdistinct.2.2
    have ihc := keep_eq_keep hclosed hresolved (path ++ [name]) children hdistinct.2.1
    have hnew : ∀ (marks : Path → Bool) (inside other : Listing), rest.keep marks path ≠ dir name inside other := by
      intro marks inside other heq
      have hmem : name ∈ (rest.keep marks path).names := by
        rw [heq]
        exact List.mem_cons_self
      exact hdistinct.1 (names_keep path rest hmem)
    rw [keep_dir hclosed, keep_dir hresolved, SameMarks, ← ih, ← ihc]
    cases hl : excluded (path ++ [name]) || children.holds excluded (path ++ [name]) <;>
      cases hr : resolved (path ++ [name]) || children.holds resolved (path ++ [name])
    · -- Neither keeps anything of the directory.
      have hleft := (keep_eq_nil (path ++ [name]) children).2 (Bool.or_eq_false_iff.1 hl).2
      have hright := (keep_eq_nil (path ++ [name]) children).2 (Bool.or_eq_false_iff.1 hr).2
      simp [hleft, hright]
    · simp [hnew]
    · simp [(hnew _ _ _).symm]
    · simp

end Listing

theorem shouldExclude_closed (directory : Path) (excludes : List Path) (p q : Path)
    (h : shouldExclude directory excludes p = true) : shouldExclude directory excludes (p ++ q) = true := by
  simp only [shouldExclude, List.any_eq_true, Bool.and_eq_true, List.isPrefixOf_iff_prefix] at h ⊢
  obtain ⟨exclude, hmem, hne, hpre⟩ := h
  exact ⟨exclude, hmem, hne, hpre.trans (by simp [← List.append_assoc])⟩

theorem isExcluded_closed (resolve : Path → Path) (directory : Path) (excludes : List Path) (p q : Path)
    (h : isExcluded resolve directory excludes p = true) : isExcluded resolve directory excludes (p ++ q) = true := by
  simp only [isExcluded, List.any_eq_true, Bool.and_eq_true, List.isPrefixOf_iff_prefix] at h ⊢
  obtain ⟨exclude, hmem, hbelow, hpre⟩ := h
  exact ⟨exclude, hmem, hbelow, hpre.trans (List.prefix_append p q)⟩

theorem clearDirectory_fst (directory : Path) (given : List Path) (tree : Listing) :
    (clearDirectory directory given tree).1 = true := by
  unfold clearDirectory
  split <;> rfl

theorem clearDirectory_snd (directory : Path) (given : List Path) (tree : Listing) :
    (clearDirectory directory given tree).2 =
      (tree.clearContents (shouldExclude directory (excludeDirs directory tree given)) []).1 := by
  unfold clearDirectory
  split <;> rename_i heq <;> rw [heq]

/-- The two ways of clearing agree if and only if the exclusions have the same entries at, below and above them as they are written
and as they are resolved, and behind the first directory that is not excluded and keeps something nothing is to be removed. -/
theorem clears_agree (resolve : Path → Path) (directory : Path) (given : List Path) (tree : Listing) (hdistinct : tree.Distinct) :
    Agree resolve directory given tree ↔
      tree.SameMarks (shouldExclude directory (excludeDirs directory tree given))
          (isExcluded resolve directory (excludeDirs directory tree given)) [] ∧
        tree.Tidy (shouldExclude directory (excludeDirs directory tree given)) [] := by
  have hclosed := shouldExclude_closed directory (excludeDirs directory tree given)
  have hresolved := isExcluded_closed resolve directory (excludeDirs directory tree given)
  rw [← clearContents_eq_keep hclosed, ← keep_eq_keep hclosed hresolved _ _ hdistinct, ← clearDirectory_snd, Agree,
    clearDirectoryDeferred, capture_eq_keep hresolved, Prod.ext_iff, Prod.ext_iff, clearDirectory_fst]
  simp only [true_and]
  constructor
  · rintro ⟨himmediate, hdeferred⟩
    exact ⟨himmediate.symm.trans hdeferred.symm, himmediate⟩
  · rintro ⟨hsame, himmediate⟩
    exact ⟨himmediate, (himmediate.trans hsame).symm⟩

/-! ## Samples -/

def directory : Path := ["srv"]

def early : Listing := .dir "config" (.leaf "settings" (.file [1]) .nil) (.leaf "app" (.file [2]) .nil)

def late : Listing := .leaf "app" (.file [2]) (.dir "config" (.leaf "settings" (.file [1]) .nil) .nil)

theorem clears_agree_late : Agree id directory [["srv", "config", "settings"]] late := by
  apply (clears_agree id directory _ late ⟨by decide, by decide, ⟨by decide, trivial⟩, trivial⟩).2
  refine ⟨⟨by decide, by decide, ⟨by decide, trivial⟩, trivial⟩, ?_⟩
  exact ⟨trivial, trivial⟩

def linked : Listing := .leaf "data" (.link "/mnt" true) .nil

def resolveLinked (path : Path) : Path := if path = ["srv", "data"] then ["mnt"] else path

/-- What is listed behind the kept directory stays, and the excluded link does not. -/
theorem clears_differ :
    ¬Agree id directory [["srv", "config", "settings"]] early ∧ ¬Agree resolveLinked directory [["srv", "data"]] linked := by
  decide

end Dumb.Install.Clearing
