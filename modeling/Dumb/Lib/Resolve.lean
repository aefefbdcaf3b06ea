import Dumb.Lib.Tree

/-!
# Path resolution

What a path leads to through directories and symbolic links, over a tree that starts at the root. Removing a
link that leads nowhere changes nothing else.
-/

namespace Tree

open Py

variable {γ : Type}

def isAbsolute (text : String) : Bool := text.toList.head? = some '/'

/-- The parts of a path. A slash at the end asks for a directory, as `.` does. -/
def parts (text : String) : Path :=
  let names := (text.toList.splitOn '/').map String.ofList
  names.filter (· ≠ "") ++ if names.getLast? = some "" then ["."] else []

/-- Goes down from the directory `dir`, and on with `jump` where a part is a link. -/
def follow (jump : Path → Path → Option Path) (fs : Files γ) : Path → Path → Option Path
  | dir, [] => some dir
  | dir, name :: rest =>
    if name = "." then follow jump fs dir rest
    else if name = ".." then follow jump fs dir.dropLast rest
    else match fs.get? (dir ++ [name]) with
      | some .dir => follow jump fs (dir ++ [name]) rest
      | some (.file _) => if rest = [] then some (dir ++ [name]) else none
      | some (.link text) => jump (if isAbsolute text then [] else dir) (parts text ++ rest)
      | none => none

def walk (fs : Files γ) : Nat → Path → Path → Option Path
  | 0 => follow (fun _ _ => none) fs
  | n + 1 => follow (walk fs n) fs

/-- After this many links the kernel gives up with `ELOOP`. -/
def maxSymlinks : Nat := 40

def found (fs : Files γ) (dir : Path) (text : String) : Bool :=
  (walk fs maxSymlinks (if isAbsolute text then [] else dir) (parts text)).isSome

theorem found_absolute {text : String} (h : isAbsolute text = true) (fs : Files γ) (dir dir' : Path) :
    found fs dir text = found fs dir' text := by
  simp [found, h]

/-! ## A way that ends ends everywhere on it -/

variable {fs : Files γ}

theorem follow_append {jump : Path → Path → Option Path}
    (hjump : ∀ dir ps rest, jump dir ps = none → jump dir (ps ++ rest) = none) :
    ∀ (ps rest dir : Path), follow jump fs dir ps = none → follow jump fs dir (ps ++ rest) = none
  | [], _, _, h => by simp [follow] at h
  | name :: ps, rest, dir, h => by
    simp only [follow, List.cons_append] at h ⊢
    by_cases hdot : name = "."
    · rw [if_pos hdot] at h ⊢
      exact follow_append hjump ps rest dir h
    by_cases hup : name = ".."
    · rw [if_neg hdot, if_pos hup] at h ⊢
      exact follow_append hjump ps rest _ h
    rw [if_neg hdot, if_neg hup] at h ⊢
    cases hg : fs.get? (dir ++ [name]) with
    | none => rfl
    | some node =>
      cases node with
      | dir => exact follow_append hjump ps rest _ (by simpa [hg] using h)
      | file c => simp_all
      | link text =>
        have hend := hjump _ _ rest (by simpa [hg] using h)
        simpa using hend

theorem walk_append (fs : Files γ) : ∀ (n : Nat) (dir ps rest : Path),
    walk fs n dir ps = none → walk fs n dir (ps ++ rest) = none
  | 0, dir, ps, rest, h => follow_append (fun _ _ _ _ => rfl) ps rest dir h
  | n + 1, dir, ps, rest, h => follow_append (walk_append fs n) ps rest dir h

theorem follow_mono {jump jump' : Path → Path → Option Path}
    (hjump : ∀ dir ps, jump' dir ps = none → jump dir ps = none) :
    ∀ ps dir : Path, follow jump' fs dir ps = none → follow jump fs dir ps = none
  | [], _, h => by simp [follow] at h
  | name :: ps, dir, h => by
    simp only [follow] at h ⊢
    by_cases hdot : name = "."
    · rw [if_pos hdot] at h ⊢
      exact follow_mono hjump ps dir h
    by_cases hup : name = ".."
    · rw [if_neg hdot, if_pos hup] at h ⊢
      exact follow_mono hjump ps _ h
    rw [if_neg hdot, if_neg hup] at h ⊢
    cases hg : fs.get? (dir ++ [name]) with
    | none => rfl
    | some node =>
      cases node with
      | dir => exact follow_mono hjump ps _ (by simpa [hg] using h)
      | file c => simpa [hg] using h
      | link text => exact hjump _ _ (by simpa [hg] using h)

theorem walk_succ (fs : Files γ) : ∀ (n : Nat) (dir ps : Path), walk fs (n + 1) dir ps = none → walk fs n dir ps = none
  | 0, dir, ps, h => follow_mono (fun _ _ _ => rfl) ps dir h
  | n + 1, dir, ps, h => follow_mono (walk_succ fs n) ps dir h

theorem walk_le (fs : Files γ) {m n : Nat} (hmn : m ≤ n) {dir ps : Path} (h : walk fs n dir ps = none) :
    walk fs m dir ps = none := by
  induction hmn with
  | refl => exact h
  | step _ ih => exact ih (walk_succ fs _ dir ps h)

/-! ## Links that lead nowhere -/

theorem follow_erase {jump jump' : Path → Path → Option Path} {at_ : Path} {name text : String}
    (hlink : fs.get? (at_ ++ [name]) = some (.link text)) (hjump : ∀ dir ps, jump' dir ps = jump dir ps)
    (hdead : ∀ rest, jump (if isAbsolute text then [] else at_) (parts text ++ rest) = none) :
    ∀ ps dir : Path, follow jump' (fs.erase (at_ ++ [name])) dir ps = follow jump fs dir ps
  | [], _ => rfl
  | n :: ps, dir => by
    simp only [follow, Dict.get?_erase, hjump]
    by_cases hp : dir ++ [n] = at_ ++ [name]
    · obtain ⟨rfl, hn⟩ := List.append_inj' hp rfl
      obtain rfl : n = name := by simpa using hn
      simp only [hlink, hdead, if_true]
      rw [follow_erase hlink hjump hdead ps, follow_erase hlink hjump hdead ps]
    · simp only [hp, if_false]
      rw [follow_erase hlink hjump hdead ps, follow_erase hlink hjump hdead ps, follow_erase hlink hjump hdead ps]

theorem walk_erase {at_ : Path} {name text : String}
    (hlink : fs.get? (at_ ++ [name]) = some (.link text)) (hdead : found fs at_ text = false) :
    ∀ (n : Nat), n ≤ maxSymlinks → ∀ dir ps, walk (fs.erase (at_ ++ [name])) n dir ps = walk fs n dir ps
  | 0, _, dir, ps => follow_erase hlink (fun _ _ => rfl) (fun _ => rfl) ps dir
  | n + 1, hn, dir, ps => by
    refine follow_erase hlink (walk_erase hlink hdead n (Nat.le_of_succ_le hn)) (fun rest => ?_) ps dir
    have hnone : walk fs maxSymlinks (if isAbsolute text then [] else at_) (parts text) = none := by
      simpa [found] using hdead
    exact walk_append fs n _ _ rest (walk_le fs (Nat.le_of_succ_le hn) hnone)

theorem found_erase {at_ : Path} {name text : String}
    (hlink : fs.get? (at_ ++ [name]) = some (.link text)) (hdead : found fs at_ text = false) (dir : Path)
    (other : String) : found (fs.erase (at_ ++ [name])) dir other = found fs dir other := by
  unfold found
  rw [walk_erase hlink hdead _ (Nat.le_refl _)]

end Tree
