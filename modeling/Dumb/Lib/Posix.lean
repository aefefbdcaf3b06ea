import Dumb.Lib.Resolve
import Dumb.Lib.Script

/-!
# System calls on a tree

A call takes a path as the kernel does: from a directory on, part by part. `trail` is what is looked up on the way,
and a tree that agrees with another one on the trail leads to the same place.
-/

namespace Tree

open Py

variable {γ : Type}

structure Way where
  start : Path
  parts : Path

theorem parts_ne_nil (text : String) : parts text ≠ [] := by
  unfold parts
  dsimp only
  by_cases hlast : ((text.toList.splitOn '/').map String.ofList).getLast? = some ""
  · rw [if_pos hlast]
    simp
  · have hne : (text.toList.splitOn '/').map String.ofList ≠ [] := by simp [List.splitOn_ne_nil]
    have hmem := List.getLast_mem hne
    rw [List.getLast?_eq_some_getLast hne, Option.some.injEq] at hlast
    intro hnil
    have hfilter := (List.append_eq_nil_iff.1 hnil).1
    have hall := List.filter_eq_nil_iff.1 hfilter _ hmem
    exact hall (by simpa using hlast)

def way (cwd : Path) (text : String) : Way := ⟨if isAbsolute text then [] else cwd, parts text⟩

namespace Way

def dirname (w : Way) : Way := ⟨w.start, w.parts.dropLast⟩

def join (w : Way) (ps : Path) : Way := ⟨w.start, w.parts ++ ps⟩

end Way

/-- Why a call raises `OSError`: `noent` stands for `ENOTDIR` and `ELOOP` on the way, too. -/
inductive Errno where
  | noent
  | exists
  | isdir
  | notdir
  | notempty
  | inval
  deriving DecidableEq

def isDirAt (fs : Files γ) (p : Path) : Bool := p = [] || fs.get? p matches some .dir

variable {fs : Files γ} {p : Path}

theorem isDirAt_iff : isDirAt fs p = true ↔ p = [] ∨ fs.get? p = some .dir := by
  simp only [isDirAt, Bool.or_eq_true, decide_eq_true_eq]
  apply or_congr_right
  cases fs.get? p with
  | none => simp
  | some node => cases node <;> simp

def resolve (fs : Files γ) (w : Way) : Option Path := walk fs maxSymlinks w.start w.parts

def place (fs : Files γ) (w : Way) : Option Path :=
  match w.parts.getLast? with
  | none => some w.start
  | some name =>
    if name = "." ∨ name = ".." then (resolve fs w).filter (isDirAt fs)
    else ((resolve fs w.dirname).filter (isDirAt fs)).map (· ++ [name])

def exists? (fs : Files γ) (w : Way) : Bool := (resolve fs w).isSome

def isdir (fs : Files γ) (w : Way) : Bool := (resolve fs w).any (isDirAt fs)

variable {w : Way}

theorem isdir_iff : isdir fs w = true ↔ ∃ p, resolve fs w = some p ∧ isDirAt fs p = true := by
  cases h : resolve fs w <;> simp [isdir, h]

def lstat (fs : Files γ) (w : Way) : Option (Node γ) :=
  (place fs w).bind fun p => if p = [] then some .dir else fs.get? p

def lexists (fs : Files γ) (w : Way) : Bool := (lstat fs w).isSome

def islink (fs : Files γ) (w : Way) : Bool := lstat fs w matches some (.link _)

def readlink (fs : Files γ) (w : Way) : Except Errno String :=
  match lstat fs w with
  | some (.link text) => .ok text
  | some _ => .error .inval
  | none => .error .noent

def unlink (w : Way) (fs : Files γ) : Except Errno (Files γ) :=
  match place fs w, lstat fs w with
  | some _, some .dir => .error .isdir
  | some p, some _ => .ok (fs.erase p)
  | _, _ => .error .noent

def enter (node : Node γ) (w : Way) (fs : Files γ) : Except Errno (Files γ) :=
  match place fs w, lstat fs w with
  | some _, some _ => .error .exists
  | some p, none => .ok (fs.set p node)
  | none, _ => .error .noent

def symlink (target : String) (w : Way) (fs : Files γ) : Except Errno (Files γ) :=
  if target = "" then .error .noent else enter (.link target) w fs

def mkdir (w : Way) (fs : Files γ) : Except Errno (Files γ) := enter .dir w fs

def ensureDir (w : Way) (fs : Files γ) : Except Errno Unit × Files γ :=
  match mkdir w fs with
  | .ok fs => (.ok (), fs)
  | .error e => if isdir fs w then (.ok (), fs) else (.error e, fs)

def goesOn : Except Errno Unit → Bool
  | .ok () | .error .exists => true
  | .error _ => false

def makedirsFrom (start : Path) : Path → Files γ → Except Errno Unit × Files γ
  | [], fs => (.ok (), fs)
  | tail :: init, fs =>
    let made := if init = [] || exists? fs ⟨start, init.reverse⟩ then (.ok (), fs) else makedirsFrom start init fs
    if goesOn made.1 then
      if tail = "." then (.ok (), made.2) else ensureDir ⟨start, (tail :: init).reverse⟩ made.2
    else made

def makedirs (w : Way) (fs : Files γ) : Except Errno Unit × Files γ := makedirsFrom w.start w.parts.reverse fs

def moveTree (p q : Path) (fs : Files γ) : Files γ :=
  (fs.filter fun e => !q.isPrefixOf e.1).map fun e => if p.isPrefixOf e.1 then (q ++ e.1.drop p.length, e.2) else e

def rename (src dst : Way) (fs : Files γ) : Except Errno (Files γ) :=
  match place fs src, lstat fs src, place fs dst with
  | some p, some node, some q =>
    if p = q then .ok fs
    else if p.isPrefixOf q then .error .inval
    else match node, lstat fs dst with
      | .dir, some .dir => if isEmptyDir q fs && q ≠ [] then .ok (moveTree p q fs) else .error .notempty
      | .dir, some _ => .error .notdir
      | .dir, none => .ok (moveTree p q fs)
      | _, some .dir => .error .isdir
      | node, _ => .ok ((fs.erase p).set q node)
  | _, _, _ => .error .noent

/-! ## Trails -/

def trailFrom (jump : Path → Path → List Path) (fs : Files γ) : Path → Path → List Path
  | _, [] => []
  | dir, name :: rest =>
    if name = "." then trailFrom jump fs dir rest
    else if name = ".." then trailFrom jump fs dir.dropLast rest
    else (dir ++ [name]) :: match fs.get? (dir ++ [name]) with
      | some .dir => trailFrom jump fs (dir ++ [name]) rest
      | some (.link text) => jump (if isAbsolute text then [] else dir) (parts text ++ rest)
      | _ => []

def trail (fs : Files γ) : Nat → Path → Path → List Path
  | 0 => trailFrom (fun _ _ => []) fs
  | n + 1 => trailFrom (trail fs n) fs

def trailOf (fs : Files γ) (w : Way) : List Path := trail fs maxSymlinks w.start w.parts

theorem trailFrom_append {jump : Path → Path → List Path}
    (hjump : ∀ dir ps rest, ∀ p ∈ jump dir ps, p ∈ jump dir (ps ++ rest)) :
    ∀ (ps rest dir : Path), ∀ p ∈ trailFrom jump fs dir ps, p ∈ trailFrom jump fs dir (ps ++ rest)
  | [], _, _, p, h => absurd h List.not_mem_nil
  | name :: ps, rest, dir, p, h => by
    simp only [trailFrom, List.cons_append] at h ⊢
    by_cases hdot : name = "."
    · rw [if_pos hdot] at h ⊢
      exact trailFrom_append hjump ps rest dir p h
    by_cases hup : name = ".."
    · rw [if_neg hdot, if_pos hup] at h ⊢
      exact trailFrom_append hjump ps rest _ p h
    rw [if_neg hdot, if_neg hup] at h ⊢
    rcases List.mem_cons.1 h with rfl | h
    · exact List.mem_cons_self
    · apply List.mem_cons_of_mem
      cases hg : fs.get? (dir ++ [name]) with
      | none => simp [hg] at h
      | some node =>
        cases node with
        | file c => simp [hg] at h
        | dir => exact trailFrom_append hjump ps rest _ p (by simpa [hg] using h)
        | link text =>
          simp only [hg] at h ⊢
          rw [← List.append_assoc]
          exact hjump _ _ rest p h

theorem trail_append (fs : Files γ) : ∀ (n : Nat) (dir ps rest : Path), ∀ p ∈ trail fs n dir ps,
    p ∈ trail fs n dir (ps ++ rest)
  | 0, dir, ps, rest => trailFrom_append (fun _ _ _ _ h => h) ps rest dir
  | n + 1, dir, ps, rest => trailFrom_append (trail_append fs n) ps rest dir

/-! ## Trees that agree on a trail -/

theorem follow_congr {jump jump' : Path → Path → Option Path} {tjump tjump' : Path → Path → List Path}
    {fs fs' : Files γ}
    (hjump : ∀ dir ps, (∀ p ∈ tjump dir ps, fs'.get? p = fs.get? p) →
      jump' dir ps = jump dir ps ∧ tjump' dir ps = tjump dir ps) :
    ∀ ps dir : Path, (∀ p ∈ trailFrom tjump fs dir ps, fs'.get? p = fs.get? p) →
      follow jump' fs' dir ps = follow jump fs dir ps ∧ trailFrom tjump' fs' dir ps = trailFrom tjump fs dir ps
  | [], _, _ => ⟨rfl, rfl⟩
  | name :: ps, dir, h => by
    simp only [trailFrom, follow] at h ⊢
    by_cases hdot : name = "."
    · simp only [if_pos hdot] at h ⊢
      exact follow_congr hjump ps dir h
    by_cases hup : name = ".."
    · simp only [if_neg hdot, if_pos hup] at h ⊢
      exact follow_congr hjump ps _ h
    simp only [if_neg hdot, if_neg hup] at h ⊢
    rw [h _ List.mem_cons_self]
    cases hg : fs.get? (dir ++ [name]) with
    | none => exact ⟨rfl, rfl⟩
    | some node =>
      cases node with
      | file c => exact ⟨rfl, rfl⟩
      | dir =>
        obtain ⟨hf, ht⟩ := follow_congr hjump ps (dir ++ [name]) fun p hp => h p (List.mem_cons_of_mem _ (by simpa [hg] using hp))
        exact ⟨hf, congrArg ((dir ++ [name]) :: ·) ht⟩
      | link text =>
        obtain ⟨hf, ht⟩ := hjump (if isAbsolute text then [] else dir) (parts text ++ ps) fun p hp =>
          h p (List.mem_cons_of_mem _ (by simpa [hg] using hp))
        exact ⟨hf, congrArg ((dir ++ [name]) :: ·) ht⟩

theorem walk_congr {fs fs' : Files γ} : ∀ (n : Nat) (dir ps : Path),
    (∀ p ∈ trail fs n dir ps, fs'.get? p = fs.get? p) →
      walk fs' n dir ps = walk fs n dir ps ∧ trail fs' n dir ps = trail fs n dir ps
  | 0, dir, ps, h => follow_congr (fun _ _ _ => ⟨rfl, rfl⟩) ps dir h
  | n + 1, dir, ps, h => follow_congr (walk_congr n) ps dir h

theorem resolve_congr {fs fs' : Files γ} (h : ∀ p ∈ trailOf fs w, fs'.get? p = fs.get? p) :
    resolve fs' w = resolve fs w := (walk_congr _ _ _ h).1

def Lacks (fs fs' : Files γ) (p : Path) : Prop := fs'.get? p = fs.get? p ∨ fs'.get? p = none

theorem Lacks.of_some {fs fs' : Files γ} (h : Lacks fs fs' p) (hsome : fs'.get? p ≠ none) :
    fs'.get? p = fs.get? p := h.resolve_right hsome

theorem lacks_erase (fs : Files γ) (p q : Path) : Lacks fs (fs.erase p) q := by
  rw [Lacks, Dict.get?_erase]
  by_cases hq : q = p
  · exact .inr (if_pos hq)
  · exact .inl (if_neg hq)

def Missing (fs fs' : Files γ) (p : Path) : Prop :=
  fs'.get? p = fs.get? p ∨ fs.get? p = some .dir ∧ fs'.get? p = none

theorem Missing.lacks {fs fs' : Files γ} (h : Missing fs fs' p) : Lacks fs fs' p := h.imp_right And.right

variable {jump : Path → Path → Option Path} {tjump : Path → Path → List Path}

theorem follow_lacks {fs fs' : Files γ}
    (hjump : ∀ dir ps, (∀ p ∈ tjump dir ps, Lacks fs fs' p) → jump dir ps ≠ none →
      ∀ p ∈ tjump dir ps, fs'.get? p = fs.get? p) :
    ∀ ps dir : Path, (∀ p ∈ trailFrom tjump fs dir ps, Lacks fs fs' p) → follow jump fs' dir ps ≠ none →
      ∀ p ∈ trailFrom tjump fs dir ps, fs'.get? p = fs.get? p
  | [], _, _, _, p, hp => absurd hp List.not_mem_nil
  | name :: ps, dir, h, hsome, p, hp => by
    simp only [trailFrom, follow] at h hsome hp
    by_cases hdot : name = "."
    · simp only [if_pos hdot] at h hsome hp
      exact follow_lacks hjump ps dir h hsome p hp
    by_cases hup : name = ".."
    · simp only [if_neg hdot, if_pos hup] at h hsome hp
      exact follow_lacks hjump ps _ h hsome p hp
    simp only [if_neg hdot, if_neg hup] at h hsome hp
    have hhere : fs'.get? (dir ++ [name]) = fs.get? (dir ++ [name]) := by
      apply (h _ List.mem_cons_self).of_some
      intro hnone
      simp [hnone] at hsome
    rcases List.mem_cons.1 hp with rfl | hp
    · exact hhere
    · rw [hhere] at hsome
      cases hg : fs.get? (dir ++ [name]) with
      | none => simp [hg] at hp
      | some node =>
        cases node with
        | file c => simp [hg] at hp
        | dir =>
          simp only [hg] at hsome hp h
          exact follow_lacks hjump ps _ (fun q hq => h q (List.mem_cons_of_mem _ hq)) hsome p hp
        | link text =>
          simp only [hg] at hsome hp h
          exact hjump _ _ (fun q hq => h q (List.mem_cons_of_mem _ hq)) hsome p hp

theorem walk_lacks {fs fs' : Files γ} : ∀ (n : Nat) (dir ps : Path), (∀ p ∈ trail fs n dir ps, Lacks fs fs' p) →
    walk fs' n dir ps ≠ none → ∀ p ∈ trail fs n dir ps, fs'.get? p = fs.get? p
  | 0, dir, ps, h, hsome => follow_lacks (fun _ _ _ hnone => absurd rfl hnone) ps dir h hsome
  | n + 1, dir, ps, h, hsome => follow_lacks (walk_lacks n) ps dir h hsome

theorem resolve_lacks {fs fs' : Files γ} (h : ∀ p ∈ trailOf fs w, Lacks fs fs' p)
    (hsome : resolve fs' w ≠ none) : (∀ p ∈ trailOf fs w, fs'.get? p = fs.get? p) ∧ resolve fs' w = resolve fs w := by
  have hagree := walk_lacks maxSymlinks w.start w.parts h hsome
  exact ⟨hagree, resolve_congr hagree⟩

theorem follow_present
    (hjump : ∀ dir ps, jump dir ps ≠ none → ∀ p ∈ tjump dir ps, fs.get? p ≠ none) :
    ∀ ps dir : Path, follow jump fs dir ps ≠ none → ∀ p ∈ trailFrom tjump fs dir ps, fs.get? p ≠ none
  | [], _, _, p, hp => absurd hp List.not_mem_nil
  | name :: ps, dir, hsome, p, hp => by
    simp only [trailFrom, follow] at hsome hp
    by_cases hdot : name = "."
    · simp only [if_pos hdot] at hsome hp
      exact follow_present hjump ps dir hsome p hp
    by_cases hup : name = ".."
    · simp only [if_neg hdot, if_pos hup] at hsome hp
      exact follow_present hjump ps _ hsome p hp
    simp only [if_neg hdot, if_neg hup] at hsome hp
    rcases List.mem_cons.1 hp with rfl | hp
    · intro hnone
      simp [hnone] at hsome
    · cases hg : fs.get? (dir ++ [name]) with
      | none => simp [hg] at hp
      | some node =>
        cases node with
        | file c => simp [hg] at hp
        | dir =>
          simp only [hg] at hsome hp
          exact follow_present hjump ps _ hsome p hp
        | link text =>
          simp only [hg] at hsome hp
          exact hjump _ _ hsome p hp

theorem walk_present : ∀ (n : Nat) (dir ps : Path), walk fs n dir ps ≠ none →
    ∀ p ∈ trail fs n dir ps, fs.get? p ≠ none
  | 0, dir, ps, hsome => follow_present (fun _ _ hnone => absurd rfl hnone) ps dir hsome
  | n + 1, dir, ps, hsome => follow_present (walk_present n) ps dir hsome

/-! ## The end of a way -/

variable {tail : String}

theorem follow_snoc
    (hdot : tail ≠ ".") (hup : tail ≠ "..")
    (hjump : ∀ dir ps d, jump dir ps = some d → jump dir (ps ++ [tail]) ≠ none →
      d ++ [tail] ∈ tjump dir (ps ++ [tail]) ∧ fs.get? (d ++ [tail]) ≠ none) :
    ∀ (ps dir d : Path), follow jump fs dir ps = some d → follow jump fs dir (ps ++ [tail]) ≠ none →
      d ++ [tail] ∈ trailFrom tjump fs dir (ps ++ [tail]) ∧ fs.get? (d ++ [tail]) ≠ none
  | [], dir, d, hd, hsome => by
    simp only [follow, Option.some.injEq] at hd
    subst hd
    simp only [List.nil_append, follow, if_neg hdot, if_neg hup, trailFrom] at hsome ⊢
    refine ⟨List.mem_cons_self, fun hnone => ?_⟩
    simp [hnone] at hsome
  | name :: ps, dir, d, hd, hsome => by
    simp only [List.cons_append, follow, trailFrom] at hd hsome ⊢
    by_cases hn : name = "."
    · simp only [if_pos hn] at hd hsome ⊢
      exact follow_snoc hdot hup hjump ps dir d hd hsome
    by_cases hn' : name = ".."
    · simp only [if_neg hn, if_pos hn'] at hd hsome ⊢
      exact follow_snoc hdot hup hjump ps _ d hd hsome
    simp only [if_neg hn, if_neg hn'] at hd hsome ⊢
    cases hg : fs.get? (dir ++ [name]) with
    | none => simp [hg] at hd
    | some node =>
      cases node with
      | file c => simp [hg] at hsome
      | dir =>
        simp only [hg] at hd hsome ⊢
        obtain ⟨hmem, hget⟩ := follow_snoc hdot hup hjump ps _ d hd hsome
        exact ⟨List.mem_cons_of_mem _ hmem, hget⟩
      | link text =>
        simp only [hg, ← List.append_assoc] at hd hsome ⊢
        obtain ⟨hmem, hget⟩ := hjump _ _ d hd hsome
        exact ⟨List.mem_cons_of_mem _ hmem, hget⟩

theorem walk_snoc (hdot : tail ≠ ".") (hup : tail ≠ "..") :
    ∀ (n : Nat) (dir ps d : Path), walk fs n dir ps = some d → walk fs n dir (ps ++ [tail]) ≠ none →
      d ++ [tail] ∈ trail fs n dir (ps ++ [tail]) ∧ fs.get? (d ++ [tail]) ≠ none
  | 0, dir, ps, d => follow_snoc hdot hup (fun _ _ _ h _ => absurd h.symm (Option.some_ne_none _)) ps dir d
  | n + 1, dir, ps, d => follow_snoc hdot hup (fun dir ps d => walk_snoc hdot hup n dir ps d) ps dir d

theorem follow_end (hdot : tail ≠ ".")
    (hup : tail ≠ "..")
    (hjump : ∀ dir ps d x, jump dir ps = some d → jump dir (ps ++ [tail]) = some x →
      (∀ text, fs.get? (d ++ [tail]) ≠ some (.link text)) → x = d ++ [tail]) :
    ∀ (ps dir d x : Path), follow jump fs dir ps = some d → follow jump fs dir (ps ++ [tail]) = some x →
      (∀ text, fs.get? (d ++ [tail]) ≠ some (.link text)) → x = d ++ [tail]
  | [], dir, d, x, hd, hx, hlink => by
    simp only [follow, Option.some.injEq] at hd
    subst hd
    simp only [List.nil_append, follow, if_neg hdot, if_neg hup, if_true] at hx
    cases hg : fs.get? (dir ++ [tail]) with
    | none => simp [hg] at hx
    | some node =>
      cases node with
      | dir => simpa [hg] using hx.symm
      | file c => simpa [hg] using hx.symm
      | link text => exact absurd hg (hlink text)
  | name :: ps, dir, d, x, hd, hx, hlink => by
    simp only [List.cons_append, follow] at hd hx
    by_cases hn : name = "."
    · simp only [if_pos hn] at hd hx
      exact follow_end hdot hup hjump ps dir d x hd hx hlink
    by_cases hn' : name = ".."
    · simp only [if_neg hn, if_pos hn'] at hd hx
      exact follow_end hdot hup hjump ps _ d x hd hx hlink
    simp only [if_neg hn, if_neg hn'] at hd hx
    cases hg : fs.get? (dir ++ [name]) with
    | none => simp [hg] at hd
    | some node =>
      cases node with
      | file c => simp [hg] at hx
      | dir => exact follow_end hdot hup hjump ps _ d x (by simpa [hg] using hd) (by simpa [hg] using hx) hlink
      | link text =>
        simp only [hg, ← List.append_assoc] at hd hx
        exact hjump _ _ d x hd hx hlink

theorem walk_end (hdot : tail ≠ ".") (hup : tail ≠ "..") :
    ∀ (n : Nat) (dir ps d x : Path), walk fs n dir ps = some d → walk fs n dir (ps ++ [tail]) = some x →
      (∀ text, fs.get? (d ++ [tail]) ≠ some (.link text)) → x = d ++ [tail]
  | 0, dir, ps, d, x => follow_end hdot hup (fun _ _ _ _ h _ _ => absurd h.symm (Option.some_ne_none _)) ps dir d x
  | n + 1, dir, ps, d, x => follow_end hdot hup (fun dir ps d x => walk_end hdot hup n dir ps d x) ps dir d x

theorem place_eq_some {name : String} (hlast : w.parts.getLast? = some name)
    (hdot : name ≠ ".") (hup : name ≠ "..") :
    place fs w = some p ↔ ∃ d, resolve fs w.dirname = some d ∧ isDirAt fs d = true ∧ p = d ++ [name] := by
  simp only [place, hlast, hdot, hup, or_self, ↓reduceIte, Option.map_eq_some_iff, Option.filter_eq_some_iff]
  constructor
  · rintro ⟨d, ⟨hd, hdir⟩, rfl⟩
    exact ⟨d, hd, hdir, rfl⟩
  · rintro ⟨d, hd, hdir, rfl⟩
    exact ⟨d, ⟨hd, hdir⟩, rfl⟩

/-! ## What the calls do -/

theorem lstat_eq (h : place fs w = some p) (hp : p ≠ []) :
    lstat fs w = fs.get? p := by
  simp [lstat, h, hp]

theorem place_named (h : place fs w = some p) (hp : p ≠ []) (hw : w.parts ≠ [])
    (hdir : fs.get? p ≠ some .dir) :
    ∃ init name d, w.parts = init ++ [name] ∧ name ≠ "." ∧ name ≠ ".." ∧ resolve fs w.dirname = some d ∧
      isDirAt fs d = true ∧ p = d ++ [name] := by
  obtain ⟨init, name, hparts⟩ : ∃ init name, w.parts = init ++ [name] :=
    ⟨_, _, (List.dropLast_append_getLast hw).symm⟩
  have hlast : w.parts.getLast? = some name := by simp [hparts]
  have hname : ¬(name = "." ∨ name = "..") := by
    intro hspecial
    rw [place, hlast] at h
    simp only [hspecial, if_true, Option.filter_eq_some_iff] at h
    rcases isDirAt_iff.1 h.2 with hroot | hget
    · exact hp hroot
    · exact hdir hget
  obtain ⟨hdot, hup⟩ := not_or.1 hname
  obtain ⟨d, hd, hisdir, rfl⟩ := (place_eq_some hlast hdot hup).1 h
  exact ⟨init, name, d, hparts, hdot, hup, hd, hisdir, rfl⟩

theorem lstat_of_isdir (hisdir : isdir fs w = true) (hlink : islink fs w = false)
    (hsome : lexists fs w = true) (hw : w.parts ≠ []) : lstat fs w = some .dir := by
  obtain ⟨node, hstat⟩ := Option.isSome_iff_exists.1 hsome
  by_cases hnode : node = .dir
  · rw [hstat, hnode]
  obtain ⟨p, hp, hget⟩ := Option.bind_eq_some_iff.1 hstat
  have hroot : p ≠ [] := by
    rintro rfl
    exact hnode (Option.some.inj hget).symm
  simp only [if_neg hroot] at hget
  obtain ⟨init, name, d, hparts, hdot, hup, hd, -, rfl⟩ :=
    place_named hp hroot hw fun heq => hnode (Option.some.inj (hget.symm.trans heq))
  have hnolink : ∀ text, fs.get? (d ++ [name]) ≠ some (.link text) := by
    intro text heq
    rw [hget] at heq
    simp [islink, hstat, Option.some.inj heq] at hlink
  obtain ⟨x, hx, hxdir⟩ := isdir_iff.1 hisdir
  have hend : x = d ++ [name] := by
    rw [resolve, hparts] at hx
    rw [resolve, Way.dirname, hparts, List.dropLast_concat] at hd
    exact walk_end hdot hup maxSymlinks w.start init d x hd hx hnolink
  rcases isDirAt_iff.1 hxdir with hempty | hisdir
  · exact absurd (hend.symm.trans hempty) hroot
  · rw [hend, hget] at hisdir
    exact absurd (Option.some.inj hisdir) hnode

variable {text : String}

theorem readlink_ok (h : readlink fs w = .ok text) :
    ∃ p, place fs w = some p ∧ p ≠ [] ∧ fs.get? p = some (.link text) := by
  unfold readlink at h
  split at h
  · next t hstat =>
    cases h
    obtain ⟨p, hp, hget⟩ := Option.bind_eq_some_iff.1 hstat
    by_cases hroot : p = []
    · simp [hroot] at hget
    · exact ⟨p, hp, hroot, by simpa [hroot] using hget⟩
  · cases h
  · cases h

theorem unlink_ok {fs fs' : Files γ} (h : unlink w fs = .ok fs') :
    ∃ p, place fs w = some p ∧ p ≠ [] ∧ fs.get? p ≠ none ∧ fs.get? p ≠ some .dir ∧ fs' = fs.erase p := by
  unfold unlink at h
  split at h
  · cases h
  · next p node hdir hp hstat =>
    cases h
    have hroot : p ≠ [] := by
      rintro rfl
      exact hdir (by simpa [lstat, hp] using hstat.symm)
    rw [lstat_eq hp hroot] at hstat
    exact ⟨p, hp, hroot, by simp [hstat], fun hget => hdir (Option.some.inj (hstat.symm.trans hget)), rfl⟩
  · cases h

theorem enter_ok {fs fs' : Files γ} {node : Node γ} (h : enter node w fs = .ok fs') :
    ∃ p, place fs w = some p ∧ p ≠ [] ∧ fs.get? p = none ∧ fs' = fs.set p node := by
  unfold enter at h
  split at h
  · cases h
  · next p hp hstat =>
    cases h
    by_cases hroot : p = []
    · simp [lstat, hp, hroot] at hstat
    · rw [lstat_eq hp hroot] at hstat
      exact ⟨p, hp, hroot, hstat, rfl⟩
  · cases h

theorem place_lacks {fs fs' : Files γ} {p p' : Path} (h : place fs w = some p) (hp : p ≠ [])
    (hw : w.parts ≠ []) (hdir : fs.get? p ≠ some .dir) (hlacks : ∀ q ∈ trailOf fs w.dirname, Lacks fs fs' q)
    (h' : place fs' w = some p') : p' = p ∧ ∀ q ∈ trailOf fs w.dirname, fs'.get? q = fs.get? q := by
  obtain ⟨init, name, d, hparts, hdot, hup, hd, -, rfl⟩ := place_named h hp hw hdir
  obtain ⟨d', hd', -, rfl⟩ := (place_eq_some (by simp [hparts]) hdot hup).1 h'
  obtain ⟨hagree, hsame⟩ := resolve_lacks hlacks (by simp [hd'])
  rw [hd', hd, Option.some.injEq] at hsame
  exact ⟨by rw [hsame], hagree⟩

def parentOf (fs : Files γ) (w : Way) : Path := (resolve fs w.dirname).getD []

theorem place_agree {fs fs' : Files γ} (h : place fs w = some p) (hp : p ≠ [])
    (hw : w.parts ≠ []) (hdir : fs.get? p ≠ some .dir) (hagree : ∀ q ∈ trailOf fs w.dirname, fs'.get? q = fs.get? q)
    (hparent : isDirAt fs' (parentOf fs w) = true) : place fs' w = some p := by
  obtain ⟨init, name, d, hparts, hdot, hup, hd, -, rfl⟩ := place_named h hp hw hdir
  apply (place_eq_some (by simp [hparts]) hdot hup).2
  refine ⟨d, (resolve_congr hagree).trans hd, ?_, rfl⟩
  rwa [parentOf, hd] at hparent

theorem isDirAt_parentOf {fs fs' : Files γ} {p p' : Path} (h : place fs w = some p) (hp : p ≠ [])
    (hw : w.parts ≠ []) (hdir : fs.get? p ≠ some .dir) (hagree : ∀ q ∈ trailOf fs w.dirname, fs'.get? q = fs.get? q)
    (h' : place fs' w = some p') : isDirAt fs' (parentOf fs w) = true := by
  obtain ⟨init, name, d, hparts, hdot, hup, hd, -, rfl⟩ := place_named h hp hw hdir
  obtain ⟨d', hd', hisdir, -⟩ := (place_eq_some (by simp [hparts]) hdot hup).1 h'
  rw [resolve_congr hagree] at hd'
  rwa [parentOf, hd']

def Spares (gone : List Path) (fs fs' : Files γ) : Prop := ∀ q, q ∉ gone → fs.get? q ≠ none → fs'.get? q = fs.get? q

theorem Spares.refl (fs : Files γ) : Spares [] fs fs := fun _ _ _ => rfl

theorem Spares.trans {gone gone' : List Path} {fs fs' fs'' : Files γ} (h : Spares gone fs fs')
    (h' : Spares gone' fs' fs'') : Spares (gone ++ gone') fs fs'' := by
  intro q hq hsome
  obtain ⟨hq₁, hq₂⟩ := not_or.1 (mt List.mem_append.2 hq)
  have heq := h q hq₁ hsome
  rw [← heq] at hsome ⊢
  exact h' q hq₂ hsome

theorem Spares.mono {gone gone' : List Path} {fs fs' : Files γ} (h : Spares gone fs fs') (hsub : ∀ q ∈ gone, q ∈ gone') :
    Spares gone' fs fs' := fun q hq hsome => h q (mt (hsub q) hq) hsome

theorem spares_erase (fs : Files γ) (p : Path) : Spares [p] fs (fs.erase p) := by
  intro q hq _
  rw [Dict.get?_erase, if_neg (mt List.mem_singleton.2 hq)]

theorem spares_set (fs : Files γ) (p : Path) (node : Node γ) : Spares [p] fs (fs.set p node) :=
  fun _ hq _ => Dict.get?_set_ne (mt List.mem_singleton.2 hq) ..

theorem spares_new (h : fs.get? p = none) (node : Node γ) : Spares [] fs (fs.set p node) := by
  intro q _ hsome
  apply Dict.get?_set_ne
  rintro rfl
  exact hsome h

def looked (fs : Files γ) (w : Way) : List Path := trailOf fs w.dirname ++ (place fs w).toList

theorem place_spares {fs fs' : Files γ} {gone : List Path} (h : place fs w = some p) (hp : p ≠ [])
    (hw : w.parts ≠ []) (hdir : fs.get? p ≠ some .dir) (hspares : Spares gone fs fs')
    (hgone : ∀ q ∈ gone, fs.get? q ≠ some .dir) (hoff : ∀ q ∈ trailOf fs w.dirname, q ∉ gone) :
    place fs' w = some p := by
  obtain ⟨init, name, d, hparts, hdot, hup, hd, hisdir, rfl⟩ := place_named h hp hw hdir
  apply place_agree h hp hw hdir
  · intro q hq
    apply hspares q (hoff q hq)
    have hsome : resolve fs w.dirname ≠ none := by simp [hd]
    exact walk_present maxSymlinks w.start w.dirname.parts hsome q hq
  · rw [parentOf, hd, Option.getD_some]
    rcases isDirAt_iff.1 hisdir with hroot | hget
    · exact isDirAt_iff.2 (.inl hroot)
    · refine isDirAt_iff.2 (.inr ((hspares d (fun hin => hgone d hin hget) ?_).trans hget))
      simp [hget]

theorem readlink_spares {fs fs' : Files γ} {gone : List Path} (h : readlink fs w = .ok text)
    (hw : w.parts ≠ []) (hspares : Spares gone fs fs') (hgone : ∀ q ∈ gone, fs.get? q ≠ some .dir)
    (hoff : ∀ q ∈ looked fs w, q ∉ gone) : readlink fs' w = .ok text := by
  obtain ⟨p, hp, hroot, hget⟩ := readlink_ok h
  have hthere : place fs' w = some p := by
    apply place_spares hp hroot hw (by simp [hget]) hspares hgone
    exact fun q hq => hoff q (List.mem_append_left _ hq)
  have hkept : fs'.get? p = fs.get? p := by
    apply hspares p (hoff p (List.mem_append_right _ (by simp [hp])))
    simp [hget]
  simp [readlink, lstat_eq hthere hroot, hkept, hget]

theorem readlink_of_place (h : place fs w = some p) (hp : p ≠ [])
    (hget : fs.get? p = some (.link text)) : readlink fs w = .ok text := by
  simp [readlink, lstat_eq h hp, hget]

theorem rename_ok {fs fs' : Files γ} {src dst : Way} (hlink : readlink fs src = .ok text)
    (h : rename src dst fs = .ok fs') :
    ∃ p q, place fs src = some p ∧ place fs dst = some q ∧ p ≠ [] ∧ q ≠ [] ∧ fs.get? p = some (.link text) ∧
      fs.get? q ≠ some .dir ∧ (p = q ∧ fs' = fs ∨ p ≠ q ∧ fs' = (fs.erase p).set q (.link text)) := by
  obtain ⟨p, hp, hroot, hget⟩ := readlink_ok hlink
  have hstat := lstat_eq hp hroot
  unfold rename at h
  rw [hp, hstat, hget] at h
  cases hq : place fs dst with
  | none => simp [hq] at h
  | some q =>
    simp only [hq] at h
    by_cases hpq : p = q
    · simp only [hpq, if_true, Except.ok.injEq] at h
      subst hpq
      exact ⟨p, p, hp, rfl, hroot, hroot, hget, by simp [hget], .inl ⟨rfl, h.symm⟩⟩
    rw [if_neg hpq] at h
    split at h
    · cases h
    have hdst : lstat fs dst ≠ some .dir := by
      intro hdir
      rw [hdir] at h
      cases h
    have hq' : q ≠ [] := by
      rintro rfl
      simp [lstat, hq] at hdst
    rw [lstat_eq hq hq'] at hdst
    refine ⟨p, q, hp, rfl, hroot, hq', hget, hdst, .inr ⟨hpq, ?_⟩⟩
    split at h
    · next hbad _ => cases hbad
    · next hbad _ => cases hbad
    · next hbad _ => cases hbad
    · cases h
    · exact (Except.ok.inj h).symm

def Grown (fs fs' : Files γ) : Prop := ∀ q, fs'.get? q = fs.get? q ∨ fs.get? q = none ∧ fs'.get? q = some .dir

theorem Grown.refl (fs : Files γ) : Grown fs fs := fun _ => .inl rfl

theorem Grown.spares {fs fs' : Files γ} (h : Grown fs fs') : Spares [] fs fs' :=
  fun q _ hsome => (h q).resolve_right fun hnew => hsome hnew.1

theorem Grown.trans {fs fs' fs'' : Files γ} (h : Grown fs fs') (h' : Grown fs' fs'') : Grown fs fs'' := by
  intro q
  rcases h q with heq | ⟨hnone, hdir⟩
  · rw [← heq]
    exact h' q
  · rcases h' q with heq' | ⟨hnone', -⟩
    · exact .inr ⟨hnone, heq'.trans hdir⟩
    · rw [hdir] at hnone'
      cases hnone'

theorem grown_mkdir {fs fs' : Files γ} (h : mkdir w fs = .ok fs') : Grown fs fs' := by
  obtain ⟨p, -, -, hnone, rfl⟩ := enter_ok h
  intro q
  rw [Dict.get?_set]
  by_cases hq : q = p
  · rw [if_pos hq, hq]
    exact .inr ⟨hnone, rfl⟩
  · rw [if_neg hq]
    exact .inl rfl

theorem ensureDir_grown (w : Way) (fs : Files γ) : Grown fs (ensureDir w fs).2 := by
  unfold ensureDir
  split
  · next fs' h => exact grown_mkdir h
  · split
    · exact Grown.refl fs
    · exact Grown.refl fs

theorem makedirsFrom_rule {start : Path} {P : Files γ → Prop} : ∀ {rev : Path} {fs : Files γ},
    (∀ tail init, tail :: init <:+ rev → tail ≠ "." → ∀ fs, P fs →
      P (ensureDir ⟨start, (tail :: init).reverse⟩ fs).2) → P fs → P (makedirsFrom start rev fs).2
  | [], _, _, h => h
  | tail :: init, fs, hstep, h => by
    have hmade : P (if init = [] || exists? fs ⟨start, init.reverse⟩ then (.ok (), fs)
        else makedirsFrom start init fs : Except Errno Unit × Files γ).2 := by
      split
      · exact h
      · exact makedirsFrom_rule (fun t i hsuffix => hstep t i (hsuffix.trans (List.suffix_cons tail init))) h
    unfold makedirsFrom
    dsimp only
    generalize (if init = [] || exists? fs ⟨start, init.reverse⟩ then (.ok (), fs)
      else makedirsFrom start init fs : Except Errno Unit × Files γ) = made at hmade
    split
    · split
      · exact hmade
      · next hdot => exact hstep tail init (List.suffix_refl _) hdot _ hmade
    · exact hmade

theorem makedirs_grown (w : Way) (fs : Files γ) : Grown fs (makedirs w fs).2 :=
  makedirsFrom_rule (P := Grown fs) (fun _ _ _ _ fs' h => h.trans (ensureDir_grown _ fs')) (Grown.refl fs)

/-! ## Directories that are missing -/

structure Remade (fs : Files γ) (places : List Path) (now next : Files γ) : Prop where
  missing : ∀ p ∈ places, Missing fs next p
  new : ∀ q, next.get? q = now.get? q ∨ now.get? q = none ∧ fs.get? q = some .dir ∧ next.get? q = some .dir

variable {places : List Path}

theorem Remade.refl {fs now : Files γ} (h : ∀ p ∈ places, Missing fs now p) :
    Remade fs places now now := ⟨h, fun _ => .inl rfl⟩

theorem Remade.trans {fs a b c : Files γ} (h : Remade fs places a b) (h' : Remade fs places b c) :
    Remade fs places a c := by
  refine ⟨h'.missing, fun q => ?_⟩
  rcases h.new q with heq | ⟨hnone, hfs, hdir⟩
  · rw [← heq]
    exact h'.new q
  · rcases h'.new q with heq' | ⟨hnone', -⟩
    · exact .inr ⟨hnone, hfs, heq'.trans hdir⟩
    · rw [hdir] at hnone'
      cases hnone'

theorem ensureDir_remade {fs now : Files γ} {start : Path} {init : Path}
    (htrail : ∀ p ∈ trailOf fs ⟨start, init ++ [tail]⟩, p ∈ places) (hfound : resolve fs ⟨start, init ++ [tail]⟩ ≠ none)
    (hdot : tail ≠ ".") (h : ∀ p ∈ places, Missing fs now p) :
    Remade fs places now (ensureDir ⟨start, init ++ [tail]⟩ now).2 := by
  unfold ensureDir
  split
  · next next hmk =>
    obtain ⟨p, hp, hroot, hnone, rfl⟩ := enter_ok hmk
    have hup : tail ≠ ".." := by
      rintro rfl
      simp only [place, List.getLast?_append, List.getLast?_singleton, Option.some_or, or_true, if_true,
        Option.filter_eq_some_iff] at hp
      simp [isDirAt, hroot, hnone] at hp
    obtain ⟨d, hd, -, rfl⟩ := (place_eq_some (by simp) hdot hup).1 hp
    rw [Way.dirname, List.dropLast_concat] at hd
    have hparent : ∀ p ∈ trailOf fs ⟨start, init⟩, p ∈ places :=
      fun p hp => htrail p (trail_append fs maxSymlinks start init [tail] p hp)
    have hd' : resolve fs ⟨start, init⟩ = some d := by
      rw [← (resolve_lacks (fun p hp => (h p (hparent p hp)).lacks) (by simp [hd])).2, hd]
    obtain ⟨hlooked, hget⟩ := walk_snoc hdot hup maxSymlinks start init d hd' hfound
    have hin := htrail _ hlooked
    have hgone : fs.get? (d ++ [tail]) = some .dir := by
      rcases h _ hin with heq | ⟨hdir, -⟩
      · exact absurd (heq.symm.trans hnone) hget
      · exact hdir
    constructor
    · intro q hq
      by_cases hqp : q = d ++ [tail]
      · subst hqp
        exact .inl (by rw [Dict.get?_set_self, hgone])
      · rw [Missing, Dict.get?_set_ne hqp]
        exact h q hq
    · intro q
      by_cases hqp : q = d ++ [tail]
      · subst hqp
        exact .inr ⟨hnone, hgone, Dict.get?_set_self ..⟩
      · exact .inl (Dict.get?_set_ne hqp ..)
  · split
    · exact Remade.refl h
    · exact Remade.refl h

theorem makedirs_remade {fs now : Files γ} (hfound : resolve fs w ≠ none)
    (htrail : ∀ p ∈ trailOf fs w, p ∈ places) (h : ∀ p ∈ places, Missing fs now p) :
    Remade fs places now (makedirs w now).2 := by
  apply makedirsFrom_rule (P := Remade fs places now) _ (Remade.refl h)
  intro tail init hsuffix hdot a ha
  have hprefix : init.reverse ++ [tail] <+: w.parts := by
    have hrev := List.reverse_prefix.2 hsuffix
    rwa [List.reverse_cons, List.reverse_reverse] at hrev
  obtain ⟨rest, hrest⟩ := hprefix
  rw [List.reverse_cons]
  apply ha.trans
  apply ensureDir_remade _ _ hdot ha.missing
  · intro p hp
    apply htrail p
    have hlonger := trail_append fs maxSymlinks w.start (init.reverse ++ [tail]) rest p hp
    rwa [hrest] at hlonger
  · intro hnone
    have hlonger := walk_append fs maxSymlinks w.start (init.reverse ++ [tail]) rest hnone
    rw [hrest] at hlonger
    exact hfound hlonger

end Tree

/-! ## Programs on a tree

The calls that change a tree, and the functions of `pathlib` over them. The disk counts what is written to files.
-/

namespace Tree

open Py

variable {γ ε : Type}

inductive Call (γ : Type) where
  | mkdir (w : Way)
  | unlink (w : Way)
  | rmtree (w : Way)
  | symlink (text : String) (w : Way)
  | link (src dst : Way)
  | create (w : Way) (contents : γ)

structure Disk (γ : Type) where
  tree : Files γ
  written : Nat

abbrev Act (γ ε α : Type) : Type := Script (Disk γ) (Call γ) Errno ε α

/-! ## Calls -/

def clear (p : Path) (fs : Files γ) : Files γ := fs.filter fun e => !(p.isPrefixOf e.1 && p != e.1)

def rmdirAt (w : Way) (fs : Files γ) : Except Errno (Files γ) :=
  if w.parts.getLast? = some ".." then .error .notempty
  else if w.parts.getLast? = some "." then .error .inval
  else match place fs w, lstat fs w with
    | some p, some .dir => if isEmptyDir p fs then .ok (fs.erase p) else .error .notempty
    | some _, some _ => .error .notdir
    | _, _ => .error .noent

/-- `shutil.rmtree`: the directory is emptied by its descriptor and then removed by its path. -/
def rmtreeAt (w : Way) (fs : Files γ) : Except Errno Unit × Files γ :=
  match place fs w, lstat fs w with
  | some p, some .dir =>
    match rmdirAt w (clear p fs) with
    | .ok fs => (.ok (), fs)
    | .error e => (.error e, clear p fs)
  | some _, some _ => (.error .notdir, fs)
  | _, _ => (.error .noent, fs)

def hardlink (src dst : Way) (fs : Files γ) : Except Errno (Files γ) :=
  match lstat fs src with
  | none => .error .noent
  | some .dir => .error .isdir
  | some node => enter node dst fs

def wholly (fs : Files γ) : Except Errno (Files γ) → Except Errno Unit × Files γ
  | .ok fs => (.ok (), fs)
  | .error e => (.error e, fs)

def Call.perform (fs : Files γ) : Call γ → Except Errno Unit × Files γ
  | .mkdir w => wholly fs (Tree.mkdir w fs)
  | .unlink w => wholly fs (Tree.unlink w fs)
  | .rmtree w => rmtreeAt w fs
  | .symlink text w => wholly fs (Tree.symlink text w fs)
  | .link src dst => wholly fs (hardlink src dst fs)
  | .create w contents => wholly fs (enter (.file contents) w fs)

def Call.cost (size : γ → Nat) : Call γ → Nat
  | .create _ contents => size contents
  | _ => 0

def exec (size : γ → Nat) (c : Call γ) (d : Disk γ) : Except Errno Unit × Disk γ :=
  match c.perform d.tree with
  | (.ok (), tree) => (.ok (), ⟨tree, d.written + c.cost size⟩)
  | (.error e, tree) => (.error e, ⟨tree, d.written⟩)

/-! ## Functions of `pathlib` -/

def isfile (fs : Files γ) (w : Way) : Bool := (resolve fs w).any fun p => fs.get? p matches some (.file _)

def realFrom (jump : Path → Path → Option Path) (fs : Files γ) : Path → Path → Option Path
  | dir, [] => some dir
  | dir, name :: rest =>
    if name = "." then realFrom jump fs dir rest
    else if name = ".." then realFrom jump fs dir.dropLast rest
    else match fs.get? (dir ++ [name]) with
      | some (.link text) =>
        (jump (if isAbsolute text then [] else dir) (parts text)).bind fun dir => realFrom jump fs dir rest
      | _ => realFrom jump fs (dir ++ [name]) rest

def realWithin (fs : Files γ) : Nat → Path → Path → Option Path
  | 0 => realFrom (fun _ _ => none) fs
  | n + 1 => realFrom (realWithin fs n) fs

/-- `path.resolve()`, or none where it raises for a loop. -/
def realpath (fs : Files γ) (w : Way) : Option Path := realWithin fs fs.length w.start w.parts

def listdir (fs : Files γ) (p : Path) : List String :=
  (fs.filterMap fun e => if e.1.dropLast = p then e.1.getLast? else none).filter fun name => name ≠ "." ∧ name ≠ ".."

def children (fs : Files γ) (w : Way) : List String := ((resolve fs w).map (listdir fs)).getD []

section
variable (raised : Errno → ε)

def unlessDir (w : Way) (e : Errno) : Act γ ε Unit := do
  if ← Script.see fun d => isdir d.tree w then pure () else .raise (raised e)

def mkdirOk (w : Way) : Act γ ε Unit :=
  .call (.mkdir w) fun
    | .ok () => pure ()
    | .error e => unlessDir raised w e

def mkdirFrom (start : Path) : Path → Act γ ε Unit
  | [] => pure ()
  | tail :: init =>
    .call (.mkdir ⟨start, (tail :: init).reverse⟩) fun
      | .ok () => pure ()
      | .error .noent => do
        mkdirFrom start init
        mkdirOk raised ⟨start, (tail :: init).reverse⟩
      | .error e => unlessDir raised ⟨start, (tail :: init).reverse⟩ e

def mkdirParents (w : Way) : Act γ ε Unit := mkdirFrom raised w.start w.parts.reverse

end

end Tree
