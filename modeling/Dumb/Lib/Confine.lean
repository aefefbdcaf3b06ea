import Dumb.Lib.Posix

/-!
# Trees that are confined to a directory

A relative link that goes up no further than to the directory it is confined to leads to nothing outside of it, and
then no call on a path below the directory takes effect outside.
-/

namespace Tree

open Py

variable {γ : Type}

/-! ## Where a path goes on -/

theorem follow_on {jump : Files γ → Path → Path → Option Path} {tjump : Path → Path → List Path} {before : Files γ}
    {n : Nat} (hwalk : ∀ fs : Files γ, walk fs n = follow (jump fs) fs)
    (hjump : ∀ dir ps d, jump before dir ps = some d → isDirAt before d = true →
      ∃ m, ∀ fs : Files γ, (∀ p ∈ tjump dir ps, fs.get? p = before.get? p) →
        ∀ rest, jump fs dir (ps ++ rest) = walk fs m d rest) :
    ∀ (ps dir d : Path), follow (jump before) before dir ps = some d → isDirAt before d = true →
      ∃ m, ∀ fs : Files γ, (∀ p ∈ trailFrom tjump before dir ps, fs.get? p = before.get? p) →
        ∀ rest, follow (jump fs) fs dir (ps ++ rest) = walk fs m d rest
  | [], dir, d, hd, _ => by
    simp only [follow, Option.some.injEq] at hd
    subst hd
    exact ⟨n, fun fs _ rest => by rw [hwalk, List.nil_append]⟩
  | name :: ps, dir, d, hd, hisdir => by
    simp only [follow, trailFrom, List.cons_append] at hd ⊢
    by_cases hdot : name = "."
    · simp only [if_pos hdot] at hd ⊢
      exact follow_on hwalk hjump ps dir d hd hisdir
    by_cases hup : name = ".."
    · simp only [if_neg hdot, if_pos hup] at hd ⊢
      exact follow_on hwalk hjump ps _ d hd hisdir
    simp only [if_neg hdot, if_neg hup] at hd ⊢
    cases hg : before.get? (dir ++ [name]) with
    | none => simp [hg] at hd
    | some node =>
      cases node with
      | file c =>
        simp only [hg, Option.ite_none_right_eq_some, Option.some.injEq] at hd
        obtain ⟨-, rfl⟩ := hd
        simp [isDirAt, hg] at hisdir
      | dir =>
        simp only [hg] at hd
        obtain ⟨m, hm⟩ := follow_on hwalk hjump ps _ d hd hisdir
        refine ⟨m, fun fs hfs rest => ?_⟩
        rw [hfs _ List.mem_cons_self, hg]
        exact hm fs (fun p hp => hfs p (List.mem_cons_of_mem _ hp)) rest
      | link text =>
        simp only [hg] at hd
        obtain ⟨m, hm⟩ := hjump _ _ d hd hisdir
        refine ⟨m, fun fs hfs rest => ?_⟩
        rw [hfs _ List.mem_cons_self, hg]
        dsimp only
        rw [← List.append_assoc]
        exact hm fs (fun p hp => hfs p (List.mem_cons_of_mem _ hp)) rest

theorem walk_on {before : Files γ} : ∀ (n : Nat) (dir ps d : Path), walk before n dir ps = some d →
    isDirAt before d = true → ∃ m, ∀ fs : Files γ, (∀ p ∈ trail before n dir ps, fs.get? p = before.get? p) →
      ∀ rest, walk fs n dir (ps ++ rest) = walk fs m d rest
  | 0, dir, ps, d, hd, hisdir =>
    @follow_on _ (fun _ _ _ => none) (fun _ _ => []) before 0 (fun _ => rfl)
      (fun _ _ _ h _ => absurd h.symm (Option.some_ne_none _)) ps dir d hd hisdir
  | n + 1, dir, ps, d, hd, hisdir =>
    @follow_on _ (fun fs => walk fs n) (trail before n) before (n + 1) (fun _ => rfl) (walk_on n) ps dir d hd hisdir

variable {jump : Path → Path → Option Path}

theorem follow_up {fs : Files γ}
    (hjump : ∀ dir ps p, jump dir (ps ++ [".."]) = some p → ∃ d, jump dir ps = some d ∧ p = d.dropLast) :
    ∀ (ps dir p : Path), follow jump fs dir (ps ++ [".."]) = some p →
      ∃ d, follow jump fs dir ps = some d ∧ p = d.dropLast
  | [], dir, p, h => by
    simp only [List.nil_append, follow, show ¬".." = "." by decide, if_false, if_true, Option.some.injEq] at h
    exact ⟨dir, rfl, h.symm⟩
  | name :: ps, dir, p, h => by
    simp only [follow, List.cons_append] at h ⊢
    by_cases hdot : name = "."
    · simp only [if_pos hdot] at h ⊢
      exact follow_up hjump ps dir p h
    by_cases hup : name = ".."
    · simp only [if_neg hdot, if_pos hup] at h ⊢
      exact follow_up hjump ps _ p h
    simp only [if_neg hdot, if_neg hup] at h ⊢
    cases hg : fs.get? (dir ++ [name]) with
    | none => simp [hg] at h
    | some node =>
      cases node with
      | file c => simp [hg] at h
      | dir =>
        simp only [hg] at h
        exact follow_up hjump ps _ p h
      | link text =>
        simp only [hg, ← List.append_assoc] at h
        exact hjump _ _ p h

theorem walk_up {fs : Files γ} : ∀ (n : Nat) (dir ps p : Path), walk fs n dir (ps ++ [".."]) = some p →
    ∃ d, walk fs n dir ps = some d ∧ p = d.dropLast
  | 0, dir, ps, p, h => follow_up (fun _ _ _ h => absurd h.symm (Option.some_ne_none _)) ps dir p h
  | n + 1, dir, ps, p, h => follow_up (walk_up n) ps dir p h

/-! ## Links that stay within a directory -/

def ups (text : String) : Nat := (parts text).count ".."

def Node.text : Node γ → Option String
  | .link text => some text
  | _ => none

def Relative (text : String) : Prop :=
  isAbsolute text = false ∧ ∃ k names, parts text = List.replicate k ".." ++ names ∧ ".." ∉ names

theorem Relative.parts {text : String} (h : Relative text) :
    ∃ names, Tree.parts text = List.replicate (ups text) ".." ++ names ∧ ".." ∉ names := by
  obtain ⟨-, k, names, hparts, hnames⟩ := h
  have hups : ups text = k := by
    rw [ups, hparts, List.count_append, List.count_replicate_self, List.count_eq_zero.2 hnames, Nat.add_zero]
  exact ⟨names, hups ▸ hparts, hnames⟩

/-- From its place, the link goes up no further than to `dir`. -/
structure Tame (dir place : Path) (text : String) : Prop where
  relative : Relative text
  depth : dir.length + ups text < place.length

theorem dropLast_inside {root dir : Path} (h : root <+: dir) (hlt : root.length < dir.length) : root <+: dir.dropLast := by
  apply List.prefix_of_prefix_length_le h (List.dropLast_prefix dir)
  rw [List.length_dropLast]
  omega

section
variable {root : Path} {fs : Files γ}

theorem follow_inside
    (hlinks : ∀ q text, root <+: q → fs.get? q = some (.link text) → Tame root q text)
    (hjump : ∀ dir k names p, root <+: dir → ".." ∉ names → root.length + k ≤ dir.length →
      jump dir (List.replicate k ".." ++ names) = some p → root <+: p) :
    ∀ (names dir p : Path), root <+: dir → ".." ∉ names → follow jump fs dir names = some p → root <+: p
  | [], dir, p, hdir, _, h => by
    simp only [follow, Option.some.injEq] at h
    exact h ▸ hdir
  | name :: names, dir, p, hdir, hups, h => by
    simp only [List.mem_cons, not_or] at hups
    have hdir' : root <+: dir ++ [name] := hdir.trans (List.prefix_append _ _)
    simp only [follow, if_neg (Ne.symm hups.1)] at h
    split at h
    · exact follow_inside hlinks hjump names dir p hdir hups.2 h
    · cases hg : fs.get? (dir ++ [name]) with
      | none => simp [hg] at h
      | some node =>
        cases node with
        | dir => exact follow_inside hlinks hjump names _ p hdir' hups.2 (by simpa [hg] using h)
        | file c =>
          simp only [hg, Option.ite_none_right_eq_some, Option.some.injEq] at h
          exact h.2 ▸ hdir'
        | link text =>
          have htame := hlinks _ text hdir' hg
          obtain ⟨down, hparts, hdown⟩ := htame.relative.parts
          have hdepth := htame.depth
          simp only [hg, htame.relative.1, Bool.false_eq_true, if_false, hparts, List.append_assoc] at h
          rw [List.length_append, List.length_singleton] at hdepth
          apply hjump dir (ups text) (down ++ names) p hdir _ (by omega) h
          simp [hdown, hups.2]

theorem follow_ups
    (hlinks : ∀ q text, root <+: q → fs.get? q = some (.link text) → Tame root q text)
    (hjump : ∀ dir k names p, root <+: dir → ".." ∉ names → root.length + k ≤ dir.length →
      jump dir (List.replicate k ".." ++ names) = some p → root <+: p) :
    ∀ (k : Nat) (names dir p : Path), root <+: dir → ".." ∉ names → root.length + k ≤ dir.length →
      follow jump fs dir (List.replicate k ".." ++ names) = some p → root <+: p
  | 0, names, dir, p, hdir, hups, _, h => follow_inside hlinks hjump names dir p hdir hups h
  | k + 1, names, dir, p, hdir, hups, hk, h => by
    rw [List.replicate_succ, List.cons_append, follow, if_neg (by decide), if_pos rfl] at h
    apply follow_ups hlinks hjump k names dir.dropLast p (dropLast_inside hdir (by omega)) hups _ h
    rw [List.length_dropLast]
    omega

theorem walk_inside (hlinks : ∀ q text, root <+: q → fs.get? q = some (.link text) → Tame root q text) :
    ∀ (n : Nat) (dir : Path) (k : Nat) (names p : Path), root <+: dir → ".." ∉ names → root.length + k ≤ dir.length →
      walk fs n dir (List.replicate k ".." ++ names) = some p → root <+: p
  | 0, dir, k, names, p, hdir, hups, hk, h =>
    follow_ups hlinks (fun _ _ _ _ _ _ _ h => absurd h.symm (Option.some_ne_none _)) k names dir p hdir hups hk h
  | n + 1, dir, k, names, p, hdir, hups, hk, h =>
    follow_ups hlinks (walk_inside hlinks n) k names dir p hdir hups hk h

end

/-! ## The directory -/

structure Staging (before : Files γ) where
  above : Way
  name : String
  parent : Path
  plain : name ≠ "." ∧ name ≠ ".."
  leads : resolve before above = some parent
  isDir : isDirAt before parent = true
  avoids : ∀ p ∈ trailOf before above, ¬parent ++ [name] <+: p

namespace Staging

variable {before fs : Files γ} (s : Staging before)

def root : Way := s.above.join [s.name]

def dir : Path := s.parent ++ [s.name]

structure Confined (fs : Files γ) : Prop where
  outside : ∀ q, ¬s.dir <+: q → fs.get? q = before.get? q
  links : ∀ q text, s.dir <+: q → fs.get? q = some (.link text) → Tame s.dir q text
  top : fs.get? s.dir = none ∨ fs.get? s.dir = some .dir

variable {s}

theorem Confined.isDir (h : s.Confined fs) : isDirAt fs s.parent = true := by
  rw [isDirAt_iff]
  apply (isDirAt_iff.1 s.isDir).imp_right
  intro hdir
  rw [h.outside _ _, hdir]
  intro hpre
  have := hpre.length_le
  simp only [dir, List.length_append, List.length_singleton] at this
  omega

theorem leads_on : ∃ m, ∀ fs, s.Confined fs → ∀ rest,
    resolve fs (s.above.join rest) = walk fs m s.parent rest := by
  obtain ⟨m, hm⟩ := walk_on maxSymlinks s.above.start s.above.parts s.parent s.leads s.isDir
  exact ⟨m, fun fs h => hm fs fun p hp => h.outside p (s.avoids p hp)⟩

theorem walk_top (h : s.Confined fs) (m : Nat) (rest : Path) : walk fs m s.parent (s.name :: rest) =
    if fs.get? s.dir matches some .dir then walk fs m s.dir rest else none := by
  have hfollow : ∀ jump, follow jump fs s.parent (s.name :: rest) =
      if fs.get? s.dir matches some .dir then follow jump fs s.dir rest else none := by
    intro jump
    rw [follow, if_neg s.plain.1, if_neg s.plain.2]
    rcases h.top with hnone | hdir
    · rw [← dir, hnone]
      rfl
    · rw [← dir, hdir]
      rfl
  cases m with
  | zero => exact hfollow _
  | succ m => exact hfollow _

theorem root_join (rel : Path) : s.root.join rel = s.above.join (s.name :: rel) := by
  simp [root, Way.join]

theorem Confined.resolve_inside (h : s.Confined fs) {rel p : Path} (hrel : ".." ∉ rel)
    (hp : resolve fs (s.root.join rel) = some p) : s.dir <+: p := by
  obtain ⟨m, hm⟩ := s.leads_on
  rw [root_join, hm fs h, walk_top h] at hp
  split at hp
  · exact walk_inside h.links m s.dir 0 rel p (List.prefix_refl _) hrel (Nat.le_refl _) hp
  · cases hp

theorem Confined.place_root (h : s.Confined fs) : place fs s.root = some s.dir := by
  obtain ⟨m, hm⟩ := s.leads_on
  have hlast : s.root.parts.getLast? = some s.name := by simp [root, Way.join]
  apply (place_eq_some hlast s.plain.1 s.plain.2).2
  refine ⟨s.parent, ?_, h.isDir, rfl⟩
  have hdirname : s.root.dirname = s.above.join [] := by simp [root, Way.join, Way.dirname]
  rw [hdirname, hm fs h]
  cases m with
  | zero => rfl
  | succ m => rfl

theorem Confined.place_below (h : s.Confined fs) {rel p : Path} {name : String} (hrel : ".." ∉ rel)
    (hname : name ≠ "." ∧ name ≠ "..") (hp : place fs (s.root.join (rel ++ [name])) = some p) :
    s.dir <+: p ∧ s.dir.length < p.length := by
  have hlast : (s.root.join (rel ++ [name])).parts.getLast? = some name := by simp [Way.join]
  have hdirname : (s.root.join (rel ++ [name])).dirname = s.root.join rel := by
    simp [Way.join, Way.dirname, ← List.append_assoc]
  obtain ⟨d, hd, -, rfl⟩ := (place_eq_some hlast hname.1 hname.2).1 hp
  rw [hdirname] at hd
  have hinside := h.resolve_inside hrel hd
  apply And.intro (hinside.trans (List.prefix_append _ _))
  have := hinside.length_le
  rw [List.length_append, List.length_singleton]
  omega

theorem Confined.place_up (h : s.Confined fs) {rel p : Path} (hrel : ".." ∉ rel)
    (hne : resolve fs (s.root.join rel) ≠ some s.dir) (hp : place fs (s.root.join (rel ++ [".."])) = some p) :
    s.dir <+: p := by
  have hlast : (s.root.join (rel ++ [".."])).parts.getLast? = some ".." := by simp [Way.join]
  rw [place, hlast] at hp
  simp only [or_true, if_true, Option.filter_eq_some_iff] at hp
  have hparts : (s.root.join (rel ++ [".."])).parts = (s.root.join rel).parts ++ [".."] := by simp [Way.join]
  rw [resolve, hparts] at hp
  obtain ⟨d, hd, rfl⟩ := walk_up maxSymlinks _ _ p hp.1
  have hinside := h.resolve_inside hrel hd
  apply dropLast_inside hinside
  apply lt_of_le_of_ne hinside.length_le
  intro hlength
  exact hne (hd.trans (congrArg some (hinside.eq_of_length hlength).symm))

/-! ## Calls -/

def Within (s : Staging before) (w : Way) : Prop := ∃ rel, w = s.root.join rel ∧ ∀ name ∈ rel, name ≠ "." ∧ name ≠ ".."

def Beneath (s : Staging before) (w : Way) : Prop := s.Within w ∧ w ≠ s.root

def Up (s : Staging before) (w : Way) : Prop := ∃ v, s.Within v ∧ w = v.join [".."]

def Proper (s : Staging before) : Call γ → Prop
  | .mkdir w => s.Within w
  | .unlink w | .rmtree w => s.Within w ∨ s.Up w
  | .symlink text w => s.Beneath w ∧ Relative text
  | .link src dst => s.Within src ∧ s.Beneath dst
  | .create w _ => s.Beneath w

def Orderly (dir : Path) : Call γ → Files γ → Prop
  | .rmtree w, fs => w.parts.getLast? = some ".." → resolve fs w.dirname ≠ some dir
  | .symlink text w, fs => ∀ p ∈ place fs w, dir.length + ups text < p.length
  | .link src dst, fs => ∀ node ∈ lstat fs src, ∀ text ∈ node.text, ∀ p ∈ place fs dst, dir.length + ups text < p.length
  | _, _ => True

instance (dir : Path) (fs : Files γ) : (c : Call γ) → Decidable (Orderly dir c fs)
  | .mkdir _ | .unlink _ | .create _ _ => inferInstanceAs (Decidable True)
  | .rmtree w => inferInstanceAs (Decidable (w.parts.getLast? = some ".." → resolve fs w.dirname ≠ some dir))
  | .symlink text w => inferInstanceAs (Decidable (∀ p ∈ place fs w, dir.length + ups text < p.length))
  | .link src dst => inferInstanceAs
      (Decidable (∀ node ∈ lstat fs src, ∀ text ∈ node.text, ∀ p ∈ place fs dst, dir.length + ups text < p.length))

variable {w : Way} {p : Path}

theorem Within.place (h : s.Confined fs) (hw : s.Within w) (hp : place fs w = some p) :
    s.dir <+: p ∧ (w ≠ s.root → s.dir.length < p.length) := by
  obtain ⟨rel, rfl, hrel⟩ := hw
  rcases List.eq_nil_or_concat rel with rfl | ⟨init, name, rfl⟩
  · have hroot : s.root.join [] = s.root := by simp [Way.join]
    rw [hroot, h.place_root, Option.some.injEq] at hp
    exact ⟨hp ▸ List.prefix_refl _, fun hne => absurd hroot hne⟩
  · rw [List.concat_eq_append] at hp hrel
    have hinit : ".." ∉ init := fun hmem => (hrel _ (List.mem_append_left _ hmem)).2 rfl
    obtain ⟨hinside, hlt⟩ := h.place_below hinit (hrel name (by simp)) hp
    exact ⟨hinside, fun _ => hlt⟩

theorem dir_ne_nil : s.dir ≠ [] := by simp [dir]

theorem ne_nil_of_inside (h : s.dir <+: p) : p ≠ [] := by
  rintro rfl
  exact s.dir_ne_nil (List.prefix_nil.1 h)

theorem Confined.erase (h : s.Confined fs) (hp : s.dir <+: p) : s.Confined (fs.erase p) where
  outside q hq := by
    have hne : q ≠ p := fun heq => hq (heq ▸ hp)
    rw [Dict.get?_erase, if_neg hne]
    exact h.outside q hq
  links q text hq hget := by
    rw [Dict.get?_erase] at hget
    split at hget
    · cases hget
    · exact h.links q text hq hget
  top := by
    rw [Dict.get?_erase]
    split
    · exact .inl rfl
    · exact h.top

theorem get?_clear (p q : Path) (fs : Files γ) : (clear p fs).get? q = if p <+: q ∧ p ≠ q then none else fs.get? q := by
  rw [clear, Dict.get?_filter (fun q => !(p.isPrefixOf q && p != q))]
  by_cases hpre : p <+: q
  · by_cases heq : p = q
    · simp [heq]
    · simp [hpre, heq]
  · simp [hpre]

theorem Confined.clear (h : s.Confined fs) (hp : s.dir <+: p) : s.Confined (clear p fs) where
  outside q hq := by
    rw [get?_clear, if_neg (fun hpre => hq (hp.trans hpre.1))]
    exact h.outside q hq
  links q text hq hget := by
    rw [get?_clear] at hget
    split at hget
    · cases hget
    · exact h.links q text hq hget
  top := by
    rw [get?_clear]
    split
    · exact .inl rfl
    · exact h.top

theorem Confined.set (h : s.Confined fs) {node : Node γ} (hp : s.dir <+: p)
    (hnode : node = .dir ∨ s.dir.length < p.length) (hlink : ∀ text, node = .link text → Tame s.dir p text) :
    s.Confined (fs.set p node) where
  outside q hq := by
    have hne : q ≠ p := fun heq => hq (heq ▸ hp)
    rw [Dict.get?_set_ne hne]
    exact h.outside q hq
  links q text hq hget := by
    rw [Dict.get?_set] at hget
    split at hget
    · next heq =>
      rw [heq]
      exact hlink text (Option.some.inj hget)
    · exact h.links q text hq hget
  top := by
    rw [Dict.get?_set]
    split
    · next heq =>
      rcases hnode with rfl | hlt
      · exact .inr rfl
      · rw [heq] at hlt
        omega
    · exact h.top

theorem Confined.enter (h : s.Confined fs) {node : Node γ} (hw : s.Within w)
    (hnode : node = .dir ∨ w ≠ s.root)
    (hlink : ∀ text p, node = .link text → place fs w = some p → Tame s.dir p text) :
    s.Confined (wholly fs (enter node w fs)).2 := by
  cases henter : Tree.enter node w fs with
  | error e => exact h
  | ok fs' =>
    obtain ⟨p, hp, -, -, rfl⟩ := enter_ok henter
    obtain ⟨hinside, hlt⟩ := hw.place h hp
    exact h.set hinside (hnode.imp_right hlt) fun text htext => hlink text p htext hp

theorem Up.lstat (hw : s.Up w) (fs : Files γ) : lstat fs w = none ∨ lstat fs w = some .dir := by
  obtain ⟨v, -, rfl⟩ := hw
  have hlast : (v.join [".."]).parts.getLast? = some ".." := by simp [Way.join]
  cases hstat : Tree.lstat fs (v.join [".."]) with
  | none => exact .inl rfl
  | some node =>
    obtain ⟨p, hp, hget⟩ := Option.bind_eq_some_iff.1 hstat
    rw [Tree.place, hlast] at hp
    simp only [or_true, if_true, Option.filter_eq_some_iff] at hp
    split at hget
    · exact .inr hget.symm
    · next hne =>
      rw [(isDirAt_iff.1 hp.2).resolve_left hne] at hget
      exact .inr hget.symm

theorem Confined.unlink (h : s.Confined fs) (hw : s.Within w ∨ s.Up w) :
    s.Confined (wholly fs (unlink w fs)).2 := by
  unfold Tree.unlink
  cases hp : place fs w with
  | none => exact h
  | some p =>
    cases hstat : lstat fs w with
    | none => exact h
    | some node =>
      cases node with
      | dir => exact h
      | file c =>
        rcases hw with hw | hw
        · exact h.erase (hw.place h hp).1
        · rcases hw.lstat fs with hnone | hdir
          · simp [hnone] at hstat
          · simp [hdir] at hstat
      | link text =>
        rcases hw with hw | hw
        · exact h.erase (hw.place h hp).1
        · rcases hw.lstat fs with hnone | hdir
          · simp [hnone] at hstat
          · simp [hdir] at hstat

theorem place_removed (h : s.Confined fs) (hw : s.Within w ∨ s.Up w)
    (hup : w.parts.getLast? = some ".." → resolve fs w.dirname ≠ some s.dir) (hp : place fs w = some p) :
    s.dir <+: p := by
  rcases hw with hw | ⟨v, ⟨rel, rfl, hrel⟩, rfl⟩
  · exact (hw.place h hp).1
  · have hjoin : (s.root.join rel).join [".."] = s.root.join (rel ++ [".."]) := by simp [Way.join]
    have hdirname : ((s.root.join rel).join [".."]).dirname = s.root.join rel := by
      simp [Way.join, Way.dirname]
    have hne := hup (by simp [Way.join])
    rw [hdirname] at hne
    rw [hjoin] at hp
    exact h.place_up (fun hmem => (hrel _ hmem).2 rfl) hne hp

theorem Confined.rmtree (h : s.Confined fs) (hw : s.Within w ∨ s.Up w)
    (hup : w.parts.getLast? = some ".." → resolve fs w.dirname ≠ some s.dir) : s.Confined (rmtreeAt w fs).2 := by
  unfold rmtreeAt
  cases hp : place fs w with
  | none => exact h
  | some p =>
    have hclear := h.clear (place_removed h hw hup hp)
    cases hstat : lstat fs w with
    | none => exact h
    | some node =>
      cases node with
      | file c => exact h
      | link text => exact h
      | dir =>
        dsimp only
        cases hrm : rmdirAt w (Tree.clear p fs) with
        | error e => exact hclear
        | ok fs' =>
          unfold rmdirAt at hrm
          split at hrm
          · cases hrm
          · next hlast =>
            split at hrm
            · cases hrm
            · split at hrm
              · next q hq _ =>
                split at hrm
                · cases hrm
                  exact hclear.erase (place_removed hclear hw (fun hup => absurd hup hlast) hq)
                · cases hrm
              · cases hrm
              · cases hrm

variable {c : Call γ}

theorem Confined.perform (h : s.Confined fs) (hc : s.Proper c) (ho : Orderly s.dir c fs) :
    s.Confined (c.perform fs).2 := by
  cases c with
  | mkdir w => exact h.enter hc (.inl rfl) nofun
  | unlink w => exact h.unlink hc
  | rmtree w => exact h.rmtree hc ho
  | symlink text w =>
    obtain ⟨⟨hw, hne⟩, hrelative⟩ := hc
    rw [Call.perform, Tree.symlink]
    split
    · exact h
    · apply h.enter hw (.inr hne)
      rintro text' p ⟨⟩ hp
      exact ⟨hrelative, ho p hp⟩
  | link src dst =>
    obtain ⟨hsrc, hw, hne⟩ := hc
    rw [Call.perform, hardlink]
    cases hstat : lstat fs src with
    | none => exact h
    | some node =>
      cases node with
      | dir => exact h
      | file c => exact h.enter hw (.inr hne) nofun
      | link text =>
        apply h.enter hw (.inr hne)
        rintro text' p ⟨⟩ hp
        obtain ⟨q, hq, hget⟩ := Option.bind_eq_some_iff.1 hstat
        have hinside := (hsrc.place h hq).1
        rw [if_neg (ne_nil_of_inside hinside)] at hget
        exact ⟨(h.links q text hinside hget).relative, ho _ hstat text rfl p hp⟩
  | create w contents => exact h.enter hc.1 (.inr hc.2) nofun

/-! ## Programs -/

section
variable {ε α : Type} {size : γ → Nat} {n : Nat}

def Held (s : Staging before) (n : Nat) (d : Disk γ) : Prop := s.Confined d.tree ∧ d.written ≤ n

abbrev Safe (s : Staging before) (size : γ → Nat) (n : Nat) (t : Act γ ε α) : Prop :=
  t.Keeps (exec size) (fun c d => Orderly s.dir c d.tree) (s.Held n)

theorem held_exec {d : Disk γ} (h : s.Held n d) (hc : s.Proper c) (ho : Orderly s.dir c d.tree) :
    s.Held (n + c.cost size) (exec size c d).2 := by
  have htree := h.1.perform hc ho
  have hwritten := h.2
  unfold exec
  cases hp : c.perform d.tree with
  | mk r tree =>
    rw [hp] at htree
    cases r with
    | ok u =>
      constructor
      · exact htree
      · exact Nat.add_le_add_right hwritten _
    | error e =>
      constructor
      · exact htree
      · exact hwritten.trans (Nat.le_add_right _ _)

theorem safe_call {next : Except Errno Unit → Act γ ε α} (hc : s.Proper c) (hcost : c.cost size = 0)
    (hnext : ∀ r, s.Safe size n (next r)) : s.Safe size n (.call c next) := by
  apply Script.keeps_call
  · intro d hd ho
    have hafter : s.Held (n + c.cost size) (exec size c d).2 := held_exec hd hc ho
    rwa [hcost] at hafter
  · exact fun _ _ r _ => hnext r

theorem safe_act {raised : Errno → ε} (hc : s.Proper c) (hcost : c.cost size = 0) :
    s.Safe size n (Script.act raised c : Act γ ε Unit) := by
  apply safe_call hc hcost
  intro r
  cases r with
  | ok u => exact Script.keeps_ret ()
  | error e => exact Script.keeps_raise _

theorem safe_unlessDir (raised : Errno → ε) (w : Way) (e : Errno) : s.Safe size n (unlessDir raised w e : Act γ ε Unit) := by
  apply Script.keeps_see_bind
  intro d _
  split
  · exact Script.keeps_pure ()
  · exact Script.keeps_raise _

theorem safe_mkdirOk (raised : Errno → ε) (hw : s.Within w) : s.Safe size n (mkdirOk raised w : Act γ ε Unit) := by
  apply safe_call (c := .mkdir _) hw rfl
  intro r
  cases r with
  | ok u => exact Script.keeps_pure ()
  | error e => exact safe_unlessDir raised w e

theorem mkdir_root (h : s.Confined fs) : mkdir s.root fs ≠ .error .noent := by
  rw [mkdir, Tree.enter, h.place_root]
  cases hstat : lstat fs s.root with
  | none => simp
  | some node => simp

theorem within_init {init rest : Path} (h : s.Within (s.root.join (init ++ rest))) : s.Within (s.root.join init) := by
  obtain ⟨rel, heq, hrel⟩ := h
  have hparts : s.root.parts ++ (init ++ rest) = s.root.parts ++ rel := congrArg Way.parts heq
  rw [List.append_cancel_left_eq] at hparts
  exact ⟨init, rfl, fun name hname => hrel name (hparts ▸ List.mem_append_left _ hname)⟩

theorem safe_mkdirFrom (raised : Errno → ε) : ∀ rev : Path, s.Within (s.root.join rev.reverse) →
    s.Safe size n (mkdirFrom raised s.root.start (rev ++ s.root.parts.reverse) : Act γ ε Unit)
  | [], hw => by
    have hparts : s.root.parts = s.above.parts ++ [s.name] := rfl
    have hroot : (⟨s.root.start, (s.name :: s.above.parts.reverse).reverse⟩ : Way) = s.root := by
      rw [List.reverse_cons, List.reverse_reverse]
      rfl
    rw [List.nil_append, hparts, List.reverse_append, List.reverse_singleton, List.singleton_append, mkdirFrom, hroot]
    have hwithin : s.Within s.root := ⟨[], by simp [Way.join], by simp⟩
    apply Script.keeps_call
    · intro d hd ho
      exact held_exec (c := .mkdir s.root) hd hwithin ho
    · intro d hd r hr
      cases r with
      | ok u => exact Script.keeps_pure ()
      | error e =>
        cases e with
        | noent =>
          exfalso
          have hnot := mkdir_root hd.1
          unfold exec Call.perform wholly at hr
          cases hmk : mkdir s.root d.tree with
          | ok fs => simp [hmk] at hr
          | error e =>
            simp only [hmk, Except.error.injEq] at hr
            exact hnot (hr ▸ hmk)
        | _ => exact safe_unlessDir raised _ _
  | name :: rev, hw => by
    have hway : (⟨s.root.start, (name :: (rev ++ s.root.parts.reverse)).reverse⟩ : Way) = s.root.join (name :: rev).reverse := by
      simp [Way.join]
    rw [List.cons_append, mkdirFrom, hway]
    apply safe_call (c := .mkdir _) hw rfl
    intro r
    cases r with
    | ok u => exact Script.keeps_pure ()
    | error e =>
      cases e with
      | noent =>
        rw [List.reverse_cons] at hw
        apply Script.Keeps.bind (safe_mkdirFrom raised rev (within_init hw))
        intro _
        rw [List.reverse_cons]
        exact safe_mkdirOk raised hw
      | _ => exact safe_unlessDir raised _ _

theorem safe_mkdirParents (raised : Errno → ε) (hw : s.Within w) :
    s.Safe size n (mkdirParents raised w : Act γ ε Unit) := by
  obtain ⟨rel, rfl, hrel⟩ := hw
  have hrev : (s.root.join rel).parts.reverse = rel.reverse ++ s.root.parts.reverse := by simp [Way.join]
  rw [mkdirParents, hrev]
  apply safe_mkdirFrom raised rel.reverse
  rw [List.reverse_reverse]
  exact ⟨rel, rfl, hrel⟩

end

end Staging

end Tree
