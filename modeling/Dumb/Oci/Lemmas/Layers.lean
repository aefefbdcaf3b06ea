import Dumb.Oci.Layers

/-!
# Layers stay in the staging directory

The paths that a layer's members are mapped to, and what is done with them.
-/

namespace Dumb.Oci.Layers

open Py Tree InstallCache

/-! ## Names -/

def Named (name : String) : Prop := name ≠ "" ∧ name ≠ "." ∧ '/' ∉ name.toList

theorem slashless {cs : List Char} {name : String} (h : name ∈ names cs) : '/' ∉ name.toList := by
  obtain ⟨part, hpart, rfl⟩ := List.mem_map.1 h
  simpa using not_mem_splitOn '/' cs part hpart

theorem named_of_mem {cs : List Char} {name : String} (h : name ∈ purePosixPath cs) : Named name := by
  obtain ⟨hmem, hname⟩ := List.mem_filter.1 h
  simp only [decide_eq_true_eq] at hname
  exact ⟨hname.1, hname.2, slashless hmem⟩

def Plain (ps : Path) : Prop := ∀ name ∈ ps, Named name ∧ name ≠ ".."

theorem Plain.append {ps qs : Path} (h : Plain ps) (h' : Plain qs) : Plain (ps ++ qs) := by
  intro name hname
  exact (List.mem_append.1 hname).elim (h name) (h' name)

theorem Plain.sublist {ps qs : Path} (h : Plain ps) (hsub : qs.Sublist ps) : Plain qs :=
  fun name hname => h name (hsub.subset hname)

theorem Plain.not_up {ps : Path} (h : Plain ps) : ".." ∉ ps := fun hmem => (h _ hmem).2 rfl

theorem plain_of_normalizeChars {cs : List Char} {ps : Path} (h : normalizeChars cs = some ps) : Plain ps := by
  unfold normalizeChars at h
  dsimp only at h
  split at h
  · cases h
  · next hsafe =>
    simp only [not_or] at hsafe
    rw [Option.some.injEq] at h
    subst h
    intro name hname
    apply And.intro (named_of_mem hname)
    rintro rfl
    exact hsafe.2.2 hname

theorem normpathFrom_shape : ∀ (rest done : Path) (k : Nat) (down : Path),
    done = down ++ List.replicate k ".." → (∀ name ∈ down, Named name ∧ name ≠ "..") → (∀ name ∈ rest, '/' ∉ name.toList) →
      ∃ k down, normpathFrom done rest = List.replicate k ".." ++ down ∧ Plain down
  | [], done, k, down, hdone, hdown, _ => by
    refine ⟨k, down.reverse, ?_, fun name hname => hdown name (List.mem_reverse.1 hname)⟩
    rw [normpathFrom, hdone, List.reverse_append, List.reverse_replicate]
  | name :: rest, done, k, down, hdone, hdown, hrest => by
    have hrest' : ∀ name ∈ rest, '/' ∉ name.toList := fun n hn => hrest n (List.mem_cons_of_mem _ hn)
    rw [normpathFrom]
    by_cases hskip : name = "" ∨ name = "."
    · rw [if_pos hskip]
      exact normpathFrom_shape rest done k down hdone hdown hrest'
    rw [if_neg hskip]
    obtain ⟨hempty, hdot⟩ := not_or.1 hskip
    by_cases hup : name = ".."
    · subst hup
      cases down with
      | nil =>
        rw [List.nil_append] at hdone
        have hpush : done = [] ∨ done.head? = some ".." := by
          cases k with
          | zero => exact .inl hdone
          | succ k => exact .inr (by rw [hdone, List.replicate_succ, List.head?_cons])
        rw [if_pos (.inr hpush)]
        apply normpathFrom_shape rest _ (k + 1) [] _ (by simp) hrest'
        rw [hdone, List.nil_append, List.replicate_succ]
      | cons top down =>
        have htop := hdown top List.mem_cons_self
        rw [if_neg (by simp [hdone, htop.2])]
        apply normpathFrom_shape rest _ k down _ (fun n hn => hdown n (List.mem_cons_of_mem _ hn)) hrest'
        rw [hdone, List.cons_append, List.tail_cons]
    · rw [if_pos (.inl hup)]
      apply normpathFrom_shape rest _ k (name :: down) _ _ hrest'
      · rw [hdone, List.cons_append]
      · intro n hn
        rcases List.mem_cons.1 hn with rfl | hn
        · exact ⟨⟨hempty, hdot, hrest n List.mem_cons_self⟩, hup⟩
        · exact hdown n hn

theorem normpath_shape {ps : Path} (h : ∀ name ∈ ps, '/' ∉ name.toList) :
    ∃ k down, normpathFrom [] ps = List.replicate k ".." ++ down ∧ Plain down :=
  normpathFrom_shape ps [] 0 [] rfl (by simp) h

theorem resolvedLink_shape {source ps : Path} {linkname : String} (hsource : Plain source)
    (h : resolvedLink source linkname = some ps) : ∃ k down, ps = List.replicate k ".." ++ down ∧ Plain down := by
  unfold resolvedLink at h
  split at h
  · cases h
  · cases h
  · rw [Option.some.injEq] at h
    subst h
    exact normpath_shape fun name hname => slashless hname
  · rw [Option.some.injEq] at h
    subst h
    apply normpath_shape
    intro name hname
    rcases List.mem_append.1 hname with hname | hname
    · exact (hsource name (List.mem_of_mem_dropLast hname)).1.2.2
    · exact slashless hname

/-! ## Mapped paths -/

def Moves (mappedPath : Path → Option Path) : Prop :=
  ∀ source target, mappedPath source = some target →
    ∃ new rest, target = new ++ rest ∧ rest <:+ source ∧ Plain new

variable {source target : Path}

theorem Moves.plain {mappedPath : Path → Option Path} (h : Moves mappedPath) (hs : Plain source)
    (ht : mappedPath source = some target) : Plain target := by
  obtain ⟨new, rest, rfl, hrest, hnew⟩ := h source target ht
  exact hnew.append (hs.sublist hrest.sublist)

theorem Moves.hidden {mappedPath : Path → Option Path} (h : Moves mappedPath) {name : String}
    (hs : Plain source) (hname : '/' ∉ name.toList) (ht : mappedPath (hiddenSource source name) = some target) :
    Plain target ∨ ∃ init, target = init ++ [".."] ∧ Plain init := by
  obtain ⟨new, rest, rfl, hrest, hnew⟩ := h _ _ ht
  have hinit : Plain source.dropLast := hs.sublist (List.dropLast_sublist source)
  unfold hiddenSource at hrest
  by_cases hnone : name = "" ∨ name = "."
  · rw [if_pos hnone, List.append_nil] at hrest
    exact .inl (hnew.append (hinit.sublist hrest.sublist))
  rw [if_neg hnone] at hrest
  obtain ⟨hempty, hdot⟩ := not_or.1 hnone
  by_cases hup : name = ".."
  · subst hup
    rcases List.eq_nil_or_concat rest with rfl | ⟨init, last, rfl⟩
    · exact .inl (by simpa using hnew)
    · rw [List.concat_eq_append] at hrest ⊢
      obtain ⟨more, hmore⟩ := hrest
      rw [← List.append_assoc] at hmore
      obtain ⟨hparts, hlast⟩ := List.append_inj' hmore rfl
      rw [List.singleton_inj.1 hlast, ← List.append_assoc]
      refine .inr ⟨_, rfl, hnew.append (hinit.sublist ?_)⟩
      rw [← hparts]
      exact List.sublist_append_right more init
  · apply Or.inl
    apply hnew.append
    have hall : Plain (source.dropLast ++ [name]) := by
      apply hinit.append
      simpa [Plain] using ⟨⟨hempty, hdot, hname⟩, hup⟩
    exact hall.sublist hrest.sublist

theorem plain_of_all {ps : Path} (h : ps.all fun name => name ≠ "" ∧ name ≠ "." ∧ '/' ∉ name.toList ∧ name ≠ "..") :
    Plain ps := by
  intro name hname
  have := List.all_eq_true.1 h name hname
  simp only [decide_eq_true_eq] at this
  exact ⟨⟨this.1, this.2.1, this.2.2.1⟩, this.2.2.2⟩

theorem Aiostreams.moves (decimal : Char → Bool) : Moves (mappedPath decimal) := by
  intro source target h
  unfold mappedPath at h
  split at h
  · next name =>
    split at h
    · rw [Option.some.injEq] at h
      exact ⟨["lib"], [name], h.symm, ⟨["usr", "local", "lib"], rfl⟩, plain_of_all (by decide)⟩
    · cases h
  · rw [Option.some.injEq] at h
    exact ⟨[], _, h.symm, ⟨["app"], rfl⟩, by simp [Plain]⟩
  · cases h

theorem Mediastorm.moves : Moves mappedPath := by
  intro source target h
  unfold mappedPath at h
  split at h
  · next target' hfile =>
    rw [Option.some.injEq] at h
    subst h
    refine ⟨_, [], (List.append_nil _).symm, List.nil_suffix, ?_⟩
    have hall : ∀ m ∈ sourceFiles, m.2.all (fun name => name ≠ "" ∧ name ≠ "." ∧ '/' ∉ name.toList ∧ name ≠ "..") = true := by
      decide
    exact plain_of_all (hall _ (Dict.mem_of_get? hfile))
  · split at h
    · next target' hfind =>
      rw [Option.some.injEq] at h
      subst h
      obtain ⟨⟨sourceDir, targetDir⟩, hmem, hdir⟩ := List.exists_of_findSome?_eq_some hfind
      simp only [Option.ite_none_right_eq_some, Option.some.injEq] at hdir
      refine ⟨targetDir, source.drop sourceDir.length, hdir.2.symm, List.drop_suffix _ _, ?_⟩
      have hall : ∀ m ∈ sourceDirectories, m.2.all (fun name => name ≠ "" ∧ name ≠ "." ∧ '/' ∉ name.toList ∧ name ≠ "..") = true := by
        decide
      exact plain_of_all (hall _ hmem)
    · split at h
      · next name hlast =>
        split at h
        · rw [Option.some.injEq] at h
          refine ⟨["lib", ".system-libs"], [name], h.symm, ?_, plain_of_all (by decide)⟩
          exact ⟨source.dropLast, List.dropLast_append_getLast? name hlast⟩
        · cases h
      · cases h

/-! ## Links -/

theorem isAbsolute_join {ps : Path} (h : ∀ name ∈ ps, name ≠ "" ∧ '/' ∉ name.toList) (hne : ps ≠ []) :
    isAbsolute (join '/' ps) = false := by
  cases ps with
  | nil => exact absurd rfl hne
  | cons name ps =>
    obtain ⟨hname, hslash⟩ := h name List.mem_cons_self
    have hchars : name.toList ≠ [] := by simpa using hname
    obtain ⟨c, cs, hcs⟩ := List.exists_cons_of_ne_nil hchars
    have hc : c ≠ '/' := by
      rintro rfl
      simp [hcs] at hslash
    rw [isAbsolute, join, String.toList_ofList]
    cases ps with
    | nil => simp [hcs, hc]
    | cons next ps => simp [List.intercalate, hcs, hc]

theorem parts_join {ps : Path} (h : ∀ name ∈ ps, name ≠ "" ∧ '/' ∉ name.toList) (hne : ps ≠ []) :
    parts (join '/' ps) = ps := by
  have hsplit : ((join '/' ps).toList.splitOn '/').map String.ofList = ps := split_join hne fun name hname => (h name hname).2
  have hlast : ps.getLast? ≠ some "" := by
    intro hlast
    exact (h _ (List.mem_of_getLast? hlast)).1 rfl
  have hfilter : (ps.filter fun name => name ≠ "") = ps := by
    apply List.filter_eq_self.2
    intro name hname
    simpa using (h name hname).1
  unfold parts
  dsimp only
  rw [hsplit, if_neg hlast, List.append_nil, hfilter]

theorem relative_relpath {target start : Path} (h : Plain target) : Relative (relpath target start) := by
  have hdrop : Plain (target.drop (common start target)) := h.sublist (List.drop_sublist _ _)
  unfold relpath
  dsimp only
  split
  · exact ⟨by decide, 0, ["."], by decide, by decide⟩
  · next hne =>
    have hnames : ∀ name ∈ List.replicate (start.length - common start target) ".." ++ target.drop (common start target),
        name ≠ "" ∧ '/' ∉ name.toList := by
      intro name hname
      rcases List.mem_append.1 hname with hname | hname
      · rw [List.eq_of_mem_replicate hname]
        decide
      · exact ⟨(hdrop name hname).1.1, (hdrop name hname).1.2.2⟩
    refine ⟨isAbsolute_join hnames hne, _, _, parts_join hnames hne, hdrop.not_up⟩

theorem Aiostreams.relative_link {decimal : Char → Bool} {linkname text : String} (hs : Plain source)
    (h : mappedLinkTarget decimal source linkname = some (target, text)) : Relative text := by
  unfold mappedLinkTarget at h
  simp only [Option.bind_eq_bind, Option.bind_eq_some_iff] at h
  obtain ⟨resolved, hresolved, h⟩ := h
  split at h
  · cases h
  · next hup =>
    simp only [Option.bind_eq_some_iff, pure, Option.some.injEq, Prod.mk.injEq] at h
    obtain ⟨target', htarget, mapped, hmapped, rfl, rfl⟩ := h
    obtain ⟨k, down, rfl, hdown⟩ := resolvedLink_shape hs hresolved
    cases k with
    | succ k => simp [List.replicate_succ] at hup
    | zero => exact relative_relpath ((moves decimal).plain (by simpa using hdown) htarget)

theorem Mediastorm.plain_link {linkname : String} (hs : Plain source)
    (h : mappedLinkTarget source linkname = some target) : Plain target := by
  unfold mappedLinkTarget at h
  simp only [Option.bind_eq_bind, Option.bind_eq_some_iff] at h
  obtain ⟨resolved, hresolved, h⟩ := h
  split at h
  · cases h
  · next hup =>
    obtain ⟨k, down, rfl, hdown⟩ := resolvedLink_shape hs hresolved
    cases k with
    | succ k => simp [List.replicate_succ] at hup
    | zero => exact moves.plain (by simpa using hdown) h

/-! ## Programs -/

section
variable {before : Files Bytes} {s : Staging before} {n : Nat} {α β : Type}

abbrev Safe (s : Staging before) (n : Nat) (t : Step α) : Prop := s.Safe List.length n t

theorem within_join {rel : Path} (h : Plain rel) : s.Within (s.root.join rel) :=
  ⟨rel, rfl, fun name hname => ⟨(h name hname).1.2.1, (h name hname).2⟩⟩

theorem beneath_join {rel : Path} (h : Plain rel) (hne : rel ≠ []) : s.Beneath (s.root.join rel) := by
  refine ⟨within_join h, fun heq => hne ?_⟩
  have hparts : s.root.parts ++ rel = s.root.parts ++ [] := by
    rw [List.append_nil]
    exact congrArg Way.parts heq
  exact List.append_cancel_left hparts

theorem root_within : s.Within s.root := ⟨[], by simp [Way.join], by simp⟩

theorem dirname_within {w : Way} (h : s.Beneath w) : s.Within w.dirname := by
  obtain ⟨⟨rel, rfl, hrel⟩, hne⟩ := h
  have hrel' : rel ≠ [] := by
    rintro rfl
    exact hne (by simp [Way.join])
  refine ⟨rel.dropLast, ?_, fun name hname => hrel name (List.mem_of_mem_dropLast hname)⟩
  simp [Way.join, Way.dirname, List.dropLast_append_of_ne_nil hrel']

theorem safe_removeExisting {w : Way} (h : s.Within w ∨ s.Up w) : Safe s n (removeExisting w) := by
  unfold removeExisting
  apply Script.keeps_see_bind
  intro d _
  split
  · exact Staging.safe_act (c := .unlink w) h rfl
  · apply Script.keeps_see_bind
    intro d _
    split
    · exact Staging.safe_act (c := .rmtree w) h rfl
    · exact Script.keeps_pure ()

theorem safe_makeRoom {w : Way} (h : s.Beneath w) : Safe s n (makeRoom w) := by
  unfold makeRoom
  apply Script.Keeps.bind (Staging.safe_mkdirParents _ (dirname_within h))
  intro _
  apply Script.keeps_see_bind
  intro d _
  split
  · exact safe_removeExisting (.inl h.1)
  · exact Script.keeps_pure ()

theorem safe_putDir {w : Way} (h : s.Within w) : Safe s n (putDir w) := by
  have hmkdir : Safe s n (mkdirParents .os w : Step Unit) := Staging.safe_mkdirParents _ h
  unfold putDir
  apply Script.keeps_see_bind
  intro d _
  split
  · apply Script.Keeps.bind (safe_removeExisting (.inl h))
    exact fun _ => hmkdir
  · exact hmkdir

theorem safe_destinationIn {rel : Path} {f : Way → Step α} (h : Safe s n (f (s.root.join rel))) :
    Safe s n (destinationIn s.root rel >>= f) := by
  unfold destinationIn
  simp only [Script.bind_assoc]
  apply Script.keeps_see_bind
  intro d _
  apply Script.keeps_orRaise_bind
  intro root _
  apply Script.keeps_see_bind
  intro d _
  apply Script.keeps_orRaise_bind
  intro parent _
  apply Script.keeps_require_bind
  exact fun _ => h

theorem Aiostreams.safe_safeDestination {rel : Path} {f : Way → Step α} (h : Safe s n (f (s.root.join rel))) :
    Safe s n (safeDestination s.root rel >>= f) := by
  unfold safeDestination
  split
  · next hrel =>
    rw [hrel, show s.root.join [] = s.root by simp [Way.join]] at h
    exact h
  · exact safe_destinationIn h

theorem mem_children {fs : Files Bytes} {w : Way} {name : String} (h : name ∈ children fs w) : name ≠ "." ∧ name ≠ ".." := by
  unfold children at h
  cases hw : resolve fs w with
  | none => simp [hw] at h
  | some p =>
    rw [hw] at h
    have hmem := (List.mem_filter.1 h).2
    simpa using hmem

theorem child_within {rel : Path} {name : String} (h : Plain rel) (hname : name ≠ "." ∧ name ≠ "..") :
    s.Within ((s.root.join rel).join [name]) := by
  refine ⟨rel ++ [name], by simp [Way.join], ?_⟩
  intro part hpart
  rcases List.mem_append.1 hpart with hpart | hpart
  · exact ⟨(h part hpart).1.2.1, (h part hpart).2⟩
  · rw [List.mem_singleton.1 hpart]
    exact hname

theorem safe_applyWhiteout {mappedPath : Path → Option Path} {safeDestination : Path → Step Way} (hmoves : Moves mappedPath)
    (hdest : ∀ (rel : Path) (f : Way → Step Bool), Safe s n (f (s.root.join rel)) → Safe s n (safeDestination rel >>= f))
    {source : Path} (hs : Plain source) : Safe s n (applyWhiteout mappedPath safeDestination source) := by
  unfold applyWhiteout
  split
  · exact Script.keeps_pure _
  · next name hname =>
    split
    · split
      · exact Script.keeps_pure _
      · next rel hrel =>
        have hplain := hmoves.plain (hs.sublist (List.dropLast_sublist source)) hrel
        apply hdest
        apply Script.keeps_see_bind
        intro d _
        split
        · dsimp only
          apply Script.keeps_see_bind
          intro d _
          apply Script.Keeps.bind
          · apply Script.keeps_forEach
            intro child hchild
            exact safe_removeExisting (.inl (child_within hplain (mem_children hchild)))
          · exact fun _ => Script.keeps_pure _
        · exact Script.keeps_pure _
    · split
      · split
        · exact Script.keeps_pure _
        · next rel hrel =>
          apply hdest
          have hslash : '/' ∉ (String.ofList (name.toList.drop 4)).toList := by
            rw [String.toList_ofList]
            intro hmem
            exact (hs name (List.mem_of_getLast? hname)).1.2.2 (List.mem_of_mem_drop hmem)
          apply Script.Keeps.bind _ fun _ => Script.keeps_pure _
          apply safe_removeExisting
          rcases hmoves.hidden hs hslash hrel with hplain | ⟨init, rfl, hinit⟩
          · exact .inl (within_join hplain)
          · exact .inr ⟨s.root.join init, within_join hinit, by simp [Way.join]⟩
      · exact Script.keeps_pure _

/-! ## Members and layers -/

abbrev Comes (s : Staging before) (limit : Nat) (P : Disk Bytes → Prop) (t : Step α) (Q : α → Disk Bytes → Prop) : Prop :=
  t.Comes exec (fun c d => Staging.Orderly s.dir c d.tree) (s.Held limit) P Q

theorem held_mono {m : Nat} (hmn : m ≤ n) {d : Disk Bytes} (h : s.Held m d) : s.Held n d := ⟨h.1, h.2.trans hmn⟩

theorem comes_of_safe {limit : Nat} {t : Step α} (h : Safe s n t) (hn : n ≤ limit) {f : α → Step β} {Q : β → Disk Bytes → Prop}
    (hf : ∀ a, Comes s limit (s.Held n) (f a) Q) : Comes s limit (s.Held n) (t >>= f) Q :=
  (h.comes fun _ hd => held_mono hn hd).bind hf

theorem comes_destinationIn {limit : Nat} (hn : n ≤ limit) {rel : Path} {f : Way → Step α} {Q : α → Disk Bytes → Prop}
    (h : Comes s limit (s.Held n) (f (s.root.join rel)) Q) : Comes s limit (s.Held n) (destinationIn s.root rel >>= f) Q := by
  have hI : ∀ d, s.Held n d → s.Held limit d := fun _ => held_mono hn
  unfold destinationIn
  simp only [Script.bind_assoc]
  apply Script.comes_see_bind
  intro root
  apply Script.comes_orRaise_bind hI
  intro root _
  apply Script.comes_see_bind
  intro parent
  apply Script.comes_orRaise_bind hI
  intro parent _
  apply Script.comes_require_bind hI
  exact fun _ => h

theorem Aiostreams.comes_safeDestination {limit : Nat} (hn : n ≤ limit) {rel : Path} {f : Way → Step α}
    {Q : α → Disk Bytes → Prop} (h : Comes s limit (s.Held n) (f (s.root.join rel)) Q) :
    Comes s limit (s.Held n) (safeDestination s.root rel >>= f) Q := by
  unfold safeDestination
  split
  · next hrel =>
    rw [hrel, show s.root.join [] = s.root by simp [Way.join]] at h
    exact h
  · exact comes_destinationIn hn h

theorem comes_create {limit : Nat} {w : Way} {contents : Bytes} (h : s.Beneath w) (hn : n + contents.length ≤ limit)
    {f : Unit → Step α} {Q : α → Disk Bytes → Prop} (hf : Comes s limit (s.Held (n + contents.length)) (f ()) Q) :
    Comes s limit (s.Held n) (Script.act .os (.create w contents) >>= f) Q := by
  apply Script.Comes.bind
  · apply Script.comes_act (J := s.Held (n + contents.length))
    · exact fun d hd ho => Staging.held_exec (c := .create w contents) hd h ho
    · exact fun d hd => held_mono hn hd
  · exact fun _ => hf

namespace Aiostreams

structure Sound (s : Staging before) (progress : Progress) : Prop where
  extracted : progress.extracted ≤ maxExtractedBytes
  pending : ∀ link ∈ progress.pending, s.Beneath link.1 ∧ Plain link.2

def Reached (s : Staging before) (progress : Progress) (d : Disk Bytes) : Prop :=
  s.Held progress.extracted d ∧ Sound s progress

theorem comes_done {progress : Progress} (h : Sound s progress) :
    Comes s maxExtractedBytes (s.Held progress.extracted) (pure progress : Step Progress) (Reached s) :=
  Script.comes_ret (fun _ => held_mono h.extracted) fun _ hd => ⟨hd, h⟩

theorem comes_applyMember (decimal : Char → Bool) {progress : Progress} (h : Sound s progress) (member : Member) :
    Comes s maxExtractedBytes (s.Held progress.extracted) (applyMember decimal s.root progress member) (Reached s) := by
  have hI : ∀ d, s.Held progress.extracted d → s.Held maxExtractedBytes d := fun _ => held_mono h.extracted
  unfold applyMember
  apply Script.comes_orRaise_bind hI
  intro source hsource
  have hplain := plain_of_normalizeChars hsource
  apply comes_of_safe (safe_applyWhiteout (moves decimal) (fun _ _ => safe_safeDestination) hplain) h.extracted
  intro hidden
  split
  · exact comes_done h
  split
  · exact comes_done h
  next rel hrel =>
  have hrelplain := (moves decimal).plain hplain hrel
  apply Script.comes_require_bind hI
  intro hroot
  rw [decide_eq_true_eq] at hroot
  apply comes_safeDestination h.extracted
  have hbeneath : member.kind ≠ .dir → s.Beneath (s.root.join rel) :=
    fun hkind => beneath_join hrelplain (hroot.resolve_right hkind)
  split
  · exact comes_of_safe (safe_putDir (within_join hrelplain)) h.extracted fun _ => comes_done h
  · next linkname hkind =>
    have hdest := hbeneath (by simp [hkind])
    apply Script.comes_orRaise_bind hI
    rintro ⟨target, text⟩ hlink
    apply comes_of_safe (safe_makeRoom hdest) h.extracted
    intro _
    apply comes_of_safe (Staging.safe_act (c := .symlink text _) ⟨hdest, relative_link hplain hlink⟩ rfl) h.extracted
    exact fun _ => comes_done h
  · next linkname hkind =>
    have hdest := hbeneath (by simp [hkind])
    apply Script.comes_orRaise_bind hI
    intro target htarget
    obtain ⟨source', hsource', htarget⟩ := Option.bind_eq_some_iff.1 htarget
    have hnew : Sound s { progress with pending := progress.pending ++ [(s.root.join rel, target)] } := by
      refine ⟨h.extracted, fun link hlink => ?_⟩
      rcases List.mem_append.1 hlink with hlink | hlink
      · exact h.pending link hlink
      · rw [List.mem_singleton.1 hlink]
        exact ⟨hdest, (moves decimal).plain (plain_of_normalizeChars hsource') htarget⟩
    exact comes_done hnew
  · exact Script.comes_raise hI
  · next contents hkind =>
    have hdest := hbeneath (by simp [hkind])
    apply Script.comes_require_bind hI
    intro hlimit
    rw [decide_eq_true_eq] at hlimit
    apply comes_of_safe (safe_makeRoom hdest) h.extracted
    intro _
    apply comes_create hdest hlimit
    have hnew : Sound s { progress with extracted := progress.extracted + contents.length } := ⟨hlimit, h.pending⟩
    exact comes_done hnew

theorem comes_linkPending {limit : Nat} (hn : n ≤ limit) {remaining : List (Way × Path)} {link : Way × Path}
    (hremaining : ∀ l ∈ remaining, s.Beneath l.1 ∧ Plain l.2) (h : s.Beneath link.1 ∧ Plain link.2) :
    Comes s limit (s.Held n) (linkPending s.root remaining link)
      fun remaining d => s.Held n d ∧ ∀ l ∈ remaining, s.Beneath l.1 ∧ Plain l.2 := by
  have hI : ∀ d, s.Held n d → s.Held limit d := fun _ => held_mono hn
  unfold linkPending
  apply comes_safeDestination hn
  apply Script.comes_see_bind
  intro there
  split
  · apply comes_of_safe (safe_makeRoom h.1) hn
    intro _
    apply comes_of_safe (Staging.safe_act (c := .link _ _) ⟨within_join h.2, h.1⟩ rfl) hn
    exact fun _ => Script.comes_ret hI fun _ hd => ⟨hd, hremaining⟩
  · apply Script.comes_ret hI
    intro d hd
    apply And.intro hd
    intro l hl
    rcases List.mem_append.1 hl with hl | hl
    · exact hremaining l hl
    · exact List.mem_singleton.1 hl ▸ h

theorem comes_linkRounds {limit : Nat} (hn : n ≤ limit) : ∀ (k : Nat) (unresolved : List (Way × Path)),
    (∀ l ∈ unresolved, s.Beneath l.1 ∧ Plain l.2) →
      Comes s limit (s.Held n) (linkRounds s.root k unresolved) fun _ => s.Held n
  | 0, _, _ => Script.comes_ret (fun _ => held_mono hn) fun _ hd => hd
  | k + 1, unresolved, h => by
    have hI : ∀ d, s.Held n d → s.Held limit d := fun _ => held_mono hn
    unfold linkRounds
    split
    · exact Script.comes_ret hI fun _ hd => hd
    · apply Script.Comes.bind (Q := fun remaining d => s.Held n d ∧ ∀ l ∈ remaining, s.Beneath l.1 ∧ Plain l.2)
      · apply Script.comes_fold
        · exact fun remaining d hd => hI d hd.1
        · intro remaining link hlink
          exact Script.comes_and fun hremaining => comes_linkPending hn hremaining (h link hlink)
        · exact fun d hd => ⟨hd, by simp⟩
      · intro remaining
        apply Script.comes_and
        intro hremaining
        apply Script.comes_require_bind hI
        exact fun _ => comes_linkRounds hn k remaining hremaining

theorem comes_applyLayer (decimal : Char → Bool) {extracted : Nat} (h : extracted ≤ maxExtractedBytes) (members : List Member) :
    Comes s maxExtractedBytes (s.Held extracted) (applyLayer decimal s.root extracted members)
      fun extracted d => s.Held extracted d ∧ extracted ≤ maxExtractedBytes := by
  unfold applyLayer
  apply comes_of_safe (Staging.safe_mkdirParents _ root_within) h
  intro _
  apply Script.Comes.bind (Q := Reached s)
  · apply Script.comes_fold
    · exact fun progress d hd => held_mono hd.2.extracted hd.1
    · intro progress member _
      exact Script.comes_and fun hsound => comes_applyMember decimal hsound member
    · exact fun d hd => ⟨hd, h, by simp⟩
  · intro progress
    apply Script.comes_and
    intro hsound
    apply Script.Comes.bind (comes_linkRounds hsound.extracted _ _ hsound.pending)
    exact fun _ => Script.comes_ret (fun _ => held_mono hsound.extracted) fun _ hd => ⟨hd, hsound.extracted⟩

end Aiostreams

namespace Mediastorm

theorem comes_done {extracted : Nat} (h : extracted ≤ maxExtractedBytes) :
    Comes s maxExtractedBytes (s.Held extracted) (pure extracted : Step Nat)
      fun extracted d => s.Held extracted d ∧ extracted ≤ maxExtractedBytes :=
  Script.comes_ret (fun _ => held_mono h) fun _ hd => ⟨hd, h⟩

theorem mapped_ne_nil {source : Path} : mappedPath source ≠ some [] := by
  intro h
  unfold mappedPath at h
  split at h
  · next target hfile =>
    have hall : ∀ m ∈ sourceFiles, m.2 ≠ [] := by decide
    exact hall _ (Dict.mem_of_get? hfile) (Option.some.inj h)
  · split at h
    · next target hfind =>
      obtain ⟨⟨sourceDir, targetDir⟩, hmem, hdir⟩ := List.exists_of_findSome?_eq_some hfind
      simp only [Option.ite_none_right_eq_some, Option.some.injEq] at hdir
      have hall : ∀ m ∈ sourceDirectories, m.2 ≠ [] := by decide
      apply hall _ hmem
      have hnil := hdir.2.trans (Option.some.inj h)
      exact (List.append_eq_nil_iff.1 hnil).1
    · split at h
      · split at h
        · cases h
        · cases h
      · cases h

theorem comes_applyMember {extracted : Nat} (h : extracted ≤ maxExtractedBytes) (member : Member) :
    Comes s maxExtractedBytes (s.Held extracted) (applyMember s.root extracted member)
      fun extracted d => s.Held extracted d ∧ extracted ≤ maxExtractedBytes := by
  have hI : ∀ d, s.Held extracted d → s.Held maxExtractedBytes d := fun _ => held_mono h
  unfold applyMember
  apply Script.comes_orRaise_bind hI
  intro source hsource
  have hplain := plain_of_normalizeChars hsource
  apply comes_of_safe (safe_applyWhiteout moves (fun _ _ => safe_destinationIn) hplain) h
  intro hidden
  split
  · exact comes_done h
  split
  · exact comes_done h
  next rel hrel =>
  have hrelplain := moves.plain hplain hrel
  have hdest : s.Beneath (s.root.join rel) := by
    apply beneath_join hrelplain
    rintro rfl
    exact mapped_ne_nil hrel
  apply comes_destinationIn h
  split
  · next linkname =>
    apply Script.comes_orRaise_bind hI
    intro target hlink
    split
    · exact comes_done h
    · apply comes_of_safe (safe_makeRoom hdest) h
      intro _
      have hrelative : Relative (relpath target rel.dropLast) := relative_relpath (plain_link hplain hlink)
      apply comes_of_safe (Staging.safe_act (c := .symlink _ _) ⟨hdest, hrelative⟩ rfl) h
      exact fun _ => comes_done h
  · exact Script.comes_raise hI
  · exact comes_of_safe (safe_putDir hdest.1) h fun _ => comes_done h
  · exact Script.comes_raise hI
  · next contents =>
    apply Script.comes_require_bind hI
    intro hlimit
    rw [decide_eq_true_eq] at hlimit
    apply comes_of_safe (safe_makeRoom hdest) h
    intro _
    apply comes_create hdest hlimit
    exact comes_done hlimit

theorem comes_applyLayer {extracted : Nat} (h : extracted ≤ maxExtractedBytes) (members : List Member) :
    Comes s maxExtractedBytes (s.Held extracted) (applyLayer s.root extracted members)
      fun extracted d => s.Held extracted d ∧ extracted ≤ maxExtractedBytes := by
  unfold applyLayer
  apply comes_of_safe (Staging.safe_mkdirParents _ root_within) h
  intro _
  apply Script.comes_fold
  · exact fun extracted d hd => held_mono hd.2 hd.1
  · intro extracted member _
    exact Script.comes_and fun h => comes_applyMember h member
  · exact fun d hd => ⟨hd, h⟩

end Mediastorm

theorem comes_applyLayers (decimal : Char → Bool) (installer : Installer) (layers : List (List Member)) :
    Comes s installer.limit (s.Held 0) (applyLayers decimal installer s.root layers)
      fun extracted d => s.Held extracted d ∧ extracted ≤ installer.limit := by
  apply Script.comes_fold
  · exact fun extracted d hd => held_mono hd.2 hd.1
  · intro extracted members _
    apply Script.comes_and
    intro h
    cases installer with
    | aiostreams => exact Aiostreams.comes_applyLayer decimal h members
    | mediastorm => exact Mediastorm.comes_applyLayer h members
  · exact fun d hd => ⟨hd, Nat.zero_le _⟩

end

end Dumb.Oci.Layers
