import Dumb.Mediastorm.Libraries
import Mathlib.Data.List.Induction

/-!
# The closure of the runtime's libraries

What the walk returns and what it leaves behind.
-/

namespace Dumb.Mediastorm.Libraries

open Py Worklist

variable {γ : Type} {elf : γ → Metadata} {t left : Runtime γ}

/-! ## The cache -/

def Sound (elf : γ → Metadata) (t : Runtime γ) (cache : Cache) : Prop :=
  ∀ q metadata, Dict.get? q cache = some metadata → metadata = (t.contents q).bind elf

variable {cache : Cache}

theorem Sound.set (h : Sound elf t cache) (q : Place) : Sound elf t (Dict.set q ((t.contents q).bind elf) cache) := by
  intro p metadata hp
  rw [Dict.get?_set] at hp
  split at hp
  · next hpq => rw [← Option.some.inj hp, hpq]
  · exact h p metadata hp

variable {path resolved : Place}

theorem dynamicMetadata_cached {metadata : Metadata}
    (hresolve : left.resolve path = some resolved) (hget : Dict.get? resolved cache = some metadata) :
    dynamicMetadata elf left cache path = (metadata, cache) := by simp only [dynamicMetadata, hresolve, hget]

theorem dynamicMetadata_read (hresolve : left.resolve path = some resolved)
    (hget : Dict.get? resolved cache = none) : dynamicMetadata elf left cache path =
      ((left.contents resolved).bind elf, Dict.set resolved ((left.contents resolved).bind elf) cache) := by
  simp only [dynamicMetadata, hresolve, hget]

theorem dynamicMetadata_spec (hsound : Sound elf t cache)
    (hresolve : left.resolve path = some resolved)
    (hsame : left.contents resolved = t.contents resolved ∨ Dict.get? resolved cache ≠ none) :
    ∃ cache', dynamicMetadata elf left cache path = ((t.contents resolved).bind elf, cache') ∧ Sound elf t cache' ∧
      ∀ q, Dict.get? q cache ≠ none ∨ q = resolved → Dict.get? q cache' ≠ none := by
  cases hget : Dict.get? resolved cache with
  | some metadata =>
    refine ⟨cache, ?_, hsound, fun q hq => ?_⟩
    · rw [dynamicMetadata_cached hresolve hget, hsound resolved metadata hget]
    · rcases hq with hq | rfl
      · exact hq
      · simp [hget]
  | none =>
    have hcontents : left.contents resolved = t.contents resolved := hsame.resolve_right fun h => h hget
    refine ⟨_, by rw [dynamicMetadata_read hresolve hget, hcontents], hsound.set resolved, fun q hq => ?_⟩
    rw [Dict.get?_set]
    split
    · simp
    · next hne => exact hq.resolve_right hne

theorem metadataAt_eq {p resolved : Place} (hresolve : t.resolve p = some resolved) :
    metadataAt elf t p = (t.contents resolved).bind elf := by
  rw [metadataAt, hresolve, Option.bind_some]

theorem dynamicMetadata_own (hsound : Sound elf t cache)
    (hresolve : t.resolve path = some resolved) :
    ∃ cache', dynamicMetadata elf t cache path = (metadataAt elf t path, cache') ∧ Sound elf t cache' ∧
      ∀ q, Dict.get? q cache ≠ none ∨ q = resolved → Dict.get? q cache' ≠ none := by
  rw [metadataAt_eq hresolve]
  exact dynamicMetadata_spec hsound hresolve (.inl rfl)

/-! ## Following links -/

variable {p : Place} {c : γ}

theorem follow_file (h : t.at? p = some (.file c)) (n : Nat) : t.follow n p = some p := by
  cases n <;> simp [Runtime.follow, h]

theorem follow_link {p q : Place} (h : t.at? p = some (.link q)) (n : Nat) : t.follow (n + 1) p = t.follow n q := by
  simp [Runtime.follow, h]

theorem follow_induction {motive : (n : Nat) → (p q : Place) → t.follow n p = some q → Prop}
    (file : ∀ n p c hat, motive n p p (follow_file (c := c) hat n))
    (link : ∀ n p target q hat h, motive n target q h → motive (n + 1) p q ((follow_link hat n).trans h)) :
    ∀ n p q h, motive n p q h
  | n, p, q, h => by
    cases hat : t.at? p with
    | none => cases n <;> simp [Runtime.follow, hat] at h
    | some entry =>
      cases entry with
      | file c =>
        obtain rfl := Option.some.inj ((follow_file hat n).symm.trans h)
        exact file n p c hat
      | dir => cases n <;> simp [Runtime.follow, hat] at h
      | link target =>
        cases n with
        | zero => simp [Runtime.follow, hat] at h
        | succ n => exact link n p target q hat _ (follow_induction file link n target q ((follow_link hat n).symm.trans h))

theorem contents_of_follow {n : Nat} {p q : Place} (h : t.follow n p = some q) : ∃ c, t.at? q = some (.file c) := by
  induction n, p, q, h using follow_induction with
  | file n p c hat => exact ⟨c, hat⟩
  | link n p target q hat hfollow ih => exact ih

theorem follow_succ {n : Nat} {p q : Place} (h : t.follow n p = some q) : t.follow (n + 1) p = some q := by
  induction n, p, q, h using follow_induction with
  | file n p c hat => exact follow_file hat _
  | link n p target q hat hfollow ih => exact (follow_link hat _).trans ih

theorem follow_le {n m : Nat} (hle : n ≤ m) {p q : Place} (h : t.follow n p = some q) : t.follow m p = some q := by
  induction hle with
  | refl => exact h
  | step _ ih => exact follow_succ ih

theorem isSymlink_iff : t.isSymlink p = true ↔ ∃ target, t.at? p = some (.link target) := by
  rw [Runtime.isSymlink]
  split <;> simp_all

theorem isFile_iff : t.isFile p = true ↔ ∃ q, t.resolve p = some q := Option.isSome_iff_exists

theorem resolve_regular {p q : Place} (hresolve : t.resolve p = some q) (hlink : t.isSymlink p = false) :
    q = p ∧ ∃ c, t.at? p = some (.file c) := by
  cases hat : t.at? p with
  | none => simp [Runtime.resolve, Runtime.maxSymlinks, Runtime.follow, hat] at hresolve
  | some entry =>
    cases entry with
    | file c =>
      rw [Runtime.resolve, follow_file hat, Option.some.injEq] at hresolve
      exact ⟨hresolve.symm, c, rfl⟩
    | link target => simp [Runtime.isSymlink, hat] at hlink
    | dir => simp [Runtime.resolve, Runtime.maxSymlinks, Runtime.follow, hat] at hresolve

/-! ## The index -/

theorem get?_setdefault (n k : String) (c : Place) (d : Dict String Place) :
    Dict.get? n (setdefault k c d) = (Dict.get? n d).or (if n = k then some c else none) := by
  rw [setdefault]
  cases hget : Dict.get? k d with
  | some p =>
    by_cases hn : n = k
    · simp [hn, hget]
    · simp [hn]
  | none =>
    rw [Dict.get?_set]
    by_cases hn : n = k
    · simp [hn, hget]
    · simp [hn]

structure Indexed (elf : γ → Metadata) (t : Runtime γ) (names : List String) (index : Index) : Prop where
  get? : ∀ n, Dict.get? n index.bySoname = (names.find? (knownAs elf t n)).map .bundle
  sound : Sound elf t index.cache
  read : ∀ name ∈ names, ∀ c, t.at? (.bundle name) = some (.file c) → Dict.get? (.bundle name) index.cache ≠ none

variable {name : String}

theorem knownAs_link (hfile : t.isFile (.bundle name) = true) (hlink : t.isSymlink (.bundle name) = true)
    (n : String) : knownAs elf t n name = decide (n = name) := by
  rw [knownAs, hfile, if_pos hlink, Bool.true_and]
  exact decide_eq_decide.2 eq_comm

theorem knownAs_malformed (hfile : t.isFile (.bundle name) = true)
    (hlink : t.isSymlink (.bundle name) = false) (hmeta : metadataAt elf t (.bundle name) = none) (n : String) :
    knownAs elf t n name = false := by simp [knownAs, hfile, hlink, hmeta]

theorem knownAs_regular (hfile : t.isFile (.bundle name) = true)
    (hlink : t.isSymlink (.bundle name) = false) {needed : List String} {soname : Option String}
    (hmeta : metadataAt elf t (.bundle name) = some (needed, soname)) (n : String) :
    knownAs elf t n name = (decide (n = name) || (decide (n ≠ "") && decide (soname = some n))) := by
  simp [knownAs, hfile, hlink, hmeta, @eq_comm _ name n]

variable {index : Index}

theorem Indexed.candidate {names : List String} (h : Indexed elf t names index) (name : String) :
    Indexed elf t (names ++ [name]) (indexCandidate elf t index name) := by
  have hfind : ∀ n, ((names ++ [name]).find? (knownAs elf t n)).map Place.bundle =
      (Dict.get? n index.bySoname).or (if knownAs elf t n name = true then some (.bundle name) else none) := by
    intro n
    rw [List.find?_append, h.get? n]
    cases names.find? (knownAs elf t n) with
    | some found => rfl
    | none => by_cases hk : knownAs elf t n name = true <;> simp [hk]
  have hkeep : ∀ cache' : Cache, (∀ q, Dict.get? q index.cache ≠ none ∨ q = .bundle name → Dict.get? q cache' ≠ none) →
      ∀ m ∈ names ++ [name], ∀ c, t.at? (.bundle m) = some (.file c) → Dict.get? (.bundle m) cache' ≠ none := by
    intro cache' hcache m hm c hat
    rcases List.mem_append.1 hm with hm | hm
    · exact hcache _ (.inl (h.read m hm c hat))
    · exact hcache _ (.inr (by rw [List.mem_singleton.1 hm]))
  rw [indexCandidate]
  by_cases hfile : t.isFile (.bundle name) = true
  · rw [if_pos hfile]
    cases hlink : t.isSymlink (.bundle name) with
    | true =>
      rw [if_pos rfl]
      refine ⟨fun n => ?_, h.sound, fun m hm c hat => ?_⟩
      · rw [hfind n, get?_setdefault, knownAs_link hfile hlink]
        simp only [decide_eq_true_eq]
      · rcases List.mem_append.1 hm with hm | hm
        · exact h.read m hm c hat
        · obtain ⟨target, htarget⟩ := isSymlink_iff.1 hlink
          rw [List.mem_singleton.1 hm, htarget] at hat
          exact absurd hat (by simp)
    | false =>
      rw [if_neg Bool.false_ne_true]
      obtain ⟨resolved, hresolve⟩ := isFile_iff.1 hfile
      obtain ⟨rfl, -⟩ := resolve_regular hresolve hlink
      obtain ⟨cache', hrun, hsound, hcache⟩ := dynamicMetadata_own h.sound hresolve
      rw [hrun]
      cases hmeta : metadataAt elf t (.bundle name) with
      | none =>
        refine ⟨fun n => ?_, hsound, hkeep cache' hcache⟩
        rw [hfind n, knownAs_malformed hfile hlink hmeta]
        simp
      | some metadata =>
        obtain ⟨needed, soname⟩ := metadata
        cases soname with
        | none =>
          refine ⟨fun n => ?_, hsound, hkeep cache' hcache⟩
          rw [hfind n, knownAs_regular hfile hlink hmeta, get?_setdefault]
          simp
        | some soname =>
          refine ⟨fun n => ?_, hsound, hkeep cache' hcache⟩
          rw [hfind n, knownAs_regular hfile hlink hmeta]
          by_cases hempty : soname = ""
          · have hn : ¬(n ≠ "" ∧ soname = n) := fun h => h.1 (h.2 ▸ hempty)
            simp only [if_pos hempty, get?_setdefault, Option.some.injEq, Bool.or_eq_true, Bool.and_eq_true, decide_eq_true_eq, hn, or_false]
          · have hn : (n ≠ "" ∧ soname = n) ↔ n = soname := ⟨fun h => h.2.symm, fun h => ⟨h ▸ hempty, h.symm⟩⟩
            simp only [if_neg hempty, get?_setdefault, Option.or_assoc, Option.some.injEq, Bool.or_eq_true, Bool.and_eq_true, decide_eq_true_eq, hn]
            by_cases hname : n = name <;> simp [hname]
  · rw [if_neg hfile]
    refine ⟨fun n => ?_, h.sound, fun m hm c hat => ?_⟩
    · rw [hfind n]
      simp [knownAs, hfile]
    · rcases List.mem_append.1 hm with hm | hm
      · exact h.read m hm c hat
      · rw [List.mem_singleton.1 hm] at hat
        exact absurd (isFile_iff.2 ⟨_, follow_file hat _⟩) hfile

theorem indexBundle_spec (elf : γ → Metadata) (t : Runtime γ) : Indexed elf t (Dict.keys t.bundle) (indexBundle elf t) := by
  suffices h : ∀ names, Indexed elf t names (names.foldl (indexCandidate elf t) ⟨[], []⟩) from h _
  intro names
  induction names using List.reverseRecOn with
  | nil => exact ⟨fun n => rfl, fun q metadata h => by simp at h, fun name hname => absurd hname List.not_mem_nil⟩
  | append_singleton names name ih =>
    rw [List.foldl_concat]
    exact ih.candidate name

/-! ## What the walk finds of a name -/

def firstKnown (elf : γ → Metadata) (t : Runtime γ) (n : String) : Option String :=
  (Dict.keys t.bundle).find? (knownAs elf t n)

def verdict (elf : γ → Metadata) (t : Runtime γ) (n : String) : Option (List String) :=
  if !isLeafLibraryName n then none
  else match firstKnown elf t n with
    | some name => (metadataAt elf t (.bundle name)).map (·.1)
    | none =>
      if n ∈ coreHostLibraries then some [] else (staged t n).bind fun p => (metadataAt elf t p).map (·.1)

def next (elf : γ → Metadata) (t : Runtime γ) (n : String) : List String := ((verdict elf t n).getD []).reverse

theorem mem_keys_of_file (h : t.isFile (.bundle name) = true) : name ∈ Dict.keys t.bundle := by
  obtain ⟨q, hq⟩ := isFile_iff.1 h
  rw [Dict.mem_keys]
  intro hnone
  have hat : t.at? (.bundle name) = none := hnone
  simp [Runtime.resolve, Runtime.maxSymlinks, Runtime.follow, hat] at hq

theorem isFile_of_known {n name : String} (h : knownAs elf t n name = true) : t.isFile (.bundle name) = true := by
  rw [knownAs, Bool.and_eq_true] at h
  exact h.1

theorem firstKnown_some {n name : String} (h : firstKnown elf t n = some name) : knownAs elf t n name = true :=
  List.find?_some h

variable {n : String}

theorem firstKnown_none : firstKnown elf t n = none ↔ ∀ name, knownAs elf t n name = false := by
  rw [firstKnown, List.find?_eq_none]
  constructor
  · intro h name
    by_contra hk
    have hk' : knownAs elf t n name = true := by simpa using hk
    exact h name (mem_keys_of_file (isFile_of_known hk')) hk'
  · exact fun h name _ => by simp [h name]

theorem staged_eq_some :
    staged t n = some p ↔ ∃ name, p = .staging name ∧ t.resolve (.staging n) = some (.staging name) := by
  rw [staged]
  constructor
  · intro h
    split at h
    · split at h
      · next name hresolve => exact ⟨name, (Option.some.inj h).symm, hresolve⟩
      · exact absurd h (by simp)
    · exact absurd h (by simp)
  · rintro ⟨name, rfl, hresolve⟩
    rw [if_pos (by simp [isFile_iff.2 ⟨_, hresolve⟩]), hresolve]

theorem staged_file (h : staged t n = some p) :
    ∃ name c, p = .staging name ∧ t.at? p = some (.file c) ∧ t.resolve p = some p := by
  obtain ⟨name, rfl, hresolve⟩ := staged_eq_some.1 h
  obtain ⟨c, hc⟩ := contents_of_follow hresolve
  exact ⟨name, c, rfl, hc, follow_file hc _⟩

theorem carried_eq (hleaf : isLeafLibraryName n = true) (hknown : firstKnown elf t n = none)
    (hcore : n ∉ coreHostLibraries) : carried elf t n = (staged t n).filter (wellFormed elf t) := by
  have hany : (Dict.keys t.bundle).any (knownAs elf t n) = false := by
    rw [List.any_eq_false]
    exact fun name _ => by simp [firstKnown_none.1 hknown name]
  simp [carried, hleaf, hany, hcore]

theorem carried_some (h : carried elf t n = some p) :
    isLeafLibraryName n = true ∧ firstKnown elf t n = none ∧ n ∉ coreHostLibraries ∧ staged t n = some p ∧
      wellFormed elf t p = true := by
  rw [carried] at h
  split at h
  · exact absurd h (by simp)
  · next hcond =>
    simp only [Bool.or_eq_true, Bool.not_eq_true', decide_eq_true_eq, not_or, Bool.not_eq_false, List.any_eq_true,
      not_exists, not_and] at hcond
    obtain ⟨hstaged, hformed⟩ := Option.filter_eq_some_iff.1 h
    refine ⟨hcond.1.1, firstKnown_none.2 fun name => ?_, hcond.2, hstaged, hformed⟩
    by_contra hk
    have hk' : knownAs elf t n name = true := by simpa using hk
    exact hcond.1.2 name (mem_keys_of_file (isFile_of_known hk')) hk'

/-! ## The tree that a copying walk leaves -/

structure LeftBy (elf : γ → Metadata) (t : Runtime γ) (names : List String) (left : Runtime γ) : Prop where
  staging : ∀ name, left.at? (.staging name) = t.at? (.staging name)
  elsewhere : ∀ path, left.at? (.elsewhere path) = t.at? (.elsewhere path)
  copied : ∀ m ∈ names, ∀ p, carried elf t m = some p → ∃ c, t.at? p = some (.file c) ∧ left.at? (.bundle m) = some (.file c)
  kept : ∀ m, (m ∈ names → carried elf t m = none) → left.at? (.bundle m) = t.at? (.bundle m)

theorem LeftBy.nothing (elf : γ → Metadata) (t : Runtime γ) : LeftBy elf t [] t where
  staging _ := rfl
  elsewhere _ := rfl
  copied _ hm := absurd hm List.not_mem_nil
  kept _ _ := rfl

variable {names : List String}

theorem LeftBy.file (h : LeftBy elf t names left) (hat : t.at? p = some (.file c)) :
    ∃ c', left.at? p = some (.file c') := by
  cases p with
  | staging name => exact ⟨c, (h.staging name).trans hat⟩
  | elsewhere path => exact ⟨c, (h.elsewhere path).trans hat⟩
  | bundle m =>
    by_cases hcarried : m ∈ names → carried elf t m = none
    · exact ⟨c, (h.kept m hcarried).trans hat⟩
    · obtain ⟨hm, hne⟩ := Classical.not_imp.1 hcarried
      obtain ⟨p, hp⟩ := Option.ne_none_iff_exists'.1 hne
      obtain ⟨c', -, hc'⟩ := h.copied m hm p hp
      exact ⟨c', hc'⟩

theorem LeftBy.link (h : LeftBy elf t names left) {p target : Place} (hat : t.at? p = some (.link target))
    (hfile : t.isFile p = true) : left.at? p = some (.link target) := by
  cases p with
  | staging name => exact (h.staging name).trans hat
  | elsewhere path => exact (h.elsewhere path).trans hat
  | bundle m =>
    refine (h.kept m fun _ => ?_).trans hat
    by_contra hne
    obtain ⟨p, hp⟩ := Option.ne_none_iff_exists'.1 hne
    have hknown := firstKnown_none.1 (carried_some hp).2.1 m
    rw [knownAs_link hfile (isSymlink_iff.2 ⟨target, hat⟩)] at hknown
    simp at hknown

theorem LeftBy.follow (h : LeftBy elf t names left) {n : Nat} {p q : Place} (hn : n ≤ Runtime.maxSymlinks)
    (hfollow : t.follow n p = some q) : left.follow n p = some q := by
  induction n, p, q, hfollow using follow_induction with
  | file n p c hat =>
    obtain ⟨c', hc'⟩ := h.file hat
    exact follow_file hc' n
  | link n p target q hat hfollow ih =>
    have hwhole := (follow_link hat n).trans hfollow
    rw [follow_link (h.link hat (isFile_iff.2 ⟨q, follow_le hn hwhole⟩))]
    exact ih (Nat.le_of_succ_le hn)

theorem LeftBy.follow_staging (h : LeftBy elf t names left) {n : Nat}
    (hfollow : left.follow n p = some (.staging name)) : t.follow n p = some (.staging name) := by
  have hsame {p : Place} (entry : Entry γ) (hat : left.at? p = some entry)
      (hfile : ∀ c m, entry = .file c → p ≠ .bundle m) : t.at? p = some entry := by
    cases p with
    | staging m => exact (h.staging m).symm.trans hat
    | elsewhere path => exact (h.elsewhere path).symm.trans hat
    | bundle m =>
      refine (h.kept m fun hm => ?_).symm.trans hat
      by_contra hne
      obtain ⟨p, hp⟩ := Option.ne_none_iff_exists'.1 hne
      obtain ⟨c, -, hc⟩ := h.copied m hm p hp
      exact hfile c m (Option.some.inj (hat.symm.trans hc)) rfl
  generalize hq : Place.staging name = q at *
  induction n, p, q, hfollow using follow_induction with
  | file n p c hat =>
    subst hq
    exact follow_file (hsame _ hat (by simp)) n
  | link n p target q hat hfollow ih => exact (follow_link (hsame _ hat (by simp)) n).trans (ih hq)

theorem LeftBy.staged (h : LeftBy elf t names left) (n : String) : staged left n = staged t n := by
  ext p
  rw [staged_eq_some, staged_eq_some]
  constructor
  · rintro ⟨name, rfl, hresolve⟩
    exact ⟨name, rfl, h.follow_staging hresolve⟩
  · rintro ⟨name, rfl, hresolve⟩
    exact ⟨name, rfl, h.follow (Nat.le_refl _) hresolve⟩

theorem contents_file (h : t.at? p = some (.file c)) : t.contents p = some c := by
  simp [Runtime.contents, h]

theorem LeftBy.pass (h : LeftBy elf t names left) (hn : carried elf t n = none) :
    LeftBy elf t (names ++ [n]) left where
  staging := h.staging
  elsewhere := h.elsewhere
  copied m hm p hp := by
    rcases List.mem_append.1 hm with hm | hm
    · exact h.copied m hm p hp
    · rw [List.mem_singleton.1 hm, hn] at hp
      exact absurd hp (by simp)
  kept m hm := h.kept m fun hmem => hm (List.mem_append_left _ hmem)

theorem LeftBy.copy (h : LeftBy elf t names left) (hn : carried elf t n = some p) :
    LeftBy elf t (names ++ [n]) (copy left p n) := by
  obtain ⟨name, c, rfl, hat, -⟩ := staged_file (carried_some hn).2.2.2.1
  have hat' : left.at? (.staging name) = some (.file c) := (h.staging name).trans hat
  rw [Libraries.copy, contents_file hat']
  constructor
  · exact h.staging
  · exact h.elsewhere
  · intro m hm p hp
    by_cases hmn : m = n
    · subst hmn
      rw [hn] at hp
      obtain rfl := Option.some.inj hp
      exact ⟨c, hat, by simp [Runtime.at?]⟩
    · obtain ⟨c', hc', hleft⟩ := h.copied m (by simpa [hmn] using hm) p hp
      exact ⟨c', hc', by simpa [Runtime.at?, Dict.get?_set_ne hmn] using hleft⟩
  · intro m hm
    have hmn : m ≠ n := by
      rintro rfl
      rw [hm (by simp)] at hn
      exact absurd hn (by simp)
    have := h.kept m fun hmem => hm (List.mem_append_left _ hmem)
    simpa [Runtime.at?, Dict.get?_set_ne hmn] using this

/-! ## The loop -/

structure Follows (elf : γ → Metadata) (t : Runtime γ) (copyMissing : Bool) (w : Walk γ) : Prop where
  left : LeftBy elf t (if copyMissing then w.seen else []) w.tree
  sound : Sound elf t w.cache
  read : ∀ m c, t.at? (.bundle m) = some (.file c) → Dict.get? (.bundle m) w.cache ≠ none
  missing : w.missing = w.seen.filter fun n => (verdict elf t n).isNone

variable {copyMissing : Bool}

theorem Follows.metadata {w : Walk γ} (h : Follows elf t copyMissing w)
    (hfile : t.isFile p = true) :
    ∃ cache', dynamicMetadata elf w.tree w.cache p = (metadataAt elf t p, cache') ∧ Sound elf t cache' ∧
      ∀ m c, t.at? (.bundle m) = some (.file c) → Dict.get? (.bundle m) cache' ≠ none := by
  obtain ⟨q, hresolve⟩ := isFile_iff.1 hfile
  obtain ⟨c, hc⟩ := contents_of_follow hresolve
  have hsame : w.tree.contents q = t.contents q ∨ Dict.get? q w.cache ≠ none := by
    cases q with
    | bundle m => exact .inr (h.read m c hc)
    | staging name => exact .inl (by simp [Runtime.contents, h.left.staging name])
    | elsewhere path => exact .inl (by simp [Runtime.contents, h.left.elsewhere path])
  obtain ⟨cache', hrun, hsound, hkeep⟩ := dynamicMetadata_spec h.sound (h.left.follow (Nat.le_refl _) hresolve) hsame
  exact ⟨cache', by rw [hrun, metadataAt_eq hresolve], hsound, fun m c hat => hkeep _ (.inl (h.read m c hat))⟩

theorem carried_known {n name : String} (hknown : firstKnown elf t n = some name) : carried elf t n = none := by
  by_contra hne
  obtain ⟨p, hp⟩ := Option.ne_none_iff_exists'.1 hne
  rw [(carried_some hp).2.1] at hknown
  exact absurd hknown (by simp)

theorem verdict_known {n name : String} (hleaf : isLeafLibraryName n = true) (hknown : firstKnown elf t n = some name) :
    verdict elf t n = (metadataAt elf t (.bundle name)).map (·.1) := by simp [verdict, hleaf, hknown]

theorem verdict_staged (hleaf : isLeafLibraryName n = true) (hknown : firstKnown elf t n = none)
    (hcore : n ∉ coreHostLibraries) :
    verdict elf t n = (staged t n).bind fun p => (metadataAt elf t p).map (·.1) := by simp [verdict, hleaf, hknown, hcore]

variable {tree : Runtime γ}

variable {missing seen queue queue' : List String}

theorem Follows.passed {cache cache' : Cache}
    (h : Follows elf t copyMissing ⟨tree, cache, missing, seen, queue⟩) (hcarried : carried elf t n = none)
    (hsound : Sound elf t cache') (hread : ∀ m c, t.at? (.bundle m) = some (.file c) → Dict.get? (.bundle m) cache' ≠ none) :
    Follows elf t copyMissing
      ⟨tree, cache', missing ++ if (verdict elf t n).isNone then [n] else [], seen ++ [n], queue'⟩ where
  left := by
    have hleft := h.left
    cases copyMissing with
    | false => simpa using hleft
    | true => simpa using LeftBy.pass (by simpa using hleft) hcarried
  sound := hsound
  read := hread
  missing := by
    rw [List.filter_append, ← h.missing]
    by_cases hnone : (verdict elf t n).isNone = true <;> simp [hnone]

theorem Follows.copied {cache cache' : Cache}
    (h : Follows elf t copyMissing ⟨tree, cache, missing, seen, queue⟩)
    (hcarried : carried elf t n = some p) (hverdict : verdict elf t n ≠ none) (hsound : Sound elf t cache')
    (hread : ∀ m c, t.at? (.bundle m) = some (.file c) → Dict.get? (.bundle m) cache' ≠ none) :
    Follows elf t copyMissing ⟨if copyMissing then copy tree p n else tree, cache', missing, seen ++ [n], queue'⟩ where
  left := by
    have hleft := h.left
    cases copyMissing with
    | false => simpa using hleft
    | true => simpa using LeftBy.copy (by simpa using hleft) hcarried
  sound := hsound
  read := hread
  missing := by
    rw [List.filter_append, ← h.missing]
    simp [Option.isNone_iff_eq_none, hverdict]

theorem Follows.visit (hindex : Indexed elf t (Dict.keys t.bundle) index)
    {missing seen queue : List String}
    (h : Follows elf t copyMissing ⟨tree, cache, missing, seen, queue⟩) :
    ∃ tree' cache' missing', Walk.visit elf copyMissing index.bySoname n ⟨tree, cache, missing, seen ++ [n], queue⟩ =
        ⟨tree', cache', missing', seen ++ [n], next elf t n ++ queue⟩ ∧
      Follows elf t copyMissing ⟨tree', cache', missing', seen ++ [n], next elf t n ++ queue⟩ := by
  rw [Walk.visit]
  cases hleaf : isLeafLibraryName n with
  | false =>
    have hverdict : verdict elf t n = none := by simp [verdict, hleaf]
    have hcarried : carried elf t n = none := by simp [carried, hleaf]
    refine ⟨tree, cache, missing ++ [n], by simp [Walk.miss, next, hverdict], ?_⟩
    simpa [hverdict] using h.passed hcarried h.sound h.read
  | true =>
    rw [if_neg (by simp), hindex.get? n, ← firstKnown]
    cases hknown : firstKnown elf t n with
    | some name =>
      obtain ⟨cache', hrun, hsound, hread⟩ := h.metadata (isFile_of_known (firstKnown_some hknown))
      have hverdict := verdict_known hleaf hknown
      have hcarried := carried_known hknown
      simp only [Option.map_some, hrun]
      cases hmeta : metadataAt elf t (.bundle name) with
      | none =>
        rw [hmeta, Option.map_none] at hverdict
        refine ⟨tree, cache', missing ++ [n], by simp [Walk.miss, next, hverdict], ?_⟩
        simpa [hverdict] using h.passed hcarried hsound hread
      | some metadata =>
        rw [hmeta, Option.map_some] at hverdict
        refine ⟨tree, cache', missing, by simp [extend, next, hverdict], ?_⟩
        simpa [hverdict] using h.passed hcarried hsound hread
    | none =>
      rw [Option.map_none]
      dsimp only
      by_cases hcore : n ∈ coreHostLibraries
      · have hverdict : verdict elf t n = some [] := by simp [verdict, hleaf, hknown, hcore]
        have hcarried : carried elf t n = none := by simp [carried, hcore]
        refine ⟨tree, cache, missing, by simp [next, hverdict, hcore], ?_⟩
        simpa [hverdict] using h.passed hcarried h.sound h.read
      · rw [if_neg hcore, h.left.staged n]
        have hverdict := verdict_staged hleaf hknown hcore
        have hcarried := carried_eq hleaf hknown hcore
        cases hstaged : staged t n with
        | none =>
          rw [hstaged, Option.bind_none] at hverdict
          rw [hstaged, Option.filter_none] at hcarried
          refine ⟨tree, cache, missing ++ [n], by simp [Walk.miss, next, hverdict], ?_⟩
          simpa [hverdict] using h.passed hcarried h.sound h.read
        | some p =>
          obtain ⟨name, c, -, -, hresolve⟩ := staged_file hstaged
          obtain ⟨cache', hrun, hsound, hread⟩ := h.metadata (isFile_iff.2 ⟨_, hresolve⟩)
          rw [hstaged, Option.bind_some] at hverdict
          rw [hstaged] at hcarried
          simp only [hrun]
          cases hmeta : metadataAt elf t p with
          | none =>
            rw [hmeta, Option.map_none] at hverdict
            rw [Option.filter_some, if_neg (by simp [wellFormed, hmeta])] at hcarried
            refine ⟨tree, cache', missing ++ [n], by simp [Walk.miss, next, hverdict], ?_⟩
            simpa [hverdict] using h.passed hcarried hsound hread
          | some metadata =>
            rw [hmeta, Option.map_some] at hverdict
            rw [Option.filter_some, if_pos (by simp [wellFormed, hmeta])] at hcarried
            exact ⟨if copyMissing then copy tree p n else tree, cache', missing, by simp [extend, next, hverdict],
              h.copied hcarried (by simp [hverdict]) hsound hread⟩

theorem Follows.loop (hindex : Indexed elf t (Dict.keys t.bundle) index) :
    ∀ (n : Nat) (w : Walk γ), Follows elf t copyMissing w →
      (Walk.loop elf copyMissing index.bySoname n w).map Walk.seen = search (next elf t) n w.seen w.queue ∧
        ∀ w', Walk.loop elf copyMissing index.bySoname n w = some w' → Follows elf t copyMissing w'
  | n, ⟨tree, cache, missing, seen, []⟩, h => by
    cases n <;> exact ⟨rfl, fun w' hw => Option.some.inj hw ▸ h⟩
  | 0, ⟨tree, cache, missing, seen, a :: queue⟩, h => ⟨rfl, fun w' hw => by simp [Walk.loop] at hw⟩
  | n + 1, ⟨tree, cache, missing, seen, a :: queue⟩, h => by
    have hrest : Follows elf t copyMissing ⟨tree, cache, missing, seen, queue⟩ := ⟨h.left, h.sound, h.read, h.missing⟩
    rw [Walk.loop, search]
    by_cases ha : a ∈ seen
    · simp only [if_pos ha]
      exact Follows.loop hindex n _ hrest
    · simp only [if_neg ha]
      obtain ⟨tree', cache', missing', hrun, hfollows⟩ := hrest.visit hindex (n := a)
      rw [hrun]
      exact Follows.loop hindex n _ hfollows

/-! ## The whole walk -/

def queued (elf : γ → Metadata) (t : Runtime γ) : List String :=
  seeds.foldl (fun queue path => extend (neededAt elf t (.elsewhere path)) queue) []

theorem mem_queued : n ∈ queued elf t ↔ n ∈ seeds.flatMap fun path => neededAt elf t (.elsewhere path) := by
  simp only [queued, seeds, extend, List.foldl_cons, List.foldl_nil, List.append_nil, List.mem_append, List.mem_reverse,
    List.flatMap_cons, List.flatMap_nil]
  exact or_comm

structure Seeded (elf : γ → Metadata) (t : Runtime γ) (queue : List String) (start : List String × Cache) : Prop where
  queue : start.1 = queue
  sound : Sound elf t start.2
  read : ∀ m c, t.at? (.bundle m) = some (.file c) → Dict.get? (.bundle m) start.2 ≠ none

variable {start : List String × Cache}

theorem Seeded.seed {queue : List String} (h : Seeded elf t queue start) (path : String) :
    Seeded elf t (extend (neededAt elf t (.elsewhere path)) queue) (seed elf t start path) := by
  rw [Libraries.seed]
  by_cases hfile : t.isFile (.elsewhere path) = true
  · obtain ⟨q, hresolve⟩ := isFile_iff.1 hfile
    obtain ⟨cache', hrun, hsound, hkeep⟩ := dynamicMetadata_own h.sound hresolve
    have hread : ∀ m c, t.at? (.bundle m) = some (.file c) → Dict.get? (.bundle m) cache' ≠ none :=
      fun m c hat => hkeep _ (.inl (h.read m c hat))
    rw [if_pos hfile, hrun]
    cases hmeta : metadataAt elf t (.elsewhere path) with
    | none => exact ⟨by simp [neededAt, hmeta, extend, h.queue], hsound, hread⟩
    | some metadata => exact ⟨by simp [neededAt, hmeta, h.queue], hsound, hread⟩
  · have hnone : t.resolve (.elsewhere path) = none := by simpa [Runtime.isFile] using hfile
    have hneeded : neededAt elf t (.elsewhere path) = [] := by simp [neededAt, metadataAt, hnone]
    rw [if_neg hfile]
    exact ⟨by simp [hneeded, extend, h.queue], h.sound, h.read⟩

theorem Seeded.seeds (paths : List String) {queue : List String}
    (h : Seeded elf t queue start) :
    Seeded elf t (paths.foldl (fun queue path => extend (neededAt elf t (.elsewhere path)) queue) queue)
      (paths.foldl (Libraries.seed elf t) start) := by
  induction paths generalizing queue start with
  | nil => exact h
  | cons path paths ih => exact ih (h.seed path)

theorem mem_keys_of_at? {m : String} (h : t.at? (.bundle m) = some (.file c)) : m ∈ Dict.keys t.bundle :=
  mem_keys_of_file (isFile_iff.2 ⟨_, follow_file h _⟩)

theorem walk_spec (elf : γ → Metadata) (t : Runtime γ) (copyMissing : Bool) (fuel : Nat) :
    (∀ visited, search (next elf t) fuel [] (queued elf t) = some visited →
      ∃ missing left, walkRuntimeClosure elf fuel t copyMissing = some (missing, left)) ∧
    ∀ missing left, walkRuntimeClosure elf fuel t copyMissing = some (missing, left) →
      ∃ visited, search (next elf t) fuel [] (queued elf t) = some visited ∧
        missing = visited.filter (fun n => (verdict elf t n).isNone) ∧
        LeftBy elf t (if copyMissing then visited else []) left := by
  have hindex := indexBundle_spec elf t
  have hseeded : Seeded elf t (queued elf t) (seeds.foldl (seed elf t) ([], (indexBundle elf t).cache)) :=
    Seeded.seeds seeds ⟨rfl, hindex.sound, fun m c hat => hindex.read m (mem_keys_of_at? hat) c hat⟩
  have hstart : Follows elf t copyMissing ⟨t, (seeds.foldl (seed elf t) ([], (indexBundle elf t).cache)).2, [], [],
      (seeds.foldl (seed elf t) ([], (indexBundle elf t).cache)).1⟩ :=
    ⟨by simpa using LeftBy.nothing elf t, hseeded.sound, hseeded.read, rfl⟩
  obtain ⟨hsearch, hfollows⟩ := hstart.loop hindex fuel
  rw [hseeded.queue] at hsearch hfollows
  rw [walkRuntimeClosure, hseeded.queue]
  constructor
  · intro visited hvisited
    rw [hvisited, Option.map_eq_some_iff] at hsearch
    obtain ⟨w, hw, -⟩ := hsearch
    exact ⟨w.missing, w.tree, by rw [hw, Option.map_some]⟩
  · intro missing left hwalk
    obtain ⟨w, hw, heq⟩ := Option.map_eq_some_iff.1 hwalk
    obtain ⟨rfl, rfl⟩ := Prod.mk.inj heq
    have hend := hfollows w hw
    exact ⟨w.seen, by rw [← hsearch, hw, Option.map_some], hend.missing, hend.left⟩

def nodes (elf : γ → Metadata) (t : Runtime γ) : List String :=
  (t.bundle ++ t.staging ++ t.elsewhere).flatMap fun e =>
    match e.2 with
    | .file c => ((elf c).map (·.1)).getD []
    | _ => []

theorem mem_nodes {metadata : List String × Option String} (h : metadataAt elf t p = some metadata)
    (hn : n ∈ metadata.1) : n ∈ nodes elf t := by
  rw [metadataAt, Option.bind_eq_some_iff] at h
  obtain ⟨c, hc, helf⟩ := h
  obtain ⟨q, hresolve, hcontents⟩ := Option.bind_eq_some_iff.1 hc
  obtain ⟨c', hat⟩ := contents_of_follow hresolve
  obtain rfl : c' = c := Option.some.inj ((contents_file hat).symm.trans hcontents)
  have hentry : ∃ name, (name, Entry.file c') ∈ t.bundle ++ t.staging ++ t.elsewhere := by
    cases q with
    | bundle name => exact ⟨name, by simp [Dict.mem_of_get? hat]⟩
    | staging name => exact ⟨name, by simp [Dict.mem_of_get? hat]⟩
    | elsewhere name => exact ⟨name, by simp [Dict.mem_of_get? hat]⟩
  obtain ⟨name, hmem⟩ := hentry
  exact List.mem_flatMap.2 ⟨_, hmem, by simpa [helf] using hn⟩

theorem mem_next {n m : String} : m ∈ next elf t n ↔ ∃ names, verdict elf t n = some names ∧ m ∈ names := by
  rw [next, List.mem_reverse]
  cases verdict elf t n <;> simp

theorem verdict_cases (h : verdict elf t n = some names) :
    names = [] ∨ ∃ p soname, metadataAt elf t p = some (names, soname) := by
  have hmap : ∀ p, (metadataAt elf t p).map (·.1) = some names → ∃ p soname, metadataAt elf t p = some (names, soname) := by
    intro p hp
    obtain ⟨⟨needed, soname⟩, hmeta, rfl⟩ := Option.map_eq_some_iff.1 hp
    exact ⟨p, soname, hmeta⟩
  rw [verdict] at h
  split at h
  · exact absurd h (by simp)
  · split at h
    · exact .inr (hmap _ h)
    · split at h
      · exact .inl (Option.some.inj h).symm
      · obtain ⟨p, -, hp⟩ := Option.bind_eq_some_iff.1 h
        exact .inr (hmap p hp)

theorem search_returns (elf : γ → Metadata) (t : Runtime γ) :
    ∃ fuel visited, search (next elf t) fuel [] (queued elf t) = some visited := by
  have hnext : ∀ n ∈ nodes elf t, ∀ m ∈ next elf t n, m ∈ nodes elf t := by
    intro n _ m hm
    obtain ⟨names, hverdict, hmem⟩ := mem_next.1 hm
    rcases verdict_cases hverdict with rfl | ⟨p, soname, hmeta⟩
    · exact absurd hmem List.not_mem_nil
    · exact mem_nodes hmeta hmem
  have hqueued : ∀ n ∈ queued elf t, n ∈ nodes elf t := by
    intro n hn
    obtain ⟨path, -, hneeded⟩ := List.mem_flatMap.1 (mem_queued.1 hn)
    rw [neededAt] at hneeded
    split at hneeded
    · next hmeta => exact mem_nodes hmeta hneeded
    · exact absurd hneeded List.not_mem_nil
  exact search_ends hnext [] _ hqueued

/-! ## Exactness -/

theorem leaf_of_core (h : n ∈ coreHostLibraries) : isLeafLibraryName n = true := by
  have hall : ∀ n ∈ coreHostLibraries, isLeafLibraryName n = true := by decide
  exact hall n h

def Available (elf : γ → Metadata) (t : Runtime γ) (n : String) : Prop := n ∈ coreHostLibraries ∨ Resolvable elf t n

def Shadowed (elf : γ → Metadata) (t : Runtime γ) (n : String) : Prop :=
  ∃ name, firstKnown elf t n = some name ∧ wellFormed elf t (.bundle name) = false

theorem wellFormed_iff : wellFormed elf t p = true ↔ ∃ needed soname, metadataAt elf t p = some (needed, soname) := by
  rw [wellFormed, Option.isSome_iff_exists]
  exact ⟨fun ⟨m, h⟩ => ⟨m.1, m.2, h⟩, fun ⟨needed, soname, h⟩ => ⟨_, h⟩⟩

theorem verdict_shadowed (h : Shadowed elf t n) : verdict elf t n = none := by
  obtain ⟨name, hknown, hformed⟩ := h
  have hmeta : metadataAt elf t (.bundle name) = none := by simpa [wellFormed] using hformed
  by_cases hleaf : isLeafLibraryName n = true
  · rw [verdict_known hleaf hknown, hmeta, Option.map_none]
  · simp [verdict, hleaf]

theorem provider_known {n name : String} (hleaf : isLeafLibraryName n = true) (hknown : firstKnown elf t n = some name)
    (hformed : wellFormed elf t (.bundle name) = true) : provider elf t n = some (.bundle name) := by
  have hfind : (Dict.keys t.bundle).find? (fun name => knownAs elf t n name && wellFormed elf t (.bundle name)) = some name := by
    rw [firstKnown, List.find?_eq_some_iff_append] at hknown
    obtain ⟨hk, before, after, hkeys, hbefore⟩ := hknown
    rw [List.find?_eq_some_iff_append]
    refine ⟨by simp [hk, hformed], before, after, hkeys, fun m hm => ?_⟩
    have := hbefore m hm
    simp_all
  simp [provider, hleaf, hfind]

theorem provider_unknown (hleaf : isLeafLibraryName n = true) (hknown : firstKnown elf t n = none) :
    provider elf t n = if n ∈ coreHostLibraries then none else (staged t n).filter (wellFormed elf t) := by
  have hfind : (Dict.keys t.bundle).find? (fun name => knownAs elf t n name && wellFormed elf t (.bundle name)) = none := by
    rw [List.find?_eq_none]
    intro name _
    simp [firstKnown_none.1 hknown name]
  simp [provider, hleaf, hfind]

theorem provider_available (h : provider elf t n = some p) : Resolvable elf t n := by
  rw [provider] at h
  split at h
  · exact absurd h (by simp)
  · next hleaf =>
    have hleaf' : isLeafLibraryName n = true := by simpa using hleaf
    split at h
    · next name hfind =>
      have hname := List.find?_some hfind
      rw [Bool.and_eq_true] at hname
      exact ⟨hleaf', .inl ⟨name, List.mem_of_find?_eq_some hfind, hname.1, hname.2⟩⟩
    · split at h
      · exact absurd h (by simp)
      · obtain ⟨hstaged, hformed⟩ := Option.filter_eq_some_iff.1 h
        exact ⟨hleaf', .inr ⟨p, hstaged, hformed⟩⟩

theorem needs_unavailable (h : ¬Available elf t n) : needs elf t n = [] := by
  rw [needs]
  cases hprovider : provider elf t n with
  | none => rfl
  | some p => exact absurd (.inr (provider_available hprovider)) h

theorem map_needed (hformed : wellFormed elf t p = true) :
    (metadataAt elf t p).map (·.1) = some (neededAt elf t p) := by
  obtain ⟨needed, soname, hmeta⟩ := wellFormed_iff.1 hformed
  rw [hmeta, neededAt, hmeta, Option.map_some]

theorem verdict_unshadowed (h : ¬Shadowed elf t n) :
    (Available elf t n → verdict elf t n = some (needs elf t n)) ∧ (¬Available elf t n → verdict elf t n = none) := by
  by_cases hleaf : isLeafLibraryName n = true
  · cases hknown : firstKnown elf t n with
    | some name =>
      have hformed : wellFormed elf t (.bundle name) = true := by
        by_contra hmal
        exact h ⟨name, hknown, by simpa using hmal⟩
      have hprovider := provider_known hleaf hknown hformed
      refine ⟨fun _ => ?_, fun hno => absurd (.inr (provider_available hprovider)) hno⟩
      rw [verdict_known hleaf hknown, map_needed hformed, needs, hprovider]
    | none =>
      have hprovider := provider_unknown hleaf hknown
      by_cases hcore : n ∈ coreHostLibraries
      · refine ⟨fun _ => ?_, fun hno => absurd (.inl hcore) hno⟩
        rw [if_pos hcore] at hprovider
        rw [needs, hprovider]
        simp [verdict, hleaf, hknown, hcore]
      · rw [if_neg hcore] at hprovider
        rw [verdict_staged hleaf hknown hcore, needs, hprovider]
        cases hstaged : staged t n with
        | none =>
          refine ⟨fun hav => ?_, fun _ => rfl⟩
          rcases hav with hav | ⟨-, ⟨name, -, hk, -⟩ | ⟨p, hp, -⟩⟩
          · exact absurd hav hcore
          · exact absurd hk (by simp [firstKnown_none.1 hknown name])
          · exact absurd (hstaged.symm.trans hp) (by simp)
        | some p =>
          rw [Option.bind_some]
          by_cases hformed : wellFormed elf t p = true
          · refine ⟨fun _ => ?_, fun hno => absurd (.inr ⟨hleaf, .inr ⟨p, hstaged, hformed⟩⟩) hno⟩
            rw [Option.filter_some, if_pos hformed, map_needed hformed]
          · have hmeta : metadataAt elf t p = none := by simpa [wellFormed] using hformed
            refine ⟨fun hav => ?_, fun _ => by rw [hmeta, Option.map_none]⟩
            rcases hav with hav | ⟨-, ⟨name, -, hk, -⟩ | ⟨q, hq, hqf⟩⟩
            · exact absurd hav hcore
            · exact absurd hk (by simp [firstKnown_none.1 hknown name])
            · obtain rfl := Option.some.inj (hstaged.symm.trans hq)
              exact absurd hqf hformed
  · refine ⟨fun hav => ?_, fun _ => by simp [verdict, hleaf]⟩
    rcases hav with hcore | ⟨hleaf', -⟩
    · exact absurd (leaf_of_core hcore) hleaf
    · exact absurd hleaf' hleaf

def Walked (elf : γ → Metadata) (t : Runtime γ) : String → Prop := Reaches (next elf t) (queued elf t)

theorem next_of_verdict (h : verdict elf t n = some names) {m : String} :
    m ∈ next elf t n ↔ m ∈ names := by
  rw [mem_next]
  exact ⟨fun ⟨ns, hns, hm⟩ => Option.some.inj (h.symm.trans hns) ▸ hm, fun hm => ⟨names, h, hm⟩⟩

theorem walked_iff (h : ∀ n, Walked elf t n ∨ Reached elf t n → Shadowed elf t n → ¬Available elf t n) :
    Walked elf t n ↔ Reached elf t n := by
  have hsame : ∀ n, Walked elf t n ∨ Reached elf t n → ∀ m, m ∈ next elf t n ↔ m ∈ needs elf t n := by
    intro n hn m
    by_cases hav : Available elf t n
    · exact next_of_verdict ((verdict_unshadowed fun hs => h n hn hs hav).1 hav)
    · have hverdict : verdict elf t n = none := by
        by_cases hs : Shadowed elf t n
        · exact verdict_shadowed hs
        · exact (verdict_unshadowed hs).2 hav
      simp [next, hverdict, needs_unavailable hav]
  constructor
  · refine Reaches.mono (fun m hm => .start (mem_queued.1 hm)) fun m hw hr b hb => hr.step ((hsame m (.inl hw) b).1 hb)
  · refine Reaches.mono (fun m hm => .start (mem_queued.2 hm)) fun m hr hw b hb => hw.step ((hsame m (.inr hr) b).2 hb)

theorem reached_walked (h : Reached elf t n) :
    Walked elf t n ∨ ∃ m, Walked elf t m ∧ Shadowed elf t m ∧ Available elf t m := by
  induction h with
  | start hn => exact .inl (.start (mem_queued.2 hn))
  | @step a b _ hb ih =>
    rcases ih with hwalked | hstop
    · have hav : Available elf t a := by
        by_contra hno
        rw [needs_unavailable hno] at hb
        exact absurd hb List.not_mem_nil
      by_cases hs : Shadowed elf t a
      · exact .inr ⟨a, hwalked, hs, hav⟩
      · exact .inl (hwalked.step ((next_of_verdict ((verdict_unshadowed hs).1 hav)).2 hb))
    · exact .inr hstop

theorem walked_reached (h : Walked elf t n) : Reached elf t n := by
  induction h with
  | start hm => exact .start (mem_queued.1 hm)
  | @step a b _ hb ih =>
    obtain ⟨names, hverdict, hm⟩ := mem_next.1 hb
    have hs : ¬Shadowed elf t a := fun hs => by simp [verdict_shadowed hs] at hverdict
    have hav : Available elf t a := by
      by_contra hno
      simp [(verdict_unshadowed hs).2 hno] at hverdict
    rw [(verdict_unshadowed hs).1 hav, Option.some.injEq] at hverdict
    exact ih.step (hverdict ▸ hm)

theorem unshadowed_iff : Unshadowed elf t ↔ ∀ n, Reached elf t n → Shadowed elf t n → ¬Available elf t n := by
  rw [Unshadowed]
  constructor
  · rintro h n hn ⟨name, hknown, hformed⟩ hav
    obtain ⟨hcore, hres⟩ := h n hn name hknown hformed
    exact hav.elim hcore hres
  · intro h n hn name hknown hformed
    have hno := h n hn ⟨name, hknown, hformed⟩
    exact ⟨fun hcore => hno (.inl hcore), fun hres => hno (.inr hres)⟩

theorem exact_iff_unshadowed : Exact elf t ↔ Unshadowed elf t := by
  rw [unshadowed_iff]
  constructor
  · intro hexact n hn hs hav
    obtain ⟨fuel, missing, left, hwalk, -, hmissing⟩ := hexact false
    obtain ⟨visited, hsearch, rfl, -⟩ := (walk_spec elf t false fuel).2 missing left hwalk
    have hstop : ∃ m, Walked elf t m ∧ Shadowed elf t m ∧ Available elf t m := by
      rcases reached_walked hn with hwalked | hstop
      · exact ⟨n, hwalked, hs, hav⟩
      · exact hstop
    obtain ⟨m, hwalked, hsm, havm⟩ := hstop
    have hmem : m ∈ visited.filter fun n => (verdict elf t n).isNone :=
      List.mem_filter.2 ⟨((search_visited hsearch).2 m).2 hwalked, by simp [verdict_shadowed hsm]⟩
    obtain ⟨-, hcore, hres⟩ := (hmissing m).1 hmem
    exact havm.elim hcore hres
  · intro h copyMissing
    obtain ⟨fuel, visited, hsearch⟩ := search_returns elf t
    obtain ⟨missing, left, hwalk⟩ := (walk_spec elf t copyMissing fuel).1 visited hsearch
    obtain ⟨visited', hsearch', rfl, -⟩ := (walk_spec elf t copyMissing fuel).2 missing left hwalk
    obtain rfl : visited = visited' := Option.some.inj (hsearch.symm.trans hsearch')
    obtain ⟨hnodup, hvisited⟩ := search_visited hsearch
    refine ⟨fuel, _, left, hwalk, hnodup.filter _, fun n => ?_⟩
    have hwalked : Walked elf t n ↔ Reached elf t n :=
      walked_iff fun n hn hs => h n (hn.elim walked_reached id) hs
    rw [List.mem_filter, hvisited n, ← not_or]
    change Walked elf t n ∧ _ ↔ Reached elf t n ∧ ¬Available elf t n
    rw [hwalked]
    refine and_congr_right fun hn => ?_
    rw [Option.isNone_iff_eq_none]
    by_cases hs : Shadowed elf t n
    · simp [verdict_shadowed hs, h n hn hs]
    · by_cases hav : Available elf t n
      · simp [(verdict_unshadowed hs).1 hav, hav]
      · simp [(verdict_unshadowed hs).2 hav, hav]

/-! ## The tree that is left behind -/

structure After (elf : γ → Metadata) (t left : Runtime γ) : Prop where
  staging : ∀ name, left.at? (.staging name) = none
  elsewhere : ∀ path, left.at? (.elsewhere path) = t.at? (.elsewhere path)
  copied : ∀ m, Walked elf t m → ∀ p, carried elf t m = some p →
    ∃ c, t.at? p = some (.file c) ∧ left.at? (.bundle m) = some (.file c)
  kept : ∀ m, (Walked elf t m → carried elf t m = none) → left.at? (.bundle m) = t.at? (.bundle m)

theorem After.congr {t' : Runtime γ} (h : After elf t left) (hsame : ∀ p, t'.at? p = left.at? p) : After elf t t' where
  staging name := (hsame _).trans (h.staging name)
  elsewhere path := (hsame _).trans (h.elsewhere path)
  copied m hm p hp := by
    obtain ⟨c, hc, hleft⟩ := h.copied m hm p hp
    exact ⟨c, hc, (hsame _).trans hleft⟩
  kept m hm := (hsame _).trans (h.kept m hm)

theorem metadata_carried {m : String} (hp : carried elf t m = some p) (hat : t.at? p = some (.file c)) :
    ∃ needed soname, elf c = some (needed, soname) ∧ metadataAt elf t p = some (needed, soname) ∧
      verdict elf t m = some needed := by
  obtain ⟨hleaf, hknown, hcore, hstaged, hformed⟩ := carried_some hp
  obtain ⟨needed, soname, hmeta⟩ := wellFormed_iff.1 hformed
  have helf : metadataAt elf t p = elf c := by
    rw [metadataAt_eq (follow_file hat _), contents_file hat, Option.bind_some]
  refine ⟨needed, soname, helf ▸ hmeta, hmeta, ?_⟩
  rw [verdict_staged hleaf hknown hcore, hstaged, Option.bind_some, hmeta, Option.map_some]

theorem After.follow (h : After elf t left) {n : Nat} {p q : Place} (hfollow : left.follow n p = some q) :
    (t.follow n p = some q ∧ left.at? p = t.at? p ∧ left.contents q = t.contents q) ∨
      ∃ m r, q = .bundle m ∧ Walked elf t m ∧ carried elf t m = some r ∧ left.contents q = t.contents r := by
  have hsame {p : Place} {entry : Entry γ} (hat : left.at? p = some entry) :
      left.at? p = t.at? p ∨ ∃ m r, p = .bundle m ∧ Walked elf t m ∧ carried elf t m = some r := by
    cases p with
    | staging name => cases (h.staging name).symm.trans hat
    | elsewhere path => exact .inl (h.elsewhere path)
    | bundle m =>
      by_cases hkept : Walked elf t m → carried elf t m = none
      · exact .inl (h.kept m hkept)
      · obtain ⟨hm, hne⟩ := Classical.not_imp.1 hkept
        obtain ⟨r, hr⟩ := Option.ne_none_iff_exists'.1 hne
        exact .inr ⟨m, r, rfl, hm, hr⟩
  induction n, p, q, hfollow using follow_induction with
  | file n p c hat =>
    rcases hsame hat with heq | ⟨m, r, rfl, hm, hr⟩
    · have hat' := heq.symm.trans hat
      exact .inl ⟨follow_file hat' n, heq, by rw [contents_file hat, contents_file hat']⟩
    · obtain ⟨c', hc, hleft⟩ := h.copied m hm r hr
      exact .inr ⟨m, r, rfl, hm, hr, by rw [contents_file hleft, contents_file hc]⟩
  | link n p target q hat hfollow ih =>
    rcases hsame hat with heq | ⟨m, r, rfl, hm, hr⟩
    · refine ih.imp_left fun hkept => ⟨?_, heq, hkept.2.2⟩
      rw [follow_link (heq.symm.trans hat), hkept.1]
    · obtain ⟨c', -, hleft⟩ := h.copied m hm r hr
      cases hleft.symm.trans hat

theorem After.metadata (h : After elf t left) (hfile : left.isFile p = true) :
    (left.at? p = t.at? p ∧ t.isFile p = true ∧ metadataAt elf left p = metadataAt elf t p) ∨
      ∃ needed soname, metadataAt elf left p = some (needed, soname) ∧ ∀ n ∈ needed, Walked elf t n := by
  obtain ⟨q, hresolve⟩ := isFile_iff.1 hfile
  rcases h.follow hresolve with ⟨hf, hat, hc⟩ | ⟨m, r, rfl, hm, hr, hc⟩
  · exact .inl ⟨hat, isFile_iff.2 ⟨q, hf⟩, by rw [metadataAt_eq hresolve, metadataAt_eq hf, hc]⟩
  · obtain ⟨c, hat, -⟩ := h.copied m hm r hr
    obtain ⟨needed, soname, helf, -, hverdict⟩ := metadata_carried hr hat
    refine .inr ⟨needed, soname, ?_, fun n hn => hm.step ((next_of_verdict hverdict).2 hn)⟩
    rw [metadataAt_eq hresolve, hc, contents_file hat, Option.bind_some, helf]

theorem firstKnown_of_known {n name : String} (h : knownAs elf t n name = true) : ∃ first, firstKnown elf t n = some first := by
  cases hfirst : firstKnown elf t n with
  | some first => exact ⟨first, rfl⟩
  | none => exact absurd h (by simp [firstKnown_none.1 hfirst name])

theorem After.known (h : After elf t left) (hknown : knownAs elf t name name = true) :
    left.at? (.bundle name) = t.at? (.bundle name) := by
  obtain ⟨first, hfirst⟩ := firstKnown_of_known hknown
  exact h.kept name fun _ => carried_known hfirst

theorem After.alive (h : After elf t left) {n : Nat} {p q : Place} (hn : n ≤ Runtime.maxSymlinks)
    (havoids : avoids t n p = true) (hfollow : t.follow n p = some q) : left.follow n p = some q := by
  induction n, p, q, hfollow using follow_induction with
  | file n p c hat =>
    have hleft : ∃ c', left.at? p = some (.file c') := by
      cases p with
      | staging name => cases n <;> simp [avoids] at havoids
      | elsewhere path => exact ⟨c, (h.elsewhere path).trans hat⟩
      | bundle m =>
        by_cases hkept : Walked elf t m → carried elf t m = none
        · exact ⟨c, (h.kept m hkept).trans hat⟩
        · obtain ⟨hm, hne⟩ := Classical.not_imp.1 hkept
          obtain ⟨r, hr⟩ := Option.ne_none_iff_exists'.1 hne
          obtain ⟨c', -, hc'⟩ := h.copied m hm r hr
          exact ⟨c', hc'⟩
    obtain ⟨c', hc'⟩ := hleft
    exact follow_file hc' n
  | link n p target q hat hfollow ih =>
    have hfile : t.isFile p = true := isFile_iff.2 ⟨q, follow_le hn ((follow_link hat n).trans hfollow)⟩
    have hleft : left.at? p = some (.link target) := by
      cases p with
      | staging name => simp [avoids] at havoids
      | elsewhere path => exact (h.elsewhere path).trans hat
      | bundle m =>
        refine (h.known ?_).trans hat
        rw [knownAs_link hfile (isSymlink_iff.2 ⟨target, hat⟩)]
        simp
    rw [follow_link hleft]
    refine ih (Nat.le_of_succ_le hn) ?_
    cases p <;> simp_all [avoids]

theorem known_of_soname {m n : String} (hat : t.at? (.bundle m) = some (.file c)) {needed : List String}
    {soname : Option String} (helf : elf c = some (needed, soname)) (hn : m = n ∨ n ≠ "" ∧ soname = some n) :
    knownAs elf t n m = true := by
  have hresolve : t.resolve (.bundle m) = some (.bundle m) := follow_file hat _
  have hmeta : metadataAt elf t (.bundle m) = some (needed, soname) := by
    rw [metadataAt_eq hresolve, contents_file hat, Option.bind_some, helf]
  have hlink : t.isSymlink (.bundle m) = false := by simp [Runtime.isSymlink, hat]
  rw [knownAs_regular (isFile_iff.2 ⟨_, hresolve⟩) hlink hmeta]
  rcases hn with rfl | ⟨hne, rfl⟩
  · simp
  · simp [hne]

theorem knownAs_congr {n name : String} (hat : left.at? (.bundle name) = t.at? (.bundle name))
    (hleft : left.isFile (.bundle name) = true) (hfile : t.isFile (.bundle name) = true)
    (hmeta : metadataAt elf left (.bundle name) = metadataAt elf t (.bundle name)) :
    knownAs elf left n name = knownAs elf t n name := by
  have hlink : left.isSymlink (.bundle name) = t.isSymlink (.bundle name) := by rw [Runtime.isSymlink, hat, Runtime.isSymlink]
  rw [knownAs, knownAs, hleft, hfile, hmeta, hlink]

theorem After.still_known (h : After elf t left) {n name : String} (hknown : knownAs elf t n name = true)
    (havoids : avoids t Runtime.maxSymlinks (.bundle name) = true) : knownAs elf left n name = true := by
  have hfile := isFile_of_known hknown
  obtain ⟨q, hresolve⟩ := isFile_iff.1 hfile
  have hleft : left.resolve (.bundle name) = some q := h.alive (Nat.le_refl _) havoids hresolve
  cases hlink : t.isSymlink (.bundle name) with
  | true =>
    have hown : n = name := by simpa [knownAs_link hfile hlink] using hknown
    subst hown
    have hat := h.known hknown
    have hlink' : left.isSymlink (.bundle n) = true := by rw [Runtime.isSymlink, hat]; exact hlink
    rw [knownAs_link (isFile_iff.2 ⟨q, hleft⟩) hlink']
    simp
  | false =>
    obtain ⟨rfl, c, hat⟩ := resolve_regular hresolve hlink
    cases hmeta : metadataAt elf t (.bundle name) with
    | none => simp [knownAs_malformed hfile hlink hmeta] at hknown
    | some metadata =>
      obtain ⟨needed, soname⟩ := metadata
      have helf : elf c = some (needed, soname) := by
        rw [← hmeta, metadataAt_eq hresolve, contents_file hat, Option.bind_some]
      have hsame := h.known (known_of_soname hat helf (.inl rfl))
      have hmeta' : metadataAt elf left (.bundle name) = metadataAt elf t (.bundle name) := by
        rw [metadataAt_eq hleft, metadataAt_eq hresolve, contents_file (hsame.trans hat), contents_file hat]
      rw [knownAs_congr hsame (isFile_iff.2 ⟨_, hleft⟩) hfile hmeta', hknown]

theorem After.verdict (hkept : Kept elf t) (hfound : ∀ n, Walked elf t n → Libraries.verdict elf t n ≠ none)
    (h : After elf t left) (hn : Walked elf t n) :
    ∃ names, Libraries.verdict elf left n = some names ∧ ∀ m ∈ names, Walked elf t m := by
  have hleaf : isLeafLibraryName n = true := by
    by_contra hno
    exact hfound n hn (by simp [Libraries.verdict, hno])
  have hne : n ≠ "" := by
    rintro rfl
    simp [isLeafLibraryName] at hleaf
  have hreached : ∀ m, Reached elf t m → Walked elf t m := by
    intro m hm
    rcases reached_walked hm with hw | ⟨m', hw, hs, -⟩
    · exact hw
    · exact absurd (verdict_shadowed hs) (hfound m' hw)
  obtain ⟨hone, hways⟩ := hkept n (walked_reached hn)
  cases hfirst : firstKnown elf left n with
  | some name =>
    have hknown := firstKnown_some hfirst
    rw [verdict_known hleaf hfirst]
    rcases h.metadata (isFile_of_known hknown) with ⟨hat, hfile, hmeta⟩ | ⟨needed, soname, hmeta, hneeded⟩
    · -- An entry of the former bundle leads to the file that the walk has read for the name.
      rw [knownAs_congr hat (isFile_of_known hknown) hfile hmeta] at hknown
      obtain ⟨first, hfirst'⟩ := firstKnown_of_known hknown
      have hsame : metadataAt elf t (.bundle name) = metadataAt elf t (.bundle first) := by
        rw [metadataAt, metadataAt, hone name first hknown (firstKnown_some hfirst')]
      have hverdict := verdict_known hleaf hfirst'
      cases hv : Libraries.verdict elf t n with
      | none => exact absurd hv (hfound n hn)
      | some names => exact ⟨names, by rw [hmeta, hsame, ← hverdict, hv], fun m hm => hn.step ((next_of_verdict hv).2 hm)⟩
    · exact ⟨needed, by rw [hmeta, Option.map_some], hneeded⟩
  | none =>
    by_cases hcore : n ∈ coreHostLibraries
    · exact ⟨[], by simp [Libraries.verdict, hleaf, hfirst, hcore], by simp⟩
    · exfalso
      have hunknown := firstKnown_none.1 hfirst
      cases hbefore : firstKnown elf t n with
      | some name =>
        rcases hways ⟨name, firstKnown_some hbefore⟩ with hno | ⟨m, hknown, havoids⟩ | ⟨m, p, needed, hm, hp, hmeta⟩
        · exact hcore hno
        · simpa [hunknown m] using h.still_known hknown havoids
        · obtain ⟨c, hat, hleft⟩ := h.copied m (hreached m hm) p hp
          obtain ⟨needed', soname, helf, hmeta', -⟩ := metadata_carried hp hat
          obtain ⟨-, rfl⟩ := Prod.mk.inj (Option.some.inj (hmeta.symm.trans hmeta'))
          simpa [hunknown m] using known_of_soname hleft helf (.inr ⟨hne, rfl⟩)
      | none =>
        cases hstaged : staged t n with
        | none => exact hfound n hn (by rw [verdict_staged hleaf hbefore hcore, hstaged, Option.bind_none])
        | some p =>
          have hformed : wellFormed elf t p = true := by
            by_contra hmal
            have hmeta : metadataAt elf t p = none := by simpa [wellFormed] using hmal
            exact hfound n hn (by rw [verdict_staged hleaf hbefore hcore, hstaged, Option.bind_some, hmeta, Option.map_none])
          have hp : carried elf t n = some p := by
            rw [carried_eq hleaf hbefore hcore, hstaged, Option.filter_some, if_pos hformed]
          obtain ⟨c, hat, hleft⟩ := h.copied n hn p hp
          obtain ⟨needed, soname, helf, -, -⟩ := metadata_carried hp hat
          simpa [hunknown n] using known_of_soname hleft helf (.inl rfl)

theorem LeftBy.after {visited : List String} (h : LeftBy elf t visited left) (hvisited : ∀ n, n ∈ visited ↔ Walked elf t n) :
    After elf t { left with staging := [] } where
  staging _ := rfl
  elsewhere := h.elsewhere
  copied m hm := h.copied m ((hvisited m).2 hm)
  kept m hm := h.kept m fun hmem => hm ((hvisited m).1 hmem)

theorem selfContained_of_kept (hkept : Kept elf t) : SelfContained elf t := by
  intro fuel left hrun t' hsame
  obtain ⟨⟨missing, tree⟩, hwalk, heq⟩ := Option.map_eq_some_iff.1 hrun
  obtain ⟨rfl, rfl⟩ := Prod.mk.inj heq
  obtain ⟨visited, hsearch, hnone, hleft⟩ := (walk_spec elf t true fuel).2 _ _ hwalk
  have hvisited := (search_visited hsearch).2
  have hfound : ∀ n, Walked elf t n → verdict elf t n ≠ none := by
    intro n hn hv
    have hmem : n ∈ visited.filter fun n => (verdict elf t n).isNone :=
      List.mem_filter.2 ⟨(hvisited n).2 hn, by simp [hv]⟩
    rw [← hnone] at hmem
    exact absurd hmem List.not_mem_nil
  have hafter : After elf t t' := (LeftBy.after (by simpa using hleft) hvisited).congr hsame
  obtain ⟨fuel', visited', hsearch'⟩ := search_returns elf t'
  obtain ⟨missing', left', hwalk'⟩ := (walk_spec elf t' false fuel').1 visited' hsearch'
  obtain ⟨visited'', hsearch'', rfl, -⟩ := (walk_spec elf t' false fuel').2 _ _ hwalk'
  -- The names that the walk has visited are closed under what the second one does.
  have hclosed : ∀ n ∈ visited'', Walked elf t n := by
    intro n hn
    refine Reaches.closed (fun m hm => ?_) (fun a ha b hb => ?_) (((search_visited hsearch'').2 n).1 hn)
    · obtain ⟨path, hpath, hneeded⟩ := List.mem_flatMap.1 (mem_queued.1 hm)
      have hfile : t'.isFile (.elsewhere path) = true := by
        by_contra hno
        have hres : t'.resolve (.elsewhere path) = none := by simpa [Runtime.isFile] using hno
        simp [neededAt, metadataAt, hres] at hneeded
      rcases hafter.metadata hfile with ⟨-, -, hmeta⟩ | ⟨needed, soname, hmeta, hall⟩
      · rw [neededAt, hmeta] at hneeded
        exact .start (mem_queued.2 (List.mem_flatMap.2 ⟨path, hpath, hneeded⟩))
      · rw [neededAt, hmeta] at hneeded
        exact hall m hneeded
    · obtain ⟨names, hverdict, hall⟩ := hafter.verdict hkept hfound ha
      exact hall b ((next_of_verdict hverdict).1 hb)
  have hempty : visited''.filter (fun n => (verdict elf t' n).isNone) = [] := by
    rw [List.filter_eq_nil_iff]
    intro n hn
    obtain ⟨names, hverdict, -⟩ := hafter.verdict hkept hfound (hclosed n hn)
    simp [hverdict]
  exact ⟨fuel', by rw [runtimeMissingLibraries, hwalk', Option.map_some, hempty]⟩

def linkedRuntime : Runtime (List String × Option String) where
  bundle := [("libfoo.so.1", .link (.staging "libfoo.so.1.2.3"))]
  staging := [("libfoo.so.1.2.3", .file ([], none))]
  elsewhere := [("bin/ffmpeg", .file (["libfoo.so.1"], none))]

theorem walk_again {n m : Nat} {r s : List String × Runtime γ}
    (hr : walkRuntimeClosure elf n t copyMissing = some r) (hs : walkRuntimeClosure elf m t copyMissing = some s) : r.1 = s.1 := by
  obtain ⟨visited, hv, hrm, -⟩ := (walk_spec elf t copyMissing n).2 r.1 r.2 hr
  obtain ⟨visited', hv', hsm, -⟩ := (walk_spec elf t copyMissing m).2 s.1 s.2 hs
  have hsame : visited = visited' := by
    rcases Nat.le_total n m with hle | hle
    · exact Option.some.inj ((search_mono hle hv).symm.trans hv')
    · exact Option.some.inj (hv.symm.trans (search_mono hle hv'))
  rw [hrm, hsm, hsame]

end Dumb.Mediastorm.Libraries
