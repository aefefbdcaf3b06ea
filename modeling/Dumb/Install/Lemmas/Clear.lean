import Dumb.Install.Snapshot

/-!
# What a deferred clear moves aside and brings back

The bottom-up walk empties every path below which nothing is excluded. The backup then holds the files and
links that were moved, and the directories above them.
-/

namespace Dumb.Install.Clear

open Py Tree

variable {γ : Type} {excluded : List Path} {tree : Files γ}

def Stays (excluded : List Path) (tree : Files γ) (p : Path) : Prop :=
  ∃ q, p <+: q ∧ tree.get? q ≠ none ∧ covers excluded q = true

/-- A directory with nothing at or below it but directories, none of them excluded. -/
def Hollow (excluded : List Path) (tree : Files γ) (p : Path) : Prop :=
  tree.get? p = some .dir ∧ ∀ q, p <+: q → tree.get? q ≠ none → tree.get? q = some .dir ∧ covers excluded q = false

theorem Stays.of_below {p q : Path} (hpq : p <+: q) (h : Stays excluded tree q) : Stays excluded tree p := by
  obtain ⟨r, hqr, hr⟩ := h
  exact ⟨r, hpq.trans hqr, hr⟩

variable {p : Path}

theorem stays_self (hp : tree.get? p ≠ none) (hc : covers excluded p = true) :
    Stays excluded tree p := ⟨p, List.prefix_refl p, hp, hc⟩

variable {node : Node γ}

theorem not_stays_leaf (hclosed : Closed tree) (hp : tree.get? p = some node)
    (hne : node ≠ .dir) (hc : covers excluded p = false) : ¬ Stays excluded tree p := by
  rintro ⟨q, hpq, hq, hcq⟩
  by_cases heq : p = q
  · rw [heq, hcq] at hc
    cases hc
  · have hroot : p ≠ [] := by
      rintro rfl
      rw [hclosed.root] at hp
      cases hp
    rw [hclosed.parent p q hpq heq hroot hq] at hp
    cases hp
    exact hne rfl

/-! ## The walk -/

structure Cleared (excluded : List Path) (tree : Files γ) (done : List Path) (now : Files γ) : Prop where
  gone : ∀ p ∈ done, ¬ Stays excluded tree p → now.get? p = none
  left : ∀ p, p ∉ done ∨ Stays excluded tree p → now.get? p = tree.get? p

theorem cleared_nil : Cleared excluded tree [] tree :=
  ⟨fun _ hp => (List.not_mem_nil hp).elim, fun _ _ => rfl⟩

theorem below_done {visits done todo : List Path} (hw : WalkOrder tree visits) (hv : visits = done ++ todo)
    {p q : Path} (hp : p ∈ done) (hpq : p <+: q) (hq : tree.get? q ≠ none) : q ∈ done := by
  have hmem := (hw.mem q).2 hq
  rw [hv, List.mem_append] at hmem
  rcases hmem with hmem | hmem
  · exact hmem
  · exact absurd hpq ((List.pairwise_append.1 (hv ▸ hw.below)).2.2 p hp q hmem)

variable {done : List Path}

theorem Cleared.get? {now : Files γ} (h : Cleared excluded tree done now) (p : Path) :
    now.get? p = none ∨ now.get? p = tree.get? p := by
  by_cases hp : p ∈ done ∧ ¬ Stays excluded tree p
  · exact .inl (h.gone p hp.1 hp.2)
  · exact .inr (h.left p (by tauto))

theorem clearVisit_cleared {visits done todo : List Path} {now : Files γ} (hclosed : Closed tree)
    (hw : WalkOrder tree visits) (hv : visits = done ++ p :: todo) (h : Cleared excluded tree done now) :
    Cleared excluded tree (done ++ [p]) (clearVisit excluded now p) := by
  have hv' : visits = (done ++ [p]) ++ todo := by simpa using hv
  have hexists : tree.get? p ≠ none := (hw.mem p).1 (by rw [hv]; simp)
  have hnew : p ∉ done := by
    have hn := hv ▸ hw.nodup
    exact fun hp => (List.nodup_append.1 hn).2.2 p hp p List.mem_cons_self rfl
  have hp := h.left p (.inl hnew)
  -- it is enough to say what has come of `p` itself
  have hstep : ∀ next : Files γ, (∀ q, q ≠ p → next.get? q = now.get? q) →
      (¬ Stays excluded tree p → next.get? p = none) → (Stays excluded tree p → next.get? p = now.get? p) →
      Cleared excluded tree (done ++ [p]) next := by
    intro next hother hgone hleft
    refine ⟨fun q hq hstay => ?_, fun q hq => ?_⟩
    · by_cases hqp : q = p
      · exact hqp ▸ hgone (hqp ▸ hstay)
      · rw [hother q hqp]
        exact h.gone q (by simpa [hqp] using hq) hstay
    · by_cases hqp : q = p
      · subst hqp
        rcases hq with hq | hq
        · simp at hq
        · rw [hleft hq, hp]
      · rw [hother q hqp]
        refine h.left q (hq.imp_left fun hq hmem => hq (List.mem_append_left _ hmem))
  unfold clearVisit
  cases hc : covers excluded p with
  | true => exact hstep now (fun _ _ => rfl) (fun hn => absurd (stays_self hexists hc) hn) fun _ => rfl
  | false =>
    simp only [Bool.false_eq_true, ↓reduceIte]
    cases hnode : tree.get? p with
    | none => exact absurd hnode hexists
    | some node =>
      rw [hnode] at hp
      cases node with
      | dir =>
        simp only [hp]
        have hempty : isEmptyDir p now = true ↔ ¬ Stays excluded tree p := by
          rw [isEmptyDir_iff]
          constructor
          · rintro he ⟨q, hpq, hq, hcq⟩
            have hne : p ≠ q := by
              rintro rfl
              rw [hc] at hcq
              cases hcq
            have hnone := he q hpq hne
            rw [h.left q (.inr (stays_self hq hcq))] at hnone
            exact hq hnone
          · intro hstay q hpq hne
            by_cases hq : tree.get? q = none
            · have hqv : q ∉ done := fun hmem => (hw.mem q).1 (by rw [hv]; exact List.mem_append_left _ hmem) hq
              rw [h.left q (.inl hqv), hq]
            · have hmem := below_done hw hv' (by simp) hpq hq
              exact h.gone q (by simpa [Ne.symm hne] using hmem) fun hs => hstay (hs.of_below hpq)
        refine hstep _ (fun q hq => ?_) (fun hs => ?_) fun hs => ?_
        · simp [get?_rmdir, hq]
        · simp [get?_rmdir, hempty.2 hs]
        · have he : ¬ isEmptyDir p now = true := fun he => hempty.1 he hs
          simp [get?_rmdir, he]
      | file c =>
        simp only [hp]
        refine hstep _ (fun q hq => ?_) (fun _ => ?_) fun hs => ?_
        · simp [Dict.get?_erase, hq]
        · simp [Dict.get?_erase]
        · exact absurd hs (not_stays_leaf hclosed hnode (by simp) hc)
      | link text =>
        simp only [hp]
        refine hstep _ (fun q hq => ?_) (fun _ => ?_) fun hs => ?_
        · simp [Dict.get?_erase, hq]
        · simp [Dict.get?_erase]
        · exact absurd hs (not_stays_leaf hclosed hnode (by simp) hc)

variable {visits : List Path}

theorem clearVisits_cleared (hclosed : Closed tree) (hw : WalkOrder tree visits) :
    ∀ (todo done : List Path) {now : Files γ}, visits = done ++ todo → Cleared excluded tree done now →
      Cleared excluded tree visits (todo.foldl (clearVisit excluded) now)
  | [], done, now, hv, h => by simpa [hv] using h
  | p :: todo, done, now, hv, h =>
    clearVisits_cleared hclosed hw todo (done ++ [p]) (by simpa using hv) (clearVisit_cleared hclosed hw hv h)

/-! ## The backup -/

/-- `p` is a file or a link that the capture has to move. -/
def Movable (excluded : List Path) (tree : Files γ) (p : Path) (node : Node γ) : Prop :=
  tree.get? p = some node ∧ node ≠ .dir ∧ covers excluded p = false

/-- The backup after the visits `done`: every file and link moved so far below the directories it lay in, and
no directory without a reason. -/
structure Kept (excluded : List Path) (tree : Files γ) (done : List Path) (backup : Files γ) : Prop where
  distinct : (Dict.keys backup).Nodup
  moved : ∀ p ∈ done, ∀ node, Movable excluded tree p node → backup.get? p = some node
  parents : ∀ p ∈ done, ∀ node, Movable excluded tree p node → ∀ q, q <+: p → q ≠ p → q ≠ [] →
    backup.get? q = some .dir
  leaves : ∀ p node, backup.get? p = some node → node ≠ .dir → p ∈ done ∧ Movable excluded tree p node
  dirs : ∀ p, backup.get? p = some .dir → p ≠ [] ∧ ∃ q node, p <+: q ∧ p ≠ q ∧ Movable excluded tree q node

theorem kept_nil : Kept excluded tree [] [] where
  distinct := .nil
  moved := fun _ hp => (List.not_mem_nil hp).elim
  parents := fun _ hp => (List.not_mem_nil hp).elim
  leaves := by intro p node hp; simp at hp
  dirs := by intro p hp; simp at hp

variable {backup : Files γ}

theorem Kept.skip (h : Kept excluded tree done backup)
    (hp : ∀ node, ¬ Movable excluded tree p node) : Kept excluded tree (done ++ [p]) backup where
  distinct := h.distinct
  moved := by
    intro q hq node hm
    rcases List.mem_append.1 hq with hq | hq
    · exact h.moved q hq node hm
    · exact absurd hm (List.mem_singleton.1 hq ▸ hp node)
  parents := by
    intro q hq node hm
    rcases List.mem_append.1 hq with hq | hq
    · exact h.parents q hq node hm
    · exact absurd hm (List.mem_singleton.1 hq ▸ hp node)
  leaves := fun q node hq hne => ⟨List.mem_append_left _ (h.leaves q node hq hne).1, (h.leaves q node hq hne).2⟩
  dirs := h.dirs

theorem prefix_dropLast {p q : Path} (hp : p ≠ []) : q <+: p.dropLast ↔ q <+: p ∧ q ≠ p := by
  constructor
  · intro h
    refine ⟨h.trans (List.dropLast_prefix p), ?_⟩
    rintro rfl
    have := h.length_le
    have hpos := List.length_pos_of_ne_nil hp
    simp at this
    omega
  · rintro ⟨hpre, hne⟩
    have hlt : q.length < p.length := by
      rcases Nat.lt_or_ge q.length p.length with hlt | hge
      · exact hlt
      · exact absurd (hpre.eq_of_length (Nat.le_antisymm hpre.length_le hge)) hne
    rw [List.dropLast_eq_take]
    exact List.prefix_take_iff.2 ⟨hpre, by omega⟩

theorem Kept.parent_dir (hclosed : Closed tree)
    (h : Kept excluded tree done backup) {p q : Path} {node n : Node γ} (hm : Movable excluded tree p node)
    (hpre : q <+: p) (hne : q ≠ p) (hq : q ≠ []) (hb : backup.get? q = some n) : n = .dir := by
  by_contra hn
  obtain ⟨-, htree, -, -⟩ := h.leaves q n hb hn
  rw [hclosed.parent q p hpre hne hq (by rw [hm.1]; simp)] at htree
  exact hn (Option.some.inj htree).symm

theorem Kept.exists (hclosed : Closed tree) (h : Kept excluded tree done backup)
    (hp : backup.get? p = some node) : tree.get? p = some node := by
  by_cases hd : node = .dir
  · subst hd
    obtain ⟨hroot, q, n, hpq, hne, hm⟩ := h.dirs p hp
    exact hclosed.parent p q hpq hne hroot (by simp [hm.1])
  · exact (h.leaves p node hp hd).2.1

theorem Kept.mkdirs (hroot : p ≠ [])
    (h : Kept excluded tree done backup) (hm : Movable excluded tree p node) :
    Kept excluded tree done (mkdirs p.dropLast backup) where
  distinct := nodup_mkdirs h.distinct
  moved := by
    intro q hq n hmq
    rw [get?_mkdirs, h.moved q hq n hmq]
    simp
  parents := by
    intro q hq n hmq r hpre hne hr
    rw [get?_mkdirs, h.parents q hq n hmq r hpre hne hr]
    simp
  leaves := by
    intro q n hq hne
    rw [get?_mkdirs] at hq
    split at hq
    · cases hq
      exact absurd rfl hne
    · exact h.leaves q n hq hne
  dirs := by
    intro q hq
    rw [get?_mkdirs] at hq
    split at hq
    · rename_i hnew
      obtain ⟨hpre, hne⟩ := (prefix_dropLast hroot).1 hnew.2.2
      exact ⟨hnew.2.1, p, node, hpre, hne, hm⟩
    · exact h.dirs q hq

theorem Kept.move (hclosed : Closed tree)
    (hnew : p ∉ done) (hroot : p ≠ []) (h : Kept excluded tree done backup) (hm : Movable excluded tree p node) :
    Kept excluded tree (done ++ [p]) ((Tree.mkdirs p.dropLast backup).set p node) := by
  have hk := h.mkdirs hroot hm
  have hparents : ∀ q, q <+: p → q ≠ p → q ≠ [] → (Tree.mkdirs p.dropLast backup).get? q = some .dir := by
    intro q hpre hne hq
    cases hb : backup.get? q with
    | none =>
      have hpre' := (prefix_dropLast hroot).2 ⟨hpre, hne⟩
      simp [get?_mkdirs, hb, hq, hpre']
    | some n =>
      rw [get?_mkdirs, hb, h.parent_dir hclosed hm hpre hne hq hb]
      simp
  refine ⟨Dict.nodup_keys_set hk.distinct, ?_, ?_, ?_, ?_⟩
  · intro q hq n hmq
    by_cases hqp : q = p
    · subst hqp
      rw [Dict.get?_set_self, ← hm.1, hmq.1]
    · rw [Dict.get?_set_ne hqp]
      exact hk.moved q (by simpa [hqp] using hq) n hmq
  · intro q hq n hmq r hpre hne hr
    have hrp : r ≠ p := by
      rintro rfl
      exact hm.2.1 (Option.some.inj (hm.1.symm.trans (hclosed.parent r q hpre hne hr (by rw [hmq.1]; simp))))
    rw [Dict.get?_set_ne hrp]
    by_cases hqp : q = p
    · subst hqp
      exact hparents r hpre hne hr
    · exact hk.parents q (by simpa [hqp] using hq) n hmq r hpre hne hr
  · intro q n hq hne
    by_cases hqp : q = p
    · subst hqp
      rw [Dict.get?_set_self] at hq
      cases hq
      exact ⟨by simp, hm⟩
    · rw [Dict.get?_set_ne hqp] at hq
      exact ⟨List.mem_append_left _ (hk.leaves q n hq hne).1, (hk.leaves q n hq hne).2⟩
  · intro q hq
    by_cases hqp : q = p
    · subst hqp
      rw [Dict.get?_set_self] at hq
      cases hq
      exact absurd rfl hm.2.1
    · rw [Dict.get?_set_ne hqp] at hq
      exact hk.dirs q hq

/-! ## The capture -/

def failing (excluded : List Path) (fails : Path → Bool) (tree : Files γ) (p : Path) : Bool :=
  fails p && !covers excluded p && match tree.get? p with
    | some .dir | none => false
    | _ => true

def handled (excluded : List Path) (fails : Path → Bool) (tree : Files γ) (visits : List Path) : List Path :=
  visits.takeWhile fun p => !failing excluded fails tree p

structure Captured (excluded : List Path) (tree : Files γ) (visits done : List Path) (s s' : Clear γ) : Prop where
  cleared : Cleared excluded tree done s'.target
  kept : Kept excluded tree done s'.backup
  captured : s'.captured = s.captured
  complete : s'.captureComplete = true → done = visits

theorem handled_cons {fails : Path → Bool} (todo : List Path)
    (hf : failing excluded fails tree p = false) :
    handled excluded fails tree (p :: todo) = p :: handled excluded fails tree todo := by
  simp [handled, hf]

theorem captureVisits_captured (fails : Path → Bool) (hclosed : Closed tree)
    (hw : WalkOrder tree visits) : ∀ (todo done : List Path) {s : Clear γ}, visits = done ++ todo →
    Cleared excluded tree done s.target → Kept excluded tree done s.backup → s.captureComplete = false →
    Captured excluded tree visits (done ++ handled excluded fails tree todo) s (captureVisits excluded fails todo s)
  | [], done, s, hv, hc, hk, hn => by
    have hv' : done = visits := by simpa using hv.symm
    rw [show done ++ handled excluded fails tree [] = done by simp [handled]]
    exact ⟨hc, hk, rfl, fun _ => hv'⟩
  | p :: todo, done, s, hv, hc, hk, hn => by
    have hv' : visits = (done ++ [p]) ++ todo := by simpa using hv
    have hexists : tree.get? p ≠ none := (hw.mem p).1 (by rw [hv]; simp)
    have hnew : p ∉ done := fun hp =>
      (List.nodup_append.1 (hv ▸ hw.nodup)).2.2 p hp p List.mem_cons_self rfl
    have hroot : p ≠ [] := by
      rintro rfl
      exact hexists hclosed.root
    have hp := hc.left p (.inl hnew)
    have hclear := clearVisit_cleared hclosed hw hv hc
    -- the rest of the walk goes on from `s₁`
    have hgo : ∀ s₁ : Clear γ, failing excluded fails tree p = false →
        captureVisits excluded fails (p :: todo) s = captureVisits excluded fails todo s₁ →
        s₁.target = clearVisit excluded s.target p → Kept excluded tree (done ++ [p]) s₁.backup →
        s₁.captureComplete = false → s₁.captured = s.captured →
        Captured excluded tree visits (done ++ handled excluded fails tree (p :: todo)) s
          (captureVisits excluded fails (p :: todo) s) := by
      intro s₁ hf heq ht hb hcomp hcap
      have ih := captureVisits_captured fails hclosed hw todo (done ++ [p]) hv' (ht ▸ hclear) hb hcomp
      rw [heq, handled_cons todo hf, show done ++ p :: handled excluded fails tree todo =
        (done ++ [p]) ++ handled excluded fails tree todo by simp]
      exact ⟨ih.cleared, ih.kept, ih.captured.trans hcap, ih.complete⟩
    have hmove : ∀ node, Movable excluded tree p node → captureVisits excluded fails (p :: todo) s =
        (if fails p then { s with backup := mkdirs p.dropLast s.backup }
          else captureVisits excluded fails todo
            { s with target := s.target.erase p, backup := (mkdirs p.dropLast s.backup).set p node }) →
        clearVisit excluded s.target p = s.target.erase p →
        failing excluded fails tree p = fails p →
        Captured excluded tree visits (done ++ handled excluded fails tree (p :: todo)) s
          (captureVisits excluded fails (p :: todo) s) := by
      intro node hm heq ht hf
      cases hfp : fails p with
      | true =>
        rw [hfp, if_pos rfl] at heq
        rw [heq, show handled excluded fails tree (p :: todo) = [] by simp [handled, hf, hfp], List.append_nil]
        exact ⟨hc, hk.mkdirs hroot hm, rfl, fun h => by rw [hn] at h; cases h⟩
      | false =>
        rw [hfp, if_neg (by simp)] at heq
        exact hgo _ (hf.trans hfp) heq ht.symm (hk.move hclosed hnew hroot hm) hn rfl
    cases hcov : covers excluded p with
    | true =>
      refine hgo s (by simp [failing, hcov]) (by simp [captureVisits, hcov]) (by simp [clearVisit, hcov]) ?_ hn rfl
      exact hk.skip fun node hm => by rw [hm.2.2] at hcov; cases hcov
    | false =>
      cases hnode : tree.get? p with
      | none => exact absurd hnode hexists
      | some node =>
        rw [hnode] at hp
        cases node with
        | dir =>
          refine hgo { s with target := rmdir p s.target } (by simp [failing, hnode])
            (by simp [captureVisits, hcov, hp]) (by simp [clearVisit, hcov, hp]) ?_ hn rfl
          refine hk.skip fun node hm => ?_
          have heq := hm.1.symm.trans hnode
          cases heq
          exact hm.2.1 rfl
        | file c =>
          exact hmove (.file c) ⟨hnode, by simp, hcov⟩ (by simp [captureVisits, hcov, hp])
            (by simp [clearVisit, hcov, hp]) (by simp [failing, hcov, hnode])
        | link text =>
          exact hmove (.link text) ⟨hnode, by simp, hcov⟩ (by simp [captureVisits, hcov, hp])
            (by simp [clearVisit, hcov, hp]) (by simp [failing, hcov, hnode])

theorem capture_captured (fails : Path → Bool) (hclosed : Closed tree)
    (hw : WalkOrder tree visits) :
    Captured excluded tree visits (handled excluded fails tree visits)
      { target := tree, backup := [], captured := true, captureComplete := false }
      (capture excluded fails visits tree) :=
  captureVisits_captured fails hclosed hw visits [] rfl cleared_nil kept_nil rfl

/-! ## The rollback -/

theorem stays_congr {later : Files γ} (h : ∀ p, covers excluded p = true → later.get? p = tree.get? p) (p : Path) :
    Stays excluded later p ↔ Stays excluded tree p := by
  constructor
  · rintro ⟨q, hpq, hq, hc⟩
    exact ⟨q, hpq, h q hc ▸ hq, hc⟩
  · rintro ⟨q, hpq, hq, hc⟩
    exact ⟨q, hpq, (h q hc).symm ▸ hq, hc⟩

theorem Cleared.of_later {later now : Files γ} {visits visits' : List Path} (hclosed : Closed tree)
    (hlater : Closed later) (hw : WalkOrder tree visits) (hw' : WalkOrder later visits')
    (hsame : ∀ p, covers excluded p = true → later.get? p = tree.get? p)
    (h : Cleared excluded later visits' now) : Cleared excluded tree visits now := by
  have hgone : ∀ p, ¬ Stays excluded tree p → now.get? p = none := by
    intro p hp
    by_cases hmem : p ∈ visits'
    · exact h.gone p hmem fun hs => hp ((stays_congr hsame p).1 hs)
    · rw [h.left p (.inl hmem)]
      by_contra hc
      exact hmem ((hw'.mem p).2 hc)
  refine ⟨fun p _ hp => hgone p hp, fun p hp => ?_⟩
  by_cases hstay : Stays excluded tree p
  · rw [h.left p (.inr ((stays_congr hsame p).2 hstay))]
    cases hc : covers excluded p with
    | true => exact hsame p hc
    | false =>
      obtain ⟨q, hpq, hq, hcq⟩ := hstay
      have hne : p ≠ q := by
        rintro rfl
        rw [hc] at hcq
        cases hcq
      by_cases hroot : p = []
      · rw [hroot, hlater.root, hclosed.root]
      · rw [hclosed.parent p q hpq hne hroot hq, hlater.parent p q hpq hne hroot (hsame q hcq ▸ hq)]
  · rw [hgone p hstay]
    rcases hp with hp | hp
    · by_contra hc
      exact hp ((hw.mem p).2 (Ne.symm hc))
    · exact absurd hp hstay

theorem Kept.leaf {backup now : Files γ} (hclosed : Closed tree)
    (hc : Cleared excluded tree done now) (hk : Kept excluded tree done backup)
    (hp : backup.get? p = some node) (hne : node ≠ .dir) : tree.get? p = some node ∧ now.get? p = none := by
  obtain ⟨hmem, hm⟩ := hk.leaves p node hp hne
  exact ⟨hm.1, hc.gone p hmem (not_stays_leaf hclosed hm.1 hm.2.1 hm.2.2)⟩

theorem Kept.fits {backup now : Files γ} (hclosed : Closed tree)
    (hc : Cleared excluded tree done now) (hk : Kept excluded tree done backup) : Fits backup now := by
  intro p node hp
  by_cases hne : node = .dir
  · subst hne
    rcases hc.get? p with hn | hn
    · exact .inl hn
    · exact .inr ⟨rfl, hn.trans (hk.exists hclosed hp)⟩
  · exact .inl (hk.leaf hclosed hc hp hne).2

theorem restore_iff {visits done : List Path} {backup now : Files γ} (hclosed : Closed tree)
    (hw : WalkOrder tree visits) (hdone : done <+: visits) (hc : Cleared excluded tree done now)
    (hk : Kept excluded tree done backup) : ∃ files, Tree.copytree backup now = .ok files ∧
      ((∀ p, files.get? p = tree.get? p) ↔ ∀ p ∈ done, ¬ Hollow excluded tree p) := by
  obtain ⟨todo, hv⟩ := hdone
  obtain ⟨files, hcopy, hview⟩ := copytree_ok hk.distinct (hk.fits hclosed hc)
  refine ⟨files, hcopy, ?_⟩
  have hhollow : ∀ p, Hollow excluded tree p → ¬ Stays excluded tree p ∧ backup.get? p = none := by
    intro p hp
    refine ⟨fun ⟨q, hpq, hq, hcq⟩ => ?_, ?_⟩
    · have := (hp.2 q hpq hq).2
      rw [hcq] at this
      cases this
    · by_contra hne
      obtain ⟨node, hnode⟩ := Option.ne_none_iff_exists'.1 hne
      by_cases hd : node = .dir
      · subst hd
        obtain ⟨-, q, n, hpq, -, hm⟩ := hk.dirs p hnode
        have := (hp.2 q hpq (by rw [hm.1]; simp)).1
        rw [hm.1] at this
        exact hm.2.1 (Option.some.inj this)
      · have := (hk.leaf hclosed hc hnode hd).1
        rw [hp.1] at this
        exact hd (Option.some.inj this).symm
  constructor
  · intro h p hp hhol
    obtain ⟨hstay, hback⟩ := hhollow p hhol
    have := h p
    rw [hview, hback, hc.gone p hp hstay, hhol.1] at this
    cases this
  · intro h p
    rw [hview]
    cases hb : backup.get? p with
    | some node =>
      by_cases hne : node = .dir
      · subst hne
        simp [hk.exists hclosed hb]
      · simp [(hk.leaf hclosed hc hb hne).1]
    | none =>
      rw [Option.none_or]
      by_cases hp : p ∈ done ∧ ¬ Stays excluded tree p
      · obtain ⟨hmem, hstay⟩ := hp
        have hexists : tree.get? p ≠ none := (hw.mem p).1 (hv ▸ List.mem_append_left _ hmem)
        have hroot : p ≠ [] := by
          rintro rfl
          exact hexists hclosed.root
        have hcov : ∀ q, p <+: q → tree.get? q ≠ none → covers excluded q = false := by
          intro q hpq hq
          rw [← Bool.not_eq_true]
          exact fun hcq => hstay ⟨q, hpq, hq, hcq⟩
        -- a file or a link at or below `p` would have brought `p` into the backup
        have hdirs : ∀ q, p <+: q → tree.get? q ≠ none → tree.get? q = some .dir := by
          intro q hpq hq
          obtain ⟨node, hnode⟩ := Option.ne_none_iff_exists'.1 hq
          by_contra hne
          have hm : Movable excluded tree q node := ⟨hnode, fun hd => hne (hd ▸ hnode), hcov q hpq hq⟩
          have hqd := below_done hw hv.symm hmem hpq hq
          by_cases hpq' : p = q
          · subst hpq'
            rw [hk.moved p hqd node hm] at hb
            cases hb
          · rw [hk.parents q hqd node hm p hpq hpq' hroot] at hb
            cases hb
        exact absurd ⟨hdirs p (List.prefix_refl p) hexists, fun q hpq hq => ⟨hdirs q hpq hq, hcov q hpq hq⟩⟩
          (h p hmem)
      · exact hc.left p (by tauto)

end Dumb.Install.Clear
