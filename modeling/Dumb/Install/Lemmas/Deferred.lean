import Dumb.Install.Deferred
import Dumb.Install.Lemmas.Clear

/-!
# Deferred clears in one tree

One specification each of a capture, of a capture that fails and is rolled back, and of a rollback after a complete
one.
-/

namespace Dumb.Install

open Py Tree

variable {γ : Type}

/-! ## Closed trees -/

namespace Clear

variable {excluded : List Path} {tree : Files γ}

variable {now : Files γ}

theorem Cleared.closed {visits done todo : List Path} (hclosed : Closed tree)
    (hw : WalkOrder tree visits) (hv : visits = done ++ todo) (h : Cleared excluded tree done now)
    (hn : (Dict.keys now).Nodup) : Closed now := by
  have htree : ∀ {q}, now.get? q ≠ none → tree.get? q ≠ none := by
    intro q hq
    rcases h.get? q with h' | h'
    · exact absurd h' hq
    · rwa [h'] at hq
  refine ⟨hn, ?_, fun p q hpre hne hp hq => ?_⟩
  · by_contra hc
    exact htree hc hclosed.root
  · rw [← hclosed.parent p q hpre hne hp (htree hq)]
    apply h.left
    by_contra hc
    simp only [not_or, not_not] at hc
    have hqd := below_done hw hv hc.1 hpre (htree hq)
    exact hq (h.gone q hqd fun hs => hc.2 (hs.of_below hpre))

theorem nodup_clearVisit (h : (Dict.keys now).Nodup) (p : Path) :
    (Dict.keys (clearVisit excluded now p)).Nodup := by
  unfold clearVisit rmdir
  split
  · exact h
  · split
    · split
      · exact Dict.nodup_keys_erase h
      · exact h
    · exact Dict.nodup_keys_erase h
    · exact h

theorem nodup_clearVisits (excluded : List Path) (visits : List Path) (h : (Dict.keys now).Nodup) :
    (Dict.keys (visits.foldl (clearVisit excluded) now)).Nodup := by
  induction visits generalizing now with
  | nil => exact h
  | cons p visits ih => exact ih (nodup_clearVisit h p)

theorem nodup_captureVisits (excluded : List Path) (fails : Path → Bool) : ∀ (visits : List Path) (s : Clear γ),
    (Dict.keys s.target).Nodup → (Dict.keys (captureVisits excluded fails visits s).target).Nodup
  | [], _, h => h
  | p :: visits, s, h => by
    unfold captureVisits
    split
    · exact nodup_captureVisits excluded fails visits s h
    · split
      · apply nodup_captureVisits excluded fails visits
        unfold rmdir
        split
        · exact Dict.nodup_keys_erase h
        · exact h
      · split
        · exact h
        · exact nodup_captureVisits excluded fails visits _ (Dict.nodup_keys_erase h)
      · exact nodup_captureVisits excluded fails visits s h

theorem Kept.closed {done : List Path} {backup : Files γ} (hclosed : Closed tree)
    (h : Kept excluded tree done backup) (hall : ∀ p node, Movable excluded tree p node → p ∈ done) :
    Closed backup := by
  refine ⟨h.distinct, ?_, fun p q hpre hne hp hq => ?_⟩
  · by_contra hc
    obtain ⟨node, hnode⟩ := Option.ne_none_iff_exists'.1 hc
    by_cases hd : node = .dir
    · exact (h.dirs [] (hd ▸ hnode)).1 rfl
    · obtain ⟨-, hm, -, -⟩ := h.leaves [] node hnode hd
      rw [hclosed.root] at hm
      cases hm
  · -- a directory of the backup has a moved file below it, and the directories above that are there
    have hmoved : ∃ r node, q <+: r ∧ Movable excluded tree r node := by
      obtain ⟨node, hnode⟩ := Option.ne_none_iff_exists'.1 hq
      by_cases hd : node = .dir
      · obtain ⟨-, r, n, hqr, -, hm⟩ := h.dirs q (hd ▸ hnode)
        exact ⟨r, n, hqr, hm⟩
      · exact ⟨q, node, List.prefix_refl q, (h.leaves q node hnode hd).2⟩
    obtain ⟨r, node, hqr, hm⟩ := hmoved
    apply h.parents r (hall r node hm) node hm p (hpre.trans hqr) _ hp
    rintro rfl
    exact hne (hpre.eq_of_length (Nat.le_antisymm hpre.length_le hqr.length_le))

end Clear

namespace Deferred

/-! ## Copying -/

theorem copy2_eq {dst : Files γ} {p : Path} {n : Node γ}
    (h : dst.get? p = none ∨ (n = .dir ∧ dst.get? p = some .dir)) : copy2 dst (p, n) = copyEntry dst (p, n) := by
  rcases h with hd | ⟨rfl, hd⟩
  · cases n <;> simp [copy2, hd]
  · simp [copy2]

theorem copyEntries_cons (raises : Path → Bool) (e : Path × Node γ) (src : Files γ) (s : List Path × Files γ) :
    copyEntries raises (e :: src) s = copyEntries raises src
      (if s.1.any (·.isPrefixOf e.1) then s
        else if raises e.1 then (e.1 :: s.1, s.2)
        else match copy2 s.2 e with
          | .ok fs => (s.1, fs)
          | .error _ => (e.1 :: s.1, s.2)) := rfl

theorem copyEntries_failed {raises : Path → Bool} : ∀ (src : Files γ) {s : List Path × Files γ},
    (copyEntries raises src s).1 = [] → s.1 = []
  | [], _, h => h
  | e :: src, s, h => by
    rw [copyEntries_cons] at h
    have := copyEntries_failed src h
    split at this
    · exact this
    · split at this
      · cases this
      · split at this
        · exact this
        · cases this

theorem copyEntries_ok {raises : Path → Bool} : ∀ {src dst : Files γ}, (Dict.keys src).Nodup → Fits src dst →
    (copyEntries raises src ([], dst)).1 = [] → (Dict.keys dst).Nodup →
    (Dict.keys (copyEntries raises src ([], dst)).2).Nodup ∧
      ∀ p, (copyEntries raises src ([], dst)).2.get? p = (Dict.get? p src).or (dst.get? p)
  | [], dst, _, _, _, hd => ⟨hd, by simp [copyEntries]⟩
  | (p, n) :: src, dst, hn, hf, hok, hd => by
    obtain ⟨hp, hn'⟩ := List.nodup_cons.1 hn
    have hsrc : Dict.get? p src = none := by
      by_contra hc
      exact hp (Dict.mem_keys.2 hc)
    have hentry := hf p n (by simp [Dict.get?])
    obtain ⟨fs₁, h₁, hp₁, hq₁, hn₁⟩ := copyEntry_ok hentry
    rw [copyEntries_cons, copy2_eq hentry, h₁] at hok ⊢
    by_cases hr : raises p = true
    · simp only [List.any_nil, Bool.false_eq_true, ↓reduceIte, hr] at hok
      exact absurd (copyEntries_failed src hok) (by simp)
    · simp only [List.any_nil, Bool.false_eq_true, ↓reduceIte, hr] at hok ⊢
      obtain ⟨hnodup, hview⟩ := copyEntries_ok hn' (hf.tail hsrc hq₁) hok (hn₁ hd)
      refine ⟨hnodup, fun q => ?_⟩
      rw [hview]
      by_cases hq : q = p
      · subst hq
        simp [Dict.get?, hsrc, hp₁]
      · simp [Dict.get?, Ne.symm hq, hq₁ q hq]

/-! ## The two directories -/

variable {t : Transaction}

theorem backup_apart (h : t.target ≠ []) : ¬ t.backup <+: t.target ∧ ¬ t.target <+: t.backup := by
  have hlast := List.dropLast_append_getLast h
  have hne : t.backup ≠ t.target := by
    intro heq
    rw [← hlast] at heq
    have hname := List.append_cancel_left heq
    rw [List.getLastD_eq_getLast?, List.getLast?_eq_some_getLast h] at hname
    have hlen := congrArg String.length (List.cons.inj hname).1
    simp only [Option.getD_some, String.length_append] at hlen
    have hdot : ".".length = 1 := rfl
    omega
  have hlen : t.backup.length = t.target.length := by
    rw [Transaction.backup, ← hlast]
    simp
  constructor
  · exact fun hpre => hne (hpre.eq_of_length hlen)
  · exact fun hpre => hne (hpre.eq_of_length hlen.symm).symm

theorem not_backup_of_below (h : t.target ≠ []) {q : Path} (hq : Below t.target q) : ¬ t.backup <+: q := by
  intro hb
  rcases List.prefix_or_prefix_of_prefix hb hq.1 with hpre | hpre
  · exact (backup_apart h).1 hpre
  · exact (backup_apart h).2 hpre

theorem concerns_append {r : Path} : t.Concerns (t.target ++ r) ↔ r ≠ [] ∧ covers t.excluded r = false := by
  simp [Transaction.Concerns, below_append]

/-! ## A capture -/

structure Moved (t : Transaction) (fs fs' : Files γ) : Prop where
  closed : Closed fs'
  root : fs.get? t.target = some .dir
  fresh : fs.get? t.backup = none
  kept : ∀ q, ¬ t.Concerns q → ¬ t.backup <+: q → fs'.get? q = fs.get? q
  gone : ∀ q, ¬ t.backup <+: q → fs'.get? q = none ∨ fs'.get? q = fs.get? q
  moved : ∀ r, t.Concerns (t.target ++ r) → leaf fs' (t.backup ++ r) = leaf fs (t.target ++ r)
  held : ∀ r node, r ≠ [] → fs'.get? (t.backup ++ r) = some node →
    t.Concerns (t.target ++ r) ∧ fs.get? (t.target ++ r) = some node

section
variable {fs : Files γ} {calls : CaptureCalls γ}

theorem target_ne (hclosed : Closed fs) (h : fs.get? t.target = some .dir) : t.target ≠ [] := by
  intro heq
  rw [heq, hclosed.root] at h
  cases h

theorem closed_backup (hclosed : Closed fs) (hroot : fs.get? t.target = some .dir) (hnew : fs.get? t.backup = none) :
    Closed (fs.set t.backup .dir) := by
  have hne := target_ne hclosed hroot
  apply hclosed.set
  · simp [Transaction.backup]
  · intro q hq hq'
    have hpre : q <+: t.target.dropLast := by
      have h := (Clear.prefix_dropLast (p := t.backup) (by simp [Transaction.backup])).2 ⟨hq.1, hq.2⟩
      simpa [Transaction.backup] using h
    obtain ⟨hqt, hqt'⟩ := (Clear.prefix_dropLast hne).1 hpre
    exact hclosed.parent q t.target hqt hqt' hq' (by simp [hroot])
  · simp [hnew]

theorem nothing_below (hclosed : Closed fs) {p q : Path} (hp : fs.get? p = none) (hp' : p ≠ []) (hpq : p <+: q) :
    fs.get? q = none := by
  by_contra hq
  by_cases heq : p = q
  · exact hq (heq ▸ hp)
  · have := hclosed.parent p q hpq heq hp' hq
    rw [hp] at this
    cases this

theorem backup_ne_nil : t.backup ≠ [] := by simp [Transaction.backup]

theorem capture_view (fs : Files γ) (hroot : t.target ≠ []) {now backup : Files γ} (hnow : now.get? [] = none)
    (hbackup : backup.get? [] = none) :
    let fs' := graft t.backup backup (graft t.target now (fs.set t.backup .dir))
    (∀ r, r ≠ [] → fs'.get? (t.target ++ r) = now.get? r) ∧
      (∀ r, r ≠ [] → fs'.get? (t.backup ++ r) = backup.get? r) ∧
      (∀ q, ¬ Below t.target q → ¬ t.backup <+: q → fs'.get? q = fs.get? q) ∧
      fs'.get? t.backup = some .dir := by
  refine ⟨fun r hr => ?_, fun r hr => get?_graft_below hr .., fun q hq hq' => ?_, ?_⟩
  · have hb : ¬ Below t.backup (t.target ++ r) := fun hb =>
      not_backup_of_below hroot (below_append.2 hr) hb.1
    rw [get?_graft_else hbackup hb, get?_graft_below hr]
  · have hb : ¬ Below t.backup q := fun hb => hq' hb.1
    have hqb : q ≠ t.backup := fun heq => hq' (heq ▸ List.prefix_refl q)
    rw [get?_graft_else hbackup hb, get?_graft_else hnow hq, Dict.get?_set_ne hqb]
  · have hb : ¬ Below t.target t.backup := fun hb => (backup_apart hroot).2 hb.1
    rw [get?_graft_else hbackup (not_below_self _), get?_graft_else hnow hb, Dict.get?_set_self]

/-- A capture that has begun has handled a first part of its walk, and all of it if it succeeds. -/
structure Begun (t : Transaction) (fs : Files γ) (ok : Bool) (visits done : List Path) (s : Clear γ) : Prop where
  root : fs.get? t.target = some .dir
  fresh : fs.get? t.backup = none
  walk : WalkOrder (under t.target fs) visits
  first : done <+: visits
  complete : ok = true → done = visits
  cleared : Clear.Cleared t.excluded (under t.target fs) done s.target
  kept : Clear.Kept t.excluded (under t.target fs) done s.backup
  distinct : (Dict.keys s.target).Nodup

theorem capture_cases {ok : Bool} {t' : Transaction} {fs' : Files γ} (hclosed : Closed fs)
    (h : capture calls t fs = (ok, t', fs')) :
    (ok = false ∧ t' = t ∧ fs' = fs) ∨
      ∃ visits done s, Begun t fs ok visits done s ∧ t' = { t with captured := true, captureComplete := ok } ∧
        fs' = graft t.backup s.backup (graft t.target s.target (fs.set t.backup .dir)) := by
  unfold capture at h
  split at h
  · cases h
    exact .inl ⟨rfl, rfl, rfl⟩
  rename_i hroot
  split at h
  · cases h
    exact .inl ⟨rfl, rfl, rfl⟩
  rename_i hfree
  simp only [Bool.not_eq_true', Bool.not_eq_false, isDir_iff] at hroot
  simp only [Bool.or_eq_true, not_or, Option.isSome_iff_ne_none, ne_eq, not_not] at hfree
  dsimp only at h
  have htree := hclosed.under t.target
  have hw := calls.walk.bottomUp _ htree
  have hs := @Clear.capture_captured _ t.excluded _ _ calls.renameRaises htree hw
  have hnodup := Clear.nodup_captureVisits t.excluded calls.renameRaises (calls.walk.order (under t.target fs))
    { target := under t.target fs, backup := [], captured := true, captureComplete := false } htree.distinct
  cases h
  exact .inr ⟨_, _, _, ⟨hroot, hfree.2, hw, List.takeWhile_prefix _, hs.complete, hs.cleared, hs.kept, hnodup⟩, rfl, rfl⟩

theorem Begun.target_ne {ok : Bool} {visits done : List Path} {s : Clear γ} (hclosed : Closed fs)
    (h : Begun t fs ok visits done s) : t.target ≠ [] := Deferred.target_ne hclosed h.root

theorem Begun.closed_target {ok : Bool} {visits done : List Path} {s : Clear γ} (hclosed : Closed fs)
    (h : Begun t fs ok visits done s) : Closed s.target := by
  obtain ⟨todo, hv⟩ := h.first
  exact h.cleared.closed (hclosed.under t.target) h.walk hv.symm h.distinct

theorem capture_ok {t' : Transaction} {fs' : Files γ} (hclosed : Closed fs) (h : capture calls t fs = (true, t', fs')) :
    t' = { t with captured := true, captureComplete := true } ∧ Moved t fs fs' := by
  rcases capture_cases hclosed h with ⟨hok, -⟩ | ⟨visits, done, s, hs, rfl, rfl⟩
  · cases hok
  have htree := hclosed.under t.target
  have hne := hs.target_ne hclosed
  have hall : ∀ p node, Clear.Movable t.excluded (under t.target fs) p node → p ∈ done := fun p node hm =>
    hs.complete rfl ▸ (hs.walk.mem p).2 (by simp [hm.1])
  have hnow := hs.closed_target hclosed
  have hbackup := hs.kept.closed htree hall
  obtain ⟨hvt, hvb, hvo, hvr⟩ := capture_view fs hne hnow.root hbackup.root
  refine ⟨rfl, ⟨?_, hs.root, hs.fresh, fun q hq hq' => ?_, fun q hq => ?_, fun r hr => ?_, fun r node hr hnode => ?_⟩⟩
  · have hnb : t.target ≠ t.backup := fun heq => (backup_apart hne).1 (heq ▸ List.prefix_refl _)
    have hset := closed_backup hclosed hs.root hs.fresh
    have hinner := hset.graft hnow (.inl (by rw [Dict.get?_set_ne hnb, hs.root]))
    apply hinner.graft hbackup (.inl _)
    rw [get?_graft_else hnow.root fun hb => (backup_apart hne).2 hb.1, Dict.get?_set_self]
  · by_cases hb : Below t.target q
    · obtain ⟨r, hr, rfl⟩ := hb.exists
      rw [hvt r hr]
      have hcov : covers t.excluded r = true := by
        by_contra hc
        exact hq (concerns_append.2 ⟨hr, by simpa using hc⟩)
      have hsame : s.target.get? r = (under t.target fs).get? r := by
        by_cases hex : (under t.target fs).get? r = none
        · rcases hs.cleared.get? r with h' | h'
          · rw [h', hex]
          · exact h'
        · exact hs.cleared.left r (.inr (Clear.stays_self hex hcov))
      rw [hsame, get?_under, if_neg hr]
    · exact hvo q hb hq'
  · by_cases hb : Below t.target q
    · obtain ⟨r, hr, rfl⟩ := hb.exists
      rw [hvt r hr]
      simpa [hr] using hs.cleared.get? r
    · exact .inr (hvo q hb hq)
  · obtain ⟨hr, hcov⟩ := concerns_append.1 hr
    have hget : (under t.target fs).get? r = fs.get? (t.target ++ r) := by simp [hr]
    rw [← leaf_congr hget, leaf_congr (hvb r hr)]
    cases hleaf : leaf (under t.target fs) r with
    | some node =>
      obtain ⟨hnode, hnd⟩ := leaf_eq_some.1 hleaf
      exact leaf_eq_some.2 ⟨hs.kept.moved r (hall r node ⟨hnode, hnd, hcov⟩) node ⟨hnode, hnd, hcov⟩, hnd⟩
    | none =>
      by_contra hc
      obtain ⟨node, hnode⟩ := Option.ne_none_iff_exists'.1 hc
      obtain ⟨hnode, hnd⟩ := leaf_eq_some.1 hnode
      rw [leaf_eq_some.2 ⟨hs.kept.exists htree hnode, hnd⟩] at hleaf
      cases hleaf
  · rw [hvb r hr] at hnode
    have hget := hs.kept.exists htree hnode
    rw [get?_under, if_neg hr] at hget
    refine ⟨concerns_append.2 ⟨hr, ?_⟩, hget⟩
    by_cases hd : node = .dir
    · obtain ⟨-, q, n, hrq, -, hm⟩ := hs.kept.dirs r (hd ▸ hnode)
      by_contra hc
      have hcov := covers_mono hrq (by simpa using hc)
      rw [hm.2.2] at hcov
      cases hcov
    · exact (hs.kept.leaves r node hnode hd).2.2.2

end

/-! ## Copying a backup over its target -/

theorem closed_or {src dst fs : Files γ} (hsrc : Closed src) (hdst : Closed dst) (hf : Fits src dst)
    (hn : (Dict.keys fs).Nodup) (h : ∀ p, fs.get? p = (src.get? p).or (dst.get? p)) : Closed fs := by
  refine ⟨hn, by simp [h, hsrc.root, hdst.root], fun p q hpre hne hp hq => ?_⟩
  rw [h] at hq ⊢
  by_cases hs : src.get? q = none
  · have hd : dst.get? q ≠ none := by simpa [hs] using hq
    have hdir := hdst.parent p q hpre hne hp hd
    cases hsp : src.get? p with
    | none => simp [hdir]
    | some node =>
      rcases hf p node hsp with hnone | ⟨rfl, -⟩
      · rw [hdir] at hnone
        cases hnone
      · simp
  · simp [hsrc.parent p q hpre hne hp hs]

section
variable {fs fs' : Files γ} {calls : RollbackCalls γ}

theorem copyBack_ok (hn : (Dict.keys fs).Nodup) (hne : t.target ≠ [])
    (hf : Fits (under t.backup fs) (under t.target fs)) (h : copyBack calls t fs = (true, fs')) :
    (∀ p, p <+: t.target → leaf fs p = none) ∧
      ∃ tree, fs' = graft t.target tree (mkdirs t.target fs) ∧ (Dict.keys tree).Nodup ∧
        ∀ r, tree.get? r = ((under t.backup fs).get? r).or ((under t.target fs).get? r) := by
  unfold copyBack at h
  split at h
  · cases h
  split at h
  · cases h
  rename_i hfree
  dsimp only at h
  have hleaf : ∀ p, p <+: t.target → leaf fs p = none := by
    intro p hp
    by_contra hc
    apply hfree
    rw [List.any_eq_true]
    exact ⟨p, (List.mem_inits _ _).2 hp, Option.isSome_iff_ne_none.2 hc⟩
  have hb : ∀ r, (under t.backup (mkdirs t.target fs)).get? r = (under t.backup fs).get? r := by
    intro r
    have hpre : ¬ t.backup ++ r <+: t.target := fun hpre =>
      (backup_apart hne).1 ((List.prefix_append _ r).trans hpre)
    simp [get?_mkdirs, hpre]
  have ht : ∀ r, (under t.target (mkdirs t.target fs)).get? r = (under t.target fs).get? r := by
    intro r
    by_cases hr : r = []
    · simp [hr]
    · have hpre : ¬ t.target ++ r <+: t.target := (below_append.2 hr).not_above
      simp [get?_mkdirs, hpre]
  have hf' : Fits (under t.backup (mkdirs t.target fs)) (under t.target (mkdirs t.target fs)) := by
    intro p n hp
    rw [hb] at hp
    rw [ht]
    exact hf p n hp
  have hn' := nodup_mkdirs (p := t.target) hn
  simp only [Prod.mk.injEq] at h
  obtain ⟨hok, rfl⟩ := h
  obtain ⟨hnodup, hview⟩ := copyEntries_ok (nodup_under hn' _) hf' (List.isEmpty_iff.1 hok) (nodup_under hn' _)
  refine ⟨hleaf, _, rfl, hnodup, fun r => ?_⟩
  rw [hview, hb, ht]

theorem restored_view (fs : Files γ) (hne : t.target ≠ []) {tree : Files γ} (htree : tree.get? [] = none)
    (hleaf : ∀ p, p <+: t.target → leaf fs p = none) :
    let fs' := Tree.rmtree t.backup (graft t.target tree (mkdirs t.target fs))
    (∀ q, t.backup <+: q → fs'.get? q = none) ∧ (∀ r, r ≠ [] → fs'.get? (t.target ++ r) = tree.get? r) ∧
      (∀ q, ¬ Below t.target q → ¬ t.backup <+: q → leaf fs' q = leaf fs q) ∧
      (∀ q, ¬ Below t.target q → fs'.get? q ≠ none → fs.get? q ≠ none ∨ (q <+: t.target ∧ q ≠ [])) := by
  dsimp only
  refine ⟨fun q hq => by rw [get?_rmtree, if_pos hq], fun r hr => ?_, fun q hq hq' => ?_, fun q hq h => ?_⟩
  · rw [get?_rmtree, if_neg (not_backup_of_below hne (below_append.2 hr)), get?_graft_below hr]
  · by_cases hpre : q <+: t.target
    · rw [hleaf q hpre, leaf_eq_none, get?_rmtree, if_neg hq', get?_graft_else htree hq, get?_mkdirs]
      have := leaf_eq_none.1 (hleaf q hpre)
      split
      · exact .inr rfl
      · exact this
    · apply leaf_congr
      rw [get?_rmtree, if_neg hq', get?_graft_else htree hq, get?_mkdirs]
      simp [hpre]
  · rw [get?_rmtree] at h
    split at h
    · exact absurd rfl h
    · rw [get?_graft_else htree hq, get?_mkdirs] at h
      split at h
      · rename_i hnew
        exact .inr ⟨hnew.2.2, hnew.2.1⟩
      · exact .inl h

theorem closed_restored (hclosed : Closed fs) (hne : t.target ≠ []) {tree : Files γ} (htree : Closed tree)
    (hleaf : ∀ p, p <+: t.target → leaf fs p = none) :
    Closed (Tree.rmtree t.backup (graft t.target tree (mkdirs t.target fs))) := by
  apply Closed.rmtree
  apply (hclosed.mkdirs hleaf).graft htree
  left
  rw [get?_mkdirs]
  rcases leaf_eq_none.1 (hleaf t.target (List.prefix_refl _)) with h | h <;> simp [h, hne]

/-! ## A rollback -/

theorem rollback_ok {t' : Transaction} (hcaptured : t.captured = true) (h : rollback calls t fs = (true, t', fs')) :
    t' = { t with captured := false, captureComplete := false } ∧ ∃ fs₁ fs₂,
      (if t.captureComplete then clearTarget calls t fs else (true, fs)) = (true, fs₁) ∧
        copyBack calls t fs₁ = (true, fs₂) ∧ fs' = Tree.rmtree t.backup fs₂ := by
  rw [rollback, hcaptured] at h
  simp only [Bool.not_true, Bool.false_eq_true, ↓reduceIte] at h
  cases hclear : (if t.captureComplete = true then clearTarget calls t fs else (true, fs)) with
  | mk cleared fs₁ =>
    rw [hclear] at h
    cases cleared with
    | false => cases h
    | true =>
      cases hcopy : copyBack calls t fs₁ with
      | mk copied fs₂ =>
        simp only [hcopy] at h
        cases copied with
        | false => cases h
        | true =>
          unfold removeBackup at h
          cases hleft : calls.rmtreeLeaves with
          | some left =>
            rw [hleft] at h
            cases h
          | none =>
            rw [hleft] at h
            simp only [Bool.not_true, Bool.false_eq_true, ↓reduceIte, Prod.mk.injEq, true_and] at h
            exact ⟨h.1.symm, fs₁, fs₂, rfl, hcopy, h.2.symm⟩

structure Unharmed (fs fs' : Files γ) : Prop where
  closed : Closed fs'
  leaf : ∀ p, Tree.leaf fs' p = Tree.leaf fs p
  old : ∀ p, fs'.get? p ≠ none → fs.get? p ≠ none

theorem unharmed_refl (hclosed : Closed fs) : Unharmed fs fs := ⟨hclosed, fun _ => rfl, fun _ => id⟩

theorem unharmed_walk {excluded : List Path} {tree now backup files : Files γ} {visits done : List Path}
    (hclosed : Closed tree) (hw : WalkOrder tree visits) (hdone : done <+: visits)
    (hc : Clear.Cleared excluded tree done now) (hk : Clear.Kept excluded tree done backup)
    (hn : (Dict.keys files).Nodup) (h : ∀ p, files.get? p = (backup.get? p).or (now.get? p)) : Unharmed tree files := by
  obtain ⟨todo, hv⟩ := hdone
  have hold : ∀ p node, files.get? p = some node → tree.get? p = some node := by
    intro p node hp
    rw [h] at hp
    cases hb : backup.get? p with
    | some n =>
      rw [hb] at hp
      exact (Option.some.inj hp) ▸ hk.exists hclosed hb
    | none =>
      rw [hb, Option.none_or] at hp
      rcases hc.get? p with h' | h'
      · rw [h'] at hp
        cases hp
      · rw [← h', hp]
  have hleaf : ∀ p node, tree.get? p = some node → node ≠ .dir → files.get? p = some node := by
    intro p node hp hd
    rw [h]
    cases hb : backup.get? p with
    | some n =>
      rw [hk.exists hclosed hb] at hp
      simpa using hp
    | none =>
      rw [Option.none_or]
      by_cases hgone : p ∈ done ∧ ¬ Clear.Stays excluded tree p
      · have hcov : covers excluded p = false := by
          by_contra hcov
          exact hgone.2 (Clear.stays_self (by simp [hp]) (by simpa using hcov))
        rw [hk.moved p hgone.1 node ⟨hp, hd, hcov⟩] at hb
        cases hb
      · rw [hc.left p (by tauto), hp]
  refine ⟨⟨hn, ?_, fun p q hpre hne hp hq => ?_⟩, fun p => ?_, fun p hp => ?_⟩
  · by_contra hc
    obtain ⟨node, hnode⟩ := Option.ne_none_iff_exists'.1 hc
    have hroot := hold [] node hnode
    rw [hclosed.root] at hroot
    cases hroot
  · obtain ⟨node, hnode⟩ := Option.ne_none_iff_exists'.1 hq
    have hdir := hclosed.parent p q hpre hne hp (by simp [hold q node hnode])
    by_contra hcon
    -- `p` is gone, so everything below it has been visited, and what was moved from there has `p` in the backup
    have hnone : files.get? p = none := by
      by_contra hsome
      obtain ⟨n, hn'⟩ := Option.ne_none_iff_exists'.1 hsome
      exact hcon (hn'.trans ((hold p n hn').symm.trans hdir))
    rw [h] at hnone
    have hback : backup.get? p = none := by
      cases hb : backup.get? p <;> simp [hb] at hnone ⊢
    rw [hback, Option.none_or] at hnone
    have hgone : p ∈ done ∧ ¬ Clear.Stays excluded tree p := by
      by_contra hng
      rw [hc.left p (by tauto), hdir] at hnone
      cases hnone
    have hmoved : ∃ r n, q <+: r ∧ Clear.Movable excluded tree r n := by
      rw [h] at hnode
      have hqd := Clear.below_done hw hv.symm hgone.1 hpre (by simp [hold q node (by rw [h, hnode])])
      cases hb : backup.get? q with
      | some n =>
        by_cases hd : n = .dir
        · obtain ⟨-, r, m, hqr, -, hm⟩ := hk.dirs q (hd ▸ hb)
          exact ⟨r, m, hqr, hm⟩
        · exact ⟨q, n, List.prefix_refl q, (hk.leaves q n hb hd).2⟩
      | none =>
        rw [hb, Option.none_or, hc.gone q hqd fun hs => hgone.2 (hs.of_below hpre)] at hnode
        cases hnode
    obtain ⟨r, n, hqr, hm⟩ := hmoved
    have hpr : p ≠ r := by
      rintro rfl
      exact hne (hpre.eq_of_length (Nat.le_antisymm hpre.length_le hqr.length_le))
    have hrd := Clear.below_done hw hv.symm hgone.1 (hpre.trans hqr) (by simp [hm.1])
    rw [hk.parents r hrd n hm p (hpre.trans hqr) hpr hp] at hback
    cases hback
  · cases hl : leaf tree p with
    | some node =>
      obtain ⟨hp, hd⟩ := leaf_eq_some.1 hl
      exact leaf_eq_some.2 ⟨hleaf p node hp hd, hd⟩
    | none =>
      by_contra hcon
      obtain ⟨node, hnode⟩ := Option.ne_none_iff_exists'.1 hcon
      obtain ⟨hp, hd⟩ := leaf_eq_some.1 hnode
      rw [leaf_eq_some.2 ⟨hold p node hp, hd⟩] at hl
      cases hl
  · obtain ⟨node, hnode⟩ := Option.ne_none_iff_exists'.1 hp
    simp [hold p node hnode]

theorem abort_unharmed {captureCalls : CaptureCalls γ} {t' t'' : Transaction} {fs'' : Files γ} (hclosed : Closed fs)
    (hfirst : t.captured = false) (hcap : capture captureCalls t fs = (false, t', fs'))
    (h : rollback calls t' fs' = (true, t'', fs'')) : Unharmed fs fs'' := by
  rcases capture_cases hclosed hcap with ⟨-, rfl, rfl⟩ | ⟨visits, done, s, hs, rfl, rfl⟩
  · simp only [rollback, hfirst, Bool.not_false, ↓reduceIte, Prod.mk.injEq, true_and] at h
    exact h.2 ▸ unharmed_refl hclosed
  have htree := hclosed.under t.target
  have hne := hs.target_ne hclosed
  have hnow := (hs.closed_target hclosed).root
  have hbackup : s.backup.get? [] = none := by
    by_contra hc
    obtain ⟨node, hnode⟩ := Option.ne_none_iff_exists'.1 hc
    simpa using hs.kept.exists htree hnode
  obtain ⟨hvt, hvb, hvo, -⟩ := capture_view fs hne hnow hbackup
  have hdistinct : (Dict.keys (graft t.backup s.backup (graft t.target s.target (fs.set t.backup .dir)))).Nodup :=
    nodup_graft (nodup_graft (Dict.nodup_keys_set hclosed.distinct) hs.distinct hnow) hs.kept.distinct hbackup
  generalize graft t.backup s.backup (graft t.target s.target (fs.set t.backup .dir)) = fs' at hvt hvb hvo hdistinct h
  obtain ⟨-, fs₁, fs₂, hclear, hcopy, rfl⟩ := rollback_ok rfl h
  simp only [Bool.false_eq_true, ↓reduceIte, Prod.mk.injEq, true_and] at hclear
  subst hclear
  have hb : ∀ r, (under t.backup fs').get? r = s.backup.get? r := by
    intro r
    by_cases hr : r = []
    · simp [hr, hbackup]
    · simp [hr, hvb r hr]
  have ht : ∀ r, (under t.target fs').get? r = s.target.get? r := by
    intro r
    by_cases hr : r = []
    · simp [hr, hnow]
    · simp [hr, hvt r hr]
  have hf : Fits (under t.backup fs') (under t.target fs') := by
    intro p n hp
    rw [hb] at hp
    rw [ht]
    exact hs.kept.fits htree hs.cleared p n hp
  obtain ⟨hleaf, tree, rfl, hn, hview⟩ := copyBack_ok hdistinct hne hf hcopy
  have hun := unharmed_walk htree hs.walk hs.first hs.cleared hs.kept hn fun p => by rw [hview, hb, ht]
  -- but for the tree below the target, everything is where it was
  have heq : ∀ q, (Tree.rmtree t.backup (graft t.target tree (mkdirs t.target fs'))).get? q =
      (graft t.target tree fs).get? q := by
    intro q
    by_cases hbq : t.backup <+: q
    · have hbt : ¬ Below t.target q := fun hbt => not_backup_of_below hne hbt hbq
      rw [get?_rmtree, if_pos hbq, get?_graft_else hun.closed.root hbt,
        nothing_below hclosed hs.fresh backup_ne_nil hbq]
    · rw [get?_rmtree, if_neg hbq]
      by_cases hbt : Below t.target q
      · obtain ⟨r, hr, rfl⟩ := hbt.exists
        rw [get?_graft_below hr, get?_graft_below hr]
      · rw [get?_graft_else hun.closed.root hbt, get?_graft_else hun.closed.root hbt, get?_mkdirs, hvo q hbt hbq]
        split
        · rename_i hnew
          obtain ⟨hnone, hq, hpre⟩ := hnew
          by_cases htq : q = t.target
          · rw [htq, hs.root] at hnone
            cases hnone
          · rw [hclosed.parent q t.target hpre htq hq (by simp [hs.root])] at hnone
            cases hnone
        · rfl
  have hnodup := nodup_rmtree (nodup_graft (r := t.target) (nodup_mkdirs (p := t.target) hdistinct) hn hun.closed.root) t.backup
  refine ⟨(hclosed.graft hun.closed (.inl hs.root)).congr hnodup heq, fun p => ?_, fun p hp => ?_⟩
  · refine (leaf_congr (heq p)).trans ?_
    by_cases hbt : Below t.target p
    · obtain ⟨r, hr, rfl⟩ := hbt.exists
      rw [leaf_congr (get?_graft_below hr ..), hun.leaf]
      exact leaf_congr (by simp [hr])
    · exact leaf_congr (get?_graft_else hun.closed.root hbt ..)
  · have hp' : (graft t.target tree fs).get? p ≠ none := (heq p) ▸ hp
    clear hp
    by_cases hbt : Below t.target p
    · obtain ⟨r, hr, rfl⟩ := hbt.exists
      rw [get?_graft_below hr] at hp'
      simpa [hr] using hun.old r hp'
    · rwa [get?_graft_else hun.closed.root hbt] at hp'

structure Restored (t : Transaction) (fs fs' : Files γ) : Prop where
  closed : Closed fs'
  concerned : ∀ r, t.Concerns (t.target ++ r) → leaf fs' (t.target ++ r) = leaf fs (t.backup ++ r)
  other : ∀ q, ¬ t.Concerns q → ¬ t.backup <+: q → leaf fs' q = leaf fs q
  removed : ∀ q, t.backup <+: q → fs'.get? q = none
  new : ∀ q, fs'.get? q ≠ none → fs.get? q ≠ none ∨ (q <+: t.target ∧ q ≠ []) ∨
    ∃ r, r ≠ [] ∧ q = t.target ++ r ∧ fs.get? (t.backup ++ r) ≠ none

/-- Nothing in the backup is excluded, and no excluded entry lies below the place of a file or link of it. -/
structure Fitting (t : Transaction) (fs : Files γ) : Prop where
  held : ∀ r, r ≠ [] → fs.get? (t.backup ++ r) ≠ none → covers t.excluded r = false
  clear : ∀ r q, r ≠ [] → leaf fs (t.backup ++ r) ≠ none → Below r q → covers t.excluded q = true →
    fs.get? (t.target ++ q) = none

theorem cleared_view {excluded : List Path} {tree now : Files γ} {visits : List Path} (hclosed : Closed tree)
    (hw : WalkOrder tree visits) (hc : Clear.Cleared excluded tree visits now) (r : Path) :
    (covers excluded r = true → now.get? r = tree.get? r) ∧ (covers excluded r = false → leaf now r = none) ∧
      (covers excluded r = false → (∀ q, Below r q → covers excluded q = true → tree.get? q = none) →
        now.get? r = none) := by
  have hgone : ¬ Clear.Stays excluded tree r → now.get? r = none := by
    intro hs
    by_cases hr : tree.get? r = none
    · rcases hc.get? r with h | h
      · exact h
      · rw [h, hr]
    · exact hc.gone r ((hw.mem r).2 hr) hs
  refine ⟨fun hcov => ?_, fun hcov => ?_, fun hcov hq => ?_⟩
  · by_cases hr : tree.get? r = none
    · rcases hc.get? r with h | h
      · rw [h, hr]
      · exact h
    · exact hc.left r (.inr (Clear.stays_self hr hcov))
  · cases hl : leaf tree r with
    | none =>
      rcases hc.get? r with h | h
      · exact leaf_eq_none.2 (.inl h)
      · rw [leaf_congr h, hl]
    | some node =>
      obtain ⟨hnode, hd⟩ := leaf_eq_some.1 hl
      exact leaf_eq_none.2 (.inl (hgone (Clear.not_stays_leaf hclosed hnode hd hcov)))
  · apply hgone
    rintro ⟨q, hrq, hex, hcq⟩
    have hne : r ≠ q := by
      rintro rfl
      rw [hcov] at hcq
      cases hcq
    exact hex (hq q ⟨hrq, hne⟩ hcq)

theorem rollback_restored {t' : Transaction} (hclosed : Closed fs) (hne : t.target ≠ []) (hcaptured : t.captured = true)
    (hcomplete : t.captureComplete = true) (hfit : Fitting t fs) (h : rollback calls t fs = (true, t', fs')) :
    Restored t fs fs' := by
  obtain ⟨-, fs₁, fs₂, hclear, hcopy, rfl⟩ := rollback_ok hcaptured h
  rw [if_pos hcomplete] at hclear
  unfold clearTarget at hclear
  dsimp only at hclear
  split at hclear
  · cases hclear
  simp only [Prod.mk.injEq, true_and] at hclear
  subst hclear
  have htree := hclosed.under t.target
  have hw := calls.walk.bottomUp _ htree
  have hc := @Clear.clearVisits_cleared _ t.excluded _ _ htree hw _ [] _ rfl Clear.cleared_nil
  have hn := Clear.nodup_clearVisits t.excluded (calls.walk.order (under t.target fs)) htree.distinct
  generalize (calls.walk.order (under t.target fs)).foldl (Clear.clearVisit t.excluded) (under t.target fs) = now
    at hc hn hcopy
  have hnow := hc.closed htree hw (List.append_nil _).symm hn
  have hview := cleared_view htree hw hc
  have hclosed₁ : Closed (graft t.target now fs) := by
    apply hclosed.graft hnow
    by_cases hdir : fs.get? t.target = some .dir
    · exact .inl hdir
    · refine .inr fun r => ?_
      by_contra hr
      have hex : (under t.target fs).get? r ≠ none := by
        rcases hc.get? r with h' | h'
        · exact absurd h' hr
        · rwa [h'] at hr
      have hr' : r ≠ [] := by
        rintro rfl
        simp at hex
      rw [get?_under, if_neg hr'] at hex
      exact hdir (hclosed.parent t.target _ (List.prefix_append _ r) (by simpa using hr') hne hex)
  have hb : ∀ r, (under t.backup (graft t.target now fs)).get? r = (under t.backup fs).get? r := by
    intro r
    have hbt : ¬ Below t.target (t.backup ++ r) := fun hbt =>
      not_backup_of_below hne hbt (List.prefix_append _ r)
    rw [get?_under, get?_under, get?_graft_else hnow.root hbt]
  have ht : ∀ r, (under t.target (graft t.target now fs)).get? r = now.get? r := by
    intro r
    by_cases hr : r = []
    · simp [hr, hnow.root]
    · simp [hr, get?_graft_below hr]
  have hf : Fits (under t.backup (graft t.target now fs)) (under t.target (graft t.target now fs)) := by
    intro r node hr
    rw [hb] at hr
    rw [ht]
    have hr' : r ≠ [] := by
      rintro rfl
      simp at hr
    rw [get?_under, if_neg hr'] at hr
    obtain ⟨-, hleaf, hnone⟩ := hview r
    have hcov := hfit.held r hr' (by simp [hr])
    by_cases hd : node = .dir
    · rcases leaf_eq_none.1 (hleaf hcov) with h' | h'
      · exact .inl h'
      · exact .inr ⟨hd, h'⟩
    · refine .inl (hnone hcov fun q hq hcq => ?_)
      have hq' : q ≠ [] := by
        rintro rfl
        exact hr' (List.prefix_nil.1 hq.1)
      rw [get?_under, if_neg hq']
      exact hfit.clear r q hr' (by simp [leaf_eq_some.2 ⟨hr, hd⟩]) hq hcq
  obtain ⟨hleaf, tree, rfl, hnt, htv⟩ := copyBack_ok hclosed₁.distinct hne hf hcopy
  have hct := closed_or (hclosed₁.under t.backup) (hclosed₁.under t.target) hf hnt htv
  obtain ⟨hr₁, hr₂, hr₃, hr₄⟩ := restored_view (graft t.target now fs) hne hct.root hleaf
  refine ⟨closed_restored hclosed₁ hne hct hleaf, fun r hr => ?_, fun q hq hq' => ?_, hr₁, fun q hq => ?_⟩
  · obtain ⟨hr', hcov⟩ := concerns_append.1 hr
    cases hx : fs.get? (t.backup ++ r) with
    | some node =>
      apply leaf_congr
      rw [hr₂ r hr', htv, hb, get?_under, if_neg hr', hx, Option.some_or]
    | none =>
      have hnone : leaf fs (t.backup ++ r) = none := leaf_eq_none.2 (.inl hx)
      rw [hnone, ← (hview r).2.1 hcov]
      apply leaf_congr
      rw [hr₂ r hr', htv, hb, ht, get?_under, if_neg hr', hx, Option.none_or]
  · by_cases hbt : Below t.target q
    · obtain ⟨r, hr, rfl⟩ := hbt.exists
      have hcov : covers t.excluded r = true := by
        by_contra hcov
        exact hq (concerns_append.2 ⟨hr, by simpa using hcov⟩)
      have hnone : fs.get? (t.backup ++ r) = none := by
        by_contra hx
        rw [hfit.held r hr hx] at hcov
        cases hcov
      apply leaf_congr
      rw [hr₂ r hr, htv, hb, ht, get?_under, if_neg hr, hnone, Option.none_or, (hview r).1 hcov, get?_under, if_neg hr]
    · rw [hr₃ q hbt hq']
      exact leaf_congr (get?_graft_else hnow.root hbt ..)
  · have hbq : ¬ t.backup <+: q := fun hbq => hq (hr₁ q hbq)
    by_cases hbt : Below t.target q
    · obtain ⟨r, hr, rfl⟩ := hbt.exists
      rw [hr₂ r hr, htv, hb, ht, get?_under, if_neg hr] at hq
      cases hx : fs.get? (t.backup ++ r) with
      | some node => exact .inr (.inr ⟨r, hr, rfl, by simp [hx]⟩)
      | none =>
        rw [hx, Option.none_or] at hq
        rcases hc.get? r with h' | h'
        · exact absurd h' hq
        · rw [h', get?_under, if_neg hr] at hq
          exact .inl hq
    · rcases hr₄ q hbt hq with h' | h'
      · rw [get?_graft_else hnow.root hbt] at h'
        exact .inl h'
      · exact .inr (.inl h')

end

end Deferred
end Dumb.Install
