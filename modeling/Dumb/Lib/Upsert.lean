import Mathlib.Data.List.Nodup
import Mathlib.Data.List.Perm.Basic

/-!
# Upserts one after the other

An upsert goes to the first item that it hits, and to the end where it hits none. Where no entry hits what another one
has left, a list of upserts is a list of claims: every entry in turn claims the first item that it hits and that nobody
has claimed yet.
-/

structure Upsert (α β : Type) where
  hits : β → α → Bool
  place : β → α → α
  fresh : β → α

namespace Upsert

variable {α β : Type} (U : Upsert α β)

def put (d : β) : List α → List α
  | [] => [U.fresh d]
  | a :: as => if U.hits d a then U.place d a :: as else a :: put d as

def putAll (ds : List β) (as : List α) : List α := ds.foldl (fun as d => U.put d as) as

structure Claims (α β : Type) where
  marks : List (α × Option β)
  late : List β

def claim (d : β) : List (α × Option β) → Option (List (α × Option β))
  | [] => none
  | (a, none) :: ms => if U.hits d a then some ((a, some d) :: ms) else (claim d ms).map ((a, none) :: ·)
  | (a, some e) :: ms => (claim d ms).map ((a, some e) :: ·)

def turn (c : Claims α β) (d : β) : Claims α β :=
  match U.claim d c.marks with
  | some marks => ⟨marks, c.late⟩
  | none => ⟨c.marks, c.late ++ [d]⟩

def claims (ds : List β) (as : List α) : Claims α β := ds.foldl U.turn ⟨as.map fun a => (a, none), []⟩

def renderMark : α × Option β → α
  | (a, none) => a
  | (a, some d) => U.place d a

def render (c : Claims α β) : List α := c.marks.map U.renderMark ++ c.late.map U.fresh

def Apart (d e : β) : Prop := (∀ a, U.hits d (U.place e a) = false) ∧ U.hits d (U.fresh e) = false

variable {U}

variable {d : β}

theorem put_of_no_hit {as bs : List α} (h : ∀ a ∈ as, U.hits d a = false) : U.put d (as ++ bs) = as ++ U.put d bs := by
  induction as with
  | nil => rfl
  | cons a as ih =>
    have hrest := ih fun b hb => h b (List.mem_cons_of_mem a hb)
    simp [put, h a List.mem_cons_self, hrest]

variable {as : List α}

theorem put_at {a : α} (bs : List α) (h : ∀ b ∈ as, U.hits d b = false) (ha : U.hits d a = true) :
    U.put d (as ++ a :: bs) = as ++ U.place d a :: bs := by
  rw [put_of_no_hit h]
  simp [put, ha]

theorem claim_some {marks marks' : List (α × Option β)} (h : U.claim d marks = some marks') :
    ∃ pre a post, marks = pre ++ (a, none) :: post ∧ marks' = pre ++ (a, some d) :: post ∧ U.hits d a = true ∧
      ∀ b, (b, none) ∈ pre → U.hits d b = false := by
  induction marks generalizing marks' with
  | nil => cases h
  | cons m marks ih =>
    obtain ⟨a, mark⟩ := m
    cases mark with
    | none =>
      rw [claim] at h
      split at h
      · rename_i hit
        cases h
        exact ⟨[], a, marks, rfl, rfl, hit, fun _ hb => absurd hb List.not_mem_nil⟩
      · rename_i hmiss
        obtain ⟨marks'', hclaim, rfl⟩ := Option.map_eq_some_iff.1 h
        obtain ⟨pre, b, post, rfl, rfl, hit, hpre⟩ := ih hclaim
        refine ⟨(a, none) :: pre, b, post, rfl, rfl, hit, fun c hc => ?_⟩
        rcases List.mem_cons.1 hc with heq | hc
        · cases heq
          simpa using hmiss
        · exact hpre c hc
    | some e =>
      rw [claim] at h
      obtain ⟨marks'', hclaim, rfl⟩ := Option.map_eq_some_iff.1 h
      obtain ⟨pre, b, post, rfl, rfl, hit, hpre⟩ := ih hclaim
      refine ⟨(a, some e) :: pre, b, post, rfl, rfl, hit, fun c hc => ?_⟩
      rcases List.mem_cons.1 hc with heq | hc
      · cases heq
      · exact hpre c hc

theorem claim_none {marks : List (α × Option β)} (h : U.claim d marks = none) :
    ∀ a, (a, none) ∈ marks → U.hits d a = false := by
  induction marks with
  | nil => exact fun _ hb => absurd hb List.not_mem_nil
  | cons m marks ih =>
    obtain ⟨b, mark⟩ := m
    intro a ha
    cases mark with
    | none =>
      rw [claim] at h
      split at h
      · cases h
      · rename_i hmiss
        rcases List.mem_cons.1 ha with heq | ha
        · cases heq
          simpa using hmiss
        · exact ih (by simpa using h) a ha
    | some e =>
      rw [claim] at h
      rcases List.mem_cons.1 ha with heq | ha
      · cases heq
      · exact ih (by simpa using h) a ha

/-! ## What holds of the claims -/

def Unhit (U : Upsert α β) (m m' : α × Option β) : Prop := m.2 = none → ∀ d ∈ m'.2, U.hits d m.1 = false

structure Claims.After (U : Upsert α β) (ds : List β) (as : List α) (c : Claims α β) : Prop where
  items : c.marks.map (·.1) = as
  entries : (c.marks.filterMap (·.2) ++ c.late).Perm ds
  hit : ∀ a d, (a, some d) ∈ c.marks → U.hits d a = true
  first : c.marks.Pairwise (Unhit U)
  late : ∀ d ∈ c.late, ∀ a, (a, none) ∈ c.marks → U.hits d a = false

theorem after_nil (as : List α) : Claims.After U [] as ⟨as.map fun a => (a, none), []⟩ := by
  constructor
  · simp [Function.comp_def]
  · simp
  · simp
  · rw [List.pairwise_map]
    exact List.pairwise_of_forall fun _ _ _ d hd => by simp at hd
  · simp

variable {ds : List β} {c : Claims α β}

theorem Claims.After.turn (h : Claims.After U ds as c) (d : β) :
    Claims.After U (ds ++ [d]) as (U.turn c d) := by
  rw [Upsert.turn]
  cases hclaim : U.claim d c.marks with
  | none =>
    refine ⟨h.items, ?_, h.hit, h.first, ?_⟩
    · rw [← List.append_assoc]
      exact h.entries.append_right [d]
    · intro e he a ha
      rcases List.mem_append.1 he with he | he
      · exact h.late e he a ha
      · rw [List.mem_singleton.1 he]
        exact claim_none hclaim a ha
  | some marks =>
    obtain ⟨pre, a, post, hmarks, rfl, hit, hpre⟩ := claim_some hclaim
    refine ⟨?_, ?_, ?_, ?_, ?_⟩
    · rw [← h.items, hmarks]
      simp
    · have hentries := h.entries.append_right [d]
      rw [hmarks] at hentries
      simp only [List.filterMap_append, List.filterMap_cons, List.append_assoc] at hentries ⊢
      refine List.Perm.trans ?_ hentries
      refine List.Perm.append_left _ ?_
      have hlast := (List.perm_append_singleton d (post.filterMap (·.2) ++ c.late)).symm
      rwa [List.append_assoc] at hlast
    · intro b e hb
      simp only [List.mem_append, List.mem_cons, Prod.mk.injEq, Option.some.injEq] at hb
      rcases hb with hb | ⟨rfl, rfl⟩ | hb
      · exact h.hit b e (by simp [hmarks, hb])
      · exact hit
      · exact h.hit b e (by simp [hmarks, hb])
    · have hfirst := h.first
      rw [hmarks] at hfirst
      obtain ⟨hbefore, hafter, hcross⟩ := List.pairwise_append.1 hfirst
      refine List.pairwise_append.2 ⟨hbefore, ?_, ?_⟩
      · refine List.pairwise_cons.2 ⟨fun _ _ hnone => by simp at hnone, (List.pairwise_cons.1 hafter).2⟩
      · intro m hm m' hm'
        rcases List.mem_cons.1 hm' with rfl | hm'
        · obtain ⟨b, mark⟩ := m
          intro hnone e he
          cases hnone
          cases he
          exact hpre b hm
        · exact hcross m hm m' (List.mem_cons_of_mem _ hm')
    · intro e he b hb
      refine h.late e he b ?_
      simp only [List.mem_append, List.mem_cons, Prod.mk.injEq, reduceCtorEq, and_false, false_or] at hb
      rw [hmarks]
      rcases hb with hb | hb
      · exact List.mem_append_left _ hb
      · exact List.mem_append_right _ (List.mem_cons_of_mem _ hb)

theorem after_claims (ds : List β) (as : List α) : Claims.After U ds as (U.claims ds as) := by
  have hrun (ds done : List β) (c : Claims α β) (h : Claims.After U done as c) :
      Claims.After U (done ++ ds) as (ds.foldl U.turn c) := by
    induction ds generalizing done c with
    | nil => simpa using h
    | cons d ds ih =>
      have hnext := ih (done ++ [d]) (U.turn c d) (h.turn d)
      simpa using hnext
  exact hrun ds [] _ (after_nil as)

theorem put_render (h : Claims.After U ds as c)
    (hapart : ∀ e ∈ ds, U.Apart d e) : U.put d (U.render c) = U.render (U.turn c d) := by
  have hlate : ∀ e ∈ c.late, U.Apart d e := fun e he => hapart e (h.entries.subset (List.mem_append_right _ he))
  have hmarked : ∀ a e, (a, some e) ∈ c.marks → U.Apart d e := by
    intro a e ha
    refine hapart e (h.entries.subset (List.mem_append_left _ ?_))
    exact List.mem_filterMap.2 ⟨_, ha, rfl⟩
  have hmiss (marks : List (α × Option β)) (hsub : ∀ m ∈ marks, m ∈ c.marks)
      (hnone : ∀ b, (b, none) ∈ marks → U.hits d b = false) : ∀ b ∈ marks.map U.renderMark, U.hits d b = false := by
    intro b hb
    obtain ⟨⟨a, mark⟩, ha, rfl⟩ := List.mem_map.1 hb
    cases mark with
    | none => exact hnone a ha
    | some e => exact (hmarked a e (hsub _ ha)).1 a
  rw [turn]
  cases hclaim : U.claim d c.marks with
  | none =>
    have hall : ∀ b ∈ U.render c, U.hits d b = false := by
      intro b hb
      rcases List.mem_append.1 hb with hb | hb
      · exact hmiss c.marks (fun _ hm => hm) (claim_none hclaim) b hb
      · obtain ⟨e, he, rfl⟩ := List.mem_map.1 hb
        exact (hlate e he).2
    have hput : U.put d (U.render c ++ []) = U.render c ++ U.put d [] := put_of_no_hit hall
    rw [List.append_nil] at hput
    rw [hput]
    simp [render, put]
  | some marks =>
    obtain ⟨pre, a, post, hmarks, rfl, hit, hpre⟩ := claim_some hclaim
    have hbefore := hmiss pre (fun m hm => by rw [hmarks]; exact List.mem_append_left _ hm) hpre
    simp only [render, hmarks, List.map_append, List.map_cons, renderMark, List.append_assoc, List.cons_append]
    exact put_at _ hbefore hit

theorem putAll_eq (hapart : ds.Pairwise fun e d => U.Apart d e) :
    U.putAll ds as = U.render (U.claims ds as) := by
  have hrun (ds done : List β) (c : Claims α β) (h : Claims.After U done as c)
      (hapart : (done ++ ds).Pairwise fun e d => U.Apart d e) : U.putAll ds (U.render c) = U.render (ds.foldl U.turn c) := by
    induction ds generalizing done c with
    | nil => rfl
    | cons d ds ih =>
      rw [putAll, List.foldl_cons, put_render h]
      · exact ih (done ++ [d]) (U.turn c d) (h.turn d) (by simpa using hapart)
      · intro e he
        exact (List.pairwise_append.1 hapart).2.2 e he d List.mem_cons_self
  have hstart : U.render (⟨as.map fun a => (a, none), []⟩ : Claims α β) = as := by
    simp [render, Function.comp_def, renderMark]
  have hall := hrun ds [] _ (after_nil as) (by simpa using hapart)
  rwa [hstart] at hall

/-! ## Once more -/

structure Stable (U : Upsert α β) (d : β) : Prop where
  hits_place : ∀ a, U.hits d a = true → U.hits d (U.place d a) = true
  place_place : ∀ a, U.place d (U.place d a) = U.place d a
  hits_fresh : U.hits d (U.fresh d) = true
  place_fresh : U.place d (U.fresh d) = U.fresh d

theorem Claims.After.nodup (h : Claims.After U ds as c) (hnodup : ds.Nodup) :
    (c.marks.filterMap (·.2) ++ c.late).Nodup := h.entries.nodup_iff.2 hnodup

theorem put_again (h : Claims.After U ds as c) (hnodup : ds.Nodup)
    (hd : d ∈ ds) (hstable : U.Stable d) (hapart : ∀ e ∈ ds, e ≠ d → U.Apart d e) : U.put d (U.render c) = U.render c := by
  have hmem {e : β} (he : e ∈ c.marks.filterMap (·.2) ++ c.late) : e ∈ ds := h.entries.subset he
  have hnodup' := h.nodup hnodup
  rcases List.mem_append.1 (h.entries.mem_iff.2 hd) with hmark | hlate
  · obtain ⟨⟨a, mark⟩, ha, hmark⟩ := List.mem_filterMap.1 hmark
    simp only at hmark
    subst hmark
    obtain ⟨pre, post, hmarks⟩ := List.append_of_mem ha
    have hbefore : ∀ b ∈ pre.map U.renderMark, U.hits d b = false := by
      intro b hb
      obtain ⟨⟨x, mark⟩, hx, rfl⟩ := List.mem_map.1 hb
      have hfirst := h.first
      rw [hmarks] at hfirst hnodup'
      cases mark with
      | none => exact (List.pairwise_append.1 hfirst).2.2 _ hx _ List.mem_cons_self rfl d rfl
      | some e =>
        have hin : e ∈ pre.filterMap (·.2) := List.mem_filterMap.2 ⟨_, hx, rfl⟩
        have hne : e ≠ d := by
          rintro rfl
          simp only [List.filterMap_append, List.filterMap_cons, List.append_assoc] at hnodup'
          exact (List.nodup_append.1 hnodup').2.2 e hin e (List.mem_cons_self) rfl
        refine (hapart e (hmem ?_) hne).1 x
        rw [hmarks, List.filterMap_append]
        exact List.mem_append_left _ (List.mem_append_left _ hin)
    simp only [render, hmarks, List.map_append, List.map_cons, renderMark, List.append_assoc, List.cons_append]
    rw [put_at _ hbefore (hstable.hits_place a (h.hit a d ha)), hstable.place_place]
  · obtain ⟨pre, post, hsplit⟩ := List.append_of_mem hlate
    have hbefore : ∀ b ∈ c.marks.map U.renderMark ++ pre.map U.fresh, U.hits d b = false := by
      intro b hb
      rw [hsplit] at hnodup'
      rcases List.mem_append.1 hb with hb | hb
      · obtain ⟨⟨x, mark⟩, hx, rfl⟩ := List.mem_map.1 hb
        cases mark with
        | none => exact h.late d hlate x hx
        | some e =>
          have hin : e ∈ c.marks.filterMap (·.2) := List.mem_filterMap.2 ⟨_, hx, rfl⟩
          have hne : e ≠ d := by
            rintro rfl
            exact (List.nodup_append.1 hnodup').2.2 e hin e (by simp) rfl
          exact (hapart e (hmem (List.mem_append_left _ hin)) hne).1 x
      · obtain ⟨e, he, rfl⟩ := List.mem_map.1 hb
        have hne : e ≠ d := by
          rintro rfl
          have hlast := (List.nodup_append.1 hnodup').2.1
          exact (List.nodup_append.1 hlast).2.2 e he e List.mem_cons_self rfl
        refine (hapart e (hmem (List.mem_append_right _ ?_)) hne).2
        rw [hsplit]
        exact List.mem_append_left _ he
    simp only [render, hsplit, List.map_append, List.map_cons]
    rw [← List.append_assoc, put_at _ hbefore hstable.hits_fresh, hstable.place_fresh]

/-! ## Counting -/

variable {P : α → Bool}

theorem countP_render_self [DecidableEq β] (h : Claims.After U ds as c)
    (hnodup : ds.Nodup) (hd : d ∈ ds)
    (hplace : ∀ e ∈ ds, ∀ a, U.hits e a = true → P (U.place e a) = decide (e = d))
    (hfresh : ∀ e ∈ ds, P (U.fresh e) = decide (e = d)) :
    (U.render c).countP P = c.marks.countP (fun m => m.2.isNone && P m.1) + 1 := by
  have hsum (marks : List (α × Option β)) (hmarks : ∀ a e, (a, some e) ∈ marks → P (U.place e a) = decide (e = d)) :
      (marks.map U.renderMark).countP P =
        marks.countP (fun m => m.2.isNone && P m.1) + (marks.filterMap (·.2)).count d := by
    induction marks with
    | nil => rfl
    | cons m marks ih =>
      have hrest := ih fun a e he => hmarks a e (List.mem_cons_of_mem _ he)
      obtain ⟨a, mark⟩ := m
      cases mark with
      | none =>
        simp only [List.map_cons, List.countP_cons, hrest, renderMark, List.filterMap_cons, Option.isNone_none, Bool.true_and]
        omega
      | some e =>
        simp only [List.map_cons, List.countP_cons, hrest, renderMark, List.filterMap_cons, Option.isNone_some,
          Bool.false_and, hmarks a e List.mem_cons_self, List.count_cons, decide_eq_true_eq, beq_iff_eq]
        simp only [Bool.false_eq_true, if_false, Nat.add_zero, Nat.add_assoc]
  have hlate (late : List β) (hin : ∀ e ∈ late, e ∈ ds) : (late.map U.fresh).countP P = late.count d := by
    rw [List.countP_map, List.count_eq_countP]
    refine List.countP_congr fun e he => ?_
    simp [hfresh e (hin e he)]
  have hone : (c.marks.filterMap (·.2)).count d + c.late.count d = 1 := by
    rw [← List.count_append, h.entries.count_eq, List.count_eq_one_of_mem hnodup hd]
  have hmarked : ∀ a e, (a, some e) ∈ c.marks → P (U.place e a) = decide (e = d) := fun a e he =>
    hplace e (h.entries.subset (List.mem_append_left _ (List.mem_filterMap.2 ⟨_, he, rfl⟩))) a (h.hit a e he)
  rw [render, List.countP_append, hsum _ hmarked, hlate _ fun e he => h.entries.subset (List.mem_append_right _ he)]
  omega

theorem countP_render (h : Claims.After U ds as c)
    (hplace : ∀ e ∈ ds, ∀ a, U.hits e a = true → P (U.place e a) = false) (hfresh : ∀ e ∈ ds, P (U.fresh e) = false) :
    (U.render c).countP P = c.marks.countP fun m => m.2.isNone && P m.1 := by
  have hlate : (c.late.map U.fresh).countP P = 0 := by
    rw [List.countP_eq_zero]
    intro a ha
    obtain ⟨e, he, rfl⟩ := List.mem_map.1 ha
    simp [hfresh e (h.entries.subset (List.mem_append_right _ he))]
  rw [render, List.countP_append, hlate, Nat.add_zero, List.countP_map]
  refine List.countP_congr fun m hm => ?_
  obtain ⟨a, mark⟩ := m
  cases mark with
  | none => simp [renderMark]
  | some e =>
    have he : e ∈ ds := h.entries.subset (List.mem_append_left _ (List.mem_filterMap.2 ⟨_, hm, rfl⟩))
    simp [renderMark, hplace e he a (h.hit a e hm)]

theorem filter_sublist_render (h : Claims.After U ds as c)
    (hplace : ∀ e ∈ ds, ∀ a, U.hits e a = true → P (U.place e a) = false) (hfresh : ∀ e ∈ ds, P (U.fresh e) = false) :
    (as.filter P).Sublist (U.render c) ↔ ∀ a d, (a, some d) ∈ c.marks → P a = false := by
  constructor
  · intro hsub a d ha
    have hle := hsub.countP_le (p := P)
    rw [countP_render h hplace hfresh, List.countP_filter] at hle
    simp only [Bool.and_self] at hle
    rw [← h.items, List.countP_map] at hle
    by_contra hP
    rw [Bool.not_eq_false] at hP
    have hmono (marks : List (α × Option β)) :
        marks.countP (fun m => m.2.isNone && P m.1) ≤ marks.countP ((fun a => P a) ∘ fun m => m.1) :=
      List.countP_mono_left fun m _ hm => (Bool.and_eq_true _ _ ▸ hm).2
    obtain ⟨pre, post, hmarks⟩ := List.append_of_mem ha
    rw [hmarks, List.countP_append, List.countP_append, List.countP_cons, List.countP_cons] at hle
    have hpre := hmono pre
    have hpost := hmono post
    simp only [Option.isNone_some, Bool.false_and, Bool.false_eq_true, if_false, Function.comp_apply, hP, if_true] at hle
    omega
  · intro hclaimed
    rw [← h.items, render]
    refine List.Sublist.trans ?_ (List.sublist_append_left _ _)
    have hmarks (marks : List (α × Option β)) (hclaimed : ∀ a d, (a, some d) ∈ marks → P a = false) :
        ((marks.map (·.1)).filter P).Sublist (marks.map U.renderMark) := by
      induction marks with
      | nil => exact List.Sublist.refl []
      | cons m marks ih =>
        have hrest := ih fun a d ha => hclaimed a d (List.mem_cons_of_mem _ ha)
        obtain ⟨a, mark⟩ := m
        cases mark with
        | none =>
          rw [List.map_cons, List.map_cons, renderMark]
          by_cases hP : P a = true
          · rw [List.filter_cons_of_pos hP]
            exact hrest.cons_cons a
          · rw [List.filter_cons_of_neg hP]
            exact hrest.cons a
        | some d =>
          rw [List.map_cons, List.map_cons, List.filter_cons_of_neg (by simp [hclaimed a d List.mem_cons_self])]
          exact hrest.cons _
    exact hmarks c.marks hclaimed

end Upsert
