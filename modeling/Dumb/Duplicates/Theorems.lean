import Mathlib.Data.List.Pairwise
import Dumb.Duplicates.Cleanup

/-!
# What the cleanup deletes

First the deletes: they concern listed media only, and where none fails every listed media is gone in the end. Then
the list: which media an item's loop puts on it.
-/

namespace Dumb.Duplicates

/-! ## Deletes -/

section
variable (answers : Nat → Answer)

def Adds (P : Media → Prop) (calls calls' : List Call) : Prop :=
  ∃ more, calls' = more ++ calls ∧ ∀ call ∈ more, P call.media ∧ ∃ n, call.answer = answers n

variable {answers}

theorem Adds.refl (P : Media → Prop) (calls : List Call) : Adds answers P calls calls :=
  ⟨[], rfl, fun _ h => absurd h List.not_mem_nil⟩

variable {P : Media → Prop}

theorem Adds.trans {c₁ c₂ c₃ : List Call} (h : Adds answers P c₁ c₂) (h' : Adds answers P c₂ c₃) :
    Adds answers P c₁ c₃ := by
  obtain ⟨more, rfl, hmore⟩ := h
  obtain ⟨more', rfl, hmore'⟩ := h'
  use more' ++ more
  constructor
  · rw [List.append_assoc]
  · intro call hcall
    rcases List.mem_append.1 hcall with hcall | hcall
    · exact hmore' call hcall
    · exact hmore call hcall

theorem Adds.mono {P Q : Media → Prop} {calls calls' : List Call} (hPQ : ∀ media, P media → Q media)
    (h : Adds answers P calls calls') : Adds answers Q calls calls' := by
  obtain ⟨more, rfl, hmore⟩ := h
  exact ⟨more, rfl, fun call hcall => ⟨hPQ _ (hmore call hcall).1, (hmore call hcall).2⟩⟩

theorem Adds.removed {P : Media → Prop} {calls calls' : List Call} (h : Adds answers P calls calls') {media : Media}
    (hmedia : media ∈ removed calls') : media ∈ removed calls ∨ P media := by
  obtain ⟨more, rfl, hmore⟩ := h
  simp only [Duplicates.removed, List.filter_append, List.map_append, List.mem_append, List.mem_map] at hmedia ⊢
  rcases hmedia with ⟨call, hcall, rfl⟩ | hmedia
  · exact .inr (hmore call (List.mem_filter.1 hcall).1).1
  · exact .inl hmedia

variable {calls : List Call}

theorem removed_append {media : Media} (h : media ∈ removed calls) (more : List Call) :
    media ∈ removed (more ++ calls) := by
  simp only [removed, List.filter_append, List.map_append, List.mem_append]
  exact .inr h

theorem Adds.keeps {calls calls' : List Call} (h : Adds answers P calls calls') {media : Media}
    (hmedia : media ∈ Duplicates.removed calls) : media ∈ Duplicates.removed calls' := by
  obtain ⟨more, rfl, -⟩ := h
  exact removed_append hmedia more

theorem Adds.unfailing {calls calls' : List Call} (h : Adds answers P calls calls')
    (hcalls : Unfailing calls') : Unfailing calls := by
  obtain ⟨more, rfl, -⟩ := h
  induction more with
  | nil => exact hcalls
  | cons call more ih => exact ih hcalls.2

variable (answers)

theorem retry_adds (media : Media) (attempts : Nat) (calls : List Call) :
    Adds answers (· = media) calls (retry answers media attempts calls).2 := by
  induction attempts generalizing calls with
  | zero => exact .refl _ _
  | succ attempts ih =>
    have hone {answer : Answer} (h : answers calls.length = answer) :
        Adds answers (· = media) calls (⟨media, answer⟩ :: calls) := by
      use [⟨media, answer⟩], rfl
      simp only [List.mem_singleton, forall_eq, true_and]
      exact ⟨_, h.symm⟩
    rw [retry]
    cases hanswer : answers calls.length with
    | done => exact hone hanswer
    | readTimeout gone => exact (hone hanswer).trans (ih _)
    | notFound => exact hone hanswer
    | error gone => exact hone hanswer

theorem deleteParts_adds (media : Media) (parts : List String) (calls : List Call) :
    Adds answers (· = media) calls (deleteParts answers media parts calls).2 := by
  induction parts generalizing calls with
  | nil => exact .refl _ _
  | cons part parts ih =>
    have hfirst := retry_adds answers media maxRetryAttempts calls
    rw [deleteParts, deleteMediaWithRetry]
    generalize retry answers media maxRetryAttempts calls = tried at hfirst
    obtain ⟨_ | _ | _, after⟩ := tried
    · exact hfirst
    · exact hfirst
    · exact hfirst.trans (ih after)

theorem deleteFrom_adds (mediaId : Option Nat) (ms : List Media) (calls : List Call) :
    Adds answers (fun media => media ∈ ms ∧ some media.id = mediaId) calls (deleteFrom answers mediaId ms calls).2 := by
  induction ms generalizing calls with
  | nil => exact .refl _ _
  | cons media ms ih =>
    have hrest (calls : List Call) := (ih calls).mono (Q := fun m => m ∈ media :: ms ∧ some m.id = mediaId)
      fun m h => ⟨List.mem_cons_of_mem _ h.1, h.2⟩
    rw [deleteFrom]
    split
    · rename_i hid
      have hparts := (deleteParts_adds answers media media.parts calls).mono
        (Q := fun m => m ∈ media :: ms ∧ some m.id = mediaId) (by rintro m rfl; exact ⟨List.mem_cons_self, hid⟩)
      generalize deleteParts answers media media.parts calls = tried at hparts
      obtain ⟨_ | _ | _, after⟩ := tried
      · exact hparts
      · exact hparts
      · exact hparts.trans (hrest after)
    · exact hrest calls

def Named (queue : List (Item × Option Nat)) (media : Media) : Prop :=
  ∃ entry ∈ queue, media ∈ entry.1.media ∧ some media.id = entry.2

theorem deleteAll_adds (queue : List (Item × Option Nat)) (calls : List Call) :
    Adds answers (Named queue) calls (deleteAll answers queue calls) := by
  induction queue generalizing calls with
  | nil => exact .refl _ _
  | cons entry queue ih =>
    obtain ⟨item, mediaId⟩ := entry
    have hfirst := (deleteFrom_adds answers mediaId item.media calls).mono (Q := Named ((item, mediaId) :: queue))
      fun media h => ⟨_, List.mem_cons_self, h⟩
    have hrest (calls : List Call) := (ih calls).mono (Q := Named ((item, mediaId) :: queue))
      fun media ⟨entry, hentry, h⟩ => ⟨entry, List.mem_cons_of_mem _ hentry, h⟩
    rw [deleteAll]
    generalize deleteFrom answers mediaId item.media calls = tried at hfirst
    obtain ⟨_ | _, after⟩ := tried
    · exact hfirst
    · exact hfirst.trans (hrest after)

/-! ## Where no delete fails -/

theorem removed_done (media : Media) (calls : List Call) : media ∈ removed (⟨media, .done⟩ :: calls) := by
  simp [removed, Answer.removes]

theorem retry_unfailing {media : Media} {attempts : Nat}
    (h : Unfailing (retry answers media (attempts + 1) calls).2) :
    (retry answers media (attempts + 1) calls).1 ≠ none ∧
      media ∈ removed (retry answers media (attempts + 1) calls).2 := by
  rw [retry] at h ⊢
  cases hanswer : answers calls.length with
  | done => exact ⟨by simp, removed_done _ _⟩
  | readTimeout gone =>
    rw [hanswer] at h
    have hlast := (retry_adds answers media attempts _).unfailing h
    obtain hdone | ⟨hmissing, -⟩ := hlast.1
    · cases hdone
    · cases hmissing
  | notFound =>
    rw [hanswer] at h
    obtain hdone | ⟨-, hgone⟩ := h.1
    · cases hdone
    · exact ⟨by simp, removed_append hgone [_]⟩
  | error gone =>
    rw [hanswer] at h
    obtain hdone | ⟨hmissing, -⟩ := h.1
    · cases hdone
    · cases hmissing

theorem deleteParts_unfailing {media : Media} {parts : List String} {calls : List Call}
    (h : Unfailing (deleteParts answers media parts calls).2) :
    (deleteParts answers media parts calls).1 ≠ none ∧
      (parts ≠ [] → media ∈ removed (deleteParts answers media parts calls).2) := by
  induction parts generalizing calls with
  | nil => exact ⟨by simp [deleteParts], by simp⟩
  | cons part parts ih =>
    have hfirst : Unfailing (retry answers media maxRetryAttempts calls).2 →
        (retry answers media maxRetryAttempts calls).1 ≠ none ∧
          media ∈ removed (retry answers media maxRetryAttempts calls).2 := retry_unfailing answers
    rw [deleteParts, deleteMediaWithRetry] at h ⊢
    generalize retry answers media maxRetryAttempts calls = tried at h hfirst
    obtain ⟨_ | _ | _, after⟩ := tried
    · exact absurd rfl (hfirst h).1
    · exact ⟨by simp, fun _ => (hfirst h).2⟩
    · have hrest := deleteParts_adds answers media parts after
      exact ⟨(ih h).1, fun _ => hrest.keeps (hfirst (hrest.unfailing h)).2⟩

theorem deleteFrom_unfailing {mediaId : Option Nat} {ms : List Media} {calls : List Call}
    (hids : (ms.map Media.id).Nodup) (h : Unfailing (deleteFrom answers mediaId ms calls).2) :
    (deleteFrom answers mediaId ms calls).1 = true ∧ ∀ media ∈ ms, some media.id = mediaId → media.parts ≠ [] →
      media ∈ removed (deleteFrom answers mediaId ms calls).2 := by
  induction ms generalizing calls with
  | nil => exact ⟨rfl, by simp⟩
  | cons first ms ih =>
    rw [List.map_cons, List.nodup_cons] at hids
    rw [deleteFrom] at h ⊢
    split at h
    · rename_i hid
      rw [if_pos hid]
      have hparts := @deleteParts_unfailing answers first first.parts calls
      generalize deleteParts answers first first.parts calls = tried at h hparts
      have hother {m : Media} (hm : m ∈ ms) (hmid : some m.id = mediaId) : False :=
        hids.1 (List.mem_map.2 ⟨m, hm, Option.some.inj (hmid.trans hid.symm)⟩)
      obtain ⟨_ | _ | _, after⟩ := tried
      · exact absurd rfl (hparts h).1
      · constructor
        · rfl
        · intro media hmedia hmid hne
          rcases List.mem_cons.1 hmedia with rfl | hmedia
          · exact (hparts h).2 hne
          · exact (hother hmedia hmid).elim
      · have hrest := deleteFrom_adds answers mediaId ms after
        apply And.intro (ih hids.2 h).1
        intro media hmedia hmid hne
        rcases List.mem_cons.1 hmedia with rfl | hmedia
        · exact hrest.keeps ((hparts (hrest.unfailing h)).2 hne)
        · exact (hother hmedia hmid).elim
    · rename_i hid
      rw [if_neg hid]
      apply And.intro (ih hids.2 h).1
      intro media hmedia hmid hne
      rcases List.mem_cons.1 hmedia with rfl | hmedia
      · exact absurd hmid hid
      · exact (ih hids.2 h).2 media hmedia hmid hne

theorem deleteAll_unfailing {queue : List (Item × Option Nat)}
    (hids : ∀ entry ∈ queue, (entry.1.media.map Media.id).Nodup) (h : Unfailing (deleteAll answers queue calls))
    {media : Media} (hmedia : Named queue media) (hne : media.parts ≠ []) :
    media ∈ removed (deleteAll answers queue calls) := by
  induction queue generalizing calls with
  | nil =>
    obtain ⟨entry, hentry, -⟩ := hmedia
    cases hentry
  | cons entry queue ih =>
    obtain ⟨item, mediaId⟩ := entry
    have hfirst := @deleteFrom_unfailing answers mediaId item.media calls (hids _ List.mem_cons_self)
    rw [deleteAll] at h ⊢
    generalize deleteFrom answers mediaId item.media calls = tried at h hfirst
    obtain ⟨_ | _, after⟩ := tried
    · cases (hfirst h).1
    · have hrest := deleteAll_adds answers queue after
      obtain ⟨entry, hentry, hin, hid⟩ := hmedia
      rcases List.mem_cons.1 hentry with rfl | hentry
      · exact hrest.keeps ((hfirst (hrest.unfailing h)).2 media hin hid hne)
      · exact ih (fun e he => hids e (List.mem_cons_of_mem _ he)) h ⟨entry, hentry, hin, hid⟩

end

/-! ## What an item's loop lists -/

section
variable (mount : Mount)

def Media.reaches (media : Media) : Bool := media.parts.any mount.holds

def Media.leaves (media : Media) : Bool := media.parts.any fun file => !mount.holds file

variable {mount}

theorem Media.split_iff {media : Media} : media.Split mount ↔ media.reaches mount = true ∧ media.leaves mount = true := by
  simp [Split, reaches, leaves]

theorem Media.inside_iff {media : Media} :
    media.Inside mount ↔ media.reaches mount = true ∧ media.leaves mount = false := by
  simp only [Inside, reaches, leaves, List.any_eq_true, List.any_eq_false, Bool.not_eq_true', Bool.not_eq_false]
  constructor
  · rintro ⟨hne, hall⟩
    obtain ⟨file, hfile⟩ := List.exists_mem_of_ne_nil _ hne
    exact ⟨⟨file, hfile, hall file hfile⟩, hall⟩
  · rintro ⟨⟨file, hfile, -⟩, hall⟩
    exact ⟨List.ne_nil_of_mem hfile, hall⟩

theorem Media.outside_iff {media : Media} :
    media.Outside mount ↔ media.leaves mount = true ∧ media.reaches mount = false := by
  simp only [Outside, reaches, leaves, List.any_eq_true, List.any_eq_false, Bool.not_eq_true', Bool.not_eq_true]
  constructor
  · rintro ⟨hne, hall⟩
    obtain ⟨file, hfile⟩ := List.exists_mem_of_ne_nil _ hne
    exact ⟨⟨file, hfile, hall file hfile⟩, hall⟩
  · rintro ⟨⟨file, hfile, -⟩, hall⟩
    exact ⟨List.ne_nil_of_mem hfile, hall⟩

theorem Seen.parts_eq (media : Media) (s : Seen) (parts : List String) :
    parts.foldl (Seen.part mount media) s =
      ⟨s.hasRclonemn || parts.any mount.holds, s.hasOtherDirectory || parts.any (fun file => !mount.holds file),
        if parts.any mount.holds then some media.id else s.mediaId⟩ := by
  induction parts generalizing s with
  | nil => simp
  | cons file parts ih =>
    rw [List.foldl_cons, ih, Seen.part]
    cases hfile : mount.holds file with
    | true => simp [hfile]
    | false => simp [hfile]

theorem Seen.media_eq (s : Seen) (media : Media) :
    s.media mount media = ⟨s.hasRclonemn || media.reaches mount, s.hasOtherDirectory || media.leaves mount,
      if media.reaches mount then some media.id else s.mediaId⟩ := Seen.parts_eq media s media.parts

def Seen.Sound (s : Seen) : Prop := s.hasRclonemn = s.mediaId.isSome

theorem Seen.start_sound : Seen.start.Sound := rfl

theorem Seen.Sound.media {s : Seen} (h : s.Sound) (media : Media) : (s.media mount media).Sound := by
  rw [Seen.Sound, Seen.media_eq]
  dsimp only
  cases media.reaches mount with
  | true => simp
  | false => simpa [Seen.Sound] using h

variable {id : Option Nat}

theorem mem_toDelete_cons {s : Seen} {media : Media} {rest : List Media} :
    id ∈ toDelete mount s (media :: rest) ↔
      ((s.media mount media).hasRclonemn = true ∧ (s.media mount media).hasOtherDirectory = true ∧
        media.parts ≠ [] ∧ id = (s.media mount media).mediaId) ∨ id ∈ toDelete mount (s.media mount media) rest := by
  rw [toDelete, List.mem_append]
  apply or_congr_left
  split
  · rename_i h
    rw [Bool.and_eq_true] at h
    simp only [List.mem_map, h.1, h.2, true_and]
    constructor
    · rintro ⟨file, hfile, rfl⟩
      exact ⟨List.ne_nil_of_mem hfile, rfl⟩
    · rintro ⟨hne, rfl⟩
      obtain ⟨file, hfile⟩ := List.exists_mem_of_ne_nil _ hne
      exact ⟨file, hfile, rfl⟩
  · rename_i h
    rw [Bool.and_eq_true] at h
    simp only [List.not_mem_nil, false_iff]
    exact fun hall => h ⟨hall.1, hall.2.1⟩

variable {ms : List Media}

theorem toDelete_sound {s : Seen} (h : id ∈ toDelete mount s ms) :
    id = s.mediaId ∨ ∃ media ∈ ms, media.reaches mount = true ∧ id = some media.id := by
  induction ms generalizing s with
  | nil => cases h
  | cons media ms ih =>
    have hseen : (s.media mount media).mediaId = s.mediaId ∨
        media.reaches mount = true ∧ (s.media mount media).mediaId = some media.id := by
      rw [Seen.media_eq]
      cases hreaches : media.reaches mount with
      | true => exact .inr ⟨rfl, rfl⟩
      | false => exact .inl rfl
    have hid : id = (s.media mount media).mediaId ∨
        ∃ later ∈ ms, later.reaches mount = true ∧ id = some later.id := by
      rcases mem_toDelete_cons.1 h with ⟨-, -, -, hid⟩ | h
      · exact .inl hid
      · exact ih h
    rcases hid with rfl | ⟨later, hlater, hid⟩
    · rcases hseen with hseen | ⟨hreaches, hseen⟩
      · exact .inl hseen
      · exact .inr ⟨media, List.mem_cons_self, hreaches, hseen⟩
    · exact .inr ⟨later, List.mem_cons_of_mem _ hlater, hid⟩

theorem toDelete_leaves {s : Seen} (h : id ∈ toDelete mount s ms) :
    s.hasOtherDirectory = true ∨ ∃ media ∈ ms, media.leaves mount = true := by
  induction ms generalizing s with
  | nil => cases h
  | cons media ms ih =>
    have hseen : (s.media mount media).hasOtherDirectory = true ∨
        ∃ later ∈ ms, later.leaves mount = true := by
      rcases mem_toDelete_cons.1 h with ⟨-, hother, -⟩ | h
      · exact .inl hother
      · exact ih h
    rcases hseen with hseen | ⟨later, hlater, hleaves⟩
    · rw [Seen.media_eq, Bool.or_eq_true] at hseen
      exact hseen.imp_right fun hleaves => ⟨media, List.mem_cons_self, hleaves⟩
    · exact .inr ⟨later, List.mem_cons_of_mem _ hlater, hleaves⟩

theorem Media.nonempty {media : Media} (h : media.reaches mount = true ∨ media.leaves mount = true) :
    media.parts ≠ [] := by
  rintro hnil
  simp [reaches, leaves, hnil] at h

theorem toDelete_split {s : Seen} {media : Media} (hmedia : media ∈ ms) (h : media.Split mount) :
    some media.id ∈ toDelete mount s ms := by
  induction ms generalizing s with
  | nil => cases hmedia
  | cons first ms ih =>
    rw [mem_toDelete_cons]
    rcases List.mem_cons.1 hmedia with rfl | hmedia
    · obtain ⟨hreaches, hleaves⟩ := Media.split_iff.1 h
      left
      rw [Seen.media_eq]
      simp only [hreaches, hleaves, Bool.or_true, if_true, and_true, true_and]
      exact Media.nonempty (.inl hreaches)
    · exact .inr (ih hmedia)

theorem toDelete_after {s : Seen} {media : Media} (hother : s.hasOtherDirectory = true)
    (hmedia : media ∈ ms) (hreaches : media.reaches mount = true) : some media.id ∈ toDelete mount s ms := by
  induction ms generalizing s with
  | nil => cases hmedia
  | cons first ms ih =>
    rw [mem_toDelete_cons, Seen.media_eq]
    rcases List.mem_cons.1 hmedia with rfl | hmedia
    · left
      simp only [hreaches, hother, Bool.or_true, Bool.true_or, if_true, and_true, true_and]
      exact Media.nonempty (.inl hreaches)
    · exact .inr (ih (by simp [hother]) hmedia)

def Lists (mount : Mount) (s : Seen) (ms : List Media) : Prop :=
  (s.mediaId.isSome → s.mediaId ∈ toDelete mount s ms) ∧
    ∀ media ∈ ms, media.reaches mount = true → some media.id ∈ toDelete mount s ms

theorem lists_iff {s : Seen} (hs : s.Sound) (hother : s.hasOtherDirectory = false)
    (hsplit : ∀ media ∈ ms, ¬media.Split mount) (hids : (ms.map Media.id).Nodup)
    (hfresh : ∀ media ∈ ms, s.mediaId ≠ some media.id) (hout : ∃ media ∈ ms, media.Outside mount) :
    Lists mount s ms ↔ (ms.takeWhile fun media => ¬media.Outside mount).countP (fun media => media.Inside mount) +
      (if s.hasRclonemn then 1 else 0) ≤ 1 := by
  induction ms generalizing s with
  | nil =>
    obtain ⟨media, hmedia, -⟩ := hout
    cases hmedia
  | cons first ms ih =>
    rw [List.map_cons, List.nodup_cons] at hids
    have hfirst := hsplit first List.mem_cons_self
    rw [Media.split_iff] at hfirst
    cases hleaves : first.leaves mount with
    | true =>
      -- The first media outside: the id carried along is listed with it, and from here on nothing is missed.
      have hreaches : first.reaches mount = false := by
        cases hreaches : first.reaches mount with
        | true => exact absurd ⟨hreaches, hleaves⟩ hfirst
        | false => rfl
      have houtside : first.Outside mount := Media.outside_iff.2 ⟨hleaves, hreaches⟩
      have hcount : ((first :: ms).takeWhile fun media => ¬media.Outside mount) = [] := by
        simp [houtside]
      rw [hcount]
      apply iff_of_true
      · constructor
        · intro hsome
          rw [mem_toDelete_cons, Seen.media_eq]
          left
          rw [← hs] at hsome
          simp only [hreaches, hleaves, hsome, Bool.or_true, Bool.or_false, true_and, Bool.false_eq_true, if_false,
            and_true]
          exact Media.nonempty (.inr hleaves)
        · intro media hmedia hin
          rcases List.mem_cons.1 hmedia with rfl | hmedia
          · rw [hreaches] at hin
            cases hin
          · rw [mem_toDelete_cons]
            right
            apply toDelete_after _ hmedia hin
            rw [Seen.media_eq, hleaves, Bool.or_true]
      · cases s.hasRclonemn <;> simp
    | false =>
      have houtside : ¬first.Outside mount := by
        rw [Media.outside_iff, hleaves]
        simp
      have hout' : ∃ media ∈ ms, media.Outside mount := by
        obtain ⟨media, hmedia, hm⟩ := hout
        rcases List.mem_cons.1 hmedia with rfl | hmedia
        · exact absurd hm houtside
        · exact ⟨media, hmedia, hm⟩
      have hsame : toDelete mount s (first :: ms) = toDelete mount (s.media mount first) ms := by
        rw [toDelete]
        simp [Seen.media_eq, hother, hleaves]
      have hrest := fun media (h : media ∈ ms) => hsplit media (List.mem_cons_of_mem _ h)
      cases hreaches : first.reaches mount with
      | true =>
        have hinside : first.Inside mount := Media.inside_iff.2 ⟨hreaches, hleaves⟩
        have hseen : s.media mount first = ⟨true, false, some first.id⟩ := by
          rw [Seen.media_eq, hreaches, hleaves, hother]
          simp
        have htail := ih (hs.media first) (by rw [hseen]) hrest hids.2
          (by
            intro media hmedia heq
            rw [hseen] at heq
            exact hids.1 (List.mem_map.2 ⟨media, hmedia, (Option.some.inj heq).symm⟩)) hout'
        have hcount : ((first :: ms).takeWhile fun media => ¬media.Outside mount).countP
            (fun media => media.Inside mount) =
              (ms.takeWhile fun media => ¬media.Outside mount).countP (fun media => media.Inside mount) + 1 := by
          simp [houtside, hinside]
        rw [hcount]
        cases hflag : s.hasRclonemn with
        | true =>
          -- The id carried along is lost.
          apply iff_of_false
          · rintro ⟨hcarried, -⟩
            have hsome : s.mediaId.isSome = true := by rw [← hs, hflag]
            have hmem := hcarried hsome
            rw [hsame] at hmem
            rcases toDelete_sound hmem with heq | ⟨media, hmedia, -, heq⟩
            · rw [hseen] at heq
              exact hfresh first List.mem_cons_self heq
            · exact hfresh media (List.mem_cons_of_mem _ hmedia) heq
          · simp
        | false =>
          rw [hseen] at htail
          simp only [if_true] at htail
          rw [Lists, hsame, hseen]
          have hnone : s.mediaId.isSome = false := by rw [← hs, hflag]
          simp only [hnone, Bool.false_eq_true, false_implies, true_and, if_false, Nat.add_zero]
          rw [← htail]
          simp [Lists, hreaches]
      | false =>
        have hinside : ¬first.Inside mount := by
          rw [Media.inside_iff, hreaches]
          simp
        have hseen : s.media mount first = s := by
          rw [Seen.media_eq, hreaches, hleaves]
          simp
        have hcount : ((first :: ms).takeWhile fun media => ¬media.Outside mount).countP
            (fun media => media.Inside mount) =
              (ms.takeWhile fun media => ¬media.Outside mount).countP (fun media => media.Inside mount) := by
          simp [houtside, hinside]
        rw [hcount, ← ih hs hother hrest hids.2 (fun media h => hfresh media (List.mem_cons_of_mem _ h)) hout', Lists,
          Lists, hsame, hseen]
        simp [hreaches]

end

/-! ## The cleanup deletes the copy on the mount and no other -/

variable {mount : Mount}

variable {item : Item}

theorem Section.item_ids (s : Section) (h : item ∈ s.items) : (item.media.map Media.id).Nodup := by
  have hids := s.ids
  rw [List.map_flatMap, List.nodup_flatMap] at hids
  exact hids.1 item h

theorem Section.item_eq (s : Section) {item item' : Item} (h : item ∈ s.items) (h' : item' ∈ s.items) {media : Media}
    (hmedia : media ∈ item.media) (hmedia' : media ∈ item'.media) : item = item' := by
  have hids := s.ids
  rw [List.map_flatMap, List.nodup_flatMap] at hids
  have : Std.Symm (Function.onFun List.Disjoint fun item : Item => item.media.map Media.id) :=
    ⟨fun _ _ hd _ h h' => hd h' h⟩
  by_contra hne
  have hdisjoint := hids.2.forall h h' hne
  exact hdisjoint (List.mem_map.2 ⟨media, hmedia, rfl⟩) (List.mem_map.2 ⟨media, hmedia', rfl⟩)

theorem Section.duplicates_sub (s : Section) (h : item ∈ s.duplicates) : item ∈ s.items :=
  (List.mem_filter.1 h).1

theorem named_iff {items : List Item} {media : Media} : Named (episodesToDelete mount items) media ↔
    ∃ item ∈ items, media ∈ item.media ∧ some media.id ∈ toDelete mount Seen.start item.media := by
  simp only [Named, episodesToDelete, List.mem_flatMap, List.mem_map]
  constructor
  · rintro ⟨_, ⟨item, hitem, id, hid, rfl⟩, hmedia, rfl⟩
    exact ⟨item, hitem, hmedia, hid⟩
  · rintro ⟨item, hitem, hmedia, hid⟩
    exact ⟨_, ⟨item, hitem, _, hid, rfl⟩, hmedia, rfl⟩

theorem Media.eq_of_id {ms : List Media} (hids : (ms.map Media.id).Nodup) {media media' : Media} (h : media ∈ ms)
    (h' : media' ∈ ms) (hid : media.id = media'.id) : media = media' := List.inj_on_of_nodup_map hids h h' hid

theorem Media.inside_of_reaches {media : Media} (hsplit : ¬media.Split mount) (h : media.reaches mount = true) :
    media.Inside mount := by
  rw [split_iff] at hsplit
  rw [inside_iff]
  cases hleaves : media.leaves mount with
  | true => exact absurd ⟨h, hleaves⟩ hsplit
  | false => exact ⟨h, rfl⟩

theorem Media.outside_of_leaves {media : Media} (hsplit : ¬media.Split mount) (h : media.leaves mount = true) :
    media.Outside mount := by
  rw [split_iff] at hsplit
  rw [outside_iff]
  cases hreaches : media.reaches mount with
  | true => exact absurd ⟨hreaches, h⟩ hsplit
  | false => exact ⟨h, rfl⟩

theorem Media.not_inside_outside {media : Media} (hinside : media.Inside mount) (houtside : media.Outside mount) :
    False := by
  rw [inside_iff] at hinside
  rw [outside_iff, hinside.2] at houtside
  cases houtside.1

section
variable (s : Section) (answers : Nat → Answer)

theorem removed_named {media : Media}
    (h : media ∈ removed (deleteAll answers (episodesToDelete mount s.duplicates) [])) :
    Named (episodesToDelete mount s.duplicates) media := by
  rcases (deleteAll_adds answers (episodesToDelete mount s.duplicates) []).removed h with hnone | hnamed
  · cases hnone
  · exact hnamed

theorem named_removed {media : Media} (h : Unfailing (deleteAll answers (episodesToDelete mount s.duplicates) []))
    (hnamed : Named (episodesToDelete mount s.duplicates) media) (hne : media.parts ≠ []) :
    media ∈ removed (deleteAll answers (episodesToDelete mount s.duplicates) []) := by
  apply deleteAll_unfailing answers _ h hnamed hne
  intro entry hentry
  simp only [episodesToDelete, List.mem_flatMap, List.mem_map] at hentry
  obtain ⟨item, hitem, -, -, rfl⟩ := hentry
  exact s.item_ids (s.duplicates_sub hitem)

variable (mount) in
theorem removed_inside (hsplit : ∀ item ∈ s.duplicates, ∀ media ∈ item.media, ¬media.Split mount) {media : Media}
    (h : media ∈ removed (deleteAll answers (episodesToDelete mount s.duplicates) [])) : media.Inside mount := by
  obtain ⟨item, hitem, hmedia, hid⟩ := named_iff.1 (removed_named s answers h)
  rcases toDelete_sound hid with hnone | ⟨listed, hlisted, hreaches, heq⟩
  · cases hnone
  · have hsame := Media.eq_of_id (s.item_ids (s.duplicates_sub hitem)) hmedia hlisted (Option.some.inj heq)
    exact Media.inside_of_reaches (hsplit item hitem media hmedia) (hsame ▸ hreaches)

theorem keepsOther (hsplit : ∀ item ∈ s.duplicates, ∀ media ∈ item.media, ¬media.Split mount) :
    KeepsOther mount s (deleteAll answers (episodesToDelete mount s.duplicates) []) := by
  intro media hgone
  have hinside {gone : Media} (h : gone ∈ removed (deleteAll answers (episodesToDelete mount s.duplicates) [])) :=
    removed_inside mount s answers hsplit h
  apply And.intro (hinside hgone)
  obtain ⟨item, hitem, hmedia, hid⟩ := named_iff.1 (removed_named s answers hgone)
  refine ⟨item, s.duplicates_sub hitem, hmedia, ?_⟩
  rcases toDelete_leaves hid with hstart | ⟨kept, hkept, hleaves⟩
  · cases hstart
  · have houtside := Media.outside_of_leaves (hsplit item hitem kept hkept) hleaves
    refine ⟨kept, hkept, fun h => Media.not_inside_outside (hinside h) houtside, fun file hfile => ?_⟩
    have hfalse := houtside.2 file hfile
    apply And.intro hfalse
    intro gone hgone hin
    rw [(hinside hgone).2 file hin] at hfalse
    cases hfalse

theorem Section.duplicate (hitem : item ∈ s.items) {inside outside : Media}
    (h : inside ∈ item.media) (h' : outside ∈ item.media) (hinside : inside.Inside mount)
    (houtside : outside.Outside mount) : item ∈ s.duplicates := by
  apply List.mem_filter.2 ⟨hitem, _⟩
  have hne : inside ≠ outside := by
    rintro rfl
    exact Media.not_inside_outside hinside houtside
  rw [decide_eq_true_eq]
  obtain ⟨media⟩ := item
  match media, h, h' with
  | [only], h, h' => exact absurd ((List.mem_singleton.1 h).trans (List.mem_singleton.1 h').symm) hne
  | _ :: _ :: _, _, _ => simp

theorem lists_start_iff (hids : (item.media.map Media.id).Nodup)
    (hsplit : ∀ media ∈ item.media, ¬media.Split mount) (hout : ∃ media ∈ item.media, media.Outside mount) :
    (∀ media ∈ item.media, media.Inside mount → some media.id ∈ toDelete mount Seen.start item.media) ↔
      (item.media.takeWhile fun media => ¬media.Outside mount).countP (fun media => media.Inside mount) ≤ 1 := by
  have hlists := lists_iff Seen.start_sound rfl hsplit hids (by intro media _ h; cases h) hout
  simp only [Seen.start, Bool.false_eq_true, if_false, Nat.add_zero] at hlists
  rw [← hlists]
  constructor
  · intro h
    exact ⟨by simp, fun media hmedia hreaches => h media hmedia (Media.inside_of_reaches (hsplit media hmedia) hreaches)⟩
  · intro h media hmedia hinside
    exact h.2 media hmedia (Media.inside_iff.1 hinside).1

end

theorem all_done {calls : List Call} (h : ∀ call ∈ calls, call.answer = .done) : Unfailing calls := by
  induction calls with
  | nil => trivial
  | cons call calls ih =>
    exact ⟨.inl (h call List.mem_cons_self), ih fun c hc => h c (List.mem_cons_of_mem _ hc)⟩

theorem unfailing_done (queue : List (Item × Option Nat)) : Unfailing (deleteAll (fun _ => .done) queue []) := by
  obtain ⟨more, hcalls, hmore⟩ := deleteAll_adds (fun _ => .done) queue []
  rw [hcalls, List.append_nil]
  apply all_done
  intro call hcall
  obtain ⟨-, n, hdone⟩ := hmore call hcall
  exact hdone

/-- Whatever Plex answers, the cleanup takes the copy on the mount and no other, and takes all of them where no delete
fails, exactly on a section with orderly duplicates. -/
theorem process_keeps_iff (mount : Mount) (kind : Kind) (library : List Section) (s : Section)
    (hsection : (library.find? fun s => s.type = kind.type) = some s) :
    (∀ answers, KeepsOther mount s (process mount kind answers library) ∧
      (Unfailing (process mount kind answers library) → Cleaned mount s (process mount kind answers library))) ↔
      ∀ item ∈ s.duplicates, item.Orderly mount := by
  simp only [process, hsection]
  constructor
  · intro h item hitem
    obtain ⟨hkeeps, hcleaned⟩ := h fun _ => .done
    have hunfailing := unfailing_done (episodesToDelete mount s.duplicates)
    have hsplit : ∀ item ∈ s.duplicates, ∀ media ∈ item.media, ¬media.Split mount := by
      intro item hitem media hmedia hsplit
      have hne := Media.nonempty (.inl (Media.split_iff.1 hsplit).1)
      have hgone := named_removed s _ hunfailing (named_iff.2 ⟨item, hitem, hmedia, toDelete_split hmedia hsplit⟩) hne
      rw [Media.split_iff] at hsplit
      have hinside := Media.inside_iff.1 (hkeeps media hgone).1
      rw [hinside.2] at hsplit
      cases hsplit.2
    apply And.intro (hsplit item hitem)
    intro hout
    rw [← lists_start_iff (s.item_ids (s.duplicates_sub hitem)) (hsplit item hitem) hout]
    intro media hmedia hinside
    have hstays : ∃ outside ∈ item.media, outside ∉ removed (deleteAll (fun _ => .done)
        (episodesToDelete mount s.duplicates) []) ∧ outside.Outside mount := by
      obtain ⟨outside, hmem, houtside⟩ := hout
      exact ⟨outside, hmem, fun hgone =>
        Media.not_inside_outside (removed_inside mount s _ hsplit hgone) houtside, houtside⟩
    have hgone := hcleaned hunfailing item (s.duplicates_sub hitem) hstays media hmedia hinside
    obtain ⟨item', hitem', hmedia', hid⟩ := named_iff.1 (removed_named s _ hgone)
    rwa [← s.item_eq (s.duplicates_sub hitem) (s.duplicates_sub hitem') hmedia hmedia'] at hid
  · intro horderly answers
    have hsplit := fun item h => (horderly item h).1
    apply And.intro (keepsOther s answers hsplit)
    rintro hunfailing item hitem ⟨outside, houtsideMem, -, houtside⟩ media hmedia hinside
    have hduplicate := s.duplicate hitem hmedia houtsideMem hinside houtside
    have hout : ∃ media ∈ item.media, media.Outside mount := ⟨outside, houtsideMem, houtside⟩
    have hlisted := (lists_start_iff (s.item_ids hitem) (hsplit item hduplicate) hout).2
      ((horderly item hduplicate).2 hout) media hmedia hinside
    exact named_removed s answers hunfailing (named_iff.2 ⟨item, hduplicate, hmedia, hlisted⟩) hinside.1

def orderlyFilms : Section where
  type := "movie"
  items := [⟨[⟨1, ["/movies/Film/Film.mkv"]⟩, ⟨2, ["/data/pd_zurg/movies/Film.mkv"]⟩]⟩]
  ids := by decide

theorem process_keeps_orderly : KeepsOther (.named "pd_zurg") orderlyFilms
    (process (.named "pd_zurg") .movies (fun _ => .notFound) [orderlyFilms]) ∧
      (Unfailing (process (.named "pd_zurg") .movies (fun _ => .notFound) [orderlyFilms]) →
        Cleaned (.named "pd_zurg") orderlyFilms (process (.named "pd_zurg") .movies (fun _ => .notFound) [orderlyFilms])) :=
  (process_keeps_iff (.named "pd_zurg") .movies [orderlyFilms] orderlyFilms rfl).2 (by decide +kernel) fun _ => .notFound

def splitFilm : Media := ⟨1, ["/data/pd_zurg/movies/Film-1.mkv", "/movies/Film/Film-2.mkv"]⟩

def splitFilms : Section where
  type := "movie"
  items := [⟨[splitFilm, ⟨2, ["/data/pd_zurg/movies/Film.mkv"]⟩]⟩]
  ids := by decide

/-- Both copies go, and with them the file beside the mount. -/
theorem process_deletes_other : ¬KeepsOther (.named "pd_zurg") splitFilms
    (processMovies (.named "pd_zurg") (fun _ => .done) [splitFilms]) := by
  intro h
  have hgone : splitFilm ∈ removed (processMovies (.named "pd_zurg") (fun _ => .done) [splitFilms]) := by
    decide +kernel
  have hinside := (h _ hgone).1
  revert hinside
  decide +kernel

end Dumb.Duplicates
