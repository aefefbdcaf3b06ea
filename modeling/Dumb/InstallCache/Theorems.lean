import Mathlib.Data.List.Induction
import Dumb.InstallCache.Store

/-!
# What a run leaves in the cache

Lookups, withdrawals and checks only take away. An index file names what was last stored for its URL, and no object
stands where nothing was stored.
-/

namespace Dumb.InstallCache

open Py

/-! ## Digests -/

theorem hexDigits_lower {c : Char} (h : c ∈ hexDigits) : c.toLower = c := by
  have hall : hexDigits.all (fun c => c.toLower = c) = true := by decide
  simpa using List.all_eq_true.1 hall c h

theorem IsDigest.asciiLower {s : String} (h : IsDigest s) : asciiLower s = s := by
  have hmap : s.toList.map Char.toLower = s.toList := by
    conv_rhs => rw [← List.map_id s.toList]
    exact List.map_congr_left fun c hc => hexDigits_lower (h.2 c hc)
  rw [Py.asciiLower, hmap, String.ofList_toList]

theorem IsDigest.removeprefix {s : String} (h : IsDigest s) : removeprefix "sha256:" s = s := by
  rw [InstallCache.removeprefix, if_neg]
  intro hopening
  cases hs : s.toList with
  | nil =>
    rw [hs] at hopening
    cases hopening
  | cons c cs =>
    have hc := h.2 c (by rw [hs]; exact List.mem_cons_self)
    rw [hs, show "sha256:".toList = 's' :: "ha256:".toList by decide, List.isPrefixOf_cons_cons, Bool.and_eq_true,
      beq_iff_eq] at hopening
    rw [← hopening.1] at hc
    revert hc
    decide

theorem IsDigest.normalize {s : String} (h : IsDigest s) : normalize s = s := by
  rw [InstallCache.normalize, h.asciiLower, h.removeprefix]

variable {sha : Sha256} {enabled : Bool}

@[simp] theorem normalize_digest (content : Bytes) : normalize (sha.digest content) = sha.digest content :=
  (sha.hex content).normalize

/-! ## Steps -/

structure Sub (cache' cache : Cache) : Prop where
  objects : ∀ digest content, cache'.objects digest = some content → cache.objects digest = some content
  index : ∀ url metadata, cache'.index url = some metadata → cache.index url = some metadata

theorem Sub.refl (cache : Cache) : Sub cache cache := ⟨fun _ _ h => h, fun _ _ h => h⟩

theorem Sub.trans {c₁ c₂ c₃ : Cache} (h : Sub c₁ c₂) (h' : Sub c₂ c₃) : Sub c₁ c₃ :=
  ⟨fun _ _ hc => h'.objects _ _ (h.objects _ _ hc), fun _ _ hm => h'.index _ _ (h.index _ _ hm)⟩

theorem update_none {α β : Type} [DecidableEq α] {f : α → Option β} {a q : α} {b : β}
    (h : Function.update f a none q = some b) : q ≠ a ∧ f q = some b := by
  rw [Function.update_apply] at h
  split at h
  · cases h
  · exact ⟨‹_›, h⟩

theorem sub_quarantineObject (cache : Cache) (digest : String) : Sub (cache.quarantineObject digest) cache :=
  ⟨fun _ _ h => (update_none h).2, fun _ _ h => h⟩

theorem sub_quarantineIndex (cache : Cache) (url : String) : Sub (cache.quarantineIndex url) cache :=
  ⟨fun _ _ h => h, fun _ _ h => (update_none h).2⟩

theorem sub_lookupContent (digest : String) (cache : Cache) : Sub (lookupContent sha digest cache).2 cache := by
  rw [lookupContent]
  split
  · split
    · exact .refl _
    · split
      · exact .refl _
      · exact sub_quarantineObject _ _
  · exact .refl _

theorem sub_lookupDownload (url : String) (cache : Cache) : Sub (lookupDownload sha enabled url cache).2 cache := by
  rw [lookupDownload]
  split
  · split
    · exact .refl _
    · rename_i metadata _
      have hsub := @sub_lookupContent sha metadata.sha256 cache
      split
      · split
        · rename_i after hlookup
          rw [hlookup] at hsub
          exact (sub_quarantineIndex _ _).trans hsub
        · rename_i after hlookup
          rw [hlookup] at hsub
          exact hsub
      · exact sub_quarantineIndex _ _
  · exact .refl _

theorem sub_invalidateDownload (url : String) (cache : Cache) : Sub (invalidateDownload url cache) cache := by
  rw [invalidateDownload]
  split
  · exact .refl _
  · split
    · exact (sub_quarantineIndex _ _).trans (sub_quarantineObject _ _)
    · exact sub_quarantineIndex _ _

theorem sub_verify (cache : Cache) : Sub (verify sha cache) cache :=
  ⟨fun _ _ h => (Option.filter_eq_some_iff.1 h).1, fun _ _ h => h⟩

variable {digest : String} {found : Bytes}

theorem keepObject_objects {cache : Cache} {content : Bytes} {d : String}
    (h : (cache.keepObject digest content).objects d = some found) :
    cache.objects d = some found ∨ d = digest ∧ found = content := by
  rw [Cache.keepObject] at h
  split at h
  · exact .inl h
  · dsimp only at h
    rw [Function.update_apply] at h
    split at h
    · exact .inr ⟨‹_›, (Option.some.inj h).symm⟩
    · exact .inl h

@[simp] theorem keepObject_index (cache : Cache) (digest : String) (content : Bytes) :
    (cache.keepObject digest content).index = cache.index := by
  rw [Cache.keepObject]
  split <;> rfl

theorem keepObject_keeps {cache : Cache} {content : Bytes} {d : String}
    (h : cache.objects d = some found) : (cache.keepObject digest content).objects d = some found := by
  rw [Cache.keepObject]
  split
  · exact h
  · rename_i hnone
    dsimp only
    rw [Function.update_of_ne, h]
    rintro rfl
    rw [h] at hnone
    cases hnone

/-! ## The invariant -/

structure Inv (sha : Sha256) (enabled : Bool) (ops : List Op) (cache : Cache) : Prop where
  index : ∀ url metadata, cache.index url = some metadata →
    ∃ content, lastFor enabled url ops = some content ∧ metadata.sha256 = sha.digest content
  objects : ∀ digest content, cache.objects digest = some content →
    (∃ stored, lastOf sha enabled digest ops = some stored ∧ sha.digest stored = digest) ∧ content ∈ contents ops

theorem Inv.empty : Inv sha enabled [] Cache.empty := ⟨fun _ _ h => (nomatch h), fun _ _ h => (nomatch h)⟩

theorem lastFor_append (url : String) (ops : List Op) (op : Op) :
    lastFor enabled url (ops ++ [op]) = (op.contentFor enabled url).or (lastFor enabled url ops) := by
  simp [lastFor]

theorem lastOf_append (digest : String) (ops : List Op) (op : Op) :
    lastOf sha enabled digest (ops ++ [op]) = (op.contentOf sha enabled digest).or (lastOf sha enabled digest ops) := by
  simp [lastOf]

theorem mem_contents_append {content : Bytes} {ops : List Op} {op : Op} :
    content ∈ contents (ops ++ [op]) ↔ content ∈ contents ops ∨ content ∈ op.contents := by
  simp [contents]

theorem contentOf_digest {op : Op} {content : Bytes}
    (h : op.contentOf sha enabled digest = some content) : sha.digest content = digest := by
  cases op with
  | storeDownload url stored labels =>
    simp only [Op.contentOf, Option.ite_none_right_eq_some] at h
    obtain ⟨⟨-, hdigest⟩, heq⟩ := h
    exact Option.some.inj heq ▸ hdigest
  | storeContentFile source d =>
    simp only [Op.contentOf, Option.ite_none_right_eq_some] at h
    obtain ⟨⟨hsource, hdigest⟩, heq⟩ := h
    exact Option.some.inj heq ▸ hsource.trans hdigest
  | _ => cases h

theorem stored_append {ops : List Op} (op : Op)
    (h : ∃ stored, lastOf sha enabled digest ops = some stored ∧ sha.digest stored = digest) :
    ∃ stored, lastOf sha enabled digest (ops ++ [op]) = some stored ∧ sha.digest stored = digest := by
  rw [lastOf_append]
  cases hcontent : op.contentOf sha enabled digest with
  | none => exact h
  | some content => exact ⟨content, rfl, contentOf_digest hcontent⟩

theorem Inv.sub {ops : List Op} {cache cache' : Cache} (h : Inv sha enabled ops cache) {op : Op}
    (hop : ∀ url, op.contentFor enabled url = none) (hsub : Sub cache' cache) :
    Inv sha enabled (ops ++ [op]) cache' where
  index url metadata hmetadata := by
    rw [lastFor_append, hop]
    exact h.index url metadata (hsub.index _ _ hmetadata)
  objects digest content hcontent := by
    have hold := h.objects digest content (hsub.objects _ _ hcontent)
    exact ⟨stored_append op hold.1, mem_contents_append.2 (.inl hold.2)⟩

theorem Inv.storeDownload {ops : List Op} {cache : Cache} (h : Inv sha enabled ops cache) (url : String)
    (content : Bytes) (labels : Labels) :
    Inv sha enabled (ops ++ [.storeDownload url content labels])
      (storeDownload sha enabled url content labels cache).2 := by
  rw [InstallCache.storeDownload]
  cases henabled : enabled with
  | false =>
    rw [henabled] at h
    exact h.sub (by simp [Op.contentFor]) (.refl _)
  | true =>
    rw [henabled] at h
    simp only [if_true]
    constructor
    · intro u metadata hmetadata
      rw [lastFor_append]
      dsimp only at hmetadata
      rw [Function.update_apply] at hmetadata
      split at hmetadata
      · rename_i hu
        subst hu
        exact ⟨content, by simp [Op.contentFor], by rw [← Option.some.inj hmetadata]; rfl⟩
      · rename_i hu
        have hnone : (Op.storeDownload url content labels).contentFor true u = none := by
          simp [Op.contentFor, Ne.symm hu]
        rw [hnone]
        rw [keepObject_index] at hmetadata
        exact h.index u metadata hmetadata
    · intro digest found hfound
      rcases keepObject_objects hfound with hfound | ⟨rfl, rfl⟩
      · have hold := h.objects digest found hfound
        exact ⟨stored_append _ hold.1, mem_contents_append.2 (.inl hold.2)⟩
      · constructor
        · exact ⟨found, by simp [lastOf_append, Op.contentOf], rfl⟩
        · exact mem_contents_append.2 (.inr (by simp [Op.contents]))

theorem Inv.storeContentFile {ops : List Op} {cache : Cache} (h : Inv sha enabled ops cache) (source : Bytes)
    (digest : String) : Inv sha enabled (ops ++ [.storeContentFile source digest])
      (storeContentFile sha source digest cache).2 := by
  rw [InstallCache.storeContentFile]
  split
  · rename_i haccepted
    constructor
    · intro url metadata hmetadata
      rw [lastFor_append]
      dsimp only at hmetadata
      rw [keepObject_index] at hmetadata
      exact h.index url metadata hmetadata
    · intro d found hfound
      rcases keepObject_objects hfound with hfound | ⟨rfl, rfl⟩
      · have hold := h.objects d found hfound
        exact ⟨stored_append _ hold.1, mem_contents_append.2 (.inl hold.2)⟩
      · constructor
        · exact ⟨found, by simp [lastOf_append, Op.contentOf, haccepted.2], haccepted.2⟩
        · exact mem_contents_append.2 (.inr (by simp [Op.contents]))
  · exact h.sub (fun _ => rfl) (.refl _)

theorem Inv.corrupt {ops : List Op} {cache : Cache} (h : Inv sha enabled ops cache) (digest : String)
    (content : Bytes) :
    Inv sha enabled (ops ++ [.corrupt digest content]) (step sha enabled cache (.corrupt digest content)) := by
  rw [step]
  split
  · exact h.sub (fun _ => rfl) (.refl _)
  · rename_i old hold
    constructor
    · intro url metadata hmetadata
      rw [lastFor_append]
      exact h.index url metadata hmetadata
    · intro d found hfound
      dsimp only at hfound
      rw [Function.update_apply] at hfound
      split at hfound
      · rename_i hd
        subst hd
        exact ⟨stored_append _ (h.objects d old hold).1,
          mem_contents_append.2 (.inr (by simp [Op.contents, ← Option.some.inj hfound]))⟩
      · have hbefore := h.objects d found hfound
        exact ⟨stored_append _ hbefore.1, mem_contents_append.2 (.inl hbefore.2)⟩

theorem Inv.step {ops : List Op} {cache : Cache} (h : Inv sha enabled ops cache) (op : Op) :
    Inv sha enabled (ops ++ [op]) (step sha enabled cache op) := by
  cases op with
  | storeDownload url content labels => exact h.storeDownload url content labels
  | storeContentFile source digest => exact h.storeContentFile source digest
  | lookupDownload url => exact h.sub (fun _ => rfl) (sub_lookupDownload url cache)
  | lookupContent digest => exact h.sub (fun _ => rfl) (sub_lookupContent digest cache)
  | invalidateDownload url => exact h.sub (fun _ => rfl) (sub_invalidateDownload url cache)
  | verify => exact h.sub (fun _ => rfl) (sub_verify cache)
  | corrupt digest content => exact h.corrupt digest content

theorem run_inv (ops : List Op) : Inv sha enabled ops (run sha enabled Cache.empty ops) := by
  induction ops using List.reverseRecOn with
  | nil => exact .empty
  | append_singleton ops op ih =>
    have hrun : run sha enabled Cache.empty (ops ++ [op]) =
        InstallCache.step sha enabled (run sha enabled Cache.empty ops) op := by
      simp [run]
    rw [hrun]
    exact ih.step op

/-! ## What stays after a store -/

def HoldsObject (sha : Sha256) (digest : String) (cache : Cache) (found : Bytes) : Prop :=
  cache.objects digest = some found ∧ sha.digest found = digest

def Names (url digest : String) (cache : Cache) : Prop :=
  ∃ metadata, cache.index url = some metadata ∧ metadata.sha256 = digest

theorem HoldsObject.quarantine {digest other : String} {cache : Cache}
    (h : HoldsObject sha digest cache found) (hne : digest ≠ other) :
    HoldsObject sha digest (cache.quarantineObject other) found := by
  have hkept : (cache.quarantineObject other).objects digest = cache.objects digest := Function.update_of_ne hne _ _
  exact ⟨hkept.trans h.1, h.2⟩

theorem HoldsObject.lookupContent {digest : String} {cache : Cache} {found : Bytes}
    (h : HoldsObject sha digest cache found) (asked : String) :
    HoldsObject sha digest (InstallCache.lookupContent sha asked cache).2 found := by
  rw [InstallCache.lookupContent]
  split
  · split
    · exact h
    · rename_i content hcontent
      split
      · exact h
      · rename_i hbad
        apply h.quarantine
        rintro rfl
        rw [h.1] at hcontent
        exact hbad (Option.some.inj hcontent ▸ h.2)
  · exact h

theorem lookupContent_index (asked : String) (cache : Cache) :
    (lookupContent sha asked cache).2.index = cache.index := by
  rw [lookupContent]
  split
  · split
    · rfl
    · split
      · dsimp only
      · dsimp only [Cache.quarantineObject]
  · rfl

theorem HoldsObject.hits {cache : Cache} (h : HoldsObject sha digest cache found)
    {asked : String} (hasked : normalize asked = digest) :
    InstallCache.lookupContent sha asked cache = (some found, cache) := by
  have hdigest : IsDigest digest := h.2 ▸ sha.hex found
  rw [InstallCache.lookupContent, hasked, if_pos hdigest, h.1]
  simp [h.2]

theorem IsDigest.length {s : String} (h : IsDigest s) : s.toList.length = 64 := h.1

theorem lookupDownload_hit {url : String} {cache : Cache} {metadata : Metadata}
    (hmetadata : cache.index url = some metadata) (h : HoldsObject sha metadata.sha256 cache found) :
    lookupDownload sha true url cache = (some (found, metadata), cache) := by
  have hdigest : IsDigest metadata.sha256 := h.2 ▸ sha.hex found
  rw [lookupDownload, hmetadata]
  dsimp only
  rw [if_pos rfl, if_pos hdigest.length, h.hits hdigest.normalize]

theorem HoldsObject.step {digest : String} {cache : Cache} {found : Bytes} (h : HoldsObject sha digest cache found)
    {op : Op} (hop : ¬op.Takes digest cache) : HoldsObject sha digest (step sha enabled cache op) found := by
  cases op with
  | storeDownload url content labels =>
    rw [InstallCache.step, InstallCache.storeDownload]
    split
    · exact ⟨keepObject_keeps h.1, h.2⟩
    · exact h
  | storeContentFile source d =>
    rw [InstallCache.step, InstallCache.storeContentFile]
    split
    · exact ⟨keepObject_keeps h.1, h.2⟩
    · exact h
  | lookupDownload url =>
    rw [InstallCache.step, InstallCache.lookupDownload]
    split
    · split
      · exact h
      · rename_i metadata _
        split
        · have hlookup := h.lookupContent metadata.sha256
          generalize InstallCache.lookupContent sha metadata.sha256 cache = answer at hlookup
          obtain ⟨_ | _, after⟩ := answer
          · exact hlookup
          · exact hlookup
        · exact h
    · exact h
  | lookupContent asked => exact h.lookupContent asked
  | invalidateDownload url =>
    rw [InstallCache.step, InstallCache.invalidateDownload]
    split
    · exact h
    · rename_i metadata hmetadata
      have hne : digest ≠ metadata.sha256 := fun heq => hop ⟨metadata, hmetadata, heq.symm⟩
      split
      · exact h.quarantine hne
      · exact h
  | verify =>
    apply And.intro _ h.2
    rw [InstallCache.step, InstallCache.verify, Option.filter_eq_some_iff]
    apply And.intro h.1
    have hdigest : IsDigest digest := h.2 ▸ sha.hex found
    simp [hdigest.length, h.2]
  | corrupt d content =>
    rw [InstallCache.step]
    split
    · exact h
    · apply And.intro _ h.2
      dsimp only
      rw [Function.update_of_ne fun heq => hop heq.symm]
      exact h.1

theorem Names.step {url : String} {content : Bytes} {cache : Cache} {found : Bytes}
    (h : Names url (sha.digest content) cache) (hobject : HoldsObject sha (sha.digest content) cache found) {op : Op}
    (hop : ¬op.Takes (sha.digest content) cache) (hop' : ¬op.Replaces url content) :
    Names url (sha.digest content) (step sha enabled cache op) := by
  obtain ⟨metadata, hmetadata, hdigest⟩ := h
  cases op with
  | storeDownload u other labels =>
    rw [InstallCache.step, InstallCache.storeDownload]
    split
    · by_cases hu : url = u
      · have hsame : other = content := by
          by_contra hne
          exact hop' ⟨hu.symm, hne⟩
        exact ⟨_, by rw [hu]; exact Function.update_self .., by rw [hsame]; rfl⟩
      · use metadata
        dsimp only
        rw [Function.update_of_ne hu, keepObject_index]
        exact ⟨hmetadata, hdigest⟩
    · exact ⟨metadata, hmetadata, hdigest⟩
  | storeContentFile source d =>
    rw [InstallCache.step, InstallCache.storeContentFile]
    use metadata
    split
    · dsimp only
      rw [keepObject_index]
      exact ⟨hmetadata, hdigest⟩
    · exact ⟨hmetadata, hdigest⟩
  | lookupDownload u =>
    rw [InstallCache.step]
    cases enabled with
    | false => exact ⟨metadata, hmetadata, hdigest⟩
    | true =>
      by_cases hu : url = u
      · subst hu
        rw [lookupDownload_hit hmetadata (hdigest ▸ hobject)]
        exact ⟨metadata, hmetadata, hdigest⟩
      · rw [InstallCache.lookupDownload, if_pos rfl]
        split
        · exact ⟨metadata, hmetadata, hdigest⟩
        · rename_i named _
          have hkept : (cache.quarantineIndex u).index url = cache.index url := Function.update_of_ne hu _ _
          use metadata
          split
          · have hindex := @lookupContent_index sha named.sha256 cache
            generalize InstallCache.lookupContent sha named.sha256 cache = answer at hindex
            obtain ⟨_ | _, after⟩ := answer
            · dsimp only [Cache.quarantineIndex] at hindex ⊢
              rw [Function.update_of_ne hu, hindex]
              exact ⟨hmetadata, hdigest⟩
            · dsimp only at hindex ⊢
              rw [hindex]
              exact ⟨hmetadata, hdigest⟩
          · exact ⟨hkept.trans hmetadata, hdigest⟩
  | lookupContent asked => exact ⟨metadata, by rw [InstallCache.step, lookupContent_index, hmetadata], hdigest⟩
  | invalidateDownload u =>
    rw [InstallCache.step, InstallCache.invalidateDownload]
    have hne : url ≠ u := by
      rintro rfl
      exact hop ⟨metadata, hmetadata, hdigest⟩
    have hkept : (cache.quarantineIndex u).index url = cache.index url := Function.update_of_ne hne _ _
    use metadata
    split
    · exact ⟨hmetadata, hdigest⟩
    · split
      · exact ⟨hkept.trans hmetadata, hdigest⟩
      · exact ⟨hkept.trans hmetadata, hdigest⟩
  | verify => exact ⟨metadata, hmetadata, hdigest⟩
  | corrupt d other =>
    use metadata
    rw [InstallCache.step]
    split
    · exact ⟨hmetadata, hdigest⟩
    · exact ⟨hmetadata, hdigest⟩

end Dumb.InstallCache

/-! ## What a lookup returns

Among the contents that occur no two have one digest.
-/

namespace Dumb.InstallCache

open Py

variable {sha : Sha256} {enabled : Bool}

variable {cache : Cache} {content : Bytes}

theorem lookupContent_found {digest : String}
    (h : (lookupContent sha digest cache).1 = some content) :
    cache.objects (normalize digest) = some content ∧ sha.digest content = normalize digest := by
  rw [lookupContent] at h
  split at h
  · split at h
    · cases h
    · rename_i found hfound
      split at h
      · rename_i hdigest
        rw [← Option.some.inj h]
        exact ⟨hfound, hdigest⟩
      · cases h
  · cases h

variable {url : String} {metadata : Metadata}

theorem lookupDownload_found
    (h : (lookupDownload sha enabled url cache).1 = some (content, metadata)) :
    cache.index url = some metadata ∧ (lookupContent sha metadata.sha256 cache).1 = some content := by
  rw [lookupDownload] at h
  split at h
  · split at h
    · cases h
    · rename_i named hnamed
      split at h
      · generalize hlookup : lookupContent sha named.sha256 cache = answer at h
        obtain ⟨_ | found, after⟩ := answer
        · cases h
        · simp only [Option.some.injEq, Prod.mk.injEq] at h
          obtain ⟨rfl, rfl⟩ := h
          exact ⟨hnamed, by rw [hlookup]⟩
      · cases h
  · cases h

theorem lastFor_mem {ops : List Op} (h : lastFor enabled url ops = some content) :
    content ∈ contents ops := by
  induction ops using List.reverseRecOn with
  | nil => cases h
  | append_singleton ops op ih =>
    rw [mem_contents_append]
    rw [lastFor_append] at h
    cases hop : op.contentFor enabled url with
    | none =>
      rw [hop] at h
      exact .inl (ih h)
    | some stored =>
      rw [hop] at h
      obtain rfl := Option.some.inj h
      right
      cases op with
      | storeDownload u found labels =>
        simp only [Op.contentFor, Option.ite_none_right_eq_some, Option.some.injEq] at hop
        simp [Op.contents, hop.2]
      | _ => cases hop

theorem lastOf_mem {digest : String} {ops : List Op}
    (h : lastOf sha enabled digest ops = some content) : content ∈ contents ops := by
  induction ops using List.reverseRecOn with
  | nil => cases h
  | append_singleton ops op ih =>
    rw [mem_contents_append]
    rw [lastOf_append] at h
    cases hop : op.contentOf sha enabled digest with
    | none =>
      rw [hop] at h
      exact .inl (ih h)
    | some stored =>
      rw [hop] at h
      obtain rfl := Option.some.inj h
      right
      cases op with
      | storeDownload u found labels =>
        simp only [Op.contentOf, Option.ite_none_right_eq_some, Option.some.injEq] at hop
        simp [Op.contents, hop.2]
      | storeContentFile source d =>
        simp only [Op.contentOf, Option.ite_none_right_eq_some, Option.some.injEq] at hop
        simp [Op.contents, hop.2]
      | _ => cases hop

theorem lookupContent_last {ops : List Op} (hinj : Set.InjOn sha.digest {b | b ∈ contents ops}) {digest : String}
    (h : (lookupContent sha digest (run sha enabled Cache.empty ops)).1 = some content) :
    lastOf sha enabled (normalize digest) ops = some content := by
  obtain ⟨hobject, hdigest⟩ := lookupContent_found h
  obtain ⟨⟨stored, hlast, hstored⟩, hmem⟩ := (run_inv ops).objects _ _ hobject
  rw [hlast, hinj hmem (lastOf_mem hlast) (hdigest.trans hstored.symm)]

theorem lookupDownload_last {ops : List Op} (hinj : Set.InjOn sha.digest {b | b ∈ contents ops})
   
    (h : (lookupDownload sha enabled url (run sha enabled Cache.empty ops)).1 = some (content, metadata)) :
    lastFor enabled url ops = some content := by
  obtain ⟨hindex, hlookup⟩ := lookupDownload_found h
  obtain ⟨stored, hlast, hdigest⟩ := (run_inv ops).index _ _ hindex
  obtain ⟨hobject, hfound⟩ := lookupContent_found hlookup
  rw [hdigest, normalize_digest] at hobject hfound
  rw [hlast, hinj ((run_inv ops).objects _ _ hobject).2 (lastFor_mem hlast) hfound]

theorem keepObject_intact (h : Intact sha content cache) :
    ∃ found, HoldsObject sha (sha.digest content) (cache.keepObject (sha.digest content) content) found ∧
      (found = content ∨ cache.objects (sha.digest content) = some found) := by
  rw [Cache.keepObject]
  split
  · rename_i found hfound
    exact ⟨found, ⟨hfound, h found hfound⟩, .inr hfound⟩
  · exact ⟨content, ⟨Function.update_self .., rfl⟩, .inl rfl⟩

theorem keepObject_damaged (h : ¬Intact sha content cache) :
    cache.keepObject (sha.digest content) content = cache := by
  simp only [Intact, not_forall] at h
  obtain ⟨found, hfound, -⟩ := h
  rw [Cache.keepObject, hfound]

theorem lookupContent_damaged (h : ¬Intact sha content cache) {asked : String}
    (hasked : normalize asked = sha.digest content) : (lookupContent sha asked cache).1 = none := by
  simp only [Intact, not_forall] at h
  obtain ⟨found, hfound, hbad⟩ := h
  rw [lookupContent, hasked, if_pos (sha.hex content), hfound]
  simp [hbad]

theorem lookupDownload_damaged {url : String} {cache : Cache} {content : Bytes} {metadata : Metadata}
    (hindex : cache.index url = some metadata) (hdigest : metadata.sha256 = sha.digest content)
    (h : ¬Intact sha content cache) : (lookupDownload sha enabled url cache).1 = none := by
  cases hanswer : (lookupDownload sha enabled url cache).1 with
  | none => rfl
  | some answer =>
    obtain ⟨hsame, hlookup⟩ := lookupDownload_found hanswer
    rw [hindex, Option.some.injEq] at hsame
    rw [← hsame, lookupContent_damaged h (by rw [hdigest, normalize_digest])] at hlookup
    cases hlookup

theorem keepObject_content {ops : List Op}
    (hinj : Set.InjOn sha.digest {b | b = content ∨ b ∈ contents ops})
    (h : Intact sha content (run sha enabled Cache.empty ops)) :
    HoldsObject sha (sha.digest content)
      ((run sha enabled Cache.empty ops).keepObject (sha.digest content) content) content := by
  obtain ⟨found, hfound, hsource⟩ := keepObject_intact h
  have hmem : found = content ∨ found ∈ contents ops := hsource.imp_right fun h => ((run_inv ops).objects _ _ h).2
  have heq : found = content := hinj hmem (.inl rfl) hfound.2
  exact heq ▸ hfound

theorem finds_download
    (hobject : HoldsObject sha (sha.digest content) cache content) (hnames : Names url (sha.digest content) cache) :
    FindsDownload sha true url content cache := by
  intro after hafter
  have hinv : HoldsObject sha (sha.digest content) (run sha true cache after) content ∧
      Names url (sha.digest content) (run sha true cache after) := by
    apply Along.foldl (I := fun cache => HoldsObject sha (sha.digest content) cache content ∧
      Names url (sha.digest content) cache) hafter
    · intro cache op _ hop hholds
      exact ⟨hholds.1.step hop.1, hholds.2.step hholds.1 hop.1 hop.2⟩
    · exact ⟨hobject, hnames⟩
  obtain ⟨hholds, named, hnamed, hdigest⟩ := hinv
  rw [lookupDownload_hit hnamed (hdigest ▸ hholds)]
  rfl

theorem finds_content {digest : String} (hdigest : normalize digest = sha.digest content)
    (hobject : HoldsObject sha (sha.digest content) cache content) : FindsContent sha enabled digest content cache := by
  intro after hafter
  have hholds : HoldsObject sha (sha.digest content) (run sha enabled cache after) content := by
    apply Along.foldl (I := fun cache => HoldsObject sha (sha.digest content) cache content) hafter
    · intro cache op _ hop hholds
      exact hholds.step hop
    · exact hobject
  rw [hholds.hits hdigest]

theorem findsDownload_iff {ops : List Op}
    (hinj : Set.InjOn sha.digest {b | b = content ∨ b ∈ contents ops}) (url : String) (labels : Labels)
   
    (hstored : (storeDownload sha enabled url content labels (run sha enabled Cache.empty ops)).1 = some metadata) :
    FindsDownload sha enabled url content
        (storeDownload sha enabled url content labels (run sha enabled Cache.empty ops)).2 ↔
      Intact sha content (run sha enabled Cache.empty ops) := by
  cases henabled : enabled with
  | false =>
    rw [henabled] at hstored
    cases hstored
  | true =>
    subst henabled
    simp only [storeDownload, if_true]
    constructor
    · intro h
      by_contra hdamaged
      have hfound := h [] trivial
      rw [keepObject_damaged hdamaged, run, List.foldl_nil,
        @lookupDownload_damaged sha true url ⟨_, Function.update _ url (some (metadataFor sha url content labels))⟩
          content _ (Function.update_self ..) rfl hdamaged] at hfound
      cases hfound
    · intro hintact
      have hobject := keepObject_content hinj hintact
      exact finds_download hobject ⟨metadataFor sha url content labels, Function.update_self .., rfl⟩

theorem findsContent_iff {ops : List Op}
    (hinj : Set.InjOn sha.digest {b | b = content ∨ b ∈ contents ops}) (digest : String) {path : String}
    (hstored : (storeContentFile sha content digest (run sha enabled Cache.empty ops)).1 = some path) :
    FindsContent sha enabled digest content
        (storeContentFile sha content digest (run sha enabled Cache.empty ops)).2 ↔
      Intact sha content (run sha enabled Cache.empty ops) := by
  rw [storeContentFile] at hstored ⊢
  split at hstored
  · rename_i haccepted
    rw [if_pos haccepted]
    dsimp only
    rw [← haccepted.2]
    constructor
    · intro h
      by_contra hdamaged
      have hmiss := h [] trivial
      rw [keepObject_damaged hdamaged, run, List.foldl_nil, lookupContent_damaged hdamaged haccepted.2.symm] at hmiss
      cases hmiss
    · intro hintact
      exact finds_content haccepted.2.symm (keepObject_content hinj hintact)
  · cases hstored

/-- A lookup returns nothing but what was last stored, and finds what was stored last, as long as nothing takes it away,
exactly where the store met no damaged object. -/
theorem cache_exact (sha : Sha256) (enabled : Bool) (ops : List Op) (content : Bytes)
    (hinj : Set.InjOn sha.digest {b | b = content ∨ b ∈ contents ops}) :
    (∀ url found metadata, (lookupDownload sha enabled url (run sha enabled Cache.empty ops)).1 = some (found, metadata) →
      lastFor enabled url ops = some found) ∧
    (∀ digest found, (lookupContent sha digest (run sha enabled Cache.empty ops)).1 = some found →
      lastOf sha enabled (normalize digest) ops = some found) ∧
    (∀ url labels metadata,
      (storeDownload sha enabled url content labels (run sha enabled Cache.empty ops)).1 = some metadata →
      (FindsDownload sha enabled url content
          (storeDownload sha enabled url content labels (run sha enabled Cache.empty ops)).2 ↔
        Intact sha content (run sha enabled Cache.empty ops))) ∧
    ∀ digest path, (storeContentFile sha content digest (run sha enabled Cache.empty ops)).1 = some path →
      (FindsContent sha enabled digest content
          (storeContentFile sha content digest (run sha enabled Cache.empty ops)).2 ↔
        Intact sha content (run sha enabled Cache.empty ops)) := by
  have hinj' : Set.InjOn sha.digest {b | b ∈ contents ops} := hinj.mono fun _ h => .inr h
  exact ⟨fun _ _ _ => lookupDownload_last hinj', fun _ _ => lookupContent_last hinj',
    fun url labels _ => findsDownload_iff hinj url labels, fun digest _ => findsContent_iff hinj digest⟩

def Sha256.lengths : Sha256 where
  digest content := String.ofList (List.replicate 64 (hexDigits.getD (content.length % 16) '0'))
  hex content := by
    constructor
    · simp
    · intro c hc
      rw [String.toList_ofList, List.mem_replicate] at hc
      rw [hc.2]
      have hlt : content.length % 16 < 16 := Nat.mod_lt _ (by decide)
      revert hlt
      generalize content.length % 16 = n
      revert n
      decide

def release : Bytes := [82, 49]

def noLabels : Labels := ⟨none, none, none, none⟩

def releaseUrl : String := "https://example.com/release.zip"

theorem cache_finds_release : FindsDownload .lengths true releaseUrl release
    (storeDownload .lengths true releaseUrl release noLabels Cache.empty).2 :=
  ((cache_exact .lengths true [] release (by intro a ha b hb _; simp [contents] at ha hb; rw [ha, hb])).2.2.1 releaseUrl
    noLabels _ rfl).2 (fun _ h => nomatch h)

/-- The object of a release was cut. -/
theorem store_keeps_damaged : (storeDownload .lengths true releaseUrl release noLabels
      (run .lengths true Cache.empty
        [.storeDownload releaseUrl release noLabels, .corrupt (Sha256.lengths.digest release) []])).1.isSome = true ∧
    (lookupDownload .lengths true releaseUrl (storeDownload .lengths true releaseUrl release noLabels
      (run .lengths true Cache.empty
        [.storeDownload releaseUrl release noLabels, .corrupt (Sha256.lengths.digest release) []])).2).1 = none := by
  decide +kernel

end Dumb.InstallCache
