import Dumb.User.Migration

/-!
# What a migration keeps, however often it is interrupted
-/

namespace Dumb.User

open Crash Prog Py Tree

variable {γ : Type} {job : Job γ} {first w : World γ}

structure Start (job : Job γ) (w : World γ) : Prop where
  tree : Closed w.original.files
  mount : w.mount = false
  own : ∀ text, w.original = .link text → text = job.dataPath

/-- Every regular file of the original is in one of the two trees, unless its place in the data path was taken. -/
def Kept (first w : World γ) : Prop :=
  ∀ p c, first.original.files.get? p = some (.file c) →
    first.data.files.get? p ≠ none ∨ w.original.files.get? p = some (.file c) ∨ w.data.files.get? p = some (.file c)

/-- A run that does not copy, since the data path is not empty, finds there every regular file that is still in
the original. -/
def Ready (first w : World γ) : Prop :=
  w.original.files ≠ [] → w.data.files ≠ [] → ∀ p c, w.original.files.get? p = some (.file c) →
    first.data.files.get? p ≠ none ∨ w.data.files.get? p = some (.file c)

structure Rest (job : Job γ) (first w : World γ) : Prop where
  distinct : (Dict.keys w.original.files).Nodup
  mount : w.mount = false
  own : ∀ text, w.original = .link text → text = job.dataPath
  less : ∀ p node, w.original.files.get? p = some node → first.original.files.get? p = some node

theorem Start.rest (h : Start job w) : Rest job w w := ⟨h.tree.distinct, h.mount, h.own, fun _ _ h => h⟩

theorem Start.kept (w : World γ) : Kept w w := fun _ _ h => .inr (.inl h)

def Moved (first w : World γ) : Prop :=
  w.data.isThere = true ∧ ∀ p c, first.original.files.get? p = some (.file c) →
    first.data.files.get? p ≠ none ∨ w.data.files.get? p = some (.file c)

theorem Moved.kept (h : Moved first w) : Kept first w := fun p c hp => (h.2 p c hp).imp_right .inr

abbrev Any : Fate Exc (Files γ) → Prop := fun _ => True

/-- What a run from `w` may leave. -/
structure Left (job : Job γ) (first w w' : World γ) : Prop where
  rest : Rest job first w'
  data : w.data.files ≠ [] → w'.data = w.data
  kept : Ready first w → Kept first w → Kept first w'

/-- What a run from `w` has come to when it turns to the original path. -/
structure Secured (job : Job γ) (first w w' : World γ) : Prop where
  rest : Rest job first w'
  data : w.data.files ≠ [] → w'.data = w.data
  there : w'.data.isThere = true
  moved : Ready first w → Kept first w → Moved first w'

theorem Secured.left {w' : World γ} (h : Secured job first w w') : Left job first w w' :=
  ⟨h.rest, h.data, fun hr hk => (h.moved hr hk).kept⟩

variable {w' : World γ}

theorem still {β : Type} {Q : β → World γ → Prop} {f : World γ → β} {I : World γ → Prop} (h : I w) (hq : Q (f w) w) :
    wp Any (look f : Fs γ β) Q (fun _ => I) I w :=
  wp_look hq (fun _ _ _ => h) (fun _ => h)

/-! ## The original path -/

variable {spot : Spot γ}

theorem Secured.original (h : Secured job first w w') (hn : (Dict.keys spot.files).Nodup)
    (hown : ∀ text, spot = .link text → text = job.dataPath)
    (hless : ∀ p node, spot.files.get? p = some node → w'.original.files.get? p = some node) :
    Secured job first w { w' with original := spot } :=
  ⟨⟨hn, h.rest.mount, hown, fun p node hp => h.rest.less p node (hless p node hp)⟩, h.data, h.there, h.moved⟩

theorem removeOriginal_spec (h : Secured job first w w') :
    wp Any removeOriginal (fun _ w'' => Secured job first w w'' ∧ w''.original = .missing)
      (fun _ => Secured job first w) (Secured job first w) w' := by
  have hcut : ∀ t : Files γ, Secured job first w
      { w' with original := .dir (w'.original.files.filter fun e => (Dict.keys t).contains e.1) } := by
    intro t
    refine h.original (List.Nodup.sublist (List.Sublist.map _ List.filter_sublist) h.rest.distinct) nofun ?_
    intro p node hp
    rw [Spot.files, Dict.get?_filter fun q => (Dict.keys t).contains q] at hp
    split at hp
    · exact hp
    · cases hp
  refine wp_call ?_ ?_ (fun _ t _ => hcut t) (fun t _ => hcut t)
  · intro _ w'' he
    split at he
    · cases he
      exact ⟨h.original .nil nofun nofun, rfl⟩
    · cases he
    · cases he
  · intro _ _
    exact h

theorem discardOriginal_spec (h : Secured job first w w') :
    wp Any (discardOriginal job)
      (fun _ w'' => Secured job first w w'' ∧ (w''.original = .missing ∨ w''.original = .link job.dataPath))
      (fun _ => Secured job first w) (Secured job first w) w' := by
  unfold discardOriginal
  refine wp_bind (still h ?_)
  split
  · exact wp_mono (removeOriginal_spec h) (fun _ _ h => ⟨h.1, .inl h.2⟩) (fun _ _ h => h) (fun _ h => h)
  · rename_i hreal
    refine wp_pure ⟨h, ?_⟩
    cases ho : w'.original with
    | missing => exact .inl rfl
    | link text => exact .inr (by rw [h.rest.own text ho])
    | file => simp [Job.isReal, Job.originalExists, Spot.isLink, ho] at hreal
    | dir files => simp [Job.isReal, Job.originalExists, Spot.isLink, ho] at hreal

theorem linkOriginal_spec (h : Secured job first w w')
    (ho : w'.original = .missing ∨ w'.original = .link job.dataPath) :
    wp Any (linkOriginal job) (fun _ w'' => Secured job first w w'' ∧ w''.original = .link job.dataPath)
      (fun _ => Secured job first w) (Secured job first w) w' := by
  unfold linkOriginal
  refine wp_bind (still h ?_)
  rcases ho with ho | ho
  · have hlink : Secured job first w { w' with original := .link job.dataPath } :=
      h.original .nil (fun text ht => by cases ht; rfl) nofun
    simp only [Job.originalExists, ho, Bool.not_false, if_true]
    refine wp_bind (still h (wp_bind (wp_atomic ?_ ?_ (fun _ _ _ => h) (fun _ => h))))
    · intro w'' hs
      simp only [ho, Except.ok.injEq] at hs
      subst hs
      refine wp_bind (still hlink ?_)
      simp only [World.isSymlinkTo, decide_true, Bool.not_true]
      exact wp_pure ⟨hlink, rfl⟩
    · intro _ _
      exact h
  · simp only [Job.originalExists, ho, if_true, h.there, Bool.not_true]
    exact wp_pure ⟨h, ho⟩

theorem replaceOriginal_spec (h : Secured job first w w') :
    wp Any (replaceOriginal job) (fun _ w'' => Secured job first w w'' ∧ w''.original = .link job.dataPath)
      (fun _ => Secured job first w) (Secured job first w) w' := by
  unfold replaceOriginal
  refine wp_bind (still h ?_)
  simp only [h.rest.mount]
  exact wp_bind (wp_mono (discardOriginal_spec h) (fun _ _ h => linkOriginal_spec h.1 h.2) (fun _ _ h => h)
    (fun _ h => h))

/-! ## The data path -/

theorem Left.refl (h : Rest job first w) : Left job first w w := ⟨h, fun _ => rfl, fun _ h => h⟩

theorem Left.fill (h : Rest job first w) (hd : w.data.files = []) (spot : Spot γ) :
    Left job first w { w with data := spot } := by
  refine ⟨⟨h.distinct, h.mount, h.own, h.less⟩, fun hne => absurd hd hne, fun _ hk p c hp => ?_⟩
  rcases hk p c hp with hk | hk | hk
  · exact .inl hk
  · exact .inr (.inl hk)
  · rw [hd] at hk
    cases hk

theorem ensureData_spec (h : Rest job first w) : wp Any ensureData
    (fun _ w' => w'.data.isThere = true ∧ (w' = w ∨ w.data.files = [] ∧ w' = { w with data := .dir [] }))
    (fun _ => Left job first w) (Left job first w) w := by
  unfold ensureData
  refine wp_bind (still (.refl h) ?_)
  cases hd : w.data with
  | missing =>
    have hfill : Left job first w { w with data := .dir [] } := .fill h (by simp [Spot.files, hd]) _
    simp only [Spot.isThere, Bool.not_false, if_true]
    refine wp_bind (wp_atomic ?_ (fun _ _ => .refl h) (fun _ _ _ => .refl h) (fun _ => .refl h))
    intro w' hs
    simp only [hd, Except.ok.injEq] at hs
    subst hs
    exact still hfill ⟨rfl, .inr ⟨rfl, rfl⟩⟩
  | link text =>
    simp only [Spot.isThere, Bool.not_false, if_true]
    refine wp_bind (wp_atomic ?_ (fun _ _ => .refl h) (fun _ _ _ => .refl h) (fun _ => .refl h))
    intro w' hs
    simp [hd] at hs
  | file => exact wp_pure ⟨by simp [hd, Spot.isThere], .inl rfl⟩
  | dir files => exact wp_pure ⟨by simp [hd, Spot.isThere], .inl rfl⟩

theorem Secured.fill (h : Rest job first w) (hthere : spot.isThere = true)
    (hsame : w.data.files ≠ [] → spot = w.data)
    (hmove : Ready first w → ∀ p c, w.original.files.get? p = some (.file c) →
      first.data.files.get? p ≠ none ∨ spot.files.get? p = some (.file c)) :
    Secured job first w { w with data := spot } := by
  refine ⟨⟨h.distinct, h.mount, h.own, h.less⟩, hsame, hthere, fun hr hk => ⟨hthere, fun p c hp => ?_⟩⟩
  rcases hk p c hp with hk | hk | hk
  · exact .inl hk
  · exact hmove hr p c hk
  · by_cases hne : w.data.files = []
    · rw [hne] at hk
      cases hk
    · exact .inr (by rwa [hsame hne])

theorem copyOriginal_spec (h : Rest job first w) (hd : w.data.files = []) :
    wp Any copyOriginal (fun _ => Secured job first w) (fun _ => Left job first w) (Left job first w)
      { w with data := .dir [] } := by
  refine wp_call ?_ (fun _ _ => .fill h hd _) (fun _ _ _ => .fill h hd _) (fun _ _ => .fill h hd _)
  intro _ w' he
  cases ho : w.original with
  | dir src =>
    have hfits : Fits src ([] : Files γ) := fun _ _ _ => .inl rfl
    have hdistinct : (Dict.keys src).Nodup := by simpa [Spot.files, ho] using h.distinct
    obtain ⟨files, hcopy, hview⟩ := copytree_ok hdistinct hfits
    simp only [ho, hcopy, Except.ok.injEq, Prod.mk.injEq, true_and] at he
    subst he
    have hmove := @Secured.fill _ _ _ _ (.dir files) h rfl (fun hne => absurd hd hne)
      (fun _ p c hp => .inr (by simpa [Spot.files, hview, ho] using hp))
    simpa [ho] using hmove
  | missing => simp [ho] at he
  | file => simp [ho] at he
  | link text => simp [ho] at he

theorem sizeOf_spec {size : γ → Nat} {link : Path → String → Option Nat} {spot : World γ → Spot γ}
    {I : World γ → Prop} (h : I w) : wp Any (sizeOf size link spot) (fun _ => I) (fun _ => I) I w := by
  refine wp_call ?_ (fun _ _ => h) (fun _ _ _ => h) (fun _ _ => h)
  intro n w' he
  split at he
  · cases he
    exact h
  · cases he

theorem copyAndCheck_spec (h : Rest job first w) (hd : w.data.files = []) :
    wp Any (copyAndCheck job) (fun _ => Secured job first w) (fun _ => Left job first w) (Left job first w)
      { w with data := .dir [] } := by
  have left {β : Type} {p : Fs γ β} {Q : β → World γ → Prop} {w' : World γ}
      (hp : wp Any p Q (fun _ => Secured job first w) (Secured job first w) w') :
      wp Any p Q (fun _ => Left job first w) (Left job first w) w' :=
    wp_mono hp (fun _ _ h => h) (fun _ _ h => h.left) (fun _ h => h.left)
  refine wp_bind (wp_mono (copyOriginal_spec h hd) (fun _ w₁ h₁ => ?_) (fun _ _ h => h) (fun _ h => h))
  refine left (wp_bind (still h₁ (wp_bind (wp_mono (sizeOf_spec h₁) (fun n w₂ h₂ => ?_) (fun _ _ h => h)
    (fun _ h => h)))))
  refine wp_bind (wp_mono (sizeOf_spec h₂) (fun m w₃ h₃ => ?_) (fun _ _ h => h) (fun _ h => h))
  split
  · exact wp_throw h₃
  · exact wp_pure h₃

theorem not_real_files (h : (job.isReal w && !job.emptyDir w) = false) : w.original.files = [] := by
  cases ho : w.original with
  | dir files =>
    have hempty : files = [] := by simpa [Job.isReal, Job.emptyDir, Job.originalExists, Spot.isLink, ho] using h
    exact hempty
  | missing => rfl
  | file => rfl
  | link text => rfl

theorem migrateData_spec (h : Rest job first w) (hthere : spot.isThere = true)
    (hspot : spot = w.data ∨ w.data.files = [] ∧ spot = .dir []) :
    wp Any (migrateData job) (fun _ => Secured job first w) (fun _ => Left job first w) (Left job first w)
      { w with data := spot } := by
  have hsame : w.data.files ≠ [] → spot = w.data := fun hne =>
    hspot.resolve_right fun hempty => hne hempty.1
  have hleft : Left job first w { w with data := spot } := by
    rcases hspot with rfl | ⟨hd, rfl⟩
    · exact .refl h
    · exact .fill h hd _
  unfold migrateData
  refine wp_bind (still hleft ?_)
  split
  · refine wp_bind (wp_call ?_ (fun _ _ => hleft) (fun _ _ _ => hleft) (fun _ _ => hleft))
    intro empty w' he
    cases spot with
    | dir files =>
      simp only [Except.ok.injEq, Prod.mk.injEq] at he
      obtain ⟨rfl, rfl⟩ := he
      have hfiles : files = w.data.files := by
        rcases hspot with heq | ⟨hd, heq⟩
        · rw [← heq]
          rfl
        · cases heq
          exact hd.symm
      cases files with
      | nil => exact copyAndCheck_spec h hfiles.symm
      | cons e files =>
        refine wp_pure (Secured.fill h hthere hsame fun hr p c hp => ?_)
        have hne : w.data.files ≠ [] := by simp [← hfiles]
        rcases hr (fun ho => by rw [ho] at hp; cases hp) hne p c hp with hheld | hdata
        · exact .inl hheld
        · exact .inr (by rwa [hsame hne])
    | missing => cases he
    | file => cases he
    | link text => cases he
  · rename_i hreal
    have hempty : w.original.files = [] := not_real_files (w := { w with data := spot }) (by simpa using hreal)
    refine wp_pure (Secured.fill h hthere hsame fun _ p c hp => ?_)
    rw [hempty] at hp
    cases hp

theorem migrateAndSymlink_spec (h : Rest job first w) :
    wp Any (migrateAndSymlink job) (fun _ w' => Left job first w w' ∧ w'.original = .link job.dataPath)
      (fun _ => Left job first w) (Left job first w) w := by
  refine wp_tryExcept (wp_bind (wp_mono (ensureData_spec h) ?_ (fun _ _ h => wp_throw h) (fun _ h => h)))
  rintro _ w₁ ⟨hthere, hw₁⟩
  have hspot : ∃ spot : Spot γ, w₁ = { w with data := spot } ∧ spot.isThere = true ∧
      (spot = w.data ∨ w.data.files = [] ∧ spot = .dir []) := by
    rcases hw₁ with rfl | ⟨hd, rfl⟩
    · exact ⟨w₁.data, rfl, hthere, .inl rfl⟩
    · exact ⟨.dir [], rfl, rfl, .inr ⟨hd, rfl⟩⟩
  obtain ⟨spot, rfl, hthere', hspot⟩ := hspot
  refine wp_bind (wp_mono (migrateData_spec h hthere' hspot) (fun _ w₂ h₂ => ?_) (fun _ _ h => wp_throw h)
    (fun _ h => h))
  exact wp_mono (replaceOriginal_spec h₂) (fun _ _ h => ⟨h.1.left, h.2⟩) (fun _ _ h => wp_throw h.left)
    (fun _ h => h.left)

/-! ## Cleaning up links -/

section
variable {cwd directory : Path} {fails : String → Bool} {fs : Files γ}

/-- The links of the directory that lead somewhere, and all that leads anywhere from one of the two directories. -/
structure Sees (cwd directory : Path) (fs now : Files γ) : Prop where
  view : ∀ dir text, found now dir text = found fs dir text
  kept : ∀ name text, fs.get? (directory ++ [name]) = some (.link text) → found fs directory text = true →
    now.get? (directory ++ [name]) = some (.link text)
  less : ∀ p node, now.get? p = some node → fs.get? p = some node

theorem cleanupItem_sees {now : Files γ} (item : String)
    (h : ∀ name text, fs.get? (directory ++ [name]) = some (.link text) → found fs directory text = true →
      found fs cwd text = true) (hs : Sees cwd directory fs now) :
    Sees cwd directory fs (cleanupItem cwd directory fails now item) := by
  unfold cleanupItem
  split
  · rename_i text hlink
    split
    · rename_i hremove
      have hdead : found fs directory text = false := by
        by_contra hlive
        have hcwd := h item text (hs.less _ _ hlink) (by simpa using hlive)
        rw [← hs.view] at hcwd
        simp [hcwd] at hremove
      refine ⟨fun dir other => ?_, fun name other hname hlive => ?_, fun p node hp => ?_⟩
      · rw [found_erase hlink (by rw [hs.view]; exact hdead), hs.view]
      · rw [Dict.get?_erase]
        split
        · rename_i heq
          rw [heq, hs.less _ _ hlink] at hname
          cases hname
          rw [hdead] at hlive
          cases hlive
        · exact hs.kept name other hname hlive
      · rw [Dict.get?_erase] at hp
        split at hp
        · cases hp
        · exact hs.less p node hp
    · exact hs
  · exact hs

theorem cleanupItems_sees (h : ∀ name text, fs.get? (directory ++ [name]) = some (.link text) →
    found fs directory text = true → found fs cwd text = true) : ∀ (items : List String) {now : Files γ},
    Sees cwd directory fs now → Sees cwd directory fs (items.foldl (cleanupItem cwd directory fails) now)
  | [], _, hs => hs
  | item :: items, _, hs => cleanupItems_sees h items (cleanupItem_sees item h hs)

theorem cleanupBrokenSymlinks_sees (items : List String) (h : ∀ name text,
    fs.get? (directory ++ [name]) = some (.link text) → found fs directory text = true → found fs cwd text = true) :
    Sees cwd directory fs (cleanupBrokenSymlinks cwd directory fails items fs) := by
  have hrefl : Sees cwd directory fs fs := ⟨fun _ _ => rfl, fun _ _ h _ => h, fun _ _ h => h⟩
  unfold cleanupBrokenSymlinks
  split
  · exact cleanupItems_sees h items hrefl
  · exact hrefl

end

/-! ## Every run of the startup -/

theorem rerun_rest {P : World γ → Prop} (h : Start job first)
    (hr : Reruns Any P (migrateAndSymlink job) first w) : Rest job first w :=
  hr.invariant (fun _ hs _ => wp_mono (migrateAndSymlink_spec hs) (fun _ _ h => h.1.rest) (fun _ _ h => h.rest)
    (fun _ h => h.rest)) h.rest

/-- A completed migration leaves the link, whatever came before it. -/
theorem migration_keeps (h : Start job first) :
    (∀ w, Reruns Any (Ready first) (migrateAndSymlink job) first w → Kept first w) ∧
    (∀ w, Reruns Any (Ready first) (migrateAndSymlink job) first w → ∀ fs u w' rest,
      migrateAndSymlink job w fs = .done u w' rest → (Kept first w' ↔ Ready first w)) ∧
    (∀ w, Reruns Any (fun _ => True) (migrateAndSymlink job) first w → ∀ fs u w' rest,
      migrateAndSymlink job w fs = .done u w' rest → w'.original = .link job.dataPath) ∧
    (∀ (cwd directory : Path) (fails : String → Bool) (items : List String) (fs : Files γ),
      (∀ name text, fs.get? (directory ++ [name]) = some (.link text) → found fs directory text = true →
        found fs cwd text = true) →
      ∀ name text, fs.get? (directory ++ [name]) = some (.link text) → found fs directory text = true →
        (cleanupBrokenSymlinks cwd directory fails items fs).get? (directory ++ [name]) = some (.link text)) := by
  have hall (fs : List (Fate Exc (Files γ))) : ∀ f ∈ fs, Any f := fun _ _ => trivial
  have hkept : ∀ w, Reruns Any (Ready first) (migrateAndSymlink job) first w → Rest job first w ∧ Kept first w :=
    fun w hr => hr.invariant (I := fun w => Rest job first w ∧ Kept first w)
      (fun s hs hready => wp_mono (migrateAndSymlink_spec hs.1) (fun _ _ h => ⟨h.1.rest, h.1.kept hready hs.2⟩)
        (fun _ _ h => ⟨h.rest, h.kept hready hs.2⟩) (fun _ h => ⟨h.rest, h.kept hready hs.2⟩)) ⟨h.rest, Start.kept _⟩
  refine ⟨fun w hr => (hkept w hr).2, fun w hr fs u w' rest hdone => ?_, fun w hr fs u w' rest hdone => ?_,
    fun cwd directory fails items fs hcwd name text hlink hlive =>
      (cleanupBrokenSymlinks_sees items hcwd).kept name text hlink hlive⟩
  · obtain ⟨hrest, hk⟩ := hkept w hr
    obtain ⟨hleft, hlink⟩ := wp_done (migrateAndSymlink_spec hrest) (hall fs) hdone
    refine ⟨fun hk' _ hne p c hp => ?_, fun hready => hleft.kept hready hk⟩
    rcases hk' p c (hrest.less p _ hp) with hheld | hgone | hdata
    · exact .inl hheld
    · rw [hlink] at hgone
      cases hgone
    · exact .inr (by rwa [hleft.data hne] at hdata)
  · exact (wp_done (migrateAndSymlink_spec (rerun_rest h hr)) (hall fs) hdone).2

def riven : Job String where
  originalPath := "/riven/backend/data"
  dataPath := "/data/riven"
  found := fun _ => false
  size := String.length
  originalLink := fun _ _ => none
  dataLink := fun _ _ => none

def rivenStart : World String :=
  ⟨.dir [(["db"], .file "rows"), (["settings"], .file "json")], .missing, false⟩

theorem rivenStart_start : Start riven rivenStart := by
  refine ⟨closed_of_items (by decide) (by decide) ?_, rfl, nofun⟩
  simp only [rivenStart, Spot.files, List.mem_cons, List.not_mem_nil, or_false, forall_eq_or_imp, forall_eq, List.inits]
  simp

def dataRoot : Files String :=
  [(["data"], .dir), (["data", "riven"], .dir), (["data", "backend"], .link "/data/riven"),
    (["data", "gone"], .link "/gone")]

theorem migration_keeps_riven :
    (∃ w₁ w₂, migrateAndSymlink riven rivenStart [.ok, .ok, .ok, .ok, .ok, .die []] = .died w₁ ∧
      migrateAndSymlink riven w₁ [] = .done () w₂ [] ∧ Kept rivenStart w₂ ∧ w₂.original = .link "/data/riven") ∧
    (cleanupBrokenSymlinks [] ["data"] (fun _ => false) ["riven", "backend", "gone"] dataRoot).get?
      ["data", "backend"] = some (.link "/data/riven") := by
  obtain ⟨hkept, hready, hlink, hclean⟩ := migration_keeps rivenStart_start
  have hfs : ∀ f ∈ ([.ok, .ok, .ok, .ok, .ok, .die []] : List (Fate Exc (Files String))), Any f :=
    fun _ _ => trivial
  have h₁ : Reruns Any (Ready rivenStart) (migrateAndSymlink riven) rivenStart
      (migrateAndSymlink riven rivenStart [.ok, .ok, .ok, .ok, .ok, .die []]).state :=
    .again (.refl _) (fun _ h => absurd rfl h) hfs
  have h₂ : Reruns Any (Ready rivenStart) (migrateAndSymlink riven) rivenStart (migrateAndSymlink riven
      (migrateAndSymlink riven rivenStart [.ok, .ok, .ok, .ok, .ok, .die []]).state []).state :=
    h₁.again (fun _ h => absurd rfl h) (fun _ h => by cases h)
  refine ⟨⟨_, _, rfl, rfl, hkept _ h₂, ?_⟩, ?_⟩
  · have h₁' : Reruns Any (fun _ => True) (migrateAndSymlink riven) rivenStart
        (migrateAndSymlink riven rivenStart [.ok, .ok, .ok, .ok, .ok, .die []]).state := .again (.refl _) trivial hfs
    exact hlink _ h₁' [] () _ [] rfl
  · refine hclean [] ["data"] (fun _ => false) ["riven", "backend", "gone"] dataRoot (fun name text h hlive => ?_)
      "backend" "/data/riven" rfl (by decide)
    have habs : isAbsolute text = true := by
      simp only [dataRoot, Dict.get?] at h
      split at h
      · cases h
      · split at h
        · cases h
        · split at h
          · cases h
            decide
          · split at h
            · cases h
              decide
            · cases h
    rwa [found_absolute habs dataRoot [] ["data"]]

/-- The first migration dies between two files. -/
theorem migration_loses_settings :
    (∃ w₁ w₂ : World String,
      migrateAndSymlink riven rivenStart [.ok, .ok, .ok, .ok, .ok, .die [(["db"], .file "rows")]] = .died w₁ ∧
      migrateAndSymlink riven w₁ [] = .done () w₂ [] ∧
      rivenStart.original.files.get? ["settings"] = some (.file "json") ∧
      rivenStart.data.files.get? ["settings"] = none ∧
      w₂.original.files.get? ["settings"] = none ∧ w₂.data.files.get? ["settings"] = none) ∧
    (∃ fs : Files String, fs.get? ["data", "backend"] = some (.link "riven") ∧ found fs ["data"] "riven" = true ∧
      (cleanupBrokenSymlinks [] ["data"] (fun _ => false) ["riven", "backend"] fs).get? ["data", "backend"] = none) :=
  ⟨⟨_, _, rfl, rfl, rfl, rfl, rfl, rfl⟩,
    [(["data"], .dir), (["data", "riven"], .dir), (["data", "backend"], .link "riven")], rfl, by decide, by decide⟩

end Dumb.User
