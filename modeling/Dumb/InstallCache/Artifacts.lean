import Mathlib.Algebra.Order.Ring.Rat
import Mathlib.Data.List.Sort
import Mathlib.Logic.Function.Basic
import Dumb.Lib.Dict
import Dumb.Lib.Raise

/-!
# Calls that store artifacts

From `store_artifact` of `utils/install_cache.py`, for calls of one service that overlap. A call is a number, which
stands for its `uuid4`. What a call does under the lock is one event.
-/

namespace Dumb.InstallCache

open Py

/-- A directory beside the artifacts, or one of them. -/
inductive Name where
  | temporary (call : Nat)
  | key (buildKey : String)
  deriving DecidableEq

def Name.buildKey? : Name → Option String
  | .temporary _ => none
  | .key buildKey => some buildKey

/-- What is made from `source`: its `files`, and the files that its manifest lists. -/
structure Artifact (α : Type) where
  source : α
  files : Option α
  manifest : Option (Option α)
  deriving DecidableEq

inductive Phase (α : Type) where
  | idle
  | copying (key : String) (source : α)
  | copied (key : String) (source : α)
  | listed (key : String) (source : α) (entries : Option α)
  | written (key : String) (source : α)
  | returned (key : String) (retention : Nat) (published left : List String)
  | raised
  deriving DecidableEq

structure Store (α : Type) where
  entries : Dict Name (Artifact α)
  calls : Nat → Phase α

inductive Event (α : Type) where
  | start (n : Nat) (key : String) (source : α)
  /-- The copy comes out as `partly` where its target is taken away. -/
  | copy (n : Nat) (partly : α)
  | list (n : Nat)
  | write (n : Nat)
  | fail (n : Nat)
  | publish (n : Nat) (atime : Name → ℚ) (retentionCount : Int)

namespace Store

variable {α : Type}

def initial : Store α := ⟨[], fun _ => .idle⟩

def put (s : Store α) (n : Nat) (artifact : Artifact α) (phase : Phase α) : Store α :=
  ⟨s.entries.set (.temporary n) artifact, Function.update s.calls n phase⟩

def files (s : Store α) (n : Nat) : Option α := (s.entries.get? (.temporary n)).bind (·.files)

/-- The first half under the lock: `none` raises. -/
def place (s : Store α) (n : Nat) (key : String) : Option (Dict Name (Artifact α)) :=
  (s.entries.get? (.temporary n)).map fun artifact =>
    let others := s.entries.erase (.temporary n)
    if (others.get? (.key key)).isSome then others else others.set (.key key) artifact

def ranked (atime : Name → ℚ) (entries : Dict Name (Artifact α)) : List Name :=
  (Dict.keys entries).insertionSort fun a b => atime b ≤ atime a

def retain (atime : Name → ℚ) (retention : Nat) (entries : Dict Name (Artifact α)) : Dict Name (Artifact α) :=
  entries.filter fun e => e.1 ∉ (ranked atime entries).drop retention

def published (entries : Dict Name (Artifact α)) : List String := (Dict.keys entries).filterMap Name.buildKey?

def step (s : Store α) : Event α → Store α
  | .start n key source =>
    match s.calls n with
    | .idle => s.put n ⟨source, none, none⟩ (.copying key source)
    | _ => s
  | .copy n partly =>
    match s.calls n with
    | .copying key source =>
      let files := if (s.entries.get? (.temporary n)).isSome then source else partly
      s.put n ⟨source, some files, none⟩ (.copied key source)
    | _ => s
  | .list n =>
    match s.calls n with
    | .copied key source => { s with calls := Function.update s.calls n (.listed key source (s.files n)) }
    | _ => s
  | .write n =>
    match s.calls n with
    | .listed key source entries => s.put n ⟨source, s.files n, some entries⟩ (.written key source)
    | _ => s
  | .fail n =>
    match s.calls n with
    | .copying _ _ | .copied _ _ | .listed _ _ _ =>
      ⟨s.entries.erase (.temporary n), Function.update s.calls n .raised⟩
    | _ => s
  | .publish n atime retentionCount =>
    match s.calls n with
    | .written key _ =>
      match s.place n key with
      | none => { s with calls := Function.update s.calls n .raised }
      | some entries =>
        let retention := (max 1 retentionCount).toNat
        let left := retain atime retention entries
        ⟨left, Function.update s.calls n (.returned key retention (published entries) (published left))⟩
    | _ => s

/-! ## What a run keeps -/

/-- The directory of a call in progress is what the call has made of it. -/
def Held (entry : Option (Artifact α)) : Phase α → Prop
  | .copying _ source => ∃ artifact, entry = some artifact ∧ artifact.source = source
  | .copied _ source => entry = some ⟨source, some source, none⟩
  | .listed _ source entries => entry = some ⟨source, some source, none⟩ ∧ entries = some source
  | .written _ source => entry = some ⟨source, some source, some (some source)⟩
  | _ => True

def Retained : Phase α → Prop
  | .returned key retention published left => key ∈ left ∧ left.length = min retention published.length
  | _ => True

structure Sound (s : Store α) : Prop where
  distinct : (Dict.keys s.entries).Nodup
  held : ∀ n, Held (s.entries.get? (.temporary n)) (s.calls n)
  complete : ∀ key artifact, s.entries.get? (.key key) = some artifact →
    artifact.files = some artifact.source ∧ artifact.manifest = some (some artifact.source)
  retained : ∀ n, Retained (s.calls n)

/-- All directories are to stay, or all are artifacts and the one just stored is among the most recent. -/
def Roomy (atime : Name → ℚ) (retention : Nat) (key : String) (entries : Dict Name (Artifact α)) : Prop :=
  entries.length ≤ retention ∨
    (∀ x ∈ Dict.keys entries, x.buildKey?.isSome = true) ∧ .key key ∈ (ranked atime entries).take retention

/-- The retention of a call finds room, or no directory in progress and others that were used longer ago. -/
def Clean (s : Store α) : Event α → Prop
  | .publish n atime retentionCount =>
    match s.calls n with
    | .written key _ =>
      match s.place n key with
      | none => True
      | some entries => Roomy atime (max 1 retentionCount).toNat key entries
    | _ => True
  | _ => True

variable {s : Store α} {n : Nat} {entries : Dict Name (Artifact α)} {atime : Name → ℚ} {retention : Nat} {key : String}

theorem Sound.change {phase : Phase α} (h : Sound s) (hdistinct : (Dict.keys entries).Nodup)
    (hothers : ∀ m, m ≠ n → entries.get? (.temporary m) = s.entries.get? (.temporary m))
    (hcomplete : ∀ key artifact, entries.get? (.key key) = some artifact →
      artifact.files = some artifact.source ∧ artifact.manifest = some (some artifact.source))
    (hheld : Held (entries.get? (.temporary n)) phase) (hretained : Retained phase) :
    Sound ⟨entries, Function.update s.calls n phase⟩ := by
  refine ⟨hdistinct, fun m => ?_, hcomplete, fun m => ?_⟩
  · by_cases hm : m = n
    · subst hm
      simpa using hheld
    · simpa [hm, hothers m hm] using h.held m
  · by_cases hm : m = n
    · subst hm
      simpa using hretained
    · simpa [hm] using h.retained m

theorem Sound.put {artifact : Artifact α} {phase : Phase α} (h : Sound s) (hheld : Held (some artifact) phase)
    (hretained : Retained phase) : Sound (s.put n artifact phase) := by
  refine h.change (Dict.nodup_keys_set h.distinct) (fun m hm => ?_) (fun key artifact' hget => ?_) ?_ hretained
  · exact Dict.get?_set_ne (by simpa using hm) ..
  · rw [Dict.get?_set_ne (by simp)] at hget
    exact h.complete key artifact' hget
  · rw [Dict.get?_set_self]
    exact hheld

/-! ## Under the lock -/

theorem mem_published : key ∈ published entries ↔ .key key ∈ Dict.keys entries := by
  simp only [published, List.mem_filterMap]
  constructor
  · rintro ⟨x, hx, hkey⟩
    cases x <;> simp_all [Name.buildKey?]
  · exact fun h => ⟨_, h, rfl⟩

theorem Sound.place {source : α} (h : Sound s) (hwritten : s.calls n = .written key source)
    (hplace : s.place n key = some entries) : (Dict.keys entries).Nodup ∧ key ∈ published entries ∧
      (∀ m, m ≠ n → entries.get? (.temporary m) = s.entries.get? (.temporary m)) ∧
        ∀ key artifact, entries.get? (.key key) = some artifact →
          artifact.files = some artifact.source ∧ artifact.manifest = some (some artifact.source) := by
  have hheld := h.held n
  rw [hwritten] at hheld
  simp only [Store.place, show s.entries.get? (.temporary n) = _ from hheld, Option.map_some, Option.some.injEq] at hplace
  have hothers (m : Nat) (hm : m ≠ n) : (s.entries.erase (.temporary n)).get? (.temporary m) = s.entries.get? (.temporary m) := by
    rw [Dict.get?_erase, if_neg (by simpa using hm)]
  have hkeys (key : String) : (s.entries.erase (.temporary n)).get? (.key key) = s.entries.get? (.key key) := by
    rw [Dict.get?_erase, if_neg (by simp)]
  subst hplace
  rw [mem_published]
  split
  · next hthere =>
    refine ⟨Dict.nodup_keys_erase h.distinct, Dict.mem_keys.2 (Option.isSome_iff_ne_none.1 hthere), hothers, fun q artifact hget => ?_⟩
    exact h.complete q artifact ((hkeys q).symm.trans hget)
  · refine ⟨Dict.nodup_keys_set (Dict.nodup_keys_erase h.distinct), Dict.mem_keys.2 (by simp), fun m hm => ?_, fun q artifact hget => ?_⟩
    · rw [Dict.get?_set_ne (by simp), hothers m hm]
    · by_cases hq : q = key
      · subst hq
        rw [Dict.get?_set_self] at hget
        cases hget
        exact ⟨rfl, rfl⟩
      · rw [Dict.get?_set_ne (by simpa using hq), hkeys] at hget
        exact h.complete q artifact hget

theorem get?_retain (x : Name) : (retain atime retention entries).get? x =
    if x ∈ (ranked atime entries).drop retention then none else entries.get? x := by
  rw [retain, Dict.get?_filter fun x => decide (x ∉ (ranked atime entries).drop retention)]
  by_cases hx : x ∈ (ranked atime entries).drop retention <;> simp [hx]

theorem perm_ranked (atime : Name → ℚ) (entries : Dict Name (Artifact α)) : (ranked atime entries).Perm (Dict.keys entries) :=
  List.perm_insertionSort _ _

/-- No directory in progress goes, and as many artifacts stay as can, with the one just stored. -/
theorem retain_spec (hdistinct : (Dict.keys entries).Nodup) (hkey : key ∈ published entries)
    (hroomy : Roomy atime retention key entries) :
    (∀ m, (retain atime retention entries).get? (.temporary m) = entries.get? (.temporary m)) ∧
      key ∈ published (retain atime retention entries) ∧
        (published (retain atime retention entries)).length = min retention (published entries).length := by
  have hlength := (perm_ranked atime entries).length_eq
  rcases hroomy with hfew | ⟨hall, hrecent⟩
  · have hnone : (ranked atime entries).drop retention = [] :=
      List.drop_eq_nil_of_le (by simpa [hlength, Dict.keys] using hfew)
    have hsame : retain atime retention entries = entries := by simp [retain, hnone]
    rw [hsame]
    refine ⟨fun _ => rfl, hkey, (Nat.min_eq_right ?_).symm⟩
    exact (List.length_filterMap_le _ _).trans (by simpa [Dict.keys] using hfew)
  · have hnodup := (perm_ranked atime entries).nodup_iff.2 hdistinct
    rw [← List.take_append_drop retention (ranked atime entries)] at hnodup
    have happart := List.disjoint_of_nodup_append hnodup
    refine ⟨fun m => ?_, ?_, ?_⟩
    · have habsent : entries.get? (.temporary m) = none := by
        by_contra hne
        cases hall _ (Dict.mem_keys.2 hne)
      rw [get?_retain, habsent, ite_self]
    · rw [mem_published, Dict.mem_keys, get?_retain, if_neg (happart hrecent)]
      exact Dict.mem_keys.1 (mem_published.1 hkey)
    · have hcount (names : List Name) (h : ∀ x ∈ names, x.buildKey?.isSome = true) :
          (names.filterMap Name.buildKey?).length = names.length := by
        induction names with
        | nil => rfl
        | cons x names ih =>
          obtain ⟨hx, hnames⟩ := List.forall_mem_cons.1 h
          obtain ⟨k, hk⟩ := Option.isSome_iff_exists.1 hx
          simp [hk, ih hnames]
      have hkept : (Dict.keys (retain atime retention entries)).Perm ((ranked atime entries).take retention) := by
        have hkeys : (Dict.keys (retain atime retention entries)).Nodup := Dict.nodup_keys_filter hdistinct
        refine (List.perm_ext_iff_of_nodup hkeys hnodup.of_append_left).2 fun x => ?_
        have hx : x ∈ (ranked atime entries).take retention ∨ x ∈ (ranked atime entries).drop retention ↔
            entries.get? x ≠ none := by
          rw [← List.mem_append, List.take_append_drop, (perm_ranked atime entries).mem_iff, Dict.mem_keys]
        rw [Dict.mem_keys, get?_retain]
        by_cases hdrop : x ∈ (ranked atime entries).drop retention
        · have hnot : x ∉ (ranked atime entries).take retention := fun htake => happart htake hdrop
          simp [hdrop, hnot]
        · simpa [hdrop] using hx.symm
      have hleft : ∀ x ∈ Dict.keys (retain atime retention entries), x.buildKey?.isSome = true := fun x hx =>
        hall x ((perm_ranked atime entries).mem_iff.1 (List.mem_of_mem_take (hkept.mem_iff.1 hx)))
      rw [published, published, hcount _ hleft, hcount _ hall, hkept.length_eq, List.length_take, hlength]

/-! ## Every run -/

theorem Sound.step (h : Sound s) (e : Event α) (hclean : s.Clean e) : Sound (s.step e) := by
  cases e with
  | start n key source =>
    simp only [Store.step]
    split
    · exact h.put ⟨_, rfl, rfl⟩ trivial
    · exact h
  | copy n partly =>
    simp only [Store.step]
    split
    · next key source hcall =>
      have hheld := h.held n
      rw [hcall] at hheld
      obtain ⟨artifact, hthere, -⟩ := hheld
      exact h.put (by simp [hthere, Held]) trivial
    · exact h
  | list n =>
    simp only [Store.step]
    split
    · next key source hcall =>
      have hheld := h.held n
      rw [hcall] at hheld
      refine h.change h.distinct (fun _ _ => rfl) h.complete ⟨hheld, ?_⟩ trivial
      rw [Store.files, show s.entries.get? (.temporary n) = _ from hheld]
      rfl
    · exact h
  | write n =>
    simp only [Store.step]
    split
    · next key source entries hcall =>
      have hheld := h.held n
      rw [hcall] at hheld
      obtain ⟨hthere, rfl⟩ := hheld
      exact h.put (by simp [Store.files, hthere, Held]) trivial
    · exact h
  | fail n =>
    have herase : Sound ⟨s.entries.erase (.temporary n), Function.update s.calls n .raised⟩ := by
      refine h.change (Dict.nodup_keys_erase h.distinct) (fun m hm => ?_) (fun key artifact hget => ?_) trivial trivial
      · rw [Dict.get?_erase, if_neg (by simpa using hm)]
      · rw [Dict.get?_erase, if_neg (by simp)] at hget
        exact h.complete key artifact hget
    simp only [Store.step]
    split
    · exact herase
    · exact herase
    · exact herase
    · exact h
  | publish n atime retentionCount =>
    simp only [Store.step, Clean] at hclean ⊢
    split
    · next key source hcall =>
      rw [hcall] at hclean
      cases hplace : s.place n key with
      | none => exact h.change h.distinct (fun _ _ => rfl) h.complete trivial trivial
      | some entries =>
        simp only [hplace] at hclean
        obtain ⟨hdistinct, hkey, hothers, hcomplete⟩ := h.place hcall hplace
        obtain ⟨hspared, hstays, hlength⟩ := retain_spec hdistinct hkey hclean
        refine h.change (Dict.nodup_keys_filter hdistinct) (fun m hm => (hspared m).trans (hothers m hm))
          (fun q artifact hget => ?_) trivial ⟨hstays, hlength⟩
        rw [get?_retain] at hget
        exact hcomplete q artifact (Option.ite_none_left_eq_some.1 hget).2
    · exact h

/-- In a run whose retentions are all clean, no directory in progress is lost, what is published is complete, and as many
artifacts stay as can, with the one just stored. -/
theorem stores_sound (events : List (Event α)) (hclean : Along step Clean initial events) :
    Sound (events.foldl step initial) := by
  refine hclean.foldl (fun s e _ he h => h.step e he) ⟨.nil, fun n => trivial, fun key artifact hget => ?_, fun n => trivial⟩
  cases hget

def storing (n : Nat) (key : String) (source : Nat) : List (Event Nat) :=
  [.start n key source, .copy n 0, .list n, .write n]

def newestFirst : Name → ℚ
  | .temporary _ => 0
  | .key _ => 1

theorem stores_sound_two :
    Sound ((storing 0 "a" 5 ++ Event.publish 0 newestFirst 2 :: (storing 1 "b" 7 ++ [Event.publish 1 newestFirst 2])).foldl
      step initial) :=
  stores_sound _ ⟨trivial, trivial, trivial, trivial, .inl (by decide), trivial, trivial, trivial, trivial,
    .inl (by decide), trivial⟩

/-- The retention of one call takes away what another is still copying. -/
theorem stores_lose_temporary : ∃ events : List (Event Nat),
    (events.foldl step initial).calls 0 = .copying "a" 5 ∧
      (events.foldl step initial).entries.get? (.temporary 0) = none ∧ ¬Sound (events.foldl step initial) := by
  refine ⟨.start 0 "a" 5 :: storing 1 "b" 7 ++ [.publish 1 newestFirst 1], rfl, by decide +kernel, fun h => ?_⟩
  obtain ⟨artifact, hthere, -⟩ := h.held 0
  cases hthere

end Store

end Dumb.InstallCache
