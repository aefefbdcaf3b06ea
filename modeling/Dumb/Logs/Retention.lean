import Dumb.Logs.Lemmas.Rotation

/-!
# Which logs a rotation keeps

The shelf of a log has its closed files, the newest first. The directory holds a shelf under the names of the log, and a
rollover that meets no error puts the closed file on it and keeps the newest ones.
-/

namespace Dumb.Logs

open Py Re

/-! ## Shelves in a directory -/

abbrev LogShelf := List (Chars × File)

def DateLe (a b : Chars) : Prop := textLe a b = true

/-- Under the names of the log there are the files of the shelf, and nothing else but the active file. -/
structure Shelved (digits : Digits) (base : Chars) (active : Option Chars) (shelf : LogShelf) (files : Dir) : Prop where
  dates : ∀ e ∈ shelf, IsDate digits e.1
  newestFirst : shelf.Pairwise fun e f => DateLe f.1 e.1
  holds : ∀ date i, IsDate digits date → Dict.get? (rotatedName base date (i + 1)) files = (Shelf.group date shelf)[i]?
  only : ∀ name, Dict.get? name files ≠ none → OfLog digits base name →
    some name = active ∨ ∃ date i, IsDate digits date ∧ name = rotatedName base date (i + 1)
  distinct : (Dict.keys files).Nodup

section
variable {digits : Digits} {base : Chars} {shelf : LogShelf}

theorem Shelved.congr {active active' : Option Chars} {files files' : Dir} (h : Shelved digits base active shelf files)
    (hnames : ∀ date i, IsDate digits date →
      Dict.get? (rotatedName base date (i + 1)) files' = Dict.get? (rotatedName base date (i + 1)) files)
    (hrest : ∀ name, Dict.get? name files' ≠ none → some name = active' ∨
      (Dict.get? name files ≠ none ∧ some name ≠ active) ∨ ¬OfLog digits base name)
    (hdistinct : (Dict.keys files').Nodup) : Shelved digits base active' shelf files' where
  dates := h.dates
  newestFirst := h.newestFirst
  holds date i hdate := (hnames date i hdate).trans (h.holds date i hdate)
  only name hname hof := by
    rcases hrest name hname with hactive | ⟨hfiles, hactive⟩ | hno
    · exact .inl hactive
    · exact .inr ((h.only name hfiles hof).resolve_left hactive)
    · exact absurd hof hno
  distinct := hdistinct

section
variable {w w₁ w₂ : LogHandler} {date : Chars} {n : Nat} {closed : File}

theorem shelved_push (h : Shelved digits base (some w.baseFilename) shelf w.files) (hdate : IsDate digits date)
    (hnewest : ∀ e ∈ shelf, DateLe e.1 date) (hn : 0 < n)
    (hactive : ∀ date i, IsDate digits date → w.baseFilename ≠ rotatedName base date i)
    (hrenumbered : Renumbered base date (n - 1) w w₁)
    (hreplaced : Replaced w.baseFilename (rotatedName base date 1) w₁ w₂ closed) :
    Shelved digits base none (Shelf.push n date closed shelf) w₂.files where
  dates e he := by
    rcases Shelf.mem_push closed he with rfl | he
    · exact hdate
    · exact h.dates e he
  newestFirst := Shelf.sorted_push closed h.newestFirst hnewest
  holds d i hd := by
    have hinj {i j : Nat} (hij : rotatedName base d i = rotatedName base date j) : d = date ∧ i = j :=
      rotatedName_inj hd.1 hdate.1 hij
    rw [hreplaced.names, if_neg (c := _ = w.baseFilename) (hactive d (i + 1) hd).symm]
    by_cases hdd : d = date
    · subst hdd
      cases i with
      | zero =>
        rw [if_pos rfl, Shelf.push, Shelf.group_cons_self]
        rfl
      | succ k =>
        rw [if_neg fun hij => absurd (hinj hij).2 (by omega),
          Shelf.group_push closed textLe_antisymm h.newestFirst hnewest hn]
        by_cases hk : k + 1 < n
        · rw [if_pos hk, hrenumbered.moved k (by omega), h.holds d k hd]
        · rw [if_neg hk, hrenumbered.others _ fun hpos i hi hij => absurd (hinj hij).2 (by omega), h.holds d (k + 1) hd]
    · rw [if_neg fun hij => hdd (hinj hij).1, hrenumbered.others _ fun _ _ _ hij => hdd (hinj hij).1, h.holds d i hd,
        Shelf.group_push_ne closed textLe_antisymm h.newestFirst hnewest hn hdd]
  only name hname hof := by
    apply Or.inr
    rw [hreplaced.names] at hname
    by_cases hfirst : name = rotatedName base date 1
    · exact ⟨date, 0, hdate, hfirst⟩
    by_cases hold : name = w.baseFilename
    · rw [if_neg hfirst, if_pos hold] at hname
      exact absurd rfl hname
    rw [if_neg hfirst, if_neg hold] at hname
    by_cases hmoved : ∃ i, i ≤ n - 1 ∧ name = rotatedName base date (i + 1)
    · obtain ⟨i, -, hi⟩ := hmoved
      exact ⟨date, i, hdate, hi⟩
    · rw [hrenumbered.others name fun _ i hi hname => hmoved ⟨i, hi, hname⟩] at hname
      exact (h.only name hname hof).resolve_left fun hsome => hold (Option.some.inj hsome)
  distinct := hreplaced.distinct (hrenumbered.distinct h.distinct)

end

/-! ## What is deleted -/

theorem mem_labels {l : Chars × Nat} :
    l ∈ Shelf.labels shelf ↔ ∃ i, i < (Shelf.group l.1 shelf).length ∧ l.2 = i + 1 := by
  obtain ⟨d, k⟩ := l
  rw [Shelf.labels, Shelf.mem_labelsFrom]
  simp

theorem date_of_mem_labels (h : ∀ e ∈ shelf, IsDate digits e.1) {l : Chars × Nat} (hl : l ∈ Shelf.labels shelf) :
    IsDate digits l.1 := by
  obtain ⟨e, he, hdate⟩ := Shelf.date_of_mem_labelsFrom hl
  exact hdate ▸ h e he

theorem Shelved.perm {files : Dir} (h : Shelved digits base none shelf files) :
    ((Dict.keys files).filter (matchesBase digits base)).Perm
      ((Shelf.labels shelf).map fun l => rotatedName base l.1 l.2) := by
  apply (List.perm_ext_iff_of_nodup (h.distinct.filter _) _).2
  · intro name
    rw [List.mem_filter, matchesBase_iff, Dict.mem_keys, List.mem_map]
    constructor
    · rintro ⟨hname, hof⟩
      obtain ⟨date, i, hdate, rfl⟩ := (h.only name hname hof).resolve_left (by simp)
      rw [h.holds date i hdate, ne_eq, List.getElem?_eq_none_iff, Nat.not_le] at hname
      exact ⟨(date, i + 1), Shelf.mem_labels.2 hname, rfl⟩
    · rintro ⟨l, hl, rfl⟩
      have hdate := date_of_mem_labels h.dates hl
      obtain ⟨i, hi, hl⟩ := mem_labels.1 hl
      rw [hl, h.holds l.1 i hdate, ne_eq, List.getElem?_eq_none_iff, Nat.not_le]
      exact ⟨hi, ofLog_rotated hdate (i + 1)⟩
  · apply List.Nodup.map_on _ (Shelf.nodup_labelsFrom [] shelf)
    intro l hl l' hl' hsame
    obtain ⟨hdates, hnumbers⟩ := rotatedName_inj (date_of_mem_labels h.dates hl).1 (date_of_mem_labels h.dates hl').1 hsame
    exact Prod.ext hdates hnumbers

instance : Std.Total fun name other => deletedBefore digits name other = true where
  total name other := by
    simp only [deletedBefore]
    by_cases hdate : extractDate digits name = extractDate digits other
    · simp [hdate, Nat.le_total]
    · simp [hdate, Ne.symm hdate, textLe_total]

theorem dateLe_of_deletedBefore {name other : Chars} (h : deletedBefore digits name other = true) :
    DateLe (extractDate digits name) (extractDate digits other) := by
  rw [deletedBefore] at h
  split at h
  · next hdate => exact hdate ▸ textLe_refl _
  · exact h

instance : IsTrans Chars fun name other => deletedBefore digits name other = true where
  trans a b c hab hbc := by
    have hle : DateLe (extractDate digits a) (extractDate digits c) :=
      textLe_trans _ _ _ (dateLe_of_deletedBefore hab) (dateLe_of_deletedBefore hbc)
    by_cases hac : extractDate digits a = extractDate digits c
    · have hsame : extractDate digits a = extractDate digits b :=
        textLe_antisymm _ _ (dateLe_of_deletedBefore hab) (hac ▸ dateLe_of_deletedBefore hbc)
      simp only [deletedBefore, hsame, hsame ▸ hac, if_true, decide_eq_true_eq] at hab hbc ⊢
      exact Nat.le_trans hab hbc
    · rw [deletedBefore, if_neg hac]
      exact hle

theorem filter_of_sorted {α : Type} {r : α → α → Prop} {p : α → Bool} (hp : ∀ a b, r a b → p b = true → p a = true)
    {as : List α} (h : as.Pairwise r) : as = as.filter p ++ as.filter fun a => !p a := by
  induction as with
  | nil => rfl
  | cons a as ih =>
    obtain ⟨ha, has⟩ := List.pairwise_cons.1 h
    cases hpa : p a with
    | true =>
      rw [List.filter_cons_of_pos hpa, List.filter_cons_of_neg (by simp [hpa]), List.cons_append, ← ih has]
    | false =>
      have hnone : as.filter p = [] := by
        rw [List.filter_eq_nil_iff]
        intro b hb hpb
        rw [hp a b (ha b hb) hpb] at hpa
        cases hpa
      have hall := ih has
      rw [hnone, List.nil_append] at hall
      rw [List.filter_cons_of_neg (by simp [hpa]), List.filter_cons_of_pos (by simp [hpa]), hnone, List.nil_append, ← hall]

theorem length_older (hbase : PlainBase digits base) (hdates : ∀ e ∈ shelf, IsDate digits e.1)
    (hsorted : shelf.Pairwise fun e f => DateLe f.1 e.1) (hn : 0 < n) (hcut : Shelf.CutsAt n shelf)
    {e : Chars × File} (he : shelf[n]? = some e) :
    (((Shelf.labels shelf).map fun l => rotatedName base l.1 l.2).filter fun name =>
      textLe (extractDate digits name) e.1).length = shelf.length - n := by
  obtain ⟨hnew, hold⟩ := hcut.newer textLe_trans textLe_antisymm textLe_refl hn hsorted he
  obtain ⟨more, hlabels⟩ := Shelf.labelsFrom_append [] (shelf.take n) (shelf.drop n)
  rw [List.take_append_drop] at hlabels
  have hdate (l : Chars × Nat) (hl : l ∈ Shelf.labelsFrom [] (shelf.take n) ++ Shelf.labelsFrom more (shelf.drop n)) :
      extractDate digits (rotatedName base l.1 l.2) = l.1 :=
    extractDate_rotated hbase (date_of_mem_labels hdates (by rwa [Shelf.labels, hlabels])) l.2
  rw [Shelf.labels, hlabels, List.filter_map, List.length_map, List.filter_append, List.length_append]
  have hfirst : (Shelf.labelsFrom [] (shelf.take n)).filter
      ((fun name => textLe (extractDate digits name) e.1) ∘ fun l => rotatedName base l.1 l.2) = [] := by
    rw [List.filter_eq_nil_iff]
    intro l hl
    obtain ⟨f, hf, hfl⟩ := Shelf.date_of_mem_labelsFrom hl
    rw [Function.comp_apply, hdate l (List.mem_append_left _ hl), ← hfl]
    exact hnew f hf
  have hlast : (Shelf.labelsFrom more (shelf.drop n)).filter
      ((fun name => textLe (extractDate digits name) e.1) ∘ fun l => rotatedName base l.1 l.2) =
      Shelf.labelsFrom more (shelf.drop n) := by
    rw [List.filter_eq_self]
    intro l hl
    obtain ⟨f, hf, hfl⟩ := Shelf.date_of_mem_labelsFrom hl
    rw [Function.comp_apply, hdate l (List.mem_append_right _ hl), ← hfl]
    exact hold f hf
  rw [hfirst, hlast, Shelf.length_labelsFrom, List.length_drop, List.length_nil, Nat.zero_add]

def GoWhole (n : Nat) (shelf : LogShelf) : Prop := shelf.length ≤ n ∨ Shelf.CutsAt n shelf

instance (n : Nat) (shelf : LogShelf) : Decidable (GoWhole n shelf) :=
  inferInstanceAs (Decidable (shelf.length ≤ n ∨ Shelf.CutsAt n shelf))

theorem mem_filesToDelete {files : Dir} (hbase : PlainBase digits base) (h : Shelved digits base none shelf files)
    (hn : 0 < n) (hwhole : GoWhole n shelf) (name : Chars) :
    name ∈ getFilesToDelete digits n base (Dict.keys files) ↔ ∃ e, shelf[n]? = some e ∧
      ∃ l ∈ Shelf.labels shelf, name = rotatedName base l.1 l.2 ∧ DateLe l.1 e.1 := by
  have hperm := (List.perm_insertionSort (fun name other => deletedBefore digits name other = true)
    ((Dict.keys files).filter (matchesBase digits base))).trans h.perm
  have hlength := hperm.length_eq
  rw [List.length_map, Shelf.labels, Shelf.length_labelsFrom] at hlength
  simp only [getFilesToDelete, sub_date hbase, hlength]
  by_cases hshort : shelf.length ≤ n
  · rw [if_pos hshort, List.getElem?_eq_none hshort]
    simp
  · obtain ⟨e, he⟩ : ∃ e, shelf[n]? = some e := ⟨_, List.getElem?_eq_getElem (Nat.lt_of_not_le hshort)⟩
    have hcut : Shelf.CutsAt n shelf := hwhole.resolve_left hshort
    have hsplit := filter_of_sorted (p := fun name => textLe (extractDate digits name) e.1)
      (fun a b hab hb => textLe_trans _ _ _ (dateLe_of_deletedBefore hab) hb)
      (List.pairwise_insertionSort (fun name other => deletedBefore digits name other = true)
        ((Dict.keys files).filter (matchesBase digits base)))
    have hcount := (hperm.filter fun name => textLe (extractDate digits name) e.1).length_eq
    rw [length_older hbase h.dates h.newestFirst hn hcut he] at hcount
    rw [if_neg hshort, hsplit, ← hcount, List.take_left, List.mem_filter, hperm.mem_iff, List.mem_map]
    constructor
    · rintro ⟨⟨l, hl, rfl⟩, hle⟩
      rw [extractDate_rotated hbase (date_of_mem_labels h.dates hl)] at hle
      exact ⟨e, he, l, hl, rfl, hle⟩
    · rintro ⟨e', he', l, hl, rfl, hle⟩
      rw [he, Option.some.injEq] at he'
      subst he'
      refine ⟨⟨l, hl, rfl⟩, ?_⟩
      rw [extractDate_rotated hbase (date_of_mem_labels h.dates hl)]
      exact hle

theorem Shelved.take {files files' : Dir} (hbase : PlainBase digits base) (h : Shelved digits base none shelf files)
    (hn : 0 < n) (hwhole : GoWhole n shelf)
    (hfiles : ∀ q, Dict.get? q files' =
      if q ∈ getFilesToDelete digits n base (Dict.keys files) then none else Dict.get? q files)
    (hdistinct : (Dict.keys files').Nodup) : Shelved digits base none (shelf.take n) files' where
  dates e he := h.dates e (List.mem_of_mem_take he)
  newestFirst := h.newestFirst.sublist (List.take_sublist n shelf)
  holds d i hd := by
    have hmem := mem_filesToDelete hbase h hn hwhole (rotatedName base d (i + 1))
    have hgroup : Shelf.group d shelf = Shelf.group d (shelf.take n) ++ Shelf.group d (shelf.drop n) := by
      rw [← Shelf.group_append, List.take_append_drop]
    rw [hfiles]
    cases he : shelf[n]? with
    | none =>
      rw [if_neg, h.holds d i hd, List.take_of_length_le (List.getElem?_eq_none_iff.1 he)]
      intro hin
      obtain ⟨e, he', -⟩ := hmem.1 hin
      rw [he] at he'
      cases he'
    | some e =>
      have hshort : ¬shelf.length ≤ n := by
        rw [← List.getElem?_eq_none_iff, he]
        simp
      obtain ⟨hnew, hold⟩ := (hwhole.resolve_left hshort).newer textLe_trans textLe_antisymm textLe_refl hn h.newestFirst he
      by_cases hle : DateLe d e.1
      · have hnone : Shelf.group d (shelf.take n) = [] :=
          Shelf.group_eq_nil fun f hf hfd => hnew f hf (hfd ▸ hle)
        rw [hnone, List.getElem?_nil]
        split
        · rfl
        · next hno =>
          rw [h.holds d i hd, List.getElem?_eq_none_iff, ← Nat.not_lt]
          intro hi
          exact hno (hmem.2 ⟨e, he, (d, i + 1), Shelf.mem_labels.2 hi, rfl, hle⟩)
      · have hnone : Shelf.group d (shelf.drop n) = [] :=
          Shelf.group_eq_nil fun f hf hfd => hle (hfd ▸ hold f hf)
        rw [if_neg, h.holds d i hd, hgroup, hnone, List.append_nil]
        intro hin
        obtain ⟨e', he', l, hl, hname, hle'⟩ := hmem.1 hin
        rw [he, Option.some.injEq] at he'
        subst he'
        apply hle
        rw [(rotatedName_inj hd.1 (date_of_mem_labels h.dates hl).1 hname).1]
        exact hle'
  only name hname hof := by
    rw [hfiles] at hname
    split at hname
    · exact absurd rfl hname
    · exact h.only name hname hof
  distinct := hdistinct

/-! ## A rollover that meets no error -/

variable {clock : Clock digits} {call : Call} {w w' : LogHandler}

variable (digits clock call w) in
def rolloverDate : Chars := (rolloverNames digits (stemOf w.baseFilename) (clock.date call.time)).2

def LogHandler.reopened (name : Chars) (rolloverAt : Nat) (w : LogHandler) : LogHandler where
  files := if (Dict.get? name w.files).isSome then w.files else Dict.set name [] w.files
  baseFilename := name
  isOpen := true
  rolloverAt := rolloverAt

theorem doRollover_steps (hn : 0 < call.backupCount) (h : (doRollover digits clock call).run w = (.ok (), w'))
    (hname : (rolloverNames digits (stemOf w.baseFilename) (clock.date call.time)).1 = base) :
    ∃ w₁ w₂ w₃, (renumber call.fails base (rolloverDate digits clock call w) (call.backupCount - 1)).run
        { w with isOpen := false } = (.ok (), w₁) ∧
      (replaceFile call.fails w.baseFilename (rotatedName base (rolloverDate digits clock call w) 1)).run w₁ =
        (.ok (), w₂) ∧
      (removeAll call.fails (getFilesToDelete digits call.backupCount base (Dict.keys w₂.files))).run w₂ = (.ok (), w₃) ∧
      w' = w₃.reopened (if (firstDate digits (stemOf w.baseFilename)).isSome then datedName base (clock.date call.time)
        else w₃.baseFilename) (clock.computeRollover call.time) := by
  rw [doRollover] at h
  simp only [Thread.run_modify_bind, Thread.run_read_bind] at h
  rw [if_pos hn, hname] at h
  obtain ⟨⟨⟩, w₁, hrenumber, h⟩ := Thread.run_bind_ok.1 h
  obtain ⟨⟨⟩, w₂, hreplace, h⟩ := Thread.run_bind_ok.1 h
  obtain ⟨-, h⟩ := Thread.run_require_bind_ok.1 h
  rw [Thread.run_read_bind] at h
  obtain ⟨⟨⟩, w₃, hremove, h⟩ := Thread.run_bind_ok.1 h
  refine ⟨w₁, w₂, w₃, hrenumber, hreplace, hremove, ?_⟩
  split at h
  · next hdated =>
    rw [if_pos hdated]
    exact (congrArg Prod.snd h).symm
  · next hdated =>
    rw [if_neg hdated]
    exact (congrArg Prod.snd h).symm

def NamedBy (digits : Digits) (base : Chars) (dated : Option Chars) (name : Chars) : Prop :=
  match dated with
  | some date => IsDate digits date ∧ name = datedName base date
  | none => stemOf name = base

theorem stemOf_rotated (base date : Chars) (i : Nat) :
    stemOf (rotatedName base date i) = base ++ '-' :: (date ++ '_' :: (Nat.repr i).toList) := by
  have hname : rotatedName base date i = (base ++ '-' :: (date ++ '_' :: (Nat.repr i).toList)) ++ dotLog := by
    simp [rotatedName]
  rw [hname, stemOf_append (c := '-') (by simp) (by decide)]

variable {dated : Option Chars}

theorem NamedBy.ne_rotated {name date : Chars} (h : NamedBy digits base dated name)
    (hdate : IsDate digits date) (i : Nat) : name ≠ rotatedName base date i := by
  cases dated with
  | some date' =>
    rw [h.2]
    exact (rotated_ne_dated hdate.1 h.1.1).symm
  | none =>
    rintro rfl
    have hstem : stemOf (rotatedName base date i) = base := h
    rw [stemOf_rotated] at hstem
    exact absurd (List.append_right_eq_self.1 hstem) (List.cons_ne_nil _ _)

variable {name : Chars}

theorem NamedBy.rolloverNames (hbase : PlainBase digits base)
    (h : NamedBy digits base dated name) (now : Chars) :
    rolloverNames digits (stemOf name) now = (base, dated.getD now) ∧
      (firstDate digits (stemOf name)).isSome = dated.isSome := by
  cases dated with
  | some date =>
    have hfirst := firstDate_base hbase h.1 []
    rw [List.append_nil] at hfirst
    rw [h.2, stemOf_dated, rolloverNames_dated hbase h.1, hfirst]
    exact ⟨rfl, rfl⟩
  | none =>
    have hstem : stemOf name = base := h
    rw [hstem, rolloverNames_plain hbase, firstDate_plain hbase]
    exact ⟨rfl, rfl⟩

/-- The log is in order at a time: its files are those of the shelf, none of them dated later than the next one. -/
structure InOrder (clock : Clock digits) (base : Chars) (t : Nat) (w : LogHandler) (shelf : LogShelf) : Prop where
  shelved : Shelved digits base (some w.baseFilename) shelf w.files
  named : ∃ dated : Option Chars, NamedBy digits base dated w.baseFilename ∧
    (∀ date ∈ dated, DateLe date (clock.date t)) ∧ ∀ e ∈ shelf, DateLe e.1 (dated.getD (clock.date t))

structure Retains (digits : Digits) (clock : Clock digits) (base : Chars) (shelf : LogShelf) (call : Call)
    (w w' : LogHandler) : Prop where
  closed : ∃ closed, Dict.get? w.baseFilename w.files = some closed ∧
    Dict.get? (rotatedName base (rolloverDate digits clock call w) 1) w'.files = some closed ∧
    Shelved digits base (some w'.baseFilename)
      (((rolloverDate digits clock call w, closed) :: shelf).take call.backupCount) w'.files
  others : ∀ name, ¬OfLog digits base name → name ≠ w.baseFilename → name ≠ w'.baseFilename →
    Dict.get? name w'.files = Dict.get? name w.files

theorem get?_reopened (name q : Chars) (rolloverAt : Nat) (w : LogHandler) :
    Dict.get? q (w.reopened name rolloverAt).files =
      if q = name then some ((Dict.get? name w.files).getD []) else Dict.get? q w.files := by
  rw [LogHandler.reopened]
  cases hname : Dict.get? name w.files with
  | some file =>
    by_cases hq : q = name
    · simp [hq, hname]
    · simp [hq]
  | none =>
    by_cases hq : q = name
    · simp [hq]
    · simp [hq, Dict.get?_set_ne hq]

theorem distinct_reopened {rolloverAt : Nat} (h : w.Distinct) : (w.reopened name rolloverAt).Distinct := by
  rw [LogHandler.Distinct, LogHandler.reopened]
  cases Dict.get? name w.files with
  | some file => exact h
  | none => exact Dict.nodup_keys_set h

theorem ofLog_of_filesToDelete {names : List Chars} (hbase : PlainBase digits base)
    (h : name ∈ getFilesToDelete digits n base names) : OfLog digits base name := by
  simp only [getFilesToDelete, sub_date hbase] at h
  split at h
  · cases h
  · have hmem := (List.mem_insertionSort _).1 (List.mem_of_mem_take h)
    exact matchesBase_iff.1 (List.mem_filter.1 hmem).2

theorem Shelved.no_gap {active : Option Chars} {files : Dir} (h : Shelved digits base active shelf files)
    (hdate : IsDate digits date) (i : Nat) (hsome : Dict.get? (rotatedName base date (i + 2)) files ≠ none) :
    Dict.get? (rotatedName base date (i + 1)) files ≠ none := by
  rw [h.holds date (i + 1) hdate, ne_eq, List.getElem?_eq_none_iff] at hsome
  rw [h.holds date i hdate, ne_eq, List.getElem?_eq_none_iff]
  omega

structure Parts (digits : Digits) (base date : Chars) (n : Nat) (closed : File) (shelf : LogShelf) (w w₃ : LogHandler) :
    Prop where
  source : Dict.get? w.baseFilename w.files = some closed
  shelved : Shelved digits base none (((date, closed) :: shelf).take n) w₃.files
  others : ∀ name, ¬OfLog digits base name → name ≠ w.baseFilename → Dict.get? name w₃.files = Dict.get? name w.files
  active : w₃.baseFilename = w.baseFilename

theorem parts_ok {fails : Op → Bool} {w₁ w₂ w₃ : LogHandler} (hbase : PlainBase digits base)
    (hn : 0 < n) (hshelved : Shelved digits base (some w.baseFilename) shelf w.files) (hdate : IsDate digits date)
    (hnewest : ∀ e ∈ shelf, DateLe e.1 date)
    (hactive : ∀ date i, IsDate digits date → w.baseFilename ≠ rotatedName base date i)
    (hwhole : GoWhole n (Shelf.push n date ((Dict.get? w.baseFilename w.files).getD []) shelf))
    (hrenumber : (renumber fails base date (n - 1)).run { w with isOpen := false } = (.ok (), w₁))
    (hreplace : (replaceFile fails w.baseFilename (rotatedName base date 1)).run w₁ = (.ok (), w₂))
    (hremove : (removeAll fails (getFilesToDelete digits n base (Dict.keys w₂.files))).run w₂ = (.ok (), w₃)) :
    Parts digits base date n ((Dict.get? w.baseFilename w.files).getD []) shelf w w₃ := by
  have hrenumbered := renumber_ok hdate.1 hrenumber fun i _ => hshelved.no_gap hdate i
  obtain ⟨closed, hreplaced⟩ := replaceFile_ok (hactive date 1 hdate) hreplace
  obtain ⟨hrest, hdistinct, hremoved⟩ := removeAll_ok hremove
  have hsource : Dict.get? w.baseFilename w.files = some closed := by
    rw [← hreplaced.source, hrenumbered.others _ fun _ i _ => hactive date (i + 1) hdate]
  rw [hsource, Option.getD_some] at hwhole ⊢
  have hpushed := shelved_push (w := { w with isOpen := false }) hshelved hdate hnewest hn hactive hrenumbered hreplaced
  refine ⟨hsource, ?_, fun name hof hname => ?_, ?_⟩
  · rw [← Shelf.take_push n hn]
    exact hpushed.take hbase hn hwhole hremoved (hdistinct hpushed.distinct)
  · have hno (i : Nat) : name ≠ rotatedName base date i := by
      rintro rfl
      exact hof (ofLog_rotated hdate i)
    rw [hremoved, if_neg fun hin => hof (ofLog_of_filesToDelete hbase hin), hreplaced.names, if_neg (hno 1), if_neg hname,
      hrenumbered.others name fun _ i _ => hno (i + 1)]
  · rw [hrest, hreplaced.rest, hrenumbered.rest]

variable {t : Nat}

theorem doRollover_retains (hbase : PlainBase digits base) (hn : 0 < call.backupCount)
    (h : InOrder clock base t w shelf) (ht : t ≤ call.time) (hrun : (doRollover digits clock call).run w = (.ok (), w'))
    (hwhole : GoWhole call.backupCount (Shelf.push call.backupCount (rolloverDate digits clock call w)
      ((Dict.get? w.baseFilename w.files).getD []) shelf)) :
    Retains digits clock base shelf call w w' ∧ w'.isOpen = true ∧
      InOrder clock base call.time w' (((rolloverDate digits clock call w, (Dict.get? w.baseFilename w.files).getD []) ::
        shelf).take call.backupCount) := by
  obtain ⟨dated, hnamed, hdated, hnewest⟩ := h.named
  obtain ⟨hnames, hsome⟩ := hnamed.rolloverNames hbase (clock.date call.time)
  have hnow : DateLe (clock.date t) (clock.date call.time) := clock.mono ht
  have hdate : rolloverDate digits clock call w = dated.getD (clock.date call.time) := by rw [rolloverDate, hnames]
  -- The date of the rollover is between those of the closed files and the present one.
  have hisDate : IsDate digits (rolloverDate digits clock call w) := by
    rw [hdate]
    cases dated with
    | some date => exact hnamed.1
    | none => exact clock.isDate call.time
  have hafter (e : Chars × File) (he : e ∈ shelf) : DateLe e.1 (rolloverDate digits clock call w) := by
    rw [hdate]
    cases dated with
    | some date => exact hnewest e he
    | none => exact textLe_trans _ _ _ (hnewest e he) hnow
  have hpresent : DateLe (rolloverDate digits clock call w) (clock.date call.time) := by
    rw [hdate]
    cases dated with
    | some date => exact textLe_trans _ _ _ (hdated date rfl) hnow
    | none => exact textLe_refl _
  obtain ⟨w₁, w₂, w₃, hrenumber, hreplace, hremove, rfl⟩ := doRollover_steps hn hrun (congrArg Prod.fst hnames)
  have hparts := parts_ok hbase hn h.shelved hisDate hafter (fun date i hd => hnamed.ne_rotated hd i) hwhole hrenumber
    hreplace hremove
  -- The log goes on under a name of its own kind.
  have hnext : ∃ dated' : Option Chars, NamedBy digits base dated' (if (firstDate digits (stemOf w.baseFilename)).isSome
      then datedName base (clock.date call.time) else w₃.baseFilename) ∧
      dated'.getD (clock.date call.time) = clock.date call.time ∧ ∀ date ∈ dated', date = clock.date call.time := by
    rw [hsome, hparts.active]
    cases dated with
    | some date => exact ⟨some (clock.date call.time), ⟨clock.isDate _, rfl⟩, rfl, fun _ hd => (Option.some.inj hd).symm⟩
    | none => exact ⟨none, hnamed, rfl, fun _ hd => absurd hd (by simp)⟩
  obtain ⟨dated', hnamed', hgetD, hdated'⟩ := hnext
  generalize (if (firstDate digits (stemOf w.baseFilename)).isSome then datedName base (clock.date call.time)
    else w₃.baseFilename) = next at hnamed'
  have hshelved : Shelved digits base (some next) (((rolloverDate digits clock call w,
      (Dict.get? w.baseFilename w.files).getD []) :: shelf).take call.backupCount)
      (w₃.reopened next (clock.computeRollover call.time)).files := by
    apply hparts.shelved.congr
    · intro date i hd
      rw [get?_reopened, if_neg (hnamed'.ne_rotated hd (i + 1)).symm]
    · intro name hname
      rw [get?_reopened] at hname
      by_cases hnext : name = next
      · exact .inl (congrArg some hnext)
      · rw [if_neg hnext] at hname
        exact .inr (.inl ⟨hname, by simp⟩)
    · exact distinct_reopened hparts.shelved.distinct
  refine ⟨⟨⟨_, hparts.source, ?_, hshelved⟩, fun name hof hold hnew => ?_⟩, rfl, hshelved, dated', hnamed', ?_, ?_⟩
  · have hfirst := hshelved.holds (rolloverDate digits clock call w) 0 hisDate
    obtain ⟨n, hn'⟩ := Nat.exists_eq_succ_of_ne_zero (Nat.ne_of_gt hn)
    rw [hn', List.take_succ_cons, Shelf.group_cons_self] at hfirst
    exact hfirst
  · have hnew : name ≠ next := hnew
    rw [get?_reopened, if_neg hnew, hparts.others name hof hold]
  · intro date hd
    rw [hdated' date hd]
    exact textLe_refl _
  · intro e he
    rw [hgetD]
    rcases List.mem_cons.1 (List.mem_of_mem_take he) with rfl | he
    · exact hpresent
    · exact textLe_trans _ _ _ (hafter e he) hpresent

/-! ## Runs -/

theorem inOrder_fresh (hnamed : NamedBy digits base dated w.baseFilename)
    (hdated : ∀ date ∈ dated, DateLe date (clock.date t)) (hdistinct : w.Distinct)
    (honly : ∀ name, Dict.get? name w.files ≠ none → OfLog digits base name → name = w.baseFilename) :
    InOrder clock base t w [] where
  shelved :=
    { dates := by simp
      newestFirst := .nil
      holds date i hd := by
        by_contra hsome
        exact hnamed.ne_rotated hd (i + 1) (honly _ hsome (ofLog_rotated hd (i + 1))).symm
      only name hname hof := .inl (congrArg some (honly name hname hof))
      distinct := hdistinct }
  named := ⟨dated, hnamed, hdated, by simp⟩

theorem InOrder.mono {t t' : Nat} (h : InOrder clock base t w shelf) (ht : t ≤ t') : InOrder clock base t' w shelf := by
  obtain ⟨dated, hnamed, hdated, hnewest⟩ := h.named
  refine ⟨h.shelved, dated, hnamed, fun date hd => textLe_trans _ _ _ (hdated date hd) (clock.mono ht), fun e he => ?_⟩
  cases dated with
  | some date => exact hnewest e he
  | none => exact textLe_trans _ _ _ (hnewest e he) (clock.mono ht)

theorem InOrder.write (h : InOrder clock base t w shelf) (record : Chars) :
    InOrder clock base t (write record w).2 shelf := by
  rw [Logs.write]
  split
  · obtain ⟨dated, hnamed, hdated⟩ := h.named
    refine ⟨h.shelved.congr (fun date i hd => ?_) (fun name hname => ?_) (Dict.nodup_keys_set h.shelved.distinct), dated,
      hnamed, hdated⟩
    · exact Dict.get?_set_ne (hnamed.ne_rotated hd (i + 1)).symm _ _
    · by_cases hactive : name = w.baseFilename
      · exact .inl (congrArg some hactive)
      · rw [Dict.get?_set_ne hactive] at hname
        exact .inr (.inl ⟨hname, fun hsame => hactive (Option.some.inj hsame)⟩)
  · exact h

variable (clock) in
def rolls (call : Call) (w : LogHandler) : Bool :=
  shouldRollover call w && ((doRollover digits clock call).run w).1.isOk

theorem rolls_iff : rolls clock call w = true ↔
    shouldRollover call w = true ∧ (doRollover digits clock call).run w =
      (.ok (), ((doRollover digits clock call).run w).2) := by
  rw [rolls, Bool.and_eq_true]
  cases hrun : (doRollover digits clock call).run w with
  | mk r w' =>
    cases r with
    | ok u => simp [Except.isOk, Except.toBool]
    | error e => simp [Except.isOk, Except.toBool]

theorem emit_of_rolls (h : rolls clock call w = true) :
    emit digits clock call w = write call.record ((doRollover digits clock call).run w).2 := by
  obtain ⟨hshould, hrun⟩ := rolls_iff.1 h
  rw [emit, if_pos hshould, hrun]

theorem emit_of_not (h : shouldRollover call w = false) : emit digits clock call w = write call.record w := by
  rw [emit, if_neg (by simp [h])]

theorem emit_reaches (hn : 0 < call.backupCount) : (emit digits clock call w).1.isSome = true ↔
    rolls clock call w = true ∨ (w.isOpen = true ∧ shouldRollover call w = false) := by
  have hwrite (w : LogHandler) : (write call.record w).1.isSome = w.isOpen := by
    rw [write]
    cases w.isOpen <;> rfl
  cases hrolls : rolls clock call w with
  | true =>
    obtain ⟨-, hrun⟩ := rolls_iff.1 hrolls
    obtain ⟨w₁, w₂, w₃, -, -, -, hw⟩ := doRollover_steps hn hrun rfl
    rw [emit_of_rolls hrolls, hwrite, hw]
    simp [LogHandler.reopened]
  | false =>
    cases hshould : shouldRollover call w with
    | false =>
      rw [emit_of_not hshould, hwrite]
      simp
    | true =>
      rw [emit, if_pos hshould]
      rw [rolls, hshould, Bool.true_and] at hrolls
      cases hrun : (doRollover digits clock call).run w with
      | mk r w' =>
        cases r with
        | ok u =>
          rw [hrun] at hrolls
          cases hrolls
        | error e => simp

/-- A log on its way: its handler and directory, the shelf of its closed files as it should be, and whether no rollover has
been broken off. -/
structure Rotating where
  world : LogHandler
  shelf : LogShelf
  clean : Bool

namespace Rotating

variable (clock) in
def after (s : Rotating) (call : Call) : Rotating where
  world := (emit digits clock call s.world).2
  shelf :=
    if rolls clock call s.world then
      ((rolloverDate digits clock call s.world, (Dict.get? s.world.baseFilename s.world.files).getD []) ::
        s.shelf).take call.backupCount
    else s.shelf
  clean := s.clean && (rolls clock call s.world || !shouldRollover call s.world)

variable (clock base) in
def Retained (s : Rotating) (call : Call) : Prop :=
  rolls clock call s.world = true →
    Retains digits clock base s.shelf call s.world ((doRollover digits clock call).run s.world).2

variable (clock) in
/-- A rollover comes after none that was broken off, and the files that have to go are all those of their dates. -/
def Settled (s : Rotating) (call : Call) : Prop :=
  rolls clock call s.world = true → s.clean = true ∧ GoWhole call.backupCount (Shelf.push call.backupCount
    (rolloverDate digits clock call s.world) ((Dict.get? s.world.baseFilename s.world.files).getD []) s.shelf)

instance (s : Rotating) (call : Call) : Decidable (Settled clock s call) :=
  inferInstanceAs (Decidable (_ → s.clean = true ∧ GoWhole _ _))

variable (clock) in
def Reaches (s : Rotating) (call : Call) : Prop :=
  s.clean = false → (emit digits clock call s.world).1.isSome = true

variable (clock) in
/-- After a rollover that was broken off there is one that meets no error, with this record or before. -/
def Reopens (s : Rotating) (call : Call) : Prop :=
  s.clean = false →
    rolls clock call s.world = true ∨ (s.world.isOpen = true ∧ shouldRollover call s.world = false)

instance (s : Rotating) (call : Call) : Decidable (Reaches clock s call) :=
  inferInstanceAs (Decidable (s.clean = false → _))

variable {s : Rotating}

theorem inOrder_after (hbase : PlainBase digits base) (hn : 0 < call.backupCount)
    (h : s.clean = true → InOrder clock base t s.world s.shelf) (ht : t ≤ call.time) (hsettled : Settled clock s call)
    (hclean : (s.after clock call).clean = true) :
    InOrder clock base call.time (s.after clock call).world (s.after clock call).shelf := by
  have hbefore : s.clean = true := (Bool.and_eq_true _ _ ▸ hclean).1
  cases hrolls : rolls clock call s.world with
  | true =>
    obtain ⟨-, -, hinOrder⟩ := doRollover_retains hbase hn (h hbefore) ht (rolls_iff.1 hrolls).2 (hsettled hrolls).2
    rw [after, hrolls, if_pos rfl, emit_of_rolls hrolls]
    exact hinOrder.write call.record
  | false =>
    have hshould : shouldRollover call s.world = false := by
      have hrest := (Bool.and_eq_true _ _ ▸ hclean).2
      rw [hrolls, Bool.false_or, Bool.not_eq_true'] at hrest
      exact hrest
    rw [after, hrolls, if_neg Bool.false_ne_true, emit_of_not hshould]
    exact ((h hbefore).mono ht).write call.record

theorem retained_run (hbase : PlainBase digits base) {calls : List Call}
    (h : s.clean = true → InOrder clock base t s.world s.shelf)
    (htimes : (t :: calls.map Call.time).Pairwise (· ≤ ·)) (hcounts : ∀ call ∈ calls, 0 < call.backupCount)
    (hsettled : Along (after clock) (Settled clock) s calls) : Along (after clock) (Retained base clock) s calls := by
  induction calls generalizing t s with
  | nil => trivial
  | cons call calls ih =>
    obtain ⟨hfirst, hrest⟩ := hsettled
    obtain ⟨hn, hcounts⟩ := List.forall_mem_cons.1 hcounts
    obtain ⟨ht, htimes⟩ := List.pairwise_cons.1 htimes
    have ht : t ≤ call.time := ht call.time List.mem_cons_self
    constructor
    · intro hrolls
      obtain ⟨hclean, hwhole⟩ := hfirst hrolls
      exact (doRollover_retains hbase hn (h hclean) ht (rolls_iff.1 hrolls).2 hwhole).1
    · exact ih (fun hclean => inOrder_after hbase hn h ht hfirst hclean) htimes hcounts hrest

theorem reaches_run {calls : List Call} (hcounts : ∀ call ∈ calls, 0 < call.backupCount) :
    Along (after clock) (Reaches clock) s calls ↔ Along (after clock) (Reopens clock) s calls := by
  induction calls generalizing s with
  | nil => rfl
  | cons call calls ih =>
    obtain ⟨hn, hcounts⟩ := List.forall_mem_cons.1 hcounts
    rw [Along, Along, ih hcounts, Reaches, Reopens, emit_reaches hn]

end Rotating

/-- In a log in order, whose base name is plain, every rollover that meets no error keeps the newest files if all were
settled so far, and the records after a rollover that was broken off reach a file exactly where another one has succeeded
since. -/
theorem rotation (hbase : PlainBase digits base) {t : Nat} {s : Rotating} {calls : List Call}
    (h : InOrder clock base t s.world s.shelf) (htimes : (t :: calls.map Call.time).Pairwise (· ≤ ·))
    (hcounts : ∀ call ∈ calls, 0 < call.backupCount) :
    (Along (Rotating.after clock) (Rotating.Settled clock) s calls →
      Along (Rotating.after clock) (Rotating.Retained base clock) s calls) ∧
    (Along (Rotating.after clock) (Rotating.Reaches clock) s calls ↔
      Along (Rotating.after clock) (Rotating.Reopens clock) s calls) :=
  ⟨Rotating.retained_run hbase (fun _ => h) htimes hcounts, Rotating.reaches_run hcounts⟩

end

/-! ## A log of two days -/

def mayDay (t : Nat) : Chars :=
  if t < 10 then ['2', '0', '2', '4', '-', '0', '5', '-', '0', '1'] else ['2', '0', '2', '4', '-', '0', '5', '-', '0', '2']

def mayClock : Clock .arabic where
  date := mayDay
  computeRollover _ := 100
  isDate t := by
    rw [mayDay]
    split <;> decide
  mono {t t'} h := by
    by_cases h₁ : t' < 10
    · simp only [mayDay, Nat.lt_of_le_of_lt h h₁, h₁, if_true, textLe_refl]
    · by_cases h₂ : t < 10
      · simp only [mayDay, h₁, h₂, if_true, if_false]
        decide
      · simp only [mayDay, h₁, h₂, if_false, textLe_refl]

def appLog : LogHandler := ⟨[(['a', 'p', 'p', '.', 'l', 'o', 'g'], [])], ['a', 'p', 'p', '.', 'l', 'o', 'g'], true, 100⟩

def appStart : Rotating := ⟨appLog, [], true⟩

def appCall (backupCount t : Nat) (fails : Op → Bool) : Call := ⟨['x'], t, backupCount, 1, fails⟩

def appSecond : Rotating :=
  (appStart.after mayClock (appCall 2 1 fun _ => false)).after mayClock (appCall 2 2 fun _ => false)

theorem appStart_inOrder : InOrder mayClock ['a', 'p', 'p'] 0 appStart.world appStart.shelf := by
  have hnamed : NamedBy .arabic ['a', 'p', 'p'] none appStart.world.baseFilename := by
    show stemOf appLog.baseFilename = ['a', 'p', 'p']
    decide
  apply inOrder_fresh hnamed
  · simp
  · decide
  · intro name hname _
    by_contra hne
    apply hname
    exact if_neg (Ne.symm hne)

theorem app_no_digit : ∀ c ∈ ['a', 'p', 'p'], Digits.arabic.is c = false := by
  simp [Digits.arabic]

theorem rotation_app : Along (Rotating.after mayClock) (Rotating.Retained ['a', 'p', 'p'] mayClock) appStart
    [appCall 3 1 fun _ => false, appCall 3 2 fun _ => false, appCall 3 11 fun _ => false] :=
  (rotation (plainBase_of_no_digit app_no_digit) appStart_inOrder (by decide) (by decide)).1 (by decide +kernel)

/-- The newer of two files of a day is deleted and the older kept, and after a rollover that cannot list the directory the
next record is lost. -/
theorem rotation_drops_newer :
    ¬Along (Rotating.after mayClock) (Rotating.Retained ['a', 'p', 'p'] mayClock) appStart
      [appCall 2 1 fun _ => false, appCall 2 2 fun _ => false, appCall 2 11 fun _ => false] ∧
    ¬Along (Rotating.after mayClock) (Rotating.Reaches mayClock) appStart
      [appCall 2 1 (· = .listdir), appCall 2 2 fun _ => false] := by
  constructor
  · intro h
    obtain ⟨-, -, hthird, -⟩ := h
    obtain ⟨⟨closed, -, -, hshelved⟩, -⟩ := hthird (by decide +kernel)
    have hdate : rolloverDate .arabic mayClock (appCall 2 11 fun _ => false) appSecond.world = mayDay 11 := by
      decide +kernel
    have hshelf : appSecond.shelf.take 1 = [(mayDay 1, [['x']])] := by decide +kernel
    have hgone : Dict.get? (rotatedName ['a', 'p', 'p'] (mayDay 1) 1)
        ((doRollover .arabic mayClock (appCall 2 11 fun _ => false)).run appSecond.world).2.files = none := by
      decide +kernel
    have hnewer : Dict.get? (rotatedName ['a', 'p', 'p'] (mayDay 1) 1)
        ((doRollover .arabic mayClock (appCall 2 11 fun _ => false)).run appSecond.world).2.files =
        (Shelf.group (mayDay 1) ((rolloverDate .arabic mayClock (appCall 2 11 fun _ => false) appSecond.world, closed) ::
          appSecond.shelf.take 1))[0]? := hshelved.holds (mayDay 1) 0 (by decide)
    rw [hgone, hdate, hshelf, Shelf.group_cons_ne (by decide), Shelf.group_cons_self] at hnewer
    cases hnewer
  · decide +kernel

end Dumb.Logs
