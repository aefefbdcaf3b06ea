import Mathlib.Data.List.Flatten
import Mathlib.Data.List.Perm.Subperm
import Dumb.Lib.Text
import Dumb.Metrics.Store
import Dumb.Metrics.Downsample

/-!
# Reading the history from files

From `utils/metrics_history_reader.py`. The local date of a time, and what counts as a digit, are parameters.
-/

namespace Dumb.Metrics

inductive TimeError where
  | osError
  | valueError
  | overflowError
  deriving DecidableEq

structure HistoryFile (γ : Type) where
  name : List Char
  lines : List (Option (Entry γ))

section
variable {α γ : Type} (localDate : ℚ → Except TimeError (List Char)) (digit : Char → Bool)

/-! ## The code -/

def textLt (a b : List Char) : Bool := List.lex a b fun c d => decide (c.toNat < d.toNat)

def parseHistoryDate (name : List Char) : Option (List Char) :=
  if "metrics-".toList.isPrefixOf name ∧ ".jsonl".toList.isSuffixOf name then
    match (Py.replaceFrom ".jsonl".toList [] 0 name).splitOn '-' with
    | [_, date, index] => if date.length = 8 ∧ date.all digit ∧ index ≠ [] ∧ index.all digit then some date else none
    | _ => none
  else none

def cutoffDate : Option ℚ → Except TimeError (Option (List Char))
  | none => .ok none
  | some since =>
    match localDate since with
    | .ok date => .ok (some date)
    | .error .overflowError => .error .overflowError
    | .error _ => .ok none

def listed (cutoff : Option (List Char)) (f : HistoryFile γ) : Bool :=
  (parseHistoryDate digit f.name).any fun date => !cutoff.any (textLt date ·)

def listHistoryFiles (directory : Option (List (HistoryFile γ))) (since : Option ℚ) : Except TimeError (List (HistoryFile γ)) :=
  match directory with
  | none => .ok []
  | some files =>
    (cutoffDate localDate since).map fun cutoff => (files.filter (listed digit cutoff)).insertionSort (fun f g => !textLt g.name f.name)

def collectFile (since : Option ℚ) (limit : Int) : List (Sample γ) → List (Option (Entry γ)) → List (Sample γ) × Bool
  | items, [] => (items, false)
  | items, none :: lines => collectFile since limit items lines
  | items, some entry :: lines =>
    match entry.timestamp with
    | none => collectFile since limit items lines
    | some timestamp =>
      if since.any (timestamp < ·) then collectFile since limit items lines
      else if 0 < limit ∧ limit ≤ (items ++ [(timestamp, entry.rest)]).length then (items ++ [(timestamp, entry.rest)], true)
      else collectFile since limit (items ++ [(timestamp, entry.rest)]) lines

def collect (since : Option ℚ) (limit : Int) : List (Sample γ) → List (HistoryFile γ) → List (Sample γ) × Bool
  | items, [] => (items, false)
  | items, f :: files =>
    match collectFile since limit items f.lines with
    | (items, true) => (items, true)
    | (items, false) => collect since limit items files

def historySince (now : ℚ) (since : Option ℚ) (full : Bool) (defaultHours : ℚ) : Option ℚ :=
  if since = none ∧ full = false then some (now - defaultHours * 60 * 60) else since

def byTime (items : List (Sample γ)) : List (Sample γ) := items.insertionSort (·.1 ≤ ·.1)

def readHistory (now : ℚ) (directory : Option (List (HistoryFile γ))) (since : Option ℚ) (full : Bool) (limit : Int)
    (defaultHours : ℚ) : Except TimeError (List (Sample γ) × Bool) :=
  let since := historySince now since full defaultHours
  (listHistoryFiles localDate digit directory since).map fun files =>
    let (items, truncated) := collect since limit [] files.reverse
    (byTime items, truncated)

/-! ## What the files hold -/

def sampleOf (line : Option (Entry γ)) : Option (Sample γ) :=
  line.bind fun entry => entry.timestamp.map fun timestamp => (timestamp, entry.rest)

def HistoryFile.samples (f : HistoryFile γ) : List (Sample γ) := f.lines.filterMap sampleOf

def HistoryFile.since (since : Option ℚ) (f : HistoryFile γ) : List (Sample γ) :=
  f.samples.filter fun x => !since.any (x.1 < ·)

def historySamples (files : List (HistoryFile γ)) : List (Sample γ) :=
  (files.filter fun f => (parseHistoryDate digit f.name).isSome).flatMap HistoryFile.samples

/-- The first few of the lists hold together as many snapshots as the limit allows, or as many as there are, each of them
newer than all the others. -/
def Aligned (limit : Nat) (lists : List (List (Sample γ))) (wanted : List (Sample γ)) : Prop :=
  ∃ j, (lists.take j).flatten.length = min limit wanted.length ∧
    ∀ x ∈ (lists.take j).flatten, ∀ y ∈ wanted, y ∉ (lists.take j).flatten → y.1 < x.1

theorem collectFile_eq (since : Option ℚ) {limit : Int} (items : List (Sample γ)) (f : HistoryFile γ)
    (hroom : (items.length : Int) < limit) :
    (collectFile since limit items f.lines).1 = (items ++ f.since since).take limit.toNat ∧
      ((collectFile since limit items f.lines).2 = true ↔ limit ≤ (items ++ f.since since).length) := by
  obtain ⟨name, lines⟩ := f
  simp only [HistoryFile.since, HistoryFile.samples]
  induction lines generalizing items with
  | nil =>
    simp only [collectFile, List.filterMap_nil, List.filter_nil, List.append_nil, Bool.false_eq_true, false_iff]
    exact ⟨(List.take_of_length_le (by omega)).symm, by omega⟩
  | cons line lines ih =>
    cases line with
    | none => exact ih items hroom
    | some entry =>
      obtain ⟨timestamp, rest⟩ := entry
      cases timestamp with
      | none => exact ih items hroom
      | some ts =>
        have hsample : sampleOf (some ⟨some ts, rest⟩) = some (ts, rest) := rfl
        rw [List.filterMap_cons_some hsample]
        by_cases hold : since.any (ts < ·)
        · rw [List.filter_cons_of_neg (by simp [hold])]
          simp only [collectFile, hold, ↓reduceIte]
          exact ih items hroom
        · have hlen : (items ++ [(ts, rest)]).length = items.length + 1 := List.length_append
          rw [List.filter_cons_of_pos (by simpa using hold), List.append_cons]
          simp only [collectFile, hold, Bool.false_eq_true, ↓reduceIte]
          by_cases hfull : 0 < limit ∧ limit ≤ (items ++ [(ts, rest)]).length
          · rw [if_pos hfull, List.take_append_of_le_length (by omega), List.take_of_length_le (by omega),
              List.length_append]
            exact ⟨rfl, by simp only [true_iff]; omega⟩
          · rw [if_neg hfull]
            exact ih _ (by omega)

theorem collect_eq {since : Option ℚ} {limit : Int} (items : List (Sample γ)) (files : List (HistoryFile γ))
    (hroom : (items.length : Int) < limit) :
    (collect since limit items files).1 = (items ++ files.flatMap (HistoryFile.since since)).take limit.toNat := by
  induction files generalizing items with
  | nil => rw [collect, List.flatMap_nil, List.append_nil, List.take_of_length_le (by omega)]
  | cons f files ih =>
    obtain ⟨htaken, hfull⟩ := collectFile_eq since items f hroom
    rw [collect, List.flatMap_cons, ← List.append_assoc]
    rcases hfile : collectFile since limit items f.lines with ⟨more, truncated⟩
    rw [hfile] at htaken hfull
    obtain rfl : more = _ := htaken
    cases truncated with
    | true =>
      have := hfull.1 rfl
      exact (List.take_append_of_le_length (by omega)).symm
    | false =>
      have : ¬limit ≤ (items ++ f.since since).length := fun h => Bool.false_ne_true (hfull.2 h)
      rw [List.take_of_length_le (by omega)]
      exact ih _ (by omega)

/-! ## Where the cut falls -/

theorem take_flatten_cases (n : Nat) (lists : List (List α)) :
    (∃ j, lists.flatten.take n = (lists.take j).flatten) ∨
      ∃ l ∈ lists, ∃ i < l.length, 0 < i ∧ ∃ front back, lists.flatten.take n = front ++ l.take i ∧
        lists.flatten.drop n = l.drop i ++ back := by
  induction lists generalizing n with
  | nil => exact .inl ⟨0, by simp⟩
  | cons l lists ih =>
    rw [List.flatten_cons]
    rcases Nat.lt_or_ge n l.length with hin | hout
    · rcases Nat.eq_zero_or_pos n with rfl | hpos
      · exact .inl ⟨0, by simp⟩
      · refine .inr ⟨l, List.mem_cons_self, n, hin, hpos, [], lists.flatten, ?_, ?_⟩
        · rw [List.take_append_of_le_length hin.le, List.nil_append]
        · rw [List.drop_append_of_le_length hin.le]
    · obtain ⟨m, rfl⟩ := Nat.exists_eq_add_of_le hout
      rcases ih m with ⟨j, hj⟩ | ⟨k, hk, i, hi, hpos, front, back, htake, hdrop⟩
      · exact .inl ⟨j + 1, by simp [List.take_append, hj]⟩
      · refine .inr ⟨k, List.mem_cons_of_mem _ hk, i, hi, hpos, l ++ front, back, ?_, ?_⟩
        · simp [List.take_append, htake]
        · simp [List.drop_append, hdrop]

theorem pairwise_byTime {items : List (Sample γ)} (h : (items.map (·.1)).Nodup) :
    (byTime items).Pairwise fun a b => a.1 < b.1 := by
  have hle := List.pairwise_insertionSort (fun a b : Sample γ => a.1 ≤ b.1) items
  have hperm := (List.perm_insertionSort (fun a b : Sample γ => a.1 ≤ b.1) items).map Prod.fst
  have hne := List.pairwise_map.1 (hperm.nodup_iff.2 h)
  exact (hle.and hne).imp fun ⟨hab, hab'⟩ => lt_of_le_of_ne hab hab'

theorem byTime_eq_of_perm {items sorted : List (Sample γ)} (hsorted : sorted.Pairwise fun a b => a.1 < b.1)
    (hperm : items.Perm sorted) : byTime items = sorted := by
  have : Std.Irrefl fun a b : Sample γ => a.1 < b.1 := ⟨fun a => lt_irrefl a.1⟩
  have : Std.Antisymm fun a b : Sample γ => a.1 < b.1 := ⟨fun a b hab hba => absurd hba hab.not_gt⟩
  have hnodup : (sorted.map (·.1)).Nodup := List.pairwise_map.2 (hsorted.imp fun h => h.ne)
  refine List.Pairwise.eq_of_mem_iff (pairwise_byTime ((hperm.map _).nodup_iff.2 hnodup)) hsorted fun x => ?_
  rw [byTime, List.mem_insertionSort, hperm.mem_iff]

section
variable {lists : List (List (Sample γ))} {rows : List (Sample γ)} {limit : Nat}

theorem perm_newest (hrows : rows.Pairwise fun a b => a.1 < b.1) {read : List (Sample γ)} (hnodup : read.Nodup)
    (hin : ∀ x ∈ read, x ∈ rows) (hlen : read.length = min limit rows.length)
    (hnewer : ∀ x ∈ read, ∀ y ∈ rows, y ∉ read → y.1 < x.1) : read.Perm (rows.drop (rows.length - limit)) := by
  have hrowsNodup : rows.Nodup := hrows.imp fun hlt heq => hlt.ne (congrArg Prod.fst heq)
  have hnewest : (rows.drop (rows.length - limit)).Nodup := hrowsNodup.drop
  have hlen' : (rows.drop (rows.length - limit)).length = read.length := by
    rw [List.length_drop]
    omega
  have hsorted := hrows
  rw [← List.take_append_drop (rows.length - limit) rows] at hsorted
  have holder := (List.pairwise_append.1 hsorted).2.2
  have hsub : rows.drop (rows.length - limit) ⊆ read := by
    intro y hy
    by_contra hnot
    -- All that was read is then newer than `y`, and the rest of the newest rows is too short for it.
    have hall : y :: read ⊆ rows.drop (rows.length - limit) := by
      intro x hx
      rcases List.mem_cons.1 hx with rfl | hx
      · exact hy
      · have hlt := hnewer x hx y (List.mem_of_mem_drop hy) hnot
        have hx' := hin x hx
        rw [← List.take_append_drop (rows.length - limit) rows, List.mem_append] at hx'
        exact hx'.resolve_left fun htaken => absurd (holder x htaken y hy) hlt.not_gt
    have := (List.subperm_of_subset (List.nodup_cons.2 ⟨hnot, hnodup⟩) hall).length_le
    rw [List.length_cons] at this
    omega
  exact ((List.subperm_of_subset hnewest hsub).perm_of_length_le hlen'.ge).symm

theorem byTime_take_iff (hrows : rows.Pairwise fun a b => a.1 < b.1) (hlists : ∀ l ∈ lists, l.Pairwise fun a b => a.1 < b.1)
    (hnodup : lists.flatten.Nodup) (hin : ∀ x ∈ lists.flatten, x ∈ rows) :
    byTime (lists.flatten.take limit) = rows.drop (rows.length - limit) ↔ Aligned limit lists rows := by
  have hshorter : lists.flatten.length ≤ rows.length := (List.subperm_of_subset hnodup hin).length_le
  have hsorted := hrows
  rw [← List.take_append_drop (rows.length - limit) rows] at hsorted
  have holder := (List.pairwise_append.1 hsorted).2.2
  constructor
  · intro h
    have hperm : (lists.flatten.take limit).Perm (rows.drop (rows.length - limit)) := by
      rw [← h]
      exact (List.perm_insertionSort _ _).symm
    -- What was not read is older, as it is not among the newest.
    have hnewer : ∀ x ∈ lists.flatten.take limit, ∀ y ∈ rows, y ∉ lists.flatten.take limit → y.1 < x.1 := by
      intro x hx y hy hnot
      rw [← List.take_append_drop (rows.length - limit) rows, List.mem_append] at hy
      exact holder y (hy.resolve_right fun hdrop => hnot (hperm.mem_iff.2 hdrop)) x (hperm.mem_iff.1 hx)
    have hlen : (lists.flatten.take limit).length = min limit rows.length := by
      rw [hperm.length_eq, List.length_drop]
      omega
    rcases take_flatten_cases limit lists with ⟨j, hj⟩ | ⟨l, hl, i, hi, hpos, front, back, htake, hdrop⟩
    · exact ⟨j, hj ▸ hlen, hj ▸ hnewer⟩
    · have hlast : l[i - 1] ∈ lists.flatten.take limit := by
        rw [htake]
        exact List.mem_append_right _ (List.mem_take_iff_getElem.2 ⟨i - 1, by omega, rfl⟩)
      have hnext : l[i] ∈ lists.flatten.drop limit := by
        rw [hdrop]
        exact List.mem_append_left _ (List.mem_drop_iff_getElem.2 ⟨0, by omega, by simp⟩)
      have hfresh : l[i] ∉ lists.flatten.take limit := by
        intro htaken
        rw [← List.take_append_drop limit lists.flatten] at hnodup
        exact List.disjoint_of_nodup_append hnodup htaken hnext
      have hlt := hnewer _ hlast _ (hin _ (List.mem_of_mem_drop hnext)) hfresh
      have hgt := List.pairwise_iff_getElem.1 (hlists l hl) (i - 1) i (by omega) hi (by omega)
      exact absurd hlt hgt.not_gt
  · rintro ⟨j, hlen, hnewer⟩
    have hsplit : lists.flatten = (lists.take j).flatten ++ (lists.drop j).flatten := by
      rw [← List.flatten_append, List.take_append_drop]
    have hsub : (lists.take j).flatten.Sublist lists.flatten := by
      rw [hsplit]
      exact List.sublist_append_left _ _
    have hread : lists.flatten.take limit = (lists.take j).flatten := by
      have hlens := congrArg List.length hsplit
      rw [List.length_append] at hlens
      rw [hsplit]
      rcases Nat.le_total limit rows.length with hle | hge
      · rw [List.take_append_of_le_length (by omega), List.take_of_length_le (by omega)]
      · have hrest : (lists.drop j).flatten = [] := List.length_eq_zero_iff.1 (by omega)
        rw [hrest, List.append_nil, List.take_of_length_le (by omega)]
    rw [hread]
    exact byTime_eq_of_perm hrows.drop
      (perm_newest hrows (hnodup.sublist hsub) (fun x hx => hin x (hsub.subset hx)) hlen hnewer)

end

theorem readRows_eq {t : Table ℚ γ} {since : Option ℚ} {limit : Int} (hlimit : 0 < limit) :
    readRows t since limit = (t.since since).drop ((t.since since).length - limit.toNat) := by
  rw [readRows, limited, if_pos hlimit, List.take_reverse, List.reverse_reverse]

/-- The two readers return the same just if the local date of `since` can be told and the cut falls between two files that
are in the order of their snapshots. -/
theorem readHistory_eq_iff (now : ℚ) (files : List (HistoryFile γ)) (since : Option ℚ) (full : Bool) {limit : Int}
    (hlimit : 0 < limit) (defaultHours : ℚ) (t : Table ℚ γ) (hsame : ∀ x, x ∈ t ↔ x ∈ historySamples digit files)
    (hdistinct : ((historySamples digit files).map (·.1)).Nodup)
    (hascending : ∀ f ∈ files, f.samples.Pairwise fun a b => a.1 < b.1) :
    (readHistory localDate digit now (some files) since full limit defaultHours).map Prod.fst =
        .ok (readRows t (historySince now since full defaultHours) limit) ↔
      ∃ listing, listHistoryFiles localDate digit (some files) (historySince now since full defaultHours) = .ok listing ∧
        Aligned limit.toNat (listing.reverse.map (HistoryFile.since (historySince now since full defaultHours)))
          (t.since (historySince now since full defaultHours)) := by
  generalize hsince : historySince now since full defaultHours = from?
  simp only [readHistory, hsince]
  cases hlisting : listHistoryFiles localDate digit (some files) from? with
  | error e => simp [Except.map]
  | ok listing =>
    simp only [Except.map, Except.ok.injEq, exists_eq_left']
    obtain ⟨cutoff, -, rfl⟩ : ∃ cutoff, cutoffDate localDate from? = .ok cutoff ∧
        (files.filter (listed digit cutoff)).insertionSort (fun f g => !textLt g.name f.name) = listing := by
      rw [listHistoryFiles] at hlisting
      cases hcutoff : cutoffDate localDate from? with
      | error e => simp [hcutoff, Except.map] at hlisting
      | ok cutoff => exact ⟨cutoff, rfl, by simpa [hcutoff, Except.map] using hlisting⟩
    have hperm : (((files.filter (listed digit cutoff)).insertionSort (fun f g => !textLt g.name f.name)).reverse).Perm
        (files.filter (listed digit cutoff)) := (List.reverse_perm _).trans (List.perm_insertionSort _ _)
    have hlisted : (files.filter (listed digit cutoff)).Sublist
        (files.filter fun f => (parseHistoryDate digit f.name).isSome) := by
      apply List.monotone_filter_right
      intro f hf
      rw [listed] at hf
      cases hdate : parseHistoryDate digit f.name with
      | none => rw [hdate] at hf; cases hf
      | some date => rfl
    generalize ((files.filter (listed digit cutoff)).insertionSort (fun f g => !textLt g.name f.name)).reverse = listing at *
    have hread := hlisted.flatMap HistoryFile.samples
    have hsamples : (listing.flatMap HistoryFile.samples).Perm ((files.filter (listed digit cutoff)).flatMap HistoryFile.samples) :=
      hperm.flatMap_right _
    have hflatten : (listing.map (HistoryFile.since from?)).flatten =
        (listing.flatMap HistoryFile.samples).filter fun x => !from?.any (x.1 < ·) := by
      rw [List.filter_flatMap]
      exact List.flatMap_def.symm
    have hnodup : (listing.flatMap HistoryFile.samples).Nodup :=
      hsamples.nodup_iff.2 ((List.Nodup.of_map _ hdistinct).sublist hread)
    have hin : ∀ x ∈ (listing.map (HistoryFile.since from?)).flatten, x ∈ t.since from? := by
      intro x hx
      rw [hflatten, List.mem_filter] at hx
      refine Table.mem_since.2 ⟨(hsame x).2 (hread.subset (hsamples.mem_iff.1 hx.1)), fun k hk => ?_⟩
      obtain rfl := Option.mem_def.1 hk
      simpa using hx.2
    have hlists : ∀ l ∈ listing.map (HistoryFile.since from?), l.Pairwise fun a b => a.1 < b.1 := by
      intro l hl
      obtain ⟨f, hf, rfl⟩ := List.mem_map.1 hl
      exact (hascending f (List.mem_filter.1 (hperm.mem_iff.1 hf)).1).filter _
    rw [collect_eq [] listing hlimit, List.nil_append, List.flatMap_def, readRows_eq hlimit]
    apply byTime_take_iff (t.since_sorted from?) hlists _ hin
    rw [hflatten]
    exact hnodup.filter _

end

/-! ## Runs -/

def oneFile : List (HistoryFile Nat) := [⟨"metrics-20260529-000.jsonl".toList, [some ⟨some 100, 1⟩, none, some ⟨some 200, 2⟩]⟩]

def twoSeconds : Table ℚ Nat := ⟨[(100, 1), (200, 2)], by decide +kernel⟩

theorem readHistory_eq_iff_oneFile :
    (readHistory (fun _ => .ok "20260529".toList) Char.isDigit 300 (some oneFile) none true 5 6).map Prod.fst =
        .ok (readRows twoSeconds (historySince 300 none true 6) 5) ↔
      ∃ listing, listHistoryFiles (fun _ => .ok "20260529".toList) Char.isDigit (some oneFile) (historySince 300 none true 6) =
          .ok listing ∧
        Aligned (5 : Int).toNat (listing.reverse.map (HistoryFile.since (historySince 300 none true 6)))
          (twoSeconds.since (historySince 300 none true 6)) := by
  have hsamples : historySamples Char.isDigit oneFile = [(100, 1), (200, 2)] := by decide +kernel
  apply readHistory_eq_iff (fun _ => .ok "20260529".toList) Char.isDigit 300 oneFile none true (by decide) 6 twoSeconds
  · intro x
    rw [hsamples]
    exact Iff.rfl
  · rw [hsamples]
    decide +kernel
  · decide +kernel

/-- Cut at one snapshot, the file gives the older one and the database the newer one. -/
theorem readHistory_cuts_newest :
    (readHistory (fun _ => .ok "20260529".toList) Char.isDigit 300 (some oneFile) (some 0) false 1 6).map Prod.fst =
        .ok [(100, 1)] ∧
      readRows twoSeconds (some 0) 1 = [(200, 2)] ∧ historySamples Char.isDigit oneFile = twoSeconds.rows := by
  refine ⟨?_, ?_, ?_⟩ <;> decide +kernel

end Dumb.Metrics
