import Mathlib.Data.List.Pairwise
import Mathlib.Data.List.Sort
import Dumb.Lib.Raise
import Dumb.Lib.Slug
import Dumb.Lib.Text

/-!
# Scheduled symlink backups

From `utils/auto_update.py`: `_run_symlink_backup`, as far as it writes a manifest and prunes older ones. Which files are older ones
is found out with a glob that is made of the path template.
-/

namespace Dumb.AutoUpdate.Backups

open Py

/-! ## `glob` -/

inductive Token where
  | any
  | one
  | set (negated : Bool) (ranges : List (Char × Char))
  | lit (c : Char)

def ranges : List Char → List (Char × Char)
  | c :: '-' :: d :: cs => (c, d) :: ranges cs
  | c :: cs => (c, c) :: ranges cs
  | [] => []

def splitSet : List Char → Option (List Char × List Char)
  | [] => none
  | c :: cs => if cs.contains ']' then some (c :: cs.takeWhile (· ≠ ']'), (cs.dropWhile (· ≠ ']')).tail) else none

def tokens : Nat → List Char → List Token
  | 0, _ => []
  | _ + 1, [] => []
  | n + 1, '*' :: cs => .any :: tokens n cs
  | n + 1, '?' :: cs => .one :: tokens n cs
  | n + 1, '[' :: '!' :: cs =>
    match splitSet cs with
    | some (body, rest) => .set true (ranges body) :: tokens n rest
    | none => .lit '[' :: tokens n ('!' :: cs)
  | n + 1, '[' :: cs =>
    match splitSet cs with
    | some (body, rest) => .set false (ranges body) :: tokens n rest
    | none => .lit '[' :: tokens n cs
  | n + 1, c :: cs => .lit c :: tokens n cs

def fits : List Token → List Char → Bool
  | [], cs => cs.isEmpty
  | .any :: ts, cs => cs.tails.any fun rest => fits ts rest
  | .one :: ts, _ :: cs => fits ts cs
  | .set negated rs :: ts, c :: cs => (rs.any fun r => r.1 ≤ c && c ≤ r.2) ≠ negated && fits ts cs
  | .lit d :: ts, c :: cs => c = d && fits ts cs
  | _, _ => false

def partFits (part name : String) : Bool :=
  if part.toList.any ['*', '?', '['].contains then
    (part.toList.head? = some '.' || name.toList.head? ≠ some '.') && fits (tokens part.length part.toList) name.toList
  else part = name

abbrev Path : Type := List String

def parts (path : String) : Path :=
  match split '/' path with
  | [] => []
  | first :: rest => first :: rest.filter fun name => name ≠ "" && name ≠ "."

def globFinds (pattern path : Path) : Bool :=
  pattern.length = path.length && (pattern.zipWith partFits path).all id

/-! ## Names -/

structure Env where
  text : Text
  /-- `c.isalnum()` -/
  isalnum : Char → Bool

section
variable (env : Env)

def normalizeProcessSlug (processName : String) : String :=
  let slug := (processName.toList.flatMap fun c =>
    if env.isalnum c then (env.text.lower (String.singleton c)).toList else ['-'])
  let slug := String.ofList (Slug.trim '-' slug)
  if slug = "" then "service" else slug

def fill (timestamp date time processName slug template : String) : String :=
  replace "\x7bprocess_slug\x7d" slug
    (replace "\x7bprocess_name\x7d" processName
      (replace "\x7btime\x7d" time (replace "\x7bdate\x7d" date (replace "\x7btimestamp\x7d" timestamp template))))

def symlinkManifestGlobPattern (processName template : String) : String :=
  let slug := normalizeProcessSlug env processName
  let template := if env.text.strip template = "" then "/config/symlink-repair/snapshots/" ++ slug ++ "-\x7btimestamp\x7d.json"
    else env.text.strip template
  fill "*" "*" "*" processName slug template

def civil (days : Int) : Int × Int × Int :=
  let z := days + 719468
  let era := z / 146097
  let doe := z - era * 146097
  let yoe := (doe - doe / 1460 + doe / 36524 - doe / 146096) / 365
  let doy := doe - (365 * yoe + yoe / 4 - yoe / 100)
  let mp := (5 * doy + 2) / 153
  let month := if mp < 10 then mp + 3 else mp - 9
  (yoe + era * 400 + if month ≤ 2 then 1 else 0, month, doy - (153 * mp + 2) / 5 + 1)

def padded (width : Nat) (n : Int) : String :=
  let digits := Nat.toDigits 10 n.toNat
  String.ofList (List.replicate (width - digits.length) '0' ++ digits)

def date (runTs : Int) : String :=
  let (year, month, day) := civil (runTs / 86400)
  padded 4 year ++ padded 2 month ++ padded 2 day

def time (runTs : Int) : String :=
  let second := runTs % 86400
  padded 2 (second / 3600) ++ padded 2 (second / 60 % 60) ++ padded 2 (second % 60)

def resolveSymlinkBackupPath (processName template : String) (runTs : Int) : String :=
  fill (date runTs ++ "T" ++ time runTs ++ "Z") (date runTs) (time runTs) processName (normalizeProcessSlug env processName)
    (env.text.strip template)

/-! ## Pruning -/

structure File where
  writer : Option String
  mtime : Int
  deriving DecidableEq

abbrev Files : Type := Dict Path File

def manifestCandidates (pattern : Path) (listing : List Path) (files : Files) : List (Path × Int) :=
  listing.filterMap fun path => if globFinds pattern path then (Dict.get? path files).map fun file => (path, file.mtime) else none

def newer (a b : Path × Int) : Prop := b.2 ≤ a.2

instance : DecidableRel newer := fun a b => inferInstanceAs (Decidable (b.2 ≤ a.2))

def stalePaths (pattern : Path) (listing : List Path) (retentionCount : Nat) (files : Files) : List Path :=
  if retentionCount = 0 then []
  else (((manifestCandidates pattern listing files).insertionSort newer).drop retentionCount).map (·.1)

def pruneSymlinkBackupManifests (processName template : String) (retentionCount : Nat) (listing : List Path) (files : Files) :
    Files :=
  let stale := stalePaths (parts (symlinkManifestGlobPattern env processName template)) listing retentionCount files
  files.filter fun file => !stale.contains file.1

/-! ## Runs -/

structure Settings where
  template : String
  retentionCount : Nat

inductive Event where
  /-- `_run_symlink_backup`, with the time of its manifest and the order in which the directories list their files. -/
  | backup (processName : String) (runTs mtime : Int) (listing : List Path)
  | other (path : Path) (mtime : Int)

structure State where
  files : Files
  written : String → List (Path × Int)

variable (settings : String → Settings)

def manifestPath (processName : String) (runTs : Int) : Path :=
  parts (resolveSymlinkBackupPath env processName (settings processName).template runTs)

def State.write (s : State) (processName : String) (runTs mtime : Int) : Files :=
  Dict.set (manifestPath env settings processName runTs) ⟨some processName, mtime⟩ s.files

def State.after (s : State) : Event → State
  | .backup processName runTs mtime listing =>
    { files := pruneSymlinkBackupManifests env processName (settings processName).template (settings processName).retentionCount
        listing (s.write env settings processName runTs mtime)
      written := fun name =>
        if name = processName then (manifestPath env settings processName runTs, mtime) :: s.written name else s.written name }
  | .other path mtime => { s with files := Dict.set path ⟨none, mtime⟩ s.files }

def State.PrunesRight (s : State) : Event → Prop
  | .backup processName runTs mtime listing =>
    let after := s.after env settings (.backup processName runTs mtime listing)
    0 < (settings processName).retentionCount →
      (∀ path file, Dict.get? path (s.write env settings processName runTs mtime) = some file →
        Dict.get? path after.files = none → file.writer = some processName) ∧
      ∀ path time, Dict.get? path after.files = some ⟨some processName, time⟩ ↔
        (path, time) ∈ (after.written processName).take (settings processName).retentionCount
  | .other _ _ => True

def State.Real (s : State) : Event → Prop
  | .backup processName runTs mtime listing =>
    listing.Perm (Dict.keys (s.write env settings processName runTs mtime)) ∧ ∀ old ∈ s.written processName, old.2 < mtime
  | .other _ _ => True

/-- The manifest and other people's files are new files, and the service's pattern finds its own manifests and no other file. -/
def State.Allowed (s : State) : Event → Prop
  | .backup processName runTs mtime _ =>
    manifestPath env settings processName runTs ∉ Dict.keys s.files ∧
      ∀ file ∈ s.write env settings processName runTs mtime,
        (globFinds (parts (symlinkManifestGlobPattern env processName (settings processName).template)) file.1 = true ↔
          file.2.writer = some processName)
  | .other path _ => path ∉ Dict.keys s.files

/-! ## What is pruned -/

def kept (retentionCount : Nat) (written : List (Path × Int)) : List (Path × Int) :=
  if retentionCount = 0 then written else written.take retentionCount

structure State.Sound (s : State) : Prop where
  nodup : (Dict.keys s.files).Nodup
  own : ∀ name path time, Dict.get? path s.files = some ⟨some name, time⟩ ↔
    (path, time) ∈ kept (settings name).retentionCount (s.written name)
  sorted : ∀ name, (s.written name).Pairwise fun a b => b.2 < a.2

instance : Std.Total newer := ⟨fun a b => (le_total a.2 b.2).symm⟩

instance : IsTrans (Path × Int) newer := ⟨fun _ _ _ hab hbc => le_trans hbc hab⟩

theorem insertionSort_eq {found sorted : List (Path × Int)} (hfound : found.Nodup) (hsorted : sorted.Pairwise fun a b => b.2 < a.2)
    (hmem : ∀ file, file ∈ found ↔ file ∈ sorted) : found.insertionSort newer = sorted := by
  have hnodup : sorted.Nodup := by
    apply hsorted.imp
    rintro a b hlt rfl
    exact lt_irrefl _ hlt
  have hperm : (found.insertionSort newer).Perm sorted :=
    (List.perm_insertionSort newer found).trans ((List.perm_ext_iff_of_nodup hfound hnodup).2 hmem)
  have hnewer : sorted.Pairwise newer := hsorted.imp fun hlt => le_of_lt hlt
  have hinj : ∀ a ∈ sorted, ∀ b ∈ sorted, a ≠ b → a.2 ≠ b.2 := by
    have hne : sorted.Pairwise fun a b => a.2 ≠ b.2 := hsorted.imp fun hlt heq => absurd (heq ▸ hlt) (lt_irrefl _)
    have hsymm : Std.Symm fun a b : Path × Int => a.2 ≠ b.2 := ⟨fun _ _ h => Ne.symm h⟩
    exact fun a ha b hb hab => hne.forall ha hb hab
  apply hperm.eq_of_pairwise _ (List.pairwise_insertionSort newer found) hnewer
  intro a b ha hb hab hba
  by_contra hne
  exact hinj a (hperm.mem_iff.1 ha) b hb hne (le_antisymm hba hab)

variable {env settings}

variable {path : Path}

theorem mem_manifestCandidates {pattern : Path} {listing : List Path} {files : Files} {time : Int} :
    (path, time) ∈ manifestCandidates pattern listing files ↔
      path ∈ listing ∧ globFinds pattern path = true ∧ ∃ file, Dict.get? path files = some file ∧ file.mtime = time := by
  simp only [manifestCandidates, List.mem_filterMap]
  constructor
  · rintro ⟨other, hlisted, hfound⟩
    split at hfound
    · rename_i hglob
      obtain ⟨file, hfile, heq⟩ := Option.map_eq_some_iff.1 hfound
      cases heq
      exact ⟨hlisted, hglob, file, hfile, rfl⟩
    · cases hfound
  · rintro ⟨hlisted, hglob, file, hfile, rfl⟩
    exact ⟨path, hlisted, by rw [if_pos hglob, hfile]; rfl⟩

theorem nodup_manifestCandidates {pattern : Path} {listing : List Path} (h : listing.Nodup) (files : Files) :
    (manifestCandidates pattern listing files).Nodup := by
  apply h.filterMap
  intro a b found ha hb
  have hname : ∀ {path : Path}, found ∈ (if globFinds pattern path then
      (Dict.get? path files).map fun file => (path, file.mtime) else none) → found.1 = path := by
    intro path hfound
    split at hfound
    · obtain ⟨file, -, rfl⟩ := Option.map_eq_some_iff.1 hfound
      rfl
    · cases hfound
  exact (hname ha).symm.trans (hname hb)

section
variable {s : State} {processName : String} {runTs mtime : Int} {listing : List Path}

variable (env settings) in
def State.manifests (s : State) (processName : String) (runTs mtime : Int) : List (Path × Int) :=
  (manifestPath env settings processName runTs, mtime) :: kept (settings processName).retentionCount (s.written processName)

variable (env settings) in
def State.stale (s : State) (processName : String) (runTs mtime : Int) (listing : List Path) : List Path :=
  stalePaths (parts (symlinkManifestGlobPattern env processName (settings processName).template)) listing
    (settings processName).retentionCount (s.write env settings processName runTs mtime)

variable {written : List (Path × Int)}

theorem sorted_kept {n : Nat} (h : written.Pairwise fun a b => b.2 < a.2) :
    (kept n written).Pairwise fun a b => b.2 < a.2 := by
  unfold kept
  split
  · exact h
  · exact h.sublist (List.take_sublist _ _)

theorem mem_of_kept {n : Nat} {file : Path × Int} (h : file ∈ kept n written) :
    file ∈ written := by
  unfold kept at h
  split at h
  · exact h
  · exact List.mem_of_mem_take h

theorem sorted_manifests (h : s.Sound settings) (hlater : ∀ old ∈ s.written processName, old.2 < mtime) :
    (s.manifests env settings processName runTs mtime).Pairwise fun a b => b.2 < a.2 :=
  List.pairwise_cons.2 ⟨fun old hold => hlater old (mem_of_kept hold), sorted_kept (h.sorted processName)⟩

theorem mem_manifests (h : s.Sound settings) (hnew : manifestPath env settings processName runTs ∉ Dict.keys s.files)
    (path : Path) (time : Int) : (path, time) ∈ s.manifests env settings processName runTs mtime ↔
      Dict.get? path (s.write env settings processName runTs mtime) = some ⟨some processName, time⟩ := by
  rw [State.manifests, List.mem_cons, ← h.own, State.write, Dict.get?_set]
  by_cases hpath : path = manifestPath env settings processName runTs
  · have habsent : Dict.get? path s.files = none := by
      by_contra hne
      exact hnew (hpath ▸ Dict.mem_keys.2 hne)
    simp [← hpath, habsent, eq_comm]
  · simp [hpath]

theorem sorted_candidates (h : s.Sound settings) (hreal : s.Real env settings (.backup processName runTs mtime listing))
    (hallowed : s.Allowed env settings (.backup processName runTs mtime listing)) :
    (manifestCandidates (parts (symlinkManifestGlobPattern env processName (settings processName).template)) listing
      (s.write env settings processName runTs mtime)).insertionSort newer = s.manifests env settings processName runTs mtime := by
  obtain ⟨hlisted, hlater⟩ := hreal
  obtain ⟨hnew, hfinds⟩ := hallowed
  have hnodup : listing.Nodup := hlisted.nodup_iff.2 (Dict.nodup_keys_set h.nodup)
  apply insertionSort_eq (nodup_manifestCandidates hnodup _) (sorted_manifests h hlater)
  rintro ⟨path, time⟩
  rw [mem_manifestCandidates, mem_manifests h hnew]
  constructor
  · rintro ⟨-, hglob, ⟨writer, mtime'⟩, hfile, rfl⟩
    have hwriter : writer = some processName := (hfinds _ (Dict.mem_of_get? hfile)).1 hglob
    rw [hfile, hwriter]
  · intro hfile
    have hmem := Dict.mem_of_get? hfile
    exact ⟨hlisted.mem_iff.2 (List.mem_map_of_mem hmem), (hfinds _ hmem).2 rfl, _, hfile, rfl⟩

theorem mem_stale (h : s.Sound settings) (hreal : s.Real env settings (.backup processName runTs mtime listing))
    (hallowed : s.Allowed env settings (.backup processName runTs mtime listing)) {time : Int}
    (hfile : Dict.get? path (s.write env settings processName runTs mtime) = some ⟨some processName, time⟩) :
    path ∈ s.stale env settings processName runTs mtime listing ↔
      (path, time) ∉ kept (settings processName).retentionCount (s.manifests env settings processName runTs mtime) := by
  have hmem := (mem_manifests h hallowed.1 path time).2 hfile
  rw [State.stale, stalePaths, sorted_candidates h hreal hallowed, kept]
  split
  · simp [hmem]
  · rename_i hpositive
    have hnodup : (s.manifests env settings processName runTs mtime).Nodup := by
      apply (sorted_manifests h hreal.2).imp
      rintro a b hlt rfl
      exact lt_irrefl _ hlt
    have hsplit := List.take_append_drop (settings processName).retentionCount (s.manifests env settings processName runTs mtime)
    have hdisjoint := hsplit ▸ hnodup
    rw [List.nodup_append] at hdisjoint
    constructor
    · intro hstale htake
      obtain ⟨⟨other, time'⟩, hdrop, rfl⟩ := List.mem_map.1 hstale
      have hother := (mem_manifests h hallowed.1 other time').1 (List.mem_of_mem_drop hdrop)
      rw [hfile] at hother
      cases hother
      exact hdisjoint.2.2 _ htake _ hdrop rfl
    · intro hnot
      rw [← hsplit, List.mem_append] at hmem
      exact List.mem_map.2 ⟨_, hmem.resolve_left hnot, rfl⟩

theorem writer_of_stale (h : s.Sound settings) (hreal : s.Real env settings (.backup processName runTs mtime listing))
    (hallowed : s.Allowed env settings (.backup processName runTs mtime listing))
    (hstale : path ∈ s.stale env settings processName runTs mtime listing) :
    ∃ time, Dict.get? path (s.write env settings processName runTs mtime) = some ⟨some processName, time⟩ := by
  rw [State.stale, stalePaths, sorted_candidates h hreal hallowed] at hstale
  split at hstale
  · cases hstale
  · obtain ⟨⟨other, time⟩, hdrop, rfl⟩ := List.mem_map.1 hstale
    exact ⟨time, (mem_manifests h hallowed.1 other time).1 (List.mem_of_mem_drop hdrop)⟩

theorem kept_manifests (s : State) (processName : String) (runTs mtime : Int) :
    kept (settings processName).retentionCount (s.manifests env settings processName runTs mtime) =
      kept (settings processName).retentionCount
        ((manifestPath env settings processName runTs, mtime) :: s.written processName) := by
  unfold State.manifests kept
  split
  · rfl
  · rename_i hpositive
    obtain ⟨n, hn⟩ := Nat.exists_eq_succ_of_ne_zero hpositive
    simp [hn, List.take_take]

theorem files_after (s : State) (path : Path) :
    Dict.get? path (s.after env settings (.backup processName runTs mtime listing)).files =
      if path ∈ s.stale env settings processName runTs mtime listing then none
      else Dict.get? path (s.write env settings processName runTs mtime) := by
  apply (Dict.get?_filter (fun path => !(s.stale env settings processName runTs mtime listing).contains path) path
    (s.write env settings processName runTs mtime)).trans
  by_cases hstale : path ∈ s.stale env settings processName runTs mtime listing <;> simp [hstale]

theorem State.Sound.backup (h : s.Sound settings) (hreal : s.Real env settings (.backup processName runTs mtime listing))
    (hallowed : s.Allowed env settings (.backup processName runTs mtime listing)) :
    (s.after env settings (.backup processName runTs mtime listing)).Sound settings := by
  constructor
  case nodup => exact Dict.nodup_keys_filter (Dict.nodup_keys_set h.nodup)
  case sorted =>
    intro name
    simp only [State.after]
    split
    · rename_i heq
      exact List.pairwise_cons.2 ⟨heq ▸ hreal.2, h.sorted name⟩
    · exact h.sorted name
  case own =>
    intro name path time
    rw [files_after]
    by_cases hname : name = processName
    · subst hname
      simp only [State.after, if_true]
      rw [← kept_manifests]
      constructor
      · intro hfile
        split at hfile
        · cases hfile
        · rename_i hnot
          by_contra hgone
          exact hnot ((mem_stale h hreal hallowed hfile).2 hgone)
      · intro hkept
        have hfile := (mem_manifests h hallowed.1 path time).1 (mem_of_kept hkept)
        rw [if_neg fun hstale => (mem_stale h hreal hallowed hfile).1 hstale hkept, hfile]
    · simp only [State.after, if_neg hname]
      rw [← h.own]
      have hwrite : Dict.get? path (s.write env settings processName runTs mtime) = some ⟨some name, time⟩ ↔
          Dict.get? path s.files = some ⟨some name, time⟩ := by
        rw [State.write, Dict.get?_set]
        split
        · rename_i hpath
          have habsent : Dict.get? path s.files = none := by
            by_contra hne
            exact hallowed.1 (hpath ▸ Dict.mem_keys.2 hne)
          simp [habsent, Ne.symm hname]
        · rfl
      rw [← hwrite]
      split
      · rename_i hstale
        obtain ⟨time', hmine⟩ := writer_of_stale h hreal hallowed hstale
        simp [hmine, Ne.symm hname]
      · rfl

theorem State.Sound.other (h : s.Sound settings) (hallowed : s.Allowed env settings (.other path mtime)) :
    (s.after env settings (.other path mtime)).Sound settings := by
  have habsent : Dict.get? path s.files = none := by
    by_contra hne
    exact hallowed (Dict.mem_keys.2 hne)
  constructor
  case nodup => exact Dict.nodup_keys_set h.nodup
  case sorted => exact h.sorted
  case own =>
    intro name other time
    rw [State.after, Dict.get?_set]
    split
    · rename_i hpath
      have hnone := h.own name path time
      rw [habsent] at hnone
      rw [hpath]
      apply iff_of_false (by simp)
      intro hmem
      cases hnone.2 hmem
    · exact h.own name other time

theorem State.Sound.prunesRight (h : s.Sound settings) {event : Event} (hreal : s.Real env settings event)
    (hallowed : s.Allowed env settings event) : s.PrunesRight env settings event := by
  cases event with
  | other => trivial
  | backup processName runTs mtime listing =>
    intro hpositive
    constructor
    · intro path file hfile hgone
      rw [files_after] at hgone
      split at hgone
      · rename_i hstale
        obtain ⟨time, hmine⟩ := writer_of_stale h hreal hallowed hstale
        rw [hfile] at hmine
        cases hmine
        rfl
      · rw [hfile] at hgone
        cases hgone
    · intro path time
      rw [(h.backup hreal hallowed).own, kept, if_neg hpositive.ne']

end

/-- Backup retention is per service and keeps the newest, in every run in which each pattern finds the manifests of its own service
and no other file. -/
theorem backups_prune_right (env : Env) (settings : String → Settings) (files : Files) (events : List Event)
    (hfiles : (Dict.keys files).Nodup) (hnobody : ∀ file ∈ files, file.2.writer = none)
    (h : Along (State.after env settings) (fun s event => s.Real env settings event ∧ s.Allowed env settings event)
      ⟨files, fun _ => []⟩ events) :
    Along (State.after env settings) (fun s event => s.PrunesRight env settings event) ⟨files, fun _ => []⟩ events := by
  have hstart : State.Sound settings ⟨files, fun _ => []⟩ := by
    refine ⟨hfiles, fun name path time => ?_, fun _ => List.Pairwise.nil⟩
    have hempty : kept (settings name).retentionCount ([] : List (Path × Int)) = [] := by simp [kept]
    rw [hempty]
    apply iff_of_false _ List.not_mem_nil
    intro hfile
    have hwriter := hnobody _ (Dict.mem_of_get? hfile)
    cases hwriter
  have hstep : ∀ (s : State) event, s.Real env settings event ∧ s.Allowed env settings event → s.Sound settings →
      (s.after env settings event).Sound settings := by
    rintro s event ⟨hreal, hallowed⟩ hs
    cases event with
    | backup => exact hs.backup hreal hallowed
    | other => exact hs.other hallowed
  apply (h.always hstep hstart).imp
  rintro s event - ⟨⟨hreal, hallowed⟩, hs⟩
  exact hs.prunesRight hreal hallowed

end

/-! ## Samples -/

def ascii : Env := ⟨Text.ascii, Char.isAlphanum⟩

def oneEach (_ : String) : Settings := ⟨"/b/\x7bprocess_slug\x7d-\x7btimestamp\x7d", 1⟩

def manifest (name : String) : Path := ["", "b", name]

theorem manifestPath_riven : manifestPath ascii oneEach "Riven" 5 = manifest "riven-19700101T000005Z" := by
  decide +kernel

theorem manifestPath_second : manifestPath ascii oneEach "Riven 2" 0 = manifest "riven-2-19700101T000000Z" := by
  decide +kernel

theorem pattern_riven :
    parts (symlinkManifestGlobPattern ascii "Riven" (oneEach "Riven").template) = manifest "riven-*" := by
  decide +kernel

theorem pattern_second :
    parts (symlinkManifestGlobPattern ascii "Riven 2" (oneEach "Riven 2").template) = manifest "riven-2-*" := by
  decide +kernel

theorem backups_prune_right_one :
    Along (State.after ascii oneEach) (fun s event => s.PrunesRight ascii oneEach event)
      ⟨[(manifest "notes.txt", ⟨none, 3⟩)], fun _ => []⟩
      [.backup "Riven" 5 5 [manifest "riven-19700101T000005Z", manifest "notes.txt"]] := by
  apply backups_prune_right
  · decide
  · decide
  · refine ⟨⟨?_, ?_⟩, trivial⟩
    · simp only [State.Real, State.write, manifestPath_riven]
      decide +kernel
    · simp only [State.Allowed, State.write, manifestPath_riven, pattern_riven]
      decide +kernel

def afterSecond : State :=
  ⟨[(manifest "riven-2-19700101T000000Z", ⟨some "Riven 2", 0⟩)],
    fun name => if name = "Riven 2" then [(manifest "riven-2-19700101T000000Z", 0)] else []⟩

/-- The pattern of `Riven` finds the manifest of `Riven 2` too. -/
theorem backups_prune_wrong :
    State.after ascii oneEach ⟨[], fun _ => []⟩ (.backup "Riven 2" 0 0 [manifest "riven-2-19700101T000000Z"]) =
        afterSecond ∧
      ¬State.PrunesRight ascii oneEach afterSecond (.backup "Riven" 5 5
        [manifest "riven-19700101T000005Z", manifest "riven-2-19700101T000000Z"]) := by
  constructor
  · simp only [State.after, State.write, manifestPath_second, pruneSymlinkBackupManifests, pattern_second, afterSecond]
    congr 1
  · intro hprunes
    have hwritten : Dict.get? (manifest "riven-2-19700101T000000Z") (afterSecond.write ascii oneEach "Riven" 5 5) =
        some ⟨some "Riven 2", 0⟩ := by
      rw [State.write, manifestPath_riven]
      decide +kernel
    have hgone : Dict.get? (manifest "riven-2-19700101T000000Z") (afterSecond.after ascii oneEach
        (.backup "Riven" 5 5
          [manifest "riven-19700101T000005Z", manifest "riven-2-19700101T000000Z"])).files = none := by
      simp only [State.after, State.write, manifestPath_riven, pruneSymlinkBackupManifests, pattern_riven]
      decide +kernel
    have hmine := (hprunes Nat.one_pos).1 _ _ hwritten hgone
    revert hmine
    decide

end Dumb.AutoUpdate.Backups
