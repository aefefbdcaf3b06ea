import Dumb.Lib.Dict
import Dumb.Lib.Lines
import Dumb.Logs.Redaction

/-!
# Log signals

`LOG_PATTERNS` and `_collect_log_signals` from `utils/database_health.py`. What the file system says to a poll comes with
the poll.
-/

namespace Dumb.Logs

open Py Re

section
variable (u : Unicode)

def timeOut : Re := any [all [word "time", opt (word "d"), blanks u, word "out"], word "timeout"]

def anything : Re := star (char (noneOf "\n")) false

def logPatterns : Dict String Re := [
  ("locked", any [all [word "database", blanks1 u, word "is", blanks1 u, word "locked"],
    all [word "database", blanks1 u, word "table", blanks1 u, word "is", blanks1 u, word "locked"]]),
  ("busy", any [word "SQLITE_BUSY", all [word "busy", blanks1 u, word "timeout"]]),
  ("timeout", any [all [word "database", anything, timeOut u], all [timeOut u, anything, word "database"]]),
  ("io_error", any [word "SQLITE_IOERR", all [word "disk", blanks1 u, word "i/o", blanks1 u, word "error"],
    all [word "database", blanks1 u, word "disk", blanks1 u, word "image", blanks1 u, word "is", blanks1 u,
      word "malformed"]]),
  ("deadlock", all [word "deadlock", blanks1 u, word "detected"])]

end

structure LogState where
  inode : Nat
  offset : Nat
  counts : Dict String Nat
  lastEventAt : Option Rat
  lastSeen : Dict String Rat

abbrev LogStates := Dict String LogState

structure Stat where
  inode : Nat
  size : Nat

/-- What a poll comes upon: what `os.stat` says, what the file holds when it is read, and the time at which each pattern
is dealt with. -/
structure Look where
  stat : Option Stat
  content : Except String (List UInt8)
  clock : String → Rat

structure Signals where
  counts : Dict String Nat
  available : Bool
  path : Option String
  error : Option String
  lastEventAt : Option Rat
  lastSeen : Dict String Rat
  scannedThrough : Option Nat

def getCount (name : String) (counts : Dict String Nat) : Nat := (Dict.get? name counts).getD 0

def countPattern (content : List Char) (clock : String → Rat)
    (found : Dict String Nat × Option Rat × Dict String Rat) (pattern : String × Re) :
    Dict String Nat × Option Rat × Dict String Rat :=
  let n := pattern.2.count content
  if n = 0 then found
  else (Dict.set pattern.1 (getCount pattern.1 found.1 + n) found.1, some (clock pattern.1),
    Dict.set pattern.1 (clock pattern.1) found.2.2)

section
variable (u : Unicode)

def noCounts : Dict String Nat := (logPatterns u).map fun pattern => (pattern.1, 0)

def sameFile (stat : Stat) (state : Option LogState) : Option LogState :=
  state.filter fun state => state.inode = stat.inode ∧ state.offset ≤ stat.size

def collectLogSignals (path : String) (tailBytes : Nat) (look : Look) (states : LogStates) : Signals × LogStates :=
  if path = "" then (⟨noCounts u, false, none, none, none, [], none⟩, states)
  else match look.stat with
    | none => (⟨noCounts u, false, some path, none, none, [], none⟩, states)
    | some stat =>
      let known := sameFile stat (Dict.get? path states)
      let start := (known.map (·.offset)).getD (stat.size - tailBytes)
      let counts := (known.map (·.counts)).getD (noCounts u)
      match look.content with
      | .error detail => (⟨counts, false, some path, some detail, none, [], none⟩, states)
      | .ok bytes =>
        let piece := (bytes.drop start).take tailBytes
        let offset := start + piece.length
        let found := (logPatterns u).foldl (countPattern (Utf8.decode piece) look.clock)
          (counts, known.bind (·.lastEventAt), (known.map (·.lastSeen)).getD [])
        (⟨found.1, true, some path, none, found.2.1, found.2.2, some offset⟩,
          Dict.set path ⟨stat.inode, offset, found.1, found.2.1, found.2.2⟩ states)

def pollAll (path : String) (tailBytes : Nat) (states : LogStates) (looks : List Look) : LogStates :=
  looks.foldl (fun states look => (collectLogSignals u path tailBytes look states).2) states

end

/-! ## A log that grows -/

def slice (log : List UInt8) (i j : Nat) : List UInt8 := (log.take j).drop i

theorem slice_append (log : List UInt8) {i j k : Nat} (hij : i ≤ j) (hjk : j ≤ k) :
    slice log i j ++ slice log j k = slice log i k := by
  by_cases hi : i ≤ (log.take j).length
  · rw [slice, slice, slice, ← List.drop_append_of_le_length hi]
    congr 1
    have htake : log.take j = (log.take k).take j := by rw [List.take_take, Nat.min_eq_left hjk]
    rw [htake, List.take_append_drop]
  · rw [List.length_take] at hi
    have hshort : log.length < i := by omega
    rw [slice, slice, slice, List.drop_eq_nil_of_le (by rw [List.length_take]; omega),
      List.drop_eq_nil_of_le (by rw [List.length_take]; omega), List.drop_eq_nil_of_le (by rw [List.length_take]; omega)]
    rfl

theorem length_slice (log : List UInt8) {i j : Nat} (hj : j ≤ log.length) : (slice log i j).length = j - i := by
  rw [slice, List.length_drop, List.length_take, Nat.min_eq_left hj]

theorem slice_self (log : List UInt8) (i : Nat) : slice log i i = [] :=
  List.drop_eq_nil_of_le (by rw [List.length_take]; omega)

theorem read_eq (log : List UInt8) (start tailBytes size : Nat) :
    ((log.take size).drop start).take tailBytes = slice log start (min size (start + tailBytes)) := by
  rw [slice, List.take_drop, List.take_take, Nat.min_comm]

/-- Polls of a log that only grows, with `n` bytes of it seen already: the file may grow while a poll looks at it, and a
poll may fail. -/
inductive Polls (log : List UInt8) (inode : Nat) : Nat → List Look → Prop
  | done (n : Nat) : Polls log inode n []
  | gone {n : Nat} {content : Except String (List UInt8)} {clock : String → Rat} {looks : List Look}
      (h : Polls log inode n looks) : Polls log inode n (⟨none, content, clock⟩ :: looks)
  | failed {n : Nat} {stat : Stat} {detail : String} {clock : String → Rat} {looks : List Look}
      (h : Polls log inode n looks) : Polls log inode n (⟨some stat, .error detail, clock⟩ :: looks)
  | read {n size m : Nat} {clock : String → Rat} {looks : List Look} (hsize : n ≤ size) (hm : size ≤ m)
      (hlog : m ≤ log.length) (h : Polls log inode m looks) :
      Polls log inode n (⟨some ⟨inode, size⟩, .ok (log.take m), clock⟩ :: looks)

section
variable {u : Unicode}

theorem countPattern_count (content : List Char) (clock : String → Rat) (pattern : String × Re)
    (found : Dict String Nat × Option Rat × Dict String Rat) (name : String) :
    getCount name (countPattern content clock found pattern).1 =
      getCount name found.1 + if name = pattern.1 then pattern.2.count content else 0 := by
  by_cases hn : pattern.2.count content = 0
  · simp [countPattern, hn]
  · by_cases hname : name = pattern.1
    · simp [countPattern, hn, hname, getCount]
    · simp [countPattern, hn, hname, getCount, Dict.get?_set_ne hname]

variable {name : String}

theorem foldl_countPattern (content : List Char) (clock : String → Rat) (patterns : Dict String Re)
    (found : Dict String Nat × Option Rat × Dict String Rat) {r : Re} (hnodup : (Dict.keys patterns).Nodup)
    (h : (name, r) ∈ patterns) :
    getCount name (patterns.foldl (countPattern content clock) found).1 = getCount name found.1 + r.count content := by
  have habsent (patterns : Dict String Re) (found : Dict String Nat × Option Rat × Dict String Rat)
      (h : name ∉ Dict.keys patterns) :
      getCount name (patterns.foldl (countPattern content clock) found).1 = getCount name found.1 := by
    induction patterns generalizing found with
    | nil => rfl
    | cons pattern patterns ih =>
      simp only [Dict.keys, List.map_cons, List.mem_cons, not_or] at h
      rw [List.foldl_cons, ih _ h.2, countPattern_count, if_neg h.1, Nat.add_zero]
  induction patterns generalizing found with
  | nil => cases h
  | cons pattern patterns ih =>
    obtain ⟨hnot, hrest⟩ := List.nodup_cons.1 hnodup
    rw [List.foldl_cons]
    rcases List.mem_cons.1 h with rfl | h
    · rw [habsent _ _ hnot, countPattern_count, if_pos rfl]
    · have hne : name ≠ pattern.1 := by
        rintro rfl
        exact hnot (List.mem_map.2 ⟨_, h, rfl⟩)
      rw [ih _ hrest h, countPattern_count, if_neg hne, Nat.add_zero]

theorem nodup_logPatterns : (Dict.keys (logPatterns u)).Nodup := by
  simp only [Dict.keys, logPatterns, List.map_cons, List.map_nil]
  decide

theorem getCount_noCounts (name : String) : getCount name (noCounts u) = 0 := by
  rw [getCount, noCounts, Dict.get?_map_values (fun _ => 0)]
  cases Dict.get? name (logPatterns u) with
  | none => rfl
  | some r => rfl

def Known (u : Unicode) (path : String) (states : LogStates) (inode offset : Nat) (f : Re → Nat) : Prop :=
  ∃ state, Dict.get? path states = some state ∧ state.inode = inode ∧ state.offset = offset ∧
    ∀ name r, (name, r) ∈ logPatterns u → getCount name state.counts = f r

theorem Known.congr {path : String} {states : LogStates} {inode offset : Nat} {f g : Re → Nat}
    (h : Known u path states inode offset f) (hfg : ∀ name r, (name, r) ∈ logPatterns u → f r = g r) :
    Known u path states inode offset g := by
  obtain ⟨state, hstate, hinode, hoffset, hcounts⟩ := h
  exact ⟨state, hstate, hinode, hoffset, fun name r hr => (hcounts name r hr).trans (hfg name r hr)⟩

section
variable {log : List UInt8} {path : String} {tailBytes : Nat} {states : LogStates} {inode size m : Nat}
  {clock : String → Rat} (hpath : path ≠ "")
include hpath

theorem known_of_read {start : Nat} {f : Re → Nat} (hlog : m ≤ log.length) (hstart : start ≤ m)
    (hknown : ((sameFile ⟨inode, size⟩ (Dict.get? path states)).map (·.offset)).getD (size - tailBytes) = start)
    (hcounts : ∀ name r, (name, r) ∈ logPatterns u →
      getCount name (((sameFile ⟨inode, size⟩ (Dict.get? path states)).map (·.counts)).getD (noCounts u)) = f r) :
    Known u path (collectLogSignals u path tailBytes ⟨some ⟨inode, size⟩, .ok (log.take m), clock⟩ states).2 inode
      (min m (start + tailBytes))
      fun r => f r + r.count (Utf8.decode (slice log start (min m (start + tailBytes)))) := by
  simp only [collectLogSignals, hpath, ↓reduceIte, hknown, read_eq]
  refine ⟨_, Dict.get?_set_self path _ states, rfl, ?_, ?_⟩
  · have hlength := length_slice log (i := start) (Nat.le_trans (Nat.min_le_left m (start + tailBytes)) hlog)
    simp only [hlength]
    omega
  · intro name r hr
    rw [foldl_countPattern _ _ _ _ nodup_logPatterns hr, hcounts name r hr]

theorem Known.read {offset : Nat} {f : Re → Nat} (h : Known u path states inode offset f) (hsize : offset ≤ size)
    (hm : size ≤ m) (hlog : m ≤ log.length) :
    Known u path (collectLogSignals u path tailBytes ⟨some ⟨inode, size⟩, .ok (log.take m), clock⟩ states).2 inode
      (min m (offset + tailBytes))
      fun r => f r + r.count (Utf8.decode (slice log offset (min m (offset + tailBytes)))) := by
  obtain ⟨state, hstate, rfl, rfl, hcounts⟩ := h
  have hsame : sameFile ⟨state.inode, size⟩ (Dict.get? path states) = some state := by
    simp [sameFile, hstate, Option.filter, hsize]
  apply known_of_read hpath hlog (Nat.le_trans hsize hm)
  · rw [hsame]
    rfl
  · rw [hsame]
    exact hcounts

theorem known_first (hfresh : sameFile ⟨inode, size⟩ (Dict.get? path states) = none) (hlog : size ≤ log.length) :
    Known u path (collectLogSignals u path tailBytes ⟨some ⟨inode, size⟩, .ok (log.take size), clock⟩ states).2 inode size
      fun r => r.count (Utf8.decode (slice log (size - tailBytes) size)) := by
  have hread : Known u path
      (collectLogSignals u path tailBytes ⟨some ⟨inode, size⟩, .ok (log.take size), clock⟩ states).2 inode
      (min size (size - tailBytes + tailBytes))
      fun r => 0 + r.count (Utf8.decode (slice log (size - tailBytes) (min size (size - tailBytes + tailBytes)))) := by
    apply known_of_read hpath hlog (Nat.sub_le size tailBytes)
    · rw [hfresh]
      rfl
    · intro name r _
      rw [hfresh]
      exact getCount_noCounts name
  have hall : min size (size - tailBytes + tailBytes) = size := by omega
  simpa [hall] using hread

end

/-! ## Runs -/

def offsetOf (path : String) (states : LogStates) : Nat := ((Dict.get? path states).map (·.offset)).getD 0

def countOf (path name : String) (states : LogStates) : Nat :=
  getCount name (((Dict.get? path states).map (·.counts)).getD [])

theorem Known.offset {inode offset : Nat} {f : Re → Nat}
    (h : Known u path states inode offset f) : offsetOf path states = offset := by
  obtain ⟨state, hstate, -, rfl, -⟩ := h
  rw [offsetOf, hstate]
  rfl

theorem Known.count {inode offset : Nat} {f : Re → Nat}
    (h : Known u path states inode offset f) {r : Re} (hr : (name, r) ∈ logPatterns u) :
    countOf path name states = f r := by
  obtain ⟨state, hstate, -, -, hcounts⟩ := h
  rw [countOf, hstate]
  exact hcounts name r hr

/-- A poll that reads on from `offset` to `next` cuts neither a character nor a match of what has then been read since
`start`. -/
def CleanCut (u : Unicode) (log : List UInt8) (start offset next : Nat) : Prop :=
  offset < next → Utf8.after none (slice log start offset) = none ∧
    ∀ name r, (name, r) ∈ logPatterns u →
      Between (r.spans (Utf8.decode (slice log start next))) (Utf8.decode (slice log start offset)).length

def CleanCuts (u : Unicode) (log : List UInt8) (path : String) (tailBytes start : Nat) : LogStates → List Look → Prop
  | _, [] => True
  | states, look :: looks =>
    CleanCut u log start (offsetOf path states) (offsetOf path (collectLogSignals u path tailBytes look states).2) ∧
      CleanCuts u log path tailBytes start (collectLogSignals u path tailBytes look states).2 looks

theorem plain_logPatterns : ∀ name r, (name, r) ∈ logPatterns u → r.plain = true ∧ 2 ≤ r.minLength := by
  intro name r h
  simp only [logPatterns, List.mem_cons, Prod.mk.injEq, List.not_mem_nil, or_false] at h
  rcases h with ⟨-, rfl⟩ | ⟨-, rfl⟩ | ⟨-, rfl⟩ | ⟨-, rfl⟩ | ⟨-, rfl⟩
  all_goals exact ⟨rfl, Nat.le_of_ble_eq_true rfl⟩

theorem CleanCut.count {start offset next : Nat} (h : CleanCut u log start offset next)
    (hstart : start ≤ offset) (hnext : offset ≤ next) {r : Re} (hr : (name, r) ∈ logPatterns u) :
    r.count (Utf8.decode (slice log start offset)) + r.count (Utf8.decode (slice log offset next)) =
      r.count (Utf8.decode (slice log start next)) := by
  rcases Nat.eq_or_lt_of_le hnext with rfl | hlt
  · rw [slice_self]
    rfl
  · obtain ⟨hbetween, hmatches⟩ := h hlt
    have hwhole : Utf8.decode (slice log start next) =
        Utf8.decode (slice log start offset) ++ Utf8.decode (slice log offset next) := by
      rw [← slice_append log hstart hnext, Utf8.decode_append _ hbetween]
    have hcut := hmatches name r hr
    rw [hwhole] at hcut ⊢
    exact (count_append (plain_logPatterns name r hr).1 hcut).symm

section
variable {log : List UInt8} {path : String} {tailBytes : Nat} {inode : Nat} (hpath : path ≠ "")
include hpath

theorem Known.run {I : Nat → (Re → Nat) → Prop} {looks : List Look} {n offset : Nat} {f : Re → Nat}
    (hpolls : Polls log inode n looks) (h : Known u path states inode offset f) (hn : offset ≤ n) (hI : I offset f)
    (hstep : ∀ offset f next, offset ≤ next → next ≤ log.length → next ≤ offset + tailBytes → I offset f →
      I next fun r => f r + r.count (Utf8.decode (slice log offset next))) :
    ∃ final g, Known u path (pollAll u path tailBytes states looks) inode final g ∧ I final g := by
  induction hpolls generalizing offset states f with
  | done n => exact ⟨offset, f, h, hI⟩
  | gone hpolls ih =>
    refine ih ?_ hn hI
    simpa [collectLogSignals, hpath] using h
  | failed hpolls ih =>
    refine ih ?_ hn hI
    simpa [collectLogSignals, hpath] using h
  | read hsize hm hlog hpolls ih =>
    rename_i size m clock looks
    refine ih (h.read hpath (Nat.le_trans hn hsize) hm hlog) (Nat.min_le_left _ _) (hstep offset f _ ?_ ?_ ?_ hI)
    · omega
    · omega
    · omega

theorem Known.clean {start : Nat} {looks : List Look} {n offset : Nat}
    (hpolls : Polls log inode n looks)
    (h : Known u path states inode offset fun r => r.count (Utf8.decode (slice log start offset)))
    (hstart : start ≤ offset) (hn : offset ≤ n) (hclean : CleanCuts u log path tailBytes start states looks) :
    ∃ final, Known u path (pollAll u path tailBytes states looks) inode final
      fun r => r.count (Utf8.decode (slice log start final)) := by
  induction hpolls generalizing offset states with
  | done n => exact ⟨offset, h⟩
  | gone hpolls ih =>
    refine ih ?_ hstart hn hclean.2
    simpa [collectLogSignals, hpath] using h
  | failed hpolls ih =>
    refine ih ?_ hstart hn hclean.2
    simpa [collectLogSignals, hpath] using h
  | read hsize hm hlog hpolls ih =>
    rename_i size m clock looks
    obtain ⟨hcut, hrest⟩ := hclean
    have hread : Known u path
        (collectLogSignals u path tailBytes ⟨some ⟨inode, size⟩, .ok (log.take m), clock⟩ states).2 inode
        (min m (offset + tailBytes)) _ := h.read hpath (Nat.le_trans hn hsize) hm hlog
    rw [h.offset, hread.offset] at hcut
    have hnext : offset ≤ min m (offset + tailBytes) := by omega
    refine ih (hread.congr ?_) (Nat.le_trans hstart hnext) (Nat.min_le_left _ _) hrest
    exact fun name r hr => hcut.count hstart hnext hr

def lookAt (log : List UInt8) (inode n : Nat) : Look := ⟨some ⟨inode, n⟩, .ok (log.take n), fun _ => 0⟩

def bytewise (log : List UInt8) (inode i k : Nat) : List Look := (List.range' (i + 1) k).map (lookAt log inode)

omit hpath in
theorem polls_bytewise {i k : Nat} {looks : List Look} (hlog : i + k ≤ log.length) (h : Polls log inode (i + k) looks) :
    Polls log inode i (bytewise log inode i k ++ looks) := by
  induction k generalizing i with
  | zero => exact h
  | succ k ih =>
    refine .read (Nat.le_succ i) (Nat.le_refl _) (by omega) ?_
    have hnext : i + 1 + k = i + (k + 1) := by omega
    exact ih (by omega) (by rwa [hnext])

theorem Known.bytewise (htail : 0 < tailBytes) {i k : Nat} {f : Re → Nat} (hlog : i + k ≤ log.length)
    (h : Known u path states inode i f) :
    Known u path (pollAll u path tailBytes states (bytewise log inode i k)) inode (i + k) f := by
  induction k generalizing i states with
  | zero => exact h
  | succ k ih =>
    have hread : Known u path (collectLogSignals u path tailBytes (lookAt log inode (i + 1)) states).2 inode
        (min (i + 1) (i + tailBytes)) _ := h.read hpath (Nat.le_succ i) (Nat.le_refl (i + 1)) (by omega)
    have hmin : min (i + 1) (i + tailBytes) = i + 1 := by omega
    rw [hmin] at hread
    have hnext : i + 1 + k = i + (k + 1) := by omega
    rw [← hnext]
    refine ih (by omega) (hread.congr fun name r hr => ?_)
    obtain ⟨hplain, htwo⟩ := plain_logPatterns name r hr
    have hone : (slice log i (i + 1)).length = 1 := by
      rw [length_slice log (by omega), Nat.add_sub_cancel_left]
    obtain ⟨b, hb⟩ := List.length_eq_one_iff.1 hone
    rw [hb, count_short hplain (by rw [Utf8.decode_singleton]; omega), Nat.add_zero]

/-! ## Any polls and all polls -/

/-- Every schedule of polls that begins with `size` bytes and ends with the whole log read ends with the number of
matches from the starting point on. -/
def Independent (u : Unicode) (log : List UInt8) (path : String) (tailBytes inode size : Nat) (states : LogStates) : Prop :=
  ∀ (clock : String → Rat) (looks : List Look), Polls log inode size looks →
    let final := pollAll u path tailBytes states (⟨some ⟨inode, size⟩, .ok (log.take size), clock⟩ :: looks)
    offsetOf path final = log.length → ∀ name r, (name, r) ∈ logPatterns u →
      countOf path name final = r.count (Utf8.decode (slice log (size - tailBytes) log.length))

/-- What is appended shows no match that is not there at first: neither in the whole nor in any piece that a poll could
read. -/
def Quiet (u : Unicode) (log : List UInt8) (tailBytes size : Nat) : Prop :=
  ∀ name r, (name, r) ∈ logPatterns u →
    r.count (Utf8.decode (slice log (size - tailBytes) log.length)) =
      r.count (Utf8.decode (slice log (size - tailBytes) size)) ∧
    ∀ i j, size ≤ i → j ≤ log.length → j ≤ i + tailBytes → r.count (Utf8.decode (slice log i j)) = 0

variable {size : Nat} {states : LogStates}

theorem independent_of_quiet (hfresh : sameFile ⟨inode, size⟩ (Dict.get? path states) = none) (hlog : size ≤ log.length)
    (h : Quiet u log tailBytes size) : Independent u log path tailBytes inode size states := by
  intro clock looks hpolls final _ name r hr
  have hfirst : Known u path
      (collectLogSignals u path tailBytes ⟨some ⟨inode, size⟩, .ok (log.take size), clock⟩ states).2 inode size _ :=
    known_first hpath hfresh hlog
  let I (offset : Nat) (f : Re → Nat) : Prop := size ≤ offset ∧ ∀ name r, (name, r) ∈ logPatterns u →
    f r = r.count (Utf8.decode (slice log (size - tailBytes) size))
  have hstep (offset : Nat) (f : Re → Nat) (next : Nat) (hnext : offset ≤ next) (hend : next ≤ log.length)
      (htail : next ≤ offset + tailBytes) (hI : I offset f) :
      I next fun r => f r + r.count (Utf8.decode (slice log offset next)) := by
    refine ⟨Nat.le_trans hI.1 hnext, fun name r hr => ?_⟩
    simp only [(h name r hr).2 offset next hI.1 hend htail, Nat.add_zero]
    exact hI.2 name r hr
  have hI : I size fun r => r.count (Utf8.decode (slice log (size - tailBytes) size)) :=
    ⟨Nat.le_refl size, fun _ _ _ => rfl⟩
  obtain ⟨_, g, hknown, -, hcount⟩ := hfirst.run hpath hpolls (Nat.le_refl size) hI hstep
  exact (hknown.count hr).trans ((hcount name r hr).trans (h name r hr).1.symm)

theorem Independent.piece (htail : 0 < tailBytes) (hfresh : sameFile ⟨inode, size⟩ (Dict.get? path states) = none)
    (hlog : size ≤ log.length) (h : Independent u log path tailBytes inode size states) {i j : Nat} (hi : size ≤ i)
    (hij : i ≤ j) (hj : j ≤ log.length) (hpiece : j ≤ i + tailBytes) {r : Re}
    (hr : (name, r) ∈ logPatterns u) :
    r.count (Utf8.decode (slice log (size - tailBytes) size)) + r.count (Utf8.decode (slice log i j)) =
      r.count (Utf8.decode (slice log (size - tailBytes) log.length)) := by
  have hbefore : size + (i - size) = i := by omega
  have hafter : j + (log.length - j) = log.length := by omega
  have hfirst : Known u path (collectLogSignals u path tailBytes (lookAt log inode size) states).2 inode size _ :=
    known_first hpath hfresh hlog
  have hbound : size + (i - size) ≤ log.length := by omega
  have hto := hfirst.bytewise hpath htail hbound
  rw [hbefore] at hto
  have hread : Known u path (collectLogSignals u path tailBytes (lookAt log inode j) _).2 inode
      (min j (i + tailBytes)) _ := hto.read hpath hij (Nat.le_refl j) hj
  rw [Nat.min_eq_left hpiece] at hread
  have hend := hread.bytewise hpath htail (Nat.le_of_eq hafter)
  rw [hafter] at hend
  let looks := bytewise log inode size (i - size) ++ lookAt log inode j :: bytewise log inode j (log.length - j)
  have hpolls : Polls log inode size looks := by
    apply polls_bytewise hbound
    rw [hbefore]
    refine .read hij (Nat.le_refl j) hj ?_
    have hdone : Polls log inode j (bytewise log inode j (log.length - j) ++ []) :=
      polls_bytewise (Nat.le_of_eq hafter) (.done _)
    rwa [List.append_nil] at hdone
  have hfinal : pollAll u path tailBytes states (lookAt log inode size :: looks) = pollAll u path tailBytes
      (collectLogSignals u path tailBytes (lookAt log inode j) (pollAll u path tailBytes
        (collectLogSignals u path tailBytes (lookAt log inode size) states).2 (bytewise log inode size (i - size)))).2
      (bytewise log inode j (log.length - j)) := by
    simp only [pollAll, looks, List.foldl_cons, List.foldl_append]
  rw [← hfinal] at hend
  rw [← hend.count hr]
  exact h (fun _ => 0) looks hpolls hend.offset name r hr

theorem quiet_of_independent (htail : 0 < tailBytes) (hfresh : sameFile ⟨inode, size⟩ (Dict.get? path states) = none)
    (hlog : size ≤ log.length) (h : Independent u log path tailBytes inode size states) : Quiet u log tailBytes size := by
  intro name r hr
  have hnothing := h.piece hpath htail hfresh hlog (Nat.le_refl size) (Nat.le_refl size) hlog (Nat.le_add_right _ _) hr
  rw [slice_self] at hnothing
  refine ⟨hnothing.symm, fun i j hi hj hpiece => ?_⟩
  rcases Nat.lt_or_ge j i with hlt | hle
  · have hempty : slice log i j = [] := by
      rw [slice, List.drop_eq_nil_of_le (by rw [List.length_take]; omega)]
    rw [hempty]
    rfl
  · have hsome := h.piece hpath htail hfresh hlog hi hle hj hpiece hr
    have hzero : r.count (Utf8.decode []) = 0 := rfl
    omega

end

end

def asciiBytes (text : String) : List UInt8 := text.toList.map fun c => UInt8.ofNat c.toNat

def pollsAt (log : List UInt8) (sizes : List Nat) : LogStates :=
  pollAll .ascii "/log/app.log" 16384 [] (lookAt log 7 0 :: sizes.map (lookAt log 7))

def lockedLog : List UInt8 := asciiBytes "database is locked\n"

def timeoutLog : List UInt8 := asciiBytes "database timeout: database timeout\n"

end Dumb.Logs
