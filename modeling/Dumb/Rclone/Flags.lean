import Mathlib.Data.List.Perm.Basic
import Dumb.Lib.Dict

/-!
# Merging managed flags into an rclone command

From `utils/rclone_optimizer.py`. Which flags take a value, as rclone has it, is a parameter of what a command means; the code
does not ask for it.
-/

namespace Dumb.Rclone

open Py

abbrev Word := List Char

def managedFlags : List Word := [
  "--buffer-size".toList, "--dir-cache-time".toList, "--vfs-cache-max-age".toList, "--vfs-cache-max-size".toList,
  "--vfs-cache-mode".toList, "--vfs-read-ahead".toList, "--vfs-read-chunk-size".toList, "--vfs-read-chunk-size-limit".toList,
  "--transfers".toList]

def isFlag (word : Word) : Bool := ['-', '-'].isPrefixOf word

def keyOf (word : Word) : Word := word.takeWhile (· ≠ '=')

def valueOf (word : Word) : Word := (word.dropWhile (· ≠ '=')).tail

/-! ## The code -/

def parseFrom : List Word → List Word → Dict Word (Option Word) → List Word × Dict Word (Option Word)
  | [], positionals, flags => (positionals, flags)
  | [item], positionals, flags =>
    if !isFlag item then (positionals ++ [item], flags)
    else if '=' ∈ item then (positionals, flags.set (keyOf item) (some (valueOf item)))
    else (positionals, flags.set item none)
  | item :: next :: rest, positionals, flags =>
    if !isFlag item then parseFrom (next :: rest) (positionals ++ [item]) flags
    else if '=' ∈ item then parseFrom (next :: rest) positionals (flags.set (keyOf item) (some (valueOf item)))
    else if !isFlag next then parseFrom rest positionals (flags.set item (some next))
    else parseFrom (next :: rest) positionals (flags.set item none)

def parseFlagMap (command : List Word) : List Word × Dict Word (Option Word) := parseFrom command [] []

def flagWord : Word × Option Word → Word
  | (key, none) => key
  | (key, some value) => key ++ '=' :: value

def buildCommand (positionals : List Word) (flags : Dict Word (Option Word)) : List Word := positionals ++ flags.map flagWord

def mergeManagedFlags (order : List Word) (command : List Word) (settings : Dict Word Word) : List Word :=
  let (positionals, flags) := parseFlagMap command
  buildCommand positionals (order.foldl (fun flags flag =>
    match settings.get? flag with
    | some value => flags.set flag (some value)
    | none => flags) flags)

/-! ## What a command means -/

/-- The positionals and the flags with their values, where `takes` tells whether a flag takes the next word. -/
def denote (takes : Word → Bool) : List Word → List Word × List (Word × Option Word)
  | [] => ([], [])
  | [item] =>
    if !isFlag item then ([item], [])
    else if '=' ∈ item then ([], [(keyOf item, some (valueOf item))])
    else ([], [(item, none)])
  | item :: next :: rest =>
    if !isFlag item then (item :: (denote takes (next :: rest)).1, (denote takes (next :: rest)).2)
    else if '=' ∈ item then
      ((denote takes (next :: rest)).1, (keyOf item, some (valueOf item)) :: (denote takes (next :: rest)).2)
    else if takes item && !isFlag next then ((denote takes rest).1, (item, some next) :: (denote takes rest).2)
    else ((denote takes (next :: rest)).1, (item, none) :: (denote takes (next :: rest)).2)

def occurrences (flag : Word) (flags : List (Word × Option Word)) : List (Word × Option Word) := flags.filter (·.1 = flag)

def Swallows (takes : Word → Bool) : List Word → Bool
  | item :: next :: rest => (isFlag item && '=' ∉ item && !takes item && !isFlag next) || Swallows takes (next :: rest)
  | _ => false

structure Preserved (takes : Word → Bool) (settings : Dict Word Word) (command merged again : List Word) : Prop where
  positionals : (denote takes merged).1 = (denote takes command).1
  others : ∀ flag ∉ managedFlags, occurrences flag (denote takes merged).2 = occurrences flag (denote takes command).2
  managed : ∀ flag ∈ managedFlags, ∀ value, settings.get? flag = some value →
    occurrences flag (denote takes merged).2 = [(flag, some value)]
  idempotent : again = merged

/-! ## Reading what was built -/

/-- What can stand before the sign of equality. -/
def KeyLike (key : Word) : Prop := isFlag key = true ∧ '=' ∉ key

theorem isFlag_append {key : Word} (h : isFlag key = true) (more : Word) : isFlag (key ++ more) = true :=
  List.isPrefixOf_iff_prefix.2 ((List.isPrefixOf_iff_prefix.1 h).trans (List.prefix_append _ _))

theorem keyLike_keyOf {word : Word} (h : isFlag word = true) : KeyLike (keyOf word) := by
  obtain ⟨more, rfl⟩ := List.isPrefixOf_iff_prefix.1 h
  refine ⟨by simp [keyOf, isFlag], fun hin => ?_⟩
  have := List.all_eq_true.1 List.all_takeWhile _ hin
  simp at this

theorem keyOf_append {key : Word} (h : '=' ∉ key) (value : Word) : keyOf (key ++ '=' :: value) = key := by
  have hall : ∀ c ∈ key, decide (c ≠ '=') = true := fun c hc => by
    simp only [ne_eq, decide_not, Bool.not_eq_eq_eq_not, Bool.not_true, decide_eq_false_iff_not]
    rintro rfl
    exact h hc
  rw [keyOf, List.takeWhile_append_of_pos hall]
  simp

theorem valueOf_append {key : Word} (h : '=' ∉ key) (value : Word) : valueOf (key ++ '=' :: value) = value := by
  have hall : ∀ c ∈ key, decide (c ≠ '=') = true := fun c hc => by
    simp only [ne_eq, decide_not, Bool.not_eq_eq_eq_not, Bool.not_true, decide_eq_false_iff_not]
    rintro rfl
    exact h hc
  rw [valueOf, List.dropWhile_append_of_pos hall]
  simp

variable {takes : Word → Bool}

theorem denote_positional {item : Word} (h : isFlag item = false) (rest : List Word) :
    denote takes (item :: rest) = (item :: (denote takes rest).1, (denote takes rest).2) := by
  cases rest <;> simp [denote, h]

/-- A flag in front of flags has the value that it was built with. -/
theorem denote_flagWord {m : Word × Option Word} (hm : KeyLike m.1) {rest : List Word} (hrest : ∀ w ∈ rest.head?, isFlag w = true) :
    denote takes (flagWord m :: rest) = ((denote takes rest).1, m :: (denote takes rest).2) := by
  obtain ⟨key, value⟩ := m
  obtain ⟨hflag, hplain⟩ := hm
  cases value with
  | none =>
    cases rest with
    | nil => simp [denote, flagWord, hflag, hplain]
    | cons next rest => simp [denote, flagWord, hflag, hplain, hrest next rfl]
  | some value =>
    have hwhole := isFlag_append hflag ('=' :: value)
    cases rest <;> simp [denote, flagWord, hwhole, keyOf_append hplain, valueOf_append hplain]

variable {flags : Dict Word (Option Word)}

theorem denote_build (takes : Word → Bool) {positionals : List Word} (hp : ∀ w ∈ positionals, isFlag w = false)
    (hf : ∀ m ∈ flags, KeyLike m.1) : denote takes (buildCommand positionals flags) = (positionals, flags) := by
  have hflags : denote takes (flags.map flagWord) = ([], flags) := by
    induction flags with
    | nil => rfl
    | cons m flags ih =>
      obtain ⟨hm, hf⟩ := List.forall_mem_cons.1 hf
      rw [List.map_cons, denote_flagWord hm, ih hf]
      intro w hw
      cases flags with
      | nil => cases hw
      | cons q flags =>
        obtain ⟨key, value⟩ := q
        obtain rfl := Option.some.inj hw
        have hkey := (List.forall_mem_cons.1 hf).1.1
        cases value with
        | none => exact hkey
        | some value => exact isFlag_append hkey _
  induction positionals with
  | nil => exact hflags
  | cons item positionals ih =>
    obtain ⟨hitem, hp⟩ := List.forall_mem_cons.1 hp
    have hrest : denote takes (positionals ++ flags.map flagWord) = (positionals, flags) := ih hp
    rw [buildCommand, List.cons_append, denote_positional hitem, hrest]

/-- The parser takes every flag for one that takes the next word, and keeps the last value. -/
theorem parseFrom_eq (command positionals : List Word) (flags : Dict Word (Option Word)) :
    parseFrom command positionals flags = (positionals ++ (denote (fun _ => true) command).1,
      (denote (fun _ => true) command).2.foldl (fun flags m => flags.set m.1 m.2) flags) := by
  fun_induction parseFrom command positionals flags <;> simp_all [denote]

theorem denote_wellFormed (takes : Word → Bool) (command : List Word) :
    (∀ w ∈ (denote takes command).1, isFlag w = false) ∧ ∀ m ∈ (denote takes command).2, KeyLike m.1 := by
  fun_induction denote takes command with
  | case1 => simp
  | case2 item hitem => simpa using hitem
  | case3 item hflag heq => simpa using keyLike_keyOf (by simpa using hflag)
  | case4 item hflag heq => simpa [KeyLike] using And.intro (by simpa using hflag : isFlag item = true) heq
  | case5 item next rest hitem ih => exact ⟨List.forall_mem_cons.2 ⟨by simpa using hitem, ih.1⟩, ih.2⟩
  | case6 item next rest hflag heq ih => exact ⟨ih.1, List.forall_mem_cons.2 ⟨keyLike_keyOf (by simpa using hflag), ih.2⟩⟩
  | case7 item next rest hflag heq htakes ih | case8 item next rest hflag heq htakes ih =>
    exact ⟨ih.1, List.forall_mem_cons.2 ⟨⟨by simpa using hflag, heq⟩, ih.2⟩⟩

theorem swallows_word {word : Word} (h : isFlag word = false) (rest : List Word) :
    Swallows takes (word :: rest) = Swallows takes rest := by
  cases rest <;> simp [Swallows, h]

/-- The parser reads the positionals but for those that it swallows, and without any it reads the command as it is. -/
theorem denote_true (takes : Word → Bool) (command : List Word) :
    (Swallows takes command = false → denote (fun _ => true) command = denote takes command) ∧
      (denote (fun _ => true) command).1.length ≤ (denote takes command).1.length ∧
      (Swallows takes command = true → (denote (fun _ => true) command).1.length < (denote takes command).1.length) := by
  fun_induction denote takes command with
  | case1 => simp [denote, Swallows]
  | case2 item hitem => simp [denote, Swallows, hitem]
  | case3 item hflag heq | case4 item hflag heq => simp [denote, Swallows, hflag, heq]
  | case5 item next rest hitem ih =>
    have hword : isFlag item = false := by simpa using hitem
    rw [denote_positional hword, swallows_word hword]
    refine ⟨fun h => by rw [ih.1 h], Nat.succ_le_succ ih.2.1, fun h => Nat.succ_lt_succ (ih.2.2 h)⟩
  | case6 item next rest hflag heq ih =>
    simp only [denote, hflag, heq, Swallows]
    simpa [Prod.ext_iff] using ih
  | case7 item next rest hflag heq htakes ih =>
    simp only [Bool.and_eq_true, Bool.not_eq_eq_eq_not, Bool.not_true] at htakes hflag
    rw [Swallows, swallows_word htakes.2]
    simp only [denote, hflag, heq, htakes]
    simpa [Prod.ext_iff] using ih
  | case8 item next rest hflag heq htakes ih =>
    cases hnext : isFlag next with
    | true =>
      simp only [denote, hflag, heq, Swallows, hnext]
      simpa [Prod.ext_iff] using ih
    | false =>
      -- The word goes to the switch, and what is behind it is read alike.
      have hswallowed : Swallows takes (item :: next :: rest) = true := by
        simp_all [Swallows]
      have hread : denote (fun _ => true) (item :: next :: rest) =
          ((denote (fun _ => true) rest).1, (item, some next) :: (denote (fun _ => true) rest).2) := by
        simp_all [denote]
      rw [denote_positional hnext, denote_positional hnext, List.length_cons, List.length_cons] at ih
      rw [hswallowed, hread, denote_positional hnext]
      refine ⟨fun h => Bool.noConfusion h, Nat.le_succ_of_le (Nat.le_of_succ_le_succ ih.2.1), fun _ => ih.2.1⟩

/-! ## The flags -/

theorem occurrences_eq (h : flags.keys.Nodup) (flag : Word) :
    occurrences flag flags = ((Dict.get? flag flags).map fun value => (flag, value)).toList := by
  induction flags with
  | nil => rfl
  | cons m flags ih =>
    obtain ⟨key, value⟩ := m
    obtain ⟨hfresh, hrest⟩ := List.nodup_cons.1 h
    have hflags := ih hrest
    by_cases hkey : key = flag
    · subst hkey
      have hnone : Dict.get? key flags = none := by
        by_contra hsome
        exact hfresh (Dict.mem_keys.2 hsome)
      rw [hnone] at hflags
      simp only [occurrences, Dict.get?, List.filter_cons, decide_true, ↓reduceIte] at hflags ⊢
      rw [hflags]
      rfl
    · simpa [occurrences, Dict.get?, hkey] using hflags

def lastValues (flags : Dict Word (Option Word)) (ms : List (Word × Option Word)) : Dict Word (Option Word) :=
  ms.foldl (fun flags m => Dict.set m.1 m.2 flags) flags

theorem get?_lastValues (flag : Word) (ms : List (Word × Option Word)) (flags : Dict Word (Option Word)) :
    (lastValues flags ms).get? flag = ((occurrences flag ms).getLast?.map (·.2)).or (Dict.get? flag flags) := by
  induction ms generalizing flags with
  | nil => rfl
  | cons m ms ih =>
    have hrest := ih (Dict.set m.1 m.2 flags)
    rw [Dict.get?_set] at hrest
    rw [lastValues, List.foldl_cons, ← lastValues, hrest, occurrences, occurrences, List.filter_cons]
    by_cases hkey : m.1 = flag
    · subst hkey
      cases hlast : (ms.filter fun x => decide (x.1 = m.1)).getLast? <;> simp [List.getLast?_cons, hlast]
    · simp [hkey, Ne.symm hkey]

variable (ms : List (Word × Option Word))

theorem nodup_lastValues (h : flags.keys.Nodup) :
    (lastValues flags ms).keys.Nodup := by
  induction ms generalizing flags with
  | nil => exact h
  | cons m ms ih => exact ih (Dict.nodup_keys_set h)

theorem mem_lastValues {ms : List (Word × Option Word)} {m : Word × Option Word}
    (h : m ∈ lastValues flags ms) : m ∈ ms ∨ m ∈ flags := by
  induction ms generalizing flags with
  | nil => exact .inr h
  | cons q ms ih =>
    rcases ih h with hm | hm
    · exact .inl (List.mem_cons_of_mem q hm)
    · rcases Dict.mem_set hm with rfl | hm
      · exact .inl List.mem_cons_self
      · exact .inr hm

theorem set_new {k : Word} {v : Option Word} (h : k ∉ flags.keys) :
    Dict.set k v flags = flags ++ [(k, v)] := by
  induction flags with
  | nil => rfl
  | cons m flags ih =>
    have hrest := ih (List.not_mem_of_not_mem_cons h)
    rw [Dict.set, if_neg (Ne.symm (List.ne_of_not_mem_cons h)), hrest, List.cons_append]

theorem lastValues_nodup (h : Dict.keys (flags ++ ms) |>.Nodup) :
    lastValues flags ms = flags ++ ms := by
  induction ms generalizing flags with
  | nil => exact (List.append_nil flags).symm
  | cons m ms ih =>
    have hfresh : m.1 ∉ flags.keys := by
      rw [Dict.keys_append] at h
      exact fun hin => (List.nodup_append.1 h).2.2 m.1 hin m.1 List.mem_cons_self rfl
    have happ : (flags ++ [m]) ++ ms = flags ++ m :: ms := List.append_assoc flags [m] ms
    rw [lastValues, List.foldl_cons, set_new hfresh, ← lastValues, ih (happ ▸ h), happ]

/-! ## What a merge leaves -/

def managedSettings (order : List Word) (settings : Dict Word Word) : List (Word × Option Word) :=
  order.filterMap fun flag => (settings.get? flag).map fun value => (flag, some value)

theorem merge_eq (order command : List Word) (settings : Dict Word Word) :
    mergeManagedFlags order command settings = buildCommand (denote (fun _ => true) command).1
      (lastValues (lastValues [] (denote (fun _ => true) command).2) (managedSettings order settings)) := by
  rw [mergeManagedFlags, parseFlagMap, parseFrom_eq, List.nil_append]
  dsimp only
  congr 1
  rw [← lastValues]
  generalize lastValues [] _ = flags
  induction order generalizing flags with
  | nil => rfl
  | cons flag order ih =>
    rw [List.foldl_cons, ih, managedSettings, managedSettings, List.filterMap_cons]
    cases settings.get? flag with
    | none => rfl
    | some value => rfl

section
variable {order : List Word} (horder : order.Perm managedFlags) {settings : Dict Word Word}
include horder

theorem managedSettings_mem : ∀ m ∈ managedSettings order settings, KeyLike m.1 ∧ m.1 ∈ managedFlags ∧
    ∃ value, settings.get? m.1 = some value ∧ m.2 = some value := by
  have hmanaged : ∀ flag ∈ managedFlags, isFlag flag = true ∧ '=' ∉ flag := by decide +kernel
  intro m hm
  obtain ⟨flag, hflag, hm⟩ := List.mem_filterMap.1 hm
  obtain ⟨value, hvalue, rfl⟩ := Option.map_eq_some_iff.1 hm
  exact ⟨hmanaged flag (horder.mem_iff.1 hflag), horder.mem_iff.1 hflag, value, hvalue, rfl⟩

/-- A managed setting is what the flag is set to, whatever it was. -/
theorem get?_managed {flag : Word} (hflag : flag ∈ managedFlags) {value : Word} (hvalue : settings.get? flag = some value)
    (flags : Dict Word (Option Word)) : (lastValues flags (managedSettings order settings)).get? flag = some (some value) := by
  have hin : (flag, some value) ∈ occurrences flag (managedSettings order settings) := by
    refine List.mem_filter.2 ⟨List.mem_filterMap.2 ⟨flag, horder.mem_iff.2 hflag, by rw [hvalue]; rfl⟩, by simp⟩
  have hne := List.ne_nil_of_mem hin
  obtain ⟨hlast, hkey⟩ := List.mem_filter.1 (List.getLast_mem hne)
  obtain ⟨-, -, value', hvalue', hsame⟩ := managedSettings_mem horder _ hlast
  rw [of_decide_eq_true hkey, hvalue] at hvalue'
  rw [get?_lastValues, List.getLast?_eq_some_getLast hne, Option.map_some, hsame, ← Option.some.inj hvalue']
  rfl

theorem get?_other {flag : Word} (hflag : flag ∉ managedFlags) (flags : Dict Word (Option Word)) :
    (lastValues flags (managedSettings order settings)).get? flag = flags.get? flag := by
  have hnone : occurrences flag (managedSettings order settings) = [] := by
    refine List.filter_eq_nil_iff.2 fun m hm hkey => hflag ?_
    rw [← of_decide_eq_true hkey]
    exact (managedSettings_mem horder m hm).2.1
  rw [get?_lastValues, hnone]
  rfl

theorem lastValues_again
    (h : ∀ flag ∈ managedFlags, ∀ value, settings.get? flag = some value → flags.get? flag = some (some value)) :
    lastValues flags (managedSettings order settings) = flags := by
  have hmem : ∀ m ∈ managedSettings order settings, KeyLike m.1 ∧ m.1 ∈ managedFlags ∧
      ∃ value, settings.get? m.1 = some value ∧ m.2 = some value := managedSettings_mem horder
  generalize managedSettings order settings = ms at hmem
  induction ms with
  | nil => rfl
  | cons m ms ih =>
    obtain ⟨⟨-, hflag, value, hvalue, hsame⟩, hms⟩ := List.forall_mem_cons.1 hmem
    rw [lastValues, List.foldl_cons, hsame, Dict.set_self (h m.1 hflag value hvalue)]
    exact ih hms

end

/-- A merge preserves the command of the user just if no switch is followed by a positional and no flag that is not managed is
repeated. -/
theorem merge_preserves_iff (takes : Word → Bool) (settings : Dict Word Word) (command : List Word) {order order' : List Word}
    (horder : order.Perm managedFlags) (horder' : order'.Perm managedFlags) :
    Preserved takes settings command (mergeManagedFlags order command settings)
        (mergeManagedFlags order' (mergeManagedFlags order command settings) settings) ↔
      Swallows takes command = false ∧ ∀ flag ∉ managedFlags, (occurrences flag (denote takes command).2).length ≤ 1 := by
  obtain ⟨hread, -, hfewer⟩ := denote_true takes command
  obtain ⟨hplain, hkeys⟩ := denote_wellFormed (fun _ => true) command
  rw [merge_eq order command settings]
  generalize hflags : lastValues (lastValues [] (denote (fun _ => true) command).2) (managedSettings order settings) = flags
  have hnodup : flags.keys.Nodup := by
    rw [← hflags]
    exact nodup_lastValues _ (nodup_lastValues _ List.nodup_nil)
  have hkeyLike : ∀ m ∈ flags, KeyLike m.1 := by
    rw [← hflags]
    intro m hm
    rcases mem_lastValues hm with hm | hm
    · exact (managedSettings_mem horder m hm).1
    · exact hkeys m ((mem_lastValues hm).resolve_right List.not_mem_nil)
  have hbuilt (takes : Word → Bool) := denote_build takes hplain hkeyLike
  have hsettings : ∀ flag ∈ managedFlags, ∀ value, settings.get? flag = some value → flags.get? flag = some (some value) := by
    rw [← hflags]
    exact fun flag hflag value hvalue => get?_managed horder hflag hvalue _
  have hothers : ∀ flag ∉ managedFlags, flags.get? flag = (occurrences flag (denote (fun _ => true) command).2).getLast?.map (·.2) := by
    intro flag hflag
    rw [← hflags, get?_other horder hflag, get?_lastValues, Dict.get?_nil, Option.or_none]
  constructor
  · intro h
    have hnone : Swallows takes command = false := by
      by_contra hsome
      have hlen : (denote (fun _ => true) command).1.length = (denote takes command).1.length := by
        rw [← h.positionals, hbuilt]
      have := hfewer (by simpa using hsome)
      omega
    refine ⟨hnone, fun flag hflag => ?_⟩
    rw [← h.others flag hflag, hbuilt, occurrences_eq hnodup]
    cases flags.get? flag <;> simp
  · rintro ⟨hnone, honce⟩
    rw [hread hnone] at *
    refine ⟨by rw [hbuilt], fun flag hflag => ?_, fun flag hflag value hvalue => ?_, ?_⟩
    · rw [hbuilt, occurrences_eq hnodup, hothers flag hflag]
      have hlen := honce flag hflag
      have hsame : ∀ m ∈ occurrences flag (denote takes command).2, m.1 = flag := fun m hm =>
        of_decide_eq_true (List.mem_filter.1 hm).2
      match occurrences flag (denote takes command).2, hlen, hsame with
      | [], _, _ => rfl
      | [m], _, hsame =>
        have := hsame m List.mem_cons_self
        subst this
        rfl
    · rw [hbuilt, occurrences_eq hnodup, hsettings flag hflag value hvalue]
      rfl
    · rw [merge_eq order', hbuilt, lastValues_nodup flags (by simpa using hnodup), List.nil_append,
        lastValues_again horder' hsettings]

/-! ## Commands -/

def mountCommand : List Word := ["rclone".toList, "mount".toList, "--allow-other".toList, "nzbdav:".toList, "/mnt".toList]

def transfers : Dict Word Word := [("--transfers".toList, "8".toList)]

theorem merge_preserves_iff_mount :
    Preserved (fun _ => true) transfers mountCommand (mergeManagedFlags managedFlags mountCommand transfers)
        (mergeManagedFlags managedFlags (mergeManagedFlags managedFlags mountCommand transfers) transfers) ↔
      Swallows (fun _ => true) mountCommand = false ∧
        ∀ flag ∉ managedFlags, (occurrences flag (denote (fun _ => true) mountCommand).2).length ≤ 1 :=
  merge_preserves_iff (fun _ => true) transfers mountCommand (List.Perm.refl _) (List.Perm.refl _)

/-- The remote becomes the value of the switch. -/
theorem merge_swallows :
    mergeManagedFlags managedFlags mountCommand transfers =
        ["rclone".toList, "mount".toList, "/mnt".toList, "--allow-other=nzbdav:".toList, "--transfers=8".toList] ∧
      ¬Preserved (fun flag => flag ≠ "--allow-other".toList) transfers mountCommand
        (mergeManagedFlags managedFlags mountCommand transfers)
        (mergeManagedFlags managedFlags (mergeManagedFlags managedFlags mountCommand transfers) transfers) := by
  have hmerged : mergeManagedFlags managedFlags mountCommand transfers =
      ["rclone".toList, "mount".toList, "/mnt".toList, "--allow-other=nzbdav:".toList, "--transfers=8".toList] := by
    decide +kernel
  refine ⟨hmerged, fun h => ?_⟩
  have hpositionals := h.positionals
  rw [hmerged] at hpositionals
  revert hpositionals
  decide +kernel

end Dumb.Rclone
