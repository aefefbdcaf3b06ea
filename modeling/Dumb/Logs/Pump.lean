import Dumb.Lib.Lines
import Dumb.Lib.Pipe
import Dumb.Lib.Search
import Dumb.Logs.Redaction

/-!
# The log pump

`SubprocessLogger` from `utils/logger.py`. What a child prints is the text that the decoder has made of it, in which every
line ends with a line feed.
-/

namespace Dumb.Logs

open Py Re

/-! ## Reading a line -/

inductive Level where
  | debug | info | notice | warn | warning | error | fatal | log | critical | unknown
  deriving DecidableEq

def Level.name : Level → String
  | debug => "DEBUG"
  | info => "INFO"
  | notice => "NOTICE"
  | warn => "WARN"
  | warning => "WARNING"
  | error => "ERROR"
  | fatal => "FATAL"
  | log => "LOG"
  | critical => "CRITICAL"
  | unknown => "UNKNOWN"

/-- `log_levels`. No name begins another, so that the order in which a set gives them does not matter. -/
def logLevels : List Level := [.debug, .info, .notice, .warning, .error, .critical]

def altLogLevels : List Level := [.debug, .info, .notice, .warn, .error, .fatal, .log]

inductive Raised where
  | indexError
  deriving DecidableEq

def contains (part text : Chars) : Bool := text.tails.any part.isPrefixOf

section
variable (u : Unicode) (digit : Char → Bool)

def strip (text : Chars) : Chars := rstripWhile u.space (lstripWhile u.space text)

def splitBlank (text : Chars) : List Chars := (text.splitOnP u.space).filter fun part => !part.isEmpty

def levelPattern (levels : List Level) : Re :=
  all [group (any (levels.map fun l => exactly l.name.toList)), blanks u, group (star (char (· != '\n')) false)]

def levelOf (levels : List Level) (groups : List Chars) : Option Level :=
  levels.find? fun l => l.name.toList == groups.getD 0 []

def messageOf (groups : List Chars) : Chars := strip u (groups.getD 1 [])

abbrev Parsed := Except Raised (Option Level × Chars)

def zurgLine (line : Chars) : Parsed :=
  match search (levelPattern u altLogLevels) line with
  | none => .ok (none, line)
  | some groups =>
    let parts := splitBlank u (messageOf u groups)
    if 0 < parts.length then
      match parts[1]? with
      | none => .error .indexError
      | some second =>
        let firstWord := strip u second
        let rest := strip u ([' '].intercalate (parts.drop 2))
        if rest.isEmpty then .ok (levelOf altLogLevels groups, "| ".toList ++ firstWord ++ " |".toList)
        else .ok (levelOf altLogLevels groups, "| ".toList ++ firstWord ++ " | ".toList ++ rest)
    else .ok (levelOf altLogLevels groups, line)

def postgresLine (line : Chars) : Parsed :=
  match search (levelPattern u altLogLevels) line with
  | none => .ok (none, line)
  | some groups =>
    let message := messageOf u groups
    .ok (levelOf altLogLevels groups,
      if [':'].isPrefixOf message then strip u (lstripWhile (· == ':') message) else message)

def digitsBy (counts : List Nat) (between : List Char) (behind : Chars) : Re :=
  seq (all ((counts.map fun n => all (List.replicate n (char digit))).zipWith (fun d c => seq d (exactly [c])) between))
    (exactly behind)

def timePrefixPattern : Re := seq (exactly ['[']) (digitsBy digit [2, 2, 2] [':', ':', ']'] " | ".toList)

def relevantPartPattern : Re :=
  seq (exactly "| ".toList) (group (seq (exactly "Zilean.".toList) (star (char (· != '\n')) false)))

def zileanLine (line : Chars) : Parsed :=
  match search (levelPattern u altLogLevels) line with
  | none => .ok (none, line)
  | some groups =>
    let message := subFront (timePrefixPattern digit) (messageOf u groups)
    .ok (levelOf altLogLevels groups,
      match search relevantPartPattern message with
      | some groups => strip u (groups.getD 0 [])
      | none => message)

def cliDebridLine (line : Chars) : Parsed :=
  .ok (some .info, strip u (subFront (digitsBy digit [4, 2, 2, 2, 2, 2] ['-', '-', ' ', ':', ':', ' '] "- ".toList) line))

def otherLine (processName : String) (line : Chars) : Parsed :=
  let found : Option Level × Chars := match search (levelPattern u logLevels) line with
    | none => (some .unknown, line)
    | some groups =>
      let message := messageOf u groups
      (levelOf logLevels groups,
        if processName = "rclone" ∧ ": ".toList.isPrefixOf message then
          let message := message.drop 2
          if [':'].isPrefixOf message then strip u (lstripWhile (· == ':') message) else message
        else message)
  .ok (found.1, strip u (subFront (digitsBy digit [2, 2, 2, 2, 2, 2] ['-', '-', ' ', ':', ':', ' '] []) found.2))

def normalized : Level → Level
  | .warn => .warning
  | .log => .info
  | .fatal => .critical
  | level => level

def isZurg (processName : String) : Bool := contains "Zurg".toList processName.toList

def parseLogLevelAndMessage (line : Chars) (processName : String) : Parsed :=
  (if isZurg processName then zurgLine u line
    else if processName = "PostgreSQL" then postgresLine u line
    else if processName = "Zilean" then zileanLine u digit line
    else if processName = "CLI Debrid" then cliDebridLine u digit line
    else otherLine u digit processName line).map fun parsed => (parsed.1.map normalized, parsed.2)

/-! ## Handing it on -/

inductive Method where
  | debug | info | warning | error | critical
  deriving DecidableEq

inductive Logger where
  | main | file | access
  deriving DecidableEq

structure Record where
  logger : Logger
  method : Method
  text : Chars
  deriving DecidableEq

structure SubprocessLogger where
  keyType : String
  logToMain : Bool
  fileLogger : Bool
  accessLogger : Bool

def logMethods : Level → Option Method
  | .debug => some .debug
  | .info => some .info
  | .notice => some .debug
  | .warning => some .warning
  | .error => some .error
  | .critical => some .critical
  | .unknown => some .info
  | _ => none

def logMethod (level : Option Level) : Method := (level.bind logMethods).getD .info

namespace SubprocessLogger

variable (self : SubprocessLogger)

def isTraefikAccessLog (line : Chars) : Bool :=
  self.keyType == "Traefik" && ['\x7b'].isPrefixOf line &&
    ((contains "\"RequestMethod\"".toList line && contains "\"RequestPath\"".toList line) ||
      (contains "\"ClientAddr\"".toList line && contains "\"RequestMethod\"".toList line))

def isAccess (line : Chars) : Bool := self.accessLogger && self.isTraefikAccessLog line

def loggers : List Logger := (if self.logToMain then [.main] else []) ++ if self.fileLogger then [.file] else []

/-- What either pump does with a line, where the message is put into a text by `format`. -/
def handleLine (processName : String) (format : Chars → Chars) (line : Chars) : Except Raised (List Record) :=
  let line := strip u line
  if line.isEmpty then .ok []
  else if self.isAccess line then .ok [⟨.access, .info, line⟩]
  else (parseLogLevelAndMessage u digit line processName).map fun parsed =>
    self.loggers.map fun logger => ⟨logger, logMethod parsed.1, format (redact u parsed.2)⟩

def pump (processName : String) (format : Chars → Chars) : Reader Char (Chars × List Record) Raised :=
  .byLine (fun records line => (self.handleLine u digit processName format line).map (records ++ ·)) (· == '\n')

def subprocessText (processName : String) (message : Chars) : Chars := processName.toList ++ " subprocess: ".toList ++ message

def stderrText (mountName processName : String) (message : Chars) : Chars :=
  if processName = "rclone" then "rclone mount name \"".toList ++ mountName.toList ++ "\": ".toList ++ message
  else subprocessText processName message

def monitorStderr (mountName processName : String) : Reader Char (Chars × List Record) Raised :=
  self.pump u digit processName (stderrText mountName processName)

def logSubprocessOutput : Reader Char (Chars × List Record) Raised :=
  self.pump u digit self.keyType (subprocessText self.keyType)

end SubprocessLogger

end

/-! ## The level a line names -/

def Level.severity : Level → Method
  | debug => .debug
  | notice => .debug
  | info => .info
  | log => .info
  | unknown => .info
  | warn => .warning
  | warning => .warning
  | error => .error
  | fatal => .critical
  | critical => .critical

theorem logMethod_normalized (level : Level) : logMethod (some (normalized level)) = level.severity := by
  cases level <;> rfl

def namedAt (levels : List Level) (text : Chars) : Option (Level × Chars) :=
  (levels.find? fun l => l.name.toList.isPrefixOf text).map fun l => (l, text.drop l.name.toList.length)

def firstNamed (levels : List Level) : Chars → Option (Level × Chars)
  | [] => namedAt levels []
  | c :: cs => (namedAt levels (c :: cs)).orElse fun _ => firstNamed levels cs

def vocabulary (processName : String) : List Level :=
  if isZurg processName ∨ processName = "PostgreSQL" ∨ processName = "Zilean" then altLogLevels
  else logLevels

def methodNamed (processName : String) (line : Chars) : Method :=
  match firstNamed (vocabulary processName) line with
  | some named => named.1.severity
  | none => .info

section
variable (u : Unicode) (digit : Char → Bool)

def behind (rest : Chars) : Chars := (rest.dropWhile u.space).takeWhile (· != '\n')

variable {u digit} {levels : List Level}

theorem groups_behind (s : Spot) :
    ((seq (blanks u) (group (star (char (· != '\n')) false))).run s).head?.map Spot.groups =
      some (s.groups ++ [behind u s.rest]) := by
  rw [head?_run_seq (group_ne_nil (star_ne_nil _ _))]
  obtain ⟨t, ht, hview⟩ := Option.map_eq_some_iff.1 (head?_star_char u.space s)
  obtain ⟨t', ht', hview'⟩ := Option.map_eq_some_iff.1 (head?_star_char (· != '\n') t)
  simp only [Prod.mk.injEq] at hview
  rw [blanks, ht, Option.bind_some, head?_group ht' hview', Option.map_some, hview.1, hview.2.2]
  rfl

theorem head?_names (s : Spot) :
    ((any (levels.map fun l => exactly l.name.toList)).run s).head?.map (fun t => (t.rest, t.taken, t.groups)) =
      (levels.find? fun l => l.name.toList.isPrefixOf s.rest).map fun l =>
        (s.rest.drop l.name.toList.length, l.name.toList.reverse ++ s.taken, s.groups) := by
  rw [run_any, ← List.head?_map, List.map_flatMap, List.flatMap_map]
  simp only [run_exactly]
  exact head?_flatMap_ite _ _ levels

theorem groupsAt_level (prev : Option Char) (text : Chars) :
    (levelPattern u levels).groupsAt prev text =
      (namedAt levels text).map fun named => [named.1.name.toList, behind u named.2] := by
  have hpattern : levelPattern u levels = seq (group (any (levels.map fun l => exactly l.name.toList)))
      (seq (blanks u) (group (star (char (· != '\n')) false))) := rfl
  have hnames := @head?_names levels ⟨prev, text, [], []⟩
  have htotal (s : Spot) : (seq (blanks u) (group (star (char (· != '\n')) false))).run s ≠ [] :=
    seq_ne_nil (star_ne_nil (char u.space) false) (group_ne_nil (star_ne_nil _ _)) s
  rw [groupsAt, hpattern, head?_run_seq htotal, namedAt]
  cases hfind : levels.find? fun l => l.name.toList.isPrefixOf text with
  | none =>
    rw [hfind, Option.map_none, Option.map_eq_none_iff, List.head?_eq_none_iff] at hnames
    simp [run, hnames]
  | some l =>
    rw [hfind] at hnames
    obtain ⟨t, ht, hview⟩ := Option.map_eq_some_iff.1 hnames
    rw [head?_group ht hview, Option.bind_some, groups_behind]
    simp only [Prod.mk.injEq] at hview
    simp [hview.1]
theorem search_level (text : Chars) :
    search (levelPattern u levels) text =
      (firstNamed levels text).map fun named => [named.1.name.toList, behind u named.2] := by
  have hfrom (prev : Option Char) : searchFrom (levelPattern u levels) prev text =
      (firstNamed levels text).map fun named => [named.1.name.toList, behind u named.2] := by
    induction text generalizing prev with
    | nil => exact groupsAt_level prev []
    | cons c text ih =>
      rw [searchFrom, firstNamed, groupsAt_level, ih]
      cases namedAt levels (c :: text) <;> rfl
  exact hfrom none

variable {text : Chars}

theorem mem_of_firstNamed {named : Level × Chars} (h : firstNamed levels text = some named) :
    named.1 ∈ levels := by
  have hat {text : Chars} (h : namedAt levels text = some named) : named.1 ∈ levels := by
    obtain ⟨l, hl, rfl⟩ := Option.map_eq_some_iff.1 h
    exact List.mem_of_find?_eq_some hl
  induction text with
  | nil => exact hat h
  | cons c text ih =>
    rw [firstNamed] at h
    cases hc : namedAt levels (c :: text) with
    | none =>
      rw [hc] at h
      exact ih h
    | some found =>
      rw [hc] at h
      cases h
      exact hat hc

theorem levelOf_name {l : Level} (hl : l ∈ levels) (h : levels = logLevels ∨ levels = altLogLevels) (rest : List Chars) :
    levelOf levels (l.name.toList :: rest) = some l := by
  have hall : ∀ l ∈ levels, (levels.find? fun m => m.name.toList == l.name.toList) = some l := by
    rcases h with rfl | rfl <;> decide
  exact hall l hl

/-! ## What becomes of a line -/

variable (u) in
def Lone (line : Chars) : Prop :=
  ∃ named ∈ firstNamed altLogLevels line, (splitBlank u (strip u (behind u named.2))).length = 1

instance (line : Chars) : Decidable (Lone u line) :=
  inferInstanceAs (Decidable (∃ named ∈ firstNamed altLogLevels line, _))

variable {line : Chars}

theorem zurgLine_lone (h : Lone u line) : zurgLine u line = .error .indexError := by
  obtain ⟨named, hnamed, hword⟩ := h
  rw [zurgLine, search_level, hnamed]
  simp [messageOf, hword]

theorem zurgLine_level (h : ¬Lone u line) :
    ∃ message, zurgLine u line = .ok ((firstNamed altLogLevels line).map Prod.fst, message) := by
  rw [zurgLine, search_level]
  cases hnamed : firstNamed altLogLevels line with
  | none => exact ⟨line, rfl⟩
  | some named =>
    have hlevel := levelOf_name (mem_of_firstNamed hnamed) (.inr rfl) [behind u named.2]
    have hwords : (splitBlank u (strip u (behind u named.2))).length ≠ 1 := fun hword => h ⟨named, hnamed, hword⟩
    simp only [Option.map_some, hlevel, messageOf, List.getD_cons_succ, List.getD_cons_zero]
    split
    · next hpos =>
      have hmore : 1 < (splitBlank u (strip u (behind u named.2))).length := by omega
      rw [List.getElem?_eq_getElem hmore]
      simp only
      split
      · exact ⟨_, rfl⟩
      · exact ⟨_, rfl⟩
    · exact ⟨line, rfl⟩

theorem postgresLine_level (line : Chars) :
    ∃ message, postgresLine u line = .ok ((firstNamed altLogLevels line).map Prod.fst, message) := by
  rw [postgresLine, search_level]
  cases hnamed : firstNamed altLogLevels line with
  | none => exact ⟨line, rfl⟩
  | some named =>
    have hlevel := levelOf_name (mem_of_firstNamed hnamed) (.inr rfl) [behind u named.2]
    simp only [Option.map_some, hlevel]
    exact ⟨_, rfl⟩

variable (u digit) in
theorem zileanLine_level (line : Chars) :
    ∃ message, zileanLine u digit line = .ok ((firstNamed altLogLevels line).map Prod.fst, message) := by
  rw [zileanLine, search_level]
  cases hnamed : firstNamed altLogLevels line with
  | none => exact ⟨line, rfl⟩
  | some named =>
    have hlevel := levelOf_name (mem_of_firstNamed hnamed) (.inr rfl) [behind u named.2]
    simp only [Option.map_some, hlevel]
    exact ⟨_, rfl⟩

variable (u digit) in
theorem otherLine_level (processName : String) (line : Chars) :
    ∃ message, otherLine u digit processName line =
      .ok (some (((firstNamed logLevels line).map Prod.fst).getD .unknown), message) := by
  rw [otherLine, search_level]
  cases hnamed : firstNamed logLevels line with
  | none => exact ⟨_, rfl⟩
  | some named =>
    have hlevel := levelOf_name (mem_of_firstNamed hnamed) (.inl rfl) [behind u named.2]
    simp only [Option.map_some, hlevel, Option.getD_some]
    exact ⟨_, rfl⟩

theorem logMethod_named (named : Option (Level × Chars)) : logMethod ((named.map Prod.fst).map normalized) =
    match named with
    | some named => named.1.severity
    | none => .info := by
  cases named with
  | none => rfl
  | some named => exact logMethod_normalized named.1

variable (u) in
/-- A line is parsed and logged as it should be: a line of Zurg has no single word behind the level, and CLI Debrid names
no level but information, which it is taken to name. -/
def Clear (processName : String) (line : Chars) : Prop :=
  (isZurg processName = true → ¬Lone u line) ∧
    (processName = "CLI Debrid" → methodNamed processName line = .info)

instance (processName : String) (line : Chars) : Decidable (Clear u processName line) :=
  inferInstanceAs (Decidable ((isZurg processName = true → ¬Lone u line) ∧ (processName = "CLI Debrid" → _)))

variable (u digit) in
def Understood (processName : String) (line : Chars) : Prop :=
  ∃ level message, parseLogLevelAndMessage u digit line processName = .ok (level, message) ∧
    logMethod level = methodNamed processName line

theorem methodNamed_alt {processName : String}
    (h : isZurg processName ∨ processName = "PostgreSQL" ∨ processName = "Zilean") (line : Chars) :
    logMethod (((firstNamed altLogLevels line).map Prod.fst).map normalized) = methodNamed processName line := by
  rw [methodNamed, vocabulary, if_pos h]
  exact logMethod_named _

theorem methodNamed_other {processName : String}
    (h : ¬(isZurg processName ∨ processName = "PostgreSQL" ∨ processName = "Zilean"))
    (line : Chars) :
    logMethod (some (normalized (((firstNamed logLevels line).map Prod.fst).getD .unknown))) =
      methodNamed processName line := by
  rw [methodNamed, vocabulary, if_neg h]
  cases firstNamed logLevels line with
  | none => rfl
  | some named => exact logMethod_normalized named.1

theorem understood_zurg {processName : String} (hzurg : isZurg processName = true)
    (line : Chars) : Understood u digit processName line ↔ ¬Lone u line := by
  constructor
  · rintro ⟨level, message, hparse, -⟩ hlone
    rw [parseLogLevelAndMessage, if_pos hzurg, zurgLine_lone hlone] at hparse
    cases hparse
  · intro hlone
    obtain ⟨message, hline⟩ := zurgLine_level hlone
    refine ⟨_, message, ?_, methodNamed_alt (.inl hzurg) line⟩
    rw [parseLogLevelAndMessage, if_pos hzurg, hline]
    rfl

theorem understood_cli (line : Chars) :
    Understood u digit "CLI Debrid" line ↔ methodNamed "CLI Debrid" line = .info := by
  have hparse : ∃ message, parseLogLevelAndMessage u digit line "CLI Debrid" = .ok (some .info, message) := by
    rw [parseLogLevelAndMessage, if_neg (by decide), if_neg (by decide), if_neg (by decide), if_pos rfl]
    exact ⟨_, rfl⟩
  obtain ⟨message, hparse⟩ := hparse
  constructor
  · rintro ⟨level, message', hparse', hlevel⟩
    rw [hparse] at hparse'
    cases hparse'
    exact hlevel.symm
  · exact fun hinfo => ⟨_, message, hparse, hinfo.symm⟩

theorem understood_rest {processName : String} (hzurg : ¬isZurg processName = true)
    (hcli : processName ≠ "CLI Debrid") (line : Chars) : Understood u digit processName line := by
  by_cases hpostgres : processName = "PostgreSQL"
  · obtain ⟨message, hline⟩ := postgresLine_level (u := u) line
    refine ⟨_, message, ?_, methodNamed_alt (.inr (.inl hpostgres)) line⟩
    rw [parseLogLevelAndMessage, if_neg hzurg, if_pos hpostgres, hline]
    rfl
  by_cases hzilean : processName = "Zilean"
  · obtain ⟨message, hline⟩ := zileanLine_level u digit line
    refine ⟨_, message, ?_, methodNamed_alt (.inr (.inr hzilean)) line⟩
    rw [parseLogLevelAndMessage, if_neg hzurg, if_neg hpostgres, if_pos hzilean, hline]
    rfl
  · obtain ⟨message, hline⟩ := otherLine_level u digit processName line
    have hno : ¬(isZurg processName ∨ processName = "PostgreSQL" ∨ processName = "Zilean") := by
      simp [hzurg, hpostgres, hzilean]
    refine ⟨_, message, ?_, methodNamed_other hno line⟩
    rw [parseLogLevelAndMessage, if_neg hzurg, if_neg hpostgres, if_neg hzilean, if_neg hcli, hline]
    rfl

theorem understood_iff (processName : String) (line : Chars) :
    Understood u digit processName line ↔ Clear u processName line := by
  rw [Clear]
  by_cases hzurg : isZurg processName = true
  · have hcli : processName ≠ "CLI Debrid" := by
      rintro rfl
      revert hzurg
      decide
    simp [understood_zurg hzurg, hzurg, hcli]
  · by_cases hcli : processName = "CLI Debrid"
    · subst hcli
      simp [understood_cli, hzurg]
    · simp [understood_rest hzurg hcli line, hzurg, hcli]

/-! ## The pumps -/

variable (u) in
def heard (lines : List Chars) : List Chars := (lines.map (strip u)).filter fun line => !line.isEmpty

def linesOf (text : Chars) : List Chars := Reader.linesAfter (· == '\n') [] text

namespace SubprocessLogger

variable (self : SubprocessLogger) {processName : String} {format : Chars → Chars}

variable (u digit processName format) in
def Handed (line : Chars) (records : List Record) : Prop :=
  if self.isAccess line then records = [⟨.access, .info, line⟩]
  else ∃ level message, parseLogLevelAndMessage u digit line processName = .ok (level, message) ∧
    records = self.loggers.map fun logger => ⟨logger, methodNamed processName line, format (redact u message)⟩

variable (u digit) in
structure Pumped (r : Reader Char (Chars × List Record) Raised) (processName : String) (format : Chars → Chars)
    (text : Chars) (capacity : Nat) : Prop where
  understood : ∀ line ∈ heard u (linesOf text), Understood u digit processName line
  keepsReading : ∀ st, r.Reach capacity (Reader.start ([], []) text) st → ∀ e, st.status ≠ .stopped e
  neverBlocks : ∀ st, r.Reach capacity (Reader.start ([], []) text) st → st.left ≠ [] → ∃ st', r.Step capacity st st'
  handed : ∀ st, r.Reach capacity (Reader.start ([], []) text) st → (∀ st', ¬r.Step capacity st st') →
    st.left = [] ∧ ∃ groups : List (List Record), st.status = .closed ([], groups.flatten) ∧
      List.Forall₂ (self.Handed u digit processName format) (heard u (linesOf text)) groups

theorem handleLine_blank (h : strip u line = []) :
    self.handleLine u digit processName format line = .ok [] := by
  simp [handleLine, h]

theorem handleLine_handed (hline : strip u line ≠ [])
    (h : Understood u digit processName (strip u line)) :
    ∃ records, self.handleLine u digit processName format line = .ok records ∧
      self.Handed u digit processName format (strip u line) records := by
  obtain ⟨level, message, hparse, hlevel⟩ := h
  have hne : (strip u line).isEmpty = false := by simpa using hline
  cases haccess : self.isAccess (strip u line) with
  | true => exact ⟨[⟨.access, .info, strip u line⟩], by simp [handleLine, hne, haccess], by simp [Handed, haccess]⟩
  | false =>
    refine ⟨self.loggers.map fun logger => ⟨logger, methodNamed processName (strip u line), format (redact u message)⟩,
      ?_, ?_⟩
    · simp [handleLine, hne, haccess, hparse, hlevel, Except.map]
    · rw [Handed, if_neg (by simp [haccess])]
      exact ⟨level, message, hparse, rfl⟩

theorem foldlM_handed {lines : List Chars} (h : ∀ line ∈ heard u lines, Understood u digit processName line)
    (records : List Record) : ∃ groups : List (List Record),
      lines.foldlM (fun records line => (self.handleLine u digit processName format line).map (records ++ ·)) records =
        .ok (records ++ groups.flatten) ∧
      List.Forall₂ (self.Handed u digit processName format) (heard u lines) groups := by
  induction lines generalizing records with
  | nil => exact ⟨[], by simp [pure, Except.pure], .nil⟩
  | cons line lines ih =>
    by_cases hline : strip u line = []
    · have hheard : heard u (line :: lines) = heard u lines := by simp [heard, hline]
      rw [hheard] at h ⊢
      obtain ⟨groups, hfold, hgroups⟩ := ih h records
      refine ⟨groups, ?_, hgroups⟩
      simpa [handleLine_blank, hline, Except.map, bind, Except.bind] using hfold
    · have hheard : heard u (line :: lines) = strip u line :: heard u lines := by simp [heard, hline]
      rw [hheard] at h ⊢
      obtain ⟨now, hnow, hhanded⟩ := self.handleLine_handed hline (h _ List.mem_cons_self)
      obtain ⟨groups, hfold, hgroups⟩ := ih (fun l hl => h l (List.mem_cons_of_mem _ hl)) (records ++ now)
      refine ⟨now :: groups, ?_, .cons hhanded hgroups⟩
      simpa [hnow, Except.map, bind, Except.bind] using hfold

theorem readAll_handed (h : ∀ line ∈ heard u (linesOf text), Understood u digit processName line) :
    ∃ groups : List (List Record),
      (self.pump u digit processName format).readAll ([], []) text = .ok ([], groups.flatten) ∧
      List.Forall₂ (self.Handed u digit processName format) (heard u (linesOf text)) groups := by
  obtain ⟨groups, hfold, hgroups⟩ := self.foldlM_handed h []
  refine ⟨groups, ?_, hgroups⟩
  rw [pump, Reader.readAll_byLine, ← linesOf, hfold]
  rfl

theorem pumped_iff {capacity : Nat} (hcap : 0 < capacity) :
    self.Pumped u digit (self.pump u digit processName format) processName format text capacity ↔
      ∀ line ∈ heard u (linesOf text), Clear u processName line := by
  constructor
  · intro h line hline
    exact (understood_iff processName line).1 (Pumped.understood h line hline)
  · intro hclear
    have hunderstood (line : Chars) (hline : line ∈ heard u (linesOf text)) : Understood u digit processName line :=
      (understood_iff processName line).2 (hclear line hline)
    obtain ⟨groups, hall, hgroups⟩ := self.readAll_handed hunderstood
    refine ⟨hunderstood, (Reader.never_stopped_iff hcap).2 ⟨_, hall⟩, fun st hst => Reader.step_of_left hcap hall hst,
      fun st hst hend => ?_⟩
    obtain ⟨hstatus, hleft⟩ := Reader.closed_of_readAll hcap hall hst hend
    exact ⟨hleft, groups, hstatus, hgroups⟩

variable (u digit) in
/-- Both pumps of a process do their work exactly where every line that is not blank is clear. -/
theorem log_pumps (mountName processName : String) (out err : Chars) {capacity : Nat} (hcap : 0 < capacity) :
    (self.Pumped u digit (self.logSubprocessOutput u digit) self.keyType (subprocessText self.keyType) out capacity ∧
      self.Pumped u digit (self.monitorStderr u digit mountName processName) processName
        (stderrText mountName processName) err capacity) ↔
    (∀ line ∈ heard u (linesOf out), Clear u self.keyType line) ∧
      ∀ line ∈ heard u (linesOf err), Clear u processName line :=
  and_congr (self.pumped_iff hcap) (self.pumped_iff hcap)

end SubprocessLogger

def zurgLogger : SubprocessLogger := ⟨"Zurg", true, true, false⟩

theorem log_pumps_zurg :
    0 < 1 ∧ zurgLogger.Pumped .ascii Char.isDigit (zurgLogger.logSubprocessOutput .ascii Char.isDigit) "Zurg"
      (SubprocessLogger.subprocessText "Zurg") "INFO zurg started\n\n".toList 1 :=
  ⟨by decide, ((zurgLogger.log_pumps .ascii Char.isDigit "" "Zurg" "INFO zurg started\n\n".toList
    "12:00 WARN zurg slow\n".toList (by decide)).2 ⟨by decide +kernel, by decide +kernel⟩).1⟩

/-- A single word behind the level stops the thread that reads, and the child is held up. -/
theorem log_pump_stopped :
    ¬zurgLogger.Pumped .ascii Char.isDigit (zurgLogger.logSubprocessOutput .ascii Char.isDigit) "Zurg"
      (SubprocessLogger.subprocessText "Zurg") "INFO hello\n".toList 1 ∧
    ∃ st, (zurgLogger.logSubprocessOutput .ascii Char.isDigit).Reach 1
      (Reader.start ([], []) ("INFO hello\n".toList ++ "INFO zurg started\n".toList)) st ∧ st.left ≠ [] ∧
      ∀ st', ¬(zurgLogger.logSubprocessOutput .ascii Char.isDigit).Step 1 st st' := by
  constructor
  · intro h
    exact absurd ((zurgLogger.pumped_iff (by decide)).1 h "INFO hello".toList (by decide +kernel)) (by decide +kernel)
  · exact Reader.exists_blocked (by decide) (e := .indexError) (by decide +kernel) (by decide)

end

end Dumb.Logs
