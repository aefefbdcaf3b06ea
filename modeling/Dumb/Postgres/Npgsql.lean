import Dumb.Lib.Binary
import Dumb.Postgres.Guard
import Mathlib.Data.List.Basic

/-!
# Connection strings of Npgsql

What `_npgsql_connection_targets_runtime` reads from the strings of `postgres_npgsql_connection_string`.
-/

namespace Dumb.Postgres.Guard

open Py

/-! ## Quoted fields -/

def doubled (c : Char) : List Char := if c = '"' then ['"', '"'] else [c]

theorem replaceFrom_quote (cs : List Char) : replaceFrom ['"'] ['"', '"'] 0 cs = cs.flatMap doubled := by
  induction cs with
  | nil => rfl
  | cons c cs ih =>
    rw [List.flatMap_cons, ← ih]
    by_cases hc : c = '"'
    · subst hc
      rfl
    · have hother : ['"'].isPrefixOf (c :: cs) = false := by
        rw [List.isPrefixOf_cons_cons, beq_eq_false_iff_ne.2 (Ne.symm hc), Bool.false_and]
      rw [replaceFrom, hother, doubled, if_neg hc]
      rfl

theorem segments_quoted {rest : List Char} (hrest : rest.head? ≠ some '"') (cs current : List Char) :
    segments (some '"') current (cs.flatMap doubled ++ '"' :: rest) = segments none (current ++ cs) rest := by
  induction cs generalizing current with
  | nil =>
    rw [List.append_nil]
    cases rest with
    | nil => rfl
    | cons d rest =>
      have hd : d ≠ '"' := fun h => hrest (by rw [h]; rfl)
      simp [segments, hd]
  | cons c cs ih =>
    rw [List.flatMap_cons, List.append_assoc, show current ++ c :: cs = (current ++ [c]) ++ cs by simp]
    by_cases hc : c = '"'
    · subst hc
      rw [← ih]
      simp [doubled, segments]
    · rw [← ih, doubled, if_neg hc]
      obtain ⟨d, tail, htail⟩ : ∃ d tail, cs.flatMap doubled ++ '"' :: rest = d :: tail := by
        cases hcs : cs.flatMap doubled with
        | nil => exact ⟨_, _, rfl⟩
        | cons d tail => exact ⟨d, tail ++ '"' :: rest, rfl⟩
      rw [htail]
      simp [segments, hc]

def Unquoted (cs : List Char) : Prop := ∀ c ∈ cs, c ≠ '"' ∧ c ≠ '\'' ∧ c ≠ ';'

instance (cs : List Char) : Decidable (Unquoted cs) :=
  decidable_of_iff (cs.all fun c => c != '"' && c != '\'' && c != ';') (by simp [Unquoted, and_assoc])

theorem segments_unquoted {cs : List Char} (h : Unquoted cs) (current rest : List Char) :
    segments none current (cs ++ rest) = segments none (current ++ cs) rest := by
  induction cs generalizing current with
  | nil => rw [List.append_nil]; rfl
  | cons c cs ih =>
    obtain ⟨hdouble, hsingle, hsemicolon⟩ := h c List.mem_cons_self
    have hstep : segments none current (c :: (cs ++ rest)) = segments none (current ++ [c]) (cs ++ rest) := by
      simp [segments, hdouble, hsingle, hsemicolon]
    rw [List.cons_append, hstep, ih fun d hd => h d (List.mem_cons_of_mem c hd)]
    simp

def quotedField (field : String × String) : List Char :=
  field.1.toList ++ '"' :: (field.2.toList.flatMap doubled ++ ['"'])

theorem segments_fields (fields : List (String × String)) (hne : fields ≠ [])
    (h : ∀ field ∈ fields, Unquoted field.1.toList) :
    segments none [] ([';'].intercalate (fields.map quotedField)) =
      some (fields.map fun field => field.1.toList ++ field.2.toList) := by
  induction fields with
  | nil => exact absurd rfl hne
  | cons field fields ih =>
    have hopen : ∀ rest : List Char, rest.head? ≠ some '"' →
        segments none [] (quotedField field ++ rest) = segments none (field.1.toList ++ field.2.toList) rest := by
      intro rest hrest
      rw [quotedField, List.append_assoc, segments_unquoted (h field List.mem_cons_self), List.nil_append, List.cons_append,
        List.append_assoc]
      have hquote : segments none field.1.toList ('"' :: (field.2.toList.flatMap doubled ++ (['"'] ++ rest))) =
          segments (some '"') field.1.toList (field.2.toList.flatMap doubled ++ '"' :: rest) := by
        simp [segments]
      rw [hquote, segments_quoted hrest]
    cases fields with
    | nil =>
      have hlast := hopen [] (by simp)
      rw [List.append_nil] at hlast
      rw [List.map_singleton, List.intercalate_singleton, hlast]
      rfl
    | cons other fields =>
      rw [List.map_cons, List.map_cons, List.intercalate_cons_cons, ← List.map_cons, List.append_assoc, hopen _ (by simp)]
      have hnext : segments none (field.1.toList ++ field.2.toList)
          ([';'] ++ [';'].intercalate ((other :: fields).map quotedField)) =
          (segments none [] ([';'].intercalate ((other :: fields).map quotedField))).map
            ((field.1.toList ++ field.2.toList) :: ·) := by
        simp [segments]
      rw [hnext, ih (List.cons_ne_nil other fields) fun f hf => h f (List.mem_cons_of_mem field hf)]
      rfl

theorem toList_connectionString (text : Text) (c : Settings) (database : String) :
    (postgresNpgsqlConnectionString text c database).toList = [';'].intercalate
      ([("Host=", connectionValue text c "host" "127.0.0.1"), ("Port=", connectionValue text c "port" "5432"),
        ("Database=", database), ("Username=", connectionValue text c "user" "DUMB"),
        ("Password=", connectionValue text c "password" "postgres")].map quotedField) := by
  have hquote : ∀ value : String, (replace "\"" "\"\"" value).toList = value.toList.flatMap doubled := by
    intro value
    rw [replace, String.toList_ofList]
    exact replaceFrom_quote value.toList
  simp only [postgresNpgsqlConnectionString, String.toList_intercalate, List.map_cons, List.map_nil, String.toList_append,
    hquote, quotedField, List.append_assoc]
  rfl

/-! ## The fields read -/

section

variable {text : Text}

theorem parseFields_field {name canonical : String} {value : List Char} {rest : List (List Char)}
    {parsed : Dict String String} (hplain : Plain name) (hequals : '=' ∉ name.toList)
    (halias : connectionAliases.get? (asciiLower name) = some canonical) (hnew : parsed.get? canonical = none) :
    parseFields text ((name.toList ++ '=' :: value) :: rest) parsed =
      parseFields text rest (parsed.set canonical (text.strip (String.ofList value))) := by
  have hname : ∀ c ∈ name.toList, decide (c ≠ '=') = true := fun c hc => decide_eq_true fun h => hequals (h ▸ hc)
  have htake : (name.toList ++ '=' :: value).takeWhile (· ≠ '=') = name.toList := by
    rw [List.takeWhile_append_of_pos hname]
    simp
  have hdrop : ((name.toList ++ '=' :: value).dropWhile (· ≠ '=')).drop 1 = value := by
    rw [List.dropWhile_append_of_pos hname]
    simp
  have hsegment : (name.toList ++ '=' :: value).contains '=' = true := by simp
  rw [parseFields, if_pos hsegment]
  dsimp only
  rw [htake, hdrop, String.ofList_toList, text.strip_plain hplain, text.lower_plain hplain, halias]
  simp [hnew]

theorem parseFields_connection (host port database user password : String) :
    parseFields text ([("Host=", host), ("Port=", port), ("Database=", database), ("Username=", user),
        ("Password=", password)].map fun field => field.1.toList ++ field.2.toList) [] =
      some [("host", text.strip host), ("port", text.strip port), ("database", text.strip database),
        ("user", text.strip user), ("password", text.strip password)] := by
  have hfield : ∀ (name value : String) (canonical : String) (rest : List (List Char)) (parsed : Dict String String),
      Plain name → '=' ∉ name.toList → connectionAliases.get? (asciiLower name) = some canonical →
      parsed.get? canonical = none →
      parseFields text (((name ++ "=").toList ++ value.toList) :: rest) parsed =
        parseFields text rest (parsed.set canonical (text.strip value)) := by
    intro name value canonical rest parsed hplain hequals halias hnew
    have hread : parseFields text ((name.toList ++ '=' :: value.toList) :: rest) parsed =
        parseFields text rest (parsed.set canonical (text.strip (String.ofList value.toList))) :=
      parseFields_field hplain hequals halias hnew
    rw [String.ofList_toList] at hread
    rw [String.toList_append, List.append_assoc]
    exact hread
  have hhost := hfield "Host" host "host"
  have hport := hfield "Port" port "port"
  have hdatabase := hfield "Database" database "database"
  have huser := hfield "Username" user "user"
  have hpassword := hfield "Password" password "password"
  simp only [List.map_cons, List.map_nil]
  rw [show ("Host=" : String) = "Host" ++ "=" from rfl, hhost _ _ (by decide) (by decide) (by decide) rfl,
    show ("Port=" : String) = "Port" ++ "=" from rfl, hport _ _ (by decide) (by decide) (by decide) rfl,
    show ("Database=" : String) = "Database" ++ "=" from rfl, hdatabase _ _ (by decide) (by decide) (by decide) rfl,
    show ("Username=" : String) = "Username" ++ "=" from rfl, huser _ _ (by decide) (by decide) (by decide) rfl,
    show ("Password=" : String) = "Password" ++ "=" from rfl, hpassword _ _ (by decide) (by decide) (by decide) rfl]
  rfl

theorem plain_int (n : Int) : Plain (toString n) := by
  have hdigits : ∀ {n : Nat} {c : Char}, c ∈ (Nat.repr n).toList → 33 ≤ c.toNat ∧ c.toNat ≤ 126 := by
    intro n c hc
    have hdigit := repr_digits hc
    simp only [Char.isDigit, Bool.and_eq_true, decide_eq_true_eq] at hdigit
    have hlow : 48 ≤ c.toNat := hdigit.1
    have hhigh : c.toNat ≤ 57 := hdigit.2
    omega
  intro c hc
  cases n with
  | ofNat n => exact hdigits (n := n) hc
  | negSucc n =>
    rw [toString_negSucc, List.mem_cons] at hc
    rcases hc with rfl | hc
    · decide
    · exact hdigits hc

end

/-! ## The target -/

structure Configured (w : World) (c : Settings) (database : String) (port : Int) : Prop where
  host : w.text.strip (w.value c "host" "127.0.0.1") = w.value c "host" "127.0.0.1"
  user : w.text.strip (w.value c "user" "DUMB") = w.value c "user" "DUMB"
  database : w.text.strip database = database
  port : (setting c "port" = .int port ∧ port ≠ 0) ∨ ((setting c "port").truthy = false ∧ port = 5432)

namespace Configured

variable {w : World} {c : Settings} {database : String} {port : Int}

theorem written (hc : Configured w c database port) (hstr : ∀ n, w.text.str (.int n) = toString n) :
    connectionValue w.text c "port" "5432" = toString port := by
  rcases hc.port with ⟨hport, hne⟩ | ⟨hfalsy, rfl⟩
  · have htruthy : (Json.int port).truthy = true := by simpa [Json.truthy] using hne
    rw [connectionValue, hport, if_pos htruthy, hstr]
  · rw [connectionValue, hfalsy, if_neg (by simp)]
    rfl

theorem readPort (hc : Configured w c database port) (hint : ∀ n, w.int (.int n) = some n) : w.port c = some port := by
  rcases hc.port with ⟨hport, hne⟩ | ⟨hfalsy, rfl⟩
  · have htruthy : (Json.int port).truthy = true := by simpa [Json.truthy] using hne
    rw [World.port, hport, if_pos htruthy, hint]
  · rw [World.port, hfalsy, if_neg (by simp)]

end Configured

/-- The string of a configuration targets another one exactly when the two say the same, whatever the passwords are. -/
theorem connection_targets (w : World) (c d : Settings) (x y : String) (p q : Int)
    (hstr : ∀ n, w.text.str (.int n) = toString n) (hint : ∀ n, w.int (.int n) = some n)
    (hc : Configured w c x p) (hd : Configured w d y q)
    (hlength : (postgresNpgsqlConnectionString w.text c x).length ≤ 16 * 1024) :
    w.connectionTargetsRuntime (postgresNpgsqlConnectionString w.text c x) d y =
      some (decide (w.value c "host" "127.0.0.1" = w.value d "host" "127.0.0.1" ∧ p = q ∧ x = y ∧
        w.value c "user" "DUMB" = w.value d "user" "DUMB")) := by
  have hnames : ∀ name ∈ ["Host=", "Port=", "Database=", "Username=", "Password="], Unquoted name.toList := by decide
  have hsegments := segments_fields [("Host=", connectionValue w.text c "host" "127.0.0.1"),
    ("Port=", connectionValue w.text c "port" "5432"), ("Database=", x),
    ("Username=", connectionValue w.text c "user" "DUMB"), ("Password=", connectionValue w.text c "password" "postgres")]
    (by simp) (by
      intro field hfield
      apply hnames
      simp only [List.mem_cons, List.not_mem_nil, or_false] at hfield
      rcases hfield with rfl | rfl | rfl | rfl | rfl <;> simp)
  rw [← toList_connectionString] at hsegments
  have hempty : postgresNpgsqlConnectionString w.text c x ≠ "" := by
    intro hempty
    rw [hempty] at hsegments
    simp [segments] at hsegments
  have hbounds : ¬((decide (postgresNpgsqlConnectionString w.text c x = "") ||
      decide (16 * 1024 < (postgresNpgsqlConnectionString w.text c x).length)) = true) := by
    simp only [Bool.or_eq_true, decide_eq_true_eq, hempty, false_or]
    omega
  have hhost : w.text.strip (connectionValue w.text c "host" "127.0.0.1") = w.value c "host" "127.0.0.1" := hc.host
  have huser : w.text.strip (connectionValue w.text c "user" "DUMB") = w.value c "user" "DUMB" := hc.user
  have hports : p.repr = q.repr ↔ p = q :=
    ⟨fun h => int_injective (congrArg String.toList h), congrArg Int.repr⟩
  rw [World.connectionTargetsRuntime, if_neg hbounds, hsegments, Option.bind_some, parseFields_connection, hc.written hstr,
    w.text.strip_plain (plain_int p), hc.database, hhost, huser]
  simp only [hd.readPort hint, Option.map_some, Option.some.injEq]
  rw [Bool.eq_iff_iff]
  simp [Dict.get?, hports, and_assoc]

def emptyDisk : World where
  text := .ascii
  sha256 _ := ""
  realpath := id
  shlexSplit s := some [s]
  int
    | .int n => some n
    | _ => none
  disk _ := .missing
  sqlite _ := none
  rootPrivate := true
  marker := .absent
  completed := []
  installed _ := none
  markerWritable := true
  latestRelease := none
  refCommit _ := none
  ahead _ _ := false
  authorized := false

def quotedHost (password : String) : Settings :=
  [("host", .str "a;b\"=c'd"), ("port", .int 6432), ("password", .str password)]

theorem connection_targets_quoted : emptyDisk.connectionTargetsRuntime
    (postgresNpgsqlConnectionString .ascii (quotedHost "x\";Host=\"other") "infinidysk") (quotedHost "y") "infinidysk" =
      some true := by
  have hmine : Configured emptyDisk (quotedHost "x\";Host=\"other") "infinidysk" 6432 :=
    ⟨by decide +kernel, by decide +kernel, by decide +kernel, .inl ⟨rfl, by decide⟩⟩
  have hother : Configured emptyDisk (quotedHost "y") "infinidysk" 6432 :=
    ⟨by decide +kernel, by decide +kernel, by decide +kernel, .inl ⟨rfl, by decide⟩⟩
  have h := connection_targets emptyDisk (quotedHost "x\";Host=\"other") (quotedHost "y") "infinidysk" "infinidysk" 6432 6432
    (fun _ => rfl) (fun _ => rfl) hmine hother (by decide +kernel)
  rw [show emptyDisk.text = Text.ascii from rfl] at h
  rw [h]
  decide +kernel

end Dumb.Postgres.Guard
