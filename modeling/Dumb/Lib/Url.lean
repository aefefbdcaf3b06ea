import Mathlib.Data.List.DropRight
import Dumb.Lib.Text

/-!
# URLs

`urlparse` and `geturl` of `urllib.parse`, on the characters. What the standard library checks on the part between the
slashes (brackets and Unicode normalization) is a parameter. An origin that a path is put behind is read back with
that path.
-/

namespace Url

structure Parts where
  scheme : List Char
  netloc : List Char
  path : List Char
  params : List Char
  query : List Char
  fragment : List Char

def partition (sep : Char) (s : List Char) : List Char × Bool × List Char :=
  (s.takeWhile (· ≠ sep), s.contains sep, (s.dropWhile (· ≠ sep)).drop 1)

def rpartition (sep : Char) (s : List Char) : List Char × Bool × List Char :=
  if s.contains sep then ((s.rdropWhile (· ≠ sep)).dropLast, true, s.rtakeWhile (· ≠ sep)) else ([], false, s)

def isSchemeChar (c : Char) : Bool := c.isAlphanum || c = '+' || c = '-' || c = '.'

def splitScheme (url : List Char) : List Char × List Char :=
  let (before, found, behind) := partition ':' url
  if found && before.head?.any Char.isAlpha && before.all isSchemeChar then (before.map Char.toLower, behind) else ([], url)

def isDelimiter (c : Char) : Bool := c = '/' || c = '?' || c = '#'

def splitNetloc (url : List Char) : List Char × List Char :=
  if ['/', '/'].isPrefixOf url then
    ((url.drop 2).takeWhile (!isDelimiter ·), (url.drop 2).dropWhile (!isDelimiter ·))
  else ([], url)

def splitParams (path : List Char) : List Char × List Char :=
  let (before, _, behind) := partition ';' (path.rtakeWhile (· ≠ '/'))
  (path.rdropWhile (· ≠ '/') ++ before, behind)

def usesParams : List String :=
  ["", "ftp", "hdl", "prospero", "http", "https", "shttp", "rtsp", "rtspu", "sip", "sips", "mms", "sftp", "tel"]

def isControl (c : Char) : Bool := c.toNat ≤ 32

def isUnsafe (c : Char) : Bool := c = '\t' || c = '\r' || c = '\n'

/-- `urlparse`. `none` where it raises: `check` says which parts between the slashes are read. -/
def urlparse (check : List Char → Bool) (url : List Char) : Option Parts :=
  let url := (url.dropWhile isControl).filter (!isUnsafe ·)
  let (scheme, rest) := splitScheme url
  let (netloc, rest) := splitNetloc rest
  if !check netloc then none
  else
    let (rest, _, fragment) := partition '#' rest
    let (path, _, query) := partition '?' rest
    let (path, params) := if usesParams.contains (String.ofList scheme) then splitParams path else (path, [])
    some ⟨scheme, netloc, path, params, query, fragment⟩

namespace Parts

def geturl (p : Parts) : List Char :=
  let path := if p.params = [] then p.path else p.path ++ ';' :: p.params
  let path := if path ≠ [] ∧ path.head? ≠ some '/' then '/' :: path else path
  (if p.scheme = [] then [] else p.scheme ++ [':']) ++ ['/', '/'] ++ p.netloc ++ path ++
    (if p.query = [] then [] else '?' :: p.query) ++ (if p.fragment = [] then [] else '#' :: p.fragment)

def hasUsername (p : Parts) : Bool := !(partition ':' (rpartition '@' p.netloc).1).1.isEmpty

def hasPassword (p : Parts) : Bool := !(partition ':' (rpartition '@' p.netloc).1).2.2.isEmpty

def hostinfo (p : Parts) : List Char × List Char :=
  let info := (rpartition '@' p.netloc).2.2
  let (_, bracket, bracketed) := partition '[' info
  if bracket then
    let (host, _, behind) := partition ']' bracketed
    (host, (partition ':' behind).2.2)
  else
    let (host, _, port) := partition ':' info
    (host, port)

def host (p : Parts) : List Char := p.hostinfo.1

def portReadable (p : Parts) : Bool :=
  let port := p.hostinfo.2
  port.isEmpty || (port.all Char.isDigit && decide (Nat.ofDigitChars 10 port 0 ≤ 65535))

end Parts

/-! ## What is read -/

theorem splitNetloc_spec (url : List Char) : ∀ c ∈ (splitNetloc url).1, isDelimiter c = false ∧ c ∈ url := by
  intro c hc
  simp only [splitNetloc] at hc
  split at hc
  · obtain ⟨hmem, hdelim⟩ := And.intro ((List.takeWhile_sublist _).subset hc) (List.mem_takeWhile_imp hc)
    exact ⟨by simpa using hdelim, List.mem_of_mem_drop hmem⟩
  · exact absurd hc List.not_mem_nil

theorem mem_splitScheme {url : List Char} {c : Char} (h : c ∈ (splitScheme url).2) : c ∈ url := by
  by_cases hscheme : ((partition ':' url).2.1 && (partition ':' url).1.head?.any Char.isAlpha &&
      (partition ':' url).1.all isSchemeChar) = true
  · simp only [splitScheme, hscheme, ↓reduceIte] at h
    exact (List.dropWhile_sublist _).subset (List.mem_of_mem_drop h)
  · simp only [splitScheme, hscheme, Bool.false_eq_true, ↓reduceIte] at h
    exact h

section
variable {check : List Char → Bool} {url : List Char} {p : Parts}

theorem check_of_urlparse (h : urlparse check url = some p) : check p.netloc = true := by
  simp only [urlparse] at h
  split at h
  · cases h
  · rename_i hcheck
    injection h with h
    rw [← h]
    simpa using hcheck

theorem netloc_of_urlparse (h : urlparse check url = some p) :
    ∀ c ∈ p.netloc, isDelimiter c = false ∧ isUnsafe c = false := by
  intro c hc
  simp only [urlparse] at h
  split at h
  · cases h
  · injection h with h
    rw [← h] at hc
    obtain ⟨hdelim, hmem⟩ := splitNetloc_spec _ c hc
    have hsafe := (List.mem_filter.1 (mem_splitScheme hmem)).2
    exact ⟨hdelim, by simpa using hsafe⟩

end

/-! ## A path behind an origin -/

def origin (netloc : List Char) : List Char := ['h', 't', 't', 'p', 's', ':', '/', '/'] ++ netloc

section
variable {netloc : List Char} (hnetloc : ∀ c ∈ netloc, isDelimiter c = false ∧ isUnsafe c = false)

theorem geturl_origin {p : Parts} (hscheme : p.scheme = ['h', 't', 't', 'p', 's']) (hpath : p.path = [] ∨ p.path = ['/'])
    (hparams : p.params = []) (hquery : p.query = []) (hfragment : p.fragment = []) :
    p.geturl = origin p.netloc ++ p.path := by
  have hslash : (if p.path ≠ [] ∧ p.path.head? ≠ some '/' then '/' :: p.path else p.path) = p.path := by
    rcases hpath with hpath | hpath
    · simp [hpath]
    · simp [hpath]
  simp [Parts.geturl, hscheme, hparams, hquery, hfragment, hslash, origin]

include hnetloc in
theorem origin_stripped (hne : netloc ≠ []) {path : List Char} (hpath : path = [] ∨ path = ['/']) :
    (origin netloc ++ path).rdropWhile (· = '/') = origin netloc := by
  have hself : (origin netloc).rdropWhile (· = '/') = origin netloc := by
    rw [List.rdropWhile_eq_self_iff]
    intro hne'
    have hlast : (origin netloc).getLast hne' = netloc.getLast hne := List.getLast_append_right hne
    have hdelim := (hnetloc _ (List.getLast_mem hne)).1
    rw [hlast]
    intro heq
    simp only [decide_eq_true_eq] at heq
    rw [heq] at hdelim
    cases hdelim
  rcases hpath with rfl | rfl
  · rwa [List.append_nil]
  · rw [List.rdropWhile_concat_pos _ _ _ (by decide), hself]

theorem partition_absent {sep : Char} {s : List Char} (h : sep ∉ s) : partition sep s = (s, false, []) := by
  have hall : ∀ c ∈ s, decide (c ≠ sep) = true := fun c hc => decide_eq_true fun heq => h (heq ▸ hc)
  rw [partition, List.takeWhile_eq_self_iff.2 hall, List.dropWhile_eq_nil_iff.2 hall]
  simp [h]

theorem splitScheme_https (rest : List Char) : splitScheme (['h', 't', 't', 'p', 's', ':'] ++ rest) = (['h', 't', 't', 'p', 's'], rest) := by
  simp [splitScheme, partition, isSchemeChar]

include hnetloc in
theorem splitNetloc_origin {path : List Char} (hpath : path.head? = some '/') :
    splitNetloc (['/', '/'] ++ (netloc ++ path)) = (netloc, path) := by
  have hall : ∀ c ∈ netloc, (!isDelimiter c) = true := fun c hc => by simp [(hnetloc c hc).1]
  obtain ⟨rest, rfl⟩ : ∃ rest, path = '/' :: rest := by
    cases path with
    | nil => cases hpath
    | cons c rest => exact ⟨rest, by simpa using hpath⟩
  have hslash : (!isDelimiter '/') = false := by decide
  rw [splitNetloc, if_pos (by simp)]
  have hdrop : (['/', '/'] ++ (netloc ++ '/' :: rest)).drop 2 = netloc ++ '/' :: rest := rfl
  rw [hdrop, List.takeWhile_append_of_pos hall, List.dropWhile_append_of_pos hall]
  simp [hslash]

include hnetloc in
theorem urlparse_origin {check : List Char → Bool} {path : List Char} (hcheck : check netloc = true)
    (hpath : path.head? = some '/') (hplain : ∀ c ∈ path, isUnsafe c = false ∧ c ≠ '#' ∧ c ≠ '?' ∧ c ≠ ';') :
    urlparse check (origin netloc ++ path) = some ⟨['h', 't', 't', 'p', 's'], netloc, path, [], [], []⟩ := by
  have hfront : (origin netloc ++ path).dropWhile isControl = origin netloc ++ path := by
    simp [origin, isControl]
  have hsafe : (origin netloc ++ path).filter (!isUnsafe ·) = origin netloc ++ path := by
    rw [List.filter_eq_self]
    intro c hc
    simp only [origin, List.mem_append] at hc
    rcases hc with (hc | hc) | hc
    · revert c
      decide
    · simp [(hnetloc c hc).2]
    · simp [(hplain c hc).1]
  have hhash : '#' ∉ path := fun hmem => (hplain _ hmem).2.1 rfl
  have hquestion : '?' ∉ path := fun hmem => (hplain _ hmem).2.2.1 rfl
  have hsplit : splitParams path = (path, []) := by
    have hsemicolon : ';' ∉ path.rtakeWhile (· ≠ '/') := fun hmem =>
      (hplain _ ((List.rtakeWhile_suffix _ _).subset hmem)).2.2.2 rfl
    simp only [splitParams, partition_absent hsemicolon, Prod.mk.injEq, and_true]
    exact List.rdropWhile_append_rtakeWhile
  have hscheme : origin netloc ++ path = ['h', 't', 't', 'p', 's', ':'] ++ (['/', '/'] ++ (netloc ++ path)) := by
    simp [origin]
  simp only [urlparse, hfront, hsafe]
  rw [hscheme, splitScheme_https]
  simp only [splitNetloc_origin hnetloc hpath, hcheck, partition_absent hhash, partition_absent hquestion, hsplit]
  simp [usesParams]

end

end Url
