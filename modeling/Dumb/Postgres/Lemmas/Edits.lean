import Dumb.Postgres.Lemmas.Conf
import Mathlib.Data.List.Forall2

/-!
# Runs of the editor

What the settings of a text are, what one update does to its lines, and what holds of the lines after all of them.
-/

namespace Dumb.Postgres.Conf

open Py

/-! ## The settings of a text -/

def Readable (lines : List Chars) : Prop := ∀ line ∈ lines, ∃ read, readLine line = .ok read

theorem setting_unique {key key' value line : Chars} (h : readLine line = .ok (some (key, value))) (h' : Setting key' line) :
    key' = key := by
  obtain ⟨value', h'⟩ := h'
  rw [h] at h'
  simpa using (congrArg (·.1) (Option.some.inj (Except.ok.inj h'))).symm

def settingOf (line : Chars) : Option (Chars × Chars) :=
  match readLine line with
  | .ok read => read
  | .error _ => none

theorem settingOf_iff {line key value : Chars} : settingOf line = some (key, value) ↔ readLine line = .ok (some (key, value)) := by
  rw [settingOf]
  split <;> simp_all

theorem readLines_spec {lines : List Chars} {number : Nat} {config config' : Dict Chars Chars} :
    readLines number lines config = .ok config' ↔ Readable lines ∧ config' = assign (fun _ => settingOf) number lines config := by
  induction lines generalizing number config with
  | nil => simp [readLines, Readable, assign, eq_comm]
  | cons line rest ih =>
    rw [readLines, assign]
    have hreadable : Readable (line :: rest) ↔ (∃ read, readLine line = .ok read) ∧ Readable rest := List.forall_mem_cons
    rw [hreadable]
    split
    · next hline => simp [hline]
    · next hline => simp [hline, settingOf, ih]
    · next hline => simp [hline, settingOf, ih]

structure Reads (lines : List Chars) (settings : Dict Chars Chars) : Prop where
  readable : Readable lines
  settings : ∀ key value, settings.get? key = some value ↔
    ∃ i line, LastAt (Setting key) lines i line ∧ readLine line = .ok (some (key, value))

theorem parseConf_spec {content : Chars} {settings : Dict Chars Chars} (h : parseConf content = .ok settings) :
    Reads (fileLines content) settings := by
  obtain ⟨hreadable, rfl⟩ := readLines_spec.1 h
  refine ⟨hreadable, fun key value => ?_⟩
  have hsetting : ∀ (_ : Nat) line, Setting key line ↔ ∃ value, settingOf line = some (key, value) := by
    simp [Setting, settingOf_iff]
  rw [get?_assign hsetting]
  simp [settingOf_iff]

theorem readLine_spec {line key value : Chars} (h : readLine line = .ok (some (key, value))) :
    ∃ parsed wasQuoted, parseSettingLine line = .ok (some parsed) ∧ parsed.key = key ∧
      decodeValue parsed.rawValue = .ok (value, wasQuoted) := by
  rw [readLine, bind_ok_iff] at h
  obtain ⟨parsed, hparsed, h⟩ := h
  cases parsed with
  | none => cases h
  | some parsed =>
    obtain ⟨⟨got, wasQuoted⟩, hgot, h⟩ := bind_ok_iff.1 h
    obtain ⟨rfl, rfl⟩ : parsed.key = key ∧ got = value := by simpa using h
    exact ⟨parsed, wasQuoted, hparsed, rfl, hgot⟩

def slotOf (index : Nat) (line : Chars) : Option (Chars × Nat × Parsed) :=
  match parseSettingLine line with
  | .ok (some parsed) => some (parsed.key, index, parsed)
  | _ => none

theorem slotOf_iff {index i : Nat} {line key : Chars} {parsed : Parsed} : slotOf index line = some (key, i, parsed) ↔
    parseSettingLine line = .ok (some parsed) ∧ parsed.key = key ∧ i = index := by
  rw [slotOf]
  split
  · next found hline =>
    rw [hline]
    simp only [Option.some.injEq, Prod.mk.injEq, Except.ok.injEq]
    constructor
    · rintro ⟨rfl, rfl, rfl⟩
      exact ⟨rfl, rfl, rfl⟩
    · rintro ⟨rfl, rfl, rfl⟩
      exact ⟨rfl, rfl, rfl⟩
  · next hnone => exact ⟨by simp, fun h => absurd h.1 (hnone parsed)⟩

theorem settingLines_spec {lines : List Chars} {index : Nat} {found found' : Dict Chars (Nat × Parsed)}
    (h : settingLines index lines found = .ok found') : found' = assign slotOf index lines found := by
  induction lines generalizing index found with
  | nil => exact (Except.ok.inj h).symm
  | cons line rest ih =>
    rw [settingLines, bind_ok_iff] at h
    obtain ⟨parsed, hparsed, h⟩ := h
    cases parsed with
    | none => simpa [assign, slotOf, hparsed] using ih h
    | some parsed => simpa [assign, slotOf, hparsed] using ih h

theorem found_spec {lines : List Chars} {found : Dict Chars (Nat × Parsed)} (h : settingLines 0 lines [] = .ok found)
    (hreadable : Readable lines) (key : Chars) (i : Nat) (parsed : Parsed) : found.get? key = some (i, parsed) ↔
      ∃ line, LastAt (Setting key) lines i line ∧ parseSettingLine line = .ok (some parsed) ∧ parsed.key = key := by
  obtain rfl := settingLines_spec h
  have hslot : ∀ j line, (∃ found, parseSettingLine line = .ok (some found) ∧ found.key = key) ↔
      ∃ slot, slotOf j line = some (key, slot) := by
    intro j line
    constructor
    · rintro ⟨found, hfound, hkey⟩
      exact ⟨(j, found), slotOf_iff.2 ⟨hfound, hkey, rfl⟩⟩
    · rintro ⟨⟨k, found⟩, hfound⟩
      obtain ⟨hparsed, hkey, -⟩ := slotOf_iff.1 hfound
      exact ⟨found, hparsed, hkey⟩
  have hsame : ∀ line ∈ lines, (∃ found, parseSettingLine line = .ok (some found) ∧ found.key = key) ↔ Setting key line := by
    intro line hline
    constructor
    · rintro ⟨found, hfound, rfl⟩
      obtain ⟨read, hread⟩ := hreadable line hline
      rw [readLine_of_parsed hfound, map_ok_iff] at hread
      obtain ⟨got, hgot, -⟩ := hread
      exact ⟨got.1, by rw [readLine_of_parsed hfound, hgot]; rfl⟩
    · rintro ⟨value, hvalue⟩
      obtain ⟨found, -, hfound, hkey, -⟩ := readLine_spec hvalue
      exact ⟨found, hfound, hkey⟩
  rw [get?_assign hslot]
  simp only [slotOf_iff, Dict.get?_nil, Nat.zero_add]
  constructor
  · rintro (⟨j, line, hlast, hparsed, hkey, rfl⟩ | ⟨-, hnone⟩)
    · exact ⟨line, hlast.congr hsame, hparsed, hkey⟩
    · cases hnone
  · rintro ⟨line, hlast, hparsed, hkey⟩
    exact .inl ⟨i, line, hlast.congr fun l hl => (hsame l hl).symm, hparsed, hkey, rfl⟩

/-! ## Values of updates -/

theorem bareValue_inner {value : Chars} (h : bareValue value = true) : Inner value := by
  intro c hc
  have hbare := (bareValue_chars h).2 c hc
  simp [endsFileLine, bareChar_ne hbare (show ('\n' : Char).toNat < 43 ∨ _ by decide),
    bareChar_ne hbare (show ('\r' : Char).toNat < 43 ∨ _ by decide)]

structure Normalized (asText semantic : Chars) : Prop where
  inner : Inner semantic
  same : (stripSpace asText).head? ≠ some '\'' → semantic = asText
  shorter : (stripSpace asText).head? = some '\'' → semantic.length < asText.length ∧ semantic.getLast? ≠ some '\\'

theorem normalize_spec {value : Update} {semantic : Chars} (h : value.normalize = .ok semantic) :
    Normalized value.asText semantic := by
  cases value with
  | flag b =>
    obtain rfl := Except.ok.inj h
    cases b with
    | false => exact ⟨by decide, fun _ => rfl, fun h => absurd h (by decide)⟩
    | true => exact ⟨by decide, fun _ => rfl, fun h => absurd h (by decide)⟩
  | number shown plain =>
    obtain rfl := Except.ok.inj h
    refine ⟨bareValue_inner plain, fun _ => rfl, fun h => ?_⟩
    have hmem := (stripSpace_sublist shown).subset (List.mem_of_head? h)
    exact absurd ((bareValue_chars plain).2 _ hmem) (by decide)
  | text value =>
    rw [Update.normalize] at h
    split at h
    · cases h
    · next hplain =>
      have hinner : Inner value := by
        intro c hc
        simp only [List.any_eq_true, not_exists, not_and, Bool.or_eq_true, decide_eq_true_eq, not_or] at hplain
        simpa [endsFileLine] using And.intro (hplain c hc).1.2 (hplain c hc).2
      split at h
      · next rest hrest =>
        obtain ⟨hmem, hlength, hlast, -⟩ := decodeFrom_spec h
        have hsub := stripSpace_sublist value
        rw [hrest] at hsub
        refine ⟨fun c hc => hinner c (hsub.subset (List.mem_cons_of_mem _ (hmem c hc))), ?_, fun _ => ⟨?_, hlast⟩⟩
        · intro hhead
          rw [Update.asText, hrest] at hhead
          exact absurd rfl hhead
        · have := hsub.length_le
          rw [List.length_cons] at this
          exact Nat.lt_of_lt_of_le hlength (Nat.le_of_succ_le this)
      · next hhead =>
        obtain rfl := Except.ok.inj h
        refine ⟨hinner, fun _ => rfl, fun hquote => ?_⟩
        obtain ⟨rest, hrest⟩ := List.head?_eq_some_iff.1 hquote
        exact absurd hrest (hhead rest)
  | other => cases h

/-! ## One update -/

variable {found : Dict Chars (Nat × Parsed)}

inductive Writes (found : Dict Chars (Nat × Parsed)) (u : Chars × Update) (index : Nat) : Chars → Prop
  | intro {parsed : Parsed} {semantic current : Chars} {wasQuoted : Bool} (hfound : found.get? u.1 = some (index, parsed))
      (hnormal : u.2.normalize = .ok semantic) (hcurrent : decodeValue parsed.rawValue = .ok (current, wasQuoted))
      (hne : semantic ≠ current) : Writes found u index (parsed.withValue u.1 (formatValue semantic wasQuoted))

def addedLine (key semantic : Chars) : Chars := key ++ [' ', '=', ' '] ++ formatValue semantic false ++ ['\n']

inductive Step (found : Dict Chars (Nat × Parsed)) (u : Chars × Update) (lines : List Chars) : List Chars → Prop
  | same {index : Nat} {parsed : Parsed} {current : Chars} {wasQuoted : Bool} (hfound : found.get? u.1 = some (index, parsed))
      (hnormal : u.2.normalize = .ok current) (hcurrent : decodeValue parsed.rawValue = .ok (current, wasQuoted)) :
      Step found u lines lines
  | written {index : Nat} {line : Chars} (h : Writes found u index line) : Step found u lines (lines.set index line)
  | appended {semantic : Chars} (hfound : found.get? u.1 = none) (hkey : settingKey u.1 = true)
      (hnormal : u.2.normalize = .ok semantic) : Step found u lines (terminate lines ++ [addedLine u.1 semantic])

variable {u : Chars × Update}

theorem applyUpdates_cons {rest : Dict Chars Update} {lines lines' : List Chars}
    (h : applyUpdates found (u :: rest) lines = .ok lines') :
    ∃ mid, Step found u lines mid ∧ applyUpdates found rest mid = .ok lines' := by
  obtain ⟨key, value⟩ := u
  rw [applyUpdates] at h
  split at h
  · cases h
  · next hkey =>
    obtain ⟨semantic, hnormal, h⟩ := bind_ok_iff.1 h
    split at h
    · next index parsed hfound =>
      obtain ⟨⟨current, wasQuoted⟩, hcurrent, h⟩ := bind_ok_iff.1 h
      dsimp only at h
      split at h
      · next heq =>
        subst heq
        exact ⟨lines, .same hfound hnormal hcurrent, h⟩
      · next hne => exact ⟨_, .written (.intro hfound hnormal hcurrent hne), h⟩
    · next hfound => exact ⟨_, .appended hfound (by simpa using hkey) hnormal, h⟩

variable {updates : Dict Chars Update}

theorem applyUpdates_run {lines lines' : List Chars} (h : applyUpdates found updates lines = .ok lines')
    {P : Dict Chars Update → List Chars → Prop} (hstart : P [] lines)
    (hstep : ∀ before u after mid mid', updates = before ++ u :: after → P before mid → Step found u mid mid' →
      P (before ++ [u]) mid') : P updates lines' := by
  suffices hrun : ∀ after before mid, updates = before ++ after → P before mid → applyUpdates found after mid = .ok lines' →
      P updates lines' from hrun updates [] lines rfl hstart h
  intro after
  induction after with
  | nil =>
    intro before mid hupdates hbefore hrest
    rw [List.append_nil] at hupdates
    obtain rfl := Except.ok.inj hrest
    rwa [hupdates]
  | cons u after ih =>
    intro before mid hupdates hbefore hrest
    obtain ⟨mid', hu, hrest⟩ := applyUpdates_cons hrest
    exact ih (before ++ [u]) mid' (by simp [hupdates]) (hstep before u after mid mid' hupdates hbefore hu) hrest

/-! ## Ends -/

theorem terminated_refl (line : Chars) : Terminated line line := .inl rfl

theorem ended_newline (line : Chars) : Ended (line ++ ['\n']) := by simp [Ended]

theorem Terminated.trans {a b c : Chars} (hab : Terminated a b) (hbc : Terminated b c) : Terminated a c := by
  rcases hab with rfl | ⟨ha, rfl⟩
  · exact hbc
  · rcases hbc with rfl | ⟨hb, -⟩
    · exact .inr ⟨ha, rfl⟩
    · exact absurd (ended_newline a) hb

theorem terminate_append (front : List Chars) (last : Chars) :
    terminate (front ++ [last]) = front ++ [if Ended last then last else last ++ ['\n']] := by
  induction front with
  | nil =>
    rw [List.nil_append, terminate, List.nil_append]
    split <;> rfl
  | cons line front ih =>
    rw [List.cons_append, terminate, ih, List.cons_append]
    simp

theorem terminate_spec (lines : List Chars) : List.Forall₂ Terminated lines (terminate lines) := by
  induction lines using List.reverseRecOn with
  | nil => exact .nil
  | append_singleton front last =>
    rw [terminate_append]
    apply List.rel_append
    · exact List.forall₂_same.2 fun line _ => terminated_refl line
    · refine .cons ?_ .nil
      split
      · exact terminated_refl last
      · next h => exact .inr ⟨h, rfl⟩

theorem terminate_appended (kept appended : List Chars) (h : ∀ line ∈ appended, Ended line) :
    ∃ kept', terminate (kept ++ appended) = kept' ++ appended ∧ List.Forall₂ Terminated kept kept' := by
  rcases List.eq_nil_or_concat appended with rfl | ⟨front, last, rfl⟩
  · exact ⟨terminate kept, by simp, terminate_spec kept⟩
  · refine ⟨kept, ?_, List.forall₂_same.2 fun line _ => terminated_refl line⟩
    rw [List.concat_eq_append] at h ⊢
    rw [← List.append_assoc, terminate_append, if_pos (h last (by simp))]

/-! ## The lines after a run -/

/-- The lines of a file, what is read of them, and what the editor finds in them. -/
structure Source (lines : List Chars) (settings : Dict Chars Chars) (found : Dict Chars (Nat × Parsed)) : Prop
    extends Reads lines settings where
  proper : Py.Proper lines
  found : ∀ key i parsed, found.get? key = some (i, parsed) ↔
    ∃ line, LastAt (Setting key) lines i line ∧ parseSettingLine line = .ok (some parsed) ∧ parsed.key = key

def Row (found : Dict Chars (Nat × Parsed)) (before : Dict Chars Update) (i : Nat) (line line' : Chars) : Prop :=
  (∃ u ∈ before, ∃ l, Writes found u i l ∧ Terminated l line') ∨
    ((∀ u ∈ before, ∀ l, ¬Writes found u i l) ∧ Terminated line line')

def Added (u : Chars × Update) (line : Chars) : Prop :=
  ∃ semantic, u.2.normalize = .ok semantic ∧ settingKey u.1 = true ∧ line = addedLine u.1 semantic

def fresh (found : Dict Chars (Nat × Parsed)) (updates : Dict Chars Update) : Dict Chars Update :=
  updates.filter fun u => (found.get? u.1).isNone

structure Reached (lines : List Chars) (found : Dict Chars (Nat × Parsed)) (before : Dict Chars Update)
    (kept appended : List Chars) : Prop where
  length : kept.length = lines.length
  row : ∀ i line line', lines[i]? = some line → kept[i]? = some line' → Row found before i line line'
  appended : List.Forall₂ Added (fresh found before) appended

variable {lines : List Chars} {settings : Dict Chars Chars}

variable {i : Nat} {l : Chars}

theorem Source.written (h : Source lines settings found) (hw : Writes found u i l) :
    ∃ line parsed, LastAt (Setting u.1) lines i line ∧ parseSettingLine line = .ok (some parsed) ∧ parsed.key = u.1 ∧
      found.get? u.1 = some (i, parsed) := by
  cases hw with
  | @intro parsed _ _ _ hfound =>
    obtain ⟨line, hlast, hparsed, hkey⟩ := (h.found _ _ _).1 hfound
    exact ⟨line, parsed, hlast, hparsed, hkey, hfound⟩

theorem Source.index (h : Source lines settings found) (hw : Writes found u i l) :
    i < lines.length := by
  obtain ⟨line, -, hlast, -⟩ := h.written hw
  exact (List.getElem?_eq_some_iff.1 hlast.get).1

theorem Added.ended {line : Chars} (h : Added u line) : Ended line := by
  obtain ⟨semantic, -, -, rfl⟩ := h
  exact ended_newline _

variable {before : Dict Chars Update}

theorem Row.terminated {line line' line'' : Chars} (h : Row found before i line line')
    (hterm : Terminated line' line'') : Row found before i line line'' := by
  rcases h with ⟨u, hu, l, hw, hl⟩ | ⟨hnone, hline⟩
  · exact .inl ⟨u, hu, l, hw, hl.trans hterm⟩
  · exact .inr ⟨hnone, hline.trans hterm⟩

theorem Row.more {line line' : Chars} (h : Row found before i line line')
    (hu : ∀ l, ¬Writes found u i l) : Row found (before ++ [u]) i line line' := by
  rcases h with ⟨v, hv, l, hw, hl⟩ | ⟨hnone, hline⟩
  · exact .inl ⟨v, List.mem_append_left _ hv, l, hw, hl⟩
  · refine .inr ⟨fun v hv => ?_, hline⟩
    rcases List.mem_append.1 hv with hv | hv
    · exact hnone v hv
    · obtain rfl := List.mem_singleton.1 hv
      exact hu

theorem Writes.index_eq {i j : Nat} {l m : Chars} (h : Writes found u i l) (h' : Writes found u j m) : i = j := by
  cases h with
  | intro hfound =>
    cases h' with
    | intro hfound' => exact congrArg (·.1) (Option.some.inj (hfound.symm.trans hfound'))

theorem not_writes_same {index : Nat} {parsed : Parsed} {current : Chars} {wasQuoted : Bool}
    (hfound : found.get? u.1 = some (index, parsed)) (hnormal : u.2.normalize = .ok current)
    (hcurrent : decodeValue parsed.rawValue = .ok (current, wasQuoted)) (i : Nat) (l : Chars) : ¬Writes found u i l := by
  rintro ⟨hfound', hnormal', hcurrent', hne⟩
  obtain ⟨-, rfl⟩ := Prod.mk.inj (Option.some.inj (hfound.symm.trans hfound'))
  obtain ⟨rfl, -⟩ := Prod.mk.inj (Except.ok.inj (hcurrent.symm.trans hcurrent'))
  exact hne (Except.ok.inj (hnormal'.symm.trans hnormal))

theorem not_writes_absent (hfound : found.get? u.1 = none) (i : Nat) (l : Chars) : ¬Writes found u i l := by
  rintro ⟨hfound', -, -, -⟩
  rw [hfound] at hfound'
  cases hfound'

theorem forall₂_get {α β : Type} {R : α → β → Prop} {xs : List α} {ys : List β} (h : List.Forall₂ R xs ys) {y : β}
    (hy : ys[i]? = some y) : ∃ x, xs[i]? = some x ∧ R x y := by
  induction h generalizing i with
  | nil => simp at hy
  | cons hxy hrest ih =>
    cases i with
    | zero => exact ⟨_, rfl, by simpa using (Option.some.inj hy) ▸ hxy⟩
    | succ i => exact ih hy

theorem Reached.ended {kept appended : List Chars} (h : Reached lines found before kept appended) :
    ∀ line ∈ appended, Ended line := by
  intro line hline
  obtain ⟨i, hi⟩ := List.mem_iff_getElem?.1 hline
  obtain ⟨u, -, hu⟩ := forall₂_get h.appended hi
  exact hu.ended

theorem Reached.step (hsource : Source lines settings found) {kept appended : List Chars}
    (h : Reached lines found before kept appended) {mid : List Chars}
    (hstep : Step found u (kept ++ appended) mid) :
    ∃ kept' appended', mid = kept' ++ appended' ∧ Reached lines found (before ++ [u]) kept' appended' := by
  have hfresh : ∀ {r}, found.get? u.1 = some r → fresh found (before ++ [u]) = fresh found before := by
    intro r hr
    simp [fresh, List.filter_append, hr]
  cases hstep with
  | same hfound hnormal hcurrent =>
    refine ⟨kept, appended, rfl, h.length, fun i line line' hline hline' => ?_, by rw [hfresh hfound]; exact h.appended⟩
    exact (h.row i line line' hline hline').more (not_writes_same hfound hnormal hcurrent i)
  | @written i l hw =>
    obtain ⟨_, _, _, _, _, hfound⟩ := hsource.written hw
    have hi : i < kept.length := h.length ▸ hsource.index hw
    refine ⟨kept.set i l, appended, by rw [List.set_append_left _ _ hi], by rw [List.length_set, h.length], ?_,
      by rw [hfresh hfound]; exact h.appended⟩
    intro j line line' hline hline'
    by_cases hij : i = j
    · subst hij
      rw [List.getElem?_set_self hi] at hline'
      obtain rfl := Option.some.inj hline'
      exact .inl ⟨u, List.mem_append_right _ List.mem_cons_self, l, hw, terminated_refl l⟩
    · rw [List.getElem?_set_ne hij] at hline'
      exact (h.row j line line' hline hline').more fun m hm => hij (hw.index_eq hm)
  | @appended semantic hfound hkey hnormal =>
    obtain ⟨kept', hterm, hrows⟩ := terminate_appended kept appended h.ended
    refine ⟨kept', appended ++ [addedLine u.1 semantic], by rw [hterm, List.append_assoc], ?_, ?_, ?_⟩
    · rw [← hrows.length_eq, h.length]
    · intro j line line' hline hline'
      obtain ⟨mid, hmid, hends⟩ := forall₂_get hrows hline'
      exact ((h.row j line mid hline hmid).terminated hends).more (not_writes_absent hfound j)
    · have happended : fresh found (before ++ [u]) = fresh found before ++ [u] := by
        simp [fresh, List.filter_append, hfound]
      rw [happended]
      exact List.rel_append h.appended (.cons ⟨semantic, hnormal, hkey, rfl⟩ .nil)

variable {lines' : List Chars}

theorem applyUpdates_reached (hsource : Source lines settings found)
    (h : applyUpdates found updates lines = .ok lines') :
    ∃ kept appended, lines' = kept ++ appended ∧ Reached lines found updates kept appended := by
  refine applyUpdates_run h (P := fun before mid => ∃ kept appended, mid = kept ++ appended ∧ Reached lines found before kept appended)
    ?_ ?_
  · refine ⟨lines, [], (List.append_nil lines).symm, rfl, fun i line line' hline hline' => ?_, .nil⟩
    obtain rfl := Option.some.inj (hline.symm.trans hline')
    exact .inr ⟨by simp, terminated_refl line⟩
  · rintro before u after mid mid' - ⟨kept, appended, rfl, hbefore⟩ hu
    exact hbefore.step hsource hu

/-! ## Lines that lose their end -/

def Unbroken (lines : List Chars) : Prop := ∀ i line, i + 1 < lines.length → lines[i]? = some line → Ended line

theorem terminate_get (hi : i + 1 < lines.length) : (terminate lines)[i]? = lines[i]? := by
  rcases List.eq_nil_or_concat lines with rfl | ⟨front, last, rfl⟩
  · rfl
  · rw [List.concat_eq_append] at hi ⊢
    have hfront : i < front.length := by simpa using hi
    rw [terminate_append, List.getElem?_append_left hfront, List.getElem?_append_left hfront]

theorem terminate_ended (h : Unbroken lines) : ∀ line ∈ terminate lines, Ended line := by
  rcases List.eq_nil_or_concat lines with rfl | ⟨front, last, rfl⟩
  · simp [terminate]
  · rw [List.concat_eq_append] at h ⊢
    rw [terminate_append]
    intro line hline
    rcases List.mem_append.1 hline with hline | hline
    · obtain ⟨i, hi⟩ := List.mem_iff_getElem?.1 hline
      have hfront : i < front.length := (List.getElem?_eq_some_iff.1 hi).1
      exact h i line (by simpa using hfront) (by rwa [List.getElem?_append_left hfront])
    · obtain rfl := List.mem_singleton.1 hline
      split
      · assumption
      · exact ended_newline last

theorem Unbroken.set (h : Unbroken lines) (hl : i + 1 < lines.length → Ended l) :
    Unbroken (lines.set i l) := by
  intro j line hj hline
  rw [List.length_set] at hj
  by_cases hij : i = j
  · subst hij
    rw [List.getElem?_set_self (by omega)] at hline
    obtain rfl := Option.some.inj hline
    exact hl hj
  · rw [List.getElem?_set_ne hij] at hline
    exact h j line hj hline

def EndsKept (lines : List Chars) (found : Dict Chars (Nat × Parsed)) (updates : Dict Chars Update) : Prop :=
  ∀ before u after, updates = before ++ u :: after → ∀ i l, Writes found u i l → ¬Ended l →
    i + 1 = lines.length ∧ fresh found before = []

theorem Reached.lines_length {kept appended : List Chars}
    (h : Reached lines found before kept appended) : (kept ++ appended).length = lines.length + (fresh found before).length := by
  rw [List.length_append, h.length, h.appended.length_eq]

theorem applyUpdates_unbroken (hsource : Source lines settings found)
    (h : applyUpdates found updates lines = .ok lines') (hends : EndsKept lines found updates) (hstart : Unbroken lines) :
    Unbroken lines' := by
  have hrun : (∃ kept appended, lines' = kept ++ appended ∧ Reached lines found updates kept appended) ∧ Unbroken lines' := by
    refine applyUpdates_run h (P := fun before mid =>
      (∃ kept appended, mid = kept ++ appended ∧ Reached lines found before kept appended) ∧ Unbroken mid) ?_ ?_
    · exact ⟨applyUpdates_reached hsource (show applyUpdates found [] lines = .ok lines from rfl), hstart⟩
    · rintro before u after mid mid' hupdates ⟨⟨kept, appended, rfl, hbefore⟩, hmid⟩ hu
      refine ⟨hbefore.step hsource hu, ?_⟩
      cases hu with
      | same => exact hmid
      | @written i l hw =>
        apply hmid.set
        intro hi
        by_contra hl
        obtain ⟨hlast, hnone⟩ := hends before u after hupdates i l hw hl
        rw [hbefore.lines_length, hnone] at hi
        simp only [List.length_nil] at hi
        omega
      | appended =>
        intro j line hj hline
        rw [List.length_append, List.length_singleton] at hj
        rw [List.getElem?_append_left (by omega)] at hline
        exact terminate_ended hmid line (List.mem_of_getElem? hline)
  exact hrun.2

def BrokenAt (i : Nat) (lines : List Chars) : Prop := i + 1 < lines.length ∧ ∃ line, lines[i]? = some line ∧ ¬Ended line

theorem Source.writes_inj (h : Source lines settings found) {u v : Chars × Update} {l m : Chars}
    (hu : Writes found u i l) (hv : Writes found v i m) : u.1 = v.1 := by
  obtain ⟨line, parsed, hlast, hparsed, hkey, -⟩ := h.written hu
  obtain ⟨line', parsed', hlast', hparsed', hkey', -⟩ := h.written hv
  obtain rfl := Option.some.inj (hlast.get.symm.trans hlast'.get)
  obtain rfl := Option.some.inj (Except.ok.inj (hparsed.symm.trans hparsed'))
  exact hkey.symm.trans hkey'

theorem Writes.unique {i j : Nat} {l m : Chars} (h : Writes found u i l) (h' : Writes found u j m) :
    i = j ∧ l = m := by
  cases h with
  | intro hfound hnormal hcurrent =>
    cases h' with
    | intro hfound' hnormal' hcurrent' =>
      obtain ⟨rfl, rfl⟩ := Prod.mk.inj (Option.some.inj (hfound.symm.trans hfound'))
      obtain ⟨-, rfl⟩ := Prod.mk.inj (Except.ok.inj (hcurrent.symm.trans hcurrent'))
      obtain rfl := Except.ok.inj (hnormal.symm.trans hnormal')
      exact ⟨rfl, rfl⟩

theorem BrokenAt.step {mid mid' : List Chars} (h : BrokenAt i mid) (hstep : Step found u mid mid')
    (hu : ∀ l, ¬Writes found u i l) : BrokenAt i mid' := by
  obtain ⟨hi, line, hline, hopen⟩ := h
  cases hstep with
  | same => exact ⟨hi, line, hline, hopen⟩
  | @written j l hw =>
    have hij : j ≠ i := fun hji => hu l (hji ▸ hw)
    exact ⟨by rwa [List.length_set], line, by rwa [List.getElem?_set_ne hij], hopen⟩
  | appended =>
    have hlength : (terminate mid).length = mid.length := (terminate_spec mid).length_eq.symm
    refine ⟨by rw [List.length_append, hlength]; omega, line, ?_, hopen⟩
    rw [List.getElem?_append_left (by omega), terminate_get hi, hline]

theorem applyUpdates_broken (hsource : Source lines settings found) (hkeys : updates.keys.Nodup)
    (h : applyUpdates found updates lines = .ok lines') {before after : Dict Chars Update}
    (hupdates : updates = before ++ u :: after) (hw : Writes found u i l)
    (hopen : ¬Ended l) (hplace : ¬(i + 1 = lines.length ∧ fresh found before = [])) : BrokenAt i lines' := by
  have hrun : (∃ kept appended, lines' = kept ++ appended ∧ Reached lines found updates kept appended) ∧
      ∀ more, updates = before ++ u :: more → BrokenAt i lines' := by
    refine applyUpdates_run h (P := fun pre mid =>
      (∃ kept appended, mid = kept ++ appended ∧ Reached lines found pre kept appended) ∧
        ∀ more, pre = before ++ u :: more → BrokenAt i mid) ?_ ?_
    · exact ⟨applyUpdates_reached hsource (show applyUpdates found [] lines = .ok lines from rfl), by simp⟩
    · rintro pre v rest mid mid' hpre ⟨⟨kept, appended, rfl, hbefore⟩, hmid⟩ hv
      refine ⟨hbefore.step hsource hv, fun more hmore => ?_⟩
      rcases List.eq_nil_or_concat more with rfl | ⟨more, last, rfl⟩
      · -- This is the update that writes the line.
        obtain ⟨rfl, hvu⟩ := List.append_inj' hmore rfl
        obtain rfl := (List.cons.inj hvu).1
        have hi := hsource.index hw
        have hlength := hbefore.lines_length
        cases hv with
        | same hfound hnormal hcurrent => exact absurd hw (not_writes_same hfound hnormal hcurrent i l)
        | appended hfound => exact absurd hw (not_writes_absent hfound i l)
        | @written j m hw' =>
          obtain ⟨rfl, rfl⟩ := hw.unique hw'
          refine ⟨?_, l, List.getElem?_set_self (by omega), hopen⟩
          rw [List.length_set, hlength]
          by_contra hlast
          have hnone : (fresh found pre).length = 0 := by omega
          exact hplace ⟨by omega, List.length_eq_zero_iff.1 hnone⟩
      · rw [List.concat_eq_append, ← List.cons_append, ← List.append_assoc] at hmore
        obtain ⟨hmore', hlast⟩ := List.append_inj' hmore rfl
        obtain rfl := (List.cons.inj hlast).1
        apply (hmid more hmore').step hv
        intro m hm
        have hsame : u.1 = v.1 := hsource.writes_inj hw hm
        rw [hpre, hmore', Dict.keys_append, Dict.keys_append, List.nodup_append] at hkeys
        refine hkeys.2.2 u.1 ?_ v.1 List.mem_cons_self hsame
        simp [Dict.keys]
  exact hrun.2 after hupdates

end Dumb.Postgres.Conf
