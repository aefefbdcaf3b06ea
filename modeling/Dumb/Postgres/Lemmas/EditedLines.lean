import Dumb.Postgres.Lemmas.Edits

/-!
# The lines of an edited text

Where no line loses its end, the lines after the updates are those of the new text.
-/

namespace Dumb.Postgres.Conf

open Py

variable {lines : List Chars} {settings : Dict Chars Chars} {found : Dict Chars (Nat × Parsed)} {updates : Dict Chars Update}

/-! ## Lines that are written -/

theorem keyChar_inner {c : Char} (h : keyChar c = true) : endsFileLine c = false := by
  have hbare := keyChar_bare h
  simp [endsFileLine, bareChar_ne hbare (show ('\n' : Char).toNat < 43 ∨ _ by decide),
    bareChar_ne hbare (show ('\r' : Char).toNat < 43 ∨ _ by decide)]

theorem isBlank_inner {c : Char} (h : isBlank c = true) : endsFileLine c = false := by
  simp only [isBlank, Bool.or_eq_true, decide_eq_true_eq] at h
  rcases h with rfl | rfl <;> decide

theorem settingKey_inner {key : Chars} (h : settingKey key = true) : key ≠ [] ∧ Inner key := by
  cases key with
  | nil => cases h
  | cons c rest =>
    rw [settingKey, Bool.and_eq_true, List.all_eq_true] at h
    refine ⟨by simp, fun d hd => ?_⟩
    rcases List.mem_cons.1 hd with rfl | hd
    · exact keyChar_inner (by simp [keyChar, h.1])
    · exact keyChar_inner (h.2 d hd)

theorem separator_inner {separator : Chars} {equals : Bool} (h : Separator separator equals) : Inner separator := by
  cases equals with
  | true =>
    obtain ⟨left, right, rfl, hleft, hright⟩ := h
    intro c hc
    rcases List.mem_append.1 hc with hc | hc
    · exact isBlank_inner (hleft c hc)
    · rcases List.mem_cons.1 hc with rfl | hc
      · decide
      · exact isBlank_inner (hright c hc)
  | false => exact fun c hc => isBlank_inner (h.2 c hc)

theorem inner_append {a b : Chars} (ha : Inner a) (hb : Inner b) : Inner (a ++ b) := by
  intro c hc
  rcases List.mem_append.1 hc with hc | hc
  · exact ha c hc
  · exact hb c hc

def Parsed.front (parsed : Parsed) : Chars := parsed.indent ++ parsed.key ++ parsed.separator

theorem Parsed.withValue_eq (parsed : Parsed) (formatted : Chars) :
    parsed.withValue parsed.key formatted = parsed.front ++ (formatted ++ (parsed.suffix ++ parsed.newline)) := by
  simp [Parsed.withValue, Parsed.front]

theorem Parsed.Wf.front_inner {parsed : Parsed} (h : parsed.Wf) : Inner parsed.front ∧ parsed.front ≠ [] := by
  obtain ⟨hne, hkey⟩ := settingKey_inner h.key
  obtain ⟨equals, hsep⟩ := h.separator
  refine ⟨inner_append (inner_append (fun c hc => isBlank_inner (h.indent c hc)) hkey) (separator_inner hsep), ?_⟩
  simp [Parsed.front, hne]

structure Written (lines : List Chars) (settings : Dict Chars Chars) (u : Chars × Update) (i : Nat) (l : Chars) (line : Chars)
    (parsed : Parsed) (semantic : Chars) (wasQuoted : Bool) : Prop where
  last : LastAt (Setting u.1) lines i line
  cut : parseSettingLine line = .ok (some parsed)
  key : parsed.key = u.1
  normal : u.2.normalize = .ok semantic
  changed : settings.get? u.1 ≠ some semantic
  text : l = parsed.withValue parsed.key (formatValue semantic wasQuoted)

theorem Writes.written {u : Chars × Update} {i : Nat} {l : Chars} (h : Writes found u i l) (hsource : Source lines settings found) :
    ∃ line parsed semantic wasQuoted, Written lines settings u i l line parsed semantic wasQuoted := by
  obtain ⟨line, parsed, hlast, hparsed, hkey, hfound⟩ := hsource.written h
  cases h with
  | @intro parsed' semantic current wasQuoted hfound' hnormal hcurrent hne =>
    obtain ⟨-, rfl⟩ := Prod.mk.inj (Option.some.inj (hfound.symm.trans hfound'))
    refine ⟨line, parsed, semantic, wasQuoted, hlast, hparsed, hkey, hnormal, ?_, by rw [hkey]⟩
    have hread : settings.get? u.1 = some current := by
      rw [hsource.settings]
      refine ⟨i, line, hlast, ?_⟩
      rw [readLine_of_parsed hparsed, hcurrent, hkey]
      rfl
    rw [hread]
    exact fun h => hne (Option.some.inj h).symm

section

variable {u : Chars × Update} {i : Nat} {l line : Chars} {parsed : Parsed} {semantic : Chars} {wasQuoted : Bool}

theorem Written.formatted (h : Written lines settings u i l line parsed semantic wasQuoted) :
    Inner (formatValue semantic wasQuoted) ∧ formatValue semantic wasQuoted ≠ [] := by
  obtain ⟨c, rest, hhead, -, -⟩ := formatValue_head semantic wasQuoted
  exact ⟨formatValue_inner (normalize_spec h.normal).inner wasQuoted, by simp [hhead]⟩

theorem Written.piece (h : Written lines settings u i l line parsed semantic wasQuoted) (hproper : Py.Proper lines) :
    Piece l ∧ l ≠ [] ∧ l.head? ≠ some '\n' := by
  obtain ⟨hwf, hline⟩ := parseSettingLine_spec h.cut
  obtain ⟨hpiece, -⟩ := hproper.pieces line (List.mem_of_getElem? h.last.get)
  obtain ⟨hinner, hne⟩ := hwf.front_inner
  rw [hline, Parsed.withValue_eq, ← List.append_assoc] at hpiece
  rw [h.text, Parsed.withValue_eq]
  refine ⟨(hpiece.tail.prepend h.formatted.1).prepend hinner, by simp [hne], ?_⟩
  rw [List.head?_append_of_ne_nil _ hne]
  intro hhead
  exact absurd (hinner _ (List.mem_of_head? hhead)) (by decide)

theorem Written.carriage (h : Written lines settings u i l line parsed semantic wasQuoted) (hlast : l.getLast? = some '\r') :
    line.getLast? = some '\r' := by
  obtain ⟨-, hline⟩ := parseSettingLine_spec h.cut
  obtain ⟨hinner, hne⟩ := h.formatted
  rw [h.text, Parsed.withValue_eq] at hlast
  rw [hline, Parsed.withValue_eq]
  cases htail : (parsed.suffix ++ parsed.newline).getLast? with
  | none =>
    rw [List.getLast?_eq_none_iff.1 htail, List.append_nil, List.getLast?_append_of_ne_nil _ hne] at hlast
    exact absurd (hinner _ (List.mem_of_getLast? hlast)) (by decide)
  | some c =>
    rw [List.getLast?_append, List.getLast?_append, htail] at hlast
    rw [List.getLast?_append, List.getLast?_append, htail]
    exact hlast

theorem Written.ended_iff (h : Written lines settings u i l line parsed semantic wasQuoted) :
    ¬Ended l ↔ parsed.newline = [] ∧ parsed.suffix.getLast? ≠ some '\r' := by
  obtain ⟨hwf, -⟩ := parseSettingLine_spec h.cut
  obtain ⟨hinner, hne⟩ := h.formatted
  rw [h.text, Parsed.withValue_eq, Ended]
  have hchomped := hwf.chomped
  generalize hnewline : parsed.newline = newline at hchomped ⊢
  cases hchomped with
  | crlf => simp
  | lf => simp
  | none hopen =>
    rw [List.append_nil]
    cases hsuffix : parsed.suffix.getLast? with
    | none =>
      rw [List.getLast?_eq_none_iff.1 hsuffix, List.append_nil, List.getLast?_append_of_ne_nil _ hne]
      have hplain : ∀ c, (formatValue semantic wasQuoted).getLast? = some c → endsFileLine c = false :=
        fun c hc => hinner c (List.mem_of_getLast? hc)
      refine ⟨fun _ => ⟨rfl, by simp⟩, ?_⟩
      rintro - (hlast | hlast)
      · exact absurd (hplain _ hlast) (by decide)
      · exact absurd (hplain _ hlast) (by decide)
    | some c =>
      have hc : c ≠ '\n' := by
        rintro rfl
        rw [List.getLast?_append, hsuffix] at hopen
        exact hopen rfl
      rw [List.getLast?_append, List.getLast?_append, hsuffix]
      simp [hc]

end

def addedParts (key formatted : Chars) : Parsed := ⟨[], key, [' ', '=', ' '], formatted, [], ['\n']⟩

theorem addedLine_eq (key semantic : Chars) :
    addedLine key semantic = (addedParts key (formatValue semantic false)).withValue key (formatValue semantic false) := by
  simp [addedLine, addedParts, Parsed.withValue]

theorem addedParts_wf {key semantic : Chars} (hkey : settingKey key = true) (hinner : Inner semantic) :
    (addedParts key (formatValue semantic false)).Wf := by
  obtain ⟨c, rest, hhead, -, -⟩ := formatValue_head semantic false
  have hformatted := formatValue_inner hinner false
  refine ⟨by simp [addedParts], hkey, ⟨true, [' '], [' '], rfl, by simp [isBlank], by simp [isBlank]⟩, ?_, ?_, ?_⟩
  · rw [addedParts, hhead]
    simp
  · exact ⟨[], [], rfl, by simp, .inl rfl⟩
  · apply Chomped.lf
    rw [addedParts, List.append_nil, List.getLast?_append_of_ne_nil _ (by rw [hhead]; simp)]
    intro hlast
    exact absurd (hformatted _ (List.mem_of_getLast? hlast)) (by decide)

theorem Added.piece {u : Chars × Update} {line : Chars} (h : Added u line) : Piece line ∧ line ≠ [] ∧ line.head? ≠ some '\n' := by
  obtain ⟨semantic, hnormal, hkey, rfl⟩ := h
  obtain ⟨hne, hinner⟩ := settingKey_inner hkey
  have hformatted := formatValue_inner (normalize_spec hnormal).inner false
  refine ⟨piece_newline (inner_append (inner_append hinner (by decide)) hformatted), by simp [addedLine], ?_⟩
  rw [addedLine, List.append_assoc, List.append_assoc, List.head?_append_of_ne_nil _ hne]
  intro hhead
  exact absurd (hinner _ (List.mem_of_head? hhead)) (by decide)

/-! ## The lines of the new text -/

theorem Terminated.piece {line line' : Chars} (h : Terminated line line') (hline : Piece line) (hne : line ≠ []) :
    Piece line' ∧ line' ≠ [] ∧ line'.head? = line.head? := by
  rcases h with rfl | ⟨hopen, rfl⟩
  · exact ⟨hline, hne, rfl⟩
  · have hinner := (ended_of_piece hline).resolve_right hopen
    exact ⟨piece_newline hinner, by simp, List.head?_append_of_ne_nil _ hne⟩

theorem Terminated.carriage {line line' : Chars} (h : Terminated line line') (hlast : line'.getLast? = some '\r') : line' = line := by
  rcases h with rfl | ⟨-, rfl⟩
  · rfl
  · simp at hlast

section

variable {before : Dict Chars Update} {kept appended : List Chars} {i : Nat} {line line' : Chars}

theorem Source.row (hsource : Source lines settings found) (hrow : Row found before i line line') (hline : lines[i]? = some line) :
    Piece line' ∧ line' ≠ [] ∧ (line'.head? = some '\n' → line.head? = some '\n') ∧
      (line'.getLast? = some '\r' → line.getLast? = some '\r') := by
  obtain ⟨hpiece, hne⟩ := hsource.proper.pieces line (List.mem_of_getElem? hline)
  rcases hrow with ⟨u, -, l, hw, hterm⟩ | ⟨-, hterm⟩
  · obtain ⟨line₀, parsed, semantic, wasQuoted, hwritten⟩ := hw.written hsource
    obtain rfl := Option.some.inj (hline.symm.trans hwritten.last.get)
    obtain ⟨hl, hlne, hhead⟩ := hwritten.piece hsource.proper
    obtain ⟨hline', hne', hsame⟩ := hterm.piece hl hlne
    refine ⟨hline', hne', ?_, fun hlast => ?_⟩
    · rw [hsame]
      exact fun h => absurd h hhead
    · rw [hterm.carriage hlast] at hlast
      exact hwritten.carriage hlast
  · obtain ⟨hline', hne', hsame⟩ := hterm.piece hpiece hne
    refine ⟨hline', hne', by rw [hsame]; exact id, fun hlast => ?_⟩
    rwa [hterm.carriage hlast] at hlast

theorem Reached.proper (hsource : Source lines settings found) (h : Reached lines found before kept appended)
    (hunbroken : Unbroken (kept ++ appended)) : Py.Proper (kept ++ appended) := by
  have hplace : ∀ {i line'}, (kept ++ appended)[i]? = some line' →
      (∃ line, lines[i]? = some line ∧ kept[i]? = some line' ∧ Row found before i line line') ∨
        ∃ u, Added u line' := by
    intro i line' hline'
    by_cases hi : i < kept.length
    · rw [List.getElem?_append_left hi] at hline'
      have hin : i < lines.length := h.length ▸ hi
      exact .inl ⟨lines[i], List.getElem?_eq_getElem hin, hline', h.row i _ line' (List.getElem?_eq_getElem hin) hline'⟩
    · rw [List.getElem?_append_right (Nat.not_lt.1 hi)] at hline'
      obtain ⟨u, -, hu⟩ := forall₂_get h.appended hline'
      exact .inr ⟨u, hu⟩
  constructor
  · intro line' hline'
    obtain ⟨i, hi⟩ := List.mem_iff_getElem?.1 hline'
    rcases hplace hi with ⟨line, hline, -, hrow⟩ | ⟨u, hu⟩
    · obtain ⟨hpiece, hne, -, -⟩ := hsource.row hrow hline
      exact ⟨hpiece, hne⟩
    · exact ⟨hu.piece.1, hu.piece.2.1⟩
  · rw [List.isChain_iff_getElem]
    intro i hi
    have hget : (kept ++ appended)[i]? = some (kept ++ appended)[i] := List.getElem?_eq_getElem _
    have hnext : (kept ++ appended)[i + 1]? = some (kept ++ appended)[i + 1] := List.getElem?_eq_getElem _
    refine ⟨hunbroken i _ hi hget, ?_⟩
    rintro ⟨hlast, hhead⟩
    rcases hplace hnext with ⟨next, hnextLine, -, hrow⟩ | ⟨u, hu⟩
    · rcases hplace hget with ⟨line, hline, -, hrow'⟩ | ⟨u, hu⟩
      · obtain ⟨-, -, hfirst, -⟩ := hsource.row hrow hnextLine
        obtain ⟨-, -, -, hcarriage⟩ := hsource.row hrow' hline
        obtain ⟨hin, rfl⟩ := List.getElem?_eq_some_iff.1 hnextLine
        obtain ⟨hin', rfl⟩ := List.getElem?_eq_some_iff.1 hline
        exact (hsource.proper.follows.getElem i hin).2 ⟨hcarriage hlast, hfirst hhead⟩
      · obtain ⟨semantic, -, -, heq⟩ := hu
        rw [heq, addedLine, List.getLast?_concat] at hlast
        exact absurd hlast (by decide)
    · exact hu.piece.2.2 hhead

end

/-! ## The settings of the new text -/

theorem Terminated.read {line line' : Chars} (h : Terminated line line') : readLine line' = readLine line := by
  rcases h with rfl | ⟨hopen, rfl⟩
  · rfl
  · exact readLine_terminated hopen

theorem update_unique (hkeys : updates.keys.Nodup) {u v : Chars × Update} (hu : u ∈ updates) (hv : v ∈ updates) (h : u.1 = v.1) :
    u = v := by
  have hu' := Dict.get?_of_mem hkeys hu
  have hv' := Dict.get?_of_mem hkeys hv
  rw [h] at hu'
  exact Prod.ext h (Option.some.inj (hu'.symm.trans hv'))

theorem Written.read {u : Chars × Update} {i : Nat} {l line : Chars} {parsed : Parsed} {semantic : Chars} {wasQuoted : Bool}
    (h : Written lines settings u i l line parsed semantic wasQuoted) {read : Option (Chars × Chars)} (hread : readLine l = .ok read) :
    ∃ got, read = some (u.1, got) ∧ (clean semantic = true → got = semantic) ∧
      (clean semantic = false → got ≠ semantic ∧ semantic.getLast? = some '\\') := by
  obtain ⟨hwf, -⟩ := parseSettingLine_spec h.cut
  have hinner := (normalize_spec h.normal).inner
  rw [h.text] at hread
  obtain ⟨got, hgot, hunclean⟩ := readLine_format hwf hinner hread
  refine ⟨got, h.key ▸ hgot, fun hclean => ?_, hunclean⟩
  rw [readLine_clean hwf hinner hclean, hgot] at hread
  simpa using (Except.ok.inj hread).symm

theorem addedLine_read {u : Chars × Update} {semantic : Chars} (hnormal : u.2.normalize = .ok semantic)
    (hkey : settingKey u.1 = true) {read : Option (Chars × Chars)} (hread : readLine (addedLine u.1 semantic) = .ok read) :
    ∃ got, read = some (u.1, got) ∧ (clean semantic = true → got = semantic) ∧
      (clean semantic = false → got ≠ semantic ∧ semantic.getLast? = some '\\') := by
  have hinner := (normalize_spec hnormal).inner
  have hwf := addedParts_wf hkey hinner
  rw [addedLine_eq] at hread
  obtain ⟨got, hgot, hunclean⟩ := readLine_format hwf hinner hread
  refine ⟨got, hgot, fun hclean => ?_, hunclean⟩
  have hclean' : readLine ((addedParts u.1 (formatValue semantic false)).withValue u.1 (formatValue semantic false)) = _ :=
    readLine_clean hwf hinner hclean false
  rw [hclean', hgot] at hread
  simpa using (Except.ok.inj hread).symm

theorem applyUpdates_steps {lines' : List Chars} (h : applyUpdates found updates lines = .ok lines') :
    ∀ u ∈ updates, ∃ mid mid', Step found u mid mid' := by
  refine applyUpdates_run h (P := fun before _ => ∀ u ∈ before, ∃ mid mid', Step found u mid mid') (by simp) ?_
  intro before u after mid mid' _ hbefore hu v hv
  rcases List.mem_append.1 hv with hv | hv
  · exact hbefore v hv
  · obtain rfl := List.mem_singleton.1 hv
    exact ⟨mid, mid', hu⟩

inductive Outcome (settings settings' : Dict Chars Chars) (u : Chars × Update) : Prop
  | same {semantic : Chars} (hnormal : u.2.normalize = .ok semantic) (hold : settings.get? u.1 = some semantic)
      (hnew : settings'.get? u.1 = some semantic)
  | changed {semantic got : Chars} (hnormal : u.2.normalize = .ok semantic) (hold : settings.get? u.1 ≠ some semantic)
      (hnew : settings'.get? u.1 = some got) (hclean : clean semantic = true → got = semantic)
      (hunclean : clean semantic = false → got ≠ semantic ∧ semantic.getLast? = some '\\')

section

variable {kept appended : List Chars}

theorem Source.row_setting (hsource : Source lines settings found) {i : Nat} {line line' : Chars}
    (hrow : Row found updates i line line') (hline : lines[i]? = some line) (hread : ∃ read, readLine line' = .ok read) (key : Chars) :
    Setting key line' ↔ Setting key line := by
  rcases hrow with ⟨u, -, l, hw, hterm⟩ | ⟨-, hterm⟩
  · obtain ⟨line₀, parsed, semantic, wasQuoted, hwritten⟩ := hw.written hsource
    obtain rfl := Option.some.inj (hline.symm.trans hwritten.last.get)
    obtain ⟨read, hread⟩ := hread
    rw [hterm.read] at hread
    obtain ⟨got, rfl, -, -⟩ := hwritten.read hread
    obtain ⟨value, hvalue⟩ := hwritten.last.holds
    constructor
    · intro hkey
      rw [Setting, hterm.read] at hkey
      obtain rfl := setting_unique hread hkey
      exact ⟨value, hvalue⟩
    · intro hkey
      obtain rfl := setting_unique hvalue hkey
      exact ⟨got, by rw [hterm.read, hread]⟩
  · rw [Setting, Setting, hterm.read]

theorem Reached.line (h : Reached lines found updates kept appended) {i : Nat} {line : Chars} (hline : lines[i]? = some line) :
    ∃ line', kept[i]? = some line' ∧ (kept ++ appended)[i]? = some line' ∧ Row found updates i line line' := by
  have hi : i < kept.length := h.length ▸ (List.getElem?_eq_some_iff.1 hline).1
  have hget : kept[i]? = some kept[i] := List.getElem?_eq_getElem hi
  exact ⟨kept[i], hget, by rw [List.getElem?_append_left hi, hget], h.row i line _ hline hget⟩

theorem Reached.place (h : Reached lines found updates kept appended) {i : Nat} {line' : Chars}
    (hline : (kept ++ appended)[i]? = some line') :
    (∃ line, lines[i]? = some line ∧ Row found updates i line line') ∨
      ∃ j u, i = lines.length + j ∧ (fresh found updates)[j]? = some u ∧ Added u line' := by
  by_cases hi : i < kept.length
  · rw [List.getElem?_append_left hi] at hline
    have hin : i < lines.length := h.length ▸ hi
    exact .inl ⟨lines[i], List.getElem?_eq_getElem hin, h.row i _ line' (List.getElem?_eq_getElem hin) hline⟩
  · rw [List.getElem?_append_right (Nat.not_lt.1 hi)] at hline
    obtain ⟨u, hu, hadded⟩ := forall₂_get h.appended hline
    exact .inr ⟨i - kept.length, u, by have := h.length; omega, hu, hadded⟩

theorem Added.setting {u : Chars × Update} {line key : Chars} (h : Added u line) (hkey : Setting key line) : key = u.1 := by
  obtain ⟨semantic, hnormal, hname, rfl⟩ := h
  obtain ⟨value, hvalue⟩ := hkey
  obtain ⟨got, hgot, -, -⟩ := addedLine_read hnormal hname hvalue
  simpa using congrArg (·.1) (Option.some.inj hgot)

variable {key : Chars}

theorem Reached.last_row (h : Reached lines found updates kept appended) (hsource : Source lines settings found)
    (hread : Readable (kept ++ appended)) (hkey : ∀ u ∈ fresh found updates, u.1 ≠ key) {i : Nat} {line : Chars}
    (hlast : LastAt (Setting key) lines i line) :
    ∃ line', Row found updates i line line' ∧ LastAt (Setting key) (kept ++ appended) i line' := by
  obtain ⟨line', -, hget, hrow⟩ := h.line hlast.get
  refine ⟨line', hrow, hget, ?_, ?_⟩
  · exact (hsource.row_setting hrow hlast.get (hread line' (List.mem_of_getElem? hget)) key).2 hlast.holds
  · intro j next hj hnext hsetting
    rcases h.place hnext with ⟨line₂, hline₂, hrow₂⟩ | ⟨k, u, -, hu, hadded⟩
    · apply hlast.last j line₂ hj hline₂
      exact (hsource.row_setting hrow₂ hline₂ (hread next (List.mem_of_getElem? hnext)) key).1 hsetting
    · exact hkey u (List.mem_of_getElem? hu) (hadded.setting hsetting).symm

theorem Reached.last_old (h : Reached lines found updates kept appended) (hsource : Source lines settings found)
    (hread : Readable (kept ++ appended)) (hkey : ∀ u ∈ fresh found updates, u.1 ≠ key) {i : Nat} {line' : Chars}
    (hlast : LastAt (Setting key) (kept ++ appended) i line') :
    ∃ line, Row found updates i line line' ∧ LastAt (Setting key) lines i line := by
  rcases h.place hlast.get with ⟨line, hline, hrow⟩ | ⟨k, u, -, hu, hadded⟩
  · have hsetting := (hsource.row_setting hrow hline (hread line' (List.mem_of_getElem? hlast.get)) key).1 hlast.holds
    obtain ⟨j, line₂, hlast₂⟩ := exists_lastAt (List.mem_of_getElem? hline) hsetting
    obtain ⟨line₂', hrow₂, hlast₂'⟩ := h.last_row hsource hread hkey hlast₂
    obtain ⟨rfl, rfl⟩ := hlast.unique hlast₂'
    exact ⟨line₂, hrow₂, hlast₂⟩
  · exact absurd (hadded.setting hlast.holds).symm (hkey u (List.mem_of_getElem? hu))

theorem Reached.last_added (h : Reached lines found updates kept appended) (hsource : Source lines settings found)
    (hread : Readable (kept ++ appended)) (hkeys : updates.keys.Nodup) {u : Chars × Update} (hu : u ∈ fresh found updates) :
    ∃ i line', Added u line' ∧ LastAt (Setting u.1) (kept ++ appended) i line' := by
  have hkey : ∀ line', Added u line' → line' ∈ kept ++ appended → Setting u.1 line' := by
    rintro line' ⟨semantic, hnormal, hname, rfl⟩ hmem
    obtain ⟨read, hread'⟩ := hread _ hmem
    obtain ⟨got, rfl, -, -⟩ := addedLine_read hnormal hname hread'
    exact ⟨got, hread'⟩
  obtain ⟨j, hj⟩ := List.mem_iff_getElem?.1 hu
  have hj' : j < appended.length := h.appended.length_eq ▸ (List.getElem?_eq_some_iff.1 hj).1
  obtain ⟨v, hv, hadded⟩ := forall₂_get h.appended (List.getElem?_eq_getElem hj')
  obtain rfl := Option.some.inj (hj.symm.trans hv)
  have hmem : appended[j] ∈ kept ++ appended := List.mem_append_right _ (List.getElem_mem hj')
  obtain ⟨i, line', hlast⟩ := exists_lastAt hmem (hkey _ hadded hmem)
  refine ⟨i, line', ?_, hlast⟩
  -- It is the last one, since no line of the file has the key, and no other update does.
  rcases h.place hlast.get with ⟨line, hline, hrow⟩ | ⟨k, v, -, hk, hadded'⟩
  · exfalso
    have hsetting := (hsource.row_setting hrow hline (hread line' (List.mem_of_getElem? hlast.get)) _).1 hlast.holds
    obtain ⟨n, last, hold⟩ := exists_lastAt (List.mem_of_getElem? hline) hsetting
    obtain ⟨value, hvalue⟩ := hold.holds
    obtain ⟨parsed, -, hparsed, hkey, -⟩ := readLine_spec hvalue
    have hfound := (hsource.found _ n parsed).2 ⟨last, hold, hparsed, hkey⟩
    have hnone := (List.mem_filter.1 hu).2
    rw [hfound] at hnone
    cases hnone
  · have hsame := hadded'.setting hlast.holds
    have huv := update_unique hkeys (List.mem_filter.1 hu).1 (List.mem_filter.1 (List.mem_of_getElem? hk)).1 hsame
    rwa [huv]

variable {settings' : Dict Chars Chars}

theorem Reached.kept_settings (h : Reached lines found updates kept appended) (hsource : Source lines settings found)
    (hnew : Reads (kept ++ appended) settings')
    (hkey : ∀ u ∈ updates, u.1 = key → ∃ r, found.get? key = some r ∧ ∀ i l, ¬Writes found u i l) :
    settings'.get? key = settings.get? key := by
  have hfresh : ∀ u ∈ fresh found updates, u.1 ≠ key := by
    rintro u hu rfl
    obtain ⟨hmem, hnone⟩ := List.mem_filter.1 hu
    obtain ⟨r, hr, -⟩ := hkey u hmem rfl
    rw [hr] at hnone
    cases hnone
  have hrow : ∀ {i line line'}, Row found updates i line line' → LastAt (Setting key) lines i line → readLine line' = readLine line := by
    rintro i line line' (⟨u, hu, l, hw, -⟩ | ⟨-, hterm⟩) hlast
    · obtain ⟨_, _, _, _, hwritten⟩ := hw.written hsource
      obtain rfl := Option.some.inj (hlast.get.symm.trans hwritten.last.get)
      obtain ⟨value, hvalue⟩ := hlast.holds
      obtain ⟨-, -, hnone⟩ := hkey u hu (setting_unique hvalue hwritten.last.holds)
      exact absurd hw (hnone i l)
    · exact hterm.read
  apply Option.ext
  intro value
  rw [hnew.settings, hsource.settings]
  constructor
  · rintro ⟨i, line', hlast, hvalue⟩
    obtain ⟨line, hline, hold⟩ := h.last_old hsource hnew.readable hfresh hlast
    exact ⟨i, line, hold, by rw [← hrow hline hold, hvalue]⟩
  · rintro ⟨i, line, hlast, hvalue⟩
    obtain ⟨line', hline, hlast'⟩ := h.last_row hsource hnew.readable hfresh hlast
    exact ⟨i, line', hlast', by rw [hrow hline hlast, hvalue]⟩

theorem Source.absent (hsource : Source lines settings found) (key : Chars) : found.get? key = none ↔ settings.get? key = none := by
  constructor
  · intro hnone
    cases hget : settings.get? key with
    | none => rfl
    | some value =>
      obtain ⟨i, line, hlast, hvalue⟩ := (hsource.settings key value).1 hget
      obtain ⟨parsed, -, hparsed, hkey, -⟩ := readLine_spec hvalue
      rw [(hsource.found key i parsed).2 ⟨line, hlast, hparsed, hkey⟩] at hnone
      cases hnone
  · intro hnone
    cases hget : found.get? key with
    | none => rfl
    | some r =>
      obtain ⟨line, hlast, -, -⟩ := (hsource.found key r.1 r.2).1 hget
      obtain ⟨value, hvalue⟩ := hlast.holds
      rw [(hsource.settings key value).2 ⟨r.1, line, hlast, hvalue⟩] at hnone
      cases hnone

theorem Reached.outcome (h : Reached lines found updates kept appended) (hsource : Source lines settings found)
    (hnew : Reads (kept ++ appended) settings') (hkeys : updates.keys.Nodup)
    {u : Chars × Update} (hu : u ∈ updates) (hstep : ∃ mid mid', Step found u mid mid') : Outcome settings settings' u := by
  obtain ⟨mid, mid', hstep⟩ := hstep
  have hfresh : ∀ {r}, found.get? u.1 = some r → ∀ v ∈ fresh found updates, v.1 ≠ u.1 := by
    intro r hr v hv hvu
    have hnone := (List.mem_filter.1 hv).2
    rw [hvu, hr] at hnone
    cases hnone
  cases hstep with
  | @same index parsed current wasQuoted hfound hnormal hcurrent =>
    have hold : settings.get? u.1 = some current := by
      obtain ⟨line, hlast, hparsed, hkey⟩ := (hsource.found _ _ _).1 hfound
      refine (hsource.settings _ _).2 ⟨index, line, hlast, ?_⟩
      rw [readLine_of_parsed hparsed, hcurrent, hkey]
      rfl
    refine .same hnormal hold ?_
    rw [h.kept_settings hsource hnew ?_, hold]
    intro v hv hvu
    obtain rfl := update_unique hkeys hv hu hvu
    exact ⟨_, hfound, not_writes_same hfound hnormal hcurrent⟩
  | @written i l hw =>
    obtain ⟨line, parsed, semantic, wasQuoted, hwritten⟩ := hw.written hsource
    obtain ⟨_, _, _, _, _, hfound⟩ := hsource.written hw
    obtain ⟨line', hrow, hlast⟩ := h.last_row hsource hnew.readable (hfresh hfound) hwritten.last
    have hread : readLine line' = readLine l := by
      rcases hrow with ⟨v, hv, m, hm, hterm⟩ | ⟨hnone, -⟩
      · obtain rfl := update_unique hkeys hv hu (hsource.writes_inj hm hw)
        obtain ⟨-, rfl⟩ := hw.unique hm
        exact hterm.read
      · exact absurd hw (hnone u hu l)
    obtain ⟨read, hline'⟩ := hnew.readable line' (List.mem_of_getElem? hlast.get)
    obtain ⟨got, rfl, hclean, hunclean⟩ := hwritten.read (hread ▸ hline')
    exact .changed hwritten.normal hwritten.changed ((hnew.settings _ _).2 ⟨i, line', hlast, hline'⟩) hclean hunclean
  | @appended semantic hfound hkey hnormal =>
    have hmem : u ∈ fresh found updates := List.mem_filter.2 ⟨hu, by rw [hfound]; rfl⟩
    obtain ⟨i, line', ⟨semantic', hnormal', -, rfl⟩, hlast⟩ := h.last_added hsource hnew.readable hkeys hmem
    obtain rfl := Except.ok.inj (hnormal.symm.trans hnormal')
    obtain ⟨read, hread⟩ := hnew.readable _ (List.mem_of_getElem? hlast.get)
    obtain ⟨got, rfl, hclean, hunclean⟩ := addedLine_read hnormal hkey hread
    refine .changed hnormal ?_ ((hnew.settings _ _).2 ⟨i, _, hlast, hread⟩) hclean hunclean
    rw [(hsource.absent _).1 hfound]
    simp

end

end Dumb.Postgres.Conf
