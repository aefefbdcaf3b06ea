import Dumb.Postgres.Lemmas.EditedLines

/-!
# The editor of postgresql.conf keeps what it is not asked to change

It does where the updates are `Editable`, and only there.
-/

namespace Dumb.Postgres.Conf

open Py

variable {content content' : Chars} {lines : List Chars} {settings : Dict Chars Chars} {found : Dict Chars (Nat × Parsed)}
  {updates : Dict Chars Update}

theorem editedText_spec (hparse : parseConf content = .ok settings) (h : editedText content updates = .ok content') :
    ∃ found lines', Source (fileLines content) settings found ∧ applyUpdates found updates (fileLines content) = .ok lines' ∧
      content' = lines'.flatten := by
  rw [editedText] at h
  obtain ⟨found, hfound, h⟩ := bind_ok_iff.1 h
  obtain ⟨lines', hlines, h⟩ := bind_ok_iff.1 h
  obtain ⟨-, -, h⟩ := bind_ok_iff.1 h
  have hreads := parseConf_spec hparse
  exact ⟨found, lines', ⟨hreads, proper_fileLines content, found_spec hfound hreads.readable⟩, hlines, (Except.ok.inj h).symm⟩

theorem Source.fresh (hsource : Source lines settings found) (before : Dict Chars Update) : fresh found before = added settings before := by
  apply List.filter_congr
  intro u _
  have habsent := hsource.absent u.1
  cases hfound : found.get? u.1 <;> cases hsettings : settings.get? u.1 <;> simp_all

theorem Source.unbroken (hsource : Source lines settings found) : Unbroken lines := by
  intro i line hi hline
  obtain ⟨hin, rfl⟩ := List.getElem?_eq_some_iff.1 hline
  exact (hsource.proper.follows.getElem i hi).1

theorem ends_iff (hsource : Source lines settings found) {lines' : List Chars}
    (hrun : applyUpdates found updates lines = .ok lines')
    (hunquoted : ∀ u ∈ updates, (stripSpace u.2.asText).head? ≠ some '\'') : EndsKept lines found updates ↔
      ∀ before key value after, updates = before ++ (key, value) :: after → settings.get? key ≠ some value.asText →
        ∀ index line parsed, LastAt (Setting key) lines index line → parseSettingLine line = .ok (some parsed) →
          parsed.newline = [] → parsed.suffix.getLast? ≠ some '\r' → index + 1 = lines.length ∧ added settings before = [] := by
  constructor
  · intro hends before key value after hupdates hchanged index line parsed hlast hparsed hnewline hsuffix
    have hu : (key, value) ∈ updates := by simp [hupdates]
    obtain ⟨mid, mid', hstep⟩ := applyUpdates_steps hrun _ hu
    have hkey : parsed.key = key := by
      obtain ⟨got, hgot⟩ := hlast.holds
      obtain ⟨parsed', -, hparsed', hkey, -⟩ := readLine_spec hgot
      obtain rfl := Option.some.inj (Except.ok.inj (hparsed.symm.trans hparsed'))
      exact hkey
    have hfound := (hsource.found key index parsed).2 ⟨line, hlast, hparsed, hkey⟩
    cases hstep with
    | @same i parsed' current wasQuoted hfound' hnormal hcurrent =>
      exfalso
      obtain ⟨rfl, rfl⟩ := Prod.mk.inj (Option.some.inj (hfound.symm.trans hfound'))
      obtain rfl := (normalize_spec hnormal).same (hunquoted _ hu)
      apply hchanged
      refine (hsource.settings _ _).2 ⟨index, line, hlast, ?_⟩
      rw [readLine_of_parsed hparsed, hcurrent, hkey]
      rfl
    | @written i l hw =>
      obtain ⟨line₀, parsed₀, semantic, wasQuoted, hwritten⟩ := hw.written hsource
      obtain ⟨rfl, rfl⟩ := hlast.unique hwritten.last
      obtain rfl := Option.some.inj (Except.ok.inj (hparsed.symm.trans hwritten.cut))
      rw [← hsource.fresh]
      exact hends before (key, value) after hupdates index l hw (hwritten.ended_iff.2 ⟨hnewline, hsuffix⟩)
    | appended hnone =>
      rw [hfound] at hnone
      cases hnone
  · intro hends before u after hupdates i l hw hopen
    have hu : u ∈ updates := by simp [hupdates]
    obtain ⟨line, parsed, semantic, wasQuoted, hwritten⟩ := hw.written hsource
    obtain ⟨hnewline, hsuffix⟩ := hwritten.ended_iff.1 hopen
    have hsame := (normalize_spec hwritten.normal).same (hunquoted u hu)
    rw [hsource.fresh]
    exact hends before u.1 u.2 after hupdates (hsame ▸ hwritten.changed) i line parsed hwritten.last hwritten.cut hnewline hsuffix

theorem fileLines_edited (hsource : Source lines settings found) {kept appended : List Chars}
    (hrun : applyUpdates found updates lines = .ok (kept ++ appended)) (hreached : Reached lines found updates kept appended)
    (hends : EndsKept lines found updates) : fileLines (kept ++ appended).flatten = kept ++ appended :=
  fileLines_flatten (hreached.proper hsource (applyUpdates_unbroken hsource hrun hends hsource.unbroken))

theorem length_broken (hsource : Source lines settings found) (hkeys : updates.keys.Nodup) {kept appended : List Chars}
    (hrun : applyUpdates found updates lines = .ok (kept ++ appended)) (hreached : Reached lines found updates kept appended)
    (hends : ¬EndsKept lines found updates) : (fileLines (kept ++ appended).flatten).length < (kept ++ appended).length := by
  simp only [EndsKept, not_forall] at hends
  obtain ⟨before, u, after, hupdates, i, l, hw, hopen, hplace⟩ := hends
  obtain ⟨hi, line, hline, hline'⟩ := applyUpdates_broken hsource hkeys hrun hupdates hw hopen hplace
  have hpiece : ∀ m ∈ kept ++ appended, Piece m ∧ m ≠ [] := by
    intro m hm
    obtain ⟨j, hj⟩ := List.mem_iff_getElem?.1 hm
    rcases hreached.place hj with ⟨old, hold, hrow⟩ | ⟨-, v, -, -, hadded⟩
    · obtain ⟨hpiece, hne, -, -⟩ := hsource.row hrow hold
      exact ⟨hpiece, hne⟩
    · exact ⟨hadded.piece.1, hadded.piece.2.1⟩
  obtain ⟨hin, rfl⟩ := List.getElem?_eq_some_iff.1 hline
  have hsplit : (kept ++ appended).take i ++ (kept ++ appended)[i] :: (kept ++ appended).drop (i + 1) = kept ++ appended := by
    rw [← List.drop_eq_getElem_cons hin, List.take_append_drop]
  obtain ⟨hthis, hne⟩ := hpiece _ (List.getElem_mem hin)
  have hbefore : ∀ m ∈ (kept ++ appended).take i, Piece m := fun m hm => (hpiece m (List.mem_of_mem_take hm)).1
  have hafter : (kept ++ appended).drop (i + 1) ≠ [] := by simpa [List.drop_eq_nil_iff] using hi
  have hlength := length_fileLines_broken hbefore ((ended_of_piece hthis).resolve_right hline') hne
    (fun m hm => hpiece m (List.mem_of_mem_drop hm)) hafter
  rwa [hsplit] at hlength

theorem Row.kept (hsource : Source lines settings found) {i : Nat} {line line' : Chars} (hrow : Row found updates i line line')
    (hline : lines[i]? = some line)
    (hclean : ∀ u ∈ updates, ∀ semantic, u.2.normalize = .ok semantic → settings.get? u.1 ≠ some semantic → clean semantic = true) :
    Kept updates line line' ∧ ((∃ read, readLine line = .ok read) → ∃ read, readLine line' = .ok read) := by
  rcases hrow with ⟨u, hu, l, hw, hterm⟩ | ⟨-, hterm⟩
  · obtain ⟨line₀, parsed, semantic, wasQuoted, hwritten⟩ := hw.written hsource
    obtain rfl := Option.some.inj (hline.symm.trans hwritten.last.get)
    obtain ⟨hwf, -⟩ := parseSettingLine_spec hwritten.cut
    have hinner := (normalize_spec hwritten.normal).inner
    have hvalue := hclean u hu semantic hwritten.normal hwritten.changed
    have hcut := parseSettingLine_format hwf hinner (clean_last hvalue) wasQuoted
    rw [← hwritten.text] at hcut
    constructor
    · have hkey : parsed.key ∈ updates.keys := hwritten.key ▸ List.mem_map_of_mem hu
      rcases hterm with rfl | ⟨hopen, rfl⟩
      · exact .updated hwritten.cut hkey hcut rfl rfl
      · have hcut' := parseSettingLine_terminated hopen
        rw [hcut] at hcut'
        exact .updated hwritten.cut hkey hcut' rfl rfl
    · intro _
      have hread := readLine_clean hwf hinner hvalue wasQuoted
      rw [← hwritten.text, ← hterm.read] at hread
      exact ⟨_, hread⟩
  · refine ⟨.same hterm, fun h => ?_⟩
    rwa [hterm.read]

theorem edited_of_editable (hparse : parseConf content = .ok settings) (hkeys : updates.keys.Nodup)
    (hedit : editedText content updates = .ok content') (h : Editable content settings updates) :
    Edited content settings updates content' := by
  obtain ⟨found, lines', hsource, hrun, rfl⟩ := editedText_spec hparse hedit
  obtain ⟨kept, appended, rfl, hreached⟩ := applyUpdates_reached hsource hrun
  have hsame : ∀ u ∈ updates, ∀ semantic, u.2.normalize = .ok semantic → semantic = u.2.asText :=
    fun u hu semantic hnormal => (normalize_spec hnormal).same (h.unquoted u hu)
  have hclean : ∀ u ∈ updates, ∀ semantic, u.2.normalize = .ok semantic → settings.get? u.1 ≠ some semantic →
      clean semantic = true := by
    intro u hu semantic hnormal hchanged
    obtain rfl := hsame u hu semantic hnormal
    exact h.clean u hu hchanged
  have hlines := fileLines_edited hsource hrun hreached ((ends_iff hsource hrun h.unquoted).2 h.ended)
  have hreadable : Readable (kept ++ appended) := by
    intro line' hline'
    obtain ⟨i, hi⟩ := List.mem_iff_getElem?.1 hline'
    rcases hreached.place hi with ⟨line, hline, hrow⟩ | ⟨j, u, -, hj, semantic, hnormal, hkey, rfl⟩
    · exact (hrow.kept hsource hline hclean).2 (hsource.readable line (List.mem_of_getElem? hline))
    · obtain ⟨hu, hnone⟩ := List.mem_filter.1 (List.mem_of_getElem? hj)
      have hinner := (normalize_spec hnormal).inner
      have habsent : settings.get? u.1 = none := (hsource.absent _).1 (by simpa using hnone)
      have hvalue := hclean u hu semantic hnormal (by rw [habsent]; simp)
      rw [addedLine_eq]
      exact ⟨_, readLine_clean (addedParts_wf hkey hinner) hinner hvalue false⟩
  have hparse' : parseConf (kept ++ appended).flatten = .ok (assign (fun _ => settingOf) 1 (kept ++ appended) []) := by
    rw [parseConf, hlines]
    exact readLines_spec.2 ⟨hreadable, rfl⟩
  have hreads := parseConf_spec hparse'
  rw [hlines] at hreads
  refine ⟨⟨_, hparse', fun key => ?_⟩, ⟨kept, appended, hlines, ?_, ?_⟩, fun hall => ?_⟩
  · cases hget : updates.get? key with
    | none =>
      rw [hreached.kept_settings hsource hreads]
      · rfl
      · rintro u hu rfl
        rw [Dict.get?_of_mem hkeys hu] at hget
        cases hget
    | some value =>
      have hu := Dict.mem_of_get? hget
      cases hreached.outcome hsource hreads hkeys hu (applyUpdates_steps hrun _ hu) with
      | same hnormal _ hnew =>
        obtain rfl := hsame _ hu _ hnormal
        exact hnew
      | changed hnormal hold hnew hread =>
        rw [hread (hclean _ hu _ hnormal hold)] at hnew
        obtain rfl := hsame _ hu _ hnormal
        exact hnew
  · rw [← hsource.fresh, hreached.appended.length_eq]
  · rw [List.forall₂_iff_get]
    refine ⟨hreached.length.symm, fun i hi hi' => ?_⟩
    have hline : (fileLines content)[i]? = some (fileLines content)[i] := List.getElem?_eq_getElem hi
    exact ((hreached.row i _ _ hline (List.getElem?_eq_getElem hi')).kept hsource hline hclean).1
  · -- No update has anything to write.
    have hkept : kept ++ appended = fileLines content := by
      refine applyUpdates_run hrun (P := fun _ mid => mid = fileLines content) rfl ?_
      rintro before u after mid mid' hupdates rfl hstep
      have hu : u ∈ updates := by simp [hupdates]
      have hvalue := hall u hu
      cases hstep with
      | same => rfl
      | written hw =>
        obtain ⟨_, _, semantic, _, hwritten⟩ := hw.written hsource
        obtain rfl := hsame u hu _ hwritten.normal
        exact absurd hvalue hwritten.changed
      | appended hnone =>
        rw [(hsource.absent _).1 hnone] at hvalue
        cases hvalue
    rw [hkept, fileLines, flatten_linesBy]

theorem editable_of_edited (hparse : parseConf content = .ok settings) (hkeys : updates.keys.Nodup)
    (hedit : editedText content updates = .ok content') (h : Edited content settings updates content') :
    Editable content settings updates := by
  obtain ⟨found, lines', hsource, hrun, rfl⟩ := editedText_spec hparse hedit
  obtain ⟨kept, appended, rfl, hreached⟩ := applyUpdates_reached hsource hrun
  have hends : EndsKept (fileLines content) found updates := by
    by_contra hbroken
    have hlength := length_broken hsource hkeys hrun hreached hbroken
    obtain ⟨k, a, hlines, hadded, hkept⟩ := h.lines
    rw [hlines, hreached.lines_length, hsource.fresh, List.length_append, hadded, ← hkept.length_eq] at hlength
    exact absurd hlength (Nat.lt_irrefl _)
  have hlines := fileLines_edited hsource hrun hreached hends
  obtain ⟨settings', hparse', hget⟩ := h.read
  have hreads := parseConf_spec hparse'
  rw [hlines] at hreads
  have houtcome : ∀ u ∈ updates, Outcome settings settings' u ∧ settings'.get? u.1 = some u.2.asText := by
    intro u hu
    refine ⟨hreached.outcome hsource hreads hkeys hu (applyUpdates_steps hrun u hu), ?_⟩
    rw [hget, Dict.get?_of_mem hkeys hu]
    rfl
  have hunquoted : ∀ u ∈ updates, (stripSpace u.2.asText).head? ≠ some '\'' := by
    intro u hu hquote
    obtain ⟨hout, hnew⟩ := houtcome u hu
    cases hout with
    | same hnormal _ hnew' =>
      obtain ⟨hshort, -⟩ := (normalize_spec hnormal).shorter hquote
      rw [Option.some.inj (hnew.symm.trans hnew')] at hshort
      exact absurd hshort (Nat.lt_irrefl _)
    | @changed semantic got hnormal _ hnew' hread hunread =>
      obtain ⟨hshort, hlast⟩ := (normalize_spec hnormal).shorter hquote
      cases hclean : clean semantic with
      | true =>
        rw [Option.some.inj (hnew.symm.trans hnew'), hread hclean] at hshort
        exact absurd hshort (Nat.lt_irrefl _)
      | false => exact hlast (hunread hclean).2
  refine ⟨hunquoted, fun u hu hchanged => ?_, (ends_iff hsource hrun hunquoted).1 hends⟩
  obtain ⟨hout, hnew⟩ := houtcome u hu
  cases hout with
  | same hnormal hold _ =>
    obtain rfl := (normalize_spec hnormal).same (hunquoted u hu)
    exact absurd hold hchanged
  | @changed semantic got hnormal _ hnew' _ hunread =>
    obtain rfl := (normalize_spec hnormal).same (hunquoted u hu)
    by_contra hclean
    exact (hunread (by simpa using hclean)).1 (Option.some.inj (hnew'.symm.trans hnew))

/-- The editor leaves the file as it was where it raises. -/
theorem writeConf_iff (hparse : parseConf content = .ok settings) (hkeys : updates.keys.Nodup) (writable : Bool) :
    ((writeConf writable content updates).2 = true → (writeConf writable content updates).1 = content) ∧
      ((writeConf writable content updates).2 = false →
        (Edited content settings updates (writeConf writable content updates).1 ↔ Editable content settings updates)) := by
  rw [writeConf]
  cases hedit : editedText content updates with
  | error e => simp
  | ok text =>
    cases writable with
    | false => simp
    | true =>
      refine ⟨fun h => (by cases h), fun _ => ?_⟩
      exact ⟨editable_of_edited hparse hkeys hedit, edited_of_editable hparse hkeys hedit⟩

def twoSettings : Chars := ['a', '=', '1', '\r', 'b', '=', '2', '\n']

theorem writeConf_iff_second :
    Edited twoSettings [(['a'], ['1']), (['b'], ['2'])] [(['b'], .text ['3'])] (writeConf true twoSettings [(['b'], .text ['3'])]).1 ↔
      Editable twoSettings [(['a'], ['1']), (['b'], ['2'])] [(['b'], .text ['3'])] :=
  (writeConf_iff (by decide) (by decide) true).2 (by decide)

/-- A new value of the first one swallows the second one. -/
theorem return_lost : parseConf twoSettings = .ok [(['a'], ['1']), (['b'], ['2'])] ∧
    (writeConf true twoSettings [(['a'], .text ['3'])]).2 = false ∧
    ¬Edited twoSettings [(['a'], ['1']), (['b'], ['2'])] [(['a'], .text ['3'])] (writeConf true twoSettings [(['a'], .text ['3'])]).1 := by
  refine ⟨by decide, by decide, fun h => ?_⟩
  obtain ⟨settings', hparse, hget⟩ := h.read
  have hread : parseConf (writeConf true twoSettings [(['a'], .text ['3'])]).1 = .ok [(['a'], ['3', 'b', '=', '2'])] := by decide
  obtain rfl := Except.ok.inj (hparse.symm.trans hread)
  exact absurd (hget ['b']) (by decide)

end Dumb.Postgres.Conf
