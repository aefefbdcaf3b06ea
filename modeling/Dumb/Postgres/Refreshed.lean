import Dumb.Postgres.Lemmas.Refresh

/-!
# The refresh and the parser

The refresh agrees with the parser of the editor exactly where the file is `Refreshable`.
-/

namespace Dumb.Postgres.Conf

open Py

variable {postgresConfig : Dict Chars ConfigValue} {lines : List Chars}

def after (postgresConfig : Dict Chars ConfigValue) (line : Chars) : Chars := refreshLine postgresConfig (universal line)

theorem after_kept {line : Chars} (hline : Piece line) (h : mentioned postgresConfig line = none) :
    after postgresConfig line = universal line := by
  rw [after, refreshLine, (piece_lined hline).mentioned, h]

variable {value : ConfigValue}

theorem after_replaced {line key : Chars} (hline : Piece line)
    (h : mentioned postgresConfig line = some (key, value)) : after postgresConfig line = newLine key value := by
  rw [after, refreshLine, (piece_lined hline).mentioned, h]

theorem update_eq (h : Py.Proper lines) :
    updatePostgresqlConf postgresConfig lines.flatten = (lines.map (after postgresConfig)).flatten := by
  rw [updatePostgresqlConf, linesBy_universal h, List.map_map]
  rfl

def Single (postgresConfig : Dict Chars ConfigValue) (lines : List Chars) : Prop :=
  ∀ line ∈ lines, ∀ key value, mentioned postgresConfig line = some (key, value) → value.truthy = true → Piece (newLine key value)

theorem newLine_ended (key : Chars) (value : ConfigValue) : (newLine key value).getLast? = some '\n' := by
  cases h : value.truthy with
  | true => rw [newLine, if_pos h, List.getLast?_concat]
  | false => rw [newLine_false h, List.getLast?_concat]

variable {key : Chars}

theorem piece_commented (hkey : settingKey key = true) (h : value.truthy = false) :
    Piece (newLine key value) := by
  rw [newLine_false h]
  apply piece_newline
  have hinner := (settingKey_inner hkey).2
  intro c hc
  simp only [List.cons_append, List.mem_cons, List.mem_append, List.not_mem_nil, or_false] at hc
  rcases hc with rfl | (hc | rfl | rfl) | rfl
  · decide
  · exact hinner c hc
  · decide
  · decide
  · decide

theorem after_spec (hnamed : Named postgresConfig) (hproper : Py.Proper lines) (hsingle : Single postgresConfig lines) {line : Chars}
    (hmem : line ∈ lines) : Piece (after postgresConfig line) ∧ after postgresConfig line ≠ [] ∧
      (after postgresConfig line).getLast? ≠ some '\r' ∧ (Ended line → Ended (after postgresConfig line)) := by
  obtain ⟨hpiece, hne⟩ := hproper.pieces line hmem
  cases h : mentioned postgresConfig line with
  | none =>
    rw [after_kept hpiece h]
    have hlined := piece_lined hpiece
    generalize universal line = read at hlined
    cases hlined with
    | ended hbody hterm => exact ⟨piece_newline hbody, by simp, by simp, fun _ => ended_newline _⟩
    | inner hbody => exact ⟨hpiece, hne, (inner_open hbody).2, id⟩
  | some item =>
    obtain ⟨key, value⟩ := item
    rw [after_replaced hpiece h]
    have hlast := newLine_ended key value
    refine ⟨?_, ?_, by rw [hlast]; decide, fun _ => .inl hlast⟩
    · cases htruthy : value.truthy with
      | true => exact hsingle line hmem key value h htruthy
      | false => exact piece_commented (hnamed.names key (List.mem_map_of_mem (mentioned_mem h).1)) htruthy
    · intro hnil
      rw [hnil] at hlast
      cases hlast

theorem proper_after (hnamed : Named postgresConfig) (hproper : Py.Proper lines) (hsingle : Single postgresConfig lines) :
    Py.Proper (lines.map (after postgresConfig)) := by
  constructor
  · intro l hl
    obtain ⟨line, hmem, rfl⟩ := List.mem_map.1 hl
    obtain ⟨hpiece, hne, -, -⟩ := after_spec hnamed hproper hsingle hmem
    exact ⟨hpiece, hne⟩
  · rw [List.isChain_iff_getElem]
    intro i hi
    rw [List.length_map] at hi
    obtain ⟨-, -, hcarriage, hended⟩ := after_spec hnamed hproper hsingle (List.getElem_mem (Nat.lt_of_succ_lt hi))
    rw [List.getElem_map, List.getElem_map]
    exact ⟨hended (hproper.follows.getElem i hi).1, fun h => hcarriage h.1⟩

theorem refreshLine_after (hnamed : Named postgresConfig) (hproper : Py.Proper lines) (hsingle : Single postgresConfig lines)
    {line : Chars} (hmem : line ∈ lines) : after postgresConfig (after postgresConfig line) = after postgresConfig line := by
  obtain ⟨hpiece, -⟩ := hproper.pieces line hmem
  obtain ⟨hpiece', -⟩ := after_spec hnamed hproper hsingle hmem
  cases h : mentioned postgresConfig line with
  | none =>
    have hkept := after_kept hpiece h
    rw [hkept] at hpiece' ⊢
    rw [after_kept hpiece' (by rw [(piece_lined hpiece).mentioned, h])]
    have hlined := piece_lined hpiece
    generalize universal line = read at hlined
    cases hlined with
    | @ended body term hbody hterm =>
      rw [universal_inner hbody]
      rfl
    | inner hbody =>
      have hread := universal_inner hbody []
      rw [List.append_nil] at hread
      exact hread.trans (List.append_nil _)
  | some item =>
    obtain ⟨key, value⟩ := item
    rw [after_replaced hpiece h] at hpiece' ⊢
    exact after_replaced hpiece' (mentioned_newLine hnamed (mentioned_mem h).1)

theorem update_again (hnamed : Named postgresConfig) (hproper : Py.Proper lines) (hsingle : Single postgresConfig lines) :
    updatePostgresqlConf postgresConfig (updatePostgresqlConf postgresConfig lines.flatten) =
      updatePostgresqlConf postgresConfig lines.flatten := by
  rw [update_eq hproper, update_eq (proper_after hnamed hproper hsingle), List.map_map]
  congr 1
  apply List.map_congr_left
  exact fun line hmem => refreshLine_after hnamed hproper hsingle hmem

/-! ## Values with line breaks -/

theorem linesBy_append_read (a b : Chars) :
    linesBy endsRead (a ++ '\n' :: b) = linesBy endsRead (a ++ ['\n']) ++ linesBy endsRead b := by
  induction a with
  | nil =>
    show linesBy endsRead ('\n' :: b) = linesBy endsRead ['\n'] ++ _
    rw [linesBy, linesBy, if_pos (by simp [cutsAfter, endsRead]), if_pos (by simp [cutsAfter, endsRead])]
    rfl
  | cons c a ih =>
    have hne : linesBy endsRead (a ++ ['\n']) ≠ [] := linesBy_ne_nil (by simp)
    have hcut : ∀ next next' : Option Char, cutsAfter endsRead c next = cutsAfter endsRead c next' := by
      intro next next'
      by_cases hc : c = '\n'
      · subst hc
        simp [cutsAfter]
      · simp [cutsAfter, endsRead, hc]
    rw [List.cons_append, List.cons_append, linesBy, linesBy, ih, hcut _ (a ++ ['\n']).head?]
    split
    · rfl
    · cases hlines : linesBy endsRead (a ++ ['\n']) with
      | nil => exact absurd hlines hne
      | cons line rest => rfl

theorem universal_append_read (a b : Chars) : universal (a ++ '\n' :: b) = universal (a ++ ['\n']) ++ universal b := by
  fun_induction universal a with
  | case1 => rfl
  | case2 rest ih =>
    show universal ('\r' :: '\n' :: (rest ++ '\n' :: b)) = universal ('\r' :: '\n' :: (rest ++ ['\n'])) ++ _
    rw [universal, universal, ih]
    rfl
  | case3 rest hnext ih =>
    cases rest with
    | nil => rfl
    | cons d rest =>
      have hd : d ≠ '\n' := by
        rintro rfl
        exact hnext rest rfl
      have hstep : ∀ tail, universal ('\r' :: d :: (rest ++ tail)) = '\n' :: universal (d :: (rest ++ tail)) :=
        fun tail => universal_return (by simpa using hd)
      show universal ('\r' :: d :: (rest ++ '\n' :: b)) = universal ('\r' :: d :: (rest ++ ['\n'])) ++ universal b
      rw [hstep, hstep]
      exact congrArg ('\n' :: ·) ih
  | case4 c rest _ hc ih =>
    rw [List.cons_append, List.cons_append, universal_cons (fun h => hc h), universal_cons (fun h => hc h), ih]
    rfl

theorem universal_ends (a : Chars) : ∃ read, universal (a ++ ['\n']) = read ++ ['\n'] := by
  fun_induction universal a with
  | case1 => exact ⟨[], rfl⟩
  | case2 rest ih =>
    obtain ⟨read, hread⟩ := ih
    refine ⟨'\n' :: read, ?_⟩
    show universal ('\r' :: '\n' :: (rest ++ ['\n'])) = _
    rw [universal, hread]
    rfl
  | case3 rest hnext ih =>
    cases rest with
    | nil => exact ⟨[], rfl⟩
    | cons d rest =>
      have hd : d ≠ '\n' := by
        rintro rfl
        exact hnext rest rfl
      obtain ⟨read, hread⟩ := ih
      refine ⟨'\n' :: read, ?_⟩
      rw [List.cons_append, universal_return (by simpa using hd), hread]
      rfl
  | case4 c rest _ hc ih =>
    obtain ⟨read, hread⟩ := ih
    refine ⟨c :: read, ?_⟩
    rw [List.cons_append, universal_cons (fun h => hc h), hread]
    rfl

theorem update_append (a b : Chars) : updatePostgresqlConf postgresConfig (a ++ '\n' :: b) =
    updatePostgresqlConf postgresConfig (a ++ ['\n']) ++ updatePostgresqlConf postgresConfig b := by
  obtain ⟨read, hread⟩ := universal_ends a
  rw [updatePostgresqlConf, updatePostgresqlConf, updatePostgresqlConf, universal_append_read, hread, List.append_assoc,
    List.singleton_append, linesBy_append_read, List.map_append, List.flatten_append]

theorem update_ne_nil {text : Chars} (h : text ≠ []) : updatePostgresqlConf postgresConfig text ≠ [] := by
  intro hnil
  have hread : universal text ≠ [] := by
    fun_cases universal text <;> simp_all
  have hflat : (linesBy endsRead (universal text)).flatten = universal text := flatten_linesBy _
  rw [updatePostgresqlConf, List.flatten_eq_nil_iff] at hnil
  apply hread
  rw [← hflat, List.flatten_eq_nil_iff]
  intro line hline
  have hrefreshed := hnil _ (List.mem_map_of_mem hline)
  rw [refreshLine] at hrefreshed
  split at hrefreshed
  · next key value _ =>
    have hlast := newLine_ended key value
    rw [hrefreshed] at hlast
    cases hlast
  · exact hrefreshed

theorem update_newLine (hnamed : Named postgresConfig) (hmem : (key, value) ∈ postgresConfig)
    (htruthy : value.truthy = true) (hlines : ¬Piece (newLine key value)) :
    (newLine key value).length < (updatePostgresqlConf postgresConfig (newLine key value)).length := by
  have hkey := (settingKey_inner (hnamed.names key (List.mem_map_of_mem hmem))).2
  have hfront : Inner (key ++ [' ', '=', ' ']) := inner_append hkey (by decide)
  have hline : newLine key value = (key ++ [' ', '=', ' ']) ++ (value.shown ++ ['\n']) := by
    rw [newLine, if_pos htruthy, List.append_assoc]
  have hspan : (value.shown ++ ['\n']).takeWhile (fun c => !endsFileLine c) ++
      (value.shown ++ ['\n']).dropWhile (fun c => !endsFileLine c) = value.shown ++ ['\n'] := List.takeWhile_append_dropWhile
  have hinner : Inner ((value.shown ++ ['\n']).takeWhile fun c => !endsFileLine c) := by
    intro c hc
    simpa using List.mem_takeWhile_imp hc
  generalize (value.shown ++ ['\n']).takeWhile (fun c => !endsFileLine c) = body at hspan hinner
  cases hbreak : (value.shown ++ ['\n']).dropWhile (fun c => !endsFileLine c) with
  | nil =>
    have hall := List.dropWhile_eq_nil_iff.1 hbreak '\n' (by simp)
    exact absurd hall (by decide)
  | cons c rest =>
    rw [hbreak] at hspan
    have hc : endsFileLine c = true := by
      have hhead : ((value.shown ++ ['\n']).dropWhile fun c => !endsFileLine c).head? = some c := by rw [hbreak]; rfl
      simpa using head_dropWhile hhead
    have hwhole : Inner (key ++ [' ', '=', ' '] ++ body) := inner_append hfront hinner
    rw [← hspan, ← List.append_assoc] at hline
    -- The first line is replaced again, by all of them.
    have hagain : ∀ more, more ≠ [] → universal (c :: rest) = '\n' :: universal more →
        (newLine key value).length < (updatePostgresqlConf postgresConfig (newLine key value)).length := by
      intro more hmore hread
      have hfirst : refreshLine postgresConfig (key ++ [' ', '=', ' '] ++ body ++ ['\n']) = newLine key value := by
        have hstart := mentioned_start hnamed hmem (' ' :: (body ++ ['\n']))
        rw [refreshLine, show key ++ [' ', '=', ' '] ++ body ++ ['\n'] = key ++ ' ' :: '=' :: ' ' :: (body ++ ['\n']) by simp,
          hstart]
      have hupdate : updatePostgresqlConf postgresConfig (newLine key value) =
          newLine key value ++ updatePostgresqlConf postgresConfig more := by
        rw [updatePostgresqlConf, hline, universal_inner hwhole, hread, linesBy_read hwhole, List.map_cons, List.flatten_cons,
          hfirst, hline, updatePostgresqlConf]
      have hpositive : 0 < (updatePostgresqlConf postgresConfig more).length := List.length_pos_iff.2 (update_ne_nil hmore)
      rw [hupdate, List.length_append]
      omega
    have hnext : c = '\n' ∨ c = '\r' := by simpa [endsFileLine] using hc
    rcases hnext with rfl | rfl
    · refine hagain rest ?_ (universal_cons (by decide) rest)
      rintro rfl
      apply hlines
      rw [hline]
      exact piece_newline hwhole
    · cases rest with
      | nil =>
        have hlast := congrArg List.getLast? hspan
        simp at hlast
      | cons d rest =>
        by_cases hd : d = '\n'
        · subst hd
          refine hagain rest ?_ (by rw [universal])
          rintro rfl
          apply hlines
          rw [hline]
          exact ⟨_, ['\r', '\n'], rfl, hwhole, .inr (by simp [lineEnds])⟩
        · exact hagain (d :: rest) (by simp) (universal_return (by simpa using hd))

theorem after_ended {line : Chars} (hpiece : Piece line) (hended : Ended line) :
    ∃ front, after postgresConfig line = front ++ ['\n'] := by
  cases h : mentioned postgresConfig line with
  | none =>
    rw [after_kept hpiece h]
    have hlined := piece_lined hpiece
    generalize universal line = read at hlined
    cases hlined with
    | ended => exact ⟨_, rfl⟩
    | inner hbody => exact absurd hended (not_ended_of_inner hbody)
  | some item =>
    rw [after_replaced hpiece h]
    exact List.getLast?_eq_some_iff.1 (newLine_ended item.1 item.2)

theorem update_line (hnamed : Named postgresConfig) {line : Chars} (hproper : Py.Proper [line]) :
    (Single postgresConfig [line] → updatePostgresqlConf postgresConfig (after postgresConfig line) = after postgresConfig line) ∧
      (¬Single postgresConfig [line] →
        (after postgresConfig line).length < (updatePostgresqlConf postgresConfig (after postgresConfig line)).length) := by
  obtain ⟨hpiece, -⟩ := hproper.pieces line List.mem_cons_self
  constructor
  · intro hsingle
    have hupdate : updatePostgresqlConf postgresConfig _ = _ := update_eq (proper_after hnamed hproper hsingle)
    simpa [refreshLine_after hnamed hproper hsingle List.mem_cons_self] using hupdate
  · intro hsingle
    simp only [Single, not_forall] at hsingle
    obtain ⟨line', hmem, key, value, hmentioned, htruthy, hlines⟩ := hsingle
    obtain rfl := List.mem_singleton.1 hmem
    rw [after_replaced hpiece hmentioned]
    exact update_newLine hnamed (mentioned_mem hmentioned).1 htruthy hlines

theorem update_length (hnamed : Named postgresConfig) (hproper : Py.Proper lines) :
    (lines.map (after postgresConfig)).flatten.length ≤
        (updatePostgresqlConf postgresConfig (lines.map (after postgresConfig)).flatten).length ∧
      (¬Single postgresConfig lines → (lines.map (after postgresConfig)).flatten.length <
        (updatePostgresqlConf postgresConfig (lines.map (after postgresConfig)).flatten).length) := by
  induction lines with
  | nil => exact ⟨Nat.zero_le _, fun h => absurd (by simp [Single]) h⟩
  | cons line rest ih =>
    have hline : Py.Proper [line] := ⟨fun l hl => hproper.pieces l (by simp [List.mem_singleton.1 hl]), by simp⟩
    obtain ⟨hsame, hmore⟩ := update_line hnamed hline
    have hone : (after postgresConfig line).length ≤ (updatePostgresqlConf postgresConfig (after postgresConfig line)).length := by
      by_cases hsingle : Single postgresConfig [line]
      · rw [hsame hsingle]
      · exact Nat.le_of_lt (hmore hsingle)
    have hcons : Single postgresConfig (line :: rest) ↔ Single postgresConfig [line] ∧ Single postgresConfig rest := by
      simp [Single]
    cases rest with
    | nil =>
      rw [List.map_singleton, List.flatten_singleton]
      exact ⟨hone, hmore⟩
    | cons next rest =>
      have hrest : Py.Proper (next :: rest) := ⟨fun l hl => hproper.pieces l (List.mem_cons_of_mem line hl), hproper.follows.tail⟩
      obtain ⟨hle, hlt⟩ := ih hrest
      have hended := (hproper.follows.rel_head? (show next ∈ (next :: rest).head? from rfl)).1
      obtain ⟨front, hfront⟩ : ∃ front, after postgresConfig line = front ++ ['\n'] :=
        after_ended (hproper.pieces line List.mem_cons_self).1 hended
      rw [List.map_cons, List.flatten_cons]
      rw [hfront] at hone hmore ⊢
      rw [List.append_assoc, List.singleton_append, update_append, List.length_append, List.length_append, List.length_cons]
      rw [List.length_append, List.length_singleton] at hone hmore
      refine ⟨by omega, fun hsingle => ?_⟩
      rw [hcons, not_and_or] at hsingle
      rcases hsingle with hsingle | hsingle
      · have := hmore hsingle
        omega
      · have := hlt hsingle
        omega

/-! ## The values after a refresh -/

def Counts (postgresConfig : Dict Chars ConfigValue) (key line : Chars) : Prop :=
  Left postgresConfig key line ∨ ∃ value, mentioned postgresConfig line = some (key, value) ∧ value.truthy = true

structure Reread (postgresConfig : Dict Chars ConfigValue) (line : Chars) : Prop where
  piece : Piece line
  read : ∃ setting, readLine line = .ok setting
  kept : mentioned postgresConfig line = none → ∀ parsed, parseSettingLine line = .ok (some parsed) → parsed.rawValue ≠ ['\r']
  replaced : ∀ key value, mentioned postgresConfig line = some (key, value) → value.truthy = true →
    ∃ setting, readLine (newLine key value) = .ok setting

theorem readLine_newLine (hnamed : Named postgresConfig) (hmem : (key, value) ∈ postgresConfig)
    (htruthy : value.truthy = true) {setting : Option (Chars × Chars)} (h : readLine (newLine key value) = .ok setting) :
    ∃ read, setting = some (key, read) := by
  rw [newLine_true htruthy] at h
  exact readLine_start (hnamed.names key (List.mem_map_of_mem hmem)) h

theorem Reread.becomes (hnamed : Named postgresConfig) {line : Chars} (h : Reread postgresConfig line) :
    (mentioned postgresConfig line = none ∧ readLine (after postgresConfig line) = readLine line) ∨
      ∃ key value, mentioned postgresConfig line = some (key, value) ∧ after postgresConfig line = newLine key value ∧
        ((value.truthy = true ∧ ∃ read, readLine (newLine key value) = .ok (some (key, read))) ∨
          (value.truthy = false ∧ readLine (newLine key value) = .ok none)) := by
  cases hmentioned : mentioned postgresConfig line with
  | none =>
    obtain ⟨setting, hsetting⟩ := h.read
    refine .inl ⟨rfl, ?_⟩
    rw [after_kept h.piece hmentioned, hsetting]
    exact (piece_lined h.piece).read (h.kept hmentioned) hsetting
  | some item =>
    obtain ⟨key, value⟩ := item
    refine .inr ⟨key, value, rfl, after_replaced h.piece hmentioned, ?_⟩
    cases htruthy : value.truthy with
    | true =>
      obtain ⟨setting, hsetting⟩ := h.replaced key value hmentioned htruthy
      obtain ⟨read, rfl⟩ := readLine_newLine hnamed (mentioned_mem hmentioned).1 htruthy hsetting
      exact .inl ⟨rfl, read, hsetting⟩
    | false => exact .inr ⟨rfl, readLine_commented htruthy⟩

theorem Reread.counts (hnamed : Named postgresConfig) {line : Chars} (h : Reread postgresConfig line) (key : Chars) :
    Setting key (after postgresConfig line) ↔ Counts postgresConfig key line := by
  rcases h.becomes hnamed with ⟨hnone, hsame⟩ | ⟨key', value, hmentioned, hline, ⟨htruthy, read, hread⟩ | ⟨hfalse, hread⟩⟩
  · rw [Setting, hsame]
    constructor
    · exact fun hset => .inl ⟨hnone, hset⟩
    · rintro (⟨-, hset⟩ | ⟨value, hsome, -⟩)
      · exact hset
      · rw [hnone] at hsome
        cases hsome
  · rw [hline]
    constructor
    · intro hset
      obtain rfl := setting_unique hread hset
      exact .inr ⟨value, hmentioned, htruthy⟩
    · rintro (⟨hnone, -⟩ | ⟨value', hsome, -⟩)
      · rw [hmentioned] at hnone
        cases hnone
      · obtain ⟨rfl, rfl⟩ := Prod.mk.inj (Option.some.inj (hmentioned.symm.trans hsome))
        exact ⟨read, hread⟩
  · rw [hline]
    constructor
    · rintro ⟨got, hgot⟩
      rw [hread] at hgot
      cases hgot
    · rintro (⟨hnone, -⟩ | ⟨value', hsome, htruthy⟩)
      · rw [hmentioned] at hnone
        cases hnone
      · obtain ⟨rfl, rfl⟩ := Prod.mk.inj (Option.some.inj (hmentioned.symm.trans hsome))
        rw [hfalse] at htruthy
        cases htruthy

theorem Reread.readable (hnamed : Named postgresConfig) {line : Chars} (h : Reread postgresConfig line) :
    ∃ setting, readLine (after postgresConfig line) = .ok setting := by
  rcases h.becomes hnamed with ⟨-, hsame⟩ | ⟨key, value, -, hline, ⟨-, read, hread⟩ | ⟨-, hread⟩⟩
  · rw [hsame]
    exact h.read
  · exact ⟨_, by rw [hline, hread]⟩
  · exact ⟨_, by rw [hline, hread]⟩

theorem refreshed_settings (hnamed : Named postgresConfig) (hreread : ∀ line ∈ lines, Reread postgresConfig line)
    {settings' : Dict Chars Chars} (h : Reads (lines.map (after postgresConfig)) settings') (key value : Chars) :
    settings'.get? key = some value ↔ ∃ i line, LastAt (Counts postgresConfig key) lines i line ∧
      readLine (after postgresConfig line) = .ok (some (key, value)) := by
  have hcounts : ∀ line ∈ lines, Setting key (after postgresConfig line) ↔ Counts postgresConfig key line :=
    fun line hline => (hreread line hline).counts hnamed key
  rw [h.settings]
  simp only [lastAt_map]
  constructor
  · rintro ⟨i, line', ⟨line, rfl, hlast⟩, hvalue⟩
    exact ⟨i, line, hlast.congr hcounts, hvalue⟩
  · rintro ⟨i, line, hlast, hvalue⟩
    exact ⟨i, _, ⟨line, rfl, hlast.congr fun l hl => (hcounts l hl).symm⟩, hvalue⟩

theorem refreshed_none (hnamed : Named postgresConfig) (hreread : ∀ line ∈ lines, Reread postgresConfig line)
    {settings' : Dict Chars Chars} (h : Reads (lines.map (after postgresConfig)) settings') (key : Chars) :
    settings'.get? key = none ↔ ∀ line ∈ lines, ¬Counts postgresConfig key line := by
  constructor
  · intro hnone line hline hcounts
    obtain ⟨i, last, hlast⟩ := exists_lastAt hline hcounts
    obtain ⟨value, hvalue⟩ := ((hreread last (List.mem_of_getElem? hlast.get)).counts hnamed key).2 hlast.holds
    rw [(refreshed_settings hnamed hreread h key value).2 ⟨i, last, hlast, hvalue⟩] at hnone
    cases hnone
  · intro hall
    cases hget : settings'.get? key with
    | none => rfl
    | some value =>
      obtain ⟨i, line, hlast, -⟩ := (refreshed_settings hnamed hreread h key value).1 hget
      exact absurd hlast.holds (hall line (List.mem_of_getElem? hlast.get))

section

variable {settings settings' : Dict Chars Chars}

theorem counts_about (hnamed : Named postgresConfig) (hvalue : postgresConfig.get? key = some value)
    (htruthy : value.truthy = true) (line : Chars) : Counts postgresConfig key line ↔ About postgresConfig key line := by
  constructor
  · rintro (hleft | ⟨value', hsome, -⟩)
    · exact .inr hleft
    · exact .inl ⟨value', hsome⟩
  · rintro (⟨value', hsome⟩ | hleft)
    · have hmem := Dict.get?_of_mem hnamed.nodup (mentioned_mem hsome).1
      obtain rfl := Option.some.inj (hvalue.symm.trans hmem)
      exact .inr ⟨value, hsome, htruthy⟩
    · exact .inl hleft

theorem counts_left (hnamed : Named postgresConfig)
    (hvalue : ∀ value, postgresConfig.get? key = some value → value.truthy = false) (line : Chars) :
    Counts postgresConfig key line ↔ Left postgresConfig key line := by
  constructor
  · rintro (hleft | ⟨value, hsome, htruthy⟩)
    · exact hleft
    · have hmem := Dict.get?_of_mem hnamed.nodup (mentioned_mem hsome).1
      rw [hvalue value hmem] at htruthy
      cases htruthy
  · exact .inl

theorem setting_left (hnamed : Named postgresConfig) (hkey : postgresConfig.get? key = none) (line : Chars) :
    Left postgresConfig key line ↔ Setting key line := by
  refine ⟨And.right, fun hset => ⟨?_, hset⟩⟩
  cases hmentioned : mentioned postgresConfig line with
  | none => rfl
  | some item =>
    have hmem := Dict.get?_of_mem hnamed.nodup (mentioned_mem hmentioned).1
    rw [setting_mentioned hnamed hset hmentioned, hkey] at hmem
    cases hmem

theorem Reread.line (hnamed : Named postgresConfig) {line key : Chars} (h : Reread postgresConfig line)
    {read : Chars} : readLine (after postgresConfig line) = .ok (some (key, read)) ↔
      readLine (refreshLine postgresConfig line) = .ok (some (key, read)) := by
  rcases h.becomes hnamed with ⟨hnone, hsame⟩ | ⟨key', value, hmentioned, hline, -⟩
  · rw [hsame, refreshLine, hnone]
  · rw [hline, refreshLine, hmentioned]

theorem wanted_iff (hnamed : Named postgresConfig) (hreads : Reads lines settings)
    (hreread : ∀ line ∈ lines, Reread postgresConfig line) (h : Reads (lines.map (after postgresConfig)) settings') :
    (∀ key, Wanted settings postgresConfig key (settings'.get? key)) ↔
      (∀ key value, postgresConfig.get? key = some value → value.truthy = true → ∀ i line read,
        LastAt (About postgresConfig key) lines i line → readLine (refreshLine postgresConfig line) = .ok (some (key, read)) →
          Wanted settings postgresConfig key (some read)) ∧
      ∀ key value, postgresConfig.get? key = some value → value.truthy = false →
        (∀ i line read, LastAt (Left postgresConfig key) lines i line → readLine line = .ok (some (key, read)) →
          Wanted settings postgresConfig key (some read)) ∧
        ((∀ line ∈ lines, ¬Left postgresConfig key line) → Wanted settings postgresConfig key none) := by
  have hget := refreshed_settings hnamed hreread h
  have hnone := refreshed_none hnamed hreread h
  have hleftRead : ∀ {key line read}, Left postgresConfig key line → line ∈ lines →
      (readLine (after postgresConfig line) = .ok (some (key, read)) ↔ readLine line = .ok (some (key, read))) := by
    intro key line read hleft hline
    rw [(hreread line hline).line hnamed, refreshLine, hleft.1]
  constructor
  · intro hwanted
    refine ⟨?_, ?_⟩
    · intro key value hvalue htruthy i line read hlast hread
      have hcounts := fun l (_ : l ∈ lines) => (counts_about hnamed hvalue htruthy l).symm
      have hmem := List.mem_of_getElem? hlast.get
      rw [← (hget key read).2 ⟨i, line, hlast.congr hcounts, ((hreread line hmem).line hnamed).2 hread⟩]
      exact hwanted key
    · intro key value hvalue hfalse
      have hleft : ∀ l, Counts postgresConfig key l ↔ Left postgresConfig key l := counts_left hnamed fun v hv => by
        obtain rfl := Option.some.inj (hvalue.symm.trans hv)
        exact hfalse
      constructor
      · intro i line read hlast hread
        have hmem := List.mem_of_getElem? hlast.get
        rw [← (hget key read).2 ⟨i, line, hlast.congr fun l _ => (hleft l).symm, (hleftRead hlast.holds hmem).2 hread⟩]
        exact hwanted key
      · intro hall
        rw [← (hnone key).2 fun l hl hcounts => hall l hl ((hleft l).1 hcounts)]
        exact hwanted key
  · rintro ⟨hlast, hcommented⟩ key
    cases hvalue : postgresConfig.get? key with
    | none =>
      -- No line of the key is replaced.
      have hsame : settings'.get? key = settings.get? key := by
        have hset : ∀ l ∈ lines, Counts postgresConfig key l ↔ Setting key l := fun l _ =>
          (counts_left hnamed (fun v hv => by rw [hvalue] at hv; cases hv) l).trans (setting_left hnamed hvalue l)
        apply Option.ext
        intro read
        rw [hget, hreads.settings]
        constructor
        · rintro ⟨i, line, hline, hread⟩
          have hleft := (setting_left hnamed hvalue line).2 ((hset line (List.mem_of_getElem? hline.get)).1 hline.holds)
          exact ⟨i, line, hline.congr hset, (hleftRead hleft (List.mem_of_getElem? hline.get)).1 hread⟩
        · rintro ⟨i, line, hline, hread⟩
          have hleft := (setting_left hnamed hvalue line).2 hline.holds
          exact ⟨i, line, hline.congr fun l hl => (hset l hl).symm, (hleftRead hleft (List.mem_of_getElem? hline.get)).2 hread⟩
      rw [Wanted, hsame]
      split
      · intro _ configured hconfigured
        rw [hvalue] at hconfigured
        cases hconfigured
      · rfl
    | some value =>
      cases htruthy : value.truthy with
      | true =>
        have hcounts := fun l (_ : l ∈ lines) => counts_about hnamed hvalue htruthy l
        cases hnew : settings'.get? key with
        | some read =>
          obtain ⟨i, line, hline, hread⟩ := (hget key read).1 hnew
          have hmem := List.mem_of_getElem? hline.get
          exact hlast key value hvalue htruthy i line read (hline.congr hcounts) (((hreread line hmem).line hnamed).1 hread)
        | none =>
          have hold : settings.get? key = none := by
            cases hget' : settings.get? key with
            | none => rfl
            | some got =>
              obtain ⟨i, line, hline, -⟩ := (hreads.settings key got).1 hget'
              have hmem := List.mem_of_getElem? hline.get
              refine absurd ?_ ((hnone key).1 hnew line hmem)
              rw [counts_about hnamed hvalue htruthy]
              cases hmentioned : mentioned postgresConfig line with
              | none => exact .inr ⟨hmentioned, hline.holds⟩
              | some item =>
                have hkey := setting_mentioned hnamed hline.holds hmentioned
                exact .inl ⟨item.2, by rw [hmentioned, ← hkey]⟩
          rw [Wanted, hold]
          split
          · exact fun h => absurd rfl h
          · rfl
      | false =>
        have hleft : ∀ l ∈ lines, Counts postgresConfig key l ↔ Left postgresConfig key l := fun l _ =>
          counts_left hnamed (fun v hv => by
            obtain rfl := Option.some.inj (hvalue.symm.trans hv)
            exact htruthy) l
        cases hnew : settings'.get? key with
        | some read =>
          obtain ⟨i, line, hline, hread⟩ := (hget key read).1 hnew
          have hmem := List.mem_of_getElem? hline.get
          have hkept := hline.congr hleft
          exact (hcommented key value hvalue htruthy).1 i line read hkept ((hleftRead hkept.holds hmem).1 hread)
        | none => exact (hcommented key value hvalue htruthy).2 fun l hl h => (hnone key).1 hnew l hl ((hleft l hl).2 h)

end

/-- On a section whose keys are names of settings, the refresh leaves a file that the parser accepts, with the configured values
of the managed settings and the old values of all others, and that a second run does not change, exactly where the file is
`Refreshable`. -/
theorem refresh_agrees_iff {content : Chars} {settings : Dict Chars Chars} (hparse : parseConf content = .ok settings)
    (hnamed : Named postgresConfig) : Agrees content settings postgresConfig ↔ Refreshable content settings postgresConfig := by
  have hreads := parseConf_spec hparse
  have hproper := proper_fileLines content
  have hcontent : (fileLines content).flatten = content := flatten_linesBy content
  have hupdate : updatePostgresqlConf postgresConfig (fileLines content).flatten = _ := update_eq hproper
  rw [hcontent] at hupdate
  have hlines : Single postgresConfig (fileLines content) →
      fileLines (updatePostgresqlConf postgresConfig content) = (fileLines content).map (after postgresConfig) := by
    intro hsingle
    rw [hupdate]
    exact fileLines_flatten (proper_after hnamed hproper hsingle)
  constructor
  · rintro ⟨⟨settings', hparse', hwanted⟩, hagain⟩
    have hsingle : Single postgresConfig (fileLines content) := by
      by_contra hmore
      have hlength := (update_length hnamed hproper).2 hmore
      rw [← hupdate, hagain] at hlength
      exact absurd hlength (Nat.lt_irrefl _)
    have hreads' := parseConf_spec hparse'
    rw [hlines hsingle] at hreads'
    have hreread : ∀ line ∈ fileLines content, Reread postgresConfig line := by
      intro line hline
      have hpiece := (hproper.pieces line hline).1
      obtain ⟨setting, hsetting⟩ := hreads'.readable _ (List.mem_map_of_mem hline)
      refine ⟨hpiece, hreads.readable line hline, fun hnone parsed hparsed hraw => ?_, fun key value hsome _ => ?_⟩
      · rw [after_kept hpiece hnone] at hsetting
        exact (piece_lined hpiece).lost hparsed hraw setting hsetting
      · rw [after_replaced hpiece hsome] at hsetting
        exact ⟨setting, hsetting⟩
    obtain ⟨hlast, hcommented⟩ := (wanted_iff hnamed hreads hreread hreads').1 hwanted
    exact ⟨fun line hline => (hreread line hline).kept,
      fun line hline key value hsome htruthy => ⟨hsingle line hline key value hsome htruthy, (hreread line hline).replaced key value hsome htruthy⟩,
      hlast, hcommented⟩
  · rintro ⟨hkept, hreplaced, hlast, hcommented⟩
    have hsingle : Single postgresConfig (fileLines content) :=
      fun line hline key value hsome htruthy => (hreplaced line hline key value hsome htruthy).1
    have hreread : ∀ line ∈ fileLines content, Reread postgresConfig line := fun line hline =>
      ⟨(hproper.pieces line hline).1, hreads.readable line hline, hkept line hline,
        fun key value hsome htruthy => (hreplaced line hline key value hsome htruthy).2⟩
    have hreadable : Readable ((fileLines content).map (after postgresConfig)) := by
      intro line' hline'
      obtain ⟨line, hline, rfl⟩ := List.mem_map.1 hline'
      exact (hreread line hline).readable hnamed
    have hparse' : parseConf (updatePostgresqlConf postgresConfig content) =
        .ok (assign (fun _ => settingOf) 1 ((fileLines content).map (after postgresConfig)) []) := by
      rw [parseConf, hlines hsingle]
      exact readLines_spec.2 ⟨hreadable, rfl⟩
    have hreads' := parseConf_spec hparse'
    rw [hlines hsingle] at hreads'
    refine ⟨⟨_, hparse', (wanted_iff hnamed hreads hreread hreads').2 ⟨hlast, hcommented⟩⟩, ?_⟩
    have hagain := update_again hnamed hproper hsingle
    rwa [hcontent] at hagain

def sampleSection : Dict Chars ConfigValue :=
  [("enabled".toList, .flag true), ("process_name".toList, .text "PostgreSQL".toList), ("suppress_logging".toList, .flag false),
    ("log_level".toList, .text "INFO".toList), ("host".toList, .text "127.0.0.1".toList), ("port".toList, .int 5433),
    ("databases".toList, .other false "[]".toList), ("config_dir".toList, .text "/postgres_data".toList),
    ("log_file".toList, .text "/log/postgres.log".toList), ("initdb_args".toList, .text "--data-checksums".toList),
    ("user".toList, .text "DUMB".toList), ("password".toList, .text "postgres".toList),
    ("shared_buffers".toList, .text "128MB".toList), ("max_connections".toList, .int 100),
    ("run_directory".toList, .text "/run/postgresql".toList), ("command".toList, .text "postgres".toList),
    ("env".toList, .other false "\x7b\x7d".toList)]

theorem refresh_agrees_iff_port : Agrees "port = 5432\n".toList [("port".toList, "5432".toList)] sampleSection ↔
    Refreshable "port = 5432\n".toList [("port".toList, "5432".toList)] sampleSection :=
  refresh_agrees_iff (by decide) ⟨by decide, by decide⟩

/-- A port without a blank after it is not found, and keeps its value. -/
theorem port_not_found : parseConf "port=5432\n".toList = .ok [("port".toList, "5432".toList)] ∧ Named sampleSection ∧
    ¬Agrees "port=5432\n".toList [("port".toList, "5432".toList)] sampleSection := by
  refine ⟨by decide, ⟨by decide, by decide⟩, fun h => ?_⟩
  obtain ⟨⟨settings', hparse, hwanted⟩, -⟩ := h
  have hread : parseConf (updatePostgresqlConf sampleSection "port=5432\n".toList) = .ok [("port".toList, "5432".toList)] := by decide
  obtain rfl := Except.ok.inj (hparse.symm.trans hread)
  have hport := hwanted "port".toList
  rw [Wanted, if_pos (by decide)] at hport
  exact absurd (hport (by decide) (.int 5433) rfl) (by decide)

end Dumb.Postgres.Conf
