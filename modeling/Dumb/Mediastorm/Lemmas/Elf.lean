import Dumb.Mediastorm.Elf

/-!
# What the probe reads

Each part of the probe against the part of the format that it reads.
-/

namespace Dumb.Mediastorm.Elf

open Py

variable {file : File} {data : Octets} {h : Layout} {reads : Reads}

/-! ## Numbers -/

theorem readAt_run {offset : Nat} (hoffset : offset < 2 ^ 63) (size : Nat) :
    (readAt file offset size).run reads = .ok (slice file.bytes offset size, reads ++ [(offset, size)]) := by
  rw [readAt, if_pos hoffset]
  rfl

theorem unpackFrom_eq (order : ByteOrder) {width offset : Nat} {buffer : Octets} (hsize : offset + width ≤ buffer.length) :
    unpackFrom order width buffer offset = pure (order.unsigned (slice buffer offset width)) := if_pos hsize

theorem number?_eq (order : ByteOrder) {offset width : Nat} (hsize : offset + width ≤ data.length) :
    number? order data offset width = some (order.unsigned (slice data offset width)) := by
  rw [number?, slice?_eq_some hsize]
  rfl

/-! ## The header -/

def layoutOf (data : Octets) (is64 : Bool) (endian : ByteOrder) : Layout where
  is64 := is64
  endian := endian
  shoff := endian.unsigned (slice data (if is64 then 40 else 32) (if is64 then 8 else 4))
  shentsize := endian.unsigned (slice data (if is64 then 58 else 46) 2)
  shnum := endian.unsigned (slice data (if is64 then 60 else 48) 2)

theorem getD_slice {offset size i : Nat} (hi : i < size) : (slice data offset size).getD i 0 = data.getD (offset + i) 0 := by
  rw [slice, List.getD_eq_getElem?_getD, List.getElem?_take_of_lt hi, List.getElem?_drop, ← List.getD_eq_getElem?_getD]

theorem take_slice {n size : Nat} (hn : n ≤ size) : (slice data 0 size).take n = slice data 0 n := by
  rw [slice, slice, List.take_take, Nat.min_eq_left hn]

def headerOf (data : Octets) : Option Layout :=
  if slice data 0 4 = elfMagic then
    (class? (data.getD 4 0)).bind fun is64 => (order? (data.getD 5 0)).map fun endian => layoutOf data is64 endian
  else none

theorem header?_eq (hsize : 64 ≤ data.length) : header? data = headerOf data := by
  have hheader : ∀ is64, slice? data 0 (headerSize is64) = some (slice data 0 (headerSize is64)) := by
    intro is64
    apply slice?_eq_some
    cases is64 <;> simp [headerSize] <;> omega
  rw [header?, slice?_eq_some (show 0 + 4 ≤ data.length by omega), slice?_eq_some (show 4 + 1 ≤ data.length by omega),
    slice?_eq_some (show 5 + 1 ≤ data.length by omega), headerOf]
  simp only [Option.bind_eq_bind, Option.bind_some, getD_slice (show 0 < 1 by decide), Nat.add_zero, hheader]
  by_cases hmagic : slice data 0 4 = elfMagic
  · rw [if_pos hmagic, if_pos hmagic]
    congr 1
    funext is64
    rw [Option.map_eq_bind]
    congr 1
    funext endian
    cases is64
    · simp only [number?_eq endian (show 32 + 4 ≤ data.length by omega), number?_eq endian (show 46 + 2 ≤ data.length by omega),
        number?_eq endian (show 48 + 2 ≤ data.length by omega), Bool.false_eq_true, if_false, Option.bind_some]
      rfl
    · simp only [number?_eq endian (show 40 + 8 ≤ data.length by omega), number?_eq endian (show 58 + 2 ≤ data.length by omega),
        number?_eq endian (show 60 + 2 ≤ data.length by omega), if_true, Option.bind_some]
      rfl
  · rw [if_neg hmagic, if_neg hmagic]
    rfl

def accepted (data : Octets) : Option Layout := (headerOf data).filter fun h => h.sectionless || h.tabled

theorem elfHeaderLayout_short (hsize : file.bytes.length < 64) :
    (elfHeaderLayout file).run reads = .ok (none, reads ++ [(0, 64)]) := by
  have hshort : (slice file.bytes 0 64).length < 64 := by
    rw [length_slice]
    omega
  rw [elfHeaderLayout, StateT.run_bind, readAt_run (by decide)]
  simp only [bind, Except.bind]
  rw [if_pos (by simp [hshort])]
  rfl

theorem checkLayout_eq (h : Layout) : checkLayout h = (some h).filter fun h => h.sectionless || h.tabled := by
  have htabled : (h.shnum = 0 || maxElfSections < h.shnum || h.shentsize < (if h.is64 then 44 else 40) ||
      maxElfSectionTableBytes < h.shentsize * h.shnum) = !h.tabled := by
    simp only [Layout.tabled, Bool.not_and, ← decide_not, not_not, Nat.not_le, Bool.or_assoc, ne_eq]
  rw [checkLayout, Option.filter_some, htabled, ← Layout.sectionless]
  cases h.sectionless <;> cases h.tabled <;> rfl

theorem class_cases (x : UInt8) : x = 1 ∨ x = 2 ∨ x ≠ 1 ∧ x ≠ 2 := by
  by_cases h1 : x = 1
  · exact .inl h1
  · by_cases h2 : x = 2
    · exact .inr (.inl h2)
    · exact .inr (.inr ⟨h1, h2⟩)

theorem elfHeaderLayout_run (hsize : 64 ≤ file.bytes.length) :
    (elfHeaderLayout file).run reads = .ok (accepted file.bytes, reads ++ [(0, 64)]) := by
  have hfull : (slice file.bytes 0 64).length = 64 := slice_full (by omega)
  have hunpack : ∀ (order : ByteOrder) {offset width : Nat}, offset + width ≤ 64 →
      unpackFrom order width (slice file.bytes 0 64) offset = pure (order.unsigned (slice file.bytes offset width)) := by
    intro order offset width hbound
    rw [unpackFrom_eq order (by omega), slice_slice hbound, Nat.zero_add]
  rw [elfHeaderLayout, StateT.run_bind, readAt_run (by decide)]
  simp only [bind, Except.bind]
  rw [take_slice (by decide), hfull, accepted, headerOf]
  by_cases hmagic : slice file.bytes 0 4 = elfMagic
  · rw [if_neg (by simp [hmagic]), if_pos hmagic]
    simp only [getD_slice (show 4 < 64 by decide), getD_slice (show 5 < 64 by decide), Nat.zero_add]
    have hlayout : ∀ is64 endian, unpackLayout is64 endian (slice file.bytes 0 64) = pure (layoutOf file.bytes is64 endian) := by
      intro is64 endian
      cases is64 <;> simp [unpackLayout, hunpack, layoutOf]
    rw [hlayout]
    generalize file.bytes.getD 4 0 = c
    generalize file.bytes.getD 5 0 = d
    simp only [checkLayout_eq]
    rcases class_cases c with rfl | rfl | ⟨hc1, hc2⟩
    · rcases class_cases d with rfl | rfl | ⟨hd1, hd2⟩
      · rfl
      · rfl
      · rw [if_pos (by simp [hd1, hd2]), order?, if_neg hd1, if_neg hd2]
        rfl
    · rcases class_cases d with rfl | rfl | ⟨hd1, hd2⟩
      · rfl
      · rfl
      · rw [if_pos (by simp [hd1, hd2]), order?, if_neg hd1, if_neg hd2]
        rfl
    · rw [if_pos (by simp [hc1, hc2]), class?, if_neg hc1, if_neg hc2]
      rfl
  · rw [if_pos (by simp [hmagic]), if_neg hmagic]
    rfl

/-! ## The sections -/

def sectionOf (data : Octets) (h : Layout) (start : Nat) : Section where
  shType := h.endian.unsigned (slice data (start + 4) 4)
  shOffset := h.endian.unsigned (slice data (start + if h.is64 then 24 else 16) (if h.is64 then 8 else 4))
  shSize := h.endian.unsigned (slice data (start + if h.is64 then 32 else 20) (if h.is64 then 8 else 4))
  shLink := h.endian.unsigned (slice data (start + if h.is64 then 40 else 24) 4)

theorem unpackSection_eq (hentry : (if h.is64 then 44 else 40) ≤ h.shentsize) {start : Nat}
    (hfull : start + h.shentsize ≤ data.length) :
    unpackSection h (slice data start h.shentsize) = pure (sectionOf data h start) := by
  have hblock : (slice data start h.shentsize).length = h.shentsize := slice_full hfull
  have hunpack : ∀ {offset width : Nat}, offset + width ≤ h.shentsize →
      unpackFrom h.endian width (slice data start h.shentsize) offset =
        pure (h.endian.unsigned (slice data (start + offset) width)) := by
    intro offset width hbound
    rw [unpackFrom_eq h.endian (by omega), slice_slice hbound]
  rw [unpackSection]
  cases h64 : h.is64 with
  | false =>
    rw [h64] at hentry
    have hsize : 40 ≤ h.shentsize := hentry
    simp only [Bool.false_eq_true, if_false]
    rw [hunpack (by omega), hunpack (by omega), hunpack (by omega), hunpack (by omega), sectionOf, h64]
    rfl
  | true =>
    rw [h64] at hentry
    have hsize : 44 ≤ h.shentsize := hentry
    simp only [if_true]
    rw [hunpack (by omega), hunpack (by omega), hunpack (by omega), hunpack (by omega), sectionOf, h64]
    rfl

theorem sectionAt?_eq (hentry : (if h.is64 then 44 else 40) ≤ h.shentsize) (index : Nat) :
    sectionAt? data h index = if h.shoff + index * h.shentsize + h.shentsize ≤ data.length then
      some (sectionOf data h (h.shoff + index * h.shentsize)) else none := by
  rw [sectionAt?]
  by_cases hfull : h.shoff + index * h.shentsize + h.shentsize ≤ data.length
  · rw [if_pos hfull]
    simp only [slice?_eq_some hfull, Option.bind_eq_bind, Option.bind_some]
    generalize h.shoff + index * h.shentsize = start at hfull
    cases h64 : h.is64 with
    | false =>
      rw [h64] at hentry
      have hsize : 40 ≤ h.shentsize := hentry
      simp only [Bool.false_eq_true, if_false]
      rw [number?_eq h.endian (by omega), number?_eq h.endian (by omega), number?_eq h.endian (by omega),
        number?_eq h.endian (by omega), sectionOf, h64]
      rfl
    | true =>
      rw [h64] at hentry
      have hsize : 44 ≤ h.shentsize := hentry
      simp only [if_true]
      rw [number?_eq h.endian (by omega), number?_eq h.endian (by omega), number?_eq h.endian (by omega),
        number?_eq h.endian (by omega), sectionOf, h64]
      rfl
  · rw [if_neg hfull]
    have hnone : slice? data (h.shoff + index * h.shentsize) h.shentsize = none := slice?_eq_none (by omega)
    simp only [hnone, Option.bind_eq_bind, Option.bind_none]

theorem unpackSections_eq (hentry : (if h.is64 then 44 else 40) ≤ h.shentsize) (indices : List Nat)
    (hindices : ∀ i ∈ indices, i < h.shnum) :
    unpackSections h (slice data h.shoff (h.shentsize * h.shnum)) indices = pure (indices.mapM (sectionAt? data h)) := by
  induction indices with
  | nil => rfl
  | cons index rest ih =>
    have hinside : index * h.shentsize + h.shentsize ≤ h.shentsize * h.shnum := by
      have hnext : index + 1 ≤ h.shnum := hindices index List.mem_cons_self
      calc index * h.shentsize + h.shentsize = (index + 1) * h.shentsize := by rw [Nat.add_mul, Nat.one_mul]
        _ ≤ h.shnum * h.shentsize := Nat.mul_le_mul_right _ hnext
        _ = h.shentsize * h.shnum := Nat.mul_comm _ _
    have hpositive : 0 < h.shentsize := by
      cases h64 : h.is64 <;> rw [h64] at hentry <;> simp at hentry <;> omega
    rw [unpackSections, slice_slice hinside, length_slice, List.mapM_cons, sectionAt?_eq hentry]
    by_cases hfull : h.shoff + index * h.shentsize + h.shentsize ≤ data.length
    · rw [if_pos hfull, if_neg (by omega), unpackSection_eq hentry hfull, pure_bind,
        ih fun i hi => hindices i (List.mem_cons_of_mem index hi), pure_bind]
      cases rest.mapM (sectionAt? data h) <;> rfl
    · rw [if_neg hfull, if_pos (by omega)]
      rfl

theorem accepted_sections {layout : Layout} (haccepted : accepted data = some layout) :
    headerOf data = some layout ∧ layout.shentsize * layout.shnum ≤ 2 ^ 20 ∧
      unpackSections layout (slice data layout.shoff (layout.shentsize * layout.shnum)) (List.range layout.shnum) =
        pure (sections? data layout) := by
  obtain ⟨hheader, htests⟩ := Option.filter_eq_some_iff.1 haccepted
  refine ⟨hheader, ?_⟩
  rw [sections?]
  cases hnone : layout.sectionless with
  | true =>
    have hzero : layout.shnum = 0 := by
      simp only [Layout.sectionless, Bool.and_eq_true, decide_eq_true_eq] at hnone
      exact hnone.2
    rw [hzero]
    exact ⟨by simp, rfl⟩
  | false =>
    rw [hnone, Bool.false_or] at htests
    rw [if_neg (by simp), if_pos htests]
    simp only [Layout.tabled, Bool.and_eq_true, decide_eq_true_eq] at htests
    exact ⟨htests.2, unpackSections_eq htests.1.2 _ fun i hi => List.mem_range.1 hi⟩

theorem not_accepted (hsize : 64 ≤ data.length) (haccepted : accepted data = none) : dynamic? data = none := by
  rw [dynamic?, header?_eq hsize]
  cases hheader : headerOf data with
  | none => rfl
  | some layout =>
    rw [accepted, hheader, Option.filter_some] at haccepted
    have htests : (layout.sectionless || layout.tabled) = false := by
      by_contra h
      rw [Bool.not_eq_false] at h
      rw [h] at haccepted
      cases haccepted
    rw [Bool.or_eq_false_iff] at htests
    simp [sections?, htests.1, htests.2]

/-! ## The dynamic section -/

def throughNull : List Entry → List Entry
  | [] => []
  | e :: rest => if e.1 = 0 then [e] else e :: throughNull rest

theorem takeWhile_throughNull (es : List Entry) :
    (throughNull es).takeWhile (fun e => e.1 ≠ 0) = es.takeWhile fun e => e.1 ≠ 0 := by
  induction es with
  | nil => rfl
  | cons e rest ih =>
    by_cases he : e.1 = 0
    · simp [throughNull, he]
    · simp only [throughNull, if_neg he, List.takeWhile_cons, ih]

theorem two_halves (is64 : Bool) : 2 * (entrySize is64 / 2) = entrySize is64 := by cases is64 <;> rfl

theorem unpackEntries_eq (dynamicData : Octets) (indices : List Nat)
    (hindices : ∀ i ∈ indices, i < dynamicData.length / entrySize h.is64) :
    unpackEntries h dynamicData indices = pure (throughNull (indices.map (entryAt h dynamicData))) := by
  induction indices with
  | nil => rfl
  | cons index rest ih =>
    have hinside : index * entrySize h.is64 + 2 * (entrySize h.is64 / 2) ≤ dynamicData.length := by
      rw [two_halves, ← Nat.succ_mul]
      exact Nat.le_trans (Nat.mul_le_mul_right _ (hindices index List.mem_cons_self)) (Nat.div_mul_le_self _ _)
    rw [unpackEntries]
    simp only [if_neg (Nat.not_lt.2 hinside), List.map_cons, throughNull]
    rw [ih fun i hi => hindices i (List.mem_cons_of_mem index hi)]
    by_cases hnull : (entryAt h dynamicData index).1 = 0
    · rw [if_pos hnull]
      exact if_pos hnull
    · rw [if_neg hnull]
      exact if_neg hnull

theorem entries_eq (dynamicData : Octets) :
    (throughNull ((List.range (dynamicData.length / entrySize h.is64)).map (entryAt h dynamicData))).takeWhile
      (fun e => e.1 ≠ 0) = entries h dynamicData := takeWhile_throughNull _

def trimmed (info : Option (Option (Octets × List Entry))) : Option (Option (Octets × List Entry)) :=
  info.map fun found => found.map fun (strtab, es) => (strtab, es.takeWhile fun e => e.1 ≠ 0)

theorem contents?_inside {s : Section} {bytes : Octets} (hcontents : contents? data s = some bytes) :
    s.shSize ≤ maxElfDynamicReadBytes ∧ s.shOffset + s.shSize ≤ data.length := by
  rw [contents?] at hcontents
  by_cases hsize : s.shSize ≤ maxElfDynamicReadBytes
  · rw [if_pos hsize, slice?] at hcontents
    by_cases hinside : s.shOffset + s.shSize ≤ data.length
    · exact ⟨hsize, hinside⟩
    · rw [if_neg hinside] at hcontents
      cases hcontents
  · rw [if_neg hsize] at hcontents
    cases hcontents

theorem readDynamic_run (file : File) (h : Layout) (reads : Reads) (sections : List Section) :
    ∃ info more, (readDynamic file h sections).run reads = .ok (info, reads ++ more) ∧
      more.length ≤ 2 ∧ (∀ read ∈ more, read.2 ≤ 2 ^ 20) ∧ trimmed info = dynamicOf? file.bytes h sections := by
  rw [readDynamic, dynamicOf?]
  cases dynamicSection sections with
  | none => exact ⟨some none, [], by rw [List.append_nil]; rfl, by simp, by simp, rfl⟩
  | some dynamic =>
    dsimp only
    cases sections[dynamic.shLink]? with
    | none => exact ⟨none, [], by rw [List.append_nil]; rfl, by simp, by simp, rfl⟩
    | some linked =>
      simp only [Option.bind_eq_bind, Option.bind_some, contents?]
      by_cases hinside : (linked.shOffset + linked.shSize ≤ file.bytes.length && linked.shSize ≤ maxElfDynamicReadBytes &&
          dynamic.shOffset + dynamic.shSize ≤ file.bytes.length && dynamic.shSize ≤ maxElfDynamicReadBytes) = true
      · rw [if_pos hinside]
        simp only [Bool.and_eq_true, decide_eq_true_eq] at hinside
        obtain ⟨⟨⟨hstrtab, hstrtabSize⟩, hdynamic⟩, hdynamicSize⟩ := hinside
        have hfits := file.fits
        rw [StateT.run_bind, readAt_run (by omega), if_pos hstrtabSize, if_pos hdynamicSize, slice?_eq_some hstrtab,
          slice?_eq_some hdynamic]
        simp only [bind, Except.bind]
        have hsecond : (readAt file dynamic.shOffset dynamic.shSize) (reads ++ [(linked.shOffset, linked.shSize)]) =
            .ok (slice file.bytes dynamic.shOffset dynamic.shSize,
              reads ++ [(linked.shOffset, linked.shSize)] ++ [(dynamic.shOffset, dynamic.shSize)]) := readAt_run (by omega) _
        rw [StateT.run, StateT.bind, hsecond]
        simp only [bind, Except.bind]
        rw [unpackEntries_eq _ _ fun i hi => List.mem_range.1 hi]
        refine ⟨_, [(linked.shOffset, linked.shSize), (dynamic.shOffset, dynamic.shSize)], by rw [List.append_assoc]; rfl,
          by simp, ?_, ?_⟩
        · simp only [List.mem_cons, List.not_mem_nil, or_false, forall_eq_or_imp, forall_eq]
          exact ⟨hstrtabSize, hdynamicSize⟩
        · rw [trimmed, Option.map_some, Option.map_some]
          simp only [entries_eq, Option.bind_some]
      · rw [if_neg hinside]
        refine ⟨none, [], by rw [List.append_nil]; rfl, by simp, by simp, ?_⟩
        change none = (contents? file.bytes linked).bind fun strtab => (contents? file.bytes dynamic).bind fun dynamicData =>
          some (some (strtab, entries h dynamicData))
        simp only [Bool.and_eq_true, decide_eq_true_eq] at hinside
        cases hlinked : contents? file.bytes linked with
        | none => rfl
        | some strtab =>
          cases hdynamic : contents? file.bytes dynamic with
          | none => rfl
          | some dynamicData =>
            obtain ⟨hstrtabSize, hstrtab⟩ := contents?_inside hlinked
            obtain ⟨hdynamicSize, hdata⟩ := contents?_inside hdynamic
            exact absurd ⟨⟨⟨hstrtab, hstrtabSize⟩, hdata⟩, hdynamicSize⟩ hinside

theorem elfDynamicInfo_run (hsize : 64 ≤ file.bytes.length)
    (hseek : ∀ layout, accepted file.bytes = some layout → layout.shoff < 2 ^ 63) :
    ∃ info reads, (elfDynamicInfo file).run [] = .ok (info, reads) ∧ Bounded reads ∧ trimmed info = dynamic? file.bytes := by
  rw [elfDynamicInfo, StateT.run_bind, elfHeaderLayout_run hsize]
  cases haccepted : accepted file.bytes with
  | none => exact ⟨none, [(0, 64)], rfl, ⟨rfl, by simp, by simp⟩, (not_accepted hsize haccepted).symm⟩
  | some layout =>
    obtain ⟨hheader, htable, hsections⟩ := accepted_sections haccepted
    rw [dynamic?, header?_eq hsize, hheader]
    have htable' : (readAt file layout.shoff (layout.shentsize * layout.shnum)) ([] ++ [(0, 64)]) = .ok
        (slice file.bytes layout.shoff (layout.shentsize * layout.shnum),
          [(0, 64), (layout.shoff, layout.shentsize * layout.shnum)]) := readAt_run (hseek layout haccepted) _
    simp only [Option.bind_some, bind, Except.bind, StateT.run, StateT.bind, htable', hsections]
    cases hfound : sections? file.bytes layout with
    | none => exact ⟨none, _, rfl, ⟨rfl, by simp, by simpa using htable⟩, rfl⟩
    | some sections =>
      obtain ⟨info, more, hrun, hlength, hmore, htrimmed⟩ := readDynamic_run file layout
        [(0, 64), (layout.shoff, layout.shentsize * layout.shnum)] sections
      refine ⟨info, _, hrun, ⟨rfl, by simp; omega, ?_⟩, htrimmed⟩
      intro read hread
      rcases List.mem_cons.1 hread with rfl | hread
      · exact htable
      · exact hmore read hread

/-! ## Names -/

variable (decode : Octets → String)

theorem takeWhile_short {bytes : Octets} : (bytes.takeWhile (· ≠ 0)).length < bytes.length ↔ 0 ∈ bytes := by
  induction bytes with
  | nil => simp
  | cons b rest ih =>
    by_cases hb : b = 0
    · simp [hb]
    · rw [List.takeWhile_cons_of_pos (by simpa using hb), List.length_cons, List.length_cons, Nat.add_lt_add_iff_right, ih]
      simp [Ne.symm hb]

variable {strtab : Octets}

theorem string?_isSome {offset : Nat} :
    (offset < strtab.length && ((strtab.drop offset).takeWhile (· ≠ 0)).length < (strtab.drop offset).length) =
      (string? strtab offset).isSome := by
  rw [Bool.eq_iff_iff, Bool.and_eq_true, decide_eq_true_eq, decide_eq_true_eq, takeWhile_short, string?]
  by_cases hzero : 0 ∈ strtab.drop offset
  · have hinside : offset < strtab.length := by
      by_contra hpast
      rw [List.drop_eq_nil_of_le (by omega)] at hzero
      cases hzero
    simp [hzero, hinside]
  · simp [hzero]

def foundStrings (strtab : Octets) (tag : Int) (es : List Entry) : List String :=
  (es.filter fun e => e.1 = tag).filterMap fun e => (string? strtab e.2).map decode

theorem elfString_eq (strtab : Octets) {tag : Int} (htag : tag ≠ 0) (es : List Entry) :
    elfString decode strtab tag es = foundStrings decode strtab tag (es.takeWhile fun e => e.1 ≠ 0) := by
  induction es with
  | nil => rfl
  | cons e rest ih =>
    obtain ⟨dTag, dVal⟩ := e
    rw [elfString]
    by_cases hsame : dTag = tag
    · subst hsame
      rw [if_pos rfl, List.takeWhile_cons_of_pos (by simpa using htag), foundStrings, List.filter_cons_of_pos (by simp),
        List.filterMap_cons, ih, foundStrings]
      simp only [string?_isSome]
      by_cases hzero : 0 ∈ strtab.drop dVal
      · simp [string?, hzero]
      · simp [string?, hzero]
    · rw [if_neg hsame]
      by_cases hnull : dTag = 0
      · rw [if_pos hnull, List.takeWhile_cons_of_neg (by simpa using hnull)]
        rfl
      · rw [if_neg hnull, List.takeWhile_cons_of_pos (by simpa using hnull), ih, foundStrings, foundStrings,
          List.filter_cons_of_neg (by simpa using hsame)]

theorem strings?_eq {tag : Int} {es : List Entry}
    (hinside : ∀ e ∈ es, e.1 = tag → (string? strtab e.2).isSome) :
    strings? decode strtab tag es = some (foundStrings decode strtab tag es) := by
  rw [strings?, foundStrings]
  have hfiltered : ∀ e ∈ es.filter fun e => e.1 = tag, (string? strtab e.2).isSome := by
    intro e he
    obtain ⟨hmem, htag⟩ := List.mem_filter.1 he
    exact hinside e hmem (by simpa using htag)
  generalize es.filter (fun e => e.1 = tag) = named at hfiltered
  induction named with
  | nil => rfl
  | cons e rest ih =>
    obtain ⟨name, hname⟩ := Option.isSome_iff_exists.1 (hfiltered e List.mem_cons_self)
    rw [List.mapM_cons, List.filterMap_cons, ih fun f hf => hfiltered f (List.mem_cons_of_mem e hf), hname]
    rfl

theorem strings?_none {tag : Int} {es : List Entry} {e : Entry} (he : e ∈ es) (htag : e.1 = tag)
    (hnone : string? strtab e.2 = none) : strings? decode strtab tag es = none := by
  rw [strings?]
  have hmem : e ∈ es.filter fun e => e.1 = tag := List.mem_filter.2 ⟨he, by simpa using htag⟩
  generalize es.filter (fun e => e.1 = tag) = named at hmem
  induction named with
  | nil => cases hmem
  | cons f rest ih =>
    rw [List.mapM_cons]
    rcases List.mem_cons.1 hmem with rfl | hmem
    · rw [hnone]
      rfl
    · rw [ih hmem]
      cases (string? strtab f.2).map decode <;> rfl

end Dumb.Mediastorm.Elf
