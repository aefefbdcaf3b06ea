import Dumb.InfiniDysk.Database
import Mathlib.Data.List.DropRight

/-!
# Occurrences of the name

Two occurrences of `nzbdav` never overlap, and none arises where one has been replaced.
-/

namespace Dumb.InfiniDysk

open Py

def IsName (m : List Char) : Prop := m.map Char.toLower = "nzbdav".toList

variable {m : List Char}

theorem IsName.letters (h : IsName m) :
    ∃ n z b d a v, m = [n, z, b, d, a, v] ∧ n.toLower = 'n' ∧ z.toLower = 'z' ∧ b.toLower = 'b' ∧ d.toLower = 'd' ∧
      a.toLower = 'a' ∧ v.toLower = 'v' := by
  rcases m with _ | ⟨n, _ | ⟨z, _ | ⟨b, _ | ⟨d, _ | ⟨a, _ | ⟨v, _ | ⟨x, m⟩⟩⟩⟩⟩⟩⟩ <;> simp [IsName] at h
  exact ⟨n, z, b, d, a, v, rfl, h⟩

theorem namedAt_name (h : IsName m) (rest : List Char) : namedAt (m ++ rest) = true := by
  obtain ⟨n, z, b, d, a, v, rfl, hn, hz, hb, hd, ha, hv⟩ := h.letters
  simp [namedAt, hn, hz, hb, hd, ha, hv]

variable {cs : List Char}

theorem namedAt_split (h : namedAt cs = true) : ∃ m rest, IsName m ∧ cs = m ++ rest :=
  ⟨cs.take 6, cs.drop 6, by simpa [namedAt, IsName] using h, (List.take_append_drop 6 cs).symm⟩

variable {c : Char}

theorem namedAt_other (h : c.toLower ≠ 'n') (cs : List Char) : namedAt (c :: cs) = false := by
  simp [namedAt, h]

theorem name_induction {P : List Char → Prop} (nil : P [])
    (name : ∀ m rest, IsName m → P rest → P (m ++ rest))
    (keep : ∀ c cs, namedAt (c :: cs) = false → P cs → P (c :: cs)) (cs : List Char) : P cs := by
  induction h : cs.length using Nat.strong_induction_on generalizing cs with
  | _ n ih =>
    subst h
    cases cs with
    | nil => exact nil
    | cons c cs =>
      cases hnamed : namedAt (c :: cs) with
      | false => exact keep c cs hnamed (ih _ (by simp) cs rfl)
      | true =>
        obtain ⟨m, rest, hm, hsplit⟩ := namedAt_split hnamed
        have hlength : m.length = 6 := by simpa using congrArg List.length hm
        have hshorter : rest.length < (c :: cs).length := by
          rw [hsplit, List.length_append]
          omega
        rw [hsplit]
        exact name m rest hm (ih _ hshorter rest rfl)

theorem IsName.skips (h : IsName m) (rest : List Char) : ∃ n z b d a v, m = [n, z, b, d, a, v] ∧
    namedAt (n :: z :: b :: d :: a :: v :: rest) = true ∧ ∀ c ∈ [z, b, d, a, v], ∀ cs, namedAt (c :: cs) = false := by
  have hnamed := namedAt_name h rest
  obtain ⟨n, z, b, d, a, v, rfl, -, hz, hb, hd, ha, hv⟩ := h.letters
  refine ⟨n, z, b, d, a, v, rfl, hnamed, fun c hc => namedAt_other ?_⟩
  simp only [List.mem_cons, List.not_mem_nil, or_false] at hc
  rcases hc with rfl | rfl | rfl | rfl | rfl <;> simp [hz, hb, hd, ha, hv]

section

variable {word : Char → Bool} {new : List Char}

theorem subFrom_name (h : IsName m) (rest : List Char) :
    subFrom new 0 (m ++ rest) = new ++ subFrom new 0 rest := by
  obtain ⟨n, z, b, d, a, v, rfl, hnamed, -⟩ := h.skips rest
  simp [subFrom, hnamed]

theorem subFrom_keep (h : namedAt (c :: cs) = false) :
    subFrom new 0 (c :: cs) = c :: subFrom new 0 cs := by
  simp [subFrom, h]

def alone (word : Char → Bool) (prev : Option Char) (rest : List Char) : Bool := !prev.any word && !rest.head?.any word

theorem subWordFrom_name (h : IsName m) (prev : Option Char) (rest : List Char) :
    subWordFrom word new 0 prev (m ++ rest) =
      (if alone word prev rest then new else m) ++ subWordFrom word new 0 m.getLast? rest := by
  obtain ⟨n, z, b, d, a, v, rfl, hnamed, hskip⟩ := h.skips rest
  cases halone : alone word prev rest <;> simp only [alone] at halone <;>
    simp [subWordFrom, hnamed, halone, hskip]

theorem subWordFrom_keep (h : namedAt (c :: cs) = false) (prev : Option Char) :
    subWordFrom word new 0 prev (c :: cs) = c :: subWordFrom word new 0 (some c) cs := by
  simp [subWordFrom, h]

theorem wordFrom_name (h : IsName m) (prev : Option Char) (rest : List Char) :
    wordFrom word prev (m ++ rest) = (alone word prev rest || wordFrom word m.getLast? rest) := by
  obtain ⟨n, z, b, d, a, v, rfl, hnamed, hskip⟩ := h.skips rest
  simp [wordFrom, alone, hnamed, hskip]

theorem wordFrom_keep (h : namedAt (c :: cs) = false) (prev : Option Char) :
    wordFrom word prev (c :: cs) = wordFrom word (some c) cs := by
  simp [wordFrom, h]

theorem likeFrom_name (h : IsName m) (rest : List Char) : likeFrom (m ++ rest) = true := by
  obtain ⟨n, z, b, d, a, v, rfl, hnamed, -⟩ := h.skips rest
  simp [likeFrom, hnamed]

def IsNew (new : List Char) : Prop := new.map Char.toLower = "infinidysk".toList

theorem IsNew.letters (h : IsNew new) :
    ∃ i n f j t k d y s q, new = [i, n, f, j, t, k, d, y, s, q] ∧ i.toLower = 'i' ∧ n.toLower = 'n' ∧ f.toLower = 'f' ∧
      j.toLower = 'i' ∧ t.toLower = 'n' ∧ k.toLower = 'i' ∧ d.toLower = 'd' ∧ y.toLower = 'y' ∧ s.toLower = 's' ∧
      q.toLower = 'k' := by
  rcases new with _ | ⟨i, _ | ⟨n, _ | ⟨f, _ | ⟨j, _ | ⟨t, _ | ⟨k, _ | ⟨d, _ | ⟨y, _ | ⟨s, _ | ⟨q, _ | ⟨x, new⟩⟩⟩⟩⟩⟩⟩⟩⟩⟩⟩ <;>
    simp [IsNew] at h
  exact ⟨i, n, f, j, t, k, d, y, s, q, rfl, h⟩

theorem likeFrom_new (h : IsNew new) (rest : List Char) : likeFrom (new ++ rest) = likeFrom rest := by
  obtain ⟨i, n, f, j, t, k, d, y, s, q, rfl, hi, hn, hf, hj, ht, hk, hd, hy, hs, hq⟩ := h.letters
  simp [likeFrom, namedAt, hi, hn, hf, hj, ht, hk, hd, hy, hs, hq]

theorem prefix_subFrom (h : IsNew new) {w : List Char} (hw : 'i' ∉ w)
    (hbegins : w <+: (subFrom new 0 cs).map Char.toLower) : w <+: cs.map Char.toLower := by
  induction w generalizing cs with
  | nil => exact List.nil_prefix
  | cons x w ih =>
    simp only [List.mem_cons, not_or] at hw
    cases cs with
    | nil => simp [subFrom] at hbegins
    | cons c cs =>
      cases hnamed : namedAt (c :: cs) with
      | true =>
        obtain ⟨i, n, f, j, t, k, d, y, s, q, rfl, hi, -⟩ := h.letters
        simp only [subFrom, hnamed, if_true, List.cons_append, List.map_cons, List.cons_prefix_cons, hi] at hbegins
        exact absurd hbegins.1.symm hw.1
      | false =>
        rw [subFrom_keep hnamed, List.map_cons, List.cons_prefix_cons] at hbegins
        rw [List.map_cons, List.cons_prefix_cons]
        exact ⟨hbegins.1, ih hw.2 hbegins.2⟩

theorem namedAt_iff (cs : List Char) : namedAt cs = true ↔ "nzbdav".toList <+: cs.map Char.toLower := by
  rw [namedAt, decide_eq_true_iff, List.prefix_iff_eq_take, ← List.map_take]
  exact eq_comm

theorem likeFrom_subFrom (h : IsNew new) (cs : List Char) : likeFrom (subFrom new 0 cs) = false := by
  induction cs using name_induction with
  | nil => rfl
  | name m rest hm ih => rw [subFrom_name hm, likeFrom_new h, ih]
  | keep c cs hnamed ih =>
    rw [subFrom_keep hnamed, likeFrom, ih, Bool.or_false, Bool.eq_false_iff]
    intro hnew
    apply Bool.eq_false_iff.1 hnamed
    rw [namedAt_iff] at hnew ⊢
    simp only [List.map_cons, String.reduceToList, List.cons_prefix_cons] at hnew ⊢
    exact ⟨hnew.1, prefix_subFrom h (by simp) hnew.2⟩

theorem subFrom_eq_self (h : likeFrom cs = false) : subFrom new 0 cs = cs := by
  induction cs with
  | nil => rfl
  | cons c cs ih =>
    rw [likeFrom, Bool.or_eq_false_iff] at h
    rw [subFrom_keep h.1, ih h.2]

/-- Whether every occurrence of the name has the boundaries of `\b`. -/
def wholeFrom (word : Char → Bool) : Option Char → List Char → Bool
  | _, [] => true
  | prev, c :: cs => (!namedAt (c :: cs) || alone word prev (cs.drop 5)) && wholeFrom word (some c) cs

theorem wholeFrom_name (h : IsName m) (prev : Option Char) (rest : List Char) :
    wholeFrom word prev (m ++ rest) = (alone word prev rest && wholeFrom word m.getLast? rest) := by
  obtain ⟨n, z, b, d, a, v, rfl, hnamed, hskip⟩ := h.skips rest
  simp [wholeFrom, hnamed, hskip]

theorem wholeFrom_keep (h : namedAt (c :: cs) = false) (prev : Option Char) :
    wholeFrom word prev (c :: cs) = wholeFrom word (some c) cs := by
  simp [wholeFrom, h]

variable {prev : Option Char}

theorem subWordFrom_whole (h : wholeFrom word prev cs = true) :
    subWordFrom word new 0 prev cs = subFrom new 0 cs := by
  induction cs using name_induction generalizing prev with
  | nil => rfl
  | name m rest hm ih =>
    rw [wholeFrom_name hm, Bool.and_eq_true] at h
    rw [subWordFrom_name hm, if_pos h.1, subFrom_name hm, ih h.2]
  | keep c cs hnamed ih =>
    rw [wholeFrom_keep hnamed] at h
    rw [subWordFrom_keep hnamed, subFrom_keep hnamed, ih h]

theorem likeFrom_subWordFrom (hnew : IsNew new)
    (h : wholeFrom word prev cs = false) : likeFrom (subWordFrom word new 0 prev cs) = true := by
  induction cs using name_induction generalizing prev with
  | nil => cases h
  | name m rest hm ih =>
    rw [wholeFrom_name hm] at h
    rw [subWordFrom_name hm]
    cases halone : alone word prev rest with
    | false => exact likeFrom_name hm _
    | true =>
      rw [halone, Bool.true_and] at h
      rw [if_pos rfl, likeFrom_new hnew]
      exact ih h
  | keep c cs hnamed ih =>
    rw [wholeFrom_keep hnamed] at h
    rw [subWordFrom_keep hnamed, likeFrom, ih h, Bool.or_true]

theorem subWordFrom_eq_self (h : wordFrom word prev cs = false) :
    subWordFrom word new 0 prev cs = cs := by
  induction cs using name_induction generalizing prev with
  | nil => rfl
  | name m rest hm ih =>
    rw [wordFrom_name hm, Bool.or_eq_false_iff] at h
    rw [subWordFrom_name hm, h.1, ih h.2]
    rfl
  | keep c cs hnamed ih =>
    rw [wordFrom_keep hnamed] at h
    rw [subWordFrom_keep hnamed, ih h]

theorem wordFrom_of_not_like (h : likeFrom cs = false) :
    wordFrom word prev cs = false := by
  induction cs generalizing prev with
  | nil => rfl
  | cons c cs ih =>
    rw [likeFrom, Bool.or_eq_false_iff] at h
    rw [wordFrom_keep h.1, ih h.2]

theorem prefix_before {x : Char} {w pre rest : List Char} (hx : x ∉ w) (h : w <+: pre ++ x :: rest) : w <+: pre := by
  induction w generalizing pre with
  | nil => exact List.nil_prefix
  | cons y w ih =>
    simp only [List.mem_cons, not_or] at hx
    cases pre with
    | nil => exact absurd (List.cons_prefix_cons.1 h).1.symm hx.1
    | cons c pre =>
      rw [List.cons_append, List.cons_prefix_cons] at h
      exact List.cons_prefix_cons.2 ⟨h.1, ih hx.2 h.2⟩

theorem namedAt_slash (cs rest : List Char) : namedAt (cs ++ '/' :: rest) = namedAt cs := by
  rw [Bool.eq_iff_iff, namedAt_iff, namedAt_iff, List.map_append, List.map_cons]
  constructor
  · intro h
    exact prefix_before (by decide) h
  · intro h
    exact h.trans (List.prefix_append _ _)

theorem subFrom_slash (pre rest : List Char) :
    subFrom new 0 (pre ++ '/' :: rest) = subFrom new 0 pre ++ '/' :: subFrom new 0 rest := by
  induction pre using name_induction with
  | nil => rw [List.nil_append, subFrom_keep (namedAt_other (by decide) rest)]; rfl
  | name m pre hm ih => rw [List.append_assoc, subFrom_name hm, ih, subFrom_name hm, List.append_assoc]
  | keep c cs hnamed ih =>
    have hstill : namedAt (c :: (cs ++ '/' :: rest)) = false := (namedAt_slash (c :: cs) rest).trans hnamed
    rw [List.cons_append, subFrom_keep hstill, ih, subFrom_keep hnamed, List.cons_append]

end

theorem subFrom_mapping {mapping : String × String} (h : mapping ∈ namespacePathMappings) (rest : List Char) :
    subFrom "infinidysk".toList 0 (mapping.1.toList ++ rest) = mapping.2.toList ++ subFrom "infinidysk".toList 0 rest ∧
      subFrom "infinidysk".toList 0 (mapping.2.toList ++ rest) = mapping.2.toList ++ subFrom "infinidysk".toList 0 rest := by
  simp only [namespacePathMappings, List.mem_cons, List.not_mem_nil, or_false] at h
  rcases h with rfl | rfl | rfl | rfl | rfl <;> simp [subFrom, namedAt]

theorem below_eq {source value rest : List Char} (h : below source value = some rest) : value = source ++ rest := by
  simp only [below] at h
  split_ifs at h with hbegins
  obtain ⟨tail, rfl⟩ := List.isPrefixOf_iff_prefix.1 hbegins
  rw [List.drop_left] at h
  cases tail with
  | nil => rw [Option.some.inj h]
  | cons c cs =>
    simp only at h
    split_ifs at h
    rw [Option.some.inj h]

theorem below_head {mapping : String × String} (h : mapping ∈ namespacePathMappings) (rest : List Char) :
    (mapping.1.toList ++ rest).head? = some '/' ∧ (mapping.2.toList ++ rest).head? = some '/' := by
  simp only [namespacePathMappings, List.mem_cons, List.not_mem_nil, or_false] at h
  rcases h with rfl | rfl | rfl | rfl | rfl <;> exact ⟨rfl, rfl⟩

theorem mapped_cases (value : List Char) :
    (namespacePathMappings.findSome? fun m => (below m.1.toList value).map (m.2.toList ++ ·)) = none ∨
      ∃ m ∈ namespacePathMappings, ∃ rest, value = m.1.toList ++ rest ∧
        (namespacePathMappings.findSome? fun m => (below m.1.toList value).map (m.2.toList ++ ·)) = some (m.2.toList ++ rest) := by
  cases hfound : namespacePathMappings.findSome? fun m => (below m.1.toList value).map (m.2.toList ++ ·) with
  | none => exact .inl rfl
  | some rewritten =>
    obtain ⟨m, hm, hmapped⟩ := List.exists_of_findSome?_eq_some hfound
    obtain ⟨rest, hrest, rfl⟩ := Option.map_eq_some_iff.1 hmapped
    exact .inr ⟨m, hm, rest, below_eq hrest, rfl⟩

variable {value : String}

theorem replaceNamespaceText_path (h : value.toList.head? = some '/') :
    (replaceNamespaceText value).toList = subFrom "infinidysk".toList 0 value.toList := by
  rw [replaceNamespaceText, String.toList_ofList]
  rcases mapped_cases value.toList with hnone | ⟨m, hm, rest, hvalue, hsome⟩
  · rw [hnone, Option.getD_none, if_pos h]
  · rw [hsome, Option.getD_some, if_pos (below_head hm rest).2, hvalue, (subFrom_mapping hm rest).1,
      (subFrom_mapping hm rest).2]

theorem replaceNamespaceText_relative (h : value.toList.head? ≠ some '/') :
    replaceNamespaceText value = value := by
  rw [replaceNamespaceText]
  rcases mapped_cases value.toList with hnone | ⟨m, hm, rest, hvalue, -⟩
  · rw [hnone, Option.getD_none, if_neg h, String.ofList_toList]
  · rw [hvalue] at h
    exact absurd (below_head hm rest).1 h

section

variable {word : Char → Bool}

def token (display : Bool) : List Char := (if display then "InfiniDysk" else "infinidysk").toList

theorem token_isNew (display : Bool) : IsNew (token display) := by
  cases display <;> rfl

theorem slash_notMem_token (display : Bool) : '/' ∉ token display := by
  cases display <;> decide

theorem rewrite_toList (word : Char → Bool) (display : Bool) (value : String) :
    (if replaceNamespaceText value = value ∧ containsLegacyName word value then replaceLegacyToken word value display
      else replaceNamespaceText value).toList =
      if value.toList.head? = some '/' then subFrom (token false) 0 value.toList
      else subWordFrom word (token display) 0 none value.toList := by
  by_cases hpath : value.toList.head? = some '/'
  · have hrewritten := replaceNamespaceText_path hpath
    rw [if_pos hpath, if_neg]
    · exact hrewritten
    · rintro ⟨hsame, hname⟩
      rw [hsame] at hrewritten
      have hgone : likeFrom value.toList = false := hrewritten ▸ likeFrom_subFrom (token_isNew false) value.toList
      rw [containsLegacyName, wordFrom_of_not_like hgone] at hname
      cases hname
  · rw [if_neg hpath, replaceNamespaceText_relative hpath]
    cases hname : containsLegacyName word value with
    | true => rw [if_pos ⟨rfl, rfl⟩, replaceLegacyToken, String.toList_ofList]; rfl
    | false => rw [if_neg (by simp), subWordFrom_eq_self hname]

/-- Whether the name is a whole word wherever it stands in a text that is no path. -/
def Whole (word : Char → Bool) (value : String) : Prop :=
  value.toList.head? = some '/' ∨ wholeFrom word none value.toList = true

instance (value : String) : Decidable (Whole word value) :=
  inferInstanceAs (Decidable (value.toList.head? = some '/' ∨ wholeFrom word none value.toList = true))

/-- How the name is written in place of the one in `value`. -/
def tokenOf (display : Bool) (value : String) : List Char := token (display && value.toList.head? ≠ some '/')

theorem rewrite_whole {display : Bool} (h : Whole word value) :
    (if value.toList.head? = some '/' then subFrom (token false) 0 value.toList
      else subWordFrom word (token display) 0 none value.toList) = subFrom (tokenOf display value) 0 value.toList := by
  by_cases hpath : value.toList.head? = some '/'
  · rw [if_pos hpath, tokenOf]
    simp [hpath]
  · rw [if_neg hpath, subWordFrom_whole (h.resolve_left hpath), tokenOf]
    simp [hpath]

theorem like_rewrite {display : Bool} :
    likeFrom (if value.toList.head? = some '/' then subFrom (token false) 0 value.toList
      else subWordFrom word (token display) 0 none value.toList) = true ↔ ¬ Whole word value := by
  by_cases h : Whole word value
  · rw [rewrite_whole h, tokenOf, likeFrom_subFrom (token_isNew _)]
    simp [h]
  · rw [Whole, not_or, Bool.not_eq_true] at h
    rw [if_neg h.1, likeFrom_subWordFrom (token_isNew _) h.2]
    simp [Whole, h]

end

section

variable {new : List Char}

theorem mem_subFrom {skip : Nat} (h : c ∈ subFrom new skip cs) : c ∈ new ∨ c ∈ cs := by
  induction cs generalizing skip with
  | nil => cases skip <;> exact .inr h
  | cons x cs ih =>
    cases skip with
    | succ skip => exact (ih h).imp_right (List.mem_cons_of_mem x)
    | zero =>
      rw [subFrom] at h
      split_ifs at h with hnamed
      · rcases List.mem_append.1 h with h | h
        · exact .inl h
        · exact (ih h).imp_right (List.mem_cons_of_mem x)
      · rcases List.mem_cons.1 h with rfl | h
        · exact .inr List.mem_cons_self
        · exact (ih h).imp_right (List.mem_cons_of_mem x)

def lastComponent (path : String) : String := String.ofList (path.toList.rtakeWhile (· ≠ '/'))

theorem rtakeWhile_slash (pre : List Char) {last : List Char} (h : '/' ∉ last) :
    (pre ++ '/' :: last).rtakeWhile (· ≠ '/') = last := by
  have hall : ∀ c ∈ last.reverse, decide (c ≠ '/') = true := by
    intro c hc
    exact decide_eq_true fun hslash => h (hslash ▸ List.mem_reverse.1 hc)
  rw [List.rtakeWhile, List.reverse_append, List.reverse_cons, List.append_assoc, List.takeWhile_append_of_pos hall]
  simp

theorem component_cases (cs : List Char) :
    '/' ∉ cs ∨ ∃ pre last, cs = pre ++ '/' :: last ∧ '/' ∉ last := by
  induction cs with
  | nil => exact .inl List.not_mem_nil
  | cons c cs ih =>
    rcases ih with hnone | ⟨pre, last, rfl, hlast⟩
    · by_cases hc : c = '/'
      · exact .inr ⟨[], cs, by rw [hc]; rfl, hnone⟩
      · exact .inl (by simp [hnone, Ne.symm hc])
    · exact .inr ⟨c :: pre, last, rfl, hlast⟩

theorem rtakeWhile_subFrom (hnew : '/' ∉ new) (cs : List Char) :
    (subFrom new 0 cs).rtakeWhile (· ≠ '/') = subFrom new 0 (cs.rtakeWhile (· ≠ '/')) := by
  have hstays : ∀ {cs : List Char}, '/' ∉ cs → '/' ∉ subFrom new 0 cs := fun hcs h => (mem_subFrom h).elim hnew hcs
  have hwhole : ∀ {cs : List Char}, '/' ∉ cs → cs.rtakeWhile (· ≠ '/') = cs := by
    intro cs hcs
    rw [List.rtakeWhile_eq_self_iff]
    intro c hc
    exact decide_eq_true fun hslash => hcs (hslash ▸ hc)
  rcases component_cases cs with hcs | ⟨pre, last, rfl, hlast⟩
  · rw [hwhole hcs, hwhole (hstays hcs)]
  · rw [subFrom_slash, rtakeWhile_slash pre hlast, rtakeWhile_slash _ (hstays hlast)]

end

end Dumb.InfiniDysk
