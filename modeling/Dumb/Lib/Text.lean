import Mathlib.Data.List.DropRight
import Dumb.Lib.Json

/-!
# Python strings

Splitting, joining and replacing are computed on the characters. What depends on Unicode tables, or on how a
value prints, is a parameter that behaves as documented where a proof looks at it.
-/

namespace Py

def split (sep : Char) (s : String) : List String := (s.toList.splitOn sep).map String.ofList

def join (sep : Char) (parts : List String) : String := String.ofList ([sep].intercalate (parts.map String.toList))

/-- The characters of `s.replace(old, new)`, with `skip` characters of a match still to pass over. -/
def replaceFrom (old new : List Char) : Nat → List Char → List Char
  | _, [] => []
  | skip + 1, _ :: cs => replaceFrom old new skip cs
  | 0, c :: cs =>
    if old.isPrefixOf (c :: cs) then new ++ replaceFrom old new (old.length - 1) cs
    else c :: replaceFrom old new 0 cs

def replace (old new s : String) : String := String.ofList (replaceFrom old.toList new.toList 0 s.toList)

/-! Properties of all characters of a list are decided along the list. -/

instance decidableAllChars (cs : List Char) (p : Char → Prop) [DecidablePred p] : Decidable (∀ c ∈ cs, p c) :=
  List.decidableBAll p cs

instance decidableSomeChar (c : Option Char) (p : Char → Prop) [DecidablePred p] : Decidable (∀ d ∈ c, p d) :=
  Option.decidableForallMem c

def Plain (s : String) : Prop := ∀ c ∈ s.toList, 33 ≤ c.toNat ∧ c.toNat ≤ 126

instance (s : String) : Decidable (Plain s) := List.decidableBAll (fun c : Char => 33 ≤ c.toNat ∧ c.toNat ≤ 126) s.toList

def asciiLower (s : String) : String := String.ofList (s.toList.map Char.toLower)

theorem toLower_toLower (c : Char) : c.toLower.toLower = c.toLower := by
  have hlower (d : Char) (h : ¬(65 ≤ d.toNat ∧ d.toNat ≤ 90)) : d.toLower = d := dif_neg h
  by_cases hc : 65 ≤ c.toNat ∧ c.toNat ≤ 90
  · apply hlower
    have hupper : c.val ≥ 'A'.val ∧ c.val ≤ 'Z'.val := hc
    have hval : c.toLower.val = c.val + 32 := congrArg Char.val (dif_pos hupper)
    have hvalue : c.toLower.toNat = c.toNat + 32 := by
      have hsmall : c.val.toNat ≤ 90 := hc.2
      rw [Char.toNat, Char.toNat, hval, UInt32.toNat_add]
      apply Nat.mod_eq_of_lt
      have htwo : (32 : UInt32).toNat = 32 := rfl
      omega
    omega
  · rw [hlower c hc, hlower c hc]

structure Text where
  strip : String → String
  lower : String → String
  casefold : String → String
  /-- `str(value)`. -/
  str : Json → String
  str_str (s : String) : str (.str s) = s
  str_arr (items : List Json) : strip (str (.arr items)) ≠ ""
  str_obj (members : List (String × Json)) : strip (str (.obj members)) ≠ ""
  strip_plain {s : String} (h : Plain s) : strip s = s
  lower_plain {s : String} (h : Plain s) : lower s = asciiLower s
  casefold_plain {s : String} (h : Plain s) : casefold s = asciiLower s

def asciiStrip (s : String) : String :=
  String.ofList ((s.toList.dropWhile Char.isWhitespace).reverse.dropWhile Char.isWhitespace).reverse

theorem printable_not_white {c : Char} (h : 33 ≤ c.toNat) : c.isWhitespace = false := by
  simp only [Char.isWhitespace, Bool.or_eq_false_iff, decide_eq_false_iff_not]
  refine ⟨⟨⟨?_, ?_⟩, ?_⟩, ?_⟩ <;> rintro rfl <;> exact absurd h (by decide)

theorem dropWhile_plain {cs : List Char} (h : ∀ c ∈ cs, 33 ≤ c.toNat ∧ c.toNat ≤ 126) :
    cs.dropWhile Char.isWhitespace = cs := by
  cases cs with
  | nil => rfl
  | cons c cs => simp [printable_not_white (h c List.mem_cons_self).1]

theorem asciiStrip_plain {s : String} (h : Plain s) : asciiStrip s = s := by
  have hreverse : ∀ c ∈ s.toList.reverse, 33 ≤ c.toNat ∧ c.toNat ≤ 126 := fun c hc => h c (List.mem_reverse.1 hc)
  rw [asciiStrip, dropWhile_plain h, dropWhile_plain hreverse, List.reverse_reverse, String.ofList_toList]

theorem asciiStrip_toList (s : String) :
    (asciiStrip s).toList = (s.toList.dropWhile Char.isWhitespace).rdropWhile Char.isWhitespace := by
  rw [asciiStrip, String.toList_ofList, List.rdropWhile]

theorem asciiStrip_eq_self {s : String} : asciiStrip s = s ↔
    (∀ c ∈ s.toList.head?, c.isWhitespace = false) ∧ ∀ c ∈ s.toList.getLast?, c.isWhitespace = false := by
  rw [← String.toList_inj, asciiStrip_toList]
  constructor
  · intro h
    constructor
    · have hfront := List.head?_dropWhile_not Char.isWhitespace s.toList
      intro c hc
      obtain ⟨rest, hrest⟩ := List.rdropWhile_prefix Char.isWhitespace (s.toList.dropWhile Char.isWhitespace)
      rw [h] at hrest
      rw [← hrest, List.head?_append, Option.mem_def.1 hc] at hfront
      exact hfront
    · intro c hc
      obtain ⟨hne, rfl⟩ := List.mem_getLast?_eq_getLast hc
      rw [← h] at hne
      have hlast := List.rdropWhile_last_not Char.isWhitespace _ hne
      simpa [h] using hlast
  · rintro ⟨hfront, hback⟩
    have hdrop : s.toList.dropWhile Char.isWhitespace = s.toList := by
      cases hlist : s.toList with
      | nil => rfl
      | cons c cs => simp [hfront c (by simp [hlist])]
    rw [hdrop, List.rdropWhile_eq_self_iff]
    intro hne
    simpa using hback _ (List.getLast?_eq_some_getLast hne)

theorem asciiStrip_asciiStrip (s : String) : asciiStrip (asciiStrip s) = asciiStrip s := by
  rw [asciiStrip_eq_self, asciiStrip_toList]
  constructor
  · intro c hc
    have hfront := List.head?_dropWhile_not Char.isWhitespace s.toList
    obtain ⟨rest, hrest⟩ := List.rdropWhile_prefix Char.isWhitespace (s.toList.dropWhile Char.isWhitespace)
    rw [← hrest, List.head?_append, Option.mem_def.1 hc] at hfront
    exact hfront
  · intro c hc
    obtain ⟨hne, rfl⟩ := List.mem_getLast?_eq_getLast hc
    simpa using List.rdropWhile_last_not Char.isWhitespace _ hne

namespace Text

def ascii : Text where
  strip := asciiStrip
  lower := asciiLower
  casefold := asciiLower
  str
    | .null => "None"
    | .bool b => if b then "True" else "False"
    | .int n => toString n
    | .float r => toString r
    | .str s => s
    | .arr _ => "[...]"
    | .obj _ => "{...}"
  str_str _ := rfl
  str_arr _ := (by decide : asciiStrip "[...]" ≠ "")
  str_obj _ := (by decide : asciiStrip "{...}" ≠ "")
  strip_plain := asciiStrip_plain
  lower_plain _ := rfl
  casefold_plain _ := rfl

variable (text : Text)

def orEmpty (j : Json) : String := if j.truthy then text.str j else ""

def blank (j : Json) : Bool := text.strip (text.orEmpty j) = ""

theorem blank_obj (members : List (String × Json)) : text.blank (.obj members) = members.isEmpty := by
  cases members with
  | nil => simp [blank, orEmpty, Json.truthy, text.strip_plain (show Plain "" by decide)]
  | cons m members => simpa [blank, orEmpty, Json.truthy] using text.str_obj (m :: members)

theorem blank_arr (items : List Json) : text.blank (.arr items) = items.isEmpty := by
  cases items with
  | nil => simp [blank, orEmpty, Json.truthy, text.strip_plain (show Plain "" by decide)]
  | cons item items => simpa [blank, orEmpty, Json.truthy] using text.str_arr (item :: items)

theorem not_blank_plain {s : String} (h : Plain s) (hs : s ≠ "") : text.blank (.str s) = false := by
  simp [blank, orEmpty, Json.truthy, hs, text.str_str, text.strip_plain h]

end Text

/-! ## Splitting and joining -/

theorem not_mem_splitOn (sep : Char) : ∀ cs : List Char, ∀ part ∈ cs.splitOn sep, sep ∉ part
  | [], part, h => by
    rw [List.splitOn_nil, List.mem_singleton] at h
    simp [h]
  | c :: cs, part, h => by
    have ih := not_mem_splitOn sep cs
    rw [List.splitOn_cons_eq_if_modifyHead] at h
    split at h
    · rcases List.mem_cons.1 h with rfl | h
      · simp
      · exact ih part h
    · rename_i hne
      cases hparts : cs.splitOn sep with
      | nil => exact absurd hparts (List.splitOn_ne_nil sep cs)
      | cons first parts =>
        rw [hparts] at h ih
        rcases List.mem_cons.1 h with rfl | h
        · have hc : sep ≠ c := fun he => hne (by simp [he])
          simpa [hc] using ih first List.mem_cons_self
        · exact ih part (List.mem_cons_of_mem _ h)

theorem split_ne_nil (sep : Char) (s : String) : split sep s ≠ [] := by
  simp [split, List.splitOn_ne_nil]

theorem not_mem_split {sep : Char} {s part : String} (h : part ∈ split sep s) : sep ∉ part.toList := by
  obtain ⟨cs, hcs, rfl⟩ := List.mem_map.1 h
  simpa using not_mem_splitOn sep s.toList cs hcs

theorem join_split (sep : Char) (s : String) : join sep (split sep s) = s := by
  have hmap : (split sep s).map String.toList = s.toList.splitOn sep := by simp [split]
  rw [join, hmap, List.intercalate_splitOn, String.ofList_toList]

theorem split_join {sep : Char} {parts : List String} (hne : parts ≠ []) (h : ∀ part ∈ parts, sep ∉ part.toList) :
    split sep (join sep parts) = parts := by
  have hparts : ∀ cs ∈ parts.map String.toList, sep ∉ cs := by simpa using h
  rw [split, join, String.toList_ofList, List.splitOn_intercalate sep hparts (by simpa using hne)]
  simp

end Py
