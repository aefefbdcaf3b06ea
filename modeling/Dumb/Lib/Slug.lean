import Mathlib.Data.List.DropRight

/-!
# Slugs

A text whose separators are taken off at the ends and merged where several follow each other is its words, joined.
-/

namespace Py.Slug

variable (sep : Char)

def trim (cs : List Char) : List Char := (cs.dropWhile (· = sep)).rdropWhile (· = sep)

def hasDouble : List Char → Bool
  | c :: d :: cs => (c = sep && d = sep) || hasDouble (d :: cs)
  | _ => false

def merge : List Char → List Char
  | [] => []
  | [c] => [c]
  | c :: d :: cs => if c = sep ∧ d = sep then sep :: merge cs else c :: merge (d :: cs)

def mergeAll : Nat → List Char → List Char
  | 0, cs => cs
  | fuel + 1, cs => if hasDouble sep cs then mergeAll fuel (merge sep cs) else cs

def words (cs : List Char) : List (List Char) := (cs.splitOn sep).filter (· ≠ [])

def firstWord (cs : List Char) : List Char := (cs.splitOn sep).headD []

def moreWords (cs : List Char) : List (List Char) := (cs.splitOn sep).tail.filter (· ≠ [])

variable {sep}

theorem words_eq (cs : List Char) : words sep cs =
    if firstWord sep cs = [] then moreWords sep cs else firstWord sep cs :: moreWords sep cs := by
  rw [words, firstWord, moreWords]
  cases hsplit : cs.splitOn sep with
  | nil => exact absurd hsplit (List.splitOn_ne_nil sep cs)
  | cons word more =>
    by_cases hword : word = []
    · simp [hword]
    · simp [hword]

theorem splitOn_sep (cs : List Char) : (sep :: cs).splitOn sep = [] :: cs.splitOn sep := by
  rw [List.splitOn_cons_eq_if_modifyHead, if_pos (beq_self_eq_true sep)]

@[simp] theorem firstWord_sep (cs : List Char) : firstWord sep (sep :: cs) = [] := by
  rw [firstWord, splitOn_sep, List.headD_cons]

@[simp] theorem moreWords_sep (cs : List Char) : moreWords sep (sep :: cs) = words sep cs := by
  rw [moreWords, splitOn_sep, List.tail_cons, words]

@[simp] theorem words_sep (cs : List Char) : words sep (sep :: cs) = words sep cs := by
  rw [words_eq, firstWord_sep, if_pos rfl, moreWords_sep]

section
variable {c : Char} (hc : c ≠ sep) (cs : List Char)
include hc

theorem splitOn_other : (c :: cs).splitOn sep = (cs.splitOn sep).modifyHead (c :: ·) := by
  rw [List.splitOn_cons_eq_if_modifyHead, if_neg (by simpa using hc)]

theorem firstWord_other : firstWord sep (c :: cs) = c :: firstWord sep cs := by
  rw [firstWord, firstWord, splitOn_other hc]
  cases hsplit : cs.splitOn sep with
  | nil => exact absurd hsplit (List.splitOn_ne_nil sep cs)
  | cons word more => rfl

theorem moreWords_other : moreWords sep (c :: cs) = moreWords sep cs := by
  rw [moreWords, moreWords, splitOn_other hc, List.tail_modifyHead]

end

theorem firstWord_merge (cs : List Char) : firstWord sep (merge sep cs) = firstWord sep cs ∧
    moreWords sep (merge sep cs) = moreWords sep cs := by
  fun_induction merge sep cs with
  | case1 => exact ⟨rfl, rfl⟩
  | case2 c => exact ⟨rfl, rfl⟩
  | case3 c d cs h ih =>
    obtain ⟨rfl, rfl⟩ := h
    simp [words_eq, ih]
  | case4 c d cs h ih =>
    by_cases hc : c = sep
    · subst hc
      simp [words_eq, ih]
    · simp [firstWord_other hc, moreWords_other hc, ih]

theorem words_merge (cs : List Char) : words sep (merge sep cs) = words sep cs := by
  rw [words_eq, words_eq, (firstWord_merge cs).1, (firstWord_merge cs).2]

theorem length_merge (cs : List Char) : (merge sep cs).length ≤ cs.length ∧
    (hasDouble sep cs = true → (merge sep cs).length < cs.length) := by
  fun_induction merge sep cs with
  | case1 => simp [hasDouble]
  | case2 c => simp [hasDouble]
  | case3 c d cs h ih =>
    simp only [List.length_cons]
    omega
  | case4 c d cs h ih =>
    obtain ⟨hle, hlt⟩ := ih
    simp only [List.length_cons] at hle hlt ⊢
    refine ⟨by omega, fun hdouble => ?_⟩
    have hrest : hasDouble sep (d :: cs) = true := by
      simp only [hasDouble, Bool.or_eq_true, Bool.and_eq_true, decide_eq_true_eq] at hdouble
      exact hdouble.resolve_left h
    have := hlt hrest
    omega

theorem getLast?_merge (cs : List Char) : (merge sep cs).getLast? = cs.getLast? ∧ (merge sep cs).head? = cs.head? := by
  fun_induction merge sep cs with
  | case1 => exact ⟨rfl, rfl⟩
  | case2 c => exact ⟨rfl, rfl⟩
  | case3 c d cs h ih =>
    obtain ⟨rfl, rfl⟩ := h
    simp [List.getLast?_cons, ih]
  | case4 c d cs h ih => simp [List.getLast?_cons, ih]

theorem eq_intercalate {cs : List Char} (hdouble : hasDouble sep cs = false) (hlast : cs.getLast? ≠ some sep) :
    cs = [sep].intercalate (firstWord sep cs :: moreWords sep cs) := by
  induction cs with
  | nil => rfl
  | cons c cs ih =>
    have hrest : hasDouble sep cs = false := by
      cases cs with
      | nil => rfl
      | cons d cs =>
        simp only [hasDouble, Bool.or_eq_false_iff] at hdouble
        exact hdouble.2
    cases cs with
    | nil =>
      have hc : c ≠ sep := by
        rintro rfl
        simp at hlast
      rw [firstWord_other hc, moreWords_other hc]
      rfl
    | cons d cs =>
      have hlast' : (d :: cs).getLast? ≠ some sep := by simpa [List.getLast?_cons] using hlast
      have ih := ih hrest hlast'
      by_cases hc : c = sep
      · subst hc
        have hd : d ≠ c := by
          rintro rfl
          simp [hasDouble] at hdouble
        have hword : firstWord c (d :: cs) ≠ [] := by simp [firstWord_other hd]
        rw [firstWord_sep, moreWords_sep, words_eq, if_neg hword, List.intercalate_cons_cons, ← ih]
        rfl
      · rw [firstWord_other hc, moreWords_other hc]
        cases hmore : moreWords sep (d :: cs) with
        | nil =>
          rw [hmore] at ih
          simp only [List.intercalate_singleton] at ih ⊢
          rw [← ih]
        | cons word more =>
          rw [hmore] at ih
          rw [List.intercalate_cons_cons] at ih ⊢
          rw [List.cons_append, List.cons_append, ← ih]

theorem mergeAll_spec {fuel : Nat} {cs : List Char} (h : cs.length ≤ fuel) :
    hasDouble sep (mergeAll sep fuel cs) = false ∧ words sep (mergeAll sep fuel cs) = words sep cs ∧
      (mergeAll sep fuel cs).getLast? = cs.getLast? ∧ (mergeAll sep fuel cs).head? = cs.head? := by
  induction fuel generalizing cs with
  | zero =>
    have hnil : cs = [] := List.length_eq_zero_iff.1 (Nat.le_zero.1 h)
    subst hnil
    exact ⟨rfl, rfl, rfl, rfl⟩
  | succ fuel ih =>
    rw [mergeAll]
    split
    · rename_i hdouble
      have hlt := (length_merge cs).2 hdouble
      have hle : (merge sep cs).length ≤ fuel := by omega
      obtain ⟨hno, hwords, hlast, hhead⟩ := ih hle
      exact ⟨hno, hwords.trans (words_merge cs), hlast.trans (getLast?_merge cs).1, hhead.trans (getLast?_merge cs).2⟩
    · rename_i hdouble
      exact ⟨by simpa using hdouble, rfl, rfl, rfl⟩

theorem words_dropWhile (cs : List Char) : words sep (cs.dropWhile (· = sep)) = words sep cs := by
  induction cs with
  | nil => rfl
  | cons c cs ih =>
    by_cases hc : c = sep
    · simp [hc, ih]
    · simp [hc]

theorem words_append_sep (cs : List Char) : words sep (cs ++ [sep]) = words sep cs := by
  have hview : firstWord sep (cs ++ [sep]) = firstWord sep cs ∧ moreWords sep (cs ++ [sep]) = moreWords sep cs := by
    induction cs with
    | nil =>
      rw [List.nil_append]
      exact ⟨firstWord_sep [], moreWords_sep []⟩
    | cons c cs ih =>
      by_cases hc : c = sep
      · subst hc
        simp [words_eq, ih]
      · simp [firstWord_other hc, moreWords_other hc, ih]
  rw [words_eq, words_eq, hview.1, hview.2]

theorem words_rdropWhile (cs : List Char) : words sep (cs.rdropWhile (· = sep)) = words sep cs := by
  induction cs using List.reverseRecOn with
  | nil => rfl
  | append_singleton cs c ih =>
    by_cases hc : c = sep
    · rw [List.rdropWhile_concat_pos _ _ _ (by simpa using hc), ih, hc, words_append_sep]
    · rw [List.rdropWhile_concat_neg _ _ _ (by simpa using hc)]

theorem ends_trim (cs : List Char) : (trim sep cs).getLast? ≠ some sep ∧ (trim sep cs).head? ≠ some sep := by
  by_cases hnil : trim sep cs = []
  · simp [hnil]
  · constructor
    · have hlast := List.rdropWhile_last_not (fun c : Char => decide (c = sep)) _ hnil
      rw [List.getLast?_eq_some_getLast hnil, ne_eq, Option.some.injEq]
      simpa [trim] using hlast
    · have hfront : (trim sep cs).head? = (cs.dropWhile (· = sep)).head? := by
        obtain ⟨rest, hrest⟩ := List.rdropWhile_prefix (fun c : Char => decide (c = sep)) (cs.dropWhile (· = sep))
        rw [← hrest]
        exact (List.head?_append_of_ne_nil _ hnil).symm
      rw [hfront]
      intro hhead
      have hnot := List.head?_dropWhile_not (fun c : Char => decide (c = sep)) cs
      rw [hhead] at hnot
      simp at hnot

theorem mergeAll_trim (cs : List Char) :
    mergeAll sep (trim sep cs).length (trim sep cs) = [sep].intercalate (words sep cs) := by
  obtain ⟨hdouble, hwords, hlast, hhead⟩ := @mergeAll_spec sep _ (trim sep cs) (Nat.le_refl _)
  obtain ⟨hnotlast, hnothead⟩ := @ends_trim sep cs
  rw [← hlast] at hnotlast
  rw [← hhead] at hnothead
  have htrim : words sep (trim sep cs) = words sep cs := by rw [trim, words_rdropWhile, words_dropWhile]
  rw [htrim] at hwords
  rw [← hwords, words_eq]
  generalize mergeAll sep (trim sep cs).length (trim sep cs) = result at hdouble hnotlast hnothead
  cases result with
  | nil => rfl
  | cons c result =>
    have hc : c ≠ sep := by simpa using hnothead
    have hword : firstWord sep (c :: result) ≠ [] := by simp [firstWord_other hc]
    rw [if_neg hword]
    exact eq_intercalate hdouble hnotlast

theorem words_word_append {word : List Char} (hne : word ≠ []) (hsep : sep ∉ word) (cs : List Char) :
    words sep (word ++ sep :: cs) = word :: words sep cs := by
  rw [words, List.splitOn_append_cons_self_of_not_mem hsep, List.filter_cons_of_pos (by simpa using hne), words]

theorem intercalate_inj {words more : List (List Char)} (hwords : ∀ word ∈ words, sep ∉ word)
    (hmore : ∀ word ∈ more, sep ∉ word) (hne : words ≠ []) (hne' : more ≠ [])
    (h : [sep].intercalate words = [sep].intercalate more) : words = more := by
  rw [← List.splitOn_intercalate sep hwords hne, h, List.splitOn_intercalate sep hmore hne']

theorem mem_intercalate {c : Char} {words : List (List Char)} :
    c ∈ [sep].intercalate words → c = sep ∨ ∃ word ∈ words, c ∈ word := by
  induction words with
  | nil => simp
  | cons word words ih =>
    intro hc
    cases words with
    | nil => exact .inr ⟨word, List.mem_cons_self, by simpa using hc⟩
    | cons next words =>
      rw [List.intercalate_cons_cons, List.append_assoc] at hc
      rcases List.mem_append.1 hc with hc | hc
      · exact .inr ⟨word, List.mem_cons_self, hc⟩
      · rcases List.mem_append.1 hc with hc | hc
        · exact .inl (List.mem_singleton.1 hc)
        · obtain hc | ⟨other, hother, hc⟩ := ih hc
          · exact .inl hc
          · exact .inr ⟨other, List.mem_cons_of_mem _ hother, hc⟩

theorem mem_of_mem_splitOn {c : Char} {cs : List Char} : ∀ word ∈ cs.splitOn sep, c ∈ word → c ∈ cs := by
  induction cs with
  | nil => simp
  | cons d cs ih =>
    intro word hword hc
    by_cases hd : d = sep
    · subst hd
      rw [splitOn_sep] at hword
      rcases List.mem_cons.1 hword with rfl | hword
      · cases hc
      · exact List.mem_cons_of_mem _ (ih word hword hc)
    · rw [splitOn_other hd] at hword
      cases hsplit : cs.splitOn sep with
      | nil => exact absurd hsplit (List.splitOn_ne_nil sep cs)
      | cons first more =>
        rw [hsplit] at hword ih
        rcases List.mem_cons.1 hword with rfl | hword
        · rcases List.mem_cons.1 hc with rfl | hc
          · exact List.mem_cons_self
          · exact List.mem_cons_of_mem _ (ih first List.mem_cons_self hc)
        · exact List.mem_cons_of_mem _ (ih word (List.mem_cons_of_mem _ hword) hc)

end Py.Slug
