import Mathlib.Data.List.Basic

/-!
# Python dicts

A dict is the list of its items in insertion order. `Dict.set` keeps the place of a key that is already
there, `Dict.erase` takes a key out.
-/

namespace Py

abbrev Dict (κ β : Type) := List (κ × β)

namespace Dict

section
variable {κ β : Type} [DecidableEq κ]

def get? (k : κ) : Dict κ β → Option β
  | [] => none
  | (q, v) :: ms => if q = k then some v else get? k ms

def set (k : κ) (v : β) : Dict κ β → Dict κ β
  | [] => [(k, v)]
  | (q, u) :: ms => if q = k then (q, v) :: ms else (q, u) :: set k v ms

def erase (k : κ) : Dict κ β → Dict κ β
  | [] => []
  | (q, u) :: ms => if q = k then erase k ms else (q, u) :: erase k ms

def keys (ms : Dict κ β) : List κ := ms.map (·.1)

def values (ms : Dict κ β) : List β := ms.map (·.2)

@[simp] theorem get?_nil (k : κ) : get? k ([] : Dict κ β) = none := rfl

theorem get?_set (k q : κ) (v : β) : ∀ ms : Dict κ β,
    get? q (set k v ms) = if q = k then some v else get? q ms
  | [] => by
    by_cases h : k = q
    · simp [set, get?, h]
    · simp [set, get?, h, Ne.symm h]
  | (p, u) :: ms => by
    by_cases hp : p = k
    · by_cases hq : q = k
      · simp [set, get?, hp, hq]
      · simp [set, get?, hp, hq, Ne.symm hq]
    · by_cases hq : p = q
      · have hqk : q ≠ k := hq ▸ hp
        simp [set, get?, hq, hqk]
      · simp [set, get?, hp, hq, get?_set k q v ms]

@[simp] theorem get?_set_self (k : κ) (v : β) (ms : Dict κ β) : get? k (set k v ms) = some v := by
  simp [get?_set]

theorem get?_set_ne {k q : κ} (h : q ≠ k) (v : β) (ms : Dict κ β) : get? q (set k v ms) = get? q ms := by
  simp [get?_set, h]

theorem get?_erase (k q : κ) : ∀ ms : Dict κ β, get? q (erase k ms) = if q = k then none else get? q ms
  | [] => by simp [erase]
  | (p, u) :: ms => by
    by_cases hp : p = k
    · by_cases hq : q = k
      · simp [erase, hp, hq, get?_erase k k ms]
      · simp [erase, get?, hp, hq, Ne.symm hq, get?_erase k q ms]
    · by_cases hq : p = q
      · have hqk : q ≠ k := hq ▸ hp
        simp [erase, get?, hq, hqk]
      · simp [erase, get?, hp, hq, get?_erase k q ms]

theorem mem_of_get? {k : κ} {v : β} : ∀ {ms : Dict κ β}, get? k ms = some v → (k, v) ∈ ms
  | (q, u) :: ms, h => by
    by_cases hq : q = k
    · simp only [get?, hq, ↓reduceIte, Option.some.injEq] at h
      simp [hq, h]
    · simp only [get?, hq, ↓reduceIte] at h
      exact List.mem_cons_of_mem _ (mem_of_get? h)

theorem get?_of_mem {k : κ} {v : β} : ∀ {ms : Dict κ β}, (keys ms).Nodup → (k, v) ∈ ms → get? k ms = some v
  | (q, u) :: ms, hn, h => by
    obtain ⟨hnot, hn'⟩ := List.nodup_cons.1 hn
    rcases List.mem_cons.1 h with heq | hmem
    · cases heq
      simp [get?]
    · have hq : q ≠ k := fun hqk => hnot (hqk ▸ List.mem_map.2 ⟨(k, v), hmem, rfl⟩)
      simp [get?, hq, get?_of_mem hn' hmem]

theorem get?_filter (P : κ → Bool) (k : κ) : ∀ ms : Dict κ β,
    get? k (ms.filter fun m => P m.1) = if P k = true then get? k ms else none
  | [] => by simp
  | (q, u) :: ms => by
    have ih := get?_filter P k ms
    by_cases hP : P q = true
    · by_cases hq : q = k
      · subst hq
        simp [get?, hP]
      · simp [get?, hP, hq, ih]
    · by_cases hq : q = k
      · subst hq
        simp [hP, ih]
      · simp [get?, hP, hq, ih]

theorem get?_map_items {δ : Type} (f : κ → β → δ) (k : κ) : ∀ ms : Dict κ β,
    get? k (ms.map fun m => (m.1, f m.1 m.2)) = (get? k ms).map (f k)
  | [] => rfl
  | m :: ms => by
    by_cases hk : m.1 = k
    · simp [get?, hk]
    · simp [get?, hk, get?_map_items f k ms]

theorem get?_map_values {δ : Type} (f : β → δ) (k : κ) (ms : Dict κ β) :
    get? k (ms.map fun m => (m.1, f m.2)) = (get? k ms).map f := get?_map_items (fun _ => f) k ms

theorem mem_keys {k : κ} : ∀ {ms : Dict κ β}, k ∈ keys ms ↔ get? k ms ≠ none
  | [] => by simp [keys, get?]
  | (q, u) :: ms => by
    by_cases hq : q = k
    · simp [keys, get?, hq]
    · have ih := @mem_keys k ms
      simp only [keys] at ih
      simp [keys, get?, hq, Ne.symm hq, ih]

theorem mem_set {k : κ} {v : β} {m : κ × β} : ∀ {ms : Dict κ β}, m ∈ set k v ms → m = (k, v) ∨ m ∈ ms
  | [], h => .inl (List.mem_singleton.1 h)
  | (q, u) :: ms, h => by
    rw [set] at h
    split at h
    · next hq =>
      rcases List.mem_cons.1 h with rfl | h
      · exact .inl (by rw [hq])
      · exact .inr (List.mem_cons_of_mem _ h)
    · rcases List.mem_cons.1 h with rfl | h
      · exact .inr List.mem_cons_self
      · exact (mem_set h).imp_right (List.mem_cons_of_mem _)

theorem mem_erase {k : κ} {m : κ × β} : ∀ {ms : Dict κ β}, m ∈ erase k ms → m ∈ ms
  | (q, u) :: ms, h => by
    rw [erase] at h
    split at h
    · exact List.mem_cons_of_mem _ (mem_erase h)
    · rcases List.mem_cons.1 h with rfl | h
      · exact List.mem_cons_self
      · exact List.mem_cons_of_mem _ (mem_erase h)

variable {ms : Dict κ β}

theorem mem_keys_set {k q : κ} {v : β} (h : q ∈ keys (set k v ms)) : q = k ∨ q ∈ keys ms := by
  obtain ⟨m, hm, rfl⟩ := List.mem_map.1 h
  rcases mem_set hm with rfl | hm
  · exact .inl rfl
  · exact .inr (List.mem_map_of_mem hm)

theorem mem_keys_erase {k q : κ} (h : q ∈ keys (erase k ms)) : q ∈ keys ms := by
  obtain ⟨m, hm, rfl⟩ := List.mem_map.1 h
  exact List.mem_map_of_mem (mem_erase hm)

theorem keys_set (k : κ) (v : β) : ∀ ms : Dict κ β, k ∈ keys ms → keys (set k v ms) = keys ms
  | (q, u) :: ms, h => by
    by_cases hq : q = k
    · simp [set, keys, hq]
    · have hk : k ∈ keys ms := by
        rcases List.mem_cons.1 h with hk | hk
        · exact absurd hk.symm hq
        · exact hk
      have ih := keys_set k v ms hk
      simp only [keys] at ih
      simp [set, keys, hq, ih]

theorem keys_set_new (k : κ) (v : β) : ∀ ms : Dict κ β, k ∉ keys ms → keys (set k v ms) = keys ms ++ [k]
  | [], _ => rfl
  | (q, u) :: ms, h => by
    have hq : q ≠ k := fun he => h (he ▸ List.mem_cons_self)
    have ih := keys_set_new k v ms fun hk => h (List.mem_cons_of_mem _ hk)
    simp only [keys] at ih
    simp [set, keys, hq, ih]

theorem nodup_keys_set {k : κ} {v : β} (h : (keys ms).Nodup) : (keys (set k v ms)).Nodup := by
  by_cases hk : k ∈ keys ms
  · rwa [keys_set k v ms hk]
  · rw [keys_set_new k v ms hk]
    exact List.nodup_append.2 ⟨h, by simp, by simpa using fun q hq (he : q = k) => hk (he ▸ hq)⟩

theorem set_self {k : κ} {v : β} : ∀ {ms : Dict κ β}, get? k ms = some v → set k v ms = ms
  | (q, u) :: ms, h => by
    by_cases hq : q = k
    · simp only [get?, hq, if_true, Option.some.injEq] at h
      simp [set, hq, h]
    · simp only [get?, hq, if_false] at h
      simp [set, hq, set_self h]

theorem set_set (k : κ) (v w : β) : ∀ ms : Dict κ β, set k w (set k v ms) = set k w ms
  | [] => by simp [set]
  | (q, u) :: ms => by
    by_cases hq : q = k
    · simp [set, hq]
    · simp [set, hq, set_set k v w ms]

theorem erase_absent {k : κ} : ∀ {ms : Dict κ β}, get? k ms = none → erase k ms = ms
  | [], _ => rfl
  | (q, u) :: ms, h => by
    by_cases hq : q = k
    · simp [get?, hq] at h
    · simp only [get?, hq, if_false] at h
      simp [erase, hq, erase_absent h]

theorem erase_eq_filter (k : κ) : ∀ ms : Dict κ β, erase k ms = ms.filter fun m => m.1 ≠ k
  | [] => rfl
  | (q, u) :: ms => by by_cases hq : q = k <;> simp [erase, hq, erase_eq_filter k ms]

theorem nodup_keys_erase {k : κ} : ∀ {ms : Dict κ β}, (keys ms).Nodup → (keys (erase k ms)).Nodup
  | [], _ => List.nodup_nil
  | (q, u) :: ms, h => by
    obtain ⟨hq, hms⟩ := List.nodup_cons.1 h
    by_cases hk : q = k
    · simpa [erase, hk] using nodup_keys_erase hms
    · simp only [erase, hk, if_false]
      exact List.nodup_cons.2 ⟨fun hmem => hq (mem_keys_erase hmem), nodup_keys_erase hms⟩

omit [DecidableEq κ] in
theorem nodup_keys_filter {P : κ × β → Bool} {ms : Dict κ β} (h : (keys ms).Nodup) : (keys (ms.filter P)).Nodup :=
  h.sublist (List.filter_sublist.map _)

theorem get?_filter_iff {P : κ × β → Bool} {k : κ} {v : β} (h : (keys ms).Nodup) :
    get? k (ms.filter P) = some v ↔ get? k ms = some v ∧ P (k, v) = true := by
  constructor
  · intro hget
    obtain ⟨hmem, hP⟩ := List.mem_filter.1 (mem_of_get? hget)
    exact ⟨get?_of_mem h hmem, hP⟩
  · rintro ⟨hget, hP⟩
    exact get?_of_mem (nodup_keys_filter h) (List.mem_filter.2 ⟨mem_of_get? hget, hP⟩)

theorem get?_append (k : κ) : ∀ ms ns : Dict κ β, get? k (ms ++ ns) = (get? k ms).or (get? k ns)
  | [], _ => by simp
  | (q, u) :: ms, ns => by
    by_cases hq : q = k
    · simp [get?, hq]
    · simp [get?, hq, get?_append k ms ns]

end

/-! ## Dicts with the same keys -/

section
variable {κ β δ : Type}

theorem keys_append (ms ns : Dict κ β) : keys (ms ++ ns) = keys ms ++ keys ns := by simp [keys]

def mapValues (f : β → Option δ) : Dict κ β → Option (Dict κ δ)
  | [] => some []
  | (k, v) :: ms =>
    match f v, mapValues f ms with
    | some w, some ws => some ((k, w) :: ws)
    | _, _ => none

def Rows (R : β → δ → Prop) (ms : Dict κ β) (ns : Dict κ δ) : Prop :=
  keys ns = keys ms ∧ ∀ (i : Nat) v w, (values ms)[i]? = some v → (values ns)[i]? = some w → R v w

variable {R S : β → δ → Prop}

theorem rows_cons {k q : κ} {v : β} {w : δ} {ms : Dict κ β} {ns : Dict κ δ} :
    Rows R ((k, v) :: ms) ((q, w) :: ns) ↔ q = k ∧ R v w ∧ Rows R ms ns := by
  constructor
  · rintro ⟨hk, h⟩
    simp only [keys, List.map_cons, List.cons.injEq] at hk
    exact ⟨hk.1, h 0 v w rfl rfl, hk.2, fun i x y hx hy => h (i + 1) x y hx hy⟩
  · rintro ⟨rfl, hR, hk, h⟩
    refine ⟨by simpa [keys] using hk, fun i x y hx hy => ?_⟩
    cases i with
    | zero =>
      cases hx
      cases hy
      exact hR
    | succ i => exact h i x y hx hy

theorem mapValues_iff {f : β → Option δ} : ∀ {ms : Dict κ β} {ns : Dict κ δ},
    mapValues f ms = some ns ↔ Rows (fun v w => f v = some w) ms ns
  | [], ns => by cases ns <;> simp [mapValues, Rows, keys, values]
  | (k, v) :: ms, [] => by
    cases hv : f v <;> cases hms : mapValues f ms <;> simp [mapValues, Rows, keys, hv, hms]
  | (k, v) :: ms, (q, w) :: ns => by
    rw [rows_cons, ← mapValues_iff]
    cases hv : f v <;> cases hms : mapValues f ms <;> simp [mapValues, hv, hms, eq_comm, and_assoc]

theorem Rows.mono {ms : Dict κ β} {ns : Dict κ δ} (h : Rows R ms ns) (hRS : ∀ v w, R v w → S v w) :
    Rows S ms ns := ⟨h.1, fun i v w hv hw => hRS v w (h.2 i v w hv hw)⟩

theorem Rows.mem : ∀ {ms : Dict κ β} {ns : Dict κ δ}, Rows R ms ns → ∀ m ∈ ns, ∃ v, (m.1, v) ∈ ms ∧ R v m.2
  | _, [], _, _, hm => (List.not_mem_nil hm).elim
  | [], _ :: _, ⟨hk, _⟩, _, _ => by simp [keys] at hk
  | (p, v) :: ms, (q, w) :: ns, h, m, hm => by
    obtain ⟨rfl, hR, hrest⟩ := rows_cons.1 h
    rcases List.mem_cons.1 hm with rfl | hm
    · exact ⟨v, List.mem_cons_self, hR⟩
    · obtain ⟨x, hx, hxR⟩ := hrest.mem m hm
      exact ⟨x, List.mem_cons_of_mem _ hx, hxR⟩

theorem Rows.get? [DecidableEq κ] {k : κ} : ∀ {ms : Dict κ β} {ns : Dict κ δ}, Rows R ms ns →
    (Dict.get? k ms = none ∧ Dict.get? k ns = none) ∨
      ∃ v w, Dict.get? k ms = some v ∧ Dict.get? k ns = some w ∧ R v w
  | [], [], _ => .inl ⟨rfl, rfl⟩
  | [], _ :: _, ⟨hk, _⟩ => by simp [keys] at hk
  | _ :: _, [], ⟨hk, _⟩ => by simp [keys] at hk
  | (p, v) :: ms, (q, w) :: ns, h => by
    obtain ⟨rfl, hR, hrest⟩ := rows_cons.1 h
    by_cases hq : q = k
    · exact .inr ⟨v, w, by simp [Dict.get?, hq], by simp [Dict.get?, hq], hR⟩
    · simpa [Dict.get?, hq] using hrest.get?

end

end Dict

end Py
