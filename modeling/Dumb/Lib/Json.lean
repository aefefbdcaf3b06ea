import Mathlib.Data.Rat.Defs
import Dumb.Lib.Dict

/-!
# JSON values as Python holds them

A JSON object is a dict of its members. A path names a value inside nested dicts.
-/

namespace Py

inductive Json where
  | null
  | bool (b : Bool)
  | int (n : Int)
  | float (r : Rat)
  | str (s : String)
  | arr (items : List Json)
  | obj (members : List (String × Json))

namespace Json

def isObj : Json → Bool
  | .obj _ => true
  | _ => false

def truthy : Json → Bool
  | .null => false
  | .bool b => b
  | .int n => n ≠ 0
  | .float r => r ≠ 0
  | .str s => s ≠ ""
  | .arr items => !items.isEmpty
  | .obj members => !members.isEmpty

def field (k : String) : Json → Json
  | .obj members => (Dict.get? k members).getD .null
  | _ => .null

def isTrue : Json → Bool
  | .bool b => b
  | _ => false

/-- The integer of an `isinstance(value, int)`, which a bool passes as well. -/
def asInt : Json → Option Int
  | .int n => some n
  | .bool b => some (if b then 1 else 0)
  | _ => none

@[simp] theorem asInt_int (n : Int) : (Json.int n).asInt = some n := rfl

def num : Json → Option Rat
  | .int n => some n
  | .bool b => some (if b then 1 else 0)
  | .float r => some r
  | _ => none

inductive Distinct : Json → Prop
  | null : Distinct .null
  | bool (b : Bool) : Distinct (.bool b)
  | int (n : Int) : Distinct (.int n)
  | float (r : Rat) : Distinct (.float r)
  | str (s : String) : Distinct (.str s)
  | arr {items : List Json} (h : ∀ item ∈ items, Distinct item) : Distinct (.arr items)
  | obj {members : List (String × Json)} (hk : (Dict.keys members).Nodup)
      (h : ∀ m ∈ members, Distinct m.2) : Distinct (.obj members)

mutual
theorem ind {motive : Json → Prop} (arr : ∀ items, (∀ item ∈ items, motive item) → motive (.arr items))
    (obj : ∀ members, (∀ m ∈ members, motive m.2) → motive (.obj members))
    (leaf : ∀ j, (∀ items, j ≠ .arr items) → (∀ members, j ≠ .obj members) → motive j) : ∀ j, motive j
  | .null => leaf _ nofun nofun
  | .bool _ => leaf _ nofun nofun
  | .int _ => leaf _ nofun nofun
  | .float _ => leaf _ nofun nofun
  | .str _ => leaf _ nofun nofun
  | .arr items => arr items (ind_items arr obj leaf items)
  | .obj members => obj members (ind_members arr obj leaf members)

theorem ind_items {motive : Json → Prop} (arr : ∀ items, (∀ item ∈ items, motive item) → motive (.arr items))
    (obj : ∀ members, (∀ m ∈ members, motive m.2) → motive (.obj members))
    (leaf : ∀ j, (∀ items, j ≠ .arr items) → (∀ members, j ≠ .obj members) → motive j) :
    ∀ items : List Json, ∀ item ∈ items, motive item
  | [], _, h => (List.not_mem_nil h).elim
  | j :: items, item, h => (List.mem_cons.1 h).elim (fun he => he ▸ ind arr obj leaf j)
      (ind_items arr obj leaf items item)

theorem ind_members {motive : Json → Prop} (arr : ∀ items, (∀ item ∈ items, motive item) → motive (.arr items))
    (obj : ∀ members, (∀ m ∈ members, motive m.2) → motive (.obj members))
    (leaf : ∀ j, (∀ items, j ≠ .arr items) → (∀ members, j ≠ .obj members) → motive j) :
    ∀ members : List (String × Json), ∀ m ∈ members, motive m.2
  | [], _, h => (List.not_mem_nil h).elim
  | (_, j) :: members, m, h => (List.mem_cons.1 h).elim (fun he => he ▸ ind arr obj leaf j)
      (ind_members arr obj leaf members m)
end

def every (P : List (String × Json) → Bool) : Json → Bool
  | .arr items => everyItem items
  | .obj members => P members && everyMember members
  | _ => true
where
  everyItem : List Json → Bool
    | [] => true
    | item :: items => every P item && everyItem items
  everyMember : List (String × Json) → Bool
    | [] => true
    | (_, j) :: members => every P j && everyMember members

/-- `a == b` of two loaded documents: the order of a dict does not count, and `True == 1 == 1.0`. -/
def pyEq : Json → Json → Bool
  | .null, .null => true
  | .str s, .str t => s = t
  | .arr items, .arr others => pyEqItems items others
  | .obj members, .obj others => members.length = others.length && pyEqMembers members others
  | .bool b, j => (Json.bool b).num.any fun x => j.num.any fun y => x = y
  | .int n, j => (Json.int n).num.any fun x => j.num.any fun y => x = y
  | .float r, j => (Json.float r).num.any fun x => j.num.any fun y => x = y
  | _, _ => false
where
  pyEqItems : List Json → List Json → Bool
    | [], [] => true
    | item :: items, other :: others => pyEq item other && pyEqItems items others
    | _, _ => false
  pyEqMembers : List (String × Json) → List (String × Json) → Bool
    | [], _ => true
    | (k, j) :: members, others => (others.any fun m => m.1 = k && pyEq j m.2) && pyEqMembers members others

theorem everyItem_iff {P : List (String × Json) → Bool} : ∀ {items : List Json},
    every.everyItem P items = true ↔ ∀ item ∈ items, every P item = true
  | [] => by simp [every.everyItem]
  | item :: items => by simp [every.everyItem, @everyItem_iff P items]

theorem everyMember_iff {P : List (String × Json) → Bool} : ∀ {members : List (String × Json)},
    every.everyMember P members = true ↔ ∀ m ∈ members, every P m.2 = true
  | [] => by simp [every.everyMember]
  | m :: members => by simp [every.everyMember, @everyMember_iff P members]

variable {P : List (String × Json) → Bool}

@[simp] theorem every_arr {items : List Json} :
    every P (.arr items) = true ↔ ∀ item ∈ items, every P item = true := by
  rw [every, everyItem_iff]

@[simp] theorem every_obj {members : List (String × Json)} :
    every P (.obj members) = true ↔ P members = true ∧ ∀ m ∈ members, every P m.2 = true := by
  rw [every, Bool.and_eq_true, everyMember_iff]

theorem every_mono {P Q : List (String × Json) → Bool} (h : ∀ members, P members = true → Q members = true)
    {j : Json} : every P j = true → every Q j = true := by
  induction j using Json.ind with
  | arr items ih =>
    rw [every_arr, every_arr]
    exact fun hP item hitem => ih item hitem (hP item hitem)
  | obj members ih =>
    rw [every_obj, every_obj]
    exact fun hP => ⟨h members hP.1, fun m hm => ih m hm (hP.2 m hm)⟩
  | leaf j harr hobj =>
    cases j with
    | arr items => exact absurd rfl (harr items)
    | obj members => exact absurd rfl (hobj members)
    | _ => exact fun _ => rfl

theorem pyEqItems_self : ∀ {items : List Json}, (∀ item ∈ items, pyEq item item = true) →
    pyEq.pyEqItems items items = true
  | [], _ => by simp [pyEq.pyEqItems]
  | item :: items, h => by
    rw [pyEq.pyEqItems, h item List.mem_cons_self, pyEqItems_self fun j hj => h j (List.mem_cons_of_mem _ hj)]
    rfl

theorem pyEqMembers_self {others : List (String × Json)} : ∀ {members : List (String × Json)},
    members ⊆ others → (∀ m ∈ members, pyEq m.2 m.2 = true) → pyEq.pyEqMembers members others = true
  | [], _, _ => by simp [pyEq.pyEqMembers]
  | (k, j) :: members, hsub, h => by
    have hany : (others.any fun m => m.1 = k && pyEq j m.2) = true :=
      List.any_eq_true.2 ⟨(k, j), hsub List.mem_cons_self, by simpa using h _ List.mem_cons_self⟩
    rw [pyEq.pyEqMembers, hany, pyEqMembers_self (fun m hm => hsub (List.mem_cons_of_mem _ hm))
      fun m hm => h m (List.mem_cons_of_mem _ hm)]
    rfl

theorem pyEq_self (j : Json) : pyEq j j = true := by
  induction j using ind with
  | arr items ih => simpa [pyEq] using pyEqItems_self ih
  | obj members ih => simpa [pyEq] using pyEqMembers_self (List.Subset.refl members) ih
  | leaf j harr hobj =>
    cases j with
    | arr items => exact absurd rfl (harr items)
    | obj members => exact absurd rfl (hobj members)
    | _ => simp [pyEq, num]

/-! ## Paths -/

def at? : List String → Json → Option Json
  | [], j => some j
  | k :: path, .obj members => (Dict.get? k members).bind (at? path)
  | _ :: _, _ => none

@[simp] theorem at?_nil (j : Json) : at? [] j = some j := by
  cases j <;> rfl

@[simp] theorem at?_cons_obj (k : String) (path : List String) (members : List (String × Json)) :
    at? (k :: path) (.obj members) = (Dict.get? k members).bind (at? path) := rfl

theorem at?_snoc {path : List String} {q : String} {v : Json} : ∀ {j : Json},
    at? (path ++ [q]) j = some v ↔ ∃ us, at? path j = some (.obj us) ∧ Dict.get? q us = some v := by
  induction path with
  | nil =>
    intro j
    cases j with
    | obj us => cases hq : Dict.get? q us <;> simp [hq]
    | _ => simp [at?]
  | cons k path ih =>
    intro j
    cases j with
    | obj ms => cases hk : Dict.get? k ms <;> simp [hk, ih]
    | _ => simp [at?]

theorem at?_last {path : List String} {q : String} {j : Json} {us : List (String × Json)}
    (h : at? path j = some (.obj us)) : at? (path ++ [q]) j = Dict.get? q us := by
  cases hq : Dict.get? q us with
  | some v => exact at?_snoc.2 ⟨us, h, hq⟩
  | none =>
    cases hat : at? (path ++ [q]) j with
    | none => rfl
    | some v =>
      obtain ⟨us', h', hv⟩ := at?_snoc.1 hat
      cases h.symm.trans h'
      rw [hq] at hv
      cases hv

def getPath : List String → Json → Json
  | [], j => j
  | k :: path, j => getPath path (j.field k)

def setPath (v : Json) : List String → Json → Json
  | [], _ => v
  | k :: path, .obj members => .obj (Dict.set k (setPath v path ((Json.obj members).field k)) members)
  | _ :: _, j => j

@[simp] theorem getPath_nil (j : Json) : getPath [] j = j := rfl

@[simp] theorem getPath_cons (k : String) (path : List String) (j : Json) :
    getPath (k :: path) j = getPath path (j.field k) := rfl

@[simp] theorem getPath_null : ∀ path, getPath path .null = .null
  | [] => rfl
  | _ :: path => getPath_null path

theorem getPath_append : ∀ (p q : List String) (j : Json), getPath (p ++ q) j = getPath q (getPath p j)
  | [], _, _ => rfl
  | k :: p, q, j => getPath_append p q (j.field k)

theorem field_set (k q : String) (v : Json) (members : List (String × Json)) :
    field q (.obj (Dict.set k v members)) = if q = k then v else field q (.obj members) := by
  simp only [field, Dict.get?_set]
  split <;> rfl

theorem isObj_of_field {k : String} {j : Json} (h : (j.field k).isObj = true) : j.isObj = true := by
  cases j <;> simp_all [field, isObj]

theorem getPath_setPath_self (v : Json) (f : String) : ∀ (path : List String) {j : Json},
    (getPath path j).isObj = true → getPath (path ++ [f]) (setPath v (path ++ [f]) j) = v
  | [], .obj members, _ => by simp [setPath, field_set]
  | k :: path, .obj members, h => by
    simpa [setPath, field_set] using getPath_setPath_self v f path (j := field k (.obj members)) h
  | _ :: _, .null, h | _ :: _, .bool _, h | _ :: _, .int _, h | _ :: _, .float _, h | _ :: _, .str _, h
  | _ :: _, .arr _, h => by simp [field, isObj] at h

theorem setPath_at? {v : Json} : ∀ {path : List String} {j : Json}, at? path j = some v → setPath v path j = j
  | [], j, h => by simpa [setPath] using h.symm
  | k :: path, .obj members, h => by
    cases hk : Dict.get? k members with
    | none => simp [hk] at h
    | some w =>
      simp only [at?_cons_obj, hk, Option.bind_some] at h
      simp only [setPath, field, hk, Option.getD_some, setPath_at? h, Dict.set_self hk]

theorem at?_setPath {v w : Json} : ∀ {path : List String} {j : Json}, at? path j = some v →
    at? path (setPath w path j) = some w
  | [], _, _ => by simp [setPath]
  | k :: path, .obj members, h => by
    cases hk : Dict.get? k members with
    | none => simp [hk] at h
    | some u =>
      simp only [at?_cons_obj, hk, Option.bind_some] at h
      simp [setPath, field, hk, at?_setPath h]

theorem setPath_setPath (v w : Json) : ∀ (path : List String) (j : Json),
    setPath w path (setPath v path j) = setPath w path j
  | [], _ => rfl
  | k :: path, .obj members => by
    simp only [setPath, field_set, if_true, Dict.set_set, setPath_setPath v w path]
  | _ :: _, .null | _ :: _, .bool _ | _ :: _, .int _ | _ :: _, .float _ | _ :: _, .str _ | _ :: _, .arr _ => rfl

theorem setPath_snoc {v : Json} {k : String} {ms : List (String × Json)} : ∀ {path : List String} {j : Json},
    at? path j = some (.obj ms) → setPath v (path ++ [k]) j = setPath (.obj (Dict.set k v ms)) path j
  | [], j, h => by
    obtain rfl : j = .obj ms := by simpa using h
    rfl
  | q :: path, .obj members, h => by
    cases hq : Dict.get? q members with
    | none => simp [hq] at h
    | some u =>
      simp only [at?_cons_obj, hq, Option.bind_some] at h
      simp only [List.cons_append, setPath, field, hq, Option.getD_some, setPath_snoc h]

theorem getPath_at? {v : Json} : ∀ {path : List String} {j : Json}, at? path j = some v → getPath path j = v
  | [], j, h => by simpa using h
  | k :: path, .obj members, h => by
    cases hk : Dict.get? k members with
    | none => simp [hk] at h
    | some u =>
      simp only [at?_cons_obj, hk, Option.bind_some] at h
      simpa [field, hk] using getPath_at? h

def Apart : List String → List String → Prop
  | k :: p, q :: r => k ≠ q ∨ Apart p r
  | _, _ => False

theorem Apart.symm : ∀ {p q : List String}, Apart p q → Apart q p
  | _ :: _, _ :: _, .inl h => .inl (Ne.symm h)
  | _ :: _, _ :: _, .inr h => .inr h.symm

theorem Apart.append : ∀ {p q : List String} (r : List String), Apart p q → Apart p (q ++ r)
  | _ :: _, _ :: _, _, .inl h => .inl h
  | _ :: _, _ :: _, r, .inr h => .inr (h.append r)

theorem Apart.last : ∀ (p : List String) {f g : String}, f ≠ g → Apart (p ++ [f]) (p ++ [g])
  | [], _, _, h => .inl h
  | _ :: p, _, _, h => .inr (last p h)

theorem isObj_setPath (v : Json) (f : String) : ∀ (path : List String) {j : Json},
    (getPath path j).isObj = true → (getPath path (setPath v (path ++ [f]) j)).isObj = true
  | [], .obj _, _ => rfl
  | k :: path, .obj members, h => by
    simpa [setPath, field_set] using isObj_setPath v f path (j := field k (.obj members)) h
  | _ :: _, .null, h | _ :: _, .bool _, h | _ :: _, .int _, h | _ :: _, .float _, h | _ :: _, .str _, h
  | _ :: _, .arr _, h => by simp [field, isObj] at h

theorem getPath_setPath_apart (v : Json) : ∀ {p q : List String} {j : Json}, Apart p q →
    getPath q (setPath v p j) = getPath q j
  | k :: p, q :: r, .obj members, h => by
    by_cases hqk : q = k
    · have hpr : Apart p r := h.resolve_left fun hne => hne hqk.symm
      simpa [setPath, field_set, hqk] using getPath_setPath_apart v hpr
    · simp [setPath, field_set, hqk]
  | _ :: _, _ :: _, .null, _ | _ :: _, _ :: _, .bool _, _ | _ :: _, _ :: _, .int _, _ | _ :: _, _ :: _, .float _, _
  | _ :: _, _ :: _, .str _, _ | _ :: _, _ :: _, .arr _, _ => rfl

/-! ## Strings -/

def mapStrings (f : String → String) : Json → Json
  | .str s => .str (f s)
  | .arr items => .arr (mapItems items)
  | .obj members => .obj (mapMembers members)
  | j => j
where
  mapItems : List Json → List Json
    | [] => []
    | item :: items => mapStrings f item :: mapItems items
  mapMembers : List (String × Json) → List (String × Json)
    | [] => []
    | (k, j) :: members => (k, mapStrings f j) :: mapMembers members

def strings : Json → List String
  | .str s => [s]
  | .arr items => ofItems items
  | .obj members => ofMembers members
  | _ => []
where
  ofItems : List Json → List String
    | [] => []
    | item :: items => strings item ++ ofItems items
  ofMembers : List (String × Json) → List String
    | [] => []
    | (_, j) :: members => strings j ++ ofMembers members

mutual
theorem mapStrings_congr {f g : String → String} : ∀ {j : Json}, (∀ s ∈ j.strings, f s = g s) →
    j.mapStrings f = j.mapStrings g
  | .null, _ => rfl
  | .bool _, _ => rfl
  | .int _, _ => rfl
  | .float _, _ => rfl
  | .str s, h => congrArg Json.str (h s (List.mem_singleton.2 rfl))
  | .arr _, h => congrArg Json.arr (mapItems_congr h)
  | .obj _, h => congrArg Json.obj (mapMembers_congr h)

theorem mapItems_congr {f g : String → String} : ∀ {items : List Json}, (∀ s ∈ strings.ofItems items, f s = g s) →
    mapStrings.mapItems f items = mapStrings.mapItems g items
  | [], _ => rfl
  | item :: items, h => by
    rw [mapStrings.mapItems, mapStrings.mapItems, mapStrings_congr fun s hs => h s (List.mem_append_left _ hs),
      mapItems_congr fun s hs => h s (List.mem_append_right _ hs)]

theorem mapMembers_congr {f g : String → String} : ∀ {members : List (String × Json)},
    (∀ s ∈ strings.ofMembers members, f s = g s) → mapStrings.mapMembers f members = mapStrings.mapMembers g members
  | [], _ => rfl
  | (k, j) :: members, h => by
    rw [mapStrings.mapMembers, mapStrings.mapMembers, mapStrings_congr fun s hs => h s (List.mem_append_left _ hs),
      mapMembers_congr fun s hs => h s (List.mem_append_right _ hs)]
end

end Json

end Py
