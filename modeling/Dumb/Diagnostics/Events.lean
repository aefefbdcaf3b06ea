import Mathlib.Data.List.Dedup
import Mathlib.Data.List.Forall2
import Mathlib.Data.List.Infix
import Mathlib.Data.List.Sort
import Dumb.Lib.Text
import Dumb.Logs.Redaction

/-!
# The ledger of configuration changes

`DiagnosticEventStore.record_config_change` of `utils/ai_diagnostics.py`. Two configurations that differ in secrets only
are recorded alike where no secret stands in a list.
-/

namespace Dumb.Diagnostics

open Py

def secretHints : List String :=
  ["api_key", "apikey", "password", "passwd", "secret", "token", "cookie", "authorization", "client_secret", "plex_token",
    "github_token", "tunnel_token"]

structure Env where
  unicode : Logs.Unicode
  lower : String → String
  /-- `json.dumps(value, sort_keys=True)` -/
  dumps : Json → String
  dumpsCompact : Json → String

section
variable (env : Env)

def isIn (part s : String) : Bool := s.toList.tails.any part.toList.isPrefixOf

def isSecret (path : String) : Bool := secretHints.any fun hint => isIn hint (env.lower path)

def redactText (s : String) : String := String.ofList (Logs.redact env.unicode s.toList)

def safeValue (path : String) (value : Json) : Json :=
  if isSecret env path then .str "[REDACTED]"
  else match value with
    | .str s => .str (redactText env s)
    | .arr items => .str (String.ofList ((redactText env (env.dumps (.arr items))).toList.take 500))
    | .obj members => .str (String.ofList ((redactText env (env.dumps (.obj members))).toList.take 500))
    | value => value

def joinPath (path key : String) : String := if path ≠ "" then path ++ "." ++ key else key

mutual
def redactStructure (path : String) : Json → Json
  | .obj members => .obj (redactMembers path members)
  | .arr items => .arr (redactItems path items)
  | value => safeValue env path value

def redactMembers (path : String) : List (String × Json) → List (String × Json)
  | [] => []
  | (key, child) :: members => (key, redactStructure (joinPath path key) child) :: redactMembers path members

def redactItems (path : String) : List Json → List Json
  | [] => []
  | child :: items => redactStructure path child :: redactItems path items
end

def update (flattened other : Dict String Json) : Dict String Json := other.foldl (fun d m => Dict.set m.1 m.2 d) flattened

mutual
def flatten (path : String) : Json → Dict String Json
  | .obj members => flattenMembers path [] members
  | value => [(path, value)]

def flattenMembers (path : String) (flattened : Dict String Json) : List (String × Json) → Dict String Json
  | [] => flattened
  | (key, child) :: members => flattenMembers path (update flattened (flatten (joinPath path key) child)) members
end

structure Event where
  processName : Option String
  eventType : String
  source : String
  actor : Option String
  summary : String
  detailsJson : String

def record (eventType source summary : String) (processName actor : Option String) (details : Json) : Event where
  processName := processName
  eventType := eventType
  source := source
  actor := if actor.any (· ≠ "") then some "authenticated" else none
  summary := String.ofList ((redactText env summary).toList.take 1000)
  detailsJson := env.dumpsCompact (redactStructure env "" details)

def valueAt (flattened : Dict String Json) (path : String) : Json := (Dict.get? path flattened).getD .null

def allPaths (old new : Dict String Json) : List String := ((Dict.keys old ++ Dict.keys new).dedup).mergeSort (· ≤ ·)

def changedPaths (old new : Dict String Json) : List String :=
  (allPaths old new).filter fun path => !(valueAt old path).pyEq (valueAt new path)

def change (old new : Dict String Json) (path : String) : Json :=
  .obj [("path", .str path), ("before", safeValue env path (valueAt old path)),
    ("after", safeValue env path (valueAt new path))]

def recordConfigChange (before after : Json) (processName actor : Option String) (source : String) : Option Event :=
  let old := flatten "" before
  let new := flatten "" after
  let changed := (changedPaths old new).map (change env old new)
  if changed = [] then none
  else some (record env "config_change" source (toString changed.length ++ " configuration value(s) changed") processName
    actor (.obj [("changes", .arr (changed.take 100)), ("truncated", .bool (100 < changed.length)),
      ("total_changes", .int changed.length)]))

/-! ## Configurations that differ in secrets only -/

mutual
def mask : Json → Json
  | .obj members => .obj (maskMembers members)
  | .arr items => .arr (maskItems items)
  | value => value

def maskMembers : List (String × Json) → List (String × Json)
  | [] => []
  | (key, child) :: members => (key, if isSecret env key then .null else mask child) :: maskMembers members

def maskItems : List Json → List Json
  | [] => []
  | child :: items => mask child :: maskItems items
end

def noSecrets (value : Json) : Bool := value.every fun members => members.all fun m => !isSecret env m.1

end

mutual
def leaves : Json → Dict (List String) Json
  | .obj members => leavesMembers members
  | value => [([], value)]

def leavesMembers : List (String × Json) → Dict (List String) Json
  | [] => []
  | (key, child) :: members => (leaves child).map (fun leaf => (key :: leaf.1, leaf.2)) ++ leavesMembers members
end

def pathOf (path : String) (names : List String) : String := names.foldl joinPath path

def leafAt (value : Json) (names : List String) : Json := (Dict.get? names (leaves value)).getD .null

/-- What is used of `lower()`: a hint in a name stays one beside a dot. -/
structure Lawful (env : Env) : Prop where
  lower_empty : env.lower "" = ""
  secret_left : ∀ path key, isSecret env path = true → isSecret env (path ++ "." ++ key) = true
  secret_right : ∀ path key, isSecret env key = true → isSecret env (path ++ "." ++ key) = true

section
variable {env : Env}

theorem isSecret_empty (hlaws : Lawful env) : isSecret env "" = false := by
  rw [isSecret, hlaws.lower_empty]
  decide

variable {path : String}

theorem isSecret_join_left (hlaws : Lawful env) (h : isSecret env path = true) (key : String) :
    isSecret env (joinPath path key) = true := by
  have hne : path ≠ "" := by
    rintro rfl
    rw [isSecret_empty hlaws] at h
    cases h
  rw [joinPath, if_pos hne]
  exact hlaws.secret_left path key h

theorem isSecret_join_right (hlaws : Lawful env) {key : String} (h : isSecret env key = true) (path : String) :
    isSecret env (joinPath path key) = true := by
  by_cases hpath : path ≠ ""
  · rw [joinPath, if_pos hpath]
    exact hlaws.secret_right path key h
  · rw [joinPath, if_neg hpath]
    exact h

/-! ## What is left of a value -/

theorem maskItems_eq : ∀ items : List Json, maskItems env items = items.map (mask env)
  | [] => rfl
  | child :: items => by rw [maskItems, maskItems_eq items, List.map_cons]

theorem maskMembers_eq : ∀ members : List (String × Json),
    maskMembers env members = members.map fun m => (m.1, if isSecret env m.1 then .null else mask env m.2)
  | [] => rfl
  | (key, child) :: members => by rw [maskMembers, maskMembers_eq members, List.map_cons]

theorem forall₂_of_map {α β : Type} {f : α → β} {R : α → α → Prop} {xs ys : List α}
    (h : ∀ x ∈ xs, ∀ y, f x = f y → R x y) (hf : xs.map f = ys.map f) : List.Forall₂ R xs ys := by
  induction xs generalizing ys with
  | nil =>
    rw [List.map_eq_nil_iff.1 hf.symm]
    exact .nil
  | cons x xs ih =>
    cases ys with
    | nil => cases hf
    | cons y ys =>
      rw [List.map_cons, List.map_cons, List.cons.injEq] at hf
      exact .cons (h x List.mem_cons_self y hf.1) (ih (fun z hz => h z (List.mem_cons_of_mem _ hz)) hf.2)

variable {j : Json}

theorem eq_of_mask (hclean : noSecrets env j = true) : ∀ j', mask env j = mask env j' → j = j' := by
  induction j using Json.ind with
  | arr items ih =>
    intro j' h
    rw [noSecrets, Json.every_arr] at hclean
    cases j' with
    | arr items' =>
      rw [mask, mask, Json.arr.injEq, maskItems_eq, maskItems_eq] at h
      have hitems := forall₂_of_map (fun item hitem j' heq => ih item hitem (hclean item hitem) j' heq) h
      rw [List.forall₂_eq_eq_eq] at hitems
      rw [hitems]
    | _ => simp [mask] at h
  | obj members ih =>
    intro j' h
    rw [noSecrets, Json.every_obj] at hclean
    obtain ⟨hnames, hclean⟩ := hclean
    cases j' with
    | obj members' =>
      rw [mask, mask, Json.obj.injEq, maskMembers_eq, maskMembers_eq] at h
      have hmembers : List.Forall₂ Eq members members' := by
        refine forall₂_of_map (fun m hm m' heq => ?_) h
        obtain ⟨hkey, hvalue⟩ := Prod.mk.inj heq
        have hname : isSecret env m.1 = false := by simpa using List.all_eq_true.1 hnames m hm
        rw [← hkey, hname] at hvalue
        exact Prod.ext hkey (ih m hm (hclean m hm) m'.2 hvalue)
      rw [List.forall₂_eq_eq_eq] at hmembers
      rw [hmembers]
    | _ => simp [mask] at h
  | leaf j harr hobj =>
    intro j' h
    cases j with
    | arr items => exact absurd rfl (harr items)
    | obj members => exact absurd rfl (hobj members)
    | _ => cases j' <;> simp_all [mask]

/-! ## Flattened -/

theorem obj_ind {motive : Json → Prop} (obj : ∀ members, (∀ m ∈ members, motive m.2) → motive (.obj members))
    (leaf : ∀ j, (∀ members, j ≠ .obj members) → motive j) (j : Json) : motive j := by
  induction j using Json.ind with
  | obj members ih => exact obj members ih
  | arr items ih =>
    apply leaf
    intro members h
    cases h
  | leaf j harr hobj => exact leaf j hobj

theorem get?_update {other : Dict String Json} (hnodup : (Dict.keys other).Nodup) (q : String) :
    ∀ flattened : Dict String Json, Dict.get? q (update flattened other) = (Dict.get? q other).or (Dict.get? q flattened) := by
  induction other with
  | nil => exact fun _ => rfl
  | cons n other ih =>
    intro flattened
    obtain ⟨key, v⟩ := n
    obtain ⟨hkey, hnodup⟩ := List.nodup_cons.1 hnodup
    rw [update, List.foldl_cons, ← update, ih hnodup, Dict.get?_set, Dict.get?]
    by_cases hq : key = q
    · subst hq
      have hnone : Dict.get? key other = none := by
        by_contra hsome
        exact hkey (Dict.mem_keys.2 hsome)
      simp [hnone]
    · simp [hq, Ne.symm hq]

variable {flattened other : Dict String Json}

theorem nodup_update (h : (Dict.keys flattened).Nodup) :
    (Dict.keys (update flattened other)).Nodup := by
  induction other generalizing flattened with
  | nil => exact h
  | cons n other ih => exact ih (Dict.nodup_keys_set h)

variable {members : List (String × Json)}

theorem nodup_flattenMembers : ∀ {flattened : Dict String Json},
    (Dict.keys flattened).Nodup → (Dict.keys (flattenMembers path flattened members)).Nodup := by
  induction members with
  | nil => exact id
  | cons n members ih =>
    intro flattened h
    obtain ⟨key, child⟩ := n
    rw [flattenMembers]
    exact ih (nodup_update h)

theorem flatten_leaf (path : String) (h : ∀ members, j ≠ .obj members) : flatten path j = [(path, j)] := by
  cases j with
  | obj members => exact absurd rfl (h members)
  | _ => rfl

theorem nodup_flatten (path : String) (j : Json) : (Dict.keys (flatten path j)).Nodup := by
  induction j using obj_ind with
  | obj members ih =>
    rw [flatten]
    exact nodup_flattenMembers List.nodup_nil
  | leaf j hobj =>
    rw [flatten_leaf path hobj]
    simp [Dict.keys]

theorem keys_update {q : String} :
    q ∈ Dict.keys (update flattened other) ↔ q ∈ Dict.keys flattened ∨ q ∈ Dict.keys other := by
  induction other generalizing flattened with
  | nil => simp [update, Dict.keys]
  | cons n other ih =>
    have hset : q ∈ Dict.keys (Dict.set n.1 n.2 flattened) ↔ q = n.1 ∨ q ∈ Dict.keys flattened := by
      rw [Dict.mem_keys, Dict.get?_set, Dict.mem_keys]
      by_cases hq : q = n.1
      · simp [hq]
      · simp [hq]
    rw [update, List.foldl_cons, ← update, ih, hset]
    simp only [Dict.keys, List.map_cons, List.mem_cons]
    tauto

theorem keys_flattenMembers {path q : String} : ∀ {flattened : Dict String Json},
    q ∈ Dict.keys (flattenMembers path flattened members) ↔
      q ∈ Dict.keys flattened ∨ ∃ n ∈ members, q ∈ Dict.keys (flatten (joinPath path n.1) n.2) := by
  induction members with
  | nil => simp [flattenMembers]
  | cons n members ih =>
    intro flattened
    obtain ⟨key, child⟩ := n
    rw [flattenMembers, ih, keys_update, or_assoc]
    simp only [List.mem_cons, exists_eq_or_imp]

theorem secret_of_flatten (hlaws : Lawful env) : ∀ {path q : String}, isSecret env path = true →
    q ∈ Dict.keys (flatten path j) → isSecret env q = true := by
  induction j using obj_ind with
  | obj members ih =>
    intro path q hpath hq
    rw [flatten, keys_flattenMembers] at hq
    rcases hq with hq | ⟨n, hn, hq⟩
    · cases hq
    · exact ih n hn (isSecret_join_left hlaws hpath n.1) hq
  | leaf j hobj =>
    intro path q hpath hq
    rw [flatten_leaf path hobj] at hq
    rw [List.mem_singleton.1 hq]
    exact hpath

def Alike (env : Env) (old old' : Dict String Json) : Prop :=
  ∀ path, isSecret env path = false → (Dict.get? path old).map (mask env) = (Dict.get? path old').map (mask env)

theorem Alike.update {old old' new new' : Dict String Json} (hold : Alike env old old') (hnew : Alike env new new')
    (hnodup : (Dict.keys new).Nodup) (hnodup' : (Dict.keys new').Nodup) : Alike env (update old new) (update old' new') := by
  intro path hpath
  have hold := hold path hpath
  have hnew := hnew path hpath
  rw [get?_update hnodup, get?_update hnodup']
  cases hget : Dict.get? path new with
  | some v =>
    rw [hget] at hnew
    obtain ⟨v', hget'⟩ := Option.ne_none_iff_exists'.1 (show Dict.get? path new' ≠ none from fun hnone => by simp [hnone] at hnew)
    rw [hget'] at hnew ⊢
    exact hnew
  | none =>
    rw [hget] at hnew
    have hget' : Dict.get? path new' = none := by simpa using hnew.symm
    rw [hget']
    exact hold

theorem flattenMembers_alike {members members' : List (String × Json)}
    (h : List.Forall₂ (fun m m' => m.1 = m'.1 ∧
      Alike env (flatten (joinPath path m.1) m.2) (flatten (joinPath path m.1) m'.2)) members members') :
    ∀ {old old' : Dict String Json}, Alike env old old' →
      Alike env (flattenMembers path old members) (flattenMembers path old' members') := by
  induction h with
  | nil => exact id
  | @cons m m' members members' hm htail ih =>
    intro old old' hold
    obtain ⟨key, v⟩ := m
    obtain ⟨key', v'⟩ := m'
    obtain ⟨rfl, halike⟩ := hm
    rw [flattenMembers, flattenMembers]
    exact ih (hold.update halike (nodup_flatten _ _) (nodup_flatten _ _))

theorem flatten_alike (hlaws : Lawful env) : ∀ {j' : Json} (path : String), mask env j = mask env j' →
    Alike env (flatten path j) (flatten path j') := by
  induction j using obj_ind with
  | obj members ih =>
    intro j' path h
    cases j' with
    | obj members' =>
      rw [mask, mask, Json.obj.injEq, maskMembers_eq, maskMembers_eq] at h
      rw [flatten, flatten]
      apply flattenMembers_alike _ fun _ _ => rfl
      refine forall₂_of_map (fun m hm m' heq => ?_) h
      obtain ⟨hkey, hvalue⟩ := Prod.mk.inj heq
      refine ⟨hkey, ?_⟩
      by_cases hname : isSecret env m.1 = true
      · -- under a secret name neither has an open path
        have hnone : ∀ (child : Json) (q : String), isSecret env q = false →
            Dict.get? q (flatten (joinPath path m.1) child) = none := by
          intro child q hq
          by_contra hsome
          rw [secret_of_flatten hlaws (isSecret_join_right hlaws hname path) (Dict.mem_keys.2 hsome)] at hq
          cases hq
        intro q hq
        rw [hnone m.2 q hq, hnone m'.2 q hq]
      · rw [← hkey, if_neg hname, if_neg hname] at hvalue
        exact ih m hm _ hvalue
    | _ => simp [mask] at h
  | leaf j hobj =>
    intro j' path h
    have hobj' : ∀ members, j' ≠ .obj members := by
      rintro members rfl
      cases j with
      | obj members => exact hobj members rfl
      | _ => simp [mask] at h
    rw [flatten_leaf path hobj, flatten_leaf path hobj']
    intro q hq
    by_cases hpath : path = q
    · simp [Dict.get?, hpath, h]
    · simp [Dict.get?, hpath]

/-! ## Leaves and paths -/

theorem leavesMembers_eq : ∀ members : List (String × Json), leavesMembers members =
    members.flatMap fun m => (leaves m.2).map fun leaf => (m.1 :: leaf.1, leaf.2)
  | [] => rfl
  | (key, child) :: members => by rw [leavesMembers, leavesMembers_eq members, List.flatMap_cons]

variable {names : List String}

theorem mem_leaves_obj {v : Json} :
    (names, v) ∈ leaves (.obj members) ↔ ∃ key child rest, (key, child) ∈ members ∧ (rest, v) ∈ leaves child ∧ names = key :: rest := by
  rw [leaves, leavesMembers_eq, List.mem_flatMap]
  constructor
  · rintro ⟨⟨key, child⟩, hm, hleaf⟩
    obtain ⟨⟨rest, w⟩, hrest, heq⟩ := List.mem_map.1 hleaf
    obtain ⟨rfl, rfl⟩ := Prod.mk.inj heq
    exact ⟨key, child, rest, hm, hrest, rfl⟩
  · rintro ⟨key, child, rest, hm, hrest, rfl⟩
    exact ⟨(key, child), hm, List.mem_map.2 ⟨(rest, v), hrest, rfl⟩⟩

theorem leaf_unique (hdistinct : j.Distinct) : ∀ {names : List String} {v w : Json},
    (names, v) ∈ leaves j → (names, w) ∈ leaves j → v = w := by
  induction hdistinct with
  | @obj members hkeys hmembers ih =>
    intro names v w hv hw
    obtain ⟨key, child, rest, hm, hrest, rfl⟩ := mem_leaves_obj.1 hv
    obtain ⟨key', child', rest', hm', hrest', heq⟩ := mem_leaves_obj.1 hw
    obtain ⟨rfl, rfl⟩ := List.cons.inj heq
    obtain rfl : child = child' :=
      Option.some.inj ((Dict.get?_of_mem hkeys hm).symm.trans (Dict.get?_of_mem hkeys hm'))
    exact ih _ hm hrest hrest'
  | _ =>
    intro names v w hv hw
    simp only [leaves, List.mem_singleton] at hv hw
    exact (Prod.mk.inj (hv.trans hw.symm)).2

theorem get?_leaves (hdistinct : j.Distinct) {v : Json} :
    Dict.get? names (leaves j) = some v ↔ (names, v) ∈ leaves j := by
  constructor
  · exact Dict.mem_of_get?
  · intro hv
    have hkey : names ∈ Dict.keys (leaves j) := List.mem_map.2 ⟨(names, v), hv, rfl⟩
    obtain ⟨w, hw⟩ := Option.ne_none_iff_exists'.1 (Dict.mem_keys.1 hkey)
    rw [hw, leaf_unique hdistinct (Dict.mem_of_get? hw) hv]

theorem mem_update {m : String × Json} (h : m ∈ update flattened other) :
    m ∈ flattened ∨ m ∈ other := by
  induction other generalizing flattened with
  | nil => exact .inl h
  | cons n other ih =>
    rcases ih h with h | h
    · rcases Dict.mem_set h with rfl | h
      · exact .inr List.mem_cons_self
      · exact .inl h
    · exact .inr (List.mem_cons_of_mem _ h)

theorem mem_flattenMembers {m : String × Json} :
    ∀ {flattened : Dict String Json}, m ∈ flattenMembers path flattened members →
      m ∈ flattened ∨ ∃ n ∈ members, m ∈ flatten (joinPath path n.1) n.2 := by
  induction members with
  | nil =>
    intro flattened h
    exact .inl h
  | cons n members ih =>
    intro flattened h
    obtain ⟨key, child⟩ := n
    rw [flattenMembers] at h
    rcases ih h with h | ⟨n, hn, h⟩
    · rcases mem_update h with h | h
      · exact .inl h
      · exact .inr ⟨(key, child), List.mem_cons_self, h⟩
    · exact .inr ⟨n, List.mem_cons_of_mem _ hn, h⟩

theorem leaves_leaf (h : ∀ members, j ≠ .obj members) : leaves j = [([], j)] := by
  cases j with
  | obj members => exact absurd rfl (h members)
  | _ => rfl

theorem leaf_of_flatten : ∀ {path p : String} {v : Json}, (p, v) ∈ flatten path j →
    ∃ names, (names, v) ∈ leaves j ∧ p = pathOf path names := by
  induction j using obj_ind with
  | obj members ih =>
    intro path p v h
    rw [flatten] at h
    rcases mem_flattenMembers h with h | ⟨n, hn, h⟩
    · cases h
    · obtain ⟨names, hleaf, rfl⟩ := ih n hn h
      exact ⟨n.1 :: names, mem_leaves_obj.2 ⟨n.1, n.2, names, hn, hleaf, rfl⟩, rfl⟩
  | leaf j hobj =>
    intro path p v h
    rw [flatten_leaf path hobj, List.mem_singleton] at h
    obtain ⟨rfl, rfl⟩ := Prod.mk.inj h
    rw [leaves_leaf hobj]
    exact ⟨[], List.mem_singleton.2 rfl, rfl⟩

theorem flatten_of_leaf : ∀ {path : String} {names : List String} {v : Json}, (names, v) ∈ leaves j →
    pathOf path names ∈ Dict.keys (flatten path j) := by
  induction j using obj_ind with
  | obj members ih =>
    intro path names v h
    obtain ⟨key, child, rest, hm, hrest, rfl⟩ := mem_leaves_obj.1 h
    rw [flatten]
    exact keys_flattenMembers.2 (.inr ⟨(key, child), hm, ih (key, child) hm hrest⟩)
  | leaf j hobj =>
    intro path names v h
    rw [leaves_leaf hobj, List.mem_singleton] at h
    obtain ⟨rfl, rfl⟩ := Prod.mk.inj h
    rw [flatten_leaf path hobj]
    exact List.mem_singleton.2 rfl

def allNames (before after : Json) : List (List String) := Dict.keys (leaves before) ++ Dict.keys (leaves after)

def PathsApart (before after : Json) : Prop :=
  ∀ names ∈ allNames before after, ∀ others ∈ allNames before after, pathOf "" names = pathOf "" others → names = others

theorem valueAt_flatten (hdistinct : j.Distinct)
    (hapart : ∀ others ∈ Dict.keys (leaves j), pathOf "" names = pathOf "" others → names = others) :
    valueAt (flatten "" j) (pathOf "" names) = leafAt j names := by
  rw [valueAt, leafAt]
  cases hget : Dict.get? (pathOf "" names) (flatten "" j) with
  | some v =>
    obtain ⟨others, hleaf, hpath⟩ := leaf_of_flatten (Dict.mem_of_get? hget)
    obtain rfl := hapart others (List.mem_map.2 ⟨(others, v), hleaf, rfl⟩) hpath
    rw [(get?_leaves hdistinct).2 hleaf]
  | none =>
    cases hleaf : Dict.get? names (leaves j) with
    | none => rfl
    | some v =>
      have hkey : pathOf "" names ∈ Dict.keys (flatten "" j) := flatten_of_leaf (Dict.mem_of_get? hleaf)
      exact absurd hget (Dict.mem_keys.1 hkey)

theorem mem_changedPaths {old new : Dict String Json} : path ∈ changedPaths old new ↔
    (path ∈ Dict.keys old ∨ path ∈ Dict.keys new) ∧ (valueAt old path).pyEq (valueAt new path) = false := by
  rw [changedPaths, List.mem_filter, allPaths, List.mem_mergeSort, List.mem_dedup, List.mem_append]
  simp

theorem changed_listed {before after : Json} (hbefore : before.Distinct) (hafter : after.Distinct)
    (hapart : PathsApart before after) (hnames : names ∈ allNames before after)
    (hdiffer : (leafAt before names).pyEq (leafAt after names) = false) :
    pathOf "" names ∈ changedPaths (flatten "" before) (flatten "" after) := by
  rw [mem_changedPaths, valueAt_flatten hbefore fun others hothers =>
      hapart names hnames others (List.mem_append_left _ hothers),
    valueAt_flatten hafter fun others hothers => hapart names hnames others (List.mem_append_right _ hothers)]
  refine ⟨?_, hdiffer⟩
  rcases List.mem_append.1 hnames with hleaf | hleaf
  · obtain ⟨v, hv⟩ := Option.ne_none_iff_exists'.1 (Dict.mem_keys.1 hleaf)
    exact .inl (flatten_of_leaf (Dict.mem_of_get? hv))
  · obtain ⟨v, hv⟩ := Option.ne_none_iff_exists'.1 (Dict.mem_keys.1 hleaf)
    exact .inr (flatten_of_leaf (Dict.mem_of_get? hv))

/-! ## The recorded event -/

theorem pairwise_changedPaths (old new : Dict String Json) : (changedPaths old new).Pairwise (· ≤ ·) := by
  have hsorted : (allPaths old new).Pairwise fun a b => decide (a ≤ b) = true := by
    apply List.pairwise_mergeSort
    · intro a b c hab hbc
      rw [decide_eq_true_eq] at hab hbc ⊢
      exact String.le_trans hab hbc
    · intro a b
      rw [Bool.or_eq_true, decide_eq_true_eq, decide_eq_true_eq]
      exact String.le_total a b
  exact (hsorted.imp fun h => of_decide_eq_true h).filter _

theorem nodup_changedPaths (old new : Dict String Json) : (changedPaths old new).Nodup := by
  have hnodup : (allPaths old new).Nodup := (List.mergeSort_perm _ _).nodup_iff.2 (List.nodup_dedup _)
  exact hnodup.filter _

theorem mem_changedPaths_iff {old new : Dict String Json} :
    path ∈ changedPaths old new ↔ (valueAt old path).pyEq (valueAt new path) = false := by
  rw [mem_changedPaths]
  constructor
  · exact fun h => h.2
  · intro h
    refine ⟨?_, h⟩
    by_contra hnone
    obtain ⟨hold, hnew⟩ := not_or.1 hnone
    rw [Dict.mem_keys, not_not] at hold hnew
    rw [valueAt, valueAt, hold, hnew] at h
    exact absurd (Json.pyEq_self .null) (by simp [Option.getD] at h ⊢; exact h)

def SameChanges (before after before' after' : Json) : Prop := ∀ path,
  (valueAt (flatten "" before) path).pyEq (valueAt (flatten "" after) path) =
    (valueAt (flatten "" before') path).pyEq (valueAt (flatten "" after') path)

theorem changedPaths_eq {old new old' new' : Dict String Json}
    (h : ∀ path, (valueAt old path).pyEq (valueAt new path) = (valueAt old' path).pyEq (valueAt new' path)) :
    changedPaths old new = changedPaths old' new' := by
  have hperm : (changedPaths old new).Perm (changedPaths old' new') := by
    rw [List.perm_ext_iff_of_nodup (nodup_changedPaths _ _) (nodup_changedPaths _ _)]
    intro path
    rw [mem_changedPaths_iff, mem_changedPaths_iff, h]
  exact hperm.eq_of_pairwise (fun a b _ _ hab hba => String.le_antisymm hab hba) (pairwise_changedPaths _ _)
    (pairwise_changedPaths _ _)

theorem valueAt_eq {old old' : Dict String Json} (h : Alike env old old') (hpath : isSecret env path = false)
    (hclean : noSecrets env (valueAt old path) = true) : valueAt old path = valueAt old' path := by
  apply eq_of_mask hclean
  have halike := h path hpath
  rw [valueAt, valueAt]
  cases hget : Dict.get? path old with
  | none =>
    rw [hget, Option.map_none] at halike
    rw [Option.map_eq_none_iff.1 halike.symm]
  | some v =>
    rw [hget, Option.map_some] at halike
    obtain ⟨v', hv', hmask⟩ := Option.map_eq_some_iff.1 halike.symm
    rw [hv']
    exact hmask.symm

end

/-- No secret name stands within a value that differs outside secret paths: in a list, that is. -/
def Open (env : Env) (before after : Json) : Prop :=
  ∀ path ∈ changedPaths (flatten "" before) (flatten "" after), isSecret env path = false →
    noSecrets env (valueAt (flatten "" before) path) = true ∧ noSecrets env (valueAt (flatten "" after) path) = true

/-- Whatever stands under secret names, in lists as well, the same event is recorded as long as the same values differ. -/
def Conceals (env : Env) (before after : Json) : Prop :=
  ∀ before' after', mask env before = mask env before' → mask env after = mask env after' →
    SameChanges before after before' after' → ∀ processName actor source,
      recordConfigChange env before after processName actor source =
        recordConfigChange env before' after' processName actor source

def Lists (env : Env) (before after : Json) : Prop :=
  ∀ names ∈ allNames before after, (leafAt before names).pyEq (leafAt after names) = false →
    pathOf "" names ∈ changedPaths (flatten "" before) (flatten "" after) ∧
      ∀ processName actor source, (recordConfigChange env before after processName actor source).isSome = true

theorem conceals_of_open (hlaws : Lawful env) {before after : Json} (h : Open env before after) :
    Conceals env before after := by
  intro before' after' hbefore hafter hchanges processName actor source
  have hold := flatten_alike hlaws "" hbefore
  have hnew := flatten_alike hlaws "" hafter
  have hpaths := changedPaths_eq hchanges
  have hmap : (changedPaths (flatten "" before) (flatten "" after)).map (change env (flatten "" before) (flatten "" after)) =
      (changedPaths (flatten "" before') (flatten "" after')).map (change env (flatten "" before') (flatten "" after')) := by
    rw [← hpaths]
    refine List.map_congr_left fun path hpath => ?_
    rw [change, change]
    by_cases hsecret : isSecret env path = true
    · simp [safeValue, hsecret]
    · have hopen : isSecret env path = false := by simpa using hsecret
      obtain ⟨hcleanOld, hcleanNew⟩ := h path hpath hopen
      rw [valueAt_eq hold hopen hcleanOld, valueAt_eq hnew hopen hcleanNew]
  simp only [recordConfigChange, hmap]

theorem lists_of_apart (env : Env) {before after : Json} (hbefore : before.Distinct) (hafter : after.Distinct)
    (hapart : PathsApart before after) : Lists env before after := by
  intro names hnames hdiffer
  have hlisted := changed_listed hbefore hafter hapart hnames hdiffer
  refine ⟨hlisted, fun processName actor source => ?_⟩
  have hne : (changedPaths (flatten "" before) (flatten "" after)).map
      (change env (flatten "" before) (flatten "" after)) ≠ [] := by
    intro hnil
    rw [List.map_eq_nil_iff.1 hnil] at hlisted
    cases hlisted
  rw [recordConfigChange, if_neg hne]
  rfl

mutual
/-- `json.dumps` with sorted keys, of texts that need no escapes. -/
def jsonText (comma colon : String) : Json → String
  | .null => "null"
  | .bool b => if b then "true" else "false"
  | .int n => toString n
  | .float r => toString r
  | .str s => "\"" ++ s ++ "\""
  | .arr items => "[" ++ comma.intercalate (jsonItems comma colon items) ++ "]"
  | .obj members =>
    let sorted := (jsonMembers comma colon members).insertionSort fun m n => m.1 ≤ n.1
    "\x7b" ++ comma.intercalate (sorted.map fun m => "\"" ++ m.1 ++ "\"" ++ colon ++ m.2) ++ "\x7d"

def jsonItems (comma colon : String) : List Json → List String
  | [] => []
  | item :: items => jsonText comma colon item :: jsonItems comma colon items

def jsonMembers (comma colon : String) : List (String × Json) → List (String × String)
  | [] => []
  | (key, value) :: members => (key, jsonText comma colon value) :: jsonMembers comma colon members
end

def asciiEnv : Env := ⟨.ascii, asciiLower, jsonText ", " ": ", jsonText "," ":"⟩

theorem isIn_iff {part s : String} : isIn part s = true ↔ part.toList <:+: s.toList := by
  rw [isIn, List.any_eq_true, List.infix_iff_prefix_suffix]
  constructor
  · rintro ⟨t, ht, hstart⟩
    exact ⟨t, List.isPrefixOf_iff_prefix.1 hstart, (List.mem_tails _ _).1 ht⟩
  · rintro ⟨t, hstart, ht⟩
    exact ⟨t, (List.mem_tails _ _).2 ht, List.isPrefixOf_iff_prefix.2 hstart⟩

theorem isSecret_mono {name longer : String} (hpart : (asciiLower name).toList <:+: (asciiLower longer).toList)
    (h : isSecret asciiEnv name = true) : isSecret asciiEnv longer = true := by
  rw [isSecret, List.any_eq_true] at h ⊢
  obtain ⟨hint, hmem, hin⟩ := h
  exact ⟨hint, hmem, isIn_iff.2 ((isIn_iff.1 hin).trans hpart)⟩

theorem lawful_ascii : Lawful asciiEnv where
  lower_empty := rfl
  secret_left path key := by
    apply isSecret_mono
    simp only [asciiLower, String.toList_append, List.map_append, String.toList_ofList, List.append_assoc]
    exact (List.prefix_append _ _).isInfix
  secret_right path key := by
    apply isSecret_mono
    simp only [asciiLower, String.toList_append, List.map_append, String.toList_ofList]
    exact (List.suffix_append _ _).isInfix

def setting (name : String) (value : Json) : Json := .obj [(name, value)]

theorem flatten_setting (name : String) {value : Json} (h : ∀ members, value ≠ .obj members) :
    flatten "" (setting name value) = [(name, value)] := by
  rw [setting, flatten, flattenMembers, joinPath, if_neg (by simp), flatten_leaf name h]
  rfl

theorem record_setting (name : String) {value : Json} (h : ∀ members, value ≠ .obj members)
    (hdiffer : value.pyEq .null = false) :
    recordConfigChange asciiEnv (setting name value) (setting name .null) none none "api" =
      some (record asciiEnv "config_change" "api" "1 configuration value(s) changed" none none
        (.obj [("changes", .arr [.obj [("path", .str name), ("before", safeValue asciiEnv name value),
          ("after", safeValue asciiEnv name .null)]]), ("truncated", .bool false), ("total_changes", .int 1)])) := by
  have hold := flatten_setting name h
  have hnew : flatten "" (setting name .null) = [(name, .null)] := by
    apply flatten_setting
    intro members heq
    cases heq
  have hvalue : valueAt [(name, value)] name = value := by simp [valueAt, Dict.get?]
  have hnull : valueAt [(name, Json.null)] name = .null := by simp [valueAt, Dict.get?]
  have hpaths : changedPaths [(name, value)] [(name, Json.null)] = [name] := by
    simp [changedPaths, allPaths, Dict.keys, hvalue, hnull, hdiffer]
  have hsummary : Nat.repr 1 ++ " configuration value(s) changed" = "1 configuration value(s) changed" := by decide +kernel
  simp [recordConfigChange, hold, hnew, hpaths, change, hvalue, hnull, hsummary]

def clients (token : String) : Json := .arr [.obj [("token", .str token)]]

end Dumb.Diagnostics
