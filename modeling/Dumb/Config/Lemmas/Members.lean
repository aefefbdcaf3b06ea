import Dumb.Config.Loader

/-!
# Merge and prune, key by key
-/

namespace Dumb.Config

open Py Py.Json

/-! ## Templates -/

def flat : Json → Bool
  | .obj members => decide (Dict.keys members).Nodup && members.all fun m => !m.2.isObj
  | _ => false

def shaped : Json → Bool
  | .obj members => decide (Dict.keys members).Nodup && ofMembers members
  | _ => true
where
  ofMembers : List (String × Json) → Bool
    | [] => true
    | (key, j) :: members =>
      (if key = "instances" then ofInstances j else if key = "env" then flat j else shaped j) && ofMembers members
  ofInstances : Json → Bool
    | .obj [(_, template)] => shaped template
    | _ => false

theorem shaped_members {k : String} {j : Json} : ∀ {members : List (String × Json)},
    shaped.ofMembers members = true → (k, j) ∈ members →
      (if k = "instances" then shaped.ofInstances j else if k = "env" then flat j else shaped j) = true
  | m :: members, h, hm => by
    simp only [shaped.ofMembers, Bool.and_eq_true] at h
    rcases List.mem_cons.1 hm with rfl | hm
    · exact h.1
    · exact shaped_members h.2 hm

section
variable {ds : List (String × Json)} {k : String} {dv : Json}

theorem shaped_nodup (h : shaped (.obj ds) = true) : (Dict.keys ds).Nodup := by
  simp only [shaped, Bool.and_eq_true, decide_eq_true_eq] at h
  exact h.1

theorem shaped_value (h : shaped (.obj ds) = true) (hk : Dict.get? k ds = some dv) (hi : k ≠ "instances")
    (he : k ≠ "env") : shaped dv = true := by
  simp only [shaped, Bool.and_eq_true] at h
  simpa [hi, he] using shaped_members h.2 (Dict.mem_of_get? hk)

theorem shaped_env (h : shaped (.obj ds) = true) (hk : Dict.get? "env" ds = some dv) : flat dv = true := by
  simp only [shaped, Bool.and_eq_true] at h
  simpa using shaped_members h.2 (Dict.mem_of_get? hk)

theorem shaped_instances (h : shaped (.obj ds) = true) (hk : Dict.get? "instances" ds = some dv) :
    ∃ name template, dv = .obj [(name, template)] ∧ shaped template = true := by
  simp only [shaped, Bool.and_eq_true] at h
  have hdv := shaped_members h.2 (Dict.mem_of_get? hk)
  simp only [if_true] at hdv
  unfold shaped.ofInstances at hdv
  split at hdv
  · exact ⟨_, _, rfl, hdv⟩
  · cases hdv

end

/-! ## Member by member -/

def mergeMember (key : String) (defaultValue : Json) (existing : List (String × Json)) : Option Json :=
  if key = "instances" ∧ defaultValue.isObj = true then
    mergeInstances defaultValue ((Dict.get? "instances" existing).getD (.obj []))
  else match Dict.get? key existing with
    | some value => mergeConfigs defaultValue value
    | none => some defaultValue

def pruneMember (key : String) (refVal value : Json) : Option Json :=
  if key = "instances" ∧ refVal.isObj = true then pruneInstances refVal value
  else if key = "env" ∧ value.isObj = true then some value
  else pruneExtraneousKeys refVal value

theorem mergeMembers_cons (key : String) (dv : Json) (ds es : List (String × Json)) :
    mergeMembers ((key, dv) :: ds) es =
      (mergeMember key dv es).bind fun value => (mergeMembers ds es).bind fun rest => some ((key, value) :: rest) := by
  rw [mergeMembers, mergeMember]
  split
  · rfl
  · cases Dict.get? key es <;> rfl

theorem mergeMembers_get? {es : List (String × Json)} : ∀ {ds ms : List (String × Json)},
    mergeMembers ds es = some ms → Dict.keys ms = Dict.keys ds ∧
      ∀ k dv, Dict.get? k ds = some dv → ∃ v, mergeMember k dv es = some v ∧ Dict.get? k ms = some v
  | [], ms, h => by
    cases h
    exact ⟨rfl, nofun⟩
  | (key, dv) :: ds, ms, h => by
    rw [mergeMembers_cons] at h
    simp only [Option.bind_eq_some_iff, Option.some.injEq] at h
    obtain ⟨v, hv, rest, hrest, rfl⟩ := h
    obtain ⟨hk, hget⟩ := mergeMembers_get? hrest
    refine ⟨by simpa [Dict.keys] using hk, fun k dv' hd => ?_⟩
    by_cases hkey : key = k
    · simp only [Dict.get?, hkey, if_true, Option.some.injEq] at hd
      subst hd hkey
      exact ⟨v, hv, by simp [Dict.get?]⟩
    · simp only [Dict.get?, hkey, if_false] at hd
      obtain ⟨v', hv', hget'⟩ := hget k dv' hd
      exact ⟨v', hv', by simpa [Dict.get?, hkey] using hget'⟩

theorem mergeMembers_of {es : List (String × Json)} : ∀ {ds ms : List (String × Json)}, (Dict.keys ds).Nodup →
    Dict.keys ms = Dict.keys ds →
    (∀ k dv v, Dict.get? k ds = some dv → Dict.get? k ms = some v → mergeMember k dv es = some v) →
    mergeMembers ds es = some ms
  | [], ms, _, hk, _ => by
    obtain rfl : ms = [] := by simpa [Dict.keys] using hk
    rfl
  | (key, dv) :: ds, [], _, hk, _ => by simp [Dict.keys] at hk
  | (key, dv) :: ds, (q, v) :: ms, hn, hk, h => by
    obtain ⟨hnot, hn'⟩ := List.nodup_cons.1 hn
    simp only [Dict.keys, List.map_cons, List.cons.injEq] at hk
    obtain ⟨rfl, hk⟩ := hk
    have hfirst := h q dv v (by simp [Dict.get?]) (by simp [Dict.get?])
    have hrest := mergeMembers_of hn' hk fun k dv' v' hd hv => by
      have hq : q ≠ k := by
        rintro rfl
        exact hnot (Dict.mem_keys.2 (by rw [hd]; simp))
      exact h k dv' v' (by simpa [Dict.get?, hq] using hd) (by simpa [Dict.get?, hq] using hv)
    rw [mergeMembers_cons, hfirst, hrest]
    rfl

theorem pruneMembers_cons (key : String) (dv : Json) (ds ms : List (String × Json)) :
    pruneMembers ((key, dv) :: ds) ms = (pruneMembers ds ms).bind fun rest =>
      if key = "instances" ∧ dv.isObj = true then
        (pruneInstances dv ((Dict.get? "instances" ms).getD (.obj []))).bind fun v => some ((key, v) :: rest)
      else match Dict.get? key ms with
        | some w => (pruneMember key dv w).bind fun v => some ((key, v) :: rest)
        | none => some rest := by
  rw [pruneMembers]
  congr 1
  funext rest
  split
  · rfl
  · rename_i hi
    cases Dict.get? key ms with
    | none => rfl
    | some w =>
      simp only [pruneMember, hi, if_false]
      split <;> rfl

theorem pruneMembers_cons_some {key : String} {dv w : Json} {ds ms : List (String × Json)}
    (hw : Dict.get? key ms = some w) : pruneMembers ((key, dv) :: ds) ms =
      (pruneMembers ds ms).bind fun rest => (pruneMember key dv w).bind fun v => some ((key, v) :: rest) := by
  rw [pruneMembers_cons]
  congr 1
  funext rest
  split
  · rename_i hi
    rw [← hi.1, hw]
    simp [pruneMember, hi]
  · rw [hw]

theorem pruneMembers_get? {ms : List (String × Json)} : ∀ {ds cs : List (String × Json)},
    (∀ k ∈ Dict.keys ds, Dict.get? k ms ≠ none) → pruneMembers ds ms = some cs →
      Dict.keys cs = Dict.keys ds ∧ ∀ k dv w, Dict.get? k ds = some dv → Dict.get? k ms = some w →
        ∃ v, pruneMember k dv w = some v ∧ Dict.get? k cs = some v
  | [], cs, _, h => by
    cases h
    exact ⟨rfl, nofun⟩
  | (key, dv) :: ds, cs, hall, h => by
    obtain ⟨w, hw⟩ := Option.ne_none_iff_exists'.1 (hall key List.mem_cons_self)
    rw [pruneMembers_cons_some hw] at h
    simp only [Option.bind_eq_some_iff, Option.some.injEq] at h
    obtain ⟨rest, hrest, v, hv, rfl⟩ := h
    obtain ⟨hk, hget⟩ := pruneMembers_get? (fun k hk => hall k (List.mem_cons_of_mem _ hk)) hrest
    refine ⟨by simpa [Dict.keys] using hk, fun k dv' w' hd hw' => ?_⟩
    by_cases hkey : key = k
    · simp only [Dict.get?, hkey, if_true, Option.some.injEq] at hd
      subst hd hkey
      obtain rfl : w = w' := Option.some.inj (hw.symm.trans hw')
      exact ⟨v, hv, by simp [Dict.get?]⟩
    · simp only [Dict.get?, hkey, if_false] at hd
      obtain ⟨v', hv', hget'⟩ := hget k dv' w' hd hw'
      exact ⟨v', hv', by simpa [Dict.get?, hkey] using hget'⟩

theorem pruneMembers_of {ms : List (String × Json)} : ∀ {ds cs : List (String × Json)}, (Dict.keys ds).Nodup →
    Dict.keys cs = Dict.keys ds →
    (∀ k dv v, Dict.get? k ds = some dv → Dict.get? k cs = some v →
      ∃ w, Dict.get? k ms = some w ∧ pruneMember k dv w = some v) →
    pruneMembers ds ms = some cs
  | [], cs, _, hk, _ => by
    obtain rfl : cs = [] := by simpa [Dict.keys] using hk
    rfl
  | (key, dv) :: ds, [], _, hk, _ => by simp [Dict.keys] at hk
  | (key, dv) :: ds, (q, v) :: cs, hn, hk, h => by
    obtain ⟨hnot, hn'⟩ := List.nodup_cons.1 hn
    simp only [Dict.keys, List.map_cons, List.cons.injEq] at hk
    obtain ⟨rfl, hk⟩ := hk
    obtain ⟨w, hw, hfirst⟩ := h q dv v (by simp [Dict.get?]) (by simp [Dict.get?])
    have hrest := pruneMembers_of hn' hk fun k dv' v' hd hv => by
      have hq : q ≠ k := by
        rintro rfl
        exact hnot (Dict.mem_keys.2 (by rw [hd]; simp))
      exact h k dv' v' (by simpa [Dict.get?, hq] using hd) (by simpa [Dict.get?, hq] using hv)
    rw [pruneMembers_cons_some hw, hfirst, hrest]
    rfl

theorem template_ind {motive : Json → Prop} (leaf : ∀ d, d.isObj = false → motive d)
    (node : ∀ ds, (∀ k dv, Dict.get? k ds = some dv → motive dv) →
      (∀ k name t more, Dict.get? k ds = some (.obj ((name, t) :: more)) → motive t) → motive (.obj ds)) (d : Json) :
    motive d := by
  have hboth : motive d ∧ ∀ name t more, d = .obj ((name, t) :: more) → motive t := by
    induction d using Json.ind with
    | obj ds ih =>
      refine ⟨node ds (fun k dv hd => (ih _ (Dict.mem_of_get? hd)).1)
        (fun k name t more hd => (ih _ (Dict.mem_of_get? hd)).2 name t more rfl), ?_⟩
      rintro name t more hd
      cases hd
      exact (ih _ List.mem_cons_self).1
    | arr items => exact ⟨leaf _ rfl, nofun⟩
    | leaf d harr hobj =>
      refine ⟨leaf d ?_, fun _ _ _ hd => absurd hd (hobj _)⟩
      cases d with
      | obj ds => exact absurd rfl (hobj ds)
      | _ => rfl
  exact hboth.1

/-! ## A template over itself -/

variable {d : Json}

theorem merge_leaf (h : d.isObj = false) (e : Json) : mergeConfigs d e = some e := by
  cases d <;> first | rfl | cases h

theorem prune_leaf (h : d.isObj = false) (e : Json) : pruneExtraneousKeys d e = some e := by
  cases d <;> first | rfl | cases h

theorem merge_value (d : Json) {e : Json} (h : e.isObj = false) : mergeConfigs d e = some e := by
  cases d <;> cases e <;> first | rfl | cases h

theorem prune_value (d : Json) {e : Json} (h : e.isObj = false) : pruneExtraneousKeys d e = some e := by
  cases d <;> cases e <;> first | rfl | cases h

theorem filter_keys_nil {β : Type} (ms : Dict String β) :
    (ms.filter fun m => !(Dict.keys ms).contains m.1) = [] := by
  simp only [List.filter_eq_nil_iff, Bool.not_eq_true', Bool.not_eq_false, List.contains_iff_mem]
  exact fun m hm => List.mem_map_of_mem hm

theorem flat_value {members : List (String × Json)} (h : flat (.obj members) = true)
    (hk : Dict.get? k members = some dv) : dv.isObj = false := by
  simp only [flat, Bool.and_eq_true, List.all_eq_true] at h
  simpa using h.2 _ (Dict.mem_of_get? hk)

theorem flat_obj (h : flat d = true) : ∃ members, d = .obj members := by
  cases d <;> first | exact ⟨_, rfl⟩ | cases h

def spread (defaults members : List (String × Json)) : List (String × Json) :=
  let merged := defaults.map fun m => (m.1, (Dict.get? m.1 members).getD m.2)
  merged ++ members.filter fun m => !(Dict.keys defaults).contains m.1

theorem merge_flat (h : flat (.obj ds) = true) (es : List (String × Json)) :
    mergeConfigs (.obj ds) (.obj es) = some (.obj (spread ds es)) := by
  have hget : ∀ k : String, ∀ xs : List (String × Json),
      Dict.get? k (xs.map fun m => (m.1, (Dict.get? m.1 es).getD m.2)) =
        (Dict.get? k xs).map fun dv => (Dict.get? k es).getD dv := by
    intro k xs
    induction xs with
    | nil => rfl
    | cons m xs ih =>
      by_cases hk : m.1 = k
      · simp [Dict.get?, hk]
      · simp [Dict.get?, hk, ih]
  have hkeys : Dict.keys (ds.map fun m => (m.1, (Dict.get? m.1 es).getD m.2)) = Dict.keys ds := by
    simp [Dict.keys]
  have hn : (Dict.keys ds).Nodup := by
    simp only [flat, Bool.and_eq_true, decide_eq_true_eq] at h
    exact h.1
  have hmerge := @mergeMembers_of es _ _ hn hkeys fun k dv v hd hv => by
    rw [hget, hd, Option.map_some, Option.some.injEq] at hv
    have hleaf := flat_value h hd
    subst hv
    cases he : Dict.get? k es with
    | none => simp [mergeMember, hleaf, he]
    | some w => simp [mergeMember, hleaf, he, merge_leaf hleaf]
  rw [mergeConfigs, hmerge]
  simp [spread, hkeys]

theorem merge_flat_again {ds xs ys : List (String × Json)} (h : flat (.obj ds) = true)
    (hk : Dict.keys xs = Dict.keys ds) (hy : ∀ m ∈ ys, m.1 ∉ Dict.keys ds) :
    mergeConfigs (.obj ds) (.obj (xs ++ ys)) = some (.obj (xs ++ ys)) := by
  have hn : (Dict.keys ds).Nodup := by
    simp only [flat, Bool.and_eq_true, decide_eq_true_eq] at h
    exact h.1
  have hmerge := @mergeMembers_of (xs ++ ys) _ _ hn hk fun k dv v hd hv => by
    have hleaf := flat_value h hd
    have hget : Dict.get? k (xs ++ ys) = some v := by simp [Dict.get?_append, hv]
    simp [mergeMember, hleaf, hget, merge_leaf hleaf]
  have hfilter : ((xs ++ ys).filter fun m => !(Dict.keys xs).contains m.1) = ys := by
    rw [List.filter_append, filter_keys_nil, List.nil_append, List.filter_eq_self]
    intro m hm
    simpa [hk] using hy m hm
  rw [mergeConfigs, hmerge]
  simp only [Option.bind_eq_bind, Option.bind_some, hfilter]

theorem merge_spread (h : flat (.obj ds) = true) (es : List (String × Json)) :
    mergeConfigs (.obj ds) (.obj (spread ds es)) = some (.obj (spread ds es)) :=
  merge_flat_again h (by simp [Dict.keys]) (by simp [List.mem_filter])

theorem prune_self : shaped d = true → pruneExtraneousKeys d d = some d := by
  induction d using template_ind with
  | leaf d h => exact fun _ => prune_leaf h d
  | node ds ih ihTemplate =>
    intro hs
    rw [pruneExtraneousKeys]
    split
    · rfl
    rw [pruneMembers_of (shaped_nodup hs) rfl]
    · rfl
    · intro k dv v hd hv
      obtain rfl : dv = v := Option.some.inj (hd.symm.trans hv)
      refine ⟨dv, hd, ?_⟩
      by_cases hi : k = "instances"
      · subst hi
        obtain ⟨name, t, rfl, ht⟩ := shaped_instances hs hd
        simp [pruneMember, isObj, pruneInstances, Dict.mapValues, ihTemplate _ _ _ _ hd ht]
      · by_cases he : k = "env"
        · subst he
          obtain ⟨members, rfl⟩ := flat_obj (shaped_env hs hd)
          simp [pruneMember, isObj]
        · simp [pruneMember, hi, he, ih k dv hd (shaped_value hs hd hi he)]

theorem merge_self : shaped d = true → mergeConfigs d d = some d := by
  induction d using template_ind with
  | leaf d h => exact fun _ => merge_leaf h d
  | node ds ih ihTemplate =>
    intro hs
    have hmerge := @mergeMembers_of ds _ _ (shaped_nodup hs) rfl fun k dv v hd hv => by
      obtain rfl : dv = v := Option.some.inj (hd.symm.trans hv)
      by_cases hi : k = "instances"
      · subst hi
        obtain ⟨name, t, rfl, ht⟩ := shaped_instances hs hd
        simp [mergeMember, isObj, hd, mergeInstances, truthy, Dict.mapValues, ihTemplate _ _ _ _ hd ht]
      · by_cases he : k = "env"
        · subst he
          obtain ⟨members, rfl⟩ := flat_obj (shaped_env hs hd)
          have hagain := @merge_flat_again members members [] (shaped_env hs hd) rfl fun m hm => absurd hm List.not_mem_nil
          simpa [mergeMember, hd] using hagain
        · simp [mergeMember, hi, hd, ih k dv hd (shaped_value hs hd hi he)]
    rw [mergeConfigs, hmerge]
    simp only [Option.bind_eq_bind, Option.bind_some, filter_keys_nil, List.append_nil]

end Dumb.Config
