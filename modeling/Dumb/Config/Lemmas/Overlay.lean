import Dumb.Config.Lemmas.Members

/-!
# What merge and prune come to

`Fits default config result` says member by member what the configuration is after it has been laid over the
defaults and cut back to their keys. Doing it again changes nothing.
-/

namespace Dumb.Config

open Py Py.Json

/-! ## The result -/

/-- The members `cs` of a dict of the user with the members `es`, over a default dict that is not empty. -/
structure Node (R : Json → Json → Json → Prop) (ds es cs : List (String × Json)) : Prop where
  keys : Dict.keys cs = Dict.keys ds
  absent : ∀ k dv, Dict.get? k ds = some dv → k ≠ "instances" → Dict.get? k es = none → Dict.get? k cs = some dv
  value : ∀ k dv w v, Dict.get? k ds = some dv → k ≠ "instances" → ¬(k = "env" ∧ w.isObj = true) →
    Dict.get? k es = some w → Dict.get? k cs = some v → R dv w v
  env : ∀ defaults ws, Dict.get? "env" ds = some (.obj defaults) → Dict.get? "env" es = some (.obj ws) →
    Dict.get? "env" cs = some (.obj (spread defaults ws))
  fallback : ∀ dv, Dict.get? "instances" ds = some dv →
    ((Dict.get? "instances" es).getD (.obj [])).truthy = false → Dict.get? "instances" cs = some dv
  instKeys : ∀ name t more j, Dict.get? "instances" ds = some (.obj ((name, t) :: more)) →
    Dict.get? "instances" es = some j → j.truthy = true → ∃ ws vs, j = .obj ws ∧
      Dict.get? "instances" cs = some (.obj vs) ∧ Dict.keys vs = Dict.keys ws
  inst : ∀ name t more ws vs, Dict.get? "instances" ds = some (.obj ((name, t) :: more)) →
    Dict.get? "instances" es = some (.obj ws) → (Json.obj ws).truthy = true →
    Dict.get? "instances" cs = some (.obj vs) →
    ∀ (i : Nat) w v, (Dict.values ws)[i]? = some w → (Dict.values vs)[i]? = some v → R t w v

inductive Fits : Json → Json → Json → Prop
  | same {d e : Json} (h : d.isObj = false ∨ e.isObj = false ∨ d = .obj []) : Fits d e e
  | node {ds es cs : List (String × Json)} (hne : ds ≠ [])
      (keys : Dict.keys cs = Dict.keys ds)
      (absent : ∀ k dv, Dict.get? k ds = some dv → k ≠ "instances" → Dict.get? k es = none →
        Dict.get? k cs = some dv)
      (value : ∀ k dv w v, Dict.get? k ds = some dv → k ≠ "instances" → ¬(k = "env" ∧ w.isObj = true) →
        Dict.get? k es = some w → Dict.get? k cs = some v → Fits dv w v)
      (env : ∀ defaults ws, Dict.get? "env" ds = some (.obj defaults) → Dict.get? "env" es = some (.obj ws) →
        Dict.get? "env" cs = some (.obj (spread defaults ws)))
      (fallback : ∀ dv, Dict.get? "instances" ds = some dv →
        ((Dict.get? "instances" es).getD (.obj [])).truthy = false → Dict.get? "instances" cs = some dv)
      (instKeys : ∀ name t more j, Dict.get? "instances" ds = some (.obj ((name, t) :: more)) →
        Dict.get? "instances" es = some j → j.truthy = true → ∃ ws vs, j = .obj ws ∧
          Dict.get? "instances" cs = some (.obj vs) ∧ Dict.keys vs = Dict.keys ws)
      (inst : ∀ name t more ws vs, Dict.get? "instances" ds = some (.obj ((name, t) :: more)) →
        Dict.get? "instances" es = some (.obj ws) → (Json.obj ws).truthy = true →
        Dict.get? "instances" cs = some (.obj vs) →
        ∀ (i : Nat) w v, (Dict.values ws)[i]? = some w → (Dict.values vs)[i]? = some v → Fits t w v) :
      Fits (.obj ds) (.obj es) (.obj cs)

variable {ds es cs : List (String × Json)}

theorem Fits.of_node (hne : ds ≠ []) (h : Node Fits ds es cs) :
    Fits (.obj ds) (.obj es) (.obj cs) :=
  .node hne h.keys h.absent h.value h.env h.fallback h.instKeys h.inst

theorem Fits.to_node {ds es : List (String × Json)} {c : Json} (hne : ds ≠ []) (h : Fits (.obj ds) (.obj es) c) :
    ∃ cs, c = .obj cs ∧ Node Fits ds es cs := by
  cases h with
  | same h =>
    rcases h with h | h | h
    · cases h
    · cases h
    · cases h
      exact absurd rfl hne
  | node _ keys absent value env fallback instKeys inst =>
    exact ⟨_, rfl, keys, absent, value, env, fallback, instKeys, inst⟩

variable {d e c : Json}

theorem Fits.leaf (h : Fits d e c) (hle : d.isObj = false ∨ e.isObj = false ∨ d = .obj []) :
    c = e := by
  cases h with
  | same _ => rfl
  | node hne =>
    rcases hle with hle | hle | hle
    · cases hle
    · cases hle
    · cases hle
      exact absurd rfl hne

theorem Node.get? {R : Json → Json → Json → Prop} (h : Node R ds es cs) {k : String}
    {dv : Json} (hd : Dict.get? k ds = some dv) : ∃ v, Dict.get? k cs = some v := by
  refine Option.ne_none_iff_exists'.1 (Dict.mem_keys.1 ?_)
  rw [h.keys, Dict.mem_keys, hd]
  simp

theorem merge_empty (e : Json) : mergeConfigs (.obj []) e = some e := by
  cases e with
  | obj es =>
    have hmerge : mergeConfigs (.obj []) (.obj es) =
        some (.obj ([] ++ es.filter fun m => !(Dict.keys ([] : List (String × Json))).contains m.1)) := rfl
    have hfilter : (es.filter fun m => !(Dict.keys ([] : List (String × Json))).contains m.1) = es :=
      List.filter_eq_self.2 fun _ _ => rfl
    rw [hmerge, hfilter]
    rfl
  | _ => rfl

theorem prune_empty (e : Json) : pruneExtraneousKeys (.obj []) e = some e := by
  cases e <;> rfl

theorem node_of_members (hs : shaped (.obj ds) = true)
    (hk : Dict.keys cs = Dict.keys ds)
    (hstep : ∀ k dv, Dict.get? k ds = some dv → ∃ m v, mergeMember k dv es = some m ∧
      pruneMember k dv m = some v ∧ Dict.get? k cs = some v)
    (ih : ∀ k dv, Dict.get? k ds = some dv → ∀ {e c}, shaped dv = true → overlay dv e = some c → Fits dv e c)
    (ihTemplate : ∀ k name t more, Dict.get? k ds = some (.obj ((name, t) :: more)) →
      ∀ {e c}, shaped t = true → overlay t e = some c → Fits t e c) : Node Fits ds es cs where
  keys := hk
  absent := by
    intro k dv hd hi he
    obtain ⟨m, v, hm, hv, hc⟩ := hstep k dv hd
    obtain rfl : dv = m := by simpa [mergeMember, hi, he] using hm
    by_cases henv : k = "env"
    · subst henv
      obtain ⟨members, rfl⟩ := flat_obj (shaped_env hs hd)
      obtain rfl : Json.obj members = v := by simpa [pruneMember, isObj] using hv
      exact hc
    · obtain rfl : dv = v := by simpa [pruneMember, hi, henv, prune_self (shaped_value hs hd hi henv)] using hv
      exact hc
  value := by
    intro k dv w v hd hi hw he hc
    obtain ⟨m, v', hm, hv, hc'⟩ := hstep k dv hd
    obtain rfl : v' = v := Option.some.inj (hc'.symm.trans hc)
    simp only [mergeMember, hi, false_and, if_false, he] at hm
    by_cases henv : k = "env"
    · have hleaf : w.isObj = false := by simpa [henv] using hw
      rw [merge_value dv hleaf] at hm
      cases hm
      simp only [pruneMember, hi, hleaf, false_and, if_false, Bool.false_eq_true, and_false, prune_value dv hleaf,
        Option.some.injEq] at hv
      subst hv
      exact .same (.inr (.inl hleaf))
    · simp only [pruneMember, hi, henv, false_and, if_false] at hv
      exact ih k dv hd (shaped_value hs hd hi henv) (by simp [overlay, hm, hv])
  env := by
    intro defaults ws hd he
    obtain ⟨m, v, hm, hv, hc⟩ := hstep _ _ hd
    simp only [mergeMember, he, merge_flat (shaped_env hs hd), String.reduceEq, false_and, if_false,
      Option.some.injEq] at hm
    subst hm
    simp only [pruneMember, isObj, String.reduceEq, false_and, if_false, true_and, if_true,
      Option.some.injEq] at hv
    subst hv
    exact hc
  fallback := by
    intro dv hd hfalse
    obtain ⟨name, t, rfl, ht⟩ := shaped_instances hs hd
    obtain ⟨m, v, hm, hv, hc⟩ := hstep _ _ hd
    simp only [mergeMember, isObj, mergeInstances, hfalse, true_and, if_true, Bool.false_eq_true, if_false,
      Option.some.injEq] at hm
    subst hm
    simp only [pruneMember, isObj, pruneInstances, true_and, if_true, Dict.mapValues, prune_self ht, Option.map_some,
      Option.some.injEq] at hv
    subst hv
    exact hc
  instKeys := by
    intro name t more j hd he htrue
    obtain ⟨m, v, hm, hv, hc⟩ := hstep _ _ hd
    simp only [mergeMember, isObj, mergeInstances, he, Option.getD_some, htrue, true_and, if_true] at hm
    cases j with
    | obj ws =>
      simp only [Option.map_eq_some_iff] at hm
      obtain ⟨ms, hms, rfl⟩ := hm
      simp only [pruneMember, isObj, pruneInstances, true_and, if_true, Option.map_eq_some_iff] at hv
      obtain ⟨vs, hvs, rfl⟩ := hv
      exact ⟨ws, vs, rfl, hc, (Dict.mapValues_iff.1 hvs).1.trans (Dict.mapValues_iff.1 hms).1⟩
    | _ => cases hm
  inst := by
    intro name t more ws vs hd he htrue hc i w v hw hv
    obtain ⟨name', t', heq, ht⟩ := shaped_instances hs hd
    cases heq
    obtain ⟨m, x, hm, hx, hc'⟩ := hstep _ _ hd
    simp only [mergeMember, isObj, mergeInstances, he, Option.getD_some, htrue, true_and, if_true,
      Option.map_eq_some_iff] at hm
    obtain ⟨ms, hms, rfl⟩ := hm
    simp only [pruneMember, isObj, pruneInstances, true_and, if_true, Option.map_eq_some_iff] at hx
    obtain ⟨vs', hvs, rfl⟩ := hx
    cases hc.symm.trans hc'
    have hmrow := Dict.mapValues_iff.1 hms
    have hvrow := Dict.mapValues_iff.1 hvs
    obtain ⟨u, hu⟩ : ∃ u, (Dict.values ms)[i]? = some u := by
      have hlen : (Dict.values ms).length = (Dict.values ws).length := by
        simpa [Dict.values, Dict.keys] using congrArg List.length hmrow.1
      have hi := (List.getElem?_eq_some_iff.1 hw).1
      exact ⟨_, List.getElem?_eq_getElem (hlen ▸ hi)⟩
    exact ihTemplate _ _ _ _ hd ht (by simp [overlay, hmrow.2 i w u hw hu, hvrow.2 i u v hu hv])

theorem overlay_fits : shaped d = true → overlay d e = some c → Fits d e c := by
  induction d using template_ind generalizing e c with
  | leaf d h =>
    intro _ hc
    simp only [overlay, merge_leaf h, prune_leaf h, Option.bind_eq_bind, Option.bind_some, Option.some.injEq] at hc
    subst hc
    exact .same (.inl h)
  | node ds ih ihTemplate =>
    intro hs hc
    cases he : e.isObj with
    | false =>
      simp only [overlay, merge_value _ he, prune_value _ he, Option.bind_eq_bind, Option.bind_some,
        Option.some.injEq] at hc
      subst hc
      exact .same (.inr (.inl he))
    | true =>
      obtain ⟨es, rfl⟩ : ∃ es, e = .obj es := by cases e <;> first | exact ⟨_, rfl⟩ | cases he
      by_cases hne : ds = []
      · subst hne
        simp only [overlay, merge_empty, prune_empty, Option.bind_eq_bind, Option.bind_some, Option.some.injEq] at hc
        subst hc
        exact .same (.inr (.inr rfl))
      simp only [overlay, mergeConfigs, Option.bind_eq_bind, Option.bind_eq_some_iff, Option.some.injEq] at hc
      obtain ⟨_, ⟨ms, hms, rfl⟩, hc⟩ := hc
      obtain ⟨hmk, hmget⟩ := mergeMembers_get? hms
      generalize (es.filter fun m => !(Dict.keys ms).contains m.1) = xs at hc
      have hempty : ds.isEmpty = false := by simpa using hne
      simp only [pruneExtraneousKeys, hempty, Bool.false_eq_true, if_false, Option.map_eq_some_iff] at hc
      obtain ⟨cs, hcs, rfl⟩ := hc
      have hget : ∀ {k m}, Dict.get? k ms = some m → Dict.get? k (ms ++ xs) = some m := by
        intro k m hm
        simp [Dict.get?_append, hm]
      have hall : ∀ k ∈ Dict.keys ds, Dict.get? k (ms ++ xs) ≠ none := by
        intro k hk
        rw [← hmk] at hk
        obtain ⟨m, hm⟩ := Option.ne_none_iff_exists'.1 (Dict.mem_keys.1 hk)
        simp [hget hm]
      obtain ⟨hck, hcget⟩ := pruneMembers_get? hall hcs
      refine .of_node hne (node_of_members hs hck (fun k dv hd => ?_) ih ihTemplate)
      obtain ⟨m, hm, hmm⟩ := hmget k dv hd
      obtain ⟨v, hv, hvc⟩ := hcget k dv m hd (hget hmm)
      exact ⟨m, v, hm, hv, hvc⟩

/-! ## A second time -/

def Again (d e c : Json) : Prop :=
  Fits d e c ∧ (shaped d = true → mergeConfigs d c = some c ∧ pruneExtraneousKeys d c = some c)

theorem Node.again (hs : shaped (.obj ds) = true) (h : Node Again ds es cs) {k : String}
    {dv v : Json} (hd : Dict.get? k ds = some dv) (hv : Dict.get? k cs = some v) :
    mergeMember k dv cs = some v ∧ pruneMember k dv v = some v := by
  by_cases hi : k = "instances"
  · subst hi
    obtain ⟨name, t, rfl, ht⟩ := shaped_instances hs hd
    cases hf : ((Dict.get? "instances" es).getD (.obj [])).truthy with
    | false =>
      cases (h.fallback _ hd hf).symm.trans hv
      simp [mergeMember, pruneMember, isObj, hv, mergeInstances, pruneInstances, truthy, Dict.mapValues, merge_self ht,
        prune_self ht]
    | true =>
      obtain ⟨j, he⟩ : ∃ j, Dict.get? "instances" es = some j := by
        cases he : Dict.get? "instances" es with
        | none =>
          rw [he] at hf
          cases hf
        | some j => exact ⟨j, rfl⟩
      rw [he] at hf
      obtain ⟨ws, vs, rfl, hc, hk⟩ := h.instKeys name t [] j hd he hf
      cases hc.symm.trans hv
      have hinst := h.inst name t [] ws vs hd he hf hv
      have hlen : (Dict.values ws).length = (Dict.values vs).length := by
        simpa [Dict.values, Dict.keys] using (congrArg List.length hk).symm
      -- each instance stays what it is
      have hrows : ∀ f : Json → Option Json, (∀ w v, Again t w v → f v = some v) →
          Dict.mapValues f vs = some vs := by
        intro f hf
        refine Dict.mapValues_iff.2 ⟨rfl, fun i v v' hv hv' => ?_⟩
        cases hv.symm.trans hv'
        have hi := (List.getElem?_eq_some_iff.1 hv).1
        exact hf _ v (hinst i _ v (List.getElem?_eq_getElem (hlen ▸ hi)) hv)
      have hvs : (Json.obj vs).truthy = true := by
        cases vs with
        | nil =>
          cases ws with
          | nil => cases hf
          | cons w ws => simp [Dict.keys] at hk
        | cons m vs => rfl
      constructor
      · simp only [mergeMember, isObj, hv, Option.getD_some, mergeInstances, hvs, true_and, if_true]
        rw [hrows _ fun w v hw => (hw.2 ht).1]
        rfl
      · simp only [pruneMember, isObj, pruneInstances, true_and, if_true]
        rw [hrows _ fun w v hw => (hw.2 ht).2]
        rfl
  · by_cases henv : k = "env"
    · subst henv
      obtain ⟨defaults, rfl⟩ := flat_obj (shaped_env hs hd)
      have hflat := shaped_env hs hd
      cases he : Dict.get? "env" es with
      | none =>
        cases (h.absent _ _ hd (by decide) he).symm.trans hv
        have hself := @merge_flat_again defaults defaults [] hflat rfl fun m hm => absurd hm List.not_mem_nil
        rw [List.append_nil] at hself
        simp [mergeMember, pruneMember, isObj, hv, hself]
      | some w =>
        cases hw : w.isObj with
        | true =>
          obtain ⟨ws, rfl⟩ : ∃ ws, w = .obj ws := by cases w <;> first | exact ⟨_, rfl⟩ | cases hw
          cases (h.env _ _ hd he).symm.trans hv
          simp [mergeMember, pruneMember, isObj, hv, merge_spread hflat]
        | false =>
          have hleaf := h.value _ _ _ _ hd (by decide) (by simp [hw]) he hv
          obtain rfl : v = w := hleaf.1.leaf (.inr (.inl hw))
          simp [mergeMember, pruneMember, hv, hw, merge_value _ hw, prune_value _ hw]
    · have hdv := shaped_value hs hd hi henv
      cases he : Dict.get? k es with
      | none =>
        cases (h.absent _ _ hd hi he).symm.trans hv
        simp [mergeMember, pruneMember, hi, henv, hv, merge_self hdv, prune_self hdv]
      | some w =>
        obtain ⟨hmerge, hprune⟩ := (h.value _ _ _ _ hd hi (by simp [henv]) he hv).2 hdv
        simp [mergeMember, pruneMember, hi, henv, hv, hmerge, hprune]

theorem Fits.again {d e c : Json} (h : Fits d e c) (hs : shaped d = true) :
    mergeConfigs d c = some c ∧ pruneExtraneousKeys d c = some c := by
  induction h with
  | same h =>
    rcases h with h | h | rfl
    · exact ⟨merge_leaf h _, prune_leaf h _⟩
    · exact ⟨merge_value _ h, prune_value _ h⟩
    · exact ⟨merge_empty _, prune_empty _⟩
  | @node ds es cs hne keys absent value env fallback instKeys inst ihValue ihInst =>
    have hnode : Node Again ds es cs :=
      ⟨keys, absent, fun k dv w v hd hi hw he hc =>
          ⟨value k dv w v hd hi hw he hc, ihValue k dv w v hd hi hw he hc⟩,
        env, fallback, instKeys, fun name t more ws vs hd he ht hc i w v hw hv =>
          ⟨inst name t more ws vs hd he ht hc i w v hw hv, ihInst name t more ws vs hd he ht hc i w v hw hv⟩⟩
    have hmerge := mergeMembers_of (shaped_nodup hs) keys fun k dv v hd hv => (hnode.again hs hd hv).1
    have hprune := @pruneMembers_of cs _ _ (shaped_nodup hs) keys fun k dv v hd hv =>
      ⟨v, hv, (hnode.again hs hd hv).2⟩
    have hempty : ds.isEmpty = false := by simpa using hne
    constructor
    · rw [mergeConfigs, hmerge]
      simp only [Option.bind_eq_bind, Option.bind_some, filter_keys_nil, List.append_nil]
    · simp [pruneExtraneousKeys, hne, hprune]

/-! ## What the user's file keeps -/

def templateAt : List String → Json → Option Json
  | [], d => some d
  | k :: path, .obj ds =>
    match Dict.get? k ds with
    | none => none
    | some dv =>
      if k = "instances" then
        match path, dv with
        | [], _ => some dv
        | _ :: rest, .obj ((_, t) :: _) => templateAt rest t
        | _, _ => none
      else if k = "env" then if path = [] then some dv else some .null
      else templateAt path dv
  | _, _ => none

def Whole (v dv : Json) : Prop := v.isObj = false ∨ dv.isObj = false ∨ dv = .obj []

def NoInstances (path : List String) (v dv : Json) : Prop :=
  path.getLast? = some "instances" ∧ dv.isObj = true ∧ v.truthy = false

theorem spread_view (ds ws : List (String × Json)) (k : String) :
    Dict.get? k (spread ds ws) = (Dict.get? k ws).or (Dict.get? k ds) := by
  have hmap : ∀ xs : List (String × Json), Dict.get? k (xs.map fun m => (m.1, (Dict.get? m.1 ws).getD m.2)) =
      (Dict.get? k xs).map fun dv => (Dict.get? k ws).getD dv := by
    intro xs
    induction xs with
    | nil => rfl
    | cons m xs ih =>
      by_cases hk : m.1 = k
      · simp [Dict.get?, hk]
      · simp [Dict.get?, hk, ih]
  rw [spread, Dict.get?_append, hmap, Dict.get?_filter fun q => !(Dict.keys ds).contains q]
  cases hd : Dict.get? k ds with
  | some dv =>
    have hmem : k ∈ Dict.keys ds := Dict.mem_keys.2 (by simp [hd])
    cases Dict.get? k ws <;> simp [hmem]
  | none =>
    have hnot : k ∉ Dict.keys ds := fun hmem => Dict.mem_keys.1 hmem hd
    cases Dict.get? k ws <;> simp [hnot]

theorem spread_get? {ds ws : List (String × Json)} {k : String} {v : Json} (h : Dict.get? k ws = some v) :
    Dict.get? k (spread ds ws) = some v := by
  rw [spread_view, h]
  rfl

theorem spread_nil (ws : List (String × Json)) : spread [] ws = ws := by
  simp [spread, Dict.keys]

theorem Fits.keeps (h : Fits d e c) (hs : shaped d = true) : ∀ {path : List String} {v dv : Json},
    at? path e = some v → templateAt path d = some dv → Whole v dv → ¬ NoInstances path v dv →
    at? path c = some v := by
  induction h with
  | same _ => exact fun hv _ _ _ => hv
  | @node ds es cs hne keys absent value env fallback instKeys inst ihValue ihInst =>
    intro path v dv hv ht hwhole hno
    have hnode : Node Fits ds es cs := ⟨keys, absent, value, env, fallback, instKeys, inst⟩
    cases path with
    | nil =>
      cases hv
      cases ht
      rcases hwhole with h | h | h
      · cases h
      · cases h
      · cases h
        exact absurd rfl hne
    | cons k path =>
      simp only [at?_cons_obj, Option.bind_eq_some_iff] at hv ⊢
      obtain ⟨w, he, hv⟩ := hv
      simp only [templateAt] at ht
      cases hd : Dict.get? k ds with
      | none => simp [hd] at ht
      | some dk =>
        simp only [hd] at ht
        obtain ⟨x, hx⟩ := hnode.get? hd
        by_cases hi : k = "instances"
        · subst hi
          obtain ⟨name, t, rfl, hst⟩ := shaped_instances hs hd
          simp only [if_true] at ht
          cases path with
          | nil =>
            obtain rfl : w = v := by simpa using hv
            cases ht
            cases htrue : w.truthy with
            | false => exact absurd ⟨rfl, rfl, htrue⟩ hno
            | true =>
              obtain ⟨ws, -, rfl, -⟩ := instKeys name t [] w hd he htrue
              rcases hwhole with h | h | h <;> cases h
          | cons n path =>
            cases w with
            | obj ws =>
              simp only [at?_cons_obj, Option.bind_eq_some_iff] at hv
              obtain ⟨u, hu, hv⟩ := hv
              have htrue : (Json.obj ws).truthy = true := by
                cases ws with
                | nil => cases hu
                | cons m ws => rfl
              obtain ⟨ws', vs, heq, hc, hrows⟩ := instKeys name t [] _ hd he htrue
              cases heq
              have hrow : Dict.Rows (fun u y => ∀ {path : List String} {v dv : Json}, at? path u = some v →
                  templateAt path t = some dv → Whole v dv → ¬ NoInstances path v dv → at? path y = some v) ws vs :=
                ⟨hrows, fun i u y hu hy => ihInst name t [] ws vs hd he htrue hc i u y hu hy hst⟩
              refine ⟨_, hc, ?_⟩
              rcases hrow.get? (k := n) with ⟨hnone, -⟩ | ⟨u', y, hu', hy, hkeep⟩
              · rw [hnone] at hu
                cases hu
              · cases hu.symm.trans hu'
                simp only [at?_cons_obj, hy, Option.bind_some]
                refine hkeep hv ht hwhole fun hlast => hno ⟨?_, hlast.2⟩
                cases path with
                | nil => cases hlast.1
                | cons f path => simpa using hlast.1
            | _ => cases hv
        · simp only [hi, if_false] at ht
          by_cases henv : k = "env"
          · subst henv
            obtain ⟨defaults, rfl⟩ := flat_obj (shaped_env hs hd)
            cases hw : w.isObj with
            | false =>
              have hleaf := (value _ _ _ _ hd hi (by simp [hw]) he hx).leaf (.inr (.inl hw))
              exact ⟨x, hx, by rw [hleaf]; exact hv⟩
            | true =>
              obtain ⟨ws, rfl⟩ : ∃ ws, w = .obj ws := by cases w <;> first | exact ⟨_, rfl⟩ | cases hw
              refine ⟨_, env _ _ hd he, ?_⟩
              cases path with
              | nil =>
                cases hv
                simp only [if_true, Option.some.injEq] at ht
                subst ht
                rcases hwhole with h | h | h
                · cases h
                · cases h
                · cases h
                  simp [spread_nil]
              | cons n path =>
                simp only [at?_cons_obj, Option.bind_eq_some_iff] at hv ⊢
                obtain ⟨u, hu, hv⟩ := hv
                exact ⟨u, spread_get? hu, hv⟩
          · simp only [henv, if_false] at ht
            refine ⟨x, hx, ihValue k dk w x hd hi (by simp [henv]) he hx (shaped_value hs hd hi henv) hv ht hwhole
              fun hlast => hno ⟨?_, hlast.2⟩⟩
            cases path with
            | nil => cases hlast.1
            | cons f path => simpa using hlast.1

end Dumb.Config
