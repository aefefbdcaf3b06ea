import Dumb.Config.Lemmas.Overlay
import Dumb.Config.Lemmas.Canonical

/-!
# What a result inherits from the defaults and the user

A property of the members of every dict goes over to the result when it holds of the defaults and of the file.
-/

namespace Dumb.Config

open Py Py.Json

variable {text : Text}

theorem isObj_iff {j : Json} : j.isObj = true ↔ ∃ members, j = .obj members := by
  cases j <;> simp [isObj]

theorem Fits.unmerged {d e c : Json} (h : Fits d e c) (hc : c.isObj = false) : c = e := by
  cases h with
  | same _ => rfl
  | node => cases hc

theorem spread_mem {ds ws : List (String × Json)} {m : String × Json} (h : m ∈ spread ds ws) : m ∈ ds ∨ m ∈ ws := by
  rcases List.mem_append.1 h with h | h
  · obtain ⟨x, hx, rfl⟩ := List.mem_map.1 h
    cases hw : Dict.get? x.1 ws with
    | none => exact .inl hx
    | some w => exact .inr (Dict.mem_of_get? hw)
  · exact .inr (List.mem_filter.1 h).1

/-- Properties that go over: `P` of a value under its key, which for a dict says `Q` of its members and `P` of
each; `T` is asked of every default dict. -/
structure Inherits (P : String → Json → Prop) (Q : List (String × Json) → Prop) (T : List (String × Json) → Bool) :
    Prop where
  obj : ∀ k members, P k (.obj members) ↔ Q members ∧ ∀ m ∈ members, P m.1 m.2
  node : ∀ ds es cs, T ds = true → Node Fits ds es cs → Q es → Q cs
  spread : ∀ ds ws, T ds = true → Q ws → Q (spread ds ws)
  rows : ∀ t ws vs, Dict.Rows (Fits t) ws vs → Q ws → Q vs

section
variable {P : String → Json → Prop} {Q : List (String × Json) → Prop} {T : List (String × Json) → Bool}

def Closes (P : String → Json → Prop) (T : List (String × Json) → Bool) (d e c : Json) : Prop :=
  Fits d e c ∧ (shaped d = true → every T d = true → (d.isObj = true → ∀ k, P k d) → ∀ k, P k e → P k c)

variable {ds es cs : List (String × Json)}

theorem Node.closes (hI : Inherits P Q T) (hs : shaped (.obj ds) = true)
    (hT : every T (.obj ds) = true) (h : Node (Closes P T) ds es cs) {k : String} {dv v : Json}
    (hd : Dict.get? k ds = some dv) (hv : Dict.get? k cs = some v) (hPd : P k dv)
    (hPe : ∀ w, Dict.get? k es = some w → P k w) : P k v := by
  have hTd : every T dv = true := (every_obj.1 hT).2 _ (Dict.mem_of_get? hd)
  have hkey : ∀ {j : Json}, P k j → j.isObj = true → ∀ q, P q j := by
    intro j hj hobj q
    obtain ⟨members, rfl⟩ := isObj_iff.1 hobj
    exact (hI.obj q members).2 ((hI.obj k members).1 hj)
  by_cases hi : k = "instances"
  · subst hi
    obtain ⟨name, t, rfl, ht⟩ := shaped_instances hs hd
    cases htrue : ((Dict.get? "instances" es).getD (.obj [])).truthy with
    | false =>
      cases (h.fallback _ hd htrue).symm.trans hv
      exact hPd
    | true =>
      cases he : Dict.get? "instances" es with
      | none => simp [he, truthy] at htrue
      | some j =>
        rw [he] at htrue
        obtain ⟨ws, vs, rfl, hc, hk⟩ := h.instKeys name t [] j hd he htrue
        cases hc.symm.trans hv
        have hrows : Dict.Rows (Closes P T t) ws vs := ⟨hk, h.inst name t [] ws vs hd he htrue hv⟩
        obtain ⟨hQ, hws⟩ := (hI.obj _ _).1 (hPe _ he)
        obtain ⟨-, ht'⟩ := (hI.obj _ _).1 hPd
        have hPt : t.isObj = true → ∀ q, P q t := by
          intro hobj q
          obtain ⟨members, rfl⟩ := isObj_iff.1 hobj
          exact (hI.obj q members).2 ((hI.obj name members).1 (ht' (name, .obj members) List.mem_cons_self))
        refine (hI.obj _ _).2 ⟨hI.rows t ws vs (hrows.mono fun _ _ h => h.1) hQ, fun m hm => ?_⟩
        obtain ⟨w, hw, hclose⟩ := hrows.mem m hm
        exact hclose.2 ht ((every_obj.1 hTd).2 _ List.mem_cons_self) hPt m.1 (hws _ hw)
  · cases he : Dict.get? k es with
    | none =>
      cases (h.absent _ _ hd hi he).symm.trans hv
      exact hPd
    | some w =>
      by_cases henv : k = "env" ∧ w.isObj = true
      · obtain ⟨rfl, hw⟩ := henv
        obtain ⟨ws, rfl⟩ := isObj_iff.1 hw
        obtain ⟨defaults, rfl⟩ := flat_obj (shaped_env hs hd)
        cases (h.env _ _ hd he).symm.trans hv
        obtain ⟨hQ, hws⟩ := (hI.obj _ _).1 (hPe _ he)
        refine (hI.obj _ _).2 ⟨hI.spread _ _ (every_obj.1 hTd).1 hQ, fun m hm => ?_⟩
        rcases spread_mem hm with hm | hm
        · exact ((hI.obj _ _).1 hPd).2 m hm
        · exact hws m hm
      · obtain ⟨hfits, hclose⟩ := h.value _ _ _ _ hd hi henv he hv
        by_cases hk : k = "env"
        · obtain rfl : v = w := hfits.leaf (.inr (.inl (by simpa [hk] using henv)))
          exact hPe _ he
        · exact hclose (shaped_value hs hd hi hk) hTd (hkey hPd) k (hPe _ he)

theorem Fits.closes (hI : Inherits P Q T) {d e c : Json} (h : Fits d e c) : Closes P T d e c := by
  induction h with
  | same h => exact ⟨.same h, fun _ _ _ _ he => he⟩
  | @node ds es cs hne keys absent value env fallback instKeys inst ihValue ihInst =>
    have hnode : Node Fits ds es cs := ⟨keys, absent, value, env, fallback, instKeys, inst⟩
    have hcloses : Node (Closes P T) ds es cs :=
      ⟨keys, absent, ihValue, env, fallback, instKeys, ihInst⟩
    refine ⟨.of_node hne hnode, fun hs hT hPd k hPe => ?_⟩
    obtain ⟨-, hds⟩ := (hI.obj k ds).1 (hPd rfl k)
    obtain ⟨hQ, hes⟩ := (hI.obj k es).1 hPe
    refine (hI.obj k cs).2 ⟨hI.node ds es cs (every_obj.1 hT).1 hnode hQ, fun m hm => ?_⟩
    have hn : (Dict.keys cs).Nodup := keys ▸ shaped_nodup hs
    have hv : Dict.get? m.1 cs = some m.2 := Dict.get?_of_mem hn hm
    obtain ⟨dv, hd⟩ : ∃ dv, Dict.get? m.1 ds = some dv := by
      refine Option.ne_none_iff_exists'.1 (Dict.mem_keys.1 ?_)
      rw [← keys]
      exact List.mem_map_of_mem hm
    exact hcloses.closes hI hs hT hd hv (hds _ (Dict.mem_of_get? hd)) fun w hw => hes _ (Dict.mem_of_get? hw)

theorem Node.closed (hI : Inherits P Q T) (h : Node Fits ds es cs) :
    Node (Closes P T) ds es cs :=
  ⟨h.keys, h.absent, fun k dv w v hd hi hw he hc => (h.value k dv w v hd hi hw he hc).closes hI, h.env, h.fallback,
    h.instKeys, fun name t more ws vs hd he ht hc i w v hw hv =>
      (h.inst name t more ws vs hd he ht hc i w v hw hv).closes hI⟩

end

/-! ## Tokens and release selectors -/

theorem mapped_inherits (T : List (String × Json) → Bool) : Inherits (Mapped text) (fun _ => True) T where
  obj := fun k members => by simp [mapped_obj]
  node := fun _ _ _ _ _ _ => trivial
  spread := fun _ _ _ _ => trivial
  rows := fun _ _ _ _ _ => trivial

def selectorOff (members : List (String × Json)) : Bool :=
  match Dict.get? "release_version_enabled" members with
  | none => true
  | some v => !v.isTrue && (Dict.get? "release_version" members).any fun w => !w.isObj

theorem blankSelector_iff {members : List (String × Json)} : blankSelector text members = false ↔
    ∀ v, Dict.get? "release_version_enabled" members = some v → v.isTrue = true →
      ∃ w, Dict.get? "release_version" members = some w ∧ text.blank w = false := by
  have hnull : text.blank .null = true := by
    simp [Text.blank, Text.orEmpty, truthy, text.strip_plain (show Plain "" by decide)]
  cases hv : Dict.get? "release_version_enabled" members with
  | none => simp [blankSelector, field, hv, Json.isTrue]
  | some v =>
    cases hw : Dict.get? "release_version" members with
    | none => simp [blankSelector, field, hv, hw, hnull]
    | some w => cases ht : v.isTrue <;> simp [blankSelector, field, hv, hw, ht]

theorem normal_of_off {j : Json} (h : every selectorOff j = true) : normal text j = true := by
  refine every_mono (fun members hoff => ?_) h
  rw [Bool.not_eq_true', blankSelector_iff]
  intro v hv ht
  simp [selectorOff, hv, ht] at hoff

theorem isObj_of_isTrue {v : Json} (h : v.isTrue = true) : v.isObj = false := by
  cases v <;> first | rfl | cases h

theorem selectors_inherit :
    Inherits (fun _ j => normal text j = true) (fun members => blankSelector text members = false) selectorOff where
  obj := fun k members => by simp [normal]
  node := by
    intro ds es cs hT h hes
    rw [blankSelector_iff] at hes ⊢
    intro v hv ht
    obtain ⟨dv, hd⟩ : ∃ dv, Dict.get? "release_version_enabled" ds = some dv := by
      refine Option.ne_none_iff_exists'.1 (Dict.mem_keys.1 ?_)
      rw [← h.keys, Dict.mem_keys, hv]
      simp
    simp only [selectorOff, hd, Bool.and_eq_true, Bool.not_eq_true'] at hT
    obtain ⟨hoff, hversion⟩ := hT
    obtain ⟨dw, hdw, hleaf⟩ := (Option.any_eq_true _ _).1 hversion
    rw [Bool.not_eq_true'] at hleaf
    cases he : Dict.get? "release_version_enabled" es with
    | none =>
      cases (h.absent _ _ hd (by decide) he).symm.trans hv
      rw [hoff] at ht
      cases ht
    | some w =>
      obtain rfl : v = w := (h.value _ _ _ _ hd (by decide) (by simp) he hv).unmerged (isObj_of_isTrue ht)
      obtain ⟨u, hu, hblank⟩ := hes v he ht
      obtain ⟨x, hx⟩ := h.get? hdw
      have hxu : x = u := (h.value _ _ _ _ hdw (by decide) (by simp) hu hx).leaf (.inl hleaf)
      exact ⟨x, hx, hxu ▸ hblank⟩
  spread := by
    intro ds ws hT hws
    rw [blankSelector_iff] at hws ⊢
    intro v hv ht
    cases hw : Dict.get? "release_version_enabled" ws with
    | some w =>
      cases (spread_get? hw).symm.trans hv
      obtain ⟨u, hu, hblank⟩ := hws _ hw ht
      exact ⟨u, spread_get? hu, hblank⟩
    | none =>
      rw [spread_view, hw, Option.none_or] at hv
      simp [selectorOff, hv, ht] at hT
  rows := by
    intro t ws vs h hws
    rw [blankSelector_iff] at hws ⊢
    intro v hv ht
    rcases h.get? (k := "release_version_enabled") with ⟨-, hnone⟩ | ⟨w, v', hw, hv', hfits⟩
    · rw [hnone] at hv
      cases hv
    · cases hv'.symm.trans hv
      obtain rfl : v = w := hfits.unmerged (isObj_of_isTrue ht)
      obtain ⟨u, hu, hblank⟩ := hws _ hw ht
      rcases h.get? (k := "release_version") with ⟨hnone, -⟩ | ⟨u', x, hu', hx, hfits'⟩
      · rw [hnone] at hu
        cases hu
      · cases hu'.symm.trans hu
        refine ⟨x, hx, ?_⟩
        cases hfits' with
        | same _ => exact hblank
        | @node ds es cs hne keys =>
          rw [text.blank_obj]
          cases cs with
          | nil => exact absurd (by simpa [Dict.keys] using keys.symm) hne
          | cons m cs => rfl

end Dumb.Config
