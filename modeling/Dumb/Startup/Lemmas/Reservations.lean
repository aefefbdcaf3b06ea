import Dumb.Startup.Lemmas.Claims

/-!
# The reservation pass

One reservation settles its own target and leaves every other target alone. The pass over all of them settles
all, and it ends where every reservation that has to move has room.
-/

namespace Dumb.Startup

open Py

namespace Target

/-- The owner labels under which a reservation of `t` claims ports. -/
def owners (t : Target) : List String :=
  if t.isTraefik then [t.owner, "traefik:dashboard"] else [t.owner]

structure Sound (t : Target) : Prop where
  named : t.owner ≠ ""
  traefik : t.isTraefik = true → t.owner = "traefik:port" ∧ t.field = "port"

structure Separate (t t' : Target) : Prop where
  left : t.owner ∉ t'.owners
  right : t'.owner ∉ t.owners
  places : Json.Apart t.path t'.path ∨ (t.path = t'.path ∧ t.field ≠ t'.field ∧ t.isTraefik = false)

theorem owner_mem (t : Target) : t.owner ∈ t.owners := by
  unfold owners
  split <;> simp

theorem Separate.symm {t t' : Target} (h : Separate t t') : Separate t' t := by
  refine ⟨h.right, h.left, ?_⟩
  rcases h.places with hp | ⟨hp, hf, ht⟩
  · exact .inl hp.symm
  · exact .inr ⟨hp.symm, Ne.symm hf, by simpa [isTraefik, hp] using ht⟩

theorem Separate.leaves {t t' : Target} (h : Separate t t') : Json.Apart t.leaf t'.leaf := by
  rcases h.places with hp | ⟨hp, hf, -⟩
  · exact (hp.append _).symm.append _ |>.symm
  · rw [leaf, leaf, hp]
    exact Json.Apart.last t'.path hf

theorem Separate.disjoint {t t' : Target} {o : String} (hs : t.Sound) (hs' : t'.Sound) (h : t.Separate t')
    (ho : o ∈ t.owners) (ho' : o ∈ t'.owners) : False := by
  have hne : t.isTraefik = false ∨ t'.isTraefik = false := by
    by_contra hc
    simp only [not_or, Bool.not_eq_false] at hc
    exact h.left ((hs.traefik hc.1).1 ▸ (hs'.traefik hc.2).1 ▸ t'.owner_mem)
  rcases hne with ht | ht
  · have heq : o = t.owner := by simpa [owners, ht] using ho
    exact h.left (heq ▸ ho')
  · have heq : o = t'.owner := by simpa [owners, ht] using ho'
    exact h.right (heq ▸ ho)

end Target

/-- The port at `t` is none at all, or it is free and claimed under the label of `t`; with Traefik's web port
goes the one above it. -/
def Held (host : Host) (s : Reservation) (t : Target) : Prop :=
  (∀ n, (Json.getPath t.leaf s.config).asInt = some n → n ≤ 0) ∨
  ∃ p, Json.getPath t.leaf s.config = .int p ∧ host.isPortAvailable (.int p) = true ∧
    Dict.get? p s.used = some t.owner ∧
    (t.isTraefik = true → host.isPortAvailable (.int (p + 1)) = true ∧
      Dict.get? (p + 1) s.used = some "traefik:dashboard")

structure Frame (t : Target) (s s' : Reservation) : Prop where
  used : Keeps t.owners s.used s'.used
  leaf : ∀ t', t.Separate t' → Json.getPath t'.leaf s'.config = Json.getPath t'.leaf s.config
  parent : ∀ t', t.Separate t' → (Json.getPath t'.path s.config).isObj = true →
    (Json.getPath t'.path s'.config).isObj = true

section
variable {host : Host} {fuel : Nat} {s s' : Reservation} {t : Target}

theorem num_of_asInt {j : Json} {n : Int} (h : j.asInt = some n) : j.num = some (n : Rat) := by
  cases j with
  | int m => simpa [Json.asInt, Json.num] using h
  | bool b => cases b <;> simp_all [Json.asInt, Json.num] <;> subst h <;> rfl
  | _ => cases h

variable {used : Used}

theorem frame_of_setPath {v : Json} {changed : Bool} (hk : Keeps t.owners s.used used) :
    Frame t s ⟨Json.setPath v t.leaf s.config, used, changed⟩ := by
  refine ⟨hk, fun t' h => Json.getPath_setPath_apart v h.leaves, fun t' h hobj => ?_⟩
  rcases h.places with hp | ⟨hp, -, -⟩
  · have hpath : Json.Apart t.leaf t'.path := (hp.symm.append _).symm
    exact (Json.getPath_setPath_apart v hpath).symm ▸ hobj
  · rw [← hp] at hobj ⊢
    exact Json.isObj_setPath v t.field t.path hobj

theorem reserveConfigPort_held (hobj : (Json.getPath t.path s.config).isObj = true) (ht : t.isTraefik = false)
    (h : reserveConfigPort host fuel s t = .ok s') : Held host s' t ∧ Frame t s s' ∧
      (∀ p, Json.getPath t.leaf s.config = .int p → host.isPortAvailable (.int p) = true →
        Dict.get? p s.used = some t.owner → Json.getPath t.leaf s'.config = .int p) := by
  have howners : t.owners = [t.owner] := by simp [Target.owners, ht]
  simp only [reserveConfigPort, bind, Except.bind] at h
  split at h
  · cases h
  · rename_i r hr
    have ho := reservePort_outcome hr
    have hkeeps := howners ▸ ho.keeps
    cases ho with
    | skipped hs =>
      cases h
      exact ⟨.inl hs, ⟨hkeeps, fun _ _ => rfl, fun _ _ h => h⟩, fun p hp _ _ => hp⟩
    | @moved n q hn hm hlt hopen =>
      have hne : (Json.getPath t.leaf s.config).num ≠ (Json.int q).num := by
        rw [num_of_asInt hn]
        simp only [Json.num, ne_eq, Option.some.injEq, Rat.intCast_inj]
        omega
      simp only [hne, ne_eq, not_false_eq_true, ↓reduceIte] at h
      cases h
      have hv : Json.getPath t.leaf (Json.setPath (.int q) t.leaf s.config) = .int q :=
        Json.getPath_setPath_self _ _ _ hobj
      refine ⟨.inr ⟨q, hv, hopen.2, Dict.get?_set_self .., by simp [ht]⟩, frame_of_setPath hkeeps, ?_⟩
      intro p hp ha hown
      obtain ⟨m, hm, hpos, hc⟩ := hm
      rw [hp] at hm hc
      cases hm
      simp [claimed, hown, ha] at hc
    | @kept n hn hc ha =>
      simp only [ne_eq, not_true_eq_false, ↓reduceIte] at h
      cases h
      exact ⟨.inr ⟨n, hn, hn ▸ ha, Dict.get?_set_self .., by simp [ht]⟩,
        ⟨hkeeps, fun _ _ => rfl, fun _ _ h => h⟩, fun p hp _ _ => hp⟩

theorem reserveTraefik_held (hobj : (Json.getPath t.path s.config).isObj = true) (hs : t.Sound)
    (ht : t.isTraefik = true) (h : reserveTraefik host s t = .ok s') : Held host s' t ∧ Frame t s s' := by
  obtain ⟨howner, hfield⟩ := hs.traefik ht
  have hpath : t.path = ["traefik"] := by simpa [Target.isTraefik] using ht
  have howners : t.owners = ["traefik:port", "traefik:dashboard"] := by simp [Target.owners, ht, howner]
  simp only [reserveTraefik, bind, Except.bind] at h
  split at h
  · cases h
  · rename_i r hr
    obtain ⟨changed, cfg, used⟩ := r
    cases h
    obtain ⟨-, hkeeps, p, hport, ha, ha', hweb, hdash⟩ := reserveTraefikPorts_pair hobj hr
    have hroot : (Json.getPath [] s.config).isObj = true := by
      rw [hpath] at hobj
      exact Json.isObj_of_field hobj
    have hcfg : Json.getPath t.path (Json.setPath cfg t.path s.config) = cfg := by
      rw [hpath]
      exact Json.getPath_setPath_self cfg "traefik" [] hroot
    have hv : Json.getPath t.leaf (Json.setPath cfg t.path s.config) = .int p := by
      rw [Target.leaf, Json.getPath_append, hcfg, hfield]
      exact hport
    refine ⟨.inr ⟨p, hv, ha, howner ▸ hweb, fun _ => ⟨ha', hdash⟩⟩, howners ▸ hkeeps, fun t' h => ?_, fun t' h hobj' => ?_⟩
    · have hp := h.places.resolve_right fun hsame => by simp [ht] at hsame
      exact Json.getPath_setPath_apart cfg (hp.append _)
    · have hp := h.places.resolve_right fun hsame => by simp [ht] at hsame
      exact (Json.getPath_setPath_apart cfg hp).symm ▸ hobj'

structure Settled (host : Host) (config : Json) (used : Used) (s : Reservation) (t : Target) : Prop where
  held : Held host s t
  kept : t.isTraefik = false → ∀ p, Json.getPath t.leaf config = .int p → host.isPortAvailable (.int p) = true →
    Dict.get? p used = some t.owner → Json.getPath t.leaf s.config = .int p

structure Waiting (config : Json) (used : Used) (s : Reservation) (t : Target) : Prop where
  parent : (Json.getPath t.path s.config).isObj = true
  leaf : Json.getPath t.leaf s.config = Json.getPath t.leaf config
  claims : ∀ p, Dict.get? p used = some t.owner → Dict.get? p s.used = some t.owner

variable {config : Json}

theorem reserve_settles (hs : t.Sound) (hw : Waiting config used s t)
    (h : reserve host fuel s t = .ok s') : Settled host config used s' t ∧ Frame t s s' := by
  unfold reserve at h
  split at h
  · rename_i ht
    obtain ⟨hheld, hframe⟩ := reserveTraefik_held hw.parent hs ht h
    exact ⟨⟨hheld, fun hf => by rw [ht] at hf; cases hf⟩, hframe⟩
  · rename_i ht
    obtain ⟨hheld, hframe, hkept⟩ := reserveConfigPort_held hw.parent (by simpa using ht) h
    exact ⟨⟨hheld, fun _ p hp ha hu => hkept p (hw.leaf.trans hp) ha (hw.claims p hu)⟩, hframe⟩

theorem Frame.settled {t' : Target} (hf : Frame t s s') (hsep : t.Separate t')
    (ht : t.Sound) (hs : t'.Sound) (h : Settled host config used s t') : Settled host config used s' t' := by
  have hleaf := hf.leaf t' hsep
  refine ⟨?_, fun hn p hp ha hu => hleaf.trans (h.kept hn p hp ha hu)⟩
  rcases h.held with hnone | ⟨p, hp, ha, hown, hdash⟩
  · exact .inl (by rw [hleaf]; exact hnone)
  · refine .inr ⟨p, hleaf.trans hp, ha, hf.used p _ hown hsep.right hs.named, fun ht' => ?_⟩
    obtain ⟨ha', hown'⟩ := hdash ht'
    refine ⟨ha', hf.used _ _ hown' ?_ (by simp)⟩
    have hne : t.isTraefik = false := by
      by_contra hc
      rw [Bool.not_eq_false] at hc
      exact hsep.right ((hs.traefik ht').1 ▸ (ht.traefik hc).1 ▸ t.owner_mem)
    have hleft := hsep.left
    simp only [Target.owners, ht', ↓reduceIte, List.mem_cons, List.not_mem_nil, or_false, not_or] at hleft
    simpa [Target.owners, hne] using Ne.symm hleft.2

theorem Frame.waiting {t' : Target} (hf : Frame t s s') (hsep : t.Separate t')
    (hs : t'.Sound) (h : Waiting config used s t') : Waiting config used s' t' :=
  ⟨hf.parent t' hsep h.parent, (hf.leaf t' hsep).trans h.leaf,
    fun p hp => hf.used p _ (h.claims p hp) hsep.right hs.named⟩

/-! ## The whole pass -/

theorem reserves_settle : ∀ {ts : List Target} {s s' : Reservation},
    ts.Pairwise Target.Separate → (∀ t ∈ ts, t.Sound) → (∀ t ∈ ts, Waiting config used s t) →
    ts.foldlM (reserve host fuel) s = .ok s' →
    (∀ t ∈ ts, Settled host config used s' t) ∧ ∀ t' : Target, t'.Sound → (∀ t ∈ ts, t.Separate t') →
      Settled host config used s t' → Settled host config used s' t'
  | [], s, s', _, _, _, h => by
    cases h
    exact ⟨by simp, fun _ _ _ h => h⟩
  | t :: ts, s, s', hp, hs, hw, h => by
    obtain ⟨hsep, hp'⟩ := List.pairwise_cons.1 hp
    rw [List.foldlM_cons] at h
    simp only [bind, Except.bind] at h
    split at h
    · cases h
    · rename_i s₁ h₁
      have hst := hs t List.mem_cons_self
      obtain ⟨hset, hframe⟩ := reserve_settles hst (hw t List.mem_cons_self) h₁
      obtain ⟨hrest, hkeep⟩ := reserves_settle hp' (fun q hq => hs q (List.mem_cons_of_mem _ hq))
        (fun q hq => hframe.waiting (hsep q hq) (hs q (List.mem_cons_of_mem _ hq))
          (hw q (List.mem_cons_of_mem _ hq))) h
      refine ⟨fun q hq => ?_, fun t' hs' hsep' hset' => ?_⟩
      · rcases List.mem_cons.1 hq with rfl | hq
        · exact hkeep q hst (fun r hr => (hsep r hr).symm) hset
        · exact hrest q hq
      · exact hkeep t' hs' (fun r hr => hsep' r (List.mem_cons_of_mem _ hr))
          (hframe.settled (hsep' t List.mem_cons_self) hst hs' hset')

/-! ## When the pass ends -/

/-- In the state `s`, the reservation of `t` need not move or has an open port to move to. -/
def HasRoom (host : Host) (s : Reservation) (t : Target) : Prop :=
  t.isTraefik = false → Room host s.used (Json.getPath t.leaf s.config) t.owner

variable {fuel' : Nat}

theorem reserve_mono (hle : fuel ≤ fuel') (h : reserve host fuel s t = .ok s') :
    reserve host fuel' s t = .ok s' := by
  unfold reserve at h ⊢
  split
  · rename_i ht
    rwa [if_pos ht] at h
  · rename_i ht
    rw [if_neg ht] at h
    simp only [reserveConfigPort, bind, Except.bind] at h ⊢
    split at h
    · cases h
    · rename_i hr
      rw [reservePort_mono hle hr]
      exact h

theorem reserves_mono (hle : fuel ≤ fuel') : ∀ {ts : List Target} {s s' : Reservation},
    ts.foldlM (reserve host fuel) s = .ok s' → ts.foldlM (reserve host fuel') s = .ok s'
  | [], _, _, h => h
  | t :: ts, s, s', h => by
    rw [List.foldlM_cons] at h ⊢
    simp only [bind, Except.bind] at h ⊢
    split at h
    · cases h
    · rename_i h₁
      rw [reserve_mono hle h₁]
      exact reserves_mono hle h

theorem reserve_room (h : reserve host fuel s t ≠ .error .outOfFuel) : HasRoom host s t := by
  intro ht
  cases hr : reservePort host fuel s.used (Json.getPath t.leaf s.config) t.owner with
  | error e =>
    obtain rfl := reservePort_error hr
    exact absurd (by simp [reserve, ht, reserveConfigPort, hr, bind, Except.bind]) h
  | ok r => exact reservePort_room hr

theorem reserve_ends (h : HasRoom host s t) : ∃ fuel, ∀ fuel', fuel ≤ fuel' →
    reserve host fuel' s t ≠ .error .outOfFuel := by
  cases ht : t.isTraefik with
  | true =>
    refine ⟨0, fun fuel' _ => ?_⟩
    simp only [reserve, ht, ↓reduceIte, reserveTraefik, bind, Except.bind]
    split
    · rename_i he
      simpa using reserveTraefikPorts_error he
    · simp [pure, Except.pure]
  | false =>
    obtain ⟨fuel, r, hr⟩ := reservePort_ends (h ht)
    refine ⟨fuel, fun fuel' hle => ?_⟩
    simp only [reserve, ht, Bool.false_eq_true, ↓reduceIte, reserveConfigPort, bind, Except.bind,
      reservePort_mono hle hr]
    split
    · simp [pure, Except.pure]
    · split <;> simp [pure, Except.pure]

def Roomy (host : Host) (ts : List Target) (s : Reservation) : Prop :=
  ∀ before t after fuel s', ts = before ++ t :: after → before.foldlM (reserve host fuel) s = .ok s' →
    HasRoom host s' t

theorem reserves_ends : ∀ {ts : List Target} {s : Reservation}, Roomy host ts s →
    ∃ fuel, ∀ fuel', fuel ≤ fuel' → ts.foldlM (reserve host fuel') s ≠ .error .outOfFuel
  | [], s, _ => ⟨0, fun _ _ h => by cases h⟩
  | t :: ts, s, h => by
    by_cases hok : ∃ fuel s₁, reserve host fuel s t = .ok s₁
    · obtain ⟨fuel, s₁, h₁⟩ := hok
      have hrest : Roomy host ts s₁ := by
        intro before q after fuel₂ s₂ hts hb
        refine h (t :: before) q after (max fuel fuel₂) s₂ (by rw [hts]; rfl) ?_
        rw [List.foldlM_cons, reserve_mono (Nat.le_max_left ..) h₁]
        exact reserves_mono (Nat.le_max_right ..) hb
      obtain ⟨fuel₂, hend₂⟩ := reserves_ends hrest
      refine ⟨max fuel fuel₂, fun fuel' hle => ?_⟩
      rw [List.foldlM_cons, reserve_mono (Nat.le_trans (Nat.le_max_left ..) hle) h₁]
      exact hend₂ fuel' (Nat.le_trans (Nat.le_max_right ..) hle)
    · obtain ⟨fuel, hend⟩ := reserve_ends (h [] t ts 0 s rfl rfl)
      refine ⟨fuel, fun fuel' hle => ?_⟩
      rw [List.foldlM_cons]
      cases h₁ : reserve host fuel' s t with
      | ok s₁ => exact absurd ⟨fuel', s₁, h₁⟩ hok
      | error e =>
        have := hend fuel' hle
        rw [h₁] at this
        simpa [bind, Except.bind] using this

theorem reserve_error {e : Stop} (h : reserve host fuel s t = .ok s')
    (he : reserve host fuel' s t = .error e) : e = .outOfFuel := by
  unfold reserve at h he
  split at h
  · rename_i ht
    rw [if_pos ht, h] at he
    cases he
  · rename_i ht
    rw [if_neg ht] at he
    simp only [reserveConfigPort, bind, Except.bind] at he
    split at he
    · rename_i hr
      cases he
      exact reservePort_error hr
    · split at he
      · cases he
      · split at he <;> cases he

theorem reserves_error {e : Stop} : ∀ {ts : List Target} {s s' : Reservation},
    ts.foldlM (reserve host fuel) s = .ok s' → ts.foldlM (reserve host fuel') s = .error e → e = .outOfFuel
  | [], _, _, _, he => by cases he
  | t :: ts, s, s', h, he => by
    rw [List.foldlM_cons] at h he
    simp only [bind, Except.bind] at h he
    split at h
    · cases h
    · rename_i s₁ h₁
      split at he
      · rename_i h₂
        cases he
        exact reserve_error h₁ h₂
      · rename_i s₂ h₂
        have heq : s₁ = s₂ := by
          have h₁' := reserve_mono (Nat.le_max_left fuel fuel') h₁
          have h₂' := reserve_mono (Nat.le_max_right fuel fuel') h₂
          rw [h₁'] at h₂'
          exact Except.ok.inj h₂'
        exact reserves_error h (heq ▸ he)

theorem reserves_room : ∀ {ts : List Target} {s : Reservation},
    ts.foldlM (reserve host fuel) s ≠ .error .outOfFuel → Roomy host ts s := by
  intro ts s h before t after fuel' s' hts hb
  by_contra hroom
  have hout : reserve host fuel s' t = .error .outOfFuel := by
    by_contra hne
    exact hroom (reserve_room hne)
  cases hbf : before.foldlM (reserve host fuel) s with
  | ok s₁ =>
    have heq : s₁ = s' := by
      have h₁ := reserves_mono (Nat.le_max_left fuel fuel') hbf
      have h₂ := reserves_mono (Nat.le_max_right fuel fuel') hb
      rw [h₁] at h₂
      exact Except.ok.inj h₂
    subst heq
    refine h ?_
    rw [hts, List.foldlM_append, hbf]
    simp [bind, Except.bind, hout]
  | error e =>
    have he : e = .outOfFuel := reserves_error hb hbf
    subst he
    refine h ?_
    rw [hts, List.foldlM_append, hbf]
    rfl

end

end Dumb.Startup
