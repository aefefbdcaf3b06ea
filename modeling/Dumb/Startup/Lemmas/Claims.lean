import Dumb.Startup.Ports

/-!
# One reservation

What the upward search finds and when it ends, and what one reservation does to the claims: it claims a free
port for its own owner and takes no port away from another one.
-/

namespace Dumb.Startup

open Py

def Open (host : Host) (used : Used) (port : Int) : Prop :=
  Dict.get? port used = none ∧ host.isPortAvailable (.int port) = true

theorem Host.available_iff {host : Host} {port : Int} :
    host.isPortAvailable (.int port) = true ↔ 0 < port ∧ port ≤ 65535 ∧ host.free port = true := by
  simp [Host.isPortAvailable, and_assoc]

theorem Host.available_int {host : Host} {j : Json} {n : Int} (h : host.isPortAvailable j = true)
    (hn : j.asInt = some n) : j = .int n := by
  cases j <;> simp_all [Host.isPortAvailable, Json.asInt]

/-! ## The upward search -/

section
variable {host : Host} {used : Used}

theorem findFreePort_succ (fuel : Nat) (port : Int) : findFreePort host used (fuel + 1) port =
    if (Dict.get? port used).isSome || !host.isPortAvailable (.int port) then
      findFreePort host used fuel (port + 1) else .ok port := rfl

theorem findFreePort_open : ∀ {fuel : Nat} {port q : Int}, findFreePort host used fuel port = .ok q →
    port ≤ q ∧ Open host used q
  | fuel + 1, port, q, h => by
    rw [findFreePort_succ] at h
    split at h
    · obtain ⟨hle, ho⟩ := findFreePort_open h
      exact ⟨by omega, ho⟩
    · rename_i hopen
      cases h
      simp only [Bool.or_eq_true, Bool.not_eq_true', not_or, Option.not_isSome_iff_eq_none, Bool.not_eq_false]
        at hopen
      exact ⟨Int.le_refl _, hopen⟩

theorem findFreePort_mono : ∀ {fuel fuel' : Nat} {port q : Int}, fuel ≤ fuel' →
    findFreePort host used fuel port = .ok q → findFreePort host used fuel' port = .ok q
  | fuel + 1, fuel' + 1, port, q, hle, h => by
    rw [findFreePort_succ] at h ⊢
    split
    · rename_i hc
      rw [if_pos hc] at h
      exact findFreePort_mono (Nat.le_of_succ_le_succ hle) h
    · rename_i hc
      rw [if_neg hc] at h
      exact h

theorem findFreePort_error : ∀ {fuel : Nat} {port : Int} {e : Stop}, findFreePort host used fuel port = .error e →
    e = .outOfFuel
  | 0, _, _, h => by cases h; rfl
  | fuel + 1, port, e, h => by
    rw [findFreePort_succ] at h
    split at h
    · exact findFreePort_error h
    · cases h

theorem findFreePort_ends : ∀ (n : Nat) {port q : Int}, q = port + n → Open host used q →
    ∃ q', findFreePort host used (n + 1) port = .ok q'
  | 0, port, q, hq, ho => by
    have hq' : q = port := by simpa using hq
    subst hq'
    exact ⟨q, by rw [findFreePort_succ]; simp [ho.1, ho.2]⟩
  | n + 1, port, q, hq, ho => by
    rw [findFreePort_succ]
    split
    · exact findFreePort_ends n (by omega) ho
    · exact ⟨port, rfl⟩

end

/-! ## One port -/

section
variable {host : Host} {fuel : Nat} {used used' : Used} {desired : Json} {owner : String}

/-- No claim of an owner other than those in `owners` is lost. -/
def Keeps (owners : List String) (used used' : Used) : Prop :=
  ∀ q o, Dict.get? q used = some o → o ∉ owners → o ≠ "" → Dict.get? q used' = some o

theorem keeps_set {port : Int} {o : String} {owners : List String}
    (h : ∀ o', Dict.get? port used = some o' → o' = "" ∨ o' ∈ owners) : Keeps owners used (Dict.set port o used) := by
  intro q o' hq hne hempty
  have hqp : q ≠ port := by
    rintro rfl
    rcases h o' hq with rfl | hmem
    · exact hempty rfl
    · exact hne hmem
  rwa [Dict.get?_set_ne hqp]

def Moves (host : Host) (used : Used) (desired : Json) (owner : String) : Prop :=
  ∃ n, desired.asInt = some n ∧ 0 < n ∧
    (claimed used n owner = true ∨ host.isPortAvailable desired = false)

inductive PortOutcome (host : Host) (used : Used) (desired : Json) (owner : String) :
    Option Json × Bool × Used → Prop
  | skipped (h : ∀ n, desired.asInt = some n → n ≤ 0) : PortOutcome host used desired owner (none, false, used)
  | moved {n q : Int} (hn : desired.asInt = some n) (hm : Moves host used desired owner) (hlt : n < q)
      (ho : Open host used q) : PortOutcome host used desired owner (some (.int q), true, Dict.set q owner used)
  | kept {n : Int} (hn : desired = .int n) (hc : claimed used n owner = false)
      (ha : host.isPortAvailable desired = true) :
      PortOutcome host used desired owner (some desired, false, Dict.set n owner used)

variable {r : Option Json × Bool × Used}

theorem reservePort_outcome
    (h : reservePort host fuel used desired owner = .ok r) : PortOutcome host used desired owner r := by
  unfold reservePort at h
  cases hn : desired.asInt with
  | none =>
    rw [hn] at h
    cases h
    exact .skipped (by simp [hn])
  | some n =>
    rw [hn] at h
    dsimp only at h
    split at h
    · cases h
      exact .skipped (by simpa [hn] using ‹n ≤ 0›)
    · have hpos : 0 < n := by omega
      split at h
      · rename_i hc
        simp only [bind, Except.bind] at h
        split at h
        · cases h
        · rename_i q hq
          cases h
          obtain ⟨hle, ho⟩ := findFreePort_open hq
          exact .moved hn ⟨n, hn, hpos, by simpa using hc⟩ (by omega) ho
      · rename_i hc
        cases h
        simp only [Bool.or_eq_true, Bool.not_eq_true', not_or, Bool.not_eq_true, Bool.not_eq_false] at hc
        exact .kept (Host.available_int hc.2 hn) hc.1 hc.2

theorem claimed_false {n : Int} (h : claimed used n owner = false) :
    ∀ o, Dict.get? n used = some o → o = "" ∨ o ∈ [owner] := by
  intro o ho
  simp only [claimed, ho, Bool.and_eq_false_iff, decide_eq_false_iff_not, not_not] at h
  simpa using h

theorem PortOutcome.keeps (h : PortOutcome host used desired owner r) :
    Keeps [owner] used r.2.2 := by
  cases h with
  | skipped => exact fun _ _ hq _ _ => hq
  | moved _ _ _ ho => exact keeps_set (by simp [ho.1])
  | kept _ hc _ => exact keeps_set (claimed_false hc)

/-- Where the reservation has to move, there is an open port above the desired one. -/
def Room (host : Host) (used : Used) (desired : Json) (owner : String) : Prop :=
  Moves host used desired owner → ∃ n q, desired.asInt = some n ∧ n < q ∧ Open host used q

theorem reservePort_error {e : Stop} (h : reservePort host fuel used desired owner = .error e) :
    e = .outOfFuel := by
  unfold reservePort at h
  split at h
  · cases h
  · split at h
    · cases h
    · split at h
      · simp only [bind, Except.bind] at h
        split at h
        · rename_i he
          cases h
          exact findFreePort_error he
        · cases h
      · cases h

theorem reservePort_room (h : reservePort host fuel used desired owner = .ok r) :
    Room host used desired owner := by
  rintro ⟨n, hn, hpos, hm⟩
  cases reservePort_outcome h with
  | skipped hs => exact absurd (hs n hn) (by omega)
  | moved hn' _ hlt ho => exact ⟨_, _, hn', hlt, ho⟩
  | kept hk hc ha =>
    rw [hk] at hn
    cases hn
    simp [hc, ha] at hm

theorem reservePort_ends (h : Room host used desired owner) :
    ∃ fuel r, reservePort host fuel used desired owner = .ok r := by
  unfold reservePort
  cases hn : desired.asInt with
  | none => exact ⟨0, _, rfl⟩
  | some n =>
    by_cases hpos : n ≤ 0
    · exact ⟨0, (none, false, used), by simp [hpos]⟩
    · by_cases hc : (claimed used n owner || !host.isPortAvailable desired) = true
      · obtain ⟨n', q, hn', hlt, ho⟩ := h ⟨n, hn, by omega, by simpa using hc⟩
        obtain rfl : n = n' := by simpa [hn] using hn'
        obtain ⟨q', hq'⟩ := @findFreePort_ends host used (q - (n + 1)).toNat (n + 1) q (by omega) ho
        exact ⟨(q - (n + 1)).toNat + 1, _, by simp [hpos, hc, hq', bind, Except.bind]; rfl⟩
      · exact ⟨0, _, by simp [hpos, hc]; rfl⟩

theorem reservePort_mono {fuel' : Nat} (hle : fuel ≤ fuel')
    (h : reservePort host fuel used desired owner = .ok r) :
    reservePort host fuel' used desired owner = .ok r := by
  unfold reservePort at h ⊢
  cases hn : desired.asInt with
  | none => rwa [hn] at h
  | some n =>
    rw [hn] at h
    dsimp only at h ⊢
    split
    · rename_i hpos
      rwa [if_pos hpos] at h
    · rename_i hpos
      rw [if_neg hpos] at h
      split
      · rename_i hc
        rw [if_pos hc] at h
        simp only [bind, Except.bind] at h ⊢
        split at h
        · cases h
        · rename_i hq
          rw [findFreePort_mono hle hq]
          exact h
      · rename_i hc
        rwa [if_neg hc] at h

end

/-! ## Traefik's pair -/

section
variable {host : Host} {used used' : Used}

theorem isObj_setPath_field (v cfg : Json) (k : String) : (Json.setPath v [k] cfg).isObj = cfg.isObj := by
  cases cfg <;> rfl

variable {cfg : Json}

theorem field_setPath_self (v : Json) (k : String) (h : cfg.isObj = true) :
    (Json.setPath v [k] cfg).field k = v := by
  simpa using Json.getPath_setPath_self v k [] (j := cfg) h

theorem synchronize_port (host : Host) (h : cfg.isObj = true) :
    (synchronizeTraefikWebPort host cfg).2.2.isObj = true ∧
      (synchronizeTraefikWebPort host cfg).2.2.field "port" = (synchronizeTraefikWebPort host cfg).1 := by
  simp only [synchronizeTraefikWebPort]
  exact ⟨by simp [isObj_setPath_field, h], field_setPath_self _ _ (by simp [isObj_setPath_field, h])⟩

theorem synchronize_keeps {p : Int} (h : cfg.field "port" = .int p) (hp : 0 < p) :
    (synchronizeTraefikWebPort host cfg).1 = .int p := by
  have hnot : ¬ p ≤ 0 := by omega
  simp [synchronizeTraefikWebPort, h, Json.asInt, hnot]

theorem claimedByOther_false {port : Int} (h : claimedByOther used port owner = false) :
    ∀ o, Dict.get? port used = some o → o = owner := by
  intro o ho
  simpa [claimedByOther, ho] using h

theorem findTraefikPair_found : ∀ {n : Nat} {candidate found : Json},
    findTraefikPair host used n candidate = some found →
    (found = candidate ∨ candidate.asInt.getD 0 < found.asInt.getD 0) ∧
    ∃ p, found = .int p ∧ host.isPortAvailable (.int p) = true ∧ host.isPortAvailable (.int (p + 1)) = true ∧
      claimedByOther used p "traefik:port" = false ∧ claimedByOther used (p + 1) "traefik:dashboard" = false
  | n + 1, candidate, found, h => by
    simp only [findTraefikPair] at h
    split at h
    · obtain ⟨hlt, hp⟩ := findTraefikPair_found h
      refine ⟨.inr ?_, hp⟩
      rcases hlt with rfl | hlt
      · rw [Json.asInt_int, Option.getD_some]
        exact Int.lt_succ _
      · rw [Json.asInt_int, Option.getD_some] at hlt
        exact Int.lt_trans (Int.lt_succ _) hlt
    · rename_i hc
      cases h
      simp only [Bool.or_eq_true, Bool.not_eq_true', not_or, Bool.not_eq_true, Bool.not_eq_false] at hc
      obtain ⟨⟨⟨hw, hd⟩, ha⟩, ha'⟩ := hc
      obtain ⟨p, rfl⟩ : ∃ p, candidate = .int p := by
        cases candidate <;> simp_all [Host.isPortAvailable]
      exact ⟨.inl rfl, p, rfl, ha, ha', hw, hd⟩

theorem reserveTraefikPorts_pair {cfg cfg' : Json} {changed : Bool} (hobj : cfg.isObj = true)
    (h : reserveTraefikPorts host cfg used = .ok (changed, cfg', used')) :
    cfg'.isObj = true ∧ Keeps ["traefik:port", "traefik:dashboard"] used used' ∧
    ∃ p, cfg'.field "port" = .int p ∧ host.isPortAvailable (.int p) = true ∧
      host.isPortAvailable (.int (p + 1)) = true ∧ Dict.get? p used' = some "traefik:port" ∧
      Dict.get? (p + 1) used' = some "traefik:dashboard" := by
  obtain ⟨hobj₁, hport₁⟩ := synchronize_port host hobj
  unfold reserveTraefikPorts at h
  generalize hs : synchronizeTraefikWebPort host cfg = s at h hobj₁ hport₁
  obtain ⟨desired, synced, cfg₁⟩ := s
  dsimp only at h hobj₁ hport₁
  generalize hu : (if Dict.get? (desired.asInt.getD 0) used = some "traefik:port"
    then Dict.erase (desired.asInt.getD 0) used else used) = used₁ at h
  have hkeep₁ : Keeps ["traefik:port", "traefik:dashboard"] used used₁ := by
    intro q o hq hne _
    rw [← hu]
    split
    · rename_i hown
      rw [Dict.get?_erase, if_neg, hq]
      rintro rfl
      simp_all
    · exact hq
  split at h
  · cases h
  · rename_i found hf
    obtain ⟨hstart, p, rfl, ha, ha', hw, hd⟩ := findTraefikPair_found hf
    have hkeep : Keeps ["traefik:port", "traefik:dashboard"] used
        (Dict.set (p + 1) "traefik:dashboard" (Dict.set p "traefik:port" used₁)) := by
      intro q o hq hne hempty
      have h₁ := hkeep₁ q o hq hne hempty
      have hqp : q ≠ p := by
        rintro rfl
        exact hne (by simp [claimedByOther_false hw o h₁])
      have hqp' : q ≠ p + 1 := by
        rintro rfl
        exact hne (by simp [claimedByOther_false hd o h₁])
      rw [Dict.get?_set_ne hqp', Dict.get?_set_ne hqp, h₁]
    have hclaims : Dict.get? p (Dict.set (p + 1) "traefik:dashboard" (Dict.set p "traefik:port" used₁)) =
        some "traefik:port" := by
      rw [Dict.get?_set_ne (by omega), Dict.get?_set_self]
    have hp : (Json.int p).asInt.getD 0 = p := rfl
    rw [hp] at h hstart
    by_cases heq : p = desired.asInt.getD 0
    · rw [if_pos heq] at h
      cases h
      rcases hstart with hstart | hlt
      · exact ⟨hobj₁, hkeep, p, by rw [hport₁, ← hstart], ha, ha', hclaims, Dict.get?_set_self ..⟩
      · exact absurd heq (Int.ne_of_gt hlt)
    · rw [if_neg heq] at h
      cases h
      have hobj₂ : (Json.setPath (.int p) ["port"] cfg₁).isObj = true := by rw [isObj_setPath_field, hobj₁]
      obtain ⟨hobj₃, hport₃⟩ := synchronize_port host hobj₂
      refine ⟨hobj₃, hkeep, p, ?_, ha, ha', hclaims, Dict.get?_set_self ..⟩
      rw [hport₃]
      exact synchronize_keeps (field_setPath_self _ _ hobj₁) (Host.available_iff.1 ha).1

theorem reserveTraefikPorts_error {e : Stop} (h : reserveTraefikPorts host cfg used = .error e) :
    e ≠ .outOfFuel := by
  unfold reserveTraefikPorts at h
  dsimp only at h
  split at h
  · cases h
    simp
  · split at h <;> cases h

end

end Dumb.Startup
