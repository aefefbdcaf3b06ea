import Mathlib.Algebra.Order.Ring.Int
import Mathlib.Tactic.Ring

/-!
# Beats

The instants `p + k * n` for all whole numbers `k`.
-/

namespace Beats

variable {p n x y : Int}

def after (p n x : Int) : Int := x + n - (x - p) % n

theorem lt_after (hn : 0 < n) : x < after p n x := by
  have hmod := Int.emod_lt_of_pos (x - p) hn
  rw [after]
  omega

theorem after_le_add (hn : 0 < n) : after p n x ≤ x + n := by
  have hmod := Int.emod_nonneg (x - p) hn.ne'
  rw [after]
  omega

theorem dvd_after (p n x : Int) : n ∣ after p n x - p := by
  have hdiv : after p n x - p = n * ((x - p) / n + 1) := by
    have hsum := Int.mul_ediv_add_emod (x - p) n
    rw [after, mul_add, mul_one]
    omega
  exact ⟨_, hdiv⟩

theorem add_le_of_dvd (hx : n ∣ x - p) (hy : n ∣ y - p) (h : x < y) : x + n ≤ y := by
  have hdvd : n ∣ y - x := by
    have := Int.dvd_sub hy hx
    have hsub : y - p - (x - p) = y - x := by ring
    rwa [hsub] at this
  have := Int.le_of_dvd (by omega) hdvd
  omega

theorem after_eq (hn : 0 < n) (hy : n ∣ y - p) (hlt : x < y) (hle : y ≤ x + n) : after p n x = y := by
  have hafter := dvd_after p n x
  have hx := lt_after (p := p) (x := x) hn
  have hbound := after_le_add (p := p) (x := x) hn
  rcases Int.lt_trichotomy (after p n x) y with h | h | h
  · have := add_le_of_dvd hafter hy h
    omega
  · exact h
  · have := add_le_of_dvd hy hafter h
    omega

theorem add_ceil_eq (p n x : Int) : p + (x - p + n - 1) / n * n = after p n (x - 1) := by
  have hsum := Int.mul_ediv_add_emod (x - p + n - 1) n
  have hmod : (x - p + n - 1) % n = (x - 1 - p) % n := by
    have hshift : x - p + n - 1 = x - 1 - p + n := by ring
    rw [hshift, Int.add_emod_right]
  rw [hmod, mul_comm] at hsum
  rw [after]
  omega

end Beats
