import Mathlib
import Mathlib.Data.List.Basic

/-!
# Numbers in byte strings

What `struct.unpack_from` and slices read from a byte string.
-/

namespace Py

abbrev Octets := List UInt8

inductive ByteOrder where
  | little
  | big

def bigEndian (bytes : Octets) : Nat := bytes.foldl (fun n b => 256 * n + b.toNat) 0

def ByteOrder.unsigned : ByteOrder → Octets → Nat
  | .little, bytes => bigEndian bytes.reverse
  | .big, bytes => bigEndian bytes

def ByteOrder.signed (order : ByteOrder) (bytes : Octets) : Int :=
  if 2 * order.unsigned bytes < 256 ^ bytes.length then order.unsigned bytes
  else (order.unsigned bytes : Int) - 256 ^ bytes.length

def slice (data : Octets) (offset size : Nat) : Octets := (data.drop offset).take size

theorem length_slice (data : Octets) (offset size : Nat) : (slice data offset size).length = min size (data.length - offset) := by
  rw [slice, List.length_take, List.length_drop]

variable {data : Octets}

theorem slice_slice {offset size start n : Nat} (h : start + n ≤ size) :
    slice (slice data offset size) start n = slice data (offset + start) n := by
  rw [slice, slice, slice, List.drop_take, List.take_take, List.drop_drop, Nat.min_eq_left (by omega)]

variable {offset size : Nat}

theorem slice_full (h : offset + size ≤ data.length) :
    (slice data offset size).length = size := by
  rw [length_slice]
  omega

def slice? (data : Octets) (offset size : Nat) : Option Octets :=
  if offset + size ≤ data.length then some (slice data offset size) else none

theorem slice?_eq_some (h : offset + size ≤ data.length) :
    slice? data offset size = some (slice data offset size) := if_pos h

theorem slice?_eq_none (h : data.length < offset + size) : slice? data offset size = none :=
  if_neg (by omega)

/-! ## Integers in decimal

Their characters, and that these say which integer it is.
-/

theorem repr_injective {n m : Nat} (h : (Nat.repr n).toList = (Nat.repr m).toList) : n = m := by
  rw [Nat.toList_repr, Nat.toList_repr] at h
  rw [← Nat.ofDigitChars_ten_toDigits (n := n), h, Nat.ofDigitChars_ten_toDigits]

theorem repr_digits {n : Nat} {c : Char} (h : c ∈ (Nat.repr n).toList) : c.isDigit = true := by
  rw [Nat.toList_repr] at h
  exact Nat.isDigit_of_mem_toDigits (by decide) (by decide) h

theorem toString_negSucc (n : Nat) : (toString (Int.negSucc n)).toList = '-' :: (Nat.repr (n + 1)).toList := by
  rw [show toString (Int.negSucc n) = "-" ++ Nat.repr (n + 1) from rfl, String.toList_append]
  rfl

theorem int_chars (n : Int) : '/' ∉ (toString n).toList ∧ (toString n).toList ≠ [] := by
  have hnat : ∀ n : Nat, '/' ∉ (Nat.repr n).toList := fun n hmem => absurd (repr_digits hmem) (by decide)
  cases n with
  | ofNat n =>
    refine ⟨hnat n, ?_⟩
    rw [show toString (Int.ofNat n) = Nat.repr n from rfl, Nat.toList_repr]
    exact Nat.toDigits_ne_nil
  | negSucc n =>
    rw [toString_negSucc, List.mem_cons, not_or]
    exact ⟨⟨by decide, hnat _⟩, by simp⟩

theorem int_injective {a b : Int} (h : (toString a).toList = (toString b).toList) : a = b := by
  have hsign : ∀ n m : Nat, (Nat.repr n).toList ≠ '-' :: (Nat.repr (m + 1)).toList := fun n m heq =>
    absurd (repr_digits (n := n) (heq ▸ List.mem_cons_self)) (by decide)
  cases a with
  | ofNat n =>
    cases b with
    | ofNat m => rw [repr_injective (n := n) (m := m) h]
    | negSucc m => exact absurd (h.trans (toString_negSucc m)) (hsign n m)
  | negSucc n =>
    cases b with
    | ofNat m => exact absurd (h.symm.trans (toString_negSucc n)) (hsign m n)
    | negSucc m =>
      rw [toString_negSucc, toString_negSucc, List.cons.injEq] at h
      rw [Nat.succ.inj (repr_injective h.2)]

end Py
