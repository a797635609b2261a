import Mathlib

/-!
# Little-endian integers

A number in a fixed count of bytes, the least significant first, and a signed one as
its two's complement.  Writing and reading are inverse in both directions.
-/

namespace Tarant.Foundation

def leBytes : Nat → Nat → List UInt8
  | 0, _ => []
  | width + 1, n => UInt8.ofNat (n % 256) :: leBytes width (n / 256)

def fromLeBytes : List UInt8 → Nat
  | [] => 0
  | byte :: rest => byte.toNat + 256 * fromLeBytes rest

def complement (width : Nat) (n : Int) : Nat := (n % (256 ^ width : Nat)).toNat

def signed (width n : Nat) : Int := Int.bmod n (256 ^ width)

@[simp] theorem leBytes_length (width n : Nat) : (leBytes width n).length = width := by
  induction width generalizing n with
  | zero => rfl
  | succ width ih => rw [leBytes, List.length_cons, ih]

theorem fromLeBytes_lt (bytes : List UInt8) : fromLeBytes bytes < 256 ^ bytes.length := by
  induction bytes with
  | nil => exact Nat.one_pos
  | cons byte rest ih =>
      have hbyte := byte.toNat_lt
      rw [fromLeBytes, List.length_cons, Nat.pow_succ]
      omega

theorem fromLeBytes_leBytes {width n : Nat} (h : n < 256 ^ width) :
    fromLeBytes (leBytes width n) = n := by
  induction width generalizing n with
  | zero => simpa [leBytes, fromLeBytes, eq_comm] using h
  | succ width ih =>
      have hbyte : (UInt8.ofNat (n % 256)).toNat = n % 256 :=
        UInt8.toNat_ofNat_of_lt' (Nat.mod_lt n (by decide))
      rw [Nat.pow_succ] at h
      rw [leBytes, fromLeBytes, hbyte, ih (by omega), Nat.mod_add_div]

theorem leBytes_fromLeBytes (bytes : List UInt8) :
    leBytes bytes.length (fromLeBytes bytes) = bytes := by
  induction bytes with
  | nil => rfl
  | cons byte rest ih =>
      have hbyte := byte.toNat_lt
      have hlow : (byte.toNat + 256 * fromLeBytes rest) % 256 = byte.toNat := by omega
      have hhigh : (byte.toNat + 256 * fromLeBytes rest) / 256 = fromLeBytes rest := by omega
      rw [fromLeBytes, List.length_cons, leBytes, hlow, hhigh, ih, UInt8.ofNat_toNat]

theorem complement_lt (width : Nat) (n : Int) : complement width n < 256 ^ width :=
  (Int.toNat_lt_of_ne_zero (NeZero.ne _)).mpr (Int.emod_lt_of_pos n (by positivity))

theorem signed_bounds (width n : Nat) :
    -(256 ^ width / 2 : Nat) ≤ signed width n ∧ signed width n < ((256 ^ width + 1) / 2 : Nat) := by
  have hpos : 0 < 256 ^ width := Nat.pow_pos (by decide)
  exact_mod_cast And.intro (Int.le_bmod hpos) (Int.bmod_lt hpos)

theorem signed_complement {width : Nat} {n : Int}
    (h : -(256 ^ width : Nat) ≤ n * 2 ∧ n * 2 < (256 ^ width : Nat)) :
    signed width (complement width n) = n := by
  have hnonneg := Int.emod_nonneg n (b := (256 ^ width : Nat)) (by positivity)
  rw [signed, complement, Int.toNat_of_nonneg hnonneg, Int.emod_bmod]
  exact Int.bmod_eq_of_le_mul_two h.1 h.2

theorem complement_signed {width n : Nat} (h : n < 256 ^ width) :
    complement width (signed width n) = n := by
  rw [complement, signed, Int.bmod_emod]
  exact_mod_cast Nat.mod_eq_of_lt h

end Tarant.Foundation
