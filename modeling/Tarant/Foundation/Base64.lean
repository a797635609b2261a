import Mathlib

/-!
# Base64

The standard encoding of RFC 4648, section 4: three bytes make a group of 24 bits, which is
written as four symbols of six bits.  A last group of one or two bytes is filled up with zero
bits, and with padding after its symbols.
-/

namespace Tarant.Foundation.Base64

def symbol (n : Nat) : UInt8 :=
  if n < 26 then UInt8.ofNat (0x41 + n)
  else if n < 52 then UInt8.ofNat (0x61 + (n - 26))
  else if n < 62 then UInt8.ofNat (0x30 + (n - 52))
  else if n = 62 then 0x2b
  else 0x2f

example : (List.range 64).map symbol =
    "ABCDEFGHIJKLMNOPQRSTUVWXYZabcdefghijklmnopqrstuvwxyz0123456789+/".toUTF8.data.toList := by
  decide +kernel

def pad : UInt8 := 0x3d

def IsSymbol (c : UInt8) : Prop := ∃ n < 64, symbol n = c

instance : DecidablePred IsSymbol := fun c => inferInstanceAs (Decidable (∃ n < 64, symbol n = c))

def group (a b c : UInt8) : Nat := a.toNat * 2 ^ 16 + b.toNat * 2 ^ 8 + c.toNat

def digit (group i : Nat) : Nat := group / 64 ^ (3 - i) % 64

def encode : List UInt8 → List UInt8
  | [] => []
  | [a] => [symbol (digit (group a 0 0) 0), symbol (digit (group a 0 0) 1), pad, pad]
  | [a, b] =>
      [symbol (digit (group a b 0) 0), symbol (digit (group a b 0) 1),
        symbol (digit (group a b 0) 2), pad]
  | a :: b :: c :: rest =>
      [symbol (digit (group a b c) 0), symbol (digit (group a b c) 1),
        symbol (digit (group a b c) 2), symbol (digit (group a b c) 3)] ++ encode rest

def unpadded (text : List UInt8) : List UInt8 := text.filter (· ≠ pad)

/-! ## The digits of a group -/

theorem digit_lt (group i : Nat) : digit group i < 64 := Nat.mod_lt _ (by decide)

theorem symbol_ne_pad (n : Nat) : symbol n ≠ pad := by
  unfold symbol pad
  split_ifs with hupper hlower hdigit
  all_goals first | decide | skip
  all_goals
    intro h
    have hnat := congrArg UInt8.toNat h
    simp only [UInt8.toNat_ofNat', UInt8.reduceToNat] at hnat
    omega

theorem digit_zero (a b c : UInt8) : digit (group a b c) 0 = a.toNat / 4 := by
  have ha := a.toNat_lt
  have hb := b.toNat_lt
  have hc := c.toNat_lt
  unfold digit group
  omega

theorem digit_one (a b c : UInt8) :
    digit (group a b c) 1 = a.toNat % 4 * 16 + b.toNat / 16 := by
  have hb := b.toNat_lt
  have hc := c.toNat_lt
  unfold digit group
  omega

theorem digit_two (a b c : UInt8) :
    digit (group a b c) 2 = b.toNat % 16 * 4 + c.toNat / 64 := by
  have hc := c.toNat_lt
  unfold digit group
  omega

theorem digit_three (a b c : UInt8) : digit (group a b c) 3 = c.toNat % 64 := by
  unfold digit group
  omega

/-! ## Bytes from digits -/

theorem shiftLeft_or {x y k : Nat} (hk : k ≤ 8) (hy : y < 2 ^ k) :
    x <<< k % 2 ^ 8 ||| y = x * 2 ^ k % 2 ^ 8 + y := by
  have hsplit : x * 2 ^ k % 2 ^ 8 = (x % 2 ^ (8 - k)) <<< k := by
    rw [Nat.shiftLeft_eq, ← Nat.mul_mod_mul_right, ← Nat.pow_add, Nat.sub_add_cancel hk]
  rw [Nat.shiftLeft_eq, hsplit, Nat.shiftLeft_add_eq_or_of_lt hy]

theorem first_byte (a b c : UInt8) :
    UInt8.ofNat (digit (group a b c) 0) <<< 2 |||
      UInt8.ofNat (digit (group a b c) 1) >>> 4 = a := by
  have ha := a.toNat_lt
  have hb := b.toNat_lt
  apply UInt8.toNat_inj.mp
  rw [digit_zero, digit_one]
  simp only [UInt8.toNat_or, UInt8.toNat_shiftLeft, UInt8.toNat_shiftRight, UInt8.toNat_ofNat',
    UInt8.reduceToNat, Nat.reduceMod, Nat.shiftRight_eq_div_pow]
  rw [shiftLeft_or (by decide) (by omega)]
  omega

theorem second_byte (a b c : UInt8) :
    UInt8.ofNat (digit (group a b c) 1) <<< 4 |||
      UInt8.ofNat (digit (group a b c) 2) >>> 2 = b := by
  have hb := b.toNat_lt
  have hc := c.toNat_lt
  apply UInt8.toNat_inj.mp
  rw [digit_one, digit_two]
  simp only [UInt8.toNat_or, UInt8.toNat_shiftLeft, UInt8.toNat_shiftRight, UInt8.toNat_ofNat',
    UInt8.reduceToNat, Nat.reduceMod, Nat.shiftRight_eq_div_pow]
  rw [shiftLeft_or (by decide) (by omega)]
  omega

theorem third_byte (a b c : UInt8) :
    UInt8.ofNat (digit (group a b c) 2) <<< 6 |||
      UInt8.ofNat (digit (group a b c) 3) = c := by
  have hc := c.toNat_lt
  apply UInt8.toNat_inj.mp
  rw [digit_two, digit_three]
  simp only [UInt8.toNat_or, UInt8.toNat_shiftLeft, UInt8.toNat_ofNat', UInt8.reduceToNat,
    Nat.reduceMod]
  rw [shiftLeft_or (by decide) (by omega)]
  omega

/-! ## Padding -/

theorem encode_length (bytes : List UInt8) : (encode bytes).length = (bytes.length + 2) / 3 * 4 := by
  fun_induction encode bytes with
  | case1 => rfl
  | case2 => simp
  | case3 => simp
  | case4 a b c rest ih =>
      rw [List.length_append, ih]
      simp only [List.length_cons, List.length_nil]
      omega

end Tarant.Foundation.Base64
