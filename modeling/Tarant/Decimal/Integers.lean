import Tarant.Decimal.Text

/-!
# Integers as decimals and back

A decimal is built by `zero` and by `assemble` alone, so it has the digits the type
promises: its mantissa stays within `i128` at every step and gives the decimal back,
and an integer becomes a decimal exactly when it has at most 38 digits.
-/

namespace Tarant.Decimal

open Foundation
open Checked (Fault)

/-! ## The functions -/

def strictMantissa (d : Decimal) : Except Panic Int := do
  let magnitude ← d.digits.foldlM (fun (acc : Int) (digit : Nat) => do
    let shifted ← strictI128 (acc * 10)
    strictI128 (shifted + digit)) 0
  if d.negative then strictI128 (-magnitude) else return magnitude

def fromInteger (value : Int) : Except Panic Decimal :=
  match fromParts value ⟨0, inI32_zero⟩ with
  | .ok d => .ok d
  | .error _ => .error (.expect "at most 20 digits")

def tryFromU128 (value : Nat) : Except Fault (Except DecimalError Decimal) :=
  fromStr (digitsText (decimalDigits value))

/-! ## The digits of a number -/

@[simp] theorem positional_decimalDigits (n : Nat) : positional 10 (decimalDigits n) = n := by
  unfold decimalDigits
  split
  next h => simp [h]
  next => rw [positional_eq_ofDigits, List.reverse_reverse, Nat.ofDigits_digits]

theorem decimalDigits_ne_nil (n : Nat) : decimalDigits n ≠ [] := by
  unfold decimalDigits
  split
  next => nofun
  next h => simpa [Nat.digits_eq_nil_iff_eq_zero] using h

theorem significant_length (n k : Nat) :
    ((decimalDigits n).dropWhile (· == 0)).length ≤ k ↔ n < 10 ^ k := by
  unfold decimalDigits
  split
  next h => simp [h]
  next h =>
      have hne : Nat.digits 10 n ≠ [] := Nat.digits_ne_nil_iff_ne_zero.mpr h
      have hlast := Nat.getLast_digit_ne_zero 10 h
      have hself : (Nat.digits 10 n).reverse.dropWhile (· == 0) = (Nat.digits 10 n).reverse := by
        refine List.dropWhile_eq_self_iff.mpr fun hpos => ?_
        rw [← List.head_eq_getElem (List.reverse_ne_nil_iff.mpr hne), List.head_reverse]
        simpa using hlast
      rw [hself, List.length_reverse, Nat.digits_length_le_iff (by decide)]

theorem error_iff_not_ok {ε α : Type} {result : Except ε α} :
    (∃ error, result = .error error) ↔ ¬ ∃ value, result = .ok value := by
  cases result <;> simp

theorem fromParts_ok_iff (mantissa : Int) (scale : I32) :
    (∃ d, fromParts mantissa scale = .ok d) ↔ mantissa.natAbs < 10 ^ 38 := by
  rw [fromParts, assemble_ok_iff]
  exact significant_length mantissa.natAbs 38

theorem mantissa_of_fromParts {mantissa : Int} {scale : I32} {d : Decimal}
    (h : fromParts mantissa scale = .ok d) : d.mantissa = mantissa := by
  rw [mantissa_of_assemble h, positional_decimalDigits]
  by_cases hneg : mantissa < 0
  · rw [if_pos (decide_eq_true hneg)]
    omega
  · rw [if_neg (by simpa using hneg)]
    omega

/-! ## The mantissa -/

theorem magnitude_lt_bound (d : Decimal) : d.magnitude < 10 ^ 38 :=
  d.magnitude_lt.trans_le (Nat.pow_le_pow_right (by decide) d.length_le)

theorem strict_fold {digits : List Nat} {acc : Nat}
    (hbound : acc * 10 ^ digits.length + positional 10 digits < 10 ^ 38) :
    digits.foldlM (fun (acc : Int) (digit : Nat) => do
      let shifted ← strictI128 (acc * 10)
      strictI128 (shifted + digit)) (acc : Int) =
      .ok ((acc * 10 ^ digits.length + positional 10 digits : Nat) : Int) := by
  induction digits generalizing acc with
  | nil => simp [pure, Except.pure]
  | cons digit digits ih =>
      rw [positional_cons, List.length_cons] at hbound ⊢
      have hregroup : acc * 10 ^ (digits.length + 1) +
          (digit * 10 ^ digits.length + positional 10 digits) =
          (acc * 10 + digit) * 10 ^ digits.length + positional 10 digits := by ring
      rw [hregroup] at hbound ⊢
      have hacc : acc * 10 + digit < 10 ^ 38 := by
        have hpow := Nat.le_mul_of_pos_right (acc * 10 + digit)
          (Nat.pow_pos (n := digits.length) (show 0 < 10 by decide))
        omega
      have hshifted : InI128 ((acc : Int) * 10) := by unfold InI128; omega
      have hsum : InI128 ((acc : Int) * 10 + digit) := by unfold InI128; omega
      rw [List.foldlM_cons, strictI128_ok hshifted, ok_bind, strictI128_ok hsum, ok_bind]
      exact_mod_cast ih hbound

theorem strictMantissa_eq (d : Decimal) : strictMantissa d = .ok d.mantissa := by
  have hmagnitude := magnitude_lt_bound d
  have hfold := @strict_fold d.digits 0 (by rwa [Nat.zero_mul, Nat.zero_add])
  rw [Nat.zero_mul, Nat.zero_add, ← magnitude] at hfold
  rw [strictMantissa, mantissa_eq]
  refine (congrArg (· >>= _) hfold).trans ?_
  rw [ok_bind]
  split
  · exact strictI128_ok (by unfold InI128; omega)
  · rfl

theorem decimalDigits_magnitude (d : Decimal) : decimalDigits d.magnitude = d.digits := by
  obtain rfl | ⟨hzero, first, rest, hfirst, hdigits⟩ := d.zero_or_leading
  · simp [decimalDigits, magnitude, zero]
  · have hpos := (magnitude_pos hzero).ne'
    have hlt := decimalDigits_lt d.magnitude
    have hsame := positional_decimalDigits d.magnitude
    have hsignificant : (decimalDigits d.magnitude).head? ≠ some 0 := by
      rw [decimalDigits, if_neg hpos, List.head?_reverse,
        List.getLast?_eq_some_getLast (Nat.digits_ne_nil_iff_ne_zero.mpr hpos)]
      simpa using Nat.getLast_digit_ne_zero 10 hpos
    cases hcases : decimalDigits d.magnitude with
    | nil => exact absurd hcases (decimalDigits_ne_nil _)
    | cons head tail =>
        rw [hcases] at hlt hsame hsignificant
        have hhead : head ≠ 0 := by simpa using hsignificant
        rw [hdigits]
        rw [magnitude, hdigits] at hsame
        exact positional_inj_of_head (by decide) hhead hfirst hlt (hdigits ▸ d.digit_lt) hsame

theorem fromParts_self (d : Decimal) : fromParts d.mantissa d.scale = .ok d := by
  have habs : d.mantissa.natAbs = d.magnitude := by
    rw [mantissa_eq]
    split <;> omega
  have hdigits : decimalDigits d.mantissa.natAbs = List.replicate 0 0 ++ d.digits := by
    rw [habs, decimalDigits_magnitude]
    rfl
  have hsign : decide (d.mantissa < 0) = d.negative := by
    rw [mantissa_eq]
    obtain rfl | ⟨hzero, -⟩ := d.zero_or_leading
    · rfl
    · have hpos := magnitude_pos hzero
      cases d.negative
      · exact decide_eq_false (by simp)
      · exact decide_eq_true (by simpa using hpos)
  rw [fromParts, hsign, assemble_congr _ (by simpa using d.digit_lt) hdigits]
  exact assemble_self d 0 _

/-! ## The conversions -/

theorem scale_of_fromParts {mantissa : Int} {d : Decimal}
    (h : fromParts mantissa ⟨0, inI32_zero⟩ = .ok d) : d.scale.val = 0 := by
  rw [fromParts] at h
  have hle := (assemble_ok_iff (decimalDigits_lt _)).mp ⟨d, h⟩
  by_cases hzeros : (decimalDigits mantissa.natAbs).dropWhile (· == 0) = []
  · rw [assemble_of_zeros _ hzeros] at h
    obtain rfl := Except.ok.inj h
    rfl
  · obtain ⟨d', hd', -, hscale, -⟩ := assemble_of_significant (mantissa < 0) ⟨0, inI32_zero⟩
      (decimalDigits_lt _) hzeros hle
    obtain rfl := Except.ok.inj (h.symm.trans hd')
    rw [hscale]

theorem fromInteger_of_fromParts {value : Int} {d : Decimal}
    (h : fromParts value ⟨0, inI32_zero⟩ = .ok d) : fromInteger value = .ok d := by
  rw [fromInteger, h]

def numberLiteral (value : Nat) : Literal where
  sign := none
  int := decimalDigits value
  frac := none
  exponent := none
  int_lt := decimalDigits_lt value
  frac_lt := by nofun
  nonempty := .inl (decimalDigits_ne_nil value)

theorem tryFromU128_eq (value : Nat) :
    tryFromU128 value = .ok (assemble false ⟨0, inI32_zero⟩ (decimalDigits value)
      (decimalDigits_lt value)) := by
  have htext : digitsText (decimalDigits value) = (numberLiteral value).text := by
    simp [numberLiteral, Literal.text, Literal.number, Literal.exponentText, signText]
  have hdigits : (numberLiteral value).digits = decimalDigits value := List.append_nil _
  have hlength : (numberLiteral value).fraction.length < 2 ^ 31 := Nat.two_pow_pos 31
  rw [tryFromU128, htext, fromStr_text,
    Literal.outcome_eq (l := numberLiteral value) inI32_zero hlength inI32_zero]
  exact congrArg Except.ok (assemble_congr _ _ hdigits)

structure Representation (d : Decimal) : Prop where
  count : 1 ≤ d.digits.length ∧ d.digits.length ≤ 38
  digit : ∀ digit ∈ d.digits, digit ≤ 9
  leading : d.digits.head? = some 0 → d.digits = [0] ∧ d.negative = false

theorem representation (d : Decimal) : d.Representation := by
  refine ⟨⟨?_, d.length_le⟩, fun digit hmem => Nat.le_of_lt_succ (d.digit_lt digit hmem), ?_⟩
  · obtain ⟨-, -, h⟩ | ⟨first, rest, -, h⟩ := d.normal
    · rw [h]
      decide
    · rw [h]
      exact Nat.succ_pos _
  · intro hzero
    obtain ⟨hneg, -, h⟩ | ⟨first, rest, hfirst, h⟩ := d.normal
    · exact ⟨h, hneg⟩
    · rw [h] at hzero
      exact absurd (Option.some.inj hzero) hfirst

/--
Every decimal has the digits of its representation, its mantissa is computed within
`i128` and with the scale gives the decimal back.  An integer of at most 64 bits is
always a decimal; a mantissa, and an integer of 128 bits, is one exactly below
`10 ^ 38`.
-/
theorem representation_invariant :
    (∀ d : Decimal, d.Representation ∧ strictMantissa d = .ok d.mantissa ∧ InI128 d.mantissa ∧
      fromParts d.mantissa d.scale = .ok d) ∧
    (∀ value : Int, -2 ^ 63 ≤ value → value < 2 ^ 64 →
      ∃ d, fromInteger value = .ok d ∧ d.mantissa = value ∧ d.scale.val = 0) ∧
    (∀ (mantissa : Int) (scale : I32),
      (∃ error, fromParts mantissa scale = .error error) ↔ 10 ^ 38 ≤ |mantissa|) ∧
    ∀ value : Nat, ∃ result, tryFromU128 value = .ok result ∧
      ((∃ error, result = .error error) ↔ 10 ^ 38 ≤ value) ∧
      ∀ d, result = .ok d → d.mantissa = value := by
  refine ⟨fun d => ⟨representation d, strictMantissa_eq d, ?_, fromParts_self d⟩, ?_, ?_, ?_⟩
  · have hmagnitude := magnitude_lt_bound d
    rw [mantissa_eq]
    split <;> unfold InI128 <;> omega
  · intro value hlow hhigh
    obtain ⟨d, hd⟩ := (fromParts_ok_iff value ⟨0, inI32_zero⟩).mpr (by omega)
    exact ⟨d, fromInteger_of_fromParts hd, mantissa_of_fromParts hd, scale_of_fromParts hd⟩
  · intro mantissa scale
    rw [error_iff_not_ok, fromParts_ok_iff, Int.abs_eq_natAbs]
    omega
  · intro value
    refine ⟨_, tryFromU128_eq value, ?_, fun d hd => ?_⟩
    · rw [error_iff_not_ok, assemble_ok_iff]
      exact (not_congr (significant_length value 38)).trans Nat.not_lt
    · rw [mantissa_of_assemble hd, positional_decimalDigits]
      rfl

end Tarant.Decimal
