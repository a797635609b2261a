import Tarant.Decimal
import Tarant.Foundation.Scaled

/-!
# What a decimal denotes

The rational number of a decimal, and what `assemble` makes of a sign, a scale and a
list of digits: it takes exactly those with at most 38 digits after the leading zeros
and keeps their number.
-/

namespace Tarant.Decimal

open Foundation

/-! ## What a decimal denotes -/

def magnitude (d : Decimal) : Nat := positional 10 d.digits

def value (d : Decimal) : ℚ := d.mantissa * (10 : ℚ) ^ (-d.scale.val)

theorem mantissa_eq (d : Decimal) :
    d.mantissa = if d.negative then -(d.magnitude : Int) else (d.magnitude : Int) := by
  have hfold (digits : List Nat) (acc : Nat) :
      digits.foldl (fun (acc : Int) (digit : Nat) => acc * 10 + digit) (acc : Int) =
        ((digits.foldl (fun acc digit => acc * 10 + digit) acc : Nat) : Int) := by
    induction digits generalizing acc with
    | nil => rfl
    | cons digit digits ih =>
        rw [List.foldl_cons, List.foldl_cons, ← ih]
        push_cast
        rfl
  have hmagnitude : d.digits.foldl (fun (acc : Int) (digit : Nat) => acc * 10 + digit) 0 =
      (d.magnitude : Int) := hfold d.digits 0
  rw [mantissa, hmagnitude]

theorem value_eq (d : Decimal) :
    d.value = if d.negative then -scaled 10 d.magnitude d.scale
      else scaled 10 d.magnitude d.scale := by
  rw [value, mantissa_eq, scaled]
  split <;> simp

theorem isZero_iff (d : Decimal) : d.isZero = true ↔ d.magnitude = 0 := by
  rw [isZero, beq_iff_eq, magnitude]
  obtain ⟨-, -, h⟩ | ⟨first, rest, hfirst, h⟩ := d.normal
  · simp [h]
  · rw [h]
    refine iff_of_false ?_ (positional_pos (by decide) ⟨first, List.mem_cons_self, hfirst⟩).ne'
    intro heq
    exact hfirst (List.cons.inj heq).1

theorem zero_or_leading (d : Decimal) :
    d = zero ∨ d.isZero = false ∧ ∃ first rest, first ≠ 0 ∧ d.digits = first :: rest := by
  obtain ⟨hneg, hscale, hdigits⟩ | ⟨first, rest, hfirst, hdigits⟩ := d.normal
  · exact .inl (Decimal.ext hneg (Subtype.ext hscale) hdigits)
  · refine .inr ⟨?_, first, rest, hfirst, hdigits⟩
    rw [isZero, hdigits, beq_eq_false_iff_ne]
    exact fun heq => hfirst (List.cons.inj heq).1

theorem magnitude_lt (d : Decimal) : d.magnitude < 10 ^ d.digits.length :=
  positional_lt (by decide) d.digit_lt

theorem magnitude_pos {d : Decimal} (h : d.isZero = false) : 0 < d.magnitude := by
  refine Nat.pos_of_ne_zero fun hzero => ?_
  rw [(isZero_iff d).mpr hzero] at h
  cases h

theorem le_magnitude {d : Decimal} (h : d.isZero = false) :
    0 < d.digits.length ∧ 10 ^ (d.digits.length - 1) ≤ d.magnitude := by
  obtain rfl | ⟨-, first, rest, hfirst, hdigits⟩ := d.zero_or_leading
  · cases h
  · rw [magnitude, hdigits]
    exact ⟨Nat.succ_pos _, le_positional_cons 10 hfirst rest⟩

theorem i64OfLen_length (d : Decimal) : i64OfLen d.digits.length = d.digits.length :=
  if_pos (d.length_le.trans_lt (by decide))

@[simp] theorem value_zero : zero.value = 0 := by
  rw [value_eq]
  simp [zero, magnitude]

theorem value_pos {d : Decimal} (h : d.isZero = false) (hneg : d.negative = false) :
    0 < d.value := by
  rw [value_eq, hneg]
  exact scaled_pos (by decide) (magnitude_pos h) _

theorem value_neg {d : Decimal} (h : d.isZero = false) (hneg : d.negative = true) :
    d.value < 0 := by
  rw [value_eq, hneg]
  exact neg_neg_of_pos (scaled_pos (by decide) (magnitude_pos h) _)

theorem value_of_isZero {d : Decimal} (h : d.isZero = true) : d.value = 0 := by
  rw [value_eq, (isZero_iff d).mp h]
  simp

/-! ## Assembly -/

theorem assemble_of_zeros {negative : Bool} {scale : I32} {digits : List Nat}
    (hdigits : ∀ d ∈ digits, d < 10) (hzeros : digits.dropWhile (· == 0) = []) :
    assemble negative scale digits hdigits = .ok zero := by
  rw [assemble, dif_pos hzeros]

theorem assemble_of_long {negative : Bool} {scale : I32} {digits : List Nat}
    (hdigits : ∀ d ∈ digits, d < 10)
    (hlong : maxDigits < (digits.dropWhile (· == 0)).length) :
    assemble negative scale digits hdigits = .error ⟨"more than 38 significant digits"⟩ := by
  have hne : digits.dropWhile (· == 0) ≠ [] := fun h => by rw [h] at hlong; cases hlong
  rw [assemble, dif_neg hne, dif_pos hlong]

theorem assemble_of_significant (negative : Bool) (scale : I32) {digits : List Nat}
    (hdigits : ∀ d ∈ digits, d < 10) (hne : digits.dropWhile (· == 0) ≠ [])
    (hlength : (digits.dropWhile (· == 0)).length ≤ maxDigits) :
    ∃ d, assemble negative scale digits hdigits = .ok d ∧ d.negative = negative ∧
      d.scale = scale ∧ d.digits = digits.dropWhile (· == 0) := by
  rw [assemble, dif_neg hne, dif_neg (Nat.not_lt.mpr hlength)]
  exact ⟨_, rfl, rfl, rfl, rfl⟩

theorem zeros_append_dropWhile (digits : List Nat) :
    List.replicate (digits.length - (digits.dropWhile (· == 0)).length) 0 ++
      digits.dropWhile (· == 0) = digits := by
  have hsplit := List.takeWhile_append_dropWhile (p := (· == 0)) (l := digits)
  have hlength := congrArg List.length hsplit
  rw [List.length_append] at hlength
  have hzeros : digits.takeWhile (· == 0) =
      List.replicate (digits.length - (digits.dropWhile (· == 0)).length) 0 := by
    refine List.eq_replicate_iff.mpr ⟨by omega, fun x hmem => ?_⟩
    simpa using List.mem_takeWhile_imp hmem
  rw [← hzeros, hsplit]

theorem positional_dropWhile (digits : List Nat) :
    positional 10 (digits.dropWhile (· == 0)) = positional 10 digits := by
  conv_rhs => rw [← zeros_append_dropWhile digits]
  exact (positional_zeros_append 10 _ _).symm

theorem assemble_ok_iff {negative : Bool} {scale : I32} {digits : List Nat}
    (hdigits : ∀ d ∈ digits, d < 10) :
    (∃ d, assemble negative scale digits hdigits = .ok d) ↔
      (digits.dropWhile (· == 0)).length ≤ maxDigits := by
  by_cases hzeros : digits.dropWhile (· == 0) = []
  · rw [hzeros]
    exact iff_of_true ⟨zero, assemble_of_zeros hdigits hzeros⟩ (Nat.zero_le _)
  · by_cases hlength : (digits.dropWhile (· == 0)).length ≤ maxDigits
    · obtain ⟨d, hd, -⟩ := assemble_of_significant negative scale hdigits hzeros hlength
      exact iff_of_true ⟨d, hd⟩ hlength
    · refine iff_of_false ?_ hlength
      rintro ⟨d, hd⟩
      rw [assemble_of_long hdigits (Nat.lt_of_not_le hlength)] at hd
      cases hd

theorem assemble_parts {negative : Bool} {scale : I32} {digits : List Nat}
    {hdigits : ∀ d ∈ digits, d < 10} {d : Decimal}
    (h : assemble negative scale digits hdigits = .ok d) :
    digits.dropWhile (· == 0) = [] ∧ d = zero ∨
      d.negative = negative ∧ d.scale = scale ∧ d.digits = digits.dropWhile (· == 0) := by
  by_cases hzeros : digits.dropWhile (· == 0) = []
  · rw [assemble_of_zeros hdigits hzeros] at h
    exact .inl ⟨hzeros, (Except.ok.inj h).symm⟩
  · obtain ⟨d', hd', hparts⟩ := assemble_of_significant negative scale hdigits hzeros
      ((assemble_ok_iff hdigits).mp ⟨d, h⟩)
    obtain rfl := Except.ok.inj (h.symm.trans hd')
    exact .inr hparts

theorem value_of_assemble {negative : Bool} {scale : I32} {digits : List Nat}
    {hdigits : ∀ d ∈ digits, d < 10} {d : Decimal}
    (h : assemble negative scale digits hdigits = .ok d) :
    d.value = if negative then -scaled 10 (positional 10 digits) scale
      else scaled 10 (positional 10 digits) scale := by
  rw [← positional_dropWhile]
  obtain ⟨hzeros, rfl⟩ | ⟨hneg, hscale, hsignificant⟩ := assemble_parts h
  · simp [hzeros]
  · rw [value_eq, magnitude, hneg, hscale, hsignificant]

theorem mantissa_of_assemble {negative : Bool} {scale : I32} {digits : List Nat}
    {hdigits : ∀ d ∈ digits, d < 10} {d : Decimal}
    (h : assemble negative scale digits hdigits = .ok d) :
    d.mantissa = if negative then -(positional 10 digits : Int) else positional 10 digits := by
  rw [← positional_dropWhile]
  obtain ⟨hzeros, rfl⟩ | ⟨hneg, -, hsignificant⟩ := assemble_parts h
  · simp [hzeros, mantissa, zero]
  · rw [mantissa_eq, magnitude, hneg, hsignificant]

theorem assemble_self (d : Decimal) (count : Nat)
    (hdigits : ∀ x ∈ List.replicate count 0 ++ d.digits, x < 10) :
    assemble d.negative d.scale (List.replicate count 0 ++ d.digits) hdigits = .ok d := by
  have hdrop : (List.replicate count 0 ++ d.digits).dropWhile (· == 0) =
      d.digits.dropWhile (· == 0) :=
    List.dropWhile_append_of_pos fun x hmem => by simp [(List.mem_replicate.mp hmem).2]
  obtain rfl | ⟨-, first, rest, hfirst, heq⟩ := d.zero_or_leading
  · exact assemble_of_zeros hdigits hdrop
  · have hself : d.digits.dropWhile (· == 0) = d.digits := by
      rw [heq, List.dropWhile_cons_of_neg (by simpa using hfirst)]
    rw [hself] at hdrop
    obtain ⟨d', hd', hneg, hscale, hdigits'⟩ := assemble_of_significant d.negative d.scale
      hdigits (by rw [hdrop, heq]; nofun)
      (by rw [hdrop]; exact d.length_le)
    rw [hd', Decimal.ext hneg hscale (hdigits'.trans hdrop)]

end Tarant.Decimal
