import Tarant.Decimal.Order
import Tarant.Decimal.Payload
import Tarant.Decimal.Text

/-!
# Writing a decimal

`Display` writes a decimal in one of three layouts, without an exponent.  What it
writes is a literal with the decimal's own value, so what becomes of the text is
decided by the parser on that literal.
-/

namespace Tarant.Decimal

open Foundation

/-! ## The function -/

def display (d : Decimal) : Bytes :=
  let sign := if d.negative then [minus] else []
  let scale := d.scale.val.natAbs
  if d.scale.val ≤ 0 then
    sign ++ (d.digits.map digitByte ++ List.replicate scale 0x30)
  else if scale < d.digits.length then
    sign ++ ((d.digits.take (d.digits.length - scale)).map digitByte ++
      point :: (d.digits.drop (d.digits.length - scale)).map digitByte)
  else
    sign ++ ([0x30, point] ++ List.replicate (scale - d.digits.length) 0x30 ++
      d.digits.map digitByte)

def intOf (d : Decimal) : List Nat :=
  if d.scale.val ≤ 0 then d.digits ++ List.replicate d.scale.val.natAbs 0
  else if d.scale.val.natAbs < d.digits.length then
    d.digits.take (d.digits.length - d.scale.val.natAbs)
  else [0]

def fracOf (d : Decimal) : List Nat :=
  if d.scale.val ≤ 0 then []
  else if d.scale.val.natAbs < d.digits.length then
    d.digits.drop (d.digits.length - d.scale.val.natAbs)
  else List.replicate (d.scale.val.natAbs - d.digits.length) 0 ++ d.digits

/-- The three layouts: zeros appended, the point inside the digits, zeros inserted. -/
theorem layouts (d : Decimal) :
    (d.scale.val ≤ 0 ∧ d.intOf = d.digits ++ List.replicate d.scale.val.natAbs 0 ∧ d.fracOf = []) ∨
    (0 < d.scale.val ∧ d.scale.val.natAbs < d.digits.length ∧
      d.intOf = d.digits.take (d.digits.length - d.scale.val.natAbs) ∧
      d.fracOf = d.digits.drop (d.digits.length - d.scale.val.natAbs)) ∨
    (0 < d.scale.val ∧ d.digits.length ≤ d.scale.val.natAbs ∧ d.intOf = [0] ∧
      d.fracOf = List.replicate (d.scale.val.natAbs - d.digits.length) 0 ++ d.digits) := by
  by_cases hscale : d.scale.val ≤ 0
  · exact .inl ⟨hscale, if_pos hscale, if_pos hscale⟩
  · by_cases hlength : d.scale.val.natAbs < d.digits.length
    · exact .inr (.inl ⟨by omega, hlength, (if_neg hscale).trans (if_pos hlength),
        (if_neg hscale).trans (if_pos hlength)⟩)
    · exact .inr (.inr ⟨by omega, by omega, (if_neg hscale).trans (if_neg hlength),
        (if_neg hscale).trans (if_neg hlength)⟩)

theorem digits_ne_nil (d : Decimal) : d.digits ≠ [] := by
  obtain ⟨-, -, h⟩ | ⟨first, rest, -, h⟩ := d.normal <;> rw [h] <;> nofun

theorem intOf_ne_nil (d : Decimal) : d.intOf ≠ [] := by
  obtain ⟨-, hint, -⟩ | ⟨-, hlength, hint, -⟩ | ⟨-, -, hint, -⟩ := d.layouts <;> rw [hint]
  · simp [digits_ne_nil]
  · rw [ne_eq, List.take_eq_nil_iff, not_or]
    exact ⟨by omega, d.digits_ne_nil⟩
  · nofun

theorem digits_lt (d : Decimal) : ∀ x ∈ d.intOf ++ d.fracOf, x < 10 := by
  have hzeros {count : Nat} : ∀ x ∈ List.replicate count 0, x < 10 := fun x hmem => by
    simp [(List.mem_replicate.mp hmem).2]
  obtain ⟨-, hint, hfrac⟩ | ⟨-, -, hint, hfrac⟩ | ⟨-, -, hint, hfrac⟩ := d.layouts <;>
    rw [hint, hfrac]
  · rw [List.append_nil, List.forall_mem_append]
    exact ⟨d.digit_lt, hzeros⟩
  · rw [List.take_append_drop]
    exact d.digit_lt
  · rw [List.forall_mem_append, List.forall_mem_append]
    exact ⟨by simp, hzeros, d.digit_lt⟩

theorem fracOf_length (d : Decimal) : (d.fracOf.length : Int) = max d.scale.val 0 := by
  obtain ⟨_, -, hfrac⟩ | ⟨_, _, -, hfrac⟩ | ⟨_, _, -, hfrac⟩ := d.layouts <;> rw [hfrac]
  · rw [List.length_nil]
    omega
  · rw [List.length_drop]
    omega
  · rw [List.length_append, List.length_replicate]
    omega

def pointOf (d : Decimal) : Option (List Nat) := if d.scale.val ≤ 0 then none else some d.fracOf

theorem getD_pointOf (d : Decimal) : d.pointOf.getD [] = d.fracOf := by
  unfold pointOf fracOf
  by_cases hscale : d.scale.val ≤ 0
  · rw [if_pos hscale, if_pos hscale]
    rfl
  · rw [if_neg hscale]
    rfl

def literal (d : Decimal) : Literal where
  sign := if d.negative then some true else none
  int := d.intOf
  frac := d.pointOf
  exponent := none
  int_lt x hmem := d.digits_lt x (List.mem_append_left _ hmem)
  frac_lt x hmem := d.digits_lt x (List.mem_append_right _ (d.getD_pointOf ▸ hmem))
  nonempty := .inl d.intOf_ne_nil

theorem literal_fraction (d : Decimal) : d.literal.fraction = d.fracOf := d.getD_pointOf

theorem isMinus_literal (d : Decimal) : isMinus d.literal.sign = d.negative := by
  unfold literal
  cases d.negative <;> rfl

theorem digitsText_zeros (count : Nat) :
    digitsText (List.replicate count 0) = List.replicate count 0x30 := List.map_replicate

theorem display_eq (d : Decimal) : display d = d.literal.text := by
  have hsign : (if d.negative then [minus] else []) = signText d.literal.sign := by
    unfold literal
    cases d.negative <;> rfl
  have htext : d.literal.text = signText d.literal.sign ++ (digitsText d.intOf ++
      (d.pointOf.map fun digits => point :: digitsText digits).getD []) := by
    rw [Literal.text, Literal.number]
    exact congrArg _ (List.append_nil _)
  rw [display, hsign, htext, pointOf]
  obtain ⟨hscale, hint, -⟩ | ⟨hscale, hlength, hint, hfrac⟩ | ⟨hscale, hlength, hint, hfrac⟩ :=
    d.layouts
  · rw [if_pos hscale, if_pos hscale, hint, digitsText, List.map_append, ← digitsText_zeros]
    simp [digitsText]
  · rw [if_neg hscale.not_ge, if_neg hscale.not_ge, if_pos hlength, hint, hfrac]
    rfl
  · rw [if_neg hscale.not_ge, if_neg hscale.not_ge, if_neg hlength.not_gt, hint, hfrac,
      Option.map_some, Option.getD_some, digitsText, digitsText, List.map_append,
      ← digitsText_zeros]
    rfl

/-! ## What is written -/

theorem positional_literal (d : Decimal) :
    scaled 10 (positional 10 d.literal.digits) d.fracOf.length = scaled 10 d.magnitude d.scale := by
  have hdigits : d.literal.digits = d.intOf ++ d.fracOf := by
    rw [Literal.digits, literal_fraction]
    rfl
  have hlength := d.fracOf_length
  rw [hdigits]
  obtain ⟨hscale, hint, hfrac⟩ | ⟨hscale, -, hint, hfrac⟩ | ⟨hscale, -, hint, hfrac⟩ := d.layouts
  · rw [max_eq_right hscale] at hlength
    rw [hlength, hint, hfrac, List.append_nil, positional_append_zeros, ← magnitude,
      ← scaled_mul_pow (by decide) d.magnitude d.scale.val.natAbs d.scale]
    congr 1
    omega
  · rw [max_eq_left hscale.le] at hlength
    rw [hlength, hint, hfrac, List.take_append_drop, magnitude]
  · rw [max_eq_left hscale.le] at hlength
    rw [hlength, hint, hfrac, List.singleton_append, positional_cons, Nat.zero_mul, Nat.zero_add,
      positional_zeros_append, magnitude]

theorem value_literal (d : Decimal) : d.literal.value = d.value := by
  have hscaled := d.positional_literal
  have hexponent : d.literal.exponentValue = 0 := rfl
  rw [value_eq, ← hscaled, Literal.value, isMinus_literal, literal_fraction, hexponent, zero_sub,
    scaled]
  cases d.negative <;> simp

structure Literal.PlainForm (l : Literal) : Prop where
  sign : l.sign ≠ some false
  int : l.int ≠ []
  frac : l.frac ≠ some []
  exponent : l.exponent = none

def Literal.NoLeadingZero (l : Literal) : Prop := l.int = [0] ∨ l.int.head? ≠ some 0

theorem literal_plain (d : Decimal) : d.literal.PlainForm where
  sign := by
    unfold literal
    cases d.negative <;> nofun
  int := d.intOf_ne_nil
  frac := by
    intro hfrac
    have hlength := d.fracOf_length
    change d.pointOf = some [] at hfrac
    unfold pointOf at hfrac
    split at hfrac
    · cases hfrac
    · rw [Option.some.inj hfrac, List.length_nil] at hlength
      omega
  exponent := rfl

theorem literal_noLeadingZero (d : Decimal) : d.literal.NoLeadingZero := by
  change d.intOf = [0] ∨ d.intOf.head? ≠ some 0
  obtain rfl | ⟨-, first, rest, hfirst, hdigits⟩ := d.zero_or_leading
  · exact .inl rfl
  · obtain ⟨-, hint, -⟩ | ⟨-, hlength, hint, -⟩ | ⟨-, -, hint, -⟩ := d.layouts
    · rw [hint, hdigits]
      exact .inr fun hhead => hfirst (Option.some.inj hhead)
    · obtain ⟨count, hcount⟩ := Nat.exists_eq_succ_of_ne_zero
        (show d.digits.length - d.scale.val.natAbs ≠ 0 by omega)
      rw [hint, hcount, hdigits]
      exact .inr fun hhead => hfirst (Option.some.inj hhead)
    · exact .inl hint

theorem negative_iff (d : Decimal) : d.negative = true ↔ d.value < 0 := by
  obtain rfl | ⟨hzero, -⟩ := d.zero_or_leading
  · rw [value_zero]
    exact iff_of_false (by decide) (lt_irrefl _)
  · cases hneg : d.negative with
    | true => exact iff_of_true rfl (value_neg hzero hneg)
    | false => exact iff_of_false nofun (value_pos hzero hneg).not_gt

/--
What is written has the form `-?D+(.D+)?` with as many digits after the point as the
scale says, no superfluous zero in front, a minus exactly for negative numbers, and
the value of the decimal.
-/
theorem display_exact (d : Decimal) :
    ∃ l : Literal, display d = l.text ∧ l.PlainForm ∧ l.NoLeadingZero ∧
      (l.fraction.length : Int) = max d.scale.val 0 ∧
      (l.sign = some true ↔ d.negative = true) ∧ (d.negative = true ↔ d.value < 0) ∧
      l.value = d.mantissa * (10 : ℚ) ^ (-d.scale.val) := by
  refine ⟨d.literal, d.display_eq, d.literal_plain, d.literal_noLeadingZero, ?_, ?_,
    d.negative_iff, d.value_literal⟩
  · rw [literal_fraction, fracOf_length]
  · unfold literal
    cases d.negative <;> simp

/-! ## Reading it back -/

theorem dropWhile_zeros {first : Nat} (count : Nat) (rest : List Nat) (hfirst : first ≠ 0) :
    (List.replicate count 0 ++ first :: rest).dropWhile (· == 0) = first :: rest := by
  rw [List.dropWhile_append_of_pos fun x hmem => by simp [(List.mem_replicate.mp hmem).2],
    List.dropWhile_cons_of_neg (by simpa using hfirst)]

theorem literal_digits (d : Decimal) : d.literal.digits = d.intOf ++ d.fracOf := by
  rw [Literal.digits, literal_fraction]
  rfl

theorem literal_significant (d : Decimal) :
    (d.literal.digits.dropWhile (· == 0)).length ≤ maxDigits ↔
      d.digits.length + (-d.scale.val).toNat ≤ maxDigits := by
  obtain rfl | ⟨-, first, rest, hfirst, hdigits⟩ := d.zero_or_leading
  · exact iff_of_true (by decide) (by decide)
  · have hlength := d.length_le
    rw [literal_digits]
    obtain ⟨hscale, hint, hfrac⟩ | ⟨hscale, -, hint, hfrac⟩ | ⟨hscale, -, hint, hfrac⟩ := d.layouts
    · have hdrop := dropWhile_zeros 0 (rest ++ List.replicate d.scale.val.natAbs 0) hfirst
      rw [List.replicate_zero, List.nil_append, ← List.cons_append, ← hdigits] at hdrop
      rw [hint, hfrac, List.append_nil, hdrop, List.length_append, List.length_replicate]
      omega
    · have hdrop := dropWhile_zeros 0 rest hfirst
      rw [List.replicate_zero, List.nil_append, ← hdigits] at hdrop
      rw [hint, hfrac, List.take_append_drop, hdrop]
      omega
    · have hdrop := dropWhile_zeros (d.scale.val.natAbs - d.digits.length + 1) rest hfirst
      rw [List.replicate_succ, ← hdigits] at hdrop
      rw [hint, hfrac, List.singleton_append, ← List.cons_append, hdrop]
      omega

theorem reparses_iff (d : Decimal) :
    (∃ again, fromStr (display d) = .ok (.ok again)) ↔
      d.digits.length + (-d.scale.val).toNat ≤ maxDigits := by
  have hscale := d.scale.property
  have hlength := d.fracOf_length
  have hexponent : d.literal.exponentValue = 0 := rfl
  have hparse (again : Decimal) :
      fromStr (display d) = .ok (.ok again) ↔ d.literal.outcome = .ok again := by
    rw [display_eq, fromStr_text, Except.ok.injEq]
  unfold InI32 at hscale
  simp only [hparse]
  rw [Literal.outcome_ok_iff, Literal.Fits, literal_significant, hexponent, literal_fraction]
  unfold InI32
  constructor
  · exact fun h => h.1.2.2
  · exact fun h => ⟨⟨by omega, by omega, h⟩, by omega⟩

/--
The text of a decimal is read back as an equal decimal exactly when it has at most 38
digits together with the zeros that stand for a negative scale.
-/
theorem text_round_trip_iff (d : Decimal) :
    (∃ again, fromStr (display d) = .ok (.ok again) ∧ eq again d = true) ↔
      d.digits.length + (-d.scale.val).toNat ≤ maxDigits := by
  rw [← reparses_iff]
  constructor
  · rintro ⟨again, h, -⟩
    exact ⟨again, h⟩
  · rintro ⟨again, h⟩
    refine ⟨again, h, (eq_iff again d).mpr ?_⟩
    rw [display_eq, fromStr_text] at h
    rw [Literal.value_of_outcome (Except.ok.inj h), value_literal]

/-- `1 × 10^38` is a decimal of one digit, and its text is refused. -/
theorem large_power_is_refused :
    ∃ d, fromParts 1 ⟨-38, by decide⟩ = .ok d ∧
      ¬ ∃ again, fromStr (display d) = .ok (.ok again) ∧ eq again d = true := by
  have hdigits : decimalDigits 1 = [1] := by simp [decimalDigits]
  have hdrop : (decimalDigits 1).dropWhile (· == 0) = [1] := by
    rw [hdigits]
    rfl
  obtain ⟨d, hd, -, hscale, hkept⟩ := assemble_of_significant false ⟨-38, by decide⟩
    (decimalDigits_lt 1) (by rw [hdrop]; simp) (by rw [hdrop]; decide)
  refine ⟨d, hd, ?_⟩
  rintro ⟨again, h, -⟩
  have hfits := (reparses_iff d).mp ⟨again, h⟩
  rw [hkept, hdrop, hscale] at hfits
  exact absurd hfits (by decide)

/-! ## The scale that is kept -/

/-- The literal is read with the scale it shows, and written as it was. -/
def KeepsText (l : Literal) : Prop :=
  ∃ d, fromStr l.text = .ok (.ok d) ∧ d.scale.val = l.fraction.length ∧ display d = l.text

theorem Literal.PlainForm.outcome {l : Literal} (h : l.PlainForm)
    (hlength : l.fraction.length < 2 ^ 31) :
    ∃ scale : I32, scale.val = l.fraction.length ∧
      l.outcome = assemble (isMinus l.sign) scale l.digits l.digits_lt := by
  have hexponent : l.exponentValue = 0 := by
    rw [Literal.exponentValue, h.exponent]
    rfl
  have hzero : InI32 l.exponentValue := by
    rw [hexponent]
    decide
  have hscale : InI32 (l.fraction.length - l.exponentValue) := by
    rw [hexponent]
    unfold InI32
    omega
  exact ⟨⟨_, hscale⟩, (congrArg _ hexponent).trans (Int.sub_zero _),
    Literal.outcome_eq hzero hlength hscale⟩

theorem dropWhile_ne_nil {digits : List Nat} (h : ∃ x ∈ digits, x ≠ 0) :
    digits.dropWhile (· == 0) ≠ [] := by
  intro hnil
  obtain ⟨x, hmem, hne⟩ := h
  exact hne (by simpa using List.dropWhile_eq_nil_iff.mp hnil x hmem)

theorem parts_of_significant {l : Literal} {d : Decimal} (hlead : l.NoLeadingZero)
    (hint : l.int ≠ []) (hdigits : d.digits = l.digits.dropWhile (· == 0))
    (hscale : d.scale.val = l.fraction.length) (hnonzero : ∃ x ∈ l.digits, x ≠ 0) :
    d.intOf = l.int ∧ d.fracOf = l.fraction := by
  have hlength : d.fracOf.length = l.fraction.length := by
    have := d.fracOf_length
    omega
  suffices hall : d.intOf ++ d.fracOf = l.digits from List.append_inj' hall hlength
  have htotal : l.digits.length = l.int.length + l.fraction.length := List.length_append
  have hpos := List.length_pos_of_ne_nil hint
  obtain hzero | hhead := hlead
  · have hl : l.digits = 0 :: l.fraction := by
      rw [Literal.digits, hzero]
      rfl
    rw [hl, List.dropWhile_cons_of_pos (by rfl)] at hdigits
    have hle : d.digits.length ≤ l.fraction.length :=
      hdigits ▸ (List.dropWhile_suffix _).length_le
    obtain ⟨hnonpos, -, -⟩ | ⟨_, hlt, -, -⟩ | ⟨_, -, hintOf, hfracOf⟩ := d.layouts
    · have hnil : l.fraction = [] := List.eq_nil_of_length_eq_zero (by omega)
      simp [hl, hnil] at hnonzero
    · omega
    · have hcount : d.scale.val.natAbs - d.digits.length =
          l.fraction.length - (l.fraction.dropWhile (· == 0)).length := by
        rw [← hdigits]
        omega
      rw [hintOf, hfracOf, hl, hcount, hdigits, zeros_append_dropWhile]
      rfl
  · have hself : l.digits.dropWhile (· == 0) = l.digits := by
      obtain ⟨first, rest, hcons⟩ := List.exists_cons_of_ne_nil hint
      rw [hcons] at hhead
      rw [Literal.digits, hcons, List.cons_append, List.dropWhile_cons_of_neg]
      simpa using hhead
    rw [hself] at hdigits
    obtain ⟨_, hintOf, hfracOf⟩ | ⟨_, -, hintOf, hfracOf⟩ | ⟨_, _, -, -⟩ := d.layouts
    · have hscale0 : d.scale.val.natAbs = 0 := by omega
      rw [hintOf, hfracOf, hscale0, hdigits]
      simp
    · rw [hintOf, hfracOf, List.take_append_drop, hdigits]
    · rw [hdigits] at *
      omega

theorem text_of_parts {l : Literal} {d : Decimal} (hform : l.PlainForm)
    (hneg : d.negative = isMinus l.sign) (hint : d.intOf = l.int) (hfrac : d.fracOf = l.fraction)
    (hscale : d.scale.val = l.fraction.length) : display d = l.text := by
  have hsign : d.literal.sign = l.sign := by
    have hplus := hform.sign
    change (if d.negative then some true else none) = l.sign
    rw [hneg]
    match hl : l.sign with
    | none => rfl
    | some true => rfl
    | some false => exact absurd hl hplus
  have hpoint : d.pointOf = l.frac := by
    unfold pointOf
    cases hl : l.frac with
    | none =>
        rw [Literal.fraction, hl] at hscale
        exact if_pos hscale.le
    | some digits =>
        have hne : digits ≠ [] := fun hnil => hform.frac (hnil ▸ hl)
        have hpos := List.length_pos_of_ne_nil hne
        rw [Literal.fraction, hl, Option.getD_some] at hscale hfrac
        rw [if_neg (by omega), hfrac]
  rw [display_eq, Literal.text, Literal.text, hsign, Literal.number, Literal.number,
    Literal.exponentText, Literal.exponentText, hform.exponent]
  change signText l.sign ++ (digitsText d.intOf ++
    (d.pointOf.map fun digits => point :: digitsText digits).getD [] ++ []) = _
  rw [hint, hpoint]
  rfl

theorem keepsText_iff {l : Literal} (hform : l.PlainForm) (hlead : l.NoLeadingZero)
    (hdigits : (l.digits.dropWhile (· == 0)).length ≤ maxDigits)
    (hneg : isMinus l.sign = true → ∃ x ∈ l.digits, x ≠ 0) :
    KeepsText l ↔
      l.fraction.length < 2 ^ 31 ∧ (l.fraction = [] ∨ ∃ x ∈ l.digits, x ≠ 0) := by
  have hparse (d : Decimal) : fromStr l.text = .ok (.ok d) ↔ l.outcome = .ok d := by
    rw [fromStr_text, Except.ok.injEq]
  have hzeros (hall : ¬ ∃ x ∈ l.digits, x ≠ 0) : l.digits.dropWhile (· == 0) = [] :=
    List.dropWhile_eq_nil_iff.mpr fun x hmem => by simpa using fun hne => hall ⟨x, hmem, hne⟩
  constructor
  · rintro ⟨d, hd, hscale, -⟩
    have hlength := (l.outcome_ok_iff.mp ⟨d, (hparse d).mp hd⟩).2
    refine ⟨hlength, Classical.or_iff_not_imp_right.mpr fun hall => ?_⟩
    obtain ⟨scale, -, houtcome⟩ := hform.outcome hlength
    rw [hparse, houtcome, assemble_of_zeros l.digits_lt (hzeros hall)] at hd
    obtain rfl := Except.ok.inj hd
    rw [show zero.scale.val = 0 from rfl] at hscale
    exact List.eq_nil_of_length_eq_zero (by omega)
  · rintro ⟨hlength, hkept⟩
    obtain ⟨scale, hscale, houtcome⟩ := hform.outcome hlength
    by_cases hnonzero : ∃ x ∈ l.digits, x ≠ 0
    · obtain ⟨d, hd, hnegative, hscale', hsignificant⟩ := assemble_of_significant
        (isMinus l.sign) scale l.digits_lt (dropWhile_ne_nil hnonzero) hdigits
      rw [← hscale'] at hscale
      obtain ⟨hint, hfrac⟩ := parts_of_significant hlead hform.int hsignificant hscale hnonzero
      exact ⟨d, (hparse d).mpr (houtcome.trans hd), hscale,
        text_of_parts hform hnegative hint hfrac hscale⟩
    · have hnil := hkept.resolve_right hnonzero
      refine ⟨zero, (hparse zero).mpr (houtcome.trans (assemble_of_zeros _ (hzeros hnonzero))), ?_,
        text_of_parts hform ?_ ?_ hnil.symm ?_⟩
      · rw [hnil]
        rfl
      · exact (Bool.eq_false_iff.mpr fun hminus => hnonzero (hneg hminus)).symm
      · obtain hint | hhead := hlead
        · exact hint.symm
        · obtain ⟨first, rest, hcons⟩ := List.exists_cons_of_ne_nil hform.int
          rw [hcons] at hhead
          exact absurd ⟨first, List.mem_append_left _ (hcons ▸ List.mem_cons_self),
            fun hfirst => hhead (congrArg some hfirst)⟩ hnonzero
      · rw [hnil]
        rfl

theorem payloadScale_iff {rmp : Sint} {payload : Bytes} {negative : Bool} {scale : I32}
    {digits : List Nat} (hpacks : Packs rmp payload negative scale digits)
    (hlength : (digits.dropWhile (· == 0)).length ≤ maxDigits) :
    (∀ d, fromPayload rmp payload = .ok d → d.scale = scale) ↔
      scale.val = 0 ∨ ∃ x ∈ digits, x ≠ 0 := by
  obtain ⟨hlt, hfrom⟩ := hpacks.fromPayload
  rw [hfrom]
  by_cases hnonzero : ∃ x ∈ digits, x ≠ 0
  · obtain ⟨d, hd, -, hscale, -⟩ := assemble_of_significant negative scale hlt
      (dropWhile_ne_nil hnonzero) hlength
    refine iff_of_true (fun d' hd' => ?_) (.inr hnonzero)
    obtain rfl := Except.ok.inj (hd.symm.trans hd')
    exact hscale
  · have hzeros : digits.dropWhile (· == 0) = [] :=
      List.dropWhile_eq_nil_iff.mpr fun x hmem => by
        simpa using fun hne => hnonzero ⟨x, hmem, hne⟩
    rw [assemble_of_zeros hlt hzeros]
    simp only [hnonzero, or_false]
    constructor
    · intro h
      rw [← h zero rfl]
      rfl
    · rintro h d hd
      obtain rfl := Except.ok.inj hd
      exact Subtype.ext h.symm

def KeepsPayload (rmp : Sint) (payload : Bytes) (negative : Bool) (scale : I32)
    (digits : List Nat) : Prop :=
  ∀ d, fromPayload rmp payload = .ok d → d.scale = scale ∧
    ∃ again sign more, toPayload rmp d = .ok again ∧ Packs rmp again sign scale more ∧
      (if sign then -(positional 10 more : Int) else positional 10 more) =
        if negative then -(positional 10 digits : Int) else positional 10 digits

theorem rewrites_number {rmp : Sint} (hrmp : rmp.Inverse) {negative : Bool} {scale : I32}
    {digits : List Nat} {hdigits : ∀ x ∈ digits, x < 10} {d : Decimal}
    (h : assemble negative scale digits hdigits = .ok d) :
    ∃ again sign more, toPayload rmp d = .ok again ∧ Packs rmp again sign d.scale more ∧
      (if sign then -(positional 10 more : Int) else positional 10 more) =
        if negative then -(positional 10 digits : Int) else positional 10 digits := by
  obtain ⟨again, count, hto, hpacks⟩ := packs_toPayload hrmp d
  obtain ⟨hlt, -⟩ := hpacks.fromPayload
  refine ⟨again, d.negative, List.replicate count 0 ++ d.digits, hto, hpacks, ?_⟩
  rw [← mantissa_of_assemble h, ← mantissa_of_assemble (assemble_self d count hlt)]

theorem keepsPayload_iff {rmp : Sint} (hrmp : rmp.Inverse) {payload : Bytes} {negative : Bool}
    {scale : I32} {digits : List Nat} (hpacks : Packs rmp payload negative scale digits)
    (hlength : (digits.dropWhile (· == 0)).length ≤ maxDigits) :
    KeepsPayload rmp payload negative scale digits ↔ scale.val = 0 ∨ ∃ x ∈ digits, x ≠ 0 := by
  rw [← payloadScale_iff hpacks hlength]
  obtain ⟨hlt, hfrom⟩ := hpacks.fromPayload
  refine ⟨fun h d hd => (h d hd).1, fun h d hd => ⟨h d hd, ?_⟩⟩
  have hwrites := rewrites_number hrmp (hfrom.symm.trans hd)
  rwa [h d hd] at hwrites

/--
A literal keeps its scale and its text exactly when it has no fraction or shows a digit
other than zero, as long as its fraction is shorter than an `i32` counts.  A payload
keeps its scale exactly when that is zero or the number is not.
-/
theorem scale_is_kept_iff {rmp : Sint} (hrmp : rmp.Inverse) :
    (∀ l : Literal, l.PlainForm → l.NoLeadingZero →
      (l.digits.dropWhile (· == 0)).length ≤ maxDigits →
      (isMinus l.sign = true → ∃ x ∈ l.digits, x ≠ 0) →
      (KeepsText l ↔
        l.fraction.length < 2 ^ 31 ∧ (l.fraction = [] ∨ ∃ x ∈ l.digits, x ≠ 0))) ∧
    ∀ payload negative scale digits, Packs rmp payload negative scale digits →
      (digits.dropWhile (· == 0)).length ≤ maxDigits →
      (KeepsPayload rmp payload negative scale digits ↔
        scale.val = 0 ∨ ∃ x ∈ digits, x ≠ 0) :=
  ⟨fun _ hform hlead hdigits hneg => keepsText_iff hform hlead hdigits hneg,
    fun _ _ _ _ hpacks hlength => keepsPayload_iff hrmp hpacks hlength⟩

def fractional (int frac : List (Fin 10)) (h : int ≠ []) : Literal where
  sign := none
  int := int.map Fin.val
  frac := some (frac.map Fin.val)
  exponent := none
  int_lt := map_val_lt int
  frac_lt := map_val_lt frac
  nonempty := .inl (by simpa using h)

theorem scale_is_kept_sample :
    KeepsText (fractional [1, 9] [9, 0] (by simp)) ∧
      KeepsPayload sampleSint [0x02, 0x01, 0x23, 0x4d] true ⟨2, by decide⟩ [0, 1, 2, 3, 4] := by
  obtain ⟨htext, hpayload⟩ := scale_is_kept_iff sampleSint_inverse
  constructor
  · exact (htext _ ⟨by decide, by decide, by decide, rfl⟩ (.inr (by decide)) (by decide)
      (by decide)).mpr ⟨by decide, .inr ⟨1, by decide, by decide⟩⟩
  · exact (hpayload _ _ _ _
      ⟨[0x01, 0x23, 0x4d], 0xd, rfl, by decide, rfl, by decide, by decide⟩ (by decide)).mpr
      (.inr ⟨1, by decide, by decide⟩)

/-- The literal `0.00` is read as a zero without a scale. -/
theorem zero_loses_scale :
    ¬ ∀ l : Literal, l.PlainForm → l.NoLeadingZero →
      (l.digits.dropWhile (· == 0)).length ≤ maxDigits →
      (isMinus l.sign = true → ∃ x ∈ l.digits, x ≠ 0) → KeepsText l := by
  intro hall
  let cents := fractional [0] [0, 0] (by simp)
  have hform : cents.PlainForm := ⟨by decide, by decide, by decide, rfl⟩
  have hkeeps := hall cents hform (.inl rfl) (by decide) (by decide)
  obtain ⟨-, hnil | ⟨x, hmem, hne⟩⟩ :=
    (keepsText_iff hform (.inl rfl) (by decide) (by decide)).mp hkeeps
  · cases hnil
  · exact hne (by simpa [cents, fractional, Literal.digits, Literal.fraction] using hmem)

end Tarant.Decimal
