import Tarant.Decimal.Value

/-!
# The order of decimals

Equality and hashing compare a canonical form, the order compares lengths before the
point and then digits padded with zeros.  Both agree with the rational numbers that
the decimals denote.
-/

namespace Tarant.Decimal

open Foundation

/-! ## The order -/

theorem take_padded {width : Nat} {digits : List Nat} (h : digits.length ≤ width) :
    (digits ++ List.replicate width 0).take width =
      digits ++ List.replicate (width - digits.length) 0 := by
  rw [List.take_append, List.take_of_length_le h, List.take_replicate,
    Nat.min_eq_left (Nat.sub_le _ _)]

theorem compare_padded {a b : Decimal} (h : a.integerLen = b.integerLen) :
    List.compareLex compare
        ((a.digits ++ List.replicate (max a.digits.length b.digits.length) 0).take
          (max a.digits.length b.digits.length))
        ((b.digits ++ List.replicate (max a.digits.length b.digits.length) 0).take
          (max a.digits.length b.digits.length)) =
      compare (scaled 10 a.magnitude a.scale) (scaled 10 b.magnitude b.scale) := by
  set width := max a.digits.length b.digits.length
  have ha : a.digits.length ≤ width := Nat.le_max_left _ _
  have hb : b.digits.length ≤ width := Nat.le_max_right _ _
  have hpad {d : Decimal} (count : Nat) : ∀ x ∈ d.digits ++ List.replicate count 0, x < 10 := by
    intro x hmem
    obtain hmem | hmem := List.mem_append.mp hmem
    · exact d.digit_lt x hmem
    · simp [(List.mem_replicate.mp hmem).2]
  rw [take_padded ha, take_padded hb,
    compareLex_eq_compare (by decide) (by simp [ha, hb]) (hpad _) (hpad _),
    positional_append_zeros, positional_append_zeros]
  have hscale : (a.scale : Int) + ((width - a.digits.length : Nat) : Int) =
      (b.scale : Int) + ((width - b.digits.length : Nat) : Int) := by
    simp only [integerLen, i64OfLen_length] at h
    omega
  rw [← compare_scaled (by decide : 0 < 10) _ _ (a.scale + ((width - a.digits.length : Nat) : Int)),
    scaled_mul_pow (by decide), hscale, scaled_mul_pow (by decide)]
  rfl

theorem scaled_lt_of_integerLen {a b : Decimal} (hb : b.isZero = false)
    (h : a.integerLen < b.integerLen) :
    scaled 10 a.magnitude a.scale < scaled 10 b.magnitude b.scale := by
  obtain ⟨hpos, hle⟩ := le_magnitude hb
  refine scaled_lt_scaled (by decide) a.magnitude_lt hle ?_
  simp only [integerLen, i64OfLen_length] at h
  omega

theorem cmpMagnitude_eq {a b : Decimal} (ha : a.isZero = false) (hb : b.isZero = false) :
    cmpMagnitude a b =
      compare (scaled 10 a.magnitude a.scale) (scaled 10 b.magnitude b.scale) := by
  rw [cmpMagnitude]
  rcases lt_trichotomy a.integerLen b.integerLen with h | h | h
  · rw [compare_lt_iff_lt.mpr h, compare_lt_iff_lt.mpr (scaled_lt_of_integerLen hb h)]
  · rw [compare_eq_iff_eq.mpr h]
    exact compare_padded h
  · rw [compare_gt_iff_gt.mpr h, compare_gt_iff_gt.mpr (scaled_lt_of_integerLen ha h)]

theorem compare_neg_neg (x y : ℚ) : compare (-x) (-y) = compare y x := by
  rcases lt_trichotomy x y with h | h | h
  · rw [compare_gt_iff_gt.mpr h, compare_gt_iff_gt.mpr (neg_lt_neg h)]
  · rw [h, compare_eq_iff_eq.mpr rfl, compare_eq_iff_eq.mpr rfl]
  · rw [compare_lt_iff_lt.mpr h, compare_lt_iff_lt.mpr (neg_lt_neg h)]

theorem cmp_eq (a b : Decimal) : cmp a b = compare a.value b.value := by
  unfold cmp
  cases ha : a.isZero <;> cases hb : b.isZero <;> simp only
  case true.true => rw [value_of_isZero ha, value_of_isZero hb, compare_eq_iff_eq.mpr rfl]
  case true.false =>
    rw [value_of_isZero ha]
    cases hneg : b.negative
    · rw [compare_lt_iff_lt.mpr (value_pos hb hneg)]
      rfl
    · rw [compare_gt_iff_gt.mpr (value_neg hb hneg)]
      rfl
  case false.true =>
    rw [value_of_isZero hb]
    cases hneg : a.negative
    · rw [compare_gt_iff_gt.mpr (value_pos ha hneg)]
      rfl
    · rw [compare_lt_iff_lt.mpr (value_neg ha hneg)]
      rfl
  case false.false =>
    cases hnegA : a.negative <;> cases hnegB : b.negative <;> simp only
    · rw [cmpMagnitude_eq ha hb, value_eq, value_eq, hnegA, hnegB]
      rfl
    · rw [compare_gt_iff_gt.mpr ((value_neg hb hnegB).trans (value_pos ha hnegA))]
    · rw [compare_lt_iff_lt.mpr ((value_neg ha hnegA).trans (value_pos hb hnegB))]
    · rw [cmpMagnitude_eq hb ha, value_eq, value_eq, hnegA, hnegB]
      exact (compare_neg_neg _ _).symm

/-! ## The canonical form -/

def kept (d : Decimal) : List Nat := d.digits.take (d.digits.length - d.trailing)

theorem trailing_eq (d : Decimal) : d.trailing = (d.digits.rtakeWhile (· == 0)).length := by
  rw [trailing, List.rtakeWhile, List.length_reverse]

theorem trailing_le (d : Decimal) : d.trailing ≤ d.digits.length := by
  rw [trailing_eq]
  exact (List.rtakeWhile_suffix _ _).length_le

theorem i64OfLen_trailing (d : Decimal) : i64OfLen d.trailing = d.trailing :=
  if_pos ((d.trailing_le.trans d.length_le).trans_lt (by decide))

theorem digits_split (d : Decimal) :
    d.digits = d.digits.rdropWhile (· == 0) ++ List.replicate d.trailing 0 := by
  have hzeros : d.digits.rtakeWhile (· == 0) = List.replicate d.trailing 0 := by
    refine List.eq_replicate_iff.mpr ⟨d.trailing_eq.symm, fun x hmem => ?_⟩
    simpa using List.mem_rtakeWhile_imp hmem
  rw [← hzeros, List.rdropWhile_append_rtakeWhile]

theorem kept_eq (d : Decimal) : d.kept = d.digits.rdropWhile (· == 0) := by
  have hlength := congrArg List.length d.digits_split
  rw [List.length_append, List.length_replicate] at hlength
  rw [kept, hlength, Nat.add_sub_cancel]
  nth_rewrite 2 [digits_split]
  exact List.take_left

theorem magnitude_eq (d : Decimal) :
    d.magnitude = positional 10 d.kept * 10 ^ d.trailing := by
  rw [magnitude, digits_split, ← kept_eq, positional_append_zeros]

theorem scaled_kept (d : Decimal) :
    scaled 10 (positional 10 d.kept) (d.scale - d.trailing) = scaled 10 d.magnitude d.scale := by
  rw [magnitude_eq, ← scaled_mul_pow (by decide) _ d.trailing, Int.sub_add_cancel]

theorem kept_lt (d : Decimal) : ∀ x ∈ d.kept, x < 10 :=
  fun x hmem => d.digit_lt x (List.mem_of_mem_take hmem)

theorem kept_ends {d : Decimal} (h : d.isZero = false) :
    (∃ first rest, first ≠ 0 ∧ d.kept = first :: rest) ∧ ¬ 10 ∣ positional 10 d.kept := by
  obtain rfl | ⟨-, first, rest, hfirst, hdigits⟩ := d.zero_or_leading
  · cases h
  · have hne : d.digits.rdropWhile (· == 0) ≠ [] := by
      intro hnil
      have hall := List.rdropWhile_eq_nil_iff.mp hnil first (hdigits ▸ List.mem_cons_self)
      exact hfirst (by simpa using hall)
    have hkept := d.kept_lt
    rw [kept_eq] at hkept ⊢
    constructor
    · obtain ⟨other, tail, htail⟩ := List.exists_cons_of_ne_nil hne
      refine ⟨other, tail, ?_, htail⟩
      obtain ⟨zeros, hprefix⟩ := List.rdropWhile_prefix (p := (· == 0)) (l := d.digits)
      rw [htail, hdigits] at hprefix
      exact (List.cons.inj hprefix).1 ▸ hfirst
    · have hlast : (d.digits.rdropWhile (· == 0)).getLast hne ≠ 0 := by
        simpa using List.rdropWhile_last_not (· == 0) d.digits hne
      have hlt := hkept _ (List.getLast_mem hne)
      rw [← List.dropLast_append_getLast hne, positional_append, positional_singleton]
      simp only [List.length_singleton, Nat.pow_one]
      omega

theorem canonical_of_isZero {d : Decimal} (h : d.isZero = true) : d.canonical = (false, 0, [0]) := by
  rw [canonical, if_pos h, beq_iff_eq.mp (h : (d.digits == [0]) = true)]

theorem canonical_of_not_isZero {d : Decimal} (h : d.isZero = false) :
    d.canonical = (d.negative, d.scale.val - d.trailing, d.kept) := by
  rw [canonical, if_neg (by simp [h]), i64OfLen_trailing, kept]

theorem isZero_eq_canonical (d : Decimal) : d.isZero = (d.canonical.2.2 == [0]) := by
  cases h : d.isZero with
  | true =>
      rw [canonical_of_isZero h]
      rfl
  | false =>
      obtain ⟨⟨first, rest, hfirst, hkept⟩, -⟩ := kept_ends h
      rw [canonical_of_not_isZero h, hkept, eq_comm, beq_eq_false_iff_ne]
      exact fun heq => hfirst (List.cons.inj heq).1

theorem isZero_of_value {a : Decimal} (h : a.value = 0) : a.isZero = true := by
  cases ha : a.isZero with
  | true => rfl
  | false =>
      cases hneg : a.negative with
      | false => exact absurd h (value_pos ha hneg).ne'
      | true => exact absurd h (value_neg ha hneg).ne

theorem canonical_of_value {a b : Decimal} (h : a.value = b.value) : a.canonical = b.canonical := by
  cases ha : a.isZero with
  | true =>
      have hb := isZero_of_value (h.symm.trans (value_of_isZero ha))
      rw [canonical_of_isZero ha, canonical_of_isZero hb]
  | false =>
      have hb : b.isZero = false := by
        refine Bool.eq_false_iff.mpr fun hb => ?_
        rw [isZero_of_value (h.trans (value_of_isZero hb))] at ha
        cases ha
      have hneg : a.negative = b.negative := by
        cases hnegA : a.negative <;> cases hnegB : b.negative <;> try rfl
        · exact absurd h ((value_neg hb hnegB).trans (value_pos ha hnegA)).ne'
        · exact absurd h ((value_neg ha hnegA).trans (value_pos hb hnegB)).ne
      have hscaled : scaled 10 a.magnitude a.scale = scaled 10 b.magnitude b.scale := by
        rw [value_eq, value_eq, hneg] at h
        cases hnegB : b.negative <;> simpa [hnegB] using h
      obtain ⟨⟨first, rest, hfirst, hkept⟩, hdvd⟩ := kept_ends ha
      obtain ⟨⟨first', rest', hfirst', hkept'⟩, hdvd'⟩ := kept_ends hb
      rw [← scaled_kept, ← scaled_kept] at hscaled
      obtain ⟨hmagnitude, hscale⟩ := scaled_inj (by decide) hdvd hdvd' hscaled
      have hdigits : a.kept = b.kept := by
        have hlt := a.kept_lt
        have hlt' := b.kept_lt
        rw [hkept] at hlt hmagnitude ⊢
        rw [hkept'] at hlt' hmagnitude ⊢
        exact positional_inj_of_head (by decide) hfirst hfirst' hlt hlt' hmagnitude
      rw [canonical_of_not_isZero ha, canonical_of_not_isZero hb, hneg, hscale, hdigits]

theorem value_of_canonical {a b : Decimal} (h : a.canonical = b.canonical) : a.value = b.value := by
  have hzero : a.isZero = b.isZero := by rw [isZero_eq_canonical, h, ← isZero_eq_canonical]
  cases ha : a.isZero with
  | true => rw [value_of_isZero ha, value_of_isZero (hzero ▸ ha)]
  | false =>
      rw [canonical_of_not_isZero ha, canonical_of_not_isZero (hzero ▸ ha)] at h
      obtain ⟨hneg, h⟩ := Prod.mk.inj h
      obtain ⟨hscale, hkept⟩ := Prod.mk.inj h
      rw [value_eq, value_eq, ← scaled_kept, ← scaled_kept, hneg, hscale, hkept]

theorem eq_iff (a b : Decimal) : eq a b = true ↔ a.value = b.value := by
  rw [eq, beq_iff_eq]
  exact ⟨value_of_canonical, canonical_of_value⟩

/-! ## The main result -/

def StepsFit (d : Decimal) : Prop :=
  d.trailing ≤ d.digits.length ∧ InI64 (d.scale - i64OfLen d.trailing) ∧ InI64 d.integerLen

theorem stepsFit (d : Decimal) : d.StepsFit := by
  have hscale := d.scale.property
  have hlength := d.length_le
  have htrailing := d.trailing_le
  rw [StepsFit, integerLen, i64OfLen_trailing, i64OfLen_length]
  unfold InI32 at hscale
  unfold maxDigits at hlength
  unfold InI64
  omega

/-- Order, equality and hashing are those of the numbers the decimals denote. -/
theorem order_is_numeric (a b : Decimal) :
    cmp a b = compare a.value b.value ∧
      (eq a b = true ↔ cmp a b = .eq) ∧ (cmp a b = .eq ↔ a.value = b.value) ∧
      (a.value = b.value → ∀ (σ : Type) (feed : Bool × Int × List Nat → σ → σ) (state : σ),
        hash feed a state = hash feed b state) ∧
      a.StepsFit ∧ b.StepsFit := by
  have hcmp : cmp a b = .eq ↔ a.value = b.value := by rw [cmp_eq, compare_eq_iff_eq]
  refine ⟨cmp_eq a b, (eq_iff a b).trans hcmp.symm, hcmp, fun h σ feed state => ?_,
    a.stepsFit, b.stepsFit⟩
  rw [hash, hash, canonical_of_value h]

end Tarant.Decimal
