import Mathlib

/-!
# Scaled integers

A natural number and an integer scale denote `n * base ^ (-scale)`.  Zeros at the end
of the number can be moved into the scale and back; without them the two are
determined by what they denote.
-/

namespace Tarant.Foundation

def scaled (base n : Nat) (scale : Int) : ℚ := n * (base : ℚ) ^ (-scale)

variable {base m n : Nat} {s t : Int}

@[simp] theorem scaled_zero (base : Nat) (s : Int) : scaled base 0 s = 0 := by simp [scaled]

theorem scaled_pos (hbase : 0 < base) (hn : 0 < n) (s : Int) : 0 < scaled base n s := by
  have hbase' : (0 : ℚ) < base := Nat.cast_pos.mpr hbase
  have hn' : (0 : ℚ) < n := Nat.cast_pos.mpr hn
  unfold scaled
  positivity

theorem scaled_mul_pow (hbase : 0 < base) (n k : Nat) (s : Int) :
    scaled base (n * base ^ k) (s + k) = scaled base n s := by
  have hne : (base : ℚ) ≠ 0 := Nat.cast_ne_zero.mpr hbase.ne'
  rw [scaled, scaled, Nat.cast_mul, Nat.cast_pow, mul_assoc, ← zpow_natCast, ← zpow_add₀ hne]
  congr 2
  omega

theorem compare_scaled (hbase : 0 < base) (m n : Nat) (s : Int) :
    compare (scaled base m s) (scaled base n s) = compare m n := by
  have hbase' : (0 : ℚ) < base := Nat.cast_pos.mpr hbase
  have hpos : (0 : ℚ) < (base : ℚ) ^ (-s) := zpow_pos hbase' _
  unfold scaled
  rcases Nat.lt_trichotomy m n with h | rfl | h
  · have hcast : (m : ℚ) < n := Nat.cast_lt.mpr h
    rw [compare_lt_iff_lt.mpr h, compare_lt_iff_lt]
    exact mul_lt_mul_of_pos_right hcast hpos
  · rw [compare_eq_iff_eq.mpr rfl, compare_eq_iff_eq.mpr rfl]
  · have hcast : (n : ℚ) < m := Nat.cast_lt.mpr h
    rw [compare_gt_iff_gt.mpr h, compare_gt_iff_gt]
    exact mul_lt_mul_of_pos_right hcast hpos

theorem scaled_lt_scaled (hbase : 1 < base) {k l : Nat} (hm : m < base ^ k) (hn : base ^ l ≤ n)
    (h : (k : Int) - s ≤ l - t) : scaled base m s < scaled base n t := by
  have hbase' : (1 : ℚ) < base := Nat.one_lt_cast.mpr hbase
  have hpos (e : Int) : (0 : ℚ) < (base : ℚ) ^ e := zpow_pos (zero_lt_one.trans hbase') _
  have hm' : (m : ℚ) < (base : ℚ) ^ (k : Int) := by
    rw [zpow_natCast]
    exact_mod_cast hm
  have hn' : (base : ℚ) ^ (l : Int) ≤ n := by
    rw [zpow_natCast]
    exact_mod_cast hn
  have hne : (base : ℚ) ≠ 0 := (zero_lt_one.trans hbase').ne'
  calc scaled base m s
      < (base : ℚ) ^ (k : Int) * (base : ℚ) ^ (-s) := mul_lt_mul_of_pos_right hm' (hpos _)
    _ = (base : ℚ) ^ ((k : Int) - s) := by rw [← zpow_add₀ hne, Int.sub_eq_add_neg]
    _ ≤ (base : ℚ) ^ ((l : Int) - t) := zpow_le_zpow_right₀ hbase'.le h
    _ = (base : ℚ) ^ (l : Int) * (base : ℚ) ^ (-t) := by
        rw [← zpow_add₀ hne, Int.sub_eq_add_neg]
    _ ≤ scaled base n t := mul_le_mul_of_nonneg_right hn' (hpos _).le

theorem scaled_inj (hbase : 1 < base) (hm : ¬ base ∣ m) (hn : ¬ base ∣ n)
    (h : scaled base m s = scaled base n t) : m = n ∧ s = t := by
  have hpos : 0 < base := Nat.zero_lt_of_lt hbase
  have aux {m n : Nat} {s t : Int} (hn : ¬ base ∣ n) (hle : s ≤ t)
      (h : scaled base m s = scaled base n t) : m = n ∧ s = t := by
    obtain ⟨k, rfl⟩ := Int.le.dest hle
    rw [← scaled_mul_pow hpos m k s] at h
    have heq : m * base ^ k = n := by
      have hcompare := compare_scaled hpos (m * base ^ k) n (s + k)
      rw [compare_eq_iff_eq.mpr h] at hcompare
      exact compare_eq_iff_eq.mp hcompare.symm
    cases k with
    | zero => exact ⟨by simpa using heq, by simp⟩
    | succ k => exact absurd (heq ▸ Dvd.dvd.mul_left (dvd_pow_self base k.succ_ne_zero) m) hn
  rcases le_total s t with hle | hle
  · exact aux hn hle h
  · obtain ⟨hmn, hst⟩ := aux hm hle h.symm
    exact ⟨hmn.symm, hst.symm⟩

end Tarant.Foundation
