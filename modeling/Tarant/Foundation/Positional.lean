import Mathlib

/-!
# Positional notation

Numbers written most significant digit first, in any base.  A digit list is read
by a left fold, which is `Nat.ofDigits` of the reversed list.  Of two lists of one
length, the one that is greater in the lexicographic order is the greater number.
-/

namespace Tarant.Foundation

def positional (base : Nat) (digits : List Nat) : Nat :=
  digits.foldl (fun n d => n * base + d) 0

variable {base : Nat} {digits more : List Nat}

theorem positional_eq_ofDigits (base : Nat) (digits : List Nat) :
    positional base digits = Nat.ofDigits base digits.reverse := by
  rw [Nat.ofDigits_eq_foldr, List.foldr_reverse, positional]
  congr 1
  funext n d
  simp only [Nat.cast_id]
  ring

@[simp] theorem positional_nil : positional base [] = 0 := rfl

@[simp] theorem positional_singleton (d : Nat) : positional base [d] = d := by
  simp [positional]

theorem positional_append (base : Nat) (digits more : List Nat) :
    positional base (digits ++ more) =
      positional base digits * base ^ more.length + positional base more := by
  simp only [positional_eq_ofDigits, List.reverse_append, Nat.ofDigits_append,
    List.length_reverse]
  ring

theorem positional_cons (base d : Nat) (digits : List Nat) :
    positional base (d :: digits) = d * base ^ digits.length + positional base digits := by
  rw [← List.singleton_append, positional_append, positional_singleton]

@[simp] theorem positional_replicate_zero (count : Nat) :
    positional base (List.replicate count 0) = 0 := by
  simp [positional_eq_ofDigits]

theorem positional_append_zeros (base count : Nat) (digits : List Nat) :
    positional base (digits ++ List.replicate count 0) = positional base digits * base ^ count := by
  rw [positional_append, positional_replicate_zero, List.length_replicate, Nat.add_zero]

theorem positional_zeros_append (base count : Nat) (digits : List Nat) :
    positional base (List.replicate count 0 ++ digits) = positional base digits := by
  rw [positional_append, positional_replicate_zero, Nat.zero_mul, Nat.zero_add]

theorem positional_lt (hbase : 1 < base) (h : ∀ d ∈ digits, d < base) :
    positional base digits < base ^ digits.length := by
  rw [positional_eq_ofDigits, ← List.length_reverse]
  exact Nat.ofDigits_lt_base_pow_length hbase fun d hd => h d (List.mem_reverse.mp hd)

theorem le_positional_cons (base : Nat) {d : Nat} (hd : d ≠ 0) (digits : List Nat) :
    base ^ digits.length ≤ positional base (d :: digits) := by
  rw [positional_cons]
  exact (Nat.le_mul_of_pos_left _ (Nat.pos_of_ne_zero hd)).trans (Nat.le_add_right _ _)

theorem positional_pos (hbase : 0 < base) (h : ∃ d ∈ digits, d ≠ 0) :
    0 < positional base digits := by
  induction digits with
  | nil => simp at h
  | cons d digits ih =>
      rw [positional_cons]
      by_cases hd : d = 0
      · obtain ⟨e, he, hne⟩ := h
        rcases List.mem_cons.mp he with rfl | he
        · exact absurd hd hne
        · have := ih ⟨e, he, hne⟩
          omega
      · have := Nat.mul_pos (Nat.pos_of_ne_zero hd) (Nat.pow_pos hbase (n := digits.length))
        omega

theorem positional_eq_zero_iff (hbase : 0 < base) :
    positional base digits = 0 ↔ ∀ d ∈ digits, d = 0 := by
  constructor
  · intro h d hd
    by_contra hne
    exact (positional_pos hbase ⟨d, hd, hne⟩).ne' h
  · intro h
    rw [List.eq_replicate_of_mem h, positional_replicate_zero]

theorem positional_inj (hbase : 1 < base) (hdigits : ∀ d ∈ digits, d < base)
    (hmore : ∀ d ∈ more, d < base) (hlength : digits.length = more.length)
    (h : positional base digits = positional base more) : digits = more := by
  rw [positional_eq_ofDigits, positional_eq_ofDigits] at h
  refine List.reverse_injective (Nat.ofDigits_inj_of_len_eq hbase (by simpa using hlength) ?_ ?_ h)
  · exact fun d hd => hdigits d (List.mem_reverse.mp hd)
  · exact fun d hd => hmore d (List.mem_reverse.mp hd)

theorem positional_inj_of_head {d e : Nat} (hbase : 1 < base) (hd : d ≠ 0) (he : e ≠ 0)
    (hdigits : ∀ x ∈ d :: digits, x < base) (hmore : ∀ x ∈ e :: more, x < base)
    (h : positional base (d :: digits) = positional base (e :: more)) :
    d :: digits = e :: more := by
  have hle {x : Nat} {xs ys : List Nat} (hx : x ≠ 0) (hys : ∀ y ∈ ys, y < base)
      (hxs : positional base (x :: xs) = positional base ys) : xs.length < ys.length :=
    (Nat.pow_lt_pow_iff_right hbase).mp
      ((le_positional_cons base hx xs).trans_lt (hxs ▸ positional_lt hbase hys))
  have hlt := hle hd hmore h
  have hgt := hle he hdigits h.symm
  simp only [List.length_cons] at hlt hgt
  exact positional_inj hbase hdigits hmore (by simp only [List.length_cons]; omega) h

theorem compareLex_eq_compare (hbase : 1 < base) (hlength : digits.length = more.length)
    (hdigits : ∀ d ∈ digits, d < base) (hmore : ∀ d ∈ more, d < base) :
    List.compareLex compare digits more =
      compare (positional base digits) (positional base more) := by
  induction digits generalizing more with
  | nil =>
      cases more with
      | nil => rfl
      | cons d more => simp at hlength
  | cons d digits ih =>
      cases more with
      | nil => simp at hlength
      | cons e more =>
          simp only [List.forall_mem_cons] at hdigits hmore
          have hlength' : digits.length = more.length := by simpa using hlength
          have hlow := positional_lt hbase hdigits.2
          have hlow' := positional_lt hbase hmore.2
          rw [List.compareLex_cons_cons, ih hlength' hdigits.2 hmore.2, positional_cons,
            positional_cons]
          rw [hlength'] at hlow ⊢
          rcases Nat.lt_trichotomy d e with hlt | rfl | hgt
          · have hcarry : (d + 1) * base ^ more.length ≤ e * base ^ more.length :=
              Nat.mul_le_mul_right _ hlt
            rw [Nat.add_mul] at hcarry
            have hless : d * base ^ more.length + positional base digits <
                e * base ^ more.length + positional base more := by omega
            rw [Nat.compare_eq_lt.mpr hlt, Nat.compare_eq_lt.mpr hless]
            rfl
          · simp only [Nat.compare_eq_eq.mpr, Nat.compare_eq_ite_lt, Nat.add_lt_add_iff_left]
            rfl
          · have hcarry : (e + 1) * base ^ more.length ≤ d * base ^ more.length :=
              Nat.mul_le_mul_right _ hgt
            rw [Nat.add_mul] at hcarry
            have hmore : e * base ^ more.length + positional base more <
                d * base ^ more.length + positional base digits := by omega
            rw [Nat.compare_eq_gt.mpr hgt, Nat.compare_eq_gt.mpr hmore]
            rfl

end Tarant.Foundation
