import Mathlib

/-!
# Machine integers

The fixed-width integers of the field types.  An integer is taken as a number with
its bounds; an operator panics where its result leaves them, a saturating one stops
at the nearest bound.
-/

namespace Tarant

/-! ## Bounds -/

def InI16 (n : Int) : Prop := -0x8000 ≤ n ∧ n < 0x8000

def InI32 (n : Int) : Prop := -0x80000000 ≤ n ∧ n < 0x80000000

def InI64 (n : Int) : Prop := -0x8000000000000000 ≤ n ∧ n < 0x8000000000000000

def InI128 (n : Int) : Prop :=
  -0x80000000000000000000000000000000 ≤ n ∧ n < 0x80000000000000000000000000000000

instance (n : Int) : Decidable (InI16 n) := inferInstanceAs (Decidable (_ ∧ _))

instance (n : Int) : Decidable (InI32 n) := inferInstanceAs (Decidable (_ ∧ _))

instance (n : Int) : Decidable (InI64 n) := inferInstanceAs (Decidable (_ ∧ _))

instance (n : Int) : Decidable (InI128 n) := inferInstanceAs (Decidable (_ ∧ _))

theorem inI16_zero : InI16 0 := by decide

theorem inI32_zero : InI32 0 := by decide

theorem inI64_zero : InI64 0 := by decide

abbrev I16 := { n : Int // InI16 n }

abbrev I32 := { n : Int // InI32 n }

abbrev I64 := { n : Int // InI64 n }

/-! ## Signs in front of digits -/

def plus : UInt8 := 0x2b

def minus : UInt8 := 0x2d

/-! ## Conversions -/

def tryI32 (n : Int) : Option I32 := if h : InI32 n then some ⟨n, h⟩ else none

def lenI32 (len : Nat) : Option I32 :=
  if h : len < 0x80000000 then some ⟨len, by unfold InI32; omega⟩ else none

/-- `i64::try_from(len).unwrap_or(i64::MAX)`. -/
def i64OfLen (len : Nat) : Int := if len < 2 ^ 63 then len else 2 ^ 63 - 1

theorem inI64_ofLen (len : Nat) : InI64 (i64OfLen len) := by
  unfold i64OfLen InI64
  split <;> omega

theorem tryI32_eq_some {n : Int} {m : I32} : tryI32 n = some m ↔ m.val = n := by
  unfold tryI32
  split
  next h => simp [Subtype.ext_iff, eq_comm]
  next h =>
      simp only [reduceCtorEq, false_iff]
      rintro rfl
      exact h m.property

theorem tryI32_of_inI32 {n : Int} (h : InI32 n) : tryI32 n = some ⟨n, h⟩ :=
  tryI32_eq_some.mpr rfl

theorem tryI32_eq_none {n : Int} : tryI32 n = none ↔ ¬ InI32 n := by
  unfold tryI32
  split <;> simp [*]

theorem lenI32_short {len : Nat} (h : len < 2 ^ 31) : ∃ m, lenI32 len = some m ∧ m.val = len := by
  unfold lenI32
  split
  next => exact ⟨_, rfl, rfl⟩
  next hlong => exact absurd h hlong

theorem lenI32_long {len : Nat} (h : ¬ len < 2 ^ 31) : lenI32 len = none := by
  unfold lenI32
  split
  next hshort => exact absurd hshort h
  next => rfl

/-! ## Operators -/

/-- Why an operation on integers panics. -/
inductive Panic where
  | overflow
  | expect (reason : String)
  deriving DecidableEq, Repr

def strictI64 (n : Int) : Except Panic I64 :=
  if h : InI64 n then .ok ⟨n, h⟩ else .error .overflow

def strictI128 (n : Int) : Except Panic Int := if InI128 n then .ok n else .error .overflow

theorem inI64_clamp (n : Int) :
    InI64 (max (-0x8000000000000000) (min n 0x7fffffffffffffff)) := by
  unfold InI64
  omega

def saturateI64 (n : Int) : I64 := ⟨_, inI64_clamp n⟩

theorem strictI64_ok {n : Int} (h : InI64 n) : strictI64 n = .ok ⟨n, h⟩ := dif_pos h

theorem strictI64_bind {α : Type} {n : Int} (h : InI64 n) (f : I64 → Except Panic α) :
    (strictI64 n >>= f) = f ⟨n, h⟩ := by
  rw [strictI64_ok h]
  rfl

theorem saturateI64_val {n : Int} (h : InI64 n) : (saturateI64 n).val = n := by
  unfold InI64 at h
  unfold saturateI64
  dsimp only
  omega

theorem strictI128_ok {n : Int} (h : InI128 n) : strictI128 n = .ok n := if_pos h

end Tarant
