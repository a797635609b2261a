import Tarant.Machine
import Tarant.Bounds
import Tarant.Foundation.Pairs
import Tarant.Foundation.Positional

/-!
# Decimals

Tarantool's `decimal` field type.  A number is a sign, a scale and at most 38
digits; zero is one number only, with the scale zero.  The type carries these facts,
so every constructor ends in `assemble`.
-/

namespace Tarant

open Foundation
open Checked (Fault)

/-! ## The type -/

structure DecimalError where
  reason : String
  deriving DecidableEq, Repr

def Decimal.maxDigits : Nat := 38

/--
An exact decimal number.  The digits come most significant first, without leading
zeros; zero is the single digit `0`, never negative.
-/
@[ext] structure Decimal where
  negative : Bool
  scale : I32
  digits : List Nat
  digit_lt : ∀ d ∈ digits, d < 10
  length_le : digits.length ≤ Decimal.maxDigits
  normal : (negative = false ∧ scale.val = 0 ∧ digits = [0]) ∨
    ∃ first rest, first ≠ 0 ∧ digits = first :: rest

namespace Decimal

def zero : Decimal where
  negative := false
  scale := ⟨0, inI32_zero⟩
  digits := [0]
  digit_lt := by simp
  length_le := by decide
  normal := .inl ⟨rfl, rfl, rfl⟩

def isZero (d : Decimal) : Bool := d.digits == [0]

def mantissa (d : Decimal) : Int :=
  let magnitude := d.digits.foldl (fun (acc : Int) (digit : Nat) => acc * 10 + digit) 0
  if d.negative then -magnitude else magnitude

def assemble (negative : Bool) (scale : I32) (digits : List Nat)
    (hdigits : ∀ d ∈ digits, d < 10) : Except DecimalError Decimal :=
  let significant := digits.dropWhile (· == 0)
  if hempty : significant = [] then .ok zero
  else if hlength : maxDigits < significant.length then
    .error ⟨"more than 38 significant digits"⟩
  else .ok {
    negative := negative
    scale := scale
    digits := significant
    digit_lt := fun d hmem => hdigits d (List.dropWhile_suffix _ |>.subset hmem)
    length_le := Nat.le_of_not_lt hlength
    normal := by
      refine .inr ⟨significant.head hempty, significant.tail, ?_, ?_⟩
      · simpa using List.head_dropWhile_not (· == 0) hempty
      · exact (List.cons_head_tail hempty).symm }

/-! ## From integers -/

def decimalDigits (n : Nat) : List Nat := if n = 0 then [0] else (Nat.digits 10 n).reverse

theorem decimalDigits_lt (n : Nat) : ∀ d ∈ decimalDigits n, d < 10 := by
  unfold decimalDigits
  split
  · simp
  · exact fun d hmem => Nat.digits_lt_base (by decide) (List.mem_reverse.mp hmem)

def fromParts (mantissa : Int) (scale : I32) : Except DecimalError Decimal :=
  assemble (mantissa < 0) scale (decimalDigits mantissa.natAbs) (decimalDigits_lt _)

def ofInt (value : Int) : Except DecimalError Decimal := fromParts value ⟨0, inI32_zero⟩

/-! ## Comparison -/

def trailing (d : Decimal) : Nat := (d.digits.reverse.takeWhile (· == 0)).length

/-- The sign, the scale and the digits with trailing zeros folded into the scale. -/
def canonical (d : Decimal) : Bool × Int × List Nat :=
  if d.isZero then (false, 0, d.digits)
  else (d.negative, d.scale - i64OfLen d.trailing, d.digits.take (d.digits.length - d.trailing))

def integerLen (d : Decimal) : Int := i64OfLen d.digits.length - d.scale

def cmpMagnitude (a b : Decimal) : Ordering :=
  match compare a.integerLen b.integerLen with
  | .eq =>
      let width := max a.digits.length b.digits.length
      List.compareLex compare ((a.digits ++ List.replicate width 0).take width)
        ((b.digits ++ List.replicate width 0).take width)
  | ordering => ordering

def cmp (a b : Decimal) : Ordering :=
  match a.isZero, b.isZero with
  | true, true => .eq
  | true, false => if b.negative then .gt else .lt
  | false, true => if a.negative then .lt else .gt
  | false, false =>
      match a.negative, b.negative with
      | false, true => .gt
      | true, false => .lt
      | false, false => cmpMagnitude a b
      | true, true => cmpMagnitude b a

def eq (a b : Decimal) : Bool := a.canonical == b.canonical

/-- What a hasher is fed. -/
def hash {σ : Type*} (feed : Bool × Int × List Nat → σ → σ) (d : Decimal) (state : σ) : σ :=
  feed d.canonical state

end Decimal

end Tarant
