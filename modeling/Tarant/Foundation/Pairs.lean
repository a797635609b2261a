import Mathlib

/-!
# Lists in pairs and nibbles in bytes

A list is cut in pieces of two, the last of which may be single.  Two numbers below
16 are the halves of a byte.
-/

namespace Tarant.Foundation

variable {α : Type*}

def chunksOfTwo : List α → List (List α)
  | [] => []
  | [last] => [[last]]
  | first :: second :: rest => [first, second] :: chunksOfTwo rest

theorem join_nibbles : ∀ hi < 16, ∀ lo < 16,
    UInt8.ofNat hi <<< 4 ||| UInt8.ofNat lo = UInt8.ofNat (16 * hi + lo) := by
  decide

theorem split_nibbles : ∀ hi < 16, ∀ lo < 16,
    (UInt8.ofNat (16 * hi + lo) >>> 4).toNat = hi ∧
      (UInt8.ofNat (16 * hi + lo) &&& 0x0f).toNat = lo := by
  decide

theorem forall_byte {p : UInt8 → Prop}
    (h : ∀ hi < 16, ∀ lo < 16, p (UInt8.ofNat (16 * hi + lo))) (c : UInt8) : p c := by
  have hlt := c.toNat_lt
  have hbyte := h (c.toNat / 16) (by omega) (c.toNat % 16) (by omega)
  rwa [Nat.div_add_mod, UInt8.ofNat_toNat] at hbyte

end Tarant.Foundation
