import Tarant.Building
import Tarant.Reading

/-!
# What may stand where the protocol wants an array

The shapes of `tuple.rs`.  A scalar, and a `Value` that is not an array, is wrapped
in an array of one item; everything else is sent as the array it already is.  What
`to_msgpack` makes of a value comes with the value it encodes.
-/

namespace Tarant.Building

open Wire (Encodes ArrayHead MapHead)

/-- Bytes that `rmp_serde` or `rmpv` wrote, with the value they are the encoding of. -/
structure Encoded where
  value : Value
  bytes : Bytes
  encodes : Encodes [value] bytes

/-- What a slice, a `Vec` or a tuple is written as. -/
structure EncodedItems where
  items : List Value
  bytes : Bytes
  encodes : Encodes [.array items] bytes

inductive ArrayLike where
  /-- `()` -/
  | unit
  /-- The types of `scalar_keys!`. -/
  | scalar (output : Except String Encoded)
  /-- An `rmpv::Value`. -/
  | value (output : Except String Encoded)
  /-- A slice, an array, a `Vec` or a tuple of up to eight fields. -/
  | sequence (output : Except String EncodedItems)

namespace ArrayLike

def encode (buf : Bytes) : ArrayLike → Except Error Bytes
  | .unit => .ok (buf ++ [0x90])
  | .scalar output =>
      match output with
      | .ok encoded => .ok (buf ++ [0x91] ++ encoded.bytes)
      | .error reason => .error (.encode reason)
  | .value output =>
      match output with
      | .ok encoded =>
          match encoded.value with
          | .array _ => .ok (buf ++ encoded.bytes)
          | _ => .ok (buf ++ [0x91] ++ encoded.bytes)
      | .error reason => .error (.encode reason)
  | .sequence output =>
      match output with
      | .ok encoded => .ok (buf ++ encoded.bytes)
      | .error reason => .error (.encode reason)

def encodeArray (this : ArrayLike) : Except Error Bytes := this.encode []

/-- What the value stands for, unless it does not serialize. -/
def items : ArrayLike → Option (List Value)
  | .unit => some []
  | .scalar (.ok encoded) => some [encoded.value]
  | .value (.ok encoded) =>
      match encoded.value with
      | .array items => some items
      | other => some [other]
  | .sequence (.ok encoded) => some encoded.items
  | _ => none

theorem encodes_wrapped {value : Value} {bytes : Bytes} (h : Encodes [value] bytes) :
    Encodes [.array [value]] (0x91 :: bytes) := by
  have hwhole : Encodes [.array [value]] ([0x91] ++ bytes ++ []) :=
    .array (.fix (by simp)) h .done
  simpa using hwhole

theorem encodeArray_ok {this : ArrayLike} {bytes : Bytes} (h : this.encodeArray = .ok bytes) :
    ∃ items, this.items = some items ∧ Encodes [.array items] bytes := by
  unfold encodeArray encode at h
  cases this with
  | unit =>
      obtain rfl := Except.ok.inj h
      exact ⟨[], rfl, .array (.fix (by decide)) .done .done⟩
  | scalar output =>
      cases output with
      | error reason => simp at h
      | ok encoded =>
          obtain rfl := Except.ok.inj h
          exact ⟨[encoded.value], rfl, encodes_wrapped encoded.encodes⟩
  | value output =>
      cases output with
      | error reason => simp at h
      | ok encoded =>
          obtain ⟨value, written, hencodes⟩ := encoded
          cases value with
          | array items =>
              obtain rfl := Except.ok.inj h
              exact ⟨items, rfl, hencodes⟩
          | _ =>
              obtain rfl := Except.ok.inj h
              exact ⟨_, rfl, encodes_wrapped hencodes⟩
  | sequence output =>
      cases output with
      | error reason => simp at h
      | ok encoded =>
          obtain rfl := Except.ok.inj h
          exact ⟨encoded.items, rfl, encoded.encodes⟩

theorem encodeArray_of_items {this : ArrayLike} {items : List Value}
    (h : this.items = some items) : ∃ bytes, this.encodeArray = .ok bytes := by
  unfold encodeArray encode
  cases this with
  | unit => exact ⟨_, rfl⟩
  | scalar output => cases output <;> simp [ArrayLike.items] at h ⊢
  | value output =>
      cases output with
      | error reason => simp [ArrayLike.items] at h
      | ok encoded =>
          obtain ⟨value, bytes, hencodes⟩ := encoded
          cases value <;> simp
  | sequence output => cases output <;> simp [ArrayLike.items] at h ⊢

end ArrayLike

/-! ## Tuples -/

theorem isArrayMarker_toNat (marker : UInt8) : isArrayMarker (some marker) = true ↔
    0x90 ≤ marker.toNat ∧ marker.toNat < 0xa0 ∨ 0xdc ≤ marker.toNat ∧ marker.toNat < 0xde := by
  simp only [isArrayMarker, decide_eq_true_eq, UInt8.le_iff_toNat_le, ← UInt8.toNat_inj]
  change 0x90 ≤ marker.toNat ∧ marker.toNat ≤ 0x9f ∨ marker.toNat = 0xdc ∨ marker.toNat = 0xdd ↔ _
  omega

theorem isArrayMarker_scalar {value : Value} {head : Bytes} (h : Wire.Scalar value head) :
    isArrayMarker head.head? = false := by
  have hnarrow {n : Nat} (hlt : n < 256) (hout : n < 0x90 ∨ 0xa0 ≤ n ∧ n < 0xdc ∨ 0xde ≤ n) :
      isArrayMarker (some (UInt8.ofNat n)) = false := by
    rw [← Bool.not_eq_true, isArrayMarker_toNat, Wire.toNat_ofNat_of_lt hlt]
    omega
  cases h with
  | nil | f32 | f64 => rfl
  | boolean value => cases value <;> rfl
  | posFixint h | negFixint _ h | fixstr h => exact hnarrow (by omega) (by omega)
  | uint hmarker | int hmarker | str hmarker | bin hmarker | fixext hmarker | ext hmarker =>
      simp only [List.mem_cons, Prod.mk.injEq, List.not_mem_nil, or_false] at hmarker
      casesm* _ ∨ _ <;> simp_all [isArrayMarker]

theorem isArrayMarker_arrayHead {count : Nat} {head : Bytes} (h : ArrayHead count head) :
    isArrayMarker head.head? = true := by
  cases h with
  | fix h =>
      rw [List.head?_cons, isArrayMarker_toNat, Wire.toNat_ofNat_of_lt (by omega)]
      omega
  | wide hmarker =>
      simp only [List.mem_cons, Prod.mk.injEq, List.not_mem_nil, or_false] at hmarker
      obtain ⟨-, rfl⟩ | ⟨-, rfl⟩ := hmarker <;> rfl

theorem isArrayMarker_mapHead {count : Nat} {head : Bytes} (h : MapHead count head) :
    isArrayMarker head.head? = false := by
  cases h with
  | fix h =>
      rw [List.head?_cons, ← Bool.not_eq_true, isArrayMarker_toNat,
        Wire.toNat_ofNat_of_lt (by omega)]
      omega
  | wide hmarker =>
      simp only [List.mem_cons, Prod.mk.injEq, List.not_mem_nil, or_false] at hmarker
      obtain ⟨-, rfl⟩ | ⟨-, rfl⟩ := hmarker <;> rfl

theorem isArrayMarker_iff {value : Value} {bytes : Bytes} (h : Encodes [value] bytes) :
    isArrayMarker bytes.head? = true ↔ ∃ items, value = .array items := by
  have hhead {head tail : Bytes} (hpos : 0 < head.length) :
      isArrayMarker (head ++ tail).head? = isArrayMarker head.head? := by
    rw [List.head?_append_of_ne_nil _ (List.ne_nil_of_length_pos hpos)]
  cases h with
  | scalar h =>
      rw [hhead h.length_pos, isArrayMarker_scalar h]
      cases h <;> simp
  | array h =>
      rw [List.append_assoc, hhead h.length_pos, isArrayMarker_arrayHead h]
      exact ⟨fun _ => ⟨_, rfl⟩, fun _ => rfl⟩
  | map h =>
      rw [List.append_assoc, hhead h.length_pos, isArrayMarker_mapHead h]
      simp

end Tarant.Building
