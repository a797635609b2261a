import Tarant.Decimal.Value

/-!
# The payload of a decimal

An `MP_DECIMAL` payload is the scale as a MessagePack integer and then packed BCD:
one digit in each half of a byte, with the sign in the last half.  The scale is read
and written by `rmp`.
-/

namespace Tarant

open Foundation
open Checked (Fault)

/-- What the decimal code uses of `rmp`: `write_sint`, and `read_int` with the bytes it leaves. -/
structure Sint where
  writeSint : Int → Bytes
  readInt : Bytes → Option (Int × Bytes)

def Sint.Inverse (rmp : Sint) : Prop :=
  ∀ n, InI64 n → ∀ rest, rmp.readInt (rmp.writeSint n ++ rest) = some (n, rest)

namespace Decimal

/-! ## The functions -/

def packPair : List Nat → Except Fault UInt8
  | hi :: lo :: _ => .ok (UInt8.ofNat hi <<< 4 ||| UInt8.ofNat lo)
  | _ => .error .index

/-- The digits and the sign, with a zero in front where they are odd in number. -/
def nibblesOf (d : Decimal) : List Nat :=
  (if d.digits.length % 2 = 0 then [0] else []) ++ d.digits ++ [if d.negative then 0x0d else 0x0c]

def toPayload (rmp : Sint) (d : Decimal) : Except Fault Bytes := do
  let packed ← (chunksOfTwo d.nibblesOf).mapM packPair
  return rmp.writeSint d.scale ++ packed

def halves (bytes : Bytes) : List Nat :=
  bytes.flatMap fun (byte : UInt8) => [(byte >>> 4).toNat, (byte &&& 0x0f).toNat]

def signOf : Nat → Option Bool
  | 0x0a | 0x0c | 0x0e | 0x0f => some false
  | 0x0b | 0x0d => some true
  | _ => none

def fromPayload (rmp : Sint) (payload : Bytes) : Except DecimalError Decimal :=
  match rmp.readInt payload with
  | none => .error ⟨"payload does not start with a scale"⟩
  | some (scale, cursor) =>
      match tryI32 scale with
      | none => .error ⟨"scale out of range"⟩
      | some scale =>
          match (halves cursor).getLast?.bind signOf with
          | none => .error ⟨"payload has no sign nibble"⟩
          | some negative =>
              if h : (halves cursor).dropLast.any (9 < ·) then
                .error ⟨"payload has a non-decimal digit"⟩
              else assemble negative scale (halves cursor).dropLast
                (by simpa [Nat.lt_succ_iff] using h)

/-! ## Packing -/

theorem pack_halves {nibbles : List Nat} (heven : nibbles.length % 2 = 0)
    (hlt : ∀ x ∈ nibbles, x < 16) :
    ∃ packed, (chunksOfTwo nibbles).mapM packPair = .ok packed ∧ halves packed = nibbles := by
  fun_induction chunksOfTwo nibbles with
  | case1 => exact ⟨[], rfl, rfl⟩
  | case2 => simp at heven
  | case3 hi lo rest ih =>
      obtain ⟨hhi, hlo, hrest⟩ : hi < 16 ∧ lo < 16 ∧ ∀ x ∈ rest, x < 16 := by simpa using hlt
      simp only [List.length_cons] at heven
      obtain ⟨packed, hpacked, hhalves⟩ := ih (by omega) hrest
      refine ⟨UInt8.ofNat (16 * hi + lo) :: packed, ?_, ?_⟩
      · rw [List.mapM_cons, packPair, join_nibbles hi hhi lo hlo, hpacked]
        rfl
      · obtain ⟨hhigh, hlow⟩ := split_nibbles hi hhi lo hlo
        rw [halves, List.flatMap_cons, ← halves, hhalves, hhigh, hlow]
        rfl

theorem nibblesOf_even (d : Decimal) : d.nibblesOf.length % 2 = 0 := by
  unfold nibblesOf
  split <;> simp <;> omega

theorem nibblesOf_lt (d : Decimal) : ∀ x ∈ d.nibblesOf, x < 16 := by
  intro x hmem
  simp only [nibblesOf, List.mem_append, List.mem_singleton] at hmem
  obtain (hpad | hdigit) | rfl := hmem
  · split at hpad
    · simp [List.mem_singleton.mp hpad]
    · cases hpad
  · exact (d.digit_lt x hdigit).trans (by decide)
  · split <;> decide

/-! ## What is accepted -/

def Packs (rmp : Sint) (payload : Bytes) (negative : Bool) (scale : I32) (digits : List Nat) :
    Prop :=
  ∃ cursor sign, rmp.readInt payload = some (scale.val, cursor) ∧ cursor ≠ [] ∧
    halves cursor = digits ++ [sign] ∧
    (if negative then sign = 0xb ∨ sign = 0xd
      else sign = 0xa ∨ sign = 0xc ∨ sign = 0xe ∨ sign = 0xf) ∧
    ∀ d ∈ digits, d ≤ 9

theorem signOf_eq_some {sign : Nat} {negative : Bool} :
    signOf sign = some negative ↔
      if negative then sign = 0xb ∨ sign = 0xd
      else sign = 0xa ∨ sign = 0xc ∨ sign = 0xe ∨ sign = 0xf := by
  unfold signOf
  split <;> cases negative <;> simp_all

theorem Packs.fromPayload {rmp : Sint} {payload : Bytes} {negative : Bool} {scale : I32}
    {digits : List Nat} (h : Packs rmp payload negative scale digits) :
    ∃ hdigits, Decimal.fromPayload rmp payload = assemble negative scale digits hdigits := by
  obtain ⟨cursor, sign, hread, -, hhalves, hsign, hle⟩ := h
  refine ⟨fun d hmem => Nat.lt_succ_of_le (hle d hmem), ?_⟩
  have hany : ¬ digits.any (9 < ·) := by simpa using hle
  simp only [Decimal.fromPayload, hread, tryI32_of_inI32 scale.property, hhalves,
    List.getLast?_concat, Option.bind_some, signOf_eq_some.mpr hsign, List.dropLast_concat,
    dif_neg hany]

theorem packs_of_fromPayload {rmp : Sint} {payload : Bytes} {d : Decimal}
    (h : fromPayload rmp payload = .ok d) :
    ∃ negative scale digits, Packs rmp payload negative scale digits ∧
      (digits.dropWhile (· == 0)).length ≤ maxDigits := by
  unfold fromPayload at h
  cases hread : rmp.readInt payload with
  | none => simp [hread] at h
  | some read =>
      obtain ⟨n, cursor⟩ := read
      cases hscale : tryI32 n with
      | none => simp [hread, hscale] at h
      | some scale =>
          obtain rfl := tryI32_eq_some.mp hscale
          simp only [hread, hscale] at h
          cases hlast : (halves cursor).getLast? with
          | none => simp [hlast] at h
          | some sign =>
              cases hsign : signOf sign with
              | none => simp [hlast, hsign] at h
              | some negative =>
                  simp only [hlast, Option.bind_some, hsign] at h
                  split at h
                  next => cases h
                  next hany =>
                      refine ⟨negative, scale, (halves cursor).dropLast,
                        ⟨cursor, sign, hread, ?_, ?_, signOf_eq_some.mp hsign, ?_⟩,
                        (assemble_ok_iff _).mp ⟨d, h⟩⟩
                      · rintro rfl
                        cases hlast
                      · exact (List.dropLast_append_getLast? sign hlast).symm
                      · simpa using hany

theorem packs_toPayload {rmp : Sint} (hrmp : rmp.Inverse) (d : Decimal) :
    ∃ payload count, toPayload rmp d = .ok payload ∧
      Packs rmp payload d.negative d.scale (List.replicate count 0 ++ d.digits) := by
  obtain ⟨packed, hpacked, hhalves⟩ := pack_halves d.nibblesOf_even d.nibblesOf_lt
  have hscale : InI64 d.scale := by
    have := d.scale.property
    unfold InI32 at this
    unfold InI64
    omega
  have hzeros : ∃ count, (if d.digits.length % 2 = 0 then [0] else []) = List.replicate count 0 := by
    split
    · exact ⟨1, rfl⟩
    · exact ⟨0, rfl⟩
  obtain ⟨count, hcount⟩ := hzeros
  refine ⟨rmp.writeSint d.scale ++ packed, count, by rw [toPayload, hpacked]; rfl,
    packed, _, hrmp _ hscale packed, ?_, hhalves.trans (by rw [nibblesOf, hcount]), ?_, ?_⟩
  · rintro rfl
    have hlength := congrArg List.length hhalves
    simp [nibblesOf, halves] at hlength
  · cases d.negative <;> simp
  · intro x hmem
    obtain hmem | hmem := List.mem_append.mp hmem
    · simp [(List.mem_replicate.mp hmem).2]
    · exact Nat.le_of_lt_succ (d.digit_lt x hmem)

theorem fromPayload_toPayload {rmp : Sint} (hrmp : rmp.Inverse) (d : Decimal) :
    ∃ payload, toPayload rmp d = .ok payload ∧ fromPayload rmp payload = .ok d := by
  obtain ⟨payload, count, hto, hpacks⟩ := packs_toPayload hrmp d
  obtain ⟨hdigits, hfrom⟩ := hpacks.fromPayload
  exact ⟨payload, hto, by rw [hfrom, assemble_self d count hdigits]⟩

/--
Payloads round-trip.  Accepted are the scales within `i32` followed by packed digits,
at most 38 of them after leading zeros, and a sign; the decimal denotes the signed
digits at that scale and survives being encoded again.
-/
theorem payload_round_trip {rmp : Sint} (hrmp : rmp.Inverse) :
    (∀ d, ∃ payload, toPayload rmp d = .ok payload ∧ fromPayload rmp payload = .ok d) ∧
    ∀ payload,
      ((∃ d, fromPayload rmp payload = .ok d) ↔
        ∃ negative scale digits, Packs rmp payload negative scale digits ∧
          (digits.dropWhile (· == 0)).length ≤ maxDigits) ∧
      ∀ d, fromPayload rmp payload = .ok d →
        (∀ negative scale digits, Packs rmp payload negative scale digits →
          d.value = (if negative then -1 else 1) * (positional 10 digits : ℚ) *
            (10 : ℚ) ^ (-scale.val)) ∧
        ∃ again, toPayload rmp d = .ok again ∧ fromPayload rmp again = .ok d := by
  refine ⟨fromPayload_toPayload hrmp, fun payload => ⟨⟨?_, ?_⟩, fun d h => ⟨?_, ?_⟩⟩⟩
  · rintro ⟨d, h⟩
    exact packs_of_fromPayload h
  · rintro ⟨negative, scale, digits, hpacks, hlength⟩
    obtain ⟨hdigits, hfrom⟩ := hpacks.fromPayload
    rw [hfrom]
    exact (assemble_ok_iff hdigits).mpr hlength
  · intro negative scale digits hpacks
    obtain ⟨hdigits, hfrom⟩ := hpacks.fromPayload
    rw [value_of_assemble (hfrom.symm.trans h), scaled]
    cases negative <;> simp
  · exact fromPayload_toPayload hrmp d

def sampleSint : Sint where
  writeSint n :=
    if 0 ≤ n ∧ n < 0x80 then [UInt8.ofNat n.toNat]
    else 0xd3 :: Codec.beBytes 8 (n % 2 ^ 64).toNat
  readInt
    | [] => none
    | marker :: rest =>
        if marker < 0x80 then some (marker.toNat, rest)
        else if marker = 0xd3 ∧ 8 ≤ rest.length then
          let n := Codec.fromBeBytes (rest.take 8)
          some (if n < 2 ^ 63 then (n : Int) else (n : Int) - 2 ^ 64, rest.drop 8)
        else none

theorem sampleSint_inverse : sampleSint.Inverse := by
  intro n hn rest
  unfold InI64 at hn
  by_cases hsmall : 0 ≤ n ∧ n < 0x80
  · have hbyte : (UInt8.ofNat n.toNat).toNat = n.toNat :=
      UInt8.toNat_ofNat_of_lt' (by unfold UInt8.size; omega)
    have hmarker : UInt8.ofNat n.toNat < 0x80 := by
      rw [UInt8.lt_iff_toNat_lt, hbyte]
      change n.toNat < 128
      omega
    simp only [sampleSint, if_pos hsmall, List.cons_append, List.nil_append, if_pos hmarker, hbyte,
      Int.toNat_of_nonneg hsmall.1]
  · have hlength := Codec.beBytes_length 8 (n % 2 ^ 64).toNat
    have hlt : (n % 2 ^ 64).toNat < 256 ^ 8 := by omega
    simp only [sampleSint, if_neg hsmall, List.cons_append]
    rw [if_neg (by decide), if_pos (by simp), List.take_left' hlength,
      List.drop_left' hlength, Codec.fromBeBytes_beBytes hlt]
    split <;> congr 2 <;> omega

theorem payload_round_trip_sample :
    ∃ d, fromPayload sampleSint [0x02, 0x01, 0x23, 0x4d] = .ok d ∧ d.value = -1234 / 100 := by
  have hpacks : Packs sampleSint [0x02, 0x01, 0x23, 0x4d] true ⟨2, by decide⟩ [0, 1, 2, 3, 4] :=
    ⟨[0x01, 0x23, 0x4d], 0xd, rfl, by decide, rfl, by decide, by decide⟩
  obtain ⟨haccepted, hdenotes⟩ :=
    (payload_round_trip sampleSint_inverse).2 [0x02, 0x01, 0x23, 0x4d]
  obtain ⟨d, hd⟩ := haccepted.mpr ⟨_, _, _, hpacks, by decide⟩
  refine ⟨d, hd, ?_⟩
  rw [(hdenotes d hd).1 _ _ _ hpacks]
  norm_num [positional]

end Decimal

end Tarant
