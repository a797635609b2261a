import Mathlib

/-!
# Cutting UTF-8 at ASCII bytes

In the UTF-8 encoding of a text, a byte below `0x80` is a character of its own.  The
places before and after it are boundaries between characters.
-/

namespace Tarant.Foundation

def IsContinuation (byte : UInt8) : Prop := 0x80 ≤ byte ∧ byte < 0xc0

instance : DecidablePred IsContinuation := fun _ => inferInstanceAs (Decidable (_ ∧ _))

def isCharBoundary (text : List UInt8) (pos : Nat) : Bool :=
  pos == 0 || match text[pos]? with
    | some byte => !decide (IsContinuation byte)
    | none => pos == text.length

/-- After a byte below `0x80`, a character starts. -/
def CutSafe (text : List UInt8) : Prop :=
  ∀ (pos : Nat) (byte next : UInt8), text[pos]? = some byte → byte < 0x80 →
    text[pos + 1]? = some next → ¬ IsContinuation next

theorem not_continuation_of_ascii {byte : UInt8} (h : byte < 0x80) : ¬ IsContinuation byte :=
  fun hcontinuation => absurd hcontinuation.1 (by
    simp only [UInt8.lt_iff_toNat_lt, UInt8.le_iff_toNat_le] at *
    omega)

theorem boundary_at_ascii {text : List UInt8} {pos : Nat} {byte : UInt8}
    (hbyte : text[pos]? = some byte) (h : byte < 0x80) : isCharBoundary text pos = true := by
  rw [isCharBoundary, hbyte]
  simp [not_continuation_of_ascii h]

theorem CutSafe.boundary_after {text : List UInt8} (hsafe : CutSafe text) {pos : Nat}
    {byte : UInt8} (hbyte : text[pos]? = some byte) (h : byte < 0x80) :
    isCharBoundary text (pos + 1) = true := by
  cases hnext : text[pos + 1]? with
  | some next =>
      rw [isCharBoundary, hnext]
      simp [hsafe pos byte next hbyte h hnext]
  | none =>
      have hlt := (List.getElem?_eq_some_iff.mp hbyte).1
      have hle := List.getElem?_eq_none_iff.mp hnext
      rw [isCharBoundary, hnext]
      simp only [Bool.or_eq_true, beq_iff_eq]
      omega

theorem CutSafe.drop {text : List UInt8} (hsafe : CutSafe text) (count : Nat) :
    CutSafe (text.drop count) := by
  intro pos byte next hbyte h hnext
  rw [List.getElem?_drop] at hbyte hnext
  exact hsafe _ byte next hbyte h hnext

theorem cutSafe_of_ascii {text : List UInt8} (h : ∀ byte ∈ text, byte < 0x80) : CutSafe text :=
  fun _ _ next _ _ hnext => not_continuation_of_ascii (h next (List.mem_of_getElem? hnext))

/-! ## Encoded texts -/

set_option maxRecDepth 4000 in
theorem not_continuation_of_isFirst {byte : UInt8} (h : byte.IsUTF8FirstByte) :
    ¬ IsContinuation byte := by
  have hall : ∀ n < 256, (UInt8.ofNat n).IsUTF8FirstByte → ¬ IsContinuation (UInt8.ofNat n) := by
    decide
  simpa using hall byte.toNat byte.toNat_lt (by simpa using h)

theorem utf8EncodeChar_ascii {c : Char} {byte : UInt8} (hmem : byte ∈ String.utf8EncodeChar c)
    (h : byte < 0x80) : String.utf8EncodeChar c = [byte] := by
  have hhigh {n low : Nat} (hlow : 0x80 ≤ low) (hlt : n + low < 256) :
      byte ≠ UInt8.ofNat (n + low) := by
    rintro rfl
    rw [UInt8.lt_iff_toNat_lt, UInt8.toNat_ofNat_of_lt' hlt] at h
    change n + low < 128 at h
    omega
  simp only [String.utf8EncodeChar] at hmem ⊢
  split at hmem
  next hle =>
    rw [if_pos hle, List.mem_singleton.mp hmem]
  next =>
    exfalso
    split at hmem
    · simp only [List.mem_cons, List.not_mem_nil, or_false] at hmem
      obtain hbyte | hbyte := hmem <;> exact hhigh (by omega) (by omega) hbyte
    · split at hmem
      · simp only [List.mem_cons, List.not_mem_nil, or_false] at hmem
        obtain hbyte | hbyte | hbyte := hmem <;> exact hhigh (by omega) (by omega) hbyte
      · simp only [List.mem_cons, List.not_mem_nil, or_false] at hmem
        obtain hbyte | hbyte | hbyte | hbyte := hmem <;> exact hhigh (by omega) (by omega) hbyte

theorem head_flatMap_encode {chars : List Char} {first : UInt8}
    (h : (chars.flatMap String.utf8EncodeChar)[0]? = some first) : ¬ IsContinuation first := by
  cases chars with
  | nil => simp at h
  | cons c chars =>
      have hpos : 0 < (String.utf8EncodeChar c).length :=
        List.length_pos_of_ne_nil String.utf8EncodeChar_ne_nil
      rw [List.flatMap_cons, List.getElem?_append_left hpos, List.getElem?_eq_getElem hpos] at h
      obtain rfl := Option.some.inj h
      exact not_continuation_of_isFirst (UInt8.isUTF8FirstByte_getElem_utf8EncodeChar.mpr rfl)

theorem cutSafe_flatMap (chars : List Char) : CutSafe (chars.flatMap String.utf8EncodeChar) := by
  induction chars with
  | nil =>
      intro pos byte next hbyte
      simp at hbyte
  | cons c chars ih =>
      intro pos byte next hbyte h hnext
      rw [List.flatMap_cons] at hbyte hnext
      rcases Nat.lt_or_ge pos (String.utf8EncodeChar c).length with hlt | hge
      · rw [List.getElem?_append_left hlt] at hbyte
        have hsingle := utf8EncodeChar_ascii (List.mem_of_getElem? hbyte) h
        rw [hsingle, List.length_singleton] at hlt
        obtain rfl : pos = 0 := by omega
        rw [hsingle, List.getElem?_append_right (by simp)] at hnext
        exact head_flatMap_encode (by simpa using hnext)
      · rw [List.getElem?_append_right hge] at hbyte
        rw [List.getElem?_append_right (by omega),
          show pos + 1 - (String.utf8EncodeChar c).length =
            pos - (String.utf8EncodeChar c).length + 1 by omega] at hnext
        exact ih _ byte next hbyte h hnext

theorem cutSafe_string (s : String) : CutSafe s.toByteArray.data.toList := by
  rw [← String.utf8Encode_toList]
  simpa [List.utf8Encode] using cutSafe_flatMap s.toList

def asciiString (text : List UInt8) : String := String.ofList (text.map Char.ofUInt8)

theorem asciiString_bytes {text : List UInt8} (h : ∀ byte ∈ text, byte < 0x80) :
    (asciiString text).toByteArray.data.toList = text := by
  have hencode : ∀ byte ∈ text, String.utf8EncodeChar (Char.ofUInt8 byte) = [byte] := by
    intro byte hmem
    have hlt := h byte hmem
    rw [UInt8.lt_iff_toNat_lt] at hlt
    have hle : (Char.ofUInt8 byte).val.toNat ≤ 0x7f := by
      change byte.toNat < 128 at hlt
      have hval : (Char.ofUInt8 byte).val.toNat = byte.toNat := rfl
      omega
    rw [String.utf8EncodeChar, if_pos hle]
    exact congrArg (fun byte => [byte]) (UInt8.toNat_inj.mp (by simp [Char.ofUInt8]))
  have hflat : (text.map Char.ofUInt8).flatMap String.utf8EncodeChar = text := by
    rw [List.flatMap_map, List.flatMap_congr hencode, List.flatMap_singleton']
  rw [asciiString, String.toByteArray_ofList, List.utf8Encode, hflat]
  simp

end Tarant.Foundation
