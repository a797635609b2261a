import Tarant.Options

/-!
# What the decoder of percent-escapes accepts

The two digits of an escape are read as a number, and a number may begin with a sign.  An
input is decoded when it has a reading as escapes and other bytes, escapes such as `%+5`
among them.
-/

namespace Tarant.Options

open Foundation
open Uuid (nibble IsHex hexValue hexValue_lt nibble_hex nibble_not_hex)

/-! ## Strings and their bytes -/

theorem fromUTF8_asBytes (s : String) : String.fromUTF8? ⟨(asBytes s).toArray⟩ = some s := by
  have hbytes : (⟨(asBytes s).toArray⟩ : ByteArray) = s.toByteArray := by simp [asBytes]
  rw [hbytes, String.fromUTF8?, dif_pos s.isValidUTF8]
  rfl

theorem asBytes_of_fromUTF8 {bytes : Bytes} {s : String}
    (h : String.fromUTF8? ⟨bytes.toArray⟩ = some s) : asBytes s = bytes := by
  unfold String.fromUTF8? at h
  split at h
  · rw [← Option.some.inj h]
    simp [asBytes, String.fromUTF8]
  · cases h

/-! ## One escape -/

def pairValue (hi lo : UInt8) : Option UInt8 :=
  if IsHex hi ∧ IsHex lo then some (UInt8.ofNat (16 * hexValue hi + hexValue lo))
  else if hi = plus ∧ IsHex lo then some (UInt8.ofNat (hexValue lo))
  else none

theorem plus_not_hex : ¬ IsHex plus := by decide

theorem percent_not_hex : ¬ IsHex percent := by decide

theorem ascii_of_hex {c : UInt8} (h : IsHex c) : c < 0x80 := by
  simp only [IsHex, UInt8.le_iff_toNat_le, UInt8.reduceToNat] at h
  rw [UInt8.lt_iff_toNat_lt]
  change _ < 128
  omega

theorem pushDigit_hex {value : Nat} {c : UInt8} (hvalue : value < 16) (h : IsHex c) :
    pushDigit value c = some (value * 16 + hexValue c) := by
  have hdigit : (UInt8.ofNat (hexValue c)).toNat = hexValue c :=
    UInt8.toNat_ofNat_of_lt' (Nat.lt_trans (hexValue_lt h) (by decide))
  have hlt := hexValue_lt h
  rw [pushDigit, nibble_hex h]
  change (if value * 16 + (UInt8.ofNat (hexValue c)).toNat < 256 then _ else _) = _
  rw [hdigit, if_pos (by omega)]

theorem pushDigit_not_hex {value : Nat} {c : UInt8} (h : ¬ IsHex c) : pushDigit value c = none := by
  rw [pushDigit, nibble_not_hex h]
  rfl

theorem fromStrRadix_pair (hi lo : UInt8) : fromStrRadix [hi, lo] = pairValue hi lo := by
  by_cases hplus : hi = plus
  · subst hplus
    rw [pairValue, if_neg fun h => plus_not_hex h.1]
    change ([lo].foldlM pushDigit 0 >>= _) = _
    by_cases hlo : IsHex lo
    · rw [if_pos ⟨rfl, hlo⟩, List.foldlM_cons, pushDigit_hex (by decide) hlo]
      simp
    · rw [if_neg fun h => hlo h.2, List.foldlM_cons, pushDigit_not_hex hlo]
      rfl
  · rw [fromStrRadix, unsignedDigits, if_neg hplus]
    change ([hi, lo].foldlM pushDigit 0 >>= _) = _
    rw [List.foldlM_cons, pairValue]
    by_cases hhi : IsHex hi
    · rw [pushDigit_hex (by decide) hhi]
      by_cases hlo : IsHex lo
      · have hlt := hexValue_lt hhi
        rw [if_pos ⟨hhi, hlo⟩]
        change ([lo].foldlM pushDigit _ >>= _) = _
        rw [List.foldlM_cons, pushDigit_hex (by omega) hlo]
        simp [Nat.mul_comm]
      · rw [if_neg fun h => hlo h.2, if_neg fun h => hplus h.1]
        change ([lo].foldlM pushDigit _ >>= _) = _
        rw [List.foldlM_cons, pushDigit_not_hex hlo]
        rfl
    · rw [pushDigit_not_hex hhi, if_neg fun h => hhi h.1, if_neg fun h => hplus h.1]
      rfl
    · simp

theorem fromUTF8_pair {hi lo value : UInt8} (h : pairValue hi lo = some value) :
    ∃ s, String.fromUTF8? ⟨[hi, lo].toArray⟩ = some s := by
  have hascii : ∀ c ∈ [hi, lo], c < 0x80 := by
    unfold pairValue at h
    split at h
    next hhex => simpa using And.intro (ascii_of_hex hhex.1) (ascii_of_hex hhex.2)
    next =>
        split at h
        next hsign =>
            have hplus : plus < 0x80 := by decide
            simpa [hsign.1, hplus] using ascii_of_hex hsign.2
        next => cases h
  have hbytes : asBytes (asciiString [hi, lo]) = [hi, lo] := asciiString_bytes hascii
  exact ⟨_, hbytes ▸ fromUTF8_asBytes (asciiString [hi, lo])⟩

theorem escapeAt_pair {bytes : Bytes} {i : Nat} {hi lo : UInt8} {rest : Bytes}
    (h : bytes.drop (i + 1) = hi :: lo :: rest) : escapeAt bytes i = pairValue hi lo := by
  have hlength := congrArg List.length h
  rw [List.length_drop, List.length_cons, List.length_cons] at hlength
  have hrange : getRange bytes (i + 1) (i + 3) = some [hi, lo] := by
    rw [getRange, if_pos (by omega), h, show i + 3 - (i + 1) = 2 by omega]
    rfl
  rw [escapeAt, hrange]
  change (String.fromUTF8? ⟨[hi, lo].toArray⟩ >>= _) = _
  cases hs : String.fromUTF8? ⟨[hi, lo].toArray⟩ with
  | some s =>
      change fromStrRadix (asBytes s) = _
      rw [asBytes_of_fromUTF8 hs, fromStrRadix_pair]
  | none =>
      cases hvalue : pairValue hi lo with
      | none => rfl
      | some value =>
          obtain ⟨s, hs'⟩ := fromUTF8_pair hvalue
          rw [hs] at hs'
          cases hs'

theorem escapeAt_short {bytes : Bytes} {i : Nat} (h : (bytes.drop (i + 1)).length < 2) :
    escapeAt bytes i = none := by
  rw [List.length_drop] at h
  rw [escapeAt, getRange, if_neg (by omega)]
  rfl

/-! ## Readings -/

/-- The input read as escapes and other bytes, with so many signs among the escapes. -/
inductive Reading : Bytes → Bytes → Nat → Prop
  | done : Reading [] [] 0
  | plain {c : UInt8} {rest out : Bytes} {signs : Nat} (hc : c ≠ percent)
      (hrest : Reading rest out signs) : Reading (c :: rest) (c :: out) signs
  | escape {hi lo : UInt8} {rest out : Bytes} {signs : Nat} (hhi : IsHex hi) (hlo : IsHex lo)
      (hrest : Reading rest out signs) :
      Reading (percent :: hi :: lo :: rest)
        (UInt8.ofNat (16 * hexValue hi + hexValue lo) :: out) signs
  | signed {lo : UInt8} {rest out : Bytes} {signs : Nat} (hlo : IsHex lo)
      (hrest : Reading rest out signs) :
      Reading (percent :: plus :: lo :: rest) (UInt8.ofNat (hexValue lo) :: out) (signs + 1)

theorem Reading.of_pair {hi lo value : UInt8} {rest out : Bytes} {signs : Nat}
    (h : pairValue hi lo = some value) (hrest : Reading rest out signs) :
    ∃ signs', Reading (percent :: hi :: lo :: rest) (value :: out) signs' := by
  unfold pairValue at h
  split at h
  next hhex =>
      obtain rfl := Option.some.inj h
      exact ⟨signs, .escape hhex.1 hhex.2 hrest⟩
  next =>
      split at h
      next hsign =>
          obtain ⟨rfl, hlo⟩ := hsign
          obtain rfl := Option.some.inj h
          exact ⟨signs + 1, .signed hlo hrest⟩
      next => cases h

theorem Reading.cons {c : UInt8} {rest out : Bytes} {signs : Nat}
    (h : Reading (c :: rest) out signs) :
    (c ≠ percent ∧ ∃ out', out = c :: out' ∧ Reading rest out' signs) ∨
      (c = percent ∧ ∃ hi lo rest' value out' signs', rest = hi :: lo :: rest' ∧
        pairValue hi lo = some value ∧ out = value :: out' ∧ Reading rest' out' signs') := by
  cases h with
  | plain hc hrest => exact .inl ⟨hc, _, rfl, hrest⟩
  | escape hhi hlo hrest =>
      exact .inr ⟨rfl, _, _, _, _, _, _, rfl, if_pos ⟨hhi, hlo⟩, rfl, hrest⟩
  | signed hlo hrest =>
      refine .inr ⟨rfl, _, _, _, _, _, _, rfl, ?_, rfl, hrest⟩
      rw [pairValue, if_neg fun h => plus_not_hex h.1, if_pos ⟨rfl, hlo⟩]

theorem Reading.unique {bytes out other : Bytes} {signs signs' : Nat}
    (h : Reading bytes out signs) (h' : Reading bytes other signs') :
    out = other ∧ signs = signs' := by
  induction h generalizing other signs' with
  | done =>
      cases h'
      exact ⟨rfl, rfl⟩
  | plain hc hrest ih =>
      cases h' with
      | plain hc' hrest' =>
          obtain ⟨rfl, rfl⟩ := ih hrest'
          exact ⟨rfl, rfl⟩
      | escape => exact absurd rfl hc
      | signed => exact absurd rfl hc
  | escape hhi hlo hrest ih =>
      cases h' with
      | plain hc' => exact absurd rfl hc'
      | escape hhi' hlo' hrest' =>
          obtain ⟨rfl, rfl⟩ := ih hrest'
          exact ⟨rfl, rfl⟩
      | signed => exact absurd hhi plus_not_hex
  | signed hlo hrest ih =>
      cases h' with
      | plain hc' => exact absurd rfl hc'
      | escape hhi' => exact absurd hhi' plus_not_hex
      | signed hlo' hrest' =>
          obtain ⟨rfl, rfl⟩ := ih hrest'
          exact ⟨rfl, rfl⟩

/-! ## The decoder -/

theorem escapeAt_eq_some {bytes : Bytes} {i : Nat} {value : UInt8}
    (h : escapeAt bytes i = some value) :
    ∃ hi lo, bytes.drop (i + 1) = hi :: lo :: bytes.drop (i + 3) ∧ pairValue hi lo = some value := by
  have hdrop : bytes.drop (i + 3) = (bytes.drop (i + 1)).drop 2 := by rw [List.drop_drop]
  rcases hrest : bytes.drop (i + 1) with - | ⟨hi, - | ⟨lo, rest⟩⟩
  · rw [escapeAt_short (by simp [hrest])] at h
    cases h
  · rw [escapeAt_short (by simp [hrest])] at h
    cases h
  · rw [escapeAt_pair hrest] at h
    exact ⟨hi, lo, by rw [hdrop, hrest]; rfl, h⟩

theorem decodeLoop_ok_iff {input : String} {bytes out result : Bytes} {i : Nat} :
    decodeLoop input bytes i out = .ok result ↔
      ∃ decoded signs, Reading (bytes.drop i) decoded signs ∧ result = out ++ decoded := by
  fun_induction decodeLoop input bytes i out with
  | case1 i out hlt hpercent value hvalue ih =>
      obtain ⟨hi, lo, hpair, hvalue'⟩ := escapeAt_eq_some hvalue
      rw [ih, List.drop_eq_getElem_cons hlt, hpercent, hpair]
      constructor
      · rintro ⟨decoded, signs, hrest, rfl⟩
        obtain ⟨signs', hreading⟩ := Reading.of_pair hvalue' hrest
        exact ⟨_, signs', hreading, by simp⟩
      · rintro ⟨decoded, signs, hreading, rfl⟩
        obtain ⟨hne, -⟩ | ⟨-, _, _, _, value', decoded', signs', heq, hpair', rfl, hrest⟩ :=
          hreading.cons
        · exact absurd rfl hne
        · obtain ⟨rfl, rfl, rfl⟩ : hi = _ ∧ lo = _ ∧ _ = _ := by simpa using heq
          obtain rfl : value = value' := Option.some.inj (hvalue'.symm.trans hpair')
          exact ⟨decoded', signs', hrest, by simp⟩
  | case2 i out hlt hpercent hvalue =>
      refine iff_of_false (by simp) ?_
      rintro ⟨decoded, signs, hreading, -⟩
      rw [List.drop_eq_getElem_cons hlt, hpercent] at hreading
      obtain ⟨hne, -⟩ | ⟨-, hi, lo, rest, value, _, _, heq, hpair, -⟩ := hreading.cons
      · exact absurd rfl hne
      · rw [escapeAt_pair heq, hpair] at hvalue
        cases hvalue
  | case3 i out hlt hplain ih =>
      rw [ih, List.drop_eq_getElem_cons hlt]
      constructor
      · rintro ⟨decoded, signs, hrest, rfl⟩
        exact ⟨_, signs, .plain hplain hrest, by simp⟩
      · rintro ⟨decoded, signs, hreading, rfl⟩
        obtain ⟨-, decoded', rfl, hrest⟩ | ⟨hpercent, -⟩ := hreading.cons
        · exact ⟨decoded', signs, hrest, by simp⟩
        · exact absurd hpercent hplain
  | case4 i out hle =>
      rw [List.drop_eq_nil_of_le (by omega)]
      constructor
      · rintro h
        exact ⟨[], 0, .done, by simpa using (Except.ok.inj h).symm⟩
      · rintro ⟨decoded, signs, hreading, rfl⟩
        cases hreading
        rw [List.append_nil]

theorem decodeLoop_error {input : String} {bytes out : Bytes} {i : Nat} {error : Error}
    (h : decodeLoop input bytes i out = .error error) : error = badEscape input := by
  fun_induction decodeLoop input bytes i out with
  | case1 i out hlt hpercent value hvalue ih => exact ih h
  | case2 => exact (Except.error.inj h).symm
  | case3 i out hlt hplain ih => exact ih h
  | case4 => cases h

theorem decodedText_ok_iff {input text : String} {out : Bytes} :
    decodedText input out = .ok text ↔ out = asBytes text := by
  unfold decodedText
  constructor
  · intro h
    split at h
    next text' htext => rw [← Except.ok.inj h, asBytes_of_fromUTF8 htext]
    next => cases h
  · rintro rfl
    rw [fromUTF8_asBytes]

theorem percentDecode_ok_iff {input text : String} :
    percentDecode input = .ok text ↔ ∃ signs, Reading (asBytes input) (asBytes text) signs := by
  unfold percentDecode
  cases hloop : decodeLoop input (asBytes input) 0 [] with
  | ok out =>
      obtain ⟨decoded, signs, hreading, rfl⟩ := decodeLoop_ok_iff.mp hloop
      rw [List.drop_zero] at hreading
      refine decodedText_ok_iff.trans ?_
      constructor
      · intro htext
        exact ⟨signs, htext ▸ hreading⟩
      · rintro ⟨signs', hreading'⟩
        exact (hreading.unique hreading').1
  | error error =>
      refine iff_of_false (by simp [bind, Except.bind]) ?_
      rintro ⟨signs, hreading⟩
      have hok : decodeLoop input (asBytes input) 0 [] = .ok (asBytes text) :=
        decodeLoop_ok_iff.mpr ⟨_, signs, by rwa [List.drop_zero], rfl⟩
      rw [hloop] at hok
      cases hok

theorem percentDecode_error {input : String} {error : Error}
    (h : percentDecode input = .error error) : ∃ message, error = .url message := by
  unfold percentDecode at h
  cases hloop : decodeLoop input (asBytes input) 0 [] with
  | ok out =>
      rw [hloop] at h
      change decodedText input out = .error error at h
      unfold decodedText at h
      split at h
      next => cases h
      next => exact ⟨_, (Except.error.inj h).symm⟩
  | error error' =>
      rw [hloop] at h
      obtain rfl : error' = error := Except.error.inj h
      exact ⟨_, decodeLoop_error hloop⟩

/-! ## Malformed escapes -/

def WellEscaped (bytes : Bytes) : Prop :=
  ∀ i, bytes[i]? = some percent →
    ∃ hi lo, bytes[i + 1]? = some hi ∧ bytes[i + 2]? = some lo ∧ IsHex hi ∧ IsHex lo

/--
The decoder accepts an input only if each `%` has two digits behind it, and returns the input
with the byte of each escape in its place.  It refuses any other input.
-/
def Strict (input : String) : Prop :=
  (∀ text, percentDecode input = .ok text →
    WellEscaped (asBytes input) ∧ Reading (asBytes input) (asBytes text) 0) ∧
    (¬ WellEscaped (asBytes input) → ∃ message, percentDecode input = .error (.url message))

theorem Reading.wellEscaped {bytes out : Bytes} (h : Reading bytes out 0) : WellEscaped bytes := by
  generalize hsigns : 0 = signs at h
  induction h with
  | done => simp [WellEscaped]
  | @plain c rest out signs hc hrest ih =>
      intro i hi
      cases i with
      | zero => exact absurd (Option.some.inj hi) hc
      | succ i => exact ih hsigns i hi
  | @escape hi lo rest out signs hhi hlo hrest ih =>
      intro i hpercent
      rcases i with - | - | - | i
      · exact ⟨hi, lo, rfl, rfl, hhi, hlo⟩
      · exact absurd (Option.some.inj hpercent ▸ hhi) percent_not_hex
      · exact absurd (Option.some.inj hpercent ▸ hlo) percent_not_hex
      · exact ih hsigns i hpercent
  | signed => cases hsigns

/-- The input reads as text, with a sign in place of the first digit of an escape. -/
def HasSign (input : String) : Prop :=
  ∃ text signs, Reading (asBytes input) (asBytes text) signs ∧ 0 < signs

theorem Strict.no_sign {input : String} (h : Strict input) : ¬ HasSign input := by
  rintro ⟨text, signs, hreading, hpos⟩
  have hstrict := (h.1 text (percentDecode_ok_iff.mpr ⟨signs, hreading⟩)).2
  rw [(hstrict.unique hreading).2] at hpos
  exact lt_irrefl _ hpos

/-- The decoder keeps to the digits unless there is a sign in an escape of the input. -/
theorem strict_iff (input : String) : Strict input ↔ ¬ HasSign input := by
  refine ⟨Strict.no_sign, fun hnone => ?_⟩
  have hok : ∀ text, percentDecode input = .ok text →
      WellEscaped (asBytes input) ∧ Reading (asBytes input) (asBytes text) 0 := by
    intro text htext
    obtain ⟨signs, hreading⟩ := percentDecode_ok_iff.mp htext
    obtain rfl : signs = 0 := by
      by_contra hne
      exact hnone ⟨text, signs, hreading, Nat.pos_of_ne_zero hne⟩
    exact ⟨hreading.wellEscaped, hreading⟩
  refine ⟨hok, fun hbad => ?_⟩
  cases hdecoded : percentDecode input with
  | ok text => exact absurd (hok text hdecoded).1 hbad
  | error error =>
      obtain ⟨message, rfl⟩ := percentDecode_error hdecoded
      exact ⟨message, rfl⟩

/-- `%+5` is read as the byte 5. -/
theorem sign_is_accepted : percentDecode "%+5" = .ok "\x05" ∧ ¬ ∀ input, Strict input := by
  have hreading : Reading (asBytes "%+5") (asBytes "\x05") 1 := .signed (by decide) .done
  refine ⟨percentDecode_ok_iff.mpr ⟨1, hreading⟩, fun hall => ?_⟩
  exact (hall "%+5").no_sign ⟨"\x05", 1, hreading, by decide⟩

end Tarant.Options
