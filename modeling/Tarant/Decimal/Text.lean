import Tarant.Decimal.Value
import Tarant.Foundation.Utf8

/-!
# Parsing a decimal

`Decimal::from_str` cuts its text at the sign, at the first `e` or `E` and at the
first point, and reads digits from what is left.  Texts are taken as their bytes; a
cut that is not between two characters panics.  The texts accepted are those of a
grammar, which `Literal` states.
-/

namespace Tarant.Decimal

open Foundation
open Checked (Fault)

/-! ## The functions -/

def point : UInt8 := 0x2e

def isMark (byte : UInt8) : Bool := byte == 0x65 || byte == 0x45

def IsDigit (byte : UInt8) : Prop := 0x30 ≤ byte ∧ byte ≤ 0x39

instance : DecidablePred IsDigit := fun _ => inferInstanceAs (Decidable (_ ∧ _))

def strFrom (s : Bytes) (start : Nat) : Except Fault Bytes :=
  if isCharBoundary s start then .ok (s.drop start) else .error .slice

def strTo (s : Bytes) (stop : Nat) : Except Fault Bytes :=
  if isCharBoundary s stop then .ok (s.take stop) else .error .slice

def digitValue (byte : UInt8) : Nat := byte.toNat - 0x30

def parseI32 (text : Bytes) : Option I32 :=
  let (negative, digits) :=
    if text.head? = some minus then (true, text.tail)
    else if text.head? = some plus then (false, text.tail)
    else (false, text)
  if digits = [] ∨ ¬ ∀ byte ∈ digits, IsDigit byte then none
  else
    let n := positional 10 (digits.map digitValue)
    tryI32 (if negative then -n else n)

def splitSign (s : Bytes) : Except Fault (Bool × Bytes) :=
  if s.head? = some minus then return (true, ← strFrom s 1)
  else if s.head? = some plus then return (false, ← strFrom s 1)
  else return (false, s)

def splitExponent (rest : Bytes) : Except Fault (Bytes × Option Bytes) :=
  match rest.findIdx? isMark with
  | some mark => return (← strTo rest mark, some (← strFrom rest (mark + 1)))
  | none => return (rest, none)

/-- `text.split_once('.')`. -/
def splitPoint (text : Bytes) : Option (Bytes × Bytes) :=
  (text.findIdx? (· == point)).map fun i => (text.take i, text.drop (i + 1))

theorem digitValue_lt {byte : UInt8} (h : IsDigit byte) : digitValue byte < 10 := by
  simp only [IsDigit, UInt8.le_iff_toNat_le, UInt8.reduceToNat] at h
  unfold digitValue
  omega

def parseDigits (text : Bytes) : Except DecimalError (List (Fin 10)) :=
  text.mapM fun byte =>
    if h : IsDigit byte then .ok ⟨digitValue byte, digitValue_lt h⟩
    else .error ⟨"not a decimal number"⟩

def exponentOf : Option Bytes → Except DecimalError I32
  | none => .ok ⟨0, inI32_zero⟩
  | some text =>
      match parseI32 text with
      | some exponent => .ok exponent
      | none => .error ⟨"bad exponent"⟩

/-- `i32::try_from(len).ok().and_then(|s| s.checked_sub(exponent))`. -/
def scaleOf (len : Nat) (exponent : I32) : Except DecimalError I32 :=
  match (lenI32 len).bind fun s => tryI32 (s - exponent) with
  | some scale => .ok scale
  | none => .error ⟨"scale out of range"⟩

theorem map_val_lt (digits : List (Fin 10)) : ∀ d ∈ digits.map Fin.val, d < 10 := by simp

def fromPieces (negative : Bool) (number : Bytes) (exponent : Option Bytes) :
    Except DecimalError Decimal := do
  let exponent ← exponentOf exponent
  let (int, frac) := (splitPoint number).getD (number, [])
  if int = [] ∧ frac = [] then .error ⟨"no digits"⟩
  else do
    let digits ← parseDigits (int ++ frac)
    let scale ← scaleOf frac.length exponent
    assemble negative scale (digits.map Fin.val) (map_val_lt digits)

/-- Accepts `[+-]digits[.digits][e[+-]digits]`. -/
def fromStr (s : Bytes) : Except Fault (Except DecimalError Decimal) := do
  let (negative, rest) ← splitSign s
  let (number, exponent) ← splitExponent rest
  return fromPieces negative number exponent

/-! ## Digits as bytes -/

def digitByte (d : Nat) : UInt8 := UInt8.ofNat (0x30 + d)

def digitsText (digits : List Nat) : Bytes := digits.map digitByte

structure Plain (byte : UInt8) : Prop where
  ascii : byte < 0x80
  minus : byte ≠ Tarant.minus
  plus : byte ≠ Tarant.plus
  point : byte ≠ Decimal.point
  mark : isMark byte = false

theorem digitByte_spec : ∀ d < 10, IsDigit (digitByte d) ∧ digitValue (digitByte d) = d := by
  decide

theorem digitByte_digitValue {byte : UInt8} (h : IsDigit byte) :
    digitByte (digitValue byte) = byte := by
  have hlt := digitValue_lt h
  simp only [IsDigit, UInt8.le_iff_toNat_le, UInt8.reduceToNat] at h
  refine UInt8.toNat_inj.mp ?_
  rw [digitByte, UInt8.toNat_ofNat_of_lt' (by unfold UInt8.size; omega), digitValue]
  omega

theorem plain_of_digit {byte : UInt8} (h : IsDigit byte) : Plain byte := by
  have hall : ∀ d < 10, digitByte d < 0x80 ∧ digitByte d ≠ minus ∧ digitByte d ≠ plus ∧
      digitByte d ≠ point ∧ isMark (digitByte d) = false := by
    decide
  obtain ⟨hascii, hminus, hplus, hpoint, hmark⟩ := hall _ (digitValue_lt h)
  rw [digitByte_digitValue h] at hascii hminus hplus hpoint hmark
  exact ⟨hascii, hminus, hplus, hpoint, hmark⟩

theorem isDigit_digitsText {digits : List Nat} (h : ∀ d ∈ digits, d < 10) :
    ∀ byte ∈ digitsText digits, IsDigit byte := by
  intro byte hmem
  obtain ⟨d, hd, rfl⟩ := List.mem_map.mp hmem
  exact (digitByte_spec d (h d hd)).1

theorem map_digitValue {digits : List Nat} (h : ∀ d ∈ digits, d < 10) :
    (digitsText digits).map digitValue = digits := by
  rw [digitsText, List.map_map]
  exact (List.map_congr_left fun d hd => (digitByte_spec d (h d hd)).2).trans (List.map_id' _)

theorem exists_digitsText {text : Bytes} (h : ∀ byte ∈ text, IsDigit byte) :
    ∃ digits, (∀ d ∈ digits, d < 10) ∧ text = digitsText digits := by
  refine ⟨text.map digitValue, fun d hmem => ?_, ?_⟩
  · obtain ⟨byte, hbyte, rfl⟩ := List.mem_map.mp hmem
    exact digitValue_lt (h byte hbyte)
  · rw [digitsText, List.map_map]
    exact ((List.map_congr_left fun byte hbyte => digitByte_digitValue (h byte hbyte)).trans
      (List.map_id' _)).symm

/-! ## The grammar -/

def signText : Option Bool → Bytes
  | none => []
  | some true => [minus]
  | some false => [plus]

def isMinus (sign : Option Bool) : Bool := sign == some true

structure Exponent where
  upper : Bool
  sign : Option Bool
  digits : List Nat
  digit_lt : ∀ d ∈ digits, d < 10
  nonempty : digits ≠ []

namespace Exponent

def mark (e : Exponent) : UInt8 := if e.upper then 0x45 else 0x65

def body (e : Exponent) : Bytes := signText e.sign ++ digitsText e.digits

def text (e : Exponent) : Bytes := e.mark :: e.body

def value (e : Exponent) : Int :=
  if isMinus e.sign then -(positional 10 e.digits : Int) else positional 10 e.digits

end Exponent

/-- `[+-]? (D+ (. D*)? | . D+) ([eE] [+-]? D+)?`. -/
structure Literal where
  sign : Option Bool
  int : List Nat
  frac : Option (List Nat)
  exponent : Option Exponent
  int_lt : ∀ d ∈ int, d < 10
  frac_lt : ∀ d ∈ frac.getD [], d < 10
  nonempty : int ≠ [] ∨ frac.getD [] ≠ []

namespace Literal

def fraction (l : Literal) : List Nat := l.frac.getD []

def number (l : Literal) : Bytes :=
  digitsText l.int ++ (l.frac.map fun digits => point :: digitsText digits).getD []

def exponentText (l : Literal) : Bytes := (l.exponent.map Exponent.text).getD []

def text (l : Literal) : Bytes := signText l.sign ++ (l.number ++ l.exponentText)

def exponentValue (l : Literal) : Int := (l.exponent.map Exponent.value).getD 0

def digits (l : Literal) : List Nat := l.int ++ l.fraction

def value (l : Literal) : ℚ :=
  (if isMinus l.sign then -1 else 1) * (positional 10 l.digits : ℚ) *
    (10 : ℚ) ^ (l.exponentValue - l.fraction.length)

theorem digits_lt (l : Literal) : ∀ d ∈ l.digits, d < 10 := by
  intro d hmem
  obtain hmem | hmem := List.mem_append.mp hmem
  · exact l.int_lt d hmem
  · exact l.frac_lt d hmem

def Fits (l : Literal) : Prop :=
  InI32 l.exponentValue ∧ InI32 (l.fraction.length - l.exponentValue) ∧
    (l.digits.dropWhile (· == 0)).length ≤ maxDigits

def outcome (l : Literal) : Except DecimalError Decimal :=
  match tryI32 l.exponentValue with
  | none => .error ⟨"bad exponent"⟩
  | some exponent => do
      let scale ← scaleOf l.fraction.length exponent
      assemble (isMinus l.sign) scale l.digits l.digits_lt

end Literal

/-! ## The parser on a literal -/

theorem findIdx?_split {p : UInt8 → Bool} {before after : Bytes} {byte : UInt8}
    (hbefore : ∀ x ∈ before, p x = false) (hbyte : p byte = true) :
    (before ++ byte :: after).findIdx? p = some before.length := by
  rw [List.findIdx?_append, List.findIdx?_eq_none_iff.mpr hbefore, List.findIdx?_cons, hbyte]
  simp

theorem splitSign_text {sign : Option Bool} {rest : Bytes} (hsafe : CutSafe (signText sign ++ rest))
    (hminus : rest.head? ≠ some minus) (hplus : rest.head? ≠ some plus) :
    splitSign (signText sign ++ rest) = .ok (isMinus sign, rest) := by
  have hcut {byte : UInt8} (hsafe : CutSafe (byte :: rest)) (h : byte < 0x80) :
      strFrom (byte :: rest) 1 = .ok rest :=
    if_pos (hsafe.boundary_after (show (byte :: rest)[0]? = some byte from rfl) h)
  match sign with
  | none => rw [signText, List.nil_append, splitSign, if_neg hminus, if_neg hplus]; rfl
  | some true =>
      change splitSign (minus :: rest) = _
      rw [splitSign, List.head?_cons, if_pos rfl, hcut hsafe (by decide)]
      rfl
  | some false =>
      change splitSign (plus :: rest) = _
      rw [splitSign, List.head?_cons, if_neg (by decide), if_pos rfl, hcut hsafe (by decide)]
      rfl

theorem splitExponent_mark {number body : Bytes} {mark : UInt8}
    (hsafe : CutSafe (number ++ mark :: body)) (hnumber : ∀ x ∈ number, isMark x = false)
    (hmark : isMark mark = true) (hascii : mark < 0x80) :
    splitExponent (number ++ mark :: body) = .ok (number, some body) := by
  have hat : (number ++ mark :: body)[number.length]? = some mark := by simp
  have hto : strTo (number ++ mark :: body) number.length = .ok number := by
    rw [strTo, if_pos (boundary_at_ascii hat hascii), List.take_left]
  have hfrom : strFrom (number ++ mark :: body) (number.length + 1) = .ok body := by
    rw [strFrom, if_pos (hsafe.boundary_after hat hascii)]
    simp
  rw [splitExponent, findIdx?_split hnumber hmark]
  simp only [hto, hfrom]
  rfl

theorem splitExponent_none {number : Bytes} (hnumber : ∀ x ∈ number, isMark x = false) :
    splitExponent number = .ok (number, none) := by
  rw [splitExponent, List.findIdx?_eq_none_iff.mpr hnumber]
  rfl

theorem head_digitsText {digits : List Nat} (h : ∀ d ∈ digits, d < 10) (rest : Bytes)
    {byte : UInt8} (hbyte : ¬ IsDigit byte) (hrest : rest.head? ≠ some byte) :
    (digitsText digits ++ rest).head? ≠ some byte := by
  cases digits with
  | nil => exact hrest
  | cons d digits =>
      intro heq
      have hdigit := (digitByte_spec d (h d List.mem_cons_self)).1
      rw [show digitByte d = byte from Option.some.inj heq] at hdigit
      exact hbyte hdigit

theorem parseI32_body (e : Exponent) : parseI32 e.body = tryI32 e.value := by
  have hdigits := isDigit_digitsText e.digit_lt
  have hne : digitsText e.digits ≠ [] := by simpa [digitsText] using e.nonempty
  have hhead {byte : UInt8} (hbyte : ¬ IsDigit byte) : (digitsText e.digits).head? ≠ some byte := by
    simpa using head_digitsText e.digit_lt [] hbyte (by nofun)
  have hread (negative : Bool) :
      (if digitsText e.digits = [] ∨ ¬ ∀ byte ∈ digitsText e.digits, IsDigit byte then none
        else tryI32 (if negative then -(positional 10 ((digitsText e.digits).map digitValue) : Int)
          else positional 10 ((digitsText e.digits).map digitValue))) =
        tryI32 (if negative then -(positional 10 e.digits : Int) else positional 10 e.digits) := by
    rw [if_neg (not_or.mpr ⟨hne, not_not.mpr hdigits⟩), map_digitValue e.digit_lt]
  unfold parseI32 Exponent.body Exponent.value
  cases hsign : e.sign with
  | none =>
      rw [signText, List.nil_append, if_neg (hhead (by decide)), if_neg (hhead (by decide))]
      exact hread false
  | some negative =>
      cases negative with
      | true => exact hread true
      | false => exact hread false

theorem splitPoint_number (l : Literal) :
    (splitPoint l.number).getD (l.number, []) = (digitsText l.int, digitsText l.fraction) := by
  have hint : ∀ x ∈ digitsText l.int, (x == point) = false := fun x hmem => by
    simpa using (plain_of_digit (isDigit_digitsText l.int_lt x hmem)).point
  unfold Literal.number Literal.fraction
  cases l.frac with
  | none =>
      simp only [Option.map_none, Option.getD_none, List.append_nil, splitPoint,
        List.findIdx?_eq_none_iff.mpr hint]
      rfl
  | some digits =>
      simp only [Option.map_some, Option.getD_some, splitPoint,
        findIdx?_split hint (beq_self_eq_true _)]
      simp

theorem parseDigits_text {digits : List Nat} (h : ∀ d ∈ digits, d < 10) :
    ∃ read, parseDigits (digitsText digits) = .ok read ∧ read.map Fin.val = digits := by
  induction digits with
  | nil => exact ⟨[], rfl, rfl⟩
  | cons d digits ih =>
      obtain ⟨hd, hdigits⟩ := List.forall_mem_cons.mp h
      obtain ⟨read, hread, hmap⟩ := ih hdigits
      obtain ⟨hdigit, hvalue⟩ := digitByte_spec d hd
      refine ⟨⟨digitValue (digitByte d), digitValue_lt hdigit⟩ :: read, ?_, ?_⟩
      · rw [parseDigits, digitsText, List.map_cons, List.mapM_cons, dif_pos hdigit, ← digitsText,
          ← parseDigits, hread]
        rfl
      · exact congrArg₂ List.cons hvalue hmap

theorem ascii_signText {sign : Option Bool} : ∀ byte ∈ signText sign, byte < 0x80 := by
  intro byte hmem
  match sign with
  | none => cases hmem
  | some true =>
      rw [List.mem_singleton.mp hmem]
      decide
  | some false =>
      rw [List.mem_singleton.mp hmem]
      decide

theorem ascii_digitsText {digits : List Nat} (h : ∀ d ∈ digits, d < 10) :
    ∀ byte ∈ digitsText digits, byte < 0x80 :=
  fun byte hmem => (plain_of_digit (isDigit_digitsText h byte hmem)).ascii

theorem Literal.number_mem {l : Literal} {byte : UInt8} (hmem : byte ∈ l.number) :
    byte < 0x80 ∧ isMark byte = false := by
  have hdigits {digits : List Nat} (h : ∀ d ∈ digits, d < 10) (hmem : byte ∈ digitsText digits) :
      byte < 0x80 ∧ isMark byte = false := by
    have hplain := plain_of_digit (isDigit_digitsText h byte hmem)
    exact ⟨hplain.ascii, hplain.mark⟩
  obtain hmem | hmem := List.mem_append.mp hmem
  · exact hdigits l.int_lt hmem
  · have hlt := l.frac_lt
    cases hfrac : l.frac with
    | none =>
        rw [hfrac] at hmem
        cases hmem
    | some digits =>
        rw [hfrac] at hmem hlt
        obtain rfl | hmem := List.mem_cons.mp hmem
        · decide
        · exact hdigits hlt hmem

theorem Exponent.ascii_text (e : Exponent) : ∀ byte ∈ e.text, byte < 0x80 := by
  intro byte hmem
  obtain rfl | hmem := List.mem_cons.mp hmem
  · unfold Exponent.mark
    split <;> decide
  · obtain hmem | hmem := List.mem_append.mp hmem
    · exact ascii_signText byte hmem
    · exact ascii_digitsText e.digit_lt byte hmem

theorem Literal.ascii_text (l : Literal) : ∀ byte ∈ l.text, byte < 0x80 := by
  intro byte hmem
  obtain hmem | hmem := List.mem_append.mp hmem
  · exact ascii_signText byte hmem
  · obtain hmem | hmem := List.mem_append.mp hmem
    · exact (number_mem hmem).1
    · unfold exponentText at hmem
      cases hexponent : l.exponent with
      | none =>
          rw [hexponent] at hmem
          cases hmem
      | some e =>
          rw [hexponent] at hmem
          exact e.ascii_text byte hmem

theorem Literal.number_head (l : Literal) (rest : Bytes) {byte : UInt8} (hbyte : ¬ IsDigit byte)
    (hpoint : byte ≠ point) : (l.number ++ rest).head? ≠ some byte := by
  have hnonempty := l.nonempty
  unfold Literal.number
  rw [List.append_assoc]
  cases hint : l.int with
  | cons d digits =>
      have hlt := l.int_lt
      rw [hint] at hlt
      exact fun heq => head_digitsText hlt [] hbyte (by nofun) (by simpa [digitsText] using heq)
  | nil =>
      cases hfrac : l.frac with
      | none => simp [hint, hfrac] at hnonempty
      | some digits => simpa [digitsText] using hpoint.symm

theorem ok_bind {ε α β : Type} (x : α) (f : α → Except ε β) : (Except.ok x >>= f) = f x := rfl

theorem assemble_congr {negative : Bool} {scale : I32} {digits more : List Nat}
    (hdigits : ∀ d ∈ digits, d < 10) (hmore : ∀ d ∈ more, d < 10) (h : digits = more) :
    assemble negative scale digits hdigits = assemble negative scale more hmore := by
  subst h
  rfl

theorem fromPieces_literal (l : Literal) :
    fromPieces (isMinus l.sign) l.number (l.exponent.map Exponent.body) = l.outcome := by
  obtain ⟨read, hread, hmap⟩ := parseDigits_text l.digits_lt
  have hempty : ¬ (digitsText l.int = [] ∧ digitsText l.fraction = []) := by
    simpa [digitsText, Literal.fraction, or_iff_not_imp_left] using l.nonempty
  have hdigits : digitsText l.int ++ digitsText l.fraction = digitsText l.digits := by
    rw [digitsText, digitsText, ← List.map_append]
    rfl
  have hlength : (digitsText l.fraction).length = l.fraction.length := List.length_map _
  have hexponent : exponentOf (l.exponent.map Exponent.body) =
      match tryI32 l.exponentValue with
      | none => .error ⟨"bad exponent"⟩
      | some exponent => .ok exponent := by
    unfold Literal.exponentValue
    cases l.exponent with
    | none =>
        have hzero : InI32 0 := by decide
        rw [Option.map_none, Option.map_none, Option.getD_none, tryI32_of_inI32 hzero]
        rfl
    | some e =>
        simp only [Option.map_some, Option.getD_some, exponentOf, parseI32_body]
        cases tryI32 e.value <;> rfl
  unfold fromPieces Literal.outcome
  rw [hexponent]
  cases tryI32 l.exponentValue with
  | none => rfl
  | some exponent =>
      simp only [splitPoint_number, if_neg hempty, hdigits, hlength, hread]
      rw [ok_bind, ok_bind]
      exact bind_congr fun scale => assemble_congr _ l.digits_lt hmap

theorem fromStr_text (l : Literal) : fromStr l.text = .ok l.outcome := by
  have hsafe := cutSafe_of_ascii l.ascii_text
  have hsign : splitSign l.text = .ok (isMinus l.sign, l.number ++ l.exponentText) :=
    splitSign_text hsafe (l.number_head _ (by decide) (by decide))
      (l.number_head _ (by decide) (by decide))
  have hnumber : ∀ x ∈ l.number, isMark x = false := fun x hmem => (Literal.number_mem hmem).2
  have hexponent : splitExponent (l.number ++ l.exponentText) =
      .ok (l.number, l.exponent.map Exponent.body) := by
    have hrest : CutSafe (l.number ++ l.exponentText) := cutSafe_of_ascii fun byte hmem =>
      l.ascii_text byte (List.mem_append_right (signText l.sign) hmem)
    unfold Literal.exponentText at hrest ⊢
    cases hexp : l.exponent with
    | none =>
        rw [Option.map_none, Option.getD_none, List.append_nil]
        exact splitExponent_none hnumber
    | some e =>
        rw [hexp] at hrest
        refine splitExponent_mark hrest hnumber ?_ (e.ascii_text e.mark List.mem_cons_self)
        unfold Exponent.mark
        split <;> rfl
  rw [fromStr, hsign]
  change (do
    let (number, exponent) ← splitExponent (l.number ++ l.exponentText)
    return fromPieces (isMinus l.sign) number exponent) = _
  rw [hexponent, ← fromPieces_literal]
  rfl

/-! ## The parser on any text -/

theorem splitSign_cut {s : Bytes} (hsafe : CutSafe s) :
    ∃ sign rest, s = signText sign ++ rest ∧ CutSafe rest ∧
      splitSign s = .ok (isMinus sign, rest) := by
  by_cases hminus : s.head? = some minus
  · obtain ⟨rest, rfl⟩ := List.head?_eq_some_iff.mp hminus
    refine ⟨some true, rest, rfl, hsafe.drop 1, ?_⟩
    have hcut : strFrom (minus :: rest) 1 = .ok rest :=
      if_pos (hsafe.boundary_after (show (minus :: rest)[0]? = some minus from rfl) (by decide))
    rw [splitSign, if_pos hminus, hcut]
    rfl
  · by_cases hplus : s.head? = some plus
    · obtain ⟨rest, rfl⟩ := List.head?_eq_some_iff.mp hplus
      refine ⟨some false, rest, rfl, hsafe.drop 1, ?_⟩
      have hcut : strFrom (plus :: rest) 1 = .ok rest :=
        if_pos (hsafe.boundary_after (show (plus :: rest)[0]? = some plus from rfl) (by decide))
      rw [splitSign, if_neg hminus, if_pos hplus, hcut]
      rfl
    · have hnone : splitSign (signText none ++ s) = .ok (isMinus none, s) :=
        splitSign_text hsafe hminus hplus
      exact ⟨none, s, rfl, hsafe, hnone⟩

theorem split_at_findIdx? {p : UInt8 → Bool} {text : Bytes} {i : Nat}
    (h : text.findIdx? p = some i) :
    ∃ byte, text = text.take i ++ byte :: text.drop (i + 1) ∧ p byte = true ∧
      ∀ x ∈ text.take i, p x = false := by
  obtain ⟨hlt, hbyte, hbefore⟩ := List.findIdx?_eq_some_iff_getElem.mp h
  refine ⟨text[i], ?_, hbyte, fun x hmem => ?_⟩
  · rw [List.getElem_cons_drop, List.take_append_drop]
  · obtain ⟨j, hj, rfl⟩ := List.mem_take_iff_getElem.mp hmem
    simpa using hbefore j (by omega)

theorem isMark_ascii {byte : UInt8} (h : isMark byte = true) :
    byte < 0x80 ∧ ∃ upper : Bool, byte = if upper then 0x45 else 0x65 := by
  simp only [isMark, Bool.or_eq_true, beq_iff_eq] at h
  obtain rfl | rfl := h
  · exact ⟨by decide, false, rfl⟩
  · exact ⟨by decide, true, rfl⟩

theorem splitExponent_cut {rest : Bytes} (hsafe : CutSafe rest) :
    ∃ number exponent, splitExponent rest = .ok (number, exponent) ∧
      (exponent = none ∧ rest = number ∨
        ∃ mark body, exponent = some body ∧ isMark mark = true ∧ rest = number ++ mark :: body) := by
  cases hfind : rest.findIdx? isMark with
  | none =>
      exact ⟨rest, none, splitExponent_none (List.findIdx?_eq_none_iff.mp hfind), .inl ⟨rfl, rfl⟩⟩
  | some i =>
      obtain ⟨mark, hsplit, hmark, hbefore⟩ := split_at_findIdx? hfind
      refine ⟨rest.take i, some (rest.drop (i + 1)), ?_, .inr ⟨mark, _, rfl, hmark, hsplit⟩⟩
      have hcut := hsafe
      rw [hsplit] at hcut
      have hread := splitExponent_mark hcut hbefore hmark (isMark_ascii hmark).1
      rwa [← hsplit] at hread

theorem fromStr_cut {s : Bytes} (hsafe : CutSafe s) :
    ∃ sign number exponent, fromStr s = .ok (fromPieces (isMinus sign) number exponent) ∧
      (exponent = none ∧ s = signText sign ++ number ∨
        ∃ mark body, exponent = some body ∧ isMark mark = true ∧
          s = signText sign ++ (number ++ mark :: body)) := by
  obtain ⟨sign, rest, hs, hrest, hsign⟩ := splitSign_cut hsafe
  obtain ⟨number, exponent, hexponent, hparts⟩ := splitExponent_cut hrest
  refine ⟨sign, number, exponent, ?_, ?_⟩
  · rw [fromStr, hsign, ok_bind]
    simp only [hexponent]
    rfl
  · obtain ⟨hnone, rfl⟩ | ⟨mark, body, hsome, hmark, rfl⟩ := hparts
    · exact .inl ⟨hnone, hs⟩
    · exact .inr ⟨mark, body, hsome, hmark, hs⟩

theorem isDigit_of_parseDigits {text : Bytes} {digits : List (Fin 10)}
    (h : parseDigits text = .ok digits) : ∀ byte ∈ text, IsDigit byte := by
  induction text generalizing digits with
  | nil => nofun
  | cons byte text ih =>
      rw [parseDigits, List.mapM_cons] at h
      obtain ⟨first, hfirst, h⟩ := Msgpack.bind_ok.mp h
      obtain ⟨rest, hrest, -⟩ := Msgpack.bind_ok.mp h
      split at hfirst
      next hdigit => exact List.forall_mem_cons.mpr ⟨hdigit, ih hrest⟩
      next => cases hfirst

theorem body_of_parseI32 {text : Bytes} {n : I32} (h : parseI32 text = some n) :
    ∃ sign digits, (∀ d ∈ digits, d < 10) ∧ digits ≠ [] ∧
      text = signText sign ++ digitsText digits := by
  have hdigits (negative : Bool) {digits : Bytes}
      (h : (if digits = [] ∨ ¬ ∀ byte ∈ digits, IsDigit byte then none
        else tryI32 (if negative then -(positional 10 (digits.map digitValue) : Int)
          else positional 10 (digits.map digitValue))) = some n) :
      ∃ read, (∀ d ∈ read, d < 10) ∧ read ≠ [] ∧ digits = digitsText read := by
    split at h
    next => cases h
    next hgood =>
        obtain ⟨hne, hall⟩ := not_or.mp hgood
        obtain ⟨read, hlt, rfl⟩ := exists_digitsText (not_not.mp hall)
        refine ⟨read, hlt, ?_, rfl⟩
        rintro rfl
        exact hne rfl
  unfold parseI32 at h
  by_cases hminus : text.head? = some minus
  · obtain ⟨rest, rfl⟩ := List.head?_eq_some_iff.mp hminus
    rw [if_pos hminus] at h
    obtain ⟨read, hlt, hne, hrest⟩ := hdigits true h
    exact ⟨some true, read, hlt, hne, congrArg (minus :: ·) hrest⟩
  · rw [if_neg hminus] at h
    by_cases hplus : text.head? = some plus
    · obtain ⟨rest, rfl⟩ := List.head?_eq_some_iff.mp hplus
      rw [if_pos hplus] at h
      obtain ⟨read, hlt, hne, hrest⟩ := hdigits false h
      exact ⟨some false, read, hlt, hne, congrArg (plus :: ·) hrest⟩
    · rw [if_neg hplus] at h
      obtain ⟨read, hlt, hne, hrest⟩ := hdigits false h
      exact ⟨none, read, hlt, hne, hrest⟩

theorem number_of_pieces {number int frac : Bytes} {digits : List (Fin 10)}
    (hpoint : (splitPoint number).getD (number, []) = (int, frac))
    (hne : ¬ (int = [] ∧ frac = [])) (h : parseDigits (int ++ frac) = .ok digits)
    (sign : Option Bool) (exponent : Option Exponent) :
    ∃ l : Literal, l.sign = sign ∧ l.exponent = exponent ∧ l.number = number := by
  have hdigits := isDigit_of_parseDigits h
  obtain ⟨intDigits, hint, rfl⟩ := exists_digitsText fun x hmem =>
    hdigits x (List.mem_append_left frac hmem)
  obtain ⟨fracDigits, hfrac, rfl⟩ := exists_digitsText fun x hmem =>
    hdigits x (List.mem_append_right (digitsText intDigits) hmem)
  have hnonempty : intDigits ≠ [] ∨ fracDigits ≠ [] := by
    refine Classical.not_and_iff_not_or_not.mp fun hempty => hne ?_
    rw [hempty.1, hempty.2]
    exact ⟨rfl, rfl⟩
  unfold splitPoint at hpoint
  cases hfind : number.findIdx? (· == point) with
  | none =>
      rw [hfind] at hpoint
      obtain ⟨rfl, hnil⟩ := Prod.mk.inj hpoint
      obtain rfl : fracDigits = [] := List.map_eq_nil_iff.mp hnil.symm
      exact ⟨⟨sign, intDigits, none, exponent, hint, nofun, hnonempty⟩, rfl, rfl,
        List.append_nil _⟩
  | some i =>
      rw [hfind] at hpoint
      obtain ⟨hbefore, hafter⟩ := Prod.mk.inj hpoint
      obtain ⟨byte, hnumber, hbyte, -⟩ := split_at_findIdx? hfind
      rw [hbefore, hafter, beq_iff_eq.mp hbyte] at hnumber
      exact ⟨⟨sign, intDigits, some fracDigits, exponent, hint, hfrac, hnonempty⟩, rfl, rfl,
        hnumber.symm⟩

/-- Nothing but literals is accepted. -/
theorem literal_of_fromStr {s : Bytes} (hsafe : CutSafe s) {d : Decimal}
    (h : fromStr s = .ok (.ok d)) : ∃ l : Literal, s = l.text := by
  obtain ⟨sign, number, exponent, hpieces, hparts⟩ := fromStr_cut hsafe
  obtain hok := Except.ok.inj (hpieces.symm.trans h)
  obtain ⟨n, hexponent, hok⟩ := Msgpack.bind_ok.mp hok
  rcases hpoint : (splitPoint number).getD (number, []) with ⟨int, frac⟩
  rw [hpoint] at hok
  simp only at hok
  split at hok
  next => cases hok
  next hne =>
      obtain ⟨digits, hdigits, -⟩ := Msgpack.bind_ok.mp hok
      obtain ⟨-, hs⟩ | ⟨mark, body, rfl, hmark, hs⟩ := hparts
      · obtain ⟨l, hsign, hnone, hnumber⟩ := number_of_pieces hpoint hne hdigits sign none
        refine ⟨l, hs.trans ?_⟩
        rw [Literal.text, Literal.exponentText, hsign, hnone, hnumber]
        exact congrArg _ (List.append_nil _).symm
      · have hparse : parseI32 body = some n := by
          unfold exponentOf at hexponent
          cases hbody : parseI32 body with
          | none => simp [hbody] at hexponent
          | some m => simpa [hbody] using hexponent
        obtain ⟨bodySign, read, hlt, hread, rfl⟩ := body_of_parseI32 hparse
        obtain ⟨-, upper, rfl⟩ := isMark_ascii hmark
        obtain ⟨l, hsign, hsome, hnumber⟩ := number_of_pieces hpoint hne hdigits sign
          (some ⟨upper, bodySign, read, hlt, hread⟩)
        refine ⟨l, hs.trans ?_⟩
        rw [Literal.text, Literal.exponentText, hsign, hsome, hnumber]
        rfl

/-! ## What is accepted -/

theorem scaleOf_ok {len : Nat} {exponent scale : I32} :
    scaleOf len exponent = .ok scale ↔ len < 2 ^ 31 ∧ scale.val = len - exponent.val := by
  unfold scaleOf
  by_cases hlen : len < 2 ^ 31
  · obtain ⟨m, hm, hvalue⟩ := lenI32_short hlen
    rw [hm, Option.bind_some, hvalue]
    simp only [hlen, true_and]
    cases hscale : tryI32 ((len : Int) - exponent) with
    | none =>
        refine iff_of_false (by simp) fun heq => tryI32_eq_none.mp hscale ?_
        exact heq ▸ scale.property
    | some m =>
        rw [← tryI32_eq_some.mp hscale, Except.ok.injEq, Subtype.ext_iff, eq_comm]
  · rw [lenI32_long hlen]
    exact iff_of_false (by simp) fun h => hlen h.1

theorem Literal.outcome_ok {l : Literal} {d : Decimal} (h : l.outcome = .ok d) :
    ∃ scale : I32, InI32 l.exponentValue ∧ l.fraction.length < 2 ^ 31 ∧
      scale.val = l.fraction.length - l.exponentValue ∧
      assemble (isMinus l.sign) scale l.digits l.digits_lt = .ok d := by
  unfold outcome at h
  cases hexponent : tryI32 l.exponentValue with
  | none => simp [hexponent] at h
  | some exponent =>
      have hvalue := tryI32_eq_some.mp hexponent
      simp only [hexponent] at h
      obtain ⟨scale, hscale, h⟩ := Msgpack.bind_ok.mp h
      obtain ⟨hlength, hscale⟩ := scaleOf_ok.mp hscale
      exact ⟨scale, hvalue ▸ exponent.property, hlength, hvalue ▸ hscale, h⟩

theorem Literal.outcome_eq {l : Literal} (hexponent : InI32 l.exponentValue)
    (hlength : l.fraction.length < 2 ^ 31) (hscale : InI32 (l.fraction.length - l.exponentValue)) :
    l.outcome = assemble (isMinus l.sign) ⟨_, hscale⟩ l.digits l.digits_lt := by
  have hscaleOf : scaleOf l.fraction.length ⟨_, hexponent⟩ = .ok ⟨_, hscale⟩ :=
    scaleOf_ok.mpr ⟨hlength, rfl⟩
  rw [outcome, tryI32_of_inI32 hexponent]
  simp only [hscaleOf, ok_bind]

theorem Literal.outcome_ok_iff (l : Literal) :
    (∃ d, l.outcome = .ok d) ↔ l.Fits ∧ l.fraction.length < 2 ^ 31 := by
  constructor
  · rintro ⟨d, h⟩
    obtain ⟨scale, hexponent, hlength, hscale, hassemble⟩ := outcome_ok h
    exact ⟨⟨hexponent, hscale ▸ scale.property, (assemble_ok_iff _).mp ⟨d, hassemble⟩⟩, hlength⟩
  · rintro ⟨⟨hexponent, hscale, hdigits⟩, hlength⟩
    rw [outcome_eq hexponent hlength hscale]
    exact (assemble_ok_iff _).mpr hdigits

theorem Literal.value_of_outcome {l : Literal} {d : Decimal} (h : l.outcome = .ok d) :
    d.value = l.value := by
  obtain ⟨scale, -, -, hscale, hassemble⟩ := outcome_ok h
  rw [value_of_assemble hassemble, Literal.value, scaled, hscale, neg_sub]
  cases isMinus l.sign <;> simp

/--
No string makes the parser panic.  It accepts the literals whose exponent, scale,
fraction length and significant digits are within their bounds, and reads them
exactly.
-/
theorem accepts_literals (s : String) :
    (∃ result, fromStr (asBytes s) = .ok result) ∧
      ((∃ d, fromStr (asBytes s) = .ok (.ok d)) ↔
        ∃ l : Literal, asBytes s = l.text ∧ l.Fits ∧ l.fraction.length < 2 ^ 31) ∧
      ∀ d (l : Literal), fromStr (asBytes s) = .ok (.ok d) → asBytes s = l.text →
        d.value = l.value := by
  have hsafe : CutSafe (asBytes s) := cutSafe_string s
  refine ⟨?_, ⟨?_, ?_⟩, ?_⟩
  · obtain ⟨sign, number, exponent, hpieces, -⟩ := fromStr_cut hsafe
    exact ⟨_, hpieces⟩
  · rintro ⟨d, h⟩
    obtain ⟨l, htext⟩ := literal_of_fromStr hsafe h
    rw [htext, fromStr_text] at h
    exact ⟨l, htext, l.outcome_ok_iff.mp ⟨d, Except.ok.inj h⟩⟩
  · rintro ⟨l, htext, hbounds⟩
    obtain ⟨d, hd⟩ := l.outcome_ok_iff.mpr hbounds
    exact ⟨d, by rw [htext, fromStr_text, hd]⟩
  · intro d l h htext
    rw [htext, fromStr_text] at h
    exact Literal.value_of_outcome (Except.ok.inj h)

def zerosLiteral (count : Nat) (hcount : 0 < count) : Literal where
  sign := none
  int := []
  frac := some (List.replicate count 0)
  exponent := some ⟨false, none, [1], by decide, by decide⟩
  int_lt := by nofun
  frac_lt d hmem := by
    rw [(List.mem_replicate.mp hmem).2]
    decide
  nonempty := .inr (by
    rw [Option.getD_some, ne_eq, List.replicate_eq_nil_iff]
    exact hcount.ne')

theorem zerosLiteral_fraction {count : Nat} (hcount : 0 < count) :
    (zerosLiteral count hcount).fraction.length = count := List.length_replicate

theorem zerosLiteral_fits {count : Nat} (hcount : 0 < count) (h : InI32 (count - 1)) :
    (zerosLiteral count hcount).Fits := by
  have hexponent : (zerosLiteral count hcount).exponentValue = 1 := rfl
  have hdigits : (zerosLiteral count hcount).digits.dropWhile (· == 0) = [] := by
    rw [List.dropWhile_eq_nil_iff]
    intro x hmem
    simp [(List.mem_replicate.mp hmem).2]
  refine ⟨by rw [hexponent]; decide, ?_, by rw [hdigits]; exact Nat.zero_le _⟩
  rw [zerosLiteral_fraction, hexponent]
  exact h

theorem zerosLiteral_refused {count : Nat} (hcount : 0 < count) (hlong : 2 ^ 31 ≤ count)
    (h : InI32 (count - 1)) :
    ¬ ((∃ d, fromStr (asBytes (asciiString (zerosLiteral count hcount).text)) = .ok (.ok d)) ↔
      ∃ l : Literal, asBytes (asciiString (zerosLiteral count hcount).text) = l.text ∧ l.Fits) := by
  have htext : asBytes (asciiString (zerosLiteral count hcount).text) =
      (zerosLiteral count hcount).text :=
    asciiString_bytes (zerosLiteral count hcount).ascii_text
  rw [htext, fromStr_text]
  intro hall
  obtain ⟨d, hd⟩ := hall.mpr ⟨_, rfl, zerosLiteral_fits hcount h⟩
  have hlength := ((zerosLiteral count hcount).outcome_ok_iff.mp ⟨d, Except.ok.inj hd⟩).2
  rw [zerosLiteral_fraction] at hlength
  exact Nat.not_lt.mpr hlong hlength

/-- The length of the fraction is refused before the exponent is taken from it. -/
theorem long_fraction_is_refused :
    ¬ ∀ s : String, (∃ d, fromStr (asBytes s) = .ok (.ok d)) ↔
      ∃ l : Literal, asBytes s = l.text ∧ l.Fits := by
  have hcount : 0 < 2 ^ 31 := by decide
  have hrefused := zerosLiteral_refused hcount (Nat.le_refl _) (by decide)
  exact fun hall => hrefused (hall _)

end Tarant.Decimal
