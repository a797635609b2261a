import Tarant.Bounds
import Tarant.Foundation.Pairs

/-!
# Parsing a UUID

`Uuid::from_str` looks for hyphens at four positions, drops every hyphen it finds,
and reads the bytes that are left in pairs.  A text with hyphens elsewhere leaves
fewer than 32 of them, and the last pair may then be a single byte.
-/

namespace Tarant

open Foundation
open Checked (Fault at?)

/-- The 16 bytes of a UUID, in the order they are written. -/
@[ext] structure Uuid where
  bytes : Bytes
  length_eq : bytes.length = 16

structure UuidError where
  deriving DecidableEq, Repr

namespace Uuid

def nil : Uuid := ⟨List.replicate 16 0, rfl⟩

abbrev Attempt := ExceptT UuidError (Except Fault)

def nibble (c : UInt8) : Option UInt8 :=
  if 0x30 ≤ c ∧ c ≤ 0x39 then some (c - 0x30)
  else if 0x61 ≤ c ∧ c ≤ 0x66 then some (c - 0x61 + 10)
  else if 0x41 ≤ c ∧ c ≤ 0x46 then some (c - 0x41 + 10)
  else none

def nibbleOr (c : UInt8) : Attempt UInt8 :=
  match nibble c with
  | some digit => return digit
  | none => throw {}

def store (uuid : Uuid) (i : Nat) (byte : UInt8) : Except Fault Uuid :=
  if i < 16 then .ok ⟨uuid.bytes.set i byte, by rw [List.length_set, uuid.length_eq]⟩
  else .error .index

def decode : Nat → Uuid → List Bytes → Attempt Uuid
  | _, uuid, [] => return uuid
  | i, uuid, pair :: rest => do
      let hi ← nibbleOr (← at? pair 0)
      let lo ← nibbleOr (← at? pair 1)
      let uuid ← uuid.store i (hi <<< 4 ||| lo)
      decode (i + 1) uuid rest

def hyphen : UInt8 := 0x2d

def isHyphenAt (s : Bytes) (i : Nat) : Except Fault Bool := return (← at? s i) == hyphen

def hyphensAt (s : Bytes) : Except Fault Bool :=
  isHyphenAt s 8 <&&> isHyphenAt s 13 <&&> isHyphenAt s 18 <&&> isHyphenAt s 23

/-- Accepts the hyphenated form and the bare 32 hex digits, any case. -/
def fromStr (s : Bytes) : Attempt Uuid := do
  if s.length = 36 then
    if ← hyphensAt s then
      decode 0 nil (chunksOfTwo (s.filter (· ≠ hyphen)))
    else throw {}
  else if s.length = 32 then decode 0 nil (chunksOfTwo s)
  else throw {}

/-! ## Hexadecimal digits -/

def IsHex (c : UInt8) : Prop :=
  0x30 ≤ c ∧ c ≤ 0x39 ∨ 0x61 ≤ c ∧ c ≤ 0x66 ∨ 0x41 ≤ c ∧ c ≤ 0x46

instance : DecidablePred IsHex := fun _ => inferInstanceAs (Decidable (_ ∨ _))

def hexValue (c : UInt8) : Nat :=
  if c ≤ 0x39 then c.toNat - 0x30
  else if c ≤ 0x46 then c.toNat - 0x41 + 10
  else c.toNat - 0x61 + 10

def readHex : Bytes → Bytes
  | hi :: lo :: rest => UInt8.ofNat (16 * hexValue hi + hexValue lo) :: readHex rest
  | _ => []

theorem hexValue_lt {c : UInt8} (h : IsHex c) : hexValue c < 16 := by
  simp only [IsHex, UInt8.le_iff_toNat_le, UInt8.reduceToNat] at h
  unfold hexValue
  simp only [UInt8.le_iff_toNat_le, UInt8.reduceToNat]
  split <;> [skip; split] <;> omega

theorem nibble_hex {c : UInt8} (h : IsHex c) : nibble c = some (UInt8.ofNat (hexValue c)) := by
  simp only [IsHex, UInt8.le_iff_toNat_le, UInt8.reduceToNat] at h
  have hsub (first : UInt8) (hle : first.toNat ≤ c.toNat) :
      (c - first).toNat = c.toNat - first.toNat :=
    UInt8.toNat_sub_of_le _ _ (UInt8.le_iff_toNat_le.mpr hle)
  have hvalue {n : Nat} (hn : n < 16) : (UInt8.ofNat n).toNat = n :=
    UInt8.toNat_ofNat_of_lt' (Nat.lt_trans hn (by decide))
  unfold nibble hexValue
  simp only [UInt8.le_iff_toNat_le, UInt8.reduceToNat]
  obtain ⟨hl, hu⟩ | ⟨hl, hu⟩ | ⟨hl, hu⟩ := h
  · rw [if_pos ⟨hl, hu⟩, if_pos hu]
    refine congrArg some (UInt8.toNat_inj.mp ?_)
    rw [hsub 0x30 hl, hvalue (by omega)]
    rfl
  · rw [if_neg (by omega), if_pos ⟨hl, hu⟩, if_neg (by omega), if_neg (by omega)]
    refine congrArg some (UInt8.toNat_inj.mp ?_)
    rw [UInt8.toNat_add, hsub 0x61 hl, hvalue (by omega)]
    simp only [UInt8.reduceToNat]
    omega
  · rw [if_neg (by omega), if_neg (by omega), if_pos ⟨hl, hu⟩, if_neg (by omega), if_pos hu]
    refine congrArg some (UInt8.toNat_inj.mp ?_)
    rw [UInt8.toNat_add, hsub 0x41 hl, hvalue (by omega)]
    simp only [UInt8.reduceToNat]
    omega

theorem nibble_not_hex {c : UInt8} (h : ¬ IsHex c) : nibble c = none := by
  unfold IsHex at h
  obtain ⟨hdigit, hletter⟩ := not_or.mp h
  obtain ⟨hlower, hupper⟩ := not_or.mp hletter
  rw [nibble, if_neg hdigit, if_neg hlower, if_neg hupper]

theorem hyphen_not_hex : ¬ IsHex hyphen := by decide

/-! ## The decoder -/

theorem nibbleOr_hex {c : UInt8} (h : IsHex c) :
    nibbleOr c = (pure (UInt8.ofNat (hexValue c)) : Attempt UInt8) := by
  rw [nibbleOr, nibble_hex h]

theorem nibbleOr_not_hex {c : UInt8} (h : ¬ IsHex c) : nibbleOr c = (throw {} : Attempt UInt8) := by
  rw [nibbleOr, nibble_not_hex h]

theorem decode_two (i : Nat) (uuid : Uuid) (hi lo : UInt8) (rest : List Bytes) :
    decode i uuid ([hi, lo] :: rest) = (do
      let hi ← nibbleOr hi
      let lo ← nibbleOr lo
      let uuid ← uuid.store i (hi <<< 4 ||| lo)
      decode (i + 1) uuid rest) := rfl

theorem decode_one (i : Nat) (uuid : Uuid) (last : UInt8) (rest : List Bytes) :
    decode i uuid ([last] :: rest) = (do
      let _ ← nibbleOr last
      (show Attempt Uuid from .error .index)) := rfl

theorem decode_pair {i : Nat} {uuid : Uuid} {hi lo : UInt8} {rest : List Bytes} (hi16 : i < 16)
    (hhi : IsHex hi) (hlo : IsHex lo) :
    decode i uuid ([hi, lo] :: rest) =
      decode (i + 1) ⟨uuid.bytes.set i (UInt8.ofNat (16 * hexValue hi + hexValue lo)),
        by rw [List.length_set, uuid.length_eq]⟩ rest := by
  rw [decode_two, nibbleOr_hex hhi, nibbleOr_hex hlo]
  simp only [pure_bind, join_nibbles _ (hexValue_lt hhi) _ (hexValue_lt hlo), store, if_pos hi16]
  rfl

theorem decode_bad_pair {i : Nat} {uuid : Uuid} {hi lo : UInt8} {rest : List Bytes}
    (hbad : ¬ (IsHex hi ∧ IsHex lo)) :
    decode i uuid ([hi, lo] :: rest) = (throw {} : Attempt Uuid) := by
  rw [decode_two]
  by_cases hhi : IsHex hi
  · rw [nibbleOr_hex hhi, nibbleOr_not_hex fun hlo => hbad ⟨hhi, hlo⟩]
    rfl
  · rw [nibbleOr_not_hex hhi]
    rfl

theorem decode_even {hex : Bytes} (i : Nat) (uuid : Uuid) (hhex : ∀ c ∈ hex, IsHex c)
    (heven : hex.length % 2 = 0) (hroom : i + hex.length / 2 ≤ 16) :
    ∃ uuid', decode i uuid (chunksOfTwo hex) = (pure uuid' : Attempt Uuid) ∧
      uuid'.bytes = uuid.bytes.take i ++ readHex hex ++ uuid.bytes.drop (i + hex.length / 2) := by
  fun_induction chunksOfTwo hex generalizing i uuid with
  | case1 => exact ⟨uuid, rfl, by simp [readHex]⟩
  | case2 => simp at heven
  | case3 hi lo rest ih =>
      obtain ⟨hhi, hlo, hrest⟩ : IsHex hi ∧ IsHex lo ∧ ∀ c ∈ rest, IsHex c := by simpa using hhex
      simp only [List.length_cons] at heven hroom ⊢
      obtain ⟨uuid', hdecode, hbytes⟩ := ih (i + 1)
        ⟨uuid.bytes.set i (UInt8.ofNat (16 * hexValue hi + hexValue lo)),
          by rw [List.length_set, uuid.length_eq]⟩ hrest (by omega) (by omega)
      refine ⟨uuid', (decode_pair (by omega) hhi hlo).trans hdecode, ?_⟩
      have hlt : i < uuid.bytes.length := by rw [uuid.length_eq]; omega
      rw [hbytes, List.take_succ_eq_append_getElem (by simpa using hlt), List.getElem_set_self,
        List.take_set_of_le (Nat.le_refl i), List.drop_set_of_lt (by omega), readHex,
        show i + 1 + rest.length / 2 = i + (rest.length + 1 + 1) / 2 by omega]
      simp

theorem decode_odd {hex : Bytes} {i : Nat} {uuid : Uuid} (hhex : ∀ c ∈ hex, IsHex c)
    (hodd : hex.length % 2 = 1) (hroom : i + hex.length / 2 ≤ 16) :
    decode i uuid (chunksOfTwo hex) = (show Attempt Uuid from .error .index) := by
  fun_induction chunksOfTwo hex generalizing i uuid with
  | case1 => simp at hodd
  | case2 last =>
      rw [decode_one, nibbleOr_hex (hhex last List.mem_cons_self)]
      rfl
  | case3 hi lo rest ih =>
      obtain ⟨hhi, hlo, hrest⟩ : IsHex hi ∧ IsHex lo ∧ ∀ c ∈ rest, IsHex c := by simpa using hhex
      simp only [List.length_cons] at hodd hroom
      rw [decode_pair (by omega) hhi hlo]
      exact ih hrest (by omega) (by omega)

theorem decode_bad {hex : Bytes} {i : Nat} {uuid : Uuid} (hbad : ∃ c ∈ hex, ¬ IsHex c)
    (hroom : i + hex.length / 2 ≤ 16) :
    decode i uuid (chunksOfTwo hex) = (throw {} : Attempt Uuid) := by
  fun_induction chunksOfTwo hex generalizing i uuid with
  | case1 => simp at hbad
  | case2 last =>
      obtain ⟨c, hmem, hc⟩ := hbad
      obtain rfl := List.mem_singleton.mp hmem
      rw [decode_one, nibbleOr_not_hex hc]
      rfl
  | case3 hi lo rest ih =>
      by_cases hpair : IsHex hi ∧ IsHex lo
      · simp only [List.length_cons] at hroom
        rw [decode_pair (by omega) hpair.1 hpair.2]
        refine ih ?_ (by omega)
        simpa [hpair.1, hpair.2] using hbad
      · exact decode_bad_pair hpair

/-! ## The two forms -/

/-- The text is one of the two forms of a UUID, around these digits. -/
inductive Form : Bytes → Bytes → Prop
  | bare {digits : Bytes} (length : digits.length = 32) : Form digits digits
  | hyphenated {a b c d e : Bytes} (ha : a.length = 8) (hb : b.length = 4) (hc : c.length = 4)
      (hd : d.length = 4) (he : e.length = 12) :
      Form (a ++ hyphen :: (b ++ hyphen :: (c ++ hyphen :: (d ++ hyphen :: e))))
        (a ++ (b ++ (c ++ (d ++ e))))

def Denotes (s bytes : Bytes) : Prop :=
  ∃ digits, Form s digits ∧ (∀ c ∈ digits, IsHex c) ∧ bytes = readHex digits

def Hyphenated (s : Bytes) : Prop :=
  s[8]? = some hyphen ∧ s[13]? = some hyphen ∧ s[18]? = some hyphen ∧ s[23]? = some hyphen

theorem Form.length_digits {s digits : Bytes} (h : Form s digits) : digits.length = 32 := by
  cases h with
  | bare length => exact length
  | hyphenated ha hb hc hd he => simp [ha, hb, hc, hd, he]

theorem filter_hex {digits : Bytes} (h : ∀ c ∈ digits, IsHex c) :
    digits.filter (· ≠ hyphen) = digits := by
  refine List.filter_eq_self.mpr fun c hmem => ?_
  have hne : c ≠ hyphen := fun heq => hyphen_not_hex (heq ▸ h c hmem)
  simpa using hne

theorem Form.digits_eq {s digits : Bytes} (h : Form s digits) (hhex : ∀ c ∈ digits, IsHex c) :
    digits = s.filter (· ≠ hyphen) := by
  cases h with
  | bare => exact (filter_hex hhex).symm
  | hyphenated => 
      rw [← filter_hex hhex]
      simp

theorem split_at {s : Bytes} {i : Nat} {c : UInt8} (h : s[i]? = some c) :
    s = s.take i ++ c :: s.drop (i + 1) := by
  obtain ⟨hlt, rfl⟩ := List.getElem?_eq_some_iff.mp h
  rw [List.getElem_cons_drop, List.take_append_drop]

theorem Hyphenated.split {s : Bytes} (h : Hyphenated s) (hlength : s.length = 36) :
    ∃ a b c d e : Bytes, a.length = 8 ∧ b.length = 4 ∧ c.length = 4 ∧ d.length = 4 ∧
      e.length = 12 ∧
      s = a ++ hyphen :: (b ++ hyphen :: (c ++ hyphen :: (d ++ hyphen :: e))) := by
  obtain ⟨h8, h13, h18, h23⟩ := h
  have hb : (s.drop 9)[4]? = some hyphen := by rwa [List.getElem?_drop]
  have hc : (s.drop 14)[4]? = some hyphen := by rwa [List.getElem?_drop]
  have hd : (s.drop 19)[4]? = some hyphen := by rwa [List.getElem?_drop]
  refine ⟨s.take 8, (s.drop 9).take 4, (s.drop 14).take 4, (s.drop 19).take 4, s.drop 24, ?_, ?_,
    ?_, ?_, ?_, ?_⟩
  case refine_6 =>
    have hsplit := split_at h8
    have hsplitB := split_at hb
    have hsplitC := split_at hc
    have hsplitD := split_at hd
    rw [List.drop_drop] at hsplitB hsplitC hsplitD
    rw [← hsplitD, ← hsplitC, ← hsplitB]
    exact hsplit
  all_goals simp [hlength]

theorem count_add_length_filter (s : Bytes) :
    s.count hyphen + (s.filter (· ≠ hyphen)).length = s.length := by
  rw [← List.countP_eq_length_filter, List.count, List.length_eq_countP_add_countP (· == hyphen)]
  simp

theorem Hyphenated.form {s : Bytes} (h : Hyphenated s) (hlength : s.length = 36)
    (hcount : s.count hyphen = 4) : Form s (s.filter (· ≠ hyphen)) := by
  obtain ⟨a, b, c, d, e, ha, hb, hc, hd, he, rfl⟩ := h.split hlength
  simp only [List.count_append, List.count_cons_self] at hcount
  have hnone {l : Bytes} (hl : l.count hyphen = 0) : l.filter (· ≠ hyphen) = l := by
    refine List.filter_eq_self.mpr fun x hmem => ?_
    have hne : x ≠ hyphen := fun heq => List.count_eq_zero.mp hl (heq ▸ hmem)
    simpa using hne
  have hfilter : (a ++ hyphen :: (b ++ hyphen :: (c ++ hyphen :: (d ++ hyphen :: e)))).filter
      (· ≠ hyphen) = a ++ (b ++ (c ++ (d ++ e))) := by
    have hskip (l : Bytes) : (hyphen :: l).filter (· ≠ hyphen) = l.filter (· ≠ hyphen) := by simp
    simp only [List.filter_append, hskip]
    rw [hnone (l := a) (by omega), hnone (l := b) (by omega), hnone (l := c) (by omega),
      hnone (l := d) (by omega), hnone (l := e) (by omega)]
  rw [hfilter]
  exact .hyphenated ha hb hc hd he

theorem Hyphenated.count {s : Bytes} (h : Hyphenated s) (hlength : s.length = 36) :
    4 ≤ s.count hyphen := by
  obtain ⟨a, b, c, d, e, -, -, -, -, -, rfl⟩ := h.split hlength
  simp only [List.count_append, List.count_cons_self]
  omega

/-! ## The parser -/

theorem isHyphenAt_eq {s : Bytes} {i : Nat} (h : i < s.length) :
    isHyphenAt s i = .ok (decide (s[i]? = some hyphen)) := by
  rw [isHyphenAt, at?, List.getElem?_eq_getElem h]
  simp [pure, Except.pure, bind, Except.bind, beq_eq_decide]

instance (s : Bytes) : Decidable (Hyphenated s) := inferInstanceAs (Decidable (_ ∧ _))

theorem andM_ok (a b : Bool) : (.ok a <&&> .ok b : Except Fault Bool) = .ok (a && b) := by
  cases a <;> rfl

theorem fromStr_of_length {s : Bytes} (hlength : s.length = 36) :
    fromStr s = if Hyphenated s then decode 0 nil (chunksOfTwo (s.filter (· ≠ hyphen)))
      else (throw {} : Attempt Uuid) := by
  have hhyphens : hyphensAt s = .ok (decide (Hyphenated s)) := by
    rw [hyphensAt, isHyphenAt_eq (by omega), isHyphenAt_eq (by omega), isHyphenAt_eq (by omega),
      isHyphenAt_eq (by omega), andM_ok, andM_ok, andM_ok]
    refine congrArg Except.ok (Bool.eq_iff_iff.mpr ?_)
    simp only [Bool.and_eq_true, decide_eq_true_eq]
    rfl
  rw [fromStr, if_pos hlength, hhyphens]
  by_cases h : Hyphenated s
  · rw [if_pos h, decide_eq_true h]
    rfl
  · rw [if_neg h, decide_eq_false h]
    rfl

/-- The parser returns, and accepts a text exactly when it is a UUID. -/
def Faithful (s : Bytes) : Prop :=
  (∃ result, (fromStr s).run = .ok result) ∧
    ∀ uuid, (fromStr s).run = .ok (.ok uuid) ↔ Denotes s uuid.bytes

theorem faithful_of_throw {s : Bytes} (h : fromStr s = (throw {} : Attempt Uuid))
    (hnone : ∀ bytes, ¬ Denotes s bytes) : Faithful s := by
  rw [Faithful, h]
  refine ⟨⟨_, rfl⟩, fun uuid => ⟨fun hok => ?_, fun hdenotes => absurd hdenotes (hnone _)⟩⟩
  cases hok

theorem faithful_of_decode {s digits : Bytes} (h : fromStr s = decode 0 nil (chunksOfTwo digits))
    (hform : Form s digits)
    (honly : ∀ digits', Form s digits' → (∀ c ∈ digits', IsHex c) → digits' = digits) :
    Faithful s := by
  have hlength := hform.length_digits
  by_cases hhex : ∀ c ∈ digits, IsHex c
  · obtain ⟨uuid, hdecode, hbytes⟩ := decode_even 0 nil hhex (by omega) (by omega)
    have hread : uuid.bytes = readHex digits := by
      rw [hbytes, hlength]
      simp [nil]
    rw [Faithful, h, hdecode]
    refine ⟨⟨_, rfl⟩, fun uuid' => ⟨fun hok => ?_, fun ⟨digits', hform', hhex', hbytes'⟩ => ?_⟩⟩
    · obtain rfl : uuid = uuid' := Except.ok.inj (Except.ok.inj hok)
      exact ⟨digits, hform, hhex, hread⟩
    · obtain rfl := honly digits' hform' hhex'
      obtain rfl := Uuid.ext (hread.trans hbytes'.symm)
      rfl
  · refine faithful_of_throw (h.trans (decode_bad ?_ (by omega))) fun bytes hdenotes => ?_
    · simpa using hhex
    · obtain ⟨digits', hform', hhex', -⟩ := hdenotes
      exact hhex (honly digits' hform' hhex' ▸ hhex')

/-- A hyphenated text with more hyphens than the form has, and digits for the rest. -/
def StrayHyphens (s : Bytes) : Prop :=
  s.length = 36 ∧ Hyphenated s ∧ 4 < s.count hyphen ∧ ∀ c ∈ s, c ≠ hyphen → IsHex c

theorem faithful_of_count {s : Bytes} (hlength : s.length = 36) (hhyphens : Hyphenated s)
    (hcount : 4 < s.count hyphen) :
    Faithful s ↔ ¬ ∀ c ∈ s, c ≠ hyphen → IsHex c := by
  have hfewer := count_add_length_filter s
  have hnone : ∀ bytes, ¬ Denotes s bytes := by
    rintro bytes ⟨digits, hform, hhex, -⟩
    have hdigits := congrArg List.length (hform.digits_eq hhex)
    rw [hform.length_digits] at hdigits
    omega
  have hdecode : fromStr s = decode 0 nil (chunksOfTwo (s.filter (· ≠ hyphen))) := by
    rw [fromStr_of_length hlength, if_pos hhyphens]
  have hdigits : (∀ c ∈ s.filter (· ≠ hyphen), IsHex c) ↔ ∀ c ∈ s, c ≠ hyphen → IsHex c := by
    simp [List.mem_filter]
  rw [← hdigits]
  constructor
  · rintro ⟨⟨result, hresult⟩, hok⟩ hhex
    rcases Nat.mod_two_eq_zero_or_one (s.filter (· ≠ hyphen)).length with heven | hodd
    · obtain ⟨uuid, hread, -⟩ := decode_even 0 nil hhex heven (by omega)
      exact hnone _ ((hok uuid).mp (by rw [hdecode, hread]; rfl))
    · rw [hdecode, decode_odd hhex hodd (by omega)] at hresult
      cases hresult
  · intro hbad
    refine faithful_of_throw (hdecode.trans (decode_bad ?_ (by omega))) hnone
    simpa only [not_forall, exists_prop] using hbad

/--
The parser accepts the two forms of a UUID and nothing else, without a panic, except
on hyphenated texts with stray hyphens among their digits.
-/
theorem accepts_two_forms_iff (s : Bytes) : Faithful s ↔ ¬ StrayHyphens s := by
  by_cases hlength : s.length = 36
  · by_cases hhyphens : Hyphenated s
    · obtain hcount | hcount := (hhyphens.count hlength).eq_or_lt
      · refine iff_of_true ?_ fun hstray => absurd hcount hstray.2.2.1.ne
        refine faithful_of_decode (by rw [fromStr_of_length hlength, if_pos hhyphens])
          (hhyphens.form hlength hcount.symm) fun digits' hform' hhex' => hform'.digits_eq hhex'
      · rw [faithful_of_count hlength hhyphens hcount]
        simp [StrayHyphens, hlength, hhyphens, hcount]
    · refine iff_of_true (faithful_of_throw ?_ ?_) fun hstray => hhyphens hstray.2.1
      · rw [fromStr_of_length hlength, if_neg hhyphens]
      · rintro bytes ⟨digits, hform, -⟩
        cases hform with
        | bare length => omega
        | hyphenated ha hb hc hd he =>
            refine hhyphens ⟨?_, ?_, ?_, ?_⟩ <;>
              simp [List.getElem?_append, ha, hb, hc, hd]
  · refine iff_of_true ?_ fun hstray => hlength hstray.1
    by_cases hbare : s.length = 32
    · refine faithful_of_decode (by rw [fromStr, if_neg hlength, if_pos hbare]) (.bare hbare)
        fun digits' hform' _ => ?_
      cases hform' with
      | bare => rfl
      | hyphenated ha hb hc hd he => simp [ha, hb, hc, hd, he] at hbare
    · refine faithful_of_throw (by rw [fromStr, if_neg hlength, if_neg hbare]) ?_
      rintro bytes ⟨digits, hform, -⟩
      cases hform with
      | bare length => exact hbare length
      | hyphenated ha hb hc hd he => simp [ha, hb, hc, hd, he] at hlength

def oddText : Bytes := "f6423bdf-b49e-4913-b361-0740c9702e4-".toUTF8.data.toList

set_option maxRecDepth 4000 in
/-- A fifth hyphen in place of a digit makes the parser panic. -/
theorem fifth_hyphen_panics : (fromStr oddText).run = .error .index ∧ ¬ ∀ s, Faithful s := by
  have hpanic : (fromStr oddText).run = .error .index := by rfl
  refine ⟨hpanic, fun hall => ?_⟩
  obtain ⟨⟨result, hresult⟩, -⟩ := hall oddText
  rw [hpanic] at hresult
  cases hresult

end Uuid

end Tarant
