import Tarant.Uuid

/-!
# A UUID as text

`Display` writes its 36 bytes with a cursor, which steps over a hyphen before four of the
bytes of the UUID.  The parser reads the text back, whatever the case of its letters and
with or without the hyphens.
-/

namespace Tarant.Uuid

open Foundation
open Checked (Fault at?)

/-! ## The functions -/

def hexDigits : Bytes :=
  [0x30, 0x31, 0x32, 0x33, 0x34, 0x35, 0x36, 0x37, 0x38, 0x39, 0x61, 0x62, 0x63, 0x64, 0x65, 0x66]

def write (out : Bytes) (pos : Nat) (byte : UInt8) : Except Fault Bytes :=
  if pos < out.length then .ok (out.set pos byte) else .error .index

def startsGroup (i : Nat) : Bool := i == 4 || i == 6 || i == 8 || i == 10

def writeHyphen (i : Nat) (out : Bytes) (pos : Nat) : Except Fault (Bytes × Nat) :=
  if startsGroup i then do
    let out ← write out pos hyphen
    return (out, pos + 1)
  else return (out, pos)

def writeDigits (byte : UInt8) (out : Bytes) (pos : Nat) : Except Fault Bytes := do
  let out ← write out pos (← at? hexDigits (byte >>> 4).toNat)
  write out (pos + 1) (← at? hexDigits (byte &&& 0x0f).toNat)

def writeBytes : Nat → Bytes → Bytes → Nat → Except Fault Bytes
  | _, [], out, _ => return out
  | i, byte :: rest, out, pos => do
      let (out, pos) ← writeHyphen i out pos
      let out ← writeDigits byte out pos
      writeBytes (i + 1) rest out (pos + 2)

def display (uuid : Uuid) : Except Fault Bytes := writeBytes 0 uuid.bytes (List.replicate 36 0) 0

/-! ## The digits of a byte -/

def byteText (byte : UInt8) : Bytes :=
  [hexDigits[(byte >>> 4).toNat]?.getD 0, hexDigits[(byte &&& 0x0f).toNat]?.getD 0]

def hexText (bytes : Bytes) : Bytes := bytes.flatMap byteText

def LowerHex (c : UInt8) : Prop := 0x30 ≤ c ∧ c ≤ 0x39 ∨ 0x61 ≤ c ∧ c ≤ 0x66

instance : DecidablePred LowerHex := fun _ => inferInstanceAs (Decidable (_ ∨ _))

def asciiLower (c : UInt8) : UInt8 := if 0x41 ≤ c ∧ c ≤ 0x5a then c + 0x20 else c

theorem at_hex (byte : UInt8) :
    at? hexDigits (byte >>> 4).toNat = .ok (hexDigits[(byte >>> 4).toNat]?.getD 0) ∧
      at? hexDigits (byte &&& 0x0f).toNat = .ok (hexDigits[(byte &&& 0x0f).toNat]?.getD 0) := by
  revert byte
  exact forall_byte (by decide)

theorem lowerHex_byteText (byte : UInt8) : ∀ c ∈ byteText byte, LowerHex c := by
  have hbyte : ∀ byte : UInt8, LowerHex (hexDigits[(byte >>> 4).toNat]?.getD 0) ∧
      LowerHex (hexDigits[(byte &&& 0x0f).toNat]?.getD 0) := forall_byte (by decide)
  simpa [byteText] using hbyte byte

theorem readHex_byteText (byte : UInt8) (rest : Bytes) :
    readHex (byteText byte ++ rest) = byte :: readHex rest := by
  have hbyte : ∀ byte : UInt8, UInt8.ofNat (16 * hexValue (hexDigits[(byte >>> 4).toNat]?.getD 0) +
      hexValue (hexDigits[(byte &&& 0x0f).toNat]?.getD 0)) = byte := forall_byte (by decide)
  exact congrArg (· :: readHex rest) (hbyte byte)

theorem readHex_hexText (bytes : Bytes) : readHex (hexText bytes) = bytes := by
  induction bytes with
  | nil => rfl
  | cons byte rest ih =>
      rw [hexText, List.flatMap_cons, readHex_byteText, ← hexText, ih]

theorem length_hexText (bytes : Bytes) : (hexText bytes).length = 2 * bytes.length := by
  induction bytes with
  | nil => rfl
  | cons byte rest ih =>
      rw [hexText, List.flatMap_cons, List.length_append, ← hexText, ih, List.length_cons]
      change 2 + _ = _
      omega

theorem hexText_append (bytes more : Bytes) : hexText (bytes ++ more) = hexText bytes ++ hexText more :=
  List.flatMap_append

/-! ## The cursor -/

def groupText (i : Nat) : Bytes := if startsGroup i then [hyphen] else []

def textFrom : Nat → Bytes → Bytes
  | _, [] => []
  | i, byte :: rest => groupText i ++ byteText byte ++ textFrom (i + 1) rest

theorem write_next (written : Bytes) (room : Nat) (byte : UInt8) :
    write (written ++ List.replicate (room + 1) 0) written.length byte =
      .ok (written ++ [byte] ++ List.replicate room 0) := by
  rw [write, if_pos (by simp)]
  simp [List.replicate_succ]

theorem writeHyphen_next (i : Nat) (written : Bytes) (room : Nat) :
    writeHyphen i (written ++ List.replicate ((groupText i).length + room) 0) written.length =
      .ok (written ++ groupText i ++ List.replicate room 0, (written ++ groupText i).length) := by
  unfold writeHyphen groupText
  split
  next =>
      rw [List.length_singleton, Nat.add_comm, write_next, List.length_append]
      rfl
  next => simp [pure, Except.pure]

theorem writeDigits_next (byte : UInt8) (written : Bytes) (room : Nat) :
    writeDigits byte (written ++ List.replicate (2 + room) 0) written.length =
      .ok (written ++ byteText byte ++ List.replicate room 0) := by
  have hfirst := write_next written (room + 1) (hexDigits[(byte >>> 4).toNat]?.getD 0)
  have hsecond := write_next (written ++ [hexDigits[(byte >>> 4).toNat]?.getD 0]) room
    (hexDigits[(byte &&& 0x0f).toNat]?.getD 0)
  rw [List.length_append, List.length_singleton] at hsecond
  rw [writeDigits, (at_hex byte).1, (at_hex byte).2, Nat.add_comm]
  change (write (written ++ List.replicate (room + 1 + 1) 0) _ _ >>= _) = _
  rw [hfirst]
  refine hsecond.trans ?_
  rw [List.append_assoc written]
  rfl

theorem writeBytes_eq (i : Nat) (bytes written : Bytes) (room : Nat) :
    writeBytes i bytes (written ++ List.replicate ((textFrom i bytes).length + room) 0)
        written.length =
      .ok (written ++ textFrom i bytes ++ List.replicate room 0) := by
  induction bytes generalizing i written with
  | nil => simp [writeBytes, textFrom, pure, Except.pure]
  | cons byte rest ih =>
      have hroom : (textFrom i (byte :: rest)).length + room =
          (groupText i).length + (2 + ((textFrom (i + 1) rest).length + room)) := by
        simp [textFrom, byteText]
        omega
      have hnext := ih (i + 1) (written ++ groupText i ++ byteText byte)
      have hpos : (written ++ groupText i ++ byteText byte).length =
          (written ++ groupText i).length + 2 := List.length_append
      rw [hpos] at hnext
      rw [hroom, writeBytes, writeHyphen_next]
      change (writeDigits byte _ _ >>= _) = _
      rw [writeDigits_next]
      refine hnext.trans ?_
      simp [textFrom]

theorem textFrom_within {i : Nat} {bytes : Bytes}
    (h : ∀ j, i ≤ j → j < i + bytes.length → startsGroup j = false) :
    textFrom i bytes = hexText bytes := by
  induction bytes generalizing i with
  | nil => rfl
  | cons byte rest ih =>
      have hfirst : groupText i = [] := by
        rw [groupText, h i (Nat.le_refl i) (by simp)]
        rfl
      have hrest := ih (i := i + 1) fun j hle hlt => h j (by omega) (by
        rw [List.length_cons]
        omega)
      rw [textFrom, hfirst, hrest]
      rfl

theorem textFrom_append (i : Nat) (bytes more : Bytes) :
    textFrom i (bytes ++ more) = textFrom i bytes ++ textFrom (i + bytes.length) more := by
  induction bytes generalizing i with
  | nil => rfl
  | cons byte rest ih =>
      rw [List.cons_append, textFrom, textFrom, ih, List.length_cons,
        show i + 1 + rest.length = i + (rest.length + 1) by omega]
      simp only [List.append_assoc]

theorem textFrom_group {i : Nat} {bytes : Bytes} (hstart : startsGroup i = true) (hne : bytes ≠ [])
    (h : ∀ j, i < j → j < i + bytes.length → startsGroup j = false) :
    textFrom i bytes = hyphen :: hexText bytes := by
  cases bytes with
  | nil => exact absurd rfl hne
  | cons byte rest =>
      have hfirst : groupText i = [hyphen] := if_pos hstart
      have hrest := @textFrom_within (i + 1) rest fun j hle hlt =>
        h j (by omega) (by
          rw [List.length_cons]
          omega)
      rw [textFrom, hfirst, hrest]
      rfl

theorem groups {bytes : Bytes} (h : bytes.length = 16) : ∃ a b c d e : Bytes, a.length = 4 ∧
    b.length = 2 ∧ c.length = 2 ∧ d.length = 2 ∧ e.length = 6 ∧
    bytes = a ++ (b ++ (c ++ (d ++ e))) := by
  refine ⟨bytes.take 4, (bytes.drop 4).take 2, (bytes.drop 6).take 2, (bytes.drop 8).take 2,
    bytes.drop 10, by simp [h], by simp [h], by simp [h], by simp [h], by simp [h], ?_⟩
  have hb := List.take_append_drop 2 (bytes.drop 4)
  have hc := List.take_append_drop 2 (bytes.drop 6)
  have hd := List.take_append_drop 2 (bytes.drop 8)
  rw [List.drop_drop] at hb hc hd
  rw [hd, hc, hb, List.take_append_drop]

theorem startsGroup_iff (i : Nat) : startsGroup i = false ↔ i ≠ 4 ∧ i ≠ 6 ∧ i ≠ 8 ∧ i ≠ 10 := by
  simp [startsGroup, and_assoc]

theorem textFrom_form {bytes : Bytes} (h : bytes.length = 16) :
    Form (textFrom 0 bytes) (hexText bytes) ∧ (textFrom 0 bytes).length = 36 := by
  obtain ⟨a, b, c, d, e, ha, hb, hc, hd, he, rfl⟩ := groups h
  have hne {l : Bytes} {k : Nat} (hl : l.length = k + 1) : l ≠ [] := by
    rintro rfl
    cases hl
  have hwithin (i : Nat) (l : Bytes)
      (hl : l.length ≤ 4 ∧ i = 0 ∨ l.length ≤ 2 ∧ 4 ≤ i ∧ i % 2 = 0 ∨ i = 10) :
      ∀ j, i < j → j < i + l.length → startsGroup j = false := by
    intro j hlt hlt'
    rw [startsGroup_iff]
    omega
  have htext : textFrom 0 (a ++ (b ++ (c ++ (d ++ e)))) = hexText a ++ hyphen :: (hexText b ++
      hyphen :: (hexText c ++ hyphen :: (hexText d ++ hyphen :: hexText e))) := by
    have hfirst : textFrom 0 a = hexText a := textFrom_within fun j _ hlt => by
      rw [startsGroup_iff]
      omega
    simp only [textFrom_append, ha, hb, hc, hd]
    rw [hfirst, textFrom_group rfl (hne hb) (hwithin _ b (by omega)),
      textFrom_group rfl (hne hc) (hwithin _ c (by omega)),
      textFrom_group rfl (hne hd) (hwithin _ d (by omega)),
      textFrom_group rfl (hne he) (hwithin _ e (by omega))]
    simp
  have hdigits : hexText (a ++ (b ++ (c ++ (d ++ e)))) =
      hexText a ++ (hexText b ++ (hexText c ++ (hexText d ++ hexText e))) := by
    simp only [hexText_append]
  refine ⟨?_, ?_⟩
  · rw [htext, hdigits]
    exact .hyphenated (by rw [length_hexText, ha]) (by rw [length_hexText, hb])
      (by rw [length_hexText, hc]) (by rw [length_hexText, hd]) (by rw [length_hexText, he])
  · rw [htext]
    simp [length_hexText, ha, hb, hc, hd, he]

theorem display_eq (uuid : Uuid) : display uuid = .ok (textFrom 0 uuid.bytes) := by
  have hwritten := writeBytes_eq 0 uuid.bytes [] 0
  rw [Nat.add_zero, (textFrom_form uuid.length_eq).2] at hwritten
  simpa [display] using hwritten

/-! ## The way back -/

theorem fromStr_form {s digits : Bytes} (h : Form s digits) (hhex : ∀ c ∈ digits, IsHex c) :
    ∃ uuid, (fromStr s).run = .ok (.ok uuid) ∧ uuid.bytes = readHex digits := by
  have hlength := h.length_digits
  have hdecodes : fromStr s = decode 0 nil (chunksOfTwo digits) := by
    have hdigits := h.digits_eq hhex
    cases h with
    | bare =>
        rw [fromStr, if_neg (by omega), if_pos hlength]
    | hyphenated ha hb hc hd he =>
        rw [fromStr_of_length (by simp [ha, hb, hc, hd, he]), if_pos, ← hdigits]
        refine ⟨?_, ?_, ?_, ?_⟩ <;> simp [List.getElem?_append, ha, hb, hc, hd]
  obtain ⟨uuid, hdecode, hbytes⟩ := decode_even 0 nil hhex (by omega) (by omega)
  refine ⟨uuid, ?_, ?_⟩
  · rw [hdecodes, hdecode]
    rfl
  · rw [hbytes, hlength]
    simp [nil]

theorem asciiLower_hyphen (c : UInt8) : asciiLower c = hyphen → c = hyphen := by
  revert c
  exact forall_byte (by decide)

theorem hex_asciiLower (c : UInt8) :
    LowerHex (asciiLower c) → IsHex c ∧ hexValue c = hexValue (asciiLower c) := by
  revert c
  exact forall_byte (by decide)

theorem lowerHex_hexText {bytes : Bytes} : ∀ c ∈ hexText bytes, LowerHex c := by
  intro c hmem
  obtain ⟨byte, -, hdigit⟩ := List.mem_flatMap.mp hmem
  exact lowerHex_byteText byte c hdigit

theorem Form.of_lower {s digits t : Bytes} (h : Form s digits) (ht : t.map asciiLower = s) :
    ∃ digits', Form t digits' ∧ digits'.map asciiLower = digits := by
  cases h with
  | bare length => exact ⟨t, .bare (by rw [← length, ← ht, List.length_map]), ht⟩
  | hyphenated ha hb hc hd he =>
      obtain ⟨a, _, rfl, rfl, h8⟩ := List.map_eq_append_iff.mp ht
      obtain ⟨_, _, rfl, hfirst, h9⟩ := List.map_eq_cons_iff.mp h8
      obtain ⟨b, _, rfl, rfl, h13⟩ := List.map_eq_append_iff.mp h9
      obtain ⟨_, _, rfl, hsecond, h14⟩ := List.map_eq_cons_iff.mp h13
      obtain ⟨c, _, rfl, rfl, h18⟩ := List.map_eq_append_iff.mp h14
      obtain ⟨_, _, rfl, hthird, h19⟩ := List.map_eq_cons_iff.mp h18
      obtain ⟨d, _, rfl, rfl, h23⟩ := List.map_eq_append_iff.mp h19
      obtain ⟨_, e, rfl, hfourth, rfl⟩ := List.map_eq_cons_iff.mp h23
      obtain rfl := asciiLower_hyphen _ hfirst
      obtain rfl := asciiLower_hyphen _ hsecond
      obtain rfl := asciiLower_hyphen _ hthird
      obtain rfl := asciiLower_hyphen _ hfourth
      rw [List.length_map] at ha hb hc hd he
      exact ⟨_, .hyphenated ha hb hc hd he, by simp⟩

theorem readHex_lower {digits : Bytes} (h : ∀ c ∈ digits.map asciiLower, LowerHex c) :
    readHex digits = readHex (digits.map asciiLower) := by
  fun_induction readHex digits with
  | case1 hi lo rest ih =>
      simp only [List.map_cons, List.forall_mem_cons] at h
      obtain ⟨hhi, hlo, hrest⟩ := h
      rw [List.map_cons, List.map_cons, readHex, ih hrest, (hex_asciiLower hi hhi).2,
        (hex_asciiLower lo hlo).2]
  | case2 digits hshort =>
      rcases digits with - | ⟨hi, - | ⟨lo, rest⟩⟩
      · rfl
      · rfl
      · exact absurd rfl (hshort hi lo rest)

theorem fromStr_lower {s bytes t : Bytes} (h : Form s (hexText bytes))
    (ht : t.map asciiLower = s) :
    ∃ uuid, (fromStr t).run = .ok (.ok uuid) ∧ uuid.bytes = bytes := by
  obtain ⟨digits, hform, hdigits⟩ := h.of_lower ht
  have hlower : ∀ c ∈ digits.map asciiLower, LowerHex c := by
    rw [hdigits]
    exact lowerHex_hexText
  have hhex : ∀ c ∈ digits, IsHex c := fun c hmem =>
    (hex_asciiLower c (hlower _ (List.mem_map_of_mem hmem))).1
  obtain ⟨uuid, hok, hbytes⟩ := fromStr_form hform hhex
  refine ⟨uuid, hok, ?_⟩
  rw [hbytes, readHex_lower hlower, hdigits, readHex_hexText]

theorem forall_mem_form {p : UInt8 → Prop} {s digits : Bytes} (h : Form s digits)
    (hhyphen : p hyphen) (hdigits : ∀ c ∈ digits, p c) : ∀ c ∈ s, p c := by
  cases h with
  | bare => exact hdigits
  | hyphenated =>
      simp only [List.forall_mem_append, List.forall_mem_cons] at hdigits ⊢
      obtain ⟨ha, hb, hc, hd, he⟩ := hdigits
      exact ⟨ha, hhyphen, hb, hhyphen, hc, hhyphen, hd, hhyphen, he⟩

theorem ascii_of_form {s digits : Bytes} (h : Form s digits) (hlower : ∀ c ∈ digits, LowerHex c) :
    ∀ c ∈ s, c < 0x80 := by
  have hdigit : ∀ c : UInt8, LowerHex c → c < 0x80 := forall_byte (by decide)
  exact forall_mem_form h (by decide) fun c hmem => hdigit c (hlower c hmem)

theorem lower_of_form {s digits : Bytes} (h : Form s digits) (hlower : ∀ c ∈ digits, LowerHex c) :
    s.map asciiLower = s := by
  have hdigit : ∀ c : UInt8, LowerHex c → asciiLower c = c := forall_byte (by decide)
  have hstill : ∀ c ∈ s, asciiLower c = c :=
    forall_mem_form h (by decide) fun c hmem => hdigit c (hlower c hmem)
  rw [List.map_congr_left hstill, List.map_id']

/--
The text of a UUID is 36 ASCII bytes, in lower case and with the four hyphens.  In any case
of its letters, with the hyphens or without them, it is read back as the UUID.
-/
theorem text_round_trips :
    (∀ uuid : Uuid, ∃ text, display uuid = .ok text ∧ text.length = 36 ∧ (∀ c ∈ text, c < 0x80) ∧
      (∃ digits, Form text digits ∧ ∀ c ∈ digits, LowerHex c) ∧
      (fromStr text).run = .ok (.ok uuid) ∧
      (fromStr (text.filter (· ≠ hyphen))).run = .ok (.ok uuid) ∧
      ∀ t : Bytes, t.map asciiLower = text ∨ t.map asciiLower = text.filter (· ≠ hyphen) →
        (fromStr t).run = .ok (.ok uuid)) ∧
      ∀ uuid other : Uuid, display uuid = display other → uuid = other := by
  have hreads (uuid : Uuid) {s t : Bytes} (hs : Form s (hexText uuid.bytes))
      (ht : t.map asciiLower = s) : (fromStr t).run = .ok (.ok uuid) := by
    obtain ⟨uuid', hok, hbytes⟩ := fromStr_lower hs ht
    rw [hok, Uuid.ext hbytes]
  have htext (uuid : Uuid) := (textFrom_form uuid.length_eq).1
  have hbare (uuid : Uuid) : (textFrom 0 uuid.bytes).filter (· ≠ hyphen) = hexText uuid.bytes :=
    ((htext uuid).digits_eq fun c hmem => (lowerHex_hexText c hmem).imp_right Or.inl).symm
  have hdigits (uuid : Uuid) : Form (hexText uuid.bytes) (hexText uuid.bytes) :=
    .bare (htext uuid).length_digits
  refine ⟨fun uuid => ⟨textFrom 0 uuid.bytes, display_eq uuid, (textFrom_form uuid.length_eq).2,
    ascii_of_form (htext uuid) lowerHex_hexText, ⟨_, htext uuid, lowerHex_hexText⟩,
    hreads uuid (htext uuid) (lower_of_form (htext uuid) lowerHex_hexText), ?_, ?_⟩, ?_⟩
  · rw [hbare]
    exact hreads uuid (hdigits uuid) (lower_of_form (hdigits uuid) lowerHex_hexText)
  · intro t ht
    rw [hbare] at ht
    exact ht.elim (hreads uuid (htext uuid)) (hreads uuid (hdigits uuid))
  · intro uuid other hsame
    rw [display_eq, display_eq] at hsame
    have hback := hreads uuid (htext uuid) (lower_of_form (htext uuid) lowerHex_hexText)
    have hother := hreads other (htext other) (lower_of_form (htext other) lowerHex_hexText)
    rw [Except.ok.inj hsame] at hback
    exact Except.ok.inj (Except.ok.inj (hback.symm.trans hother))

end Tarant.Uuid
