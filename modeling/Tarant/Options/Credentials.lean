import Tarant.Options.Escapes

/-!
# Credentials in a URL

A user name and a password are written with an escape for every byte that is not
unreserved, so that no separator of a URL is left in them.  Parsing gives them back.
-/

namespace Tarant.Options

open Foundation
open Uuid (IsHex hexValue)

/-! ## Writing escapes -/

def Unreserved (c : UInt8) : Prop :=
  0x41 ≤ c ∧ c ≤ 0x5a ∨ 0x61 ≤ c ∧ c ≤ 0x7a ∨ 0x30 ≤ c ∧ c ≤ 0x39 ∨
    c = 0x2d ∨ c = 0x2e ∨ c = 0x5f ∨ c = 0x7e

instance : DecidablePred Unreserved := fun _ => inferInstanceAs (Decidable (_ ∨ _))

inductive Encodes : Bytes → Bytes → Prop
  | nil : Encodes [] []
  | plain {c : UInt8} {rest text : Bytes} (hc : Unreserved c) (hrest : Encodes rest text) :
      Encodes (c :: rest) (c :: text)
  | escape {c hi lo : UInt8} {rest text : Bytes} (hc : ¬ Unreserved c) (hhi : IsHex hi)
      (hlo : IsHex lo) (hvalue : 16 * hexValue hi + hexValue lo = c.toNat)
      (hrest : Encodes rest text) : Encodes (c :: rest) (percent :: hi :: lo :: text)

def EncodedAs (s text : String) : Prop := Encodes (asBytes s) (asBytes text)

def hexDigit (upper : Bool) (n : Nat) : UInt8 :=
  UInt8.ofNat (if n < 10 then 0x30 + n else if upper then 0x37 + n else 0x57 + n)

def encodeByte (upper : Bool) (c : UInt8) : Bytes :=
  if Unreserved c then [c]
  else [percent, hexDigit upper (c.toNat / 16), hexDigit upper (c.toNat % 16)]

def encode (upper : Bool) (s : String) : String :=
  asciiString ((asBytes s).flatMap (encodeByte upper))

theorem hexDigit_hex (upper : Bool) :
    ∀ n < 16, IsHex (hexDigit upper n) ∧ hexValue (hexDigit upper n) = n := by
  cases upper <;> decide

theorem encodes_flatMap (upper : Bool) (bytes : Bytes) :
    Encodes bytes (bytes.flatMap (encodeByte upper)) := by
  induction bytes with
  | nil => exact .nil
  | cons c rest ih =>
      have hlt := c.toNat_lt
      rw [List.flatMap_cons, encodeByte]
      split
      next hc => exact .plain hc ih
      next hc =>
          obtain ⟨hhi, hhiValue⟩ := hexDigit_hex upper (c.toNat / 16) (by omega)
          obtain ⟨hlo, hloValue⟩ := hexDigit_hex upper (c.toNat % 16) (by omega)
          refine .escape hc hhi hlo ?_ ih
          rw [hhiValue, hloValue, Nat.div_add_mod]

theorem Encodes.reading {bytes text : Bytes} (h : Encodes bytes text) : Reading text bytes 0 := by
  have hplain : ∀ c : UInt8, Unreserved c → c ≠ percent := forall_byte (by decide)
  induction h with
  | nil => exact .done
  | plain hc hrest ih => exact .plain (hplain _ hc) ih
  | @escape c hi lo rest text hc hhi hlo hvalue hrest ih =>
      have hread := Reading.escape hhi hlo ih
      rwa [hvalue, UInt8.ofNat_toNat] at hread

theorem Encodes.mem {bytes text : Bytes} (h : Encodes bytes text) :
    ∀ c ∈ text, Unreserved c ∨ c = percent ∨ IsHex c := by
  induction h with
  | nil => simp
  | plain hc hrest ih => exact List.forall_mem_cons.mpr ⟨.inl hc, ih⟩
  | escape hc hhi hlo hvalue hrest ih =>
      refine List.forall_mem_cons.mpr ⟨.inr (.inl rfl), ?_⟩
      refine List.forall_mem_cons.mpr ⟨.inr (.inr hhi), ?_⟩
      exact List.forall_mem_cons.mpr ⟨.inr (.inr hlo), ih⟩

theorem encodedAs_encode (upper : Bool) (s : String) : EncodedAs s (encode upper s) := by
  have hencodes := encodes_flatMap upper (asBytes s)
  have hascii : ∀ c : UInt8, Unreserved c ∨ c = percent ∨ IsHex c → c < 0x80 :=
    forall_byte (by decide)
  have hbytes : asBytes (encode upper s) = (asBytes s).flatMap (encodeByte upper) :=
    asciiString_bytes fun c hmem => hascii c (hencodes.mem c hmem)
  rw [EncodedAs, hbytes]
  exact hencodes

theorem percentDecode_encoded {s text : String} (h : EncodedAs s text) :
    percentDecode text = .ok s :=
  percentDecode_ok_iff.mpr ⟨0, h.reading⟩

/-! ## The separators of a URL -/

theorem mem_asBytes {s : String} {c : Char} (hmem : c ∈ s.toList) (hascii : c.val ≤ 0x7f) :
    c.val.toUInt8 ∈ asBytes s := by
  have hencode : String.utf8EncodeChar c = [c.val.toUInt8] := by
    rw [String.utf8EncodeChar]
    exact if_pos hascii
  have hbytes : asBytes s = s.toList.flatMap String.utf8EncodeChar := by
    rw [asBytes, ← String.utf8Encode_toList]
    simp [List.utf8Encode]
  rw [hbytes]
  exact List.mem_flatMap.mpr ⟨c, hmem, by rw [hencode]; exact List.mem_singleton_self _⟩

theorem EncodedAs.no_separator {s text : String} (h : EncodedAs s text) :
    '@' ∉ text.toList ∧ ':' ∉ text.toList ∧ '/' ∉ text.toList := by
  have hbyte : ∀ c : UInt8, Unreserved c ∨ c = percent ∨ IsHex c →
      c ≠ 0x40 ∧ c ≠ 0x3a ∧ c ≠ 0x2f := forall_byte (by decide)
  have hall : ∀ c ∈ asBytes text, c ≠ 0x40 ∧ c ≠ 0x3a ∧ c ≠ 0x2f :=
    fun c hmem => hbyte c (h.mem c hmem)
  refine ⟨fun hmem => ?_, fun hmem => ?_, fun hmem => ?_⟩
  · exact (hall _ (mem_asBytes hmem (by decide))).1 rfl
  · exact (hall _ (mem_asBytes hmem (by decide))).2.1 rfl
  · exact (hall _ (mem_asBytes hmem (by decide))).2.2 rfl

theorem contains_iff {s : String} {c : Char} : contains s c = true ↔ c ∈ s.toList :=
  decide_eq_true_iff

theorem rsplitOnce_at (front : String) {back : String} (h : '@' ∉ back.toList) :
    rsplitOnce (front ++ "@" ++ back) '@' = some (front, back) := by
  have hlist : (front ++ "@" ++ back).toList = front.toList ++ '@' :: back.toList := by simp
  rw [rsplitOnce, hlist, splitLast_append _ h]
  simp

theorem splitOnce_colon {front : String} (back : String) (h : ':' ∉ front.toList) :
    splitOnce (front ++ ":" ++ back) ':' = some (front, back) := by
  have hlist : (front ++ ":" ++ back).toList = front.toList ++ ':' :: back.toList := by simp
  rw [splitOnce, hlist, splitFirst_append _ h]
  simp

theorem stripPrefix_append (start rest : String) :
    stripPrefix (start ++ rest) start = some rest := by
  have hrest : start.toList.isPrefixOf? (start ++ rest).toList = some rest.toList := by
    rw [List.isPrefixOf?_eq_some_iff_append_eq, String.toList_append]
  rw [stripPrefix, hrest]
  simp

theorem stripPrefix_none {s : String} (h : '/' ∉ s.toList) :
    stripPrefix s "tarantool://" = none := by
  rw [stripPrefix, Option.map_eq_none_iff, Option.eq_none_iff_forall_ne_some]
  intro rest hrest
  rw [List.isPrefixOf?_eq_some_iff_append_eq] at hrest
  refine h ?_
  rw [← hrest]
  exact List.mem_append_left _ (by decide)

/-! ## Parsing -/

namespace ConnectOptions

theorem parse_with {url rest credentials host : String}
    (hrest : (stripPrefix url "tarantool://").getD url = rest)
    (hsplit : rsplitOnce rest '@' = some (credentials, host)) (hne : host ≠ "")
    (hpath : '/' ∉ host.toList) : parse url = (new host).withCredentials credentials := by
  have hnone : ¬ contains host '/' = true := fun h => hpath (contains_iff.mp h)
  rw [parse, hrest, splitHost, hsplit]
  simp only
  rw [if_neg hne, if_neg hnone]

theorem withCredentials_encoded {options : ConnectOptions}
    {user password userText passwordText : String} (huser : EncodedAs user userText)
    (hpassword : EncodedAs password passwordText) :
    options.withCredentials (userText ++ ":" ++ passwordText) =
      .ok { options with user := some user, password := some password } := by
  rw [withCredentials, splitCredentials, splitOnce_colon _ huser.no_separator.2.1]
  change (percentDecode userText >>= fun user => (some <$> percentDecode passwordText) >>= _) = _
  rw [percentDecode_encoded huser, percentDecode_encoded hpassword]
  rfl

theorem stripped {scheme rest : String} (hscheme : scheme = "" ∨ scheme = "tarantool://")
    (h : '/' ∉ rest.toList) :
    (stripPrefix (scheme ++ rest) "tarantool://").getD (scheme ++ rest) = rest := by
  obtain rfl | rfl := hscheme
  · rw [String.empty_append, stripPrefix_none h]
    rfl
  · rw [stripPrefix_append]
    rfl

/--
Credentials written with escapes are parsed back, whatever is in them, in front of any host
and with or without the scheme.  The decoder reads every encoding of every string.
-/
theorem carries_credentials :
    (∀ (s text : String), EncodedAs s text → percentDecode text = .ok s) ∧
      (∀ (upper : Bool) (s : String), EncodedAs s (encode upper s)) ∧
      ∀ (scheme user password userText passwordText host : String),
        scheme = "" ∨ scheme = "tarantool://" → EncodedAs user userText →
        EncodedAs password passwordText → host ≠ "" → '@' ∉ host.toList → '/' ∉ host.toList →
        parse (scheme ++ (userText ++ ":" ++ passwordText ++ "@" ++ host)) =
          .ok { new host with user := some user, password := some password } := by
  refine ⟨fun s text => percentDecode_encoded, encodedAs_encode, ?_⟩
  intro scheme user password userText passwordText host hscheme huser hpassword hne hat hpath
  have hnoPath : '/' ∉ (userText ++ ":" ++ passwordText ++ "@" ++ host).toList := by
    simp [huser.no_separator.2.2, hpassword.no_separator.2.2, hpath]
  rw [parse_with (stripped hscheme hnoPath) (rsplitOnce_at _ hat) hne hpath,
    withCredentials_encoded huser hpassword]

theorem carries_credentials_sample :
    parse ("tarantool://" ++ ("a%40b" ++ ":" ++ "%c3%A9" ++ "@" ++ "db:3302")) =
      .ok { new "db:3302" with user := some "a@b", password := some "é" } := by
  have huser : EncodedAs "a@b" "a%40b" :=
    .plain (by decide) (.escape (by decide) (by decide) (by decide) (by decide)
      (.plain (by decide) .nil))
  have hpassword : EncodedAs "é" "%c3%A9" :=
    .escape (by decide) (by decide) (by decide) (by decide)
      (.escape (by decide) (by decide) (by decide) (by decide) .nil)
  exact carries_credentials.2.2 _ _ _ _ _ _ (.inr rfl) huser hpassword (by decide) (by decide)
    (by decide)

end ConnectOptions

end Tarant.Options
