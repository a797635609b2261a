import Tarant.Error
import Tarant.Foundation.Base64
import Tarant.Foundation.Pairs

/-!
# The `chap-sha1` handshake

The greeting carries a salt in base64.  The client folds the password and the first bytes of
the salt through SHA-1, which comes from a crate and is a parameter here.  The decoder inverts
the encoding of RFC 4648.  It does not look at what follows the padding of a group, nor at what
follows a group that begins with padding.
-/

namespace Tarant.Auth

open Foundation (forall_byte)
open Foundation.Base64

/-! ## Decoding -/

def decodeSymbol (c : UInt8) : Option UInt8 :=
  if 0x41 ≤ c ∧ c ≤ 0x5a then some (c - 0x41)
  else if 0x61 ≤ c ∧ c ≤ 0x7a then some (c - 0x61 + 26)
  else if 0x30 ≤ c ∧ c ≤ 0x39 then some (c - 0x30 + 52)
  else if c = 0x2b then some 62
  else if c = 0x2f then some 63
  else none

/-- `input.chunks(4)`. -/
def chunksOfFour : Bytes → List Bytes
  | [] => []
  | a :: b :: c :: d :: rest => [a, b, c, d] :: chunksOfFour rest
  | last => [last]

def sextets : Bytes → Option (List UInt8)
  | [] => some []
  | c :: chunk =>
      if c = pad then some []
      else do return (← decodeSymbol c) :: (← sextets chunk)

def decodeChunks : List Bytes → Bytes → Option Bytes
  | [], out => some out
  | chunk :: rest, out =>
      match sextets chunk with
      | none => none
      | some [] => some out
      -- a base64 group is never a single symbol
      | some [_] => none
      | some [s₀, s₁] => decodeChunks rest (out ++ [s₀ <<< 2 ||| s₁ >>> 4])
      | some [s₀, s₁, s₂] =>
          decodeChunks rest (out ++ [s₀ <<< 2 ||| s₁ >>> 4, s₁ <<< 4 ||| s₂ >>> 2])
      | some (s₀ :: s₁ :: s₂ :: s₃ :: _) =>
          decodeChunks rest
            (out ++ [s₀ <<< 2 ||| s₁ >>> 4, s₁ <<< 4 ||| s₂ >>> 2, s₂ <<< 6 ||| s₃])

/-- Decode standard base64 (RFC 4648, `+/` alphabet, optional `=` padding). -/
def decodeBase64 (input : Bytes) : Option Bytes := decodeChunks (chunksOfFour input) []

/-! ## The scramble -/

def saltB64Len : Nat := 44

/-- How many bytes of the decoded salt take part in the scramble. -/
def saltUsedLen : Nat := 20

abbrev Digest := Vector UInt8 20

/-- `slice.get(..stop)`. -/
def getTo (bytes : Bytes) (stop : Nat) : Option Bytes :=
  if stop ≤ bytes.length then some (bytes.take stop) else none

def scramble (sha1 : Bytes → Digest) (salt : Bytes) (password : String) : Digest :=
  let step₁ := sha1 (asBytes password)
  let step₂ := sha1 step₁.toList
  let step₃ := sha1 (salt ++ step₂.toList)
  step₁.zipWith (· ^^^ ·) step₃

def chapSha1 (sha1 : Bytes → Digest) (saltLine : Bytes) (password : String) :
    Except Error Digest :=
  match getTo saltLine saltB64Len with
  | none => .error (.protocol "greeting salt line is shorter than 44 bytes")
  | some encoded =>
      match decodeBase64 encoded with
      | none => .error (.protocol "greeting salt is not valid base64")
      | some salt =>
          match getTo salt saltUsedLen with
          | none => .error (.protocol "greeting salt decodes to fewer than 20 bytes")
          | some salt => .ok (scramble sha1 salt password)

/-! ## Symbols -/

theorem decodeSymbol_symbol : ∀ n < 64, decodeSymbol (symbol n) = some (UInt8.ofNat n) := by
  decide

theorem symbol_decodeSymbol : ∀ c : UInt8,
    (decodeSymbol c).all (fun s => s.toNat < 64 && symbol s.toNat == c) = true :=
  forall_byte (by decide +kernel)

theorem decodeSymbol_eq_none_iff (c : UInt8) : decodeSymbol c = none ↔ ¬ IsSymbol c := by
  constructor
  · rintro h ⟨n, hn, rfl⟩
    rw [decodeSymbol_symbol n hn] at h
    cases h
  · intro h
    cases hsymbol : decodeSymbol c with
    | none => rfl
    | some s =>
        have hinverse := symbol_decodeSymbol c
        simp only [hsymbol, Option.all_some, Bool.and_eq_true, decide_eq_true_eq, beq_iff_eq]
          at hinverse
        exact absurd ⟨s.toNat, hinverse⟩ h

theorem sextets_append {digits : List Nat} (h : ∀ n ∈ digits, n < 64) (tail : Bytes) :
    sextets (digits.map symbol ++ tail) =
      (sextets tail).map (digits.map UInt8.ofNat ++ ·) := by
  induction digits with
  | nil => simp
  | cons n digits ih =>
      obtain ⟨hn, hdigits⟩ := List.forall_mem_cons.mp h
      rw [List.map_cons, List.cons_append, sextets, if_neg (symbol_ne_pad n),
        decodeSymbol_symbol n hn, ih hdigits]
      cases sextets tail <;> rfl

theorem sextets_digits {digits : List Nat} (h : ∀ n ∈ digits, n < 64) {tail : Bytes}
    (htail : tail = [] ∨ tail.head? = some pad) :
    sextets (digits.map symbol ++ tail) = some (digits.map UInt8.ofNat) := by
  have hnil : sextets tail = some [] := by
    obtain rfl | hpad := htail
    · rfl
    · obtain ⟨more, rfl⟩ := List.head?_eq_some_iff.mp hpad
      exact if_pos rfl
  rw [sextets_append h, hnil, Option.map_some, List.append_nil]

/-! ## The round trip -/

theorem unpadded_symbols (digits : List Nat) (tail : Bytes) :
    unpadded (digits.map symbol ++ tail) = digits.map symbol ++ unpadded tail := by
  rw [unpadded, List.filter_append, List.filter_eq_self.mpr]
  · rfl
  · simp [symbol_ne_pad]

theorem decodeChunks_one (a : UInt8) {tail : Bytes} (htail : tail = [] ∨ tail.head? = some pad)
    (out : Bytes) :
    decodeChunks
      [[digit (group a 0 0) 0, digit (group a 0 0) 1].map symbol ++ tail] out =
        some (out ++ [a]) := by
  rw [decodeChunks, sextets_digits (by simp [digit_lt]) htail]
  simp [decodeChunks, first_byte]

theorem decodeChunks_two (a b : UInt8) {tail : Bytes} (htail : tail = [] ∨ tail.head? = some pad)
    (out : Bytes) :
    decodeChunks
      [[digit (group a b 0) 0, digit (group a b 0) 1, digit (group a b 0) 2].map symbol ++ tail]
        out = some (out ++ [a, b]) := by
  rw [decodeChunks, sextets_digits (by simp [digit_lt]) htail]
  simp [decodeChunks, first_byte, second_byte]

theorem decodeChunks_three (a b c : UInt8) (rest : List Bytes) (out : Bytes) :
    decodeChunks
      ([symbol (digit (group a b c) 0), symbol (digit (group a b c) 1),
        symbol (digit (group a b c) 2), symbol (digit (group a b c) 3)] :: rest) out =
        decodeChunks rest (out ++ [a, b, c]) := by
  have hlt : ∀ n ∈ [digit (group a b c) 0, digit (group a b c) 1, digit (group a b c) 2,
      digit (group a b c) 3], n < 64 := by simp [digit_lt]
  have hsextets := sextets_digits hlt (.inl rfl)
  rw [List.append_nil] at hsextets
  rw [decodeChunks]
  simp only [List.map_cons, List.map_nil] at hsextets
  rw [hsextets]
  simp [first_byte, second_byte, third_byte]

theorem decodeChunks_encode (bytes out : Bytes) :
    decodeChunks (chunksOfFour (encode bytes)) out = some (out ++ bytes) ∧
      decodeChunks (chunksOfFour (unpadded (encode bytes))) out = some (out ++ bytes) := by
  fun_induction encode bytes generalizing out with
  | case1 =>
      constructor
      · simp [chunksOfFour, decodeChunks]
      · simp [unpadded, chunksOfFour, decodeChunks]
  | case2 a =>
      refine ⟨decodeChunks_one a (.inr rfl) out, ?_⟩
      change decodeChunks (chunksOfFour (unpadded (List.map symbol [_, _] ++ [pad, pad]))) out = _
      rw [unpadded_symbols]
      exact decodeChunks_one a (.inl rfl) out
  | case3 a b =>
      refine ⟨decodeChunks_two a b (.inr rfl) out, ?_⟩
      change decodeChunks (chunksOfFour (unpadded (List.map symbol [_, _, _] ++ [pad]))) out = _
      rw [unpadded_symbols]
      exact decodeChunks_two a b (.inl rfl) out
  | case4 a b c rest ih =>
      obtain ⟨hpadded, hunpadded⟩ := ih (out ++ [a, b, c])
      rw [List.append_assoc] at hpadded hunpadded
      refine ⟨(decodeChunks_three a b c _ out).trans hpadded, ?_⟩
      change decodeChunks (chunksOfFour (unpadded (List.map symbol [_, _, _, _] ++ _))) out = _
      rw [unpadded_symbols]
      exact (decodeChunks_three a b c _ out).trans hunpadded

theorem getTo_append {front : Bytes} {stop : Nat} (h : front.length = stop) (rest : Bytes) :
    getTo (front ++ rest) stop = some front := by
  rw [getTo, if_pos (by rw [List.length_append]; omega), List.take_left' h]

theorem scramble_getElem (sha1 : Bytes → Digest) (salt : Bytes) (password : String) (i : Fin 20) :
    (scramble sha1 salt password)[i] = (sha1 (asBytes password))[i] ^^^
      (sha1 (salt ++ (sha1 (sha1 (asBytes password)).toList).toList))[i] :=
  Vector.getElem_zipWith i.isLt

/--
The decoder inverts the encoding, with its padding or without it.  A salt of 32 bytes in
front of any other bytes is never refused, and its first 20 bytes make the scramble:
`SHA1(password) xor SHA1(salt ++ SHA1(SHA1(password)))`.
-/
theorem decode_inverts_encode :
    (∀ bytes, decodeBase64 (encode bytes) = some bytes ∧
      decodeBase64 (unpadded (encode bytes)) = some bytes) ∧
    ∀ (sha1 : Bytes → Digest) (salt : Vector UInt8 32) (after : Bytes) (password : String),
      (encode salt.toList).length = 44 ∧
        ∃ answer, chapSha1 sha1 (encode salt.toList ++ after) password = .ok answer ∧
          ∀ i : Fin 20, answer[i] = (sha1 (asBytes password))[i] ^^^
            (sha1 (salt.toList.take 20 ++
              (sha1 (sha1 (asBytes password)).toList).toList))[i] := by
  refine ⟨fun bytes => decodeChunks_encode bytes [], fun sha1 salt after password => ?_⟩
  have hencoded : (encode salt.toList).length = saltB64Len := by
    rw [encode_length, Vector.length_toList]
    rfl
  have hdecoded : decodeBase64 (encode salt.toList) = some salt.toList :=
    (decodeChunks_encode salt.toList []).1
  have hused : getTo salt.toList saltUsedLen = some (salt.toList.take saltUsedLen) := by
    rw [getTo, if_pos (by rw [Vector.length_toList]; decide)]
  refine ⟨hencoded, scramble sha1 (salt.toList.take saltUsedLen) password, ?_,
    scramble_getElem sha1 _ password⟩
  rw [chapSha1, getTo_append hencoded]
  simp only [hdecoded, hused]

example : decodeBase64 (asBytes "Zm9vYmFy") = some (asBytes "foobar") := by
  decide +kernel

/-! ## What is refused -/

/-- A byte that is no base64, or a symbol behind padding. -/
def Malformed (input : Bytes) : Prop :=
  (∃ c ∈ input, c ≠ pad ∧ ¬ IsSymbol c) ∨
    ∃ before after, input = before ++ after ∧ pad ∈ before ∧ ∃ c ∈ after, IsSymbol c

def RefusesMalformed (input : Bytes) : Prop :=
  Malformed input → decodeBase64 input = none ∧
    ∀ (sha1 : Bytes → Digest) (after : Bytes) (password : String), input.length = saltB64Len →
      ∃ message, chapSha1 sha1 (input ++ after) password = .error (.protocol message)

/-- A chunk with a byte that is no base64 in front of its padding, or with a single symbol. -/
def Bad (chunk : Bytes) : Prop :=
  (∃ c ∈ chunk.takeWhile (· ≠ pad), ¬ IsSymbol c) ∨ (chunk.takeWhile (· ≠ pad)).length = 1

/-- A chunk is bad, and none in front of it begins with padding. -/
def Caught (chunks : List Bytes) : Prop :=
  ∃ front chunk rest, chunks = front ++ chunk :: rest ∧
    (∀ other ∈ front, other.head? ≠ some pad) ∧ Bad chunk

theorem sextets_cons {c : UInt8} (h : c ≠ pad) (chunk : Bytes) :
    sextets (c :: chunk) = (decodeSymbol c).bind fun s => (sextets chunk).map (s :: ·) := by
  rw [sextets, if_neg h]
  cases decodeSymbol c <;> cases sextets chunk <;> rfl

theorem takeWhile_cons_of_ne {c : UInt8} (h : c ≠ pad) (chunk : Bytes) :
    (c :: chunk).takeWhile (· ≠ pad) = c :: chunk.takeWhile (· ≠ pad) :=
  List.takeWhile_cons_of_pos (by simpa using h)

theorem sextets_eq_none_iff (chunk : Bytes) :
    sextets chunk = none ↔ ∃ c ∈ chunk.takeWhile (· ≠ pad), ¬ IsSymbol c := by
  induction chunk with
  | nil => simp [sextets]
  | cons c chunk ih =>
      by_cases hpad : c = pad
      · simp [sextets, hpad]
      · rw [sextets_cons hpad, takeWhile_cons_of_ne hpad, List.exists_mem_cons_iff, ← ih,
          ← decodeSymbol_eq_none_iff]
        cases decodeSymbol c <;> cases sextets chunk <;> simp

theorem length_of_sextets {chunk : Bytes} {l : List UInt8} (h : sextets chunk = some l) :
    l.length = (chunk.takeWhile (· ≠ pad)).length := by
  induction chunk generalizing l with
  | nil =>
      obtain rfl := Option.some.inj h
      rfl
  | cons c chunk ih =>
      by_cases hpad : c = pad
      · rw [sextets, if_pos hpad] at h
        obtain rfl := Option.some.inj h
        simp [hpad]
      · rw [sextets_cons hpad, Option.bind_eq_some_iff] at h
        obtain ⟨s, -, hrest⟩ := h
        obtain ⟨l', hl', rfl⟩ := Option.map_eq_some_iff.mp hrest
        rw [takeWhile_cons_of_ne hpad, List.length_cons, List.length_cons, ih hl']

theorem caught_cons {chunk : Bytes} {rest : List Bytes} :
    Caught (chunk :: rest) ↔ Bad chunk ∨ chunk.head? ≠ some pad ∧ Caught rest := by
  constructor
  · rintro ⟨front, bad, after, heq, hfront, hbad⟩
    cases front with
    | nil =>
        obtain ⟨rfl, -⟩ := List.cons.inj heq
        exact .inl hbad
    | cons first front =>
        obtain ⟨rfl, hrest⟩ := List.cons.inj heq
        obtain ⟨hfirst, hothers⟩ := List.forall_mem_cons.mp hfront
        exact .inr ⟨hfirst, front, bad, after, hrest, hothers, hbad⟩
  · rintro (hbad | ⟨hfirst, front, bad, after, rfl, hfront, hbad⟩)
    · exact ⟨[], chunk, rest, rfl, by simp, hbad⟩
    · exact ⟨chunk :: front, bad, after, rfl, List.forall_mem_cons.mpr ⟨hfirst, hfront⟩, hbad⟩

/-- The loop fails at the first bad chunk, unless a chunk that begins with padding ends it. -/
theorem decodeChunks_eq_none_iff {chunks : List Bytes} (hne : ∀ chunk ∈ chunks, chunk ≠ [])
    (out : Bytes) : decodeChunks chunks out = none ↔ Caught chunks := by
  induction chunks generalizing out with
  | nil => simp [decodeChunks, Caught]
  | cons chunk rest ih =>
      obtain ⟨hchunk, hrest⟩ := List.forall_mem_cons.mp hne
      rw [caught_cons]
      cases hsextets : sextets chunk with
      | none =>
          refine iff_of_true (by rw [decodeChunks, hsextets]) ?_
          exact .inl (.inl ((sextets_eq_none_iff chunk).mp hsextets))
      | some l =>
          have hlength := length_of_sextets hsextets
          have hlegal : ¬ ∃ c ∈ chunk.takeWhile (· ≠ pad), ¬ IsSymbol c := by
            rw [← sextets_eq_none_iff, hsextets]
            simp
          have hbad : Bad chunk ↔ l.length = 1 := by
            rw [Bad, or_iff_right hlegal, hlength]
          have hpad : chunk.head? = some pad ↔ l.length = 0 := by
            rw [hlength]
            cases chunk with
            | nil => exact absurd rfl hchunk
            | cons c chunk => by_cases hc : c = pad <;> simp [hc]
          rw [decodeChunks, hsextets, hbad, Ne, hpad]
          rcases l with - | ⟨s₀, - | ⟨s₁, - | ⟨s₂, - | ⟨s₃, more⟩⟩⟩⟩
          · simp
          · simp
          · simpa using ih hrest _
          · simpa using ih hrest _
          · simpa using ih hrest _

theorem chunks_ne_nil (input : Bytes) : ∀ chunk ∈ chunksOfFour input, chunk ≠ [] := by
  fun_induction chunksOfFour input with
  | case1 => simp
  | case2 a b c d rest ih => exact List.forall_mem_cons.mpr ⟨by simp, ih⟩
  | case3 last hnil => simpa using hnil

theorem chapSha1_of_none {sha1 : Bytes → Digest} {input after : Bytes} {password : String}
    (hlength : input.length = saltB64Len) (h : decodeBase64 input = none) :
    chapSha1 sha1 (input ++ after) password =
      .error (.protocol "greeting salt is not valid base64") := by
  rw [chapSha1, getTo_append hlength]
  simp only [h]

/-- Malformed input is refused when it has a bad chunk that no padding hides. -/
theorem refuses_malformed_iff (input : Bytes) :
    RefusesMalformed input ↔ (Malformed input → Caught (chunksOfFour input)) := by
  have hnone := decodeChunks_eq_none_iff (chunks_ne_nil input) []
  constructor
  · intro h hmalformed
    exact hnone.mp (h hmalformed).1
  · intro h hmalformed
    have hrefused : decodeBase64 input = none := hnone.mpr (h hmalformed)
    exact ⟨hrefused, fun sha1 after password hlength => ⟨_, chapSha1_of_none hlength hrefused⟩⟩

/-- The byte behind the padding of `Zg=!` is not looked at. -/
theorem padding_hides :
    decodeBase64 (asBytes "Zg=!") = some (asBytes "f") ∧
      ¬ ∀ input, RefusesMalformed input := by
  have hdecoded : decodeBase64 (asBytes "Zg=!") = some (asBytes "f") := by
    decide +kernel
  refine ⟨hdecoded, fun hall => ?_⟩
  have hmalformed : Malformed (asBytes "Zg=!") := .inl ⟨0x21, by decide +kernel⟩
  rw [(hall _ hmalformed).1] at hdecoded
  cases hdecoded

end Tarant.Auth
