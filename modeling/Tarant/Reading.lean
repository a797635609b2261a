import Tarant.Cursor

/-!
# Encodings can be read back

The first byte of an encoding says how far it goes and what it holds, so bytes are
the encoding of at most one sequence of values of a given length, and no encoding is
a proper prefix of another.
-/

namespace Tarant.Wire

open Codec (beBytes fromBeBytes)
open Msgpack

/-! ## What the first bytes say -/

inductive Opening where
  | scalar (value : Value)
  | array (count : Nat)
  | map (count : Nat)

def extOf : Bytes → Value
  | [] => .nil
  | tag :: payload => .ext (signedOf [tag]) payload

def opening (n : Nat) (rest : Bytes) : Opening :=
  if n < 0x80 then .scalar (.integer n)
  else if n < 0x90 then .map (n - 0x80)
  else if n < 0xa0 then .array (n - 0x90)
  else if n < 0xc0 then .scalar (.string rest)
  else if 0xe0 ≤ n then .scalar (.integer (n - 256))
  else if n = 0xc2 then .scalar (.boolean false)
  else if n = 0xc3 then .scalar (.boolean true)
  else if n = 0xc4 then .scalar (.binary (rest.drop 1))
  else if n = 0xc5 then .scalar (.binary (rest.drop 2))
  else if n = 0xc6 then .scalar (.binary (rest.drop 4))
  else if n = 0xc7 then .scalar (extOf (rest.drop 1))
  else if n = 0xc8 then .scalar (extOf (rest.drop 2))
  else if n = 0xc9 then .scalar (extOf (rest.drop 4))
  else if n = 0xca then .scalar (.f32 (.ofNat (fromBeBytes rest)))
  else if n = 0xcb then .scalar (.f64 (.ofNat (fromBeBytes rest)))
  else if n < 0xd0 ∧ 0xcc ≤ n then .scalar (.integer (fromBeBytes rest))
  else if n < 0xd4 ∧ 0xd0 ≤ n then .scalar (.integer (signedOf rest))
  else if n < 0xd9 ∧ 0xd4 ≤ n then .scalar (extOf rest)
  else if n = 0xd9 then .scalar (.string (rest.drop 1))
  else if n = 0xda then .scalar (.string (rest.drop 2))
  else if n = 0xdb then .scalar (.string (rest.drop 4))
  else if n < 0xde ∧ 0xdc ≤ n then .array (fromBeBytes rest)
  else if 0xde ≤ n then .map (fromBeBytes rest)
  else .scalar .nil

def openingOf : Bytes → Opening
  | [] => .scalar .nil
  | marker :: rest => opening marker.toNat rest

theorem signedOf_twosComplement {width : Nat} {value : Int} (hlow : -256 ^ width ≤ 2 * value)
    (hhigh : 2 * value < 256 ^ width) : signedOf (twosComplement width value) = value := by
  have hpos : (0 : Int) < 256 ^ width := by positivity
  have hmod : 0 ≤ value % 256 ^ width := Int.emod_nonneg _ hpos.ne'
  have hlt : value % 256 ^ width < 256 ^ width := Int.emod_lt_of_pos _ hpos
  have hread : (fromBeBytes (twosComplement width value) : Int) = value % 256 ^ width := by
    rw [twosComplement, Codec.fromBeBytes_beBytes, Int.toNat_of_nonneg hmod]
    zify
    rwa [Int.toNat_of_nonneg hmod]
  have hwhole : value % 256 ^ width = value ∨ value % 256 ^ width = value + 256 ^ width := by
    by_cases hsign : 0 ≤ value
    · exact .inl (Int.emod_eq_of_lt hsign (by omega))
    · refine .inr ?_
      rw [← Int.add_emod_right]
      exact Int.emod_eq_of_lt (by omega) (by omega)
  rw [signedOf, twosComplement_length]
  split
  next hsmall =>
    zify at hsmall
    omega
  next hlarge =>
    zify at hlarge
    omega

theorem extOf_twosComplement {tag : Int} (htag : -128 ≤ tag ∧ tag < 128) (payload : Bytes) :
    extOf (twosComplement 1 tag ++ payload) = .ext tag payload := by
  obtain ⟨byte, hbyte⟩ := List.length_eq_one_iff.mp (twosComplement_length 1 tag)
  have hsigned : signedOf (twosComplement 1 tag) = tag :=
    signedOf_twosComplement (by omega) (by omega)
  rw [hbyte] at hsigned ⊢
  rw [List.singleton_append, extOf, hsigned]

theorem openingOf_ofNat {n : Nat} (h : n < 256) (rest : Bytes) :
    openingOf (UInt8.ofNat n :: rest) = opening n rest := by
  rw [openingOf, toNat_ofNat_of_lt h]

theorem Scalar.opening {value : Value} {head : Bytes} (h : Scalar value head) :
    openingOf head = .scalar value := by
  cases h with
  | nil => rfl
  | boolean value => cases value <;> rfl
  | posFixint h =>
      rw [openingOf_ofNat (by omega), Wire.opening, if_pos (by omega)]
  | @negFixint n hpos h =>
      rw [openingOf_ofNat (by omega), Wire.opening, if_neg (by omega), if_neg (by omega),
        if_neg (by omega), if_neg (by omega), if_pos (by omega)]
      congr 2
      omega
  | uint hwidth h =>
      simp only [List.mem_cons, Prod.mk.injEq, List.not_mem_nil, or_false] at hwidth
      obtain ⟨rfl, rfl⟩ | ⟨rfl, rfl⟩ | ⟨rfl, rfl⟩ | ⟨rfl, rfl⟩ := hwidth <;>
        simp [openingOf, Wire.opening, Codec.fromBeBytes_beBytes h]
  | int hwidth hlow hhigh =>
      simp only [List.mem_cons, Prod.mk.injEq, List.not_mem_nil, or_false] at hwidth
      obtain ⟨rfl, rfl⟩ | ⟨rfl, rfl⟩ | ⟨rfl, rfl⟩ | ⟨rfl, rfl⟩ := hwidth <;>
        simp [openingOf, Wire.opening, signedOf_twosComplement hlow hhigh]
  | f32 bits => simp [openingOf, Wire.opening, Codec.fromBeBytes_beBytes, bits.toNat_lt]
  | f64 bits => simp [openingOf, Wire.opening, Codec.fromBeBytes_beBytes, bits.toNat_lt]
  | fixstr h =>
      rw [openingOf_ofNat (by omega), Wire.opening, if_neg (by omega), if_neg (by omega),
        if_neg (by omega), if_pos (by omega)]
  | str hwidth h | bin hwidth h =>
      simp only [List.mem_cons, Prod.mk.injEq, List.not_mem_nil, or_false] at hwidth
      obtain ⟨rfl, rfl⟩ | ⟨rfl, rfl⟩ | ⟨rfl, rfl⟩ := hwidth <;>
        simp [openingOf, Wire.opening]
  | fixext hlength htag =>
      simp only [List.mem_cons, Prod.mk.injEq, List.not_mem_nil, or_false] at hlength
      obtain ⟨-, rfl⟩ | ⟨-, rfl⟩ | ⟨-, rfl⟩ | ⟨-, rfl⟩ | ⟨-, rfl⟩ := hlength <;>
        simp [openingOf, Wire.opening, extOf_twosComplement htag]
  | ext hwidth h htag =>
      simp only [List.mem_cons, Prod.mk.injEq, List.not_mem_nil, or_false] at hwidth
      obtain ⟨rfl, rfl⟩ | ⟨rfl, rfl⟩ | ⟨rfl, rfl⟩ := hwidth <;>
        simp [openingOf, Wire.opening, extOf_twosComplement htag]

theorem ArrayHead.opening {count : Nat} {head : Bytes} (h : ArrayHead count head) :
    openingOf head = .array count := by
  cases h with
  | fix h =>
      rw [openingOf_ofNat (by omega), Wire.opening, if_neg (by omega), if_neg (by omega),
        if_pos (by omega), Nat.add_sub_cancel_left]
  | wide hwidth h =>
      simp only [List.mem_cons, Prod.mk.injEq, List.not_mem_nil, or_false] at hwidth
      obtain ⟨rfl, rfl⟩ | ⟨rfl, rfl⟩ := hwidth <;>
        simp [openingOf, Wire.opening, Codec.fromBeBytes_beBytes h]

theorem MapHead.opening {count : Nat} {head : Bytes} (h : MapHead count head) :
    openingOf head = .map count := by
  cases h with
  | fix h =>
      rw [openingOf_ofNat (by omega), Wire.opening, if_neg (by omega), if_pos (by omega),
        Nat.add_sub_cancel_left]
  | wide hwidth h =>
      simp only [List.mem_cons, Prod.mk.injEq, List.not_mem_nil, or_false] at hwidth
      obtain ⟨rfl, rfl⟩ | ⟨rfl, rfl⟩ := hwidth <;>
        simp [openingOf, Wire.opening, Codec.fromBeBytes_beBytes h]

/-! ## One value after the other -/

inductive Opens : Opening → Bytes → Prop where
  | scalar {value : Value} {head : Bytes} (h : Scalar value head) : Opens (.scalar value) head
  | array {count : Nat} {head : Bytes} (h : ArrayHead count head) : Opens (.array count) head
  | map {count : Nat} {head : Bytes} (h : MapHead count head) : Opens (.map count) head

theorem Opens.opening {first : Opening} {head : Bytes} (h : Opens first head) :
    openingOf head = first := by
  cases h with
  | scalar h => exact h.opening
  | array h => exact h.opening
  | map h => exact h.opening

theorem Opens.token {first : Opening} {head : Bytes} (h : Opens first head) (rest : Bytes) :
    ∃ count, Token (head ++ rest) 0 head.length count := by
  cases h with
  | scalar h =>
      have htoken : Token ([] ++ head ++ rest) _ _ _ := h.token
      exact ⟨_, by simpa using htoken⟩
  | array h =>
      have htoken : Token ([] ++ head ++ rest) _ _ _ := h.token
      exact ⟨_, by simpa using htoken⟩
  | map h =>
      have htoken : Token ([] ++ head ++ rest) _ _ _ := h.token
      exact ⟨_, by simpa using htoken⟩

theorem Opens.unique {first first' : Opening} {head head' rest rest' : Bytes}
    (h : Opens first head) (h' : Opens first' head') (heq : head ++ rest = head' ++ rest') :
    first = first' ∧ head = head' ∧ rest = rest' := by
  obtain ⟨count, htoken⟩ := h.token rest
  obtain ⟨count', htoken'⟩ := h'.token rest'
  rw [← heq] at htoken'
  obtain ⟨rfl, rfl⟩ := List.append_inj heq (token_unique htoken htoken').1
  exact ⟨h.opening.symm.trans h'.opening, rfl, rfl⟩

theorem children_injective : Function.Injective children := by
  intro entries
  induction entries with
  | nil =>
      intro entries' h
      cases entries' with
      | nil => rfl
      | cons => simp [children] at h
  | cons entry entries ih =>
      intro entries' h
      cases entries' with
      | nil => simp [children] at h
      | cons entry' entries' =>
          simp only [children, List.flatMap_cons, List.cons_append, List.nil_append,
            List.cons.injEq] at h
          obtain ⟨hkey, hvalue, hrest⟩ := h
          rw [Prod.ext hkey hvalue, ih hrest]

theorem Encodes.unambiguous {values values' : List Value} {bytes bytes' : Bytes}
    (h : Encodes values bytes) (h' : Encodes values' bytes')
    (hlength : values.length = values'.length) {rest rest' : Bytes}
    (heq : bytes ++ rest = bytes' ++ rest') : values = values' ∧ bytes = bytes' := by
  induction h generalizing values' bytes' rest rest' with
  | done =>
      cases h' with
      | done => exact ⟨rfl, rfl⟩
      | _ => simp at hlength
  | scalar h hrest ih =>
      cases h' with
      | done => simp at hlength
      | scalar h' hrest' =>
          rw [List.append_assoc, List.append_assoc] at heq
          obtain ⟨hfirst, rfl, htail⟩ := (Opens.scalar h).unique (.scalar h') heq
          obtain ⟨rfl, rfl⟩ := ih hrest' (by simpa using hlength) htail
          obtain rfl := Opening.scalar.inj hfirst
          exact ⟨rfl, rfl⟩
      | array h' =>
          simp only [List.append_assoc] at heq
          cases ((Opens.scalar h).unique (.array h') heq).1
      | map h' =>
          simp only [List.append_assoc] at heq
          cases ((Opens.scalar h).unique (.map h') heq).1
  | array h hbody hrest ihbody ih =>
      cases h' with
      | done => simp at hlength
      | array h' hbody' hrest' =>
          simp only [List.append_assoc] at heq
          obtain ⟨hfirst, rfl, hafter⟩ := (Opens.array h).unique (.array h') heq
          obtain ⟨rfl, rfl⟩ := ihbody hbody' (Opening.array.inj hfirst) hafter
          obtain ⟨rfl, rfl⟩ := ih hrest' (by simpa using hlength) (List.append_cancel_left hafter)
          exact ⟨rfl, rfl⟩
      | scalar h' =>
          simp only [List.append_assoc] at heq
          cases ((Opens.array h).unique (.scalar h') heq).1
      | map h' =>
          simp only [List.append_assoc] at heq
          cases ((Opens.array h).unique (.map h') heq).1
  | map h hbody hrest ihbody ih =>
      cases h' with
      | done => simp at hlength
      | @map entries' _ _ _ _ h' hbody' hrest' =>
          simp only [List.append_assoc] at heq
          obtain ⟨hfirst, rfl, hafter⟩ := (Opens.map h).unique (.map h') heq
          have hcount := Opening.map.inj hfirst
          obtain ⟨hchildren, rfl⟩ := ihbody hbody' (by simp only [children_length, hcount]) hafter
          obtain ⟨rfl, rfl⟩ := ih hrest' (by simpa using hlength) (List.append_cancel_left hafter)
          obtain rfl := children_injective hchildren
          exact ⟨rfl, rfl⟩
      | scalar h' =>
          simp only [List.append_assoc] at heq
          cases ((Opens.map h).unique (.scalar h') heq).1
      | array h' =>
          simp only [List.append_assoc] at heq
          cases ((Opens.map h).unique (.array h') heq).1

end Tarant.Wire
