import Tarant.Bounds
import Tarant.Wire
import Tarant.Foundation.Positional

/-!
# Measuring is parsing

Whatever `valueLen` measures is the encoding of a value.  Each iteration of its
loop reads a marker, the length behind it and its payload; these bytes are a scalar
or the head of a container, and the values still pending when the loop reaches a
container are its children first.
-/

namespace Tarant.Wire

open Codec (beBytes fromBeBytes)
open Foundation
open Msgpack

/-! ## Reading a length back -/

theorem fromBeBytes_eq (bytes : Bytes) :
    fromBeBytes bytes = positional 256 (bytes.map UInt8.toNat) := by
  rw [fromBeBytes, positional, List.foldl_map]

theorem fromBeBytes_lt (bytes : Bytes) : fromBeBytes bytes < 256 ^ bytes.length := by
  rw [fromBeBytes_eq, ← List.length_map UInt8.toNat]
  refine positional_lt (by decide) fun d hd => ?_
  obtain ⟨byte, -, rfl⟩ := List.mem_map.mp hd
  exact byte.toNat_lt

theorem fromBeBytes_cons (byte : UInt8) (bytes : Bytes) :
    fromBeBytes (byte :: bytes) = byte.toNat * 256 ^ bytes.length + fromBeBytes bytes := by
  rw [fromBeBytes_eq, List.map_cons, positional_cons, List.length_map, ← fromBeBytes_eq]

theorem beBytes_fromBeBytes_add (acc : Nat) (bytes : Bytes) :
    beBytes bytes.length (acc * 256 ^ bytes.length + fromBeBytes bytes) = bytes := by
  induction bytes generalizing acc with
  | nil => rfl
  | cons byte bytes ih =>
      have hsplit : acc * 256 ^ (bytes.length + 1) + fromBeBytes (byte :: bytes) =
          (acc * 256 + byte.toNat) * 256 ^ bytes.length + fromBeBytes bytes := by
        rw [fromBeBytes_cons]
        ring
      have hhigh : ((acc * 256 + byte.toNat) * 256 ^ bytes.length + fromBeBytes bytes) /
          256 ^ bytes.length = acc * 256 + byte.toNat := by
        rw [Nat.add_comm, Nat.add_mul_div_right _ _ (by positivity),
          Nat.div_eq_of_lt (fromBeBytes_lt bytes), Nat.zero_add]
      rw [List.length_cons, beBytes, hsplit, ih, hhigh]
      congr 1
      apply UInt8.toNat_inj.mp
      rw [UInt8.toNat_ofNat', Nat.mul_comm, Nat.mul_add_mod, Nat.mod_eq_of_lt byte.toNat_lt]

theorem beBytes_fromBeBytes (bytes : Bytes) : beBytes bytes.length (fromBeBytes bytes) = bytes := by
  simpa using beBytes_fromBeBytes_add 0 bytes

theorem beBytes_of_length {bytes : Bytes} {width : Nat} (h : bytes.length = width) :
    beBytes width (fromBeBytes bytes) = bytes := by
  rw [← h, beBytes_fromBeBytes]

def signedOf (bytes : Bytes) : Int :=
  if 2 * fromBeBytes bytes < 256 ^ bytes.length then fromBeBytes bytes
  else fromBeBytes bytes - 256 ^ bytes.length

theorem cast_pow_length (bytes : Bytes) :
    (256 : Int) ^ bytes.length = ((256 ^ bytes.length : Nat) : Int) := by
  push_cast
  rfl

theorem signedOf_bounds (bytes : Bytes) :
    -256 ^ bytes.length ≤ 2 * signedOf bytes ∧ 2 * signedOf bytes < 256 ^ bytes.length := by
  have hlt := fromBeBytes_lt bytes
  rw [signedOf, cast_pow_length]
  split <;> omega

theorem twosComplement_signedOf (bytes : Bytes) :
    twosComplement bytes.length (signedOf bytes) = bytes := by
  have hlt := fromBeBytes_lt bytes
  have hmod : signedOf bytes % 256 ^ bytes.length = fromBeBytes bytes := by
    rw [signedOf, cast_pow_length]
    split
    · exact Int.emod_eq_of_lt (by omega) (by omega)
    · rw [Int.sub_emod_right]
      exact Int.emod_eq_of_lt (by omega) (by omega)
  rw [twosComplement, hmod, Int.toNat_natCast, beBytes_fromBeBytes]

/-! ## What one marker begins -/

/-- A marker with the length it needs and its payload, and the values announced after. -/
def Head (bytes : Bytes) (count : Nat) : Prop :=
  ∃ (marker : UInt8) (len payload : Bytes), bytes = marker :: (len ++ payload) ∧
    len.length = lengthPrefixWidth marker.toNat ∧
    announced marker.toNat (fromBeBytes len) = .ok (payload.length, count)

theorem head_of_token {buf : Bytes} {pos next count : Nat} (h : Token buf pos next count) :
    ∃ head, buf.drop pos = head ++ buf.drop next ∧ pos + head.length = next ∧ Head head count := by
  obtain ⟨marker, len, payload, hget, hlen, hannounced, rfl, hle⟩ := h
  obtain ⟨hpos, hmarker⟩ := List.getElem?_eq_some_iff.mp hget
  have hwidth := (readLen_ok hlen).1
  rw [readLen_eq, if_pos hwidth] at hlen
  obtain rfl := Except.ok.inj hlen
  have hsplit (start count : Nat) :
      (buf.drop start).take count ++ buf.drop (start + count) = buf.drop start := by
    rw [← List.drop_drop, List.take_append_drop]
  refine ⟨marker :: ((buf.drop (pos + 1)).take (lengthPrefixWidth marker.toNat) ++
      (buf.drop (pos + 1 + lengthPrefixWidth marker.toNat)).take payload), ?_, ?_,
    marker, _, _, rfl, ?_, ?_⟩
  · rw [List.drop_eq_getElem_cons hpos, hmarker, List.cons_append, List.append_assoc, hsplit,
      hsplit]
  · simp only [List.length_cons, List.length_append, List.length_take, List.length_drop]
    omega
  · rw [List.length_take, List.length_drop]
    omega
  · rw [List.length_take, List.length_drop, Nat.min_eq_left (by omega)]
    exact hannounced

/-! ## Every head belongs to a value -/

/-- A scalar, or the head of a container with the values announced. -/
inductive Begins : Nat → Bytes → Prop where
  | scalar {value : Value} {bytes : Bytes} (h : Scalar value bytes) : Begins 0 bytes
  | array {count : Nat} {bytes : Bytes} (h : ArrayHead count bytes) : Begins count bytes
  | map {count : Nat} {bytes : Bytes} (h : MapHead count bytes) : Begins (2 * count) bytes

theorem marker_eq {marker : UInt8} {n : Nat} (h : marker.toNat = n) : marker = UInt8.ofNat n := by
  rw [← h, UInt8.ofNat_toNat]

theorem eq_nil_of_width {len : Bytes} {marker : UInt8}
    (hlen : len.length = lengthPrefixWidth marker.toNat)
    (h : marker.toNat < 0xc4 ∨ 0xe0 ≤ marker.toNat) : len = [] := by
  rw [lengthPrefixWidth_narrow h] at hlen
  exact List.length_eq_zero_iff.mp hlen

theorem begins_narrow {marker : UInt8} {len payload : Bytes} {count : Nat}
    (hlen : len.length = lengthPrefixWidth marker.toNat)
    (h : announced marker.toNat (fromBeBytes len) = .ok (payload.length, count))
    (hmarker : marker.toNat < 0xc0 ∨ 0xe0 ≤ marker.toNat) :
    Begins count (marker :: (len ++ payload)) := by
  obtain rfl := eq_nil_of_width hlen (by omega)
  have hlt := marker.toNat_lt
  obtain ⟨n, hn⟩ : ∃ n, marker.toNat = n := ⟨_, rfl⟩
  obtain rfl := marker_eq hn
  rw [hn] at h hlt hmarker
  rw [List.nil_append]
  by_cases hfixint : n ≤ 0x7f ∨ 0xe0 ≤ n
  · rw [announced_fixint hfixint] at h
    obtain ⟨hpayload, rfl⟩ := Prod.mk.inj (Except.ok.inj h)
    obtain rfl := List.length_eq_zero_iff.mp hpayload.symm
    rcases hfixint with hlow | hhigh
    · exact .scalar (.posFixint hlow)
    · have hneg : 256 - (256 - n) = n := by omega
      rw [← hneg]
      exact .scalar (.negFixint (by omega) (by omega))
  · by_cases hmap : n ≤ 0x8f
    · obtain ⟨k, rfl⟩ := Nat.exists_eq_add_of_le (show 0x80 ≤ n by omega)
      rw [announced_fixmap (by omega)] at h
      obtain ⟨hpayload, rfl⟩ := Prod.mk.inj (Except.ok.inj h)
      obtain rfl := List.length_eq_zero_iff.mp hpayload.symm
      exact .map (.fix (by omega))
    · by_cases harray : n ≤ 0x9f
      · obtain ⟨k, rfl⟩ := Nat.exists_eq_add_of_le (show 0x90 ≤ n by omega)
        rw [announced_fixarray (by omega)] at h
        obtain ⟨hpayload, rfl⟩ := Prod.mk.inj (Except.ok.inj h)
        obtain rfl := List.length_eq_zero_iff.mp hpayload.symm
        exact .array (.fix (by omega))
      · obtain ⟨k, rfl⟩ := Nat.exists_eq_add_of_le (show 0xa0 ≤ n by omega)
        rw [announced_fixstr (by omega)] at h
        obtain ⟨rfl, rfl⟩ := Prod.mk.inj (Except.ok.inj h)
        exact .scalar (.fixstr (by omega))

section Wide

variable {marker : UInt8} {len payload : Bytes} {width count : Nat}

theorem begins_fixed {size : Nat} (hwidth : lengthPrefixWidth marker.toNat = 0)
    (hannounced : announced marker.toNat 0 = .ok (size, 0))
    (hlen : len.length = lengthPrefixWidth marker.toNat)
    (h : announced marker.toNat (fromBeBytes len) = .ok (payload.length, count))
    (hbegins : ∀ payload : Bytes, payload.length = size → Begins 0 (marker :: payload)) :
    Begins count (marker :: (len ++ payload)) := by
  obtain rfl := List.length_eq_zero_iff.mp (hlen.trans hwidth)
  obtain ⟨hsize, rfl⟩ := Prod.mk.inj (Except.ok.inj (hannounced.symm.trans h))
  exact hbegins payload hsize.symm

theorem begins_counted {size children : Nat → Nat}
    (hwidth : lengthPrefixWidth marker.toNat = width)
    (hannounced : ∀ n, announced marker.toNat n = .ok (size n, children n))
    (hlen : len.length = lengthPrefixWidth marker.toNat)
    (h : announced marker.toNat (fromBeBytes len) = .ok (payload.length, count))
    (hbegins : ∀ (n : Nat) (payload : Bytes), n < 256 ^ width → payload.length = size n →
      Begins (children n) (marker :: (beBytes width n ++ payload))) :
    Begins count (marker :: (len ++ payload)) := by
  have hlength : len.length = width := hlen.trans hwidth
  obtain ⟨hsize, rfl⟩ := Prod.mk.inj (Except.ok.inj ((hannounced _).symm.trans h))
  have hn := fromBeBytes_lt len
  have hbegun := hbegins (fromBeBytes len) payload (hlength ▸ hn) hsize.symm
  rwa [beBytes_of_length hlength] at hbegun

theorem begins_nil (payload : Bytes) (h : payload.length = 0) : Begins 0 (0xc0 :: payload) := by
  obtain rfl := List.length_eq_zero_iff.mp h
  exact .scalar .nil

theorem begins_boolean (value : Bool) (payload : Bytes) (h : payload.length = 0) :
    Begins 0 ((if value then 0xc3 else 0xc2) :: payload) := by
  obtain rfl := List.length_eq_zero_iff.mp h
  exact .scalar (.boolean value)

theorem begins_uint (hwidth : (width, marker) ∈ [(1, 0xcc), (2, 0xcd), (4, 0xce), (8, 0xcf)])
    (payload : Bytes) (h : payload.length = width) : Begins 0 (marker :: payload) := by
  have hscalar := Scalar.uint hwidth (h ▸ fromBeBytes_lt payload)
  rw [beBytes_of_length h] at hscalar
  exact .scalar hscalar

theorem begins_int (hwidth : (width, marker) ∈ [(1, 0xd0), (2, 0xd1), (4, 0xd2), (8, 0xd3)])
    (payload : Bytes) (h : payload.length = width) : Begins 0 (marker :: payload) := by
  subst h
  have hbounds := signedOf_bounds payload
  have hscalar := Scalar.int hwidth hbounds.1 hbounds.2
  rw [twosComplement_signedOf] at hscalar
  exact .scalar hscalar

theorem begins_f32 (payload : Bytes) (h : payload.length = 4) : Begins 0 (0xca :: payload) := by
  have hlt := fromBeBytes_lt payload
  have hscalar := Scalar.f32 (UInt32.ofNat (fromBeBytes payload))
  rw [UInt32.toNat_ofNat_of_lt' (by rw [h] at hlt; exact hlt), beBytes_of_length h] at hscalar
  exact .scalar hscalar

theorem begins_f64 (payload : Bytes) (h : payload.length = 8) : Begins 0 (0xcb :: payload) := by
  have hlt := fromBeBytes_lt payload
  have hscalar := Scalar.f64 (UInt64.ofNat (fromBeBytes payload))
  rw [UInt64.toNat_ofNat_of_lt' (by rw [h] at hlt; exact hlt), beBytes_of_length h] at hscalar
  exact .scalar hscalar

theorem begins_bin (hwidth : (width, marker) ∈ [(1, 0xc4), (2, 0xc5), (4, 0xc6)]) (n : Nat)
    (payload : Bytes) (hn : n < 256 ^ width) (h : payload.length = n) :
    Begins 0 (marker :: (beBytes width n ++ payload)) := by
  subst h
  exact .scalar (.bin hwidth hn)

theorem begins_str (hwidth : (width, marker) ∈ [(1, 0xd9), (2, 0xda), (4, 0xdb)]) (n : Nat)
    (payload : Bytes) (hn : n < 256 ^ width) (h : payload.length = n) :
    Begins 0 (marker :: (beBytes width n ++ payload)) := by
  subst h
  exact .scalar (.str hwidth hn)

theorem tag_of_length {payload : Bytes} {n : Nat} (h : payload.length = 1 + n) :
    ∃ (tag : Int) (bytes : Bytes), payload = twosComplement 1 tag ++ bytes ∧
      bytes.length = n ∧ -128 ≤ tag ∧ tag < 128 := by
  cases payload with
  | nil =>
      rw [List.length_nil] at h
      omega
  | cons byte bytes =>
      have hbounds := signedOf_bounds [byte]
      simp only [List.length_singleton] at hbounds
      refine ⟨signedOf [byte], bytes, ?_, by simpa [Nat.add_comm 1] using h, by omega, by omega⟩
      exact congrArg (· ++ bytes) (twosComplement_signedOf [byte]).symm

theorem begins_ext (hwidth : (width, marker) ∈ [(1, 0xc7), (2, 0xc8), (4, 0xc9)]) (n : Nat)
    (payload : Bytes) (hn : n < 256 ^ width) (h : payload.length = 1 + n) :
    Begins 0 (marker :: (beBytes width n ++ payload)) := by
  obtain ⟨tag, bytes, rfl, rfl, htag⟩ := tag_of_length h
  exact .scalar (.ext hwidth hn htag)

theorem begins_fixext (size : Nat)
    (hsize : (size, marker) ∈ [(1, 0xd4), (2, 0xd5), (4, 0xd6), (8, 0xd7), (16, 0xd8)])
    (payload : Bytes) (h : payload.length = 1 + size) : Begins 0 (marker :: payload) := by
  obtain ⟨tag, bytes, rfl, rfl, htag⟩ := tag_of_length h
  exact .scalar (.fixext hsize htag)

theorem begins_array (hwidth : (width, marker) ∈ [(2, 0xdc), (4, 0xdd)]) (n : Nat)
    (payload : Bytes) (hn : n < 256 ^ width) (h : payload.length = 0) :
    Begins n (marker :: (beBytes width n ++ payload)) := by
  obtain rfl := List.length_eq_zero_iff.mp h
  rw [List.append_nil]
  exact .array (.wide hwidth hn)

theorem begins_map (hwidth : (width, marker) ∈ [(2, 0xde), (4, 0xdf)]) (n : Nat)
    (payload : Bytes) (hn : n < 256 ^ width) (h : payload.length = 0) :
    Begins (2 * n) (marker :: (beBytes width n ++ payload)) := by
  obtain rfl := List.length_eq_zero_iff.mp h
  rw [List.append_nil]
  exact .map (.wide hwidth hn)

theorem begins_wide (hmarker : 0xc0 ≤ marker.toNat ∧ marker.toNat < 0xe0)
    (hlen : len.length = lengthPrefixWidth marker.toNat)
    (h : announced marker.toNat (fromBeBytes len) = .ok (payload.length, count)) :
    Begins count (marker :: (len ++ payload)) := by
  obtain ⟨n, hn⟩ : ∃ n, marker.toNat = n := ⟨_, rfl⟩
  obtain rfl := marker_eq hn
  rw [hn] at hmarker
  obtain ⟨hlow, hhigh⟩ := hmarker
  interval_cases n
  · exact begins_fixed rfl rfl hlen h begins_nil
  · cases h
  · exact begins_fixed rfl rfl hlen h (begins_boolean false)
  · exact begins_fixed rfl rfl hlen h (begins_boolean true)
  · exact begins_counted rfl (fun _ => rfl) hlen h (begins_bin (by decide))
  · exact begins_counted rfl (fun _ => rfl) hlen h (begins_bin (by decide))
  · exact begins_counted rfl (fun _ => rfl) hlen h (begins_bin (by decide))
  · exact begins_counted rfl (fun _ => rfl) hlen h (begins_ext (by decide))
  · exact begins_counted rfl (fun _ => rfl) hlen h (begins_ext (by decide))
  · exact begins_counted rfl (fun _ => rfl) hlen h (begins_ext (by decide))
  · exact begins_fixed rfl rfl hlen h begins_f32
  · exact begins_fixed rfl rfl hlen h begins_f64
  · exact begins_fixed rfl rfl hlen h (begins_uint (by decide))
  · exact begins_fixed rfl rfl hlen h (begins_uint (by decide))
  · exact begins_fixed rfl rfl hlen h (begins_uint (by decide))
  · exact begins_fixed rfl rfl hlen h (begins_uint (by decide))
  · exact begins_fixed rfl rfl hlen h (begins_int (by decide))
  · exact begins_fixed rfl rfl hlen h (begins_int (by decide))
  · exact begins_fixed rfl rfl hlen h (begins_int (by decide))
  · exact begins_fixed rfl rfl hlen h (begins_int (by decide))
  · exact begins_fixed rfl rfl hlen h (begins_fixext 1 (by decide))
  · exact begins_fixed rfl rfl hlen h (begins_fixext 2 (by decide))
  · exact begins_fixed rfl rfl hlen h (begins_fixext 4 (by decide))
  · exact begins_fixed rfl rfl hlen h (begins_fixext 8 (by decide))
  · exact begins_fixed rfl rfl hlen h (begins_fixext 16 (by decide))
  · exact begins_counted rfl (fun _ => rfl) hlen h (begins_str (by decide))
  · exact begins_counted rfl (fun _ => rfl) hlen h (begins_str (by decide))
  · exact begins_counted rfl (fun _ => rfl) hlen h (begins_str (by decide))
  · exact begins_counted rfl (fun _ => rfl) hlen h (begins_array (by decide))
  · exact begins_counted rfl (fun _ => rfl) hlen h (begins_array (by decide))
  · exact begins_counted rfl (fun _ => rfl) hlen h (begins_map (by decide))
  · exact begins_counted rfl (fun _ => rfl) hlen h (begins_map (by decide))

end Wide

theorem Head.begins {bytes : Bytes} {count : Nat} (h : Head bytes count) : Begins count bytes := by
  obtain ⟨marker, len, payload, rfl, hlen, hannounced⟩ := h
  by_cases hwide : 0xc0 ≤ marker.toNat ∧ marker.toNat < 0xe0
  · exact begins_wide hwide hlen hannounced
  · exact begins_narrow hlen hannounced (by omega)

/-! ## The whole loop -/

theorem Encodes.append_inv {values values' : List Value} {bytes : Bytes}
    (h : Encodes (values ++ values') bytes) :
    ∃ head tail, bytes = head ++ tail ∧ Encodes values head ∧ Encodes values' tail := by
  induction values generalizing bytes with
  | nil => exact ⟨[], bytes, rfl, .done, h⟩
  | cons value values ih =>
      obtain ⟨first, rest, rfl, hfirst, hrest⟩ := Encodes.cons_inv h
      obtain ⟨head, tail, rfl, hhead, htail⟩ := ih hrest
      exact ⟨first ++ head, tail, (List.append_assoc _ _ _).symm, hfirst.append hhead, htail⟩

theorem exists_children {values : List Value} {count : Nat} (h : values.length = 2 * count) :
    ∃ entries : List (Value × Value), children entries = values ∧ entries.length = count := by
  induction count generalizing values with
  | zero => exact ⟨[], (List.length_eq_zero_iff.mp h).symm, rfl⟩
  | succ count ih =>
      match values, h with
      | key :: value :: rest, h =>
          simp only [List.length_cons] at h
          obtain ⟨entries, rfl, rfl⟩ := ih (show rest.length = 2 * count by omega)
          exact ⟨(key, value) :: entries, rfl, rfl⟩

theorem Begins.encodes {count pending : Nat} {head body : Bytes} {values : List Value}
    (h : Begins count head) (hvalues : Encodes values body)
    (hlength : values.length = pending + count) :
    ∃ values', values'.length = pending + 1 ∧ Encodes values' (head ++ body) := by
  have hsplit : values = values.take count ++ values.drop count :=
    (List.take_append_drop count values).symm
  rw [hsplit] at hvalues
  obtain ⟨inner, outer, rfl, hinner, houter⟩ := hvalues.append_inv
  have htake : (values.take count).length = count := by
    rw [List.length_take]
    omega
  have hdrop : (values.drop count).length = pending := by
    rw [List.length_drop]
    omega
  rw [← List.append_assoc]
  cases h with
  | scalar h =>
      rw [List.length_eq_zero_iff.mp htake] at hinner
      cases hinner
      rw [List.append_nil]
      exact ⟨_ :: values.drop 0, by rw [List.length_cons, hdrop], .scalar h houter⟩
  | array h =>
      rw [← htake] at h
      exact ⟨_ :: values.drop count, by rw [List.length_cons, hdrop], .array h hinner houter⟩
  | map h =>
      obtain ⟨entries, hentries, rfl⟩ := exists_children htake
      rw [← hentries] at hinner
      exact ⟨_ :: values.drop _, by rw [List.length_cons, hdrop], .map h hinner houter⟩

theorem encodes_of_loop {buf : Bytes} {fuel pos pending n : Nat} (hpos : pos ≤ buf.length)
    (h : valueLenLoop buf fuel pos pending = .ok n) :
    ∃ values, values.length = pending ∧ Encodes values ((buf.drop pos).take (n - pos)) := by
  induction fuel generalizing pos pending with
  | zero =>
      cases pending with
      | zero =>
          obtain rfl := Except.ok.inj h
          exact ⟨[], rfl, by simpa using Encodes.done⟩
      | succ pending => cases h
  | succ fuel ih =>
      cases pending with
      | zero =>
          obtain rfl := Except.ok.inj h
          exact ⟨[], rfl, by simpa using Encodes.done⟩
      | succ pending =>
          obtain ⟨next, count, htoken, -, -, hrest⟩ := valueLenLoop_ok.mp h
          obtain ⟨hlt, hle⟩ := htoken.lt
          have hend := (valueLenLoop_le hrest hle).1
          obtain ⟨head, hdrop, hlength, hbegins⟩ := head_of_token htoken
          obtain ⟨values, hvalues, hencodes⟩ := ih hle hrest
          obtain ⟨values', hvalues', hencodes'⟩ := hbegins.begins.encodes hencodes hvalues
          refine ⟨values', hvalues', ?_⟩
          have hslice : (buf.drop pos).take (n - pos) =
              head ++ (buf.drop next).take (n - next) := by
            have hsize : n - pos = head.length + (n - next) := by omega
            rw [hdrop, hsize, List.take_length_add_append]
          rw [hslice]
          exact hencodes'

def Complete (bytes : Bytes) : Prop := ∃ value, Encodes [value] bytes

theorem complete_of_valueLen {buf : Bytes} {n : Nat} (h : valueLen buf = .ok n) :
    Complete (buf.take n) := by
  obtain ⟨values, hvalues, hencodes⟩ := encodes_of_loop (Nat.zero_le _) h
  obtain ⟨value, rfl⟩ := List.length_eq_one_iff.mp hvalues
  exact ⟨value, by simpa using hencodes⟩

theorem valueLenLoop_fuel {buf : Bytes} {fuel pos pending : Nat} (hpos : pos ≤ buf.length)
    (hfuel : buf.length - pos < fuel) (more : Nat) :
    valueLenLoop buf (fuel + more) pos pending = valueLenLoop buf fuel pos pending := by
  induction fuel generalizing pos pending with
  | zero => omega
  | succ fuel ih =>
      cases pending with
      | zero => rw [valueLenLoop_zero, valueLenLoop_zero]
      | succ pending =>
          rw [Nat.add_right_comm, valueLenLoop, valueLenLoop]
          cases buf[pos]? with
          | none => rfl
          | some marker =>
              refine bind_congr fun announced => ?_
              cases hnext : checkedAdd (pos + 1 + lengthPrefixWidth marker.toNat) announced.1 with
              | error err => simp only [hnext]; rfl
              | ok next =>
                  obtain ⟨hnext', -⟩ := checkedAdd_ok.mp hnext
                  simp only [hnext]
                  refine ite_congr rfl (fun _ => rfl) fun hinside => ?_
                  refine bind_congr fun pending' => ?_
                  exact ih (not_lt.mp hinside) (by omega)

theorem valueLen_fuel {buf : Bytes} {fuel : Nat} (h : buf.length < fuel) :
    valueLenLoop buf fuel 0 1 = valueLen buf := by
  obtain ⟨more, rfl⟩ := Nat.exists_eq_add_of_le (Nat.succ_le_of_lt h)
  exact valueLenLoop_fuel (Nat.zero_le _) (by omega) more

theorem valueLen_iff {buf : Bytes} (hbuf : buf.length < 2 ^ 64) (n : Nat) :
    valueLen buf = .ok n ↔ n ≤ buf.length ∧ Complete (buf.take n) := by
  constructor
  · intro h
    exact ⟨(valueLen_le h).2, complete_of_valueLen h⟩
  · rintro ⟨hn, value, hvalue⟩
    have hwhole := List.take_append_drop n buf
    have h := valueLen_of_encodes (buf.drop n) hvalue (by rw [hwhole]; exact hbuf)
    rwa [hwhole, List.length_take, Nat.min_eq_left hn] at h

theorem valueLen_shorter {buf : Bytes} {n k : Nat} (h : valueLen buf = .ok n) (hk : k < n) :
    ∃ err, valueLen (buf.take k) = .error err := by
  cases hshort : valueLen (buf.take k) with
  | error err => exact ⟨err, rfl⟩
  | ok m =>
      have hm := (valueLen_le hshort).2
      have hsame := valueLen_append hshort (buf.drop k)
      rw [List.take_append_drop, h] at hsame
      obtain rfl := Except.ok.inj hsame
      rw [List.length_take] at hm
      omega

/--
`valueLen` succeeds exactly on the buffers that begin with a value, with the length
of that value, whatever follows it; it fails on a value cut short.  No index, slice
or sum in it panics, and its loop ends on every buffer.  A slice is shorter than
`isize::MAX`.
-/
theorem valueLen_measures_one_value {buf : Bytes} (hbuf : buf.length < 2 ^ 63) :
    (∀ n, valueLen buf = .ok n ↔ n ≤ buf.length ∧ Complete (buf.take n)) ∧
    ((¬ ∃ n ≤ buf.length, Complete (buf.take n)) → ∃ err, valueLen buf = .error err) ∧
    (∀ n more, valueLen buf = .ok n → valueLen (buf ++ more) = .ok n) ∧
    (∀ n k, valueLen buf = .ok n → k < n → ∃ err, valueLen (buf.take k) = .error err) ∧
    Checked.valueLen buf = Checked.returned (valueLen buf) ∧
    ∀ fuel, buf.length < fuel → valueLenLoop buf fuel 0 1 = valueLen buf := by
  have hiff (n : Nat) := valueLen_iff (show buf.length < 2 ^ 64 by omega) n
  refine ⟨hiff, ?_, fun n more h => valueLen_append h more,
    fun n k h hk => valueLen_shorter h hk, Checked.valueLen_eq hbuf, fun fuel => valueLen_fuel⟩
  intro hnone
  cases h : valueLen buf with
  | error err => exact ⟨err, rfl⟩
  | ok n => exact absurd ⟨n, (hiff n).mp h⟩ hnone

theorem valueLen_measures_one_value_sample :
    valueLen [0x92, 0x01, 0xc0, 0xff] = .ok 3 ∧ Complete [0x92, 0x01, 0xc0] := by
  have hmeasured : valueLen [0x92, 0x01, 0xc0, 0xff] = .ok 3 := rfl
  exact ⟨hmeasured, (((valueLen_measures_one_value (by decide)).1 3).mp hmeasured).2⟩

end Tarant.Wire
