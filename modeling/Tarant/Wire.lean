import Tarant.Measure
import Tarant.Framing

/-!
# The MessagePack format

Which bytes encode which values.  Every legal width is covered, so a value has
several encodings.  A sequence of values is encoded by writing one after the
other, and a map by writing its keys and values alternately.
-/

namespace Tarant.Wire

open Codec (beBytes fromBeBytes)

/-! ## Values without children -/

def twosComplement (width : Nat) (value : Int) : Bytes :=
  beBytes width (value % 256 ^ width).toNat

inductive Scalar : Value → Bytes → Prop where
  | nil : Scalar .nil [0xc0]
  | boolean (value : Bool) : Scalar (.boolean value) [if value then 0xc3 else 0xc2]
  | posFixint {n : Nat} (h : n ≤ 0x7f) : Scalar (.integer n) [UInt8.ofNat n]
  | negFixint {n : Nat} (hpos : 0 < n) (h : n ≤ 32) :
      Scalar (.integer (-n)) [UInt8.ofNat (256 - n)]
  | uint {width n : Nat} {marker : UInt8}
      (hwidth : (width, marker) ∈ [(1, 0xcc), (2, 0xcd), (4, 0xce), (8, 0xcf)])
      (h : n < 256 ^ width) : Scalar (.integer n) (marker :: beBytes width n)
  | int {width : Nat} {value : Int} {marker : UInt8}
      (hwidth : (width, marker) ∈ [(1, 0xd0), (2, 0xd1), (4, 0xd2), (8, 0xd3)])
      (hlow : -256 ^ width ≤ 2 * value) (hhigh : 2 * value < 256 ^ width) :
      Scalar (.integer value) (marker :: twosComplement width value)
  | f32 (bits : UInt32) : Scalar (.f32 bits) (0xca :: beBytes 4 bits.toNat)
  | f64 (bits : UInt64) : Scalar (.f64 bits) (0xcb :: beBytes 8 bits.toNat)
  | fixstr {bytes : Bytes} (h : bytes.length ≤ 31) :
      Scalar (.string bytes) (UInt8.ofNat (0xa0 + bytes.length) :: bytes)
  | str {width : Nat} {marker : UInt8} {bytes : Bytes}
      (hwidth : (width, marker) ∈ [(1, 0xd9), (2, 0xda), (4, 0xdb)])
      (h : bytes.length < 256 ^ width) :
      Scalar (.string bytes) (marker :: (beBytes width bytes.length ++ bytes))
  | bin {width : Nat} {marker : UInt8} {bytes : Bytes}
      (hwidth : (width, marker) ∈ [(1, 0xc4), (2, 0xc5), (4, 0xc6)])
      (h : bytes.length < 256 ^ width) :
      Scalar (.binary bytes) (marker :: (beBytes width bytes.length ++ bytes))
  | fixext {tag : Int} {marker : UInt8} {bytes : Bytes}
      (hlength : (bytes.length, marker) ∈ [(1, 0xd4), (2, 0xd5), (4, 0xd6), (8, 0xd7), (16, 0xd8)])
      (htag : -128 ≤ tag ∧ tag < 128) :
      Scalar (.ext tag bytes) (marker :: (twosComplement 1 tag ++ bytes))
  | ext {width : Nat} {tag : Int} {marker : UInt8} {bytes : Bytes}
      (hwidth : (width, marker) ∈ [(1, 0xc7), (2, 0xc8), (4, 0xc9)])
      (h : bytes.length < 256 ^ width) (htag : -128 ≤ tag ∧ tag < 128) :
      Scalar (.ext tag bytes)
        (marker :: (beBytes width bytes.length ++ (twosComplement 1 tag ++ bytes)))

/-! ## Containers -/

inductive ArrayHead : Nat → Bytes → Prop where
  | fix {count : Nat} (h : count ≤ 15) : ArrayHead count [UInt8.ofNat (0x90 + count)]
  | wide {width count : Nat} {marker : UInt8}
      (hwidth : (width, marker) ∈ [(2, 0xdc), (4, 0xdd)]) (h : count < 256 ^ width) :
      ArrayHead count (marker :: beBytes width count)

inductive MapHead : Nat → Bytes → Prop where
  | fix {count : Nat} (h : count ≤ 15) : MapHead count [UInt8.ofNat (0x80 + count)]
  | wide {width count : Nat} {marker : UInt8}
      (hwidth : (width, marker) ∈ [(2, 0xde), (4, 0xdf)]) (h : count < 256 ^ width) :
      MapHead count (marker :: beBytes width count)

def children (entries : List (Value × Value)) : List Value :=
  entries.flatMap fun entry => [entry.1, entry.2]

inductive Encodes : List Value → Bytes → Prop where
  | done : Encodes [] []
  | scalar {value : Value} {values : List Value} {head tail : Bytes}
      (h : Scalar value head) (hrest : Encodes values tail) :
      Encodes (value :: values) (head ++ tail)
  | array {items values : List Value} {head body tail : Bytes}
      (h : ArrayHead items.length head) (hbody : Encodes items body)
      (hrest : Encodes values tail) :
      Encodes (.array items :: values) (head ++ body ++ tail)
  | map {entries : List (Value × Value)} {values : List Value} {head body tail : Bytes}
      (h : MapHead entries.length head) (hbody : Encodes (children entries) body)
      (hrest : Encodes values tail) :
      Encodes (.map entries :: values) (head ++ body ++ tail)

theorem children_length (entries : List (Value × Value)) :
    (children entries).length = 2 * entries.length := by
  induction entries with
  | nil => rfl
  | cons entry entries ih =>
      rw [children, List.flatMap_cons, List.length_append, ← children, ih]
      simp only [List.length_cons, List.length_nil]
      omega

/-! ## Joining and splitting sequences -/

theorem Scalar.encodes {value : Value} {bytes : Bytes} (h : Scalar value bytes) :
    Encodes [value] bytes := by
  simpa using Encodes.scalar h .done

theorem Encodes.append {values values' : List Value} {bytes bytes' : Bytes}
    (h : Encodes values bytes) (h' : Encodes values' bytes') :
    Encodes (values ++ values') (bytes ++ bytes') := by
  induction h with
  | done => exact h'
  | scalar h _ ih =>
      rw [List.append_assoc]
      exact .scalar h ih
  | array h hbody _ _ ih =>
      rw [List.append_assoc]
      exact .array h hbody ih
  | map h hbody _ _ ih =>
      rw [List.append_assoc]
      exact .map h hbody ih

theorem Encodes.cons_inv {value : Value} {values : List Value} {bytes : Bytes}
    (h : Encodes (value :: values) bytes) :
    ∃ head tail, bytes = head ++ tail ∧ Encodes [value] head ∧ Encodes values tail := by
  cases h with
  | scalar h hrest =>
      refine ⟨_, _, rfl, ?_, hrest⟩
      simpa using Encodes.scalar h .done
  | array h hbody hrest =>
      refine ⟨_, _, rfl, ?_, hrest⟩
      simpa using Encodes.array h hbody .done
  | map h hbody hrest =>
      refine ⟨_, _, rfl, ?_, hrest⟩
      simpa using Encodes.map h hbody .done

/-! ## Measuring an encoding -/

section Measure

open Msgpack

variable {before after : Bytes}

theorem token_of_parts {marker : UInt8} (len : Bytes) {payload : Bytes} {children : Nat}
    (hlen : len.length = lengthPrefixWidth marker.toNat)
    (h : announced marker.toNat (fromBeBytes len) = .ok (payload.length, children)) :
    Token (before ++ (marker :: (len ++ payload)) ++ after) before.length
      (before.length + (marker :: (len ++ payload)).length) children := by
  have hbuf : before ++ (marker :: (len ++ payload)) ++ after =
      before ++ [marker] ++ (len ++ (payload ++ after)) := by
    simp only [List.append_assoc, List.cons_append, List.nil_append]
  have hread : readLen (before ++ (marker :: (len ++ payload)) ++ after) (before.length + 1)
      (lengthPrefixWidth marker.toNat) = .ok (fromBeBytes len) := by
    have hpast : before.length + 1 = (before ++ [marker]).length := by simp
    rw [readLen_eq, hbuf, hpast, List.drop_left, ← hlen, List.take_left, if_pos]
    simp only [List.length_append]
    omega
  refine ⟨marker, _, _, ?_, hread, h, ?_, ?_⟩
  · rw [List.append_assoc, List.getElem?_append_right le_rfl, Nat.sub_self]
    rfl
  · rw [List.length_cons, List.length_append, hlen]
    omega
  · rw [List.length_append, List.length_append]
    omega

theorem announced_fixint {marker len : Nat} (h : marker ≤ 0x7f ∨ 0xe0 ≤ marker) :
    announced marker len = .ok (0, 0) := by
  rw [announced, if_pos (by omega)]

theorem announced_fixmap {count len : Nat} (h : count ≤ 15) :
    announced (0x80 + count) len = .ok (0, 2 * count) := by
  have hcount : (0x80 + count) &&& 0x0f = count := by
    rw [Nat.and_two_pow_sub_one_eq_mod _ 4]
    omega
  rw [announced, if_neg (by omega), if_pos (by omega), hcount]

theorem announced_fixarray {count len : Nat} (h : count ≤ 15) :
    announced (0x90 + count) len = .ok (0, count) := by
  have hcount : (0x90 + count) &&& 0x0f = count := by
    rw [Nat.and_two_pow_sub_one_eq_mod _ 4]
    omega
  rw [announced, if_neg (by omega), if_neg (by omega), if_pos (by omega), hcount]

theorem announced_fixstr {count len : Nat} (h : count ≤ 31) :
    announced (0xa0 + count) len = .ok (count, 0) := by
  have hcount : (0xa0 + count) &&& 0x1f = count := by
    rw [Nat.and_two_pow_sub_one_eq_mod _ 5]
    omega
  rw [announced, if_neg (by omega), if_neg (by omega), if_neg (by omega), if_pos (by omega),
    hcount]

theorem toNat_ofNat_of_lt {n : Nat} (h : n < 256) : (UInt8.ofNat n).toNat = n := by
  rw [UInt8.toNat_ofNat']
  exact Nat.mod_eq_of_lt h

theorem lengthPrefixWidth_narrow {marker : Nat} (h : marker < 0xc4 ∨ 0xe0 ≤ marker) :
    lengthPrefixWidth marker = 0 := by
  rw [lengthPrefixWidth, if_neg (by omega), if_neg (by omega), if_neg (by omega)]

@[simp] theorem twosComplement_length (width : Nat) (value : Int) :
    (twosComplement width value).length = width :=
  Codec.beBytes_length _ _

theorem token_of_narrow {marker : UInt8} {payload : Bytes} {children : Nat}
    (hwidth : lengthPrefixWidth marker.toNat = 0)
    (h : announced marker.toNat 0 = .ok (payload.length, children)) :
    Token (before ++ (marker :: payload) ++ after) before.length
      (before.length + (marker :: payload).length) children :=
  token_of_parts [] hwidth.symm h

theorem token_of_fix {n children : Nat} {payload : Bytes} (hlt : n < 256)
    (hnarrow : n < 0xc4 ∨ 0xe0 ≤ n) (h : announced n 0 = .ok (payload.length, children)) :
    Token (before ++ (UInt8.ofNat n :: payload) ++ after) before.length
      (before.length + (UInt8.ofNat n :: payload).length) children := by
  refine token_of_narrow ?_ ?_
  · rw [toNat_ofNat_of_lt hlt, lengthPrefixWidth_narrow hnarrow]
  · rw [toNat_ofNat_of_lt hlt, h]

theorem token_of_wide {marker : UInt8} {width n children : Nat} {payload : Bytes}
    (hwidth : lengthPrefixWidth marker.toNat = width) (hn : n < 256 ^ width)
    (h : announced marker.toNat n = .ok (payload.length, children)) :
    Token (before ++ (marker :: (beBytes width n ++ payload)) ++ after) before.length
      (before.length + (marker :: (beBytes width n ++ payload)).length) children := by
  refine token_of_parts _ ?_ ?_
  · rw [Codec.beBytes_length, hwidth]
  · rw [Codec.fromBeBytes_beBytes hn, h]

theorem Scalar.token {value : Value} {head : Bytes} (h : Scalar value head) :
    Token (before ++ head ++ after) before.length (before.length + head.length) 0 := by
  cases h with
  | nil => exact token_of_narrow rfl rfl
  | boolean value => cases value <;> exact token_of_narrow rfl rfl
  | posFixint h => exact token_of_fix (by omega) (by omega) (announced_fixint (.inl h))
  | negFixint hpos h => exact token_of_fix (by omega) (by omega) (announced_fixint (.inr (by omega)))
  | uint hwidth h =>
      simp only [List.mem_cons, Prod.mk.injEq, List.not_mem_nil, or_false] at hwidth
      obtain ⟨rfl, rfl⟩ | ⟨rfl, rfl⟩ | ⟨rfl, rfl⟩ | ⟨rfl, rfl⟩ := hwidth <;>
        exact token_of_narrow rfl rfl
  | int hwidth hlow hhigh =>
      simp only [List.mem_cons, Prod.mk.injEq, List.not_mem_nil, or_false] at hwidth
      obtain ⟨rfl, rfl⟩ | ⟨rfl, rfl⟩ | ⟨rfl, rfl⟩ | ⟨rfl, rfl⟩ := hwidth <;>
        exact token_of_narrow rfl rfl
  | f32 bits => exact token_of_narrow rfl rfl
  | f64 bits => exact token_of_narrow rfl rfl
  | fixstr h => exact token_of_fix (by omega) (by omega) (announced_fixstr h)
  | str hwidth h =>
      simp only [List.mem_cons, Prod.mk.injEq, List.not_mem_nil, or_false] at hwidth
      obtain ⟨rfl, rfl⟩ | ⟨rfl, rfl⟩ | ⟨rfl, rfl⟩ := hwidth <;> exact token_of_wide rfl h rfl
  | bin hwidth h =>
      simp only [List.mem_cons, Prod.mk.injEq, List.not_mem_nil, or_false] at hwidth
      obtain ⟨rfl, rfl⟩ | ⟨rfl, rfl⟩ | ⟨rfl, rfl⟩ := hwidth <;> exact token_of_wide rfl h rfl
  | fixext hlength htag =>
      simp only [List.mem_cons, Prod.mk.injEq, List.not_mem_nil, or_false] at hlength
      obtain ⟨h, rfl⟩ | ⟨h, rfl⟩ | ⟨h, rfl⟩ | ⟨h, rfl⟩ | ⟨h, rfl⟩ := hlength <;>
        (refine token_of_narrow rfl ?_; rw [List.length_append, h]; rfl)
  | ext hwidth h htag =>
      simp only [List.mem_cons, Prod.mk.injEq, List.not_mem_nil, or_false] at hwidth
      obtain ⟨rfl, rfl⟩ | ⟨rfl, rfl⟩ | ⟨rfl, rfl⟩ := hwidth <;>
        (refine token_of_wide rfl h ?_; rw [List.length_append]; rfl)

theorem ArrayHead.token {count : Nat} {head : Bytes} (h : ArrayHead count head) :
    Token (before ++ head ++ after) before.length (before.length + head.length) count := by
  cases h with
  | fix h => exact token_of_fix (by omega) (by omega) (announced_fixarray h)
  | wide hwidth h =>
      simp only [List.mem_cons, Prod.mk.injEq, List.not_mem_nil, or_false] at hwidth
      rw [← List.append_nil (beBytes _ _)]
      obtain ⟨rfl, rfl⟩ | ⟨rfl, rfl⟩ := hwidth <;> exact token_of_wide rfl h rfl

theorem MapHead.token {count : Nat} {head : Bytes} (h : MapHead count head) :
    Token (before ++ head ++ after) before.length (before.length + head.length) (2 * count) := by
  cases h with
  | fix h => exact token_of_fix (by omega) (by omega) (announced_fixmap h)
  | wide hwidth h =>
      simp only [List.mem_cons, Prod.mk.injEq, List.not_mem_nil, or_false] at hwidth
      rw [← List.append_nil (beBytes _ _)]
      obtain ⟨rfl, rfl⟩ | ⟨rfl, rfl⟩ := hwidth <;> exact token_of_wide rfl h rfl

theorem Scalar.length_pos {value : Value} {head : Bytes} (h : Scalar value head) :
    0 < head.length := by
  cases h <;> simp

theorem ArrayHead.length_pos {count : Nat} {head : Bytes} (h : ArrayHead count head) :
    0 < head.length := by
  cases h <;> simp

theorem MapHead.length_pos {count : Nat} {head : Bytes} (h : MapHead count head) :
    0 < head.length := by
  cases h <;> simp

theorem Encodes.length_le {values : List Value} {bytes : Bytes} (h : Encodes values bytes) :
    values.length ≤ bytes.length := by
  induction h with
  | done => exact le_rfl
  | scalar h _ ih =>
      have := h.length_pos
      rw [List.length_cons, List.length_append]
      omega
  | array h _ _ _ ih =>
      have := h.length_pos
      rw [List.length_cons, List.length_append, List.length_append]
      omega
  | map h _ _ _ ih =>
      have := h.length_pos
      rw [List.length_cons, List.length_append, List.length_append]
      omega

def Holds (buf : Bytes) (pos : Nat) (bytes : Bytes) : Prop :=
  ∃ before after : Bytes, buf = before ++ bytes ++ after ∧ before.length = pos

theorem Holds.left {buf head tail : Bytes} {pos : Nat} (h : Holds buf pos (head ++ tail)) :
    Holds buf pos head := by
  obtain ⟨before, after, rfl, rfl⟩ := h
  exact ⟨before, tail ++ after, by simp only [List.append_assoc], rfl⟩

theorem Holds.right {buf head tail : Bytes} {pos : Nat} (h : Holds buf pos (head ++ tail)) :
    Holds buf (pos + head.length) tail := by
  obtain ⟨before, after, rfl, rfl⟩ := h
  exact ⟨before ++ head, after, by simp only [List.append_assoc], List.length_append⟩

/-- The loop takes `steps` iterations to consume `count` values up to `next`. -/
def Consumes (buf : Bytes) (pos next steps count : Nat) : Prop :=
  ∀ fuel pending n : Nat, next - pos + pending < 2 ^ 64 →
    valueLenLoop buf fuel next pending = .ok n →
    valueLenLoop buf (steps + fuel) pos (count + pending) = .ok n

theorem Consumes.trans {buf : Bytes} {pos mid next steps steps' count count' : Nat}
    (h : Consumes buf pos mid steps count) (h' : Consumes buf mid next steps' count')
    (hmid : pos ≤ mid) (hnext : mid + count' ≤ next) :
    Consumes buf pos next (steps + steps') (count + count') := by
  intro fuel pending n hbound hloop
  have hrest := h' fuel pending n (by omega) hloop
  rw [Nat.add_assoc, Nat.add_assoc]
  exact h _ _ n (by omega) hrest

theorem Consumes.of_token {buf : Bytes} {pos mid next steps children : Nat}
    (hbuf : buf.length < 2 ^ 64) (htoken : Token buf pos mid children)
    (h : Consumes buf mid next steps children) (hnext : mid + children ≤ next) :
    Consumes buf pos next (steps + 1) 1 := by
  obtain ⟨hlt, hle⟩ := htoken.lt
  intro fuel pending n hbound hloop
  rw [Nat.add_right_comm, Nat.add_comm 1 pending]
  refine valueLenLoop_ok.mpr ⟨mid, children, htoken, by omega, by omega, ?_⟩
  rw [Nat.add_comm pending]
  exact h fuel pending n (by omega) hloop

theorem Consumes.refl (buf : Bytes) (pos : Nat) : Consumes buf pos pos 0 0 := by
  intro fuel pending n _ hloop
  rwa [Nat.zero_add, Nat.zero_add]

theorem Consumes.cons {buf head body tail : Bytes} {pos children count steps steps' : Nat}
    (hbuf : buf.length < 2 ^ 64) (hhead : 0 < head.length)
    (htoken : Token buf pos (pos + head.length) children)
    (hbody : Consumes buf (pos + head.length) (pos + head.length + body.length) steps children)
    (hchildren : children ≤ body.length) (hsteps : steps ≤ body.length)
    (htail : Consumes buf (pos + (head ++ body).length)
      (pos + (head ++ body).length + tail.length) steps' count)
    (hcount : count ≤ tail.length) (hsteps' : steps' ≤ tail.length) :
    ∃ steps ≤ (head ++ body ++ tail).length,
      Consumes buf pos (pos + (head ++ body ++ tail).length) steps (count + 1) := by
  refine ⟨steps + 1 + steps', by simp only [List.length_append]; omega, ?_⟩
  have hfirst := Consumes.of_token hbuf htoken hbody (by omega)
  rw [Nat.add_assoc, ← List.length_append] at hfirst
  rw [show (head ++ body ++ tail).length = (head ++ body).length + tail.length from
    List.length_append, ← Nat.add_assoc, Nat.add_comm count]
  exact hfirst.trans htail (by omega) (by omega)

theorem Encodes.consumed {values : List Value} {bytes buf : Bytes} {pos : Nat}
    (h : Encodes values bytes) (hbuf : buf.length < 2 ^ 64) (hbytes : Holds buf pos bytes) :
    ∃ steps ≤ bytes.length,
      Consumes buf pos (pos + bytes.length) steps values.length := by
  induction h generalizing pos with
  | done => exact ⟨0, le_rfl, .refl buf pos⟩
  | @scalar value values head tail h hrest ih =>
      rw [← List.append_nil head] at hbytes ⊢
      obtain ⟨steps, hsteps, hconsumes⟩ := ih hbytes.right
      obtain ⟨before, after, rfl, rfl⟩ := hbytes.left.left
      exact Consumes.cons hbuf h.length_pos h.token (.refl _ _) le_rfl le_rfl hconsumes
        hrest.length_le hsteps
  | @array items values head body tail h hbody hrest ihbody ihrest =>
      obtain ⟨steps, hsteps, hconsumes⟩ := ihbody hbytes.left.right
      obtain ⟨steps', hsteps', hconsumes'⟩ := ihrest hbytes.right
      obtain ⟨before, after, rfl, rfl⟩ := hbytes.left.left
      exact Consumes.cons hbuf h.length_pos h.token hconsumes hbody.length_le hsteps hconsumes'
        hrest.length_le hsteps'
  | @map entries values head body tail h hbody hrest ihbody ihrest =>
      obtain ⟨steps, hsteps, hconsumes⟩ := ihbody hbytes.left.right
      obtain ⟨steps', hsteps', hconsumes'⟩ := ihrest hbytes.right
      obtain ⟨before, after, rfl, rfl⟩ := hbytes.left.left
      have htoken : Token (before ++ head ++ after) before.length _ _ := h.token
      have hle := hbody.length_le
      rw [children_length] at hconsumes hle
      exact Consumes.cons hbuf h.length_pos htoken hconsumes hle hsteps hconsumes'
        hrest.length_le hsteps'

theorem valueLen_of_encodes {value : Value} {bytes : Bytes} (after : Bytes)
    (h : Encodes [value] bytes) (hlength : (bytes ++ after).length < 2 ^ 64) :
    valueLen (bytes ++ after) = .ok bytes.length := by
  obtain ⟨steps, hsteps, hconsumes⟩ := h.consumed hlength ⟨[], after, rfl, rfl⟩
  rw [List.length_nil, Nat.zero_add] at hconsumes
  have hpos := h.length_le
  obtain ⟨extra, hextra⟩ := Nat.exists_eq_add_of_le
    (show steps ≤ (bytes ++ after).length + 1 by rw [List.length_append]; omega)
  rw [valueLen, hextra]
  refine hconsumes extra 0 _ ?_ (valueLenLoop_zero _ _ _)
  rw [List.length_append] at hlength
  omega

end Measure

end Tarant.Wire
