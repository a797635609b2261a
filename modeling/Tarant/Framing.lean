import Tarant.Codec

/-!
# Framing does not depend on how the bytes arrive

A chunk is appended to the buffer and `Codec.decode` is called until it waits
for more bytes.  `decode` is monotone in its buffer: an answer it gives on a
prefix of the stream is the answer it gives on the whole stream.  Hence the
packets seen depend only on the bytes received and not on their partition.
-/

namespace Tarant.Codec

variable (rmp : Rmp)

/-! ## Feeding a decoder -/

structure Fed where
  responses : List Response := []
  failure : Option Error := none
  buffer : Bytes := []

def Fed.results (fed : Fed) : List (Except Error Response) :=
  fed.responses.map .ok ++ fed.failure.toList.map .error

/-- Call `decode` until it waits for more bytes or fails. -/
def drain : Nat → Bytes → Fed
  | 0, src => { buffer := src }
  | fuel + 1, src =>
      match decode rmp src with
      | (.ok none, rest) => { buffer := rest }
      | (.ok (some response), rest) =>
          let fed := drain fuel rest
          { fed with responses := response :: fed.responses }
      | (.error err, rest) => { failure := some err, buffer := rest }

/-- A decoded packet takes at least its length prefix, which bounds the calls. -/
def decodeAll (src : Bytes) : Fed := drain rmp (src.length + 1) src

/-- Append one chunk to the buffer and decode; nothing is decoded past an error. -/
def feed (fed : Fed) (chunk : Bytes) : Fed :=
  match fed.failure with
  | some _ => fed
  | none =>
      let more := decodeAll rmp (fed.buffer ++ chunk)
      { more with responses := fed.responses ++ more.responses }

def feedAll (chunks : List Bytes) : Fed := chunks.foldl (feed rmp) {}

/-! ## One call of `decode` -/

theorem prefixWidth_pos {marker width : Nat} (h : prefixWidth marker = some width) :
    1 ≤ width := by
  simp only [prefixWidth] at h
  split_ifs at h <;> simp only [Option.some.injEq] at h <;> omega

theorem decode_waiting {src rest : Bytes}
    (h : decode rmp src = (.ok none, rest)) : rest = src := by
  cases src with
  | nil => simpa [decode] using h.symm
  | cons marker tail =>
      simp only [decode] at h
      split at h
      · simp at h
      · split at h
        · exact (Prod.mk.inj h).2.symm
        · split at h
          · simp at h
          · split at h
            · exact (Prod.mk.inj h).2.symm
            · have hparse := (Prod.mk.inj h).1
              simp only [Except.map] at hparse
              split at hparse <;> simp at hparse

theorem packetLen_append {src : Bytes} {width : Nat} (hsrc : src ≠ [])
    (h : width ≤ src.length) (more : Bytes) :
    packetLen (src ++ more) width = packetLen src width := by
  cases src with
  | nil => exact absurd rfl hsrc
  | cons marker tail =>
      simp only [List.length_cons] at h
      simp only [packetLen, List.cons_append, List.head?_cons, Option.getD_some,
        List.drop_succ_cons, List.drop_zero]
      rw [List.take_append_of_le_length (by omega)]

theorem decode_append_of_ne_waiting {src rest : Bytes}
    {result : Except Error (Option Response)}
    (h : decode rmp src = (result, rest)) (hresult : result ≠ .ok none)
    (more : Bytes) :
    decode rmp (src ++ more) = (result, rest ++ more) := by
  cases src with
  | nil =>
      simp only [decode, Prod.mk.injEq] at h
      exact absurd h.1.symm hresult
  | cons marker tail =>
      have hlen : ∀ width ≤ tail.length + 1,
          packetLen (marker :: (tail ++ more)) width = packetLen (marker :: tail) width :=
        fun width hwidth => packetLen_append (List.cons_ne_nil marker tail) hwidth more
      simp only [decode, List.cons_append] at h ⊢
      split at h
      · cases h
        rfl
      next width hwidth =>
        have hpos := prefixWidth_pos hwidth
        simp only [List.length_cons, List.length_append] at h ⊢
        split at h
        · cases h
          exact absurd rfl hresult
        next hlength =>
          rw [if_neg (by omega), hlen width (by omega)]
          split at h
          next hbig =>
            rw [if_pos hbig]
            cases h
            rfl
          next hbig =>
            rw [if_neg hbig]
            split at h
            · cases h
              exact absurd rfl hresult
            next hwhole =>
              have hrest : (marker :: (tail ++ more)).drop width =
                  (marker :: tail).drop width ++ more := by
                rw [← List.cons_append]
                exact List.drop_append_of_le_length (by simp; omega)
              rw [if_neg (by omega), hrest,
                List.take_append_of_le_length (by simp; omega),
                List.drop_append_of_le_length (by simp; omega)]
              cases h
              rfl

theorem decode_shortens {src rest : Bytes} {response : Response}
    (h : decode rmp src = (.ok (some response), rest)) :
    rest.length < src.length := by
  cases src with
  | nil => simp [decode] at h
  | cons marker tail =>
      simp only [decode] at h
      split at h
      · simp at h
      next width hwidth =>
        have hpos := prefixWidth_pos hwidth
        split at h
        · simp at h
        · split at h
          · simp at h
          · split at h
            · simp at h
            · obtain ⟨-, rfl⟩ := Prod.mk.inj h
              simp only [List.length_drop, List.length_cons]
              omega

/-! ## Decoding a whole buffer -/

theorem drain_eq_of_lt {src : Bytes} {fuel₁ fuel₂ : Nat}
    (h₁ : src.length < fuel₁) (h₂ : src.length < fuel₂) :
    drain rmp fuel₁ src = drain rmp fuel₂ src := by
  induction fuel₁ generalizing src fuel₂ with
  | zero => omega
  | succ fuel₁ ih =>
      cases fuel₂ with
      | zero => omega
      | succ fuel₂ =>
          simp only [drain]
          split
          · rfl
          next response rest hdecode =>
            have hrest := decode_shortens rmp hdecode
            have htail : drain rmp fuel₁ rest = drain rmp fuel₂ rest :=
              ih (by omega) (by omega)
            rw [htail]
          · rfl

theorem decodeAll_eq (src : Bytes) :
    decodeAll rmp src =
      match decode rmp src with
      | (.ok none, rest) => { buffer := rest }
      | (.ok (some response), rest) =>
          { decodeAll rmp rest with
            responses := response :: (decodeAll rmp rest).responses }
      | (.error err, rest) => { failure := some err, buffer := rest } := by
  conv_lhs => rw [decodeAll, drain]
  split
  · rfl
  next response rest hdecode =>
    have hrest := decode_shortens rmp hdecode
    have htail : drain rmp src.length rest = drain rmp (rest.length + 1) rest :=
      drain_eq_of_lt rmp (by omega) (by omega)
    simp only [decodeAll, htail]
  · rfl

/-- `decodeAll` does call `decode` until it waits, unless it fails. -/
theorem decodeAll_waits (src : Bytes)
    (h : (decodeAll rmp src).failure = none) :
    decode rmp (decodeAll rmp src).buffer =
      (.ok none, (decodeAll rmp src).buffer) := by
  induction hn : src.length using Nat.strong_induction_on generalizing src with
  | _ n ih =>
      subst n
      rw [decodeAll_eq] at h ⊢
      split at h
      next rest hdecode =>
        obtain rfl := decode_waiting rmp hdecode
        simpa using hdecode
      next response rest hdecode =>
        simpa using ih rest.length (decode_shortens rmp hdecode) rest h rfl
      · simp at h

/-- What two decoders that were fed the same bytes agree on. -/
def Fed.Agree (first second : Fed) : Prop :=
  first.responses = second.responses ∧ first.failure = second.failure ∧
    (first.failure = none → first.buffer = second.buffer)

theorem decodeAll_append (src more : Bytes) :
    (feed rmp (decodeAll rmp src) more).Agree (decodeAll rmp (src ++ more)) := by
  induction hn : src.length using Nat.strong_induction_on generalizing src with
  | _ n ih =>
      subst n
      rw [decodeAll_eq rmp src]
      split
      next rest hdecode =>
        obtain rfl := decode_waiting rmp hdecode
        simp [feed, Fed.Agree]
      next response rest hdecode =>
        have hstep := decode_append_of_ne_waiting rmp hdecode (by simp) more
        have hrest := ih rest.length (decode_shortens rmp hdecode) rest rfl
        rw [decodeAll_eq rmp (src ++ more), hstep]
        cases hf : (decodeAll rmp rest).failure with
        | none =>
            simp only [feed, hf, Fed.Agree] at hrest ⊢
            exact ⟨congrArg (response :: ·) hrest.1, hrest.2⟩
        | some err =>
            simp only [feed, hf, Fed.Agree] at hrest ⊢
            exact ⟨congrArg (response :: ·) hrest.1, hrest.2⟩
      next err rest hdecode =>
        have hstep := decode_append_of_ne_waiting rmp hdecode (by simp) more
        rw [decodeAll_eq rmp (src ++ more), hstep]
        simp [feed, Fed.Agree]

theorem feed_agree {first second : Fed} (h : first.Agree second) (chunk : Bytes) :
    (feed rmp first chunk).Agree (feed rmp second chunk) := by
  obtain ⟨hresponses, hfailure, hbuffer⟩ := h
  cases hf : first.failure with
  | none =>
      have hs : second.failure = none := by rw [← hfailure, hf]
      simp [feed, hf, hs, hbuffer hf, hresponses, Fed.Agree]
  | some err =>
      have hs : second.failure = some err := by rw [← hfailure, hf]
      simp [feed, hf, hs, hresponses, Fed.Agree]

theorem Fed.Agree.trans {first second third : Fed} (h₁ : first.Agree second)
    (h₂ : second.Agree third) : first.Agree third := by
  obtain ⟨hr₁, hf₁, hb₁⟩ := h₁
  obtain ⟨hr₂, hf₂, hb₂⟩ := h₂
  exact ⟨hr₁.trans hr₂, hf₁.trans hf₂,
    fun h => (hb₁ h).trans (hb₂ (hf₁ ▸ h))⟩

theorem Fed.Agree.symm {first second : Fed} (h : first.Agree second) :
    second.Agree first :=
  ⟨h.1.symm, h.2.1.symm, fun hs => (h.2.2 (h.2.1.trans hs)).symm⟩

theorem Fed.Agree.results_eq {first second : Fed} (h : first.Agree second) :
    first.results = second.results := by
  simp [Fed.results, h.1, h.2.1]

theorem feedAll_agree (chunks : List Bytes) :
    (feedAll rmp chunks).Agree (decodeAll rmp chunks.flatten) := by
  induction chunks using List.reverseRecOn with
  | nil => exact ⟨rfl, rfl, fun _ => rfl⟩
  | append_singleton chunks chunk ih =>
      rw [feedAll, List.foldl_append, List.foldl_cons, List.foldl_nil,
        List.flatten_append, List.flatten_singleton]
      exact (feed_agree rmp ih chunk).trans (decodeAll_append rmp _ _)

/-! ## Frames -/

inductive Width where
  | fixint
  | uint8
  | uint16
  | uint32
  | uint64
  deriving DecidableEq, Repr

def Width.Holds : Width → Nat → Prop
  | .fixint, n => n ≤ 0x7f
  | .uint8, n => n < 2 ^ 8
  | .uint16, n => n < 2 ^ 16
  | .uint32, n => n < 2 ^ 32
  | .uint64, n => n < 2 ^ 64

def Width.lengthPrefix : Width → Nat → Bytes
  | .fixint, n => [UInt8.ofNat n]
  | .uint8, n => 0xcc :: beBytes 1 n
  | .uint16, n => 0xcd :: beBytes 2 n
  | .uint32, n => 0xce :: beBytes 4 n
  | .uint64, n => 0xcf :: beBytes 8 n

def frame (width : Width) (packet : Bytes) : Bytes :=
  width.lengthPrefix packet.length ++ packet

@[simp] theorem beBytes_length (count n : Nat) : (beBytes count n).length = count := by
  induction count with
  | zero => rfl
  | succ count ih => simp [beBytes, ih]

private theorem foldl_beBytes (count n acc : Nat) :
    (beBytes count n).foldl (fun m b => m * 256 + b.toNat) acc =
      acc * 256 ^ count + n % 256 ^ count := by
  induction count generalizing acc with
  | zero => simp [beBytes, Nat.mod_one]
  | succ count ih =>
      have hbyte : (UInt8.ofNat (n / 256 ^ count)).toNat = n / 256 ^ count % 256 := by
        simp [UInt8.toNat_ofNat']
      have hsplit : n % 256 ^ (count + 1) =
          n / 256 ^ count % 256 * 256 ^ count + n % 256 ^ count := by
        rw [Nat.pow_succ, Nat.mod_mul, Nat.add_comm, Nat.mul_comm]
      simp only [beBytes, List.foldl_cons, hbyte, ih, hsplit]
      ring

theorem fromBeBytes_beBytes {count n : Nat} (h : n < 256 ^ count) :
    fromBeBytes (beBytes count n) = n := by
  rw [fromBeBytes, foldl_beBytes, Nat.mod_eq_of_lt h]
  simp

private theorem decode_wide_frame {marker : UInt8} {count : Nat} {packet rest : Bytes}
    (hwidth : prefixWidth marker.toNat = some (count + 1)) (hcount : 0 < count)
    (hlen : packet.length < 256 ^ count) (hmax : packet.length ≤ maxPacketLen) :
    decode rmp (marker :: beBytes count packet.length ++ packet ++ rest) =
      ((Response.parse rmp packet).map some, rest) := by
  have hlength : ((marker :: beBytes count packet.length ++ packet ++ rest).drop 1).take
      (count + 1 - 1) = beBytes count packet.length := by
    simp
  have hpacket : packetLen (marker :: beBytes count packet.length ++ packet ++ rest)
      (count + 1) = packet.length := by
    rw [packetLen, if_neg (by omega), hlength, fromBeBytes_beBytes hlen]
  simp only [List.cons_append, decode] at hpacket ⊢
  rw [hwidth]
  simp only [hpacket, List.length_cons, List.length_append, beBytes_length]
  rw [if_neg (by omega), if_neg (by omega), if_neg (by omega)]
  simp

theorem decode_frame {width : Width} {packet : Bytes} (hholds : width.Holds packet.length)
    (hmax : packet.length ≤ maxPacketLen) (rest : Bytes) :
    decode rmp (frame width packet ++ rest) =
      ((Response.parse rmp packet).map some, rest) := by
  cases width with
  | fixint =>
      have hbyte : (UInt8.ofNat packet.length).toNat = packet.length := by
        simp only [Width.Holds] at hholds
        simp [UInt8.toNat_ofNat']
        omega
      have hwidth : prefixWidth packet.length = some 1 := by
        simp only [Width.Holds] at hholds
        simp [prefixWidth, hholds]
      simp only [frame, Width.lengthPrefix, List.cons_append, List.nil_append, decode,
        packetLen, List.head?_cons, Option.getD_some, if_true, hbyte, hwidth,
        List.length_cons, List.length_append]
      rw [if_neg (by omega), if_neg (by omega), if_neg (by omega)]
      simp
  | uint8 => exact decode_wide_frame rmp (by decide) (by decide) hholds hmax
  | uint16 => exact decode_wide_frame rmp (by decide) (by decide) hholds hmax
  | uint32 => exact decode_wide_frame rmp (by decide) (by decide) hholds hmax
  | uint64 => exact decode_wide_frame rmp (by decide) (by decide) hholds hmax

theorem encode_eq_frame {packet : Bytes} (h : packet.length ≤ maxPacketLen) (dst : Bytes) :
    encode packet dst = .ok (dst ++ frame .uint32 packet) := by
  have hlen : packet.length < 2 ^ 32 := by
    simp only [maxPacketLen] at h
    omega
  rw [encode, if_pos hlen]
  simp [frame, Width.lengthPrefix]

structure Framed where
  width : Width
  packet : Bytes
  response : Response

structure Framed.Legal (framed : Framed) : Prop where
  limit : framed.packet.length ≤ maxPacketLen
  holds : framed.width.Holds framed.packet.length
  accepted : Response.parse rmp framed.packet = .ok framed.response

def Framed.bytes (framed : Framed) : Bytes := frame framed.width framed.packet

theorem decodeAll_frames {frames : List Framed} (hlegal : ∀ f ∈ frames, f.Legal rmp) :
    decodeAll rmp (frames.flatMap Framed.bytes) =
      { responses := frames.map Framed.response } := by
  induction frames with
  | nil => rfl
  | cons framed frames ih =>
      have hhead := hlegal framed (by simp)
      have htail := ih fun f hf => hlegal f (by simp [hf])
      have hstep := decode_frame rmp hhead.holds hhead.limit
        (frames.flatMap Framed.bytes)
      rw [List.flatMap_cons, decodeAll_eq, Framed.bytes, hstep, hhead.accepted]
      simp [Except.map, htail]

/--
Two partitions of one byte string give the same results up to the first error
and, without an error, the same leftover; a call that waits consumes nothing;
every call that could be made was made; and any sequence of legal frames, those
of `encode` among them, decodes to its packets with nothing left over.
-/
theorem decode_independent_of_chunks :
    (∀ chunks₁ chunks₂ : List Bytes, chunks₁.flatten = chunks₂.flatten →
      (feedAll rmp chunks₁).results = (feedAll rmp chunks₂).results ∧
      ((feedAll rmp chunks₁).failure = none →
        (feedAll rmp chunks₁).buffer = (feedAll rmp chunks₂).buffer)) ∧
    (∀ src rest : Bytes, decode rmp src = (.ok none, rest) → rest = src) ∧
    (∀ src : Bytes, (decodeAll rmp src).failure = none →
      decode rmp (decodeAll rmp src).buffer = (.ok none, (decodeAll rmp src).buffer)) ∧
    (∀ (frames : List Framed) (chunks : List Bytes), (∀ f ∈ frames, f.Legal rmp) →
      chunks.flatten = frames.flatMap Framed.bytes →
      (feedAll rmp chunks).results = frames.map (fun f => .ok f.response) ∧
      (feedAll rmp chunks).buffer = []) ∧
    (∀ packet dst : Bytes, packet.length ≤ maxPacketLen →
      encode packet dst = .ok (dst ++ frame .uint32 packet)) := by
  refine ⟨?_, fun src rest => decode_waiting rmp, decodeAll_waits rmp, ?_,
    fun packet dst h => encode_eq_frame h dst⟩
  · intro chunks₁ chunks₂ hflat
    have h₁ := feedAll_agree rmp chunks₁
    have h₂ := feedAll_agree rmp chunks₂
    rw [hflat] at h₁
    have hagree := h₁.trans h₂.symm
    exact ⟨hagree.results_eq, hagree.2.2⟩
  · intro frames chunks hlegal hflat
    have hagree := feedAll_agree rmp chunks
    rw [hflat, decodeAll_frames rmp hlegal] at hagree
    constructor
    · rw [hagree.results_eq]
      simp [Fed.results, Function.comp_def]
    · exact hagree.2.2 hagree.2.1

end Tarant.Codec
