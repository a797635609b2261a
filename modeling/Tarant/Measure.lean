import Tarant.Codec

/-!
# Measuring values

`valueLen` reads a marker, the length that follows it and nothing else.  A
measurement that succeeds stays within the buffer, and it is the same on every
buffer that begins with the measured bytes.
-/

namespace Tarant.Msgpack

/-! ## One marker -/

def announced (marker len : Nat) : Except Error (Nat × Nat) :=
  if marker ≤ 0x7f ∨ marker = 0xc0 ∨ marker = 0xc2 ∨ marker = 0xc3 ∨
      0xe0 ≤ marker then .ok (0, 0)
  else if marker ≤ 0x8f then .ok (0, 2 * (marker &&& 0x0f))
  else if marker ≤ 0x9f then .ok (0, marker &&& 0x0f)
  else if marker ≤ 0xbf then .ok (marker &&& 0x1f, 0)
  else if marker = 0xc1 then .error (.protocol "reserved MessagePack marker 0xc1")
  else if marker = 0xc4 ∨ marker = 0xd9 then .ok (len, 0)
  else if marker = 0xc5 ∨ marker = 0xda then .ok (len, 0)
  else if marker = 0xc6 ∨ marker = 0xdb then .ok (len, 0)
  else if marker = 0xc7 then .ok (1 + len, 0)
  else if marker = 0xc8 then .ok (1 + len, 0)
  else if marker = 0xc9 then .ok (1 + len, 0)
  else if marker = 0xca ∨ marker = 0xcc ∨ marker = 0xd0 then
    .ok (if marker = 0xca then 4 else 1, 0)
  else if marker = 0xcb ∨ marker = 0xcd ∨ marker = 0xd1 then
    .ok (if marker = 0xcb then 8 else 2, 0)
  else if marker = 0xce ∨ marker = 0xd2 then .ok (4, 0)
  else if marker = 0xcf ∨ marker = 0xd3 then .ok (8, 0)
  else if marker = 0xd4 then .ok (2, 0)
  else if marker = 0xd5 then .ok (3, 0)
  else if marker = 0xd6 then .ok (5, 0)
  else if marker = 0xd7 then .ok (9, 0)
  else if marker = 0xd8 then .ok (17, 0)
  else if marker = 0xdc then .ok (0, len)
  else if marker = 0xdd then .ok (0, len)
  else if marker = 0xde then .ok (0, 2 * len)
  else .ok (0, 2 * len)

theorem readLen_zero {buf : Bytes} {pos : Nat} (h : pos ≤ buf.length) :
    readLen buf pos 0 = .ok 0 := by
  simp [readLen, h]

theorem payloadAndChildren_eq {buf : Bytes} {pos : Nat} (hpos : pos ≤ buf.length) {marker : Nat}
    (hmarker : marker < 256) :
    payloadAndChildren buf pos marker =
      readLen buf pos (lengthPrefixWidth marker) >>= announced marker := by
  by_cases hwide : marker ∈ [0xc4, 0xc7, 0xd9, 0xc5, 0xc8, 0xda, 0xdc, 0xde, 0xc6, 0xc9, 0xdb,
      0xdd, 0xdf]
  · simp only [List.mem_cons, List.not_mem_nil, or_false] at hwide
    rcases hwide with rfl | rfl | rfl | rfl | rfl | rfl | rfl | rfl | rfl | rfl | rfl | rfl | rfl <;>
      rfl
  · simp only [List.mem_cons, List.not_mem_nil, or_false, not_or] at hwide
    have hwidth : lengthPrefixWidth marker = 0 := by
      simp [lengthPrefixWidth, hwide]
    rw [hwidth, readLen_zero hpos]
    change _ = announced marker 0
    unfold payloadAndChildren announced
    -- the branches that read a length are those of the wide markers
    repeat' refine ite_congr rfl (fun _ => ?_) (fun _ => ?_)
    all_goals first | rfl | omega

/-! ## Lengths -/

theorem foldl_shift_eq (bytes : Bytes) (acc : Nat) :
    bytes.foldl (fun n b => n <<< 8 ||| b.toNat) acc =
      bytes.foldl (fun n b => n * 256 + b.toNat) acc := by
  induction bytes generalizing acc with
  | nil => rfl
  | cons byte bytes ih =>
      have hbyte : acc <<< 8 ||| byte.toNat = acc * 256 + byte.toNat := by
        rw [← Nat.shiftLeft_add_eq_or_of_lt byte.toNat_lt, Nat.shiftLeft_eq]
      rw [List.foldl_cons, List.foldl_cons, hbyte, ih]

theorem readLen_eq (buf : Bytes) (pos width : Nat) :
    readLen buf pos width =
      if pos + width ≤ buf.length then
        .ok (Codec.fromBeBytes ((buf.drop pos).take width))
      else .error truncated := by
  rw [readLen, foldl_shift_eq]
  rfl

theorem foldl_be_lt (bytes : Bytes) (acc : Nat) :
    bytes.foldl (fun n b => n * 256 + b.toNat) acc < (acc + 1) * 256 ^ bytes.length := by
  induction bytes generalizing acc with
  | nil => simp
  | cons byte bytes ih =>
      have hbyte : acc * 256 + byte.toNat + 1 ≤ (acc + 1) * 256 := by
        have := byte.toNat_lt
        omega
      calc (byte :: bytes).foldl (fun n b => n * 256 + b.toNat) acc
          < (acc * 256 + byte.toNat + 1) * 256 ^ bytes.length := ih _
        _ ≤ (acc + 1) * 256 * 256 ^ bytes.length := Nat.mul_le_mul_right _ hbyte
        _ = (acc + 1) * 256 ^ (byte :: bytes).length := by
            rw [List.length_cons, Nat.pow_succ, Nat.mul_assoc, Nat.mul_comm 256]

theorem readLen_ok {buf : Bytes} {pos width len : Nat} (h : readLen buf pos width = .ok len) :
    pos + width ≤ buf.length ∧ len < 256 ^ width := by
  rw [readLen_eq] at h
  split at h
  next hle =>
    refine ⟨hle, ?_⟩
    obtain rfl := Except.ok.inj h
    have hlt := foldl_be_lt ((buf.drop pos).take width) 0
    have hlength : ((buf.drop pos).take width).length = width := by
      rw [List.length_take, List.length_drop]
      omega
    rw [hlength] at hlt
    simpa [Codec.fromBeBytes] using hlt
  · contradiction

/-! ## One iteration -/

/-- The bytes from `pos` to `next` are a marker, the length it needs and its payload;
`children` values follow. -/
def Token (buf : Bytes) (pos next children : Nat) : Prop :=
  ∃ marker len payload, buf[pos]? = some marker ∧
    readLen buf (pos + 1) (lengthPrefixWidth marker.toNat) = .ok len ∧
    announced marker.toNat len = .ok (payload, children) ∧
    next = pos + 1 + lengthPrefixWidth marker.toNat + payload ∧ next ≤ buf.length

theorem Token.lt {buf : Bytes} {pos next children : Nat} (h : Token buf pos next children) :
    pos < next ∧ next ≤ buf.length := by
  obtain ⟨marker, len, payload, -, -, -, rfl, hle⟩ := h
  exact ⟨by omega, hle⟩

theorem checkedAdd_ok {a b n : Nat} : checkedAdd a b = .ok n ↔ n = a + b ∧ a + b < 2 ^ 64 := by
  unfold checkedAdd
  split
  next hlt => exact ⟨fun h => ⟨(Except.ok.inj h).symm, hlt⟩, fun h => by rw [h.1]⟩
  next hge => exact ⟨nofun, fun h => absurd h.2 hge⟩

theorem valueLenLoop_ok {buf : Bytes} {fuel pos pending n : Nat} :
    valueLenLoop buf (fuel + 1) pos (pending + 1) = .ok n ↔
      ∃ next children, Token buf pos next children ∧ next < 2 ^ 64 ∧
        pending + children < 2 ^ 64 ∧
        valueLenLoop buf fuel next (pending + children) = .ok n := by
  rw [valueLenLoop]
  cases hget : buf[pos]? with
  | none =>
      refine ⟨nofun, ?_⟩
      rintro ⟨next, children, ⟨marker, len, payload, hmarker, -⟩, -⟩
      simp [hget] at hmarker
  | some marker =>
      have hpos : pos + 1 ≤ buf.length := by
        obtain ⟨hlt, -⟩ := List.getElem?_eq_some_iff.mp hget
        omega
      simp only [payloadAndChildren_eq hpos marker.toNat_lt]
      constructor
      · intro h
        obtain ⟨⟨payload, children⟩, hannounced, h⟩ := bind_ok.mp h
        obtain ⟨len, hlen, hannounced⟩ := bind_ok.mp hannounced
        obtain ⟨next, hnext, h⟩ := bind_ok.mp h
        obtain ⟨rfl, hlt⟩ := checkedAdd_ok.mp hnext
        split at h
        · contradiction
        next hle =>
          obtain ⟨pending', hpending, h⟩ := bind_ok.mp h
          obtain ⟨rfl, hlt'⟩ := checkedAdd_ok.mp hpending
          exact ⟨_, children, ⟨marker, len, payload, hget, hlen, hannounced, rfl, by omega⟩,
            hlt, hlt', h⟩
      · rintro ⟨next, children, ⟨marker', len, payload, hmarker, hlen, hannounced, rfl, hle⟩, hlt,
          hlt', h⟩
        obtain rfl := Option.some.inj (hget.symm.trans hmarker)
        refine bind_ok.mpr ⟨(payload, children), bind_ok.mpr ⟨len, hlen, hannounced⟩, ?_⟩
        refine bind_ok.mpr ⟨_, checkedAdd_ok.mpr ⟨rfl, hlt⟩, ?_⟩
        rw [if_neg (by omega)]
        exact bind_ok.mpr ⟨_, checkedAdd_ok.mpr ⟨rfl, hlt'⟩, h⟩

/-! ## The whole loop -/

theorem valueLenLoop_zero (buf : Bytes) (fuel pos : Nat) :
    valueLenLoop buf fuel pos 0 = .ok pos := by
  cases fuel <;> rfl

theorem valueLenLoop_invariant {buf : Bytes} (Holds : Nat → Nat → Prop)
    (hstep : ∀ pos pending next children, Holds pos (pending + 1) →
      Token buf pos next children → next < 2 ^ 64 → Holds next (pending + children))
    {fuel pos pending n : Nat} (h : valueLenLoop buf fuel pos pending = .ok n)
    (hstart : Holds pos pending) : Holds n 0 := by
  induction fuel generalizing pos pending with
  | zero =>
      cases pending with
      | zero =>
          obtain rfl := Except.ok.inj h
          exact hstart
      | succ pending => contradiction
  | succ fuel ih =>
      cases pending with
      | zero =>
          obtain rfl := Except.ok.inj h
          exact hstart
      | succ pending =>
          obtain ⟨next, children, htoken, hlt, -, hrest⟩ := valueLenLoop_ok.mp h
          exact ih hrest (hstep pos pending next children hstart htoken hlt)

theorem valueLenLoop_le {buf : Bytes} {fuel pos pending n : Nat}
    (h : valueLenLoop buf fuel pos pending = .ok n) (hpos : pos ≤ buf.length) :
    pos + pending ≤ n ∧ n ≤ buf.length := by
  refine valueLenLoop_invariant
    (fun here left => pos + pending ≤ here + left ∧ here ≤ buf.length) ?_ h ⟨le_rfl, hpos⟩
  intro here left next children hholds htoken _
  obtain ⟨hlt, hle⟩ := htoken.lt
  omega

def Agree (buf buf' : Bytes) (n : Nat) : Prop := buf'.take n = buf.take n ∧ n ≤ buf'.length

theorem Agree.getElem? {buf buf' : Bytes} {n i : Nat} (h : Agree buf buf' n) (hi : i < n) :
    buf'[i]? = buf[i]? := by
  rw [← List.getElem?_take_of_lt hi, h.1, List.getElem?_take_of_lt hi]

theorem Agree.readLen {buf buf' : Bytes} {n pos width : Nat} (h : Agree buf buf' n)
    (hle : pos + width ≤ n) (hbuf : n ≤ buf.length) :
    readLen buf' pos width = readLen buf pos width := by
  have hslice (bytes : Bytes) : (bytes.drop pos).take width =
      ((bytes.take n).drop pos).take width := by
    rw [List.drop_take, List.take_take]
    congr 1
    omega
  rw [readLen_eq, readLen_eq, if_pos (by have := h.2; omega), if_pos (by omega), hslice buf',
    hslice buf, h.1]

theorem Token.agree {buf buf' : Bytes} {pos next children n : Nat}
    (h : Token buf pos next children) (hagree : Agree buf buf' n) (hnext : next ≤ n)
    (hbuf : n ≤ buf.length) : Token buf' pos next children := by
  obtain ⟨marker, len, payload, hget, hlen, hannounced, rfl, hle⟩ := h
  refine ⟨marker, len, payload, ?_, ?_, hannounced, rfl, hnext.trans hagree.2⟩
  · rw [hagree.getElem? (by omega), hget]
  · rw [hagree.readLen (by omega) hbuf, hlen]

theorem valueLenLoop_agree {buf buf' : Bytes} {fuel fuel' pos pending n : Nat}
    (h : valueLenLoop buf fuel pos pending = .ok n) (hagree : Agree buf buf' n)
    (hbuf : n ≤ buf.length) (hpos : pos ≤ buf.length) (hfuel : n - pos < fuel') :
    valueLenLoop buf' fuel' pos pending = .ok n := by
  induction fuel generalizing pos pending fuel' with
  | zero =>
      cases pending with
      | zero => exact (valueLenLoop_zero _ _ _).trans h
      | succ pending => contradiction
  | succ fuel ih =>
      cases pending with
      | zero => exact (valueLenLoop_zero _ _ _).trans h
      | succ pending =>
          obtain ⟨next, children, htoken, hlt, hlt', hrest⟩ := valueLenLoop_ok.mp h
          obtain ⟨hpast, hle⟩ := htoken.lt
          have hend := (valueLenLoop_le hrest hle).1
          cases fuel' with
          | zero => omega
          | succ fuel' =>
              refine valueLenLoop_ok.mpr ⟨next, children,
                htoken.agree hagree (by omega) hbuf, hlt, hlt', ?_⟩
              exact ih hrest hle (by omega)

theorem valueLen_le {buf : Bytes} {n : Nat} (h : valueLen buf = .ok n) :
    0 < n ∧ n ≤ buf.length := by
  have := valueLenLoop_le h (Nat.zero_le _)
  omega

theorem valueLen_take {buf : Bytes} {n : Nat} (h : valueLen buf = .ok n) :
    valueLen (buf.take n) = .ok n := by
  have hle := (valueLen_le h).2
  have hlength : (buf.take n).length = n := by
    rw [List.length_take]
    omega
  refine valueLenLoop_agree h ⟨?_, hlength.ge⟩ hle (Nat.zero_le _) (by omega)
  rw [List.take_take, Nat.min_self]

theorem valueLen_append {buf : Bytes} {n : Nat} (h : valueLen buf = .ok n) (more : Bytes) :
    valueLen (buf ++ more) = .ok n := by
  have hle := (valueLen_le h).2
  refine valueLenLoop_agree h ⟨?_, ?_⟩ hle (Nat.zero_le _) ?_
  · exact List.take_append_of_le_length hle
  · rw [List.length_append]
    omega
  · rw [List.length_append]
    omega

/-! ## Walking a map -/

structure Entry.In (entry : Entry) (buf : Bytes) : Prop where
  le : entry.offset + entry.value.length ≤ buf.length
  value : entry.value = (buf.drop entry.offset).take entry.value.length
  whole : valueLen entry.value = .ok entry.value.length

theorem MapCursor.next_some {rmp : Rmp} {cursor cursor' : MapCursor} {entry : Entry}
    (h : cursor.next rmp = .ok (some (entry, cursor'))) :
    entry.In cursor.buf ∧ 0 < cursor.remaining ∧
      cursor' = ⟨cursor.buf, entry.offset + entry.value.length, cursor.remaining - 1⟩ := by
  unfold MapCursor.next at h
  split at h
  · simp at h
  next hremaining =>
    obtain ⟨keyLen, hkeyLen, h⟩ := bind_ok.mp h
    obtain ⟨key, hkey, h⟩ := bind_ok.mp h
    obtain ⟨len, hlen, h⟩ := bind_ok.mp h
    obtain ⟨rfl, rfl⟩ := Prod.mk.inj (Option.some.inj (Except.ok.inj h))
    obtain ⟨hpos, hle⟩ := valueLen_le hlen
    rw [List.length_drop] at hle
    have hlength : ((cursor.buf.drop (cursor.pos + keyLen)).take len).length = len := by
      rw [List.length_take, List.length_drop]
      omega
    refine ⟨⟨?_, ?_, ?_⟩, by omega, ?_⟩
    · simp only [hlength]
      omega
    · rw [hlength]
    · rw [hlength]
      exact valueLen_take hlen
    · rw [hlength]

theorem MapCursor.walk_invariant {α : Type} {rmp : Rmp} {visit : α → Entry → Except Error α}
    {buf : Bytes} {I : α → Prop}
    (hvisit : ∀ acc entry acc', entry.In buf → I acc → visit acc entry = .ok acc' → I acc')
    {fuel : Nat} {cursor : MapCursor} {acc result : α} (hbuf : cursor.buf = buf) (hacc : I acc)
    (h : walk rmp visit fuel cursor acc = .ok result) : I result := by
  induction fuel generalizing cursor acc with
  | zero =>
      obtain rfl := Except.ok.inj h
      exact hacc
  | succ fuel ih =>
      obtain ⟨next, hnext, h⟩ := bind_ok.mp h
      cases next with
      | none =>
          obtain rfl := Except.ok.inj h
          exact hacc
      | some step =>
          obtain ⟨entry, cursor'⟩ := step
          obtain ⟨acc', hvisited, h⟩ := bind_ok.mp h
          obtain ⟨hin, -, rfl⟩ := next_some hnext
          refine ih ?_ (hvisit acc entry acc' (hbuf ▸ hin) hacc hvisited) h
          exact hbuf

theorem MapCursor.new_buf {buf : Bytes} {cursor : MapCursor} {total : Nat}
    (h : MapCursor.new buf = .ok (cursor, total)) :
    cursor.buf = buf ∧ cursor.pos ≤ buf.length ∧ valueLen buf = .ok total := by
  obtain ⟨total', htotal, h⟩ := bind_ok.mp h
  obtain ⟨hpos, hle⟩ := valueLen_le htotal
  simp only at h
  split at h
  · obtain ⟨rfl, rfl⟩ := Prod.mk.inj (Except.ok.inj h)
    exact ⟨rfl, by simp only; omega, htotal⟩
  · split at h
    · obtain ⟨len, hlen, h⟩ := bind_ok.mp h
      obtain ⟨rfl, rfl⟩ := Prod.mk.inj (Except.ok.inj h)
      exact ⟨rfl, (readLen_ok hlen).1, htotal⟩
    · split at h
      · obtain ⟨len, hlen, h⟩ := bind_ok.mp h
        obtain ⟨rfl, rfl⟩ := Prod.mk.inj (Except.ok.inj h)
        exact ⟨rfl, (readLen_ok hlen).1, htotal⟩
      · contradiction

end Tarant.Msgpack
