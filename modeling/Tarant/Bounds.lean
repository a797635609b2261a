import Tarant.Layout
import Tarant.Framing

/-!
# No panic in the packet layer

The functions of `msgpack.rs` and `codec.rs` once more, with every operation that
can panic made explicit: an index, a slice, an addition, a subtraction or a
product on `usize`.  No input makes one of them fail, and apart from that the
functions are the ones of `Tarant.Msgpack` and `Tarant.Codec`.  `read_uint` and
`read_str` hand the slice to `rmp` and index nothing: the bytes of a string are
taken with `get`.
-/

namespace Tarant.Checked

open Iproto
open Msgpack (truncated checkedAdd lengthPrefixWidth MapCursor Entry)

/-! ## Operations that can panic -/

inductive Fault where
  | index
  | slice
  | overflow
  deriving DecidableEq, Repr

/-- A computation that may return an error, or panic. -/
abbrev Attempt := ExceptT Error (Except Fault)

def add (a b : Nat) : Except Fault Nat :=
  if a + b < 2 ^ 64 then .ok (a + b) else .error .overflow

def sub (a b : Nat) : Except Fault Nat :=
  if b ≤ a then .ok (a - b) else .error .overflow

def mul (a b : Nat) : Except Fault Nat :=
  if a * b < 2 ^ 64 then .ok (a * b) else .error .overflow

/-- `buf[i]`. -/
def at? (buf : Bytes) (i : Nat) : Except Fault UInt8 :=
  match buf[i]? with
  | some byte => .ok byte
  | none => .error .index

/-- `&buf[start..stop]`. -/
def slice (buf : Bytes) (start stop : Nat) : Except Fault Bytes :=
  if start ≤ stop ∧ stop ≤ buf.length then .ok ((buf.drop start).take (stop - start))
  else .error .slice

/-- `&buf[start..]`. -/
def sliceFrom (buf : Bytes) (start : Nat) : Except Fault Bytes :=
  if start ≤ buf.length then .ok (buf.drop start) else .error .slice

/-- An error of the code is not a panic. -/
def returned {α : Type} (x : Except Error α) : Attempt α := ExceptT.mk (.ok x)

/-! ## The functions -/

def readLen (buf : Bytes) (pos width : Nat) : Attempt Nat := do
  let stop ← add pos width
  -- `get` with a range returns `None` where indexing would panic
  if stop ≤ buf.length then
    return ((buf.drop pos).take width).foldl (fun n b => n <<< 8 ||| b.toNat) 0
  else returned (.error truncated)

def payloadAndChildren (buf : Bytes) (pos marker : Nat) : Attempt (Nat × Nat) :=
  if marker ≤ 0x7f ∨ marker = 0xc0 ∨ marker = 0xc2 ∨ marker = 0xc3 ∨
      0xe0 ≤ marker then return (0, 0)
  else if marker ≤ 0x8f then do return (0, ← mul 2 (marker &&& 0x0f))
  else if marker ≤ 0x9f then return (0, marker &&& 0x0f)
  else if marker ≤ 0xbf then return (marker &&& 0x1f, 0)
  else if marker = 0xc1 then
    returned (.error (.protocol "reserved MessagePack marker 0xc1"))
  else if marker = 0xc4 ∨ marker = 0xd9 then do return (← readLen buf pos 1, 0)
  else if marker = 0xc5 ∨ marker = 0xda then do return (← readLen buf pos 2, 0)
  else if marker = 0xc6 ∨ marker = 0xdb then do return (← readLen buf pos 4, 0)
  else if marker = 0xc7 then do return (← add 1 (← readLen buf pos 1), 0)
  else if marker = 0xc8 then do return (← add 1 (← readLen buf pos 2), 0)
  else if marker = 0xc9 then do return (← add 1 (← readLen buf pos 4), 0)
  else if marker = 0xca ∨ marker = 0xcc ∨ marker = 0xd0 then
    return (if marker = 0xca then 4 else 1, 0)
  else if marker = 0xcb ∨ marker = 0xcd ∨ marker = 0xd1 then
    return (if marker = 0xcb then 8 else 2, 0)
  else if marker = 0xce ∨ marker = 0xd2 then return (4, 0)
  else if marker = 0xcf ∨ marker = 0xd3 then return (8, 0)
  else if marker = 0xd4 then return (2, 0)
  else if marker = 0xd5 then return (3, 0)
  else if marker = 0xd6 then return (5, 0)
  else if marker = 0xd7 then return (9, 0)
  else if marker = 0xd8 then return (17, 0)
  else if marker = 0xdc then do return (0, ← readLen buf pos 2)
  else if marker = 0xdd then do return (0, ← readLen buf pos 4)
  else if marker = 0xde then do return (0, ← mul 2 (← readLen buf pos 2))
  else do return (0, ← mul 2 (← readLen buf pos 4))

def valueLenLoop (buf : Bytes) : Nat → Nat → Nat → Attempt Nat
  | _, pos, 0 => return pos
  | 0, _, _ + 1 => returned (.error truncated)
  | fuel + 1, pos, pending + 1 =>
      match buf[pos]? with
      | none => returned (.error truncated)
      | some marker => do
          let pos ← add pos 1
          let (payload, children) ← payloadAndChildren buf pos marker.toNat
          let pos ← add pos (lengthPrefixWidth marker.toNat)
          let next ← returned (checkedAdd pos payload)
          if buf.length < next then returned (.error truncated)
          else do
            let pending ← returned (checkedAdd pending children)
            valueLenLoop buf fuel next pending

def valueLen (buf : Bytes) : Attempt Nat := valueLenLoop buf (buf.length + 1) 0 1

def newCursor (buf : Bytes) : Attempt (MapCursor × Nat) := do
  let total ← valueLen buf
  let marker ← at? buf 0
  let marker := marker.toNat
  if 0x80 ≤ marker ∧ marker ≤ 0x8f then return (⟨buf, 1, marker &&& 0x0f⟩, total)
  else if marker = 0xde then do return (⟨buf, 3, ← readLen buf 1 2⟩, total)
  else if marker = 0xdf then do return (⟨buf, 5, ← readLen buf 1 4⟩, total)
  else returned (.error (.protocol "expected a MessagePack map"))

def next (rmp : Rmp) (cursor : MapCursor) : Attempt (Option (Entry × MapCursor)) :=
  if cursor.remaining = 0 then return none
  else do
    let remaining ← sub cursor.remaining 1
    let keyLen ← valueLen (← sliceFrom cursor.buf cursor.pos)
    let offset ← add cursor.pos keyLen
    let key ← returned (Msgpack.readUint rmp (← slice cursor.buf cursor.pos offset))
    let len ← valueLen (← sliceFrom cursor.buf offset)
    let stop ← add offset len
    let value ← slice cursor.buf offset stop
    return some (⟨key, offset, value⟩, ⟨cursor.buf, stop, remaining⟩)

def walk {α : Type} (rmp : Rmp) (visit : α → Entry → Attempt α) :
    Nat → MapCursor → α → Attempt α
  | 0, _, acc => return acc
  | fuel + 1, cursor, acc => do
      match ← next rmp cursor with
      | none => return acc
      | some (entry, cursor) => walk rmp visit fuel cursor (← visit acc entry)

def forEach {α : Type} (rmp : Rmp) (cursor : MapCursor) (acc : α)
    (visit : α → Entry → Attempt α) : Attempt α :=
  walk rmp visit (cursor.remaining + 1) cursor acc

/-- The body loop adds before it looks at the key; the header loop adds nothing. -/
def visitBody (rmp : Rmp) (parts : BodyParts) (entry : Entry) : Attempt BodyParts := do
  let _ ← add entry.offset entry.value.length
  returned (BodyParts.visit rmp parts entry)

def parse (rmp : Rmp) (packet : Bytes) : Attempt Response := do
  let (cursor, headerLen) ← newCursor packet
  let header ← forEach rmp cursor {} fun header entry =>
    returned (Header.visit rmp header entry)
  match header.requestType with
  | none => returned (.error (.protocol "response header has no request type"))
  | some requestType => do
      let kind ← returned (kindOf requestType)
      let body ← sliceFrom packet headerLen
      let this : Response :=
        { kind, sync := header.sync, schemaVersion := header.schemaVersion, body }
      if this.body = [] then return this
      else do
        let (cursor, _) ← newCursor this.body
        let parts ← forEach rmp cursor ⟨this, none, none⟩ (visitBody rmp)
        if kind = .error then do
          let err ← returned (match parts.errorExt with
            | some bytes => decodeErrorMap rmp bytes (errorCode requestType)
            | none => .ok (ServerError.fromMessage (errorCode requestType)
                (parts.error24.getD "")))
          return { parts.response with error := some err }
        else return parts.response

/-- The bytes of a length prefix, read one by one or, for the widest, as a slice. -/
def packetLen (src : Bytes) (width : Nat) : Except Fault Nat :=
  if width = 1 then do return (← at? src 0).toNat
  else if width = 9 then do return Codec.fromBeBytes (← slice src 1 9)
  else do return Codec.fromBeBytes (← (List.range (width - 1)).mapM fun i => at? src (i + 1))

def decode (rmp : Rmp) (src : Bytes) :
    Except Fault (Except Error (Option Response) × Bytes) :=
  match src with
  | [] => return (.ok none, src)
  | marker :: _ =>
      match Codec.prefixWidth marker.toNat with
      | none =>
          return (.error (.protocol ("bad packet length marker " ++ hex marker.toNat)), src)
      | some width =>
          if src.length < width then do
            -- the missing bytes are reserved
            let _ ← sub width src.length
            return (.ok none, src)
          else do
            let len ← packetLen src width
            if Codec.maxPacketLen < len then
              return (.error (.protocol ("packet of " ++ toString len ++
                " bytes exceeds the 2 GiB limit")), src)
            else do
              let total ← add width len
              if src.length < total then do
                let _ ← sub total src.length
                return (.ok none, src)
              else do
                let rest ← sliceFrom src width
                let packet ← slice rest 0 len
                let rest ← sliceFrom rest len
                let parsed ← (parse rmp packet).run
                return (parsed.map some, rest)

/-- `Response::slice`, which `data_bytes`, `event` and the other accessors call. -/
def located (this : Response) : Option (Nat × Nat) → Except Fault (Option Bytes)
  | none => return none
  | some (start, stop) => do return some (← slice this.body start stop)

/-! ## Nothing panics -/

theorem returned_bind {α β : Type} {x : Except Error α} {f : α → Except Error β}
    {g : α → Attempt β} (h : ∀ a, x = .ok a → g a = returned (f a)) :
    (returned x >>= g) = returned (x >>= f) := by
  cases x with
  | error err => rfl
  | ok a => exact h a rfl

theorem lift_bind {α β : Type} {x : Except Fault α} {a : α} (h : x = .ok a) (g : α → Attempt β) :
    ((liftM x : Attempt α) >>= g) = g a := by
  rw [h]
  rfl

theorem fault_bind {α β : Type} {x : Except Fault α} {a : α} (h : x = .ok a)
    (g : α → Except Fault β) : (x >>= g) = g a := by
  rw [h]
  rfl

theorem add_ok {a b : Nat} (h : a + b < 2 ^ 64) : add a b = .ok (a + b) := if_pos h

theorem sub_ok {a b : Nat} (h : b ≤ a) : sub a b = .ok (a - b) := if_pos h

theorem mul_ok {a b : Nat} (h : a * b < 2 ^ 64) : mul a b = .ok (a * b) := if_pos h

theorem slice_ok {buf : Bytes} {start stop : Nat} (h : start ≤ stop) (hstop : stop ≤ buf.length) :
    slice buf start stop = .ok ((buf.drop start).take (stop - start)) := if_pos ⟨h, hstop⟩

theorem sliceFrom_ok {buf : Bytes} {start : Nat} (h : start ≤ buf.length) :
    sliceFrom buf start = .ok (buf.drop start) := if_pos h

theorem readLen_eq {buf : Bytes} {pos width : Nat} (h : pos + width < 2 ^ 64) :
    readLen buf pos width = returned (Msgpack.readLen buf pos width) := by
  unfold readLen Msgpack.readLen
  rw [lift_bind (add_ok h)]
  split <;> rfl

theorem readLen_bind {α : Type} {buf : Bytes} {pos width : Nat} (h : pos + width < 2 ^ 64)
    {f : Nat → Except Error α} {g : Nat → Attempt α}
    (hg : ∀ n, n < 256 ^ width → g n = returned (f n)) :
    (readLen buf pos width >>= g) = returned (Msgpack.readLen buf pos width >>= f) := by
  rw [readLen_eq h]
  exact returned_bind fun n hn => hg n (Msgpack.readLen_ok hn).2

theorem payloadAndChildren_eq {buf : Bytes} {pos marker : Nat} (hpos : pos + 4 < 2 ^ 64) :
    payloadAndChildren buf pos marker =
      returned (Msgpack.payloadAndChildren buf pos marker) := by
  have hcount : marker &&& 0x0f ≤ 0x0f := Nat.and_le_right
  unfold payloadAndChildren Msgpack.payloadAndChildren
  simp only [apply_ite returned]
  repeat' refine ite_congr rfl (fun _ => ?_) (fun _ => ?_)
  all_goals first
    | rfl
    | exact lift_bind (mul_ok (a := 2) (b := marker &&& 0x0f) (by omega)) _
    | exact readLen_bind (by omega) fun n hn => rfl
    | exact readLen_bind (by omega) fun n hn => lift_bind (add_ok (a := 1) (b := n) (by omega)) _
    | exact readLen_bind (by omega) fun n hn => lift_bind (mul_ok (a := 2) (b := n) (by omega)) _

theorem lengthPrefixWidth_le (marker : Nat) : lengthPrefixWidth marker ≤ 4 := by
  unfold lengthPrefixWidth
  split_ifs <;> omega

theorem valueLenLoop_eq {buf : Bytes} (hbuf : buf.length < 2 ^ 63) (fuel : Nat) {pos : Nat}
    (hpos : pos ≤ buf.length) (pending : Nat) :
    valueLenLoop buf fuel pos pending = returned (Msgpack.valueLenLoop buf fuel pos pending) := by
  induction fuel generalizing pos pending with
  | zero => cases pending <;> rfl
  | succ fuel ih =>
      cases pending with
      | zero => rfl
      | succ pending =>
          rw [valueLenLoop, Msgpack.valueLenLoop]
          cases buf[pos]? with
          | none => rfl
          | some marker =>
              have hwidth := lengthPrefixWidth_le marker.toNat
              simp only
              rw [lift_bind (add_ok (by omega)),
                payloadAndChildren_eq (by omega)]
              refine returned_bind fun announced _ => ?_
              obtain ⟨payload, children⟩ := announced
              change (liftM (add (pos + 1) _) >>= _) = _
              rw [lift_bind (add_ok (by omega))]
              refine returned_bind fun next _ => ?_
              split
              · rfl
              next hnext => exact returned_bind fun pending' _ => ih (by omega) pending'

theorem valueLen_eq {buf : Bytes} (hbuf : buf.length < 2 ^ 63) :
    valueLen buf = returned (Msgpack.valueLen buf) :=
  valueLenLoop_eq hbuf _ (Nat.zero_le _) _

theorem newCursor_eq {buf : Bytes} (hbuf : buf.length < 2 ^ 63) :
    newCursor buf = returned (MapCursor.new buf) := by
  rw [newCursor, MapCursor.new, valueLen_eq hbuf]
  refine returned_bind fun total htotal => ?_
  have hat : at? buf 0 = .ok (buf.head?.getD 0) := by
    obtain ⟨hpos, hle⟩ := Msgpack.valueLen_le htotal
    cases buf with
    | nil => simp at hle; omega
    | cons byte buf => rfl
  rw [lift_bind hat]
  simp only [apply_ite returned]
  refine ite_congr rfl (fun _ => rfl) fun _ => ?_
  refine ite_congr rfl (fun _ => readLen_bind (by omega) fun n _ => rfl) fun _ => ?_
  exact ite_congr rfl (fun _ => readLen_bind (by omega) fun n _ => rfl) fun _ => rfl

theorem next_eq (rmp : Rmp) {cursor : MapCursor} (hbuf : cursor.buf.length < 2 ^ 63)
    (hpos : cursor.pos ≤ cursor.buf.length) :
    next rmp cursor = returned (cursor.next rmp) := by
  unfold next MapCursor.next
  rw [apply_ite returned]
  refine ite_congr rfl (fun _ => rfl) fun hremaining => ?_
  have hdrop (start : Nat) : (cursor.buf.drop start).length < 2 ^ 63 := by
    rw [List.length_drop]
    omega
  rw [lift_bind (sub_ok (by omega)), lift_bind (sliceFrom_ok hpos), valueLen_eq (hdrop _)]
  refine returned_bind fun keyLen hkeyLen => ?_
  have hkey := (Msgpack.valueLen_le hkeyLen).2
  rw [List.length_drop] at hkey
  rw [lift_bind (add_ok (by omega)), lift_bind (slice_ok (by omega) (by omega)),
    Nat.add_sub_cancel_left]
  refine returned_bind fun key _ => ?_
  rw [lift_bind (sliceFrom_ok (by omega)), valueLen_eq (hdrop _)]
  refine returned_bind fun len hlen => ?_
  have hvalue := (Msgpack.valueLen_le hlen).2
  rw [List.length_drop] at hvalue
  rw [lift_bind (add_ok (by omega)), lift_bind (slice_ok (by omega) (by omega)),
    Nat.add_sub_cancel_left]
  rfl

theorem walk_eq {α : Type} (rmp : Rmp) {visit : α → Entry → Except Error α}
    {visit' : α → Entry → Attempt α} {buf : Bytes} (hbuf : buf.length < 2 ^ 63)
    (hvisit : ∀ acc entry, entry.In buf → visit' acc entry = returned (visit acc entry))
    (fuel : Nat) {cursor : MapCursor} (hcursor : cursor.buf = buf) (hpos : cursor.pos ≤ buf.length)
    (acc : α) :
    walk rmp visit' fuel cursor acc = returned (MapCursor.walk rmp visit fuel cursor acc) := by
  induction fuel generalizing cursor acc with
  | zero => rfl
  | succ fuel ih =>
      rw [walk, MapCursor.walk, next_eq rmp (hcursor ▸ hbuf) (hcursor ▸ hpos)]
      refine returned_bind fun next hnext => ?_
      cases next with
      | none => rfl
      | some step =>
          obtain ⟨entry, cursor'⟩ := step
          obtain ⟨hin, -, rfl⟩ := MapCursor.next_some hnext
          rw [hcursor] at hin
          simp only
          rw [hvisit acc entry hin]
          refine returned_bind fun acc' _ => ih ?_ ?_ acc'
          · exact hcursor
          · exact hin.le

theorem forEach_eq {α : Type} (rmp : Rmp) {visit : α → Entry → Except Error α}
    {visit' : α → Entry → Attempt α} {buf : Bytes} (hbuf : buf.length < 2 ^ 63)
    (hvisit : ∀ acc entry, entry.In buf → visit' acc entry = returned (visit acc entry))
    {cursor : MapCursor} {total : Nat} (hnew : MapCursor.new buf = .ok (cursor, total)) (acc : α) :
    forEach rmp cursor acc visit' = returned (cursor.forEach rmp acc visit) := by
  obtain ⟨hcursor, hpos, -⟩ := MapCursor.new_buf hnew
  exact walk_eq rmp hbuf hvisit _ hcursor hpos acc

theorem parse_eq (rmp : Rmp) {packet : Bytes} (hpacket : packet.length < 2 ^ 63) :
    parse rmp packet = returned (Response.parse rmp packet) := by
  unfold parse Response.parse
  rw [newCursor_eq hpacket]
  refine returned_bind fun first hfirst => ?_
  obtain ⟨cursor, headerLen⟩ := first
  have hheader := Msgpack.valueLen_le (MapCursor.new_buf hfirst).2.2
  simp only
  rw [forEach_eq rmp hpacket (fun _ _ _ => rfl) hfirst]
  refine returned_bind fun header _ => ?_
  cases header.requestType with
  | none => rfl
  | some requestType =>
      refine returned_bind fun kind _ => ?_
      rw [lift_bind (sliceFrom_ok hheader.2)]
      have hbody : (packet.drop headerLen).length < 2 ^ 63 := by
        rw [List.length_drop]
        omega
      simp only [apply_ite returned]
      refine ite_congr rfl (fun _ => rfl) fun _ => ?_
      rw [newCursor_eq hbody]
      refine returned_bind fun second hsecond => ?_
      obtain ⟨cursor, total⟩ := second
      have hvisit (parts : BodyParts) (entry : Entry) (hin : entry.In (packet.drop headerLen)) :
          visitBody rmp parts entry = returned (BodyParts.visit rmp parts entry) := by
        have hle := hin.le
        exact lift_bind (add_ok (by omega)) _
      simp only
      rw [forEach_eq rmp hbody hvisit hsecond]
      refine returned_bind fun parts _ => ?_
      simp only [apply_ite returned]
      refine ite_congr rfl (fun _ => ?_) fun _ => rfl
      cases parts.errorExt with
      | none => rfl
      | some bytes => exact returned_bind fun err _ => rfl

theorem mapM_at {src : Bytes} (n : Nat) (h : n < src.length) :
    (List.range n).mapM (fun i => at? src (i + 1)) = .ok ((src.drop 1).take n) := by
  induction n with
  | zero => rfl
  | succ n ih =>
      have hget : src[n + 1]? = some src[n + 1] := List.getElem?_eq_getElem h
      have hat : at? src (n + 1) = .ok src[n + 1] := by
        rw [at?, hget]
      rw [List.range_succ, List.mapM_append, ih (by omega)]
      simp only [List.mapM_cons, List.mapM_nil, hat]
      change Except.ok ((src.drop 1).take n ++ [src[n + 1]]) = _
      rw [List.take_add_one, List.getElem?_drop, Nat.add_comm 1 n, hget]
      rfl

theorem prefixWidth_le {marker width : Nat} (h : Codec.prefixWidth marker = some width) :
    width ≤ 9 := by
  unfold Codec.prefixWidth at h
  split_ifs at h <;> simp only [Option.some.injEq] at h <;> omega

theorem packetLen_eq {src : Bytes} {marker width : Nat}
    (hwidth : Codec.prefixWidth marker = some width) (h : width ≤ src.length) :
    packetLen src width = .ok (Codec.packetLen src width) := by
  have hpos := Codec.prefixWidth_pos hwidth
  unfold packetLen Codec.packetLen
  split
  · cases src with
    | nil => simp at h; omega
    | cons byte src => rfl
  · split
    next hnine =>
      subst hnine
      rw [slice_ok (by omega) h]
      rfl
    · rw [mapM_at (width - 1) (by omega)]
      rfl

theorem decode_eq (rmp : Rmp) (src : Bytes) : decode rmp src = .ok (Codec.decode rmp src) := by
  cases src with
  | nil => rfl
  | cons marker tail =>
      unfold decode Codec.decode
      simp only
      cases hwidth : Codec.prefixWidth marker.toNat with
      | none => rfl
      | some width =>
          have hnine := prefixWidth_le hwidth
          simp only [apply_ite Except.ok]
          refine ite_congr rfl (fun hshort => fault_bind (sub_ok hshort.le) _) fun hlong => ?_
          rw [fault_bind (packetLen_eq hwidth (not_lt.mp hlong))]
          refine ite_congr rfl (fun _ => rfl) fun hmax => ?_
          have hlen : Codec.packetLen (marker :: tail) width ≤ 2 ^ 31 := not_lt.mp hmax
          generalize Codec.packetLen (marker :: tail) width = len at hlen
          rw [fault_bind (add_ok (by omega))]
          refine ite_congr rfl (fun hpart => fault_bind (sub_ok hpart.le) _) fun hwhole => ?_
          have hrest : len ≤ ((marker :: tail).drop width).length := by
            rw [List.length_drop]
            omega
          have hpacket : (((marker :: tail).drop width).take len).length < 2 ^ 63 := by
            rw [List.length_take]
            omega
          rw [fault_bind (sliceFrom_ok (not_lt.mp hlong)),
            fault_bind (slice_ok (Nat.zero_le _) hrest), fault_bind (sliceFrom_ok hrest),
            List.drop_zero, Nat.sub_zero, parse_eq rmp hpacket]
          rfl

/-! ## Recorded ranges -/

def ranges (this : Response) : List (Option (Nat × Nat)) :=
  [this.data, this.eventData, this.metadata, this.bindMetadata, this.sqlInfo]

def Delimits (body : Bytes) (range : Nat × Nat) : Prop :=
  range.1 ≤ range.2 ∧ range.2 ≤ body.length ∧
    Msgpack.valueLen ((body.drop range.1).take (range.2 - range.1)) = .ok (range.2 - range.1)

theorem Delimits.entry {body : Bytes} {entry : Entry} (h : entry.In body) :
    Delimits body (entry.offset, entry.offset + entry.value.length) := by
  refine ⟨Nat.le_add_right _ _, h.le, ?_⟩
  rw [Nat.add_sub_cancel_left, ← h.value]
  exact h.whole

theorem visit_ranges {rmp : Rmp} {parts parts' : BodyParts} {entry : Entry}
    (h : BodyParts.visit rmp parts entry = .ok parts') :
    parts'.response.body = parts.response.body ∧
      ∀ range ∈ ranges parts'.response, range ∈ ranges parts.response ∨
        range = some (entry.offset, entry.offset + entry.value.length) := by
  obtain ⟨-, rfl⟩ := (BodyParts.visit_ok _ _ _ _).mp h
  refine ⟨rfl, fun range hrange => ?_⟩
  simp only [ranges, BodyParts.recorded, List.mem_cons, List.not_mem_nil, or_false]
    at hrange ⊢
  obtain rfl | rfl | rfl | rfl | rfl := hrange <;> split <;> simp [Entry.range]

theorem parse_delimits {rmp : Rmp} {packet : Bytes} {response : Response}
    (h : Response.parse rmp packet = .ok response) :
    ∀ range, some range ∈ ranges response → Delimits response.body range := by
  unfold Response.parse at h
  obtain ⟨⟨cursor, headerLen⟩, -, h⟩ := Msgpack.bind_ok.mp h
  obtain ⟨header, -, h⟩ := Msgpack.bind_ok.mp h
  cases hrequestType : header.requestType with
  | none => simp [hrequestType] at h
  | some requestType =>
      simp only [hrequestType] at h
      obtain ⟨kind, -, h⟩ := Msgpack.bind_ok.mp h
      split at h
      · obtain rfl := Except.ok.inj h
        simp [ranges]
      · obtain ⟨⟨cursor, total⟩, hnew, h⟩ := Msgpack.bind_ok.mp h
        obtain ⟨parts, hparts, h⟩ := Msgpack.bind_ok.mp h
        -- the body is kept, and each visit records at most the range of its entry
        have hkept : parts.response.body = packet.drop headerLen ∧
            ∀ range, some range ∈ ranges parts.response →
              Delimits (packet.drop headerLen) range := by
          refine MapCursor.walk_invariant
            (I := fun parts => parts.response.body = packet.drop headerLen ∧
              ∀ range, some range ∈ ranges parts.response →
                Delimits (packet.drop headerLen) range)
            ?_ (MapCursor.new_buf hnew).1 ?_ hparts
          · intro parts entry parts' hin hparts hvisit
            obtain ⟨hbody, hranges⟩ := visit_ranges hvisit
            refine ⟨hbody.trans hparts.1, fun range hrange => ?_⟩
            obtain hold | hnew := hranges _ hrange
            · exact hparts.2 range hold
            · obtain rfl := Option.some.inj hnew
              exact .entry hin
          · exact ⟨rfl, by simp [ranges]⟩
        split at h
        · cases hext : parts.errorExt with
          | none =>
              simp only [hext] at h
              obtain rfl := Except.ok.inj h
              exact fun range hrange => hkept.1 ▸ hkept.2 range hrange
          | some bytes =>
              simp only [hext] at h
              obtain ⟨err, -, h⟩ := Msgpack.bind_ok.mp h
              obtain rfl := Except.ok.inj h
              exact fun range hrange => hkept.1 ▸ hkept.2 range hrange
        · obtain rfl := Except.ok.inj h
          rw [hkept.1]
          exact hkept.2

theorem located_ok {this : Response} {range : Option (Nat × Nat)}
    (h : ∀ bounds, range = some bounds → Delimits this.body bounds) :
    located this range = .ok (this.slice range) := by
  cases range with
  | none => rfl
  | some bounds =>
      obtain ⟨hle, hstop, -⟩ := h bounds rfl
      exact fault_bind (slice_ok hle hstop) _

/--
On every input `decode` takes no step that panics; the ranges a parsed packet
records delimit whole values of its body, so slicing them does not panic either.
-/
theorem packet_layer_never_panics (rmp : Rmp) :
    (∀ src : Bytes, decode rmp src = .ok (Codec.decode rmp src)) ∧
    (∀ (packet : Bytes) (response : Response), Response.parse rmp packet = .ok response →
      (∀ range, some range ∈ ranges response → Delimits response.body range) ∧
      ∀ range ∈ ranges response, located response range = .ok (response.slice range)) := by
  refine ⟨decode_eq rmp, fun packet response hparse => ⟨parse_delimits hparse, ?_⟩⟩
  intro range hrange
  exact located_ok fun bounds hbounds => parse_delimits hparse bounds (hbounds ▸ hrange)

end Tarant.Checked
