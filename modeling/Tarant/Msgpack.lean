import Tarant.Error

/-!
# Raw MessagePack helpers

`valueLen` measures the value at the start of a buffer and `MapCursor` walks a
map with it.  Integers, string headers and materialised values are read by the
`rmp` and `rmpv` crates, which are the parameter `Rmp`.  `usize` has 64 bits.
-/

namespace Tarant

structure Rmp where
  /-- `rmp::decode::read_int::<u64>` on the front of the slice. -/
  readInt : Bytes → Option Nat
  /-- `rmp::decode::read_str_len`: the length and the rest of the slice. -/
  readStrLen : Bytes → Option (Nat × Bytes)
  /-- `rmpv::decode::read_value`: the value, or the text of the failure. -/
  readValue : Bytes → Except String Value

namespace Msgpack

theorem bind_ok {ε α β : Type} {x : Except ε α} {f : α → Except ε β} {b : β} :
    (x >>= f) = .ok b ↔ ∃ a, x = .ok a ∧ f a = .ok b := by
  cases x with
  | error err => exact ⟨nofun, fun ⟨_, h, _⟩ => nomatch h⟩
  | ok a => exact ⟨fun h => ⟨a, rfl, h⟩, fun ⟨_, h, hf⟩ => Except.ok.inj h ▸ hf⟩

def truncated : Error := .protocol "MessagePack value is truncated"

def checkedAdd (a b : Nat) : Except Error Nat :=
  if a + b < 2 ^ 64 then .ok (a + b) else .error truncated

def readLen (buf : Bytes) (pos width : Nat) : Except Error Nat :=
  if pos + width ≤ buf.length then
    .ok (((buf.drop pos).take width).foldl (fun n b => n <<< 8 ||| b.toNat) 0)
  else .error truncated

def lengthPrefixWidth (marker : Nat) : Nat :=
  if marker = 0xc4 ∨ marker = 0xc7 ∨ marker = 0xd9 then 1
  else if marker = 0xc5 ∨ marker = 0xc8 ∨ marker = 0xda ∨ marker = 0xdc ∨
      marker = 0xde then 2
  else if marker = 0xc6 ∨ marker = 0xc9 ∨ marker = 0xdb ∨ marker = 0xdd ∨
      marker = 0xdf then 4
  else 0

/-- Payload bytes and child values announced by `marker`; `pos` is just past it. -/
def payloadAndChildren (buf : Bytes) (pos marker : Nat) : Except Error (Nat × Nat) :=
  if marker ≤ 0x7f ∨ marker = 0xc0 ∨ marker = 0xc2 ∨ marker = 0xc3 ∨
      0xe0 ≤ marker then .ok (0, 0)
  else if marker ≤ 0x8f then .ok (0, 2 * (marker &&& 0x0f))
  else if marker ≤ 0x9f then .ok (0, marker &&& 0x0f)
  else if marker ≤ 0xbf then .ok (marker &&& 0x1f, 0)
  else if marker = 0xc1 then .error (.protocol "reserved MessagePack marker 0xc1")
  else if marker = 0xc4 ∨ marker = 0xd9 then do .ok (← readLen buf pos 1, 0)
  else if marker = 0xc5 ∨ marker = 0xda then do .ok (← readLen buf pos 2, 0)
  else if marker = 0xc6 ∨ marker = 0xdb then do .ok (← readLen buf pos 4, 0)
  -- ext: length prefix, then one type byte, then the payload
  else if marker = 0xc7 then do .ok (1 + (← readLen buf pos 1), 0)
  else if marker = 0xc8 then do .ok (1 + (← readLen buf pos 2), 0)
  else if marker = 0xc9 then do .ok (1 + (← readLen buf pos 4), 0)
  else if marker = 0xca ∨ marker = 0xcc ∨ marker = 0xd0 then
    .ok (if marker = 0xca then 4 else 1, 0)
  else if marker = 0xcb ∨ marker = 0xcd ∨ marker = 0xd1 then
    .ok (if marker = 0xcb then 8 else 2, 0)
  else if marker = 0xce ∨ marker = 0xd2 then .ok (4, 0)
  else if marker = 0xcf ∨ marker = 0xd3 then .ok (8, 0)
  else if marker = 0xd4 then .ok (2, 0)
  else if marker = 0xd5 then .ok (3, 0)
  else if marker = 0xd6 then .ok (5, 0)
  else if marker = 0xd7 then .ok (9, 0)
  else if marker = 0xd8 then .ok (17, 0)
  else if marker = 0xdc then do .ok (0, ← readLen buf pos 2)
  else if marker = 0xdd then do .ok (0, ← readLen buf pos 4)
  else if marker = 0xde then do .ok (0, 2 * (← readLen buf pos 2))
  else do .ok (0, 2 * (← readLen buf pos 4))

/--
The loop of `value_len`.  Every iteration that does not fail consumes at least
the marker, so one unit of fuel for each byte and one more are enough.
-/
def valueLenLoop (buf : Bytes) : Nat → Nat → Nat → Except Error Nat
  | _, pos, 0 => .ok pos
  | 0, _, _ + 1 => .error truncated
  | fuel + 1, pos, pending + 1 =>
      match buf[pos]? with
      | none => .error truncated
      | some marker => do
          let (payload, children) ← payloadAndChildren buf (pos + 1) marker.toNat
          -- the length prefix was read above but not yet skipped
          let next ← checkedAdd (pos + 1 + lengthPrefixWidth marker.toNat) payload
          if buf.length < next then .error truncated
          else do
            let pending ← checkedAdd pending children
            valueLenLoop buf fuel next pending

def valueLen (buf : Bytes) : Except Error Nat :=
  valueLenLoop buf (buf.length + 1) 0 1

def readUint (rmp : Rmp) (value : Bytes) : Except Error Nat :=
  match rmp.readInt value with
  | some n => .ok n
  | none => .error (.protocol "expected an unsigned integer")

def readStr (rmp : Rmp) (value : Bytes) : Except Error String :=
  match rmp.readStrLen value with
  | none => .error (.protocol "expected a string")
  | some (len, rest) =>
      if rest.length < len then .error (.protocol "string is truncated")
      else
        match String.fromUTF8? ⟨(rest.take len).toArray⟩ with
        | some text => .ok text
        | none => .error (.protocol "string is not UTF-8")

structure MapCursor where
  buf : Bytes
  pos : Nat
  remaining : Nat

structure Entry where
  key : Nat
  offset : Nat
  value : Bytes

namespace MapCursor

def new (buf : Bytes) : Except Error (MapCursor × Nat) := do
  let total ← valueLen buf
  let marker := (buf.head?.getD 0).toNat
  if 0x80 ≤ marker ∧ marker ≤ 0x8f then .ok (⟨buf, 1, marker &&& 0x0f⟩, total)
  else if marker = 0xde then do .ok (⟨buf, 3, ← readLen buf 1 2⟩, total)
  else if marker = 0xdf then do .ok (⟨buf, 5, ← readLen buf 1 4⟩, total)
  else .error (.protocol "expected a MessagePack map")

def next (rmp : Rmp) (cursor : MapCursor) : Except Error (Option (Entry × MapCursor)) :=
  if cursor.remaining = 0 then .ok none
  else do
    let keyLen ← valueLen (cursor.buf.drop cursor.pos)
    let key ← readUint rmp ((cursor.buf.drop cursor.pos).take keyLen)
    let offset := cursor.pos + keyLen
    let len ← valueLen (cursor.buf.drop offset)
    .ok (some (⟨key, offset, (cursor.buf.drop offset).take len⟩,
      ⟨cursor.buf, offset + len, cursor.remaining - 1⟩))

/--
`while let Some(entry) = cursor.next()?`, folding `visit` over the entries.
Each call of `next` uses up one announced entry, which bounds the fuel.
-/
def walk {α : Type} (rmp : Rmp) (visit : α → Entry → Except Error α) :
    Nat → MapCursor → α → Except Error α
  | 0, _, acc => .ok acc
  | fuel + 1, cursor, acc => do
      match ← cursor.next rmp with
      | none => .ok acc
      | some (entry, cursor) => walk rmp visit fuel cursor (← visit acc entry)

def forEach {α : Type} (rmp : Rmp) (cursor : MapCursor) (acc : α)
    (visit : α → Entry → Except Error α) : Except Error α :=
  walk rmp visit (cursor.remaining + 1) cursor acc

end MapCursor

end Msgpack

end Tarant
