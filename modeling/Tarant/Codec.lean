import Tarant.Iproto
import Tarant.Msgpack

/-!
# Framing and packet layout

`Codec.decode` cuts length-prefixed packets off a byte buffer and
`Response.parse` locates the interesting parts of one packet: the header map
gives the kind and the sync, the body map is kept as bytes with the ranges of
the values found in it.
-/

namespace Tarant

open Iproto
open Msgpack

inductive Kind where
  | ok
  | chunk
  | error
  | event
  deriving DecidableEq, Repr

structure Response where
  kind : Kind
  sync : Nat
  schemaVersion : Option Nat := none
  body : Bytes := []
  data : Option (Nat × Nat) := none
  position : Option String := none
  error : Option ServerError := none
  eventKey : Option String := none
  eventData : Option (Nat × Nat) := none
  metadata : Option (Nat × Nat) := none
  bindMetadata : Option (Nat × Nat) := none
  sqlInfo : Option (Nat × Nat) := none
  bindCount : Option Nat := none
  stmtId : Option Nat := none

/-- `{n:#x}`. -/
def hex (n : Nat) : String := "0x" ++ String.ofList (Nat.toDigits 16 n)

/-! ## Error stacks -/

def decodeErrorFrame (frame : Value) : Except Error ServerError :=
  match frame.asMap with
  | none => .error (.protocol "MP_ERROR frame is not a map")
  | some entries => .ok (entries.foldl visit (ServerError.fromMessage 0 ""))
where
  visit (err : ServerError) : Value × Value → ServerError
  | (k, v) =>
      match k.asU64 with
      | none => err
      | some key =>
          if key = ErrorKey.type then { err with kind := v.asStr.getD "" }
          else if key = ErrorKey.file then { err with file := v.asStr }
          else if key = ErrorKey.line then { err with line := v.asU64 }
          else if key = ErrorKey.message then { err with message := v.asStr.getD "" }
          else if key = ErrorKey.errno then { err with errno := v.asU64.getD 0 }
          else if key = ErrorKey.errcode then
            { err with code := (v.asU64.filter (· < 2 ^ 32)).getD 0 }
          else if key = ErrorKey.fields then
            { err with fields := (v.asMap.map collect).getD [] }
          else err
  collect (fields : List (Value × Value)) : List (String × Value) :=
    fields.foldl (fun out field =>
      match field.1.asStr with
      | some name => fieldsInsert name field.2 out
      | none => out) []

/-- Decode the map under `IPROTO_ERROR`: a stack of frames, outermost first. -/
def decodeErrorMap (rmp : Rmp) (bytes : Bytes) (code : Nat) : Except Error ServerError :=
  match rmp.readValue bytes with
  | .error reason => .error (.protocol ("malformed MP_ERROR: " ++ reason))
  | .ok value =>
      let stack := (value.asMap.bind fun entries =>
        (entries.find? fun entry => entry.1.asU64 == some ErrorKey.stack).map
          Prod.snd).bind Value.asArray
      match stack with
      | none => .error (.protocol "MP_ERROR without a stack")
      | some frames => do
          match ← frames.mapM decodeErrorFrame with
          | [] => .ok (ServerError.fromMessage code "empty error stack")
          | outer :: rest => .ok { outer with cause := rest }

/-! ## Parsing a packet -/

structure Header where
  requestType : Option Nat := none
  sync : Nat := 0
  schemaVersion : Option Nat := none

/-- `u8::try_from(k).unwrap_or(u8::MAX)`. -/
def narrowKey (k : Nat) : Nat := if k < 256 then k else 255

def Header.visit (rmp : Rmp) (header : Header) (entry : Entry) : Except Error Header :=
  let k := narrowKey entry.key
  if k = Key.requestType then do
    .ok { header with requestType := some (← readUint rmp entry.value) }
  else if k = Key.sync then do
    .ok { header with sync := ← readUint rmp entry.value }
  else if k = Key.schemaVersion then do
    .ok { header with schemaVersion := some (← readUint rmp entry.value) }
  else .ok header

structure BodyParts where
  response : Response
  error24 : Option String := none
  errorExt : Option Bytes := none

def BodyParts.visit (rmp : Rmp) (parts : BodyParts) (entry : Entry) :
    Except Error BodyParts :=
  let range := (entry.offset, entry.offset + entry.value.length)
  let this := parts.response
  let k := narrowKey entry.key
  if k = Key.data then .ok { parts with response := { this with data := some range } }
  else if k = Key.position then do
    let text ← readStr rmp entry.value
    .ok { parts with response := { this with position := some text } }
  else if k = Key.error24 then do
    .ok { parts with error24 := some (← readStr rmp entry.value) }
  else if k = Key.error then .ok { parts with errorExt := some entry.value }
  else if k = Key.eventKey then do
    let text ← readStr rmp entry.value
    .ok { parts with response := { this with eventKey := some text } }
  else if k = Key.eventData then
    .ok { parts with response := { this with eventData := some range } }
  else if k = Key.metadata then
    .ok { parts with response := { this with metadata := some range } }
  else if k = Key.bindMetadata then
    .ok { parts with response := { this with bindMetadata := some range } }
  else if k = Key.sqlInfo then
    .ok { parts with response := { this with sqlInfo := some range } }
  else if k = Key.bindCount then do
    let count ← readUint rmp entry.value
    .ok { parts with response := { this with bindCount := some count } }
  else if k = Key.stmtId then do
    let id ← readUint rmp entry.value
    .ok { parts with response := { this with stmtId := some id } }
  else .ok parts

def kindOf (requestType : Nat) : Except Error Kind :=
  if requestType = Response.ok then .ok .ok
  else if requestType = Response.chunk then .ok .chunk
  else if requestType = Response.event then .ok .event
  else if requestType &&& Response.errorFlag ≠ 0 then .ok .error
  else .error (.protocol ("unknown response type " ++ hex requestType))

/-- `u32::try_from(request_type & !ERROR_FLAG).unwrap_or(0)`. -/
def errorCode (requestType : Nat) : Nat :=
  let code := requestType &&& (2 ^ 64 - 1 - Response.errorFlag)
  if code < 2 ^ 32 then code else 0

namespace Response

def parse (rmp : Rmp) (packet : Bytes) : Except Error Response := do
  let (cursor, headerLen) ← MapCursor.new packet
  let header ← cursor.forEach rmp {} (Header.visit rmp)
  match header.requestType with
  | none => .error (.protocol "response header has no request type")
  | some requestType => do
      let kind ← kindOf requestType
      let this : Response :=
        { kind, sync := header.sync, schemaVersion := header.schemaVersion,
          body := packet.drop headerLen }
      if this.body = [] then .ok this
      else do
        let (cursor, _) ← MapCursor.new this.body
        let parts ← cursor.forEach rmp ⟨this, none, none⟩ (BodyParts.visit rmp)
        if kind = .error then do
          let err ← match parts.errorExt with
            | some bytes => decodeErrorMap rmp bytes (errorCode requestType)
            | none => .ok (ServerError.fromMessage (errorCode requestType)
                (parts.error24.getD ""))
          .ok { parts.response with error := some err }
        else .ok parts.response

def slice (this : Response) (range : Option (Nat × Nat)) : Option Bytes :=
  range.map fun (start, stop) => (this.body.drop start).take (stop - start)

def dataBytes (this : Response) : Bytes := (this.slice this.data).getD [0xc0]

def metadataBytes (this : Response) : Option Bytes := this.slice this.metadata

def bindMetadataBytes (this : Response) : Option Bytes := this.slice this.bindMetadata

def sqlInfoBytes (this : Response) : Option Bytes := this.slice this.sqlInfo

def event (this : Response) : Option (String × Bytes) :=
  this.eventKey.map fun key => (key, (this.slice this.eventData).getD [0xc0])

def intoError (this : Response) : ServerError :=
  this.error.getD (ServerError.fromMessage 0 "unknown server error")

/-- The whole body as a map; a repeated key keeps its last value. -/
def bodyMap (rmp : Rmp) (this : Response) : Except Error (List (Nat × Value)) :=
  if this.body = [] then .ok []
  else do
    let (cursor, _) ← MapCursor.new this.body
    cursor.forEach rmp [] fun map entry =>
      match rmp.readValue entry.value with
      | .ok value => .ok ((entry.key, value) :: map.filter fun pair => pair.1 ≠ entry.key)
      | .error reason => .error (.protocol ("malformed body value: " ++ reason))

end Response

/-! ## Framing -/

namespace Codec

def maxPacketLen : Nat := 2 * 1024 * 1024 * 1024

def prefixWidth (marker : Nat) : Option Nat :=
  if marker ≤ 0x7f then some 1
  else if marker = 0xcc then some 2
  else if marker = 0xcd then some 3
  else if marker = 0xce then some 5
  else if marker = 0xcf then some 9
  else none

def fromBeBytes (bytes : Bytes) : Nat :=
  bytes.foldl (fun n b => n * 256 + b.toNat) 0

def packetLen (src : Bytes) (width : Nat) : Nat :=
  if width = 1 then (src.head?.getD 0).toNat
  else fromBeBytes ((src.drop 1).take (width - 1))

/--
Take one packet off the buffer: the outcome, and the buffer left behind.  The
length read from a nine-byte prefix always fits a 64-bit `usize`.
-/
def decode (rmp : Rmp) (src : Bytes) : Except Error (Option Response) × Bytes :=
  match src with
  | [] => (.ok none, src)
  | marker :: _ =>
      match prefixWidth marker.toNat with
      | none =>
          (.error (.protocol ("bad packet length marker " ++ hex marker.toNat)), src)
      | some width =>
          if src.length < width then (.ok none, src)
          else
            let len := packetLen src width
            if maxPacketLen < len then
              (.error (.protocol ("packet of " ++ toString len ++
                " bytes exceeds the 2 GiB limit")), src)
            else if src.length < width + len then (.ok none, src)
            else
              let rest := src.drop width
              ((Response.parse rmp (rest.take len)).map some, rest.drop len)

def beBytes : Nat → Nat → Bytes
  | 0, _ => []
  | count + 1, n => UInt8.ofNat (n / 256 ^ count) :: beBytes count n

def encode (packet dst : Bytes) : Except Error Bytes :=
  if packet.length < 2 ^ 32 then
    .ok (dst ++ [0xce] ++ beBytes 4 packet.length ++ packet)
  else .error (.protocol "request exceeds the 4 GiB packet limit")

end Codec

end Tarant
