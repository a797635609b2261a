import Tarant.Codec

/-!
# Packets and the handshake

Request packets as the builder of `codec.rs` assembles them, the packets of the
handshake, and the two checks `handshake_inner` makes on the replies.
-/

namespace Tarant.Connection

open Iproto

/-! ## Packets -/

inductive Field where
  | uint (value : Nat)
  | str (value : String)
  | bool (value : Bool)
  | f64 (bits : UInt64)
  | ext (tag : Int) (payload : Bytes)
  | raw (msgpack : Bytes)
  | rawArray (elements : List Bytes)
  deriving DecidableEq, Repr

structure Packet where
  ty : Nat
  sync : Nat
  streamId : Option Nat
  body : List (Nat × Field)
  deriving DecidableEq, Repr

def watchPacket (ty : Nat) (key : String) : Packet :=
  ⟨ty, 0, none, [(Key.eventKey, .str key)]⟩

def Packet.eventKey (packet : Packet) : Option String :=
  packet.body.findSome? fun
    | (k, .str key) => if k = Key.eventKey then some key else none
    | _ => none

@[simp] theorem watchPacket_ty (ty : Nat) (key : String) :
    (watchPacket ty key).ty = ty := rfl

@[simp] theorem watchPacket_sync (ty : Nat) (key : String) :
    (watchPacket ty key).sync = 0 := rfl

@[simp] theorem watchPacket_eventKey (ty : Nat) (key : String) :
    (watchPacket ty key).eventKey = some key := rfl

/-! ## Handshake -/

/-- Reconnection policy after the connection is lost; durations in milliseconds. -/
inductive Reconnect where
  | backoff (min max : Nat)
  | never
  deriving DecidableEq, Repr

/-- The options the connection task reads. -/
structure ConnectOptions where
  user : Option String := none
  reconnect : Reconnect := .backoff 100 5000
  deriving DecidableEq, Repr

/-- The user to authenticate as: `guest` needs no authentication. -/
def ConnectOptions.loginUser (options : ConnectOptions) : Option String :=
  options.user.filter (· ≠ "guest")

structure Negotiated where
  serverVersion : String
  protocolVersion : Nat
  features : Finset Feature
  deriving DecidableEq

def chapSha1 : String := "chap-sha1"

def idPacket : Packet :=
  ⟨Request.id, 0, none,
    [(Key.version, .uint protocolVersion),
      (Key.features, .rawArray (Feature.announced.map fun f => [UInt8.ofNat f.code])),
      (Key.authType, .str chapSha1)]⟩

/-- The scramble is the twenty bytes `chap_sha1` computes from the salt. -/
def authPacket (user : String) (scramble : Bytes) : Packet :=
  ⟨Request.auth, 1, none,
    [(Key.userName, .str user),
      (Key.tuple, .rawArray [0xa9 :: chapSha1.toUTF8.data.toList, 0xb4 :: scramble])]⟩

def parseId (rmp : Rmp) (reply : Response) (serverVersion : String) :
    Except Error Negotiated := do
  let body ← reply.bodyMap rmp
  let protocolVersion := ((body.lookup Key.version).bind Value.asU64).getD 0
  let features := (((body.lookup Key.features).bind Value.asArray).map fun codes =>
    ((codes.filterMap Value.asU64).filterMap Feature.fromCode).toFinset).getD ∅
  .ok { serverVersion, protocolVersion, features }

/-- What `handshake_inner` makes of the packet it reads after `IPROTO_ID`. -/
def acceptId (rmp : Rmp) (serverVersion : String) (reply : Response) :
    Except Error Negotiated :=
  match reply.kind with
  | .ok => parseId rmp reply serverVersion
  -- servers older than 2.10 do not know IPROTO_ID
  | .error => .ok ⟨serverVersion, 0, ∅⟩
  | _ => .error (.protocol "unexpected reply to IPROTO_ID")

def acceptAuth (user : String) (reply : Response) : Except Error Unit :=
  if reply.kind = .error then .error (.auth user reply.intoError) else .ok ()

end Tarant.Connection
