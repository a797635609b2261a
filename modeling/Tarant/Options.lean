import Tarant.Connection.Handshake
import Tarant.Foundation.Splitting
import Tarant.Foundation.Utf8
import Tarant.Machine
import Tarant.Uuid

/-!
# How to reach a server

The connection settings of `options.rs`: those for an address, and those that a URL asks for.
A URL is cut at its scheme, at its last `@` and, in front of that, at its first `:`.
-/

namespace Tarant.Options

open Connection (Reconnect)
open Foundation
open Uuid (nibble)

/-! ## Strings -/

def contains (s : String) (c : Char) : Bool := decide (c ∈ s.toList)

def stripPrefix (s start : String) : Option String :=
  (start.toList.isPrefixOf? s.toList).map String.ofList

def splitOnce (s : String) (separator : Char) : Option (String × String) :=
  (splitFirst separator s.toList).map fun (front, back) => (String.ofList front, String.ofList back)

def rsplitOnce (s : String) (separator : Char) : Option (String × String) :=
  (splitLast separator s.toList).map fun (front, back) => (String.ofList front, String.ofList back)

/-! ## Percent-escapes -/

def percent : UInt8 := 0x25

def getRange (bytes : Bytes) (start stop : Nat) : Option Bytes :=
  if stop ≤ bytes.length then some ((bytes.drop start).take (stop - start)) else none

def unsignedDigits : Bytes → Option Bytes
  | [] => none
  | [c] => if c = plus ∨ c = minus then none else some [c]
  | c :: rest => if c = plus then some rest else some (c :: rest)

def pushDigit (value : Nat) (c : UInt8) : Option Nat := do
  let digit ← nibble c
  let value := value * 16 + digit.toNat
  if value < 256 then some value else none

/-- `u8::from_str_radix(src, 16)`. -/
def fromStrRadix (src : Bytes) : Option UInt8 := do
  let digits ← unsignedDigits src
  let value ← digits.foldlM pushDigit 0
  return UInt8.ofNat value

def escapeAt (bytes : Bytes) (i : Nat) : Option UInt8 := do
  let h ← getRange bytes (i + 1) (i + 3)
  let h ← String.fromUTF8? ⟨h.toArray⟩
  fromStrRadix (asBytes h)

def badEscape (input : String) : Error := .url ("bad percent-escape in `" ++ input ++ "`")

def decodeLoop (input : String) (bytes : Bytes) (i : Nat) (out : Bytes) : Except Error Bytes :=
  if h : i < bytes.length then
    if bytes[i] = percent then
      match escapeAt bytes i with
      | some hex => decodeLoop input bytes (i + 3) (out ++ [hex])
      | none => .error (badEscape input)
    else decodeLoop input bytes (i + 1) (out ++ [bytes[i]])
  else .ok out
termination_by bytes.length - i

def decodedText (input : String) (out : Bytes) : Except Error String :=
  match String.fromUTF8? ⟨out.toArray⟩ with
  | some text => .ok text
  | none => .error (.url ("`" ++ input ++ "` is not valid UTF-8"))

def percentDecode (input : String) : Except Error String := do
  decodedText input (← decodeLoop input (asBytes input) 0 [])

/-! ## Settings -/

def defaultPort : Nat := 3301

/-- Connection settings; durations in milliseconds. -/
structure ConnectOptions where
  addr : String
  user : Option String
  password : Option String
  connectTimeout : Nat
  requestTimeout : Option Nat
  reconnect : Reconnect
  tcpNodelay : Bool
  deriving DecidableEq

namespace ConnectOptions

def new (addr : String) : ConnectOptions where
  addr := if contains addr ':' then addr else addr ++ ":" ++ toString defaultPort
  user := none
  password := none
  connectTimeout := 5000
  requestTimeout := none
  reconnect := .backoff 100 5000
  tcpNodelay := true

/-- The credentials in front of the last `@`, and the host. -/
def splitHost (rest : String) : Option String × String :=
  match rsplitOnce rest '@' with
  | some (credentials, host) => (some credentials, host)
  | none => (none, rest)

def splitCredentials (credentials : String) : String × Option String :=
  match splitOnce credentials ':' with
  | some (user, password) => (user, some password)
  | none => (credentials, none)

def withCredentials (options : ConnectOptions) (credentials : String) :
    Except Error ConnectOptions := do
  let (user, password) := splitCredentials credentials
  let user ← percentDecode user
  let password ← password.mapM percentDecode
  return { options with user := some user, password }

def parse (url : String) : Except Error ConnectOptions :=
  let rest := (stripPrefix url "tarantool://").getD url
  let (credentials, host) := splitHost rest
  if host = "" then .error (.url ("no host in `" ++ url ++ "`"))
  else if contains host '/' then .error (.url ("unexpected path in `" ++ url ++ "`"))
  else
    let options := new host
    match credentials with
    | some credentials => options.withCredentials credentials
    | none => .ok options

end ConnectOptions

end Tarant.Options
