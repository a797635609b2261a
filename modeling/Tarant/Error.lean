import Mathlib

/-!
# Errors

The crate's single `Error` type, the error a server reports, and the
materialised MessagePack value (`rmpv::Value`) that server errors carry.
-/

namespace Tarant

abbrev Bytes := List UInt8

/-- `str::as_bytes`. -/
def asBytes (s : String) : Bytes := s.toByteArray.data.toList

theorem asBytes_injective : Function.Injective asBytes := by
  intro s t h
  have harray : s.toByteArray.data = t.toByteArray.data := Array.toList_inj.mp h
  exact String.toByteArray_inj.mp (ByteArray.ext harray)

/-- A materialised MessagePack value.  Strings are kept as the bytes received. -/
inductive Value where
  | nil
  | boolean (value : Bool)
  | integer (value : Int)
  | f32 (bits : UInt32)
  | f64 (bits : UInt64)
  | string (bytes : Bytes)
  | binary (bytes : Bytes)
  | array (items : List Value)
  | map (entries : List (Value × Value))
  | ext (tag : Int) (bytes : Bytes)

namespace Value

def ofString (s : String) : Value := .string (asBytes s)

def asU64 : Value → Option Nat
  | .integer value => if 0 ≤ value ∧ value < 2 ^ 64 then some value.toNat else none
  | _ => none

def asStr : Value → Option String
  | .string bytes => String.fromUTF8? ⟨bytes.toArray⟩
  | _ => none

def asBool : Value → Option Bool
  | .boolean value => some value
  | _ => none

def asArray : Value → Option (List Value)
  | .array items => some items
  | _ => none

def asMap : Value → Option (List (Value × Value))
  | .map entries => some entries
  | _ => none

@[simp] theorem ofString_inj {s t : String} : ofString s = ofString t ↔ s = t :=
  ⟨fun h => asBytes_injective (Value.string.inj h), congrArg ofString⟩

@[simp] theorem asStr_ofString (s : String) : (ofString s).asStr = some s :=
  dif_pos s.isValidUTF8

end Value

/-- An error raised by the server.  `fields` is ordered by key, as a `BTreeMap` is. -/
structure ServerError where
  code : Nat
  message : String
  kind : String
  file : Option String
  line : Option Nat
  errno : Nat
  fields : List (String × Value)
  cause : List ServerError

def ServerError.fromMessage (code : Nat) (message : String) : ServerError where
  code := code
  message := message
  kind := "ClientError"
  file := none
  line := none
  errno := 0
  fields := []
  cause := []

def ErrorCode.wrongQueryId : Nat := 211

/-- Insert into a map ordered by key, replacing the value of an equal key. -/
def fieldsInsert (key : String) (value : Value) :
    List (String × Value) → List (String × Value)
  | [] => [(key, value)]
  | (k, v) :: rest =>
      if key = k then (key, value) :: rest
      else if key < k then (key, value) :: (k, v) :: rest
      else (k, v) :: fieldsInsert key value rest

inductive Error where
  | io (reason : String)
  | server (err : ServerError)
  | auth (user : String) (source : ServerError)
  | protocol (message : String)
  | encode (reason : String)
  | decode (reason : String)
  | closed
  | shuttingDown
  | timeout (limit : Nat)
  | url (message : String)
  | unsupported (feature : String)

end Tarant
