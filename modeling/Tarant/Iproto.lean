import Mathlib

/-!
# Wire-level vocabulary of the iproto protocol

The keys, request types, response types and features the modelled code uses,
with the numbers of `iproto.rs`.
-/

namespace Tarant.Iproto

namespace Key

def requestType : Nat := 0x00
def sync : Nat := 0x01
def schemaVersion : Nat := 0x05
def streamId : Nat := 0x0a
def indexId : Nat := 0x11
def limit : Nat := 0x12
def offset : Nat := 0x13
def iterator : Nat := 0x14
def indexBase : Nat := 0x15
def fetchPosition : Nat := 0x1f
def key : Nat := 0x20
def tuple : Nat := 0x21
def functionName : Nat := 0x22
def userName : Nat := 0x23
def expr : Nat := 0x27
def ops : Nat := 0x28
def afterPosition : Nat := 0x2e
def afterTuple : Nat := 0x2f
def data : Nat := 0x30
def error24 : Nat := 0x31
def metadata : Nat := 0x32
def bindMetadata : Nat := 0x33
def bindCount : Nat := 0x34
def position : Nat := 0x35
def arrow : Nat := 0x36
def sqlText : Nat := 0x40
def sqlBind : Nat := 0x41
def sqlInfo : Nat := 0x42
def stmtId : Nat := 0x43
def error : Nat := 0x52
def version : Nat := 0x54
def features : Nat := 0x55
def timeout : Nat := 0x56
def eventKey : Nat := 0x57
def eventData : Nat := 0x58
def txnIsolation : Nat := 0x59
def authType : Nat := 0x5b
def spaceName : Nat := 0x5e
def indexName : Nat := 0x5f
def isSync : Nat := 0x61

end Key

namespace Request

def select : Nat := 0x01
def insert : Nat := 0x02
def replace : Nat := 0x03
def update : Nat := 0x04
def delete : Nat := 0x05
def auth : Nat := 0x07
def eval : Nat := 0x08
def upsert : Nat := 0x09
def call : Nat := 0x0a
def execute : Nat := 0x0b
def prepare : Nat := 0x0d
def begin : Nat := 0x0e
def commit : Nat := 0x0f
def rollback : Nat := 0x10
def insertArrow : Nat := 0x11
def ping : Nat := 0x40
def id : Nat := 0x49
def watch : Nat := 0x4a
def unwatch : Nat := 0x4b
def watchOnce : Nat := 0x4d

end Request

namespace Sql

def fieldName : Nat := 0x00
def fieldType : Nat := 0x01
def fieldColl : Nat := 0x02
def fieldIsNullable : Nat := 0x03
def fieldIsAutoincrement : Nat := 0x04
def fieldSpan : Nat := 0x05
def infoRowCount : Nat := 0x00
def infoAutoincrementIds : Nat := 0x01

end Sql

namespace Response

def ok : Nat := 0x00
def chunk : Nat := 0x80
def event : Nat := 0x4c
def errorFlag : Nat := 0x8000

end Response

namespace ErrorKey

def stack : Nat := 0x00
def type : Nat := 0x00
def file : Nat := 0x01
def line : Nat := 0x02
def message : Nat := 0x03
def errno : Nat := 0x04
def errcode : Nat := 0x05
def fields : Nat := 0x06

end ErrorKey

namespace Ext

def arrow : Int8 := 8

end Ext

def protocolVersion : Nat := 10

inductive Feature where
  | streams
  | transactions
  | errorExtension
  | watchers
  | pagination
  | spaceAndIndexNames
  | watchOnce
  | dmlTupleExtension
  | callRetTupleExtension
  | callArgTupleExtension
  | fetchSnapshotCursor
  | isSync
  | insertArrow
  deriving DecidableEq, Repr

namespace Feature

def announced : List Feature :=
  [streams, transactions, errorExtension, watchers, pagination,
    spaceAndIndexNames, watchOnce, isSync, insertArrow]

def all : List Feature :=
  [streams, transactions, errorExtension, watchers, pagination,
    spaceAndIndexNames, watchOnce, dmlTupleExtension, callRetTupleExtension,
    callArgTupleExtension, fetchSnapshotCursor, isSync, insertArrow]

def code : Feature → Nat
  | streams => 0
  | transactions => 1
  | errorExtension => 2
  | watchers => 3
  | pagination => 4
  | spaceAndIndexNames => 5
  | watchOnce => 6
  | dmlTupleExtension => 7
  | callRetTupleExtension => 8
  | callArgTupleExtension => 9
  | fetchSnapshotCursor => 10
  | isSync => 11
  | insertArrow => 12

def fromCode (code : Nat) : Option Feature :=
  all.find? fun feature => feature.code == code

theorem fromCode_code (feature : Feature) : fromCode feature.code = some feature := by
  cases feature <;> rfl

end Feature

inductive Iter where
  | eq
  | req
  | all
  | lt
  | le
  | ge
  | gt
  | bitsAllSet
  | bitsAnySet
  | bitsAllNotSet
  | overlaps
  | neighbor
  deriving DecidableEq, Repr

def Iter.code : Iter → Nat
  | .eq => 0
  | .req => 1
  | .all => 2
  | .lt => 3
  | .le => 4
  | .ge => 5
  | .gt => 6
  | .bitsAllSet => 7
  | .bitsAnySet => 8
  | .bitsAllNotSet => 9
  | .overlaps => 10
  | .neighbor => 11

inductive Isolation where
  | default
  | readCommitted
  | readConfirmed
  | bestEffort
  deriving DecidableEq, Repr

def Isolation.code : Isolation → Nat
  | .default => 0
  | .readCommitted => 1
  | .readConfirmed => 2
  | .bestEffort => 3

end Tarant.Iproto
