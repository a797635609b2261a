import Tarant.Arguments

/-!
# Field operations

The operations of `update.rs`.  Each is a tuple of its sign, its field and its
arguments, which no other operation has.
-/

namespace Tarant.Building

open Wire (Encodes)

/-! ## Fields -/

inductive FieldRef where
  | number (n : Int32)
  | path (json : String)
  deriving DecidableEq

namespace FieldRef

def value : FieldRef → Value
  | .number n => .integer n.toInt
  | .path json => .ofString json

@[simp] theorem value_inj {field field' : FieldRef} :
    field.value = field'.value ↔ field = field' := by
  constructor
  · intro h
    cases field with
    | number n =>
        cases field' with
        | number n' => rw [Int32.toInt_inj.mp (Value.integer.inj h)]
        | path json' => simp [value, Value.ofString] at h
    | path json =>
        cases field' with
        | number n' => simp [value, Value.ofString] at h
        | path json' => rw [Value.ofString_inj.mp h]
  · exact congrArg value

end FieldRef

/-! ## Operations -/

inductive Op where
  | set (field : FieldRef) (value : Value)
  | add (field : FieldRef) (delta : Value)
  | sub (field : FieldRef) (delta : Value)
  | bitAnd (field : FieldRef) (mask : UInt64)
  | bitOr (field : FieldRef) (mask : UInt64)
  | bitXor (field : FieldRef) (mask : UInt64)
  | insert (field : FieldRef) (value : Value)
  | delete (field : FieldRef) (count : UInt32)
  | splice (field : FieldRef) (offset : Int32) (len : UInt32) (replacement : String)

def Op.tuple : Op → List Value
  | .set field value => [.ofString "=", field.value, value]
  | .add field delta => [.ofString "+", field.value, delta]
  | .sub field delta => [.ofString "-", field.value, delta]
  | .bitAnd field mask => [.ofString "&", field.value, .integer mask.toNat]
  | .bitOr field mask => [.ofString "|", field.value, .integer mask.toNat]
  | .bitXor field mask => [.ofString "^", field.value, .integer mask.toNat]
  | .insert field value => [.ofString "!", field.value, value]
  | .delete field count => [.ofString "#", field.value, .integer count.toNat]
  | .splice field offset len replacement =>
      [.ofString ":", field.value, .integer offset.toInt, .integer len.toNat, .ofString replacement]

theorem Op.tuple_injective : Function.Injective Op.tuple := by
  intro op op' h
  cases op <;> cases op' <;>
    simp_all [Op.tuple, ← UInt64.toNat_inj, ← UInt32.toNat_inj, ← Int32.toInt_inj]

/-- What `to_msgpack` makes of the tuple. -/
abbrev Op.Output (op : Op) : Type := Except String { bytes // Encodes [.array op.tuple] bytes }

structure Pushed where
  op : Op
  output : op.Output

namespace Update

def pushOp (this : Update) (pushed : Pushed) : Update :=
  this.push (pushed.output.map Subtype.val)

def set (this : Update) (field : FieldRef) (value : Value)
    (output : (Op.set field value).Output) : Update := this.pushOp ⟨_, output⟩

def add (this : Update) (field : FieldRef) (delta : Value)
    (output : (Op.add field delta).Output) : Update := this.pushOp ⟨_, output⟩

def sub (this : Update) (field : FieldRef) (delta : Value)
    (output : (Op.sub field delta).Output) : Update := this.pushOp ⟨_, output⟩

def bitAnd (this : Update) (field : FieldRef) (mask : UInt64)
    (output : (Op.bitAnd field mask).Output) : Update := this.pushOp ⟨_, output⟩

def bitOr (this : Update) (field : FieldRef) (mask : UInt64)
    (output : (Op.bitOr field mask).Output) : Update := this.pushOp ⟨_, output⟩

def bitXor (this : Update) (field : FieldRef) (mask : UInt64)
    (output : (Op.bitXor field mask).Output) : Update := this.pushOp ⟨_, output⟩

def insert (this : Update) (field : FieldRef) (value : Value)
    (output : (Op.insert field value).Output) : Update := this.pushOp ⟨_, output⟩

def delete (this : Update) (field : FieldRef) (count : UInt32)
    (output : (Op.delete field count).Output) : Update := this.pushOp ⟨_, output⟩

def splice (this : Update) (field : FieldRef) (offset : Int32) (len : UInt32)
    (replacement : String) (output : (Op.splice field offset len replacement).Output) : Update :=
  this.pushOp ⟨_, output⟩

def ofPushed (pushed : List Pushed) : Update := pushed.foldl pushOp {}

theorem ofPushed_eq (pushed : List Pushed) :
    ofPushed pushed = pushAll (pushed.map fun p => p.output.map Subtype.val) := by
  rw [pushAll, List.foldl_map]
  rfl

theorem intoOps_encodes {pushed : List Pushed} {ops : List Bytes}
    (h : (ofPushed pushed).intoOps = .ok ops) :
    EncodesEach (pushed.map fun p => .array p.op.tuple) ops := by
  rw [ofPushed_eq, pushAll_intoOps] at h
  rw [EncodesEach, List.forall₂_map_left_iff]
  induction pushed generalizing ops with
  | nil =>
      obtain rfl : ops = [] := by simpa using h.symm
      exact .nil
  | cons first rest ih =>
      cases ops with
      | nil => simp at h
      | cons bytes ops =>
          obtain ⟨hfirst, hrest⟩ := List.cons.inj h
          refine .cons ?_ (ih hrest)
          obtain ⟨op, output⟩ := first
          cases output with
          | error reason => cases hfirst
          | ok written =>
              obtain rfl := Except.ok.inj hfirst
              exact written.property

end Update

end Tarant.Building
