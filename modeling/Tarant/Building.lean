import Tarant.Wire

/-!
# Building a request

The header of a request is written when it is created, body entries are appended
one at a time while a counter is kept, and `finish` puts the map header of the body
between the two.  The bytes come from the `rmp` and `rmp_serde` crates, which are
parameters: the first as `Writer`, the second as the output a call is given.
-/

namespace Tarant.Building

open Iproto
open Wire (Encodes MapHead ArrayHead)

/-- The writers of `rmp::encode` that the builder calls. -/
structure Writer where
  writeUint : Nat → Bytes
  writeMapLen : Nat → Bytes
  writeArrayLen : Nat → Bytes
  writeStr : String → Bytes
  writeBool : Bool → Bytes
  writeF64 : UInt64 → Bytes
  /-- The marker, the length and the tag of an extension. -/
  writeExtMeta : Nat → Int8 → Bytes

/-- What the writers are documented to write. -/
structure Writer.Lawful (w : Writer) : Prop where
  uint : ∀ n : Nat, n < 2 ^ 64 → Encodes [.integer n] (w.writeUint n)
  mapLen : ∀ n, n < 2 ^ 32 → MapHead n (w.writeMapLen n)
  arrayLen : ∀ n, n < 2 ^ 32 → ArrayHead n (w.writeArrayLen n)
  str : ∀ text, (asBytes text).length < 2 ^ 32 → Encodes [.string (asBytes text)] (w.writeStr text)
  bool : ∀ value, Encodes [.boolean value] (w.writeBool value)
  f64 : ∀ bits, Encodes [.f64 bits] (w.writeF64 bits)
  extMeta : ∀ (tag : Int8) (payload : Bytes), payload.length < 2 ^ 32 →
    Encodes [.ext tag.toInt payload] (w.writeExtMeta payload.length tag ++ payload)

/-! ## The builder -/

structure Request where
  header : Bytes
  body : Bytes
  entries : Nat

inductive Stop where
  | failed (err : Error)
  | panicked

abbrev Built := Except Stop

def notAnArray : String :=
  "value must serialize to a MessagePack array (a tuple, a struct, a Vec or a slice); " ++
    "a bare scalar is not a tuple — wrap it: `(value,)`"

/-- `matches!(marker, Some(0x90..=0x9f | 0xdc | 0xdd))`. -/
def isArrayMarker : Option UInt8 → Bool
  | some marker => (0x90 ≤ marker ∧ marker ≤ 0x9f) ∨ marker = 0xdc ∨ marker = 0xdd
  | none => false

namespace Request

variable (w : Writer)

def putUint (k : Nat) (v : UInt64) : Bytes := w.writeUint k ++ w.writeUint v.toNat

def new (ty sync : UInt64) (streamId : Option UInt64) : Request where
  header :=
    w.writeMapLen (2 + if streamId.isSome then 1 else 0) ++
      putUint w Key.requestType ty ++ putUint w Key.sync sync ++
      match streamId with
      | some streamId => putUint w Key.streamId streamId
      | none => []
  body := []
  entries := 0

/-- The counter is a `u32` and wraps. -/
def key (this : Request) (k : UInt8) : Request :=
  { this with
    body := this.body ++ w.writeUint k.toNat
    entries := (this.entries + 1) % 2 ^ 32 }

def put (this : Request) (bytes : Bytes) : Request := { this with body := this.body ++ bytes }

def uint (this : Request) (k : UInt8) (v : UInt64) : Request :=
  (this.key w k).put (w.writeUint v.toNat)

def str (this : Request) (k : UInt8) (v : String) : Request :=
  (this.key w k).put (w.writeStr v)

def bool (this : Request) (k : UInt8) (v : Bool) : Request :=
  (this.key w k).put (w.writeBool v)

def f64 (this : Request) (k : UInt8) (bits : UInt64) : Request :=
  (this.key w k).put (w.writeF64 bits)

/-- `output` is what `rmp_serde` makes of the value. -/
def serialized (this : Request) (k : UInt8) (output : Except String Bytes)
    (expectArray : Bool) : Built Request :=
  let this := this.key w k
  let start := this.body.length
  match output with
  | .error reason => .error (.failed (.encode reason))
  | .ok bytes =>
      let this := this.put bytes
      if expectArray ∧ ¬ isArrayMarker this.body[start]? then
        .error (.failed (.encode notAnArray))
      else .ok this

def ext (this : Request) (k : UInt8) (tag : Int8) (payload : Bytes) : Built Request :=
  let this := this.key w k
  if payload.length < 2 ^ 32 then
    .ok (this.put (w.writeExtMeta payload.length tag ++ payload))
  else .error (.failed (.protocol "extension payload exceeds 4 GiB"))

/-- `output` is what the tuple, key or argument list encodes to. -/
def array (this : Request) (k : UInt8) (output : Except Error Bytes) : Built Request :=
  match output with
  | .error err => .error (.failed err)
  | .ok bytes => .ok ((this.key w k).put bytes)

def raw (this : Request) (k : UInt8) (msgpack : Bytes) : Request :=
  (this.key w k).put msgpack

/-- The length is narrowed to `u32` with `expect`. -/
def rawArray (this : Request) (k : UInt8) (elements : List Bytes) : Built Request :=
  if elements.length < 2 ^ 32 then
    .ok (((this.key w k).put (w.writeArrayLen elements.length)).put elements.flatten)
  else .error .panicked

def finish (this : Request) : Bytes :=
  this.header ++ w.writeMapLen this.entries ++ this.body

end Request

/-! ## Sequences of calls -/

inductive Call where
  | uint (k : UInt8) (v : UInt64)
  | str (k : UInt8) (v : String)
  | bool (k : UInt8) (v : Bool)
  | f64 (k : UInt8) (bits : UInt64)
  | serialized (k : UInt8) (output : Except String Bytes) (expectArray : Bool)
  | ext (k : UInt8) (tag : Int8) (payload : Bytes)
  | array (k : UInt8) (output : Except Error Bytes)
  | raw (k : UInt8) (msgpack : Bytes)
  | rawArray (k : UInt8) (elements : List Bytes)

def Call.apply (w : Writer) (this : Request) : Call → Built Request
  | .uint k v => .ok (this.uint w k v)
  | .str k v => .ok (this.str w k v)
  | .bool k v => .ok (this.bool w k v)
  | .f64 k bits => .ok (this.f64 w k bits)
  | .serialized k output expectArray => this.serialized w k output expectArray
  | .ext k tag payload => this.ext w k tag payload
  | .array k output => this.array w k output
  | .raw k msgpack => .ok (this.raw w k msgpack)
  | .rawArray k elements => this.rawArray w k elements

def run (w : Writer) (this : Request) (calls : List Call) : Built Request :=
  calls.foldlM (Call.apply w) this

/-! ## What a call asks for -/

abbrev EncodesEach : List Value → List Bytes → Prop :=
  List.Forall₂ fun value bytes => Encodes [value] bytes

inductive Call.Asks : Call → UInt8 × Value → Prop where
  | uint (k : UInt8) (v : UInt64) : Asks (.uint k v) (k, .integer v.toNat)
  | str (k : UInt8) {v : String} (h : (asBytes v).length < 2 ^ 32) :
      Asks (.str k v) (k, .string (asBytes v))
  | bool (k : UInt8) (v : Bool) : Asks (.bool k v) (k, .boolean v)
  | f64 (k : UInt8) (bits : UInt64) : Asks (.f64 k bits) (k, .f64 bits)
  | serialized (k : UInt8) (expectArray : Bool) {value : Value} {bytes : Bytes}
      (h : Encodes [value] bytes) : Asks (.serialized k (.ok bytes) expectArray) (k, value)
  | ext (k : UInt8) (tag : Int8) (payload : Bytes) :
      Asks (.ext k tag payload) (k, .ext tag.toInt payload)
  | array (k : UInt8) {value : Value} {bytes : Bytes} (h : Encodes [value] bytes) :
      Asks (.array k (.ok bytes)) (k, value)
  | raw (k : UInt8) {value : Value} {msgpack : Bytes} (h : Encodes [value] msgpack) :
      Asks (.raw k msgpack) (k, value)
  | rawArray (k : UInt8) {values : List Value} {elements : List Bytes}
      (h : EncodesEach values elements) : Asks (.rawArray k elements) (k, .array values)

def Call.Accepted : Call → Prop
  | .serialized _ output expectArray =>
      ∃ bytes, output = .ok bytes ∧ (expectArray → isArrayMarker bytes.head?)
  | .ext _ _ payload => payload.length < 2 ^ 32
  | .array _ output => ∃ bytes, output = .ok bytes
  | .rawArray _ elements => elements.length < 2 ^ 32
  | _ => True

def entry (asked : UInt8 × Value) : Value × Value := (.integer asked.1.toNat, asked.2)

theorem EncodesEach.flatten {values : List Value} {elements : List Bytes}
    (h : EncodesEach values elements) : Encodes values elements.flatten := by
  induction h with
  | nil => exact .done
  | cons h _ ih => exact h.append ih

theorem Call.Asks.applied {w : Writer} (hw : w.Lawful) {call : Call} {asked : UInt8 × Value}
    (h : call.Asks asked) (haccepted : call.Accepted) (this : Request) :
    ∃ added, call.apply w this =
        .ok ⟨this.header, this.body ++ added, (this.entries + 1) % 2 ^ 32⟩ ∧
      Encodes [(entry asked).1, asked.2] added := by
  have hkey (k : UInt8) {value : Value} {bytes : Bytes} (hvalue : Encodes [value] bytes) :
      Encodes [(entry (k, value)).1, value] (w.writeUint k.toNat ++ bytes) :=
    (hw.uint k.toNat (k.toNat_lt.trans (by decide))).append hvalue
  have happend (k : UInt8) (bytes : Bytes) :
      (this.key w k).put bytes =
        ⟨this.header, this.body ++ (w.writeUint k.toNat ++ bytes),
          (this.entries + 1) % 2 ^ 32⟩ := by
    simp [Request.key, Request.put]
  cases h with
  | uint k v => exact ⟨_, congrArg Except.ok (happend k _), hkey k (hw.uint _ v.toNat_lt)⟩
  | str k h => exact ⟨_, congrArg Except.ok (happend k _), hkey k (hw.str _ h)⟩
  | bool k v => exact ⟨_, congrArg Except.ok (happend k _), hkey k (hw.bool v)⟩
  | f64 k bits => exact ⟨_, congrArg Except.ok (happend k _), hkey k (hw.f64 bits)⟩
  | raw k h => exact ⟨_, congrArg Except.ok (happend k _), hkey k h⟩
  | array k h => exact ⟨_, congrArg Except.ok (happend k _), hkey k h⟩
  | ext k tag payload =>
      have hlength : payload.length < 2 ^ 32 := haccepted
      refine ⟨_, ?_, hkey k (hw.extMeta tag payload hlength)⟩
      rw [Call.apply, Request.ext, if_pos hlength, happend]
  | @rawArray k values elements h =>
      have hlength : elements.length < 2 ^ 32 := haccepted
      have harray : Encodes [.array values] (w.writeArrayLen elements.length ++ elements.flatten) := by
        rw [← List.append_nil (_ ++ _)]
        refine .array ?_ h.flatten .done
        rw [h.length_eq]
        exact hw.arrayLen _ hlength
      refine ⟨_, ?_, hkey k harray⟩
      rw [Call.apply, Request.rawArray, if_pos hlength, happend]
      simp [Request.put]
  | @serialized k expectArray value bytes h =>
      refine ⟨_, ?_, hkey k h⟩
      obtain ⟨bytes', hbytes, harray⟩ := haccepted
      obtain rfl := Except.ok.inj hbytes
      have hstart : ((this.key w k).put bytes).body[(this.key w k).body.length]? = bytes.head? := by
        rw [Request.put, List.getElem?_append_right le_rfl, Nat.sub_self, List.head?_eq_getElem?]
      rw [Call.apply, Request.serialized]
      simp only [hstart]
      rw [if_neg (fun hbad => hbad.2 (harray hbad.1)), happend]

/-! ## Chains of calls -/

theorem run_encodes {w : Writer} (hw : w.Lawful) {calls : List Call}
    {asked : List (UInt8 × Value)} (h : List.Forall₂ Call.Asks calls asked)
    (haccepted : ∀ call ∈ calls, call.Accepted) (this : Request)
    (hentries : this.entries + calls.length < 2 ^ 32) :
    ∃ added, run w this calls =
        .ok ⟨this.header, this.body ++ added, this.entries + calls.length⟩ ∧
      Encodes (Wire.children (asked.map entry)) added := by
  induction h generalizing this with
  | nil =>
      refine ⟨[], ?_, .done⟩
      rw [List.append_nil]
      rfl
  | @cons call pair calls asked h hrest ih =>
      rw [List.length_cons] at hentries
      obtain ⟨hcall, hcalls⟩ := List.forall_mem_cons.mp haccepted
      obtain ⟨first, happly, hfirst⟩ := h.applied hw hcall this
      rw [Nat.mod_eq_of_lt (by omega)] at happly
      obtain ⟨rest, hrun, hencodes⟩ :=
        ih hcalls ⟨this.header, this.body ++ first, this.entries + 1⟩ (by simp only; omega)
      refine ⟨first ++ rest, ?_, hfirst.append hencodes⟩
      rw [run, List.foldlM_cons, happly]
      refine Eq.trans hrun ?_
      simp only [List.append_assoc, List.length_cons]
      rw [Nat.add_right_comm, Nat.add_assoc]

def headerEntries (ty sync : UInt64) (streamId : Option UInt64) : List (Value × Value) :=
  [(Value.integer Key.requestType, Value.integer ty.toNat),
    (Value.integer Key.sync, Value.integer sync.toNat)] ++
    streamId.toList.map fun id => (Value.integer Key.streamId, Value.integer id.toNat)

theorem new_encodes {w : Writer} (hw : w.Lawful) (ty sync : UInt64) (streamId : Option UInt64) :
    Encodes [.map (headerEntries ty sync streamId)] (Request.new w ty sync streamId).header := by
  have hput (k : Nat) (hk : k < 2 ^ 64) (v : UInt64) :
      Encodes [.integer k, .integer v.toNat] (Request.putUint w k v) :=
    (hw.uint k hk).append (hw.uint _ v.toNat_lt)
  have hfixed := (hput Key.requestType (by decide) ty).append (hput Key.sync (by decide) sync)
  cases streamId with
  | none =>
      have hmap : Encodes [.map (headerEntries ty sync none)] (w.writeMapLen 2 ++
          (Request.putUint w Key.requestType ty ++ Request.putUint w Key.sync sync) ++ []) :=
        .map (hw.mapLen 2 (by decide)) hfixed .done
      simpa [Request.new] using hmap
  | some id =>
      have hmap : Encodes [.map (headerEntries ty sync (some id))] (w.writeMapLen 3 ++
          (Request.putUint w Key.requestType ty ++ Request.putUint w Key.sync sync ++
            Request.putUint w Key.streamId id) ++ []) :=
        .map (hw.mapLen 3 (by decide)) (hfixed.append (hput Key.streamId (by decide) id)) .done
      simpa [Request.new] using hmap

/-! ## Field updates -/

/-- An ordered list of operations, or the first one that failed to serialise. -/
structure Update where
  ops : List Bytes := []
  error : Option String := none

namespace Update

def push (this : Update) (output : Except String Bytes) : Update :=
  match output with
  | .ok bytes => { this with ops := this.ops ++ [bytes] }
  | .error err => { this with error := some (this.error.getD err) }

def intoOps (this : Update) : Except Error (List Bytes) :=
  match this.error with
  | some message => .error (.encode message)
  | none => .ok this.ops

def pushAll (outputs : List (Except String Bytes)) : Update := outputs.foldl push {}

theorem foldl_push_error {outputs : List (Except String Bytes)} {this : Update} {message : String}
    (h : this.error = some message) : (outputs.foldl push this).error = some message := by
  induction outputs generalizing this with
  | nil => exact h
  | cons output outputs ih =>
      refine ih ?_
      cases output with
      | ok bytes => exact h
      | error err => simp [push, h]

theorem foldl_push {outputs : List (Except String Bytes)} {this : Update} (h : this.error = none)
    {result : List Bytes} :
    (outputs.foldl push this).intoOps = .ok result ↔
      ∃ ops, result = this.ops ++ ops ∧ outputs = ops.map .ok := by
  induction outputs generalizing this with
  | nil =>
      rw [List.foldl_nil, intoOps, h]
      constructor
      · intro hresult
        exact ⟨[], by rw [List.append_nil, Except.ok.inj hresult], rfl⟩
      · rintro ⟨ops, rfl, hops⟩
        rw [List.map_eq_nil_iff.mp hops.symm, List.append_nil]
  | cons output outputs ih =>
      cases output with
      | error err =>
          have herror : ((Except.error err :: outputs).foldl push this).error = some err := by
            rw [List.foldl_cons]
            refine foldl_push_error ?_
            change some (this.error.getD err) = some err
            rw [h]
            rfl
          rw [intoOps, herror]
          refine ⟨nofun, ?_⟩
          rintro ⟨ops, -, hops⟩
          cases ops <;> simp at hops
      | ok bytes =>
          rw [List.foldl_cons, ih (show (this.push (.ok bytes)).error = none from h)]
          constructor
          · rintro ⟨ops, rfl, rfl⟩
            exact ⟨bytes :: ops, by simp [push], rfl⟩
          · rintro ⟨ops, rfl, hops⟩
            cases ops with
            | nil => simp at hops
            | cons first ops =>
                obtain ⟨hfirst, rfl⟩ := List.cons.inj hops
                obtain rfl := Except.ok.inj hfirst
                exact ⟨ops, by simp [push], rfl⟩

theorem pushAll_intoOps {outputs : List (Except String Bytes)} {ops : List Bytes} :
    (pushAll outputs).intoOps = .ok ops ↔ outputs = ops.map .ok := by
  refine (foldl_push rfl).trans ⟨?_, fun h => ⟨ops, rfl, h⟩⟩
  rintro ⟨ops', rfl, h⟩
  exact h

end Update

/-! ## Requests of the client -/

def update (w : Writer) (sync : UInt64) (name : String) (key : Except Error Bytes)
    (ops : Update) : Built Bytes := do
  let request := Request.new w (.ofNat Iproto.Request.update) sync none
  let request := request.str w (.ofNat Key.spaceName) name
  let request := request.uint w (.ofNat Key.indexId) 0
  let request := request.uint w (.ofNat Key.indexBase) 1
  let request ← request.array w (.ofNat Key.key) key
  let ops ← ops.intoOps.mapError .failed
  let request ← request.rawArray w (.ofNat Key.tuple) ops
  return request.finish w

def updateCalls (name : String) (key : Except Error Bytes) (ops : List Bytes) : List Call :=
  [.str (.ofNat Key.spaceName) name, .uint (.ofNat Key.indexId) 0, .uint (.ofNat Key.indexBase) 1,
    .array (.ofNat Key.key) key, .rawArray (.ofNat Key.tuple) ops]

/-- There is a packet only if every operation serialised, and then it carries all of them. -/
theorem update_ok {w : Writer} {sync : UInt64} {name : String} {key : Except Error Bytes}
    {outputs : List (Except String Bytes)} {packet : Bytes}
    (h : update w sync name key (Update.pushAll outputs) = .ok packet) :
    ∃ ops request, outputs = ops.map .ok ∧
      run w (Request.new w (.ofNat Iproto.Request.update) sync none) (updateCalls name key ops) =
        .ok request ∧ packet = request.finish w := by
  obtain ⟨keyed, hkeyed, h⟩ := Msgpack.bind_ok.mp h
  obtain ⟨ops, hops, h⟩ := Msgpack.bind_ok.mp h
  obtain ⟨request, hbuilt, h⟩ := Msgpack.bind_ok.mp h
  have hintoOps : (Update.pushAll outputs).intoOps = .ok ops := by
    cases hresult : (Update.pushAll outputs).intoOps with
    | error err => simp [hresult, Except.mapError] at hops
    | ok ops' => simpa [hresult, Except.mapError] using hops
  refine ⟨ops, request, Update.pushAll_intoOps.mp hintoOps, ?_, (Except.ok.inj h).symm⟩
  simp only [run, updateCalls, List.foldlM_cons, List.foldlM_nil]
  exact Msgpack.bind_ok.mpr ⟨_, rfl, Msgpack.bind_ok.mpr ⟨_, rfl, Msgpack.bind_ok.mpr
    ⟨_, rfl, Msgpack.bind_ok.mpr ⟨_, hkeyed, Msgpack.bind_ok.mpr ⟨_, hbuilt, rfl⟩⟩⟩⟩⟩

inductive IndexRef where
  | id (id : UInt64)
  | name (name : String)

inductive After where
  | position (position : String)
  | tuple (tuple : Except Error Bytes)

structure Select where
  space : String
  index : IndexRef
  key : Except Error Bytes
  iter : UInt64
  offset : UInt64
  limit : Option UInt64
  after : Option After
  fetchPosition : Bool

def Select.build (w : Writer) (this : Select) (sync : UInt64) : Built Bytes := do
  let key ← this.key.mapError .failed
  let req := (Request.new w (.ofNat Iproto.Request.select) sync none).str w
    (.ofNat Key.spaceName) this.space
  let req :=
    match this.index with
    | .id id => req.uint w (.ofNat Key.indexId) id
    | .name name => req.str w (.ofNat Key.indexName) name
  let req := req.uint w (.ofNat Key.iterator) this.iter
  let req := if 0 < this.offset then req.uint w (.ofNat Key.offset) this.offset else req
  let req := req.uint w (.ofNat Key.limit) (this.limit.getD (.ofNat (2 ^ 32 - 1)))
  let req := req.raw w (.ofNat Key.key) key
  let req ← (match this.after with
    | some (.position position) => .ok (req.str w (.ofNat Key.afterPosition) position)
    | some (.tuple tuple) => do
        return req.raw w (.ofNat Key.afterTuple) (← tuple.mapError .failed)
    | none => .ok req : Built Request)
  let req := if this.fetchPosition then req.bool w (.ofNat Key.fetchPosition) true else req
  return req.finish w

def After.call : After → Except Error Call
  | .position text => .ok (.str (.ofNat Key.afterPosition) text)
  | .tuple output => do return .raw (.ofNat Key.afterTuple) (← output)

/-- The calls `Select::build` makes, or the error of its key or its tuple. -/
def Select.calls (this : Select) : Except Error (List Call) := do
  let key ← this.key
  let after ← (match this.after with
    | some after => do return [← after.call]
    | none => .ok [] : Except Error (List Call))
  return [Call.str (.ofNat Key.spaceName) this.space] ++
    [match this.index with
      | .id id => Call.uint (.ofNat Key.indexId) id
      | .name name => Call.str (.ofNat Key.indexName) name] ++
    [Call.uint (.ofNat Key.iterator) this.iter] ++
    (if 0 < this.offset then [Call.uint (.ofNat Key.offset) this.offset] else []) ++
    [Call.uint (.ofNat Key.limit) (this.limit.getD (.ofNat (2 ^ 32 - 1)))] ++
    [Call.raw (.ofNat Key.key) key] ++ after ++
    (if this.fetchPosition then [Call.bool (.ofNat Key.fetchPosition) true] else [])

/-- A select is a chain of calls that cannot fail, once its key and tuple have serialised. -/
theorem Select.build_eq (w : Writer) (this : Select) (sync : UInt64) :
    this.build w sync = do
      let calls ← this.calls.mapError .failed
      let request ← run w (Request.new w (.ofNat Iproto.Request.select) sync none) calls
      return request.finish w := by
  obtain ⟨space, index, key, iter, offset, limit, after, fetchPosition⟩ := this
  cases key with
  | error err => rfl
  | ok key =>
      by_cases hoffset : 0 < offset <;> cases index <;> cases fetchPosition <;>
        rcases after with _ | _ | (_ | _) <;>
        simp [Select.build, Select.calls, After.call, run, Call.apply, hoffset, bind, Except.bind,
          pure, Except.pure, Except.mapError]

/-! ## A writer that takes the least width -/

open Codec (beBytes)

def compactWriter : Writer where
  writeUint n :=
    if n ≤ 0x7f then [UInt8.ofNat n]
    else if n < 256 ^ 1 then 0xcc :: beBytes 1 n
    else if n < 256 ^ 2 then 0xcd :: beBytes 2 n
    else if n < 256 ^ 4 then 0xce :: beBytes 4 n
    else 0xcf :: beBytes 8 n
  writeMapLen n :=
    if n ≤ 15 then [UInt8.ofNat (0x80 + n)]
    else if n < 256 ^ 2 then 0xde :: beBytes 2 n
    else 0xdf :: beBytes 4 n
  writeArrayLen n :=
    if n ≤ 15 then [UInt8.ofNat (0x90 + n)]
    else if n < 256 ^ 2 then 0xdc :: beBytes 2 n
    else 0xdd :: beBytes 4 n
  writeStr text :=
    let n := (asBytes text).length
    if n ≤ 31 then UInt8.ofNat (0xa0 + n) :: asBytes text
    else if n < 256 ^ 1 then 0xd9 :: (beBytes 1 n ++ asBytes text)
    else if n < 256 ^ 2 then 0xda :: (beBytes 2 n ++ asBytes text)
    else 0xdb :: (beBytes 4 n ++ asBytes text)
  writeBool value := [if value then 0xc3 else 0xc2]
  writeF64 bits := 0xcb :: beBytes 8 bits.toNat
  writeExtMeta n tag :=
    let tag := Wire.twosComplement 1 tag.toInt
    if n = 1 then 0xd4 :: tag
    else if n = 2 then 0xd5 :: tag
    else if n = 4 then 0xd6 :: tag
    else if n = 8 then 0xd7 :: tag
    else if n = 16 then 0xd8 :: tag
    else if n < 256 ^ 1 then 0xc7 :: (beBytes 1 n ++ tag)
    else if n < 256 ^ 2 then 0xc8 :: (beBytes 2 n ++ tag)
    else 0xc9 :: (beBytes 4 n ++ tag)

theorem compactWriter_lawful : compactWriter.Lawful where
  uint n hn := by
    refine Wire.Scalar.encodes ?_
    unfold compactWriter
    simp only
    split_ifs with h₀ h₁ h₂ h₄
    · exact .posFixint h₀
    · exact .uint (by decide) h₁
    · exact .uint (by decide) h₂
    · exact .uint (by decide) h₄
    · exact .uint (by decide) (by omega)
  mapLen n hn := by
    unfold compactWriter
    simp only
    split_ifs with h₀ h₂
    · exact .fix h₀
    · exact .wide (by decide) h₂
    · exact .wide (by decide) (by omega)
  arrayLen n hn := by
    unfold compactWriter
    simp only
    split_ifs with h₀ h₂
    · exact .fix h₀
    · exact .wide (by decide) h₂
    · exact .wide (by decide) (by omega)
  str text hn := by
    refine Wire.Scalar.encodes ?_
    unfold compactWriter
    simp only
    split_ifs with h₀ h₁ h₂
    · exact .fixstr h₀
    · exact .str (by decide) h₁
    · exact .str (by decide) h₂
    · exact .str (by decide) (by omega)
  bool value := Wire.Scalar.encodes (.boolean value)
  f64 bits := Wire.Scalar.encodes (.f64 bits)
  extMeta tag payload hn := by
    have htag : -128 ≤ tag.toInt ∧ tag.toInt < 128 := ⟨tag.le_toInt, tag.toInt_lt⟩
    refine Wire.Scalar.encodes ?_
    unfold compactWriter
    simp only
    split_ifs with h₀ h₁ h₂ h₃ h₄ h₅ h₆ <;> simp only [List.cons_append, List.append_assoc]
    all_goals first
      | exact .fixext (by simp [*]) htag
      | exact .ext (by decide) (by omega) htag

/-! ## Main results -/

/--
Fewer than `2 ^ 32` accepted calls build a packet of exactly two maps: the header
that was asked for, and one entry for each call, in the order of the calls.  The
operations of an update go in together, in their order, or there is no packet.
-/
theorem built_request_says_what_was_asked {w : Writer} (hw : w.Lawful) (ty sync : UInt64)
    (streamId : Option UInt64) {calls : List Call} {asked : List (UInt8 × Value)}
    (hasked : List.Forall₂ Call.Asks calls asked) (haccepted : ∀ call ∈ calls, call.Accepted)
    (hcalls : calls.length < 2 ^ 32) :
    (∃ request head body,
      run w (Request.new w ty sync streamId) calls = .ok request ∧
      request.entries = calls.length ∧ request.finish w = head ++ body ∧
      Encodes [.map (headerEntries ty sync streamId)] head ∧
      Encodes [.map (asked.map entry)] body) ∧
    ∀ (name : String) (key : Except Error Bytes) (outputs : List (Except String Bytes))
      (packet : Bytes), update w sync name key (Update.pushAll outputs) = .ok packet →
      ∃ ops request, outputs = ops.map .ok ∧
        run w (Request.new w (.ofNat Iproto.Request.update) sync none)
          (updateCalls name key ops) = .ok request ∧ packet = request.finish w := by
  refine ⟨?_, fun name key outputs packet => update_ok⟩
  have hentries : (Request.new w ty sync streamId).entries + calls.length < 2 ^ 32 := by
    rw [show (Request.new w ty sync streamId).entries = 0 from rfl, Nat.zero_add]
    exact hcalls
  obtain ⟨added, hrun, hencodes⟩ := run_encodes hw hasked haccepted _ hentries
  have hmap : MapHead (asked.map entry).length (w.writeMapLen calls.length) := by
    rw [List.length_map, ← hasked.length_eq]
    exact hw.mapLen _ hcalls
  refine ⟨_, (Request.new w ty sync streamId).header, w.writeMapLen calls.length ++ added, hrun,
    Nat.zero_add _, ?_, new_encodes hw ty sync streamId, ?_⟩
  · rw [Request.finish, List.append_assoc]
    simp only [Nat.zero_add, List.nil_append,
      show (Request.new w ty sync streamId).entries = 0 from rfl,
      show (Request.new w ty sync streamId).body = [] from rfl]
  · rw [← List.append_nil (_ ++ added)]
    exact .map hmap hencodes .done

theorem built_request_says_what_was_asked_sample :
    (∃ request head body,
      run compactWriter (Request.new compactWriter 4 9 (some 3))
        [.uint 0x10 512, .raw 0x20 [0x90], .rawArray 0x21 [[0x01], [0xc0]]] = .ok request ∧
      request.entries = 3 ∧ request.finish compactWriter = head ++ body ∧
      Encodes [.map (headerEntries 4 9 (some 3))] head ∧
      Encodes [.map [(.integer 0x10, .integer 512), (.integer 0x20, .array []),
        (.integer 0x21, .array [.integer 1, .nil])]] body) ∧
    ∃ ops request, [Except.ok [0x01]] = ops.map (Except.ok : Bytes → Except String Bytes) ∧
      run compactWriter (Request.new compactWriter (.ofNat Iproto.Request.update) 9 none)
        (updateCalls "users" (.ok [0x90]) ops) = .ok request := by
  have hraw : Encodes [.array []] [0x90] := .array (.fix (by decide)) .done .done
  have hone : Encodes [.integer 1] [0x01] := Wire.Scalar.encodes (.posFixint (by decide))
  have hasked : List.Forall₂ Call.Asks
      [.uint 0x10 512, .raw 0x20 [0x90], .rawArray 0x21 [[0x01], [0xc0]]]
      [(0x10, .integer 512), (0x20, .array []), (0x21, .array [.integer 1, .nil])] :=
    .cons (.uint 0x10 512) (.cons (.raw 0x20 hraw)
      (.cons (.rawArray 0x21 (.cons hone (.cons (Wire.Scalar.encodes .nil) .nil))) .nil))
  have haccepted : ∀ call ∈ [Call.uint 0x10 512, .raw 0x20 [0x90],
      .rawArray 0x21 [[0x01], [0xc0]]], call.Accepted := by
    simp [Call.Accepted]
  obtain ⟨hbuilt, hupdate⟩ := built_request_says_what_was_asked compactWriter_lawful 4 9 (some 3)
    hasked haccepted (by decide)
  obtain ⟨ops, request, hops, hrun, -⟩ :=
    hupdate "users" (.ok [0x90]) [.ok [0x01]] _ rfl
  exact ⟨hbuilt, ops, request, hops, hrun⟩

theorem map_entries_lt {entries : List (Value × Value)} {bytes : Bytes}
    (h : Encodes [.map entries] bytes) : entries.length < 2 ^ 32 := by
  cases h with
  | scalar h _ => cases h
  | map h _ _ =>
      cases h with
      | fix h => omega
      | wide hwidth h =>
          simp only [List.mem_cons, Prod.mk.injEq, List.not_mem_nil, or_false] at hwidth
          obtain ⟨rfl, -⟩ | ⟨rfl, -⟩ := hwidth <;> omega

theorem run_bools (w : Writer) (k : UInt8) (v : Bool) (n : Nat) (this : Request)
    (h : this.entries < 2 ^ 32) :
    ∃ request, run w this (List.replicate n (.bool k v)) = .ok request ∧
      request.entries = (this.entries + n) % 2 ^ 32 := by
  induction n generalizing this with
  | zero => exact ⟨this, rfl, by rw [Nat.add_zero, Nat.mod_eq_of_lt h]⟩
  | succ n ih =>
      obtain ⟨request, hrun, hentries⟩ := ih (this.bool w k v) (Nat.mod_lt _ (by decide))
      refine ⟨request, hrun, hentries.trans ?_⟩
      change ((this.entries + 1) % 2 ^ 32 + n) % 2 ^ 32 = _
      rw [Nat.mod_add_mod, Nat.add_assoc, Nat.add_comm 1 n]

/-- At `2 ^ 32` calls the counter is back at zero, and no map holds their entries. -/
theorem too_many_calls_wrap :
    (∃ request, run compactWriter (Request.new compactWriter 1 1 none)
        (List.replicate (2 ^ 32) (.bool 0x1f true)) = .ok request ∧ request.entries = 0) ∧
    ∀ body : Bytes, ¬ Encodes
      [.map ((List.replicate (2 ^ 32) ((0x1f : UInt8), Value.boolean true)).map entry)] body := by
  refine ⟨?_, fun body hbody => ?_⟩
  · obtain ⟨request, hrun, hentries⟩ := run_bools compactWriter 0x1f true (2 ^ 32)
      (Request.new compactWriter 1 1 none) (by decide)
    exact ⟨request, hrun, hentries⟩
  · have hlt := map_entries_lt hbody
    rw [List.length_map, List.length_replicate] at hlt
    exact absurd hlt (lt_irrefl _)

end Tarant.Building
