import Tarant.Statements
import Tarant.Updates

/-!
# The requests of the client

The packet each method of `client.rs` and `sql.rs` builds.  A method that stops at an
argument that does not serialize builds none.
-/

namespace Tarant.Building

open Iproto
open Connection (Field Gated Negotiated TxOptions)
open Wire (Encodes)

def send (w : Writer) (ty : Nat) (sync : UInt64) (stream : Option UInt64)
    (calls : List Call) : Built Bytes := do
  let request ← run w (Request.new w (.ofNat ty) sync stream) calls
  return request.finish w

def named (k : Nat) : UInt8 := .ofNat k

/-! ## Packets of the connection -/

def fieldCall (k : Nat) : Field → Call
  | .uint value => .uint (named k) (.ofNat value)
  | .str value => .str (named k) value
  | .bool value => .bool (named k) value
  | .f64 bits => .f64 (named k) bits
  | .ext tag payload => .ext (named k) (.ofInt tag) payload
  | .raw msgpack => .raw (named k) msgpack
  | .rawArray elements => .rawArray (named k) elements

def buildPacket (w : Writer) (packet : Connection.Packet) : Built Bytes :=
  send w packet.ty (.ofNat packet.sync) (packet.streamId.map .ofNat)
    (packet.body.map fun (k, field) => fieldCall k field)

/-- A method that needs a feature stops before it builds anything. -/
def gated (negotiated : Negotiated) (request : Gated) (built : Built Bytes) : Built Bytes := do
  (request.check negotiated).mapError .failed
  built

theorem gated_of_announced {negotiated : Negotiated} {request : Gated}
    (h : request.Announced negotiated) (built : Built Bytes) :
    gated negotiated request built = built := by
  rw [gated, (request.check_ok_iff negotiated).mpr h]
  rfl

theorem gated_unsupported {negotiated : Negotiated} {request : Gated}
    (h : ¬ request.Announced negotiated) (built : Built Bytes) :
    ∃ reason, gated negotiated request built = .error (.failed (.unsupported reason)) := by
  cases hcheck : request.check negotiated with
  | ok _ => exact absurd ((request.check_ok_iff negotiated).mp hcheck) h
  | error err =>
      obtain ⟨reason, rfl⟩ := Gated.check_error hcheck
      refine ⟨reason, ?_⟩
      rw [gated, hcheck]
      rfl

/-! ## Calls -/

section Methods

variable (w : Writer) (negotiated : Negotiated) (sync : UInt64)

def invoke (ty textKey arrayKey : Nat) (stream : Option UInt64) (text : String)
    (args : ArrayLike) : Built Bytes :=
  send w ty sync stream [.str (named textKey) text, .array (named arrayKey) args.encodeArray]

/-- `Client::call`, `Client::call_with_pushes` and, on a stream, `Stream::call`. -/
def call (stream : Option UInt64) (name : String) (args : ArrayLike) : Built Bytes :=
  invoke w sync Iproto.Request.call Key.functionName Key.tuple stream name args

/-- `Client::eval`, `Client::eval_with_pushes` and, on a stream, `Stream::eval`. -/
def eval (stream : Option UInt64) (expr : String) (args : ArrayLike) : Built Bytes :=
  invoke w sync Iproto.Request.eval Key.expr Key.tuple stream expr args

def runText (stream : Option UInt64) (sql : String) (params : ArrayLike) : Built Bytes :=
  invoke w sync Iproto.Request.execute Key.sqlText Key.sqlBind stream sql params

def ping : Built Bytes := send w Iproto.Request.ping sync none []

def watchOnce (key : String) : Built Bytes :=
  gated negotiated .watchOnce
    (send w Iproto.Request.watchOnce sync none [.str (named Key.eventKey) key])

/-! ## Spaces -/

def write (ty : Nat) (space : String) (tuple : Except String Encoded) : Built Bytes :=
  send w ty sync none [.str (named Key.spaceName) space,
    .serialized (named Key.tuple) (tuple.map Encoded.bytes) true]

def insert (space : String) (tuple : Except String Encoded) : Built Bytes :=
  write w sync Iproto.Request.insert space tuple

def replace (space : String) (tuple : Except String Encoded) : Built Bytes :=
  write w sync Iproto.Request.replace space tuple

def insertArrow (space : String) (ipc : Bytes) : Built Bytes :=
  gated negotiated .insertArrow
    (send w Iproto.Request.insertArrow sync none [.str (named Key.spaceName) space,
      .ext (named Key.arrow) Ext.arrow ipc])

def delete (space : String) (key : ArrayLike) : Built Bytes :=
  send w Iproto.Request.delete sync none [.str (named Key.spaceName) space,
    .uint (named Key.indexId) 0, .array (named Key.key) key.encodeArray]

def upsertCalls (space : String) (tuple : Except String Encoded) (ops : List Bytes) : List Call :=
  [.str (named Key.spaceName) space, .uint (named Key.indexBase) 1,
    .serialized (named Key.tuple) (tuple.map Encoded.bytes) true, .rawArray (named Key.ops) ops]

def upsert (space : String) (tuple : Except String Encoded) (ops : Update) : Built Bytes := do
  let request := Request.new w (.ofNat Iproto.Request.upsert) sync none
  let request := request.str w (named Key.spaceName) space
  let request := request.uint w (named Key.indexBase) 1
  let request ← request.serialized w (named Key.tuple) (tuple.map Encoded.bytes) true
  let ops ← ops.intoOps.mapError .failed
  let request ← request.rawArray w (named Key.ops) ops
  return request.finish w

/-- What `Statement::run` sends first: its parameters, and the id. -/
def executePrepared (stream : Option UInt64) (statement : Sql.Statement) (params : ArrayLike) :
    Built Bytes := do
  let bind ← params.encodeArray.mapError .failed
  buildPacket w (statement.send sync.toNat (stream.map UInt64.toNat) bind)

end Methods

/-! ## Selects -/

def toMsgpackArray (output : Except String Encoded) : Except Error Bytes :=
  match output with
  | .error reason => .error (.encode reason)
  | .ok encoded =>
      if isArrayMarker encoded.bytes.head? then .ok encoded.bytes
      else .error (.encode notAnArray)

inductive Resume where
  | position (position : String)
  | tuple (output : Except String Encoded)

/-- A `Select` as its builder methods leave it. -/
structure Selection where
  space : String
  index : IndexRef
  key : ArrayLike
  iter : Iter := .eq
  limit : Option UInt64 := none
  offset : UInt64 := 0
  after : Option Resume := none
  fetchPosition : Bool := false

namespace Selection

def ofSpace (space : String) (key : ArrayLike) : Selection := { space, index := .id 0, key }

def iterator (this : Selection) (iter : Iter) : Selection := { this with iter }

def setLimit (this : Selection) (limit : UInt64) : Selection := { this with limit := some limit }

/-- The select of `Space::get`. -/
def get (space : String) (key : ArrayLike) : Selection :=
  ((ofSpace space key).iterator .eq).setLimit 1

def select (this : Selection) : Select where
  space := this.space
  index := this.index
  key := this.key.encodeArray
  iter := .ofNat this.iter.code
  offset := this.offset
  limit := this.limit
  after := this.after.map fun
    | .position position => .position position
    | .tuple output => .tuple (toMsgpackArray output)
  fetchPosition := this.fetchPosition

end Selection

/-! ## All of them -/

inductive Method where
  | call (stream : Option UInt64) (name : String) (args : ArrayLike)
  | eval (stream : Option UInt64) (expr : String) (args : ArrayLike)
  | ping
  | watchOnce (key : String)
  | insert (space : String) (tuple : Except String Encoded)
  | replace (space : String) (tuple : Except String Encoded)
  | insertArrow (space : String) (ipc : Bytes)
  | get (space : String) (key : ArrayLike)
  | select (selection : Selection)
  | delete (space : String) (key : ArrayLike)
  | update (space : String) (key : ArrayLike) (pushed : List Pushed)
  | upsert (space : String) (tuple : Except String Encoded) (pushed : List Pushed)
  | begin (stream : UInt64) (options : TxOptions)
  | commit (stream : UInt64)
  | rollback (stream : UInt64)
  | runText (stream : Option UInt64) (sql : String) (params : ArrayLike)
  | prepare (sql : String)
  | execute (stream : Option UInt64) (statement : Sql.Statement) (params : ArrayLike)
  | unprepare (statement : Sql.Statement)

namespace Method

def onStream (ty : Nat) (stream sync : UInt64) (body : List (Nat × Field)) :
    Connection.Packet :=
  ⟨ty, sync.toNat, some stream.toNat, body⟩

def gate : Method → Option Gated
  | .watchOnce _ => some .watchOnce
  | .insertArrow _ _ => some .insertArrow
  | .begin _ options => some (.begin options.synchronous)
  | _ => none

def packet (w : Writer) (negotiated : Negotiated) (sync : UInt64) : Method → Built Bytes
  | .call stream name args => Building.call w sync stream name args
  | .eval stream expr args => Building.eval w sync stream expr args
  | .ping => Building.ping w sync
  | .watchOnce key => Building.watchOnce w negotiated sync key
  | .insert space tuple => Building.insert w sync space tuple
  | .replace space tuple => Building.replace w sync space tuple
  | .insertArrow space ipc => Building.insertArrow w negotiated sync space ipc
  | .get space key => (Selection.get space key).select.build w sync
  | .select selection => selection.select.build w sync
  | .delete space key => Building.delete w sync space key
  | .update space key pushed =>
      Building.update w sync space key.encodeArray (Update.ofPushed pushed)
  | .upsert space tuple pushed => Building.upsert w sync space tuple (Update.ofPushed pushed)
  | .begin stream options =>
      gated negotiated (.begin options.synchronous)
        (buildPacket w (onStream Iproto.Request.begin stream sync options.body))
  | .commit stream => buildPacket w (onStream Iproto.Request.commit stream sync [])
  | .rollback stream => buildPacket w (onStream Iproto.Request.rollback stream sync [])
  | .runText stream sql params => Building.runText w sync stream sql params
  | .prepare sql => buildPacket w (Sql.sendPrepare sync.toNat sql)
  | .execute stream statement params => executePrepared w sync stream statement params
  | .unprepare statement => buildPacket w (statement.unpreparePacket sync.toNat)

def stream : Method → Option UInt64
  | .call stream _ _ | .eval stream _ _ | .runText stream _ _ | .execute stream _ _ => stream
  | .begin stream _ | .commit stream | .rollback stream => some stream
  | _ => none

end Method

/-! ## Chains that are cut short -/

theorem send_ok {w : Writer} {ty : Nat} {sync : UInt64} {stream : Option UInt64}
    {calls : List Call} {packet : Bytes} : send w ty sync stream calls = .ok packet ↔
      ∃ request, run w (Request.new w (.ofNat ty) sync stream) calls = .ok request ∧
        packet = request.finish w := by
  rw [send, Msgpack.bind_ok]
  refine exists_congr fun request => and_congr_right fun _ => ?_
  exact ⟨fun h => (Except.ok.inj h).symm, fun h => congrArg Except.ok h.symm⟩

theorem Call.accepted_of_apply {w : Writer} {this request : Request} {call : Call}
    (h : call.apply w this = .ok request) : call.Accepted := by
  cases call with
  | serialized k output expectArray =>
      cases output with
      | error reason => simp [Call.apply, Request.serialized] at h
      | ok bytes =>
          refine ⟨bytes, rfl, fun hexpect => ?_⟩
          have hstart : (((this.key w k).put bytes).body)[(this.key w k).body.length]? =
              bytes.head? := by
            rw [Request.put, List.getElem?_append_right le_rfl, Nat.sub_self,
              List.head?_eq_getElem?]
          by_contra hmarker
          simp only [Call.apply, Request.serialized, hstart] at h
          rw [if_pos ⟨hexpect, hmarker⟩] at h
          cases h
  | ext k tag payload =>
      by_contra hlong
      simp only [Call.Accepted] at hlong
      rw [Call.apply, Request.ext, if_neg hlong] at h
      cases h
  | array k output => cases output <;> simp [Call.apply, Request.array, Call.Accepted] at h ⊢
  | rawArray k elements =>
      by_contra hlong
      simp only [Call.Accepted] at hlong
      rw [Call.apply, Request.rawArray, if_neg hlong] at h
      cases h
  | _ => trivial

theorem accepted_of_run {w : Writer} {this request : Request} {calls : List Call}
    (h : run w this calls = .ok request) : ∀ call ∈ calls, call.Accepted := by
  induction calls generalizing this with
  | nil => exact List.forall_mem_nil _
  | cons call calls ih =>
      rw [run, List.foldlM_cons, Msgpack.bind_ok] at h
      obtain ⟨next, hcall, hrest⟩ := h
      exact List.forall_mem_cons.mpr ⟨Call.accepted_of_apply hcall, ih hrest⟩

end Tarant.Building
