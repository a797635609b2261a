import Tarant.Requests

/-!
# What the server makes of a request

A server decodes the two maps of a packet and looks up the keys its type calls for.
It finds there the operation the caller asked for, on the caller's arguments, and no
packet can be read as two operations.
-/

namespace Tarant.Building

open Iproto
open Connection (Field Gated Negotiated TxOptions)
open Wire (Encodes)

/-! ## Looking up -/

def valueUnder (k : Nat) (entries : List (Value × Value)) : Option Value :=
  (entries.find? fun entry =>
    match entry.1 with
    | .integer n => n == k
    | _ => false).map Prod.snd

def natUnder (k : Nat) (entries : List (Value × Value)) : Option Nat :=
  match valueUnder k entries with
  | some (.integer n) => some n.toNat
  | _ => none

def textUnder (k : Nat) (entries : List (Value × Value)) : Option Bytes :=
  match valueUnder k entries with
  | some (.string text) => some text
  | _ => none

def itemsUnder (k : Nat) (entries : List (Value × Value)) : Option (List Value) :=
  match valueUnder k entries with
  | some (.array items) => some items
  | _ => none

def flagUnder (k : Nat) (entries : List (Value × Value)) : Bool :=
  match valueUnder k entries with
  | some (.boolean value) => value
  | _ => false

def f64Under (k : Nat) (entries : List (Value × Value)) : Option UInt64 :=
  match valueUnder k entries with
  | some (.f64 bits) => some bits
  | _ => none

def arrowUnder (k : Nat) (entries : List (Value × Value)) : Option Bytes :=
  match valueUnder k entries with
  | some (.ext tag payload) => if tag = Ext.arrow.toInt then some payload else none
  | _ => none

/-! ## Operations -/

inductive IndexTarget where
  | id (id : Nat)
  | name (name : Bytes)

inductive Cursor where
  | position (position : Bytes)
  | tuple (items : List Value)

inductive Operation where
  | ping
  | call (function : Bytes) (args : List Value)
  | eval (expr : Bytes) (args : List Value)
  | select (space : Bytes) (index : IndexTarget) (key : List Value) (iterator offset limit : Nat)
      (after : Option Cursor) (fetchPosition : Bool)
  | insert (space : Bytes) (tuple : List Value)
  | replace (space : Bytes) (tuple : List Value)
  | insertArrow (space ipc : Bytes)
  | delete (space : Bytes) (index : IndexTarget) (key : List Value)
  | update (space : Bytes) (index : IndexTarget) (base : Nat) (key ops : List Value)
  | upsert (space : Bytes) (base : Nat) (tuple ops : List Value)
  | begin (isolation : Nat) (timeout : Option UInt64) (isSync : Bool)
  | commit
  | rollback
  | executeText (sql : Bytes) (bind : List Value)
  | execute (id : Nat) (bind : List Value)
  | prepare (sql : Bytes)
  | unprepare (id : Nat)
  | watchOnce (key : Bytes)

def Operation.ops : Operation → List Value
  | .update _ _ _ _ ops | .upsert _ _ _ ops => ops
  | _ => []

def indexUnder (body : List (Value × Value)) : Option IndexTarget :=
  match natUnder Key.indexId body with
  | some id => some (.id id)
  | none => (textUnder Key.indexName body).map .name

def cursorUnder (body : List (Value × Value)) : Option Cursor :=
  match textUnder Key.afterPosition body with
  | some position => some (.position position)
  | none => (itemsUnder Key.afterTuple body).map .tuple

def Operation.read (ty : Nat) (body : List (Value × Value)) : Option Operation :=
  if ty = Request.ping then some .ping
  else if ty = Request.call then do
    return .call (← textUnder Key.functionName body) (← itemsUnder Key.tuple body)
  else if ty = Request.eval then do
    return .eval (← textUnder Key.expr body) (← itemsUnder Key.tuple body)
  else if ty = Request.select then do
    return .select (← textUnder Key.spaceName body) (← indexUnder body)
      (← itemsUnder Key.key body) (← natUnder Key.iterator body)
      ((natUnder Key.offset body).getD 0) (← natUnder Key.limit body) (cursorUnder body)
      (flagUnder Key.fetchPosition body)
  else if ty = Request.insert then do
    return .insert (← textUnder Key.spaceName body) (← itemsUnder Key.tuple body)
  else if ty = Request.replace then do
    return .replace (← textUnder Key.spaceName body) (← itemsUnder Key.tuple body)
  else if ty = Request.insertArrow then do
    return .insertArrow (← textUnder Key.spaceName body) (← arrowUnder Key.arrow body)
  else if ty = Request.delete then do
    return .delete (← textUnder Key.spaceName body) (← indexUnder body)
      (← itemsUnder Key.key body)
  else if ty = Request.update then do
    return .update (← textUnder Key.spaceName body) (← indexUnder body)
      ((natUnder Key.indexBase body).getD 0) (← itemsUnder Key.key body)
      (← itemsUnder Key.tuple body)
  else if ty = Request.upsert then do
    return .upsert (← textUnder Key.spaceName body) ((natUnder Key.indexBase body).getD 0)
      (← itemsUnder Key.tuple body) (← itemsUnder Key.ops body)
  else if ty = Request.begin then
    some (.begin ((natUnder Key.txnIsolation body).getD 0) (f64Under Key.timeout body)
      (flagUnder Key.isSync body))
  else if ty = Request.commit then some .commit
  else if ty = Request.rollback then some .rollback
  else if ty = Request.execute then
    match textUnder Key.sqlText body with
    | some sql => (itemsUnder Key.sqlBind body).map (.executeText sql)
    | none => do return .execute (← natUnder Key.stmtId body) (← itemsUnder Key.sqlBind body)
  else if ty = Request.prepare then
    match textUnder Key.sqlText body with
    | some sql => some (.prepare sql)
    | none => (natUnder Key.stmtId body).map .unprepare
  else if ty = Request.watchOnce then (textUnder Key.eventKey body).map .watchOnce
  else none

def Reads (packet : Bytes) (sync : Nat) (stream : Option Nat) (op : Operation) : Prop :=
  ∃ header body ty, Encodes [.map header, .map body] packet ∧
    natUnder Key.requestType header = some ty ∧ natUnder Key.sync header = some sync ∧
    natUnder Key.streamId header = stream ∧ Operation.read ty body = some op

theorem Reads.unique {packet : Bytes} {sync sync' : Nat} {stream stream' : Option Nat}
    {op op' : Operation} (h : Reads packet sync stream op)
    (h' : Reads packet sync' stream' op') : sync = sync' ∧ stream = stream' ∧ op = op' := by
  obtain ⟨header, body, ty, hencodes, hty, hsync, hstream, hop⟩ := h
  obtain ⟨header', body', ty', hencodes', hty', hsync', hstream', hop'⟩ := h'
  have hvalues := (hencodes.unambiguous hencodes' rfl (Eq.refl (packet ++ []))).1
  obtain ⟨rfl, rfl⟩ : header = header' ∧ body = body' := by simpa using hvalues
  obtain rfl := Option.some.inj (hty.symm.trans hty')
  exact ⟨Option.some.inj (hsync.symm.trans hsync'), hstream.symm.trans hstream',
    Option.some.inj (hop.symm.trans hop')⟩

/-! ## What the caller means -/

/-- A tuple must serialize to an array. -/
def tupleItems : Except String Encoded → Option (List Value)
  | .ok encoded =>
      match encoded.value with
      | .array items => some items
      | _ => none
  | .error _ => none

/-- Every operation of an update must serialize, and a count of them must fit. -/
def opItems (pushed : List Pushed) : Option (List Value) :=
  if (pushed.all fun p => p.output.toBool) ∧ pushed.length < 2 ^ 32 then
    some (pushed.map fun p => .array p.op.tuple)
  else none

def IndexRef.target : IndexRef → IndexTarget
  | .id n => .id n.toNat
  | .name text => .name (asBytes text)

def Resume.cursor : Resume → Option Cursor
  | .position text => some (.position (asBytes text))
  | .tuple output => (tupleItems output).map .tuple

def Selection.cursor (this : Selection) : Option (Option Cursor) :=
  match this.after with
  | some after => after.cursor.map some
  | none => some none

def Selection.operation (this : Selection) : Option Operation := do
  let key ← this.key.items
  let after ← this.cursor
  return .select (asBytes this.space) this.index.target key this.iter.code this.offset.toNat
    ((this.limit.map UInt64.toNat).getD (2 ^ 32 - 1)) after this.fetchPosition

namespace Method

/-- The operation the caller asks for; none if an argument cannot be sent. -/
def operation : Method → Option Operation
  | .call _ name args => args.items.map (.call (asBytes name))
  | .eval _ expr args => args.items.map (.eval (asBytes expr))
  | .ping => some .ping
  | .watchOnce key => some (.watchOnce (asBytes key))
  | .insert space tuple => (tupleItems tuple).map (.insert (asBytes space))
  | .replace space tuple => (tupleItems tuple).map (.replace (asBytes space))
  | .insertArrow space ipc =>
      if ipc.length < 2 ^ 32 then some (.insertArrow (asBytes space) ipc) else none
  | .get space key => (Selection.get space key).operation
  | .select selection => selection.operation
  | .delete space key => key.items.map (.delete (asBytes space) (.id 0))
  | .update space key pushed => do
      return .update (asBytes space) (.id 0) 1 (← key.items) (← opItems pushed)
  | .upsert space tuple pushed => do
      return .upsert (asBytes space) 1 (← tupleItems tuple) (← opItems pushed)
  | .begin _ options =>
      some (.begin options.isolation.code options.timeout options.synchronous)
  | .commit _ => some .commit
  | .rollback _ => some .rollback
  | .runText _ sql params => params.items.map (.executeText (asBytes sql))
  | .prepare sql => some (.prepare (asBytes sql))
  | .execute _ statement params => params.items.map (.execute statement.id)
  | .unprepare statement => some (.unprepare statement.id)

def ops : Method → List Op
  | .update _ _ pushed | .upsert _ _ pushed => pushed.map Pushed.op
  | _ => []

/-- The operation asked for, unless the server lacks a feature the method needs. -/
def sendable (negotiated : Negotiated) (m : Method) : Option Operation :=
  match m.gate with
  | none => m.operation
  | some gate => if gate.Announced negotiated then m.operation else none

def texts : Method → List String
  | .call _ text _ | .eval _ text _ | .watchOnce text | .insert text _ | .replace text _ |
    .insertArrow text _ | .get text _ | .delete text _ | .update text _ _ | .upsert text _ _ |
    .runText _ text _ | .prepare text => [text]
  | .select selection =>
      selection.space :: (match selection.index with
        | .name name => [name]
        | .id _ => []) ++
      match selection.after with
        | some (.position position) => [position]
        | _ => []
  | _ => []

def statement : Method → Option Sql.Statement
  | .execute _ statement _ | .unprepare statement => some statement
  | _ => none

structure Fits (m : Method) : Prop where
  texts : ∀ s ∈ m.texts, (asBytes s).length < 2 ^ 32
  id : ∀ statement, m.statement = some statement → statement.id < 2 ^ 64

end Method

/-! ## Sent and read -/

section Sending

variable {w : Writer} {ty : Nat} {sync : UInt64} {stream : Option UInt64}
  {calls : List Call} {asked : List (UInt8 × Value)}

theorem encodes_of_send {packet : Bytes} (hw : w.Lawful)
    (hsend : send w ty sync stream calls = .ok packet)
    (hasked : List.Forall₂ Call.Asks calls asked) (hcalls : calls.length < 2 ^ 32) :
    Encodes [.map (headerEntries (.ofNat ty) sync stream), .map (asked.map entry)] packet := by
  obtain ⟨request, hrun, rfl⟩ := send_ok.mp hsend
  obtain ⟨added, hbuilt, hencodes⟩ := run_encodes hw hasked (accepted_of_run hrun)
    (Request.new w (.ofNat ty) sync stream) (by simpa [Request.new] using hcalls)
  obtain rfl := Except.ok.inj (hrun.symm.trans hbuilt)
  have hmap : Wire.MapHead (asked.map entry).length (w.writeMapLen calls.length) := by
    rw [List.length_map, ← hasked.length_eq]
    exact hw.mapLen _ hcalls
  have hbody : Encodes [.map (asked.map entry)] (w.writeMapLen calls.length ++ added ++ []) :=
    .map hmap hencodes .done
  have hwhole := (new_encodes hw (.ofNat ty) sync stream).append hbody
  simpa [Request.finish, Request.new] using hwhole

theorem reads_of_send {packet : Bytes} {op : Operation} (hw : w.Lawful)
    (hsend : send w ty sync stream calls = .ok packet) (hty : ty < 2 ^ 64)
    (hasked : List.Forall₂ Call.Asks calls asked) (hcalls : calls.length < 2 ^ 32)
    (hread : Operation.read ty (asked.map entry) = some op) :
    Reads packet sync.toNat (stream.map UInt64.toNat) op := by
  refine ⟨headerEntries (.ofNat ty) sync stream, asked.map entry, ty,
    encodes_of_send hw hsend hasked hcalls, ?_, ?_, ?_, hread⟩
  · have htype : (UInt64.ofNat ty).toNat = ty := UInt64.toNat_ofNat_of_lt' hty
    simp [natUnder, valueUnder, headerEntries, Key.requestType, htype]
  · simp [natUnder, valueUnder, headerEntries, Key.requestType, Key.sync]
  · cases stream <;> simp [natUnder, valueUnder, headerEntries, Key.requestType, Key.sync, Key.streamId]

theorem exists_send (hw : w.Lawful) (hasked : List.Forall₂ Call.Asks calls asked)
    (haccepted : ∀ call ∈ calls, call.Accepted) (hcalls : calls.length < 2 ^ 32) :
    ∃ packet, send w ty sync stream calls = .ok packet := by
  obtain ⟨added, hbuilt, -⟩ := run_encodes hw hasked haccepted
    (Request.new w (.ofNat ty) sync stream) (by simpa [Request.new] using hcalls)
  exact ⟨_, send_ok.mpr ⟨_, hbuilt, rfl⟩⟩

end Sending

/-! ## One method after the other -/

/-- There is a packet exactly when the caller means something that can be sent, and the
server reads it as that. -/
structure Delivers (built : Built Bytes) (sync : UInt64) (stream : Option UInt64)
    (meant : Option Operation) : Prop where
  reads : ∀ packet, built = .ok packet → ∃ op, meant = some op ∧
    Reads packet sync.toNat (stream.map UInt64.toNat) op
  sends : meant.isSome = true → ∃ packet, built = .ok packet

variable {w : Writer} {negotiated : Negotiated} {sync : UInt64} {stream : Option UInt64}

theorem Delivers.refused {built : Built Bytes} (h : ∀ packet, built ≠ .ok packet) :
    Delivers built sync stream none where
  reads _ hbuilt := absurd hbuilt (h _)
  sends hsome := by simp at hsome

theorem Delivers.gated {built : Built Bytes} {meant : Option Operation}
    (h : Delivers built sync stream meant) (request : Gated) :
    Delivers (gated negotiated request built) sync stream
      (if request.Announced negotiated then meant else none) := by
  split
  next hannounced =>
    rw [gated_of_announced hannounced]
    exact h
  next hmissing =>
    obtain ⟨reason, hstop⟩ := gated_unsupported hmissing built
    exact .refused fun packet hbuilt => by simp [hstop] at hbuilt

theorem Delivers.unaccepted {ty : Nat} {calls : List Call} (call : Call) (hmem : call ∈ calls)
    (h : ¬ call.Accepted) : Delivers (send w ty sync stream calls) sync stream none := by
  refine .refused fun _ hsend => ?_
  obtain ⟨request, hrun, -⟩ := send_ok.mp hsend
  exact h (accepted_of_run hrun call hmem)

theorem Delivers.accepted {ty : Nat} {calls : List Call} {asked : List (UInt8 × Value)}
    {op : Operation} (hw : w.Lawful) (hty : ty < 2 ^ 64)
    (hasked : List.Forall₂ Call.Asks calls asked) (haccepted : ∀ call ∈ calls, call.Accepted)
    (hcalls : calls.length < 2 ^ 32) (hread : Operation.read ty (asked.map entry) = some op) :
    Delivers (send w ty sync stream calls) sync stream (some op) where
  reads _ hsend := ⟨op, rfl, reads_of_send hw hsend hty hasked hcalls hread⟩
  sends _ := exists_send hw hasked haccepted hcalls

theorem ArrayLike.encodeArray_cases (this : ArrayLike) :
    (∃ items bytes, this.items = some items ∧ this.encodeArray = .ok bytes ∧
      Encodes [.array items] bytes) ∨ this.items = none ∧ ∃ err, this.encodeArray = .error err := by
  cases hencode : this.encodeArray with
  | ok bytes =>
      obtain ⟨items, hitems, hencodes⟩ := ArrayLike.encodeArray_ok hencode
      exact .inl ⟨items, bytes, hitems, rfl, hencodes⟩
  | error err =>
      refine .inr ⟨?_, err, rfl⟩
      cases hitems : this.items with
      | none => rfl
      | some items =>
          obtain ⟨bytes, hok⟩ := ArrayLike.encodeArray_of_items hitems
          cases hok.symm.trans hencode

theorem not_accepted_array (k : UInt8) (err : Error) : ¬ (Call.array k (.error err)).Accepted := by
  simp [Call.Accepted]

theorem invoke_delivers (hw : w.Lawful) {ty textKey arrayKey : Nat} {text : String}
    (htext : (asBytes text).length < 2 ^ 32) (args : ArrayLike) (hty : ty < 2 ^ 64)
    {make : List Value → Operation}
    (hread : ∀ items, Operation.read ty [(.integer (named textKey).toNat, .string (asBytes text)),
      (.integer (named arrayKey).toNat, .array items)] = some (make items)) :
    Delivers (invoke w sync ty textKey arrayKey stream text args) sync stream
      (args.items.map make) := by
  unfold invoke
  rcases args.encodeArray_cases with
    ⟨items, bytes, hitems, hencode, hencodes⟩ | ⟨hitems, err, hencode⟩
  · rw [hitems, hencode]
    refine .accepted hw hty (.cons (.str _ htext) (.cons (.array _ hencodes) .nil)) ?_
      (by simp) (hread items)
    simp [Call.Accepted]
  · rw [hitems, hencode]
    exact .unaccepted (.array (named arrayKey) (.error err)) (by simp) (not_accepted_array _ err)

theorem tupleItems_cases (k : UInt8) (tuple : Except String Encoded) :
    (∃ items bytes, tupleItems tuple = some items ∧ tuple.map Encoded.bytes = .ok bytes ∧
      Encodes [.array items] bytes ∧ isArrayMarker bytes.head? = true) ∨
    tupleItems tuple = none ∧
      ¬ (Call.serialized k (tuple.map Encoded.bytes) true).Accepted := by
  cases tuple with
  | error reason => exact .inr ⟨rfl, by simp [Call.Accepted, Except.map]⟩
  | ok encoded =>
      obtain ⟨value, bytes, hencodes⟩ := encoded
      have hmarker := isArrayMarker_iff hencodes
      cases value with
      | array items => exact .inl ⟨items, bytes, rfl, rfl, hencodes, hmarker.mpr ⟨items, rfl⟩⟩
      | _ =>
          refine .inr ⟨rfl, ?_⟩
          rintro ⟨bytes', hbytes, haccepted⟩
          obtain rfl := Except.ok.inj hbytes
          obtain ⟨items, hitems⟩ := hmarker.mp (haccepted rfl)
          cases hitems

theorem write_delivers (hw : w.Lawful) {ty : Nat} {space : String}
    (hspace : (asBytes space).length < 2 ^ 32) (tuple : Except String Encoded) (hty : ty < 2 ^ 64)
    {make : List Value → Operation}
    (hread : ∀ items, Operation.read ty [(.integer (named Key.spaceName).toNat,
      .string (asBytes space)), (.integer (named Key.tuple).toNat, .array items)] =
        some (make items)) :
    Delivers (write w sync ty space tuple) sync none ((tupleItems tuple).map make) := by
  unfold write
  rcases tupleItems_cases (named Key.tuple) tuple with
    ⟨items, bytes, hitems, hbytes, hencodes, hmarker⟩ | ⟨hitems, hrefused⟩
  · rw [hitems, hbytes]
    refine .accepted hw hty (.cons (.str _ hspace) (.cons (.serialized _ true hencodes) .nil)) ?_
      (by simp) (hread items)
    simp [Call.Accepted, hmarker]
  · rw [hitems]
    exact .unaccepted _ (List.mem_cons_of_mem _ List.mem_cons_self) hrefused

theorem insertArrow_delivers (hw : w.Lawful) {space : String}
    (hspace : (asBytes space).length < 2 ^ 32) (ipc : Bytes) :
    Delivers (send w Request.insertArrow sync none [.str (named Key.spaceName) space,
      .ext (named Key.arrow) Ext.arrow ipc]) sync none
      (if ipc.length < 2 ^ 32 then some (.insertArrow (asBytes space) ipc) else none) := by
  split
  next hshort =>
    refine .accepted hw (by decide) (.cons (.str _ hspace) (.cons (.ext _ _ _) .nil)) ?_
      (by simp) rfl
    simpa [Call.Accepted] using hshort
  next hlong => exact .unaccepted _ (List.mem_cons_of_mem _ List.mem_cons_self) hlong

theorem delete_delivers (hw : w.Lawful) {space : String}
    (hspace : (asBytes space).length < 2 ^ 32) (key : ArrayLike) :
    Delivers (delete w sync space key) sync none
      (key.items.map (.delete (asBytes space) (.id 0))) := by
  unfold delete
  rcases key.encodeArray_cases with
    ⟨items, bytes, hitems, hencode, hencodes⟩ | ⟨hitems, err, hencode⟩
  · rw [hitems, hencode]
    refine .accepted hw (by decide)
      (.cons (.str _ hspace) (.cons (.uint _ _) (.cons (.array _ hencodes) .nil))) ?_ (by simp) rfl
    simp [Call.Accepted]
  · rw [hitems, hencode]
    exact .unaccepted (.array (named Key.key) (.error err)) (by simp) (not_accepted_array _ err)

/-! ## Updates -/

theorem outputs_ok_iff (pushed : List Pushed) :
    (pushed.all fun p => p.output.toBool) = true ↔
      ∃ ops, (Update.ofPushed pushed).intoOps = .ok ops := by
  simp only [Update.ofPushed_eq, Update.pushAll_intoOps]
  induction pushed with
  | nil => exact ⟨fun _ => ⟨[], rfl⟩, fun _ => rfl⟩
  | cons first rest ih =>
      rw [List.all_cons, Bool.and_eq_true, ih]
      cases houtput : first.output with
      | error reason =>
          simp only [List.map_cons, houtput, Except.toBool, Except.map]
          constructor
          · rintro ⟨hfalse, -⟩
            cases hfalse
          · rintro ⟨ops, hops⟩
            cases ops <;> simp at hops
      | ok written =>
          simp only [List.map_cons, houtput, Except.toBool, Except.map]
          constructor
          · rintro ⟨-, ops, hops⟩
            exact ⟨written.val :: ops, by rw [hops, List.map_cons]⟩
          · rintro ⟨ops, hops⟩
            cases ops with
            | nil => simp at hops
            | cons bytes ops => exact ⟨trivial, ops, (List.cons.inj hops).2⟩

theorem opItems_cases (pushed : List Pushed) :
    (∃ ops, (Update.ofPushed pushed).intoOps = .ok ops ∧ ops.length < 2 ^ 32 ∧
      EncodesEach (pushed.map fun p => .array p.op.tuple) ops ∧
      opItems pushed = some (pushed.map fun p => .array p.op.tuple)) ∨
    opItems pushed = none ∧ ∀ ops, (Update.ofPushed pushed).intoOps = .ok ops →
      ¬ ops.length < 2 ^ 32 := by
  have hlength {ops : List Bytes} (h : (Update.ofPushed pushed).intoOps = .ok ops) :
      ops.length = pushed.length := by
    rw [← (Update.intoOps_encodes h).length_eq, List.length_map]
  unfold opItems
  split
  next hall =>
    obtain ⟨ops, hops⟩ := (outputs_ok_iff pushed).mp hall.1
    refine .inl ⟨ops, hops, ?_, Update.intoOps_encodes hops, rfl⟩
    rw [hlength hops]
    exact hall.2
  next hnot =>
    refine .inr ⟨rfl, fun ops hops hshort => hnot ⟨(outputs_ok_iff pushed).mpr ⟨ops, hops⟩, ?_⟩⟩
    rw [← hlength hops]
    exact hshort

theorem update_eq_send {name : String} {key : Except Error Bytes} {ops : Update}
    {items : List Bytes} (h : ops.intoOps = .ok items) :
    update w sync name key ops =
      send w Request.update sync none (updateCalls name key items) := by
  cases key with
  | error err => simp [update, send, updateCalls, run, Call.apply, Request.array, bind, Except.bind]
  | ok bytes =>
      simp only [update, send, updateCalls, run, List.foldlM_cons, List.foldlM_nil, Call.apply,
        Request.array, h, Except.mapError, bind, Except.bind, pure, Except.pure, Request.rawArray]
      split <;> rfl

theorem update_not_ok {name : String} {key : Except Error Bytes} {ops : Update} {err : Error}
    (h : ops.intoOps = .error err) (packet : Bytes) : update w sync name key ops ≠ .ok packet := by
  cases key <;>
    simp [update, Request.array, h, bind, Except.bind, Except.mapError]

theorem upsert_eq_send {space : String} {tuple : Except String Encoded} {ops : Update}
    {items : List Bytes} (h : ops.intoOps = .ok items) :
    upsert w sync space tuple ops =
      send w Request.upsert sync none (upsertCalls space tuple items) := by
  simp only [upsert, send, upsertCalls, run, List.foldlM_cons, List.foldlM_nil, Call.apply, h,
    Except.mapError, bind, Except.bind, pure, Except.pure]
  cases (((Request.new w (.ofNat Iproto.Request.upsert) sync none).str w (named Key.spaceName)
    space).uint w (named Key.indexBase) 1).serialized w (named Key.tuple)
      (tuple.map Encoded.bytes) true with
  | error err => rfl
  | ok request =>
      simp only [Request.rawArray]
      split <;> rfl

theorem upsert_not_ok {space : String} {tuple : Except String Encoded} {ops : Update}
    {err : Error} (h : ops.intoOps = .error err) (packet : Bytes) :
    upsert w sync space tuple ops ≠ .ok packet := by
  intro hok
  rw [upsert, Msgpack.bind_ok] at hok
  obtain ⟨request, -, hok⟩ := hok
  rw [h] at hok
  cases hok

theorem update_delivers (hw : w.Lawful) {space : String}
    (hspace : (asBytes space).length < 2 ^ 32) (key : ArrayLike) (pushed : List Pushed) :
    Delivers (update w sync space key.encodeArray (Update.ofPushed pushed)) sync none
      (do return .update (asBytes space) (.id 0) 1 (← key.items) (← opItems pushed)) := by
  cases hops : (Update.ofPushed pushed).intoOps with
  | error err =>
      have hnone : opItems pushed = none := by
        rcases opItems_cases pushed with ⟨ops, hok, -⟩ | ⟨hnone, -⟩
        · cases hok.symm.trans hops
        · exact hnone
      rw [hnone]
      cases key.items <;> exact .refused (update_not_ok hops)
  | ok ops =>
      rw [update_eq_send hops]
      unfold updateCalls
      rcases key.encodeArray_cases with
        ⟨items, bytes, hitems, hencode, hencodes⟩ | ⟨hitems, err, hencode⟩
      · rw [hitems, hencode]
        rcases opItems_cases pushed with ⟨ops', hok, hshort, heach, hsome⟩ | ⟨hnone, hlong⟩
        · obtain rfl := Except.ok.inj (hops.symm.trans hok)
          rw [hsome]
          refine .accepted hw (by decide) (.cons (.str _ hspace) (.cons (.uint _ _)
            (.cons (.uint _ _) (.cons (.array _ hencodes) (.cons (.rawArray _ heach) .nil))))) ?_
            (by simp) rfl
          simpa [Call.Accepted] using hshort
        · rw [hnone]
          exact .unaccepted (.rawArray (.ofNat Key.tuple) ops) (by simp) (hlong ops hops)
      · rw [hitems, hencode]
        exact .unaccepted (.array (.ofNat Key.key) (.error err)) (by simp)
          (not_accepted_array _ err)

theorem upsert_delivers (hw : w.Lawful) {space : String}
    (hspace : (asBytes space).length < 2 ^ 32) (tuple : Except String Encoded)
    (pushed : List Pushed) :
    Delivers (upsert w sync space tuple (Update.ofPushed pushed)) sync none
      (do return .upsert (asBytes space) 1 (← tupleItems tuple) (← opItems pushed)) := by
  cases hops : (Update.ofPushed pushed).intoOps with
  | error err =>
      have hnone : opItems pushed = none := by
        rcases opItems_cases pushed with ⟨ops, hok, -⟩ | ⟨hnone, -⟩
        · cases hok.symm.trans hops
        · exact hnone
      rw [hnone]
      cases tupleItems tuple <;> exact .refused (upsert_not_ok hops)
  | ok ops =>
      rw [upsert_eq_send hops]
      unfold upsertCalls
      rcases tupleItems_cases (named Key.tuple) tuple with
        ⟨items, bytes, hitems, hbytes, hencodes, hmarker⟩ | ⟨hitems, hrefused⟩
      · rw [hitems, hbytes]
        rcases opItems_cases pushed with ⟨ops', hok, hshort, heach, hsome⟩ | ⟨hnone, hlong⟩
        · obtain rfl := Except.ok.inj (hops.symm.trans hok)
          rw [hsome]
          refine .accepted hw (by decide) (.cons (.str _ hspace) (.cons (.uint _ _)
            (.cons (.serialized _ true hencodes) (.cons (.rawArray _ heach) .nil)))) ?_
            (by simp) rfl
          simpa [Call.Accepted, hmarker] using hshort
        · rw [hnone]
          exact .unaccepted (.rawArray (named Key.ops) ops) (by simp) (hlong ops hops)
      · rw [hitems]
        exact .unaccepted _ (by simp) hrefused

/-! ## Selects -/

theorem toMsgpackArray_cases (output : Except String Encoded) :
    (∃ items bytes, tupleItems output = some items ∧ toMsgpackArray output = .ok bytes ∧
      Encodes [.array items] bytes) ∨
    tupleItems output = none ∧ ∃ err, toMsgpackArray output = .error err := by
  cases output with
  | error reason => exact .inr ⟨rfl, _, rfl⟩
  | ok encoded =>
      obtain ⟨value, bytes, hencodes⟩ := encoded
      have hmarker := isArrayMarker_iff hencodes
      cases value with
      | array items =>
          exact .inl ⟨items, bytes, rfl, if_pos (hmarker.mpr ⟨items, rfl⟩), hencodes⟩
      | _ =>
          refine .inr ⟨rfl, .encode notAnArray, if_neg fun h => ?_⟩
          obtain ⟨items, hitems⟩ := hmarker.mp h
          cases hitems

def Selection.asked (this : Selection) (key : List Value) (after : List (UInt8 × Value)) :
    List (UInt8 × Value) :=
  [(named Key.spaceName, .ofString this.space)] ++
    [match this.index with
      | .id n => (named Key.indexId, .integer n.toNat)
      | .name name => (named Key.indexName, .ofString name)] ++
    [(named Key.iterator, .integer this.iter.code)] ++
    (if 0 < this.offset then [(named Key.offset, .integer this.offset.toNat)] else []) ++
    [(named Key.limit, .integer ((this.limit.map UInt64.toNat).getD (2 ^ 32 - 1)))] ++
    [(named Key.key, .array key)] ++ after ++
    (if this.fetchPosition then [(named Key.fetchPosition, .boolean true)] else [])

theorem select_reads (this : Selection) (key : List Value) {after : List (UInt8 × Value)}
    {cursor : Option Cursor}
    (hafter : (after = [] ∧ cursor = none) ∨
      (∃ name, after = [(named Key.afterPosition, .ofString name)] ∧
        cursor = some (.position (asBytes name))) ∨
      ∃ items, after = [(named Key.afterTuple, .array items)] ∧ cursor = some (.tuple items)) :
    Operation.read Request.select ((this.asked key after).map entry) =
      some (.select (asBytes this.space) this.index.target key this.iter.code this.offset.toNat
        ((this.limit.map UInt64.toNat).getD (2 ^ 32 - 1)) cursor this.fetchPosition) := by
  obtain ⟨space, index, key', iter, limit, offset, after', fetchPosition⟩ := this
  have hzero (h : ¬ 0 < offset) : offset.toNat = 0 := by
    rw [UInt64.lt_iff_toNat_lt] at h
    exact Nat.eq_zero_of_not_pos h
  rcases hafter with ⟨rfl, rfl⟩ | ⟨name, rfl, rfl⟩ | ⟨items, rfl, rfl⟩
  all_goals
    by_cases hoffset : 0 < offset
    · simp only [Selection.asked, if_pos hoffset]
      cases index <;> cases fetchPosition <;> rfl
    · simp only [Selection.asked, if_neg hoffset, hzero hoffset]
      cases index <;> cases fetchPosition <;> rfl

def Selection.callsWith (this : Selection) (key : Bytes) (after : List Call) : List Call :=
  [Call.str (named Key.spaceName) this.space] ++
    [match this.index with
      | .id id => Call.uint (named Key.indexId) id
      | .name name => Call.str (named Key.indexName) name] ++
    [Call.uint (named Key.iterator) (.ofNat this.iter.code)] ++
    (if 0 < this.offset then [Call.uint (named Key.offset) this.offset] else []) ++
    [Call.uint (named Key.limit) (this.limit.getD (.ofNat (2 ^ 32 - 1)))] ++
    [Call.raw (named Key.key) key] ++ after ++
    (if this.fetchPosition then [Call.bool (named Key.fetchPosition) true] else [])

theorem select_eq_send (this : Selection) {key : Bytes} (hkey : this.key.encodeArray = .ok key)
    {after : List Call}
    (hafter : (this.after = none ∧ after = []) ∨
      (∃ name, this.after = some (.position name) ∧
        after = [.str (named Key.afterPosition) name]) ∨
      ∃ output bytes, this.after = some (.tuple output) ∧ toMsgpackArray output = .ok bytes ∧
        after = [.raw (named Key.afterTuple) bytes]) :
    this.select.build w sync =
      send w Request.select sync none (this.callsWith key after) := by
  rw [Select.build_eq]
  have hcalls : this.select.calls = .ok (this.callsWith key after) := by
    rcases hafter with ⟨hnone, rfl⟩ | ⟨name, hsome, rfl⟩ | ⟨output, bytes, hsome, hbytes, rfl⟩
    · simp only [Select.calls, Selection.select, hkey, hnone, Option.map_none]
      rfl
    · simp only [Select.calls, Selection.select, hkey, hsome, Option.map_some]
      rfl
    · simp only [Select.calls, Selection.select, hkey, hsome, Option.map_some, After.call, hbytes]
      rfl
  rw [hcalls]
  rfl

theorem select_not_ok (this : Selection)
    (h : (∃ err, this.key.encodeArray = .error err) ∨
      ∃ output err, this.after = some (.tuple output) ∧ toMsgpackArray output = .error err)
    (packet : Bytes) : this.select.build w sync ≠ .ok packet := by
  rw [Select.build_eq]
  have hcalls : ∃ err, this.select.calls = .error err := by
    rcases h with ⟨err, hkey⟩ | ⟨output, err, hsome, herror⟩
    · exact ⟨err, by simp only [Select.calls, Selection.select, hkey]; rfl⟩
    · cases hkey : this.key.encodeArray with
      | error err => exact ⟨err, by simp only [Select.calls, Selection.select, hkey]; rfl⟩
      | ok key =>
          refine ⟨err, ?_⟩
          simp only [Select.calls, Selection.select, hkey, hsome, Option.map_some, After.call,
            herror]
          rfl
  obtain ⟨err, hcalls⟩ := hcalls
  rw [hcalls]
  intro hok
  cases hok

theorem select_asks (this : Selection) (htexts : ∀ s ∈ (Method.select this).texts,
    (asBytes s).length < 2 ^ 32) {items : List Value} {key : Bytes}
    (hkey : Encodes [.array items] key) {after : List Call} {asked : List (UInt8 × Value)}
    (hafter : List.Forall₂ Call.Asks after asked) :
    List.Forall₂ Call.Asks (this.callsWith key after) (this.asked items asked) := by
  have hiter : (UInt64.ofNat this.iter.code).toNat = this.iter.code := by
    cases this.iter <;> rfl
  have hlimit : (this.limit.getD (.ofNat (2 ^ 32 - 1))).toNat =
      (this.limit.map UInt64.toNat).getD (2 ^ 32 - 1) := by
    cases this.limit <;> rfl
  obtain ⟨space, index, key', iter, limit, offset, after', fetchPosition⟩ := this
  unfold Selection.callsWith Selection.asked
  refine List.rel_append (List.rel_append (List.rel_append (List.rel_append (List.rel_append
    (List.rel_append (List.rel_append ?space ?index) ?iter) ?offset) ?limit) ?key) hafter) ?fetch
  case space => exact .cons (.str _ (htexts _ (by simp [Method.texts]))) .nil
  case index =>
    cases index with
    | id n => exact .cons (.uint _ _) .nil
    | name name => exact .cons (.str _ (htexts _ (by simp [Method.texts]))) .nil
  case iter =>
    have hasks := Call.Asks.uint (named Key.iterator) (.ofNat iter.code)
    rw [hiter] at hasks
    exact .cons hasks .nil
  case offset =>
    split
    · exact .cons (.uint _ _) .nil
    · exact .nil
  case limit =>
    have hasks := Call.Asks.uint (named Key.limit) (limit.getD (.ofNat (2 ^ 32 - 1)))
    rw [hlimit] at hasks
    exact .cons hasks .nil
  case key => exact .cons (.raw _ hkey) .nil
  case fetch =>
    split
    · exact .cons (.bool _ _) .nil
    · exact .nil

theorem select_accepted (this : Selection) (key : Bytes) {after : List Call}
    (hafter : ∀ call ∈ after, call.Accepted) :
    ∀ call ∈ this.callsWith key after, call.Accepted := by
  obtain ⟨space, index, key', iter, limit, offset, after', fetchPosition⟩ := this
  simp only [Selection.callsWith, List.forall_mem_append, List.forall_mem_singleton]
  refine ⟨⟨⟨⟨⟨⟨⟨trivial, ?index⟩, trivial⟩, ?offset⟩, trivial⟩, trivial⟩, hafter⟩, ?fetch⟩
  case index => cases index <;> trivial
  case offset =>
    split
    · exact List.forall_mem_singleton.mpr trivial
    · exact List.forall_mem_nil _
  case fetch =>
    split
    · exact List.forall_mem_singleton.mpr trivial
    · exact List.forall_mem_nil _

theorem select_length (this : Selection) (key : Bytes) (after : List Call) :
    (this.callsWith key after).length ≤ after.length + 7 := by
  unfold Selection.callsWith
  split_ifs <;> simp

theorem select_delivers (hw : w.Lawful) (selection : Selection)
    (htexts : ∀ s ∈ (Method.select selection).texts, (asBytes s).length < 2 ^ 32) :
    Delivers (selection.select.build w sync) sync none selection.operation := by
  unfold Selection.operation
  rcases selection.key.encodeArray_cases with
    ⟨items, key, hitems, hencode, hkey⟩ | ⟨hitems, err, hencode⟩
  · rw [hitems]
    -- with the calls and the entries of its cursor
    have hwith (after : List Call) {asked : List (UInt8 × Value)} {cursor : Option Cursor}
        (hbuilt : selection.select.build w sync =
          send w Request.select sync none (selection.callsWith key after))
        (hasks : List.Forall₂ Call.Asks after asked) (haccepted : ∀ call ∈ after, call.Accepted)
        (hlength : after.length ≤ 1) (hcursor : selection.cursor = some cursor)
        (hread : (asked = [] ∧ cursor = none) ∨
          (∃ name, asked = [(named Key.afterPosition, .ofString name)] ∧
            cursor = some (.position (asBytes name))) ∨
          ∃ items, asked = [(named Key.afterTuple, .array items)] ∧
            cursor = some (.tuple items)) :
        Delivers (selection.select.build w sync) sync none (do
          let after ← selection.cursor
          return .select (asBytes selection.space) selection.index.target items selection.iter.code
            selection.offset.toNat ((selection.limit.map UInt64.toNat).getD (2 ^ 32 - 1)) after
            selection.fetchPosition) := by
      rw [hbuilt, hcursor]
      refine .accepted hw (by decide) (select_asks selection htexts hkey hasks)
        (select_accepted selection key haccepted) ?_ (select_reads selection items hread)
      have hle := select_length selection key after
      omega
    cases hafter : selection.after with
    | none =>
        refine hwith [] (select_eq_send selection hencode (.inl ⟨hafter, rfl⟩)) .nil
          (List.forall_mem_nil _) (by simp) ?_ (.inl ⟨rfl, rfl⟩)
        rw [Selection.cursor, hafter]
    | some resume =>
        cases resume with
        | position name =>
            have hname : (asBytes name).length < 2 ^ 32 :=
              htexts name (by simp [Method.texts, hafter])
            refine hwith _ (select_eq_send selection hencode (.inr (.inl ⟨name, hafter, rfl⟩)))
              (.cons (.str _ hname) .nil) (List.forall_mem_singleton.mpr trivial) (by simp) ?_
              (.inr (.inl ⟨name, rfl, rfl⟩))
            rw [Selection.cursor, hafter]
            rfl
        | tuple output =>
            rcases toMsgpackArray_cases output with
              ⟨rows, bytes, hrows, hbytes, hencodes⟩ | ⟨hrows, err, herror⟩
            · refine hwith _ (select_eq_send selection hencode
                (.inr (.inr ⟨output, bytes, hafter, hbytes, rfl⟩)))
                (.cons (.raw _ hencodes) .nil) (List.forall_mem_singleton.mpr trivial) (by simp) ?_
                (.inr (.inr ⟨rows, rfl, rfl⟩))
              rw [Selection.cursor, hafter]
              simp [Resume.cursor, hrows]
            · have hnone : selection.cursor = none := by
                rw [Selection.cursor, hafter]
                simp [Resume.cursor, hrows]
              rw [hnone]
              exact .refused (select_not_ok selection (.inr ⟨output, err, hafter, herror⟩))
  · rw [hitems]
    exact .refused (select_not_ok selection (.inl ⟨err, hencode⟩))

/-! ## Packets of the connection -/

theorem buildPacket_onStream (ty : Nat) (stream : UInt64) (body : List (Nat × Field)) :
    buildPacket w (Method.onStream ty stream sync body) =
      send w ty sync (some stream) (body.map fun (k, field) => fieldCall k field) := by
  simp [buildPacket, Method.onStream]

theorem begin_delivers (hw : w.Lawful) (stream : UInt64) (options : TxOptions) :
    Delivers (buildPacket w (Method.onStream Request.begin stream sync options.body)) sync
      (some stream)
      (some (.begin options.isolation.code options.timeout options.synchronous)) := by
  rw [buildPacket_onStream]
  obtain ⟨isolation, timeout, synchronous⟩ := options
  have hasks : List.Forall₂ Call.Asks
      ((TxOptions.body ⟨isolation, timeout, synchronous⟩).map fun (k, field) => fieldCall k field)
      ((if isolation = .default then [] else
          [(named Key.txnIsolation, .integer isolation.code)]) ++
        (timeout.toList.map fun seconds => (named Key.timeout, .f64 seconds)) ++
        (if synchronous then [(named Key.isSync, .boolean true)] else [])) := by
    rw [TxOptions.body, List.map_append, List.map_append]
    refine List.rel_append (List.rel_append ?isolation ?timeout) ?sync
    case isolation => cases isolation <;> first | exact .nil | exact .cons (.uint _ _) .nil
    case timeout => cases timeout <;> first | exact .nil | exact .cons (.f64 _ _) .nil
    case sync => cases synchronous <;> first | exact .nil | exact .cons (.bool _ _) .nil
  refine .accepted hw (by decide) hasks ?_ ?_ ?_
  · cases isolation <;> cases timeout <;> cases synchronous <;>
      simp [TxOptions.body, fieldCall, Call.Accepted]
  · cases isolation <;> cases timeout <;> cases synchronous <;> simp [TxOptions.body]
  · cases isolation <;> cases timeout <;> cases synchronous <;> rfl

theorem bare_delivers (hw : w.Lawful) {ty : Nat} (hty : ty < 2 ^ 64) (stream : UInt64)
    {op : Operation} (hread : Operation.read ty [] = some op) :
    Delivers (buildPacket w (Method.onStream ty stream sync [])) sync (some stream) (some op) := by
  rw [buildPacket_onStream]
  exact .accepted hw hty .nil (List.forall_mem_nil _) (by simp) hread

theorem prepare_delivers (hw : w.Lawful) {sql : String} (hsql : (asBytes sql).length < 2 ^ 32) :
    Delivers (buildPacket w (Sql.sendPrepare sync.toNat sql)) sync none
      (some (.prepare (asBytes sql))) := by
  have hsend : buildPacket w (Sql.sendPrepare sync.toNat sql) =
      send w Request.prepare sync none [.str (named Key.sqlText) sql] := by
    simp [buildPacket, Sql.sendPrepare, fieldCall]
  rw [hsend]
  exact .accepted hw (by decide) (.cons (.str _ hsql) .nil) (by simp [Call.Accepted]) (by simp) rfl

theorem unprepare_delivers (hw : w.Lawful) (statement : Sql.Statement)
    (hid : statement.id < 2 ^ 64) :
    Delivers (buildPacket w (statement.unpreparePacket sync.toNat)) sync none
      (some (.unprepare statement.id)) := by
  have hsend : buildPacket w (statement.unpreparePacket sync.toNat) =
      send w Request.prepare sync none [.uint (named Key.stmtId) (.ofNat statement.id)] := by
    simp [buildPacket, Sql.Statement.unpreparePacket, fieldCall]
  have hasks := Call.Asks.uint (named Key.stmtId) (.ofNat statement.id)
  rw [UInt64.toNat_ofNat_of_lt' hid] at hasks
  rw [hsend]
  exact .accepted hw (by decide) (.cons hasks .nil) (by simp [Call.Accepted]) (by simp) rfl

theorem execute_delivers (hw : w.Lawful) (stream : Option UInt64) (statement : Sql.Statement)
    (hid : statement.id < 2 ^ 64) (params : ArrayLike) :
    Delivers (executePrepared w sync stream statement params) sync stream
      (params.items.map (.execute statement.id)) := by
  have hasks := Call.Asks.uint (named Key.stmtId) (.ofNat statement.id)
  rw [UInt64.toNat_ofNat_of_lt' hid] at hasks
  unfold executePrepared
  rcases params.encodeArray_cases with
    ⟨items, bytes, hitems, hencode, hencodes⟩ | ⟨hitems, err, hencode⟩
  · have hsend : buildPacket w (statement.send sync.toNat (stream.map UInt64.toNat) bytes) =
        send w Request.execute sync stream
          [.uint (named Key.stmtId) (.ofNat statement.id), .raw (named Key.sqlBind) bytes] := by
      simp [buildPacket, Sql.Statement.send, fieldCall, Function.comp_def]
    rw [hitems, hencode]
    change Delivers (buildPacket w (statement.send sync.toNat (stream.map UInt64.toNat) bytes))
      sync stream (some (.execute statement.id items))
    rw [hsend]
    exact .accepted hw (by decide) (.cons hasks (.cons (.raw _ hencodes) .nil))
      (by simp [Call.Accepted]) (by simp) rfl
  · rw [hitems, hencode]
    exact .refused fun _ hok => by cases hok

/-! ## Main result -/

theorem Method.operation_of_sendable {m : Method} {op : Operation}
    (h : m.sendable negotiated = some op) : m.operation = some op := by
  unfold Method.sendable at h
  split at h
  · exact h
  · exact (Option.ite_none_right_eq_some.mp h).2

theorem method_delivers (hw : w.Lawful) (m : Method) (hfits : m.Fits) :
    Delivers (m.packet w negotiated sync) sync m.stream (m.sendable negotiated) := by
  have htexts := hfits.texts
  cases m with
  | call stream name args =>
      exact invoke_delivers hw (htexts name (by simp [Method.texts])) args (by decide) fun _ => rfl
  | eval stream expr args =>
      exact invoke_delivers hw (htexts expr (by simp [Method.texts])) args (by decide) fun _ => rfl
  | ping => exact .accepted hw (by decide) .nil (List.forall_mem_nil _) (by simp) rfl
  | watchOnce key =>
      refine Delivers.gated ?_ .watchOnce
      exact .accepted hw (by decide) (.cons (.str _ (htexts key (by simp [Method.texts]))) .nil)
        (by simp [Call.Accepted]) (by simp) rfl
  | insert space tuple =>
      exact write_delivers hw (htexts space (by simp [Method.texts])) tuple (by decide) fun _ => rfl
  | replace space tuple =>
      exact write_delivers hw (htexts space (by simp [Method.texts])) tuple (by decide) fun _ => rfl
  | insertArrow space ipc =>
      exact (insertArrow_delivers hw (htexts space (by simp [Method.texts])) ipc).gated .insertArrow
  | get space key =>
      refine select_delivers hw (Selection.get space key) fun s hs => htexts s ?_
      simpa [Method.texts, Selection.get, Selection.ofSpace, Selection.iterator,
        Selection.setLimit] using hs
  | select selection => exact select_delivers hw selection htexts
  | delete space key => exact delete_delivers hw (htexts space (by simp [Method.texts])) key
  | update space key pushed =>
      exact update_delivers hw (htexts space (by simp [Method.texts])) key pushed
  | upsert space tuple pushed =>
      exact upsert_delivers hw (htexts space (by simp [Method.texts])) tuple pushed
  | begin stream options =>
      exact (begin_delivers hw stream options).gated (.begin options.synchronous)
  | commit stream => exact bare_delivers hw (by decide) stream rfl
  | rollback stream => exact bare_delivers hw (by decide) stream rfl
  | runText stream sql params =>
      exact invoke_delivers hw (htexts sql (by simp [Method.texts])) params (by decide) fun _ => rfl
  | prepare sql => exact prepare_delivers hw (htexts sql (by simp [Method.texts]))
  | execute stream statement params =>
      exact execute_delivers hw stream statement (hfits.id statement rfl) params
  | unprepare statement =>
      exact unprepare_delivers hw statement (hfits.id statement rfl)

theorem opItems_eq {pushed : List Pushed} {items : List Value} (h : opItems pushed = some items) :
    items = (pushed.map Pushed.op).map fun op => .array op.tuple := by
  unfold opItems at h
  split at h
  · rw [← Option.some.inj h, List.map_map]
    rfl
  · contradiction

theorem Method.operation_ops {m : Method} {op : Operation} (h : m.operation = some op) :
    op.ops = m.ops.map fun op => .array op.tuple := by
  cases m with
  | update space key pushed =>
      obtain ⟨key', -, h⟩ := Option.bind_eq_some_iff.mp h
      obtain ⟨items, hitems, h⟩ := Option.bind_eq_some_iff.mp h
      obtain rfl := Option.some.inj h
      exact opItems_eq hitems
  | upsert space tuple pushed =>
      obtain ⟨tuple', -, h⟩ := Option.bind_eq_some_iff.mp h
      obtain ⟨items, hitems, h⟩ := Option.bind_eq_some_iff.mp h
      obtain rfl := Option.some.inj h
      exact opItems_eq hitems
  | get | select =>
      obtain ⟨key, -, h⟩ := Option.bind_eq_some_iff.mp h
      obtain ⟨after, -, h⟩ := Option.bind_eq_some_iff.mp h
      obtain rfl := Option.some.inj h
      rfl
  | insertArrow =>
      obtain rfl := Option.some.inj (Option.ite_none_right_eq_some.mp h).2
      rfl
  | call | eval | insert | replace | delete | runText | execute =>
      obtain ⟨items, -, rfl⟩ := Option.map_eq_some_iff.mp h
      rfl
  | _ =>
      obtain rfl := Option.some.inj h
      rfl

theorem Method.ops_injective {m m' : Method} {op : Operation} (h : m.operation = some op)
    (h' : m'.operation = some op) : m.ops = m'.ops := by
  have htuples := (Method.operation_ops h).symm.trans (Method.operation_ops h')
  refine List.map_injective_iff.mpr (fun op op' htuple => ?_) htuples
  exact Op.tuple_injective (Value.array.inj htuple)

theorem Method.packet_unsupported {m : Method} {gate : Gated} (hgate : m.gate = some gate)
    (hmissing : ¬ gate.Announced negotiated) :
    ∃ reason, m.packet w negotiated sync = .error (.failed (.unsupported reason)) := by
  cases m <;> simp only [Method.gate, Option.some.injEq, reduceCtorEq] at hgate
  all_goals
    subst hgate
    exact gated_unsupported hmissing _

/--
There is a packet for a request exactly when the server announced the features it
needs and its arguments serialize (a tuple to an array).  A server reads it as the
operation that was asked for, on the caller's arguments, with the sync and the stream
of the request; requests that differ in any of these have different packets, whatever
widths the writers take.  Without its features a request is `Unsupported`.
-/
theorem request_reaches_server (hw : w.Lawful) (m : Method) (hfits : m.Fits) :
    Delivers (m.packet w negotiated sync) sync m.stream (m.sendable negotiated) ∧
    (∀ gate, m.gate = some gate → ¬ gate.Announced negotiated →
      ∃ reason, m.packet w negotiated sync = .error (.failed (.unsupported reason))) ∧
    ∀ (w' : Writer), w'.Lawful → ∀ (m' : Method), m'.Fits →
      ∀ (negotiated' : Negotiated) (sync' : UInt64) (packet : Bytes),
      m.packet w negotiated sync = .ok packet → m'.packet w' negotiated' sync' = .ok packet →
        sync = sync' ∧ m.stream = m'.stream ∧ m.operation = m'.operation ∧ m.ops = m'.ops := by
  have hdelivers : Delivers (m.packet w negotiated sync) sync m.stream (m.sendable negotiated) :=
    method_delivers hw m hfits
  refine ⟨hdelivers, fun gate => Method.packet_unsupported, ?_⟩
  intro w' hw' m' hfits' negotiated' sync' packet hpacket hpacket'
  obtain ⟨op, hop, hreads⟩ := hdelivers.reads packet hpacket
  obtain ⟨op', hop', hreads'⟩ := (method_delivers hw' m' hfits').reads packet hpacket'
  obtain ⟨hsync, hstream, rfl⟩ := hreads.unique hreads'
  have hsent := Method.operation_of_sendable hop
  have hsent' := Method.operation_of_sendable hop'
  refine ⟨UInt64.toNat_inj.mp hsync, ?_, hsent.trans hsent'.symm,
    Method.ops_injective hsent hsent'⟩
  exact Option.map_injective (fun _ _ h => UInt64.toNat_inj.mp h) hstream

theorem sampleOp_encodes : Encodes [.array (Op.add (.number 3) (.integer 1)).tuple]
    [0x93, 0xa1, 0x2b, 0x03, 0x01] := by
  have hsign : Encodes [.string [0x2b]] [0xa1, 0x2b] := Wire.Scalar.encodes (.fixstr (by decide))
  have hfield : Encodes [.integer 3] [0x03] := Wire.Scalar.encodes (.posFixint (by decide))
  have hdelta : Encodes [.integer 1] [0x01] := Wire.Scalar.encodes (.posFixint (by decide))
  have hwhole : Encodes [.array [.string [0x2b], .integer 3, .integer 1]]
      ([0x93] ++ ([0xa1, 0x2b] ++ ([0x03] ++ [0x01])) ++ []) :=
    .array (.fix (by decide)) (hsign.append (hfield.append hdelta)) .done
  have htuple : (Op.add (.number 3) (.integer 1)).tuple =
      [.string [0x2b], .integer 3, .integer 1] := by
    have htext : Value.ofString "+" = .string [0x2b] := congrArg Value.string (by decide +kernel)
    rw [Op.tuple, htext]
    rfl
  rw [htuple]
  exact hwhole

def sampleMethod : Method :=
  .update "users" (.scalar (.ok ⟨.integer 7, [0x07], Wire.Scalar.encodes (.posFixint (by decide))⟩))
    [⟨.add (.number 3) (.integer 1), .ok ⟨_, sampleOp_encodes⟩⟩]

theorem request_reaches_server_sample :
    ∃ packet, sampleMethod.packet compactWriter ⟨"", 0, ∅⟩ 9 = .ok packet ∧
      Reads packet 9 none (.update (asBytes "users") (.id 0) 1 [.integer 7]
        [.array (Op.add (.number 3) (.integer 1)).tuple]) := by
  have hfits : sampleMethod.Fits := by
    constructor
    · intro s hs
      obtain rfl : s = "users" := by simpa [sampleMethod, Method.texts] using hs
      decide +kernel
    · intro statement hstatement
      cases hstatement
  have hdelivers : Delivers (sampleMethod.packet compactWriter ⟨"", 0, ∅⟩ 9) 9 none
      sampleMethod.operation :=
    (request_reaches_server compactWriter_lawful sampleMethod hfits).1
  obtain ⟨packet, hpacket⟩ := hdelivers.sends rfl
  obtain ⟨op, hop, hreads⟩ := hdelivers.reads packet hpacket
  obtain rfl := Option.some.inj hop
  exact ⟨packet, hpacket, hreads⟩

end Tarant.Building
