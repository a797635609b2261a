import Tarant.Foundation.Transition
import Tarant.Connection.System

/-!
# Prepared statements

`Statement` of `sql.rs` and the session it shares with every other statement of
the connection.  `run` is cut at its awaits; requests go through
`Handle::request`, which either gives the reply to the packet that was sent or
an error of its own, and which a caller may stop waiting for.  The server
processes the packets in any order, and may never see one.

The server keeps a set of live statement ids, and the id of a statement is
determined by its text.  Two statements of one text therefore share an id that
each of them releases on its own.
-/

namespace Tarant.Sql

open Foundation
open Iproto
open Connection (Packet Field syncOf)

/-! ## The statement -/

structure Column where
  name : String
  typeName : String
  collation : Option String
  nullable : Option Bool
  autoincrement : Option Bool
  span : Option String

/-- Decode an `IPROTO_METADATA` or `IPROTO_BIND_METADATA` array.  `fromSlice` is
`rmp_serde::from_slice` at a list of maps. -/
def columns (fromSlice : Bytes → Except String (List (List (Nat × Value)))) :
    Option Bytes → Except Error (List Column)
  | none => .ok []
  | some bytes =>
      match fromSlice bytes with
      | .error reason => .error (.decode reason)
      | .ok entries => .ok (entries.map fun entry =>
          { name := ((entry.lookup Sql.fieldName).bind Value.asStr).getD ""
            typeName := ((entry.lookup Sql.fieldType).bind Value.asStr).getD ""
            collation := (entry.lookup Sql.fieldColl).bind Value.asStr
            nullable := (entry.lookup Sql.fieldIsNullable).bind Value.asBool
            autoincrement := (entry.lookup Sql.fieldIsAutoincrement).bind Value.asBool
            span := (entry.lookup Sql.fieldSpan).bind Value.asStr })

/-- A statement the server parsed once.  One that is dropped or unprepared leaves
the state, so `released` needs no field. -/
structure Statement where
  sql : String
  id : Nat
  columns : List Column
  parameters : List Column
  parameterCount : Nat

def sendPrepare (sync : Nat) (sql : String) : Packet :=
  ⟨Request.prepare, sync, none, [(Key.sqlText, .str sql)]⟩

def statementId (response : Response) : Except Error Nat :=
  match response.stmtId with
  | some id => .ok id
  | none => .error (.protocol "PREPARE reply carries no statement id")

def requestResult (response : Response) : Except Error Response :=
  match response.kind with
  | .error => .error (.server response.intoError)
  | _ => .ok response

namespace Statement

def ofReply (fromSlice : Bytes → Except String (List (List (Nat × Value)))) (sql : String)
    (response : Response) : Except Error Statement := do
  let columns ← Sql.columns fromSlice response.metadataBytes
  let parameters ← Sql.columns fromSlice response.bindMetadataBytes
  let id ← statementId response
  .ok { sql, id, columns, parameters, parameterCount := response.bindCount.getD 0 }

def send (this : Statement) (sync : Nat) (stream : Option Nat) (bind : Bytes) : Packet :=
  ⟨Request.execute, sync, stream, [(Key.stmtId, .uint this.id), (Key.sqlBind, .raw bind)]⟩

def unpreparePacket (this : Statement) (sync : Nat) : Packet :=
  ⟨Request.prepare, sync, none, [(Key.stmtId, .uint this.id)]⟩

inductive Point where
  | execute
  | prepare
  | retry
  deriving DecidableEq, Repr

inductive Next where
  | await (point : Point) (packet : Packet)
  | ret (result : Except Error Response)

/-- `run` from one await to the next. -/
def resume (this : Statement) (sync : Nat) (stream : Option Nat) (bind : Bytes) :
    Point → Except Error Response → Statement × Next
  | .execute, .error (.server err) =>
      if err.code = ErrorCode.wrongQueryId then
        (this, .await .prepare (sendPrepare sync this.sql))
      else (this, .ret (.error (.server err)))
  | .execute, other => (this, .ret other)
  | .prepare, .error err => (this, .ret (.error err))
  | .prepare, .ok fresh =>
      match statementId fresh with
      | .error err => (this, .ret (.error err))
      | .ok id =>
          let this := { this with id }
          (this, .await .retry (this.send sync stream bind))
  | .retry, other => (this, .ret other)

end Statement

/-! ## The server -/

def sqlText (packet : Packet) : Option String :=
  packet.body.findSome? fun
    | (k, .str text) => if k = Key.sqlText then some text else none
    | _ => none

def stmtId (packet : Packet) : Option Nat :=
  packet.body.findSome? fun
    | (k, .uint id) => if k = Key.stmtId then some id else none
    | _ => none

def wrongQueryId (response : Response) : Bool :=
  decide (response.kind = .error) &&
    decide (response.intoError.code = ErrorCode.wrongQueryId)

def releasedBy (packet : Packet) : Option Nat :=
  if packet.ty = Request.prepare ∧ (sqlText packet).isNone then stmtId packet else none

def process (idOf : String → Nat) (live : Finset Nat) (packet : Packet)
    (response : Response) : Option (Finset Nat) :=
  if packet.ty = Request.prepare then
    match sqlText packet, stmtId packet with
    | some text, _ =>
        if response.kind = .ok ∧ response.stmtId = some (idOf text) then
          some (insert (idOf text) live)
        else none
    | none, some id => some (live.erase id)
    | none, none => none
  else
    match stmtId packet with
    | some id => if wrongQueryId response = decide (id ∉ live) then some live else none
    | none => none

/-! ## The system -/

structure Exchange where
  packet : Packet
  reply : Option Response := none

inductive Stage where
  | awaiting (point : Statement.Point) (ticket : Nat)
  | returned (result : Except Error Response)
  | dropped

structure Run where
  statement : Nat
  stream : Option Nat
  bind : Bytes
  stage : Stage

def Run.live (run : Run) : Bool :=
  match run.stage with
  | .awaiting _ _ => true
  | _ => false

structure State where
  nextSync : Nat := 1
  nextStatement : Nat := 0
  exchanges : Nat → Option Exchange := fun _ => none
  live : Finset Nat := ∅
  /-- The text a `Statement::prepare` awaits the id of, by the ticket of its request. -/
  preparing : Nat → Option String := fun _ => none
  statements : Nat → Option Statement := fun _ => none
  runs : List Run := []

inductive Event where
  | prepare (sql : String)
  /-- `Statement::prepare` finds its reply. -/
  | prepared (ticket : Nat)
  /-- `Statement::prepare` fails without a reply, or its future is dropped. -/
  | prepareEnds (ticket : Nat)
  /-- `query` or `execute`, with parameters that encode as `bind`. -/
  | run (statement : Nat) (stream : Option Nat) (bind : Bytes)
  /-- `run` finds the reply it awaits. -/
  | resume (run : Nat)
  /-- The request `run` awaits fails without a reply: a timeout, a refusal, a close. -/
  | fail (run : Nat) (err : Error)
  /-- The future of `run` is dropped. -/
  | dropRun (run : Nat)
  | unprepare (statement : Nat)
  | drop (statement : Nat)
  /-- The server processes a packet. -/
  | serve (ticket : Nat) (response : Response)

def State.post (s : State) (packet : Nat → Packet) : State :=
  { s with
    nextSync := s.nextSync + 1
    exchanges := Function.update s.exchanges s.nextSync
      (some { packet := packet (syncOf s.nextSync) }) }

def State.borrowed (s : State) (statement : Nat) : Bool :=
  s.runs.any fun run => run.live && decide (run.statement = statement)

def State.setStatement (s : State) (id : Nat) (value : Option Statement) : State :=
  { s with statements := Function.update s.statements id value }

/-- `unprepare` and `Drop` take the statement away and send the same packet. -/
def State.release (s : State) (id : Nat) : Option State :=
  (s.statements id).bind fun statement =>
    if s.borrowed id then none
    else some ((s.post statement.unpreparePacket).setStatement id none)

def State.setRun (s : State) (index : Nat) (run : Run) : State :=
  { s with runs := s.runs.set index run }

def State.advance (s : State) (index : Nat) (run : Run) : Statement.Next → State
  | .await point packet =>
      (s.post fun _ => packet).setRun index { run with stage := .awaiting point s.nextSync }
  | .ret result => s.setRun index { run with stage := .returned result }

def State.proceed (s : State) (index : Nat) (outcome : Nat → Option (Except Error Response)) :
    Option State :=
  (s.runs[index]?).bind fun run =>
    match run.stage with
    | .awaiting point ticket =>
        (s.statements run.statement).bind fun statement =>
          (outcome ticket).map fun result =>
            let (statement, next) :=
              statement.resume (syncOf s.nextSync) run.stream run.bind point result
            (s.setStatement run.statement (some statement)).advance index run next
    | _ => none

def ownError : Error → Bool
  | .server _ => false
  | _ => true

section

variable (fromSlice : Bytes → Except String (List (List (Nat × Value)))) (idOf : String → Nat)

def step (s : State) : Event → Option State
  | .prepare sql =>
      some { s.post fun sync => sendPrepare sync sql with
        preparing := Function.update s.preparing s.nextSync (some sql) }
  | .prepared ticket =>
      (s.preparing ticket).bind fun sql =>
        ((s.exchanges ticket).bind Exchange.reply).map fun response =>
          let s := { s with preparing := Function.update s.preparing ticket none }
          match requestResult response >>= Statement.ofReply fromSlice sql with
          | .ok statement =>
              { s.setStatement s.nextStatement (some statement) with
                nextStatement := s.nextStatement + 1 }
          | .error _ => s
  | .prepareEnds ticket =>
      some { s with preparing := Function.update s.preparing ticket none }
  | .run id stream bind =>
      (s.statements id).map fun statement =>
        { s.post fun sync => statement.send sync stream bind with
          runs := s.runs ++ [⟨id, stream, bind, .awaiting .execute s.nextSync⟩] }
  | .resume index =>
      s.proceed index fun ticket =>
        ((s.exchanges ticket).bind Exchange.reply).map requestResult
  | .fail index err =>
      s.proceed index fun _ => if ownError err then some (.error err) else none
  | .dropRun index =>
      (s.runs[index]?).bind fun run =>
        if run.live then some (s.setRun index { run with stage := .dropped })
        else none
  | .unprepare id | .drop id => s.release id
  | .serve ticket response =>
      (s.exchanges ticket).bind fun exchange =>
        if exchange.reply.isSome then none
        else (process idOf s.live exchange.packet response).map fun live =>
          { s with
            live
            exchanges := Function.update s.exchanges ticket
              (some { exchange with reply := some response }) }

end

/-! ## Renewing an id -/

def State.renewing (s : State) (run : Run) : Bool :=
  match run.stage with
  | .awaiting .prepare ticket => (s.exchanges ticket).any fun exchange => exchange.reply.isSome
  | .awaiting .retry ticket => (s.exchanges ticket).any fun exchange => exchange.reply.isNone
  | _ => false

/-- The server does not process a release of the run's id between the run's
re-prepare and its retry. -/
def Undisturbed (index : Nat) (s : State) : Event → Prop
  | .serve ticket _ => ∀ run statement exchange, s.runs[index]? = some run →
      s.renewing run = true → s.statements run.statement = some statement →
      s.exchanges ticket = some exchange → releasedBy exchange.packet ≠ some statement.id
  | _ => True

/-- What is known of the request a run awaits, and of the ids then live if the run
is `calm`: not disturbed so far. -/
def Expected (idOf : String → Nat) (calm : Prop) (live : Finset Nat) (sql : String) :
    Statement.Point → Exchange → Prop
  | .execute, _ => True
  | .prepare, exchange => (∃ sync, exchange.packet = sendPrepare sync sql) ∧
      ∀ response, exchange.reply = some response →
        response.kind = .ok ∧ response.stmtId = some (idOf sql) ∧ (calm → idOf sql ∈ live)
  | .retry, exchange => exchange.packet.ty = Request.execute ∧
      stmtId exchange.packet = some (idOf sql) ∧
      match exchange.reply with
      | none => calm → idOf sql ∈ live
      | some response => calm → wrongQueryId response = false

def NextSound (idOf : String → Nat) (calm : Prop) (live : Finset Nat) (sql : String) :
    Statement.Next → Prop
  | .await point packet => Expected idOf calm live sql point { packet }
  | .ret result => calm → ∀ err, result = .error (.server err) →
      err.code ≠ ErrorCode.wrongQueryId

def RunSound (idOf : String → Nat) (calm : Prop) (s : State) (run : Run) : Prop :=
  match run.stage with
  | .awaiting point ticket => ∃ statement exchange,
      s.statements run.statement = some statement ∧ s.exchanges ticket = some exchange ∧
        Expected idOf calm s.live statement.sql point exchange
  | .returned result => calm → ∀ err, result = .error (.server err) →
      err.code ≠ ErrorCode.wrongQueryId
  | .dropped => True

structure Sound (idOf : String → Nat) (index : Nat) (s : State) : Prop where
  drawn : ∀ ticket exchange, s.exchanges ticket = some exchange → ticket < s.nextSync
  numbered : ∀ id statement, s.statements id = some statement → id < s.nextStatement
  named : ∀ id statement, s.statements id = some statement → statement.id = idOf statement.sql
  preparing : ∀ ticket sql, s.preparing ticket = some sql → ∃ exchange,
    s.exchanges ticket = some exchange ∧ (∃ sync, exchange.packet = sendPrepare sync sql) ∧
      ∀ response, exchange.reply = some response → response.stmtId = some (idOf sql)
  run : ∀ i run, s.runs[i]? = some run → RunSound idOf (i = index) s run

/-! ## What a step does -/

@[simp] theorem sendPrepare_ty (sync : Nat) (sql : String) :
    (sendPrepare sync sql).ty = Request.prepare := rfl

@[simp] theorem sqlText_sendPrepare (sync : Nat) (sql : String) :
    sqlText (sendPrepare sync sql) = some sql := rfl

namespace Statement

@[simp] theorem send_ty (this : Statement) (sync : Nat) (stream : Option Nat) (bind : Bytes) :
    (this.send sync stream bind).ty = Request.execute := rfl

@[simp] theorem stmtId_send (this : Statement) (sync : Nat) (stream : Option Nat)
    (bind : Bytes) : stmtId (this.send sync stream bind) = some this.id := rfl

inductive Resumes (this : Statement) (sync : Nat) (stream : Option Nat) (bind : Bytes) :
    Point → Except Error Response → Statement → Next → Prop where
  | renewed {err : ServerError} : err.code = ErrorCode.wrongQueryId →
      Resumes this sync stream bind .execute (.error (.server err)) this
        (.await .prepare (sendPrepare sync this.sql))
  | executed {result : Except Error Response} :
      (∀ err, result = .error (.server err) → err.code ≠ ErrorCode.wrongQueryId) →
      Resumes this sync stream bind .execute result this (.ret result)
  | refused {err : Error} :
      Resumes this sync stream bind .prepare (.error err) this (.ret (.error err))
  | unnamed {fresh : Response} {message : String} :
      Resumes this sync stream bind .prepare (.ok fresh) this
        (.ret (.error (.protocol message)))
  | prepared {fresh : Response} {id : Nat} : fresh.stmtId = some id →
      Resumes this sync stream bind .prepare (.ok fresh) { this with id }
        (.await .retry (send { this with id } sync stream bind))
  | retried {result : Except Error Response} :
      Resumes this sync stream bind .retry result this (.ret result)

theorem resumes_resume (this : Statement) (sync : Nat) (stream : Option Nat) (bind : Bytes)
    (point : Point) (result : Except Error Response) :
    Resumes this sync stream bind point result
      (this.resume sync stream bind point result).1
      (this.resume sync stream bind point result).2 := by
  unfold resume
  split
  next err =>
      split
      next h => exact .renewed h
      next h => exact .executed fun _ heq => by cases heq; exact h
  next hother => exact .executed fun err heq => (hother err heq).elim
  next => exact .refused
  next fresh =>
      unfold statementId
      cases hid : fresh.stmtId with
      | none => exact .unnamed
      | some id => exact .prepared hid
  next => exact .retried

theorem Resumes.sql_eq {this this' : Statement} {sync : Nat} {stream : Option Nat}
    {bind : Bytes} {point : Point} {result : Except Error Response} {next : Next}
    (h : Resumes this sync stream bind point result this' next) : this'.sql = this.sql := by
  cases h <;> rfl

end Statement

theorem proceed_eq_some {s s' : State} {index : Nat}
    {outcome : Nat → Option (Except Error Response)} (h : s.proceed index outcome = some s') :
    ∃ run point ticket statement result statement' next,
      s.runs[index]? = some run ∧ run.stage = .awaiting point ticket ∧
      s.statements run.statement = some statement ∧ outcome ticket = some result ∧
      statement.Resumes (syncOf s.nextSync) run.stream run.bind point result statement' next ∧
      s' = (s.setStatement run.statement (some statement')).advance index run next := by
  simp only [State.proceed, Option.bind_eq_some_iff] at h
  obtain ⟨run, hrun, h⟩ := h
  split at h
  next point ticket hstage =>
      simp only [Option.bind_eq_some_iff, Option.map_eq_some_iff] at h
      obtain ⟨statement, hstatement, result, houtcome, rfl⟩ := h
      exact ⟨run, point, ticket, statement, result, _, _, hrun, hstage, hstatement, houtcome,
        statement.resumes_resume _ _ _ _ _, rfl⟩
  · simp at h

/-! ## What a step keeps -/

section

variable {fromSlice : Bytes → Except String (List (List (Nat × Value)))}
  {idOf : String → Nat} {index : Nat} {s s' : State}

theorem RunSound.frame {calm : Prop} {run : Run} (h : RunSound idOf calm s run)
    (hstatements : run.live = true → ∀ statement, s.statements run.statement = some statement →
      ∃ statement', s'.statements run.statement = some statement' ∧
        statement'.sql = statement.sql)
    (hexchanges : ∀ ticket exchange, s.exchanges ticket = some exchange →
      s'.exchanges ticket = some exchange)
    (hlive : s'.live = s.live) : RunSound idOf calm s' run := by
  cases hstage : run.stage with
  | awaiting point ticket =>
      simp only [RunSound, hstage] at h ⊢
      obtain ⟨statement, exchange, hstatement, hexchange, hexpected⟩ := h
      obtain ⟨statement', hstatement', hsql⟩ :=
        hstatements (by simp [Run.live, hstage]) statement hstatement
      refine ⟨statement', exchange, hstatement', hexchanges _ _ hexchange, ?_⟩
      rw [hsql, hlive]
      exact hexpected
  | returned result => simpa [RunSound, hstage] using h
  | dropped => simp [RunSound, hstage]

theorem post_exchanges_of_ne {ticket : Nat} (packet : Nat → Packet) (h : ticket ≠ s.nextSync) :
    (s.post packet).exchanges ticket = s.exchanges ticket :=
  Function.update_of_ne h _ _

theorem setStatement_statements_self (id : Nat) (value : Option Statement) :
    (s.setStatement id value).statements id = value :=
  Function.update_self _ _ _

theorem setStatement_statements_of_ne {id other : Nat} (value : Option Statement)
    (h : other ≠ id) : (s.setStatement id value).statements other = s.statements other :=
  Function.update_of_ne h _ _

theorem Sound.post (h : Sound idOf index s) (packet : Nat → Packet) :
    Sound idOf index (s.post packet) := by
  have hkept : ∀ ticket exchange, s.exchanges ticket = some exchange →
      (s.post packet).exchanges ticket = some exchange := by
    intro ticket exchange hexchange
    rw [post_exchanges_of_ne packet (h.drawn ticket exchange hexchange).ne]
    exact hexchange
  constructor
  · intro ticket exchange hexchange
    change ticket < s.nextSync + 1
    by_cases hnew : ticket = s.nextSync
    · omega
    · have hold : s.exchanges ticket = some exchange := by
        rwa [post_exchanges_of_ne packet hnew] at hexchange
      exact Nat.lt_succ_of_lt (h.drawn ticket exchange hold)
  · exact h.numbered
  · exact h.named
  · intro ticket sql hsql
    obtain ⟨exchange, hexchange, hrest⟩ := h.preparing ticket sql hsql
    exact ⟨exchange, hkept _ _ hexchange, hrest⟩
  · intro i run hrun
    exact (h.run i run hrun).frame (fun _ statement hstatement => ⟨statement, hstatement, rfl⟩)
      hkept rfl

theorem Sound.setStatement (h : Sound idOf index s) {id next : Nat} {value : Option Statement}
    (hnext : s.nextStatement ≤ next)
    (hvalue : ∀ statement, value = some statement →
      id < next ∧ statement.id = idOf statement.sql)
    (hkept : ∀ run statement, run ∈ s.runs → run.live = true →
      run.statement = id → s.statements id = some statement →
      ∃ statement', value = some statement' ∧ statement'.sql = statement.sql) :
    Sound idOf index { s.setStatement id value with nextStatement := next } := by
  have hcases : ∀ id' statement, (s.setStatement id value).statements id' = some statement →
      id' = id ∧ value = some statement ∨ s.statements id' = some statement := by
    intro id' statement hstatement
    by_cases hid : id' = id
    · subst hid
      rw [setStatement_statements_self] at hstatement
      exact .inl ⟨rfl, hstatement⟩
    · rw [setStatement_statements_of_ne value hid] at hstatement
      exact .inr hstatement
  constructor
  · exact h.drawn
  · intro id' statement hstatement
    rcases hcases id' statement hstatement with ⟨rfl, hnew⟩ | hold
    · exact (hvalue statement hnew).1
    · exact Nat.lt_of_lt_of_le (h.numbered id' statement hold) hnext
  · intro id' statement hstatement
    rcases hcases id' statement hstatement with ⟨-, hnew⟩ | hold
    · exact (hvalue statement hnew).2
    · exact h.named id' statement hold
  · exact h.preparing
  · intro i run hrun
    refine (h.run i run hrun).frame ?_ (fun _ _ hexchange => hexchange) rfl
    intro hlive statement hstatement
    by_cases hid : run.statement = id
    · obtain ⟨statement', hvalue', hsql⟩ :=
        hkept run statement (List.mem_of_getElem? hrun) hlive hid (hid ▸ hstatement)
      refine ⟨statement', ?_, hsql⟩
      change (s.setStatement id value).statements run.statement = _
      rw [hid, setStatement_statements_self, hvalue']
    · refine ⟨statement, ?_, rfl⟩
      change (s.setStatement id value).statements run.statement = _
      rw [setStatement_statements_of_ne value hid, hstatement]

theorem Sound.setRun (h : Sound idOf index s) {i : Nat} {run : Run}
    (hrun : RunSound idOf (i = index) s run) : Sound idOf index (s.setRun i run) := by
  refine ⟨h.drawn, h.numbered, h.named, h.preparing, ?_⟩
  intro i' run' hrun'
  change (s.runs.set i run)[i']? = some run' at hrun'
  change RunSound idOf (i' = index) s run'
  by_cases hindex : i = i'
  · subst hindex
    rw [List.getElem?_set_self'] at hrun'
    obtain ⟨_, -, rfl⟩ := Option.map_eq_some_iff.mp hrun'
    exact hrun
  · rw [List.getElem?_set_ne hindex] at hrun'
    exact h.run i' run' hrun'

theorem Sound.withPreparing (h : Sound idOf index s) {ticket : Nat} {value : Option String}
    (hvalue : ∀ sql, value = some sql → ∃ exchange, s.exchanges ticket = some exchange ∧
      (∃ sync, exchange.packet = sendPrepare sync sql) ∧ exchange.reply = none) :
    Sound idOf index { s with preparing := Function.update s.preparing ticket value } := by
  refine ⟨h.drawn, h.numbered, h.named, ?_, h.run⟩
  intro ticket' sql hsql
  by_cases hticket : ticket' = ticket
  · subst hticket
    simp only [Function.update_self] at hsql
    obtain ⟨exchange, hexchange, hpacket, hreply⟩ := hvalue sql hsql
    exact ⟨exchange, hexchange, hpacket, by simp [hreply]⟩
  · simp only [Function.update_of_ne hticket] at hsql
    exact h.preparing ticket' sql hsql

theorem Sound.pushRun (h : Sound idOf index s) {run : Run}
    (hrun : RunSound idOf (s.runs.length = index) s run) :
    Sound idOf index { s with runs := s.runs ++ [run] } := by
  refine ⟨h.drawn, h.numbered, h.named, h.preparing, ?_⟩
  intro i run' hrun'
  change (s.runs ++ [run])[i]? = some run' at hrun'
  by_cases hi : i < s.runs.length
  · rw [List.getElem?_append_left hi] at hrun'
    exact h.run i run' hrun'
  · rw [List.getElem?_append_right (Nat.le_of_not_lt hi), List.getElem?_singleton] at hrun'
    split at hrun'
    next hzero =>
        obtain rfl := Option.some.inj hrun'
        obtain rfl : i = s.runs.length := by omega
        exact hrun
    · cases hrun'

theorem Sound.release (h : Sound idOf index s) {id : Nat} (hrelease : s.release id = some s') :
    Sound idOf index s' := by
  simp only [State.release, Option.bind_eq_some_iff] at hrelease
  obtain ⟨statement, hstatement, hrelease⟩ := hrelease
  split at hrelease
  · cases hrelease
  next hfree =>
      obtain rfl := Option.some.inj hrelease
      refine (h.post _).setStatement le_rfl nofun ?_
      rintro run _ hrun hlive rfl -
      simp only [State.borrowed, List.any_eq_true, not_exists, not_and] at hfree
      exact absurd (by simp [hlive]) (hfree run hrun)

def Delivered (s : State) (outcome : Nat → Option (Except Error Response)) : Prop :=
  ∀ ticket result, outcome ticket = some result →
    (∃ err, result = .error err ∧ ownError err = true) ∨
      ∃ exchange response, s.exchanges ticket = some exchange ∧
        exchange.reply = some response ∧ result = requestResult response

theorem requestResult_ok {response : Response} (h : response.kind = .ok) :
    requestResult response = .ok response := by
  simp [requestResult, h]

theorem eq_of_requestResult {response response' : Response}
    (h : requestResult response = .ok response') : response' = response := by
  unfold requestResult at h
  split at h
  · cases h
  · exact (Except.ok.inj h).symm

theorem ofReply_ok {sql : String} {response : Response} {statement : Statement}
    (h : Statement.ofReply fromSlice sql response = .ok statement) :
    statement.sql = sql ∧ response.stmtId = some statement.id := by
  obtain ⟨columns, -, h⟩ := Msgpack.bind_ok.mp h
  obtain ⟨parameters, -, h⟩ := Msgpack.bind_ok.mp h
  obtain ⟨id, hid, h⟩ := Msgpack.bind_ok.mp h
  obtain rfl := Except.ok.inj h
  unfold statementId at hid
  split at hid
  next id' hid' =>
      obtain rfl := Except.ok.inj hid
      exact ⟨rfl, hid'⟩
  · cases hid

theorem requestResult_server {response : Response} {err : ServerError}
    (h : requestResult response = .error (.server err)) :
    response.kind = .error ∧ response.intoError = err := by
  unfold requestResult at h
  split at h
  next hkind => exact ⟨hkind, by simpa using h⟩
  · simp at h

theorem code_ne_of_requestResult {response : Response} {err : ServerError}
    (hright : wrongQueryId response = false)
    (h : requestResult response = .error (.server err)) :
    err.code ≠ ErrorCode.wrongQueryId := by
  obtain ⟨hkind, rfl⟩ := requestResult_server h
  simpa [wrongQueryId, hkind] using hright

theorem Sound.advance (h : Sound idOf index s) {i : Nat} {run : Run} {statement : Statement}
    {next : Statement.Next} (hstatement : s.statements run.statement = some statement)
    (hnext : NextSound idOf (i = index) s.live statement.sql next) :
    Sound idOf index (s.advance i run next) := by
  cases next with
  | await point packet =>
      refine (h.post _).setRun ⟨statement, { packet }, hstatement, ?_, hnext⟩
      exact Function.update_self _ _ _
  | ret result => exact h.setRun hnext

theorem Sound.proceed (h : Sound idOf index s) {i : Nat}
    {outcome : Nat → Option (Except Error Response)} (hdelivered : Delivered s outcome)
    (hproceed : s.proceed i outcome = some s') : Sound idOf index s' := by
  obtain ⟨run, point, ticket, statement, result, statement', next, hrun, hstage, hstatement,
    houtcome, hresumes, rfl⟩ := proceed_eq_some hproceed
  have hsound := h.run i run hrun
  simp only [RunSound, hstage] at hsound
  obtain ⟨statement₀, exchange, hstatement₀, hexchange, hexpected⟩ := hsound
  obtain rfl : statement₀ = statement := Option.some.inj (hstatement₀.symm.trans hstatement)
  have hresult := hdelivered ticket result houtcome
  have hadvance : statement'.id = idOf statement'.sql →
      NextSound idOf (i = index) s.live statement'.sql next →
      Sound idOf index ((s.setStatement run.statement (some statement')).advance i run next) := by
    intro hid hnext
    have hset : Sound idOf index (s.setStatement run.statement (some statement')) := by
      refine h.setStatement le_rfl ?_ ?_
      · rintro _ ⟨⟩
        exact ⟨h.numbered _ _ hstatement, hid⟩
      · intro _ statement₂ _ _ _ hstatement₂
        obtain rfl := Option.some.inj (hstatement.symm.trans hstatement₂)
        exact ⟨statement', rfl, hresumes.sql_eq⟩
    exact hset.advance (setStatement_statements_self _ _) hnext
  cases hresumes with
  | renewed =>
      refine hadvance (h.named _ _ hstatement) ⟨⟨_, rfl⟩, fun response hreply => ?_⟩
      cases hreply
  | executed hother => exact hadvance (h.named _ _ hstatement) fun _ => hother
  | refused =>
      refine hadvance (h.named _ _ hstatement) fun _ err heq => ?_
      rcases hresult with ⟨_, herr, hown⟩ | ⟨exchange', response, hexchange', hreply, heq'⟩
      · simp_all [ownError]
      · obtain rfl := Option.some.inj (hexchange.symm.trans hexchange')
        rw [requestResult_ok (hexpected.2 response hreply).1] at heq'
        cases heq'
  | unnamed => exact hadvance (h.named _ _ hstatement) fun _ => nofun
  | @prepared fresh id hfresh =>
      rcases hresult with ⟨_, herr, -⟩ | ⟨exchange', response, hexchange', hreply, heq⟩
      · cases herr
      · obtain rfl := Option.some.inj (hexchange.symm.trans hexchange')
        obtain ⟨hok, hnamed, hlive⟩ := hexpected.2 response hreply
        rw [requestResult_ok hok] at heq
        obtain rfl := Except.ok.inj heq
        obtain rfl := Option.some.inj (hfresh.symm.trans hnamed)
        exact hadvance rfl ⟨Statement.send_ty _ _ _ _, Statement.stmtId_send _ _ _ _, hlive⟩
  | retried =>
      refine hadvance (h.named _ _ hstatement) fun hcalm err heq => ?_
      rcases hresult with ⟨_, herr, hown⟩ | ⟨exchange', response, hexchange', hreply, heq'⟩
      · simp_all [ownError]
      · obtain rfl := Option.some.inj (hexchange.symm.trans hexchange')
        have hright := hexpected.2.2
        simp only [hreply] at hright
        exact code_ne_of_requestResult (hright hcalm) (heq' ▸ heq)

theorem process_eq_some {live live' : Finset Nat} {packet : Packet} {response : Response}
    (h : process idOf live packet response = some live') :
    (∃ text, sqlText packet = some text ∧ packet.ty = Request.prepare ∧ response.kind = .ok ∧
        response.stmtId = some (idOf text) ∧ live' = insert (idOf text) live) ∨
      (∃ id, releasedBy packet = some id ∧ live' = live.erase id) ∨
      ∃ id, stmtId packet = some id ∧ packet.ty ≠ Request.prepare ∧
        wrongQueryId response = decide (id ∉ live) ∧ live' = live := by
  unfold process at h
  split at h
  next hty =>
      split at h
      next text htext =>
          split at h
          next hresponse =>
              exact .inl ⟨text, htext, hty, hresponse.1, hresponse.2, (Option.some.inj h).symm⟩
          · cases h
      next id htext hid =>
          refine .inr (.inl ⟨id, ?_, (Option.some.inj h).symm⟩)
          simp [releasedBy, hty, htext, hid]
      · cases h
  next hty =>
      split at h
      next id hid =>
          split at h
          next hright => exact .inr (.inr ⟨id, hid, hty, hright, (Option.some.inj h).symm⟩)
          · cases h
      · cases h

theorem releasedBy_eq_none {packet : Packet} {text : String} (h : sqlText packet = some text) :
    releasedBy packet = none := by
  simp [releasedBy, h]

theorem process_keeps {live live' : Finset Nat} {packet : Packet} {response : Response} {id : Nat}
    (h : process idOf live packet response = some live') (hid : id ∈ live)
    (hkept : releasedBy packet ≠ some id) : id ∈ live' := by
  rcases process_eq_some h with ⟨text, -, -, -, -, rfl⟩ | ⟨id', hreleased, rfl⟩ |
    ⟨-, -, -, -, rfl⟩
  · exact Finset.mem_insert_of_mem hid
  · refine Finset.mem_erase.mpr ⟨?_, hid⟩
    rintro rfl
    exact hkept hreleased
  · exact hid

theorem process_prepare {live live' : Finset Nat} {sync : Nat} {sql : String}
    {response : Response} (h : process idOf live (sendPrepare sync sql) response = some live') :
    response.kind = .ok ∧ response.stmtId = some (idOf sql) ∧ idOf sql ∈ live' := by
  rcases process_eq_some h with ⟨text, htext, -, hok, hnamed, rfl⟩ | ⟨id, hreleased, -⟩ |
    ⟨-, -, hty, -⟩
  · obtain rfl := Option.some.inj (htext.symm.trans (sqlText_sendPrepare sync sql))
    exact ⟨hok, hnamed, Finset.mem_insert_self _ _⟩
  · simp [releasedBy_eq_none (sqlText_sendPrepare sync sql)] at hreleased
  · exact absurd rfl hty

theorem process_execute {live live' : Finset Nat} {packet : Packet} {response : Response}
    {id : Nat} (h : process idOf live packet response = some live')
    (hty : packet.ty = Request.execute) (hid : stmtId packet = some id) :
    wrongQueryId response = decide (id ∉ live) := by
  have hprepare : packet.ty ≠ Request.prepare := by rw [hty]; decide
  rcases process_eq_some h with ⟨-, -, hty', -⟩ | ⟨id', hreleased, -⟩ | ⟨id', hid', -, hright, -⟩
  · exact absurd hty' hprepare
  · simp [releasedBy, hprepare] at hreleased
  · obtain rfl := Option.some.inj (hid.symm.trans hid')
    exact hright

theorem Expected.other {calm : Prop} {live live' : Finset Nat} {sql : String}
    {point : Statement.Point} {exchange : Exchange}
    (h : Expected idOf calm live sql point exchange)
    (hkept : calm → (point = .prepare ∧ exchange.reply.isSome ∨
        point = .retry ∧ exchange.reply = none) → idOf sql ∈ live → idOf sql ∈ live') :
    Expected idOf calm live' sql point exchange := by
  cases point with
  | execute => trivial
  | prepare =>
      refine ⟨h.1, fun response hreply => ?_⟩
      obtain ⟨hok, hnamed, hlive⟩ := h.2 response hreply
      exact ⟨hok, hnamed, fun hcalm =>
        hkept hcalm (.inl ⟨rfl, by simp [hreply]⟩) (hlive hcalm)⟩
  | retry =>
      refine ⟨h.1, h.2.1, ?_⟩
      have hstate := h.2.2
      cases hreply : exchange.reply with
      | none =>
          simp only [hreply] at hstate
          exact fun hcalm => hkept hcalm (.inr ⟨rfl, hreply⟩) (hstate hcalm)
      | some response => simpa only [hreply] using hstate

theorem Expected.processed {calm : Prop} {live live' : Finset Nat} {sql : String}
    {point : Statement.Point} {exchange : Exchange} {response : Response}
    (h : Expected idOf calm live sql point exchange) (hunanswered : exchange.reply = none)
    (hprocess : process idOf live exchange.packet response = some live') :
    Expected idOf calm live' sql point { exchange with reply := some response } := by
  cases point with
  | execute => trivial
  | prepare =>
      obtain ⟨⟨sync, hpacket⟩, -⟩ := h
      refine ⟨⟨sync, hpacket⟩, ?_⟩
      rintro _ ⟨⟩
      obtain ⟨hok, hnamed, hlive⟩ := process_prepare (hpacket ▸ hprocess)
      exact ⟨hok, hnamed, fun _ => hlive⟩
  | retry =>
      obtain ⟨hty, hid, hlive⟩ := h
      simp only [hunanswered] at hlive
      refine ⟨hty, hid, fun hcalm => ?_⟩
      rw [process_execute hprocess hty hid]
      simpa using hlive hcalm

theorem Sound.serve (h : Sound idOf index s) {ticket : Nat} {response : Response}
    {exchange : Exchange} {live' : Finset Nat}
    (hallowed : Undisturbed index s (.serve ticket response))
    (hexchange : s.exchanges ticket = some exchange) (hunanswered : exchange.reply = none)
    (hprocess : process idOf s.live exchange.packet response = some live') :
    Sound idOf index { s with
      live := live'
      exchanges := Function.update s.exchanges ticket
        (some { exchange with reply := some response }) } := by
  constructor
  · intro ticket' exchange' hexchange'
    by_cases hticket : ticket' = ticket
    · subst hticket
      exact h.drawn ticket' exchange hexchange
    · simp only [Function.update_of_ne hticket] at hexchange'
      exact h.drawn ticket' exchange' hexchange'
  · exact h.numbered
  · exact h.named
  · intro ticket' sql hsql
    obtain ⟨exchange', hexchange', ⟨sync, hpacket⟩, hnamed⟩ := h.preparing ticket' sql hsql
    by_cases hticket : ticket' = ticket
    · subst hticket
      obtain rfl := Option.some.inj (hexchange.symm.trans hexchange')
      refine ⟨_, Function.update_self _ _ _, ⟨sync, hpacket⟩, ?_⟩
      rintro _ ⟨⟩
      exact (process_prepare (hpacket ▸ hprocess)).2.1
    · exact ⟨exchange', (Function.update_of_ne hticket _ _).trans hexchange', ⟨sync, hpacket⟩,
        hnamed⟩
  · intro i run hrun
    have hsound := h.run i run hrun
    cases hstage : run.stage with
    | awaiting point ticket' =>
        simp only [RunSound, hstage] at hsound ⊢
        obtain ⟨statement, exchange', hstatement, hexchange', hexpected⟩ := hsound
        by_cases hticket : ticket' = ticket
        · subst hticket
          obtain rfl := Option.some.inj (hexchange.symm.trans hexchange')
          exact ⟨statement, _, hstatement, Function.update_self _ _ _,
            hexpected.processed hunanswered hprocess⟩
        · refine ⟨statement, exchange', hstatement,
            (Function.update_of_ne hticket _ _).trans hexchange', hexpected.other ?_⟩
          rintro rfl hrenewing hlive
          refine process_keeps hprocess hlive ?_
          rw [← h.named _ _ hstatement]
          refine hallowed run statement exchange hrun ?_ hstatement hexchange
          rcases hrenewing with ⟨rfl, hreply⟩ | ⟨rfl, hreply⟩ <;>
            simp [State.renewing, hstage, hexchange', hreply]
    | returned result => simpa [RunSound, hstage] using hsound
    | dropped => simp [RunSound, hstage]

theorem Sound.step (h : Sound idOf index s) {event : Event}
    (hallowed : Undisturbed index s event) (hstep : step fromSlice idOf s event = some s') :
    Sound idOf index s' := by
  cases event with
  | prepare sql =>
      obtain rfl := Option.some.inj hstep
      refine (h.post _).withPreparing ?_
      rintro _ ⟨⟩
      exact ⟨_, Function.update_self _ _ _, ⟨_, rfl⟩, rfl⟩
  | prepared ticket =>
      simp only [Sql.step, Option.bind_eq_some_iff, Option.map_eq_some_iff] at hstep
      obtain ⟨sql, hsql, response, ⟨exchange, hexchange, hreply⟩, rfl⟩ := hstep
      have hdone : Sound idOf index
          { s with preparing := Function.update s.preparing ticket none } :=
        h.withPreparing nofun
      split
      next statement hstatement =>
          obtain ⟨fresh, hfresh, hofReply⟩ := Msgpack.bind_ok.mp hstatement
          obtain rfl := eq_of_requestResult hfresh
          obtain ⟨hsql', hid⟩ := ofReply_ok hofReply
          obtain ⟨exchange', hexchange', -, hnamed⟩ := h.preparing ticket sql hsql
          obtain rfl := Option.some.inj (hexchange.symm.trans hexchange')
          refine hdone.setStatement (Nat.le_succ _) ?_ ?_
          · rintro _ ⟨⟩
            refine ⟨Nat.lt_succ_self _, ?_⟩
            rw [hsql']
            exact Option.some.inj (hid.symm.trans (hnamed fresh hreply))
          · intro _ statement' _ _ _ hstatement'
            exact absurd (h.numbered _ _ hstatement') (Nat.lt_irrefl _)
      · exact hdone
  | prepareEnds ticket =>
      obtain rfl := Option.some.inj hstep
      exact h.withPreparing nofun
  | run id stream bind =>
      simp only [Sql.step, Option.map_eq_some_iff] at hstep
      obtain ⟨statement, hstatement, rfl⟩ := hstep
      exact (h.post _).pushRun
        ⟨statement, _, hstatement, Function.update_self _ _ _, trivial⟩
  | resume i =>
      refine h.proceed ?_ hstep
      intro ticket result hresult
      simp only [Option.map_eq_some_iff, Option.bind_eq_some_iff] at hresult
      obtain ⟨response, ⟨exchange, hexchange, hreply⟩, rfl⟩ := hresult
      exact .inr ⟨exchange, response, hexchange, hreply, rfl⟩
  | fail i err =>
      refine h.proceed ?_ hstep
      intro ticket result hresult
      split at hresult
      next hown => exact .inl ⟨err, (Option.some.inj hresult).symm, hown⟩
      · cases hresult
  | dropRun i =>
      simp only [Sql.step, Option.bind_eq_some_iff] at hstep
      obtain ⟨run, -, hstep⟩ := hstep
      split at hstep
      · obtain rfl := Option.some.inj hstep
        exact h.setRun trivial
      · cases hstep
  | unprepare id | drop id => exact h.release hstep
  | serve ticket response =>
      simp only [Sql.step, Option.bind_eq_some_iff] at hstep
      obtain ⟨exchange, hexchange, hstep⟩ := hstep
      split at hstep
      · cases hstep
      next hunanswered =>
          obtain ⟨live', hprocess, rfl⟩ := Option.map_eq_some_iff.mp hstep
          exact h.serve hallowed hexchange (by simpa using hunanswered) hprocess

theorem sound_initial (index : Nat) : Sound idOf index {} := by
  constructor <;> simp

theorem sound_of_reaches (h : Reaches (step fromSlice idOf) (Undisturbed index) {} s) :
    Sound idOf index s :=
  h.invariant (sound_initial index) fun _ hsound hallowed hstep => hsound.step hallowed hstep

end

/-! ## No run reports a lost id -/

/-- A run between whose re-prepare and retry nobody releases its id never returns
the server's complaint about the id. -/
theorem run_keeps_its_id (fromSlice : Bytes → Except String (List (List (Nat × Value))))
    (idOf : String → Nat) (index : Nat) {s : State}
    (h : Reaches (step fromSlice idOf) (Undisturbed index) {} s) {run : Run} {err : ServerError}
    (hrun : s.runs[index]? = some run)
    (hreturned : run.stage = .returned (.error (.server err))) :
    err.code ≠ ErrorCode.wrongQueryId := by
  have hsound := (sound_of_reaches h).run index run hrun
  rw [RunSound, hreturned] at hsound
  exact hsound rfl err rfl

def undisturbed (index : Nat) (s : State) : Event → Bool
  | .serve ticket _ => (s.runs[index]?).all fun run =>
      !s.renewing run || (s.statements run.statement).all fun statement =>
        (s.exchanges ticket).all fun exchange =>
          decide (releasedBy exchange.packet ≠ some statement.id)
  | _ => true

theorem undisturbed_sound (index : Nat) (s : State) (event : Event)
    (h : undisturbed index s event = true) : Undisturbed index s event := by
  cases event with
  | serve ticket response =>
      intro run statement exchange hrun hrenewing hstatement hexchange
      simpa [undisturbed, hrun, hrenewing, hstatement, hexchange] using h
  | _ => trivial

def sampleStep : State → Event → Option State := step (fun _ => .ok []) fun _ => 7

def sampleFailure (code : Nat) : Response :=
  { kind := .error, sync := 0, error := some (ServerError.fromMessage code "") }

def sampleId : Response := { kind := .ok, sync := 0, stmtId := some 7 }

def samplePrepare (ticket : Nat) : List Event :=
  [.prepare "SELECT 1", .serve ticket sampleId, .prepared ticket]

def sampleRenewal : List Event :=
  samplePrepare 1 ++ samplePrepare 2 ++ samplePrepare 3 ++
    [Event.drop 0, .serve 4 { kind := .ok, sync := 0 }, .run 1 none [],
      .serve 5 (sampleFailure ErrorCode.wrongQueryId), .resume 0, .serve 6 sampleId]

def returnedCode (code : Nat) (s : State) : Bool :=
  (s.statements 1).isSome && (s.runs[0]?).any fun run =>
    decide (run.statement = 1) && match run.stage with
      | .returned (.error (.server err)) => decide (err.code = code)
      | _ => false

theorem returnedCode_sound {code : Nat} {s : State} (h : returnedCode code s = true) :
    ∃ run err, s.runs[0]? = some run ∧ (s.statements run.statement).isSome ∧
      run.stage = .returned (.error (.server err)) ∧ err.code = code := by
  simp only [returnedCode, Bool.and_eq_true, Option.any_eq_true, decide_eq_true_eq] at h
  obtain ⟨hsome, run, hrun, hstatement, hstage⟩ := h
  split at hstage
  next err hreturned =>
      exact ⟨run, err, hrun, by rwa [hstatement], hreturned, by simpa using hstage⟩
  · cases hstage

theorem run_keeps_its_id_sample :
    ∃ s run err, Reaches sampleStep (Undisturbed 0) {} s ∧ s.runs[0]? = some run ∧
      run.stage = .returned (.error (.server err)) ∧ err.code ≠ ErrorCode.wrongQueryId := by
  obtain ⟨s, hreach, hcheck⟩ := reaches_of_guarded sampleStep (undisturbed 0)
    (undisturbed_sound 0) {}
    (sampleRenewal ++ [Event.resume 0, .serve 7 (sampleFailure 159), .resume 0]) (returnedCode 159)
    (by decide +kernel)
  obtain ⟨run, err, hrun, -, hreturned, -⟩ := returnedCode_sound hcheck
  exact ⟨s, run, err, hreach, hrun, hreturned, run_keeps_its_id _ _ 0 hreach hrun hreturned⟩

/-- The third statement is dropped between the re-prepare and the retry. -/
theorem shared_id_released :
    ¬ ∀ fromSlice idOf (index : Nat) s (run : Run) (err : ServerError),
      Reaches (step fromSlice idOf) anyStep {} s →
      s.runs[index]? = some run → (s.statements run.statement).isSome →
      run.stage = .returned (.error (.server err)) → err.code ≠ ErrorCode.wrongQueryId := by
  intro hall
  obtain ⟨s, hreach, hcheck⟩ := reaches_of_check sampleStep {}
    (sampleRenewal ++ [Event.drop 2, .serve 7 { kind := .ok, sync := 0 }, .resume 0,
      .serve 8 (sampleFailure ErrorCode.wrongQueryId), .resume 0])
    (returnedCode ErrorCode.wrongQueryId) (by decide +kernel)
  obtain ⟨run, err, hrun, hsome, hreturned, hcode⟩ := returnedCode_sound hcheck
  exact hall _ _ 0 s run err hreach hrun hsome hreturned hcode

end Tarant.Sql
