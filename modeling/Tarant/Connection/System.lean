import Tarant.Foundation.Transition
import Tarant.Connection.Task

/-!
# The connection as a transition system

The task, the callers that share its channel and the server at the other end
of each link, interleaved in every possible way.  Callers draw a sync, build a
packet, send the command, and may give up at any point; streams and watchers
are callers with a state of their own.  The server may send anything; results
that need one that keeps to the protocol assume `ServerAnswers` of their run.

`history` records what the task did.  What is on the wire of a link, what a
oneshot or a watcher's cell holds, is read off it.
-/

namespace Tarant.Connection

open Foundation
open Iproto

/-! ## State -/

/-- Where the task is.  A handshake remembers the delay of the reconnect loop it
belongs to, and no delay when it is the first one, made by `Handle::connect`. -/
inductive Phase where
  | connecting (delay : Option Nat)
  | authenticating (delay : Option Nat) (socket : Nat) (serverVersion : String)
  | awaitingId (delay : Option Nat) (socket : Nat) (serverVersion : String)
  | awaitingAuth (delay : Option Nat) (socket : Nat) (user : String)
      (negotiated : Negotiated)
  | drain
  | select
  | backoff (delay : Nat)
  | done
  deriving DecidableEq

/-- A packet the server sent, and the packet of the link it is the reply to. -/
structure Inbound where
  response : Response
  answers : Option Nat := none

inductive Role where
  | plain
  | begin
  | commit
  | rollback
  | fire
  deriving DecidableEq, Repr

def Role.exclusive : Role → Bool
  | .begin | .commit | .rollback => true
  | _ => false

inductive Stage where
  | drawn
  | queued
  | returned (ok : Bool)
  deriving DecidableEq, Repr

/-- A call of a handle.  `transaction` is the link of the transaction that was
open on the stream when the call was made. -/
structure Call where
  packet : Packet
  role : Role
  stream : Option Nat
  pushes : Bool
  transaction : Option Nat
  stage : Stage
  alive : Bool

def Call.live (call : Call) : Bool :=
  call.alive && (call.stage == .drawn || call.stage == .queued)

/-- A `Stream`.  `transaction` is the link whose server acknowledged the begin. -/
structure Stream where
  opened : Bool := true
  inTransaction : Bool := false
  transaction : Option Nat := none

inductive WatchStage where
  | sending
  | queued
  | watching
  deriving DecidableEq, Repr

/-- A `Watcher`, or the `Client::watch` future it comes from; `alive` while its
receiver exists. -/
structure Watching where
  key : String
  stage : WatchStage
  alive : Bool

structure State where
  options : ConnectOptions
  nextSync : Nat := 1
  nextStreamId : Nat := 1
  nextWatchId : Nat := 1
  schemaVersion : Nat := 0
  closed : Bool := false
  negotiated : Negotiated := ⟨"", 0, ∅⟩
  handles : Bool := false
  channel : List Command := []
  task : Task := {}
  phase : Phase := .connecting none
  link : Nat := 0
  sockets : Nat := 0
  inbound : Nat → List Inbound := fun _ => []
  read : Nat → Nat := fun _ => 0
  calls : Nat → Option Call := fun _ => none
  streams : Nat → Option Stream := fun _ => none
  watching : Nat → Option Watching := fun _ => none
  history : List Action := []

def State.initial (options : ConnectOptions) : State := { options }

/-- A `u64` counter wraps; a ticket does not. -/
def syncOf (ticket : Nat) : Nat := ticket % 2 ^ 64

def channelCapacity : Nat := 1024

/-- `try_send` and `send` succeed now. -/
def State.hasRoom (s : State) : Bool :=
  s.phase ≠ .done && decide (s.channel.length < channelCapacity)

/-! ## Reading the history -/

def outbound (link : Nat) (history : List Action) : List (Origin × Packet) :=
  history.filterMap fun
    | .wrote l origin packet result =>
        if l = link ∧ result.reached then some (origin, packet) else none
    | _ => none

def answerOf (ticket : Nat) (history : List Action) : Option Answer :=
  history.findSome? fun
    | .answered _ t answer => if t = ticket then some answer else none
    | .discarded command => if command.reply? = some ticket then some .dropped else none
    | _ => none

def publishedTo (watcher : Nat) (history : List Action) : List Bytes :=
  history.filterMap fun
    | .published w data => if w = watcher then some data else none
    | _ => none

def State.cell (s : State) (watcher : Nat) : Option Bytes :=
  (publishedTo watcher s.history).getLast?

def State.receiverAlive (s : State) (watcher : Nat) : Bool :=
  (s.watching watcher).any Watching.alive

/-- No sender of the watcher is left, so its receiver reports an error. -/
def State.senderGone (s : State) (watcher : Nat) : Bool :=
  (s.channel ++ s.task.deferred).all (fun
    | .watch _ _ w => w ≠ watcher
    | _ => true) &&
  s.task.watchers.entries.all fun entry =>
    entry.2.all fun subscriber => subscriber.watcher ≠ watcher

/-! ## Callers -/

structure TxOptions where
  isolation : Isolation := .default
  timeout : Option UInt64 := none
  synchronous : Bool := false

def TxOptions.body (options : TxOptions) : List (Nat × Field) :=
  (if options.isolation = .default then []
    else [(Key.txnIsolation, .uint options.isolation.code)]) ++
  (options.timeout.toList.map fun seconds => (Key.timeout, .f64 seconds)) ++
  (if options.synchronous then [(Key.isSync, .bool true)] else [])

def Negotiated.supports (negotiated : Negotiated) (feature : Feature) : Bool :=
  decide (feature ∈ negotiated.features)

/-- The methods that ask whether the server has a feature before they do anything. -/
inductive Gated where
  | watch
  | watchOnce
  | insertArrow
  | begin (synchronous : Bool)
  deriving DecidableEq, Repr

def Gated.requires : Gated → List (Feature × String)
  | .watch => [(.watchers, "watchers (server is older than 2.10)")]
  | .watchOnce => [(.watchOnce, "watch_once (server is older than 3.0)")]
  | .insertArrow => [(.insertArrow, "Arrow insert (server is older than 3.3)")]
  | .begin synchronous =>
      (.transactions, "transactions (server is older than 2.10)") ::
        if synchronous then
          [(.isSync, "synchronous transactions (server is older than 3.3)")]
        else []

def Gated.check (negotiated : Negotiated) (request : Gated) : Except Error Unit :=
  match request.requires.find? fun required => !negotiated.supports required.1 with
  | some (_, reason) => .error (.unsupported reason)
  | none => .ok ()

def Gated.Announced (negotiated : Negotiated) (request : Gated) : Prop :=
  ∀ required ∈ request.requires, required.1 ∈ negotiated.features

instance (negotiated : Negotiated) (request : Gated) :
    Decidable (request.Announced negotiated) :=
  inferInstanceAs (Decidable (∀ required ∈ request.requires, required.1 ∈ negotiated.features))

theorem Gated.check_ok_iff (negotiated : Negotiated) (request : Gated) :
    request.check negotiated = .ok () ↔ request.Announced negotiated := by
  unfold Gated.check
  split
  next required reason hfind =>
    have hmissing := List.find?_some hfind
    simp only [Negotiated.supports, Bool.not_eq_true', decide_eq_false_iff_not] at hmissing
    simp only [reduceCtorEq, false_iff]
    intro hannounced
    exact hmissing (hannounced _ (List.mem_of_find?_eq_some hfind))
  next hfind =>
    rw [List.find?_eq_none] at hfind
    simp only [true_iff]
    intro required hmem
    simpa [Negotiated.supports] using hfind required hmem

theorem Gated.check_error {negotiated : Negotiated} {request : Gated} {err : Error}
    (h : request.check negotiated = .error err) : ∃ reason, err = .unsupported reason := by
  unfold Gated.check at h
  split at h
  · exact ⟨_, (Except.error.inj h).symm⟩
  · contradiction

inductive CallerEvent where
  /-- Any request of a `Client` or of a `Stream` other than the three below. -/
  | call (stream : Option Nat) (ty : Nat) (body : List (Nat × Field)) (pushes : Bool)
  | begin (stream : Nat) (options : TxOptions)
  | commit (stream : Nat)
  | rollback (stream : Nat)
  /-- The drawn call passes the `closed` check and its command enters the channel. -/
  | submit (ticket : Nat)
  /-- The request times out or its future is dropped. -/
  | abandon (ticket : Nat)
  /-- The caller finds its oneshot settled. -/
  | finish (ticket : Nat)
  /-- `Handle::fire`, as a prepared statement's `Drop` calls it. -/
  | fire (ty : Nat) (body : List (Nat × Field))
  | openStream
  | dropStream (stream : Nat)
  | watch (key : String)
  | submitWatch (watcher : Nat)
  /-- `Watcher::subscribe` sees a first value, or that its sender is gone. -/
  | resolveWatch (watcher : Nat)
  /-- The watcher, or the future that would make it, is dropped. -/
  | dropWatch (watcher : Nat)
  | close
  /-- The last handle is dropped. -/
  | dropHandles

def State.busyWith (s : State) (stream : Nat) (role : Call → Bool) : Bool :=
  (List.range s.nextSync).any fun ticket =>
    (s.calls ticket).any fun call =>
      call.stream == some stream && call.live && role call

/-- The borrow rules of `&self` and `&mut self` methods. -/
def State.mayIssue (s : State) (role : Role) : Option Nat → Bool
  | none => s.handles
  | some stream =>
      (s.streams stream).any Stream.opened &&
        !s.busyWith stream fun call => role.exclusive || call.role.exclusive

def State.issue (s : State) (role : Role) (stream : Option Nat) (ty : Nat)
    (body : List (Nat × Field)) (pushes : Bool) (stage : Stage) : State :=
  let call : Call :=
    { packet := ⟨ty, syncOf s.nextSync, stream.map syncOf, body⟩
      role, stream, pushes
      transaction := (stream.bind s.streams).bind Stream.transaction
      stage
      -- nobody waits for a packet sent from a `Drop`
      alive := role ≠ .fire }
  { s with
    nextSync := s.nextSync + 1
    calls := Function.update s.calls s.nextSync (some call) }

def State.issueIfAllowed (s : State) (role : Role) (stream : Option Nat) (ty : Nat)
    (body : List (Nat × Field)) (pushes : Bool) : Option State :=
  if s.mayIssue role stream then some (s.issue role stream ty body pushes .drawn) else none

/-- `Handle::fire`: draw a sync and `try_send`, which drops the command if it fails. -/
def State.fireNow (s : State) (stream : Option Nat) (ty : Nat)
    (body : List (Nat × Field)) : State :=
  if s.hasRoom then
    { s.issue .fire stream ty body false .queued with
      channel := s.channel ++
        [.fire ⟨ty, syncOf s.nextSync, stream.map syncOf, body⟩ s.nextSync] }
  else s.issue .fire stream ty body false (.returned false)

def State.setCall (s : State) (ticket : Nat) (call : Call) : State :=
  { s with calls := Function.update s.calls ticket (some call) }

def State.setStream (s : State) (stream : Nat) (value : Stream) : State :=
  { s with streams := Function.update s.streams stream (some value) }

def State.setWatching (s : State) (watcher : Nat) (value : Watching) : State :=
  { s with watching := Function.update s.watching watcher (some value) }

def Call.command (call : Call) (ticket : Nat) : Command :=
  .request (syncOf ticket) call.packet ticket (if call.pushes then some ticket else none)

def State.submit (s : State) (ticket : Nat) : Option State :=
  (s.calls ticket).bind fun call =>
    if call.alive ∧ call.stage = .drawn then
      if s.closed ∨ s.phase = .done then
        some (s.setCall ticket { call with stage := .returned false })
      else if s.hasRoom then
        some { s.setCall ticket { call with stage := .queued } with
          channel := s.channel ++ [call.command ticket] }
      else none
    else none

def State.abandon (s : State) (ticket : Nat) : Option State :=
  (s.calls ticket).bind fun call =>
    if call.live then some (s.setCall ticket { call with alive := false }) else none

def Answer.success : Answer → Option Arrival
  | .reply arrival => if arrival.response.kind = .error then none else some arrival
  | _ => none

def Stream.settle (stream : Stream) (role : Role) (arrival : Arrival) : Stream :=
  match role with
  | .begin => { stream with inTransaction := true, transaction := some arrival.link }
  | .commit | .rollback => { stream with inTransaction := false, transaction := none }
  | _ => stream

def State.settleStream (s : State) (call : Call) (arrival : Arrival) : State :=
  match call.stream with
  | none => s
  | some id =>
      match s.streams id with
      | none => s
      | some stream => s.setStream id (stream.settle call.role arrival)

def State.finish (s : State) (ticket : Nat) : Option State :=
  (s.calls ticket).bind fun call =>
    if call.alive ∧ call.stage = .queued then
      (answerOf ticket s.history).map fun answer =>
        match answer.success with
        | some arrival =>
            (s.setCall ticket { call with stage := .returned true }).settleStream call
              arrival
        | none => s.setCall ticket { call with stage := .returned false }
    else none

def State.dropStream (s : State) (id : Nat) : Option State :=
  (s.streams id).bind fun stream =>
    if stream.opened ∧ ¬ s.busyWith id (fun _ => true) then
      let s := s.setStream id { stream with opened := false }
      if stream.inTransaction then some (s.fireNow (some id) Request.rollback [])
      else some s
    else none

def State.submitWatch (s : State) (watcher : Nat) : Option State :=
  (s.watching watcher).bind fun w =>
    if w.alive ∧ w.stage = .sending then
      if s.phase = .done then some (s.setWatching watcher { w with alive := false })
      else if s.hasRoom then
        some { s.setWatching watcher { w with stage := .queued } with
          channel := s.channel ++ [.watch (syncOf watcher) w.key watcher] }
      else none
    else none

def State.resolveWatch (s : State) (watcher : Nat) : Option State :=
  (s.watching watcher).bind fun w =>
    if w.alive ∧ w.stage = .queued then
      if (s.cell watcher).isSome then
        some (s.setWatching watcher { w with stage := .watching })
      else if s.senderGone watcher then
        some (s.setWatching watcher { w with alive := false })
      else none
    else none

/-- Only a finished `Watcher` has a `Drop` that sends `Unwatch`. -/
def State.dropWatch (s : State) (watcher : Nat) : Option State :=
  (s.watching watcher).bind fun w =>
    if w.alive then
      let s' := s.setWatching watcher { w with alive := false }
      if w.stage = .watching ∧ s.hasRoom then
        some { s' with
          channel := s.channel ++ [.unwatch (syncOf watcher) w.key watcher] }
      else some s'
    else none

/-- Streams, watchers and unfinished requests hold a handle; a push call does not. -/
def State.handlesFree (s : State) : Bool :=
  ((List.range s.nextStreamId).all fun id => !(s.streams id).any Stream.opened) &&
  ((List.range s.nextWatchId).all fun id => !s.receiverAlive id) &&
  (List.range s.nextSync).all fun ticket =>
    !(s.calls ticket).any fun call => call.live && !(call.pushes && call.stage == .queued)

def callerStep (s : State) : CallerEvent → Option State
  | .call stream ty body pushes => s.issueIfAllowed .plain stream ty body pushes
  | .begin stream options =>
      if (Gated.begin options.synchronous).Announced s.negotiated then
        s.issueIfAllowed .begin (some stream) Request.begin options.body false
      else none
  | .commit stream => s.issueIfAllowed .commit (some stream) Request.commit [] false
  | .rollback stream => s.issueIfAllowed .rollback (some stream) Request.rollback [] false
  | .submit ticket => s.submit ticket
  | .abandon ticket => s.abandon ticket
  | .finish ticket => s.finish ticket
  | .fire ty body => if s.handles then some (s.fireNow none ty body) else none
  | .openStream =>
      if s.handles then
        some { s.setStream s.nextStreamId {} with nextStreamId := s.nextStreamId + 1 }
      else none
  | .dropStream stream => s.dropStream stream
  | .watch key =>
      if s.handles ∧ Gated.watch.Announced s.negotiated then
        some { s.setWatching s.nextWatchId ⟨key, .sending, true⟩ with
          nextWatchId := s.nextWatchId + 1 }
      else none
  | .submitWatch watcher => s.submitWatch watcher
  | .resolveWatch watcher => s.resolveWatch watcher
  | .dropWatch watcher => s.dropWatch watcher
  | .close =>
      if s.handles ∧ s.hasRoom then some { s with channel := s.channel ++ [.close] } else none
  | .dropHandles =>
      if s.handles ∧ s.handlesFree then some { s with handles := false } else none

/-! ## The task -/

inductive TaskEvent where
  /-- One iteration of the loop over the deferred commands, or its end. -/
  | drain (send : SendResult)
  /-- The select loop takes a command. -/
  | command (send : SendResult)
  /-- The select loop reads a packet. -/
  | packet (ack : SendResult)
  /-- Reading from the link fails or ends. -/
  | linkError (err : Error)
  /-- The reconnect delay passes. -/
  | wake
  /-- A command arrives during the reconnect delay. -/
  | reconnectCommand
  /-- A socket is open and greeted, and `IPROTO_ID` is handed to `send`. -/
  | connected (serverVersion : String) (send : SendResult)
  /-- The scramble of a named user is made, and `IPROTO_AUTH` handed to `send`. -/
  | authenticated (scramble : Bytes) (send : SendResult)
  /-- The handshake reads a packet; if that completes it, the watched keys are
  subscribed again in the given order. -/
  | handshakeReply (order : List String) (send : String → SendResult)
  /-- The handshake fails, as `chap_sha1` may, or times out. -/
  | handshakeFailed (err : Error)

def State.perform (s : State) (t : Task) (actions : List Action) (phase : Phase) : State :=
  { s with task := t, history := s.history ++ actions, phase := phase }

/-- `run` returns: the receiver is dropped with whatever is still in the channel, and
with the task the senders of every watcher. -/
def State.stop (s : State) (t : Task) (actions : List Action) : State :=
  { s with
    task := { t with watchers := ∅ }
    phase := .done
    closed := true
    channel := []
    history := s.history ++ (actions ++ s.channel.map .discarded) }

def State.closeDown (s : State) (cause : CloseCause) : State :=
  let (t₁, failed) := s.task.failPending s.link
  let (t₂, dropped) := t₁.dropDeferred s.link
  s.stop t₂ (.closedSocket s.link cause :: (failed ++ dropped))

def State.giveUp (s : State) : State :=
  let (t, failed) := s.task.failDeferred s.link
  s.stop t failed

def State.lose (s : State) : State :=
  let (t, failed) := s.task.failLink s.link
  match s.options.reconnect with
  | .backoff min _ => s.perform t failed (.backoff min)
  | .never => (s.perform t failed s.phase).giveUp

def State.takeCommand (s : State) (command : Command) (rest : List Command) : State :=
  { s with channel := rest, history := s.history ++ [.took command] }

def State.drainStep (s : State) (send : SendResult) : State :=
  match s.task.deferred with
  | [] => { s with phase := .select }
  | command :: rest =>
      let (t, actions, result) :=
        (s.task.setDeferred rest).handleCommand s.link send command
      let actions := .handled s.link command :: actions
      match result with
      | .ok _ => s.perform t actions .drain
      | .error _ =>
          let (t, failed) := t.failLink s.link
          s.perform t (actions ++ failed) .select

def State.commandStep (s : State) (send : SendResult) : Option State :=
  match s.channel with
  | [] => if s.handles then none else some (s.closeDown .command)
  | .close :: rest => some ((s.takeCommand .close rest).closeDown .command)
  | command :: rest =>
      let s := s.takeCommand command rest
      let (t, actions, result) := s.task.handleCommand s.link send command
      let s := s.perform t (.handled s.link command :: actions) .drain
      match result with
      | .ok _ => some s
      | .error _ => some s.lose

def State.receive (s : State) (ack : SendResult) (inbound : Inbound) : State :=
  let arrival : Arrival := ⟨inbound.response, s.link, s.read s.link⟩
  let (t, actions) := s.task.handleResponse s.link s.receiverAlive ack arrival
  { s.perform t actions .drain with
    read := Function.update s.read s.link (s.read s.link + 1)
    schemaVersion := max s.schemaVersion (inbound.response.schemaVersion.getD 0) }

def Task.finished (t : Task) : Bool := t.shuttingDown && t.pending.entries.isEmpty

def State.packetStep (s : State) (ack : SendResult) : Option State :=
  (s.inbound s.link)[s.read s.link]?.map fun inbound =>
    let s := s.receive ack inbound
    if s.task.finished then s.closeDown .drained else s

def State.reconnectCommand (s : State) (delay : Nat) : Option State :=
  match s.channel with
  | [] => if s.handles then none else some s.giveUp
  | .close :: rest => some (s.takeCommand .close rest).giveUp
  | command :: rest =>
      let s := s.takeCommand command rest
      let (t, actions) := s.task.defer s.link command
      some (s.perform t actions (.connecting (some delay)))

def State.retry (s : State) : Option Nat → Option State
  | none => some { s with phase := .done }
  | some delay =>
      match s.options.reconnect with
      | .backoff _ max => some { s with phase := .backoff (min (delay * 2) max) }
      | .never => none

def State.greet (s : State) (send : SendResult) (phase : Phase) : State :=
  { s.perform s.task [.wrote s.sockets .handshakeId idPacket send] phase with
    sockets := s.sockets + 1 }

/-- `IPROTO_AUTH` is pipelined after `IPROTO_ID` if there is a user to log in. -/
def State.greeted (s : State) (delay : Option Nat) (serverVersion : String) : Phase :=
  if s.options.loginUser.isSome then .authenticating delay s.sockets serverVersion
  else .awaitingId delay s.sockets serverVersion

def State.connected (s : State) (delay : Option Nat) (serverVersion : String)
    (send : SendResult) : Option State :=
  let t := s.greet send (s.greeted delay serverVersion)
  match send with
  | .sent => some t
  | .failed _ _ => t.retry delay

def State.authenticate (s : State) (socket : Nat) (user : String) (scramble : Bytes)
    (send : SendResult) (phase : Phase) : State :=
  s.perform s.task [.wrote socket .handshakeAuth (authPacket user scramble) send] phase

def State.authenticated (s : State) (delay : Option Nat) (socket : Nat)
    (serverVersion : String) (scramble : Bytes) (send : SendResult) : Option State :=
  s.options.loginUser.bind fun user =>
    let t := s.authenticate socket user scramble send (.awaitingId delay socket serverVersion)
    match send with
    | .sent => some t
    | .failed _ _ => t.retry delay

/-- The handshake succeeded: the first one spawns the task, a later one
subscribes every watched key again. -/
def State.established (s : State) (delay : Option Nat) (socket : Nat)
    (negotiated : Negotiated) (order : List String) (send : String → SendResult) :
    Option State :=
  match delay with
  | none =>
      some { s.perform s.task [.up socket negotiated] .drain with
        handles := true, negotiated := negotiated, link := socket }
  | some _ =>
      if order.Perm s.task.watchers.keys then
        some { s.perform s.task
            (.up socket negotiated :: Task.resubscribe socket send order) .drain with
          link := socket }
      else none

def State.readHandshake (s : State) (socket : Nat) : Option (Response × State) :=
  (s.inbound socket)[s.read socket]?.map fun inbound =>
    (inbound.response,
      { s with read := Function.update s.read socket (s.read socket + 1) })

def State.handshakeReply (rmp : Rmp) (s : State) (order : List String)
    (send : String → SendResult) : Option State :=
  match s.phase with
  | .awaitingId delay socket serverVersion =>
      (s.readHandshake socket).bind fun (reply, s) =>
        match acceptId rmp serverVersion reply with
        | .error _ => s.retry delay
        | .ok negotiated =>
            match s.options.loginUser with
            | some user =>
                some { s with phase := .awaitingAuth delay socket user negotiated }
            | none => s.established delay socket negotiated order send
  | .awaitingAuth delay socket user negotiated =>
      (s.readHandshake socket).bind fun (reply, s) =>
        match acceptAuth user reply with
        | .error _ => s.retry delay
        | .ok _ => s.established delay socket negotiated order send
  | _ => none

def taskStep (rmp : Rmp) (s : State) : TaskEvent → Option State
  | .drain send => if s.phase = .drain then some (s.drainStep send) else none
  | .command send => if s.phase = .select then s.commandStep send else none
  | .packet ack => if s.phase = .select then s.packetStep ack else none
  | .linkError _ => if s.phase = .select then some s.lose else none
  | .wake =>
      match s.phase with
      | .backoff delay => some { s with phase := .connecting (some delay) }
      | _ => none
  | .reconnectCommand =>
      match s.phase with
      | .backoff delay => s.reconnectCommand delay
      | _ => none
  | .connected serverVersion send =>
      match s.phase with
      | .connecting delay => s.connected delay serverVersion send
      | _ => none
  | .authenticated scramble send =>
      match s.phase with
      | .authenticating delay socket serverVersion =>
          s.authenticated delay socket serverVersion scramble send
      | _ => none
  | .handshakeReply order send => s.handshakeReply rmp order send
  | .handshakeFailed _ =>
      match s.phase with
      | .connecting delay | .authenticating delay _ _ | .awaitingId delay _ _
      | .awaitingAuth delay _ _ _ => s.retry delay
      | _ => none

/-! ## The server -/

def Kind.final : Kind → Bool
  | .ok | .error => true
  | _ => false

/-- Any packet may arrive on a link that was opened. -/
def serverStep (s : State) (link : Nat) (inbound : Inbound) : Option State :=
  if link < s.sockets then
    some { s with
      inbound := Function.update s.inbound link (s.inbound link ++ [inbound]) }
  else none

/-- A final reply answers one packet of the link, carries its sync and is the only one
to it. -/
def State.serverMay (s : State) (link : Nat) (inbound : Inbound) : Prop :=
  if Kind.final inbound.response.kind then
    ∃ i ∈ inbound.answers,
      (∃ sent ∈ (outbound link s.history)[i]?, sent.2.sync = inbound.response.sync) ∧
      ∀ other ∈ s.inbound link, other.answers ≠ some i
  else inbound.answers = none

instance (s : State) (link : Nat) (inbound : Inbound) :
    Decidable (s.serverMay link inbound) :=
  inferInstanceAs (Decidable (ite _ _ _))

/-! ## Runs -/

inductive Event where
  | caller (event : CallerEvent)
  | task (event : TaskEvent)
  | server (link : Nat) (inbound : Inbound)

def step (rmp : Rmp) (s : State) : Event → Option State
  | .caller event => callerStep s event
  | .task event => taskStep rmp s event
  | .server link inbound => serverStep s link inbound

/-- The server keeps to the protocol; an assumption of the results that name it. -/
def ServerAnswers (s : State) : Event → Prop
  | .server link inbound => s.serverMay link inbound
  | _ => True

instance (s : State) (event : Event) : Decidable (ServerAnswers s event) :=
  match event with
  | .server link inbound => inferInstanceAs (Decidable (s.serverMay link inbound))
  | .caller _ | .task _ => inferInstanceAs (Decidable True)

def ReachableBy (rmp : Rmp) (options : ConnectOptions)
    (allowed : State → Event → Prop) (s : State) : Prop :=
  Reaches (step rmp) allowed (State.initial options) s

def Reachable (rmp : Rmp) (options : ConnectOptions) (s : State) : Prop :=
  ReachableBy rmp options anyStep s

/-! ## Pieces of sample runs -/

def fixintRmp : Rmp where
  readInt
    | byte :: _ => if byte < 0x80 then some byte.toNat else none
    | [] => none
  readStrLen _ := none
  readValue
    | byte :: rest =>
        if byte < 0x80 then .ok (.integer byte.toNat)
        else if 0x90 ≤ byte ∧ byte < 0xa0 then
          .ok (.array ((rest.take (byte.toNat - 0x90)).map fun item => .integer item.toNat))
        else .error "unsupported"
    | [] => .error "empty"

def sampleIdReply : Inbound :=
  ⟨{ kind := .ok, sync := 0, body := [0x81, 0x55, 0x92, 0x01, 0x03] }, some 0⟩

def sampleHandshake (socket : Nat) (order : List String) : List Event :=
  [.task (.connected "3.0.0" .sent), .server socket sampleIdReply,
    .task (.handshakeReply order fun _ => .sent)]

end Tarant.Connection
