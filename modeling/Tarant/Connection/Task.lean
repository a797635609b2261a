import Tarant.Connection.Handshake

/-!
# The connection task

The task that owns the socket, function by function.  `HashMap`s are
association lists without repeated keys.  Everything a function does to the
outside world (a packet handed to `send`, a reply put into a oneshot, a value
published to a watcher) is returned as a list of `Action`s, and the outcome of
each `send`, which the socket decides, is an argument.

Identities that the source keeps implicit are explicit here.  A `ticket` numbers
the calls of `next_sync` and names the oneshot and the push channel made for the
call; a `watcher` numbers the calls of `next_watch_id` and names its channel.
No branch reads them.
-/

namespace Tarant.Connection

open Iproto

/-! ## Commands and actions -/

inductive Command where
  | request (sync : Nat) (packet : Packet) (ticket : Nat) (pushes : Option Nat)
  | watch (id : Nat) (key : String) (watcher : Nat)
  | unwatch (id : Nat) (key : String) (watcher : Nat)
  | fire (packet : Packet) (ticket : Nat)
  | close
  deriving DecidableEq, Repr

def Command.ticket? : Command → Option Nat
  | .request _ _ ticket _ => some ticket
  | .fire _ ticket => some ticket
  | _ => none

def Command.reply? : Command → Option Nat
  | .request _ _ ticket _ => some ticket
  | _ => none

/-- How a `send` ended; a failed one may leave the packet in the write buffer. -/
inductive SendResult where
  | sent
  | failed (err : Error) (buffered : Bool)

def SendResult.result : SendResult → Except Error Unit
  | .sent => .ok ()
  | .failed err _ => .error err

def SendResult.reached : SendResult → Bool
  | .sent => true
  | .failed _ buffered => buffered

def SendResult.isSent : SendResult → Bool
  | .sent => true
  | .failed _ _ => false

inductive Origin where
  | handshakeId
  | handshakeAuth
  | call (ticket : Nat)
  | watch (watcher : Nat)
  | unwatch (watcher : Nat)
  | ack
  | resubscribe
  deriving DecidableEq, Repr

structure Arrival where
  response : Response
  link : Nat
  index : Nat

/-- What a oneshot receives; a dropped sender reads as `Error::Closed`. -/
inductive Answer where
  | reply (arrival : Arrival)
  | error (err : Error)
  | dropped

inductive CloseCause where
  | command
  | drained
  deriving DecidableEq, Repr

inductive Action where
  /-- A command was taken off the channel. -/
  | took (command : Command)
  /-- `handle_command` was called. -/
  | handled (link : Nat) (command : Command)
  /-- A packet was handed to `send`. -/
  | wrote (link : Nat) (origin : Origin) (packet : Packet) (result : SendResult)
  /-- A oneshot was settled while `link` was the current one. -/
  | answered (link : Nat) (ticket : Nat) (answer : Answer)
  /-- A chunk went into a push channel. -/
  | pushed (ticket : Nat) (data : Bytes)
  /-- A value went into a watcher's channel. -/
  | published (watcher : Nat) (data : Bytes)
  /-- `box.shutdown` was announced with the value `true`. -/
  | announced (link : Nat)
  /-- `fail_link` ran; `waiting` are the requests still deferred. -/
  | lost (link : Nat) (waiting : List Nat)
  /-- A handshake succeeded. -/
  | up (link : Nat) (negotiated : Negotiated)
  /-- The socket was closed on purpose. -/
  | closedSocket (link : Nat) (cause : CloseCause)
  /-- A command was still in the channel when the task ended. -/
  | discarded (command : Command)

/-! ## Task state -/

structure Pending where
  ticket : Nat
  pushes : Option Nat
  deriving DecidableEq, Repr

structure Subscriber where
  id : Nat
  watcher : Nat
  deriving DecidableEq, Repr

abbrev PendingMap := AList fun _ : Nat => Pending
abbrev WatcherMap := AList fun _ : String => List Subscriber

structure Task where
  pending : PendingMap := ∅
  watchers : WatcherMap := ∅
  deferred : List Command := []
  shuttingDown : Bool := false

namespace Task

def setDeferred (t : Task) (rest : List Command) : Task := { t with deferred := rest }

@[simp] theorem setDeferred_pending (t : Task) (rest : List Command) :
    (t.setDeferred rest).pending = t.pending := rfl

@[simp] theorem setDeferred_watchers (t : Task) (rest : List Command) :
    (t.setDeferred rest).watchers = t.watchers := rfl

@[simp] theorem setDeferred_deferred (t : Task) (rest : List Command) :
    (t.setDeferred rest).deferred = rest := rfl

@[simp] theorem setDeferred_shuttingDown (t : Task) (rest : List Command) :
    (t.setDeferred rest).shuttingDown = t.shuttingDown := rfl

/-- `HashMap::insert` drops the entry it replaces, and with it a reply sender. -/
def overwritten (t : Task) (link sync : Nat) : List Action :=
  match t.pending.lookup sync with
  | some old => [.answered link old.ticket .dropped]
  | none => []

def handleCommand (t : Task) (link : Nat) (send : SendResult) :
    Command → Task × List Action × Except Error Unit
  | .request sync packet ticket pushes =>
      if t.shuttingDown then
        (t, [.answered link ticket (.error .shuttingDown)], .ok ())
      else
        ({ t with pending := t.pending.insert sync ⟨ticket, pushes⟩ },
          t.overwritten link sync ++ [.wrote link (.call ticket) packet send],
          send.result)
  | .fire packet ticket => (t, [.wrote link (.call ticket) packet send], send.result)
  | .watch id key watcher =>
      let list := (t.watchers.lookup key).getD []
      let t' := { t with watchers := t.watchers.insert key (list ++ [⟨id, watcher⟩]) }
      if key ∈ t.watchers then (t', [], .ok ())
      else
        (t', [.wrote link (.watch watcher) (watchPacket Request.watch key) send],
          send.result)
  | .unwatch id key watcher =>
      match t.watchers.lookup key with
      | none => (t, [], .ok ())
      | some list =>
          let kept := list.filter (·.id ≠ id)
          if kept = [] then
            ({ t with watchers := t.watchers.erase key },
              [.wrote link (.unwatch watcher) (watchPacket Request.unwatch key) send],
              send.result)
          else ({ t with watchers := t.watchers.insert key kept }, [], .ok ())
  -- `unreachable!`: the callers take `Close` out before
  | .close => (t, [], .ok ())

def isShutdown (key : String) (data : Bytes) : Bool :=
  key == "box.shutdown" && data.head? == some 0xc3

/--
Route a packet.  `alive` tells which watcher channels still have a receiver,
which is what `watch::Sender::send` reports; a failed acknowledgement is
ignored.
-/
def handleResponse (t : Task) (link : Nat) (alive : Nat → Bool) (ack : SendResult)
    (arrival : Arrival) : Task × List Action :=
  let response := arrival.response
  match response.kind with
  | .ok | .error =>
      match t.pending.lookup response.sync with
      | some pending =>
          ({ t with pending := t.pending.erase response.sync },
            [.answered link pending.ticket (.reply arrival)])
      | none => (t, [])
  | .chunk =>
      match (t.pending.lookup response.sync).bind Pending.pushes with
      | some channel => (t, [.pushed channel response.dataBytes])
      | none => (t, [])
  | .event =>
      match response.event with
      | none => (t, [])
      | some (key, data) =>
          let down := isShutdown key data
          let t := { t with shuttingDown := t.shuttingDown || down }
          let said := if down then [.announced link] else []
          match t.watchers.lookup key with
          | none => (t, said)
          | some list =>
              let kept := list.filter fun subscriber => alive subscriber.watcher
              ({ t with watchers := t.watchers.insert key kept },
                said ++ kept.map (fun subscriber => .published subscriber.watcher data) ++
                  [.wrote link .ack (watchPacket Request.watch key) ack])

/-- Both callers pass `Error::Closed`, which `clone_error` copies as it is. -/
def failPending (t : Task) (link : Nat) : Task × List Action :=
  ({ t with pending := ∅ },
    t.pending.entries.map fun entry => .answered link entry.2.ticket (.error .closed))

def failLink (t : Task) (link : Nat) : Task × List Action :=
  let (t', actions) := t.failPending link
  (t', .lost link (t.deferred.filterMap Command.reply?) :: actions)

def failDeferred (t : Task) (link : Nat) : Task × List Action :=
  ({ t with deferred := [] },
    (t.deferred.filterMap Command.reply?).map fun ticket =>
      .answered link ticket (.error .closed))

/-- Returning from `run` drops the commands that are still deferred. -/
def dropDeferred (t : Task) (link : Nat) : Task × List Action :=
  ({ t with deferred := [] },
    (t.deferred.filterMap Command.reply?).map fun ticket =>
      .answered link ticket .dropped)

def maxDeferred : Nat := 4096

def defer (t : Task) (link : Nat) (command : Command) : Task × List Action :=
  if maxDeferred ≤ t.deferred.length then
    (t, (command.reply?.toList).map fun ticket => .answered link ticket (.error .closed))
  else ({ t with deferred := t.deferred ++ [command] }, [])

/--
The loop over `self.watchers.keys()` after a reconnect, in the order the map
yields them; the first failing `send` ends it.
-/
def resubscribe (link : Nat) (send : String → SendResult) : List String → List Action
  | [] => []
  | key :: keys =>
      .wrote link .resubscribe (watchPacket Request.watch key) (send key) ::
        if (send key).isSent then resubscribe link send keys else []

theorem forall_mem_resubscribe {p : Action → Prop} {link : Nat} {send : String → SendResult}
    (h : ∀ key, p (.wrote link .resubscribe (watchPacket Request.watch key) (send key)))
    (keys : List String) : ∀ action ∈ resubscribe link send keys, p action := by
  induction keys with
  | nil => simp [resubscribe]
  | cons key keys ih =>
      rw [resubscribe, List.forall_mem_cons]
      refine ⟨h key, ?_⟩
      split
      · exact ih
      · simp

end Task

end Tarant.Connection
