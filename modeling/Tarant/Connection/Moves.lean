import Tarant.Connection.System

/-!
# What one step of the task can do

`Handling` and `Routing` list the branches of `handle_command` and
`handle_response`, and `TaskMove` every transition of the task, each with its
guard and what it leads to.  Invariants are proved over these lists; the
functions themselves are taken apart only here.
-/

namespace Tarant.Connection

open Foundation
open Iproto

/-! ## The branches of the task's functions -/

inductive Handling (t : Task) (link : Nat) (send : SendResult) :
    Command → Task → List Action → Except Error Unit → Prop where
  | refused {sync : Nat} {packet : Packet} {ticket : Nat} {pushes : Option Nat}
      (hdown : t.shuttingDown = true) :
      Handling t link send (.request sync packet ticket pushes) t
        [.answered link ticket (.error .shuttingDown)] (.ok ())
  | requested {sync : Nat} {packet : Packet} {ticket : Nat} {pushes : Option Nat}
      (hdown : t.shuttingDown = false) :
      Handling t link send (.request sync packet ticket pushes)
        { t with pending := t.pending.insert sync ⟨ticket, pushes⟩ }
        (t.overwritten link sync ++ [.wrote link (.call ticket) packet send]) send.result
  | fired {packet : Packet} {ticket : Nat} :
      Handling t link send (.fire packet ticket) t
        [.wrote link (.call ticket) packet send] send.result
  | watchedFirst {id : Nat} {key : String} {watcher : Nat}
      (hlookup : t.watchers.lookup key = none) :
      Handling t link send (.watch id key watcher)
        { t with watchers := t.watchers.insert key [⟨id, watcher⟩] }
        [.wrote link (.watch watcher) (watchPacket Request.watch key) send] send.result
  | watched {id : Nat} {key : String} {watcher : Nat} {list : List Subscriber}
      (hlookup : t.watchers.lookup key = some list) :
      Handling t link send (.watch id key watcher)
        { t with watchers := t.watchers.insert key (list ++ [⟨id, watcher⟩]) } [] (.ok ())
  | unwatchedUnknown {id : Nat} {key : String} {watcher : Nat}
      (hlookup : t.watchers.lookup key = none) :
      Handling t link send (.unwatch id key watcher) t [] (.ok ())
  | unwatchedLast {id : Nat} {key : String} {watcher : Nat} {list : List Subscriber}
      (hlookup : t.watchers.lookup key = some list)
      (hkept : list.filter (·.id ≠ id) = []) :
      Handling t link send (.unwatch id key watcher)
        { t with watchers := t.watchers.erase key }
        [.wrote link (.unwatch watcher) (watchPacket Request.unwatch key) send] send.result
  | unwatched {id : Nat} {key : String} {watcher : Nat} {list : List Subscriber}
      (hlookup : t.watchers.lookup key = some list)
      (hkept : list.filter (·.id ≠ id) ≠ []) :
      Handling t link send (.unwatch id key watcher)
        { t with watchers := t.watchers.insert key (list.filter (·.id ≠ id)) } [] (.ok ())
  | close : Handling t link send .close t [] (.ok ())

theorem handleCommand_handling (t : Task) (link : Nat) (send : SendResult)
    (command : Command) :
    Handling t link send command (t.handleCommand link send command).1
      (t.handleCommand link send command).2.1 (t.handleCommand link send command).2.2 := by
  cases command with
  | request sync packet ticket pushes =>
      simp only [Task.handleCommand]
      split
      next hdown => exact .refused hdown
      next hdown => exact .requested (by simpa using hdown)
  | fire packet ticket => exact .fired
  | watch id key watcher =>
      simp only [Task.handleCommand]
      cases hlookup : t.watchers.lookup key with
      | none =>
          rw [if_neg (AList.lookup_eq_none.mp hlookup)]
          exact .watchedFirst hlookup
      | some list =>
          have hmem : key ∈ t.watchers := AList.lookup_isSome.mp (by simp [hlookup])
          rw [if_pos hmem]
          exact .watched hlookup
  | unwatch id key watcher =>
      simp only [Task.handleCommand]
      cases hlookup : t.watchers.lookup key with
      | none => exact .unwatchedUnknown hlookup
      | some list =>
          simp only
          split
          next hkept => exact .unwatchedLast hlookup hkept
          next hkept => exact .unwatched hlookup hkept
  | close => exact .close

theorem handling_of_eq {t t' : Task} {link : Nat} {send : SendResult} {command : Command}
    {actions : List Action} {result : Except Error Unit}
    (h : t.handleCommand link send command = (t', actions, result)) :
    Handling t link send command t' actions result := by
  have hall := handleCommand_handling t link send command
  rw [h] at hall
  exact hall

inductive Routing (t : Task) (link : Nat) (alive : Nat → Bool) (ack : SendResult)
    (arrival : Arrival) : Task → List Action → Prop where
  | delivered {pending : Pending} (hfinal : Kind.final arrival.response.kind = true)
      (hlookup : t.pending.lookup arrival.response.sync = some pending) :
      Routing t link alive ack arrival
        { t with pending := t.pending.erase arrival.response.sync }
        [.answered link pending.ticket (.reply arrival)]
  | unexpected (hfinal : Kind.final arrival.response.kind = true)
      (hlookup : t.pending.lookup arrival.response.sync = none) :
      Routing t link alive ack arrival t []
  | pushed {channel : Nat} (hkind : arrival.response.kind = .chunk)
      (hlookup : (t.pending.lookup arrival.response.sync).bind Pending.pushes =
        some channel) :
      Routing t link alive ack arrival t [.pushed channel arrival.response.dataBytes]
  | unheard (hkind : arrival.response.kind = .chunk)
      (hlookup : (t.pending.lookup arrival.response.sync).bind Pending.pushes = none) :
      Routing t link alive ack arrival t []
  | malformed (hkind : arrival.response.kind = .event)
      (hevent : arrival.response.event = none) : Routing t link alive ack arrival t []
  | unwatched {key : String} {data : Bytes} (hkind : arrival.response.kind = .event)
      (hevent : arrival.response.event = some (key, data))
      (hlookup : t.watchers.lookup key = none) :
      Routing t link alive ack arrival
        { t with shuttingDown := t.shuttingDown || Task.isShutdown key data }
        (if Task.isShutdown key data then [.announced link] else [])
  | notified {key : String} {data : Bytes} {list : List Subscriber}
      (hkind : arrival.response.kind = .event)
      (hevent : arrival.response.event = some (key, data))
      (hlookup : t.watchers.lookup key = some list) :
      Routing t link alive ack arrival
        { t with
          shuttingDown := t.shuttingDown || Task.isShutdown key data
          watchers := t.watchers.insert key (list.filter (alive ·.watcher)) }
        ((if Task.isShutdown key data then [.announced link] else []) ++
          (list.filter (alive ·.watcher)).map
            (fun subscriber => .published subscriber.watcher data) ++
          [.wrote link .ack (watchPacket Request.watch key) ack])

theorem handleResponse_routing (t : Task) (link : Nat) (alive : Nat → Bool)
    (ack : SendResult) (arrival : Arrival) :
    Routing t link alive ack arrival (t.handleResponse link alive ack arrival).1
      (t.handleResponse link alive ack arrival).2 := by
  simp only [Task.handleResponse]
  cases hkind : arrival.response.kind with
  | ok =>
      simp only
      cases hlookup : t.pending.lookup arrival.response.sync with
      | some pending => exact .delivered (by rw [hkind]; rfl) hlookup
      | none => exact .unexpected (by rw [hkind]; rfl) hlookup
  | error =>
      simp only
      cases hlookup : t.pending.lookup arrival.response.sync with
      | some pending => exact .delivered (by rw [hkind]; rfl) hlookup
      | none => exact .unexpected (by rw [hkind]; rfl) hlookup
  | chunk =>
      simp only
      cases hlookup : (t.pending.lookup arrival.response.sync).bind Pending.pushes with
      | some channel => exact .pushed hkind hlookup
      | none => exact .unheard hkind hlookup
  | event =>
      simp only
      cases hevent : arrival.response.event with
      | none => exact .malformed hkind hevent
      | some event =>
          obtain ⟨key, data⟩ := event
          simp only
          cases hlookup : t.watchers.lookup key with
          | none => exact .unwatched hkind hevent hlookup
          | some list => exact .notified hkind hevent hlookup

/-! ## The actions of the task's functions -/

inductive HandlingAction (t : Task) (link : Nat) (send : SendResult) : Command → Action → Prop where
  | refused {sync : Nat} {packet : Packet} {ticket : Nat} {pushes : Option Nat}
      (hdown : t.shuttingDown = true) :
      HandlingAction t link send (.request sync packet ticket pushes)
        (.answered link ticket (.error .shuttingDown))
  | overwritten {sync : Nat} {packet : Packet} {ticket : Nat} {pushes : Option Nat} {old : Pending}
      (hlookup : t.pending.lookup sync = some old) :
      HandlingAction t link send (.request sync packet ticket pushes)
        (.answered link old.ticket .dropped)
  | requested {sync : Nat} {packet : Packet} {ticket : Nat} {pushes : Option Nat} :
      HandlingAction t link send (.request sync packet ticket pushes)
        (.wrote link (.call ticket) packet send)
  | fired {packet : Packet} {ticket : Nat} :
      HandlingAction t link send (.fire packet ticket) (.wrote link (.call ticket) packet send)
  | watched {id : Nat} {key : String} {watcher : Nat} :
      HandlingAction t link send (.watch id key watcher)
        (.wrote link (.watch watcher) (watchPacket Request.watch key) send)
  | unwatched {id : Nat} {key : String} {watcher : Nat} :
      HandlingAction t link send (.unwatch id key watcher)
        (.wrote link (.unwatch watcher) (watchPacket Request.unwatch key) send)

inductive RoutingAction (t : Task) (link : Nat) (ack : SendResult) (arrival : Arrival) :
    Action → Prop where
  | delivered {pending : Pending} (hfinal : Kind.final arrival.response.kind = true)
      (hlookup : t.pending.lookup arrival.response.sync = some pending) :
      RoutingAction t link ack arrival (.answered link pending.ticket (.reply arrival))
  | pushed {channel : Nat}
      (hlookup : (t.pending.lookup arrival.response.sync).bind Pending.pushes = some channel) :
      RoutingAction t link ack arrival (.pushed channel arrival.response.dataBytes)
  | announced : RoutingAction t link ack arrival (.announced link)
  | published {key : String} {data : Bytes} {list : List Subscriber} {subscriber : Subscriber}
      (hevent : arrival.response.event = some (key, data))
      (hlookup : t.watchers.lookup key = some list) (hmem : subscriber ∈ list) :
      RoutingAction t link ack arrival (.published subscriber.watcher data)
  | acknowledged {key : String} {data : Bytes} {list : List Subscriber}
      (hevent : arrival.response.event = some (key, data))
      (hlookup : t.watchers.lookup key = some list) :
      RoutingAction t link ack arrival
        (.wrote link .ack (watchPacket Request.watch key) ack)

theorem forall_mem_overwritten {t : Task} {link sync : Nat} {p : Action → Prop}
    (h : ∀ old, t.pending.lookup sync = some old → p (.answered link old.ticket .dropped)) :
    ∀ action ∈ t.overwritten link sync, p action := by
  unfold Task.overwritten
  split
  next old hlookup => exact List.forall_mem_singleton.mpr (h old hlookup)
  next => exact List.forall_mem_nil _

theorem Handling.acts {t t' : Task} {link : Nat} {send : SendResult} {command : Command}
    {actions : List Action} {result : Except Error Unit}
    (h : Handling t link send command t' actions result) :
    ∀ action ∈ actions, HandlingAction t link send command action := by
  cases h with
  | refused hdown => exact List.forall_mem_singleton.mpr (.refused hdown)
  | @requested sync packet ticket pushes hdown =>
      rw [List.forall_mem_append, List.forall_mem_singleton]
      exact ⟨forall_mem_overwritten fun old hlookup => .overwritten hlookup, .requested⟩
  | fired => exact List.forall_mem_singleton.mpr .fired
  | watchedFirst => exact List.forall_mem_singleton.mpr .watched
  | unwatchedLast => exact List.forall_mem_singleton.mpr .unwatched
  | _ => exact List.forall_mem_nil _

theorem Routing.acts {t t' : Task} {link : Nat} {alive : Nat → Bool} {ack : SendResult}
    {arrival : Arrival} {actions : List Action}
    (h : Routing t link alive ack arrival t' actions) :
    ∀ action ∈ actions, RoutingAction t link ack arrival action := by
  have hsaid (said : Prop) [Decidable said] :
      ∀ action ∈ if said then [Action.announced link] else [],
        RoutingAction t link ack arrival action := by
    split
    · exact List.forall_mem_singleton.mpr .announced
    · exact List.forall_mem_nil _
  cases h with
  | delivered hfinal hlookup => exact List.forall_mem_singleton.mpr (.delivered hfinal hlookup)
  | pushed hkind hlookup => exact List.forall_mem_singleton.mpr (.pushed hlookup)
  | unwatched hkind hevent hlookup => exact hsaid _
  | notified hkind hevent hlookup =>
      rw [List.forall_mem_append, List.forall_mem_append, List.forall_mem_map,
        List.forall_mem_singleton]
      refine ⟨⟨hsaid _, fun subscriber hmem => ?_⟩, .acknowledged hevent hlookup⟩
      exact .published hevent hlookup (List.mem_filter.mp hmem).1
  | _ => exact List.forall_mem_nil _

/-! ## The transitions -/

def Phase.up : Phase → Bool
  | .drain | .select => true
  | _ => false

def Phase.attempt : Phase → Option (Option Nat)
  | .connecting delay | .authenticating delay _ _ | .awaitingId delay _ _
  | .awaitingAuth delay _ _ _ => some delay
  | _ => none

def Phase.socket : Phase → Option Nat
  | .authenticating _ socket _ | .awaitingId _ socket _ | .awaitingAuth _ socket _ _ => some socket
  | _ => none

def Phase.waits : Phase → Bool
  | .awaitingId _ _ _ | .awaitingAuth _ _ _ _ => true
  | _ => false

def Phase.afterFailure (options : ConnectOptions) : Option Nat → Option Phase
  | none => some .done
  | some delay =>
      match options.reconnect with
      | .backoff _ max => some (.backoff (min (delay * 2) max))
      | .never => none

def Phase.afterSend (options : ConnectOptions) (delay : Option Nat) (phase : Phase) :
    SendResult → Option Phase
  | .sent => some phase
  | .failed _ _ => afterFailure options delay

inductive LastReply (rmp : Rmp) (s : State) (reply : Response) :
    Option Nat → Nat → Negotiated → Prop where
  | id {delay : Option Nat} {socket : Nat} {version : String} {negotiated : Negotiated}
      (hphase : s.phase = .awaitingId delay socket version)
      (hguest : s.options.loginUser = none)
      (haccept : acceptId rmp version reply = .ok negotiated) :
      LastReply rmp s reply delay socket negotiated
  | auth {delay : Option Nat} {socket : Nat} {user : String} {negotiated : Negotiated}
      (hphase : s.phase = .awaitingAuth delay socket user negotiated)
      (haccept : acceptAuth user reply = .ok ()) :
      LastReply rmp s reply delay socket negotiated

def State.handles? (s : State) : Event → Option Command
  | .task (.command _) => s.channel.head?
  | .task (.drain _) => s.task.deferred.head?
  | _ => none

def State.advance (s : State) (socket : Nat) : State :=
  { s with read := Function.update s.read socket (s.read socket + 1) }

inductive TaskMove (rmp : Rmp) (s : State) : TaskEvent → State → Prop where
  | drained {send : SendResult} (hphase : s.phase = .drain)
      (hdeferred : s.task.deferred = []) :
      TaskMove rmp s (.drain send) { s with phase := .select }
  | replayed {command : Command} {rest : List Command} {send : SendResult} {t : Task}
      {actions : List Action} (hphase : s.phase = .drain)
      (hdeferred : s.task.deferred = command :: rest)
      (hhandle : (s.task.setDeferred rest).handleCommand s.link send command =
        (t, actions, .ok ())) :
      TaskMove rmp s (.drain send) (s.perform t (.handled s.link command :: actions) .drain)
  | replayFailed {command : Command} {rest : List Command} {send : SendResult} {t : Task}
      {actions : List Action} {err : Error} (hphase : s.phase = .drain)
      (hdeferred : s.task.deferred = command :: rest)
      (hhandle : (s.task.setDeferred rest).handleCommand s.link send command =
        (t, actions, .error err)) :
      TaskMove rmp s (.drain send) (s.perform (t.failLink s.link).1
        (.handled s.link command :: actions ++ (t.failLink s.link).2) .select)
  | handled {command : Command} {rest : List Command} {send : SendResult} {t : Task}
      {actions : List Action} (hphase : s.phase = .select)
      (hchannel : s.channel = command :: rest) (hclose : command ≠ .close)
      (hhandle : s.task.handleCommand s.link send command = (t, actions, .ok ())) :
      TaskMove rmp s (.command send) ((s.takeCommand command rest).perform t
        (.handled s.link command :: actions) .drain)
  | handledLost {command : Command} {rest : List Command} {send : SendResult} {t : Task}
      {actions : List Action} {err : Error} (hphase : s.phase = .select)
      (hchannel : s.channel = command :: rest) (hclose : command ≠ .close)
      (hhandle : s.task.handleCommand s.link send command = (t, actions, .error err)) :
      TaskMove rmp s (.command send) ((s.takeCommand command rest).perform t
        (.handled s.link command :: actions) .drain).lose
  | closeCommand {send : SendResult} {rest : List Command} (hphase : s.phase = .select)
      (hchannel : s.channel = .close :: rest) :
      TaskMove rmp s (.command send) ((s.takeCommand .close rest).closeDown .command)
  | channelClosed {send : SendResult} (hphase : s.phase = .select)
      (hchannel : s.channel = []) (hhandles : s.handles = false) :
      TaskMove rmp s (.command send) (s.closeDown .command)
  | received {ack : SendResult} {inbound : Inbound} (hphase : s.phase = .select)
      (hinbound : (s.inbound s.link)[s.read s.link]? = some inbound)
      (hfinished : (s.receive ack inbound).task.finished = false) :
      TaskMove rmp s (.packet ack) (s.receive ack inbound)
  | receivedLast {ack : SendResult} {inbound : Inbound} (hphase : s.phase = .select)
      (hinbound : (s.inbound s.link)[s.read s.link]? = some inbound)
      (hfinished : (s.receive ack inbound).task.finished = true) :
      TaskMove rmp s (.packet ack) ((s.receive ack inbound).closeDown .drained)
  | linkLost {err : Error} (hphase : s.phase = .select) :
      TaskMove rmp s (.linkError err) s.lose
  | woke {delay : Nat} (hphase : s.phase = .backoff delay) :
      TaskMove rmp s .wake { s with phase := .connecting (some delay) }
  | deferred {command : Command} {rest : List Command} {delay : Nat}
      (hphase : s.phase = .backoff delay) (hchannel : s.channel = command :: rest)
      (hclose : command ≠ .close) :
      TaskMove rmp s .reconnectCommand ((s.takeCommand command rest).perform
        (s.task.defer s.link command).1 (s.task.defer s.link command).2
        (.connecting (some delay)))
  | closeWhileDown {rest : List Command} {delay : Nat} (hphase : s.phase = .backoff delay)
      (hchannel : s.channel = .close :: rest) :
      TaskMove rmp s .reconnectCommand (s.takeCommand .close rest).giveUp
  | channelClosedWhileDown {delay : Nat} (hphase : s.phase = .backoff delay)
      (hchannel : s.channel = []) (hhandles : s.handles = false) :
      TaskMove rmp s .reconnectCommand s.giveUp
  | connected {delay : Option Nat} {version : String} {send : SendResult} {phase : Phase}
      (hphase : s.phase = .connecting delay)
      (hafter : Phase.afterSend s.options delay (s.greeted delay version) send = some phase) :
      TaskMove rmp s (.connected version send) (s.greet send phase)
  | authenticated {delay : Option Nat} {socket : Nat} {version user : String}
      {scramble : Bytes} {send : SendResult} {phase : Phase}
      (hphase : s.phase = .authenticating delay socket version)
      (huser : s.options.loginUser = some user)
      (hafter : Phase.afterSend s.options delay (.awaitingId delay socket version) send =
        some phase) :
      TaskMove rmp s (.authenticated scramble send)
        (s.authenticate socket user scramble send phase)
  | attemptFailed {err : Error} {delay : Option Nat} {phase : Phase}
      (hphase : s.phase.attempt = some delay)
      (hafter : Phase.afterFailure s.options delay = some phase) :
      TaskMove rmp s (.handshakeFailed err) { s with phase := phase }
  | replyRejected {order : List String} {send : String → SendResult} {delay : Option Nat}
      {phase : Phase} {socket : Nat} (hsocket : s.phase.socket = some socket)
      (hphase : s.phase.attempt = some delay)
      (hafter : Phase.afterFailure s.options delay = some phase) (hwaits : s.phase.waits = true) :
      TaskMove rmp s (.handshakeReply order send) { s.advance socket with phase := phase }
  | idAccepted {order : List String} {send : String → SendResult} {delay : Option Nat}
      {socket : Nat} {version user : String} {negotiated : Negotiated} {inbound : Inbound}
      (hphase : s.phase = .awaitingId delay socket version)
      (hinbound : (s.inbound socket)[s.read socket]? = some inbound)
      (haccept : acceptId rmp version inbound.response = .ok negotiated)
      (huser : s.options.loginUser = some user) :
      TaskMove rmp s (.handshakeReply order send)
        { s.advance socket with phase := .awaitingAuth delay socket user negotiated }
  | spawned {order : List String} {send : String → SendResult} {socket : Nat}
      {negotiated : Negotiated} {inbound : Inbound}
      (hreply : LastReply rmp s inbound.response none socket negotiated)
      (hinbound : (s.inbound socket)[s.read socket]? = some inbound) :
      TaskMove rmp s (.handshakeReply order send)
        { (s.advance socket).perform s.task [.up socket negotiated] .drain with
          handles := true, negotiated := negotiated, link := socket }
  | reconnected {delay socket : Nat} {negotiated : Negotiated} {inbound : Inbound}
      {order : List String} {send : String → SendResult}
      (hreply : LastReply rmp s inbound.response (some delay) socket negotiated)
      (hinbound : (s.inbound socket)[s.read socket]? = some inbound)
      (horder : order.Perm s.task.watchers.keys) :
      TaskMove rmp s (.handshakeReply order send)
        { (s.advance socket).perform s.task
            (.up socket negotiated :: Task.resubscribe socket send order) .drain with
          link := socket }

/-! ## The list is complete -/

theorem commandStep_move {rmp : Rmp} {s s' : State} {send : SendResult}
    (hphase : s.phase = .select) (h : s.commandStep send = some s') :
    TaskMove rmp s (.command send) s' := by
  unfold State.commandStep at h
  split at h
  next hchannel =>
    split at h
    · contradiction
    next hhandles =>
      cases h
      exact .channelClosed hphase hchannel (by simpa using hhandles)
  next rest hchannel =>
    cases h
    exact .closeCommand hphase hchannel
  next command rest hclose hchannel =>
    rcases hhandle : s.task.handleCommand s.link send command with ⟨t, actions, result⟩
    have htaken : (s.takeCommand command rest).task.handleCommand
        (s.takeCommand command rest).link send command = (t, actions, result) := hhandle
    simp only [htaken] at h
    cases result with
    | ok _ =>
        cases h
        exact .handled hphase hchannel (by rintro rfl; exact hclose rfl) hhandle
    | error err =>
        cases h
        exact .handledLost hphase hchannel (by rintro rfl; exact hclose rfl) hhandle

theorem drainStep_move {rmp : Rmp} {s : State} (send : SendResult)
    (hphase : s.phase = .drain) : TaskMove rmp s (.drain send) (s.drainStep send) := by
  unfold State.drainStep
  split
  next hdeferred => exact .drained hphase hdeferred
  next command rest hdeferred =>
    rcases hhandle : (s.task.setDeferred rest).handleCommand s.link send command
      with ⟨t, actions, result⟩
    simp only
    cases result with
    | ok _ => exact .replayed hphase hdeferred hhandle
    | error err => exact .replayFailed hphase hdeferred hhandle

theorem reconnectCommand_move {rmp : Rmp} {s s' : State} {delay : Nat}
    (hphase : s.phase = .backoff delay) (h : s.reconnectCommand delay = some s') :
    TaskMove rmp s .reconnectCommand s' := by
  unfold State.reconnectCommand at h
  split at h
  next hchannel =>
    split at h
    · contradiction
    next hhandles =>
      cases h
      exact .channelClosedWhileDown hphase hchannel (by simpa using hhandles)
  next rest hchannel =>
    cases h
    exact .closeWhileDown hphase hchannel
  next command rest hclose hchannel =>
    cases h
    exact .deferred hphase hchannel (by rintro rfl; exact hclose rfl)

theorem retry_eq {s s' : State} {delay : Option Nat} (h : s.retry delay = some s') :
    ∃ phase, Phase.afterFailure s.options delay = some phase ∧
      s' = { s with phase := phase } := by
  cases delay with
  | none =>
      cases h
      exact ⟨_, rfl, rfl⟩
  | some delay =>
      simp only [State.retry] at h
      simp only [Phase.afterFailure]
      cases hpolicy : s.options.reconnect with
      | backoff min max =>
          simp only [hpolicy, Option.some.injEq] at h ⊢
          exact ⟨_, rfl, h.symm⟩
      | never => simp [hpolicy] at h

theorem connected_move {rmp : Rmp} {s s' : State} {delay : Option Nat} {version : String}
    {send : SendResult} (hphase : s.phase = .connecting delay)
    (h : s.connected delay version send = some s') :
    TaskMove rmp s (.connected version send) s' := by
  cases send with
  | sent =>
      cases h
      exact .connected hphase rfl
  | failed err buffered =>
      obtain ⟨phase, hafter, rfl⟩ := retry_eq h
      exact .connected hphase hafter

theorem authenticated_move {rmp : Rmp} {s s' : State} {delay : Option Nat} {socket : Nat}
    {version : String} {scramble : Bytes} {send : SendResult}
    (hphase : s.phase = .authenticating delay socket version)
    (h : s.authenticated delay socket version scramble send = some s') :
    TaskMove rmp s (.authenticated scramble send) s' := by
  rw [State.authenticated, Option.bind_eq_some_iff] at h
  obtain ⟨user, huser, h⟩ := h
  cases send with
  | sent =>
      cases h
      exact .authenticated hphase huser rfl
  | failed err buffered =>
      obtain ⟨phase, hafter, rfl⟩ := retry_eq h
      exact .authenticated hphase huser hafter

theorem established_move {rmp : Rmp} {s s' : State} {delay : Option Nat} {socket : Nat}
    {negotiated : Negotiated} {inbound : Inbound} {order : List String}
    {send : String → SendResult}
    (hreply : LastReply rmp s inbound.response delay socket negotiated)
    (hinbound : (s.inbound socket)[s.read socket]? = some inbound)
    (h : (s.advance socket).established delay socket negotiated order send = some s') :
    TaskMove rmp s (.handshakeReply order send) s' := by
  unfold State.established at h
  split at h
  · cases h
    exact .spawned hreply hinbound
  · split at h
    next horder =>
      cases h
      exact .reconnected hreply hinbound horder
    · contradiction

theorem handshakeReply_move {rmp : Rmp} {s s' : State} {order : List String}
    {send : String → SendResult} (h : s.handshakeReply rmp order send = some s') :
    TaskMove rmp s (.handshakeReply order send) s' := by
  unfold State.handshakeReply at h
  split at h
  next delay socket version hphase =>
    rw [Option.bind_eq_some_iff] at h
    obtain ⟨⟨reply, s₁⟩, hread, h⟩ := h
    simp only [State.readHandshake, Option.map_eq_some_iff, Prod.mk.injEq] at hread
    obtain ⟨inbound, hinbound, rfl, rfl⟩ := hread
    simp only at h
    split at h
    next err haccept =>
      obtain ⟨phase, hafter, rfl⟩ := retry_eq h
      exact .replyRejected (by rw [hphase]; rfl) (by rw [hphase]; rfl) hafter (by rw [hphase]; rfl)
    next negotiated haccept =>
      split at h
      next user huser =>
        cases h
        exact .idAccepted hphase hinbound haccept huser
      next huser =>
        exact established_move (.id hphase huser haccept) hinbound h
  next delay socket user negotiated hphase =>
    rw [Option.bind_eq_some_iff] at h
    obtain ⟨⟨reply, s₁⟩, hread, h⟩ := h
    simp only [State.readHandshake, Option.map_eq_some_iff, Prod.mk.injEq] at hread
    obtain ⟨inbound, hinbound, rfl, rfl⟩ := hread
    simp only at h
    split at h
    next err haccept =>
      obtain ⟨phase, hafter, rfl⟩ := retry_eq h
      exact .replyRejected (by rw [hphase]; rfl) (by rw [hphase]; rfl) hafter (by rw [hphase]; rfl)
    next haccept =>
      exact established_move (.auth hphase haccept) hinbound h
  · contradiction

theorem taskStep_move {rmp : Rmp} {s s' : State} {event : TaskEvent}
    (h : taskStep rmp s event = some s') : TaskMove rmp s event s' := by
  cases event with
  | drain send =>
      simp only [taskStep, Option.ite_none_right_eq_some, Option.some.injEq] at h
      obtain ⟨hphase, rfl⟩ := h
      exact drainStep_move send hphase
  | command send =>
      simp only [taskStep, Option.ite_none_right_eq_some] at h
      exact commandStep_move h.1 h.2
  | packet ack =>
      simp only [taskStep, Option.ite_none_right_eq_some, State.packetStep,
        Option.map_eq_some_iff] at h
      obtain ⟨hphase, inbound, hinbound, h⟩ := h
      split at h
      next hfinished =>
        subst h
        exact .receivedLast hphase hinbound hfinished
      next hfinished =>
        subst h
        exact .received hphase hinbound (by simpa using hfinished)
  | linkError err =>
      simp only [taskStep, Option.ite_none_right_eq_some, Option.some.injEq] at h
      obtain ⟨hphase, rfl⟩ := h
      exact .linkLost hphase
  | wake =>
      simp only [taskStep] at h
      split at h
      next delay hphase =>
        cases h
        exact .woke hphase
      · contradiction
  | reconnectCommand =>
      simp only [taskStep] at h
      split at h
      next delay hphase => exact reconnectCommand_move hphase h
      · contradiction
  | connected version send =>
      simp only [taskStep] at h
      split at h
      next delay hphase => exact connected_move hphase h
      · contradiction
  | authenticated scramble send =>
      simp only [taskStep] at h
      split at h
      next delay socket version hphase => exact authenticated_move hphase h
      · contradiction
  | handshakeReply order send => exact handshakeReply_move h
  | handshakeFailed err =>
      simp only [taskStep] at h
      split at h
      all_goals first
        | contradiction
        | (rename_i hphase
           obtain ⟨phase, hafter, rfl⟩ := retry_eq h
           exact .attemptFailed (by rw [hphase]; rfl) hafter)

/-! ## The phase after a step of the handshake -/

theorem afterFailure_cases {options : ConnectOptions} {delay : Option Nat} {phase : Phase}
    (h : Phase.afterFailure options delay = some phase) :
    phase.socket = none ∧ (phase = .done ∨ delay ≠ none ∧ ∃ d, phase = .backoff d) := by
  cases delay with
  | none =>
      cases h
      exact ⟨rfl, .inl rfl⟩
  | some delay =>
      simp only [Phase.afterFailure] at h
      split at h
      · cases h
        exact ⟨rfl, .inr ⟨by simp, _, rfl⟩⟩
      · contradiction

theorem afterSend_cases {options : ConnectOptions} {delay : Option Nat} {next phase : Phase}
    {send : SendResult} (h : Phase.afterSend options delay next send = some phase) :
    send = .sent ∧ phase = next ∨ Phase.afterFailure options delay = some phase := by
  cases send with
  | sent => exact .inl ⟨rfl, (Option.some.inj h).symm⟩
  | failed => exact .inr h

theorem afterSend_not_up {options : ConnectOptions} {delay : Option Nat} {next phase : Phase}
    {send : SendResult} (hnext : next.up = false)
    (h : Phase.afterSend options delay next send = some phase) : phase.up = false := by
  rcases afterSend_cases h with ⟨-, rfl⟩ | hfailed
  · exact hnext
  · obtain ⟨-, rfl | ⟨-, delay, rfl⟩⟩ := afterFailure_cases hfailed <;> rfl

theorem greeted_phase (s : State) (delay : Option Nat) (version : String) :
    (s.greeted delay version).socket = some s.sockets ∧
      (s.greeted delay version).attempt = some delay ∧ (s.greeted delay version).up = false := by
  unfold State.greeted
  split <;> exact ⟨rfl, rfl, rfl⟩

/-! ## What the task leaves alone -/

theorem Handling.deferred_eq {t t' : Task} {link : Nat} {send : SendResult}
    {command : Command} {actions : List Action} {result : Except Error Unit}
    (h : Handling t link send command t' actions result) : t'.deferred = t.deferred := by
  cases h <;> rfl

theorem Routing.deferred_eq {t t' : Task} {link : Nat} {alive : Nat → Bool}
    {ack : SendResult} {arrival : Arrival} {actions : List Action}
    (h : Routing t link alive ack arrival t' actions) : t'.deferred = t.deferred := by
  cases h <;> rfl

structure CallersUntouched (s s' : State) : Prop where
  options : s'.options = s.options
  nextSync : s'.nextSync = s.nextSync
  nextWatchId : s'.nextWatchId = s.nextWatchId
  calls : s'.calls = s.calls
  streams : s'.streams = s.streams
  watching : s'.watching = s.watching
  inbound : s'.inbound = s.inbound

theorem lose_untouched (s : State) : CallersUntouched s s.lose := by
  simp only [State.lose]
  split <;> exact ⟨rfl, rfl, rfl, rfl, rfl, rfl, rfl⟩

theorem TaskMove.untouched {rmp : Rmp} {s s' : State} {event : TaskEvent}
    (h : TaskMove rmp s event s') :
    CallersUntouched s s' := by
  cases h with
  | handledLost =>
      obtain ⟨h₁, h₂, h₃, h₄, h₅, h₆, h₇⟩ := lose_untouched _
      exact ⟨h₁, h₂, h₃, h₄, h₅, h₆, h₇⟩
  | linkLost => exact lose_untouched s
  | _ => exact ⟨rfl, rfl, rfl, rfl, rfl, rfl, rfl⟩

end Tarant.Connection
