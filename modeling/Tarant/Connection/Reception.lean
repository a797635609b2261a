import Tarant.Replies
import Tarant.Connection.Outage

/-!
# Packets from bytes

The sockets carry bytes.  What arrives is kept in the buffer of the socket's `Framed`,
and the task goes on with a packet once `Codec::decode` cuts one off it.  Every run of
the connection over bytes is a run of the connection over packets, and the packets are
those that the bytes spell.
-/

namespace Tarant.Connection

open Foundation
open Codec (decode decodeAll)

/-! ## The connection over bytes -/

def State.awaited (s : State) : Option Nat :=
  if s.phase = .select then some s.link else if s.phase.waits then s.phase.socket else none

def TaskEvent.reads : TaskEvent → Bool
  | .packet _ | .handshakeReply _ _ => true
  | _ => false

def State.recvFailed (s : State) (err : Error) : TaskEvent :=
  if s.phase = .select then .linkError err else .handshakeFailed err

structure Buffered where
  state : State
  buffer : Nat → Bytes := fun _ => []
  arrived : Nat → Bytes := fun _ => []

inductive SocketEvent where
  | caller (event : CallerEvent)
  /-- The task does anything but read. -/
  | task (event : TaskEvent)
  | arrive (socket : Nat) (chunk : Bytes)
  /-- `recv` returns, and the task does `event` with a packet; what the packet answers
  is for the record. -/
  | recv (answers : Option Nat) (event : TaskEvent)

namespace Buffered

def recv (rmp : Rmp) (x : Buffered) (answers : Option Nat) (event : TaskEvent) :
    Option Buffered :=
  x.state.awaited.bind fun socket =>
    match decode rmp (x.buffer socket) with
    | (.ok none, _) => none
    | (.ok (some response), rest) =>
        if event.reads then
          (serverStep x.state socket ⟨response, answers⟩).bind fun s =>
            (taskStep rmp s event).map fun s =>
              { x with state := s, buffer := Function.update x.buffer socket rest }
        else none
    -- the socket is dropped, and its buffer with it
    | (.error err, _) =>
        (taskStep rmp x.state (x.state.recvFailed err)).map fun s => { x with state := s }

def step (rmp : Rmp) (x : Buffered) : SocketEvent → Option Buffered
  | .caller event => (callerStep x.state event).map fun s => { x with state := s }
  | .task event =>
      if event.reads then none
      else (taskStep rmp x.state event).map fun s => { x with state := s }
  | .arrive socket chunk =>
      if socket < x.state.sockets then
        some { x with
          buffer := Function.update x.buffer socket (x.buffer socket ++ chunk)
          arrived := Function.update x.arrived socket (x.arrived socket ++ chunk) }
      else none
  | .recv answers event => x.recv rmp answers event

end Buffered

inductive Buffered.Move (rmp : Rmp) (x : Buffered) : SocketEvent → Buffered → Prop where
  | caller {event : CallerEvent} {s : State} (h : callerStep x.state event = some s) :
      Move rmp x (.caller event) { x with state := s }
  | task {event : TaskEvent} {s : State} (hreads : event.reads = false)
      (h : taskStep rmp x.state event = some s) : Move rmp x (.task event) { x with state := s }
  | arrived {socket : Nat} {chunk : Bytes} (h : socket < x.state.sockets) :
      Move rmp x (.arrive socket chunk) { x with
        buffer := Function.update x.buffer socket (x.buffer socket ++ chunk)
        arrived := Function.update x.arrived socket (x.arrived socket ++ chunk) }
  | packet {answers : Option Nat} {event : TaskEvent} {socket : Nat} {response : Response}
      {rest : Bytes} {s s' : State} (hsocket : x.state.awaited = some socket)
      (hcut : decode rmp (x.buffer socket) = (.ok (some response), rest))
      (hserver : serverStep x.state socket ⟨response, answers⟩ = some s)
      (hreads : event.reads = true) (h : taskStep rmp s event = some s') :
      Move rmp x (.recv answers event)
        { x with state := s', buffer := Function.update x.buffer socket rest }
  | failed {answers : Option Nat} {event : TaskEvent} {socket : Nat} {err : Error} {rest : Bytes}
      {s : State} (hsocket : x.state.awaited = some socket)
      (hcut : decode rmp (x.buffer socket) = (.error err, rest))
      (h : taskStep rmp x.state (x.state.recvFailed err) = some s) :
      Move rmp x (.recv answers event) { x with state := s }

theorem Buffered.step_move {rmp : Rmp} {x y : Buffered} {event : SocketEvent}
    (h : x.step rmp event = some y) : Buffered.Move rmp x event y := by
  cases event with
  | caller event =>
      obtain ⟨s, hcaller, rfl⟩ := Option.map_eq_some_iff.mp h
      exact .caller hcaller
  | task event =>
      obtain ⟨hreads, h⟩ := Option.ite_none_left_eq_some.mp h
      obtain ⟨s, htask, rfl⟩ := Option.map_eq_some_iff.mp h
      exact .task (Bool.not_eq_true _ ▸ hreads) htask
  | arrive socket chunk =>
      obtain ⟨hsocket, heq⟩ := Option.ite_none_right_eq_some.mp h
      obtain rfl := Option.some.inj heq
      exact .arrived hsocket
  | recv answers event =>
      obtain ⟨socket, hsocket, h⟩ := Option.bind_eq_some_iff.mp h
      split at h
      · cases h
      next response rest hcut =>
        obtain ⟨hreads, h⟩ := Option.ite_none_right_eq_some.mp h
        obtain ⟨s, hserver, h⟩ := Option.bind_eq_some_iff.mp h
        obtain ⟨s', htask, rfl⟩ := Option.map_eq_some_iff.mp h
        exact .packet hsocket hcut hserver hreads htask
      next err rest hcut =>
        obtain ⟨s, htask, rfl⟩ := Option.map_eq_some_iff.mp h
        exact .failed hsocket hcut htask

/-- The steps of the connection that a step over bytes stands for are allowed. -/
def Buffered.Allows (rmp : Rmp) (allowed : State → Event → Prop) (x : Buffered) :
    SocketEvent → Prop
  | .caller event => allowed x.state (.caller event)
  | .task event => allowed x.state (.task event)
  | .arrive _ _ => True
  | .recv answers event => ∀ socket, x.state.awaited = some socket →
      (∀ response rest s, decode rmp (x.buffer socket) = (.ok (some response), rest) →
        serverStep x.state socket ⟨response, answers⟩ = some s →
        allowed x.state (.server socket ⟨response, answers⟩) ∧ allowed s (.task event)) ∧
      ∀ err rest, decode rmp (x.buffer socket) = (.error err, rest) →
        allowed x.state (.task (x.state.recvFailed err))

theorem Buffered.Move.reaches {rmp : Rmp} {allowed : State → Event → Prop} {x y : Buffered}
    {event : SocketEvent} (h : Buffered.Move rmp x event y)
    (hallows : x.Allows rmp allowed event) :
    Reaches (Connection.step rmp) allowed x.state y.state := by
  cases h with
  | @caller event _ h => exact .next (e := .caller event) .refl hallows h
  | @task event _ _ h => exact .next (e := .task event) .refl hallows h
  | arrived => exact .refl
  | @packet answers event socket response _ _ _ hsocket hcut hserver _ h =>
      obtain ⟨hsends, hreads⟩ := (hallows _ hsocket).1 _ _ _ hcut hserver
      exact .next (e := .task event)
        (.next (e := .server socket ⟨response, answers⟩) .refl hsends hserver) hreads h
  | @failed _ _ _ err _ _ hsocket hcut h =>
      exact .next (e := .task (x.state.recvFailed err)) .refl ((hallows _ hsocket).2 _ _ hcut) h

def ReceivesBy (rmp : Rmp) (options : ConnectOptions) (allowed : State → Event → Prop)
    (x : Buffered) : Prop :=
  Reaches (Buffered.step rmp) (Buffered.Allows rmp allowed) { state := State.initial options } x

theorem ReceivesBy.reachableBy {rmp : Rmp} {options : ConnectOptions}
    {allowed : State → Event → Prop} {x : Buffered} (h : ReceivesBy rmp options allowed x) :
    ReachableBy rmp options allowed x.state := by
  refine Reaches.invariant (I := fun x => ReachableBy rmp options allowed x.state) ?_ ?_ h
  · exact .refl
  · intro x y event _ hreachable hallows hstep
    exact Reaches.trans hreachable ((Buffered.step_move hstep).reaches hallows)

def Receives (rmp : Rmp) (options : ConnectOptions) (x : Buffered) : Prop :=
  Reaches (Buffered.step rmp) anyStep { state := State.initial options } x

theorem Receives.reachable {rmp : Rmp} {options : ConnectOptions} {x : Buffered}
    (h : Receives rmp options x) : Reachable rmp options x.state := by
  refine ReceivesBy.reachableBy (Reaches.mono (fun x event _ => ?_) h)
  cases event with
  | recv => exact fun _ _ => ⟨fun _ _ _ _ _ => ⟨trivial, trivial⟩, fun _ _ _ => trivial⟩
  | _ => trivial

/-! ## What the task reads -/

theorem LastReply.awaited {rmp : Rmp} {s : State} {reply : Response} {delay : Option Nat}
    {socket : Nat} {negotiated : Negotiated}
    (h : LastReply rmp s reply delay socket negotiated) : s.awaited = some socket := by
  cases h with
  | id hphase => simp [State.awaited, hphase, Phase.socket, Phase.waits]
  | auth hphase => simp [State.awaited, hphase, Phase.socket, Phase.waits]

theorem TaskMove.read_eq {rmp : Rmp} {s s' : State} {event : TaskEvent}
    (h : TaskMove rmp s event s') (hreads : event.reads = false) : s'.read = s.read := by
  cases h with
  | handledLost => exact lose_read _
  | linkLost => exact lose_read s
  | received | receivedLast | replyRejected | idAccepted | spawned | reconnected =>
      cases hreads
  | _ => rfl

theorem TaskMove.reads {rmp : Rmp} {s s' : State} {event : TaskEvent}
    (h : TaskMove rmp s event s') (hreads : event.reads = true) :
    ∃ socket, s.awaited = some socket ∧
      s'.read = Function.update s.read socket (s.read socket + 1) := by
  cases h with
  | received hphase => exact ⟨s.link, if_pos hphase, rfl⟩
  | receivedLast hphase => exact ⟨s.link, if_pos hphase, rfl⟩
  | @replyRejected _ _ _ _ socket hsocket _ _ hwaits =>
      refine ⟨socket, ?_, rfl⟩
      rw [State.awaited, if_neg, if_pos hwaits, hsocket]
      intro hphase
      rw [hphase] at hsocket
      cases hsocket
  | @idAccepted _ _ _ socket _ _ _ _ hphase =>
      exact ⟨socket, by simp [State.awaited, hphase, Phase.socket, Phase.waits], rfl⟩
  | spawned hreply | reconnected hreply => exact ⟨_, hreply.awaited, rfl⟩
  | _ => cases hreads

/-! ## Decoding goes on where it stopped -/

theorem results_waiting {rmp : Rmp} {src rest : Bytes} (h : decode rmp src = (.ok none, rest)) :
    (decodeAll rmp src).results = [] := by
  rw [Codec.decodeAll_eq, h]
  rfl

theorem results_cut {rmp : Rmp} {src rest : Bytes} {response : Response}
    (h : decode rmp src = (.ok (some response), rest)) (more : Bytes) :
    (decodeAll rmp (src ++ more)).results =
      .ok response :: (decodeAll rmp (rest ++ more)).results := by
  rw [Codec.decodeAll_eq, Codec.decode_append_of_ne_waiting rmp h (by simp) more]
  rfl

/-! ## Runs over bytes -/

def State.responses (s : State) (socket : Nat) : List Response :=
  (s.inbound socket).map Inbound.response

/-- What was read and what is in the buffer spell what arrived, now and with any bytes to
come. -/
structure Buffered.Sound (rmp : Rmp) (x : Buffered) : Prop where
  read : ∀ socket, x.state.read socket = (x.state.inbound socket).length
  decoded : ∀ socket more, (decodeAll rmp (x.arrived socket ++ more)).results =
    (x.state.responses socket).map .ok ++ (decodeAll rmp (x.buffer socket ++ more)).results

namespace Buffered.Sound

variable {rmp : Rmp} {x y : Buffered}

theorem still (h : x.Sound rmp) {s : State} (hinbound : s.inbound = x.state.inbound)
    (hread : s.read = x.state.read) : Sound rmp { x with state := s } where
  read := by
    rw [hinbound, hread]
    exact h.read
  decoded := by
    simp only [State.responses, hinbound]
    exact h.decoded

theorem arrive (h : x.Sound rmp) (socket : Nat) (chunk : Bytes) :
    Sound rmp { x with
      buffer := Function.update x.buffer socket (x.buffer socket ++ chunk)
      arrived := Function.update x.arrived socket (x.arrived socket ++ chunk) } := by
  refine ⟨h.read, fun other more => ?_⟩
  dsimp only
  by_cases hother : other = socket
  · subst hother
    rw [Function.update_self, Function.update_self, List.append_assoc, List.append_assoc]
    exact h.decoded other (chunk ++ more)
  · rw [Function.update_of_ne hother, Function.update_of_ne hother]
    exact h.decoded other more

theorem packet (h : x.Sound rmp) {socket : Nat} {response : Response} {rest : Bytes}
    {answers : Option Nat} {event : TaskEvent} {s s' : State}
    (hsocket : x.state.awaited = some socket)
    (hcut : decode rmp (x.buffer socket) = (.ok (some response), rest))
    (hserver : serverStep x.state socket ⟨response, answers⟩ = some s)
    (hreads : event.reads = true) (htask : taskStep rmp s event = some s') :
    Sound rmp { x with state := s', buffer := Function.update x.buffer socket rest } := by
  simp only [serverStep, Option.ite_none_right_eq_some, Option.some.injEq] at hserver
  obtain ⟨-, rfl⟩ := hserver
  have hmove := taskStep_move htask
  obtain ⟨awaited, hawaited, hread⟩ := hmove.reads hreads
  obtain rfl : socket = awaited := Option.some.inj (hsocket.symm.trans hawaited)
  have hinbound := hmove.untouched.inbound
  refine ⟨fun other => ?_, fun other more => ?_⟩
  · by_cases hother : other = socket
    · subst hother
      simp [hinbound, hread, h.read]
    · simp [hinbound, hread, hother, h.read]
  · simp only [State.responses, hinbound]
    by_cases hother : other = socket
    · subst hother
      rw [Function.update_self, Function.update_self, h.decoded other more,
        results_cut hcut more, List.map_append, List.map_append, List.append_assoc]
      rfl
    · rw [Function.update_of_ne hother, Function.update_of_ne hother]
      exact h.decoded other more

theorem moved (h : x.Sound rmp) {event : SocketEvent} (hmove : Buffered.Move rmp x event y) :
    y.Sound rmp := by
  cases hmove with
  | caller hcaller =>
      have huntouched := (callerStep_move hcaller).untouched
      exact h.still huntouched.inbound huntouched.read
  | task hreads htask =>
      have hmove := taskStep_move htask
      exact h.still hmove.untouched.inbound (hmove.read_eq hreads)
  | arrived => exact h.arrive _ _
  | packet hsocket hcut hserver hreads htask => exact h.packet hsocket hcut hserver hreads htask
  | failed hsocket hcut htask =>
      have hmove := taskStep_move htask
      refine h.still hmove.untouched.inbound (hmove.read_eq ?_)
      unfold State.recvFailed
      split <;> rfl

end Buffered.Sound

theorem Receives.sound {rmp : Rmp} {options : ConnectOptions} {x : Buffered}
    (h : Receives rmp options x) : x.Sound rmp := by
  refine Reaches.invariant (I := fun x => x.Sound rmp) ⟨fun _ => rfl, fun _ _ => rfl⟩ ?_ h
  intro x y event _ hsound _ hstep
  exact hsound.moved (Buffered.step_move hstep)

/-! ## Nothing that was decoded stops the task -/

theorem established_isSome {s : State} {send : String → SendResult} (delay : Option Nat)
    (socket : Nat) (negotiated : Negotiated) :
    (s.established delay socket negotiated s.task.watchers.keys send).isSome := by
  cases delay with
  | none => rfl
  | some delay => simp [State.established]

theorem Persistent.handshakeReply_isSome {rmp : Rmp} {s : State} (h : Persistent s)
    {socket : Nat} {inbound : Inbound} (hsocket : s.phase.socket = some socket)
    (hwaits : s.phase.waits = true) (hget : (s.inbound socket)[s.read socket]? = some inbound) :
    (s.handshakeReply rmp s.task.watchers.keys fun _ => .sent).isSome := by
  have hattempt : ∃ delay, s.phase.attempt = some delay := by
    cases hphase : s.phase <;> simp_all [Phase.waits, Phase.attempt]
  obtain ⟨delay, hattempt⟩ := hattempt
  have hread : s.readHandshake socket = some (inbound.response, s.advance socket) := by
    simp [State.readHandshake, hget, State.advance]
  obtain ⟨phase, -, hretry⟩ := h.retry (t := s.advance socket) hattempt rfl
  have hretry : ((s.advance socket).retry delay).isSome := by rw [hretry]; rfl
  have hestablished (negotiated : Negotiated) : ((s.advance socket).established delay socket
      negotiated s.task.watchers.keys fun _ => .sent).isSome := established_isSome _ _ _
  cases hphase : s.phase with
  | awaitingId delay' socket' version =>
      rw [hphase] at hsocket hattempt
      obtain rfl := Option.some.inj hsocket
      obtain rfl := Option.some.inj hattempt
      simp only [State.handshakeReply, hphase, hread, Option.bind_some]
      split
      · exact hretry
      · split
        · rfl
        · exact hestablished _
  | awaitingAuth delay' socket' user negotiated =>
      rw [hphase] at hsocket hattempt
      obtain rfl := Option.some.inj hsocket
      obtain rfl := Option.some.inj hattempt
      simp only [State.handshakeReply, hphase, hread, Option.bind_some]
      split
      · exact hretry
      · exact hestablished _
  | _ => simp [hphase, Phase.waits] at hwaits

theorem awaited_cases {s : State} {socket : Nat} (h : s.awaited = some socket) :
    s.phase = .select ∧ socket = s.link ∨
      s.phase ≠ .select ∧ s.phase.waits = true ∧ s.phase.socket = some socket := by
  unfold State.awaited at h
  split at h
  next hselect => exact .inl ⟨hselect, (Option.some.inj h).symm⟩
  next hselect =>
    obtain ⟨hwaits, hsocket⟩ := Option.ite_none_right_eq_some.mp h
    exact .inr ⟨hselect, hwaits, hsocket⟩

theorem Persistent.reads_isSome {rmp : Rmp} {s : State} (h : Persistent s) {socket : Nat}
    {inbound : Inbound} (hsocket : s.awaited = some socket)
    (hget : (s.inbound socket)[s.read socket]? = some inbound) :
    ∃ event : TaskEvent, event.reads = true ∧ (taskStep rmp s event).isSome := by
  rcases awaited_cases hsocket with ⟨hphase, rfl⟩ | ⟨-, hwaits, hsocket⟩
  · exact ⟨.packet .sent, rfl, by simp [taskStep, hphase, State.packetStep, hget]⟩
  · exact ⟨.handshakeReply s.task.watchers.keys fun _ => .sent, rfl,
      h.handshakeReply_isSome hsocket hwaits hget⟩

theorem Persistent.recvFailed_isSome {rmp : Rmp} {s : State} (h : Persistent s) {socket : Nat}
    (hsocket : s.awaited = some socket) (err : Error) :
    (taskStep rmp s (s.recvFailed err)).isSome := by
  rcases awaited_cases hsocket with ⟨hphase, rfl⟩ | ⟨hselect, hwaits, -⟩
  · simp [State.recvFailed, taskStep, hphase]
  · have hfailed : s.recvFailed err = .handshakeFailed err := if_neg hselect
    rw [hfailed]
    cases hphase : s.phase with
    | awaitingId delay | awaitingAuth delay =>
        have hattempt : s.phase.attempt = some delay := by rw [hphase]; rfl
        obtain ⟨phase, -, hretry⟩ := h.retry (t := s) hattempt rfl
        simp only [taskStep, hphase, hretry, Option.isSome_some]
    | _ => simp [hphase, Phase.waits] at hwaits

theorem Receives.goes_on {rmp : Rmp} {options : ConnectOptions} {x : Buffered}
    (h : Receives rmp options x) {socket : Nat} (hsocket : x.state.awaited = some socket)
    (hcut : ∀ rest, decode rmp (x.buffer socket) ≠ (.ok none, rest)) (answers : Option Nat) :
    ∃ event, (x.step rmp (.recv answers event)).isSome := by
  have hpersistent := h.reachable.persistent
  have hopened : socket < x.state.sockets := by
    rcases awaited_cases hsocket with ⟨hphase, rfl⟩ | ⟨-, -, hsocket⟩
    · exact h.reachable.links.opened (by rw [hphase]; nofun) (by simp [hphase])
    · exact (h.reachable.links.socket socket hsocket).1
  rcases hdecode : decode rmp (x.buffer socket) with ⟨result, rest⟩
  cases result with
  | error err =>
      refine ⟨.wake, ?_⟩
      simpa [Buffered.step, Buffered.recv, hsocket, hdecode] using
        hpersistent.recvFailed_isSome hsocket err
  | ok response? =>
      cases response? with
      | none => exact absurd hdecode (hcut rest)
      | some response =>
          obtain ⟨s, hs⟩ : ∃ s : State, s = { x.state with
            inbound := Function.update x.state.inbound socket
              (x.state.inbound socket ++ [⟨response, answers⟩]) } := ⟨_, rfl⟩
          have hserver : serverStep x.state socket ⟨response, answers⟩ = some s := by
            rw [hs]
            exact if_pos hopened
          have hget : (s.inbound socket)[s.read socket]? = some ⟨response, answers⟩ := by
            simp [hs, h.sound.read socket]
          have hpersistent' : Persistent s := by rwa [hs]
          obtain ⟨event, hreads, hstep⟩ := @Persistent.reads_isSome rmp s hpersistent' socket _
            (by rw [hs]; exact hsocket) hget
          refine ⟨event, ?_⟩
          simpa [Buffered.step, Buffered.recv, hsocket, hdecode, hreads, hserver] using hstep

/-! ## Main result -/

theorem results_frames {rmp : Rmp} {frames : List Codec.Framed}
    (hlegal : ∀ f ∈ frames, f.Legal rmp) (rest : Bytes) :
    (decodeAll rmp (frames.flatMap Codec.Framed.bytes ++ rest)).results =
      (frames.map Codec.Framed.response).map .ok ++ (decodeAll rmp rest).results := by
  induction frames with
  | nil => rfl
  | cons framed frames ih =>
      obtain ⟨hframed, hframes⟩ := List.forall_mem_cons.mp hlegal
      have hcut := Codec.decode_frame rmp hframed.holds hframed.limit []
      rw [hframed.accepted, List.append_nil] at hcut
      rw [List.flatMap_cons, List.append_assoc, Codec.Framed.bytes, results_cut hcut,
        List.nil_append, ih hframes]
      rfl

theorem results_error {rmp : Rmp} {src rest : Bytes} {err : Error}
    (h : decode rmp src = (.error err, rest)) (more : Bytes) :
    (decodeAll rmp (src ++ more)).results = [.error err] := by
  rw [Codec.decodeAll_eq, Codec.decode_append_of_ne_waiting rmp h (by simp) more]
  rfl

theorem prefix_of_ok {as bs : List Response} {more : List (Except Error Response)}
    (h : as.map .ok = bs.map Except.ok ++ more) : bs <+: as := by
  obtain ⟨first, others, rfl, hfirst, -⟩ := List.map_eq_append_iff.mp h
  rw [List.map_inj_right fun _ _ => Except.ok.inj] at hfirst
  exact hfirst ▸ List.prefix_append first others

theorem Buffered.Sound.results_of_legal {rmp : Rmp} {x : Buffered} (h : x.Sound rmp)
    {frames : List Codec.Framed} (hlegal : ∀ f ∈ frames, f.Legal rmp) {socket : Nat}
    {rest : Bytes} (harrived : x.arrived socket ++ rest = frames.flatMap Codec.Framed.bytes) :
    (frames.map Codec.Framed.response).map .ok =
      (x.state.responses socket).map .ok ++ (decodeAll rmp (x.buffer socket ++ rest)).results := by
  have hwhole := results_frames hlegal []
  have hnil : (decodeAll rmp []).results = [] := rfl
  rw [List.append_nil, ← harrived, h.decoded socket rest, hnil, List.append_nil] at hwhole
  exact hwhole.symm

/-- Over bytes the connection does what it does over packets, whatever packets come, and
reads from each socket those that the bytes spell, however they were cut on their way: of a
server that writes legal frames nothing but its packets in their order, and all that arrived
when it waits for more; and no cut makes it fail the link. -/
theorem packets_read_from_bytes {rmp : Rmp} {options : ConnectOptions} {x : Buffered}
    (h : Receives rmp options x) :
    Reachable rmp options x.state ∧
    (∀ socket, x.state.awaited = some socket →
      (∀ rest, decode rmp (x.buffer socket) ≠ (.ok none, rest)) →
      ∀ answers, ∃ event, (x.step rmp (.recv answers event)).isSome) ∧
    ∀ socket, (x.state.responses socket).map .ok <+: (decodeAll rmp (x.arrived socket)).results ∧
      ∀ frames : List Codec.Framed, (∀ f ∈ frames, f.Legal rmp) →
        (x.arrived socket <+: frames.flatMap Codec.Framed.bytes →
          x.state.responses socket <+: frames.map Codec.Framed.response ∧
          ∀ err rest, decode rmp (x.buffer socket) ≠ (.error err, rest)) ∧
        (frames.flatMap Codec.Framed.bytes <+: x.arrived socket →
          ∀ rest, decode rmp (x.buffer socket) = (.ok none, rest) →
            frames.map Codec.Framed.response <+: x.state.responses socket) := by
  have hsound := h.sound
  refine ⟨h.reachable, fun socket => h.goes_on, fun socket => ⟨?_, fun frames hlegal => ⟨?_, ?_⟩⟩⟩
  · have hdecoded := hsound.decoded socket []
    rw [List.append_nil] at hdecoded
    exact hdecoded ▸ List.prefix_append _ _
  · rintro ⟨rest, hrest⟩
    have hwhole := hsound.results_of_legal hlegal hrest
    refine ⟨prefix_of_ok hwhole, fun err left herror => ?_⟩
    rw [results_error herror] at hwhole
    have hmem : Except.error err ∈ (frames.map Codec.Framed.response).map .ok :=
      hwhole ▸ List.mem_append_right _ List.mem_cons_self
    simp at hmem
  · rintro ⟨rest, hrest⟩ left hwaiting
    have hdecoded := hsound.decoded socket []
    rw [List.append_nil, List.append_nil, ← hrest, results_frames hlegal,
      results_waiting hwaiting, List.append_nil] at hdecoded
    exact prefix_of_ok hdecoded.symm

def sampleFrames : List Codec.Framed :=
  [⟨.fixint, [0x82, 0x00, 0x00, 0x01, 0x00, 0x80], { kind := .ok, sync := 0, body := [0x80] }⟩,
    ⟨.uint8, [0x81, 0x00, 0x4c, 0x82, 0x57, 0xa1, 0x6b, 0x58, 0x05],
      { kind := .event, sync := 0, body := [0x82, 0x57, 0xa1, 0x6b, 0x58, 0x05]
        eventKey := some "k", eventData := some (5, 6) }⟩]

def sampleReception : List SocketEvent :=
  let bytes := sampleFrames.flatMap Codec.Framed.bytes
  [.task (.connected "1.10.0" .sent), .arrive 0 (bytes.take 3), .arrive 0 ((bytes.drop 3).take 6),
    .recv (some 0) (.handshakeReply [] fun _ => .sent), .task (.drain .sent),
    .arrive 0 (bytes.drop 9), .recv none (.packet .sent)]

theorem packets_read_from_bytes_sample :
    (∀ f ∈ sampleFrames, f.Legal sampleRmp) ∧
    ∃ x, Receives sampleRmp {} x ∧ x.state.phase = .drain ∧
      x.state.responses 0 = sampleFrames.map Codec.Framed.response := by
  have hlegal : ∀ f ∈ sampleFrames, f.Legal sampleRmp := by
    intro f hf
    simp only [sampleFrames, List.mem_cons, List.not_mem_nil, or_false] at hf
    obtain rfl | rfl := hf
    · exact ⟨by decide, by simp [Codec.Width.Holds], rfl⟩
    · exact ⟨by decide, by simp [Codec.Width.Holds], rfl⟩
  obtain ⟨x, hreach, hcheck⟩ := reaches_of_check (Buffered.step sampleRmp)
    { state := .initial {} } sampleReception
    (fun x => decide (x.state.phase = .drain ∧ x.buffer 0 = [] ∧
      x.arrived 0 = sampleFrames.flatMap Codec.Framed.bytes)) (by decide +kernel)
  obtain ⟨hphase, hbuffer, harrived⟩ := of_decide_eq_true hcheck
  obtain ⟨hnothing, hall⟩ := ((packets_read_from_bytes hreach).2.2 0).2 sampleFrames hlegal
  have hfirst := (hnothing (harrived ▸ List.prefix_rfl)).1
  have hrest := hall (harrived ▸ List.prefix_rfl) [] (by rw [hbuffer]; rfl)
  exact ⟨hlegal, x, hreach, hphase, hfirst.eq_of_length_le hrest.length_le⟩

end Tarant.Connection
