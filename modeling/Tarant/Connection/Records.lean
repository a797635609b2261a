import Tarant.Connection.Links

/-!
# What a step adds to the history

Every record has a cause in the state before the step.  `Recorded` lists the
causes; what may stand in a history is proved from it.
-/

namespace Tarant.Connection

open Foundation
open Iproto

def Origin.handshake : Origin → Bool
  | .handshakeId | .handshakeAuth => true
  | _ => false

inductive Recorded (rmp : Rmp) (s : State) (event : TaskEvent) (s' : State) :
    Action → Prop where
  | took {command : Command} (hmem : command ∈ s.channel) :
      Recorded rmp s event s' (.took command)
  | handled {command : Command} (hup : s.phase.up = true) :
      Recorded rmp s event s' (.handled s.link command)
  | handling (deferred : List Command) {t : Task} {send : SendResult} {command : Command}
      {actions : List Action} {result : Except Error Unit} {action : Action}
      (hup : s.phase.up = true) (hlink : s'.link = s.link)
      (hhandling : Handling (s.task.setDeferred deferred) s.link send command t actions result)
      (hmem : action ∈ actions) : Recorded rmp s event s' action
  | routing {ack : SendResult} {inbound : Inbound} {t : Task} {actions : List Action}
      {action : Action} (hphase : s.phase = .select) (hlink : s'.link = s.link)
      (hinbound : (s.inbound s.link)[s.read s.link]? = some inbound)
      (hrouting : Routing s.task s.link s.receiverAlive ack
        ⟨inbound.response, s.link, s.read s.link⟩ t actions)
      (hmem : action ∈ actions) : Recorded rmp s event s' action
  | settled {ticket : Nat} {answer : Answer}
      (hanswer : answer = .error .closed ∨ answer = .dropped) :
      Recorded rmp s event s' (.answered s.link ticket answer)
  | lost {waiting : List Nat} (hup : s.phase.up = true) :
      Recorded rmp s event s' (.lost s.link waiting)
  | closed (hphase : s.phase = .select) :
      Recorded rmp s event s' (.closedSocket s.link .command)
  | drained {ack : SendResult} {inbound : Inbound} (hevent : event = .packet ack)
      (hdone : s'.phase = .done) (hinbound : (s.inbound s.link)[s.read s.link]? = some inbound)
      (hfinished : (s.receive ack inbound).task.finished = true) :
      Recorded rmp s event s' (.closedSocket s.link .drained)
  | discarded {command : Command} (hmem : command ∈ s.channel) :
      Recorded rmp s event s' (.discarded command)
  | greeted {delay : Option Nat} {send : SendResult} (hphase : s.phase = .connecting delay)
      (hsockets : s'.sockets = s.sockets + 1) :
      Recorded rmp s event s' (.wrote s.sockets .handshakeId idPacket send)
  | loggedIn {delay : Option Nat} {socket : Nat} {version user : String} {scramble : Bytes}
      {send : SendResult} (hphase : s.phase = .authenticating delay socket version)
      (huser : s.options.loginUser = some user) (hevent : event = .authenticated scramble send) :
      Recorded rmp s event s' (.wrote socket .handshakeAuth (authPacket user scramble) send)
  | up {delay : Option Nat} {socket : Nat} {negotiated : Negotiated} {inbound : Inbound}
      (hreply : LastReply rmp s inbound.response delay socket negotiated)
      (hinbound : (s.inbound socket)[s.read socket]? = some inbound)
      (hlink : s'.link = socket) (hup : s'.phase.up = true) :
      Recorded rmp s event s' (.up socket negotiated)
  | resubscribed {delay socket : Nat} {negotiated : Negotiated} {inbound : Inbound}
      {key : String} {result : SendResult}
      (hreply : LastReply rmp s inbound.response (some delay) socket negotiated)
      (hlink : s'.link = socket) (hkey : key ∈ s.task.watchers) :
      Recorded rmp s event s' (.wrote socket .resubscribe (watchPacket Request.watch key) result)

theorem failPending_recorded {rmp : Rmp} {s s' : State} {event : TaskEvent} (t : Task) :
    ∀ action ∈ (t.failPending s.link).2, Recorded rmp s event s' action := by
  rw [Task.failPending, List.forall_mem_map]
  exact fun _ _ => .settled (.inl rfl)

theorem answered_recorded {rmp : Rmp} {s s' : State} {event : TaskEvent} {answer : Answer}
    (hanswer : answer = .error .closed ∨ answer = .dropped) (tickets : List Nat) :
    ∀ action ∈ tickets.map fun ticket => Action.answered s.link ticket answer,
      Recorded rmp s event s' action := by
  rw [List.forall_mem_map]
  exact fun _ _ => .settled hanswer

theorem discarded_recorded {rmp : Rmp} {s s' : State} {event : TaskEvent}
    {commands : List Command} (h : ∀ command ∈ commands, command ∈ s.channel) :
    ∀ action ∈ commands.map Action.discarded, Recorded rmp s event s' action := by
  rw [List.forall_mem_map]
  exact fun command hmem => .discarded (h command hmem)

theorem closeDown_recorded {rmp : Rmp} {s s' : State} {event : TaskEvent}
    {cause : CloseCause} {t : Task} {commands : List Command}
    (hclosed : Recorded rmp s event s' (.closedSocket s.link cause))
    (hcommands : ∀ command ∈ commands, command ∈ s.channel) :
    ∀ action ∈ .closedSocket s.link cause :: ((t.failPending s.link).2 ++
      ((t.failPending s.link).1.dropDeferred s.link).2) ++ commands.map Action.discarded,
      Recorded rmp s event s' action := by
  simp only [List.forall_mem_append, List.forall_mem_cons]
  exact ⟨⟨hclosed, failPending_recorded t, answered_recorded (.inr rfl) _⟩,
    discarded_recorded hcommands⟩

theorem giveUp_recorded {rmp : Rmp} {s s' : State} {event : TaskEvent} {t : Task}
    {commands : List Command} (hcommands : ∀ command ∈ commands, command ∈ s.channel) :
    ∀ action ∈ (t.failDeferred s.link).2 ++ commands.map Action.discarded,
      Recorded rmp s event s' action := by
  rw [List.forall_mem_append]
  exact ⟨answered_recorded (.inl rfl) _, discarded_recorded hcommands⟩

theorem lose_recorded {rmp : Rmp} {s s' x : State} {event : TaskEvent}
    (hup : s.phase.up = true) (hlink : x.link = s.link)
    (hchannel : ∀ command ∈ x.channel, command ∈ s.channel) :
    ∃ actions, x.lose.history = x.history ++ actions ∧
      ∀ action ∈ actions, Recorded rmp s event s' action := by
  have hfail : ∀ action ∈ (x.task.failLink x.link).2, Recorded rmp s event s' action := by
    rw [hlink, Task.failLink, List.forall_mem_cons]
    exact ⟨.lost hup, failPending_recorded x.task⟩
  simp only [State.lose]
  split
  · exact ⟨_, rfl, hfail⟩
  · refine ⟨(x.task.failLink x.link).2 ++ _, List.append_assoc _ _ _, ?_⟩
    rw [List.forall_mem_append]
    refine ⟨hfail, ?_⟩
    have hgive : ∀ action ∈ ((x.task.failLink x.link).1.failDeferred s.link).2 ++
        x.channel.map Action.discarded, Recorded rmp s event s' action := giveUp_recorded hchannel
    rw [← hlink] at hgive
    exact hgive

theorem mem_resubscribe {link : Nat} {send : String → SendResult} {keys : List String}
    {action : Action} (h : action ∈ Task.resubscribe link send keys) :
    ∃ key ∈ keys, action =
      .wrote link .resubscribe (watchPacket Request.watch key) (send key) := by
  induction keys with
  | nil => simp [Task.resubscribe] at h
  | cons key keys ih =>
      rw [Task.resubscribe, List.mem_cons] at h
      rcases h with rfl | h
      · exact ⟨key, List.mem_cons_self, rfl⟩
      · split at h
        · obtain ⟨key', hmem, heq⟩ := ih h
          exact ⟨key', List.mem_cons_of_mem _ hmem, heq⟩
        · simp at h

theorem resubscribe_recorded {rmp : Rmp} {s s' : State} {event : TaskEvent}
    {delay socket : Nat} {negotiated : Negotiated} {inbound : Inbound}
    (hreply : LastReply rmp s inbound.response (some delay) socket negotiated)
    (hlink : s'.link = socket) (send : String → SendResult) {keys : List String}
    (hkeys : ∀ key ∈ keys, key ∈ s.task.watchers) :
    ∀ action ∈ Task.resubscribe socket send keys, Recorded rmp s event s' action := by
  intro action hmem
  obtain ⟨key, hkey, rfl⟩ := mem_resubscribe hmem
  exact .resubscribed hreply hlink (hkeys key hkey)

theorem TaskMove.recorded {rmp : Rmp} {s s' : State} {event : TaskEvent}
    (h : TaskMove rmp s event s') :
    ∃ actions, s'.history = s.history ++ actions ∧
      ∀ action ∈ actions, Recorded rmp s event s' action := by
  cases h with
  | drained | woke | attemptFailed | replyRejected | idAccepted =>
      exact ⟨[], (List.append_nil _).symm, by simp⟩
  | replayed hphase hdeferred hhandle =>
      have hup : s.phase.up = true := by rw [hphase]; rfl
      refine ⟨_, rfl, List.forall_mem_cons.mpr ⟨.handled hup, fun action hmem => ?_⟩⟩
      exact .handling _ hup rfl (handling_of_eq hhandle) hmem
  | replayFailed hphase hdeferred hhandle =>
      have hup : s.phase.up = true := by rw [hphase]; rfl
      refine ⟨_, rfl, ?_⟩
      simp only [List.cons_append, List.forall_mem_cons, List.forall_mem_append, Task.failLink]
      exact ⟨.handled hup, fun action hmem => .handling _ hup rfl (handling_of_eq hhandle) hmem,
        .lost hup, failPending_recorded _⟩
  | @handled command rest send t actions hphase hchannel hclose hhandle =>
      have hup : s.phase.up = true := by rw [hphase]; rfl
      have hmem : command ∈ s.channel := hchannel ▸ List.mem_cons_self
      refine ⟨_, List.append_assoc _ _ _, ?_⟩
      rw [List.forall_mem_append, List.forall_mem_singleton, List.forall_mem_cons]
      refine ⟨.took hmem, .handled hup, fun action hmem => ?_⟩
      exact .handling s.task.deferred hup rfl (handling_of_eq hhandle) hmem
  | @handledLost command rest send t actions err hphase hchannel hclose hhandle =>
      have hup : s.phase.up = true := by rw [hphase]; rfl
      have hmem : command ∈ s.channel := hchannel ▸ List.mem_cons_self
      have hrest : ∀ c ∈ rest, c ∈ s.channel := fun c hc => hchannel ▸ List.mem_cons_of_mem _ hc
      obtain ⟨failed, hfailed, hrecorded⟩ := lose_recorded (x := (s.takeCommand command
        rest).perform t (.handled s.link command :: actions) .drain) hup rfl hrest
      refine ⟨_, hfailed.trans ((congrArg (· ++ failed) (List.append_assoc _ _ _)).trans
        (List.append_assoc _ _ _)), ?_⟩
      rw [List.forall_mem_append, List.forall_mem_append, List.forall_mem_singleton,
        List.forall_mem_cons]
      refine ⟨⟨.took hmem, .handled hup, fun action hmem => ?_⟩, hrecorded⟩
      exact .handling s.task.deferred hup (lose_link _).1
        (handling_of_eq hhandle) hmem
  | @closeCommand send rest hphase hchannel =>
      have hrest : ∀ c ∈ rest, c ∈ s.channel := fun c hc => hchannel ▸ List.mem_cons_of_mem _ hc
      refine ⟨_, List.append_assoc _ _ _, ?_⟩
      rw [List.forall_mem_append, List.forall_mem_singleton]
      exact ⟨.took (hchannel ▸ List.mem_cons_self), closeDown_recorded (.closed hphase) hrest⟩
  | channelClosed hphase hchannel =>
      exact ⟨_, rfl, closeDown_recorded (.closed hphase) fun _ h => h⟩
  | received hphase hinbound =>
      exact ⟨_, rfl, fun action hmem =>
        .routing hphase rfl hinbound (handleResponse_routing _ _ _ _ _) hmem⟩
  | receivedLast hphase hinbound hfinished =>
      refine ⟨_, List.append_assoc _ _ _, ?_⟩
      rw [List.forall_mem_append]
      refine ⟨fun action hmem => ?_,
        closeDown_recorded (.drained rfl rfl hinbound hfinished) fun _ h => h⟩
      exact .routing hphase rfl hinbound (handleResponse_routing _ _ _ _ _) hmem
  | linkLost hphase => exact lose_recorded (by rw [hphase]; rfl) rfl fun _ h => h
  | @deferred command rest delay hphase hchannel hclose =>
      refine ⟨_, List.append_assoc _ _ _, ?_⟩
      rw [List.forall_mem_append, List.forall_mem_singleton]
      refine ⟨.took (hchannel ▸ List.mem_cons_self), ?_⟩
      unfold Task.defer
      split
      · exact answered_recorded (.inl rfl) _
      · simp
  | @closeWhileDown rest delay hphase hchannel =>
      have hrest : ∀ c ∈ rest, c ∈ s.channel := fun c hc => hchannel ▸ List.mem_cons_of_mem _ hc
      refine ⟨_, List.append_assoc _ _ _, ?_⟩
      rw [List.forall_mem_append, List.forall_mem_singleton]
      exact ⟨.took (hchannel ▸ List.mem_cons_self), giveUp_recorded hrest⟩
  | channelClosedWhileDown => exact ⟨_, rfl, giveUp_recorded fun _ h => h⟩
  | connected hphase => exact ⟨_, rfl, List.forall_mem_singleton.mpr (.greeted hphase rfl)⟩
  | authenticated hphase huser =>
      exact ⟨_, rfl, List.forall_mem_singleton.mpr (.loggedIn hphase huser rfl)⟩
  | spawned hreply hinbound =>
      exact ⟨_, rfl, List.forall_mem_singleton.mpr (.up hreply hinbound rfl rfl)⟩
  | reconnected hreply hinbound horder =>
      refine ⟨_, rfl, List.forall_mem_cons.mpr ⟨.up hreply hinbound rfl rfl, ?_⟩⟩
      exact resubscribe_recorded hreply rfl _ fun key hkey =>
        AList.mem_keys.mpr (horder.mem_iff.mp hkey)

theorem Handling.no_reply {t t' : Task} {link : Nat} {send : SendResult} {command : Command}
    {actions : List Action} {result : Except Error Unit}
    (h : Handling t link send command t' actions result) (l n : Nat) (arrival : Arrival) :
    .answered l n (.reply arrival) ∉ actions := by
  intro hmem
  cases h.acts _ hmem

theorem Recorded.reply {rmp : Rmp} {s s' : State} {event : TaskEvent} {link n : Nat}
    {arrival : Arrival} (h : Recorded rmp s event s' (.answered link n (.reply arrival))) :
    s.phase = .select ∧ s'.link = s.link ∧ link = s.link ∧ ∃ inbound pending,
      (s.inbound s.link)[s.read s.link]? = some inbound ∧
      arrival = ⟨inbound.response, s.link, s.read s.link⟩ ∧
      Kind.final inbound.response.kind = true ∧
      s.task.pending.lookup inbound.response.sync = some pending ∧ pending.ticket = n := by
  cases h with
  | handling deferred hup hlink hhandling hmem => exact absurd hmem (hhandling.no_reply _ _ _)
  | routing hphase hlink hinbound hrouting hmem =>
      cases hrouting.acts _ hmem with
      | @delivered pending hfinal hlookup =>
          exact ⟨hphase, hlink, rfl, _, pending, hinbound, rfl, hfinal, hlookup, rfl⟩
  | settled hanswer => rcases hanswer with hanswer | hanswer <;> cases hanswer

theorem Recorded.call_write {rmp : Rmp} {s s' : State} {event : TaskEvent} {link n : Nat}
    {packet : Packet} {result : SendResult}
    (h : Recorded rmp s event s' (.wrote link (.call n) packet result)) :
    s.phase.up = true ∧ link = s.link := by
  cases h with
  | handling deferred hup hlink hhandling hmem => exact ⟨hup, (hhandling.isLocal _ hmem).1⟩
  | routing hphase hlink hinbound hrouting hmem =>
      exact ⟨by rw [hphase]; rfl, (hrouting.isLocal _ hmem).1⟩

theorem history_grows {rmp : Rmp} {s s' : State} (h : Reaches (step rmp) anyStep s s') :
    ∃ actions, s'.history = s.history ++ actions := by
  refine Reaches.invariant (I := fun s' => ∃ actions, s'.history = s.history ++ actions)
    ⟨[], (List.append_nil _).symm⟩ ?_ h
  rintro t t' event - ⟨actions, hactions⟩ - hstep
  cases step_move hstep with
  | caller hmove => exact ⟨actions, hmove.untouched.history.trans hactions⟩
  | task hmove =>
      obtain ⟨added, hadded, -⟩ := hmove.recorded
      exact ⟨actions ++ added, by rw [hadded, hactions, List.append_assoc]⟩
  | server => exact ⟨actions, hactions⟩

/-! ## What is on the wire -/

theorem outbound_append (link : Nat) (history actions : List Action) :
    outbound link (history ++ actions) = outbound link history ++ outbound link actions :=
  List.filterMap_append

theorem outbound_wrote (link l : Nat) (history : List Action) (origin : Origin) (packet : Packet)
    (result : SendResult) :
    outbound link (history ++ [.wrote l origin packet result]) =
      outbound link history ++ if l = link ∧ result.reached then [(origin, packet)] else [] := by
  rw [outbound_append]
  congr 1
  simp only [outbound, List.filterMap_cons, List.filterMap_nil]
  split <;> rename_i h <;> split at h <;> simp_all

theorem mem_outbound {link : Nat} {history : List Action} {origin : Origin} {packet : Packet}
    (h : (origin, packet) ∈ outbound link history) :
    ∃ result, .wrote link origin packet result ∈ history := by
  obtain ⟨action, hmem, haction⟩ := List.mem_filterMap.mp h
  cases action with
  | wrote l origin' packet' result =>
      simp only [Option.ite_none_right_eq_some, Option.some.injEq, Prod.mk.injEq] at haction
      obtain ⟨⟨rfl, -⟩, rfl, rfl⟩ := haction
      exact ⟨result, hmem⟩
  | _ => simp at haction

end Tarant.Connection
