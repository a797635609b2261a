import Tarant.Connection.Ledger

/-!
# Where everything comes from

Whatever the task holds or does traces back to a command that a caller issued.
The task's own functions are treated for an arbitrary property `ok` of
commands; a run instantiates it with `Genuine`, which ties a command to the call
or the watcher that made it.
-/

namespace Tarant.Connection

open Foundation
open Iproto

/-! ## The task -/

/-- Everything the task holds comes from a command with the property. -/
structure Traces (ok : Command → Prop) (t : Task) : Prop where
  deferred : ∀ command ∈ t.deferred, ok command
  pending : ∀ entry ∈ t.pending.entries,
    ∃ packet, ok (.request entry.1 packet entry.2.ticket entry.2.pushes)
  watchers : ∀ entry ∈ t.watchers.entries, ∀ subscriber ∈ entry.2,
    ok (.watch subscriber.id entry.1 subscriber.watcher)

def Origin.Explains (ok : Command → Prop) (packet : Packet) : Origin → Prop
  | .handshakeId => packet = idPacket
  | .handshakeAuth => ∃ user scramble, packet = authPacket user scramble
  | .call ticket =>
      (∃ sync pushes, ok (.request sync packet ticket pushes)) ∨ ok (.fire packet ticket)
  | .watch watcher =>
      ∃ id key, ok (.watch id key watcher) ∧ packet = watchPacket Request.watch key
  | .unwatch watcher =>
      ∃ id key, ok (.unwatch id key watcher) ∧ packet = watchPacket Request.unwatch key
  | .ack | .resubscribe => ∃ key, packet = watchPacket Request.watch key

def Action.Traced (ok : Command → Prop) : Action → Prop
  | .took command | .handled _ command | .discarded command => ok command
  | .wrote _ origin packet _ => origin.Explains ok packet
  | .answered _ ticket (.reply arrival) =>
      ∃ packet pushes, ok (.request arrival.response.sync packet ticket pushes)
  | .published watcher _ => ∃ id key, ok (.watch id key watcher)
  | _ => True

section Task

variable {ok ok' : Command → Prop} {t t' : Task} {link : Nat}

theorem Traces.mono (h : Traces ok t) (hok : ∀ command, ok command → ok' command) :
    Traces ok' t where
  deferred command hmem := hok _ (h.deferred command hmem)
  pending entry hmem := (h.pending entry hmem).imp fun _ => hok _
  watchers entry hentry subscriber hmem := hok _ (h.watchers entry hentry subscriber hmem)

theorem Origin.Explains.mono {origin : Origin} {packet : Packet}
    (h : origin.Explains ok packet) (hok : ∀ command, ok command → ok' command) :
    origin.Explains ok' packet := by
  cases origin with
  | call ticket =>
      rcases h with ⟨sync, pushes, h⟩ | h
      · exact .inl ⟨sync, pushes, hok _ h⟩
      · exact .inr (hok _ h)
  | watch watcher =>
      obtain ⟨id, key, h, hpacket⟩ := h
      exact ⟨id, key, hok _ h, hpacket⟩
  | unwatch watcher =>
      obtain ⟨id, key, h, hpacket⟩ := h
      exact ⟨id, key, hok _ h, hpacket⟩
  | _ => exact h

theorem Action.Traced.mono {action : Action} (h : action.Traced ok)
    (hok : ∀ command, ok command → ok' command) : action.Traced ok' := by
  cases action with
  | took command => exact hok _ h
  | handled link command => exact hok _ h
  | discarded command => exact hok _ h
  | wrote link origin packet result => exact Origin.Explains.mono h hok
  | answered link ticket answer =>
      cases answer with
      | reply arrival =>
          obtain ⟨packet, pushes, h⟩ := h
          exact ⟨packet, pushes, hok _ h⟩
      | _ => trivial
  | published watcher data =>
      obtain ⟨id, key, h⟩ := h
      exact ⟨id, key, hok _ h⟩
  | _ => trivial

theorem Traces.insertWatchers {key : String} {list : List Subscriber} (h : Traces ok t)
    (hlist : ∀ subscriber ∈ list, ok (.watch subscriber.id key subscriber.watcher)) :
    ∀ entry ∈ (t.watchers.insert key list).entries, ∀ subscriber ∈ entry.2,
      ok (.watch subscriber.id entry.1 subscriber.watcher) := by
  intro entry hentry
  rcases mem_entries_insert hentry with rfl | hold
  · exact hlist
  · exact h.watchers entry hold

theorem Traces.lookup {key : String} {list : List Subscriber} (h : Traces ok t)
    (hlookup : t.watchers.lookup key = some list) :
    ∀ subscriber ∈ list, ok (.watch subscriber.id key subscriber.watcher) :=
  h.watchers ⟨key, list⟩ (mem_entries_of_lookup hlookup)

theorem Handling.traces {send : SendResult} {command : Command} {actions : List Action}
    {result : Except Error Unit} (hhandling : Handling t link send command t' actions result)
    (h : Traces ok t) (hcommand : ok command) : Traces ok t' := by
  cases hhandling with
  | @requested sync packet ticket pushes hdown =>
      refine ⟨h.deferred, ?_, h.watchers⟩
      intro entry hentry
      rcases mem_entries_insert hentry with rfl | hold
      · exact ⟨packet, hcommand⟩
      · exact h.pending entry hold
  | watchedFirst hlookup =>
      refine ⟨h.deferred, h.pending, h.insertWatchers ?_⟩
      simpa using hcommand
  | watched hlookup =>
      refine ⟨h.deferred, h.pending, h.insertWatchers ?_⟩
      intro subscriber hmem
      rcases List.mem_append.mp hmem with hold | hnew
      · exact h.lookup hlookup subscriber hold
      · rw [List.mem_singleton.mp hnew]
        exact hcommand
  | unwatchedLast =>
      exact ⟨h.deferred, h.pending, fun entry hentry =>
        h.watchers entry (mem_entries_erase hentry)⟩
  | unwatched hlookup =>
      refine ⟨h.deferred, h.pending, h.insertWatchers ?_⟩
      intro subscriber hmem
      exact h.lookup hlookup subscriber (List.mem_filter.mp hmem).1
  | _ => exact h

theorem Handling.traced {send : SendResult} {command : Command} {actions : List Action}
    {result : Except Error Unit} (hhandling : Handling t link send command t' actions result)
    (hcommand : ok command) : ∀ action ∈ actions, action.Traced ok := by
  intro action hmem
  cases hhandling.acts action hmem with
  | refused | overwritten => trivial
  | @requested sync packet ticket pushes => exact .inl ⟨sync, pushes, hcommand⟩
  | fired => exact .inr hcommand
  | watched | unwatched => exact ⟨_, _, hcommand, rfl⟩

theorem Routing.traces {alive : Nat → Bool} {ack : SendResult} {arrival : Arrival}
    {actions : List Action} (hrouting : Routing t link alive ack arrival t' actions)
    (h : Traces ok t) : Traces ok t' := by
  cases hrouting with
  | delivered =>
      exact ⟨h.deferred, fun entry hentry => h.pending entry (mem_entries_erase hentry),
        h.watchers⟩
  | unwatched => exact ⟨h.deferred, h.pending, h.watchers⟩
  | notified hkind hevent hlookup =>
      refine ⟨h.deferred, h.pending, h.insertWatchers ?_⟩
      intro subscriber hmem
      exact h.lookup hlookup subscriber (List.mem_filter.mp hmem).1
  | _ => exact h

theorem Routing.traced {alive : Nat → Bool} {ack : SendResult} {arrival : Arrival}
    {actions : List Action} (hrouting : Routing t link alive ack arrival t' actions)
    (h : Traces ok t) : ∀ action ∈ actions, action.Traced ok := by
  intro action hmem
  cases hrouting.acts action hmem with
  | @delivered pending hfinal hlookup =>
      obtain ⟨packet, hpacket⟩ := h.pending _ (mem_entries_of_lookup hlookup)
      exact ⟨packet, pending.pushes, hpacket⟩
  | pushed | announced => trivial
  | published hevent hlookup hlist => exact ⟨_, _, h.lookup hlookup _ hlist⟩
  | acknowledged => exact ⟨_, rfl⟩

theorem Traces.clearPending (h : Traces ok t) : Traces ok { t with pending := ∅ } :=
  ⟨h.deferred, by simp, h.watchers⟩

theorem failPending_traced : ∀ action ∈ (t.failPending link).2, action.Traced ok := by
  intro action hmem
  obtain ⟨entry, -, rfl⟩ := List.mem_map.mp hmem
  trivial

theorem failLink_traced : ∀ action ∈ (t.failLink link).2, action.Traced ok := by
  intro action hmem
  rcases List.mem_cons.mp hmem with rfl | hfailed
  · trivial
  · exact failPending_traced action hfailed

theorem Traces.clearDeferred (h : Traces ok t) : Traces ok { t with deferred := [] } :=
  ⟨by simp, h.pending, h.watchers⟩

theorem answerDeferred_traced {commands : List Command} {answer : Answer}
    (hanswer : ∀ arrival, answer ≠ .reply arrival) :
    ∀ action ∈ (commands.filterMap Command.reply?).map
      fun ticket => Action.answered link ticket answer, action.Traced ok := by
  intro action hmem
  obtain ⟨ticket, -, rfl⟩ := List.mem_map.mp hmem
  cases answer with
  | reply arrival => exact absurd rfl (hanswer arrival)
  | error err => trivial
  | dropped => trivial

theorem defer_traces {command : Command} (h : Traces ok t) (hcommand : ok command) :
    Traces ok (t.defer link command).1 := by
  unfold Task.defer
  split
  · exact h
  · refine ⟨?_, h.pending, h.watchers⟩
    intro other hmem
    rcases List.mem_append.mp hmem with hold | hnew
    · exact h.deferred other hold
    · rw [List.mem_singleton.mp hnew]
      exact hcommand

theorem defer_traced {command : Command} :
    ∀ action ∈ (t.defer link command).2, action.Traced ok := by
  unfold Task.defer
  split
  · intro action hmem
    obtain ⟨ticket, -, rfl⟩ := List.mem_map.mp hmem
    trivial
  · simp

theorem resubscribe_traced (send : String → SendResult) (keys : List String) :
    ∀ action ∈ Task.resubscribe link send keys, action.Traced ok := by
  apply Task.forall_mem_resubscribe
  exact fun key => ⟨key, rfl⟩

end Task

/-! ## Whole states -/

structure Provenance (ok : Command → Prop) (s : State) : Prop where
  task : Traces ok s.task
  channel : ∀ command ∈ s.channel, ok command
  history : ∀ action ∈ s.history, action.Traced ok

namespace Provenance

variable {ok : Command → Prop} {s : State}

theorem perform {t : Task} {actions : List Action} (h : Provenance ok s) (phase : Phase)
    (htask : Traces ok t) (hactions : ∀ action ∈ actions, action.Traced ok) :
    Provenance ok (s.perform t actions phase) :=
  ⟨htask, h.channel, List.forall_mem_append.mpr ⟨h.history, hactions⟩⟩

theorem stop {t : Task} {actions : List Action} (h : Provenance ok s) (htask : Traces ok t)
    (hactions : ∀ action ∈ actions, action.Traced ok) : Provenance ok (s.stop t actions) := by
  refine ⟨⟨htask.deferred, htask.pending, by simp [State.stop]⟩, by simp [State.stop], ?_⟩
  refine List.forall_mem_append.mpr ⟨h.history, List.forall_mem_append.mpr ⟨hactions, ?_⟩⟩
  intro action hmem
  obtain ⟨command, hcommand, rfl⟩ := List.mem_map.mp hmem
  exact h.channel command hcommand

theorem takeCommand {command : Command} {rest : List Command} (h : Provenance ok s)
    (hchannel : s.channel = command :: rest) :
    Provenance ok (s.takeCommand command rest) := by
  have hall := h.channel
  rw [hchannel, List.forall_mem_cons] at hall
  refine ⟨h.task, hall.2, List.forall_mem_append.mpr ⟨h.history, ?_⟩⟩
  simpa [Action.Traced] using hall.1

theorem closeDown (h : Provenance ok s) (cause : CloseCause) :
    Provenance ok (s.closeDown cause) := by
  refine h.stop h.task.clearPending.clearDeferred ?_
  rw [List.forall_mem_cons, List.forall_mem_append]
  exact ⟨trivial, failPending_traced, answerDeferred_traced (by simp)⟩

theorem giveUp (h : Provenance ok s) : Provenance ok s.giveUp :=
  h.stop h.task.clearDeferred (answerDeferred_traced (by simp))

theorem lose (h : Provenance ok s) : Provenance ok s.lose := by
  simp only [State.lose]
  split
  · exact h.perform _ h.task.clearPending failLink_traced
  · exact (h.perform _ h.task.clearPending failLink_traced).giveUp

theorem receive (h : Provenance ok s) (ack : SendResult) (inbound : Inbound) :
    Provenance ok (s.receive ack inbound) := by
  have hrouting := handleResponse_routing s.task s.link s.receiverAlive ack
    ⟨inbound.response, s.link, s.read s.link⟩
  exact ⟨hrouting.traces h.task, h.channel,
    List.forall_mem_append.mpr ⟨h.history, hrouting.traced h.task⟩⟩

theorem move {rmp : Rmp} {s' : State} {event : TaskEvent} (h : Provenance ok s)
    (hmove : TaskMove rmp s event s') : Provenance ok s' := by
  cases hmove with
  | drained | woke | attemptFailed | replyRejected | idAccepted =>
      exact ⟨h.task, h.channel, h.history⟩
  | replayed hphase hdeferred hhandle =>
      have hall := h.task.deferred
      rw [hdeferred, List.forall_mem_cons] at hall
      have htask : Traces ok (s.task.setDeferred _) := ⟨hall.2, h.task.pending, h.task.watchers⟩
      have hhandling := handling_of_eq hhandle
      exact h.perform _ (hhandling.traces htask hall.1)
        (List.forall_mem_cons.mpr ⟨hall.1, hhandling.traced hall.1⟩)
  | replayFailed hphase hdeferred hhandle =>
      have hall := h.task.deferred
      rw [hdeferred, List.forall_mem_cons] at hall
      have htask : Traces ok (s.task.setDeferred _) := ⟨hall.2, h.task.pending, h.task.watchers⟩
      have hhandling := handling_of_eq hhandle
      refine h.perform _ (hhandling.traces htask hall.1).clearPending ?_
      exact List.forall_mem_cons.mpr
        ⟨hall.1, List.forall_mem_append.mpr ⟨hhandling.traced hall.1, failLink_traced⟩⟩
  | handled hphase hchannel hclose hhandle =>
      have hcommand := h.channel _ (hchannel ▸ List.mem_cons_self)
      have hhandling := handling_of_eq hhandle
      exact (h.takeCommand hchannel).perform _ (hhandling.traces h.task hcommand)
        (List.forall_mem_cons.mpr ⟨hcommand, hhandling.traced hcommand⟩)
  | handledLost hphase hchannel hclose hhandle =>
      have hcommand := h.channel _ (hchannel ▸ List.mem_cons_self)
      have hhandling := handling_of_eq hhandle
      apply lose
      exact (h.takeCommand hchannel).perform _ (hhandling.traces h.task hcommand)
        (List.forall_mem_cons.mpr ⟨hcommand, hhandling.traced hcommand⟩)
  | closeCommand hphase hchannel => exact (h.takeCommand hchannel).closeDown _
  | channelClosed => exact h.closeDown _
  | received => exact h.receive _ _
  | receivedLast => exact (h.receive _ _).closeDown _
  | linkLost => exact h.lose
  | deferred hphase hchannel hclose =>
      have hcommand := h.channel _ (hchannel ▸ List.mem_cons_self)
      exact (h.takeCommand hchannel).perform _ (defer_traces h.task hcommand) defer_traced
  | closeWhileDown hphase hchannel => exact (h.takeCommand hchannel).giveUp
  | channelClosedWhileDown => exact h.giveUp
  | connected =>
      refine ⟨h.task, h.channel, List.forall_mem_append.mpr ⟨h.history, ?_⟩⟩
      exact List.forall_mem_singleton.mpr rfl
  | authenticated =>
      refine ⟨h.task, h.channel, List.forall_mem_append.mpr ⟨h.history, ?_⟩⟩
      exact List.forall_mem_singleton.mpr ⟨_, _, rfl⟩
  | spawned =>
      refine ⟨h.task, h.channel, List.forall_mem_append.mpr ⟨h.history, ?_⟩⟩
      simp [Action.Traced]
  | reconnected =>
      refine ⟨h.task, h.channel, List.forall_mem_append.mpr ⟨h.history, ?_⟩⟩
      exact List.forall_mem_cons.mpr ⟨trivial, resubscribe_traced _ _⟩

end Provenance

/-! ## Callers -/

/-- The command was made by the call or the watcher it names. -/
def Genuine (s : State) : Command → Prop
  | .request sync packet ticket pushes =>
      sync = syncOf ticket ∧ ∃ call ∈ s.calls ticket,
        call.packet = packet ∧ pushes = if call.pushes then some ticket else none
  | .fire packet ticket => ∃ call ∈ s.calls ticket, call.packet = packet
  | .watch id key watcher | .unwatch id key watcher =>
      id = syncOf watcher ∧ ∃ watching ∈ s.watching watcher, watching.key = key
  | .close => True

structure Extends (s s' : State) : Prop where
  calls : ∀ n, ∀ call ∈ s.calls n, ∃ call' ∈ s'.calls n,
    call'.packet = call.packet ∧ call'.pushes = call.pushes
  watching : ∀ w, ∀ watching ∈ s.watching w, ∃ watching' ∈ s'.watching w,
    watching'.key = watching.key

theorem Genuine.mono {s s' : State} (hextends : Extends s s') {command : Command}
    (h : Genuine s command) : Genuine s' command := by
  cases command with
  | request sync packet ticket pushes =>
      obtain ⟨hsync, call, hcall, hpacket, hpushes⟩ := h
      obtain ⟨call', hcall', hpacket', hpushes'⟩ := hextends.calls ticket call hcall
      exact ⟨hsync, call', hcall', hpacket'.trans hpacket, by rw [hpushes, hpushes']⟩
  | fire packet ticket =>
      obtain ⟨call, hcall, hpacket⟩ := h
      obtain ⟨call', hcall', hpacket', -⟩ := hextends.calls ticket call hcall
      exact ⟨call', hcall', hpacket'.trans hpacket⟩
  | watch id key watcher =>
      obtain ⟨hid, watching, hwatching, hkey⟩ := h
      obtain ⟨watching', hwatching', hkey'⟩ := hextends.watching watcher watching hwatching
      exact ⟨hid, watching', hwatching', hkey'.trans hkey⟩
  | unwatch id key watcher =>
      obtain ⟨hid, watching, hwatching, hkey⟩ := h
      obtain ⟨watching', hwatching', hkey'⟩ := hextends.watching watcher watching hwatching
      exact ⟨hid, watching', hwatching', hkey'.trans hkey⟩
  | close => trivial

theorem Extends.of_eq {s s' : State} (hcalls : s'.calls = s.calls)
    (hwatching : s'.watching = s.watching) : Extends s s' where
  calls _ call hcall := ⟨call, hcalls ▸ hcall, rfl, rfl⟩
  watching _ watching hmem := ⟨watching, hwatching ▸ hmem, rfl⟩

theorem Extends.of_call {s s' : State} {ticket : Nat} {call' : Call}
    (hcalls : s'.calls = Function.update s.calls ticket (some call'))
    (hwatching : s'.watching = s.watching)
    (hsame : ∀ call ∈ s.calls ticket,
      call'.packet = call.packet ∧ call'.pushes = call.pushes) : Extends s s' where
  calls n call hcall := by
    by_cases hn : n = ticket
    · subst hn
      exact ⟨call', by rw [hcalls]; simp, hsame call hcall⟩
    · exact ⟨call, by rw [hcalls, Function.update_of_ne hn]; exact hcall, rfl, rfl⟩
  watching w watching hmem := ⟨watching, hwatching ▸ hmem, rfl⟩

theorem Extends.of_watching {s s' : State} {watcher : Nat} {watching' : Watching}
    (hcalls : s'.calls = s.calls)
    (hwatching : s'.watching = Function.update s.watching watcher (some watching'))
    (hsame : ∀ watching ∈ s.watching watcher, watching'.key = watching.key) :
    Extends s s' where
  calls n call hcall := ⟨call, hcalls ▸ hcall, rfl, rfl⟩
  watching w watching hmem := by
    by_cases hw : w = watcher
    · subst hw
      exact ⟨watching', by rw [hwatching]; simp, hsame watching hmem⟩
    · exact ⟨watching, by rw [hwatching, Function.update_of_ne hw]; exact hmem, rfl⟩

theorem fireNow_extends {s : State} (hfresh : s.calls s.nextSync = none)
    (stream : Option Nat) (ty : Nat) (body : List (Nat × Field)) :
    Extends s (s.fireNow stream ty body) := by
  unfold State.fireNow
  split <;> exact Extends.of_call rfl rfl (by simp [hfresh])

theorem CallerMove.extends {s s' : State} {event : CallerEvent}
    (hmove : CallerMove s event s')
    (hcalls : s.calls s.nextSync = none) (hwatching : s.watching s.nextWatchId = none) :
    Extends s s' := by
  cases hmove with
  | issued => exact Extends.of_call rfl rfl (by simp [hcalls])
  | submitted hcall | refused hcall | abandoned hcall | failed hcall =>
      exact Extends.of_call rfl rfl (by simp [hcall])
  | @succeeded ticket call answer arrival hcall =>
      obtain ⟨streams, heq⟩ := settleStream_eq
        (s.setCall ticket { call with stage := .returned true }) call arrival
      rw [heq]
      exact Extends.of_call rfl rfl (by simp [hcall])
  | fired hbase =>
      cases hbase with
      | client => exact fireNow_extends hcalls _ _ _
      | stream =>
          obtain ⟨h₁, h₂⟩ := fireNow_extends (s := s.setStream _ _) hcalls _ _ _
          exact ⟨h₁, h₂⟩
  | watchIssued => exact Extends.of_watching rfl rfl (by simp [hwatching])
  | watchSubmitted hw | watchRefused hw | watchResolved hw | watchOrphaned hw
  | watchCancelled hw | watcherDropped hw | watcherDroppedFull hw =>
      exact Extends.of_watching rfl rfl (by simp [hw])
  | _ => exact Extends.of_eq rfl rfl

theorem fireNow_channel (s : State) (stream : Option Nat) (ty : Nat)
    (body : List (Nat × Field)) :
    ∃ added, (s.fireNow stream ty body).channel = s.channel ++ added ∧
      ∀ command ∈ added, Genuine (s.fireNow stream ty body) command := by
  unfold State.fireNow
  split
  · refine ⟨_, rfl, ?_⟩
    simp [Genuine, State.issue]
  · exact ⟨[], (List.append_nil _).symm, by simp⟩

theorem CallerMove.channel {s s' : State} {event : CallerEvent}
    (hmove : CallerMove s event s') :
    ∃ added, s'.channel = s.channel ++ added ∧ ∀ command ∈ added, Genuine s' command := by
  cases hmove with
  | submitted hcall =>
      refine ⟨_, rfl, ?_⟩
      simp [Genuine, Call.command, State.setCall]
  | @succeeded ticket call answer arrival hcall =>
      obtain ⟨streams, heq⟩ := settleStream_eq
        (s.setCall ticket { call with stage := .returned true }) call arrival
      exact ⟨[], by rw [heq]; exact (List.append_nil _).symm, by simp⟩
  | fired hbase =>
      cases hbase with
      | client => exact fireNow_channel _ _ _ _
      | stream => exact fireNow_channel _ _ _ _
  | watchSubmitted hw =>
      refine ⟨_, rfl, ?_⟩
      simp [Genuine, State.setWatching]
  | watcherDropped hw =>
      refine ⟨_, rfl, ?_⟩
      simp [Genuine, State.setWatching]
  | closeSent =>
      refine ⟨_, rfl, ?_⟩
      simp [Genuine]
  | _ => exact ⟨[], (List.append_nil _).symm, by simp⟩

/-! ## Runs -/

/-- Packets carry their own call's sync, and watch ids are drawn in order. -/
structure Registered (s : State) : Prop where
  packets : ∀ n, ∀ call ∈ s.calls n, call.packet.sync = syncOf n
  fresh : ∀ w, s.nextWatchId ≤ w → s.watching w = none

theorem Registered.of_calls {s s' : State} {ticket : Nat} {call' : Call}
    (h : Registered s) (hcalls : s'.calls = Function.update s.calls ticket (some call'))
    (hwatching : s'.watching = s.watching) (hnext : s'.nextWatchId = s.nextWatchId)
    (hpacket : call'.packet.sync = syncOf ticket) : Registered s' where
  packets n call hcall := by
    rw [hcalls] at hcall
    by_cases hn : n = ticket
    · subst hn
      rw [Function.update_self, Option.mem_some_iff] at hcall
      exact hcall ▸ hpacket
    · rw [Function.update_of_ne hn] at hcall
      exact h.packets n call hcall
  fresh w hw := by
    rw [hwatching]
    exact h.fresh w (hnext ▸ hw)

theorem Registered.of_watching {s s' : State} {watcher : Nat} {watching' : Watching}
    (h : Registered s) (hcalls : s'.calls = s.calls)
    (hwatching : s'.watching = Function.update s.watching watcher (some watching'))
    (hnext : s.nextWatchId ≤ s'.nextWatchId) (hlt : watcher < s'.nextWatchId) :
    Registered s' where
  packets n call hcall := h.packets n call (hcalls ▸ hcall)
  fresh w hw := by
    rw [hwatching, Function.update_of_ne (by omega)]
    exact h.fresh w (by omega)

theorem Registered.lt {s : State} {watcher : Nat} {w : Watching} (h : Registered s)
    (hw : s.watching watcher = some w) : watcher < s.nextWatchId := by
  by_contra hge
  simp [h.fresh watcher (by omega)] at hw

theorem Registered.issued {s s' : State} {event : CallerEvent} (h : Registered s)
    (hmove : CallerMove s event s') : Registered s' := by
  cases hmove with
  | issued => exact h.of_calls rfl rfl rfl rfl
  | submitted hcall | refused hcall | abandoned hcall | failed hcall =>
      have hpacket := h.packets _ _ hcall
      exact h.of_calls rfl rfl rfl hpacket
  | @succeeded ticket call answer arrival hcall =>
      obtain ⟨streams, heq⟩ := settleStream_eq
        (s.setCall ticket { call with stage := .returned true }) call arrival
      rw [heq]
      have hpacket := h.packets _ _ hcall
      exact h.of_calls rfl rfl rfl hpacket
  | @fired _ s₁ stream ty body hbase =>
      have hbase' : Registered s₁ := by
        cases hbase with
        | client => exact h
        | stream => exact ⟨h.packets, h.fresh⟩
      unfold State.fireNow
      split <;> exact hbase'.of_calls rfl rfl rfl rfl
  | watchIssued => exact h.of_watching rfl rfl (Nat.le_succ _) (Nat.lt_succ_self _)
  | watchSubmitted hw | watchRefused hw | watchResolved hw | watchOrphaned hw
  | watchCancelled hw | watcherDropped hw | watcherDroppedFull hw =>
      exact h.of_watching rfl rfl le_rfl (h.lt hw)
  | _ => exact ⟨h.packets, h.fresh⟩

structure Sourced (s : State) : Prop extends Provenance (Genuine s) s, Registered s

theorem Sourced.initial (options : ConnectOptions) : Sourced (State.initial options) where
  task := by constructor <;> simp [State.initial]
  channel := by simp [State.initial]
  history := by simp [State.initial]
  packets := by simp [State.initial]
  fresh := by simp [State.initial]

theorem Provenance.extends {s s' : State} (h : Provenance (Genuine s) s)
    (hextends : Extends s s') : Provenance (Genuine s') s where
  task := h.task.mono fun _ => Genuine.mono hextends
  channel command hmem := (h.channel command hmem).mono hextends
  history action hmem := (h.history action hmem).mono fun _ => Genuine.mono hextends

theorem Sourced.issued {s s' : State} {event : CallerEvent} (h : Sourced s)
    (hledger : Ledger s) (hmove : CallerMove s event s') : Sourced s' := by
  have hextends := hmove.extends (hledger.fresh _ le_rfl) (h.fresh _ le_rfl)
  have hold := h.toProvenance.extends hextends
  have huntouched := hmove.untouched
  obtain ⟨added, hchannel, hadded⟩ := hmove.channel
  refine { toRegistered := h.toRegistered.issued hmove, task := ?_, channel := ?_, history := ?_ }
  · rw [huntouched.task]
    exact hold.task
  · rw [hchannel]
    exact List.forall_mem_append.mpr ⟨hold.channel, hadded⟩
  · rw [huntouched.history]
    exact hold.history

theorem Sourced.moved {rmp : Rmp} {s s' : State} {event : TaskEvent} (h : Sourced s)
    (hmove : TaskMove rmp s event s') : Sourced s' := by
  have huntouched := hmove.untouched
  have hextends : Extends s s' := .of_eq huntouched.calls huntouched.watching
  have hprovenance := h.toProvenance.move hmove
  refine { task := ?_, channel := ?_, history := ?_, packets := ?_, fresh := ?_ }
  · exact hprovenance.task.mono fun _ => Genuine.mono hextends
  · exact fun command hmem => (hprovenance.channel command hmem).mono hextends
  · exact fun action hmem =>
      (hprovenance.history action hmem).mono fun _ => Genuine.mono hextends
  · rw [huntouched.calls]
    exact h.packets
  · rw [huntouched.watching, huntouched.nextWatchId]
    exact h.fresh

theorem Sourced.step {rmp : Rmp} {s s' : State} {event : Event} (h : Sourced s)
    (hledger : Ledger s) (hstep : step rmp s event = some s') : Sourced s' := by
  cases step_move hstep with
  | caller hmove => exact h.issued hledger hmove
  | task hmove => exact h.moved hmove
  | server =>
      exact { task := h.task, channel := h.channel, history := h.history,
              packets := h.packets, fresh := h.fresh }

theorem Reachable.sourced {rmp : Rmp} {options : ConnectOptions} {s : State}
    (h : Reachable rmp options s) : Sourced s :=
  Reaches.invariant (.initial options)
    (fun hreach hsourced _ hstep => hsourced.step (Reachable.ledger hreach) hstep) h

end Tarant.Connection
