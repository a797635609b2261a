import Tarant.Connection.Broadcast

/-!
# The order of packets

The server only adds to what a link brings, and the connection reads it packet by packet.
A link that was never asked for a key has brought nothing for it.
-/

namespace Tarant.Connection

open Foundation
open Iproto

namespace Joint

variable {s s' : Joint} {link : Nat} {key : String}

/-! ## What the server leaves to the connection -/

structure Extended (s s' : Joint) : Prop where
  history : s'.client.history = s.client.history
  read : s'.client.read = s.client.read
  task : s'.client.task = s.client.task
  phase : s'.client.phase = s.client.phase
  link : s'.client.link = s.client.link
  inbound : ∀ link, (s.client.inbound link).length ≤ (s'.client.inbound link).length

theorem Extended.of_client (h : s'.client = s.client) : Extended s s' := by
  constructor <;> simp [h]

theorem extended_emit (s : Joint) (link : Nat) (key : String) : Extended s (s.emit link key) := by
  refine ⟨rfl, rfl, rfl, rfl, rfl, fun link' => ?_⟩
  by_cases hlink : link' = link
  · subst hlink
    simp [emit, arrive, register]
  · simp [emit, arrive, register, hlink]

theorem extended_answer (s : Joint) (link : Nat) (sent : Origin × Packet) :
    Extended s (s.answer link sent) := by
  unfold answer watch
  split
  · split
    · exact extended_emit s link _
    · split
      · exact .of_client rfl
      · exact extended_emit s link _
  · exact .of_client rfl
  · exact .of_client rfl

theorem processed_answer (s : Joint) (link : Nat) (sent : Origin × Packet) :
    (s.answer link sent).processed = s.processed := by
  unfold answer watch
  split
  · split
    · rfl
    · split <;> rfl
  · rfl
  · rfl

theorem Extended.of_process (h : s.process link = some s') : Extended s s' := by
  obtain ⟨-, sent, -, rfl⟩ := process_cases h
  obtain ⟨hhistory, hread, htask, hphase, hlink, hinbound⟩ :=
    extended_answer (s.advance link) link sent
  exact ⟨hhistory, hread, htask, hphase, hlink, hinbound⟩

theorem Extended.of_notify (h : s.notify link key = some s') : Extended s s' := by
  obtain ⟨-, -, rfl⟩ := notify_cases h
  exact extended_emit s link key

theorem client_emit (rmp : Rmp) (s : Joint) {link : Nat} (key : String)
    (hopened : link < s.client.sockets) :
    step rmp s.client (.server link (eventPacket key (s.values key))) =
      some (s.emit link key).client :=
  if_pos hopened

theorem client_answer (rmp : Rmp) (s : Joint) {link : Nat} (sent : Origin × Packet)
    (hopened : link < s.client.sockets) : (s.answer link sent).client = s.client ∨
      ∃ event, step rmp s.client event = some (s.answer link sent).client := by
  unfold answer watch
  split
  · split
    · exact .inr ⟨_, client_emit rmp s _ hopened⟩
    · split
      · exact .inl rfl
      · exact .inr ⟨_, client_emit rmp s _ hopened⟩
  · exact .inl rfl
  · exact .inl rfl

end Joint

theorem JointlyReachableBy.client {rmp : Rmp} {options : ConnectOptions} {values : String → Bytes}
    {allowed : Joint → JointEvent → Prop} {s : Joint}
    (h : JointlyReachableBy rmp options values allowed s) : Reachable rmp options s.client := by
  refine Reaches.invariant (I := fun s => Reachable rmp options s.client) ?_ ?_ h
  · exact .refl
  intro s s' event _ hreach _ hstep
  cases event with
  | connection event =>
      simp only [jointStep, Option.ite_none_left_eq_some, Option.map_eq_some_iff] at hstep
      obtain ⟨-, client, hclient, rfl⟩ := hstep
      exact .next hreach trivial hclient
  | process link =>
      obtain ⟨hopened, sent, -, rfl⟩ := Joint.process_cases hstep
      obtain hsame | ⟨event, hevent⟩ := Joint.client_answer rmp (s.advance link) sent hopened
      · rw [hsame]
        exact hreach
      · exact .next hreach trivial hevent
  | notify link key =>
      obtain ⟨hopened, -, rfl⟩ := Joint.notify_cases hstep
      exact .next hreach trivial (Joint.client_emit rmp s key hopened)
  | broadcast key value =>
      obtain rfl := Option.some.inj hstep
      exact hreach

/-! ## What the connection reads -/

def ReadsOn (s s' : State) : Prop :=
  ∀ link, s.read link ≤ (s.inbound link).length →
    s.read link ≤ s'.read link ∧ s'.read link ≤ (s.inbound link).length

theorem ReadsOn.of_eq {s s' : State} (h : s'.read = s.read) : ReadsOn s s' :=
  fun link hread => by
    rw [h]
    exact ⟨le_refl _, hread⟩

theorem ReadsOn.of_update {s s' : State} {socket : Nat} {inbound : Inbound}
    (hinbound : (s.inbound socket)[s.read socket]? = some inbound)
    (h : s'.read = Function.update s.read socket (s.read socket + 1)) : ReadsOn s s' := by
  intro link hread
  rw [h]
  by_cases hlink : link = socket
  · subst hlink
    have hlt := (List.getElem?_eq_some_iff.mp hinbound).1
    rw [Function.update_self]
    omega
  · rw [Function.update_of_ne hlink]
    exact ⟨le_refl _, hread⟩

theorem retry_read {s s' : State} {delay : Option Nat} (h : s.retry delay = some s') :
    s'.read = s.read := by
  obtain ⟨phase, -, rfl⟩ := retry_eq h
  rfl

theorem established_read {s s' : State} {delay : Option Nat} {socket : Nat}
    {negotiated : Negotiated} {order : List String} {send : String → SendResult}
    (h : s.established delay socket negotiated order send = some s') : s'.read = s.read := by
  unfold State.established at h
  split at h
  · cases h
    rfl
  · split at h
    · cases h
      rfl
    · contradiction

theorem readHandshake_cases {s s' : State} {socket : Nat} {reply : Response}
    (h : s.readHandshake socket = some (reply, s')) :
    (∃ inbound, (s.inbound socket)[s.read socket]? = some inbound) ∧
      s'.read = Function.update s.read socket (s.read socket + 1) := by
  obtain ⟨inbound, hinbound, heq⟩ := Option.map_eq_some_iff.mp h
  obtain ⟨-, rfl⟩ := Prod.mk.inj heq
  exact ⟨⟨inbound, hinbound⟩, rfl⟩

theorem handshakeReply_read {rmp : Rmp} {s s' : State} {order : List String}
    {send : String → SendResult} (h : s.handshakeReply rmp order send = some s') :
    ReadsOn s s' := by
  unfold State.handshakeReply at h
  split at h
  · obtain ⟨⟨reply, s₁⟩, hread, h⟩ := Option.bind_eq_some_iff.mp h
    obtain ⟨⟨inbound, hinbound⟩, hread₁⟩ := readHandshake_cases hread
    refine .of_update hinbound (Eq.trans ?_ hread₁)
    simp only at h
    split at h
    · exact retry_read h
    · split at h
      · cases h
        rfl
      · exact established_read h
  · obtain ⟨⟨reply, s₁⟩, hread, h⟩ := Option.bind_eq_some_iff.mp h
    obtain ⟨⟨inbound, hinbound⟩, hread₁⟩ := readHandshake_cases hread
    refine .of_update hinbound (Eq.trans ?_ hread₁)
    simp only at h
    split at h
    · exact retry_read h
    · exact established_read h
  · contradiction

theorem taskStep_read {rmp : Rmp} {s s' : State} {event : TaskEvent}
    (h : taskStep rmp s event = some s') : ReadsOn s s' := by
  cases taskStep_move h with
  | received hphase hinbound | receivedLast hphase hinbound => exact .of_update hinbound rfl
  | handledLost | linkLost => exact .of_eq (lose_read _)
  | replyRejected | idAccepted | spawned | reconnected => exact handshakeReply_read h
  | _ => exact .of_eq rfl

/-! ## Order -/

namespace Joint

variable {s s' : Joint} {link : Nat} {key : String} {client : State}

def withClient (s : Joint) (client : State) : Joint := { s with client := client }

theorem processed_lt {sent : Origin × Packet}
    (h : (outbound link s.client.history)[s.processed link]? = some sent) :
    s.processed link < (outbound link s.client.history).length :=
  (List.getElem?_eq_some_iff.mp h).1

theorem Orderly.process (h : s.Orderly) (hprocess : s.process link = some s') : s'.Orderly := by
  have hextended := Extended.of_process hprocess
  constructor
  · intro link'
    obtain ⟨-, sent, hsent, rfl⟩ := process_cases hprocess
    rw [hextended.history, processed_answer]
    by_cases hlink : link' = link
    · subst hlink
      simpa [advance] using processed_lt hsent
    · simpa [advance, hlink] using h.processed link'
  · intro link'
    rw [hextended.read]
    exact (h.read link').trans (hextended.inbound link')
  · intro link' key' hhandled
    have hregistration : s'.registrations link' key' = (s'.feed link' key').registration := rfl
    rw [hregistration]
    obtain hsame | ⟨request, rest, -, hserved⟩ := process_feed h hprocess link' key'
    · rw [hsame] at hhandled ⊢
      exact h.fresh link' key' hhandled
    · rw [hserved] at hhandled
      simp [Feed.handled_serve] at hhandled

theorem Orderly.notify (h : s.Orderly) (hnotify : s.notify link key = some s') : s'.Orderly := by
  have hextended := Extended.of_notify hnotify
  constructor
  · intro link'
    rw [hextended.history]
    obtain ⟨-, -, rfl⟩ := notify_cases hnotify
    exact h.processed link'
  · intro link'
    rw [hextended.read]
    exact (h.read link').trans (hextended.inbound link')
  · intro link' key' hhandled
    have hregistration : s'.registrations link' key' = (s'.feed link' key').registration := rfl
    rw [hregistration]
    obtain hsame | ⟨hregistered, hemitted⟩ := notify_feed h hnotify link' key'
    · rw [hsame] at hhandled ⊢
      exact h.fresh link' key' hhandled
    · rw [hemitted] at hhandled
      have hnone := (h.fresh link' key' hhandled).1
      simp [feed, hnone] at hregistered

theorem feed_written {actions : List Action}
    (h : s.processed link ≤ (outbound link s.client.history).length)
    (hhistory : client.history = s.client.history ++ actions) (key : String) :
    ((s.withClient client).feed link key).handled = (s.feed link key).handled ∧
      ((s.withClient client).feed link key).requests =
        (s.feed link key).requests ++ subscriptions link key actions := by
  simp only [feed, withClient, hhistory, outbound_append]
  rw [List.take_append_of_le_length h, List.drop_append_of_le_length h, List.filterMap_append]
  exact ⟨rfl, rfl⟩

theorem Orderly.written (h : s.Orderly) (actions : List Action)
    (hhistory : client.history = s.client.history ++ actions)
    (hread : ∀ link, client.read link ≤ (client.inbound link).length)
    (hevents : ∀ link key, (s.feed link key).events = [] →
      ((s.withClient client).feed link key).events = []) : (s.withClient client).Orderly := by
  refine ⟨fun link => ?_, hread, fun link key hhandled => ?_⟩
  · have hle := h.processed link
    simp only [withClient, hhistory, outbound_append, List.length_append]
    omega
  · rw [(feed_written (h.processed link) hhistory key).1] at hhandled
    exact ⟨(h.fresh link key hhandled).1, hevents link key (h.fresh link key hhandled).2⟩

theorem Orderly.connection {rmp : Rmp} {event : Event} (h : s.Orderly)
    (hevent : event.bringsEvent = false) (hstep : step rmp s.client event = some client) :
    (s.withClient client).Orderly := by
  cases step_move hstep with
  | caller hmove =>
      have huntouched := hmove.untouched
      refine h.written [] ?_ ?_ ?_
      · rw [huntouched.history, List.append_nil]
      · rw [huntouched.read, huntouched.inbound]
        exact h.read
      · intro link key hnone
        simpa only [feed, withClient, huntouched.read, huntouched.inbound] using hnone
  | task hmove =>
      obtain ⟨actions, hhistory, -⟩ := hmove.recorded
      have hinbound := hmove.untouched.inbound
      have hreads := taskStep_read hstep
      refine h.written actions hhistory ?_ ?_
      · intro link
        rw [hinbound]
        exact (hreads link (h.read link)).2
      · intro link key hnone
        simp only [feed, withClient, hinbound, List.filterMap_eq_nil_iff] at hnone ⊢
        intro inbound hmem
        exact hnone inbound
          ((List.drop_sublist_drop_left _ (hreads link (h.read link)).1).subset hmem)
  | @server link inbound hopened =>
      refine h.written [] (List.append_nil _).symm ?_ ?_
      · intro link'
        refine (h.read link').trans ?_
        by_cases hlink : link' = link
        · subst hlink
          simp
        · simp [hlink]
      · intro link' key hnone
        have hkind : inbound.response.kind ≠ .event := by
          rintro hkind
          simp [Event.bringsEvent, hkind] at hevent
        have harrived := @feed_arrive s link link' (h.read link') inbound key
        rw [eventFor_of_kind hkind] at harrived
        change ((s.arrive link inbound).feed link' key).events = []
        rw [harrived]
        simpa using hnone

end Joint

end Tarant.Connection
