import Tarant.Connection.Features
import Tarant.Connection.Routing

/-!
# Every link is greeted first

A socket carries the requests of its handshake before anything else, and nothing
but these until the handshake has succeeded.  A link that has been replaced is
never written to again.
-/

namespace Tarant.Connection

open Foundation

def greeting (options : ConnectOptions) (scramble : Bytes) : List (Origin × Packet) :=
  (.handshakeId, idPacket) ::
    options.loginUser.toList.map fun user => (.handshakeAuth, authPacket user scramble)

def Hello (options : ConnectOptions) (link : Nat) (history : List Action) : Prop :=
  ∃ scramble rest, outbound link history = greeting options scramble ++ rest ∧
    ∀ sent ∈ rest, sent.1.handshake = false

def LinkUp (before : List Action) : Action → Prop
  | .wrote link origin _ _ => origin.handshake = false → ∃ negotiated, .up link negotiated ∈ before
  | _ => True

/-! ## One step -/

/-- A packet that is not the handshake's goes to the link in use, or to one that the
records before it have brought up. -/
def ServesUp (s : State) (actions : List Action) : Prop :=
  ∀ before link origin packet result after,
    actions = before ++ .wrote link origin packet result :: after → origin.handshake = false →
      (s.phase.up = true ∧ link = s.link) ∨ ∃ negotiated, .up link negotiated ∈ before

theorem TaskMove.servesUp_of_idle {rmp : Rmp} {s s' : State} {event : TaskEvent}
    (h : TaskMove rmp s event s') (hsocket : s.phase.socket = none) :
    ∃ actions, s'.history = s.history ++ actions ∧ ServesUp s actions := by
  obtain ⟨actions, hhistory, hrecorded⟩ := h.recorded
  refine ⟨actions, hhistory, ?_⟩
  rintro before link origin packet result after rfl horigin
  have hmem : .wrote link origin packet result ∈
      before ++ .wrote link origin packet result :: after :=
    List.mem_append_right _ List.mem_cons_self
  cases hrecorded _ hmem with
  | handling deferred hserving hlink hhandling hmem =>
      exact .inl ⟨hserving, (hhandling.isLocal _ hmem).1⟩
  | routing hphase hlink hinbound hrouting hmem =>
      exact .inl ⟨by rw [hphase]; rfl, (hrouting.isLocal _ hmem).1⟩
  | greeted | loggedIn => cases horigin
  | resubscribed hreply => simp [hreply.phase.1] at hsocket

theorem resubscribe_servesUp (s : State) (link : Nat) (negotiated : Negotiated)
    (send : String → SendResult) (order : List String) :
    ServesUp s (.up link negotiated :: Task.resubscribe link send order) := by
  intro before link' origin packet result after hsplit _
  cases before with
  | nil => cases hsplit
  | cons first before =>
      rw [List.cons_append, List.cons.injEq] at hsplit
      obtain ⟨rfl, hrest⟩ := hsplit
      have hmem : .wrote link' origin packet result ∈ Task.resubscribe link send order :=
        hrest ▸ List.mem_append_right _ List.mem_cons_self
      obtain ⟨rfl, -⟩ := resubscribe_isLocal send order _ hmem
      exact .inr ⟨negotiated, List.mem_cons_self⟩

theorem TaskMove.servesUp {rmp : Rmp} {s s' : State} {event : TaskEvent}
    (h : TaskMove rmp s event s') :
    ∃ actions, s'.history = s.history ++ actions ∧ ServesUp s actions := by
  by_cases hsocket : s.phase.socket = none
  · exact h.servesUp_of_idle hsocket
  · cases h with
    | attemptFailed | replyRejected | idAccepted =>
        refine ⟨[], (List.append_nil _).symm, ?_⟩
        intro before link origin packet result after hsplit
        simp at hsplit
    | authenticated =>
        refine ⟨_, rfl, ?_⟩
        intro before link origin packet result after hsplit horigin
        cases before with
        | nil =>
            obtain ⟨-, rfl, -⟩ := Action.wrote.inj (List.cons.inj hsplit).1
            cases horigin
        | cons => simp at hsplit
    | spawned =>
        refine ⟨_, rfl, ?_⟩
        intro before link origin packet result after hsplit
        cases before <;> simp at hsplit
    | reconnected => exact ⟨_, rfl, resubscribe_servesUp s _ _ _ _⟩
    | handledLost hphase | replayed hphase | replayFailed hphase | handled hphase
    | closeCommand hphase | channelClosed hphase | received hphase | receivedLast hphase
    | deferred hphase | closeWhileDown hphase | channelClosedWhileDown hphase
    | linkLost hphase | drained hphase | woke hphase | connected hphase =>
        exact absurd (by rw [hphase]; rfl) hsocket

theorem TaskMove.up_noted {rmp : Rmp} {s s' : State} {event : TaskEvent}
    (h : TaskMove rmp s event s') (hup : s'.phase.up = true) :
    (s.phase.up = true ∧ s'.link = s.link) ∨
      ∃ negotiated, .up s'.link negotiated ∈ s'.history := by
  cases h with
  | drained hphase | replayed hphase | replayFailed hphase | handled hphase | received hphase =>
      exact .inl ⟨by rw [hphase]; rfl, rfl⟩
  | spawned | reconnected =>
      exact .inr ⟨_, List.mem_append_right _ List.mem_cons_self⟩
  | handledLost | linkLost => simp [lose_not_up] at hup
  | attemptFailed hphase hafter | replyRejected _ hphase hafter =>
      obtain ⟨-, rfl | ⟨-, delay, rfl⟩⟩ := afterFailure_cases hafter <;> simp [Phase.up] at hup
  | connected hphase hafter =>
      exact absurd (hup.symm.trans (afterSend_not_up (greeted_phase _ _ _).2.2 hafter)) (by simp)
  | authenticated hphase huser hafter =>
      exact absurd (hup.symm.trans (afterSend_not_up rfl hafter)) (by simp)
  | _ => simp [State.perform, State.closeDown, State.giveUp, State.stop, Phase.up] at hup

theorem TaskMove.up_mem {rmp : Rmp} {s s' : State} {event : TaskEvent}
    (h : TaskMove rmp s event s') {link : Nat} {negotiated : Negotiated}
    (hmem : .up link negotiated ∈ s'.history) :
    .up link negotiated ∈ s.history ∨ s.phase.waits = true ∧ s.phase.socket = some link ∧
      s'.phase.up = true ∧ s'.link = link := by
  obtain ⟨actions, hhistory, hrecorded⟩ := h.recorded
  rw [hhistory] at hmem
  refine (List.mem_append.mp hmem).imp_right fun hmem => ?_
  cases hrecorded _ hmem with
  | handling deferred hup hlink hhandling hmem => cases hhandling.acts _ hmem
  | routing hphase hlink hinbound hrouting hmem => cases hrouting.acts _ hmem
  | up hreply hinbound hlink hup => exact ⟨hreply.waits, hreply.phase.1, hup, hlink⟩

/-! ## Whole runs -/

/-- How much of its greeting each link carries. -/
structure Greetings (s : State) : Prop where
  unopened : ∀ link, s.sockets ≤ link → outbound link s.history = []
  opening : ∀ link, (∀ negotiated, .up link negotiated ∉ s.history) →
    ∃ scramble, outbound link s.history <+: greeting s.options scramble
  opened : ∀ link negotiated, .up link negotiated ∈ s.history → Hello s.options link s.history

structure HandshakeSent (s : State) : Prop where
  authenticating : ∀ delay socket version, s.phase = .authenticating delay socket version →
    outbound socket s.history = [(.handshakeId, idPacket)]
  waiting : s.phase.waits = true → ∀ socket ∈ s.phase.socket,
    ∃ scramble, outbound socket s.history = greeting s.options scramble

structure Greeted (s : State) : Prop extends Greetings s, HandshakeSent s where
  past : ∀ link negotiated, .up link negotiated ∈ s.history →
    link ≤ s.link ∧ ¬ s.phase.first
  up : s.phase.up = true → ∃ negotiated, .up s.link negotiated ∈ s.history
  served : Justified LinkUp s.history

theorem Hello.append {options : ConnectOptions} {link l : Nat} {history actions : List Action}
    (h : Hello options link history) (hon : OnLink l actions) :
    Hello options link (history ++ actions) := by
  obtain ⟨scramble, rest, houtbound, hrest⟩ := h
  refine ⟨scramble, rest ++ outbound link actions, ?_, ?_⟩
  · rw [outbound_append, houtbound, List.append_assoc]
  · exact List.forall_mem_append.mpr ⟨hrest, hon.outbound_handshake⟩

theorem Greeted.not_up {s : State} (h : Greeted s) (hlinks : Links s) {socket : Nat}
    (hsocket : s.phase.socket = some socket) (negotiated : Negotiated) :
    .up socket negotiated ∉ s.history := by
  intro hmem
  obtain ⟨hle, hfirst⟩ := h.past socket negotiated hmem
  have hlt := (hlinks.socket socket hsocket).2 hfirst
  omega

theorem Greeted.up_moved {rmp : Rmp} {s s' : State} {event : TaskEvent} (h : Greeted s)
    (hmove : TaskMove rmp s event s') (hup : s'.phase.up = true) :
    ∃ negotiated, .up s'.link negotiated ∈ s'.history := by
  rcases hmove.up_noted hup with ⟨hbefore, hlink⟩ | hnow
  · obtain ⟨actions, hhistory, -⟩ := hmove.recorded
    obtain ⟨negotiated, hmem⟩ := h.up hbefore
    exact ⟨negotiated, by rw [hlink, hhistory]; exact List.mem_append_left _ hmem⟩
  · exact hnow

theorem Greeted.served_moved {rmp : Rmp} {s s' : State} {event : TaskEvent} (h : Greeted s)
    (hmove : TaskMove rmp s event s') : Justified LinkUp s'.history := by
  obtain ⟨actions, hhistory, hwrites⟩ := hmove.servesUp
  rw [hhistory]
  refine justified_append h.served fun before record after hsplit => ?_
  cases record with
  | wrote link origin packet result =>
      intro horigin
      rcases hwrites before link origin packet result after hsplit horigin with
        ⟨hup, rfl⟩ | ⟨negotiated, hmem⟩
      · exact (h.up hup).imp fun _ hmem => List.mem_append_left _ hmem
      · exact ⟨negotiated, List.mem_append_right _ hmem⟩
  | _ => trivial

theorem Greeted.past_moved {rmp : Rmp} {s s' : State} {event : TaskEvent} (h : Greeted s)
    (hlinks : Links s) (hmove : TaskMove rmp s event s') {link : Nat} {negotiated : Negotiated}
    (hmem : .up link negotiated ∈ s'.history) : link ≤ s'.link ∧ ¬ s'.phase.first := by
  rcases hmove.up_mem hmem with hold | ⟨-, -, hup, rfl⟩
  · obtain ⟨hle, hfirst⟩ := h.past link negotiated hold
    obtain ⟨hlink, hfirst'⟩ := hmove.link_le hlinks hfirst
    exact ⟨hle.trans hlink, hfirst'⟩
  · refine ⟨le_rfl, ?_⟩
    cases hphase : s'.phase <;> simp_all [Phase.up, Phase.first, Phase.attempt]

/-! ### The handshake itself -/

theorem outbound_greet (s : State) (send : SendResult) (phase : Phase) (link : Nat) :
    outbound link (s.greet send phase).history = outbound link s.history ++
      if s.sockets = link ∧ send.reached then [(.handshakeId, idPacket)] else [] :=
  outbound_wrote _ _ _ _ _ _

theorem outbound_authenticate (s : State) (socket : Nat) (user : String) (scramble : Bytes)
    (send : SendResult) (phase : Phase) (link : Nat) :
    outbound link (s.authenticate socket user scramble send phase).history =
      outbound link s.history ++ if socket = link ∧ send.reached then
        [(.handshakeAuth, authPacket user scramble)] else [] :=
  outbound_wrote _ _ _ _ _ _

theorem greeting_user {o : ConnectOptions} {user : String} (huser : o.loginUser = some user)
    (scramble : Bytes) : greeting o scramble =
      [(.handshakeId, idPacket), (.handshakeAuth, authPacket user scramble)] := by
  rw [greeting, huser]
  rfl

theorem Greeted.greet_prefix {s : State} (h : Greeted s) (send : SendResult) (phase : Phase)
    (scramble : Bytes) :
    outbound s.sockets (s.greet send phase).history <+: greeting s.options scramble := by
  rw [outbound_greet, h.unopened _ le_rfl, List.nil_append]
  split
  · exact List.prefix_append [_] _
  · exact List.nil_prefix

theorem Greeted.authenticate_prefix {s : State} {delay : Option Nat} {socket : Nat}
    {version user : String} (h : Greeted s)
    (hphase : s.phase = .authenticating delay socket version)
    (huser : s.options.loginUser = some user) (scramble : Bytes) (send : SendResult)
    (phase : Phase) :
    outbound socket (s.authenticate socket user scramble send phase).history <+:
      greeting s.options scramble := by
  rw [outbound_authenticate, h.authenticating _ _ _ hphase, greeting_user huser]
  split
  · exact List.prefix_refl _
  · exact List.prefix_append [_] _

theorem Greetings.sent {s s' : State} {socket : Nat} (h : Greetings s)
    (hoptions : s'.options = s.options) (hsockets : s.sockets ≤ s'.sockets)
    (hsocket : socket < s'.sockets)
    (hup : ∀ link negotiated, .up link negotiated ∈ s'.history ↔ .up link negotiated ∈ s.history)
    (hother : ∀ link, link ≠ socket → outbound link s'.history = outbound link s.history)
    (hgreeting : ∃ scramble, outbound socket s'.history <+: greeting s'.options scramble)
    (hnever : ∀ negotiated, .up socket negotiated ∉ s.history) : Greetings s' where
  unopened link hle := by
    rw [hother link (by omega)]
    exact h.unopened link (hsockets.trans hle)
  opening link hnever' := by
    by_cases hlink : link = socket
    · rw [hlink]
      exact hgreeting
    · rw [hother link hlink, hoptions]
      exact h.opening link fun negotiated => mt (hup link negotiated).mpr (hnever' negotiated)
  opened link negotiated hmem := by
    have hold := (hup link negotiated).mp hmem
    have hne : link ≠ socket := by
      rintro rfl
      exact hnever negotiated hold
    rw [Hello, hother link hne, hoptions]
    exact h.opened link negotiated hold

theorem Greeted.greets {s s' : State} (h : Greeted s) (hlinks : Links s) (hgreets : Greets s s') :
    Greetings s' := by
  cases hgreets with
  | @id delay send phase hphase =>
      refine h.toGreetings.sent rfl (Nat.le_succ _) (Nat.lt_succ_self s.sockets) ?_ ?_ ?_ ?_
      · simp [State.greet, State.perform]
      · intro link hne
        rw [outbound_greet, if_neg (fun hsame => hne hsame.1.symm), List.append_nil]
      · exact ⟨[], h.greet_prefix send phase []⟩
      · intro negotiated hmem
        obtain ⟨hle, hfirst⟩ := h.past _ negotiated hmem
        have hlt := hlinks.opened hfirst (by simp [hphase])
        omega
  | @auth delay socket version user scramble send phase hphase huser =>
      have hsocket : s.phase.socket = some socket := by rw [hphase]; rfl
      refine h.toGreetings.sent rfl le_rfl (hlinks.socket socket hsocket).1 ?_ ?_ ?_ ?_
      · simp [State.authenticate, State.perform]
      · intro link hne
        rw [outbound_authenticate, if_neg (fun hsame => hne hsame.1.symm), List.append_nil]
      · exact ⟨scramble, h.authenticate_prefix hphase huser scramble send phase⟩
      · exact h.not_up hlinks hsocket

theorem Greeted.serves {rmp : Rmp} {s s' : State} {event : TaskEvent} {actions : List Action}
    (h : Greeted s) (hlinks : Links s) (hmove : TaskMove rmp s event s')
    (hhistory : s'.history = s.history ++ actions) (hon : OnLink s'.link actions)
    (hsockets : s'.sockets = s.sockets) : Greetings s' := by
  have hserved := h.served_moved hmove
  have hquiet {link : Nat} (hnever : ∀ negotiated, .up link negotiated ∉ s'.history) :
      outbound link actions = [] := by
    rw [List.eq_nil_iff_forall_not_mem]
    rintro ⟨origin, packet⟩ hmem
    obtain ⟨result, hwrote⟩ := mem_outbound hmem
    obtain ⟨before, after, rfl⟩ := List.append_of_mem hwrote
    rw [← List.append_assoc] at hhistory
    obtain ⟨negotiated, hup⟩ := hserved _ _ _ hhistory (hon.outbound_handshake _ hmem)
    exact hnever negotiated (hhistory ▸ List.mem_append_left _ hup)
  have hup {link : Nat} {negotiated : Negotiated} (hmem : .up link negotiated ∈ s'.history) :
      link < s.sockets ∧ Hello s.options link s.history := by
    rcases hmove.up_mem hmem with hold | ⟨hwaits, hsocket, -, -⟩
    · obtain ⟨hle, hfirst⟩ := h.past link negotiated hold
      have hlt := hlinks.opened hfirst hmove.not_done
      exact ⟨lt_of_le_of_lt hle hlt, h.opened link negotiated hold⟩
    · obtain ⟨scramble, hgreeting⟩ := h.waiting hwaits link hsocket
      refine ⟨(hlinks.socket link hsocket).1, scramble, [], ?_, by simp⟩
      rw [hgreeting, List.append_nil]
  have hoptions := hmove.untouched.options
  refine ⟨fun link hle => ?_, fun link hnever => ?_, fun link negotiated hmem => ?_⟩
  · have hnever : ∀ negotiated, .up link negotiated ∉ s'.history := by
      intro negotiated hmem
      have hlt := (hup hmem).1
      omega
    rw [hhistory, outbound_append, h.unopened link (hsockets ▸ hle), hquiet hnever]
    rfl
  · rw [hoptions, hhistory, outbound_append, hquiet hnever, List.append_nil]
    refine h.opening link fun negotiated hmem => hnever negotiated ?_
    rw [hhistory]
    exact List.mem_append_left _ hmem
  · rw [hoptions, hhistory]
    exact (hup hmem).2.append hon

theorem HandshakeSent.of_idle {s : State} (h : s.phase.socket = none) : HandshakeSent s where
  authenticating delay socket version hphase := by simp [hphase, Phase.socket] at h
  waiting _ socket hmem := by simp [h] at hmem

theorem Greeted.handshake_moved {rmp : Rmp} {s s' : State} {event : TaskEvent} (h : Greeted s)
    (hmove : TaskMove rmp s event s') : HandshakeSent s' := by
  cases hmove with
  | @connected delay version send phase hphase hafter =>
      rcases afterSend_cases hafter with ⟨rfl, rfl⟩ | hfailed
      · have hsent : outbound s.sockets (s.greet .sent (s.greeted delay version)).history =
            [(.handshakeId, idPacket)] := by
          rw [outbound_greet, h.unopened _ le_rfl]
          simp [SendResult.reached]
        cases huser : s.options.loginUser with
        | some user =>
            have hgreeted : s.greeted delay version = .authenticating delay s.sockets version := by
              simp [State.greeted, huser]
            rw [hgreeted] at hsent ⊢
            constructor
            · rintro _ _ _ ⟨⟩
              exact hsent
            · rintro ⟨⟩
        | none =>
            have hgreeted : s.greeted delay version = .awaitingId delay s.sockets version := by
              simp [State.greeted, huser]
            rw [hgreeted] at hsent ⊢
            constructor
            · rintro _ _ _ ⟨⟩
            · rintro - _ ⟨⟩
              refine ⟨[], hsent.trans ?_⟩
              simp [greeting, State.greet, State.perform, huser]
      · exact .of_idle (afterFailure_cases hfailed).1
  | @authenticated delay socket version user scramble send phase hphase huser hafter =>
      rcases afterSend_cases hafter with ⟨rfl, rfl⟩ | hfailed
      · constructor
        · rintro _ _ _ ⟨⟩
        · rintro - _ ⟨⟩
          refine ⟨scramble, ?_⟩
          rw [outbound_authenticate, h.authenticating _ _ _ hphase]
          simp [greeting_user (o := s.options) huser, State.authenticate, State.perform,
            SendResult.reached]
      · exact .of_idle (afterFailure_cases hfailed).1
  | attemptFailed hphase hafter | replyRejected _ hphase hafter =>
      exact .of_idle (afterFailure_cases hafter).1
  | idAccepted hphase =>
      constructor
      · rintro _ _ _ ⟨⟩
      · rintro - _ ⟨⟩
        exact h.waiting (by rw [hphase]; rfl) _ (by rw [hphase]; rfl)
  | handledLost | linkLost => exact .of_idle (lose_socket _)
  | _ => exact .of_idle rfl

theorem Greeted.moved {rmp : Rmp} {s s' : State} {event : TaskEvent} (h : Greeted s)
    (hlinks : Links s) (hmove : TaskMove rmp s event s') : Greeted s' where
  toGreetings := by
    rcases hmove.serves with ⟨hsockets, actions, hhistory, hon⟩ | hgreets
    · exact h.serves hlinks hmove hhistory hon hsockets
    · exact h.greets hlinks hgreets
  toHandshakeSent := h.handshake_moved hmove
  past _ _ := h.past_moved hlinks hmove
  up := h.up_moved hmove
  served := h.served_moved hmove

theorem Reachable.greeted {rmp : Rmp} {options : ConnectOptions} {s : State}
    (h : Reachable rmp options s) : Greeted s := by
  refine Reaches.invariant ?_ ?_ h
  · refine ⟨⟨?_, ?_, ?_⟩, .of_idle rfl, ?_, ?_, ?_⟩ <;> simp [State.initial, outbound, Phase.up]
  · intro s s' event hreach hgreeted _ hstep
    have hlinks : Links s := Reachable.links hreach
    cases step_move hstep with
    | caller hmove =>
        obtain ⟨hoptions, -, hphase, -, hlink, hsockets, -, -, hhistory⟩ := hmove.untouched
        refine ⟨⟨?_, ?_, ?_⟩, ⟨?_, ?_⟩, ?_, ?_, ?_⟩ <;> rw [hhistory]
        · rw [hsockets]
          exact hgreeted.unopened
        · rw [hoptions]
          exact hgreeted.opening
        · rw [hoptions]
          exact hgreeted.opened
        · rw [hphase]
          exact hgreeted.authenticating
        · rw [hphase, hoptions]
          exact hgreeted.waiting
        · rw [hlink, hphase]
          exact hgreeted.past
        · rw [hphase, hlink]
          exact hgreeted.up
        · exact hgreeted.served
    | task hmove => exact hgreeted.moved hlinks hmove
    | server =>
        obtain ⟨⟨h₁, h₂, h₃⟩, ⟨h₄, h₅⟩, h₆, h₇, h₈⟩ := hgreeted
        exact ⟨⟨h₁, h₂, h₃⟩, ⟨h₄, h₅⟩, h₆, h₇, h₈⟩

theorem replaced_link_silent {rmp : Rmp} {options : ConnectOptions} {s t : State}
    (h : Reachable rmp options s) (hfirst : ¬ s.phase.first)
    (hlater : Reaches (step rmp) anyStep s t) :
    s.link ≤ t.link ∧ ¬ t.phase.first ∧
      ∀ link, link < s.link → outbound link t.history = outbound link s.history := by
  refine Reaches.invariant (I := fun t => s.link ≤ t.link ∧ ¬ t.phase.first ∧
    ∀ link, link < s.link → outbound link t.history = outbound link s.history)
    ⟨le_rfl, hfirst, fun _ _ => rfl⟩ ?_ hlater
  rintro t t' event hreach ⟨hle, hfirst, hsame⟩ - hstep
  cases step_move hstep with
  | caller hmove =>
      obtain ⟨-, -, hphase, -, hlink, -, -, -, hhistory⟩ := hmove.untouched
      rw [hphase, hlink, hhistory]
      exact ⟨hle, hfirst, hsame⟩
  | task hmove =>
      have hlinks : Links t := Reachable.links (h.trans hreach)
      obtain ⟨hle', hfirst'⟩ := hmove.link_le hlinks hfirst
      refine ⟨hle.trans hle', hfirst', fun link hlt => ?_⟩
      rcases hmove.serves with ⟨-, actions, hhistory, hon⟩ | hgreets
      · rw [hhistory, outbound_append, hon.outbound_ne (by omega), List.append_nil, hsame link hlt]
      · rw [← hsame link hlt]
        cases hgreets with
        | id hphase =>
            have hopened := hlinks.opened hfirst hmove.not_done
            rw [outbound_greet, if_neg (by omega), List.append_nil]
        | auth hphase huser =>
            have hlater := (hlinks.socket _ (by rw [hphase]; rfl)).2 hfirst
            rw [outbound_authenticate, if_neg (by omega), List.append_nil]
  | server => exact ⟨hle, hfirst, hsame⟩

/--
Until a link is up the server may see no more of it than a beginning of its
greeting: `IPROTO_ID`, and `IPROTO_AUTH` if a user is to log in.  Once it is up
both have been written and everything else comes after them, and nothing more
comes to it once another link has taken its place.
-/
theorem links_greeted_first {rmp : Rmp} {options : ConnectOptions} {s : State}
    (h : Reachable rmp options s) :
    (∀ link, (∀ negotiated, .up link negotiated ∉ s.history) →
      ∃ scramble, outbound link s.history <+: greeting s.options scramble) ∧
    (∀ link negotiated, .up link negotiated ∈ s.history → ∃ scramble rest,
      outbound link s.history = greeting s.options scramble ++ rest ∧
        ∀ sent ∈ rest, sent.1.handshake = false) ∧
    (∀ link, s.sockets ≤ link → outbound link s.history = []) ∧
    (∀ before link origin packet result after,
      s.history = before ++ .wrote link origin packet result :: after →
      origin.handshake = false → ∃ negotiated, .up link negotiated ∈ before) ∧
    (¬ s.phase.first → ∀ t, Reaches (step rmp) anyStep s t →
      ∀ link, link < s.link → outbound link t.history = outbound link s.history) := by
  have hgreeted := h.greeted
  refine ⟨hgreeted.opening, hgreeted.opened, hgreeted.unopened, ?_, ?_⟩
  · intro before link origin packet result after hsplit
    exact hgreeted.served before _ after hsplit
  · intro hfirst t hlater
    exact (replaced_link_silent h hfirst hlater).2.2

theorem links_greeted_first_sample :
    ∃ s, Reachable fixintRmp { user := some "app" } s ∧ (outbound 0 s.history).length = 3 ∧
      ∃ scramble rest, outbound 0 s.history = greeting s.options scramble ++ rest ∧
        ∀ sent ∈ rest, sent.1.handshake = false := by
  obtain ⟨s, hreach, hcheck⟩ := reaches_of_check (step fixintRmp)
    (.initial { user := some "app" })
    (sampleLogin ++ [sampleAuthReply, .task (.handshakeReply [] fun _ => .sent)] ++
      sampleFirstRequest)
    (fun s => (handshakes s.history).any (·.1 == 0) &&
      decide ((outbound 0 s.history).length = 3)) (by decide +kernel)
  simp only [Bool.and_eq_true, List.any_eq_true, beq_iff_eq, decide_eq_true_eq] at hcheck
  obtain ⟨⟨⟨link, negotiated⟩, hmem, rfl⟩, hlength⟩ := hcheck
  obtain hmem := mem_handshakes.mp hmem
  exact ⟨s, hreach, hlength, (links_greeted_first hreach).2.1 0 negotiated hmem⟩

end Tarant.Connection
