import Tarant.Connection.Records
import Tarant.Connection.Settlement

/-!
# Replies reach their own request

The sync a reply carries leads it to the pending entry of the request it
answers, provided that no reply to the handshake is left unread on the link:
the handshake uses the syncs 0 and 1, and the first request has sync 1 as well.
-/

namespace Tarant.Connection

open Foundation
open Iproto

/-! ## What is on the wire -/

def OnLink (link : Nat) (actions : List Action) : Prop :=
  ∀ l origin packet result, .wrote l origin packet result ∈ actions →
    l = link ∧ origin.handshake = false

theorem OnLink.outbound_ne {link other : Nat} {actions : List Action}
    (h : OnLink link actions) (hne : other ≠ link) : outbound other actions = [] := by
  rw [List.eq_nil_iff_forall_not_mem]
  intro sent hmem
  obtain ⟨result, hwrote⟩ := mem_outbound hmem
  exact hne (h _ _ _ _ hwrote).1

theorem OnLink.outbound_handshake {link other : Nat} {actions : List Action}
    (h : OnLink link actions) : ∀ sent ∈ outbound other actions, sent.1.handshake = false := by
  intro sent hmem
  obtain ⟨result, hwrote⟩ := mem_outbound hmem
  exact (h _ _ _ _ hwrote).2

theorem Action.Local.onLink {link l : Nat} {origin : Origin} {packet : Packet}
    {result : SendResult} (h : (Action.wrote l origin packet result).Local link) :
    l = link ∧ origin.handshake = false := by
  obtain ⟨hlink, hid, hauth⟩ := h
  refine ⟨hlink, ?_⟩
  cases origin <;> simp_all [Origin.handshake]

inductive Greets (s : State) : State → Prop where
  | id {delay : Option Nat} {send : SendResult} {phase : Phase}
      (hphase : s.phase = .connecting delay) : Greets s (s.greet send phase)
  | auth {delay : Option Nat} {socket : Nat} {version user : String} {scramble : Bytes}
      {send : SendResult} {phase : Phase} (hphase : s.phase = .authenticating delay socket version)
      (huser : s.options.loginUser = some user) :
      Greets s (s.authenticate socket user scramble send phase)

theorem TaskMove.greets {rmp : Rmp} {s s' : State} {event : TaskEvent}
    (h : TaskMove rmp s event s') :
    Greets s s' ∨ s'.sockets = s.sockets ∧
      ∀ delay socket version, s.phase = .authenticating delay socket version →
        s'.history = s.history := by
  cases h with
  | connected hphase => exact .inl (.id hphase)
  | authenticated hphase huser => exact .inl (.auth hphase huser)
  | handledLost hphase | linkLost hphase => exact .inr ⟨(lose_link _).2, by simp [hphase]⟩
  | attemptFailed | replyRejected => exact .inr ⟨rfl, fun _ _ _ _ => rfl⟩
  | spawned hreply | reconnected hreply =>
      refine .inr ⟨rfl, fun delay socket version hphase => ?_⟩
      have hwaits := hreply.waits
      simp [hphase, Phase.waits] at hwaits
  | drained hphase | replayed hphase | replayFailed hphase | handled hphase | closeCommand hphase
  | channelClosed hphase | received hphase | receivedLast hphase | woke hphase | deferred hphase
  | closeWhileDown hphase | channelClosedWhileDown hphase | idAccepted hphase =>
      exact .inr ⟨rfl, by simp [hphase]⟩

theorem TaskMove.serves {rmp : Rmp} {s s' : State} {event : TaskEvent}
    (h : TaskMove rmp s event s') :
    (s'.sockets = s.sockets ∧ ∃ actions, s'.history = s.history ++ actions ∧
        OnLink s'.link actions) ∨ Greets s s' := by
  obtain ⟨actions, hhistory, hrecorded⟩ := h.recorded
  rcases h.greets with hgreets | ⟨hsockets, hsilent⟩
  · exact .inr hgreets
  refine .inl ⟨hsockets, actions, hhistory, ?_⟩
  intro l origin packet result hmem
  cases hrecorded _ hmem with
  | handling deferred hup hlink hhandling hmem =>
      rw [hlink]
      exact (hhandling.isLocal _ hmem).onLink
  | routing hphase hlink hinbound hrouting hmem =>
      rw [hlink]
      exact (hrouting.isLocal _ hmem).onLink
  | greeted hphase hopened => omega
  | loggedIn hphase =>
      have hsame : s.history ++ actions = s.history ++ [] :=
        hhistory.symm.trans ((hsilent _ _ _ hphase).trans (List.append_nil _).symm)
      have hnil : actions = [] := List.append_cancel_left hsame
      simp [hnil] at hmem
  | resubscribed hreply hlink => exact ⟨hlink.symm, rfl⟩

/-! ## The server's replies -/

/-- The server keeps its word: a final reply answers a packet of the link with
the same sync, no two answer the same one, and other packets answer none. -/
structure Faithful (s : State) : Prop where
  answers : ∀ link, ∀ inbound ∈ s.inbound link, ∀ i ∈ inbound.answers,
    ∃ sent ∈ (outbound link s.history)[i]?, sent.2.sync = inbound.response.sync
  final : ∀ link, ∀ inbound ∈ s.inbound link,
    Kind.final inbound.response.kind = inbound.answers.isSome
  once : ∀ link, (s.inbound link).Pairwise fun first second =>
    ∀ i ∈ first.answers, second.answers ≠ some i

theorem Faithful.grow {s s' : State} {actions : List Action} (h : Faithful s)
    (hinbound : s'.inbound = s.inbound) (hhistory : s'.history = s.history ++ actions) :
    Faithful s' where
  answers link inbound hmem i hi := by
    obtain ⟨sent, hsent, hsync⟩ := h.answers link inbound (hinbound ▸ hmem) i hi
    refine ⟨sent, ?_, hsync⟩
    rw [hhistory, outbound_append]
    exact List.getElem?_append_left (List.getElem?_eq_some_iff.mp hsent).1 ▸ hsent
  final := by
    rw [hinbound]
    exact h.final
  once := by
    rw [hinbound]
    exact h.once

theorem Faithful.sent {s : State} {link : Nat} {inbound : Inbound} (h : Faithful s)
    (hmay : s.serverMay link inbound) :
    Faithful { s with
      inbound := Function.update s.inbound link (s.inbound link ++ [inbound]) } := by
  unfold State.serverMay at hmay
  have hmem (l : Nat) (m : Inbound)
      (hm : m ∈ Function.update s.inbound link (s.inbound link ++ [inbound]) l) :
      m ∈ s.inbound l ∨ l = link ∧ m = inbound := by
    by_cases hl : l = link
    · subst hl
      rw [Function.update_self, List.mem_append, List.mem_singleton] at hm
      exact hm.imp_right fun hm => ⟨rfl, hm⟩
    · rw [Function.update_of_ne hl] at hm
      exact .inl hm
  constructor
  · intro l m hm i hi
    rcases hmem l m hm with hold | ⟨rfl, rfl⟩
    · exact h.answers l m hold i hi
    · split at hmay
      · obtain ⟨j, hj, hsent, -⟩ := hmay
        obtain rfl : i = j := Option.mem_unique hi hj
        exact hsent
      · simp [hmay] at hi
  · intro l m hm
    rcases hmem l m hm with hold | ⟨rfl, rfl⟩
    · exact h.final l m hold
    · split at hmay
      · obtain ⟨j, hj, -⟩ := hmay
        simp_all
      · simp_all
  · intro l
    by_cases hl : l = link
    · subst hl
      simp only [Function.update_self, List.pairwise_append, List.pairwise_singleton,
        List.mem_singleton, true_and]
      refine ⟨h.once l, ?_⟩
      rintro m hm _ rfl i hi hsame
      split at hmay
      · obtain ⟨j, hj, -, hother⟩ := hmay
        obtain rfl : i = j := Option.some.inj (hsame.symm.trans hj)
        exact hother m hm hi
      · simp [hmay] at hsame
    · simp only [Function.update_of_ne hl]
      exact h.once l

theorem Faithful.index_unique {s : State} (h : Faithful s) {link j k i : Nat}
    {first second : Inbound} (hj : (s.inbound link)[j]? = some first)
    (hk : (s.inbound link)[k]? = some second) (hfirst : first.answers = some i)
    (hsecond : second.answers = some i) : j = k := by
  obtain ⟨hjlt, hjeq⟩ := List.getElem?_eq_some_iff.mp hj
  obtain ⟨hklt, hkeq⟩ := List.getElem?_eq_some_iff.mp hk
  have honce := List.pairwise_iff_getElem.mp (h.once link)
  rcases lt_trichotomy j k with hlt | heq | hgt
  · exact absurd (hkeq ▸ hsecond) (honce j k hjlt hklt hlt i (hjeq ▸ hfirst))
  · exact heq
  · exact absurd (hjeq ▸ hfirst) (honce k j hklt hjlt hgt i (hkeq ▸ hsecond))

/-! ## The handshake's requests and replies -/

def State.greetings (s : State) : Nat := 1 + s.options.loginUser.toList.length

structure Wire (s : State) : Prop where
  unopened : ∀ link, s.sockets ≤ link → outbound link s.history = []
  greeting : ∀ link i sent, (outbound link s.history)[i]? = some sent →
    sent.1.handshake = true → i < s.greetings

theorem TaskMove.link_lt {rmp : Rmp} {s s' : State} {event : TaskEvent}
    (hmove : TaskMove rmp s event s') (h : Links s) :
    s'.history = s.history ∨ s'.link < s'.sockets ∨ Greets s s' := by
  cases hmove with
  | drained | woke | attemptFailed | replyRejected | idAccepted => exact .inl rfl
  | connected hphase => exact .inr (.inr (.id hphase))
  | authenticated hphase huser => exact .inr (.inr (.auth hphase huser))
  | spawned hreply | reconnected hreply => exact .inr (.inl (h.socket _ hreply.phase.1).1)
  | handledLost hphase | linkLost hphase =>
      refine .inr (.inl ?_)
      rw [(lose_link _).1, (lose_link _).2]
      exact h.opened (by rw [hphase]; nofun) (by simp [hphase])
  | replayed hphase | replayFailed hphase | handled hphase | closeCommand hphase
  | channelClosed hphase | received hphase | receivedLast hphase | deferred hphase
  | closeWhileDown hphase | channelClosedWhileDown hphase =>
      exact .inr (.inl (h.opened (by rw [hphase]; nofun) (by simp [hphase])))

theorem Wire.serves {s s' : State} {actions : List Action} (h : Wire s)
    (hhistory : s'.history = s.history ++ actions) (hon : OnLink s'.link actions)
    (hsockets : s'.sockets = s.sockets) (hoptions : s'.options = s.options)
    (hlink : s'.history = s.history ∨ s'.link < s'.sockets) : Wire s' := by
  constructor
  · intro link hle
    have hold := h.unopened link (hsockets ▸ hle)
    rcases hlink with hsame | hlt
    · rw [hsame]
      exact hold
    · rw [hhistory, outbound_append, hold, hon.outbound_ne (by omega)]
      rfl
  · intro link i sent hsent hhandshake
    rw [hhistory, outbound_append] at hsent
    rw [State.greetings, hoptions]
    by_cases hi : i < (outbound link s.history).length
    · rw [List.getElem?_append_left hi] at hsent
      exact h.greeting link i sent hsent hhandshake
    · rw [List.getElem?_append_right (by omega)] at hsent
      have := hon.outbound_handshake sent (List.mem_of_getElem? hsent)
      simp [this] at hhandshake

structure Reading (s : State) : Prop where
  unopened : ∀ link, s.sockets ≤ link → s.inbound link = [] ∧ s.read link = 0
  authenticating : ∀ delay socket version, s.phase = .authenticating delay socket version →
    (outbound socket s.history).length = 1 ∧ s.read socket = 0
  awaiting : ∀ socket ∈ s.phase.socket, s.phase.waits = true →
    (outbound socket s.history).length = s.greetings
  awaitingId : ∀ delay socket version, s.phase = .awaitingId delay socket version →
    s.read socket = 0
  awaitingAuth : ∀ delay socket user negotiated,
    s.phase = .awaitingAuth delay socket user negotiated →
    s.options.loginUser = some user ∧ s.read socket = 1 ∧
      ∃ first ∈ (s.inbound socket)[0]?, first.answers.isSome = true

theorem Wire.wrote {s t : State} {l : Nat} {origin : Origin} {packet : Packet}
    {result : SendResult} (h : Wire s)
    (hhistory : t.history = s.history ++ [.wrote l origin packet result])
    (hoptions : t.options = s.options) (hsockets : s.sockets ≤ t.sockets)
    (hopened : l < t.sockets) (hroom : (outbound l s.history).length < s.greetings) :
    Wire t := by
  constructor
  · intro link hle
    rw [hhistory, outbound_wrote, h.unopened link (hsockets.trans hle), if_neg]
    · rfl
    · rintro ⟨rfl, -⟩
      omega
  · intro link i sent hget hhandshake
    rw [State.greetings, hoptions]
    rw [hhistory, outbound_wrote] at hget
    by_cases hi : i < (outbound link s.history).length
    · rw [List.getElem?_append_left hi] at hget
      exact h.greeting link i sent hget hhandshake
    · rw [List.getElem?_append_right (by omega)] at hget
      split at hget
      next hwrote =>
        obtain ⟨rfl, -⟩ := hwrote
        have hlast := (List.getElem?_eq_some_iff.mp hget).1
        rw [List.length_singleton] at hlast
        exact lt_of_le_of_lt (by omega) hroom
      next => simp at hget

theorem Wire.greets {s s' : State} (h : Wire s) (hlinks : Links s) (hreading : Reading s)
    (hgreets : Greets s s') : Wire s' := by
  cases hgreets with
  | @id delay send phase =>
      refine h.wrote (t := s.greet send phase) rfl rfl (Nat.le_succ _) (Nat.lt_succ_self _) ?_
      rw [h.unopened _ le_rfl, State.greetings, List.length_nil]
      omega
  | @auth delay socket version user scramble send phase hphase huser =>
      have hsocket := hlinks.socket socket (by rw [hphase]; exact rfl)
      refine h.wrote (t := s.authenticate socket user scramble send phase) rfl rfl le_rfl
        hsocket.1 ?_
      rw [(hreading.authenticating _ _ _ hphase).1, State.greetings, huser]
      exact Nat.lt_succ_self _

theorem Wire.moved {rmp : Rmp} {s s' : State} {event : TaskEvent} (h : Wire s)
    (hlinks : Links s) (hreading : Reading s) (hmove : TaskMove rmp s event s') : Wire s' := by
  rcases hmove.serves with ⟨hsockets, actions, hhistory, hon⟩ | hgreets
  · rcases hmove.link_lt hlinks with hsame | hlt | hgreets
    · exact h.serves hhistory hon hsockets hmove.untouched.options (.inl hsame)
    · exact h.serves hhistory hon hsockets hmove.untouched.options (.inr hlt)
    · exact h.greets hlinks hreading hgreets
  · exact h.greets hlinks hreading hgreets

theorem Reading.of_idle {s : State} (hphase : s.phase.socket = none)
    (hunopened : ∀ link, s.sockets ≤ link → s.inbound link = [] ∧ s.read link = 0) :
    Reading s where
  unopened := hunopened
  authenticating delay socket version h := by simp [h, Phase.socket] at hphase
  awaiting socket hsocket := by simp [hphase] at hsocket
  awaitingId delay socket version h := by simp [h, Phase.socket] at hphase
  awaitingAuth delay socket user negotiated h := by simp [h, Phase.socket] at hphase

theorem Reading.advanced {s : State} (h : Reading s) {socket : Nat}
    (hlt : socket < s.sockets) : ∀ link, s.sockets ≤ link →
    s.inbound link = [] ∧ Function.update s.read socket (s.read socket + 1) link = 0 := by
  intro link hle
  rw [Function.update_of_ne (by omega)]
  exact h.unopened link hle

theorem acceptId_final {rmp : Rmp} {version : String} {reply : Response}
    {negotiated : Negotiated} (h : acceptId rmp version reply = .ok negotiated) :
    Kind.final reply.kind = true := by
  unfold acceptId at h
  cases hkind : reply.kind <;> simp_all [Kind.final]

theorem Faithful.answers_of_final {s : State} (h : Faithful s) {link i : Nat}
    {inbound : Inbound} (hget : (s.inbound link)[i]? = some inbound)
    (hfinal : Kind.final inbound.response.kind = true) : inbound.answers.isSome = true :=
  h.final link inbound (List.mem_of_getElem? hget) ▸ hfinal

theorem Reading.greeted {s : State} (h : Reading s) (hwire : Wire s) (delay : Option Nat)
    (version : String) : Reading (s.greet .sent (s.greeted delay version)) := by
  have hlength : (outbound s.sockets (s.greet .sent (s.greeted delay version)).history).length =
      1 := by
    simp [State.greet, State.perform, outbound_wrote, hwire.unopened, SendResult.reached]
  have hread := (h.unopened s.sockets le_rfl).2
  have hunopened : ∀ link, s.sockets + 1 ≤ link → s.inbound link = [] ∧ s.read link = 0 :=
    fun link hle => h.unopened link (Nat.le_of_succ_le hle)
  cases huser : s.options.loginUser with
  | some user =>
      have hphase : s.greeted delay version = .authenticating delay s.sockets version := by
        simp [State.greeted, huser]
      rw [hphase] at hlength ⊢
      refine ⟨hunopened, ?_, ?_, ?_, ?_⟩
      · rintro _ _ _ ⟨⟩
        exact ⟨hlength, hread⟩
      · rintro _ - ⟨⟩
      · rintro _ _ _ ⟨⟩
      · rintro _ _ _ _ ⟨⟩
  | none =>
      have hphase : s.greeted delay version = .awaitingId delay s.sockets version := by
        simp [State.greeted, huser]
      rw [hphase] at hlength ⊢
      refine ⟨hunopened, ?_, ?_, ?_, ?_⟩
      · rintro _ _ _ ⟨⟩
      · rintro _ ⟨⟩ -
        rw [hlength, State.greetings]
        simp [State.greet, State.perform, huser]
      · rintro _ _ _ ⟨⟩
        exact hread
      · rintro _ _ _ _ ⟨⟩

theorem Reading.loggedIn {s : State} {delay : Option Nat} {socket : Nat} {version user : String}
    {scramble : Bytes} (h : Reading s) (hphase : s.phase = .authenticating delay socket version)
    (huser : s.options.loginUser = some user) :
    Reading (s.authenticate socket user scramble .sent (.awaitingId delay socket version)) := by
  obtain ⟨hlength, hread⟩ := h.authenticating _ _ _ hphase
  refine ⟨h.unopened, nofun, ?_, ?_, nofun⟩
  · rintro _ ⟨⟩ -
    simp [State.authenticate, State.perform, State.greetings, outbound_wrote, hlength, huser,
      SendResult.reached]
  · rintro _ _ _ ⟨⟩
    exact hread

theorem Reading.moved {rmp : Rmp} {s s' : State} {event : TaskEvent} (h : Reading s)
    (hlinks : Links s) (hwire : Wire s) (hfaithful : Faithful s)
    (hmove : TaskMove rmp s event s') : Reading s' := by
  cases hmove with
  | drained | replayed | replayFailed | handled | closeCommand | channelClosed | woke
  | deferred | closeWhileDown | channelClosedWhileDown => exact .of_idle rfl h.unopened
  | handledLost | linkLost =>
      refine .of_idle (lose_socket _) ?_
      rw [(lose_link _).2, (lose_untouched _).inbound, lose_read]
      exact h.unopened
  | received hphase | receivedLast hphase =>
      exact .of_idle rfl (h.advanced
        (hlinks.opened (by rw [hphase]; nofun) (by simp [hphase])))
  | @connected delay version send phase hphase hafter =>
      have hunopened : ∀ link, s.sockets + 1 ≤ link → s.inbound link = [] ∧ s.read link = 0 :=
        fun link hle => h.unopened link (Nat.le_of_succ_le hle)
      rcases afterSend_cases hafter with ⟨rfl, rfl⟩ | hfailed
      · exact h.greeted hwire delay version
      · exact .of_idle (afterFailure_cases hfailed).1 hunopened
  | @authenticated delay socket version user scramble send phase hphase huser hafter =>
      rcases afterSend_cases hafter with ⟨rfl, rfl⟩ | hfailed
      · exact h.loggedIn hphase huser
      · exact .of_idle (afterFailure_cases hfailed).1 h.unopened
  | attemptFailed hphase hafter =>
      exact .of_idle (afterFailure_cases hafter).1 h.unopened
  | replyRejected hsocket hphase hafter =>
      exact .of_idle (afterFailure_cases hafter).1 (h.advanced (hlinks.socket _ hsocket).1)
  | @idAccepted order send delay socket version user negotiated inbound hphase hinbound
      haccept huser =>
      have hsocket : s.phase.socket = some socket := by rw [hphase]; rfl
      have hread := h.awaitingId _ _ _ hphase
      constructor
      · exact h.advanced (hlinks.socket _ hsocket).1
      · intro delay' socket' version' hphase'
        cases hphase'
      · intro socket' hsocket' _
        obtain rfl : socket = socket' := Option.some.inj hsocket'
        exact h.awaiting socket hsocket (by rw [hphase]; rfl)
      · intro delay' socket' version' hphase'
        cases hphase'
      · intro delay' socket' user' negotiated' hphase'
        obtain ⟨rfl, rfl, rfl, rfl⟩ := Phase.awaitingAuth.inj hphase'
        refine ⟨huser, by simp [State.advance, hread], inbound, hread ▸ hinbound, ?_⟩
        exact hfaithful.answers_of_final hinbound (acceptId_final haccept)
  | spawned hreply | reconnected hreply =>
      exact .of_idle rfl (h.advanced (hlinks.socket _ hreply.phase.1).1)

theorem Reading.untouched {s s' : State} (h : Reading s) (huntouched : TaskUntouched s s') :
    Reading s' := by
  obtain ⟨hoptions, -, hphase, -, -, hsockets, hinbound, hread, hhistory⟩ := huntouched
  constructor
  · rw [hsockets, hinbound, hread]
    exact h.unopened
  · rw [hphase, hhistory, hread]
    exact h.authenticating
  · rw [hphase, hhistory, State.greetings, hoptions]
    exact h.awaiting
  · rw [hphase, hread]
    exact h.awaitingId
  · rw [hphase, hread, hinbound, hoptions]
    exact h.awaitingAuth

theorem Reading.sent {s : State} {link : Nat} {inbound : Inbound} (h : Reading s)
    (hlt : link < s.sockets) :
    Reading { s with
      inbound := Function.update s.inbound link (s.inbound link ++ [inbound]) } := by
  constructor
  · intro l hle
    have hle : s.sockets ≤ l := hle
    simp only [Function.update_of_ne (show l ≠ link by omega)]
    exact h.unopened l hle
  · exact h.authenticating
  · exact h.awaiting
  · exact h.awaitingId
  · intro delay socket user negotiated hphase
    obtain ⟨huser, hread, first, hfirst, hanswers⟩ :=
      h.awaitingAuth delay socket user negotiated hphase
    refine ⟨huser, hread, first, ?_, hanswers⟩
    by_cases hsocket : socket = link
    · subst hsocket
      simp only [Function.update_self]
      exact List.getElem?_append_left (List.getElem?_eq_some_iff.mp hfirst).1 ▸ hfirst
    · simp only [Function.update_of_ne hsocket]
      exact hfirst

def Consumed (s : State) : Prop :=
  s.phase.up = true → ∀ i < s.greetings, ∃ j inbound, j < s.read s.link ∧
    (s.inbound s.link)[j]? = some inbound ∧ inbound.answers = some i

/-- Where the handshake waits for the reply to `IPROTO_AUTH` it reads a final
reply, not an event or a chunk. -/
def AuthConfirmed (s : State) : Event → Prop
  | .task (.handshakeReply _ _) => ∀ delay socket user negotiated inbound,
      s.phase = .awaitingAuth delay socket user negotiated →
      (s.inbound socket)[s.read socket]? = some inbound →
      Kind.final inbound.response.kind = true
  | _ => True

/-- The server keeps to the protocol and every login is confirmed. -/
def LoginSafe (s : State) (event : Event) : Prop := ServerAnswers s event ∧ AuthConfirmed s event

theorem Consumed.of_down {s : State} (h : s.phase.up = false) : Consumed s := by
  intro hup
  simp [h] at hup

theorem Consumed.of_advance {s s' : State} (h : Consumed s) (hup : s.phase.up = true)
    (hoptions : s'.options = s.options) (hlink : s'.link = s.link)
    (hinbound : s'.inbound = s.inbound) (hread : s.read s.link ≤ s'.read s.link) :
    Consumed s' := by
  intro _ i hi
  rw [State.greetings, hoptions] at hi
  obtain ⟨j, inbound, hj, hget, hanswers⟩ := h hup i hi
  exact ⟨j, inbound, by rw [hlink]; omega, by rw [hlink, hinbound]; exact hget, hanswers⟩

theorem LastReply.consumes {rmp : Rmp} {s : State} {inbound : Inbound} {delay : Option Nat}
    {socket : Nat} {negotiated : Negotiated} {order : List String}
    {send : String → SendResult} (hreading : Reading s) (hfaithful : Faithful s)
    (hreply : LastReply rmp s inbound.response delay socket negotiated)
    (hinbound : (s.inbound socket)[s.read socket]? = some inbound)
    (hconfirmed : AuthConfirmed s (.task (.handshakeReply order send))) :
    ∀ i < s.greetings, ∃ j first, j < s.read socket + 1 ∧
      (s.inbound socket)[j]? = some first ∧ first.answers = some i := by
  have hlength := hreading.awaiting socket hreply.phase.1 hreply.waits
  -- what is answered on this socket is one of the handshake's requests
  have hbound {j a : Nat} {m : Inbound} (hget : (s.inbound socket)[j]? = some m)
      (hanswers : m.answers = some a) : a < s.greetings := by
    obtain ⟨sent, hsent, -⟩ := hfaithful.answers socket m (List.mem_of_getElem? hget) a hanswers
    exact hlength ▸ (List.getElem?_eq_some_iff.mp hsent).1
  intro i hi
  cases hreply with
  | id hphase hguest haccept =>
      obtain ⟨a, ha⟩ := Option.isSome_iff_exists.mp
        (hfaithful.answers_of_final hinbound (acceptId_final haccept))
      have halt := hbound hinbound ha
      simp only [State.greetings, hguest, Option.toList_none, List.length_nil] at hi halt
      obtain rfl : a = i := by omega
      exact ⟨s.read socket, inbound, by omega, hinbound, ha⟩
  | auth hphase haccept =>
      obtain ⟨huser, hread, first, hfirst, hsome⟩ := hreading.awaitingAuth _ _ _ _ hphase
      obtain ⟨b, hb⟩ := Option.isSome_iff_exists.mp hsome
      obtain ⟨a, ha⟩ := Option.isSome_iff_exists.mp
        (hfaithful.answers_of_final hinbound (hconfirmed _ _ _ _ _ hphase hinbound))
      have halt := hbound hinbound ha
      have hblt := hbound hfirst hb
      have hne : a ≠ b := by
        rintro rfl
        have := hfaithful.index_unique hfirst hinbound hb ha
        omega
      simp only [State.greetings, huser, Option.toList_some, List.length_singleton] at hi halt hblt
      have hcases : i = a ∨ i = b := by omega
      rcases hcases with rfl | rfl
      · exact ⟨s.read socket, inbound, by omega, hinbound, ha⟩
      · exact ⟨0, first, by omega, hfirst, hb⟩

theorem Consumed.moved {rmp : Rmp} {s s' : State} {event : TaskEvent} (h : Consumed s)
    (hreading : Reading s) (hfaithful : Faithful s) (hmove : TaskMove rmp s event s')
    (hconfirmed : AuthConfirmed s (.task event)) : Consumed s' := by
  cases hmove with
  | drained hphase | replayed hphase | replayFailed hphase | handled hphase =>
      exact h.of_advance (by rw [hphase]; rfl) rfl rfl rfl le_rfl
  | received hphase =>
      refine h.of_advance (by rw [hphase]; rfl) rfl rfl rfl ?_
      simp [State.receive]
  | handledLost | linkLost => exact .of_down (lose_not_up _)
  | closeCommand | channelClosed | receivedLast | woke | deferred | closeWhileDown
  | channelClosedWhileDown | idAccepted => exact .of_down rfl
  | connected hphase hafter =>
      exact .of_down (afterSend_not_up (greeted_phase _ _ _).2.2 hafter)
  | authenticated hphase huser hafter => exact .of_down (afterSend_not_up rfl hafter)
  | attemptFailed hphase hafter | replyRejected hsocket hphase hafter =>
      apply Consumed.of_down
      obtain ⟨-, rfl | ⟨-, delay, rfl⟩⟩ := afterFailure_cases hafter <;> rfl
  | @spawned _ _ socket _ _ hreply hinbound =>
      intro _ i hi
      obtain ⟨j, first, hj, hget, hanswers⟩ :=
        hreply.consumes hreading hfaithful hinbound hconfirmed i hi
      exact ⟨j, first, by simpa [State.advance, State.perform] using hj, hget, hanswers⟩
  | @reconnected _ socket _ _ _ _ hreply hinbound =>
      intro _ i hi
      obtain ⟨j, first, hj, hget, hanswers⟩ :=
        hreply.consumes hreading hfaithful hinbound hconfirmed i hi
      exact ⟨j, first, by simpa [State.advance, State.perform] using hj, hget, hanswers⟩

/-! ## Delivery -/

/-- The packet delivered to the call is the server's reply to the call's own
packet, on the link it was written to. -/
def Delivered (s : State) (link n : Nat) (arrival : Arrival) : Prop :=
  arrival.link = link ∧ ∃ inbound i packet call,
    (s.inbound link)[arrival.index]? = some inbound ∧
      inbound.response = arrival.response ∧ inbound.answers = some i ∧
      (outbound link s.history)[i]? = some (.call n, packet) ∧
      s.calls n = some call ∧ call.packet = packet

def RepliesRouted (s : State) : Prop :=
  ∀ link n arrival, .answered link n (.reply arrival) ∈ s.history →
    Delivered s link n arrival

theorem Delivered.mono {s s' : State} {link n : Nat} {arrival : Arrival}
    {actions : List Action} (h : Delivered s link n arrival) (hextends : Extends s s')
    (hinbound : ∀ inbound, (s.inbound link)[arrival.index]? = some inbound →
      (s'.inbound link)[arrival.index]? = some inbound)
    (hhistory : s'.history = s.history ++ actions) : Delivered s' link n arrival := by
  obtain ⟨hlink, inbound, i, packet, call, hget, hresponse, hanswers, hsent, hcall, hpacket⟩ := h
  obtain ⟨call', hcall', hpacket', -⟩ := hextends.calls n call hcall
  refine ⟨hlink, inbound, i, packet, call', hinbound inbound hget, hresponse, hanswers, ?_,
    hcall', hpacket'.trans hpacket⟩
  rw [hhistory, outbound_append]
  exact List.getElem?_append_left (List.getElem?_eq_some_iff.mp hsent).1 ▸ hsent

/-- A reply that finds a pending entry finds the entry of the packet it answers. -/
theorem Routing.reply_origin {s : State} {inbound : Inbound} {pending : Pending}
    (hbound : s.nextSync ≤ 2 ^ 64) (hledger : Ledger s) (hsourced : Sourced s)
    (hfaithful : Faithful s) (hwire : Wire s) (hconsumed : Consumed s)
    (hup : s.phase.up = true)
    (hinbound : (s.inbound s.link)[s.read s.link]? = some inbound)
    (hfinal : Kind.final inbound.response.kind = true)
    (hlookup : s.task.pending.lookup inbound.response.sync = some pending) :
    ∃ i packet call, inbound.answers = some i ∧
      (outbound s.link s.history)[i]? = some (.call pending.ticket, packet) ∧
      s.calls pending.ticket = some call ∧ call.packet = packet := by
  obtain ⟨i, hi⟩ := Option.isSome_iff_exists.mp (hfaithful.answers_of_final hinbound hfinal)
  obtain ⟨⟨origin, packet⟩, hsent, hsync⟩ :=
    hfaithful.answers s.link inbound (List.mem_of_getElem? hinbound) i hi
  obtain ⟨result, hwrote⟩ := mem_outbound (List.mem_of_getElem? hsent)
  obtain ⟨packet', hpending, call, hcall, hcallPacket, -⟩ :=
    hsourced.task.pending _ (mem_entries_of_lookup hlookup)
  simp only at hpending hcall hcallPacket
  obtain ⟨hpos, hlt⟩ := hledger.toFresh.bounds hcall
  -- the sync of a call is not the 0 of a packet outside any call
  have hnonzero : packet.sync ≠ 0 := by
    rw [hsync, hpending, syncOf]
    omega
  have hexplains := hsourced.history _ hwrote
  cases origin with
  | handshakeId | handshakeAuth =>
      -- its reply was read by the handshake, so this one cannot answer it too
      obtain ⟨j, first, hj, hfirst, hanswers⟩ :=
        hconsumed hup i (hwire.greeting _ _ _ hsent rfl)
      have := hfaithful.index_unique hfirst hinbound hanswers hi
      omega
  | call n =>
      have hgenuine : ∃ other ∈ s.calls n, other.packet = packet := by
        rcases hexplains with ⟨_, _, -, other, hother, hpacket, -⟩ | ⟨other, hother, hpacket⟩
        · exact ⟨other, hother, hpacket⟩
        · exact ⟨other, hother, hpacket⟩
      obtain ⟨other, hother, hpacket⟩ := hgenuine
      have hsame : syncOf n = syncOf pending.ticket := by
        rw [← hsourced.packets n other hother, hpacket, hsync, hpending]
      obtain rfl : n = pending.ticket :=
        syncOf_injOn (by omega) (hledger.toFresh.bounds hother) ⟨hpos, hlt⟩ hsame
      exact ⟨i, packet, other, hi, hsent, hother, hpacket⟩
  | watch watcher | unwatch watcher =>
      obtain ⟨id, key, -, rfl⟩ := hexplains
      exact absurd rfl hnonzero
  | ack | resubscribe =>
      obtain ⟨key, rfl⟩ := hexplains
      exact absurd rfl hnonzero

structure Routable (s : State) : Prop where
  faithful : Faithful s
  wire : Wire s
  reading : Reading s
  consumed : Consumed s
  routed : s.nextSync ≤ 2 ^ 64 → RepliesRouted s

theorem Routable.initial (options : ConnectOptions) : Routable (State.initial options) where
  faithful := by constructor <;> simp [State.initial]
  wire := by constructor <;> simp [State.initial, outbound]
  reading := by constructor <;> simp [State.initial, Phase.socket]
  consumed := .of_down rfl
  routed _ := by simp [RepliesRouted, State.initial]

theorem Routable.issued {s s' : State} {event : CallerEvent} (h : Routable s)
    (hledger : Ledger s) (hsourced : Sourced s) (hmove : CallerMove s event s') :
    Routable s' := by
  have huntouched := hmove.untouched
  have hextends := hmove.extends (hledger.fresh _ le_rfl) (hsourced.fresh _ le_rfl)
  have hhistory : s'.history = s.history ++ [] := by simp [huntouched.history]
  refine ⟨h.faithful.grow huntouched.inbound hhistory, ⟨?_, ?_⟩,
    h.reading.untouched huntouched, ?_, fun hbound link n arrival hmem => ?_⟩
  · rw [huntouched.sockets, huntouched.history]
    exact h.wire.unopened
  · rw [huntouched.history, State.greetings, huntouched.options]
    exact h.wire.greeting
  · intro hup
    rw [huntouched.phase] at hup
    rw [huntouched.inbound, huntouched.link, huntouched.read, State.greetings,
      huntouched.options]
    exact h.consumed hup
  · rw [huntouched.history] at hmem
    have hold := h.routed (hmove.numbers.nextSync.trans hbound) link n arrival hmem
    exact hold.mono hextends (by simp [huntouched.inbound]) hhistory

theorem Routable.moved {rmp : Rmp} {s s' : State} {event : TaskEvent} (h : Routable s)
    (hlinks : Links s) (hledger : Ledger s) (hsourced : Sourced s)
    (hmove : TaskMove rmp s event s') (hconfirmed : AuthConfirmed s (.task event)) :
    Routable s' := by
  have huntouched := hmove.untouched
  obtain ⟨actions, hhistory, hrecorded⟩ := hmove.recorded
  refine ⟨h.faithful.grow huntouched.inbound hhistory, h.wire.moved hlinks h.reading hmove,
    h.reading.moved hlinks h.wire h.faithful hmove,
    h.consumed.moved h.reading h.faithful hmove hconfirmed,
    fun hbound link n arrival hmem => ?_⟩
  have hextends : Extends s s' := .of_eq huntouched.calls huntouched.watching
  have hinbound (index : Nat) (inbound : Inbound)
      (hget : (s.inbound link)[index]? = some inbound) :
      (s'.inbound link)[index]? = some inbound := by
    rw [huntouched.inbound]
    exact hget
  rw [huntouched.nextSync] at hbound
  suffices hdelivered : Delivered s link n arrival from
    hdelivered.mono hextends (hinbound _) hhistory
  rw [hhistory] at hmem
  rcases List.mem_append.mp hmem with hold | hnew
  · exact h.routed hbound link n arrival hold
  · obtain ⟨hphase, -, rfl, inbound, pending, hget, rfl, hfinal, hlookup, rfl⟩ :=
      (hrecorded _ hnew).reply
    obtain ⟨i, packet, call, hi, hsent, hcall, hpacket⟩ :=
      Routing.reply_origin hbound hledger hsourced h.faithful h.wire h.consumed
        (by rw [hphase]; rfl) hget hfinal hlookup
    exact ⟨rfl, inbound, i, packet, call, hget, rfl, hi, hsent, hcall, hpacket⟩

theorem Routable.sent {s : State} {link : Nat} {inbound : Inbound} (h : Routable s)
    (hopened : link < s.sockets) (hmay : s.serverMay link inbound) :
    Routable { s with
      inbound := Function.update s.inbound link (s.inbound link ++ [inbound]) } := by
  -- what has been sent before keeps its place
  have hkept {l j : Nat} {m : Inbound} (hget : (s.inbound l)[j]? = some m) :
      (Function.update s.inbound link (s.inbound link ++ [inbound]) l)[j]? = some m := by
    by_cases hl : l = link
    · subst hl
      rw [Function.update_self]
      exact List.getElem?_append_left (List.getElem?_eq_some_iff.mp hget).1 ▸ hget
    · rw [Function.update_of_ne hl]
      exact hget
  refine ⟨h.faithful.sent hmay, ⟨h.wire.unopened, h.wire.greeting⟩, h.reading.sent hopened, ?_, ?_⟩
  · intro hup i hi
    obtain ⟨j, first, hj, hget, hanswers⟩ := h.consumed hup i hi
    exact ⟨j, first, hj, hkept hget, hanswers⟩
  · intro hbound l n arrival hmem
    exact (h.routed hbound l n arrival hmem).mono (.of_eq rfl rfl) (fun _ => hkept)
      (List.append_nil _).symm

theorem ReachableBy.routable {rmp : Rmp} {options : ConnectOptions} {s : State}
    (h : ReachableBy rmp options LoginSafe s) : Routable s := by
  refine Reaches.invariant (.initial options) ?_ h
  rintro s s' event hreach hroutable ⟨hanswers, hconfirmed⟩ hstep
  have hreachable : Reachable rmp options s := hreach.weaken
  cases step_move hstep with
  | caller hmove => exact hroutable.issued hreachable.ledger hreachable.sourced hmove
  | task hmove =>
      exact hroutable.moved hreachable.links hreachable.ledger hreachable.sourced hmove
        hconfirmed
  | server hopened => exact hroutable.sent hopened hanswers

/--
No cross-delivery: with a server that answers each packet once, as long as every
login is confirmed by a final reply and the sync counter has not wrapped, each
reply is delivered to the call whose packet it answers.
-/
theorem replies_reach_their_request {rmp : Rmp} {options : ConnectOptions} {s : State}
    (h : ReachableBy rmp options LoginSafe s) (hbound : s.nextSync ≤ 2 ^ 64) :
    RepliesRouted s :=
  h.routable.routed hbound

def sampleLogin : List Event :=
  [.task (.connected "3.0.0" .sent), .task (.authenticated [] .sent), .server 0 sampleIdReply,
    .task (.handshakeReply [] fun _ => .sent)]

def sampleAuthReply : Event := .server 0 ⟨{ kind := .ok, sync := 1 }, some 1⟩

def sampleFirstRequest : List Event :=
  [.task (.drain .sent), .caller (.call none 1 [] false), .caller (.submit 1),
    .task (.command .sent), .task (.drain .sent)]

def authConfirmed (s : State) : Event → Bool
  | .task (.handshakeReply _ _) =>
      match s.phase with
      | .awaitingAuth _ socket _ _ =>
          (s.inbound socket)[s.read socket]?.all fun inbound =>
            Kind.final inbound.response.kind
      | _ => true
  | _ => true

theorem authConfirmed_sound (s : State) (event : Event) (h : authConfirmed s event = true) :
    AuthConfirmed s event := by
  unfold AuthConfirmed
  split
  · intro delay socket user negotiated inbound hphase hget
    simpa [authConfirmed, hphase, hget] using h
  · trivial

def loginSafe (s : State) (event : Event) : Bool :=
  decide (ServerAnswers s event) && authConfirmed s event

theorem loginSafe_sound (s : State) (event : Event) (h : loginSafe s event = true) :
    LoginSafe s event := by
  simp only [loginSafe, Bool.and_eq_true, decide_eq_true_eq] at h
  exact ⟨h.1, authConfirmed_sound s event h.2⟩

theorem replies_reach_their_request_sample :
    ∃ s, ReachableBy fixintRmp { user := some "app" } LoginSafe s ∧
      (s.history.any fun | .answered 0 1 (.reply _) => true | _ => false) = true ∧
      RepliesRouted s := by
  obtain ⟨s, hreach, hcheck⟩ := reaches_of_guarded (step fixintRmp) loginSafe
    loginSafe_sound (.initial { user := some "app" })
    (sampleLogin ++ [sampleAuthReply, .task (.handshakeReply [] fun _ => .sent)] ++
      sampleFirstRequest ++
      [Event.server 0 ⟨{ kind := .ok, sync := 1 }, some 2⟩, .task (.packet .sent)])
    (fun s => (s.history.any fun | .answered 0 1 (.reply _) => true | _ => false) &&
      decide (s.nextSync = 2))
    (by decide +kernel)
  simp only [Bool.and_eq_true, decide_eq_true_eq] at hcheck
  exact ⟨s, hreach, hcheck.1, replies_reach_their_request hreach (by rw [hcheck.2]; decide)⟩

/-- An event read in place of the reply to `IPROTO_AUTH` leaves that reply to the
first request, which has sync 1 as well. -/
theorem auth_reply_delivered_to_first_request :
    ¬ ∀ rmp options s, ReachableBy rmp options ServerAnswers s → s.nextSync ≤ 2 ^ 64 →
      RepliesRouted s := by
  intro hall
  obtain ⟨s, hreach, hcheck⟩ := reaches_of_guarded (step fixintRmp)
    (fun s event => decide (ServerAnswers s event)) (fun _ _ => of_decide_eq_true)
    (.initial { user := some "app" })
    (sampleLogin ++ [Event.server 0 ⟨{ kind := .event, sync := 0 }, none⟩,
        .task (.handshakeReply [] fun _ => .sent), sampleAuthReply] ++
      sampleFirstRequest ++ [Event.task (.packet .sent)])
    (fun s => (s.history.any fun
        | .answered 0 1 (.reply arrival) => arrival.index == 2
        | _ => false) &&
      decide (s.nextSync = 2 ∧ (s.inbound 0)[2]?.bind Inbound.answers = some 1 ∧
        (outbound 0 s.history)[1]?.map Prod.fst = some Origin.handshakeAuth))
    (by decide +kernel)
  simp only [Bool.and_eq_true, decide_eq_true_eq, List.any_eq_true] at hcheck
  obtain ⟨⟨action, hmem, haction⟩, hnext, hanswers, horigin⟩ := hcheck
  split at haction
  next arrival =>
    simp only [beq_iff_eq] at haction
    obtain ⟨-, inbound, i, packet, call, hget, -, hi, hsent, -⟩ :=
      hall fixintRmp _ s hreach (by rw [hnext]; decide) 0 1 arrival hmem
    rw [haction] at hget
    rw [hget, Option.bind_some, hi, Option.some.injEq] at hanswers
    subst i
    simp [hsent] at horigin
  · contradiction

end Tarant.Connection
