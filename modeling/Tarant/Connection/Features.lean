import Tarant.Connection.Records

/-!
# Feature checks

`Client::watch` and its like ask the handle whether the server has a feature.
The handle keeps what the first handshake negotiated; a later handshake, perhaps
with another server, changes nothing in it.
-/

namespace Tarant.Connection

open Foundation
open Iproto

/-! ## Handshakes -/

def handshakes (history : List Action) : List (Nat × Negotiated) :=
  history.filterMap fun
    | .up link negotiated => some (link, negotiated)
    | _ => none

theorem handshakes_append (history actions : List Action) :
    handshakes (history ++ actions) = handshakes history ++ handshakes actions :=
  List.filterMap_append

theorem mem_handshakes {link : Nat} {negotiated : Negotiated} {history : List Action} :
    (link, negotiated) ∈ handshakes history ↔ .up link negotiated ∈ history := by
  simp only [handshakes, List.mem_filterMap]
  constructor
  · rintro ⟨action, hmem, heq⟩
    cases action with
    | up link' negotiated' =>
        obtain ⟨rfl, rfl⟩ := Prod.mk.inj (Option.some.inj heq)
        exact hmem
    | _ => contradiction
  · exact fun hmem => ⟨_, hmem, rfl⟩

theorem handshakes_eq_nil {actions : List Action} (h : ∀ link negotiated,
    .up link negotiated ∉ actions) : handshakes actions = [] := by
  rw [handshakes, List.filterMap_eq_nil_iff]
  intro action hmem
  cases action with
  | up link negotiated => exact absurd hmem (h link negotiated)
  | _ => rfl

/-- The handle answers for the server of the most recent handshake. -/
def DescribesServer (s : State) : Prop :=
  ∃ negotiated, (handshakes s.history).getLast? = some (s.link, negotiated) ∧
    s.negotiated = negotiated ∧
    (∀ feature, s.negotiated.supports feature = true ↔ feature ∈ negotiated.features) ∧
    ∀ request : Gated, (∃ reason, request.check s.negotiated = .error (.unsupported reason)) ↔
      ¬ request.Announced negotiated

/-- The last handshake negotiated what the first one did. -/
def SameServer (history : List Action) : Prop :=
  (handshakes history).getLast?.map Prod.snd = (handshakes history).head?.map Prod.snd

structure Negotiation (s : State) : Prop where
  first : s.phase ≠ .done → (s.phase.first ↔ handshakes s.history = [])
  head : ∀ handshake ∈ (handshakes s.history).head?, handshake.2 = s.negotiated
  last : s.phase.up = true → ∃ negotiated,
    (handshakes s.history).getLast? = some (s.link, negotiated)

theorem Negotiation.kept {s s' : State} (h : Negotiation s) (hlive : s.phase ≠ .done)
    (hhandshakes : handshakes s'.history = handshakes s.history)
    (hnegotiated : s'.negotiated = s.negotiated) (hlink : s'.link = s.link)
    (hup : s'.phase.up = true → s.phase.up = true)
    (hfirst : s'.phase ≠ .done → (s'.phase.first ↔ s.phase.first)) : Negotiation s' := by
  constructor
  · intro hlive'
    rw [hhandshakes, hfirst hlive']
    exact h.first hlive
  · rw [hhandshakes, hnegotiated]
    exact h.head
  · intro hup'
    rw [hhandshakes, hlink]
    exact h.last (hup hup')

theorem resubscribe_handshakes (link : Nat) (send : String → SendResult) (order : List String) :
    handshakes (Task.resubscribe link send order) = [] := by
  apply handshakes_eq_nil
  intro l negotiated hmem
  exact resubscribe_isLocal send order (.up l negotiated) hmem

theorem handshakes_up (history : List Action) (link : Nat) (negotiated : Negotiated)
    (send : String → SendResult) (order : List String) :
    handshakes (history ++ .up link negotiated :: Task.resubscribe link send order) =
      handshakes history ++ [(link, negotiated)] := by
  rw [← List.singleton_append, ← List.append_assoc, handshakes_append, resubscribe_handshakes,
    List.append_nil, handshakes_append]
  rfl

theorem Negotiation.completed {s : State} {before : List (Nat × Negotiated)}
    {negotiated : Negotiated} (hup : s.phase.up = true)
    (hhandshakes : handshakes s.history = before ++ [(s.link, negotiated)])
    (hhead : ∀ handshake ∈ (before ++ [(s.link, negotiated)]).head?,
      handshake.2 = s.negotiated) : Negotiation s where
  first _ := by
    have hfirst : ¬ s.phase.first := by
      cases hphase : s.phase <;> simp_all [Phase.up, Phase.first, Phase.attempt]
    simp [hfirst, hhandshakes]
  head := by
    rw [hhandshakes]
    exact hhead
  last _ := by
    rw [hhandshakes]
    exact ⟨negotiated, List.getLast?_concat⟩

theorem Negotiation.failed {s s' : State} {delay : Option Nat} {phase : Phase}
    (h : Negotiation s) (hlive : s.phase ≠ .done) (hattempt : s.phase.attempt = some delay)
    (hafter : Phase.afterFailure s.options delay = some phase) (hphase : s'.phase = phase)
    (hhandshakes : handshakes s'.history = handshakes s.history)
    (hnegotiated : s'.negotiated = s.negotiated) (hlink : s'.link = s.link) :
    Negotiation s' := by
  refine h.kept hlive hhandshakes hnegotiated hlink ?_ ?_ <;> rw [hphase]
  · obtain ⟨-, rfl | ⟨-, delay, rfl⟩⟩ := afterFailure_cases hafter <;> rintro ⟨⟩
  · obtain ⟨-, rfl | ⟨hdelay, delay, rfl⟩⟩ := afterFailure_cases hafter
    · exact fun hlive' => absurd rfl hlive'
    · refine fun _ => ⟨by rintro ⟨⟩, fun hfirst => ?_⟩
      exact absurd (Option.some.inj (hattempt.symm.trans hfirst)) hdelay

theorem Negotiation.attempted {s s' : State} {delay : Option Nat} (h : Negotiation s)
    (hlive : s.phase ≠ .done) (hbefore : s.phase.attempt = some delay)
    (hafter : s'.phase.attempt = some delay)
    (hhandshakes : handshakes s'.history = handshakes s.history)
    (hnegotiated : s'.negotiated = s.negotiated) (hlink : s'.link = s.link) :
    Negotiation s' := by
  refine h.kept hlive hhandshakes hnegotiated hlink (fun hup => ?_) fun _ => ?_
  · cases hphase : s'.phase <;> simp_all [Phase.up, Phase.attempt]
  · rw [Phase.first, Phase.first, hbefore, hafter]

theorem Negotiation.moved {rmp : Rmp} {s s' : State} {event : TaskEvent} (h : Negotiation s)
    (hmove : TaskMove rmp s event s') : Negotiation s' := by
  obtain ⟨actions, hhistory, hrecorded⟩ := hmove.recorded
  -- handshakes are completed while their socket is waited on
  have hquiet (hwaits : s.phase.waits = false) :
      handshakes s'.history = handshakes s.history := by
    rw [hhistory, handshakes_append]
    refine List.append_right_eq_self.mpr (handshakes_eq_nil fun link negotiated hmem => ?_)
    cases hrecorded _ hmem with
    | up hreply =>
        rw [hreply.waits] at hwaits
        cases hwaits
    | handling _ _ _ hhandling hmem => exact hhandling.isLocal _ hmem
    | routing _ _ _ hrouting hmem => exact hrouting.isLocal _ hmem
  have hlive := hmove.not_done
  cases hmove with
  | drained hphase | replayed hphase | replayFailed hphase | handled hphase | received hphase =>
      refine h.kept hlive (hquiet (by rw [hphase]; rfl)) rfl rfl (fun _ => by rw [hphase]; rfl)
        fun _ => ?_
      rw [hphase]
      constructor <;> rintro ⟨⟩
  | handledLost hphase | linkLost hphase =>
      have hnegotiated (x : State) : x.lose.negotiated = x.negotiated := by
        simp only [State.lose]
        split <;> rfl
      refine h.kept hlive (hquiet (by rw [hphase]; rfl)) (hnegotiated _) (lose_link _).1
        (fun _ => by rw [hphase]; rfl) fun _ => ⟨fun hfirst => absurd hfirst (lose_not_first _), ?_⟩
      rw [hphase]
      rintro ⟨⟩
  | closeCommand hphase | channelClosed hphase | receivedLast hphase | woke hphase
  | deferred hphase | closeWhileDown hphase | channelClosedWhileDown hphase =>
      refine h.kept hlive (hquiet (by rw [hphase]; rfl)) rfl rfl (by rintro ⟨⟩)
        fun _ => ⟨by rintro ⟨⟩, ?_⟩
      rw [hphase]
      rintro ⟨⟩
  | @connected delay version send phase hphase hafter =>
      have hattempt : s.phase.attempt = some delay := by rw [hphase]; rfl
      have hsame := hquiet (by rw [hphase]; rfl)
      rcases afterSend_cases hafter with ⟨-, rfl⟩ | hfailed
      · exact h.attempted hlive hattempt (greeted_phase s delay version).2.1 hsame rfl rfl
      · exact h.failed hlive hattempt hfailed rfl hsame rfl rfl
  | authenticated hphase huser hafter =>
      have hsame := hquiet (by rw [hphase]; rfl)
      rcases afterSend_cases hafter with ⟨-, rfl⟩ | hfailed
      · exact h.attempted hlive (by rw [hphase]; rfl) rfl hsame rfl rfl
      · exact h.failed hlive (by rw [hphase]; rfl) hfailed rfl hsame rfl rfl
  | attemptFailed hphase hafter | replyRejected _ hphase hafter =>
      exact h.failed hlive hphase hafter rfl rfl rfl rfl
  | idAccepted hphase => exact h.attempted hlive (by rw [hphase]; rfl) rfl rfl rfl rfl
  | @spawned order send socket negotiated inbound hreply =>
      have hnone : handshakes s.history = [] := (h.first hlive).mp hreply.phase.2
      refine .completed rfl (handshakes_up s.history socket negotiated send []) ?_
      rw [hnone]
      rintro _ ⟨⟩
      rfl
  | @reconnected delay socket negotiated inbound order send hreply =>
      have hsome : handshakes s.history ≠ [] := by
        intro hnone
        have hfirst : s.phase.first := (h.first hlive).mpr hnone
        exact absurd (hreply.phase.2.symm.trans hfirst) (by simp)
      refine .completed rfl (handshakes_up s.history socket negotiated send order) ?_
      rw [List.head?_append_of_ne_nil _ hsome]
      exact h.head

theorem Reachable.negotiation {rmp : Rmp} {options : ConnectOptions} {s : State}
    (h : Reachable rmp options s) : Negotiation s := by
  refine Reaches.invariant ?_ ?_ h
  · exact ⟨fun _ => ⟨fun _ => rfl, fun _ => rfl⟩, by simp [State.initial, handshakes], nofun⟩
  · intro s s' event _ hnegotiation _ hstep
    cases step_move hstep with
    | caller hmove =>
        have huntouched := hmove.untouched
        constructor
        · rw [huntouched.phase, huntouched.history]
          exact hnegotiation.first
        · rw [huntouched.history, hmove.numbers.negotiated]
          exact hnegotiation.head
        · rw [huntouched.phase, huntouched.history, huntouched.link]
          exact hnegotiation.last
    | task hmove => exact hnegotiation.moved hmove
    | server => exact ⟨hnegotiation.first, hnegotiation.head, hnegotiation.last⟩

/-- The feature checks are right about the server exactly when it announces what
the first one did. -/
theorem checks_describe_server {rmp : Rmp} {options : ConnectOptions} {s : State}
    (h : Reachable rmp options s) (hup : s.phase.up = true) :
    DescribesServer s ↔ SameServer s.history := by
  obtain ⟨negotiated, hlast⟩ := h.negotiation.last hup
  cases hfirst : (handshakes s.history).head? with
  | none => simp_all
  | some first =>
      have hhead : first.2 = s.negotiated := h.negotiation.head first hfirst
      simp only [SameServer, hlast, hfirst, Option.map_some, Option.some.injEq, hhead]
      constructor
      · rintro ⟨negotiated', hlast', hsame, -⟩
        have heq := Option.some.inj (hlast.symm.trans hlast')
        rw [(Prod.mk.inj heq).2, hsame]
      · rintro rfl
        refine ⟨s.negotiated, hlast, rfl, by simp [Negotiated.supports], fun request => ?_⟩
        rw [← request.check_ok_iff]
        cases hcheck : request.check s.negotiated with
        | ok => simp
        | error err =>
            obtain ⟨reason, rfl⟩ := Gated.check_error hcheck
            simp

def olderIdReply : Inbound :=
  ⟨{ kind := .ok, sync := 0, body := [0x81, 0x55, 0x90] }, some 0⟩

def sampleReconnect (reply : Inbound) : List Event :=
  sampleHandshake 0 [] ++
    [Event.task (.drain .sent), .task (.linkError .closed), .task .wake,
      .task (.connected "3.0.0" .sent), .server 1 reply,
      .task (.handshakeReply [] fun _ => .sent)]

theorem checks_describe_server_sample :
    ∃ s, Reachable fixintRmp {} s ∧ s.phase.up = true ∧ s.link = 1 ∧ SameServer s.history ∧
      DescribesServer s := by
  obtain ⟨s, hreach, hcheck⟩ := reaches_of_check (step fixintRmp) (.initial {})
    (sampleReconnect sampleIdReply)
    (fun s => s.phase.up && decide (s.link = 1 ∧
      (handshakes s.history).getLast?.map Prod.snd = (handshakes s.history).head?.map Prod.snd))
    (by decide +kernel)
  simp only [Bool.and_eq_true, decide_eq_true_eq] at hcheck
  obtain ⟨hup, hlink, hsame⟩ := hcheck
  exact ⟨s, hreach, hup, hlink, hsame, (checks_describe_server hreach hup).mpr hsame⟩

/-- After a reconnect to an older server its watchers are still said to be supported. -/
theorem reconnect_keeps_old_features :
    ¬ ∀ rmp options s, Reachable rmp options s → s.phase.up = true → DescribesServer s := by
  intro hall
  obtain ⟨s, hreach, hcheck⟩ := reaches_of_check (step fixintRmp) (.initial {})
    (sampleReconnect olderIdReply)
    (fun s => s.phase.up && s.negotiated.supports .watchers &&
      decide ((handshakes s.history).getLast? = some (1, ⟨"3.0.0", 0, ∅⟩)))
    (by decide +kernel)
  simp only [Bool.and_eq_true, decide_eq_true_eq] at hcheck
  obtain ⟨⟨hup, hsupports⟩, hlast⟩ := hcheck
  obtain ⟨negotiated, hlast', -, hfeatures, -⟩ := hall fixintRmp {} s hreach hup
  have heq := Option.some.inj (hlast.symm.trans hlast')
  have hmem := (hfeatures .watchers).mp hsupports
  rw [← (Prod.mk.inj heq).2] at hmem
  simp at hmem

end Tarant.Connection
