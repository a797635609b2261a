import Tarant.Connection.Ledger

/-!
# Links

A link is the number of the socket it was made of.  Sockets are numbered in the
order they are opened, so a link obtained by a reconnect is later than every
link that was lost before.
-/

namespace Tarant.Connection

open Foundation
open Iproto

/-! ## Actions that belong to one link -/

def Action.Local (link : Nat) : Action → Prop
  | .wrote l origin _ _ => l = link ∧ origin ≠ .handshakeId ∧ origin ≠ .handshakeAuth
  | .answered l _ _ | .announced l => l = link
  | .pushed _ _ | .published _ _ => True
  | _ => False

section Task

variable {t t' : Task} {link : Nat} {actions : List Action}

theorem Handling.isLocal {send : SendResult} {command : Command} {result : Except Error Unit}
    (h : Handling t link send command t' actions result) :
    ∀ action ∈ actions, action.Local link := by
  intro action hmem
  cases h.acts action hmem <;> simp [Action.Local]

theorem Routing.isLocal {alive : Nat → Bool} {ack : SendResult} {arrival : Arrival}
    (h : Routing t link alive ack arrival t' actions) :
    ∀ action ∈ actions, action.Local link := by
  intro action hmem
  cases h.acts action hmem <;> simp [Action.Local]

theorem failPending_isLocal : ∀ action ∈ (t.failPending link).2, action.Local link := by
  rw [Task.failPending, List.forall_mem_map]
  exact fun _ _ => rfl

theorem answered_isLocal (tickets : List Nat) (answer : Answer) :
    ∀ action ∈ tickets.map fun ticket => Action.answered link ticket answer,
      action.Local link := by
  rw [List.forall_mem_map]
  exact fun _ _ => rfl

theorem defer_isLocal {command : Command} :
    ∀ action ∈ (t.defer link command).2, action.Local link := by
  unfold Task.defer
  split
  · exact answered_isLocal _ _
  · simp

theorem resubscribe_isLocal (send : String → SendResult) (keys : List String) :
    ∀ action ∈ Task.resubscribe link send keys, action.Local link := by
  apply Task.forall_mem_resubscribe
  simp [Action.Local]

end Task

/-! ## The order of links -/

/-- The first handshake, made by `Handle::connect`, is not over. -/
def Phase.first (phase : Phase) : Prop := phase.attempt = some none

structure Links (s : State) : Prop where
  opened : ¬ s.phase.first → s.phase ≠ .done → s.link < s.sockets
  socket : ∀ socket ∈ s.phase.socket,
    socket < s.sockets ∧ (¬ s.phase.first → s.link < socket)

theorem Links.of_up {s : State} (hup : s.phase.up = true) (hlt : s.link < s.sockets) :
    Links s where
  opened _ _ := hlt
  socket socket hsocket := by
    cases hphase : s.phase <;> simp_all [Phase.up, Phase.socket]

theorem Links.of_waiting {s s' : State} (h : Links s) (hfirst : s'.phase = .done ∨
      ¬ s.phase.first ∧ s.phase ≠ .done) (hsocket : s'.phase.socket = none)
    (hlink : s'.link = s.link) (hsockets : s.sockets ≤ s'.sockets) : Links s' where
  opened _ hdone := by
    rw [hlink]
    rcases hfirst with hfirst | ⟨hfirst, hdone'⟩
    · exact absurd hfirst hdone
    · exact (h.opened hfirst hdone').trans_le hsockets
  socket socket hmem := by simp [hsocket] at hmem

theorem lose_link (s : State) : s.lose.link = s.link ∧ s.lose.sockets = s.sockets := by
  simp only [State.lose]
  split <;> exact ⟨rfl, rfl⟩

theorem lose_read (s : State) : s.lose.read = s.read := by
  simp only [State.lose]
  split <;> rfl

theorem lose_phase (s : State) :
    (∃ delay, s.lose.phase = .backoff delay) ∨ s.lose.phase = .done := by
  simp only [State.lose]
  split
  · exact .inl ⟨_, rfl⟩
  · exact .inr rfl

theorem lose_socket (s : State) : s.lose.phase.socket = none := by
  rcases lose_phase s with ⟨delay, hphase⟩ | hphase <;> simp [hphase, Phase.socket]

theorem lose_not_first (s : State) : ¬ s.lose.phase.first := by
  rcases lose_phase s with ⟨delay, hphase⟩ | hphase <;> rw [hphase] <;> nofun

theorem lose_not_up (s : State) : s.lose.phase.up = false := by
  rcases lose_phase s with ⟨delay, hphase⟩ | hphase <;> rw [hphase] <;> rfl

theorem lose_ne_drain (s : State) : s.lose.phase ≠ .drain := by
  rcases lose_phase s with ⟨delay, hphase⟩ | hphase <;> simp [hphase]

theorem afterFailure_not_first {options : ConnectOptions} {delay : Option Nat} {phase : Phase}
    (h : Phase.afterFailure options delay = some phase) : ¬ phase.first := by
  obtain ⟨-, rfl | ⟨-, delay, rfl⟩⟩ := afterFailure_cases h <;> nofun

theorem LastReply.phase {rmp : Rmp} {s : State} {reply : Response} {delay : Option Nat}
    {socket : Nat} {negotiated : Negotiated}
    (h : LastReply rmp s reply delay socket negotiated) :
    s.phase.socket = some socket ∧ s.phase.attempt = some delay := by
  cases h with
  | id hphase => simp [hphase, Phase.socket, Phase.attempt]
  | auth hphase => simp [hphase, Phase.socket, Phase.attempt]

theorem LastReply.waits {rmp : Rmp} {s : State} {reply : Response} {delay : Option Nat}
    {socket : Nat} {negotiated : Negotiated}
    (h : LastReply rmp s reply delay socket negotiated) : s.phase.waits = true := by
  cases h with
  | id hphase | auth hphase => rw [hphase]; rfl

theorem Links.of_attempt {s s' : State} {delay : Option Nat} (h : Links s)
    (hbefore : s.phase.attempt = some delay) (hafter : s'.phase.attempt = some delay)
    (hlink : s'.link = s.link) (hsockets : s.sockets ≤ s'.sockets)
    (hsocket : ∀ socket ∈ s'.phase.socket,
      socket < s'.sockets ∧ (¬ s.phase.first → s.link < socket)) : Links s' := by
  have hsame : s'.phase.first ↔ s.phase.first := by
    rw [Phase.first, Phase.first, hbefore, hafter]
  constructor
  · intro hfirst _
    rw [hlink]
    refine (h.opened (mt hsame.mpr hfirst) ?_).trans_le hsockets
    intro hdone
    simp [hdone, Phase.attempt] at hbefore
  · intro socket hmem
    obtain ⟨hlt, hlater⟩ := hsocket socket hmem
    exact ⟨hlt, fun hfirst => hlink ▸ hlater (mt hsame.mpr hfirst)⟩

theorem Links.failed {s s' : State} {delay : Option Nat} {phase : Phase} (h : Links s)
    (hattempt : s.phase.attempt = some delay)
    (hafter : Phase.afterFailure s.options delay = some phase) (hphase : s'.phase = phase)
    (hlink : s'.link = s.link) (hsockets : s.sockets ≤ s'.sockets) : Links s' := by
  obtain ⟨hsocket, hdone | ⟨hdelay, -⟩⟩ := afterFailure_cases hafter
  · exact h.of_waiting (.inl (hphase.trans hdone)) (hphase ▸ hsocket) hlink hsockets
  · refine h.of_waiting (.inr ⟨?_, ?_⟩) (hphase ▸ hsocket) hlink hsockets
    · simpa [Phase.first, hattempt] using hdelay
    · intro hdone
      simp [hdone, Phase.attempt] at hattempt

theorem Links.moved {rmp : Rmp} {s s' : State} {event : TaskEvent} (h : Links s)
    (hmove : TaskMove rmp s event s') : Links s' := by
  -- a phase with a link behind it
  have hlt {phase : Phase} (hphase : s.phase = phase) (hfirst : ¬ phase.first)
      (hdone : phase ≠ .done) : s.link < s.sockets :=
    h.opened (hphase ▸ hfirst) (hphase ▸ hdone)
  cases hmove with
  | drained hphase | replayed hphase | replayFailed hphase | handled hphase
  | received hphase =>
      exact .of_up rfl (hlt hphase (by simp [Phase.first, Phase.attempt]) (by simp))
  | handledLost hphase =>
      obtain ⟨hlink, hsockets⟩ := lose_link _
      refine h.of_waiting (.inr ?_) (lose_socket _) hlink hsockets.ge
      simp [hphase, Phase.first, Phase.attempt]
  | linkLost hphase =>
      obtain ⟨hlink, hsockets⟩ := lose_link s
      refine h.of_waiting (.inr ?_) (lose_socket s) hlink hsockets.ge
      simp [hphase, Phase.first, Phase.attempt]
  | closeCommand | channelClosed | receivedLast | closeWhileDown
  | channelClosedWhileDown => exact h.of_waiting (.inl rfl) rfl rfl le_rfl
  | woke hphase | deferred hphase =>
      refine h.of_waiting (.inr ?_) rfl rfl le_rfl
      simp [hphase, Phase.first, Phase.attempt]
  | @connected delay version send phase hphase hafter =>
      have hattempt : s.phase.attempt = some delay := by rw [hphase]; rfl
      rcases afterSend_cases hafter with ⟨-, rfl⟩ | hfailed
      · obtain ⟨hnew, hdelay, -⟩ := greeted_phase s delay version
        refine h.of_attempt hattempt hdelay rfl (Nat.le_succ _) fun socket hsocket => ?_
        obtain rfl : s.sockets = socket := Option.some.inj (hnew.symm.trans hsocket)
        exact ⟨Nat.lt_succ_self _, fun hfirst => h.opened hfirst (by simp [hphase])⟩
      · exact h.failed hattempt hfailed rfl rfl (Nat.le_succ _)
  | @authenticated delay socket version user scramble send phase hphase huser hafter =>
      have hattempt : s.phase.attempt = some delay := by rw [hphase]; rfl
      rcases afterSend_cases hafter with ⟨-, rfl⟩ | hfailed
      · refine h.of_attempt hattempt rfl rfl le_rfl fun socket hsocket => ?_
        exact h.socket socket (by rw [hphase]; exact hsocket)
      · exact h.failed hattempt hfailed rfl rfl le_rfl
  | attemptFailed hphase hafter => exact h.failed hphase hafter rfl rfl le_rfl
  | replyRejected hsocket hphase hafter => exact h.failed hphase hafter rfl rfl le_rfl
  | idAccepted hphase =>
      refine h.of_attempt (by rw [hphase]; rfl) rfl rfl le_rfl fun socket hsocket => ?_
      exact h.socket socket (by rw [hphase]; exact hsocket)
  | spawned hreply | reconnected hreply =>
      exact .of_up rfl (h.socket _ hreply.phase.1).1

theorem TaskMove.link_le {rmp : Rmp} {s s' : State} {event : TaskEvent}
    (hmove : TaskMove rmp s event s') (h : Links s) (hfirst : ¬ s.phase.first) :
    s.link ≤ s'.link ∧ ¬ s'.phase.first := by
  cases hmove with
  | handledLost =>
      refine ⟨?_, lose_not_first _⟩
      rw [(lose_link _).1]
      rfl
  | linkLost => exact ⟨(lose_link s).1.ge, lose_not_first s⟩
  | idAccepted hphase =>
      rw [hphase] at hfirst
      exact ⟨le_rfl, hfirst⟩
  | @connected delay version send phase hphase hafter =>
      rw [hphase] at hfirst
      refine ⟨le_rfl, ?_⟩
      rcases afterSend_cases hafter with ⟨-, rfl⟩ | hfailed
      · rwa [Phase.first, State.greet, State.perform, (greeted_phase s delay version).2.1]
      · exact afterFailure_not_first hfailed
  | authenticated hphase huser hafter =>
      rw [hphase] at hfirst
      refine ⟨le_rfl, ?_⟩
      rcases afterSend_cases hafter with ⟨-, rfl⟩ | hfailed
      · exact hfirst
      · exact afterFailure_not_first hfailed
  | attemptFailed hphase hafter | replyRejected hsocket hphase hafter =>
      exact ⟨le_rfl, afterFailure_not_first hafter⟩
  | spawned hreply => exact absurd hreply.phase.2 hfirst
  | reconnected hreply => exact ⟨((h.socket _ hreply.phase.1).2 hfirst).le, by rintro ⟨⟩⟩
  | _ => exact ⟨le_rfl, by rintro ⟨⟩⟩

theorem TaskMove.not_done {rmp : Rmp} {s s' : State} {event : TaskEvent}
    (h : TaskMove rmp s event s') : s.phase ≠ .done := by
  cases h with
  | attemptFailed hphase | replyRejected hsocket hphase =>
      intro hdone
      simp [hdone, Phase.attempt] at hphase
  | spawned hreply | reconnected hreply =>
      intro hdone
      have := hreply.phase.2
      simp [hdone, Phase.attempt] at this
  | _ => simp_all

def Completes (rmp : Rmp) (s : State) (event : Event) : Prop :=
  ∃ order send inbound delay socket negotiated,
    event = .task (.handshakeReply order send) ∧
      (s.inbound socket)[s.read socket]? = some inbound ∧
      LastReply rmp s inbound.response delay socket negotiated

theorem Completes.down {rmp : Rmp} {s : State} {event : Event} (h : Completes rmp s event) :
    s.phase.up = false := by
  obtain ⟨_, _, _, _, _, _, -, -, hreply⟩ := h
  have hsocket := hreply.phase.1
  cases hphase : s.phase <;> simp_all [Phase.up, Phase.socket]

theorem TaskMove.link_eq {rmp : Rmp} {s s' : State} {event : TaskEvent}
    (h : TaskMove rmp s event s') : s'.link = s.link ∨ Completes rmp s (.task event) := by
  cases h with
  | handledLost | linkLost => exact .inl (lose_link _).1
  | spawned hreply hinbound | reconnected hreply hinbound =>
      exact .inr ⟨_, _, _, _, _, _, rfl, hinbound, hreply⟩
  | _ => exact .inl rfl

theorem Links.untouched {s s' : State} (h : Links s) (hphase : s'.phase = s.phase)
    (hlink : s'.link = s.link) (hsockets : s'.sockets = s.sockets) : Links s' where
  opened := by
    rw [hphase, hlink, hsockets]
    exact h.opened
  socket := by
    rw [hphase, hlink, hsockets]
    exact h.socket

theorem Reachable.links {rmp : Rmp} {options : ConnectOptions} {s : State}
    (h : Reachable rmp options s) : Links s := by
  refine h.task_invariant ?_ ?_ fun _ hlinks _ hmove => hlinks.moved hmove
  · constructor <;> simp [State.initial, Phase.first, Phase.attempt, Phase.socket]
  · exact fun hside hlinks => hlinks.untouched hside.phase hside.link hside.sockets

end Tarant.Connection
