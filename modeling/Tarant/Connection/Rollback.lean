import Tarant.Connection.Routing
import Tarant.Connection.Control
import Tarant.Connection.Ordering

/-!
# Abandoned transactions

A dropped `Stream` fires a `ROLLBACK` if its flag says that a transaction is
open.  The flag follows the replies its callers see, so it can miss a `BEGIN`
whose reply nobody waited for; everything else it misses errs on the side of a
rollback.
-/

namespace Tarant.Connection

open Foundation
open Iproto

/-! ## What is assumed of the link, and of the stream -/

def Event.sends : Event → Bool
  | .task (.drain send) | .task (.command send) => send.isSent
  | _ => true

def LinkStays (rmp : Rmp) (s : State) (event : Event) : Prop :=
  s.phase.up = true →
    event.sends = true ∧ ∀ s', step rmp s event = some s' → s'.phase.up = true

/-- The stream's link stays up from when the stream is opened. -/
def StreamServed (rmp : Rmp) (id : Nat) (s : State) (event : Event) : Prop :=
  (s.streams id).isSome = true → LinkStays rmp s event

/-- Nobody stops waiting for a `begin` of the stream whose command was sent. -/
def BeginAwaited (id : Nat) (s : State) : Event → Prop
  | .caller (.abandon n) => ∀ call, s.calls n = some call → call.stream = some id →
      call.role = .begin → call.stage = .drawn
  | _ => True

structure RollbackSafe (rmp : Rmp) (id : Nat) (s : State) (event : Event) : Prop where
  served : StreamServed rmp id s event
  awaited : BeginAwaited id s event
  login : LoginSafe s event

/-- `accepts` tells the calls whose packets the server accepts, and its replies do
not say otherwise. -/
def Truthful (accepts : Nat → Prop) (s : State) : Prop :=
  ∀ link, ∀ inbound ∈ s.inbound link, ∀ i ∈ inbound.answers, ∀ n packet,
    (outbound link s.history)[i]? = some (.call n, packet) →
      (inbound.response.kind = .ok ↔ accepts n)

def State.controlWrites (s : State) (id : Nat) : List Nat :=
  s.history.filterMap fun
    | .wrote _ (.call n) _ _ => if s.controls id n then some n else none
    | _ => none

def LeftOpen (accepts : Nat → Prop) (s : State) (id : Nat) : Prop :=
  ∃ before n after call, s.controlWrites id = before ++ n :: after ∧ accepts n ∧
    s.calls n = some call ∧ call.role = .begin ∧ ∀ m ∈ after, ¬ accepts m

/-- A `ROLLBACK` of the stream is new in the channel of `s'`; as long as the link
stays up it is written, once the commands sent before `s` have been taken. -/
def RolledBack (rmp : Rmp) (s s' : State) (id : Nat) : Prop :=
  ∃ n packet, packet.ty = Request.rollback ∧ packet.streamId = some (syncOf id) ∧
    .fire packet n ∉ s.channel ∧ ∀ s'', Reaches (step rmp) (LinkStays rmp) s' s'' →
      (.fire packet n ∈ s''.channel ∧ (received s''.history).length ≤ s.sent.length) ∨
        ∃ result, .wrote s.link (.call n) packet result ∈ s''.history

/-! ## While the link is up -/

inductive Serving (s : State) (s' : State) : Prop where
  | idle (hpending : s'.task.pending = s.task.pending) (hhistory : s'.history = s.history)
      (hchannel : s'.channel = s.channel)
  | handled (before : List Action) {t : Task} {command : Command} {actions : List Action}
      {result : Except Error Unit}
      (hhandling : Handling t s.link .sent command s'.task actions result)
      (hpending : t.pending = s.task.pending) (hmem : command ∈ s.outstanding)
      (hhistory : s'.history = s.history ++ (before ++ actions))
      (hbefore : ∀ n, before.countP (Action.writes n) = 0)
      (hchannel : (s'.channel = s.channel ∧ received before = []) ∨
        (s.channel = command :: s'.channel ∧ received before = [command]))
  | received {alive : Nat → Bool} {ack : SendResult} {arrival : Arrival} {actions : List Action}
      (hrouting : Routing s.task s.link alive ack arrival s'.task actions)
      (hhistory : s'.history = s.history ++ actions) (hchannel : s'.channel = s.channel)

theorem SendResult.eq_sent {send : SendResult} (h : send.isSent = true) : send = .sent := by
  cases send with
  | sent => rfl
  | failed => contradiction

theorem TaskMove.serving {rmp : Rmp} {s s' : State} {event : TaskEvent}
    (h : TaskMove rmp s event s') (hup : s.phase.up = true) (hup' : s'.phase.up = true)
    (hsends : (Event.task event).sends = true) : Serving s s' ∧ s'.link = s.link := by
  cases h with
  | drained => exact ⟨.idle rfl rfl rfl, rfl⟩
  | @replayed command rest send t actions hphase hdeferred hhandle =>
      obtain rfl := SendResult.eq_sent hsends
      refine ⟨.handled [.handled s.link command] (handling_of_eq hhandle) rfl ?_ rfl ?_
        (.inl ⟨rfl, rfl⟩), rfl⟩
      · exact List.mem_append_right _ (hdeferred ▸ List.mem_cons_self)
      · simp [Action.writes]
  | @handled command rest send t actions hphase hchannel hclose hhandle =>
      obtain rfl := SendResult.eq_sent hsends
      refine ⟨.handled [.took command, .handled s.link command]
        (handling_of_eq hhandle) rfl ?_ (List.append_assoc _ _ _) ?_
        (.inr ⟨hchannel, rfl⟩), rfl⟩
      · exact List.mem_append_left _ (hchannel ▸ List.mem_cons_self)
      · simp [Action.writes]
  | received => exact ⟨.received (handleResponse_routing _ _ _ _ _) rfl rfl, rfl⟩
  | replayFailed _ _ hhandle =>
      -- a successful send fails no command
      obtain rfl := SendResult.eq_sent hsends
      cases handling_of_eq hhandle
  | handledLost | linkLost => exact absurd hup' (by simp [lose_not_up])
  | closeCommand | channelClosed | receivedLast => cases hup'
  | woke hphase | deferred hphase | closeWhileDown hphase | channelClosedWhileDown hphase
  | connected hphase | authenticated hphase | idAccepted hphase => simp [hphase, Phase.up] at hup
  | attemptFailed hphase | replyRejected _ hphase =>
      simp [Phase.not_up_of_attempt hphase] at hup
  | spawned hreply | reconnected hreply =>
      simp [Phase.not_up_of_attempt hreply.phase.2] at hup

theorem Handling.writes_own {t t' : Task} {link : Nat} {send : SendResult} {command : Command}
    {actions : List Action} {result : Except Error Unit}
    (h : Handling t link send command t' actions result) {n : Nat}
    (hwrites : 0 < actions.countP (Action.writes n)) :
    command.ticket? = some n ∧ (command.reply? = none ∨ 0 < t'.inPending n) := by
  cases h with
  | @requested sync packet ticket pushes =>
      have hown : ticket = n := by
        rw [List.countP_append, overwritten_writes] at hwrites
        by_contra hne
        simp [Action.writes, hne] at hwrites
      subst hown
      have hlookup : (t.pending.insert sync ⟨ticket, pushes⟩).lookup sync =
          some ⟨ticket, pushes⟩ := AList.lookup_insert _
      refine ⟨rfl, .inr (List.countP_pos_iff.mpr ⟨_, mem_entries_of_lookup hlookup, ?_⟩)⟩
      simp
  | @fired packet ticket =>
      have hown : ticket = n := by
        by_contra hne
        simp [Action.writes, hne] at hwrites
      exact ⟨congrArg some hown, .inl rfl⟩
  | _ => simp [Action.writes] at hwrites

theorem Handling.pending_kept {t t' : Task} {link : Nat} {send : SendResult} {command : Command}
    {actions : List Action} {result : Except Error Unit}
    (h : Handling t link send command t' actions result)
    (hfree : ∀ sync packet ticket pushes, command = .request sync packet ticket pushes →
      t.pending.lookup sync = none) {n : Nat} (hpending : 0 < t.inPending n) :
    0 < t'.inPending n := by
  cases h with
  | @requested sync packet ticket pushes =>
      have hcount := countP_insert (fun entry => entry.2.ticket == n) sync
        (⟨ticket, pushes⟩ : Pending) t.pending
      rw [hfree sync packet ticket pushes rfl, hit] at hcount
      simp only [Task.inPending] at hpending ⊢
      omega
  | _ => exact hpending

theorem Routing.pending_kept {t t' : Task} {link : Nat} {alive : Nat → Bool} {ack : SendResult}
    {arrival : Arrival} {actions : List Action} (h : Routing t link alive ack arrival t' actions)
    {n : Nat} (hpending : 0 < t.inPending n) :
    0 < t'.inPending n ∨ .answered link n (.reply arrival) ∈ actions := by
  cases h with
  | @delivered pending hfinal hlookup =>
      by_cases hn : pending.ticket = n
      · exact .inr (by simp [hn])
      · have hcount := countP_erase (fun entry => entry.2.ticket == n) arrival.response.sync
          t.pending
        rw [hlookup, hit, if_neg (by simpa using hn)] at hcount
        simp only [Task.inPending] at hpending ⊢
        exact .inl (by omega)
  | _ => exact .inl hpending

theorem Routing.unwritten {t t' : Task} {link : Nat} {alive : Nat → Bool} {ack : SendResult}
    {arrival : Arrival} {actions : List Action} (h : Routing t link alive ack arrival t' actions)
    (n : Nat) : actions.countP (Action.writes n) = 0 := by
  rw [List.countP_eq_zero]
  intro action hmem
  cases h.acts action hmem <;> simp [Action.writes]

def Awaited (s : State) (n : Nat) : Prop :=
  0 < s.task.inPending n ∨ ∃ link arrival, .answered link n (.reply arrival) ∈ s.history

theorem Serving.awaited {s s' : State} {n : Nat} (h : Serving s s') (hqueued : Queued s)
    (hfree : ∀ sync packet ticket pushes, .request sync packet ticket pushes ∈ s.outstanding →
      s.task.pending.lookup sync = none)
    (hrole : ∀ call ∈ s.calls n, call.role ≠ .fire)
    (hawaited : 0 < s.history.countP (Action.writes n) → Awaited s n)
    (hwritten : 0 < s'.history.countP (Action.writes n)) :
    Awaited s' n ∧ (0 < s.history.countP (Action.writes n) ∨
      ∃ call ∈ s.calls n, call.stage = .queued) := by
  have hgrow (actions : List Action) (hhistory : s'.history = s.history ++ actions)
      (hpending : 0 < s.task.inPending n → 0 < s'.task.inPending n ∨
        ∃ link arrival, .answered link n (.reply arrival) ∈ actions)
      (hold : Awaited s n) : Awaited s' n := by
    rcases hold with hwaiting | ⟨link, arrival, hanswered⟩
    · refine (hpending hwaiting).imp_right fun ⟨link, arrival, hanswered⟩ => ?_
      exact ⟨link, arrival, hhistory ▸ List.mem_append_right _ hanswered⟩
    · exact .inr ⟨link, arrival, hhistory ▸ List.mem_append_left _ hanswered⟩
  cases h with
  | idle hpending hhistory =>
      rw [hhistory] at hwritten
      have hkept := hgrow [] (by rw [hhistory, List.append_nil])
        (fun hwaiting => .inl (by rwa [Task.inPending, hpending]))
      exact ⟨hkept (hawaited hwritten), .inl hwritten⟩
  | @handled before t command actions result hhandling hpending hmem hhistory hbefore =>
      have hlookup : ∀ sync packet ticket pushes, command = .request sync packet ticket pushes →
          t.pending.lookup sync = none := by
        rintro sync packet ticket pushes rfl
        rw [hpending]
        exact hfree sync packet ticket pushes hmem
      by_cases hold : 0 < s.history.countP (Action.writes n)
      · refine ⟨hgrow _ hhistory (fun hwaiting => .inl ?_) (hawaited hold), .inl hold⟩
        exact hhandling.pending_kept hlookup (by rwa [Task.inPending, hpending])
      · have hnew : 0 < actions.countP (Action.writes n) := by
          rw [hhistory, List.countP_append, List.countP_append, hbefore] at hwritten
          omega
        obtain ⟨hticket, hkind⟩ := hhandling.writes_own hnew
        obtain ⟨call, hcall, hwaits⟩ := hqueued command hmem n hticket
        refine ⟨.inl (hkind.resolve_left fun hnone => ?_), .inr ⟨call, hcall, hwaits.stage⟩⟩
        exact hrole call hcall (hwaits.fire hnone).1
  | received hrouting hhistory =>
      rw [hhistory, List.countP_append, hrouting.unwritten, Nat.add_zero] at hwritten
      refine ⟨hgrow _ hhistory (fun hwaiting => ?_) (hawaited hwritten), .inl hwritten⟩
      exact (hrouting.pending_kept hwaiting).imp_right fun hanswered => ⟨_, _, hanswered⟩

/-- What the callers of the stream find out about the packets that were written. -/
structure Attended (s : State) (id : Nat) : Prop where
  kept : ∀ n call, s.calls n = some call → call.stream = some id → call.role = .begin →
    call.alive = false → call.stage = .drawn
  up : ∀ n, s.controls id n = true → 0 < s.history.countP (Action.writes n) → s.phase.up = true
  awaited : ∀ n, s.controls id n = true → 0 < s.history.countP (Action.writes n) → Awaited s n
  failed : ∀ n call, s.calls n = some call → call.stream = some id →
    call.role.exclusive = true → call.stage = .returned false →
    0 < s.history.countP (Action.writes n) →
      ∃ link arrival, .answered link n (.reply arrival) ∈ s.history ∧
        arrival.response.kind = .error

theorem Ledger.unwritten {s : State} (h : Ledger s) {n : Nat} {call : Call}
    (hcall : s.calls n = some call) (hstage : call.stage = .drawn) :
    s.history.countP (Action.writes n) = 0 := by
  have hdrawn : s.drawn n = 1 := by simp [State.drawn, hcall, hstage]
  have hsource := h.source n
  have honce := h.once n
  have hknown : s.known n ≤ 1 := Bool.toNat_le _
  omega

theorem eq_of_countP_le_one {α : Type*} {p : α → Bool} {l : List α} (hcount : l.countP p ≤ 1)
    {a b : α} (ha : a ∈ l) (hb : b ∈ l) (hpa : p a = true) (hpb : p b = true) : a = b := by
  have ha' := List.mem_filter.mpr ⟨ha, hpa⟩
  have hb' := List.mem_filter.mpr ⟨hb, hpb⟩
  rw [List.countP_eq_length_filter] at hcount
  generalize l.filter p = kept at hcount ha' hb'
  match kept with
  | [c] => rw [List.mem_singleton.mp ha', List.mem_singleton.mp hb']
  | _ :: _ :: _ => simp at hcount

theorem Ledger.answer_unique {s : State} (h : Ledger s) {n link link' : Nat}
    {answer answer' : Answer} (hmem : .answered link n answer ∈ s.history)
    (hmem' : .answered link' n answer' ∈ s.history) : answer = answer' := by
  have hbalance := h.balance n
  have htakes := h.takes_le_one n
  have hrequest := countP_takesRequest_le_takes n s.history
  have hone : s.history.countP (Action.answers n) ≤ 1 := by omega
  have hsame := eq_of_countP_le_one hone hmem hmem' (by simp [Action.answers])
    (by simp [Action.answers])
  exact (Action.answered.inj hsame).2.2

theorem Attended.issued {s s' : State} {id : Nat} {event : CallerEvent} (h : Attended s id)
    (hledger : Ledger s) (hundiscarded : s.phase ≠ .done → ∀ command, .discarded command ∉ s.history)
    (hmove : CallerMove s event s') (hkept : BeginAwaited id s (.caller event)) :
    Attended s' id := by
  have hfresh := hledger.toFresh
  have hhistory := hmove.untouched.history
  have htask := hmove.untouched.task
  have hold {n : Nat} (hn : s'.controls id n = true)
      (hwritten : 0 < s'.history.countP (Action.writes n)) :
      s.controls id n = true ∧ 0 < s.history.countP (Action.writes n) := by
    rw [hhistory] at hwritten
    refine ⟨(hmove.controls_back hfresh hn).resolve_right fun ⟨call, hnew, _⟩ => ?_, hwritten⟩
    obtain ⟨action, hmem, hwrites⟩ := List.countP_pos_iff.mp hwritten
    simp [(hledger.unused (hfresh.fresh n hnew.ticket.ge) action hmem).1] at hwrites
  constructor
  · intro n call' hcall' hstream hrole halive
    rcases hmove.control_back hfresh hcall' (by simp [hrole]) with hnew | ⟨call, hcall, hchange⟩
    · simp [hnew.alive] at halive
    · cases hchange with
      | same => exact h.kept n call' hcall hstream hrole halive
      | submitted hlive | refused hlive | failed hlive | succeeded hlive =>
          simp [(Call.live_iff.mp hlive).1] at halive
      | abandoned hlive hevent =>
          rw [hevent] at hkept
          exact hkept call hcall hstream hrole
  · intro n hn hwritten
    obtain ⟨hcontrols, hwritten⟩ := hold hn hwritten
    rw [hmove.untouched.phase]
    exact h.up n hcontrols hwritten
  · intro n hn hwritten
    obtain ⟨hcontrols, hwritten⟩ := hold hn hwritten
    rw [Awaited, htask, hhistory]
    exact h.awaited n hcontrols hwritten
  · intro n call' hcall' hstream hrole hstage hwritten
    have hn : s'.controls id n = true := controls_iff.mpr ⟨call', hcall', hstream, hrole⟩
    obtain ⟨hcontrols, hwritten⟩ := hold hn hwritten
    rw [hhistory]
    rcases hmove.control_back hfresh hcall' (Role.not_fire hrole) with
      hnew | ⟨call, hcall, hchange⟩
    · simp [hnew.stage] at hstage
    · cases hchange with
      | same => exact h.failed n call' hcall hstream hrole hstage hwritten
      | submitted | succeeded => simp at hstage
      | refused hlive hdrawn =>
          have hnone := hledger.unwritten hcall hdrawn
          omega
      | abandoned hlive =>
          rcases (Call.live_iff.mp hlive).2 with hdrawn | hqueued
          · simp [hdrawn] at hstage
          · simp [hqueued] at hstage
      | @failed answer hlive hanswer hsuccess =>
          have hlive : s.phase ≠ .done := by
            intro hdone
            have hup := h.up n hcontrols hwritten
            simp [hdone, Phase.up] at hup
          rcases answerOf_record hanswer with ⟨link, hanswered⟩ | ⟨command, hdiscarded⟩
          · rcases h.awaited n hcontrols hwritten with hwaiting | ⟨l, arrival, hreplied⟩
            · have hnone := hledger.unanswered (.inr hwaiting)
              have hpos := answered_pos hanswered
              omega
            · obtain rfl := hledger.answer_unique hanswered hreplied
              refine ⟨l, arrival, hreplied, ?_⟩
              simpa [Answer.success] using hsuccess
          · exact absurd hdiscarded (hundiscarded hlive command)

theorem Attended.moved {rmp : Rmp} {s s' : State} {id : Nat} {event : TaskEvent}
    (h : Attended s id) (hbound : s.nextSync ≤ 2 ^ 64 + 1) {options : ConnectOptions}
    (hreach : Reachable rmp options s) (hstep : step rmp s (.task event) = some s')
    (hmove : TaskMove rmp s event s') (hserved : StreamServed rmp id s (.task event)) :
    Attended s' id := by
  have hcalls := hmove.untouched.calls
  have hcontrols (n : Nat) : s'.controls id n = s.controls id n := by
    rw [State.controls, State.controls, hcalls]
  obtain ⟨actions, hactions, hrecorded⟩ := hmove.recorded
  -- a packet of the stream is written while its link is up, and the link stays up
  have hup {n : Nat} (hn : s.controls id n = true)
      (hwritten : 0 < s'.history.countP (Action.writes n)) :
      s.phase.up = true ∧ s'.phase.up = true ∧ (Event.task event).sends = true := by
    have hup : s.phase.up = true := by
      rw [hactions, List.countP_append] at hwritten
      by_cases hold : 0 < s.history.countP (Action.writes n)
      · exact h.up n hn hold
      · obtain ⟨action, hmem, hwrites⟩ := List.countP_pos_iff.mp
          (show 0 < actions.countP (Action.writes n) by omega)
        cases action with
        | wrote link origin packet result =>
            cases origin with
            | call ticket => exact (hrecorded _ hmem).call_write.1
            | _ => simp [Action.writes] at hwrites
        | _ => simp [Action.writes] at hwrites
    obtain ⟨hsends, hstays⟩ := hserved ((hreach.sequenced id).known n hn) hup
    exact ⟨hup, hstays s' hstep, hsends⟩
  have hserving {n : Nat} (hn : s.controls id n = true)
      (hwritten : 0 < s'.history.countP (Action.writes n)) :
      Awaited s' n ∧ (0 < s.history.countP (Action.writes n) ∨
        ∃ call ∈ s.calls n, call.stage = .queued) := by
    obtain ⟨hup, hup', hsends⟩ := hup hn hwritten
    have hlive : s.phase ≠ .done := by
      intro hdone
      simp [hdone, Phase.up] at hup
    refine (hmove.serving hup hup' hsends).1.awaited (hreach.queued hlive) ?_ ?_
      (h.awaited n hn) hwritten
    · exact fun sync packet ticket pushes hmem => hreach.pending_free hbound hmem
    · intro call hcall hfire
      obtain ⟨call', hcall', -, hrole⟩ := controls_iff.mp hn
      obtain rfl := Option.some.inj (hcall.symm.trans hcall')
      exact Role.not_fire hrole hfire
  constructor
  · rw [hcalls]
    exact h.kept
  · exact fun n hn hwritten => (hup (hcontrols n ▸ hn) hwritten).2.1
  · exact fun n hn hwritten => (hserving (hcontrols n ▸ hn) hwritten).1
  · intro n call hcall hstream hrole hstage hwritten
    rw [hcalls] at hcall
    have hn : s.controls id n = true := controls_iff.mpr ⟨call, hcall, hstream, hrole⟩
    rcases (hserving hn hwritten).2 with hold | ⟨call', hcall', hqueued⟩
    · obtain ⟨link, arrival, hanswered, hkind⟩ := h.failed n call hcall hstream hrole hstage hold
      exact ⟨link, arrival, hactions ▸ List.mem_append_left _ hanswered, hkind⟩
    · obtain rfl := Option.some.inj (hcall.symm.trans hcall')
      simp [hstage] at hqueued

theorem ReachableBy.attended {rmp : Rmp} {options : ConnectOptions} {s : State} {id : Nat}
    (h : ReachableBy rmp options (RollbackSafe rmp id) s) (hbound : s.nextSync ≤ 2 ^ 64 + 1) :
    Attended s id := by
  revert hbound
  refine Reaches.invariant (I := fun s => s.nextSync ≤ 2 ^ 64 + 1 → Attended s id) ?_ ?_ h
  · intro _
    constructor <;> simp [State.initial, State.controls]
  · intro s s' event hreach hattended hsafe hstep hbound'
    have hreachable : Reachable rmp options s := hreach.weaken
    cases step_move hstep with
    | caller hmove =>
        have hbound : s.nextSync ≤ 2 ^ 64 + 1 := hmove.numbers.nextSync.trans hbound'
        exact (hattended hbound).issued hreachable.ledger (hreachable.undiscarded) hmove
          hsafe.awaited
    | task hmove =>
        have hbound : s.nextSync ≤ 2 ^ 64 + 1 := hmove.untouched.nextSync ▸ hbound'
        exact (hattended hbound).moved hbound hreachable hstep hmove hsafe.served
    | server =>
        exact { kept := (hattended hbound').kept, up := (hattended hbound').up,
                awaited := (hattended hbound').awaited, failed := (hattended hbound').failed }

/-! ## The flag of a stream that is left with an open transaction -/

theorem mem_controlWrites {s : State} {id n : Nat} {history : List Action} :
    n ∈ history.filterMap (fun
      | .wrote _ (.call n) _ _ => if s.controls id n then some n else none
      | _ => none) ↔
      s.controls id n = true ∧ 0 < history.countP (Action.writes n) := by
  rw [List.mem_filterMap, List.countP_pos_iff]
  constructor
  · rintro ⟨action, hmem, haction⟩
    cases action with
    | wrote link origin packet result =>
        cases origin with
        | call ticket =>
            simp only [Option.ite_none_right_eq_some, Option.some.injEq] at haction
            obtain ⟨hcontrols, rfl⟩ := haction
            exact ⟨hcontrols, _, hmem, by simp [Action.writes]⟩
        | _ => simp at haction
    | _ => simp at haction
  · rintro ⟨hcontrols, action, hmem, hwrites⟩
    refine ⟨action, hmem, ?_⟩
    cases action with
    | wrote link origin packet result =>
        cases origin with
        | call ticket =>
            obtain rfl : ticket = n := by simpa [Action.writes] using hwrites
            simp [hcontrols]
        | _ => simp [Action.writes] at hwrites
    | _ => simp [Action.writes] at hwrites

theorem Truthful.replied {s : State} {accepts : Nat → Prop} (h : Truthful accepts s)
    (hrouted : RepliesRouted s) {link n : Nat} {arrival : Arrival}
    (hanswered : .answered link n (.reply arrival) ∈ s.history) :
    arrival.response.kind = .ok ↔ accepts n := by
  obtain ⟨-, inbound, i, packet, -, hinbound, hresponse, hanswers, hsent, -⟩ :=
    hrouted link n arrival hanswered
  rw [← hresponse]
  exact h link inbound (List.mem_of_getElem? hinbound) i hanswers n packet hsent

theorem RepliesRouted.final {s : State} (h : RepliesRouted s) (hfaithful : Faithful s)
    {link n : Nat} {arrival : Arrival}
    (hanswered : .answered link n (.reply arrival) ∈ s.history)
    (hkind : arrival.response.kind ≠ .error) : arrival.response.kind = .ok := by
  obtain ⟨-, inbound, i, -, -, hinbound, hresponse, hanswers, -⟩ := h link n arrival hanswered
  have hfinal := hfaithful.final link inbound (List.mem_of_getElem? hinbound)
  rw [hanswers, hresponse] at hfinal
  cases hcase : arrival.response.kind <;> simp_all [Kind.final]

theorem Sequenced.not_before {s : State} {id n m : Nat} {call : Call} {before after : List Nat}
    (h : Sequenced s id) (hledger : Ledger s) (hcall : s.calls n = some call)
    (hstream : call.stream = some id) (hrole : call.role.exclusive = true)
    (hstage : call.stage = .returned true) (hlt : n < m)
    (hwrites : s.controlWrites id = before ++ n :: after) : m ∉ before := by
  intro hmem
  obtain ⟨first, second, hhistory, hfirst, hsecond⟩ := List.filterMap_eq_append_iff.mp hwrites
  rw [← hfirst, mem_controlWrites] at hmem
  have hlater : n ∈ n :: after := List.mem_cons_self
  rw [← hsecond, mem_controlWrites] at hlater
  obtain ⟨action, haction, hwrite⟩ := List.countP_pos_iff.mp hmem.2
  obtain ⟨x, y, hsplit⟩ := List.append_of_mem haction
  cases action with
  | wrote link origin packet result =>
      cases origin with
      | call ticket =>
          obtain rfl : ticket = m := by simpa [Action.writes] using hwrite
          have hearlier := h.order n call ticket hcall hstream hrole hstage hmem.1 hlt x link
            packet result (y ++ second) (by rw [hhistory, hsplit, List.append_assoc]; rfl)
          -- the packet would have been written twice
          have hone := hledger.writes_le_one n
          rw [hhistory, hsplit, List.countP_append, List.countP_append] at hone
          have := hlater.2
          omega
      | _ => simp [Action.writes] at hwrite
  | _ => simp [Action.writes] at hwrite

theorem LeftOpen.inTransaction {s : State} {id : Nat} {accepts : Nat → Prop} {stream : Stream}
    (h : LeftOpen accepts s id) (hledger : Ledger s) (hwritten : Written s)
    (hfaithful : Faithful s) (hrouted : RepliesRouted s) (hsequenced : Sequenced s id)
    (hattended : Attended s id) (htruthful : Truthful accepts s)
    (hidle : s.busyWith id (fun _ => true) = false) (hstream : s.streams id = some stream) :
    stream.inTransaction = true := by
  obtain ⟨before, n, after, call, hwrites, haccepts, hcall, hrole, hlast⟩ := h
  have hmem : n ∈ s.controlWrites id := by simp [hwrites]
  rw [State.controlWrites, mem_controlWrites] at hmem
  obtain ⟨hcontrols, hwrote⟩ := hmem
  obtain ⟨call', hcall', hborrows, hexclusive⟩ := controls_iff.mp hcontrols
  obtain rfl := Option.some.inj (hcall.symm.trans hcall')
  have hsettled : call.live = false := by
    by_contra hlive
    have hbusy := Running.not_busy (s := s) ⟨hcall, hborrows, by simpa using hlive⟩
      hledger.toFresh hidle
    simp at hbusy
  have halive : call.alive = true := by
    by_contra hdropped
    have hdrawn := hattended.kept n call hcall hborrows hrole (by simpa using hdropped)
    have hnone := hledger.unwritten hcall hdrawn
    omega
  cases hstage : call.stage with
  | drawn | queued => simp [Call.live, halive, hstage] at hsettled
  | returned ok =>
      cases ok with
      | false =>
          -- the server rejected it
          obtain ⟨link, arrival, hanswered, hkind⟩ :=
            hattended.failed n call hcall hborrows hexclusive hstage hwrote
          have hok := (htruthful.replied hrouted hanswered).mpr haccepts
          rw [hkind] at hok
          contradiction
      | true =>
          rcases hsequenced.settled n call stream hcall hborrows hrole hstage hstream with
            hflag | ⟨m, other, hlt, hother, hborrows', hexclusive', hrole', hstage'⟩
          · exact hflag
          · -- a later commit or rollback was accepted
            obtain ⟨link, arrival, hanswered, hkind⟩ :=
              hsequenced.returned m other hother hexclusive' hstage'
            have haccepts' : accepts m := (htruthful.replied hrouted hanswered).mp
              (hrouted.final hfaithful hanswered hkind)
            obtain ⟨-, packet, result, hwrote'⟩ := hwritten.replied link m arrival hanswered
            have hmem' : m ∈ s.controlWrites id := mem_controlWrites.mpr
              ⟨controls_iff.mpr ⟨other, hother, hborrows', hexclusive'⟩,
                List.countP_pos_iff.mpr ⟨_, hwrote', by simp [Action.writes]⟩⟩
            have hnot := hsequenced.not_before hledger hcall hborrows hexclusive hstage hlt hwrites
            rw [hwrites, List.mem_append, List.mem_cons] at hmem'
            rcases hmem' with hbefore | rfl | hafter
            · exact absurd hbefore hnot
            · omega
            · exact absurd haccepts' (hlast m hafter)

/-! ## The rollback on its way -/

theorem fireNow_channel_eq {s : State} (hroom : s.hasRoom = true) (stream : Option Nat) (ty : Nat)
    (body : List (Nat × Field)) : (s.fireNow stream ty body).channel = s.channel ++
      [.fire ⟨ty, syncOf s.nextSync, stream.map syncOf, body⟩ s.nextSync] := by
  rw [State.fireNow, if_pos hroom]

/-- The packet waits in the channel behind the commands sent before it, `ahead` of
which were sent in all, or it has been written. -/
def OnItsWay (link n ahead : Nat) (packet : Packet) (s : State) : Prop :=
  (∃ before after, s.channel = before ++ .fire packet n :: after ∧
    before.length + (received s.history).length = ahead) ∨
    ∃ result, .wrote link (.call n) packet result ∈ s.history

theorem OnItsWay.served {s s' : State} {n ahead : Nat} {packet : Packet}
    (h : OnItsWay s.link n ahead packet s) (hserving : Serving s s') :
    OnItsWay s.link n ahead packet s' := by
  rcases h with ⟨before, after, hchannel, hahead⟩ | ⟨result, hwrote⟩
  · cases hserving with
    | idle _ hhistory hsame =>
        exact .inl ⟨before, after, hsame.trans hchannel, by rw [hhistory]; exact hahead⟩
    | received hrouting hhistory hsame =>
        refine .inl ⟨before, after, hsame.trans hchannel, ?_⟩
        rw [hhistory, received_append, received_local hrouting.isLocal, List.append_nil]
        exact hahead
    | @handled taken t command actions result hhandling _ _ hhistory _ hnext =>
        have hreceived : received s'.history = received s.history ++ received taken := by
          rw [hhistory, received_append, received_append, received_local hhandling.isLocal,
            List.append_nil]
        rcases hnext with ⟨hsame, htaken⟩ | ⟨hhead, htaken⟩
        · exact .inl ⟨before, after, hsame.trans hchannel, by simpa [hreceived, htaken] using hahead⟩
        · rw [hhead] at hchannel
          cases before with
          | nil =>
              obtain ⟨rfl, -⟩ := List.cons.inj hchannel
              cases hhandling
              exact .inr ⟨.sent, by simp [hhistory]⟩
          | cons first rest =>
              obtain ⟨-, hrest⟩ := List.cons.inj hchannel
              refine .inl ⟨rest, after, hrest, ?_⟩
              simp only [hreceived, htaken, List.length_append, List.length_cons,
                List.length_nil] at hahead ⊢
              omega
  · refine .inr ⟨result, ?_⟩
    cases hserving with
    | idle _ hhistory => rwa [hhistory]
    | handled _ _ _ _ hhistory => exact hhistory ▸ List.mem_append_left _ hwrote
    | received _ hhistory => exact hhistory ▸ List.mem_append_left _ hwrote

theorem OnItsWay.run {rmp : Rmp} {s s' : State} {n ahead : Nat} {packet : Packet}
    (hup : s.phase.up = true) (h : OnItsWay s.link n ahead packet s)
    (hreach : Reaches (step rmp) (LinkStays rmp) s s') : OnItsWay s.link n ahead packet s' := by
  suffices hall : s'.phase.up = true ∧ s'.link = s.link ∧ OnItsWay s.link n ahead packet s' from
    hall.2.2
  refine Reaches.invariant (I := fun t => t.phase.up = true ∧ t.link = s.link ∧
    OnItsWay s.link n ahead packet t) ⟨hup, rfl, h⟩ ?_ hreach
  rintro t t' event - ⟨hup, hlink, hway⟩ hstays hstep
  obtain ⟨hsends, hup'⟩ := hstays hup
  refine ⟨hup' t' hstep, ?_⟩
  cases step_move hstep with
  | caller hmove =>
      obtain ⟨added, hchannel, -⟩ := hmove.channel
      refine ⟨hmove.untouched.link.trans hlink, ?_⟩
      rw [OnItsWay, hmove.untouched.history, hchannel]
      refine hway.imp_left fun ⟨before, after, hqueued, hahead⟩ => ?_
      exact ⟨before, after ++ added, by simp [hqueued], hahead⟩
  | task hmove =>
      obtain ⟨hserving, hsame⟩ := hmove.serving hup (hup' t' hstep) hsends
      rw [← hlink] at hway ⊢
      exact ⟨hsame, hway.served hserving⟩
  | server => exact ⟨hlink, hway⟩

/--
A stream that is dropped while the last of its `BEGIN`, `COMMIT` and `ROLLBACK`
packets accepted by the server is a `BEGIN` sends a `ROLLBACK`, as long as nobody
gave up a `begin` whose command was on its way.  What the other calls on the
stream went through does not matter.
-/
theorem abandoned_transaction_rolled_back {rmp : Rmp} {options : ConnectOptions} {s s' : State}
    {id : Nat} {accepts : Nat → Prop}
    (h : ReachableBy rmp options (RollbackSafe rmp id) s) (hbound : s.nextSync ≤ 2 ^ 64)
    (hup : s.phase.up = true) (hroom : s.hasRoom = true) (htruthful : Truthful accepts s)
    (hopen : LeftOpen accepts s id)
    (hdrop : step rmp s (.caller (.dropStream id)) = some s') : RolledBack rmp s s' id := by
  have hreach : Reachable rmp options s := h.weaken
  have hlogin : ReachableBy rmp options LoginSafe s := h.mono fun _ _ hsafe => hsafe.login
  have hroutable := hlogin.routable
  have hledger := hreach.ledger
  have huntouched : TaskUntouched s s' := by
    cases step_move hdrop with
    | caller hmove => exact hmove.untouched
  simp only [step, callerStep, State.dropStream, Option.bind_eq_some_iff,
    Option.ite_none_right_eq_some] at hdrop
  obtain ⟨stream, hstream, ⟨-, hidle⟩, hdrop⟩ := hdrop
  have hflag := hopen.inTransaction hledger hreach.written hroutable.faithful
    (hroutable.routed hbound) (hreach.sequenced id) (h.attended (by omega)) htruthful
    (by simpa using hidle) hstream
  rw [if_pos hflag, Option.some.injEq] at hdrop
  obtain ⟨packet, hpacket⟩ : ∃ packet : Packet, packet =
    ⟨Request.rollback, syncOf s.nextSync, some (syncOf id), []⟩ := ⟨_, rfl⟩
  have hchannel : s'.channel = s.channel ++ [.fire packet s.nextSync] := by
    rw [← hdrop, hpacket]
    exact fireNow_channel_eq (s := s.setStream id _) hroom (some id) Request.rollback []
  have hqueued : OnItsWay s'.link s.nextSync s.sent.length packet s' := by
    refine .inl ⟨s.channel, [], hchannel, ?_⟩
    rw [huntouched.history, State.sent, List.length_append, Nat.add_comm]
  refine ⟨s.nextSync, packet, by rw [hpacket], by rw [hpacket], fun hmem => ?_, fun s'' hrun => ?_⟩
  · have hsource := hledger.source s.nextSync
    have hknown : s.known s.nextSync = 0 := by
      simp [State.known, hledger.fresh s.nextSync le_rfl]
    have hcarries : 0 < s.channel.countP (·.carries s.nextSync) :=
      List.countP_pos_iff.mpr ⟨_, hmem, by simp [Command.carries]⟩
    omega
  · have hway := hqueued.run (huntouched.phase ▸ hup) hrun
    rw [huntouched.link] at hway
    refine hway.imp_left ?_
    rintro ⟨before, after, hwaiting, hahead⟩
    exact ⟨by simp [hwaiting], by omega⟩

/-! ## Sample runs -/

def linkKept (id : Nat) (s : State) (event : Event) : Bool :=
  (s.streams id).isNone || !s.phase.up ||
    event.sends && (step fixintRmp s event).all fun t => t.phase.up

theorem linkKept_sound (id : Nat) (s : State) (event : Event) (h : linkKept id s event = true) :
    StreamServed fixintRmp id s event := by
  intro hknown hup
  obtain ⟨stream, hstream⟩ := Option.isSome_iff_exists.mp hknown
  simp only [linkKept, hstream, hup, Option.isNone_some, Bool.not_true, Bool.false_or,
    Bool.and_eq_true] at h
  refine ⟨h.1, fun s' hstep => ?_⟩
  simpa [hstep] using h.2

def rollbackSafe (id : Nat) (s : State) (event : Event) : Bool :=
  linkKept id s event && loginSafe s event &&
    match event with
    | .caller (.abandon n) => (s.calls n).all fun call =>
        !(decide (call.stream = some id) && decide (call.role = .begin)) ||
          decide (call.stage = .drawn)
    | _ => true

def firstAccepted (s : State) : Bool :=
  decide (s.sockets = 1) && (s.inbound 0).all fun inbound => inbound.answers.all fun i =>
    (outbound 0 s.history)[i]?.all fun
      | (.call n, _) => decide (inbound.response.kind = .ok) == decide (n = 1)
      | _ => true

theorem rollbackSafe_sound (id : Nat) (s : State) (event : Event)
    (h : rollbackSafe id s event = true) : RollbackSafe fixintRmp id s event := by
  simp only [rollbackSafe, Bool.and_eq_true] at h
  obtain ⟨⟨hserved, hlogin⟩, hawaited⟩ := h
  refine ⟨linkKept_sound id s event hserved, ?_, loginSafe_sound s event hlogin⟩
  unfold BeginAwaited
  split
  next n =>
    intro call hcall hstream hrole
    simpa [hcall, hstream, hrole] using hawaited
  · trivial

theorem firstAccepted_sound {rmp : Rmp} {options : ConnectOptions} {s : State}
    (hreach : ReachableBy rmp options LoginSafe s) (h : firstAccepted s = true) :
    Truthful (· = 1) s := by
  simp only [firstAccepted, Bool.and_eq_true, decide_eq_true_eq, List.all_eq_true] at h
  obtain ⟨hsockets, hall⟩ := h
  intro link inbound hmem i hi n packet hsent
  obtain rfl : link = 0 := by
    by_contra hlink
    have hnone := hreach.routable.wire.unopened link (by omega)
    simp [hnone] at hsent
  have hanswers : inbound.answers = some i := hi
  have hkind := hall inbound hmem
  simp only [hanswers, Option.all_some, hsent, beq_iff_eq] at hkind
  exact decide_eq_decide.mp hkind

def openBegin (s : State) : Bool :=
  decide (s.controlWrites 1 = [1]) && (s.calls 1).any fun call => decide (call.role = .begin)

theorem openBegin_sound {s : State} (h : openBegin s = true) : LeftOpen (· = 1) s 1 := by
  simp only [openBegin, Bool.and_eq_true, decide_eq_true_eq, Option.any_eq_true] at h
  obtain ⟨hwrites, call, hcall, hrole⟩ := h
  exact ⟨[], 1, [], call, hwrites, rfl, hcall, hrole, by simp⟩

theorem abandoned_transaction_rolled_back_sample :
    ∃ s s', ReachableBy fixintRmp {} (RollbackSafe fixintRmp 1) s ∧
      step fixintRmp s (.caller (.dropStream 1)) = some s' ∧ RolledBack fixintRmp s s' 1 := by
  obtain ⟨s, hreach, hcheck⟩ := reaches_of_guarded (step fixintRmp) (rollbackSafe 1)
    (rollbackSafe_sound 1) (.initial {}) sampleBegin
    (fun s => firstAccepted s && openBegin s && s.phase.up && s.hasRoom &&
      decide (s.nextSync = 2) && (step fixintRmp s (.caller (.dropStream 1))).isSome)
    (by decide +kernel)
  simp only [Bool.and_eq_true, decide_eq_true_eq, Option.isSome_iff_exists] at hcheck
  obtain ⟨⟨⟨⟨⟨hfirst, hbegin⟩, hup⟩, hroom⟩, hnext⟩, s', hdrop⟩ := hcheck
  have hlogin : ReachableBy fixintRmp {} LoginSafe s := hreach.mono fun _ _ hsafe => hsafe.login
  exact ⟨s, s', hreach, hdrop, abandoned_transaction_rolled_back hreach (by rw [hnext]; decide)
    hup hroom (firstAccepted_sound hlogin hfirst) (openBegin_sound hbegin) hdrop⟩

def noRollback (s : State) : Bool :=
  s.channel.isEmpty && s.history.all fun
    | .wrote _ _ packet _ => decide (packet.ty ≠ Request.rollback)
    | _ => true

/-- The caller of `begin` gives up after the command was written; the server begins
the transaction, and the drop of the stream leaves it open. -/
theorem abandoned_begin_not_rolled_back :
    ¬ ∀ rmp options s s' id accepts,
      ReachableBy rmp options (fun s event => StreamServed rmp id s event ∧ LoginSafe s event) s →
      s.nextSync ≤ 2 ^ 64 → s.phase.up = true → s.hasRoom = true → Truthful accepts s →
      LeftOpen accepts s id → step rmp s (.caller (.dropStream id)) = some s' →
      RolledBack rmp s s' id := by
  intro hall
  have hguard (s : State) (event : Event)
      (h : (linkKept 1 s event && loginSafe s event) = true) :
      StreamServed fixintRmp 1 s event ∧ LoginSafe s event := by
    rw [Bool.and_eq_true] at h
    exact ⟨linkKept_sound 1 s event h.1, loginSafe_sound s event h.2⟩
  obtain ⟨s, hreach, hcheck⟩ := reaches_of_guarded (step fixintRmp)
    (fun s event => linkKept 1 s event && loginSafe s event) hguard (.initial {})
    (sampleHandshake 0 [] ++ [Event.task (.drain .sent), .caller .openStream, .caller (.begin 1 {}),
      .caller (.submit 1), .task (.command .sent), .task (.drain .sent), .caller (.abandon 1),
      .server 0 ⟨{ kind := .ok, sync := 1 }, some 1⟩])
    (fun s => firstAccepted s && openBegin s && s.phase.up && s.hasRoom &&
      decide (s.nextSync = 2) && (step fixintRmp s (.caller (.dropStream 1))).any noRollback)
    (by decide +kernel)
  simp only [Bool.and_eq_true, decide_eq_true_eq, Option.any_eq_true] at hcheck
  obtain ⟨⟨⟨⟨⟨hfirst, hbegin⟩, hup⟩, hroom⟩, hnext⟩, s', hdrop, hnone⟩ := hcheck
  have hlogin : ReachableBy fixintRmp {} LoginSafe s := hreach.mono fun _ _ h => h.2
  obtain ⟨n, packet, hty, -, -, hrun⟩ := hall fixintRmp {} s s' 1 (· = 1) hreach
    (by rw [hnext]; decide) hup hroom (firstAccepted_sound hlogin hfirst)
    (openBegin_sound hbegin) hdrop
  simp only [noRollback, Bool.and_eq_true, List.isEmpty_iff, List.all_eq_true] at hnone
  rcases hrun s' .refl with ⟨hmem, -⟩ | ⟨result, hwrote⟩
  · simp [hnone.1] at hmem
  · simpa [hty] using hnone.2 _ hwrote

end Tarant.Connection
