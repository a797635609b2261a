import Tarant.Connection.Records
import Tarant.Connection.Settlement
import Tarant.Connection.Streams

/-!
# Transactions and sessions

A transaction lives in the session of the link that acknowledged its `begin`.
A `Stream` does not know that link: its requests go to whatever link is up, so
they stay with the transaction only as long as no other link comes up.
-/

namespace Tarant.Connection

open Foundation
open Iproto

/-! ## Where a reply comes from -/

theorem Handling.pending_source {t t' : Task} {link : Nat} {send : SendResult}
    {command : Command} {actions : List Action} {result : Except Error Unit}
    (h : Handling t link send command t' actions result) :
    ∀ entry ∈ t'.pending.entries, entry ∈ t.pending.entries ∨
      ∃ packet result, .wrote link (.call entry.2.ticket) packet result ∈ actions := by
  intro entry hentry
  cases h with
  | @requested sync packet ticket pushes =>
      rcases mem_entries_insert hentry with rfl | hold
      · exact .inr ⟨packet, send, List.mem_append_right _ List.mem_cons_self⟩
      · exact .inl hold
  | _ => exact .inl hentry

theorem Routing.pending_source {t t' : Task} {link : Nat} {alive : Nat → Bool}
    {ack : SendResult} {arrival : Arrival} {actions : List Action}
    (h : Routing t link alive ack arrival t' actions) :
    ∀ entry ∈ t'.pending.entries, entry ∈ t.pending.entries := by
  intro entry hentry
  cases h with
  | delivered => exact mem_entries_erase hentry
  | _ => exact hentry

theorem lose_pending (s : State) : s.lose.task.pending = ∅ := by
  simp only [State.lose]
  split <;> rfl

theorem Phase.not_up_of_attempt {phase : Phase} {delay : Option Nat}
    (h : phase.attempt = some delay) : phase.up = false := by
  cases phase <;> simp_all [Phase.attempt, Phase.up]

theorem TaskMove.pending_source {rmp : Rmp} {s s' : State} {event : TaskEvent}
    (h : TaskMove rmp s event s') (entry : Sigma fun _ : Nat => Pending)
    (hentry : entry ∈ s'.task.pending.entries) :
    (s'.phase.up = true ∧ ∃ packet result,
        .wrote s'.link (.call entry.2.ticket) packet result ∈ s'.history) ∨
      entry ∈ s.task.pending.entries ∧
        (s.phase.up = true → s'.phase.up = true ∧ s'.link = s.link) := by
  cases h with
  | drained => exact .inr ⟨hentry, fun _ => ⟨rfl, rfl⟩⟩
  | replayed _ _ hhandle =>
      rcases (handling_of_eq hhandle).pending_source entry hentry with
        hold | ⟨packet, result, hmem⟩
      · exact .inr ⟨hold, fun _ => ⟨rfl, rfl⟩⟩
      · exact .inl ⟨rfl, packet, result,
          List.mem_append_right _ (List.mem_cons_of_mem _ hmem)⟩
  | handled _ _ _ hhandle =>
      rcases (handling_of_eq hhandle).pending_source entry hentry with
        hold | ⟨packet, result, hmem⟩
      · exact .inr ⟨hold, fun _ => ⟨rfl, rfl⟩⟩
      · exact .inl ⟨rfl, packet, result,
          List.mem_append_right _ (List.mem_cons_of_mem _ hmem)⟩
  | handledLost | linkLost => simp [lose_pending] at hentry
  | received =>
      exact .inr ⟨(handleResponse_routing _ _ _ _ _).pending_source entry hentry,
        fun _ => ⟨rfl, rfl⟩⟩
  | replayFailed | closeCommand | channelClosed | receivedLast =>
      exact absurd hentry (List.not_mem_nil)
  | attemptFailed hphase | replyRejected _ hphase =>
      exact .inr ⟨hentry, by simp [Phase.not_up_of_attempt hphase]⟩
  | spawned hreply | reconnected hreply =>
      exact .inr ⟨hentry, by simp [Phase.not_up_of_attempt hreply.phase.2]⟩
  | woke hphase | closeWhileDown hphase | channelClosedWhileDown hphase | connected hphase
  | authenticated hphase | idAccepted hphase => exact .inr ⟨hentry, by simp [hphase, Phase.up]⟩
  | deferred hphase =>
      refine .inr ⟨?_, by simp [hphase, Phase.up]⟩
      simp only [State.perform, Task.defer] at hentry
      split at hentry <;> exact hentry

structure Written (s : State) : Prop where
  pending : ∀ entry ∈ s.task.pending.entries, s.phase.up = true ∧
    ∃ packet result, .wrote s.link (.call entry.2.ticket) packet result ∈ s.history
  replied : ∀ link n arrival, .answered link n (.reply arrival) ∈ s.history →
    arrival.link = link ∧ ∃ packet result, .wrote link (.call n) packet result ∈ s.history

theorem Written.moved {rmp : Rmp} {s s' : State} {event : TaskEvent} (h : Written s)
    (hmove : TaskMove rmp s event s') : Written s' := by
  obtain ⟨actions, hhistory, hrecorded⟩ := hmove.recorded
  constructor
  · intro entry hentry
    rcases hmove.pending_source entry hentry with hnew | ⟨hold, hkept⟩
    · exact hnew
    · obtain ⟨hup, packet, result, hmem⟩ := h.pending entry hold
      obtain ⟨hup', hlink⟩ := hkept hup
      refine ⟨hup', packet, result, ?_⟩
      rw [hlink, hhistory]
      exact List.mem_append_left _ hmem
  · intro link n arrival hmem
    rw [hhistory] at hmem ⊢
    rcases List.mem_append.mp hmem with hold | hnew
    · obtain ⟨hlink, packet, result, hwrote⟩ := h.replied link n arrival hold
      exact ⟨hlink, packet, result, List.mem_append_left _ hwrote⟩
    · obtain ⟨-, -, rfl, inbound, pending, -, rfl, -, hlookup, rfl⟩ := (hrecorded _ hnew).reply
      obtain ⟨-, packet, result, hwrote⟩ := h.pending _ (mem_entries_of_lookup hlookup)
      exact ⟨rfl, packet, result, List.mem_append_left _ hwrote⟩

theorem Reachable.written {rmp : Rmp} {options : ConnectOptions} {s : State}
    (h : Reachable rmp options s) : Written s := by
  refine h.task_invariant ?_ ?_ fun _ hwritten _ hmove => hwritten.moved hmove
  · constructor <;> simp [State.initial]
  · intro s s' hside hwritten
    constructor
    · rw [hside.task, hside.phase, hside.link, hside.history]
      exact hwritten.pending
    · rw [hside.history]
      exact hwritten.replied

theorem Sourced.call_packet {s : State} (h : Sourced s) {link n : Nat} {packet : Packet}
    {result : SendResult} {call : Call}
    (hwrote : .wrote link (.call n) packet result ∈ s.history) (hcall : s.calls n = some call) :
    packet = call.packet := by
  rcases h.history _ hwrote with ⟨_, _, -, other, hother, hpacket, -⟩ | ⟨other, hother, hpacket⟩
  · rw [← hpacket, Option.some.inj (hcall.symm.trans hother)]
  · rw [← hpacket, Option.some.inj (hcall.symm.trans hother)]

theorem answerOf_reply {n : Nat} {history : List Action} {answer : Answer} {arrival : Arrival}
    (h : answerOf n history = some answer) (hsuccess : answer.success = some arrival) :
    (∃ link, .answered link n (.reply arrival) ∈ history) ∧ arrival.response.kind ≠ .error := by
  cases answer with
  | reply arrival' =>
      simp only [Answer.success, Option.ite_none_left_eq_some, Option.some.injEq] at hsuccess
      obtain ⟨hkind, rfl⟩ := hsuccess
      refine ⟨?_, hkind⟩
      obtain ⟨action, hmem, haction⟩ := List.exists_of_findSome?_eq_some h
      cases action with
      | answered link ticket answer =>
          simp only [Option.ite_none_right_eq_some, Option.some.injEq] at haction
          obtain ⟨rfl, rfl⟩ := haction
          exact ⟨link, hmem⟩
      | discarded command => simp at haction
      | _ => simp at haction
  | _ => simp [Answer.success] at hsuccess

/-! ## What a call is part of -/

def BegunOn (s : State) (id link : Nat) : Prop :=
  ∃ n call result, s.calls n = some call ∧ call.stream = some id ∧ call.role = .begin ∧
    call.stage = .returned true ∧ .wrote link (.call n) call.packet result ∈ s.history

structure Recalls (s : State) : Prop where
  returned : ∀ n call, s.calls n = some call → call.stage = .returned true →
    call.alive = true ∧ ∃ link arrival, .answered link n (.reply arrival) ∈ s.history
  stream : ∀ id stream link, s.streams id = some stream → stream.transaction = some link →
    BegunOn s id link
  call : ∀ n call id link, s.calls n = some call → call.stream = some id →
    call.transaction = some link → BegunOn s id link

theorem BegunOn.grow {s s' : State} {id link : Nat} (h : BegunOn s id link)
    (hcalls : ∀ n call, s.calls n = some call → call.stage = .returned true →
      s'.calls n = some call)
    (hhistory : ∃ actions, s'.history = s.history ++ actions) : BegunOn s' id link := by
  obtain ⟨n, call, result, hcall, hstream, hrole, hstage, hwrote⟩ := h
  obtain ⟨actions, hhistory⟩ := hhistory
  refine ⟨n, call, result, hcalls n call hcall hstage, hstream, hrole, hstage, ?_⟩
  rw [hhistory]
  exact List.mem_append_left _ hwrote

theorem CallerMove.returned_eq {s s' : State} {event : CallerEvent} (hfresh : Fresh s)
    (h : CallerMove s event s') {n : Nat} {call : Call} (hcall : s.calls n = some call)
    (hstage : call.stage = .returned true) : s'.calls n = some call := by
  have hlt := (hfresh.bounds hcall).2
  have hchange := h.call_change n
  rw [hcall] at hchange
  generalize s'.calls n = new at hchange
  cases hchange with
  | same => rfl
  | issued hn | fired hn => omega
  | submitted hlive | failed hlive | abandoned hlive | succeeded hlive =>
      simp [Call.live, hstage] at hlive

theorem Recalls.issued {s s' : State} {event : CallerEvent} (h : Recalls s) (hfresh : Fresh s)
    (hwritten : Written s) (hsourced : Sourced s) (hmove : CallerMove s event s') :
    Recalls s' := by
  have hhistory := hmove.untouched.history
  have hgrow {id link : Nat} (hbegun : BegunOn s id link) : BegunOn s' id link :=
    hbegun.grow (fun _ _ => hmove.returned_eq hfresh) ⟨[], by simp [hhistory]⟩
  constructor
  · intro n call' hcall' hstage'
    rw [hhistory]
    have hchange := hmove.call_change n
    rw [hcall'] at hchange
    generalize hold : s.calls n = old at hchange
    cases hchange with
    | same => exact h.returned n call' hold hstage'
    | issued _ _ _ hstage => simp [hstage] at hstage'
    | fired _ _ hstage => exact absurd hstage' hstage
    | submitted | failed => simp at hstage'
    | abandoned hlive =>
        rcases (Call.live_iff.mp hlive).2 with hstage | hstage <;> simp [hstage] at hstage'
    | @succeeded call answer arrival hlive hanswer hsuccess =>
        obtain ⟨⟨link, hmem⟩, -⟩ := answerOf_reply hanswer hsuccess
        exact ⟨(Call.live_iff.mp hlive).1, link, arrival, hmem⟩
  · intro id stream' link hstream' htransaction
    have hchange := hmove.stream_change id
    rw [hstream'] at hchange
    generalize hold : s.streams id = old at hchange
    cases hchange with
    | same => exact hgrow (h.stream id stream' link hold htransaction)
    | opened => simp at htransaction
    | @dropped stream => exact hgrow (h.stream id stream link hold htransaction)
    | @settled stream n call answer arrival hrunning hanswer hsuccess hcall' =>
        cases hrole : call.role with
        | begin =>
            obtain rfl : arrival.link = link := by simpa [Stream.settle, hrole] using htransaction
            obtain ⟨⟨link, hmem⟩, -⟩ := answerOf_reply hanswer hsuccess
            obtain ⟨rfl, packet, result, hwrote⟩ := hwritten.replied link n arrival hmem
            obtain rfl := hsourced.call_packet hwrote hrunning.known
            exact ⟨n, _, result, hcall', hrunning.borrows, hrole, rfl, hhistory ▸ hwrote⟩
        | commit | rollback => simp [Stream.settle, hrole] at htransaction
        | plain | fire =>
            refine hgrow (h.stream id stream link hold ?_)
            simpa [Stream.settle, hrole] using htransaction
  · intro n call' id link hcall' hstream htransaction
    have hnew (hissued : call'.transaction = (call'.stream.bind s.streams).bind
        Stream.transaction) : BegunOn s' id link := by
      rw [hstream, htransaction, Option.bind_some, eq_comm, Option.bind_eq_some_iff] at hissued
      obtain ⟨stream, hknown, hopen⟩ := hissued
      exact hgrow (h.stream id stream link hknown hopen)
    have hchange := hmove.call_change n
    rw [hcall'] at hchange
    generalize hold : s.calls n = old at hchange
    cases hchange with
    | same => exact hgrow (h.call n call' id link hold hstream htransaction)
    | issued _ _ _ _ hissued => exact hnew hissued
    | fired _ _ _ hissued => exact hnew hissued
    | submitted | failed | abandoned | succeeded =>
        exact hgrow (h.call n _ id link hold hstream htransaction)

theorem Reachable.recalls {rmp : Rmp} {options : ConnectOptions} {s : State}
    (h : Reachable rmp options s) : Recalls s := by
  refine Reaches.invariant ?_ ?_ h
  · constructor <;> simp [State.initial]
  · intro s s' event hreach hrecalls _ hstep
    have hreachable : Reachable rmp options s := hreach
    -- calls and streams are the callers', and the history only grows
    have hkept (hcalls : s'.calls = s.calls) (hstreams : s'.streams = s.streams) :
        Recalls s' := by
      obtain ⟨actions, hhistory⟩ := history_grows (.next .refl trivial hstep)
      have hgrow {id link : Nat} (hbegun : BegunOn s id link) : BegunOn s' id link :=
        hbegun.grow (fun n call hcall _ => hcalls ▸ hcall) ⟨actions, hhistory⟩
      constructor
      · intro n call hcall hstage
        obtain ⟨halive, link, arrival, hmem⟩ :=
          hrecalls.returned n call (hcalls ▸ hcall) hstage
        exact ⟨halive, link, arrival, hhistory ▸ List.mem_append_left _ hmem⟩
      · intro id stream link hstream htransaction
        exact hgrow (hrecalls.stream id stream link (hstreams ▸ hstream) htransaction)
      · intro n call id link hcall hstream htransaction
        exact hgrow (hrecalls.call n call id link (hcalls ▸ hcall) hstream htransaction)
    cases step_move hstep with
    | caller hmove =>
        exact hrecalls.issued hreachable.ledger.toFresh hreachable.written hreachable.sourced
          hmove
    | task hmove => exact hkept hmove.untouched.calls hmove.untouched.streams
    | server => exact hkept rfl rfl

/-! ## Session affinity -/

/-- A request made within a transaction fails, or it goes over the link that
acknowledged the `begin` and over no other, also when its caller has given up. -/
def SessionAffine (s : State) (id : Nat) : Prop :=
  ∀ n call link, s.calls n = some call → call.stream = some id →
    call.transaction = some link → call.stage ≠ .returned false →
    BegunOn s id link ∧
      (∀ l packet result, .wrote l (.call n) packet result ∈ s.history → l = link) ∧
      (call.stage = .returned true → ∃ result, .wrote link (.call n) call.packet result ∈ s.history)

/-- The stream is in a transaction, its `begin` has succeeded and is about to return,
or a packet of the transaction is still to be written, whoever waits for it. -/
inductive InTransaction (s : State) (id : Nat) : Prop where
  | begun {stream : Stream} (hstream : s.streams id = some stream)
      (hopened : stream.opened = true) (hflag : stream.inTransaction = true)
  | acknowledged {n : Nat} {call : Call} {link : Nat} {arrival : Arrival}
      (hrunning : Running s id n call) (hrole : call.role = .begin)
      (hanswered : .answered link n (.reply arrival) ∈ s.history)
      (hkind : arrival.response.kind ≠ .error)
  | queued {n : Nat} {call : Call} {link : Nat} (hcall : s.calls n = some call)
      (hstream : call.stream = some id) (htransaction : call.transaction = some link)
      (hqueued : 0 < s.inQueues n)

/-- No handshake completes while the stream is in a transaction. -/
def SessionSafe (rmp : Rmp) (id : Nat) (s : State) (event : Event) : Prop :=
  Completes rmp s event → ¬ InTransaction s id

structure Session (s : State) (id : Nat) : Prop where
  begun : ∀ stream link, s.streams id = some stream → stream.opened = true →
    stream.transaction = some link → s.link = link
  acknowledged : ∀ n call link arrival, Running s id n call → call.role = .begin →
    .answered link n (.reply arrival) ∈ s.history → arrival.response.kind ≠ .error →
    s.link = arrival.link
  queued : ∀ n call link, s.calls n = some call → call.stream = some id →
    call.transaction = some link → 0 < s.inQueues n → s.link = link
  written : ∀ n call link, s.calls n = some call → call.stream = some id →
    call.transaction = some link → ∀ l packet result,
      .wrote l (.call n) packet result ∈ s.history → l = link

theorem Session.running {s : State} {id n link : Nat} {call : Call} (h : Session s id)
    (hborrows : Borrows s) (hrunning : Running s id n call)
    (htransaction : call.transaction = some link) : s.link = link := by
  obtain ⟨stream, hstream, hopened, hsame⟩ := hborrows.opened id n call hrunning
  exact h.begun stream link hstream hopened (hsame ▸ htransaction)

theorem Ledger.unused {s : State} (h : Ledger s) {n : Nat} (hn : s.calls n = none) :
    ∀ action ∈ s.history, action.writes n = false ∧ action.answers n = false := by
  have hknown : s.known n = 0 := by simp [State.known, hn]
  have hsource := h.source n
  have honce := h.once n
  have hbalance := h.balance n
  have hrequest := countP_takesRequest_le_takes n s.history
  have hwrites : s.history.countP (Action.writes n) = 0 := by omega
  have hanswers : s.history.countP (Action.answers n) = 0 := by omega
  rw [List.countP_eq_zero] at hwrites hanswers
  exact fun action hmem => ⟨by simpa using hwrites action hmem, by simpa using hanswers action hmem⟩

theorem Session.begun_issued {s s' : State} {event : CallerEvent} {id link : Nat} {stream' : Stream}
    (h : Session s id) (hmove : CallerMove s event s') (hstream' : s'.streams id = some stream')
    (hopened : stream'.opened = true) (htransaction : stream'.transaction = some link) :
    s.link = link := by
  have hchange := hmove.stream_change id
  rw [hstream'] at hchange
  generalize hold : s.streams id = old at hchange
  cases hchange with
  | same => exact h.begun stream' link hold hopened htransaction
  | opened => simp at htransaction
  | dropped => simp at hopened
  | @settled stream n call answer arrival hrunning hanswer hsuccess =>
      cases hrole : call.role with
      | begin =>
          obtain rfl : arrival.link = link := by simpa [Stream.settle, hrole] using htransaction
          obtain ⟨⟨l, hmem⟩, hkind⟩ := answerOf_reply hanswer hsuccess
          exact h.acknowledged n call l arrival hrunning hrole hmem hkind
      | commit | rollback => simp [Stream.settle, hrole] at htransaction
      | plain | fire =>
          simp only [Stream.settle, hrole] at hopened htransaction
          exact h.begun stream link hold hopened htransaction

theorem Session.queued_issued {s s' : State} {event : CallerEvent} {id n link : Nat} {call' : Call}
    (h : Session s id) (hborrows : Borrows s) (hledger : Ledger s)
    (hmove : CallerMove s event s') (hcall' : s'.calls n = some call')
    (hstream : call'.stream = some id) (htransaction : call'.transaction = some link)
    (hqueued : 0 < s'.inQueues n) : s.link = link := by
  have hcount := hmove.inQueues hledger.toFresh n
  have hchange := hmove.call_change n
  rw [hcall'] at hchange
  generalize hold : s.calls n = old at hchange
  -- a running call belongs to a transaction that is still open
  have hrunning {call : Call} (hcall : old = some call) (hlive : call.live = true)
      (hborrows' : call.stream = some id) (hsame : call.transaction = some link) :
      s.link = link :=
    h.running hborrows ⟨hold.trans hcall, hborrows', hlive⟩ hsame
  cases hchange with
  | same =>
      refine h.queued n call' link hold hstream htransaction ?_
      simp only [State.drawn, State.known, hold, hcall'] at hcount
      omega
  | issued hn _ _ hstage =>
      obtain rfl : old = none := hold.symm.trans (hledger.fresh n hn.ge)
      have hsource := hledger.source n
      have honce := hledger.once n
      have hknown : s.known n = 0 := by simp [State.known, hold]
      have hknown' : s'.known n = 1 := by simp [State.known, hcall']
      have hdrawn' : s'.drawn n = 1 := by simp [State.drawn, hcall', hstage]
      have hbefore : s.inQueues n = s.channel.countP (·.carries n) +
        s.task.deferred.countP (·.carries n) := rfl
      omega
  | fired hn _ _ hissued hopened =>
      obtain ⟨stream, hknown, hopened⟩ := hopened id hstream
      rw [hstream, Option.bind_some, hknown, Option.bind_some] at hissued
      exact h.begun stream link hknown hopened (hissued.symm.trans htransaction)
  | submitted hlive | failed hlive | abandoned hlive | succeeded hlive =>
      exact hrunning rfl hlive hstream htransaction

theorem Session.issued {s s' : State} {event : CallerEvent} {id : Nat} (h : Session s id)
    (hborrows : Borrows s) (hledger : Ledger s) (hmove : CallerMove s event s') :
    Session s' id := by
  have hhistory := hmove.untouched.history
  have hlink := hmove.untouched.link
  have hunused := hledger.unused (hledger.fresh s.nextSync le_rfl)
  constructor
  · intro stream' link hstream' hopened htransaction
    rw [hlink]
    exact h.begun_issued hmove hstream' hopened htransaction
  · intro n call' link arrival hrunning' hrole hmem hkind
    rw [hlink]
    rw [hhistory] at hmem
    rcases hrunning'.back (hmove.call_change n) with ⟨call, hrunning, hsame, -⟩ | ⟨rfl, -⟩
    · exact h.acknowledged n call link arrival hrunning (hsame.trans hrole) hmem hkind
    · simpa [Action.answers] using (hunused _ hmem).2
  · intro n call' link hcall' hstream htransaction hqueued
    rw [hlink]
    exact h.queued_issued hborrows hledger hmove hcall' hstream htransaction hqueued
  · intro n call' link hcall' hstream htransaction l packet result hmem
    rw [hhistory] at hmem
    have hchange := hmove.call_change n
    rw [hcall'] at hchange
    generalize hold : s.calls n = old at hchange
    cases hchange with
    | same => exact h.written n call' link hold hstream htransaction l packet result hmem
    | issued hn | fired hn =>
        subst hn
        simpa [Action.writes] using (hunused _ hmem).1
    | submitted | failed | abandoned | succeeded =>
        exact h.written n _ link hold hstream htransaction l packet result hmem

theorem Session.moved {rmp : Rmp} {s s' : State} {event : TaskEvent} {id : Nat}
    (h : Session s id) (hborrows : Borrows s) (hmove : TaskMove rmp s event s')
    (hsafe : SessionSafe rmp id s (.task event)) : Session s' id := by
  obtain ⟨actions, hhistory, hrecorded⟩ := hmove.recorded
  obtain ⟨actions', hentries⟩ := hmove.accounted
  obtain rfl := List.append_cancel_left (hhistory.symm.trans hentries.history)
  have hcalls := hmove.untouched.calls
  have hstreams := hmove.untouched.streams
  have hlink (hopen : InTransaction s id) : s'.link = s.link :=
    hmove.link_eq.resolve_right fun hcompletes => hsafe hcompletes hopen
  constructor
  · intro stream link hstream hopened htransaction
    rw [hstreams] at hstream
    have hflag : stream.inTransaction = true := by
      simp [hborrows.flag id stream hstream, htransaction]
    rw [hlink (.begun hstream hopened hflag)]
    exact h.begun stream link hstream hopened htransaction
  · intro n call link arrival hrunning' hrole hmem hkind
    have hrunning : Running s id n call :=
      ⟨hcalls ▸ hrunning'.known, hrunning'.borrows, hrunning'.live⟩
    rw [hhistory] at hmem
    rcases List.mem_append.mp hmem with hold | hnew
    · rw [hlink (.acknowledged hrunning hrole hold hkind)]
      exact h.acknowledged n call link arrival hrunning hrole hold hkind
    · obtain ⟨-, hsame, rfl, inbound, pending, -, rfl, -⟩ := (hrecorded _ hnew).reply
      exact hsame
  · intro n call link hcall hstream htransaction hqueued
    rw [hcalls] at hcall
    have hbefore : 0 < s.inQueues n := by
      have := hentries.inQueues n
      omega
    rw [hlink (.queued hcall hstream htransaction hbefore)]
    exact h.queued n call link hcall hstream htransaction hbefore
  · intro n call link hcall hstream htransaction l packet result hmem
    rw [hcalls] at hcall
    rw [hhistory] at hmem
    rcases List.mem_append.mp hmem with hold | hnew
    · exact h.written n call link hcall hstream htransaction l packet result hold
    · -- what is written now was in the queues before
      obtain ⟨-, rfl⟩ := (hrecorded _ hnew).call_write
      have hwrites : 0 < actions.countP (Action.writes n) :=
        List.countP_pos_iff.mpr ⟨_, hnew, by simp [Action.writes]⟩
      have hbefore := hentries.inQueues n
      exact h.queued n call link hcall hstream htransaction (by omega)

theorem ReachableBy.session {rmp : Rmp} {options : ConnectOptions} {id : Nat} {s : State}
    (h : ReachableBy rmp options (SessionSafe rmp id) s) : Session s id := by
  refine Reaches.invariant (I := fun s => Session s id) ?_ ?_ h
  · constructor <;> simp [State.initial]
  · intro s s' event hreach hsession hsafe hstep
    have hreachable : Reachable rmp options s := hreach.weaken
    cases step_move hstep with
    | caller hmove => exact hsession.issued hreachable.borrows hreachable.ledger hmove
    | task hmove => exact hsession.moved hreachable.borrows hmove hsafe
    | server =>
        exact ⟨hsession.begun, fun n call link arrival hrunning =>
          hsession.acknowledged n call link arrival
            ⟨hrunning.known, hrunning.borrows, hrunning.live⟩, hsession.queued, hsession.written⟩

/--
Every request of a transaction goes over the link that acknowledged its
`begin`, or fails, in every run in which no handshake completes while the stream
is in a transaction.
-/
theorem transaction_keeps_session {rmp : Rmp} {options : ConnectOptions} {id : Nat} {s : State}
    (h : ReachableBy rmp options (SessionSafe rmp id) s) : SessionAffine s id := by
  have hreachable : Reachable rmp options s := h.weaken
  intro n call link hcall hstream htransaction _
  have hwritten := h.session.written n call link hcall hstream htransaction
  refine ⟨hreachable.recalls.call n call id link hcall hstream htransaction, hwritten, ?_⟩
  intro hstage
  obtain ⟨-, l, arrival, hanswered⟩ := hreachable.recalls.returned n call hcall hstage
  obtain ⟨-, packet, result, hwrote⟩ := hreachable.written.replied l n arrival hanswered
  obtain rfl := hreachable.sourced.call_packet hwrote hcall
  obtain rfl := hwritten _ _ _ hwrote
  exact ⟨result, hwrote⟩

def sampleExchange (call : CallerEvent) (link ticket place : Nat) : List Event :=
  [.caller call, .caller (.submit ticket), .task (.command .sent), .task (.drain .sent),
    .server link ⟨{ kind := .ok, sync := ticket }, some place⟩, .task (.packet .sent),
    .task (.drain .sent), .caller (.finish ticket)]

def sampleBegin : List Event :=
  sampleHandshake 0 [] ++ [Event.task (.drain .sent), .caller .openStream] ++
    sampleExchange (.begin 1 {}) 0 1 1

def sessionSafe (id : Nat) (s : State) : Event → Bool
  | .task (.handshakeReply _ _) =>
      (s.streams id).isNone && s.channel.isEmpty && s.task.deferred.isEmpty &&
        s.history.all fun | .answered _ _ _ => false | _ => true
  | _ => true

theorem sessionSafe_sound (rmp : Rmp) (id : Nat) (s : State) (event : Event)
    (h : sessionSafe id s event = true) : SessionSafe rmp id s event := by
  rintro ⟨order, send, _, _, _, _, rfl, -, -⟩ hopen
  simp only [sessionSafe, Bool.and_eq_true, List.all_eq_true] at h
  cases hopen with
  | begun hstream => simp [hstream] at h
  | acknowledged _ _ hanswered => simpa using h.2 _ hanswered
  | queued _ _ _ hqueued => simp_all [State.inQueues]

def returnedOver (ticket link : Nat) (s : State) : Bool :=
  (s.calls ticket).any (fun call => decide (call.stream = some 1 ∧
    call.transaction = some 0 ∧ call.stage = .returned true)) &&
  s.history.any fun | .wrote l (.call n) _ _ => l == link && n == ticket | _ => false

theorem returnedOver_iff {ticket link : Nat} {s : State} (h : returnedOver ticket link s = true) :
    (∃ call, s.calls ticket = some call ∧ call.stream = some 1 ∧ call.transaction = some 0 ∧
      call.stage = .returned true) ∧
    ∃ packet result, .wrote link (.call ticket) packet result ∈ s.history := by
  simp only [returnedOver, Bool.and_eq_true, Option.any_eq_true, decide_eq_true_eq,
    List.any_eq_true] at h
  obtain ⟨hcall, action, hmem, haction⟩ := h
  refine ⟨hcall, ?_⟩
  split at haction
  next l n packet result =>
    simp only [Bool.and_eq_true, beq_iff_eq] at haction
    obtain ⟨rfl, rfl⟩ := haction
    exact ⟨packet, result, hmem⟩
  · contradiction

theorem transaction_keeps_session_sample :
    ∃ s, ReachableBy fixintRmp {} (SessionSafe fixintRmp 1) s ∧
      returnedOver 2 0 s = true ∧ SessionAffine s 1 := by
  obtain ⟨s, hreach, hcheck⟩ := reaches_of_guarded (step fixintRmp) (sessionSafe 1)
    (sessionSafe_sound fixintRmp 1) (.initial {})
    (sampleBegin ++ sampleExchange (.call (some 1) 0x0a [] false) 0 2 2)
    (returnedOver 2 0) (by decide +kernel)
  exact ⟨s, hreach, hcheck, transaction_keeps_session hreach⟩

/-- The link is lost between two requests of a transaction, and the second one is
executed outside of it. -/
theorem transaction_continues_on_new_link :
    ¬ ∀ rmp options s id, Reachable rmp options s → SessionAffine s id := by
  intro hall
  obtain ⟨s, hreach, hcheck⟩ := reaches_of_check (step fixintRmp) (.initial {})
    (sampleBegin ++ [Event.task (.linkError .closed), .task .wake] ++ sampleHandshake 1 [] ++
      [Event.task (.drain .sent)] ++
      sampleExchange (.call (some 1) 0x0a [] false) 1 2 1)
    (returnedOver 2 1) (by decide +kernel)
  obtain ⟨⟨call, hcall, hstream, htransaction, hstage⟩, packet, result, hwrote⟩ :=
    returnedOver_iff hcheck
  have hlink := (hall fixintRmp {} s 1 hreach 2 call 0 hcall hstream htransaction
    (by simp [hstage])).2.1 1 packet result hwrote
  omega

end Tarant.Connection
