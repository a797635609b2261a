import Tarant.Foundation.Progress
import Tarant.Connection.Outage
import Tarant.Connection.Ordering
import Tarant.Connection.Pushes

/-!
# The connection can always end

Whatever has happened, the task can be brought to its end without the server and with no
more from callers than a `Close`, and at its end every request that was sent has its answer:
nobody is left waiting.
-/

namespace Tarant.Connection

open Foundation

/-! ## Steps that need nobody else -/

/-- What the task can do on its own, when its link fails or cannot be opened, and a `Close`. -/
def Event.Unaided : Event → Prop
  | .caller .close => True
  | .task (.drain _) | .task (.linkError _) => True
  | .task .reconnectCommand | .task (.handshakeFailed _) => True
  | _ => False

/-- The steps of a reconnect loop that takes the channel up to the first `Close`, which a
caller may have to send. -/
def stepsToClose : List Command → Nat
  | [] => 1
  | .close :: _ => 0
  | _ :: rest => stepsToClose rest + 2

def State.stepsToEnd (s : State) : Nat :=
  match s.phase with
  | .done => 0
  | .backoff _ => stepsToClose s.channel + 1
  | .drain => stepsToClose s.channel + s.task.deferred.length + 3
  | _ => stepsToClose s.channel + 2

theorem stepsToClose_cons {command : Command} (h : command ≠ .close) (rest : List Command) :
    stepsToClose (command :: rest) = stepsToClose rest + 2 := by
  cases command <;> first | rfl | exact absurd rfl h

theorem stepsToEnd_done {s : State} (h : s.phase = .done) : s.stepsToEnd = 0 := by
  rw [State.stepsToEnd, h]

theorem retry_nearer {s : State} {delay : Option Nat} (hattempt : s.phase.attempt = some delay)
    (hpersistent : Persistent s) :
    ∃ s', s.retry delay = some s' ∧ s'.stepsToEnd < s.stepsToEnd := by
  have hrank : s.stepsToEnd = stepsToClose s.channel + 2 := by
    cases hphase : s.phase <;> simp_all [Phase.attempt, State.stepsToEnd]
  obtain ⟨phase, hafter, hretry⟩ := hpersistent.retry hattempt rfl
  refine ⟨_, hretry, ?_⟩
  rw [hrank]
  obtain ⟨-, rfl | ⟨-, delay, rfl⟩⟩ := afterFailure_cases hafter
  · exact Nat.succ_pos _
  · exact Nat.lt_succ_self _

theorem drainStep_nearer {s : State} (hphase : s.phase = .drain) (send : SendResult) :
    (s.drainStep send).stepsToEnd < s.stepsToEnd := by
  have hrank : s.stepsToEnd = stepsToClose s.channel + s.task.deferred.length + 3 := by
    rw [State.stepsToEnd, hphase]
  unfold State.drainStep
  split
  next hdeferred =>
    rw [hrank]
    change stepsToClose s.channel + 2 < _
    omega
  next command rest hdeferred =>
    rw [hrank, hdeferred, List.length_cons]
    rcases hhandle : (s.task.setDeferred rest).handleCommand s.link send command with
      ⟨t, actions, result⟩
    have hrest : t.deferred = rest := (handling_of_eq hhandle).deferred_eq
    cases result with
    | ok _ =>
        change stepsToClose s.channel + t.deferred.length + 3 < _
        rw [hrest]
        omega
    | error err =>
        change stepsToClose s.channel + 2 < _
        omega

theorem lose_nearer {s : State} (hphase : s.phase = .select) :
    s.lose.stepsToEnd < s.stepsToEnd := by
  have hrank : s.stepsToEnd = stepsToClose s.channel + 2 := by
    rw [State.stepsToEnd, hphase]
  rw [hrank]
  simp only [State.lose]
  split
  · exact Nat.lt_succ_self _
  · exact Nat.succ_pos _

theorem reconnectCommand_eq {s : State} {command : Command} {rest : List Command}
    (hchannel : s.channel = command :: rest) (hclose : command ≠ .close) (delay : Nat) :
    s.reconnectCommand delay = some ((s.takeCommand command rest).perform
      (s.task.defer s.link command).1 (s.task.defer s.link command).2
      (.connecting (some delay))) := by
  rw [State.reconnectCommand, hchannel]
  cases command <;> first | rfl | exact absurd rfl hclose

theorem backoff_nearer (rmp : Rmp) {s : State} {delay : Nat} (hphase : s.phase = .backoff delay) :
    ∃ event s', event.Unaided ∧ step rmp s event = some s' ∧
      s'.stepsToEnd < s.stepsToEnd := by
  have hrank : s.stepsToEnd = stepsToClose s.channel + 1 := by
    rw [State.stepsToEnd, hphase]
  have htask : step rmp s (.task .reconnectCommand) = s.reconnectCommand delay := by
    simp only [step, taskStep, hphase]
  cases hchannel : s.channel with
  | nil =>
      cases hhandles : s.handles with
      | false =>
          refine ⟨.task .reconnectCommand, s.giveUp, trivial, htask.trans ?_, ?_⟩
          · simp [State.reconnectCommand, hchannel, hhandles]
          · rw [hrank, stepsToEnd_done rfl]
            exact Nat.succ_pos _
      | true =>
          have hroom : s.hasRoom = true := by
            simp [State.hasRoom, hphase, hchannel, channelCapacity]
          refine ⟨.caller .close, { s with channel := s.channel ++ [.close] }, trivial, ?_, ?_⟩
          · exact if_pos ⟨hhandles, hroom⟩
          · rw [hrank, State.stepsToEnd, hphase, hchannel]
            exact Nat.lt_succ_self _
  | cons command rest =>
      by_cases hclose : command = .close
      · subst hclose
        refine ⟨.task .reconnectCommand, (s.takeCommand .close rest).giveUp, trivial,
          htask.trans ?_, ?_⟩
        · simp only [State.reconnectCommand, hchannel]
        · rw [hrank, stepsToEnd_done rfl]
          exact Nat.succ_pos _
      · refine ⟨.task .reconnectCommand, _, trivial,
          htask.trans (reconnectCommand_eq hchannel hclose delay), ?_⟩
        rw [hrank, hchannel, stepsToClose_cons hclose]
        exact Nat.lt_succ_self _

theorem Reachable.nearer {rmp : Rmp} {options : ConnectOptions} {s : State}
    (h : Reachable rmp options s) (hlive : s.phase ≠ .done) :
    ∃ event s', event.Unaided ∧ step rmp s event = some s' ∧ s'.stepsToEnd < s.stepsToEnd := by
  have hattempt {delay : Option Nat} (hdelay : s.phase.attempt = some delay)
      (hstep : step rmp s (.task (.handshakeFailed .closed)) = s.retry delay) :
      ∃ event s', event.Unaided ∧ step rmp s event = some s' ∧
        s'.stepsToEnd < s.stepsToEnd := by
    obtain ⟨s', hretry, hlt⟩ := retry_nearer hdelay h.persistent
    exact ⟨.task (.handshakeFailed .closed), s', trivial, hstep.trans hretry, hlt⟩
  cases hphase : s.phase with
  | connecting | authenticating | awaitingId | awaitingAuth =>
      exact hattempt (by rw [hphase]; rfl) (by simp only [step, taskStep, hphase])
  | drain =>
      refine ⟨.task (.drain .sent), s.drainStep .sent, trivial, ?_, drainStep_nearer hphase _⟩
      simp only [step, taskStep, hphase, if_true]
  | select =>
      refine ⟨.task (.linkError .closed), s.lose, trivial, ?_, lose_nearer hphase⟩
      simp only [step, taskStep, hphase, if_true]
  | backoff delay => exact backoff_nearer rmp hphase
  | done => exact absurd hphase hlive

/-! ## Before `Handle::connect` returns -/

structure Unopened (s : State) : Prop where
  handles : s.handles = false
  calls : ∀ n, s.calls n = none
  streams : ∀ id, s.streams id = none
  watching : ∀ watcher, s.watching watcher = none
  channel : s.channel = []
  watchers : s.task.watchers = ∅

theorem Unopened.callerStep {s : State} (h : Unopened s) (event : CallerEvent) :
    callerStep s event = none := by
  have hissue (role : Role) (stream : Option Nat) (ty : Nat) (body : List (Nat × Field))
      (pushes : Bool) : s.issueIfAllowed role stream ty body pushes = none := by
    cases stream <;> simp [State.issueIfAllowed, State.mayIssue, h.handles, h.streams]
  cases event with
  | call | begin | commit | rollback => simp [Connection.callerStep, hissue]
  | submit | abandon | finish =>
      simp [Connection.callerStep, State.submit, State.abandon, State.finish, h.calls]
  | fire | openStream | watch | close | dropHandles => simp [Connection.callerStep, h.handles]
  | dropStream => simp [Connection.callerStep, State.dropStream, h.streams]
  | submitWatch | resolveWatch | dropWatch =>
      simp [Connection.callerStep, State.submitWatch, State.resolveWatch, State.dropWatch,
        h.watching]

theorem Unopened.of_eq {s s' : State} (h : Unopened s) (hhandles : s'.handles = s.handles)
    (hchannel : s'.channel = s.channel) (htask : s'.task = s.task)
    (huntouched : CallersUntouched s s') : Unopened s' where
  handles := hhandles.trans h.handles
  calls n := by rw [huntouched.calls, h.calls]
  streams id := by rw [huntouched.streams, h.streams]
  watching watcher := by rw [huntouched.watching, h.watching]
  channel := hchannel.trans h.channel
  watchers := by rw [htask, h.watchers]

structure Emptied (s : State) : Prop where
  opening : s.phase.first → Unopened s
  ended : s.phase = .done → s.channel = [] ∧ s.task.watchers = ∅

theorem Emptied.of_up {s : State} (hup : s.phase.up = true) : Emptied s where
  opening hfirst := by cases hphase : s.phase <;> simp_all [Phase.up, Phase.first, Phase.attempt]
  ended hdone := by simp [hdone, Phase.up] at hup

theorem Emptied.of_ended {s : State} (hphase : s.phase = .done)
    (hempty : s.channel = [] ∧ s.task.watchers = ∅) : Emptied s where
  opening hfirst := by simp [hphase, Phase.first, Phase.attempt] at hfirst
  ended _ := hempty

theorem Emptied.of_delay {s : State} {delay : Nat} (hdelay : s.phase.delay? = some delay) :
    Emptied s where
  opening hfirst := by
    rw [(delay?_of_attempt hfirst).1] at hdelay
    cases hdelay
  ended hdone := by
    rw [hdone] at hdelay
    cases hdelay

theorem lose_emptied (s : State) : Emptied s.lose := by
  simp only [State.lose]
  split
  · exact .of_delay rfl
  · exact .of_ended rfl ⟨rfl, rfl⟩

theorem Emptied.failed {s s' : State} {delay : Option Nat} {phase : Phase} (h : Emptied s)
    (hattempt : s.phase.attempt = some delay)
    (hafter : Phase.afterFailure s.options delay = some phase) (hphase : s'.phase = phase)
    (hchannel : s'.channel = s.channel) (htask : s'.task = s.task) : Emptied s' := by
  cases delay with
  | none =>
      cases hafter
      have hopening := h.opening hattempt
      refine .of_ended hphase ⟨hchannel.trans hopening.channel, ?_⟩
      rw [htask, hopening.watchers]
  | some delay =>
      simp only [Phase.afterFailure] at hafter
      split at hafter
      · cases hafter
        exact .of_delay (by rw [hphase]; rfl)
      · cases hafter

theorem Emptied.of_attempt {s s' : State} {delay : Option Nat} (h : Emptied s)
    (hbefore : s.phase.attempt = some delay) (hafter : s'.phase.attempt = some delay)
    (hhandles : s'.handles = s.handles) (hchannel : s'.channel = s.channel)
    (htask : s'.task = s.task) (huntouched : CallersUntouched s s') : Emptied s' where
  opening hfirst := by
    have hopening := h.opening (hbefore.trans (hafter.symm.trans hfirst))
    exact hopening.of_eq hhandles hchannel htask huntouched
  ended hdone := by simp [hdone, Phase.attempt] at hafter

theorem Emptied.moved {rmp : Rmp} {s s' : State} {event : TaskEvent} (h : Emptied s)
    (hmove : TaskMove rmp s event s') : Emptied s' := by
  have huntouched := hmove.untouched
  cases hmove with
  | drained | replayed | replayFailed | handled | received | spawned | reconnected =>
      exact .of_up rfl
  | handledLost | linkLost => exact lose_emptied _
  | closeCommand | channelClosed | receivedLast | closeWhileDown | channelClosedWhileDown =>
      exact .of_ended rfl ⟨rfl, rfl⟩
  | woke | deferred => exact .of_delay rfl
  | attemptFailed hattempt hafter => exact h.failed hattempt hafter rfl rfl rfl
  | replyRejected hsocket hattempt hafter => exact h.failed hattempt hafter rfl rfl rfl
  | @connected delay version send phase hphase hafter =>
      have hattempt : s.phase.attempt = some delay := by rw [hphase]; rfl
      rcases afterSend_cases hafter with ⟨-, rfl⟩ | hfailed
      · exact h.of_attempt hattempt (greeted_phase s delay version).2.1 rfl rfl rfl huntouched
      · exact h.failed hattempt hfailed rfl rfl rfl
  | @authenticated delay socket version user scramble send phase hphase huser hafter =>
      have hattempt : s.phase.attempt = some delay := by rw [hphase]; rfl
      rcases afterSend_cases hafter with ⟨-, rfl⟩ | hfailed
      · exact h.of_attempt hattempt rfl rfl rfl rfl huntouched
      · exact h.failed hattempt hfailed rfl rfl rfl
  | idAccepted hphase => exact h.of_attempt (by rw [hphase]; rfl) rfl rfl rfl rfl huntouched

theorem CallerMove.channel_ended {s s' : State} {event : CallerEvent} (h : CallerMove s event s')
    (hdone : s.phase = .done) : s'.channel = s.channel := by
  have hfull : s.hasRoom = false := by simp [State.hasRoom, hdone]
  cases h with
  | submitted _ _ _ hroom | watchSubmitted _ _ _ hroom | watcherDropped _ _ _ hroom
  | closeSent hroom =>
      rw [hfull] at hroom
      cases hroom
  | succeeded =>
      obtain ⟨streams, heq⟩ := settleStream_eq _ _ _
      rw [heq]
      rfl
  | fired hbase =>
      cases hbase with
      | client => simp [State.fireNow, hfull, State.issue]
      | stream => simp [State.fireNow, State.hasRoom, State.setStream, hdone, State.issue]
  | _ => rfl

theorem Reachable.emptied {rmp : Rmp} {options : ConnectOptions} {s : State}
    (h : Reachable rmp options s) : Emptied s := by
  refine Reaches.invariant ⟨fun _ => ?_, fun hdone => ?_⟩ ?_ h
  · exact ⟨rfl, fun _ => rfl, fun _ => rfl, fun _ => rfl, rfl, rfl⟩
  · cases hdone
  · intro s s' event _ hemptied _ hstep
    cases event with
    | caller event =>
        have hmove := callerStep_move hstep
        constructor
        · intro hfirst
          rw [hmove.untouched.phase] at hfirst
          cases ((hemptied.opening hfirst).callerStep event).symm.trans hstep
        · intro hdone
          rw [hmove.untouched.phase] at hdone
          rw [hmove.channel_ended hdone, hmove.untouched.task]
          exact hemptied.ended hdone
    | task event => exact hemptied.moved (taskStep_move hstep)
    | server link inbound =>
        cases step_move hstep with
        | server =>
            refine ⟨fun hfirst => ?_, hemptied.ended⟩
            obtain ⟨hhandles, hcalls, hstreams, hwatching, hchannel, hwatchers⟩ :=
              hemptied.opening hfirst
            exact ⟨hhandles, hcalls, hstreams, hwatching, hchannel, hwatchers⟩

/-! ## What was sent is received -/

theorem handled_sent {s : State} {command : Command} {rest : List Command} {send : SendResult}
    {t : Task} {actions : List Action} {result : Except Error Unit} {phase : Phase}
    (hchannel : s.channel = command :: rest)
    (hhandling : Handling s.task s.link send command t actions result) :
    ((s.takeCommand command rest).perform t (.handled s.link command :: actions) phase).sent =
      s.sent := by
  have hlocal : received actions = [] := received_local hhandling.isLocal
  have hquiet : received (.handled s.link command :: actions) = [] := hlocal
  rw [State.sent, State.sent, hchannel, State.perform, State.takeCommand, received_append, hquiet,
    List.append_nil, received_append, List.append_assoc]
  rfl

theorem TaskMove.sent {rmp : Rmp} {s s' : State} {event : TaskEvent}
    (h : TaskMove rmp s event s') : s'.sent = s.sent := by
  cases event with
  | command send =>
      cases h with
      | handled hphase hchannel hclose hhandle =>
          exact handled_sent hchannel (handling_of_eq hhandle)
      | handledLost hphase hchannel hclose hhandle =>
          exact (lose_flows _).sent.trans (handled_sent hchannel (handling_of_eq hhandle))
      | closeCommand hphase hchannel =>
          exact ((takeClose_flows hchannel).trans (closeDown_flows _ _)).sent
      | channelClosed => exact (closeDown_flows s _).sent
  | _ => exact (h.flows trivial).sent

theorem Reachable.sent_issued {rmp : Rmp} {options : ConnectOptions} {s s' : State}
    {event : CallerEvent} (h : Reachable rmp options s) (hmove : CallerMove s event s') :
    s.sent <+: s'.sent := by
  obtain ⟨added, hsends⟩ := hmove.sends (h.ledger.fresh _ le_rfl) (h.sourced.fresh _ le_rfl)
  rw [State.sent, State.sent, hmove.untouched.history, hsends.channel, ← List.append_assoc]
  exact List.prefix_append _ _

theorem Reachable.sent_grows {rmp : Rmp} {options : ConnectOptions} {s t : State}
    (h : Reachable rmp options s) (hlater : Reaches (step rmp) anyStep s t) :
    s.sent <+: t.sent := by
  refine Reaches.invariant (I := fun t => s.sent <+: t.sent) (List.prefix_refl _) ?_ hlater
  intro t t' event hreach hgrows _ hstep
  have hreachable : Reachable rmp options t := Reaches.trans h hreach
  cases step_move hstep with
  | caller hmove => exact hgrows.trans (hreachable.sent_issued hmove)
  | task hmove => rwa [hmove.sent]
  | server => exact hgrows

/-! ## The commands of calls -/

def CallsSent (s : State) : Prop :=
  ∀ n call, s.calls n = some call → call.alive = true → call.stage = .queued →
    call.command n ∈ s.sent

theorem CallsSent.of_eq {s s' : State} (h : CallsSent s) (hcalls : s'.calls = s.calls)
    (hsent : s.sent <+: s'.sent) : CallsSent s' := by
  intro n call hcall halive hstage
  rw [hcalls] at hcall
  exact hsent.subset (h n call hcall halive hstage)

theorem CallsSent.of_update {s s' : State} {ticket : Nat} {call' : Call} (h : CallsSent s)
    (hcalls : s'.calls = Function.update s.calls ticket (some call')) (hsent : s.sent <+: s'.sent)
    (hnew : call'.alive = true → call'.stage = .queued → call'.command ticket ∈ s'.sent) :
    CallsSent s' := by
  intro n call hcall halive hstage
  rw [hcalls] at hcall
  by_cases hn : n = ticket
  · subst hn
    rw [Function.update_self] at hcall
    obtain rfl := Option.some.inj hcall
    exact hnew halive hstage
  · rw [Function.update_of_ne hn] at hcall
    exact hsent.subset (h n call hcall halive hstage)

theorem fireNow_dropped (s : State) (stream : Option Nat) (ty : Nat) (body : List (Nat × Field)) :
    ∃ call, call.alive = false ∧ (s.fireNow stream ty body).calls =
      Function.update s.calls s.nextSync (some call) := by
  unfold State.fireNow
  split <;> exact ⟨_, rfl, rfl⟩

theorem CallsSent.issued {s s' : State} {event : CallerEvent} (h : CallsSent s)
    (hmove : CallerMove s event s') (hsent : s.sent <+: s'.sent) : CallsSent s' := by
  cases hmove with
  | issued | refused | failed => exact h.of_update rfl hsent fun _ hstage => by cases hstage
  | abandoned => exact h.of_update rfl hsent fun halive => by cases halive
  | submitted =>
      refine h.of_update rfl hsent fun _ _ => ?_
      exact List.mem_append_right _ (List.mem_append_right _ (List.mem_singleton.mpr rfl))
  | succeeded =>
      obtain ⟨streams, heq⟩ := settleStream_eq _ _ _
      rw [heq] at hsent ⊢
      exact h.of_update rfl hsent fun _ hstage => by cases hstage
  | @fired _ s₁ stream ty body hbase =>
      obtain ⟨call, hdropped, hcalls⟩ := fireNow_dropped s₁ stream ty body
      have hcalls' : (s₁.fireNow stream ty body).calls =
          Function.update s.calls s₁.nextSync (some call) := by
        cases hbase <;> exact hcalls
      refine h.of_update hcalls' hsent fun halive => ?_
      rw [hdropped] at halive
      cases halive
  | _ => exact h.of_eq rfl hsent

theorem Reachable.calls_sent {rmp : Rmp} {options : ConnectOptions} {s : State}
    (h : Reachable rmp options s) : CallsSent s := by
  refine Reaches.invariant (I := CallsSent) ?_ ?_ h
  · intro n call hcall
    cases hcall
  · intro s s' event hreach hcalls _ hstep
    have hreachable : Reachable rmp options s := hreach
    cases step_move hstep with
    | caller hmove => exact hcalls.issued hmove (hreachable.sent_issued hmove)
    | task hmove => exact hcalls.of_eq hmove.untouched.calls (by rw [hmove.sent])
    | server => exact hcalls.of_eq rfl (List.prefix_refl _)

/-! ## Everybody has an answer -/

theorem Reachable.received_answered {rmp : Rmp} {options : ConnectOptions} {s : State}
    (h : Reachable rmp options s) (hdone : s.phase = .done) {sync : Nat} {packet : Packet}
    {n : Nat} {pushes : Option Nat}
    (hmem : .request sync packet n pushes ∈ received s.history) :
    (answerOf n s.history).isSome := by
  obtain ⟨action, haction, hreceived⟩ := List.mem_filterMap.mp hmem
  rw [answerOf, List.findSome?_isSome_iff]
  cases action with
  | took command =>
      obtain rfl := Option.some.inj hreceived
      have hbalance := h.ledger.balance n
      rw [h.ledger.takesRequest_eq_one haction, h.offline.deferred (.inl hdone), Task.inPending,
        h.offline.pending (by rw [hdone]; rfl)] at hbalance
      have hpos : 0 < s.history.countP (Action.answers n) := by
        simp only [List.countP_nil, AList.empty_entries] at hbalance
        omega
      obtain ⟨answer, hanswer, hanswers⟩ := List.countP_pos_iff.mp hpos
      refine ⟨answer, hanswer, ?_⟩
      cases answer <;> simp_all [Action.answers]
  | discarded command =>
      obtain rfl := Option.some.inj hreceived
      exact ⟨_, haction, by simp [Command.reply?]⟩
  | _ => cases hreceived

/-- Nobody waits for a task that has ended: a caller that is in the middle of something can
take its next step, and no channel of a watcher or of a pushing call has a sender left. -/
structure Released (rmp : Rmp) (s : State) : Prop where
  call : ∀ n call, s.calls n = some call → call.live = true →
    (step rmp s (.caller (.submit n))).isSome ∨ (step rmp s (.caller (.finish n))).isSome
  watch : ∀ watcher w, s.watching watcher = some w → w.alive = true → w.stage ≠ .watching →
    (step rmp s (.caller (.submitWatch watcher))).isSome ∨
      (step rmp s (.caller (.resolveWatch watcher))).isSome
  senders : ∀ n, s.senderGone n = true ∧ s.pushSender n = false

theorem Reachable.senders_gone {rmp : Rmp} {options : ConnectOptions} {s : State}
    (h : Reachable rmp options s) (hdone : s.phase = .done) (n : Nat) :
    s.senderGone n = true ∧ s.pushSender n = false := by
  obtain ⟨hchannel, hwatchers⟩ := h.emptied.ended hdone
  have hdeferred := h.offline.deferred (.inl hdone)
  have hpending := h.offline.pending (by rw [hdone]; rfl)
  constructor
  · simp [State.senderGone, hchannel, hdeferred, hwatchers]
  · simp [State.pushSender, hchannel, hdeferred, hpending]

theorem Reachable.answered_at_end {rmp : Rmp} {options : ConnectOptions} {s : State}
    (h : Reachable rmp options s) (hdone : s.phase = .done) {n : Nat} {call : Call}
    (hsent : call.command n ∈ s.sent) : (answerOf n s.history).isSome := by
  rw [State.sent, (h.emptied.ended hdone).1, List.append_nil] at hsent
  exact h.received_answered hdone hsent

theorem Reachable.released {rmp : Rmp} {options : ConnectOptions} {s : State}
    (h : Reachable rmp options s) (hdone : s.phase = .done) : Released rmp s where
  call n call hcall hlive := by
    simp only [Call.live, Bool.and_eq_true, Bool.or_eq_true, beq_iff_eq] at hlive
    obtain ⟨halive, hstage | hstage⟩ := hlive
    · exact .inl (by simp [step, callerStep, State.submit, hcall, halive, hstage, hdone])
    · have hanswer := h.answered_at_end hdone (h.calls_sent n call hcall halive hstage)
      exact .inr (by simp [step, callerStep, State.finish, hcall, halive, hstage, hanswer])
  watch watcher w hw halive hstage := by
    cases hwstage : w.stage with
    | sending =>
        exact .inl (by simp [step, callerStep, State.submitWatch, hw, halive, hwstage, hdone])
    | queued =>
        have hgone := (h.senders_gone hdone watcher).1
        refine .inr ?_
        simp only [step, callerStep, State.resolveWatch, hw, halive, hwstage, hgone,
          Option.bind_some, and_self, if_true]
        split <;> rfl
    | watching => exact absurd hwstage hstage
  senders := h.senders_gone hdone

/-! ## Main result -/

/--
From every state the task can be led to its end by its own steps, failures of links and a
`Close`, in a number of steps that depends on what is queued.  However it came to its end,
each call that waited for its reply has an answer there, and nobody waits for the task.
-/
theorem connection_can_end {rmp : Rmp} {options : ConnectOptions} {s : State}
    (h : Reachable rmp options s) :
    (∃ events t, runFrom (step rmp) s events = some t ∧ (∀ event ∈ events, event.Unaided) ∧
      events.length ≤ s.stepsToEnd ∧ t.phase = .done) ∧
    ∀ t, Reaches (step rmp) anyStep s t → t.phase = .done →
      (∀ n call, s.calls n = some call → call.alive = true → call.stage = .queued →
        (answerOf n t.history).isSome) ∧ Released rmp t := by
  constructor
  · refine exists_run_of_rank State.stepsToEnd (fun s hreach hlive => ?_) h
    obtain ⟨event, s', hunaided, hstep, hlt⟩ := Reachable.nearer hreach hlive
    exact ⟨event, s', hunaided, hstep, .next hreach trivial hstep, hlt⟩
  · intro t hlater hdone
    have hreach : Reachable rmp options t := Reaches.trans h hlater
    refine ⟨fun n call hcall halive hstage => ?_, hreach.released hdone⟩
    have hsent := h.calls_sent n call hcall halive hstage
    exact hreach.answered_at_end hdone ((h.sent_grows hlater).subset hsent)

theorem connection_can_end_sample :
    ∃ s events t, Reachable fixintRmp {} s ∧ answerOf 1 s.history = none ∧
      runFrom (step fixintRmp) s events = some t ∧ (∀ event ∈ events, event.Unaided) ∧
      events.length ≤ 3 ∧ t.phase = .done ∧ (answerOf 1 t.history).isSome = true := by
  obtain ⟨s, hreach, hcheck⟩ := reaches_of_check (step fixintRmp) (.initial {}) sampleRequest
    (fun s => (s.calls 1).any (fun call => call.alive && call.stage == .queued) &&
      (answerOf 1 s.history).isNone && s.stepsToEnd == 3) (by decide +kernel)
  simp only [Bool.and_eq_true, Option.any_eq_true, beq_iff_eq, Option.isNone_iff_eq_none] at hcheck
  obtain ⟨⟨⟨call, hcall, halive, hstage⟩, hnone⟩, hsteps⟩ := hcheck
  obtain ⟨⟨events, t, hrun, hunaided, hlength, hdone⟩, hanswered⟩ := connection_can_end hreach
  rw [hsteps] at hlength
  have hanswer := (hanswered t (reaches_of_runFrom hrun) hdone).1 1 call hcall halive hstage
  exact ⟨s, events, t, hreach, hnone, hrun, hunaided, hlength, hdone, hanswer⟩

end Tarant.Connection
