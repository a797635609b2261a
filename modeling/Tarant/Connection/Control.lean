import Tarant.Connection.Transaction
import Tarant.Connection.Watchers

/-!
# Begin, commit and rollback

The calls that borrow their stream exclusively follow one another: each is made
after the one before it has returned or was given up, and what has returned `Ok`
was written before a later one.
-/

namespace Tarant.Connection

open Foundation

/-! ## Commands on their way -/

theorem lose_undiscarded (s : State) : s.lose.phase = .done ∨
    ∃ actions, s.lose.history = s.history ++ actions ∧
      ∀ command, .discarded command ∉ actions := by
  simp only [State.lose]
  split
  · refine .inr ⟨_, rfl, fun command hmem => ?_⟩
    rcases List.mem_cons.mp hmem with heq | hmem
    · cases heq
    · exact failPending_isLocal _ hmem
  · exact .inl rfl

theorem TaskMove.undiscarded {rmp : Rmp} {s s' : State} {event : TaskEvent}
    (h : TaskMove rmp s event s') : s'.phase = .done ∨
      ∃ actions, s'.history = s.history ++ actions ∧ ∀ command, .discarded command ∉ actions := by
  have hlocal {link : Nat} {actions : List Action} (hall : ∀ action ∈ actions, action.Local link)
      (command : Command) : .discarded command ∉ actions := fun hmem => hall _ hmem
  cases h with
  | drained | woke | attemptFailed | replyRejected | idAccepted =>
      exact .inr ⟨[], (List.append_nil _).symm, by simp⟩
  | replayed _ _ hhandle =>
      refine .inr ⟨_, rfl, fun command => ?_⟩
      simpa using hlocal (handling_of_eq hhandle).isLocal command
  | replayFailed _ _ hhandle =>
      refine .inr ⟨_, rfl, fun command => ?_⟩
      have hhandled := hlocal (handling_of_eq hhandle).isLocal command
      simp [hhandled, Task.failLink, Task.failPending]
  | @handled command rest send t actions _ _ _ hhandle =>
      refine .inr ⟨_, List.append_assoc _ _ _, fun command' => ?_⟩
      simpa using hlocal (handling_of_eq hhandle).isLocal command'
  | handledLost _ _ _ hhandle =>
      refine (lose_undiscarded _).imp_right fun hlost => ?_
      obtain ⟨actions, hactions, hnone⟩ := hlost
      refine ⟨_, hactions.trans (List.append_assoc _ _ _ |>.trans (List.append_assoc _ _ _)),
        fun command => ?_⟩
      have hhandled := hlocal (handling_of_eq hhandle).isLocal command
      simp [hhandled, hnone]
  | received =>
      exact .inr ⟨_, rfl, hlocal (handleResponse_routing _ _ _ _ _).isLocal⟩
  | linkLost => exact lose_undiscarded s
  | deferred =>
      refine .inr ⟨_, List.append_assoc _ _ _, fun command => ?_⟩
      simpa using hlocal defer_isLocal command
  | connected | authenticated | spawned => exact .inr ⟨_, rfl, by simp⟩
  | reconnected =>
      refine .inr ⟨_, rfl, fun command => ?_⟩
      simpa using hlocal (resubscribe_isLocal _ _) command
  | closeCommand | channelClosed | receivedLast | closeWhileDown | channelClosedWhileDown =>
      exact .inl rfl

theorem Reachable.undiscarded {rmp : Rmp} {options : ConnectOptions} {s : State}
    (h : Reachable rmp options s) (hlive : s.phase ≠ .done) (command : Command) :
    .discarded command ∉ s.history := by
  revert hlive
  refine h.task_invariant (I := fun s => s.phase ≠ .done → .discarded command ∉ s.history)
    ?_ ?_ ?_
  · simp [State.initial]
  · intro s s' hside hnone hlive'
    rw [hside.history]
    exact hnone (hside.phase ▸ hlive')
  · intro s s' event _ hnone _ hmove hlive'
    rcases hmove.undiscarded with hdone | ⟨actions, hactions, hadded⟩
    · exact absurd hdone hlive'
    · rw [hactions, List.mem_append, not_or]
      exact ⟨hnone hmove.not_done, hadded command⟩

/-- The call was submitted with the command and has not returned; only a `Drop`
sends a command without a oneshot. -/
structure Call.Waits (call : Call) (command : Command) : Prop where
  stage : call.stage = .queued
  fire : command.reply? = none → call.role = .fire ∧ call.alive = false

def Queued (s : State) : Prop :=
  ∀ command ∈ s.outstanding, ∀ n ∈ command.ticket?, ∃ call ∈ s.calls n, call.Waits command

theorem Ledger.arrived {s : State} (h : Ledger s) {n : Nat}
    (hanswers : 0 < s.history.countP (Action.answers n)) {command : Command}
    (hmem : command ∈ s.outstanding) (hreply : command.reply? = some n) : False := by
  have hbalance := h.balance n
  have htakes := h.takes_le_one n
  have hrequest := countP_takesRequest_le_takes n s.history
  have hawaits := Command.awaits_iff.mpr hreply
  rcases List.mem_append.mp hmem with hmem | hmem
  · have hchannel : 0 < s.channel.countP (·.carries n) :=
      List.countP_pos_iff.mpr ⟨_, hmem, Command.carries_of_awaits hawaits⟩
    omega
  · have hdeferred : 0 < s.task.deferred.countP (·.awaits n) :=
      List.countP_pos_iff.mpr ⟨_, hmem, hawaits⟩
    omega

theorem answerOf_record {n : Nat} {history : List Action} {answer : Answer}
    (h : answerOf n history = some answer) :
    (∃ link, .answered link n answer ∈ history) ∨ ∃ command, .discarded command ∈ history := by
  obtain ⟨action, hmem, haction⟩ := List.exists_of_findSome?_eq_some h
  cases action with
  | answered link ticket answer' =>
      simp only [Option.ite_none_right_eq_some, Option.some.injEq] at haction
      obtain ⟨rfl, rfl⟩ := haction
      exact .inl ⟨link, hmem⟩
  | discarded command => exact .inr ⟨command, hmem⟩
  | _ => simp at haction

theorem answered_pos {link n : Nat} {answer : Answer} {history : List Action}
    (h : .answered link n answer ∈ history) : 0 < history.countP (Action.answers n) :=
  List.countP_pos_iff.mpr ⟨_, h, by simp [Action.answers]⟩

theorem Queued.update {s s' : State} {ticket : Nat} {call' : Call} {added : List Command}
    (h : Queued s) (hcalls : s'.calls = Function.update s.calls ticket (some call'))
    (houtstanding : ∀ command ∈ s'.outstanding, command ∈ s.outstanding ∨ command ∈ added)
    (hold : ∀ command ∈ s.outstanding, command.ticket? = some ticket → call'.Waits command)
    (hadded : ∀ command ∈ added, ∀ n ∈ command.ticket?, n = ticket ∧ call'.Waits command) :
    Queued s' := by
  intro command hmem n hn
  rw [hcalls]
  by_cases hticket : n = ticket
  · subst hticket
    refine ⟨call', by simp, ?_⟩
    rcases houtstanding command hmem with hmem | hmem
    · exact hold command hmem hn
    · exact (hadded command hmem n hn).2
  · rw [Function.update_of_ne hticket]
    rcases houtstanding command hmem with hmem | hmem
    · exact h command hmem n hn
    · exact absurd (hadded command hmem n hn).1 hticket

theorem Queued.of_eq {s s' : State} (h : Queued s) (hcalls : s'.calls = s.calls)
    (houtstanding : ∀ command ∈ s'.outstanding,
      command ∈ s.outstanding ∨ command.ticket? = none) : Queued s' := by
  intro command hmem n hn
  rw [hcalls]
  rcases houtstanding command hmem with hmem | hnone
  · exact h command hmem n hn
  · rw [hnone] at hn
    contradiction

theorem mem_outstanding_append {s s' : State} {added : List Command}
    (hchannel : s'.channel = s.channel ++ added) (htask : s'.task = s.task) :
    ∀ command ∈ s'.outstanding, command ∈ s.outstanding ∨ command ∈ added := by
  intro command hmem
  rw [State.outstanding, hchannel, htask] at hmem
  simp only [State.outstanding, List.mem_append] at hmem ⊢
  tauto

theorem Queued.append {s s' : State} {added : List Command} (h : Queued s)
    (hcalls : s'.calls = s.calls) (hchannel : s'.channel = s.channel ++ added)
    (htask : s'.task = s.task) (hadded : ∀ command ∈ added, command.ticket? = none) : Queued s' :=
  h.of_eq hcalls fun command hmem =>
    (mem_outstanding_append hchannel htask command hmem).imp_right (hadded command)

theorem fireNow_queued {s : State} (h : Queued s) (hfresh : s.calls s.nextSync = none)
    (stream : Option Nat) (ty : Nat) (body : List (Nat × Field)) :
    Queued (s.fireNow stream ty body) := by
  have hold (call' : Call) (command : Command) (hmem : command ∈ s.outstanding)
      (hticket : command.ticket? = some s.nextSync) : call'.Waits command := by
    obtain ⟨call, hcall, -⟩ := h command hmem _ hticket
    rw [hfresh] at hcall
    contradiction
  unfold State.fireNow
  split
  · refine h.update rfl (mem_outstanding_append rfl rfl) (hold _) ?_
    simp only [List.mem_singleton]
    rintro command rfl n hn
    exact ⟨(Option.some.inj hn).symm, rfl, fun _ => ⟨rfl, rfl⟩⟩
  · exact h.update rfl (mem_outstanding_append (List.append_nil _).symm rfl) (hold _) (by simp)

theorem Queued.issued {s s' : State} {event : CallerEvent} (h : Queued s) (hledger : Ledger s)
    (hundiscarded : ∀ command, .discarded command ∉ s.history)
    (hmove : CallerMove s event s') : Queued s' := by
  have hfresh := hledger.fresh s.nextSync le_rfl
  have hsame : ∀ command ∈ s.outstanding, command ∈ s.outstanding ∨ command ∈ ([] : List Command) :=
    fun _ hmem => .inl hmem
  -- the oneshot of a call that is on its way is not settled yet
  have hwaiting {ticket : Nat} {call : Call} {answer : Answer}
      (hcall : s.calls ticket = some call) (halive : call.alive = true)
      (hanswer : answerOf ticket s.history = some answer) {command : Command}
      (hmem : command ∈ s.outstanding) (hticket : command.ticket? = some ticket) : False := by
    obtain ⟨call', hcall', hwaits⟩ := h command hmem ticket hticket
    obtain rfl := Option.some.inj (hcall.symm.trans hcall')
    rcases answerOf_record hanswer with ⟨link, hanswered⟩ | ⟨command', hdiscarded⟩
    · cases command with
      | request sync packet n pushes =>
          exact hledger.arrived (answered_pos hanswered) hmem hticket
      | fire packet n => simp [(hwaits.fire rfl).2] at halive
      | _ => contradiction
    · exact hundiscarded command' hdiscarded
  cases hmove with
  | issued =>
      refine h.update rfl hsame (fun command hmem hticket => ?_) (by simp)
      obtain ⟨call, hcall, -⟩ := h command hmem _ hticket
      rw [hfresh] at hcall
      contradiction
  | @submitted ticket call hcall halive hstage hroom =>
      refine h.update rfl (mem_outstanding_append rfl rfl) (fun command hmem hticket => ?_) ?_
      · obtain ⟨call', hcall', hwaits⟩ := h command hmem _ hticket
        obtain rfl := Option.some.inj (hcall.symm.trans hcall')
        exact ⟨rfl, hwaits.fire⟩
      · simp only [List.mem_singleton]
        rintro command rfl n hn
        exact ⟨(Option.some.inj hn).symm, rfl, by simp [Call.command, Command.reply?]⟩
  | refused hcall halive hstage =>
      refine h.update rfl hsame (fun command hmem hticket => ?_) (by simp)
      obtain ⟨call', hcall', hwaits⟩ := h command hmem _ hticket
      obtain rfl := Option.some.inj (hcall.symm.trans hcall')
      simp [hwaits.stage] at hstage
  | abandoned hcall hlive =>
      refine h.update rfl hsame (fun command hmem hticket => ?_) (by simp)
      obtain ⟨call', hcall', hwaits⟩ := h command hmem _ hticket
      obtain rfl := Option.some.inj (hcall.symm.trans hcall')
      exact ⟨hwaits.stage, fun hnone => ⟨(hwaits.fire hnone).1, rfl⟩⟩
  | @succeeded ticket call answer arrival hcall halive hstage hanswer =>
      obtain ⟨streams, heq⟩ := settleStream_eq
        (s.setCall ticket { call with stage := .returned true }) call arrival
      rw [heq]
      exact h.update rfl hsame
        (fun command hmem hticket => (hwaiting hcall halive hanswer hmem hticket).elim) (by simp)
  | failed hcall halive hstage hanswer =>
      exact h.update rfl hsame
        (fun command hmem hticket => (hwaiting hcall halive hanswer hmem hticket).elim) (by simp)
  | fired hbase =>
      cases hbase with
      | client => exact fireNow_queued h hfresh _ _ _
      | @stream id stream =>
          have hset : Queued (s.setStream id { stream with opened := false }) := h
          exact fireNow_queued hset hfresh _ _ _
  | watchSubmitted | watcherDropped | closeSent =>
      exact h.append rfl rfl rfl (by simp [Command.ticket?])
  | _ => exact h.of_eq rfl fun _ hmem => .inl hmem

theorem TaskMove.outstanding {rmp : Rmp} {s s' : State} {event : TaskEvent}
    (h : TaskMove rmp s event s') : s'.phase = .done ∨
      ∀ command ∈ s'.outstanding, command ∈ s.outstanding := by
  cases h.flow with
  | still _ houtstanding | notified _ _ houtstanding =>
      exact .inr fun command hmem => houtstanding.mem_iff.mp hmem
  | handled _ _ _ houtstanding | overflowed _ _ _ _ houtstanding =>
      exact .inr fun command hmem => houtstanding.mem_iff.mpr (List.mem_cons_of_mem _ hmem)
  | ended hdone => exact .inl hdone

theorem Reachable.queued {rmp : Rmp} {options : ConnectOptions} {s : State}
    (h : Reachable rmp options s) (hlive : s.phase ≠ .done) : Queued s := by
  revert hlive
  refine Reaches.invariant (I := fun s => s.phase ≠ .done → Queued s) ?_ ?_ h
  · intro _ command hmem
    simp [State.initial, State.outstanding] at hmem
  · intro s s' event hreach hqueued _ hstep hlive'
    cases step_move hstep with
    | caller hmove =>
        have hlive : s.phase ≠ .done := hmove.untouched.phase ▸ hlive'
        exact (hqueued hlive).issued (Reachable.ledger hreach)
          (Reachable.undiscarded hreach hlive) hmove
    | task hmove =>
        have hsubset := hmove.outstanding.resolve_left hlive'
        exact (hqueued hmove.not_done).of_eq hmove.untouched.calls
          fun command hmem => .inl (hsubset command hmem)
    | server => exact hqueued hlive'

/-! ## What a caller does to a `begin`, a `commit` or a `rollback` -/

inductive ControlChange (s : State) (event : CallerEvent) (s' : State) (n : Nat) (call : Call) :
    Call → Prop where
  | same : ControlChange s event s' n call call
  | submitted (hlive : call.live = true) (hstage : call.stage = .drawn) :
      ControlChange s event s' n call { call with stage := .queued }
  | refused (hlive : call.live = true) (hstage : call.stage = .drawn) :
      ControlChange s event s' n call { call with stage := .returned false }
  | failed {answer : Answer} (hlive : call.live = true)
      (hanswer : answerOf n s.history = some answer) (hsuccess : answer.success = none) :
      ControlChange s event s' n call { call with stage := .returned false }
  | abandoned (hlive : call.live = true) (hevent : event = .abandon n) :
      ControlChange s event s' n call { call with alive := false }
  | succeeded {answer : Answer} {arrival : Arrival} (hlive : call.live = true)
      (hanswer : answerOf n s.history = some answer) (hsuccess : answer.success = some arrival)
      (hsettled : ∀ id stream, call.stream = some id → s.streams id = some stream →
        s'.streams id = some (stream.settle call.role arrival)) :
      ControlChange s event s' n call { call with stage := .returned true }

theorem settleStream_streams {s : State} {call : Call} {arrival : Arrival} {id : Nat}
    {stream : Stream} (hborrows : call.stream = some id) (hstream : s.streams id = some stream) :
    (s.settleStream call arrival).streams id = some (stream.settle call.role arrival) := by
  simp [State.settleStream, hborrows, hstream, State.setStream]

theorem fireNow_calls (s : State) (stream : Option Nat) (ty : Nat) (body : List (Nat × Field)) :
    ∃ call, call.role = .fire ∧ (s.fireNow stream ty body).calls =
      Function.update s.calls s.nextSync (some call) := by
  unfold State.fireNow
  split <;> exact ⟨_, rfl, rfl⟩

theorem CallerMove.control_change {s s' : State} {event : CallerEvent}
    (h : CallerMove s event s') {n : Nat} {call : Call} (hfresh : Fresh s)
    (hcall : s.calls n = some call) :
    ∃ call', s'.calls n = some call' ∧ ControlChange s event s' n call call' := by
  have hlt := (hfresh.bounds hcall).2
  -- a call that is not the one the step is about stays as it is
  have hupdate {ticket : Nat} {value : Call}
      (hself : n = ticket → ControlChange s event s' n call value) :
      ∃ call', Function.update s.calls ticket (some value) n = some call' ∧
        ControlChange s event s' n call call' := by
    by_cases hn : n = ticket
    · exact ⟨value, by simp [hn], hself hn⟩
    · exact ⟨call, by simp [hn, hcall], .same⟩
  cases h with
  | issued => exact hupdate fun hn => absurd hn hlt.ne
  | submitted hcall' halive hstage =>
      refine hupdate fun hn => ?_
      obtain rfl := Option.some.inj ((hn ▸ hcall).symm.trans hcall')
      exact .submitted (Call.live_iff.mpr ⟨halive, .inl hstage⟩) hstage
  | refused hcall' halive hstage =>
      refine hupdate fun hn => ?_
      obtain rfl := Option.some.inj ((hn ▸ hcall).symm.trans hcall')
      exact .refused (Call.live_iff.mpr ⟨halive, .inl hstage⟩) hstage
  | abandoned hcall' hlive =>
      refine hupdate fun hn => ?_
      obtain rfl := Option.some.inj ((hn ▸ hcall).symm.trans hcall')
      exact .abandoned hlive (by rw [hn])
  | @succeeded ticket other answer arrival hcall' halive hstage hanswer hsuccess =>
      have hcalls : ((s.setCall ticket { other with stage := .returned true }).settleStream
          other arrival).calls =
            Function.update s.calls ticket (some { other with stage := .returned true }) := by
        obtain ⟨streams, heq⟩ := settleStream_eq
          (s.setCall ticket { other with stage := .returned true }) other arrival
        rw [heq]
        rfl
      rw [hcalls]
      refine hupdate fun hn => ?_
      obtain rfl := Option.some.inj ((hn ▸ hcall).symm.trans hcall')
      exact .succeeded (Call.live_iff.mpr ⟨halive, .inr hstage⟩) (hn ▸ hanswer) hsuccess
        fun _ _ hborrows hstream => settleStream_streams hborrows hstream
  | failed hcall' halive hstage hanswer hsuccess =>
      refine hupdate fun hn => ?_
      obtain rfl := Option.some.inj ((hn ▸ hcall).symm.trans hcall')
      exact .failed (Call.live_iff.mpr ⟨halive, .inr hstage⟩) (hn ▸ hanswer) hsuccess
  | fired hbase =>
      cases hbase with
      | client =>
          obtain ⟨fired, -, hcalls⟩ := fireNow_calls s none _ _
          rw [hcalls]
          exact hupdate fun hn => absurd hn hlt.ne
      | @stream id stream =>
          obtain ⟨fired, -, hcalls⟩ := fireNow_calls (s.setStream id _) (some id) _ _
          rw [hcalls]
          exact hupdate fun hn => absurd hn hlt.ne
  | _ => exact ⟨call, hcall, .same⟩

structure NewControl (s s' : State) (n : Nat) (call : Call) : Prop where
  ticket : n = s.nextSync
  stage : call.stage = .drawn
  alive : call.alive = true
  streams : s'.streams = s.streams
  allowed : s.mayIssue call.role call.stream = true

theorem CallerMove.control_back {s s' : State} {event : CallerEvent} (h : CallerMove s event s')
    {n : Nat} {call' : Call} (hfresh : Fresh s) (hcall' : s'.calls n = some call')
    (hrole : call'.role ≠ .fire) :
    NewControl s s' n call' ∨
      ∃ call, s.calls n = some call ∧ ControlChange s event s' n call call' := by
  cases hcall : s.calls n with
  | some call =>
      obtain ⟨value, hvalue, hchange⟩ := h.control_change hfresh hcall
      obtain rfl := Option.some.inj (hvalue.symm.trans hcall')
      exact .inr ⟨call, rfl, hchange⟩
  | none =>
      refine .inl ?_
      have hupdate {ticket : Nat} {value other : Call} (hother : s.calls ticket = some other)
          (hvalue : Function.update s.calls ticket (some value) n = some call') : False := by
        by_cases hn : n = ticket
        · simp [← hn, hcall] at hother
        · simp [hn, hcall] at hvalue
      cases h with
      | @issued event role stream ty body pushes hrole' hmay =>
          by_cases hn : n = s.nextSync
          · subst hn
            simp only [State.issue, Function.update_self, Option.some.injEq] at hcall'
            subst hcall'
            exact ⟨rfl, rfl, by simpa using hrole', rfl, hmay⟩
          · simp [State.issue, hn, hcall] at hcall'
      | submitted hother | refused hother | abandoned hother | failed hother =>
          exact (hupdate hother hcall').elim
      | @succeeded ticket other answer arrival hother =>
          obtain ⟨streams, heq⟩ := settleStream_eq
            (s.setCall ticket { other with stage := .returned true }) other arrival
          rw [heq] at hcall'
          exact (hupdate hother hcall').elim
      | fired hbase =>
          have hfired (x : State) {stream : Option Nat} {ty : Nat} {body : List (Nat × Field)}
              (hsame : x.calls n = none)
              (hcall' : (x.fireNow stream ty body).calls n = some call') : False := by
            obtain ⟨fired, hfired, hcalls⟩ := fireNow_calls x stream ty body
            rw [hcalls] at hcall'
            by_cases hn : n = x.nextSync
            · simp only [hn, Function.update_self, Option.some.injEq] at hcall'
              exact hrole (hcall' ▸ hfired)
            · simp [hn, hsame] at hcall'
          cases hbase with
          | client => exact (hfired s hcall hcall').elim
          | @stream id stream => exact (hfired (s.setStream id _) hcall hcall').elim
      | _ => exact absurd (hcall.symm.trans hcall') (by simp)

/-! ## The calls of a stream, one after the other -/

def State.controls (s : State) (id n : Nat) : Bool :=
  (s.calls n).any fun call => call.stream == some id && call.role.exclusive

theorem controls_iff {s : State} {id n : Nat} : s.controls id n = true ↔
    ∃ call, s.calls n = some call ∧ call.stream = some id ∧ call.role.exclusive = true := by
  simp [State.controls, Option.any_eq_true]

theorem Role.not_fire {role : Role} (h : role.exclusive = true) : role ≠ .fire := by
  rintro rfl
  contradiction

/-- The `begin`, `commit` and `rollback` calls of a stream follow one another: each
is made after the one before it has returned or was given up, and the flag of the
stream is what the last one that returned `Ok` made of it. -/
structure Sequenced (s : State) (id : Nat) : Prop where
  known : ∀ n, s.controls id n = true → (s.streams id).isSome = true
  latest : ∀ n call m, Running s id n call → s.controls id m = true → m ≤ n
  returned : ∀ n call, s.calls n = some call → call.role.exclusive = true →
    call.stage = .returned true →
      ∃ link arrival, .answered link n (.reply arrival) ∈ s.history ∧
        arrival.response.kind ≠ .error
  order : ∀ n call m, s.calls n = some call → call.stream = some id →
    call.role.exclusive = true → call.stage = .returned true → s.controls id m = true → n < m →
      ∀ before link packet result after,
        s.history = before ++ .wrote link (.call m) packet result :: after →
          0 < before.countP (Action.writes n)
  settled : ∀ n call stream, s.calls n = some call → call.stream = some id →
    call.role = .begin → call.stage = .returned true → s.streams id = some stream →
      stream.inTransaction = true ∨ ∃ m other, n < m ∧ s.calls m = some other ∧
        other.stream = some id ∧ other.role.exclusive = true ∧ other.role ≠ .begin ∧
        other.stage = .returned true

theorem Sequenced.moved {s s' : State} {id : Nat} {actions : List Action} (h : Sequenced s id)
    (hwritten : Written s) (hcalls : s'.calls = s.calls) (hstreams : s'.streams = s.streams)
    (hhistory : s'.history = s.history ++ actions) : Sequenced s' id := by
  have hcontrols (n : Nat) : s'.controls id n = s.controls id n := by
    rw [State.controls, State.controls, hcalls]
  constructor
  · intro n hn
    rw [hstreams]
    exact h.known n (hcontrols n ▸ hn)
  · intro n call m hrunning hm
    exact h.latest n call m ⟨hcalls ▸ hrunning.known, hrunning.borrows, hrunning.live⟩
      (hcontrols m ▸ hm)
  · intro n call hcall hrole hstage
    obtain ⟨link, arrival, hanswered, hkind⟩ := h.returned n call (hcalls ▸ hcall) hrole hstage
    exact ⟨link, arrival, hhistory ▸ List.mem_append_left _ hanswered, hkind⟩
  · intro n call m hcall hborrows hrole hstage hm hlt before link packet result after heq
    rw [hcalls] at hcall
    rw [hhistory] at heq
    rcases append_eq_split heq with ⟨after', hold, -⟩ | ⟨before', -, hbefore⟩
    · exact h.order n call m hcall hborrows hrole hstage (hcontrols m ▸ hm) hlt _ _ _ _ _ hold
    · obtain ⟨l, arrival, hanswered, -⟩ := h.returned n call hcall hrole hstage
      obtain ⟨-, packet', result', hwrote⟩ := hwritten.replied l n arrival hanswered
      rw [hbefore, List.countP_append]
      have hpos : 0 < s.history.countP (Action.writes n) :=
        List.countP_pos_iff.mpr ⟨_, hwrote, by simp [Action.writes]⟩
      omega
  · intro n call stream hcall hborrows hrole hstage hstream
    rw [hcalls] at hcall ⊢
    exact h.settled n call stream hcall hborrows hrole hstage (hstreams ▸ hstream)

theorem CallerMove.returned_back {s s' : State} {event : CallerEvent} (hmove : CallerMove s event s')
    (hfresh : Fresh s) {n : Nat} {call' : Call} (hcall' : s'.calls n = some call')
    (hrole : call'.role.exclusive = true) (hstage : call'.stage = .returned true) :
    s.calls n = some call' ∨ ∃ call answer arrival, s.calls n = some call ∧
      call.live = true ∧ call' = { call with stage := .returned true } ∧
      answerOf n s.history = some answer ∧ answer.success = some arrival ∧
      ∀ id stream, call.stream = some id → s.streams id = some stream →
        s'.streams id = some (stream.settle call.role arrival) := by
  rcases hmove.control_back hfresh hcall' (Role.not_fire hrole) with hnew | ⟨call, hcall, hchange⟩
  · simp [hnew.stage] at hstage
  · cases hchange with
    | same => exact .inl hcall
    | submitted | refused | failed => simp at hstage
    | abandoned hlive =>
        rcases (Call.live_iff.mp hlive).2 with hdrawn | hqueued
        · simp [hdrawn] at hstage
        · simp [hqueued] at hstage
    | succeeded hlive hanswer hsuccess hsettled =>
        exact .inr ⟨call, _, _, hcall, hlive, rfl, hanswer, hsuccess, hsettled⟩

theorem CallerMove.controls_back {s s' : State} {event : CallerEvent}
    (hmove : CallerMove s event s') (hfresh : Fresh s) {id n : Nat}
    (h : s'.controls id n = true) : s.controls id n = true ∨
      ∃ call, NewControl s s' n call ∧ call.stream = some id ∧ call.role.exclusive = true := by
  obtain ⟨call', hcall', hborrows, hrole⟩ := controls_iff.mp h
  rcases hmove.control_back hfresh hcall' (Role.not_fire hrole) with hnew | ⟨call, hcall, hchange⟩
  · exact .inr ⟨call', hnew, hborrows, hrole⟩
  · refine .inl (controls_iff.mpr ⟨call, hcall, ?_⟩)
    cases hchange <;> exact ⟨hborrows, hrole⟩

theorem Sequenced.settled_kept {s s' : State} {id n : Nat} {call : Call} {stream' : Stream}
    {event : CallerEvent} (h : Sequenced s id) (hledger : Ledger s) (hborrows : Borrows s)
    (hmove : CallerMove s event s') (hcall : s.calls n = some call)
    (hstream : call.stream = some id) (hrole : call.role = .begin)
    (hstage : call.stage = .returned true) (hstream' : s'.streams id = some stream') :
    stream'.inTransaction = true ∨ ∃ m other, n < m ∧ s'.calls m = some other ∧
      other.stream = some id ∧ other.role.exclusive = true ∧ other.role ≠ .begin ∧
      other.stage = .returned true := by
  have hkept (stream : Stream) (hold : s.streams id = some stream)
      (hflag : stream.inTransaction = true → stream'.inTransaction = true) :
      stream'.inTransaction = true ∨ ∃ m other, n < m ∧ s'.calls m = some other ∧
        other.stream = some id ∧ other.role.exclusive = true ∧ other.role ≠ .begin ∧
        other.stage = .returned true := by
    rcases h.settled n call stream hcall hstream hrole hstage hold with
      hopen | ⟨m, other, hlt, hother, hother'⟩
    · exact .inl (hflag hopen)
    · exact .inr ⟨m, other, hlt, hmove.returned_eq hledger.toFresh hother hother'.2.2.2, hother'⟩
  have hcontrols : s.controls id n = true :=
    controls_iff.mpr ⟨call, hcall, hstream, by rw [hrole]; rfl⟩
  have hchange := hmove.stream_change id
  rw [hstream'] at hchange
  generalize hold : s.streams id = old at hchange
  cases hchange with
  | same => exact hkept stream' hold fun hopen => hopen
  | opened hid =>
      have hknown := h.known n hcontrols
      simp [hborrows.fresh id hid.ge] at hknown
  | @dropped stream => exact hkept stream hold fun hopen => hopen
  | @settled stream k other answer arrival hrunning _ _ hcall' =>
      by_cases hbegin : other.role = .begin
      · exact .inl (by rw [hbegin]; rfl)
      by_cases hexclusive : other.role.exclusive = true
      · have hle := h.latest k other n hrunning hcontrols
        have hne : n ≠ k := by
          rintro rfl
          obtain rfl := Option.some.inj (hcall.symm.trans hrunning.known)
          exact hbegin hrole
        exact .inr ⟨k, _, by omega, hcall', hrunning.borrows, hexclusive, hbegin, rfl⟩
      · have hsame : stream.settle other.role arrival = stream := by
          cases hrole' : other.role <;> simp_all [Role.exclusive, Stream.settle]
        exact hkept stream hold fun hopen => by rwa [hsame]

theorem Sequenced.issued {s s' : State} {id : Nat} {event : CallerEvent} (h : Sequenced s id)
    (hledger : Ledger s) (hborrows : Borrows s) (hmove : CallerMove s event s') :
    Sequenced s' id := by
  have hfresh := hledger.toFresh
  have hhistory := hmove.untouched.history
  -- nothing is known of a call that is made in this step
  have hunused {m : Nat} {other : Call} (hnew : NewControl s s' m other) {before after : List Action}
      {link : Nat} {packet : Packet} {result : SendResult}
      (heq : s.history = before ++ .wrote link (.call m) packet result :: after) : False := by
    have hmem : .wrote link (.call m) packet result ∈ s.history := by simp [heq]
    have hnone := hledger.unused (hfresh.fresh m hnew.ticket.ge) _ hmem
    simp [Action.writes] at hnone
  constructor
  · intro n hn
    rcases hmove.controls_back hfresh hn with hold | ⟨call, hnew, hstream, -⟩
    · obtain ⟨stream, hstream⟩ := Option.isSome_iff_exists.mp (h.known n hold)
      have hchange := hmove.stream_change id
      rw [hstream] at hchange
      generalize s'.streams id = value at hchange
      cases hchange <;> rfl
    · have hallowed := hnew.allowed
      simp only [hstream, State.mayIssue, Bool.and_eq_true, Option.any_eq_true] at hallowed
      obtain ⟨⟨stream, hknown, -⟩, -⟩ := hallowed
      rw [hnew.streams, hknown]
      rfl
  · intro n call' m hrunning' hm
    rcases hmove.controls_back hfresh hm with hold | ⟨other, hnew, hstream, hexclusive⟩
    · rcases hrunning'.back (hmove.call_change n) with ⟨call, hrunning, -⟩ | ⟨hn, -⟩
      · exact h.latest n call m hrunning hold
      · obtain ⟨other, hother, -⟩ := controls_iff.mp hold
        have := (hfresh.bounds hother).2
        omega
    · rcases hrunning'.back (hmove.call_change n) with ⟨call, hrunning, -⟩ | ⟨hn, -⟩
      · have hallowed := hnew.allowed
        rw [hstream] at hallowed
        have hshared := (hrunning.not_exclusive hfresh hallowed).1
        simp [hexclusive] at hshared
      · exact (hnew.ticket.trans hn.symm).le
  · intro n call' hcall' hrole hstage
    rw [hhistory]
    rcases hmove.returned_back hfresh hcall' hrole hstage with
      hcall | ⟨call, answer, arrival, -, -, -, hanswer, hsuccess, -⟩
    · exact h.returned n call' hcall hrole hstage
    · obtain ⟨⟨link, hanswered⟩, hkind⟩ := answerOf_reply hanswer hsuccess
      exact ⟨link, arrival, hanswered, hkind⟩
  · intro n call' m hcall' hstream hrole hstage hm hlt before link packet result after heq
    rw [hhistory] at heq
    rcases hmove.controls_back hfresh hm with hold | ⟨other, hnew, -⟩
    · rcases hmove.returned_back hfresh hcall' hrole hstage with
        hcall | ⟨call, answer, arrival, hcall, hlive, rfl, -⟩
      · exact h.order n call' m hcall hstream hrole hstage hold hlt _ _ _ _ _ heq
      · have hle := h.latest n call m ⟨hcall, hstream, hlive⟩ hold
        omega
    · exact (hunused hnew heq).elim
  · intro n call' stream' hcall' hstream hrole hstage hstream'
    have hexclusive : call'.role.exclusive = true := by rw [hrole]; rfl
    rcases hmove.returned_back hfresh hcall' hexclusive hstage with
      hcall | ⟨call, answer, arrival, hcall, hlive, rfl, -, -, hsettled⟩
    · exact h.settled_kept hledger hborrows hmove hcall hstream hrole hstage hstream'
    · obtain ⟨stream, hold, -⟩ := hborrows.opened id n call ⟨hcall, hstream, hlive⟩
      obtain rfl := Option.some.inj ((hsettled id stream hstream hold).symm.trans hstream')
      have hbegin : call.role = .begin := hrole
      rw [hbegin]
      exact .inl rfl

theorem Reachable.sequenced {rmp : Rmp} {options : ConnectOptions} {s : State}
    (h : Reachable rmp options s) (id : Nat) : Sequenced s id := by
  refine Reaches.invariant (I := fun s => Sequenced s id) ?_ ?_ h
  · constructor
    · simp [State.controls, State.initial]
    · simp [State.controls, State.initial]
    · simp [State.initial]
    · simp [State.initial]
    · simp [State.initial]
  · intro s s' event hreach hsequenced _ hstep
    have hreachable : Reachable rmp options s := hreach
    cases step_move hstep with
    | caller hmove => exact hsequenced.issued hreachable.ledger hreachable.borrows hmove
    | task hmove =>
        obtain ⟨actions, hactions, -⟩ := hmove.recorded
        exact hsequenced.moved hreachable.written hmove.untouched.calls hmove.untouched.streams
          hactions
    | server => exact hsequenced.moved hreachable.written rfl rfl (List.append_nil _).symm

end Tarant.Connection
