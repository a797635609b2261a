import Tarant.Foundation.AssocCount
import Tarant.Connection.Moves
import Tarant.Connection.Callers

/-!
# The ledger of requests

Every command is followed from the channel through the deferred queue and the
pending map to its answer.  `Settles` says what a piece of the task's code does
to one request, and composes; `Ledger` is the balance that results over a run.
-/

namespace Tarant.Connection

open Foundation

/-! ## One step of the system -/

inductive Move (rmp : Rmp) (s : State) : Event → State → Prop where
  | caller {event : CallerEvent} {s' : State} (hmove : CallerMove s event s') :
      Move rmp s (.caller event) s'
  | task {event : TaskEvent} {s' : State} (hmove : TaskMove rmp s event s') :
      Move rmp s (.task event) s'
  | server {link : Nat} {inbound : Inbound} (hopened : link < s.sockets) :
      Move rmp s (.server link inbound)
        { s with inbound := Function.update s.inbound link (s.inbound link ++ [inbound]) }

theorem step_move {rmp : Rmp} {s s' : State} {event : Event}
    (h : step rmp s event = some s') : Move rmp s event s' := by
  cases event with
  | caller event => exact .caller (callerStep_move h)
  | task event => exact .task (taskStep_move h)
  | server link inbound =>
      simp only [step, serverStep, Option.ite_none_right_eq_some, Option.some.injEq] at h
      obtain ⟨hopened, rfl⟩ := h
      exact .server hopened

structure TaskSide (s s' : State) : Prop where
  task : s'.task = s.task
  phase : s'.phase = s.phase
  link : s'.link = s.link
  sockets : s'.sockets = s.sockets
  history : s'.history = s.history

/-- An invariant of the task's side of the state is a matter of the task's moves. -/
theorem ReachableBy.task_invariant {rmp : Rmp} {options : ConnectOptions}
    {allowed : State → Event → Prop} {s : State} {I : State → Prop}
    (hinit : I (State.initial options))
    (hside : ∀ {s s' : State}, TaskSide s s' → I s → I s')
    (hmoved : ∀ {s s' : State} {event : TaskEvent}, ReachableBy rmp options allowed s → I s →
      allowed s (.task event) → TaskMove rmp s event s' → I s')
    (h : ReachableBy rmp options allowed s) : I s := by
  refine Reaches.invariant hinit ?_ h
  intro s s' event hreach hinv hallowed hstep
  cases step_move hstep with
  | caller hmove =>
      obtain ⟨-, htask, hphase, -, hlink, hsockets, -, -, hhistory⟩ := hmove.untouched
      exact hside ⟨htask, hphase, hlink, hsockets, hhistory⟩ hinv
  | task hmove => exact hmoved hreach hinv hallowed hmove
  | server => exact hside (s := s) ⟨rfl, rfl, rfl, rfl, rfl⟩ hinv

/-! ## Counting -/

def Command.carries (n : Nat) : Command → Bool
  | .request _ _ ticket _ => ticket == n
  | .fire _ ticket => ticket == n
  | _ => false

def Command.awaits (n : Nat) : Command → Bool
  | .request _ _ ticket _ => ticket == n
  | _ => false

def Task.inPending (t : Task) (n : Nat) : Nat :=
  t.pending.entries.countP (·.2.ticket == n)

def Action.takes (n : Nat) : Action → Bool
  | .took command => command.carries n
  | _ => false

def Action.takesRequest (n : Nat) : Action → Bool
  | .took command => command.awaits n
  | _ => false

def Action.writes (n : Nat) : Action → Bool
  | .wrote _ (.call ticket) _ _ => ticket == n
  | _ => false

def Action.answers (n : Nat) : Action → Bool
  | .answered _ ticket _ => ticket == n
  | _ => false

def State.drawn (s : State) (n : Nat) : Nat :=
  ((s.calls n).any fun call => decide (call.stage = .drawn)).toNat

theorem Command.carries_of_awaits {n : Nat} {command : Command}
    (h : command.awaits n = true) : command.carries n = true := by
  cases command <;> simp_all [Command.awaits, Command.carries]

theorem countP_awaits_le_carries (n : Nat) (commands : List Command) :
    commands.countP (·.awaits n) ≤ commands.countP (·.carries n) :=
  List.countP_mono_left fun _ _ h => Command.carries_of_awaits h

theorem countP_takesRequest_le_takes (n : Nat) (history : List Action) :
    history.countP (Action.takesRequest n) ≤ history.countP (Action.takes n) := by
  apply List.countP_mono_left
  intro action _ h
  cases action <;> simp_all [Action.takesRequest, Action.takes, Command.carries_of_awaits]

theorem Command.awaits_iff {n : Nat} {command : Command} :
    command.awaits n = true ↔ command.reply? = some n := by
  cases command <;> simp [Command.awaits, Command.reply?]

theorem countP_answers_replies (n link : Nat) (answer : Answer) (commands : List Command) :
    ((commands.filterMap Command.reply?).map fun ticket =>
        Action.answered link ticket answer).countP (Action.answers n) =
      commands.countP (·.awaits n) := by
  rw [List.countP_map, List.countP_filterMap]
  apply List.countP_congr
  intro command _
  cases command <;> simp [Command.reply?, Command.awaits, Action.answers]

/-! ## What each function of the task does to a request -/

/-- The task took `accepted` in and did `actions`: nothing is lost, answered
twice or written twice on the way. -/
structure Settles (accepted : List Command) (t : Task) (actions : List Action)
    (t' : Task) : Prop where
  balance : ∀ n,
    accepted.countP (·.awaits n) + t.deferred.countP (·.awaits n) +
        t.inPending n =
      t'.deferred.countP (·.awaits n) + t'.inPending n +
        actions.countP (Action.answers n)
  once : ∀ n,
    t'.deferred.countP (·.carries n) + actions.countP (Action.writes n) ≤
      accepted.countP (·.carries n) + t.deferred.countP (·.carries n)
  quiet : ∀ command, Action.took command ∉ actions

namespace Settles

theorem refl (t : Task) : Settles [] t [] t := by
  constructor <;> simp

theorem trans {accepted accepted' : List Command} {t t' t'' : Task}
    {actions actions' : List Action} (hfirst : Settles accepted t actions t')
    (hsecond : Settles accepted' t' actions' t'') :
    Settles (accepted ++ accepted') t (actions ++ actions') t'' where
  balance n := by
    have h₁ := hfirst.balance n
    have h₂ := hsecond.balance n
    simp only [List.countP_append]
    omega
  once n := by
    have h₁ := hfirst.once n
    have h₂ := hsecond.once n
    simp only [List.countP_append]
    omega
  quiet command := by
    simp only [List.mem_append, not_or]
    exact ⟨hfirst.quiet command, hsecond.quiet command⟩

theorem prepend {accepted : List Command} {t t' : Task} {actions : List Action}
    {action : Action} (h : Settles accepted t actions t')
    (hwrites : ∀ n, action.writes n = false)
    (hanswers : ∀ n, action.answers n = false)
    (htook : ∀ command, action ≠ .took command) :
    Settles accepted t (action :: actions) t' where
  balance n := by
    rw [List.countP_cons_of_neg (by simp [hanswers])]
    exact h.balance n
  once n := by
    rw [List.countP_cons_of_neg (by simp [hwrites])]
    exact h.once n
  quiet command := by
    rw [List.mem_cons, not_or]
    exact ⟨fun heq => htook command heq.symm, h.quiet command⟩

theorem pop {command : Command} {rest : List Command} {t t' : Task}
    {actions : List Action} (hdeferred : t.deferred = command :: rest)
    (h : Settles [command] (t.setDeferred rest) actions t') : Settles [] t actions t' where
  balance n := by
    have h₁ := h.balance n
    simp only [Task.setDeferred_deferred, Task.inPending, Task.setDeferred_pending,
      List.countP_cons, List.countP_nil] at h₁
    simp only [hdeferred, List.countP_cons, List.countP_nil, Task.inPending]
    omega
  once n := by
    have h₁ := h.once n
    simp only [Task.setDeferred_deferred, List.countP_cons, List.countP_nil] at h₁
    simp only [hdeferred, List.countP_cons, List.countP_nil]
    omega
  quiet := h.quiet

end Settles

theorem overwritten_answers (t : Task) (link sync n : Nat) :
    (t.overwritten link sync).countP (Action.answers n) =
      hit (fun entry : Sigma fun _ : Nat => Pending => entry.2.ticket == n) sync
        (t.pending.lookup sync) := by
  unfold Task.overwritten
  cases t.pending.lookup sync with
  | none => rfl
  | some old =>
      cases h : old.ticket == n <;> simp [hit, Action.answers, h]

theorem overwritten_writes (t : Task) (link sync n : Nat) :
    (t.overwritten link sync).countP (Action.writes n) = 0 := by
  rw [List.countP_eq_zero]
  exact forall_mem_overwritten fun _ _ => Bool.false_ne_true

theorem overwritten_quiet (t : Task) (link sync : Nat) (command : Command) :
    Action.took command ∉ t.overwritten link sync := by
  have hnot : ∀ action ∈ t.overwritten link sync, action ≠ .took command :=
    forall_mem_overwritten fun _ _ => Action.noConfusion
  exact fun hmem => hnot _ hmem rfl

theorem Settles.inPlace {accepted : List Command} {t t' : Task} {actions : List Action}
    (hdeferred : t'.deferred = t.deferred)
    (hbalance : ∀ n, accepted.countP (·.awaits n) + t.inPending n =
      t'.inPending n + actions.countP (Action.answers n))
    (hwrites : ∀ n, actions.countP (Action.writes n) ≤ accepted.countP (·.carries n))
    (hquiet : ∀ command, Action.took command ∉ actions) :
    Settles accepted t actions t' where
  balance n := by
    have := hbalance n
    rw [hdeferred]
    omega
  once n := by
    have := hwrites n
    rw [hdeferred]
    omega
  quiet := hquiet

theorem Handling.settles {t t' : Task} {link : Nat} {send : SendResult} {command : Command}
    {actions : List Action} {result : Except Error Unit}
    (h : Handling t link send command t' actions result) :
    Settles [command] t actions t' := by
  cases h with
  | @requested sync packet ticket pushes hdown =>
      refine Settles.inPlace rfl ?_ ?_ ?_
      · intro n
        have hinsert := countP_insert
          (fun entry : Sigma fun _ : Nat => Pending => entry.2.ticket == n) sync
          ⟨ticket, pushes⟩ t.pending
        simp only [List.countP_append, overwritten_answers, List.countP_singleton,
          Command.awaits, Action.answers, Task.inPending]
        by_cases hn : ticket = n <;> simp [hn] at hinsert ⊢ <;> omega
      · intro n
        simp [List.countP_append, overwritten_writes, List.countP_singleton,
          Command.carries, Action.writes]
      · intro c
        simp [overwritten_quiet]
  | _ =>
      refine Settles.inPlace rfl ?_ ?_ ?_ <;> intros <;>
        simp [Command.awaits, Command.carries, Action.answers, Action.writes,
          Task.inPending, List.countP_singleton, Nat.add_comm]

theorem Routing.settles {t t' : Task} {link : Nat} {alive : Nat → Bool} {ack : SendResult}
    {arrival : Arrival} {actions : List Action}
    (h : Routing t link alive ack arrival t' actions) : Settles [] t actions t' := by
  cases h with
  | @delivered pending hfinal hlookup =>
      refine Settles.inPlace rfl ?_ ?_ ?_
      · intro n
        have herase := countP_erase
          (fun entry : Sigma fun _ : Nat => Pending => entry.2.ticket == n)
          arrival.response.sync t.pending
        rw [hlookup, hit] at herase
        simp only [List.countP_singleton, List.countP_nil, Action.answers, Task.inPending]
        by_cases hn : pending.ticket = n <;> simp [hn] at herase ⊢ <;> omega
      · intro n
        simp [Action.writes]
      · simp
  | _ =>
      refine Settles.inPlace rfl ?_ ?_ ?_ <;> intros <;> (try split) <;>
        simp [Action.answers, Action.writes, Task.inPending, List.countP_append,
          List.countP_map, Function.comp_def]

theorem failPending_settles (t : Task) (link : Nat) :
    Settles [] t (t.failPending link).2 (t.failPending link).1 where
  balance n := by
    simp only [Task.failPending, Task.inPending, List.countP_map]
    simp [Function.comp_def, Action.answers]
  once n := by
    simp [Task.failPending, Action.writes, List.countP_map, Function.comp_def]
  quiet command := by
    simp [Task.failPending]

theorem failLink_settles (t : Task) (link : Nat) :
    Settles [] t (t.failLink link).2 (t.failLink link).1 :=
  (failPending_settles t link).prepend (fun _ => rfl) (fun _ => rfl) (by simp)

theorem answerDeferred_settles (t : Task) (link : Nat) (answer : Answer) :
    Settles [] t
      ((t.deferred.filterMap Command.reply?).map fun ticket => .answered link ticket answer)
      { t with deferred := [] } where
  balance n := by
    rw [countP_answers_replies]
    simp only [List.countP_nil, Task.inPending]
    omega
  once n := by
    simp [Action.writes, List.countP_map, Function.comp_def]
  quiet command := by
    simp

theorem failDeferred_settles (t : Task) (link : Nat) :
    Settles [] t (t.failDeferred link).2 (t.failDeferred link).1 :=
  answerDeferred_settles t link (.error .closed)

theorem dropDeferred_settles (t : Task) (link : Nat) :
    Settles [] t (t.dropDeferred link).2 (t.dropDeferred link).1 :=
  answerDeferred_settles t link .dropped

theorem defer_settles (t : Task) (link : Nat) (command : Command) :
    Settles [command] t (t.defer link command).2 (t.defer link command).1 := by
  unfold Task.defer
  split
  · refine Settles.inPlace rfl ?_ ?_ ?_
    · intro n
      cases command <;>
        simp [Command.reply?, Command.awaits, Action.answers, List.countP_singleton,
          Nat.add_comm]
    · intro n
      simp [Action.writes, List.countP_map, Function.comp_def]
    · simp
  · constructor
    · intro n
      simp only [List.countP_append, List.countP_nil, Task.inPending]
      omega
    · intro n
      simp only [List.countP_append, List.countP_nil]
      omega
    · simp

theorem resubscribe_settles (t : Task) (link : Nat) (send : String → SendResult)
    (keys : List String) : Settles [] t (Task.resubscribe link send keys) t := by
  induction keys with
  | nil => exact .refl t
  | cons key keys ih =>
      unfold Task.resubscribe
      apply Settles.prepend _ (fun _ => rfl) (fun _ => rfl) (by simp)
      split
      · exact ih
      · exact .refl t

theorem discarded_settles (t : Task) (commands : List Command) :
    Settles [] t (commands.map .discarded) t := by
  refine Settles.inPlace rfl ?_ ?_ ?_ <;> intros <;>
    simp [Action.answers, Action.writes, List.countP_map, Function.comp_def]

/-! ## What a step does to the ledger -/

/-- The step appended `actions` to the history, and every command in them came
off the channel and went where they say. -/
structure Entries (s s' : State) (actions : List Action) : Prop where
  history : s'.history = s.history ++ actions
  calls : s'.calls = s.calls
  nextSync : s'.nextSync = s.nextSync
  channel : ∀ n, s'.channel.countP (·.carries n) + actions.countP (Action.takes n) ≤
    s.channel.countP (·.carries n)
  balance : ∀ n,
    actions.countP (Action.takesRequest n) + s.task.deferred.countP (·.awaits n) +
        s.task.inPending n =
      s'.task.deferred.countP (·.awaits n) + s'.task.inPending n +
        actions.countP (Action.answers n)
  once : ∀ n,
    s'.task.deferred.countP (·.carries n) + actions.countP (Action.writes n) ≤
      actions.countP (Action.takes n) + s.task.deferred.countP (·.carries n)

def State.inQueues (s : State) (n : Nat) : Nat :=
  s.channel.countP (·.carries n) + s.task.deferred.countP (·.carries n)

theorem Entries.inQueues {s s' : State} {actions : List Action} (h : Entries s s' actions)
    (n : Nat) : s'.inQueues n + actions.countP (Action.writes n) ≤ s.inQueues n := by
  have hchannel := h.channel n
  have honce := h.once n
  simp only [State.inQueues]
  omega

def Accounted (s s' : State) : Prop := ∃ actions, Entries s s' actions

theorem Accounted.trans {s s' s'' : State} (hfirst : Accounted s s')
    (hsecond : Accounted s' s'') : Accounted s s'' := by
  obtain ⟨actions, h₁⟩ := hfirst
  obtain ⟨actions', h₂⟩ := hsecond
  refine ⟨actions ++ actions', ?_, ?_, ?_, ?_, ?_, ?_⟩
  · rw [h₂.history, h₁.history, List.append_assoc]
  · rw [h₂.calls, h₁.calls]
  · rw [h₂.nextSync, h₁.nextSync]
  · intro n
    have := h₁.channel n
    have := h₂.channel n
    rw [List.countP_append]
    omega
  · intro n
    have := h₁.balance n
    have := h₂.balance n
    simp only [List.countP_append]
    omega
  · intro n
    have := h₁.once n
    have := h₂.once n
    simp only [List.countP_append]
    omega

theorem countP_takes_of_quiet {actions : List Action}
    (hquiet : ∀ command, Action.took command ∉ actions) (n : Nat) :
    actions.countP (Action.takes n) = 0 := by
  rw [List.countP_eq_zero]
  intro action hmem
  cases action with
  | took command => exact absurd hmem (hquiet command)
  | _ => simp [Action.takes]

theorem countP_takes_cons (n : Nat) (command : Command) (actions : List Action) :
    (Action.took command :: actions).countP (Action.takes n) =
      [command].countP (·.carries n) + actions.countP (Action.takes n) := by
  cases h : command.carries n <;> simp [Action.takes, h, Nat.add_comm]

theorem countP_takesRequest_cons (n : Nat) (command : Command) (actions : List Action) :
    (Action.took command :: actions).countP (Action.takesRequest n) =
      [command].countP (·.awaits n) + actions.countP (Action.takesRequest n) := by
  cases h : command.awaits n <;> simp [Action.takesRequest, h, Nat.add_comm]

theorem Settles.accounted {s s' : State} {actions : List Action}
    (h : Settles [] s.task actions s'.task) (hhistory : s'.history = s.history ++ actions)
    (hcalls : s'.calls = s.calls) (hnextSync : s'.nextSync = s.nextSync)
    (hchannel : s'.channel = s.channel ∨ s'.channel = []) : Accounted s s' := by
  have htakes := countP_takes_of_quiet h.quiet
  have hrequests (n : Nat) : actions.countP (Action.takesRequest n) = 0 :=
    Nat.le_zero.mp (htakes n ▸ countP_takesRequest_le_takes n actions)
  refine ⟨actions, hhistory, hcalls, hnextSync, ?_, ?_, ?_⟩
  · intro n
    rw [htakes]
    rcases hchannel with hchannel | hchannel <;> simp [hchannel]
  · intro n
    rw [hrequests]
    exact h.balance n
  · intro n
    rw [htakes]
    exact h.once n

theorem perform_accounted {s : State} {t : Task} {actions : List Action} (phase : Phase)
    (h : Settles [] s.task actions t) : Accounted s (s.perform t actions phase) :=
  Settles.accounted h rfl rfl rfl (.inl rfl)

theorem stop_accounted {s : State} {t : Task} {actions : List Action}
    (h : Settles [] s.task actions t) : Accounted s (s.stop t actions) := by
  have hsettles := h.trans (discarded_settles t s.channel)
  exact Settles.accounted ⟨hsettles.balance, hsettles.once, hsettles.quiet⟩ rfl rfl rfl (.inr rfl)

theorem take_accounted {s : State} {command : Command} {rest : List Command} {t : Task}
    {actions : List Action} (phase : Phase) (hchannel : s.channel = command :: rest)
    (h : Settles [command] s.task actions t) :
    Accounted s ((s.takeCommand command rest).perform t actions phase) := by
  have htakes := countP_takes_of_quiet h.quiet
  have hrequests (n : Nat) : actions.countP (Action.takesRequest n) = 0 :=
    Nat.le_zero.mp (htakes n ▸ countP_takesRequest_le_takes n actions)
  refine ⟨.took command :: actions, ?_, rfl, rfl, ?_, ?_, ?_⟩
  · simp [State.perform, State.takeCommand]
  · intro n
    have hsplit : s.channel = [command] ++ rest := hchannel
    rw [countP_takes_cons, htakes, hsplit, List.countP_append, Nat.add_comm]
    exact Nat.le_refl _
  · intro n
    have hanswers : (Action.took command :: actions).countP (Action.answers n) =
        actions.countP (Action.answers n) := List.countP_cons_of_neg (by simp [Action.answers])
    rw [countP_takesRequest_cons, hrequests, hanswers]
    exact h.balance n
  · intro n
    have hwrites : (Action.took command :: actions).countP (Action.writes n) =
        actions.countP (Action.writes n) := List.countP_cons_of_neg (by simp [Action.writes])
    rw [countP_takes_cons, htakes, hwrites]
    exact h.once n

theorem takeClose_accounted {s : State} {rest : List Command}
    (hchannel : s.channel = .close :: rest) : Accounted s (s.takeCommand .close rest) := by
  refine ⟨[.took .close], rfl, rfl, rfl, ?_, ?_, ?_⟩ <;> intro n <;>
    simp [State.takeCommand, hchannel, Action.takes, Action.takesRequest, Action.answers,
      Action.writes, Command.awaits, Command.carries]

theorem closeDown_accounted (s : State) (cause : CloseCause) :
    Accounted s (s.closeDown cause) := by
  apply stop_accounted
  have h := (failPending_settles s.task s.link).trans
    (dropDeferred_settles (s.task.failPending s.link).1 s.link)
  exact h.prepend (fun _ => rfl) (fun _ => rfl) (by simp)

theorem giveUp_accounted (s : State) : Accounted s s.giveUp :=
  stop_accounted (failDeferred_settles s.task s.link)

theorem lose_accounted (s : State) : Accounted s s.lose := by
  simp only [State.lose]
  split
  · exact perform_accounted _ (failLink_settles s.task s.link)
  · exact (perform_accounted _ (failLink_settles s.task s.link)).trans (giveUp_accounted _)

theorem receive_accounted (s : State) (ack : SendResult) (inbound : Inbound) :
    Accounted s (s.receive ack inbound) :=
  Settles.accounted (handleResponse_routing _ _ _ _ _).settles rfl rfl rfl (.inl rfl)

theorem TaskMove.accounted {rmp : Rmp} {s s' : State} {event : TaskEvent}
    (h : TaskMove rmp s event s') : Accounted s s' := by
  cases h with
  | drained | woke | attemptFailed | replyRejected | idAccepted =>
      exact Settles.accounted (.refl s.task) (List.append_nil _).symm rfl rfl (.inl rfl)
  | replayed hphase hdeferred hhandle =>
      apply perform_accounted
      have hsettles := (handling_of_eq hhandle).settles.pop hdeferred
      exact hsettles.prepend (fun _ => rfl) (fun _ => rfl) (by simp)
  | replayFailed hphase hdeferred hhandle =>
      apply perform_accounted
      have hsettles := (handling_of_eq hhandle).settles.pop hdeferred
      have hfail := hsettles.trans (failLink_settles _ s.link)
      exact hfail.prepend (fun _ => rfl) (fun _ => rfl) (by simp)
  | handled hphase hchannel hclose hhandle =>
      apply take_accounted _ hchannel
      exact (handling_of_eq hhandle).settles.prepend (fun _ => rfl) (fun _ => rfl) (by simp)
  | handledLost hphase hchannel hclose hhandle =>
      refine Accounted.trans (take_accounted _ hchannel ?_) (lose_accounted _)
      exact (handling_of_eq hhandle).settles.prepend (fun _ => rfl) (fun _ => rfl) (by simp)
  | closeCommand hphase hchannel =>
      exact (takeClose_accounted hchannel).trans (closeDown_accounted _ _)
  | channelClosed => exact closeDown_accounted s .command
  | received => exact receive_accounted s _ _
  | receivedLast => exact (receive_accounted s _ _).trans (closeDown_accounted _ _)
  | linkLost => exact lose_accounted s
  | deferred hphase hchannel hclose =>
      exact take_accounted _ hchannel (defer_settles s.task s.link _)
  | closeWhileDown hphase hchannel =>
      exact (takeClose_accounted hchannel).trans (giveUp_accounted _)
  | channelClosedWhileDown => exact giveUp_accounted s
  | connected | authenticated | spawned =>
      refine Settles.accounted (s := s) ?_ rfl rfl rfl (.inl rfl)
      exact (Settles.refl s.task).prepend (fun _ => rfl) (fun _ => rfl) (by simp)
  | reconnected =>
      refine Settles.accounted (s := s) ?_ rfl rfl rfl (.inl rfl)
      exact (resubscribe_settles s.task _ _ _).prepend (fun _ => rfl) (fun _ => rfl) (by simp)

/-! ## What a caller does to the ledger -/

def State.known (s : State) (n : Nat) : Nat := (s.calls n).isSome.toNat

structure Fresh (s : State) : Prop where
  positive : 0 < s.nextSync
  zero : s.calls 0 = none
  fresh : ∀ n, s.nextSync ≤ n → s.calls n = none

theorem Fresh.bounds {s : State} (h : Fresh s) {n : Nat} {call : Call}
    (hcall : s.calls n = some call) : 0 < n ∧ n < s.nextSync := by
  constructor
  · rw [Nat.pos_iff_ne_zero]
    rintro rfl
    simp [h.zero] at hcall
  · by_contra hge
    simp [h.fresh n (by omega)] at hcall

theorem Fresh.of_eq {s s' : State} (h : Fresh s) (hcalls : s'.calls = s.calls)
    (hnextSync : s'.nextSync = s.nextSync) : Fresh s' where
  positive := by rw [hnextSync]; exact h.positive
  zero := by rw [hcalls]; exact h.zero
  fresh := by rw [hcalls, hnextSync]; exact h.fresh

theorem Fresh.of_update {s s' : State} {ticket : Nat} {call : Call} (h : Fresh s)
    (hcalls : s'.calls = Function.update s.calls ticket (some call))
    (hnextSync : s.nextSync ≤ s'.nextSync) (hpos : 0 < ticket)
    (hlt : ticket < s'.nextSync) : Fresh s' where
  positive := by omega
  zero := by
    rw [hcalls, Function.update_of_ne (by omega)]
    exact h.zero
  fresh n hn := by
    rw [hcalls, Function.update_of_ne (by omega)]
    exact h.fresh n (by omega)

structure Issues (s s' : State) : Prop where
  drawn : ∀ n, s'.drawn n + s'.channel.countP (·.carries n) + s.known n ≤
    s.drawn n + s.channel.countP (·.carries n) + s'.known n
  fresh : Fresh s'

theorem Issues.of_eq {s s' : State} (hfresh : Fresh s) (hcalls : s'.calls = s.calls)
    (hnextSync : s'.nextSync = s.nextSync)
    (hchannel : ∀ n, s'.channel.countP (·.carries n) = s.channel.countP (·.carries n)) :
    Issues s s' where
  drawn n := by
    rw [State.drawn, State.drawn, State.known, State.known, hcalls, hchannel]
  fresh := hfresh.of_eq hcalls hnextSync

theorem Issues.of_update {s s' : State} {ticket : Nat} {call call' : Call}
    {commands : List Command} (hfresh : Fresh s) (hcall : s.calls ticket = some call)
    (hcalls : s'.calls = Function.update s.calls ticket (some call'))
    (hnextSync : s'.nextSync = s.nextSync) (hchannel : s'.channel = s.channel ++ commands)
    (hstage : ∀ n, (decide (call'.stage = .drawn)).toNat + commands.countP (·.carries n) ≤
      (decide (call.stage = .drawn)).toNat)
    (hcarries : ∀ n, n ≠ ticket → commands.countP (·.carries n) = 0) : Issues s s' where
  drawn n := by
    simp only [State.drawn, State.known, hcalls, hchannel, List.countP_append]
    by_cases hn : n = ticket
    · subst hn
      have := hstage n
      simp only [Function.update_self, hcall, Option.any_some, Option.isSome_some]
      omega
    · simp only [Function.update_of_ne hn, hcarries n hn]
      omega
  fresh := by
    obtain ⟨hpos, hlt⟩ := hfresh.bounds hcall
    exact hfresh.of_update hcalls hnextSync.ge hpos (hnextSync ▸ hlt)

theorem Issues.of_issue {s s' : State} {call : Call} {commands : List Command}
    (hfresh : Fresh s)
    (hcalls : s'.calls = Function.update s.calls s.nextSync (some call))
    (hnextSync : s'.nextSync = s.nextSync + 1)
    (hchannel : s'.channel = s.channel ++ commands)
    (hstage : ∀ n, (decide (call.stage = .drawn)).toNat + commands.countP (·.carries n) ≤ 1)
    (hcarries : ∀ n, n ≠ s.nextSync → commands.countP (·.carries n) = 0) : Issues s s' where
  drawn n := by
    simp only [State.drawn, State.known, hcalls, hchannel, List.countP_append]
    by_cases hn : n = s.nextSync
    · subst hn
      have hstage := hstage s.nextSync
      simp only [Function.update_self, hfresh.fresh s.nextSync le_rfl, Option.any_some,
        Option.any_none, Option.isSome_some, Option.isSome_none, Bool.toNat_true,
        Bool.toNat_false]
      omega
    · simp only [Function.update_of_ne hn, hcarries n hn]
      omega
  fresh := hfresh.of_update hcalls (by omega) hfresh.positive (by omega)

theorem fireNow_issues {s : State} (hfresh : Fresh s)
    (stream : Option Nat) (ty : Nat) (body : List (Nat × Field)) :
    Issues s (s.fireNow stream ty body) := by
  unfold State.fireNow
  split
  · refine Issues.of_issue hfresh rfl rfl rfl ?_ ?_
    · intro n
      rw [List.countP_singleton]
      split <;> simp
    · intro n hn
      simp [Command.carries, Ne.symm hn]
  · refine Issues.of_issue hfresh rfl rfl (List.append_nil _).symm ?_ ?_ <;> simp

theorem CallerMove.issues {s s' : State} {event : CallerEvent}
    (hmove : CallerMove s event s') (hfresh : Fresh s) : Issues s s' := by
  cases hmove with
  | issued =>
      refine Issues.of_issue hfresh rfl rfl (List.append_nil _).symm ?_ ?_ <;> simp
  | @submitted ticket call hcall halive hstage hroom =>
      refine Issues.of_update hfresh hcall rfl rfl rfl ?_ ?_
      · intro n
        rw [List.countP_singleton, hstage]
        split <;> simp
      · intro n hn
        simp [Call.command, Command.carries, Ne.symm hn]
  | refused hcall | failed hcall | abandoned hcall =>
      refine Issues.of_update hfresh hcall rfl rfl (List.append_nil _).symm ?_ ?_ <;>
        simp
  | @succeeded ticket call answer arrival hcall =>
      obtain ⟨streams, heq⟩ := settleStream_eq
        (s.setCall ticket { call with stage := .returned true }) call arrival
      rw [heq]
      refine Issues.of_update hfresh hcall rfl rfl (List.append_nil _).symm ?_ ?_ <;>
        simp
  | fired hbase =>
      cases hbase with
      | client => exact fireNow_issues hfresh _ _ _
      | stream =>
          obtain ⟨hdrawn, hfresh'⟩ := fireNow_issues (s := s.setStream _ _)
            (hfresh.of_eq rfl rfl) _ _ _
          exact ⟨hdrawn, hfresh'⟩
  | watchSubmitted | watcherDropped | closeSent =>
      refine Issues.of_eq hfresh rfl rfl ?_
      simp [Command.carries]
  | _ => exact Issues.of_eq hfresh rfl rfl fun _ => rfl

theorem CallerMove.inQueues {s s' : State} {event : CallerEvent} (hmove : CallerMove s event s')
    (hfresh : Fresh s) (n : Nat) :
    s'.drawn n + s'.inQueues n + s.known n ≤ s.drawn n + s.inQueues n + s'.known n := by
  have hdrawn := (hmove.issues hfresh).drawn n
  simp only [State.inQueues, hmove.untouched.task]
  omega

/-! ## The balance over a run -/

/-- Each call is drawn, queued or taken at most once; a taken packet is deferred
or written at most once; a taken oneshot is deferred, pending or answered. -/
structure Ledger (s : State) : Prop extends Fresh s where
  source : ∀ n, s.drawn n + s.channel.countP (·.carries n) +
    s.history.countP (Action.takes n) ≤ s.known n
  once : ∀ n, s.task.deferred.countP (·.carries n) +
    s.history.countP (Action.writes n) ≤ s.history.countP (Action.takes n)
  balance : ∀ n, s.task.deferred.countP (·.awaits n) + s.task.inPending n +
    s.history.countP (Action.answers n) = s.history.countP (Action.takesRequest n)

theorem Ledger.initial (options : ConnectOptions) : Ledger (State.initial options) := by
  refine { positive := ?_, zero := ?_, fresh := ?_, source := ?_, once := ?_, balance := ?_ } <;>
    intros <;> simp [State.initial, State.drawn, Task.inPending]

theorem Ledger.accounted {s s' : State} (h : Ledger s) (hstep : Accounted s s') :
    Ledger s' := by
  obtain ⟨actions, hentries⟩ := hstep
  refine { toFresh := h.toFresh.of_eq hentries.calls hentries.nextSync,
           source := ?_, once := ?_, balance := ?_ }
  · intro n
    have := h.source n
    have := hentries.channel n
    rw [State.drawn, State.known, hentries.history, hentries.calls, List.countP_append]
    simp only [State.drawn, State.known] at *
    omega
  · intro n
    have := h.once n
    have := hentries.once n
    rw [hentries.history]
    simp only [List.countP_append]
    omega
  · intro n
    have := h.balance n
    have := hentries.balance n
    rw [hentries.history]
    simp only [List.countP_append]
    omega

theorem Ledger.issued {s s' : State} {event : CallerEvent} (h : Ledger s)
    (hmove : CallerMove s event s') : Ledger s' := by
  have hissues := hmove.issues h.toFresh
  have huntouched := hmove.untouched
  refine { toFresh := hissues.fresh, source := ?_, once := ?_, balance := ?_ }
  · intro n
    have := h.source n
    have := hissues.drawn n
    rw [huntouched.history]
    omega
  · rw [huntouched.history, huntouched.task]
    exact h.once
  · rw [huntouched.history, huntouched.task]
    exact h.balance

theorem Ledger.step {rmp : Rmp} {s s' : State} {event : Event} (h : Ledger s)
    (hstep : step rmp s event = some s') : Ledger s' := by
  cases step_move hstep with
  | caller hmove => exact h.issued hmove
  | task hmove => exact h.accounted hmove.accounted
  | server =>
      exact { toFresh := h.toFresh.of_eq rfl rfl,
              source := h.source, once := h.once, balance := h.balance }

theorem Reachable.ledger {rmp : Rmp} {options : ConnectOptions} {s : State}
    (h : Reachable rmp options s) : Ledger s :=
  Reaches.invariant (.initial options) (fun _ hledger _ hstep => hledger.step hstep) h

end Tarant.Connection
