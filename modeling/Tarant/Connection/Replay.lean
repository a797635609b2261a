import Tarant.Connection.Links
import Tarant.Connection.Settlement

/-!
# Nothing is written twice

The packet of a request goes to one link only.  When that link is lost the
request is answered `Error::Closed`; a request that is still deferred at that
moment is to wait for a later link.
-/

namespace Tarant.Connection

open Foundation

/-! ## Losing a link -/

def LossFree (actions : List Action) : Prop := ∀ link waiting, .lost link waiting ∉ actions

theorem LossFree.of_local {link : Nat} {actions : List Action}
    (h : ∀ action ∈ actions, action.Local link) : LossFree actions :=
  fun l waiting hmem => h (.lost l waiting) hmem

theorem LossFree.append {actions actions' : List Action} (h : LossFree actions)
    (h' : LossFree actions') : LossFree (actions ++ actions') := by
  intro link waiting hmem
  rcases List.mem_append.mp hmem with hmem | hmem
  · exact h link waiting hmem
  · exact h' link waiting hmem

theorem LossFree.cons {action : Action} {actions : List Action}
    (haction : ∀ link waiting, action ≠ .lost link waiting) (h : LossFree actions) :
    LossFree (action :: actions) := by
  intro link waiting hmem
  rcases List.mem_cons.mp hmem with heq | hmem
  · exact haction link waiting heq.symm
  · exact h link waiting hmem

def Drained (s s' : State) (n : Nat) : Prop :=
  s.phase = .drain ∧ (∃ command rest, s.task.deferred = command :: rest ∧
    command.awaits n = true) ∧
  (s.task.shuttingDown = false → ∃ actions packet result,
    s'.history = s.history ++ (actions ++ [.wrote s.link (.call n) packet result]) ∧
      0 < s'.task.inPending n)

/-- No link is lost, and a deferred request stays so unless its turn has come or
the task ends. -/
structure Keeps (s s' : State) : Prop where
  history : ∃ actions, s'.history = s.history ++ actions ∧ LossFree actions
  deferred : ∀ n, 0 < s.task.deferred.countP (·.awaits n) →
    0 < s'.task.deferred.countP (·.awaits n) ∨ Drained s s' n ∨ s'.phase = .done

def State.failed (s : State) (phase : Phase) : State :=
  s.perform (s.task.failLink s.link).1 (s.task.failLink s.link).2 phase

theorem Keeps.of_eq {s s' : State} {actions : List Action}
    (hhistory : s'.history = s.history ++ actions) (hfree : LossFree actions)
    (hdeferred : s'.task.deferred = s.task.deferred) : Keeps s s' :=
  ⟨⟨actions, hhistory, hfree⟩, fun _ hn => .inl (hdeferred ▸ hn)⟩

theorem stop_keeps {s : State} {t : Task} {actions : List Action} (h : LossFree actions) :
    Keeps s (s.stop t actions) := by
  refine ⟨⟨_, rfl, h.append ?_⟩, fun _ _ => .inr (.inr rfl)⟩
  intro link waiting hmem
  simp at hmem

theorem closeDown_keeps (s : State) (cause : CloseCause) : Keeps s (s.closeDown cause) := by
  apply stop_keeps
  refine LossFree.cons (by simp) (LossFree.append ?_ ?_)
  · exact .of_local failPending_isLocal
  · exact .of_local (answered_isLocal _ _)

theorem giveUp_keeps (s : State) : Keeps s s.giveUp :=
  stop_keeps (.of_local (answered_isLocal _ _))

theorem replay_keeps {s : State} {command : Command} {rest : List Command}
    {send : SendResult} {t : Task} {actions : List Action} {result : Except Error Unit}
    (hphase : s.phase = .drain) (hdeferred : s.task.deferred = command :: rest)
    (h : Handling (s.task.setDeferred rest) s.link send command t actions result)
    (phase : Phase) :
    Keeps s (s.perform t (.handled s.link command :: actions) phase) := by
  refine ⟨⟨_, rfl, .cons (by simp) (.of_local h.isLocal)⟩, fun n hn => ?_⟩
  rw [hdeferred, List.countP_cons] at hn
  by_cases hrest : 0 < rest.countP (·.awaits n)
  · refine .inl ?_
    rw [State.perform, h.deferred_eq]
    exact hrest
  · have hawaits : command.awaits n = true := by
      by_contra hawaits
      rw [if_neg hawaits] at hn
      exact hrest hn
    refine .inr (.inl ⟨hphase, ⟨command, rest, hdeferred, hawaits⟩, fun hdown => ?_⟩)
    cases h with
    | refused hdown' => simp [hdown] at hdown'
    | @requested sync packet ticket pushes =>
        obtain rfl : ticket = n := by simpa [Command.awaits] using hawaits
        refine ⟨.handled s.link (.request sync packet ticket pushes) ::
          (s.task.setDeferred rest).overwritten s.link sync, packet, send, rfl, ?_⟩
        have hlookup := AList.lookup_insert (a := sync) (b := Pending.mk ticket pushes)
          s.task.pending
        exact List.countP_pos_iff.mpr ⟨_, mem_entries_of_lookup hlookup, by simp⟩
    | _ => simp [Command.awaits] at hawaits

theorem take_keeps {s : State} {command : Command} {rest : List Command} {t : Task}
    {actions : List Action} (phase : Phase) (hfree : LossFree actions)
    (hdeferred : ∀ n, 0 < s.task.deferred.countP (·.awaits n) →
      0 < t.deferred.countP (·.awaits n)) :
    Keeps s ((s.takeCommand command rest).perform t actions phase) := by
  refine ⟨⟨.took command :: actions, ?_, .cons (by simp) hfree⟩, ?_⟩
  · simp [State.perform, State.takeCommand]
  · exact fun n hn => .inl (hdeferred n hn)

theorem handled_keeps {s : State} {command : Command} {rest : List Command}
    {send : SendResult} {t : Task} {actions : List Action} {result : Except Error Unit}
    (h : Handling s.task s.link send command t actions result) :
    Keeps s ((s.takeCommand command rest).perform t
      (.handled s.link command :: actions) .drain) := by
  apply take_keeps _ (.cons (by simp) (.of_local h.isLocal))
  rw [h.deferred_eq]
  exact fun _ hn => hn

theorem receive_deferred (s : State) (ack : SendResult) (inbound : Inbound) :
    (s.receive ack inbound).task.deferred = s.task.deferred :=
  (handleResponse_routing s.task s.link s.receiverAlive ack
    ⟨inbound.response, s.link, s.read s.link⟩).deferred_eq

theorem receive_keeps (s : State) (ack : SendResult) (inbound : Inbound) :
    Keeps s (s.receive ack inbound) := by
  have hrouting := handleResponse_routing s.task s.link s.receiverAlive ack
    ⟨inbound.response, s.link, s.read s.link⟩
  exact .of_eq rfl (.of_local hrouting.isLocal) (receive_deferred s ack inbound)

structure Rests (s s' : State) : Prop where
  history : ∃ actions, s'.history = s.history ++ actions ∧ LossFree actions
  deferred : s'.task.deferred = s.task.deferred ∨ s'.phase = .done

theorem lose_rests {s : State} (hlive : s.phase ≠ .done) :
    ∃ phase, phase ≠ .done ∧ Rests (s.failed phase) s.lose := by
  simp only [State.lose]
  split
  · exact ⟨_, by simp, ⟨[], (List.append_nil _).symm, by simp [LossFree]⟩, .inl rfl⟩
  · exact ⟨_, hlive, (giveUp_keeps _).history, .inr rfl⟩

theorem Keeps.trans_done {s s' s'' : State} (h : Keeps s s') (h' : Keeps s' s'')
    (hdone : s''.phase = .done) : Keeps s s'' := by
  obtain ⟨actions, hhistory, hfree⟩ := h.history
  obtain ⟨actions', hhistory', hfree'⟩ := h'.history
  refine ⟨⟨actions ++ actions', ?_, hfree.append hfree'⟩, fun _ _ => .inr (.inr hdone)⟩
  rw [hhistory', hhistory, List.append_assoc]

theorem takeClose_keeps (s : State) (rest : List Command) :
    Keeps s (s.takeCommand .close rest) :=
  .of_eq rfl (.cons (by simp) (by simp [LossFree])) rfl

/-- A step of the task loses no link, or it fails the current one, and then only
after the command whose `send` failed was handled. -/
theorem TaskMove.losses {rmp : Rmp} {s s' : State} {event : TaskEvent}
    (h : TaskMove rmp s event s') :
    Keeps s s' ∨ s.phase.up = true ∧ ∃ x phase, Accounted s x ∧ Keeps s x ∧
      x.link = s.link ∧ x.phase ≠ .done ∧ phase ≠ .done ∧ Rests (x.failed phase) s' := by
  cases h with
  | drained | woke | attemptFailed | replyRejected | idAccepted =>
      exact .inl (.of_eq (List.append_nil _).symm (by simp [LossFree]) rfl)
  | replayed hphase hdeferred hhandle =>
      exact .inl (replay_keeps hphase hdeferred (handling_of_eq hhandle) _)
  | @replayFailed command rest send t actions err hphase hdeferred hhandle =>
      have hhandling := handling_of_eq hhandle
      refine .inr ⟨by simp [hphase, Phase.up],
        s.perform t (.handled s.link command :: actions) .drain, .select, ?_,
        replay_keeps hphase hdeferred hhandling _, rfl, by simp [State.perform], by simp, ?_⟩
      · exact perform_accounted _ ((hhandling.settles.pop hdeferred).prepend
          (fun _ => rfl) (fun _ => rfl) (by simp))
      · have hhistory : s.history ++ (.handled s.link command :: actions ++
            (t.failLink s.link).2) =
            s.history ++ (.handled s.link command :: actions) ++ (t.failLink s.link).2 ++ [] := by
          simp
        exact ⟨⟨[], hhistory, by simp [LossFree]⟩, .inl rfl⟩
  | handled hphase hchannel hclose hhandle =>
      exact .inl (handled_keeps (handling_of_eq hhandle))
  | @handledLost command rest send t actions err hphase hchannel hclose hhandle =>
      have hhandling := handling_of_eq hhandle
      have hlive : ((s.takeCommand command rest).perform t
          (.handled s.link command :: actions) .drain).phase ≠ .done := by
        simp [State.perform]
      obtain ⟨phase, hphase', hlose⟩ := lose_rests hlive
      refine .inr ⟨by simp [hphase, Phase.up], _, phase, ?_, handled_keeps hhandling, rfl, hlive,
        hphase', hlose⟩
      exact take_accounted _ hchannel
        (hhandling.settles.prepend (fun _ => rfl) (fun _ => rfl) (by simp))
  | closeCommand hphase hchannel =>
      exact .inl ((takeClose_keeps s _).trans_done (closeDown_keeps _ _) rfl)
  | channelClosed => exact .inl (closeDown_keeps s _)
  | received => exact .inl (receive_keeps s _ _)
  | receivedLast =>
      exact .inl ((receive_keeps s _ _).trans_done (closeDown_keeps _ _) rfl)
  | linkLost hphase =>
      have hlive : s.phase ≠ .done := by simp [hphase]
      obtain ⟨phase, hphase', hlose⟩ := lose_rests hlive
      exact .inr ⟨by simp [hphase, Phase.up], s, phase,
        ⟨[], by simp, rfl, rfl, by simp, by simp, by simp⟩,
        .of_eq (List.append_nil _).symm (by simp [LossFree]) rfl, rfl, hlive, hphase', hlose⟩
  | deferred hphase hchannel hclose =>
      refine .inl (take_keeps _ (.of_local defer_isLocal) fun n hn => ?_)
      unfold Task.defer
      split
      · exact hn
      · rw [List.countP_append]
        omega
  | closeWhileDown hphase hchannel =>
      exact .inl ((takeClose_keeps s _).trans_done (giveUp_keeps _) rfl)
  | channelClosedWhileDown => exact .inl (giveUp_keeps s)
  | connected | authenticated | spawned =>
      exact .inl (.of_eq rfl (.cons (by simp) (by simp [LossFree])) rfl)
  | reconnected =>
      exact .inl (.of_eq rfl (.cons (by simp) (.of_local (resubscribe_isLocal _ _))) rfl)

/-! ## The three promises -/

def Replays (n link : Nat) (after : List Action) : Prop :=
  ∃ mid later packet result rest,
    after = mid ++ .wrote later (.call n) packet result :: rest ∧ link < later ∧
      mid.countP (Action.answers n) = 0

theorem Replays.append {n link : Nat} {after : List Action} (h : Replays n link after)
    (actions : List Action) : Replays n link (after ++ actions) := by
  obtain ⟨mid, later, packet, result, rest, rfl, hlater, hmid⟩ := h
  exact ⟨mid, later, packet, result, rest ++ actions, by simp, hlater, hmid⟩

/-- A packet is written at most once; a request written to a lost link is
answered; a request deferred when a link is lost waits for a later one. -/
structure NeverReplayed (s : State) : Prop where
  once : ∀ n, s.history.countP (Action.writes n) ≤ 1
  failed : ∀ before link waiting after, s.history = before ++ .lost link waiting :: after →
    ∀ sync packet n pushes result, .took (.request sync packet n pushes) ∈ before →
      .wrote link (.call n) packet result ∈ before →
      (0 < before.countP (Action.answers n) ∨ .answered link n (.error .closed) ∈ after) ∧
        after.countP (Action.writes n) = 0
  kept : ∀ before link waiting after, s.history = before ++ .lost link waiting :: after →
    ∀ n ∈ waiting,
      (0 < s.task.deferred.countP (·.awaits n) ∧ after.countP (Action.answers n) = 0) ∨
        Replays n link after ∨ s.phase = .done

theorem Ledger.unanswered {s : State} (h : Ledger s) {n : Nat}
    (hheld : 0 < s.task.deferred.countP (·.awaits n) ∨ 0 < s.task.inPending n) :
    s.history.countP (Action.answers n) = 0 := by
  have hbalance := h.balance n
  have htakes := h.takes_le_one n
  have hrequest := countP_takesRequest_le_takes n s.history
  omega

/-! ### Requests written to a lost link -/

def FailsWritten (history : List Action) : Prop :=
  ∀ before link waiting after, history = before ++ .lost link waiting :: after →
    ∀ sync packet n pushes result, .took (.request sync packet n pushes) ∈ before →
      .wrote link (.call n) packet result ∈ before →
      0 < before.countP (Action.answers n) ∨ .answered link n (.error .closed) ∈ after

theorem FailsWritten.append {history actions : List Action} (h : FailsWritten history)
    (hfree : LossFree actions) : FailsWritten (history ++ actions) := by
  intro before link waiting after heq sync packet n pushes result htook hwrote
  rcases append_eq_split heq with ⟨after', hhistory, rfl⟩ | ⟨before', hactions, -⟩
  · exact (h before link waiting after' hhistory sync packet n pushes result htook hwrote).imp_right
      (List.mem_append_left _)
  · exact absurd (hactions ▸ List.mem_append_right _ List.mem_cons_self) (hfree link waiting)

theorem FailsWritten.grow {s s' : State} (h : FailsWritten s.history)
    (hgrow : ∃ actions, s'.history = s.history ++ actions ∧ LossFree actions) :
    FailsWritten s'.history := by
  obtain ⟨actions, hhistory, hfree⟩ := hgrow
  rw [hhistory]
  exact h.append hfree

theorem Ledger.failPending_answers {s : State} (h : Ledger s) {sync : Nat} {packet : Packet}
    {n : Nat} {pushes : Option Nat} {link : Nat} {result : SendResult}
    (htook : .took (.request sync packet n pushes) ∈ s.history)
    (hwrote : .wrote link (.call n) packet result ∈ s.history) :
    0 < s.history.countP (Action.answers n) ∨
      .answered s.link n (.error .closed) ∈ (s.task.failPending s.link).2 := by
  have hwrites : 0 < s.history.countP (Action.writes n) :=
    List.countP_pos_iff.mpr ⟨_, hwrote, by simp [Action.writes]⟩
  have honce := h.once n
  have htakes := h.takes_le_one n
  have hbalance := h.balance n
  have hrequest := h.takesRequest_eq_one htook
  have hdeferred := countP_awaits_le_carries n s.task.deferred
  by_cases hanswers : 0 < s.history.countP (Action.answers n)
  · exact .inl hanswers
  · have hpending : 0 < s.task.inPending n := by omega
    obtain ⟨entry, hentry, hticket⟩ := List.countP_pos_iff.mp hpending
    obtain rfl : entry.2.ticket = n := by simpa using hticket
    exact .inr (List.mem_map_of_mem hentry)

theorem failed_failsWritten {s : State} (hledger : Ledger s) (h : FailsWritten s.history)
    (phase : Phase) : FailsWritten (s.failed phase).history := by
  intro before link waiting after heq sync packet n pushes result htook hwrote
  have hsplit : s.history ++ (.lost s.link (s.task.deferred.filterMap Command.reply?) ::
      (s.task.failPending s.link).2) = before ++ .lost link waiting :: after := heq
  rcases append_eq_split hsplit with ⟨after', hhistory, rfl⟩ | ⟨before', hactions, rfl⟩
  · exact (h before link waiting after' hhistory sync packet n pushes result htook hwrote).imp_right
      (List.mem_append_left _)
  · -- the record is the one `fail_link` makes
    rcases List.cons_eq_append_iff.mp hactions with ⟨rfl, hrecord⟩ | ⟨rest, rfl, hrest⟩
    · obtain ⟨hlost, rfl⟩ := List.cons.inj hrecord
      obtain ⟨rfl, rfl⟩ := Action.lost.inj hlost
      rw [List.append_nil] at htook hwrote ⊢
      exact hledger.failPending_answers htook hwrote
    · have hmem : .lost link waiting ∈ (s.task.failPending s.link).2 :=
        hrest ▸ List.mem_append_right _ List.mem_cons_self
      exact (failPending_isLocal _ hmem).elim

theorem Reachable.failsWritten {rmp : Rmp} {options : ConnectOptions} {s : State}
    (h : Reachable rmp options s) : FailsWritten s.history := by
  refine h.task_invariant (I := fun s => FailsWritten s.history) ?_ ?_ ?_
  · intro before link waiting after heq
    simp [State.initial] at heq
  · intro s s' hside hfails
    rw [hside.history]
    exact hfails
  · intro s s' event hreach hfails _ hmove
    rcases hmove.losses with hkeeps | ⟨-, x, phase, haccounted, hkeeps, -, -, -, hrests⟩
    · exact hfails.grow hkeeps.history
    · have hledger := (Reachable.ledger hreach).accounted haccounted
      exact (failed_failsWritten hledger (hfails.grow hkeeps.history) phase).grow
        hrests.history

/-! ### Requests that were still deferred -/

def Task.sends (t : Task) : Command → Bool
  | .request _ _ _ _ => !t.shuttingDown
  | .fire _ _ => true
  | .watch _ key _ => (t.watchers.lookup key).isNone
  | .unwatch id key _ =>
      (t.watchers.lookup key).any fun list => decide (list.filter (·.id ≠ id) = [])
  | .close => false

theorem Handling.not_ok_of_sends {t t' : Task} {link : Nat} {send : SendResult}
    {command : Command} {actions : List Action} {result : Except Error Unit}
    (h : Handling t link send command t' actions result) (hsends : t.sends command = true)
    (hfails : send.isSent = false) : result ≠ .ok () := by
  have hresult : send.result ≠ .ok () := by
    cases send with
    | sent => simp [SendResult.isSent] at hfails
    | failed err buffered => simp [SendResult.result]
  cases h with
  | requested | fired | watchedFirst | unwatchedLast => exact hresult
  | refused hdown => simp [Task.sends, hdown] at hsends
  | watched hlookup | unwatchedUnknown hlookup => simp [Task.sends, hlookup] at hsends
  | unwatched hlookup hkept =>
      simp only [Task.sends, hlookup, Option.any_some, decide_eq_true_eq] at hsends
      exact absurd hsends hkept
  | close => simp [Task.sends] at hsends

/-- The steps at which a request left over by a lost link stays on its way to a
later one: the drain does not meet it while shutting down, and the select that
follows a failed drain goes on to lose the link or to end the task. -/
def ReplaySafe (s : State) : Event → Prop
  | .task (.drain _) => s.task.shuttingDown = true → ∀ command rest,
      s.task.deferred = command :: rest → command.reply? = none
  | .task (.packet _) => s.task.deferred.filterMap Command.reply? = []
  | .task (.command send) => s.task.deferred.filterMap Command.reply? = [] ∨
      ∀ command rest, s.channel = command :: rest → command ≠ .close →
        s.task.sends command = true ∧ send.isSent = false
  | _ => True

theorem awaits_eq_zero {commands : List Command}
    (h : commands.filterMap Command.reply? = []) (n : Nat) :
    commands.countP (·.awaits n) = 0 := by
  rw [List.countP_eq_zero]
  intro command hmem hawaits
  have := List.filterMap_eq_nil_iff.mp h command hmem
  simp [Command.awaits_iff.mp hawaits] at this

theorem awaits_pos_of_mem {commands : List Command} {n : Nat}
    (h : n ∈ commands.filterMap Command.reply?) : 0 < commands.countP (·.awaits n) := by
  obtain ⟨command, hmem, hreply⟩ := List.mem_filterMap.mp h
  exact List.countP_pos_iff.mpr ⟨command, hmem, Command.awaits_iff.mpr hreply⟩

structure Abandoned (s : State) : Prop where
  lost_le : ∀ link waiting, .lost link waiting ∈ s.history →
    link ≤ s.link ∧ ¬ s.phase.first
  drain : s.phase = .drain → ∀ waiting, .lost s.link waiting ∈ s.history → ∀ n ∈ waiting,
    s.task.deferred.countP (·.awaits n) = 0

def KeepsDeferred (s : State) : Prop :=
  ∀ before link waiting after, s.history = before ++ .lost link waiting :: after →
    ∀ n ∈ waiting, 0 < s.task.deferred.countP (·.awaits n) ∨ Replays n link after ∨
      s.phase = .done

theorem TaskMove.event_of_drain {rmp : Rmp} {s s' : State} {event : TaskEvent}
    (h : TaskMove rmp s event s') (hdrain : s.phase = .drain) : ∃ send, event = .drain send := by
  cases h with
  | drained | replayed | replayFailed => exact ⟨_, rfl⟩
  | attemptFailed hphase | replyRejected hsocket hphase =>
      simp [hdrain, Phase.attempt] at hphase
  | spawned hreply | reconnected hreply =>
      have := hreply.phase.2
      simp [hdrain, Phase.attempt] at this
  | _ => simp_all

theorem KeepsDeferred.grow {s s' : State} (h : KeepsDeferred s) (habandoned : Abandoned s)
    (hledger : Ledger s') (hkeeps : Keeps s s') (hlive : s.phase ≠ .done)
    (hdown : s.phase = .drain → s.task.shuttingDown = true → ∀ command rest,
      s.task.deferred = command :: rest → command.reply? = none) : KeepsDeferred s' := by
  intro before link waiting after heq n hn
  obtain ⟨actions, hhistory, hfree⟩ := hkeeps.history
  rw [hhistory] at heq
  rcases append_eq_split heq with ⟨after', hold, rfl⟩ | ⟨before', hactions, -⟩
  · rcases h before link waiting after' hold n hn with hdeferred | hreplays | hdone
    · rcases hkeeps.deferred n hdeferred with hstill | hdrained | hdone
      · exact .inl hstill
      · refine .inr (.inl ?_)
        obtain ⟨hphase, ⟨command, rest, hqueue, hawaits⟩, hwritten⟩ := hdrained
        have hopen : s.task.shuttingDown = false := by
          by_contra hshut
          have := hdown hphase (by simpa using hshut) command rest hqueue
          simp [Command.awaits_iff.mp hawaits] at this
        obtain ⟨written, packet, result, hwrote, hpending⟩ := hwritten hopen
        -- the request left over by `link` is written to the current, later one
        have hmem : .lost link waiting ∈ s.history := by simp [hold]
        have hlater : link < s.link := by
          refine lt_of_le_of_ne (habandoned.lost_le link waiting hmem).1 ?_
          rintro rfl
          have := habandoned.drain hphase waiting hmem n hn
          omega
        obtain rfl : actions = written ++ [.wrote s.link (.call n) packet result] :=
          List.append_cancel_left (hhistory.symm.trans hwrote)
        refine ⟨after' ++ written, s.link, packet, result, [], by simp, hlater, ?_⟩
        have hunanswered := hledger.unanswered (.inr hpending)
        rw [hhistory, hold] at hunanswered
        simp only [List.countP_append, List.countP_cons] at hunanswered ⊢
        omega
      · exact .inr (.inr hdone)
    · exact .inr (.inl (hreplays.append actions))
    · exact absurd hdone hlive
  · exact absurd (hactions ▸ List.mem_append_right _ List.mem_cons_self) (hfree link waiting)

theorem KeepsDeferred.failed {s : State} (h : KeepsDeferred s) (hlive : s.phase ≠ .done)
    (phase : Phase) : KeepsDeferred (s.failed phase) := by
  intro before link waiting after heq n hn
  have hsplit : s.history ++ (.lost s.link (s.task.deferred.filterMap Command.reply?) ::
      (s.task.failPending s.link).2) = before ++ .lost link waiting :: after := heq
  rcases append_eq_split hsplit with ⟨after', hold, rfl⟩ | ⟨before', hactions, rfl⟩
  · rcases h before link waiting after' hold n hn with hdeferred | hreplays | hdone
    · exact .inl hdeferred
    · exact .inr (.inl (hreplays.append _))
    · exact absurd hdone hlive
  · rcases List.cons_eq_append_iff.mp hactions with ⟨rfl, hrecord⟩ | ⟨rest, rfl, hrest⟩
    · obtain ⟨hlost, rfl⟩ := List.cons.inj hrecord
      obtain ⟨rfl, rfl⟩ := Action.lost.inj hlost
      exact .inl (awaits_pos_of_mem hn)
    · have hlocal := failPending_isLocal (.lost link waiting)
        (hrest ▸ List.mem_append_right _ List.mem_cons_self)
      exact hlocal.elim

theorem KeepsDeferred.rests {s s' : State} (h : KeepsDeferred s) (hlive : s.phase ≠ .done)
    (hrests : Rests s s') : KeepsDeferred s' := by
  intro before link waiting after heq n hn
  obtain ⟨actions, hhistory, hfree⟩ := hrests.history
  rw [hhistory] at heq
  rcases hrests.deferred with hdeferred | hdone
  · rcases append_eq_split heq with ⟨after', hold, rfl⟩ | ⟨before', hactions, -⟩
    · rcases h before link waiting after' hold n hn with hstill | hreplays | hdone
      · exact .inl (hdeferred ▸ hstill)
      · exact .inr (.inl (hreplays.append actions))
      · exact absurd hdone hlive
    · exact absurd (hactions ▸ List.mem_append_right _ List.mem_cons_self) (hfree link waiting)
  · exact .inr (.inr hdone)

theorem TaskMove.lost_mem {rmp : Rmp} {s s' : State} {event : TaskEvent}
    (h : TaskMove rmp s event s') {link : Nat} {waiting : List Nat}
    (hmem : .lost link waiting ∈ s'.history) :
    .lost link waiting ∈ s.history ∨ s.phase.up = true ∧ link = s.link := by
  have hgrow {x y : State} (hmem : .lost link waiting ∈ y.history)
      (hgrow : ∃ actions, y.history = x.history ++ actions ∧ LossFree actions) :
      .lost link waiting ∈ x.history := by
    obtain ⟨actions, hhistory, hfree⟩ := hgrow
    rw [hhistory] at hmem
    exact (List.mem_append.mp hmem).resolve_right (hfree link waiting)
  rcases h.losses with hkeeps | ⟨hup, x, phase, -, hkeeps, hlink, -, -, hrests⟩
  · exact .inl (hgrow hmem hkeeps.history)
  · have hfailed : .lost link waiting ∈ x.history ++ (.lost x.link
        (x.task.deferred.filterMap Command.reply?) :: (x.task.failPending x.link).2) :=
      hgrow hmem hrests.history
    rcases List.mem_append.mp hfailed with hold | hnew
    · exact .inl (hgrow hold hkeeps.history)
    · rcases List.mem_cons.mp hnew with hlost | hpending
      · exact .inr ⟨hup, hlink ▸ (Action.lost.inj hlost).1⟩
      · exact (failPending_isLocal _ hpending).elim

theorem Abandoned.moved {rmp : Rmp} {s s' : State} {event : TaskEvent} (h : Abandoned s)
    (hlinks : Links s) (hmove : TaskMove rmp s event s')
    (hsafe : ReplaySafe s (.task event)) : Abandoned s' where
  lost_le link waiting hmem := by
    rcases hmove.lost_mem hmem with hold | ⟨hup, rfl⟩
    · obtain ⟨hle, hfirst⟩ := h.lost_le link waiting hold
      obtain ⟨hlink, hfirst'⟩ := hmove.link_le hlinks hfirst
      exact ⟨hle.trans hlink, hfirst'⟩
    · have hfirst : ¬ s.phase.first := by
        intro hfirst
        cases hphase : s.phase <;> simp_all [Phase.up, Phase.first, Phase.attempt]
      exact hmove.link_le hlinks hfirst
  drain hdrain waiting hmem n hn := by
    have hold := hmove.lost_mem hmem
    cases hmove with
    | replayed hphase hdeferred hhandle =>
        have hmem' : .lost s.link waiting ∈ s.history := by
          rcases (List.mem_append.mp hmem) with hmem | hmem
          · exact hmem
          · rcases List.mem_cons.mp hmem with hmem | hmem
            · cases hmem
            · exact ((handling_of_eq hhandle).isLocal _ hmem).elim
        have hzero := h.drain hphase waiting hmem' n hn
        rw [hdeferred, List.countP_cons] at hzero
        rw [State.perform, (handling_of_eq hhandle).deferred_eq, Task.setDeferred_deferred]
        omega
    | handled hphase hchannel hclose hhandle =>
        rw [State.perform, (handling_of_eq hhandle).deferred_eq]
        rcases hsafe with hnone | hfails
        · exact awaits_eq_zero hnone n
        · obtain ⟨hsends, hsend⟩ := hfails _ _ hchannel hclose
          exact absurd rfl ((handling_of_eq hhandle).not_ok_of_sends hsends hsend)
    | received =>
        rw [receive_deferred]
        exact awaits_eq_zero hsafe n
    | spawned hreply =>
        rcases hold with hold | ⟨hup, -⟩
        · exact absurd hreply.phase.2 (h.lost_le _ _ hold).2
        · have := hreply.phase.2
          cases hphase : s.phase <;> simp_all [Phase.up, Phase.attempt]
    | reconnected hreply =>
        rcases hold with hold | ⟨hup, -⟩
        · obtain ⟨hle, hfirst⟩ := h.lost_le _ _ hold
          have := (hlinks.socket _ hreply.phase.1).2 hfirst
          exact absurd hle (by simpa using this)
        · have := hreply.phase.2
          cases hphase : s.phase <;> simp_all [Phase.up, Phase.attempt]
    | handledLost | linkLost => exact absurd hdrain (lose_ne_drain _)
    | attemptFailed hphase hafter | replyRejected hsocket hphase hafter =>
        obtain ⟨-, rfl | ⟨-, delay, rfl⟩⟩ := afterFailure_cases hafter <;> simp at hdrain
    | connected hphase hafter =>
        have hdown := afterSend_not_up (greeted_phase _ _ _).2.2 hafter
        obtain rfl : _ = Phase.drain := hdrain
        simp [Phase.up] at hdown
    | authenticated hphase huser hafter =>
        have hdown := afterSend_not_up rfl hafter
        obtain rfl : _ = Phase.drain := hdrain
        simp [Phase.up] at hdown
    | _ => simp [State.perform, State.closeDown, State.giveUp, State.stop] at hdrain

theorem ReachableBy.keepsDeferred {rmp : Rmp} {options : ConnectOptions} {s : State}
    (h : ReachableBy rmp options ReplaySafe s) : Abandoned s ∧ KeepsDeferred s := by
  refine h.task_invariant (I := fun s => Abandoned s ∧ KeepsDeferred s) ?_ ?_ ?_
  · refine ⟨⟨by simp [State.initial], by simp [State.initial]⟩, ?_⟩
    intro before link waiting after heq
    simp [State.initial] at heq
  · rintro s s' hside ⟨habandoned, hkept⟩
    refine ⟨⟨?_, ?_⟩, ?_⟩
    · rw [hside.history, hside.link, hside.phase]
      exact habandoned.lost_le
    · rw [hside.history, hside.link, hside.phase, hside.task]
      exact habandoned.drain
    · unfold KeepsDeferred
      rw [hside.history, hside.phase, hside.task]
      exact hkept
  · rintro s s' event hreach ⟨habandoned, hkept⟩ hsafe hmove
    have hreachable : Reachable rmp options s := hreach.weaken
    refine ⟨habandoned.moved hreachable.links hmove hsafe, ?_⟩
    have hdown (hdrain : s.phase = .drain) (hshut : s.task.shuttingDown = true) :
        ∀ command rest, s.task.deferred = command :: rest → command.reply? = none := by
      obtain ⟨send, rfl⟩ := hmove.event_of_drain hdrain
      exact hsafe hshut
    have hlive := hmove.not_done
    rcases hmove.losses with
      hkeeps | ⟨-, x, phase, haccounted, hkeeps, -, hx, hphase, hrests⟩
    · exact hkept.grow habandoned (hreachable.ledger.accounted hmove.accounted) hkeeps
        hlive hdown
    · have hgrown := hkept.grow habandoned (hreachable.ledger.accounted haccounted)
        hkeeps hlive hdown
      exact (hgrown.failed hx phase).rests hphase hrests

/-- No request is ever replayed, in every run of safe steps. -/
theorem never_replayed {rmp : Rmp} {options : ConnectOptions} {s : State}
    (h : ReachableBy rmp options ReplaySafe s) : NeverReplayed s := by
  have hreachable : Reachable rmp options s := h.weaken
  have hledger := hreachable.ledger
  refine ⟨hledger.writes_le_one, ?_, ?_⟩
  · intro before link waiting after heq sync packet n pushes result htook hwrote
    refine ⟨hreachable.failsWritten before link waiting after heq sync packet n pushes result
      htook hwrote, ?_⟩
    have hle := hledger.writes_le_one n
    have hpos : 0 < before.countP (Action.writes n) :=
      List.countP_pos_iff.mpr ⟨_, hwrote, by simp [Action.writes]⟩
    rw [heq, List.countP_append, List.countP_cons] at hle
    omega
  · intro before link waiting after heq n hn
    rcases h.keepsDeferred.2 before link waiting after heq n hn with hdeferred | hlater
    · refine .inl ⟨hdeferred, ?_⟩
      have hunanswered := hledger.unanswered (.inl hdeferred)
      rw [heq, List.countP_append, List.countP_cons] at hunanswered
      omega
    · exact .inr hlater

def sampleFailedDrain : List Event :=
  sampleHandshake 0 [] ++
    [Event.task (.drain .sent), .task (.linkError .closed), .caller (.call none 1 [] false),
      .caller (.submit 1), .task .reconnectCommand, .task (.handshakeFailed .closed),
      .caller (.call none 1 [] false), .caller (.submit 2), .task .reconnectCommand] ++
    sampleHandshake 1 [] ++ [Event.task (.drain (.failed .closed false))]

def replaySafe (s : State) : Event → Bool
  | .task (.drain _) => !s.task.shuttingDown
  | .task (.packet _) | .task (.command _) =>
      (s.task.deferred.filterMap Command.reply?).isEmpty
  | _ => true

theorem replaySafe_sound (s : State) (event : Event) (h : replaySafe s event = true) :
    ReplaySafe s event := by
  unfold replaySafe at h
  unfold ReplaySafe
  split at h <;> simp_all

/-- Losing the link at once leaves the second request to link 2. -/
theorem never_replayed_sample :
    ∃ s, ReachableBy fixintRmp {} ReplaySafe s ∧
      (s.history.any fun | .lost 1 [2] => true | _ => false) = true ∧ NeverReplayed s := by
  obtain ⟨s, hreach, hcheck⟩ := reaches_of_guarded (step fixintRmp) replaySafe
    replaySafe_sound (.initial {})
    (sampleFailedDrain ++ [Event.task (.linkError .closed), .task .wake] ++
      sampleHandshake 2 [] ++ [Event.task (.drain .sent)])
    (fun s => s.history.any fun | .lost 1 [2] => true | _ => false) (by decide +kernel)
  exact ⟨s, hreach, hcheck, never_replayed hreach⟩

def Action.loses (link : Nat) (waiting : List Nat) : Action → Bool
  | .lost l w => l == link && w == waiting
  | _ => false

def Action.writesTo (link n : Nat) : Action → Bool
  | .wrote l (.call ticket) _ _ => l == link && ticket == n
  | _ => false

/-- A packet read after the failed drain sends the second request to the lost link. -/
theorem deferred_request_written_to_lost_link :
    ¬ ∀ rmp options s, Reachable rmp options s → NeverReplayed s := by
  intro hall
  obtain ⟨s, hreach, hcheck⟩ := reaches_of_check (step fixintRmp) (.initial {})
    (sampleFailedDrain ++ [Event.server 1 ⟨{ kind := .event, sync := 0 }, none⟩,
      .task (.packet .sent), .task (.drain .sent)])
    (fun s => s.history.any (Action.loses 1 [2]) &&
      (s.history.all fun action => !action.writes 2 || action.writesTo 1 2) &&
      decide (s.task.deferred.countP (·.awaits 2) = 0 ∧ s.phase = .drain))
    (by decide +kernel)
  simp only [Bool.and_eq_true, decide_eq_true_eq, List.any_eq_true, List.all_eq_true] at hcheck
  obtain ⟨⟨⟨action, hmem, hlost⟩, hwrites⟩, hdeferred, hphase⟩ := hcheck
  have haction : action = .lost 1 [2] := by
    cases action with
    | lost link waiting =>
        simp only [Action.loses, Bool.and_eq_true, beq_iff_eq] at hlost
        rw [hlost.1, hlost.2]
    | _ => contradiction
  subst haction
  obtain ⟨before, after, heq⟩ := List.append_of_mem hmem
  rcases (hall fixintRmp {} s hreach).kept before 1 [2] after heq 2 (by simp) with
    ⟨hstill, -⟩ | ⟨mid, later, packet, result, rest, rfl, hlater, -⟩ | hdone
  · omega
  · have hlink := hwrites (.wrote later (.call 2) packet result) (by simp [heq])
    simp only [Action.writes, Action.writesTo, beq_self_eq_true, Bool.not_true, Bool.false_or,
      Bool.and_true, beq_iff_eq] at hlink
    omega
  · simp [hphase] at hdone

end Tarant.Connection
