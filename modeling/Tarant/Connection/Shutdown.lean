import Tarant.Connection.Records
import Tarant.Connection.Settlement

/-!
# Closing and shutting down

`Command::Close` promises to finish what is in flight, and `shutting_down`
belongs to the link on which the server announced it.
-/

namespace Tarant.Connection

open Foundation

/-! ## `Close` -/

/-- Whatever follows once the task has taken `Close`, a request that was pending
sees its socket kept open, and no answer but the server's, until it is answered
or the link fails. -/
def LetsFinish (rmp : Rmp) (s : State) : Prop :=
  ∀ send s₁ s₂, step rmp s (.task (.command send)) = some s₁ →
    Reaches (step rmp) anyStep s₁ s₂ → ∀ n, 0 < s.task.inPending n →
    ∀ before record after, s₂.history = s.history ++ (before ++ record :: after) →
      (∀ link waiting, .lost link waiting ∉ before) →
      before.countP (Action.answers n) = 0 →
      (∀ link cause, record ≠ .closedSocket link cause) ∧
        ∀ link answer, record = .answered link n answer → ∃ arrival, answer = .reply arrival

theorem step_close {rmp : Rmp} {s : State} {rest : List Command} {send : SendResult}
    (hphase : s.phase = .select) (hchannel : s.channel = .close :: rest) :
    step rmp s (.task (.command send)) =
      some ((s.takeCommand .close rest).closeDown .command) := by
  simp [step, taskStep, hphase, State.commandStep, hchannel]

theorem closeDown_history (s : State) (rest : List Command) :
    ∃ after, ((s.takeCommand .close rest).closeDown .command).history =
      s.history ++ ([Action.took .close] ++ Action.closedSocket s.link .command :: after) :=
  ⟨_, List.append_assoc _ _ _⟩

theorem not_letsFinish {rmp : Rmp} {s : State} {rest : List Command} {n : Nat}
    (hphase : s.phase = .select) (hchannel : s.channel = .close :: rest)
    (hpending : 0 < s.task.inPending n) : ¬ LetsFinish rmp s := by
  intro hfinish
  obtain ⟨after, hhistory⟩ := closeDown_history s rest
  have hclosed := (hfinish .sent _ _ (step_close hphase hchannel) .refl n hpending
    [.took .close] _ after hhistory (by simp) (by simp [Action.answers])).1
  exact hclosed s.link .command rfl

theorem pending_eq_empty_iff {t : Task} : t.pending = ∅ ↔ ∀ n, t.inPending n = 0 := by
  constructor
  · intro hempty n
    simp [Task.inPending, hempty]
  · intro hall
    refine AList.ext (List.eq_nil_iff_forall_not_mem.mpr fun entry hmem => ?_)
    have hpending : 0 < t.inPending entry.2.ticket :=
      List.countP_pos_iff.mpr ⟨entry, hmem, by simp⟩
    have := hall entry.2.ticket
    omega

theorem closeDown_answers {s : State} {rest : List Command} {n : Nat}
    (hpending : 0 < s.task.inPending n) :
    .answered s.link n (.error .closed) ∈
      ((s.takeCommand .close rest).closeDown .command).history := by
  obtain ⟨entry, hentry, hticket⟩ := List.countP_pos_iff.mp hpending
  obtain rfl : entry.2.ticket = n := by simpa using hticket
  have hfailed : .answered s.link entry.2.ticket (.error .closed) ∈
      (s.task.failPending s.link).2 := List.mem_map_of_mem hentry
  simp only [State.closeDown, State.stop, List.mem_append, List.mem_cons]
  exact .inr (.inl (.inr (.inl hfailed)))

/--
`Close` lets what is in flight finish exactly when nothing is in flight.  In
every run a request that is pending when the task takes `Close` gets one answer,
and it is `Error::Closed`.
-/
theorem close_letsFinish_iff {rmp : Rmp} {options : ConnectOptions} {s : State}
    {rest : List Command} (h : Reachable rmp options s) (hphase : s.phase = .select)
    (hchannel : s.channel = .close :: rest) :
    (LetsFinish rmp s ↔ s.task.pending = ∅) ∧
      ∀ send s₁ s₂, step rmp s (.task (.command send)) = some s₁ →
        Reaches (step rmp) anyStep s₁ s₂ → ∀ n, 0 < s.task.inPending n →
        .answered s.link n (.error .closed) ∈ s₂.history ∧
          s₂.history.countP (Action.answers n) = 1 := by
  refine ⟨⟨fun hfinish => ?_, fun hempty => ?_⟩, ?_⟩
  · rw [pending_eq_empty_iff]
    intro n
    by_contra hne
    exact not_letsFinish hphase hchannel (Nat.pos_of_ne_zero hne) hfinish
  · intro send s₁ s₂ _ _ n hpending
    simp [pending_eq_empty_iff.mp hempty n] at hpending
  · intro send s₁ s₂ hstep hreach n hpending
    have hreach₂ : Reachable rmp options s₂ := (h.next trivial hstep).trans hreach
    rw [step_close hphase hchannel, Option.some.injEq] at hstep
    subst hstep
    obtain ⟨actions, hhistory⟩ := history_grows hreach
    have hanswered : .answered s.link n (.error .closed) ∈ s₂.history := by
      rw [hhistory]
      exact List.mem_append_left _ (closeDown_answers hpending)
    have hpos : 0 < s₂.history.countP (Action.answers n) :=
      List.countP_pos_iff.mpr ⟨_, hanswered, by simp [Action.answers]⟩
    have hbalance := hreach₂.ledger.balance n
    have htakes := hreach₂.ledger.takes_le_one n
    have hrequest := countP_takesRequest_le_takes n s₂.history
    exact ⟨hanswered, by omega⟩

def sampleClose : List Event := sampleRequest ++ [Event.caller .close]

theorem close_letsFinish_iff_sample :
    ∃ s, Reachable fixintRmp {} s ∧ s.phase = .select ∧ s.channel = [.close] ∧
      (LetsFinish fixintRmp s ↔ s.task.pending = ∅) := by
  obtain ⟨s, hreach, hcheck⟩ := reaches_of_check (step fixintRmp) (.initial {}) sampleClose
    (fun s => decide (s.phase = .select ∧ s.channel = [.close])) (by decide +kernel)
  simp only [decide_eq_true_eq] at hcheck
  exact ⟨s, hreach, hcheck.1, hcheck.2, (close_letsFinish_iff hreach hcheck.1 hcheck.2).1⟩

/-- `Close` with one request in flight. -/
theorem close_cuts_off_request :
    ¬ ∀ rmp options s rest, Reachable rmp options s → s.phase = .select →
      s.channel = .close :: rest → LetsFinish rmp s := by
  intro hall
  obtain ⟨s, hreach, hcheck⟩ := reaches_of_check (step fixintRmp) (.initial {}) sampleClose
    (fun s => decide (s.phase = .select ∧ s.channel = [.close] ∧ 0 < s.task.inPending 1))
    (by decide +kernel)
  simp only [decide_eq_true_eq] at hcheck
  obtain ⟨hphase, hchannel, hpending⟩ := hcheck
  exact not_letsFinish hphase hchannel hpending (hall fixintRmp {} s [] hreach hphase hchannel)

/-! ## `box.shutdown` -/

inductive Refuses (link : Nat) : Action → Prop where
  | request {ticket : Nat} : Refuses link (.answered link ticket (.error .shuttingDown))
  | socket : Refuses link (.closedSocket link .drained)

/-- Every refusal comes after an announcement on the link it is made on. -/
def ShutdownAnnounced (history : List Action) : Prop :=
  Justified (fun before record => ∀ link, Refuses link record → .announced link ∈ before) history

/-- A handshake does not complete while `shutting_down` is still set. -/
def RestartSafe (rmp : Rmp) (s : State) (event : Event) : Prop :=
  Completes rmp s event → s.task.shuttingDown = false

theorem Handling.shuttingDown_eq {t t' : Task} {link : Nat} {send : SendResult}
    {command : Command} {actions : List Action} {result : Except Error Unit}
    (h : Handling t link send command t' actions result) : t'.shuttingDown = t.shuttingDown := by
  cases h <;> rfl

theorem Handling.refuses {t t' : Task} {link : Nat} {send : SendResult} {command : Command}
    {actions : List Action} {result : Except Error Unit}
    (h : Handling t link send command t' actions result) :
    ∀ action ∈ actions, ∀ l, Refuses l action → l = link ∧ t.shuttingDown = true := by
  intro action hmem l hrefuses
  cases h.acts action hmem with
  | refused hdown =>
      cases hrefuses
      exact ⟨rfl, hdown⟩
  | _ => cases hrefuses

theorem Routing.announces {t t' : Task} {link : Nat} {alive : Nat → Bool} {ack : SendResult}
    {arrival : Arrival} {actions : List Action}
    (h : Routing t link alive ack arrival t' actions) (hdown : t'.shuttingDown = true) :
    t.shuttingDown = true ∨ .announced link ∈ actions := by
  cases h with
  | unwatched hkind hevent hlookup | notified hkind hevent hlookup =>
      rcases Bool.or_eq_true_iff.mp hdown with hdown | hdown
      · exact .inl hdown
      · exact .inr (by simp [hdown])
  | _ => exact .inl hdown

theorem Routing.not_refuses {t t' : Task} {link : Nat} {alive : Nat → Bool} {ack : SendResult}
    {arrival : Arrival} {actions : List Action}
    (h : Routing t link alive ack arrival t' actions) :
    ∀ action ∈ actions, ∀ l, ¬ Refuses l action := by
  intro action hmem l hrefuses
  cases h.acts action hmem <;> cases hrefuses

theorem ShutdownAnnounced.append {history actions : List Action}
    (h : ShutdownAnnounced history)
    (hactions : ∀ action ∈ actions, ∀ link, Refuses link action → .announced link ∈ history) :
    ShutdownAnnounced (history ++ actions) := by
  refine justified_append h fun before record after hsplit link hrefuses => ?_
  have hmem : record ∈ actions := hsplit ▸ List.mem_append_right _ List.mem_cons_self
  exact List.mem_append_left _ (hactions record hmem link hrefuses)

theorem TaskMove.shuttingDown_source {rmp : Rmp} {s s' : State} {event : TaskEvent}
    (h : TaskMove rmp s event s') (hpacket : ∀ ack, event ≠ .packet ack)
    (hsafe : RestartSafe rmp s (.task event)) (hup : s'.phase.up = true)
    (hdown : s'.task.shuttingDown = true) :
    s.phase.up = true ∧ s.task.shuttingDown = true ∧ s'.link = s.link := by
  cases h with
  | drained hphase => exact ⟨by rw [hphase]; rfl, hdown, rfl⟩
  | replayed hphase _ hhandle | handled hphase _ _ hhandle =>
      exact ⟨by rw [hphase]; rfl, (handling_of_eq hhandle).shuttingDown_eq ▸ hdown, rfl⟩
  | replayFailed hphase _ hhandle =>
      exact ⟨by rw [hphase]; rfl, (handling_of_eq hhandle).shuttingDown_eq ▸ hdown, rfl⟩
  | handledLost | linkLost => simp [lose_not_up] at hup
  | received | receivedLast => exact absurd rfl (hpacket _)
  | attemptFailed hphase hafter | replyRejected _ hphase hafter =>
      obtain ⟨-, rfl | ⟨-, delay, rfl⟩⟩ := afterFailure_cases hafter <;> simp [Phase.up] at hup
  | spawned hreply hinbound | reconnected hreply hinbound =>
      have hclear := hsafe ⟨_, _, _, _, _, _, rfl, hinbound, hreply⟩
      exact absurd (hclear.symm.trans hdown) Bool.false_ne_true
  | connected hphase hafter =>
      exact absurd (hup.symm.trans (afterSend_not_up (greeted_phase _ _ _).2.2 hafter)) (by simp)
  | authenticated hphase huser hafter =>
      exact absurd (hup.symm.trans (afterSend_not_up rfl hafter)) (by simp)
  | _ => simp [State.perform, State.closeDown, State.giveUp, State.stop, Phase.up] at hup

theorem TaskMove.refuses {rmp : Rmp} {s s' : State} {event : TaskEvent}
    (h : TaskMove rmp s event s') (hpacket : ∀ ack, event ≠ .packet ack) :
    ∃ actions, s'.history = s.history ++ actions ∧ ∀ action ∈ actions, ∀ link,
      Refuses link action → link = s.link ∧ s.phase.up = true ∧ s.task.shuttingDown = true := by
  obtain ⟨actions, hhistory, hrecorded⟩ := h.recorded
  refine ⟨actions, hhistory, fun action hmem link hrefuses => ?_⟩
  cases hrecorded action hmem with
  | handling _ hup _ hhandling hmem =>
      obtain ⟨hlink, hdown⟩ := hhandling.refuses action hmem link hrefuses
      exact ⟨hlink, hup, hdown⟩
  | routing _ _ _ hrouting hmem => exact absurd hrefuses (hrouting.not_refuses action hmem link)
  | settled hanswer => cases hrefuses; simp at hanswer
  | drained hevent => exact absurd hevent (hpacket _)
  | _ => cases hrefuses

structure ShutdownOwned (s : State) : Prop where
  flag : s.phase.up = true → s.task.shuttingDown = true → .announced s.link ∈ s.history
  history : ShutdownAnnounced s.history

theorem ShutdownOwned.receive {s : State} (h : ShutdownOwned s) (hphase : s.phase = .select)
    (ack : SendResult) (inbound : Inbound) : ShutdownOwned (s.receive ack inbound) := by
  have hrouting := handleResponse_routing s.task s.link s.receiverAlive ack
    ⟨inbound.response, s.link, s.read s.link⟩
  constructor
  · intro _ hdown
    rcases hrouting.announces hdown with hdown | hsaid
    · exact List.mem_append_left _ (h.flag (by rw [hphase]; rfl) hdown)
    · exact List.mem_append_right _ hsaid
  · refine h.history.append fun action hmem link hrefuses => ?_
    exact absurd hrefuses (hrouting.not_refuses action hmem link)

theorem ShutdownOwned.closeDown {s : State} (h : ShutdownOwned s) (hup : s.phase.up = true)
    (hdown : s.task.shuttingDown = true) (cause : CloseCause) :
    ShutdownOwned (s.closeDown cause) := by
  refine ⟨nofun, h.history.append fun action hmem link hrefuses => ?_⟩
  have hlink : link = s.link := by
    cases hrefuses with
    | request => simp at hmem
    | socket =>
        simp only [List.mem_append, List.mem_cons, List.mem_map] at hmem
        simp_all
  exact hlink ▸ h.flag hup hdown

theorem ShutdownOwned.moved {rmp : Rmp} {s s' : State} {event : TaskEvent}
    (h : ShutdownOwned s) (hmove : TaskMove rmp s event s')
    (hsafe : RestartSafe rmp s (.task event)) : ShutdownOwned s' := by
  by_cases hpacket : ∃ ack, event = .packet ack
  · obtain ⟨ack, rfl⟩ := hpacket
    cases hmove with
    | received hphase => exact h.receive hphase _ _
    | receivedLast hphase hinbound hfinished =>
        simp only [Task.finished, Bool.and_eq_true] at hfinished
        exact (h.receive hphase _ _).closeDown rfl hfinished.1 _
  · have hpacket : ∀ ack, event ≠ .packet ack := fun ack hevent => hpacket ⟨ack, hevent⟩
    obtain ⟨actions, hhistory, hrefuses⟩ := hmove.refuses hpacket
    constructor
    · intro hup hdown
      obtain ⟨hup', hdown', hlink⟩ := hmove.shuttingDown_source hpacket hsafe hup hdown
      rw [hlink, hhistory]
      exact List.mem_append_left _ (h.flag hup' hdown')
    · rw [hhistory]
      refine h.history.append fun action hmem link hrefuse => ?_
      obtain ⟨rfl, hup, hdown⟩ := hrefuses action hmem link hrefuse
      exact h.flag hup hdown

/-- A request is refused, or the task closes itself, only over a link that has
announced the shutdown, in every run in which no handshake completes while
`shutting_down` is set. -/
theorem shutdown_announced_on_link {rmp : Rmp} {options : ConnectOptions} {s : State}
    (h : ReachableBy rmp options (RestartSafe rmp) s) : ShutdownAnnounced s.history := by
  suffices hinv : ShutdownOwned s from hinv.history
  refine h.task_invariant ?_ ?_ fun _ howned hsafe hmove => howned.moved hmove hsafe
  · exact ⟨by simp [State.initial, Phase.up], justified_nil _⟩
  · intro s s' hside howned
    constructor
    · rw [hside.phase, hside.task, hside.link, hside.history]
      exact howned.flag
    · rw [hside.history]
      exact howned.history

def sampleShutdown : List Event :=
  sampleRequest ++
    [Event.server 0 ⟨{ kind := .event, sync := 0, body := [0xc3],
                       eventKey := some "box.shutdown", eventData := some (0, 1) }, none⟩,
      .task (.packet .sent), .task (.drain .sent)]

def restartSafe (s : State) (_ : Event) : Bool := !s.task.shuttingDown || s.phase.up

theorem restartSafe_sound (rmp : Rmp) (s : State) (event : Event)
    (h : restartSafe s event = true) : RestartSafe rmp s event := by
  intro hcompletes
  simpa [restartSafe, hcompletes.down] using h

/-- The next request is refused over the same link. -/
theorem shutdown_announced_on_link_sample :
    ∃ s, ReachableBy fixintRmp {} (RestartSafe fixintRmp) s ∧
      (s.history.any fun | .answered 0 2 (.error .shuttingDown) => true | _ => false) = true ∧
      ShutdownAnnounced s.history := by
  obtain ⟨s, hreach, hcheck⟩ := reaches_of_guarded (step fixintRmp) restartSafe
    (restartSafe_sound fixintRmp) (.initial {})
    (sampleShutdown ++ [Event.caller (.call none 1 [] false), .caller (.submit 2),
      .task (.command .sent)])
    (fun s => s.history.any fun | .answered 0 2 (.error .shuttingDown) => true | _ => false)
    (by decide +kernel)
  exact ⟨s, hreach, hcheck, shutdown_announced_on_link hreach⟩

def Action.refuses (link : Nat) : Action → Bool
  | .answered l _ (.error .shuttingDown) => l == link
  | _ => false

def Action.announces (link : Nat) : Action → Bool
  | .announced l => l == link
  | _ => false

theorem refuses_sound {link : Nat} {action : Action} (h : action.refuses link = true) :
    Refuses link action := by
  unfold Action.refuses at h
  split at h
  next =>
      obtain rfl := beq_iff_eq.mp h
      exact .request
  next => contradiction

/-- The link is lost before it is drained, and the restarted server never gets
the next request. -/
theorem request_refused_after_restart :
    ¬ ∀ rmp options s, Reachable rmp options s → ShutdownAnnounced s.history := by
  intro hall
  obtain ⟨s, hreach, hcheck⟩ := reaches_of_check (step fixintRmp) (.initial {})
    (sampleShutdown ++ [Event.task (.linkError .closed), .task .wake] ++ sampleHandshake 1 [] ++
      [Event.task (.drain .sent), .caller (.call none 1 [] false), .caller (.submit 2),
        .task (.command .sent)])
    (fun s => s.history.any (Action.refuses 1) && s.history.all fun action => !action.announces 1)
    (by decide +kernel)
  simp only [Bool.and_eq_true, List.any_eq_true, List.all_eq_true] at hcheck
  obtain ⟨⟨action, hmem, hrefused⟩, hannounced⟩ := hcheck
  obtain ⟨before, after, heq⟩ := List.append_of_mem hmem
  have hsaid := hall fixintRmp {} s hreach before action after heq 1 (refuses_sound hrefused)
  have hlink := hannounced (.announced 1) (heq ▸ List.mem_append_left _ hsaid)
  simp [Action.announces] at hlink

end Tarant.Connection
