import Tarant.Connection.Records
import Tarant.Connection.Replay

/-!
# Failed links

After `fail_link` no command should be written to the link any more.  The select
loop reconnects; the loop over the deferred commands only breaks, and `run` goes
on with the link it has just failed.
-/

namespace Tarant.Connection

open Foundation
open Iproto

def Origin.ofCommand : Origin → Bool
  | .call _ | .watch _ | .unwatch _ => true
  | _ => false

/-- A command's packet comes over a link whose handshake is later than every
`fail_link` so far. -/
def Abandons (before : List Action) : Action → Prop
  | .wrote link origin _ _ => origin.ofCommand = true →
      ∀ earlier failed waiting since, before = earlier ++ .lost failed waiting :: since →
        link ≠ failed ∧ ∃ negotiated, .up link negotiated ∈ since
  | _ => True

/-! ## What a step writes -/

def Commandless (actions : List Action) : Prop :=
  ∀ link origin packet result, .wrote link origin packet result ∈ actions →
    origin.ofCommand = false

theorem Commandless.append {actions actions' : List Action} (h : Commandless actions)
    (h' : Commandless actions') : Commandless (actions ++ actions') := by
  intro link origin packet result hmem
  rcases List.mem_append.mp hmem with hmem | hmem
  · exact h link origin packet result hmem
  · exact h' link origin packet result hmem

theorem failLink_commandless (t : Task) (link : Nat) : Commandless (t.failLink link).2 := by
  simp [Commandless, Task.failLink, Task.failPending]

theorem stop_commandless {actions : List Action} (h : Commandless actions)
    (channel : List Command) : Commandless (actions ++ channel.map .discarded) :=
  h.append (by simp [Commandless])

/-- The records of a step: first those made while the link serves, which lose
nothing, then those that follow its loss. -/
structure Writes (s s' : State) (served ended : List Action) : Prop where
  history : s'.history = s.history ++ (served ++ ended)
  lossFree : LossFree served
  served : ∀ link origin packet result, .wrote link origin packet result ∈ served →
    origin.ofCommand = true → s.phase.up = true ∧ link = s.link
  ended : Commandless ended

theorem Writes.of_commandless {s s' : State} {actions : List Action}
    (hhistory : s'.history = s.history ++ actions) (h : Commandless actions) :
    Writes s s' [] actions :=
  ⟨hhistory, by simp [LossFree], by simp, h⟩

theorem commandless_nil : Commandless [] := by simp [Commandless]

theorem Writes.of_local {s s' : State} {actions ended : List Action} (before : List Action)
    (hup : s.phase.up = true) (hbefore : Commandless before) (hfree : LossFree before)
    (hlocal : ∀ action ∈ actions, action.Local s.link) (hended : Commandless ended)
    (hhistory : s'.history = s.history ++ (before ++ actions ++ ended)) :
    Writes s s' (before ++ actions) ended := by
  refine ⟨hhistory, hfree.append (.of_local hlocal), ?_, hended⟩
  intro link origin packet result hmem hcommand
  obtain hmem | hmem := List.mem_append.mp hmem
  · simp [hbefore _ _ _ _ hmem] at hcommand
  · exact ⟨hup, (hlocal _ hmem).1⟩

theorem lose_writes (s : State) :
    ∃ actions, s.lose.history = s.history ++ actions ∧ Commandless actions := by
  simp only [State.lose]
  split
  · exact ⟨_, rfl, failLink_commandless _ _⟩
  · refine ⟨_, List.append_assoc _ _ _, (failLink_commandless _ _).append ?_⟩
    exact stop_commandless (by simp [Commandless]) _

theorem closeDown_writes (s : State) (cause : CloseCause) :
    ∃ actions, (s.closeDown cause).history = s.history ++ actions ∧ Commandless actions := by
  refine ⟨_, rfl, stop_commandless ?_ _⟩
  simp [Commandless]

theorem giveUp_writes (s : State) :
    ∃ actions, s.giveUp.history = s.history ++ actions ∧ Commandless actions :=
  ⟨_, rfl, stop_commandless (by simp [Commandless]) _⟩

theorem resubscribe_commandless (link : Nat) (send : String → SendResult)
    (keys : List String) : Commandless (Task.resubscribe link send keys) := by
  intro l origin packet result hmem
  have hfirst := Task.forall_mem_resubscribe
    (p := fun action => ∃ key, action = .wrote link .resubscribe (watchPacket Request.watch key)
      (send key)) (fun key => ⟨key, rfl⟩) keys _ hmem
  obtain ⟨key, heq⟩ := hfirst
  obtain ⟨-, rfl, -⟩ := Action.wrote.inj heq
  rfl

theorem TaskMove.writes {rmp : Rmp} {s s' : State} {event : TaskEvent}
    (h : TaskMove rmp s event s') : ∃ served ended, Writes s s' served ended := by
  cases h with
  | drained | woke | attemptFailed | replyRejected | idAccepted =>
      exact ⟨[], [], .of_commandless (List.append_nil _).symm (by simp [Commandless])⟩
  | @replayed command rest send t actions hphase hdeferred hhandle =>
      refine ⟨_, [], .of_local [.handled s.link command] (by rw [hphase]; rfl) ?_ ?_
        (handling_of_eq hhandle).isLocal commandless_nil ?_⟩
      · simp [Commandless]
      · simp [LossFree]
      · simp [State.perform]
  | @replayFailed command rest send t actions err hphase hdeferred hhandle =>
      refine ⟨_, _, .of_local [.handled s.link command] (by rw [hphase]; rfl) ?_ ?_
        (handling_of_eq hhandle).isLocal (failLink_commandless t s.link) ?_⟩
      · simp [Commandless]
      · simp [LossFree]
      · simp [State.perform]
  | @handled command rest send t actions hphase hchannel hclose hhandle =>
      refine ⟨_, [], .of_local [.took command, .handled s.link command] (by rw [hphase]; rfl) ?_ ?_
        (handling_of_eq hhandle).isLocal commandless_nil ?_⟩
      · simp [Commandless]
      · simp [LossFree]
      · simp [State.perform, State.takeCommand]
  | @handledLost command rest send t actions err hphase hchannel hclose hhandle =>
      obtain ⟨ended, hhistory, hended⟩ := lose_writes ((s.takeCommand command rest).perform t
        (.handled s.link command :: actions) .drain)
      refine ⟨_, ended, .of_local [.took command, .handled s.link command] (by rw [hphase]; rfl)
        ?_ ?_ (handling_of_eq hhandle).isLocal hended ?_⟩
      · simp [Commandless]
      · simp [LossFree]
      · rw [hhistory]
        simp [State.perform, State.takeCommand]
  | @closeCommand send rest =>
      obtain ⟨actions, hhistory, hended⟩ := closeDown_writes (s.takeCommand .close rest) .command
      refine ⟨[], [.took .close] ++ actions, .of_commandless ?_ ?_⟩
      · rw [hhistory]
        simp [State.takeCommand]
      · exact .append (by simp [Commandless]) hended
  | channelClosed =>
      obtain ⟨actions, hhistory, hended⟩ := closeDown_writes s .command
      exact ⟨[], actions, .of_commandless hhistory hended⟩
  | @received ack inbound hphase =>
      have hlocal := (handleResponse_routing s.task s.link s.receiverAlive ack
        ⟨inbound.response, s.link, s.read s.link⟩).isLocal
      refine ⟨_, [], .of_local [] (by rw [hphase]; rfl) commandless_nil (by simp [LossFree]) hlocal
        commandless_nil ?_⟩
      rw [List.append_nil]
      rfl
  | @receivedLast ack inbound hphase =>
      have hlocal := (handleResponse_routing s.task s.link s.receiverAlive ack
        ⟨inbound.response, s.link, s.read s.link⟩).isLocal
      obtain ⟨ended, hhistory, hended⟩ := closeDown_writes (s.receive ack inbound) .drained
      refine ⟨_, ended, .of_local [] (by rw [hphase]; rfl) commandless_nil (by simp [LossFree])
        hlocal hended ?_⟩
      rw [hhistory, ← List.append_assoc]
      rfl
  | linkLost =>
      obtain ⟨actions, hhistory, hended⟩ := lose_writes s
      exact ⟨[], actions, .of_commandless hhistory hended⟩
  | @deferred command rest =>
      refine ⟨[], [.took command] ++ (s.task.defer s.link command).2, .of_commandless ?_ ?_⟩
      · simp [State.perform, State.takeCommand]
      · refine .append (by simp [Commandless]) ?_
        unfold Task.defer
        split <;> simp [Commandless]
  | @closeWhileDown rest =>
      obtain ⟨actions, hhistory, hended⟩ := giveUp_writes (s.takeCommand .close rest)
      refine ⟨[], [.took .close] ++ actions, .of_commandless ?_ ?_⟩
      · rw [hhistory]
        simp [State.takeCommand]
      · exact .append (by simp [Commandless]) hended
  | channelClosedWhileDown =>
      obtain ⟨actions, hhistory, hended⟩ := giveUp_writes s
      exact ⟨[], actions, .of_commandless hhistory hended⟩
  | connected | authenticated =>
      refine ⟨[], _, .of_commandless rfl ?_⟩
      rintro link origin packet result hmem
      simp only [List.mem_singleton, Action.wrote.injEq] at hmem
      obtain ⟨-, rfl, -⟩ := hmem
      rfl
  | spawned => exact ⟨[], _, .of_commandless rfl (by simp [Commandless])⟩
  | @reconnected delay socket negotiated inbound order send =>
      refine ⟨[], [.up socket negotiated] ++ _, .of_commandless rfl (.append ?_ ?_)⟩
      · simp [Commandless]
      · exact resubscribe_commandless socket send order

/-! ## Every loss is followed by a handshake -/

/-- No `send` fails while the deferred commands are drained. -/
def DrainSafe (s : State) : Event → Prop
  | .task (.drain send) => s.task.deferred = [] ∨ send = .sent
  | _ => True

theorem Handling.sent {t t' : Task} {link : Nat} {command : Command} {actions : List Action}
    {result : Except Error Unit} (h : Handling t link .sent command t' actions result) :
    result = .ok () := by
  cases h <;> rfl

structure Renewed (s : State) : Prop where
  lost_le : ∀ link waiting, .lost link waiting ∈ s.history → link ≤ s.link ∧ ¬ s.phase.first
  renewed : s.phase.up = true → ∀ earlier failed waiting since,
    s.history = earlier ++ .lost failed waiting :: since →
      s.link ≠ failed ∧ ∃ negotiated, .up s.link negotiated ∈ since

theorem TaskMove.up_back {rmp : Rmp} {s s' : State} {event : TaskEvent}
    (h : TaskMove rmp s event s') (hsafe : DrainSafe s (.task event))
    (hup : s'.phase.up = true) :
    (s.phase.up = true ∧ s'.link = s.link ∧
      ∃ actions, s'.history = s.history ++ actions ∧ LossFree actions) ∨
    ∃ socket negotiated actions, s.phase.socket = some socket ∧ s'.link = socket ∧
      s'.history = s.history ++ .up socket negotiated :: actions ∧ LossFree actions := by
  cases h with
  | drained hphase =>
      exact .inl ⟨by rw [hphase]; rfl, rfl, [], (List.append_nil _).symm, by simp [LossFree]⟩
  | replayed hphase hdeferred hhandle =>
      have hkeeps := replay_keeps hphase hdeferred (handling_of_eq hhandle) .drain
      exact .inl ⟨by rw [hphase]; rfl, rfl, hkeeps.history⟩
  | replayFailed hphase hdeferred hhandle =>
      rcases hsafe with hempty | rfl
      · simp [hempty] at hdeferred
      · cases (handling_of_eq hhandle).sent
  | handled hphase _ _ hhandle =>
      exact .inl ⟨by rw [hphase]; rfl, rfl, (handled_keeps (handling_of_eq hhandle)).history⟩
  | received hphase => exact .inl ⟨by rw [hphase]; rfl, rfl, (receive_keeps s _ _).history⟩
  | spawned hreply =>
      exact .inr ⟨_, _, [], hreply.phase.1, rfl, rfl, by simp [LossFree]⟩
  | reconnected hreply =>
      exact .inr ⟨_, _, _, hreply.phase.1, rfl, rfl, .of_local (resubscribe_isLocal _ _)⟩
  | handledLost | linkLost => simp [lose_not_up] at hup
  | attemptFailed hphase hafter | replyRejected _ hphase hafter =>
      obtain ⟨-, rfl | ⟨-, delay, rfl⟩⟩ := afterFailure_cases hafter <;> simp [Phase.up] at hup
  | connected hphase hafter =>
      exact absurd (hup.symm.trans (afterSend_not_up (greeted_phase _ _ _).2.2 hafter)) (by simp)
  | authenticated hphase huser hafter =>
      exact absurd (hup.symm.trans (afterSend_not_up rfl hafter)) (by simp)
  | _ => simp [State.perform, State.closeDown, State.giveUp, State.stop, Phase.up] at hup

theorem Renewed.moved {rmp : Rmp} {s s' : State} {event : TaskEvent} (h : Renewed s)
    (hlinks : Links s) (hmove : TaskMove rmp s event s')
    (hsafe : DrainSafe s (.task event)) : Renewed s' := by
  constructor
  · intro link waiting hmem
    rcases hmove.lost_mem hmem with hold | ⟨hup, rfl⟩
    · obtain ⟨hle, hfirst⟩ := h.lost_le link waiting hold
      obtain ⟨hlink, hfirst'⟩ := hmove.link_le hlinks hfirst
      exact ⟨hle.trans hlink, hfirst'⟩
    · refine hmove.link_le hlinks fun hfirst => ?_
      cases hphase : s.phase <;> simp_all [Phase.up, Phase.first, Phase.attempt]
  · intro hup earlier failed waiting since heq
    rcases hmove.up_back hsafe hup with ⟨hup', hlink, actions, hhistory, hfree⟩ |
      ⟨socket, negotiated, actions, hsocket, hlink, hhistory, hfree⟩
    · rw [hhistory] at heq
      rcases append_eq_split heq with ⟨since', hsplit, rfl⟩ | ⟨_, hactions, -⟩
      · obtain ⟨hne, negotiated, hmem⟩ := h.renewed hup' earlier failed waiting since' hsplit
        rw [hlink]
        exact ⟨hne, negotiated, List.mem_append_left _ hmem⟩
      · exact absurd (hactions ▸ by simp) (hfree failed waiting)
    · rw [hhistory] at heq
      rcases append_eq_split heq with ⟨since', hsplit, rfl⟩ | ⟨_, hactions, -⟩
      · obtain ⟨hle, hfirst⟩ := h.lost_le failed waiting (by simp [hsplit])
        have hlt := (hlinks.socket socket hsocket).2 hfirst
        rw [hlink]
        exact ⟨by omega, negotiated, by simp⟩
      · have hfree' : LossFree (.up socket negotiated :: actions) := .cons (by simp) hfree
        exact absurd (hactions ▸ by simp) (hfree' failed waiting)

theorem ReachableBy.renewed {rmp : Rmp} {options : ConnectOptions} {s : State}
    (h : ReachableBy rmp options DrainSafe s) : Renewed s := by
  refine h.task_invariant ?_ ?_ ?_
  · constructor <;> simp [State.initial]
  · intro s s' hside hrenewed
    constructor
    · rw [hside.history, hside.link, hside.phase]
      exact hrenewed.lost_le
    · rw [hside.history, hside.link, hside.phase]
      exact hrenewed.renewed
  · intro s s' event hreach hrenewed hsafe hmove
    have hreachable : Reachable rmp options s := hreach.weaken
    exact hrenewed.moved hreachable.links hmove hsafe

/-- As long as no `send` fails in the drain, a link is never written to after
`fail_link`: the next packet of a command goes over a later link. -/
theorem failed_link_abandoned {rmp : Rmp} {options : ConnectOptions} {s : State}
    (h : ReachableBy rmp options DrainSafe s) : Justified Abandons s.history := by
  refine Reaches.invariant (I := fun s => Justified Abandons s.history) ?_ ?_ h
  · simp [State.initial]
  · intro s s' event hreach hjustified hsafe hstep
    cases step_move hstep with
    | caller hmove => exact hmove.untouched.history ▸ hjustified
    | task hmove =>
        obtain ⟨served, ended, hwrites⟩ := hmove.writes
        rw [hwrites.history]
        refine justified_append hjustified fun before record after hsplit => ?_
        cases record with
        | wrote link origin packet result =>
            intro hcommand earlier failed waiting since heq
            -- the command was written before anything was lost in this step
            rcases append_eq_split hsplit with ⟨after', hserved, -⟩ | ⟨before', hended, -⟩
            · obtain ⟨hup, rfl⟩ := hwrites.served link origin packet result (by simp [hserved])
                hcommand
              rcases append_eq_split heq with ⟨since', hold, rfl⟩ | ⟨_, hnew, -⟩
              · obtain ⟨hne, negotiated, hmem⟩ :=
                  (ReachableBy.renewed hreach).renewed hup earlier failed waiting since' hold
                exact ⟨hne, negotiated, List.mem_append_left _ hmem⟩
              · exact absurd (by simp [hserved, hnew]) (hwrites.lossFree failed waiting)
            · have hquiet := hwrites.ended link origin packet result (by simp [hended])
              simp [hcommand] at hquiet
        | _ => trivial
    | server => exact hjustified

def drainSafe (s : State) : Event → Bool
  | .task (.drain send) => s.task.deferred.isEmpty || send.isSent
  | _ => true

theorem drainSafe_sound (s : State) (event : Event) (h : drainSafe s event = true) :
    DrainSafe s event := by
  unfold drainSafe at h
  unfold DrainSafe
  split at h
  next send =>
    rw [Bool.or_eq_true, List.isEmpty_iff] at h
    refine h.imp_right fun hsent => ?_
    cases send with
    | sent => rfl
    | failed => simp [SendResult.isSent] at hsent
  · simp

/-- The request made while the link is down goes over link 1. -/
theorem failed_link_abandoned_sample :
    ∃ s, ReachableBy fixintRmp {} DrainSafe s ∧
      (s.history.any fun | .lost 0 [] => true | _ => false) = true ∧
      (s.history.any fun | .wrote 1 (.call 1) _ _ => true | _ => false) = true ∧
      Justified Abandons s.history := by
  obtain ⟨s, hreach, hcheck⟩ := reaches_of_guarded (step fixintRmp) drainSafe drainSafe_sound
    (.initial {})
    (sampleHandshake 0 [] ++
      [Event.task (.drain .sent), .task (.linkError .closed), .caller (.call none 1 [] false),
        .caller (.submit 1), .task .reconnectCommand] ++
      sampleHandshake 1 [] ++ [Event.task (.drain .sent)])
    (fun s => (s.history.any fun | .lost 0 [] => true | _ => false) &&
      s.history.any fun | .wrote 1 (.call 1) _ _ => true | _ => false) (by decide +kernel)
  rw [Bool.and_eq_true] at hcheck
  exact ⟨s, hreach, hcheck.1, hcheck.2, failed_link_abandoned hreach⟩

def sinceLoss (link : Nat) : List Action → List Action
  | [] => []
  | .lost l _ :: after =>
      if l = link then after else sinceLoss link after
  | _ :: after => sinceLoss link after

theorem sinceLoss_split {link : Nat} {history : List Action} {action : Action}
    (h : action ∈ sinceLoss link history) :
    ∃ earlier waiting, history = earlier ++ .lost link waiting :: sinceLoss link history := by
  induction history with
  | nil => simp [sinceLoss] at h
  | cons first rest ih =>
      have hrest (heq : sinceLoss link (first :: rest) = sinceLoss link rest) :
          ∃ earlier waiting, first :: rest =
            earlier ++ .lost link waiting :: sinceLoss link (first :: rest) := by
        rw [heq] at h ⊢
        obtain ⟨earlier, waiting, hsplit⟩ := ih h
        exact ⟨first :: earlier, waiting, congrArg (first :: ·) hsplit⟩
      cases first with
      | lost l waiting =>
          by_cases hl : l = link
          · subst hl
            exact ⟨[], waiting, by simp [sinceLoss]⟩
          · exact hrest (if_neg hl)
      | _ => exact hrest rfl

/-- A request made after the failed drain is written to the failed link. -/
theorem failed_drain_keeps_link :
    ¬ ∀ rmp options s, Reachable rmp options s → Justified Abandons s.history := by
  intro hall
  obtain ⟨s, hreach, hcheck⟩ := reaches_of_check (step fixintRmp) (.initial {})
    (sampleFailedDrain ++ [Event.caller (.call none 1 [] false), .caller (.submit 3),
      .task (.command .sent)])
    (fun s => (sinceLoss 1 s.history).any (Action.writesTo 1 3))
    (by decide +kernel)
  rw [List.any_eq_true] at hcheck
  obtain ⟨action, hmem, haction⟩ := hcheck
  obtain ⟨earlier, waiting, hsplit⟩ := sinceLoss_split hmem
  obtain ⟨middle, after, hafter⟩ := List.append_of_mem hmem
  have habandons := hall fixintRmp {} s hreach (earlier ++ .lost 1 waiting :: middle) action after
    (by rw [hsplit, hafter]; simp)
  cases action with
  | wrote link origin packet result =>
      cases origin with
      | call ticket =>
          simp only [Action.writesTo, Bool.and_eq_true, beq_iff_eq] at haction
          obtain ⟨rfl, -⟩ := haction
          exact (habandons rfl earlier 1 waiting middle rfl).1 rfl
      | _ => contradiction
  | _ => contradiction

end Tarant.Connection
