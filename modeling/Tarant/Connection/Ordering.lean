import Tarant.Connection.Abandonment
import Tarant.Connection.Provenance

/-!
# The order of commands

Commands go through the channel and, while the link is down, through the deferred
queue.  Both are first in, first out, and the task is to empty the second before
it reads the first.
-/

namespace Tarant.Connection

open Foundation

/-! ## Commands and their packets -/

def Command.origin? : Command → Option Origin
  | .request _ _ ticket _ | .fire _ ticket => some (.call ticket)
  | .watch _ _ watcher => some (.watch watcher)
  | .unwatch _ _ watcher => some (.unwatch watcher)
  | .close => none

def received (history : List Action) : List Command :=
  history.filterMap fun
    | .took command | .discarded command => some command
    | _ => none

def handledCommands (history : List Action) : List Command :=
  history.filterMap fun
    | .handled _ command => some command
    | _ => none

def commandWrites (history : List Action) : List Origin :=
  history.filterMap fun
    | .wrote _ origin _ _ => if origin.ofCommand then some origin else none
    | _ => none

def State.sent (s : State) : List Command := received s.history ++ s.channel

/-- Of two commands sent one after the other the second is not written first. -/
def InOrder (s : State) : Prop :=
  ∀ c₁ c₂ o₁ o₂, [c₁, c₂].Sublist s.sent → c₁.origin? = some o₁ → c₂.origin? = some o₂ →
    ∀ before link packet result after,
      s.history = before ++ .wrote link o₂ packet result :: after →
      ∀ link' packet' result', .wrote link' o₁ packet' result' ∉ after

/-- The select loop takes a command only when no command is deferred. -/
def TakesInOrder (s : State) : Event → Prop
  | .task (.command _) => s.task.deferred = []
  | _ => True

/-! ## Commands on their way -/

section Histories

variable {link : Nat} {history actions : List Action}

theorem received_append : received (history ++ actions) = received history ++ received actions :=
  List.filterMap_append

theorem handledCommands_append :
    handledCommands (history ++ actions) = handledCommands history ++ handledCommands actions :=
  List.filterMap_append

theorem commandWrites_append :
    commandWrites (history ++ actions) = commandWrites history ++ commandWrites actions :=
  List.filterMap_append

theorem received_local (h : ∀ action ∈ actions, action.Local link) : received actions = [] := by
  rw [received, List.filterMap_eq_nil_iff]
  intro action hmem
  have hlocal := h action hmem
  cases action <;> first | rfl | exact hlocal.elim

theorem handledCommands_local (h : ∀ action ∈ actions, action.Local link) :
    handledCommands actions = [] := by
  rw [handledCommands, List.filterMap_eq_nil_iff]
  intro action hmem
  have hlocal := h action hmem
  cases action <;> first | rfl | exact hlocal.elim

def Action.Still : Action → Prop
  | .took _ | .discarded _ | .handled _ _ => False
  | .wrote _ origin _ _ => origin.ofCommand = false
  | _ => True

theorem still_eq_nil (h : ∀ action ∈ actions, action.Still) :
    received actions = [] ∧ handledCommands actions = [] ∧ commandWrites actions = [] := by
  simp only [received, handledCommands, commandWrites, List.filterMap_eq_nil_iff]
  refine ⟨?_, ?_, ?_⟩ <;> intro action hmem <;> have hstill := h action hmem
  · cases action <;> first | rfl | exact hstill.elim
  · cases action <;> first | rfl | exact hstill.elim
  · cases action with
    | wrote => exact if_neg (Bool.eq_false_iff.mp hstill)
    | _ => rfl

@[simp] theorem received_discarded (commands : List Command) :
    received (commands.map .discarded) = commands := by
  rw [received, List.filterMap_map]
  exact List.filterMap_some

@[simp] theorem handledCommands_discarded (commands : List Command) :
    handledCommands (commands.map .discarded) = [] := by
  simp [handledCommands]

end Histories

/-- What has been handled and what is still to be, in the order the task goes. -/
def State.pipeline (s : State) : List Command :=
  handledCommands s.history ++ (s.task.deferred ++ s.channel)

/-- A step of the task sends nothing, keeps the order of what is on its way and
writes a packet only for the command it handles. -/
structure Flows (s s' : State) : Prop where
  sent : s'.sent = s.sent
  pipeline : s'.pipeline.Sublist s.pipeline
  writes : ∃ added, s'.history = s.history ++ added ∧
    (commandWrites added).Sublist ((handledCommands added).filterMap Command.origin?)

theorem Flows.of_still {s s' : State} {actions : List Action}
    (hhistory : s'.history = s.history ++ actions) (hstill : ∀ action ∈ actions, action.Still)
    (hchannel : s'.channel = s.channel) (hdeferred : s'.task.deferred = s.task.deferred) :
    Flows s s' := by
  obtain ⟨hreceived, hhandled, hwrites⟩ := still_eq_nil hstill
  refine ⟨?_, ?_, actions, hhistory, by simp [hwrites]⟩
  · rw [State.sent, hhistory, received_append, hreceived, List.append_nil, hchannel]
    rfl
  · rw [State.pipeline, hhistory, handledCommands_append, hhandled, List.append_nil, hchannel,
      hdeferred]
    exact .refl _

theorem Flows.trans {s s' s'' : State} (h : Flows s s') (h' : Flows s' s'') : Flows s s'' := by
  obtain ⟨added, hhistory, hwrites⟩ := h.writes
  obtain ⟨added', hhistory', hwrites'⟩ := h'.writes
  refine ⟨h'.sent.trans h.sent, h'.pipeline.trans h.pipeline, added ++ added', ?_, ?_⟩
  · rw [hhistory', hhistory, List.append_assoc]
  · rw [commandWrites_append, handledCommands_append, List.filterMap_append]
    exact hwrites.append hwrites'

theorem stop_flows {s : State} {t : Task} {actions : List Action} (ht : t.deferred = [])
    (hstill : ∀ action ∈ actions, action.Still) : Flows s (s.stop t actions) := by
  obtain ⟨hreceived, hhandled, hwrites⟩ := still_eq_nil hstill
  refine ⟨?_, ?_, _, rfl, ?_⟩
  · simp [State.sent, State.stop, received_append, hreceived]
  · simp [State.pipeline, State.stop, handledCommands_append, hhandled, ht]
  · rw [commandWrites_append, hwrites]
    simp [commandWrites]

theorem answered_still (link : Nat) (tickets : List Nat) (answer : Answer) :
    ∀ action ∈ tickets.map fun ticket => Action.answered link ticket answer, action.Still :=
  List.forall_mem_map.mpr fun _ _ => trivial

theorem failPending_still (t : Task) (link : Nat) :
    ∀ action ∈ (t.failPending link).2, action.Still :=
  List.forall_mem_map.mpr fun _ _ => trivial

theorem resubscribe_still (link : Nat) (send : String → SendResult) (keys : List String) :
    ∀ action ∈ Task.resubscribe link send keys, action.Still := by
  apply Task.forall_mem_resubscribe
  exact fun _ => rfl

theorem Routing.still {t t' : Task} {link : Nat} {alive : Nat → Bool} {ack : SendResult}
    {arrival : Arrival} {actions : List Action}
    (h : Routing t link alive ack arrival t' actions) : ∀ action ∈ actions, action.Still := by
  intro action hmem
  cases h.acts action hmem <;> simp [Action.Still, Origin.ofCommand]

theorem Handling.commandWrites {t t' : Task} {link : Nat} {send : SendResult}
    {command : Command} {actions : List Action} {result : Except Error Unit}
    (h : Handling t link send command t' actions result) :
    (Connection.commandWrites actions).Sublist command.origin?.toList := by
  cases h with
  | @requested sync =>
      have hquiet : Connection.commandWrites (t.overwritten link sync) = [] :=
        (still_eq_nil (forall_mem_overwritten fun _ _ => trivial)).2.2
      rw [commandWrites_append, hquiet]
      simp [Connection.commandWrites, Origin.ofCommand, Command.origin?]
  | _ => simp [Connection.commandWrites, Origin.ofCommand, Command.origin?]

theorem closeDown_flows (s : State) (cause : CloseCause) : Flows s (s.closeDown cause) := by
  refine stop_flows rfl (List.forall_mem_cons.mpr ⟨trivial, List.forall_mem_append.mpr ⟨?_, ?_⟩⟩)
  · exact failPending_still _ _
  · exact answered_still _ _ _

theorem giveUp_flows (s : State) : Flows s s.giveUp := stop_flows rfl (answered_still _ _ _)

theorem failed_flows (s : State) (phase : Phase) : Flows s (s.failed phase) :=
  .of_still rfl (List.forall_mem_cons.mpr ⟨trivial, failPending_still _ _⟩) rfl rfl

theorem lose_flows (s : State) : Flows s s.lose := by
  simp only [State.lose]
  split
  · exact failed_flows s _
  · exact (failed_flows s s.phase).trans (giveUp_flows _)

theorem receive_flows (s : State) (ack : SendResult) (inbound : Inbound) :
    Flows s (s.receive ack inbound) := by
  refine .of_still rfl ?_ rfl (receive_deferred s ack inbound)
  exact (handleResponse_routing _ _ _ _ _).still

theorem handled_flows {s s' : State} {command : Command} {rest : List Command} {t t' : Task}
    {send : SendResult} {actions : List Action} {result : Except Error Unit}
    (hhandling : Handling t s.link send command t' actions result)
    (hnext : s.task.deferred ++ s.channel = command :: rest) (before : List Action)
    (hhistory : s'.history = s.history ++ (before ++ ([Action.handled s.link command] ++ actions)))
    (hbefore : handledCommands before = []) (hquiet : commandWrites before = [])
    (hrest : s'.task.deferred ++ s'.channel = rest)
    (hsent : received before ++ s'.channel = s.channel) : Flows s s' := by
  have hreceived := received_local hhandling.isLocal
  have hhandled := handledCommands_local hhandling.isLocal
  refine ⟨?_, ?_, _, hhistory, ?_⟩
  · rw [State.sent, hhistory, received_append, received_append, received_append, hreceived,
      List.append_assoc, List.append_assoc]
    exact congrArg (received s.history ++ ·) hsent
  · rw [State.pipeline, State.pipeline, hhistory, handledCommands_append, handledCommands_append,
      handledCommands_append, hhandled, hbefore, hrest, hnext]
    simp [handledCommands]
  · have hwrites := hhandling.commandWrites
    rw [commandWrites_append, commandWrites_append, hquiet, handledCommands_append,
      handledCommands_append, hbefore, hhandled]
    cases horigin : command.origin? <;>
      simpa [Connection.commandWrites, handledCommands, horigin] using hwrites

theorem takeClose_flows {s : State} {rest : List Command} (hchannel : s.channel = .close :: rest) :
    Flows s (s.takeCommand .close rest) := by
  refine ⟨?_, ?_, _, rfl, by simp [commandWrites]⟩
  · rw [State.sent, State.sent, hchannel, State.takeCommand, received_append, List.append_assoc]
    rfl
  · rw [State.pipeline, State.pipeline, hchannel, State.takeCommand, handledCommands_append]
    simp [handledCommands]

theorem handleNext_flows {s : State} {command : Command} {rest : List Command} {send : SendResult}
    {t : Task} {actions : List Action} {result : Except Error Unit}
    (hchannel : s.channel = command :: rest) (hempty : s.task.deferred = [])
    (hhandling : Handling s.task s.link send command t actions result) :
    Flows s ((s.takeCommand command rest).perform t (.handled s.link command :: actions) .drain) := by
  refine handled_flows hhandling (by rw [hempty, hchannel]; rfl) [.took command] ?_ rfl rfl ?_ ?_
  · simp [State.perform, State.takeCommand]
  · rw [State.perform, hhandling.deferred_eq, hempty]
    rfl
  · exact hchannel.symm

theorem defer_flows {s : State} {command : Command} {rest : List Command} {phase : Phase}
    (hchannel : s.channel = command :: rest) :
    Flows s ((s.takeCommand command rest).perform (s.task.defer s.link command).1
      (s.task.defer s.link command).2 phase) := by
  have hstill : ∀ action ∈ (s.task.defer s.link command).2, action.Still := by
    unfold Task.defer
    split
    · exact answered_still _ _ _
    · simp
  obtain ⟨hreceived, hhandled, hwrites⟩ := still_eq_nil hstill
  refine ⟨?_, ?_, _, List.append_assoc _ _ _, ?_⟩
  · rw [State.sent, State.sent, hchannel, State.perform, State.takeCommand, received_append,
      received_append, hreceived, List.append_nil, List.append_assoc]
    rfl
  · rw [State.pipeline, State.pipeline, hchannel, State.perform, State.takeCommand,
      handledCommands_append, handledCommands_append, hhandled, List.append_nil]
    refine .append (by simp [handledCommands]) ?_
    -- a full queue discards the command
    unfold Task.defer
    split
    · exact .append (.refl _) (List.sublist_cons_self _ _)
    · simp
  · rw [commandWrites_append, hwrites]
    simp [commandWrites]

theorem TaskMove.flows {rmp : Rmp} {s s' : State} {event : TaskEvent}
    (h : TaskMove rmp s event s') (hsafe : TakesInOrder s (.task event)) : Flows s s' := by
  cases h with
  | drained | woke | attemptFailed | replyRejected | idAccepted =>
      exact .of_still (List.append_nil _).symm (by simp) rfl rfl
  | replayed hphase hdeferred hhandle =>
      have hhandling := handling_of_eq hhandle
      refine handled_flows hhandling (by rw [hdeferred]; rfl) [] rfl rfl rfl ?_ rfl
      exact congrArg (· ++ s.channel) hhandling.deferred_eq
  | @replayFailed command rest send t actions err hphase hdeferred hhandle =>
      have hhandling := handling_of_eq hhandle
      have hhandled : Flows s (s.perform t (.handled s.link command :: actions) .drain) := by
        refine handled_flows hhandling (by rw [hdeferred]; rfl) [] rfl rfl rfl ?_ rfl
        exact congrArg (· ++ s.channel) hhandling.deferred_eq
      have hfailed := hhandled.trans (failed_flows _ .select)
      simpa [State.failed, State.perform] using hfailed
  | handled hphase hchannel hclose hhandle =>
      exact handleNext_flows hchannel hsafe (handling_of_eq hhandle)
  | handledLost hphase hchannel hclose hhandle =>
      exact (handleNext_flows hchannel hsafe (handling_of_eq hhandle)).trans (lose_flows _)
  | closeCommand hphase hchannel => exact (takeClose_flows hchannel).trans (closeDown_flows _ _)
  | channelClosed => exact closeDown_flows s _
  | received => exact receive_flows s _ _
  | receivedLast => exact (receive_flows s _ _).trans (closeDown_flows _ _)
  | linkLost => exact lose_flows s
  | deferred hphase hchannel hclose => exact defer_flows hchannel
  | closeWhileDown hphase hchannel => exact (takeClose_flows hchannel).trans (giveUp_flows _)
  | channelClosedWhileDown => exact giveUp_flows s
  | connected | authenticated =>
      exact .of_still rfl (List.forall_mem_singleton.mpr rfl) rfl rfl
  | spawned => exact .of_still rfl (List.forall_mem_singleton.mpr trivial) rfl rfl
  | reconnected =>
      refine .of_still rfl (List.forall_mem_cons.mpr ⟨trivial, ?_⟩) rfl rfl
      exact resubscribe_still _ _ _

/-! ## Each command is sent once -/

def Unsent (s : State) : Origin → Prop
  | .call n => ∀ call ∈ s.calls n, call.stage = .drawn
  | .watch n => ∀ w ∈ s.watching n, w.stage = .sending
  | .unwatch n => ∀ w ∈ s.watching n, w.alive = true
  | _ => True

theorem Unsent.of_eq {s s' : State} {origin : Origin} (h : Unsent s' origin)
    (hcalls : s'.calls = s.calls) (hwatching : s'.watching = s.watching) : Unsent s origin := by
  cases origin <;> simp_all [Unsent]

theorem Unsent.of_call {s s' : State} {origin : Origin} {n : Nat} {call' : Call}
    (h : Unsent s' origin) (hcalls : s'.calls = Function.update s.calls n (some call'))
    (hwatching : s'.watching = s.watching)
    (hstage : call'.stage = .drawn → ∀ call ∈ s.calls n, call.stage = .drawn) :
    Unsent s origin := by
  cases origin with
  | call m =>
      simp only [Unsent, hcalls] at h ⊢
      by_cases hm : m = n
      · subst hm
        exact hstage (h call' (Function.update_self _ _ _))
      · rw [Function.update_of_ne hm] at h
        exact h
  | watch | unwatch =>
      simp only [Unsent, hwatching] at h ⊢
      exact h
  | _ => trivial

theorem Unsent.of_watching {s s' : State} {origin : Origin} {n : Nat} {w' : Watching}
    (h : Unsent s' origin) (hcalls : s'.calls = s.calls)
    (hwatching : s'.watching = Function.update s.watching n (some w'))
    (hstage : w'.stage = .sending → ∀ w ∈ s.watching n, w.stage = .sending)
    (halive : w'.alive = true → ∀ w ∈ s.watching n, w.alive = true) : Unsent s origin := by
  cases origin with
  | call m =>
      simp only [Unsent, hcalls] at h ⊢
      exact h
  | watch m =>
      simp only [Unsent, hwatching] at h ⊢
      by_cases hm : m = n
      · subst hm
        exact hstage (h w' (Function.update_self _ _ _))
      · rw [Function.update_of_ne hm] at h
        exact h
  | unwatch m =>
      simp only [Unsent, hwatching] at h ⊢
      by_cases hm : m = n
      · subst hm
        exact halive (h w' (Function.update_self _ _ _))
      · rw [Function.update_of_ne hm] at h
        exact h
  | _ => trivial

structure Sends (s s' : State) (added : List Command) : Prop where
  channel : s'.channel = s.channel ++ added
  back : ∀ origin, Unsent s' origin → Unsent s origin
  first : ∀ command ∈ added, ∀ origin ∈ command.origin?, Unsent s origin ∧ ¬ Unsent s' origin
  single : added.length ≤ 1

theorem fireNow_sends {s : State} (hfresh : s.calls s.nextSync = none) (stream : Option Nat)
    (ty : Nat) (body : List (Nat × Field)) : ∃ added, Sends s (s.fireNow stream ty body) added := by
  unfold State.fireNow
  split
  · refine ⟨_, rfl, ?_, ?_, by simp⟩
    · exact fun origin h => h.of_call rfl rfl (by simp)
    · simp only [List.mem_singleton, Command.origin?]
      rintro command rfl origin ⟨rfl⟩
      exact ⟨by simp [Unsent, hfresh], by simp [Unsent, State.issue]⟩
  · refine ⟨[], (List.append_nil _).symm, ?_, by simp, by simp⟩
    exact fun origin h => h.of_call rfl rfl (by simp)

theorem setWatching_sends {s s' : State} {n : Nat} {w w' : Watching} {added : List Command}
    (hw : s.watching n = some w) (hcalls : s'.calls = s.calls)
    (hwatching : s'.watching = Function.update s.watching n (some w'))
    (hstage : w'.stage = .sending → w.stage = .sending)
    (halive : w'.alive = true → w.alive = true) (hchannel : s'.channel = s.channel ++ added)
    (hfirst : ∀ command ∈ added, ∀ origin ∈ command.origin?, Unsent s origin ∧ ¬ Unsent s' origin)
    (hsingle : added.length ≤ 1) : ∃ added, Sends s s' added := by
  refine ⟨added, hchannel, fun origin h => ?_, hfirst, hsingle⟩
  exact h.of_watching hcalls hwatching (by simpa [hw] using hstage) (by simpa [hw] using halive)

theorem CallerMove.sends {s s' : State} {event : CallerEvent} (h : CallerMove s event s')
    (hcalls : s.calls s.nextSync = none) (hwatching : s.watching s.nextWatchId = none) :
    ∃ added, Sends s s' added := by
  have hquiet {s' : State} (hback : ∀ origin, Unsent s' origin → Unsent s origin)
      (hchannel : s'.channel = s.channel) : ∃ added, Sends s s' added :=
    ⟨[], hchannel.trans (List.append_nil _).symm, hback, by simp, by simp⟩
  cases h with
  | issued =>
      exact hquiet (fun origin h => h.of_call rfl rfl (by simp [hcalls])) rfl
  | @submitted ticket call hcall halive hstage hroom =>
      refine ⟨_, rfl, fun origin h => h.of_call rfl rfl (by simp), ?_, by simp⟩
      simp only [List.mem_singleton, Call.command, Command.origin?]
      rintro command rfl origin ⟨rfl⟩
      exact ⟨by simp [Unsent, hcall, hstage], by simp [Unsent, State.setCall]⟩
  | refused hcall halive hstage | failed hcall halive hstage =>
      exact hquiet (fun origin h => h.of_call rfl rfl (by simp)) rfl
  | abandoned hcall hlive =>
      exact hquiet (fun origin h => h.of_call rfl rfl (by simp [hcall])) rfl
  | @succeeded ticket call answer arrival =>
      obtain ⟨streams, heq⟩ := settleStream_eq
        (s.setCall ticket { call with stage := .returned true }) call arrival
      rw [heq]
      exact hquiet (fun origin h => h.of_call rfl rfl (by simp)) rfl
  | fired hbase =>
      cases hbase with
      | client => exact fireNow_sends hcalls _ _ _
      | @stream id stream =>
          obtain ⟨added, hsends⟩ := fireNow_sends (s := s.setStream id { stream with
            opened := false }) hcalls (some id) _ _
          refine ⟨added, hsends.channel, fun origin h => ?_, fun command hmem origin horigin => ?_,
            hsends.single⟩
          · exact (hsends.back origin h).of_eq rfl rfl
          · obtain ⟨hunsent, hsent⟩ := hsends.first command hmem origin horigin
            exact ⟨hunsent.of_eq rfl rfl, hsent⟩
  | watchIssued =>
      exact hquiet (fun origin h => h.of_watching rfl rfl (by simp [hwatching])
        (by simp [hwatching])) rfl
  | @watchSubmitted watcher w hw halive hstage hroom =>
      refine setWatching_sends hw rfl rfl (by simp) (by simp) rfl ?_ (by simp)
      simp only [List.mem_singleton, Command.origin?]
      rintro command rfl origin ⟨rfl⟩
      exact ⟨by simp [Unsent, hw, hstage], by simp [Unsent, State.setWatching]⟩
  | @watcherDropped watcher w hw halive hstage hroom =>
      refine setWatching_sends hw rfl rfl (by simp) (by simp) rfl ?_ (by simp)
      simp only [List.mem_singleton, Command.origin?]
      rintro command rfl origin ⟨rfl⟩
      exact ⟨by simp [Unsent, hw, halive], by simp [Unsent, State.setWatching]⟩
  | watchResolved hw =>
      exact setWatching_sends hw rfl rfl (by simp) (by simp) (List.append_nil _).symm
        (by simp) (by simp)
  | watchRefused hw | watchOrphaned hw | watchCancelled hw | watcherDroppedFull hw =>
      exact setWatching_sends hw rfl rfl (by simp) (by simp) (List.append_nil _).symm
        (by simp) (by simp)
  | closeSent =>
      exact ⟨_, rfl, fun origin h => h.of_eq rfl rfl, by simp [Command.origin?], by simp⟩
  | openedStream | droppedStream | handlesDropped =>
      exact hquiet (fun origin h => h.of_eq rfl rfl) rfl

def State.sentOrigins (s : State) : List Origin := s.sent.filterMap Command.origin?

structure SentOnce (s : State) : Prop where
  nodup : s.sentOrigins.Nodup
  unsent : ∀ origin, Unsent s origin → origin ∉ s.sentOrigins

theorem SentOnce.issued {s s' : State} {added : List Command} (h : SentOnce s)
    (hhistory : s'.history = s.history) (hsends : Sends s s' added) : SentOnce s' := by
  have hsent : s'.sentOrigins = s.sentOrigins ++ added.filterMap Command.origin? := by
    rw [State.sentOrigins, State.sent, hhistory, hsends.channel, ← List.append_assoc,
      List.filterMap_append]
    rfl
  have hnew {origin : Origin} (hmem : origin ∈ added.filterMap Command.origin?) :
      Unsent s origin ∧ ¬ Unsent s' origin := by
    obtain ⟨command, hcommand, horigin⟩ := List.mem_filterMap.mp hmem
    exact hsends.first command hcommand origin horigin
  constructor
  · rw [hsent, List.nodup_append]
    refine ⟨h.nodup, ?_, ?_⟩
    · have hlength := hsends.single
      match added with
      | [] => simp
      | [command] => cases horigin : command.origin? <;> simp [horigin]
      | _ :: _ :: _ => simp at hlength
    · rintro origin hold _ hmem rfl
      exact h.unsent origin (hnew hmem).1 hold
  · intro origin hunsent
    rw [hsent, List.mem_append]
    rintro (hold | hmem)
    · exact h.unsent origin (hsends.back origin hunsent) hold
    · exact (hnew hmem).2 hunsent

/-! ## Runs -/

/-- What is on its way keeps the order it was sent in, and the packets come in the
order their commands were handled. -/
structure Ordered (s : State) : Prop extends SentOnce s where
  pipeline : s.pipeline.Sublist s.sent
  writes : (commandWrites s.history).Sublist
    ((handledCommands s.history).filterMap Command.origin?)

theorem Ordered.issued {s s' : State} {added : List Command} (h : Ordered s)
    (htask : s'.task = s.task) (hhistory : s'.history = s.history)
    (hsends : Sends s s' added) : Ordered s' where
  toSentOnce := h.toSentOnce.issued hhistory hsends
  pipeline := by
    rw [State.pipeline, State.sent, hhistory, htask, hsends.channel]
    simpa [State.pipeline, State.sent] using h.pipeline.append (.refl added)
  writes := hhistory ▸ h.writes

theorem Ordered.moved {s s' : State} (h : Ordered s) (hflows : Flows s s')
    (hcalls : s'.calls = s.calls) (hwatching : s'.watching = s.watching) : Ordered s' where
  nodup := by
    rw [State.sentOrigins, hflows.sent]
    exact h.nodup
  unsent origin hunsent := by
    rw [State.sentOrigins, hflows.sent]
    exact h.unsent origin (hunsent.of_eq hcalls hwatching)
  pipeline := by
    rw [hflows.sent]
    exact hflows.pipeline.trans h.pipeline
  writes := by
    obtain ⟨added, hhistory, hwrites⟩ := hflows.writes
    rw [hhistory, commandWrites_append, handledCommands_append, List.filterMap_append]
    exact h.writes.append hwrites

theorem ReachableBy.ordered {rmp : Rmp} {options : ConnectOptions} {s : State}
    (h : ReachableBy rmp options TakesInOrder s) : Ordered s := by
  refine Reaches.invariant ?_ ?_ h
  · refine ⟨⟨?_, ?_⟩, ?_, ?_⟩ <;>
      simp [State.initial, State.sentOrigins, State.sent, State.pipeline, received,
        handledCommands, commandWrites]
  · intro s s' event hreach hordered hsafe hstep
    have hreachable : Reachable rmp options s := hreach.weaken
    cases step_move hstep with
    | caller hmove =>
        obtain ⟨added, hsends⟩ := hmove.sends (hreachable.ledger.fresh _ le_rfl)
          (hreachable.sourced.fresh _ le_rfl)
        exact hordered.issued hmove.untouched.task hmove.untouched.history hsends
    | task hmove =>
        exact hordered.moved (hmove.flows hsafe) hmove.untouched.calls hmove.untouched.watching
    | server => exact ⟨⟨hordered.nodup, hordered.unsent⟩, hordered.pipeline, hordered.writes⟩

theorem not_sublist_swap {α : Type*} {l : List α} (hnodup : l.Nodup) {a b : α}
    (h : [a, b].Sublist l) : ¬ [b, a].Sublist l := by
  induction l with
  | nil => simp at h
  | cons first rest ih =>
      rw [List.nodup_cons] at hnodup
      rw [List.sublist_cons_iff] at h ⊢
      rintro (hswap | ⟨tail, htail, hswap⟩)
      · rcases h with h | ⟨tail, htail, h⟩
        · exact ih hnodup.2 h hswap
        · obtain ⟨rfl, -⟩ := List.cons.inj htail
          exact hnodup.1 (hswap.mem (by simp))
      · obtain ⟨rfl, rfl⟩ := List.cons.inj htail
        rcases h with h | ⟨tail, htail, h⟩
        · exact hnodup.1 (h.mem (by simp))
        · obtain ⟨rfl, rfl⟩ := List.cons.inj htail
          exact hnodup.1 (h.mem (by simp))

theorem Command.ofCommand {command : Command} {origin : Origin}
    (h : command.origin? = some origin) : origin.ofCommand = true := by
  cases command <;> simp_all [Command.origin?] <;> subst h <;> rfl

theorem mem_commandWrites {history : List Action} {link : Nat} {origin : Origin}
    {packet : Packet} {result : SendResult} (hcommand : origin.ofCommand = true)
    (h : .wrote link origin packet result ∈ history) : origin ∈ commandWrites history :=
  List.mem_filterMap.mpr ⟨_, h, by simp [hcommand]⟩

/-- Commands do not overtake each other, as long as the select loop takes none
while others are deferred. -/
theorem commands_in_order {rmp : Rmp} {options : ConnectOptions} {s : State}
    (h : ReachableBy rmp options TakesInOrder s) : InOrder s := by
  intro c₁ c₂ o₁ o₂ hsent ho₁ ho₂ before link packet result after heq link' packet' result' hmem
  have hordered := h.ordered
  have hsent : [o₁, o₂].Sublist s.sentOrigins := by
    have hmap := hsent.filterMap Command.origin?
    simpa [ho₁, ho₂, State.sentOrigins] using hmap
  have hwritten : [o₂, o₁].Sublist (commandWrites s.history) := by
    have hlater := mem_commandWrites (Command.ofCommand ho₁) hmem
    have hsecond : commandWrites (.wrote link o₂ packet result :: after) =
        o₂ :: commandWrites after := by
      simp [commandWrites, Command.ofCommand ho₂]
    rw [heq, commandWrites_append, hsecond]
    refine List.Sublist.trans ?_ (List.sublist_append_right _ _)
    exact .cons_cons _ (List.singleton_sublist.mpr hlater)
  have hpipeline : (handledCommands s.history).Sublist s.sent :=
    (List.sublist_append_left _ _).trans hordered.pipeline
  have hboth : [o₂, o₁].Sublist s.sentOrigins :=
    (hwritten.trans hordered.writes).trans (hpipeline.filterMap _)
  exact not_sublist_swap hordered.nodup hsent hboth

def takesInOrder (s : State) : Event → Bool
  | .task (.command _) => s.task.deferred.isEmpty
  | _ => true

theorem takesInOrder_sound (s : State) (event : Event) (h : takesInOrder s event = true) :
    TakesInOrder s event := by
  unfold takesInOrder at h
  unfold TakesInOrder
  split at h <;> simp_all

/-- The packets of two deferred requests and of one sent after the reconnect. -/
theorem commands_in_order_sample :
    ∃ s, ReachableBy fixintRmp {} TakesInOrder s ∧
      commandWrites s.history = [.call 1, .call 2, .call 3] ∧ InOrder s := by
  obtain ⟨s, hreach, hcheck⟩ := reaches_of_guarded (step fixintRmp) takesInOrder
    takesInOrder_sound (.initial {})
    (sampleFailedDrain ++
      [Event.task (.linkError .closed), .task .wake] ++ sampleHandshake 2 [] ++
      [Event.caller (.call none 1 [] false), .caller (.submit 3), .task (.drain .sent),
        .task (.drain .sent), .task (.command .sent)])
    (fun s => decide (commandWrites s.history = [.call 1, .call 2, .call 3]))
    (by decide +kernel)
  rw [decide_eq_true_eq] at hcheck
  exact ⟨s, hreach, hcheck, commands_in_order hreach⟩

theorem commandWrites_split {history : List Action} (first : List Origin)
    {rest : List Origin} {origin : Origin} (h : commandWrites history = first ++ origin :: rest) :
    ∃ before link packet result after,
      history = before ++ .wrote link origin packet result :: after ∧
        commandWrites after = rest := by
  obtain ⟨before, tail, rfl, -, htail⟩ := List.filterMap_eq_append_iff.mp h
  obtain ⟨quiet, action, after, rfl, -, haction, hafter⟩ := List.filterMap_eq_cons_iff.mp htail
  cases action with
  | wrote link origin' packet result =>
      simp only [Option.ite_none_right_eq_some, Option.some.injEq] at haction
      obtain ⟨-, rfl⟩ := haction
      exact ⟨before ++ quiet, link, packet, result, after, by simp, hafter⟩
  | _ => simp at haction

/-- After a failed drain a command from the channel overtakes the second deferred one. -/
theorem deferred_request_overtaken :
    ¬ ∀ rmp options s, Reachable rmp options s → InOrder s := by
  intro hall
  obtain ⟨s, hreach, hcheck⟩ := reaches_of_check (step fixintRmp) (.initial {})
    (sampleFailedDrain ++ [Event.caller (.call none 1 [] false), .caller (.submit 3),
      .task (.command .sent), .task (.drain .sent)])
    (fun s => decide (s.sent.map Command.origin? =
      [some (.call 1), some (.call 2), some (.call 3)]) &&
      decide (commandWrites s.history = [.call 1, .call 3, .call 2])) (by decide +kernel)
  simp only [Bool.and_eq_true, decide_eq_true_eq] at hcheck
  obtain ⟨hsent, hwrites⟩ := hcheck
  match hcommands : s.sent with
  | [c₁, c₂, c₃] =>
      simp only [hcommands, List.map_cons, List.map_nil, List.cons.injEq] at hsent
      obtain ⟨-, h₂, h₃, -⟩ := hsent
      obtain ⟨before, link, packet, result, after, heq, hafter⟩ :=
        commandWrites_split [.call 1] hwrites
      obtain ⟨before', link', packet', result', after', rfl, -⟩ :=
        commandWrites_split [] hafter
      have hpair : [c₂, c₃].Sublist s.sent := by simp [hcommands]
      exact hall fixintRmp {} s hreach c₂ c₃ _ _ hpair h₂ h₃ before link packet result _ heq link'
        packet' result' (by simp)
  | [] | [_] | [_, _] | _ :: _ :: _ :: _ :: _ => simp [hcommands] at hsent

end Tarant.Connection
