import Mathlib.Order.Bounds.Basic
import Tarant.Connection.Pushes

/-!
# The schema version

`handle_response` raises the shared counter before it looks at what the packet
is.  The counter is therefore the greatest version in any packet that the main
loop has read, and no reply is delivered before the counter has caught up with
it.  Handshakes read their packets without `handle_response`: the versions of
these do not count.
-/

namespace Tarant.Connection

open Foundation

def PacketsRead (rmp : Rmp) (options : ConnectOptions) (s : State) (seen : List Response) :
    Prop :=
  Reaches (observing (step rmp) fun s event _ => (s.readBy event).toList) anyStep
    (State.initial options, []) (s, seen)

def versionsIn (seen : List Response) : Set Nat :=
  {version | ∃ response ∈ seen, response.schemaVersion = some version}

theorem versionsIn_append (seen more : List Response) :
    versionsIn (seen ++ more) = versionsIn seen ∪ versionsIn more := by
  ext version
  simp only [versionsIn, List.mem_append, Set.mem_ofPred_eq, Set.mem_union, or_and_right,
    exists_or]

def State.versionRead (s : State) (event : Event) : Nat :=
  ((s.readBy event).bind Response.schemaVersion).getD 0

theorem isGreatest_raised {seen : List Response} {version : Nat}
    (h : IsGreatest (insert 0 (versionsIn seen)) version) (reply : Option Response) :
    IsGreatest (insert 0 (versionsIn (seen ++ reply.toList)))
      (max version ((reply.bind Response.schemaVersion).getD 0)) := by
  rw [versionsIn_append, Set.insert_union_distrib]
  apply h.union
  cases reply with
  | none => simp [versionsIn]
  | some response =>
      cases hversion : response.schemaVersion with
      | none => simp [versionsIn, hversion]
      | some found =>
          constructor
          · exact .inr ⟨response, by simp, by simp [hversion]⟩
          · rintro other (rfl | ⟨response', hmem, hother⟩)
            · exact Nat.zero_le _
            · obtain rfl := by simpa using hmem
              simp [hother]

/-! ## What the counter does -/

theorem lose_schemaVersion (s : State) : s.lose.schemaVersion = s.schemaVersion := by
  simp only [State.lose]
  split <;> rfl

theorem TaskMove.schemaVersion {rmp : Rmp} {s s' : State} {event : TaskEvent}
    (h : TaskMove rmp s event s') :
    s'.schemaVersion = max s.schemaVersion (s.versionRead (.task event)) := by
  cases h with
  | handledLost => exact (lose_schemaVersion _).trans (Nat.max_zero _).symm
  | linkLost => exact (lose_schemaVersion _).trans (Nat.max_zero _).symm
  | received hphase hinbound hfinished =>
      simp [State.versionRead, State.readBy, hinbound, State.receive]
  | receivedLast hphase hinbound hfinished =>
      simp [State.versionRead, State.readBy, hinbound, State.closeDown, State.stop, State.receive]
  | _ => exact (Nat.max_zero _).symm

theorem fireNow_schemaVersion (s : State) (stream : Option Nat) (ty : Nat)
    (body : List (Nat × Field)) : (s.fireNow stream ty body).schemaVersion = s.schemaVersion := by
  unfold State.fireNow
  split <;> rfl

theorem CallerMove.schemaVersion {s s' : State} {event : CallerEvent}
    (h : CallerMove s event s') : s'.schemaVersion = s.schemaVersion := by
  cases h with
  | succeeded =>
      obtain ⟨streams, heq⟩ := settleStream_eq _ _ _
      rw [heq]
      rfl
  | fired hbase =>
      cases hbase with
      | client => apply fireNow_schemaVersion
      | stream => apply fireNow_schemaVersion
  | _ => rfl

theorem step_schemaVersion {rmp : Rmp} {s s' : State} {event : Event}
    (h : step rmp s event = some s') :
    s'.schemaVersion = max s.schemaVersion (s.versionRead event) := by
  cases step_move h with
  | caller hmove => exact hmove.schemaVersion.trans (Nat.max_zero _).symm
  | task hmove => exact hmove.schemaVersion
  | server => exact (Nat.max_zero _).symm

theorem schemaVersion_mono {rmp : Rmp} {s s' : State}
    (h : Reaches (step rmp) anyStep s s') : s.schemaVersion ≤ s'.schemaVersion := by
  refine Reaches.invariant (I := fun t => s.schemaVersion ≤ t.schemaVersion) le_rfl ?_ h
  rintro t t' event - hle - hstep
  rw [step_schemaVersion hstep]
  exact hle.trans (Nat.le_max_left _ _)

/-! ## Which replies are delivered -/

def repliesIn (history : List Action) : List Response :=
  history.filterMap fun
    | .answered _ _ (.reply arrival) => some arrival.response
    | _ => none

@[simp] theorem repliesIn_append (history actions : List Action) :
    repliesIn (history ++ actions) = repliesIn history ++ repliesIn actions :=
  List.filterMap_append

theorem repliesIn_eq_nil {actions : List Action}
    (h : ∀ link n arrival, .answered link n (.reply arrival) ∉ actions) :
    repliesIn actions = [] := by
  rw [repliesIn, List.filterMap_eq_nil_iff]
  intro action hmem
  cases action with
  | answered link n answer =>
      cases answer with
      | reply arrival => exact absurd hmem (h link n arrival)
      | error err => rfl
      | dropped => rfl
  | _ => rfl

theorem answerOf_repliesIn {n : Nat} {history : List Action} {arrival : Arrival}
    (h : answerOf n history = some (.reply arrival)) : arrival.response ∈ repliesIn history := by
  obtain ⟨action, hmem, haction⟩ := List.exists_of_findSome?_eq_some h
  cases action with
  | answered link ticket answer =>
      simp only [Option.ite_none_right_eq_some, Option.some.injEq] at haction
      obtain ⟨-, rfl⟩ := haction
      exact List.mem_filterMap.mpr ⟨_, hmem, rfl⟩
  | _ => simp at haction

@[simp] theorem repliesIn_nil : repliesIn [] = [] := rfl

@[simp] theorem repliesIn_took (command : Command) (actions : List Action) :
    repliesIn (.took command :: actions) = repliesIn actions := rfl

@[simp] theorem repliesIn_handled (link : Nat) (command : Command) (actions : List Action) :
    repliesIn (.handled link command :: actions) = repliesIn actions := rfl

@[simp] theorem repliesIn_closedSocket (link : Nat) (cause : CloseCause) (actions : List Action) :
    repliesIn (.closedSocket link cause :: actions) = repliesIn actions := rfl

@[simp] theorem repliesIn_up (link : Nat) (negotiated : Negotiated) (actions : List Action) :
    repliesIn (.up link negotiated :: actions) = repliesIn actions := rfl

@[simp] theorem repliesIn_discarded (commands : List Command) :
    repliesIn (commands.map .discarded) = [] :=
  repliesIn_eq_nil (by simp)

theorem Handling.repliesIn {t t' : Task} {link : Nat} {send : SendResult} {command : Command}
    {actions : List Action} {result : Except Error Unit}
    (h : Handling t link send command t' actions result) : Connection.repliesIn actions = [] :=
  repliesIn_eq_nil h.no_reply

@[simp] theorem failPending_repliesIn (t : Task) (link : Nat) :
    repliesIn (t.failPending link).2 = [] :=
  repliesIn_eq_nil (by simp [Task.failPending])

@[simp] theorem failLink_repliesIn (t : Task) (link : Nat) :
    repliesIn (t.failLink link).2 = [] :=
  repliesIn_eq_nil (by simp [Task.failLink, Task.failPending])

@[simp] theorem failDeferred_repliesIn (t : Task) (link : Nat) :
    repliesIn (t.failDeferred link).2 = [] :=
  repliesIn_eq_nil (by simp [Task.failDeferred])

@[simp] theorem dropDeferred_repliesIn (t : Task) (link : Nat) :
    repliesIn (t.dropDeferred link).2 = [] :=
  repliesIn_eq_nil (by simp [Task.dropDeferred])

@[simp] theorem defer_repliesIn (t : Task) (link : Nat) (command : Command) :
    repliesIn (t.defer link command).2 = [] := by
  unfold Task.defer
  split <;> exact repliesIn_eq_nil (by simp)

@[simp] theorem resubscribe_repliesIn (link : Nat) (send : String → SendResult)
    (keys : List String) : repliesIn (Task.resubscribe link send keys) = [] := by
  apply repliesIn_eq_nil
  intro l n arrival hmem
  exact Task.forall_mem_resubscribe (p := fun action => action ≠ .answered l n (.reply arrival))
    (by simp) keys _ hmem rfl

@[simp] theorem giveUp_repliesIn (s : State) :
    repliesIn s.giveUp.history = repliesIn s.history := by
  simp [State.giveUp, State.stop]

@[simp] theorem closeDown_repliesIn (s : State) (cause : CloseCause) :
    repliesIn (s.closeDown cause).history = repliesIn s.history := by
  simp [State.closeDown, State.stop]

@[simp] theorem lose_repliesIn (s : State) :
    repliesIn s.lose.history = repliesIn s.history := by
  simp only [State.lose]
  split <;> simp [State.perform]

theorem Routing.repliesIn {t t' : Task} {link : Nat} {alive : Nat → Bool} {ack : SendResult}
    {arrival : Arrival} {actions : List Action} (h : Routing t link alive ack arrival t' actions) :
    (Connection.repliesIn actions).Sublist [arrival.response] := by
  cases h with
  | delivered hfinal hlookup => exact List.Sublist.refl _
  | unwatched hkind hevent hlookup =>
      rw [repliesIn_eq_nil]
      · exact List.nil_sublist _
      · split <;> simp
  | notified hkind hevent hlookup =>
      rw [repliesIn_eq_nil]
      · exact List.nil_sublist _
      · split <;> simp
  | _ => exact List.nil_sublist _

theorem TaskMove.repliesIn {rmp : Rmp} {s s' : State} {event : TaskEvent}
    (h : TaskMove rmp s event s') :
    ∃ replies, Connection.repliesIn s'.history = Connection.repliesIn s.history ++ replies ∧
      replies.Sublist (s.readBy (.task event)).toList := by
  have hrouted (ack : SendResult) (inbound : Inbound) :
      ∃ replies, Connection.repliesIn (s.receive ack inbound).history =
        Connection.repliesIn s.history ++ replies ∧ replies.Sublist [inbound.response] :=
    ⟨_, repliesIn_append _ _, (handleResponse_routing _ _ _ _ _).repliesIn⟩
  cases h with
  | received hphase hinbound hfinished =>
      simp only [State.readBy, hinbound, Option.map_some, Option.toList_some]
      apply hrouted
  | receivedLast hphase hinbound hfinished =>
      simp only [State.readBy, hinbound, Option.map_some, Option.toList_some]
      rw [closeDown_repliesIn]
      apply hrouted
  | replayed hphase hdeferred hhandle =>
      exact ⟨[], by simp [State.perform, (handling_of_eq hhandle).repliesIn], List.nil_sublist _⟩
  | replayFailed hphase hdeferred hhandle =>
      exact ⟨[], by simp [State.perform, (handling_of_eq hhandle).repliesIn], List.nil_sublist _⟩
  | handled hphase hchannel hclose hhandle | handledLost hphase hchannel hclose hhandle =>
      exact ⟨[], by simp [State.perform, State.takeCommand, (handling_of_eq hhandle).repliesIn],
        List.nil_sublist _⟩
  | connected =>
      exact ⟨[], by simp [State.greet, State.perform, repliesIn_eq_nil], List.nil_sublist _⟩
  | authenticated =>
      exact ⟨[], by simp [State.authenticate, State.perform, repliesIn_eq_nil], List.nil_sublist _⟩
  | _ => exact ⟨[], by simp [State.perform, State.takeCommand, State.advance], List.nil_sublist _⟩

structure Versioned (s : State) (seen : List Response) : Prop where
  greatest : IsGreatest (insert 0 (versionsIn seen)) s.schemaVersion
  delivered : (repliesIn s.history).Sublist seen

theorem Versioned.step {rmp : Rmp} {s s' : State} {event : Event} {seen : List Response}
    (h : Versioned s seen) (hstep : step rmp s event = some s') :
    Versioned s' (seen ++ (s.readBy event).toList) where
  greatest := by
    rw [step_schemaVersion hstep]
    exact isGreatest_raised h.greatest _
  delivered := by
    cases step_move hstep with
    | caller hmove =>
        rw [hmove.untouched.history]
        exact h.delivered.trans (List.sublist_append_left _ _)
    | task hmove =>
        obtain ⟨replies, hhistory, hreplies⟩ := hmove.repliesIn
        rw [hhistory]
        exact h.delivered.append hreplies
    | server => exact h.delivered.trans (List.sublist_append_left _ _)

theorem PacketsRead.versioned {rmp : Rmp} {options : ConnectOptions} {s : State}
    {seen : List Response} (h : PacketsRead rmp options s seen) : Versioned s seen := by
  refine Reaches.invariant (I := fun x => Versioned x.1 x.2) ?_ ?_ h
  · constructor
    · simp [State.initial, versionsIn]
    · exact List.nil_sublist _
  · rintro ⟨s, seen⟩ ⟨s', seen'⟩ event - hversioned - hstep
    obtain ⟨hmoved, rfl⟩ := observing_eq_some.mp hstep
    exact hversioned.step hmoved

/-- The counter is the greatest version in the packets that the main loop read, it
never falls, and the replies that callers got are, in order, among these packets: no
caller holds a reply that is newer than the counter it can read. -/
theorem schema_version_leads_replies {rmp : Rmp} {options : ConnectOptions} {s : State}
    {seen : List Response} (h : PacketsRead rmp options s seen) :
    IsGreatest (insert 0 (versionsIn seen)) s.schemaVersion ∧
      (repliesIn s.history).Sublist seen ∧
      (∀ ticket arrival, answerOf ticket s.history = some (.reply arrival) →
        ∀ version ∈ arrival.response.schemaVersion, version ≤ s.schemaVersion) ∧
      ∀ s', Reaches (step rmp) anyStep s s' → s.schemaVersion ≤ s'.schemaVersion := by
  have hversioned := h.versioned
  refine ⟨hversioned.greatest, hversioned.delivered, ?_, fun s' => schemaVersion_mono⟩
  intro ticket arrival hanswer version hversion
  apply hversioned.greatest.2
  exact .inr ⟨_, hversioned.delivered.subset (answerOf_repliesIn hanswer), hversion⟩

def sampleVersions : List Event :=
  sampleHandshake 0 [] ++
    [Event.caller (.call none 64 [] false), .caller (.call none 64 [] false),
      .caller (.submit 1), .caller (.submit 2), .task (.drain .sent), .task (.command .sent),
      .task (.drain .sent), .task (.command .sent), .task (.drain .sent),
      .server 0 ⟨{ kind := .ok, sync := 2, schemaVersion := some 7 }, some 2⟩,
      .server 0 ⟨{ kind := .ok, sync := 1, schemaVersion := some 5 }, some 1⟩,
      .task (.packet .sent), .task (.drain .sent), .task (.packet .sent)]

theorem schema_version_leads_replies_sample :
    ∃ s seen, PacketsRead fixintRmp {} s seen ∧ s.schemaVersion = 7 ∧
      (repliesIn s.history).map Response.schemaVersion = [some 7, some 5] ∧
      (repliesIn s.history).Sublist seen := by
  obtain ⟨⟨s, seen⟩, hreach, hcheck⟩ := reaches_of_check
    (observing (step fixintRmp) fun s event _ => (s.readBy event).toList) (.initial {}, [])
    sampleVersions
    (fun (s, _) => decide (s.schemaVersion = 7 ∧
      (repliesIn s.history).map Response.schemaVersion = [some 7, some 5])) (by decide +kernel)
  obtain ⟨hversion, hreplies⟩ := of_decide_eq_true hcheck
  exact ⟨s, seen, hreach, hversion, hreplies, (schema_version_leads_replies hreach).2.1⟩

end Tarant.Connection
