import Tarant.Connection.Subscriptions

/-!
# Watchers

How `Watch` and `Unwatch` travel from a watcher through the channel and the
deferred queue into the watchers map, and what becomes of the entries there.
-/

namespace Tarant.Connection

open Foundation
open Iproto

/-! ## Commands on their way -/

def State.outstanding (s : State) : List Command := s.channel ++ s.task.deferred

inductive WatchFlow (s : State) (event : TaskEvent) (s' : State) : Prop where
  | still (hwatchers : s'.task.watchers = s.task.watchers)
      (houtstanding : s'.outstanding.Perm s.outstanding)
      (hhandled : ∀ link c, .handled link c ∈ s'.history → .handled link c ∈ s.history)
  | handled {t t' : Task} {send : SendResult} {command : Command} {actions : List Action}
      {result : Except Error Unit}
      (hhandling : Handling t s.link send command t' actions result)
      (ht : t.watchers = s.task.watchers) (ht' : s'.task.watchers = t'.watchers)
      (houtstanding : s.outstanding.Perm (command :: s'.outstanding))
      (hhandled : ∀ link c, .handled link c ∈ s'.history →
        .handled link c ∈ s.history ∨ c = command)
  | overflowed {command : Command} {rest : List Command} (hevent : event = .reconnectCommand)
      (hchannel : s.channel = command :: rest)
      (hfull : Task.maxDeferred ≤ s.task.deferred.length)
      (hwatchers : s'.task.watchers = s.task.watchers)
      (houtstanding : s.outstanding.Perm (command :: s'.outstanding))
      (hhandled : ∀ link c, .handled link c ∈ s'.history → .handled link c ∈ s.history)
  | notified {key : String} {list : List Subscriber}
      (hlookup : s.task.watchers.lookup key = some list)
      (hwatchers : s'.task.watchers =
        s.task.watchers.insert key (list.filter (s.receiverAlive ·.watcher)))
      (houtstanding : s'.outstanding.Perm s.outstanding)
      (hhandled : ∀ link c, .handled link c ∈ s'.history → .handled link c ∈ s.history)
  | ended (hdone : s'.phase = .done)

def Unhandled (actions : List Action) : Prop := ∀ link command, .handled link command ∉ actions

theorem Unhandled.of_local {link : Nat} {actions : List Action}
    (h : ∀ action ∈ actions, action.Local link) : Unhandled actions :=
  fun l command hmem => h (.handled l command) hmem

theorem Unhandled.mem {history actions : List Action} (h : Unhandled actions) {link : Nat}
    {command : Command} (hmem : .handled link command ∈ history ++ actions) :
    .handled link command ∈ history :=
  (List.mem_append.mp hmem).resolve_right (h link command)

theorem failLink_unhandled (t : Task) (link : Nat) : Unhandled (t.failLink link).2 := by
  intro l command
  simp [Task.failLink, Task.failPending]

theorem handled_flow {s s' : State} {event : TaskEvent} {t t' : Task} {send : SendResult}
    {command : Command} {actions : List Action} {result : Except Error Unit}
    (hhandling : Handling t s.link send command t' actions result)
    (ht : t.watchers = s.task.watchers) (ht' : s'.task.watchers = t'.watchers)
    (houtstanding : s.outstanding.Perm (command :: s'.outstanding)) {before after : List Action}
    (hbefore : Unhandled before) (hafter : Unhandled after)
    (hhistory : s'.history =
      s.history ++ before ++ .handled s.link command :: (actions ++ after)) :
    WatchFlow s event s' := by
  refine .handled hhandling ht ht' houtstanding fun link c hmem => ?_
  have hactions : Unhandled actions := .of_local hhandling.isLocal
  simp only [hhistory, List.mem_append, List.mem_cons, Action.handled.injEq] at hmem
  rcases hmem with (hmem | hmem) | ⟨-, rfl⟩ | hmem | hmem
  · exact .inl hmem
  · exact absurd hmem (hbefore link c)
  · exact .inr rfl
  · exact absurd hmem (hactions link c)
  · exact absurd hmem (hafter link c)

theorem unhandled_nil : Unhandled [] := by simp [Unhandled]

theorem unhandled_took (command : Command) : Unhandled [.took command] := by simp [Unhandled]

theorem lose_flow (s : State) : s.lose.phase = .done ∨
    s.lose.task.watchers = s.task.watchers ∧ s.lose.outstanding = s.outstanding ∧
      ∃ actions, s.lose.history = s.history ++ actions ∧ Unhandled actions := by
  simp only [State.lose]
  split
  · exact .inr ⟨rfl, rfl, _, rfl, failLink_unhandled _ _⟩
  · exact .inl rfl

theorem receive_flow (s : State) (ack : SendResult) (inbound : Inbound) (event : TaskEvent) :
    WatchFlow s event (s.receive ack inbound) := by
  have hrouting := handleResponse_routing s.task s.link s.receiverAlive ack
    ⟨inbound.response, s.link, s.read s.link⟩
  have houtstanding : (s.receive ack inbound).outstanding.Perm s.outstanding :=
    .of_eq (congrArg (s.channel ++ ·) hrouting.deferred_eq)
  have hhandled (link : Nat) (c : Command)
      (hmem : .handled link c ∈ (s.receive ack inbound).history) :
      .handled link c ∈ s.history := (Unhandled.of_local hrouting.isLocal).mem hmem
  -- the map is what the branch taken leaves
  have hmap : (s.receive ack inbound).task.watchers = s.task.watchers ∨
      ∃ key list, s.task.watchers.lookup key = some list ∧
        (s.receive ack inbound).task.watchers =
          s.task.watchers.insert key (list.filter (s.receiverAlive ·.watcher)) := by
    have htask : (s.receive ack inbound).task = (s.task.handleResponse s.link s.receiverAlive
      ack ⟨inbound.response, s.link, s.read s.link⟩).1 := rfl
    rw [htask]
    generalize (s.task.handleResponse s.link s.receiverAlive ack
      ⟨inbound.response, s.link, s.read s.link⟩).1 = t at hrouting
    generalize (s.task.handleResponse s.link s.receiverAlive ack
      ⟨inbound.response, s.link, s.read s.link⟩).2 = actions at hrouting
    cases hrouting with
    | notified _ _ hlookup => exact .inr ⟨_, _, hlookup, rfl⟩
    | _ => exact .inl rfl
  rcases hmap with hwatchers | ⟨key, list, hlookup, hwatchers⟩
  · exact .still hwatchers houtstanding hhandled
  · exact .notified hlookup hwatchers houtstanding hhandled

theorem deferred_flow {s : State} {command : Command} {rest : List Command}
    (hchannel : s.channel = command :: rest) (phase : Phase) :
    WatchFlow s .reconnectCommand ((s.takeCommand command rest).perform
      (s.task.defer s.link command).1 (s.task.defer s.link command).2 phase) := by
  have hhandled (link : Nat) (c : Command) (hmem : .handled link c ∈ ((s.takeCommand command
      rest).perform (s.task.defer s.link command).1 (s.task.defer s.link command).2
        phase).history) : .handled link c ∈ s.history := by
    have htaken : .handled link c ∈ s.history ++ [.took command] :=
      (Unhandled.of_local defer_isLocal).mem hmem
    simpa using htaken
  by_cases hfull : Task.maxDeferred ≤ s.task.deferred.length
  · refine .overflowed rfl hchannel hfull ?_ (.of_eq ?_) hhandled
    · simp [State.perform, Task.defer, hfull]
    · simp [State.outstanding, State.perform, State.takeCommand, Task.defer, hfull, hchannel]
  · refine .still ?_ ?_ hhandled
    · simp [State.perform, Task.defer, hfull]
    · simp only [State.outstanding, State.perform, State.takeCommand, Task.defer, if_neg hfull,
        hchannel, ← List.append_assoc, List.cons_append]
      exact List.perm_append_singleton _ _

theorem TaskMove.flow {rmp : Rmp} {s s' : State} {event : TaskEvent}
    (h : TaskMove rmp s event s') : WatchFlow s event s' := by
  cases h with
  | drained | woke | attemptFailed | replyRejected | idAccepted =>
      exact .still rfl (.refl _) fun _ _ hmem => hmem
  | @replayed command rest send t actions hphase hdeferred hhandle =>
      have hhandling := handling_of_eq hhandle
      refine handled_flow hhandling rfl rfl ?_ unhandled_nil unhandled_nil
        (by simp [State.perform])
      rw [State.outstanding, State.outstanding, State.perform, hhandling.deferred_eq, hdeferred]
      exact List.perm_middle
  | @replayFailed command rest send t actions err hphase hdeferred hhandle =>
      have hhandling := handling_of_eq hhandle
      refine handled_flow hhandling rfl rfl ?_ unhandled_nil (failLink_unhandled t s.link)
        (by simp [State.perform])
      have hrest : (t.failLink s.link).1.deferred = rest := hhandling.deferred_eq
      rw [State.outstanding, State.outstanding, State.perform, hrest, hdeferred]
      exact List.perm_middle
  | @handled command rest send t actions hphase hchannel hclose hhandle =>
      have hhandling := handling_of_eq hhandle
      refine handled_flow hhandling rfl rfl ?_ (unhandled_took command) unhandled_nil
        (by simp [State.perform, State.takeCommand])
      rw [State.outstanding, hchannel, List.cons_append, ← hhandling.deferred_eq]
      exact .refl _
  | @handledLost command rest send t actions err hphase hchannel hclose hhandle =>
      have hhandling := handling_of_eq hhandle
      rcases lose_flow ((s.takeCommand command rest).perform t
          (.handled s.link command :: actions) .drain) with
        hdone | ⟨hwatchers, houtstanding, after, hhistory, hafter⟩
      · exact .ended hdone
      · refine handled_flow hhandling rfl hwatchers ?_ (unhandled_took command) hafter ?_
        · rw [houtstanding, State.outstanding, hchannel, List.cons_append,
            ← hhandling.deferred_eq]
          exact .refl _
        · rw [hhistory]
          simp [State.perform, State.takeCommand]
  | closeCommand | channelClosed | receivedLast | closeWhileDown | channelClosedWhileDown =>
      exact .ended rfl
  | received => exact receive_flow s _ _ _
  | linkLost =>
      rcases lose_flow s with hdone | ⟨hwatchers, houtstanding, after, hhistory, hafter⟩
      · exact .ended hdone
      · refine .still hwatchers (.of_eq houtstanding) fun link c hmem => ?_
        rw [hhistory] at hmem
        exact hafter.mem hmem
  | deferred hphase hchannel => exact deferred_flow hchannel _
  | connected | authenticated =>
      refine .still rfl (.refl _) fun link c hmem => ?_
      simpa [State.greet, State.authenticate, State.perform] using hmem
  | spawned =>
      refine .still rfl (.refl _) fun link c hmem => ?_
      simpa [State.advance, State.perform] using hmem
  | @reconnected delay socket negotiated inbound order send hreply =>
      refine .still rfl (.refl _) fun link c hmem => ?_
      have hquiet : Unhandled (Task.resubscribe socket send order) :=
        .of_local (resubscribe_isLocal _ _)
      simpa [State.advance, State.perform, hquiet link c] using hmem

/-! ## What watchers do -/

def Command.watcher? : Command → Option Nat
  | .watch _ _ watcher | .unwatch _ _ watcher => some watcher
  | _ => none

/-- How a receiver disappears without an `Unwatch`. -/
inductive Vanishes (s : State) (event : CallerEvent) (watcher : Nat) (w : Watching) : Prop where
  | unsent (hstage : w.stage = .sending)
  | orphaned (hstage : w.stage = .queued) (hgone : s.senderGone watcher = true)
  | cancelled (hstage : w.stage = .queued) (hevent : event = .dropWatch watcher)
  | refused (hstage : w.stage = .watching) (hevent : event = .dropWatch watcher)
      (hroom : s.hasRoom = false)

inductive WatcherMove (s : State) (event : CallerEvent) (s' : State) : Prop where
  | idle {added : List Command} (hwatching : s'.watching = s.watching)
      (hnext : s'.nextWatchId = s.nextWatchId) (hchannel : s'.channel = s.channel ++ added)
      (hadded : ∀ command ∈ added, command.watcher? = none)
  | issued {key : String} (hwatching : s'.watching =
        Function.update s.watching s.nextWatchId (some ⟨key, .sending, true⟩))
      (hnext : s'.nextWatchId = s.nextWatchId + 1) (hchannel : s'.channel = s.channel)
  | submitted {watcher : Nat} {w : Watching} (hw : s.watching watcher = some w)
      (halive : w.alive = true) (hstage : w.stage = .sending)
      (hwatching : s'.watching =
        Function.update s.watching watcher (some { w with stage := .queued }))
      (hnext : s'.nextWatchId = s.nextWatchId)
      (hchannel : s'.channel = s.channel ++ [.watch (syncOf watcher) w.key watcher])
  | resolved {watcher : Nat} {w : Watching} (hw : s.watching watcher = some w)
      (halive : w.alive = true) (hstage : w.stage = .queued)
      (hcell : (s.cell watcher).isSome = true)
      (hwatching : s'.watching =
        Function.update s.watching watcher (some { w with stage := .watching }))
      (hnext : s'.nextWatchId = s.nextWatchId) (hchannel : s'.channel = s.channel)
  | vanished {watcher : Nat} {w : Watching} (hw : s.watching watcher = some w)
      (halive : w.alive = true) (hhow : Vanishes s event watcher w)
      (hwatching : s'.watching =
        Function.update s.watching watcher (some { w with alive := false }))
      (hnext : s'.nextWatchId = s.nextWatchId) (hchannel : s'.channel = s.channel)
  | dropped {watcher : Nat} {w : Watching} (hw : s.watching watcher = some w)
      (halive : w.alive = true) (hstage : w.stage = .watching)
      (hwatching : s'.watching =
        Function.update s.watching watcher (some { w with alive := false }))
      (hnext : s'.nextWatchId = s.nextWatchId)
      (hchannel : s'.channel = s.channel ++ [.unwatch (syncOf watcher) w.key watcher])

theorem CallerMove.watcherMove {s s' : State} {event : CallerEvent} (h : CallerMove s event s') :
    WatcherMove s event s' := by
  cases h with
  | watchIssued => exact .issued rfl rfl rfl
  | watchSubmitted hw halive hstage => exact .submitted hw halive hstage rfl rfl rfl
  | watchRefused hw halive hstage => exact .vanished hw halive (.unsent hstage) rfl rfl rfl
  | watchResolved hw halive hstage hcell => exact .resolved hw halive hstage hcell rfl rfl rfl
  | watchOrphaned hw halive hstage hgone =>
      exact .vanished hw halive (.orphaned hstage hgone) rfl rfl rfl
  | @watchCancelled watcher w hw halive hstage =>
      refine .vanished hw halive ?_ rfl rfl rfl
      cases hcase : w.stage with
      | sending => exact .unsent hcase
      | queued => exact .cancelled hcase rfl
      | watching => exact absurd hcase hstage
  | watcherDropped hw halive hstage => exact .dropped hw halive hstage rfl rfl rfl
  | watcherDroppedFull hw halive hstage hroom =>
      exact .vanished hw halive (.refused hstage rfl hroom) rfl rfl rfl
  | submitted => exact .idle rfl rfl rfl (by simp [Call.command, Command.watcher?])
  | closeSent => exact .idle rfl rfl rfl (by simp [Command.watcher?])
  | @succeeded ticket call answer arrival =>
      obtain ⟨streams, heq⟩ := settleStream_eq
        (s.setCall ticket { call with stage := .returned true }) call arrival
      rw [heq]
      exact .idle rfl rfl (List.append_nil _).symm (by simp)
  | fired hbase =>
      cases hbase with
      | client | stream =>
          unfold State.fireNow
          split
          · exact .idle rfl rfl rfl (by simp [Command.watcher?])
          · exact .idle rfl rfl (List.append_nil _).symm (by simp)
  | _ => exact .idle rfl rfl (List.append_nil _).symm (by simp)

theorem receiverAlive_iff {s : State} {watcher : Nat} :
    s.receiverAlive watcher = true ↔ ∃ w, s.watching watcher = some w ∧ w.alive = true := by
  rw [State.receiverAlive, Option.any_eq_true]

theorem WatcherMove.alive {s s' : State} {event : CallerEvent} (h : WatcherMove s event s')
    {watcher : Nat} (halive : s'.receiverAlive watcher = true) :
    s.receiverAlive watcher = true ∨ watcher = s.nextWatchId := by
  have hupdate {other : Nat} {w w' : Watching} (hw : s.watching other = some w)
      (hsame : w'.alive = true → w.alive = true)
      (hwatching : s'.watching = Function.update s.watching other (some w')) :
      s.receiverAlive watcher = true := by
    by_cases hother : watcher = other
    · subst hother
      simp_all [State.receiverAlive]
    · simpa [State.receiverAlive, hwatching, Function.update_of_ne hother] using halive
  cases h with
  | idle hwatching =>
      refine .inl ?_
      rw [State.receiverAlive, hwatching] at halive
      exact halive
  | issued hwatching =>
      by_cases hother : watcher = s.nextWatchId
      · exact .inr hother
      · refine .inl ?_
        simpa [State.receiverAlive, hwatching, Function.update_of_ne hother] using halive
  | submitted hw halive' hstage hwatching => exact .inl (hupdate hw (fun _ => halive') hwatching)
  | resolved hw halive' hstage hcell hwatching =>
      exact .inl (hupdate hw (fun _ => halive') hwatching)
  | vanished hw halive' hhow hwatching => exact .inl (hupdate hw (by simp) hwatching)
  | dropped hw halive' hstage hwatching => exact .inl (hupdate hw (by simp) hwatching)

theorem WatcherMove.nextWatchId_le {s s' : State} {event : CallerEvent}
    (h : WatcherMove s event s') : s.nextWatchId ≤ s'.nextWatchId := by
  cases h <;> omega

theorem WatcherMove.unwatch_source {s s' : State} {event : CallerEvent}
    (h : WatcherMove s event s') {id : Nat} {key : String} {watcher : Nat}
    (hmem : .unwatch id key watcher ∈ s'.channel) :
    .unwatch id key watcher ∈ s.channel ∨ s'.receiverAlive watcher = false := by
  cases h with
  | idle hwatching hnext hchannel hadded =>
      rw [hchannel, List.mem_append] at hmem
      exact hmem.imp_right fun hnew => by simpa [Command.watcher?] using hadded _ hnew
  | submitted _ _ _ _ _ hchannel => exact .inl (by simpa [hchannel] using hmem)
  | issued _ _ hchannel | resolved _ _ _ _ _ _ hchannel | vanished _ _ _ _ _ hchannel =>
      exact .inl (hchannel ▸ hmem)
  | dropped hw halive hstage hwatching hnext hchannel =>
      rw [hchannel, List.mem_append, List.mem_singleton] at hmem
      refine hmem.imp_right fun hnew => ?_
      obtain ⟨-, -, rfl⟩ := Command.unwatch.inj hnew
      simp [State.receiverAlive, hwatching]

structure Numbered (s : State) : Prop where
  positive : 0 < s.nextWatchId
  zero : s.watching 0 = none

theorem Numbered.issued {s s' : State} {event : CallerEvent} (h : Numbered s)
    (hmove : WatcherMove s event s') : Numbered s' := by
  have hupdate {watcher : Nat} {w w' : Watching} (hw : s.watching watcher = some w) :
      Function.update s.watching watcher (some w') 0 = none := by
    rw [Function.update_of_ne, h.zero]
    rintro rfl
    simp [h.zero] at hw
  cases hmove with
  | idle hwatching hnext => exact ⟨hnext ▸ h.positive, hwatching ▸ h.zero⟩
  | issued hwatching hnext =>
      refine ⟨by omega, ?_⟩
      rw [hwatching, Function.update_of_ne (by have := h.positive; omega)]
      exact h.zero
  | submitted hw _ _ hwatching hnext | resolved hw _ _ _ hwatching hnext
  | vanished hw _ _ hwatching hnext | dropped hw _ _ hwatching hnext =>
      exact ⟨hnext ▸ h.positive, hwatching ▸ hupdate hw⟩

theorem Reachable.numbered {rmp : Rmp} {options : ConnectOptions} {s : State}
    (h : Reachable rmp options s) : Numbered s := by
  refine Reaches.invariant ?_ ?_ h
  · exact ⟨Nat.one_pos, rfl⟩
  · intro s s' event _ hnumbered _ hstep
    cases step_move hstep with
    | caller hmove => exact hnumbered.issued hmove.watcherMove
    | task hmove =>
        have huntouched := hmove.untouched
        exact ⟨huntouched.nextWatchId ▸ hnumbered.positive, huntouched.watching ▸ hnumbered.zero⟩
    | server => exact ⟨hnumbered.positive, hnumbered.zero⟩

/-! ## A live subscription is kept -/

theorem Handling.keeps {t t' : Task} {link : Nat} {send : SendResult} {command : Command}
    {actions : List Action} {result : Except Error Unit}
    (h : Handling t link send command t' actions result) {key : String}
    {list : List Subscriber} {subscriber : Subscriber}
    (hlookup : t.watchers.lookup key = some list) (hmem : subscriber ∈ list)
    (hother : ∀ id watcher, command = .unwatch id key watcher → subscriber.id ≠ id) :
    ∃ list', t'.watchers.lookup key = some list' ∧ subscriber ∈ list' := by
  cases h with
  | @watchedFirst id key' watcher hnone =>
      have hne : key ≠ key' := by
        rintro rfl
        simp [hlookup] at hnone
      exact ⟨list, (AList.lookup_insert_ne hne).trans hlookup, hmem⟩
  | @watched id key' watcher list' hsome =>
      by_cases hkey : key = key'
      · subst hkey
        obtain rfl := Option.some.inj (hlookup.symm.trans hsome)
        exact ⟨_, AList.lookup_insert _, List.mem_append_left _ hmem⟩
      · exact ⟨list, (AList.lookup_insert_ne hkey).trans hlookup, hmem⟩
  | @unwatchedLast id key' watcher list' hsome hkept =>
      by_cases hkey : key = key'
      · subst hkey
        obtain rfl := Option.some.inj (hlookup.symm.trans hsome)
        rw [List.filter_eq_nil_iff] at hkept
        exact absurd (by simpa using hother id watcher rfl) (hkept subscriber hmem)
      · exact ⟨list, (AList.lookup_erase_ne hkey).trans hlookup, hmem⟩
  | @unwatched id key' watcher list' hsome hkept =>
      by_cases hkey : key = key'
      · subst hkey
        obtain rfl := Option.some.inj (hlookup.symm.trans hsome)
        refine ⟨_, AList.lookup_insert _, List.mem_filter.mpr ⟨hmem, ?_⟩⟩
        simpa using hother id watcher rfl
      · exact ⟨list, (AList.lookup_insert_ne hkey).trans hlookup, hmem⟩
  | _ => exact ⟨list, hlookup, hmem⟩

/-- An `Unwatch` comes after its watcher, and a handled `Watch` of a live one is
in the list. -/
structure Listed (s : State) : Prop where
  dead : ∀ id key watcher, .unwatch id key watcher ∈ s.outstanding →
    s.receiverAlive watcher = false
  listed : s.nextWatchId ≤ 2 ^ 64 + 1 → ∀ link id key watcher,
    .handled link (.watch id key watcher) ∈ s.history → s.receiverAlive watcher = true →
    ∃ list, s.task.watchers.lookup key = some list ∧ ⟨id, watcher⟩ ∈ list

theorem Sourced.outstanding {s : State} (h : Sourced s) {command : Command}
    (hmem : command ∈ s.outstanding) : Genuine s command := by
  rcases List.mem_append.mp hmem with hmem | hmem
  · exact h.channel command hmem
  · exact h.task.deferred command hmem

theorem Sourced.id_ne {s : State} (h : Sourced s) (hnumbered : Numbered s)
    (hbound : s.nextWatchId ≤ 2 ^ 64 + 1) {id id' : Nat} {key key' : String}
    {watcher watcher' : Nat} (hwatch : Genuine s (.watch id key watcher))
    (hunwatch : Genuine s (.unwatch id' key' watcher')) (hne : watcher ≠ watcher') :
    id ≠ id' := by
  obtain ⟨rfl, w, hw, -⟩ := hwatch
  obtain ⟨rfl, w', hw', -⟩ := hunwatch
  have hbounds {n : Nat} {w : Watching} (hw : s.watching n = some w) :
      0 < n ∧ n < s.nextWatchId := by
    refine ⟨Nat.pos_of_ne_zero ?_, h.toRegistered.lt hw⟩
    rintro rfl
    simp [hnumbered.zero] at hw
  exact fun heq => hne (syncOf_injOn hbound (hbounds hw) (hbounds hw') heq)

theorem Listed.issued {s s' : State} {event : CallerEvent} (h : Listed s) (hsourced : Sourced s)
    (huntouched : TaskUntouched s s') (hmove : WatcherMove s event s') : Listed s' := by
  have hnew {watcher : Nat} {w : Watching} (hw : s.watching watcher = some w)
      (halive : s'.receiverAlive watcher = true) : s.receiverAlive watcher = true :=
    (hmove.alive halive).resolve_right (hsourced.toRegistered.lt hw).ne
  constructor
  · intro id key watcher hmem
    by_contra halive
    rw [Bool.not_eq_false] at halive
    have hold : .unwatch id key watcher ∈ s.outstanding := by
      rw [State.outstanding, huntouched.task, List.mem_append] at hmem
      refine List.mem_append.mpr (hmem.imp_left fun hmem => ?_)
      exact (hmove.unwatch_source hmem).resolve_right (by simp [halive])
    obtain ⟨-, w, hw, -⟩ := hsourced.outstanding hold
    simpa [h.dead id key watcher hold] using hnew hw halive
  · intro hbound link id key watcher hmem halive
    rw [huntouched.history] at hmem
    rw [huntouched.task]
    obtain ⟨-, w, hw, -⟩ := hsourced.history _ hmem
    exact h.listed (hmove.nextWatchId_le.trans hbound) link id key watcher hmem (hnew hw halive)

theorem Handling.listed {t t' : Task} {link : Nat} {send : SendResult} {id : Nat} {key : String}
    {watcher : Nat} {actions : List Action} {result : Except Error Unit}
    (h : Handling t link send (.watch id key watcher) t' actions result) :
    ∃ list, t'.watchers.lookup key = some list ∧ ⟨id, watcher⟩ ∈ list := by
  cases h with
  | watchedFirst => exact ⟨_, AList.lookup_insert _, List.mem_singleton.mpr rfl⟩
  | watched => exact ⟨_, AList.lookup_insert _, by simp⟩

theorem Listed.moved {s s' : State} {event : TaskEvent} (h : Listed s) (hsourced : Sourced s)
    (hnumbered : Numbered s) (huntouched : CallersUntouched s s') (hflow : WatchFlow s event s')
    (hlive : s'.phase ≠ .done) : Listed s' := by
  have halive (watcher : Nat) : s'.receiverAlive watcher = s.receiverAlive watcher := by
    rw [State.receiverAlive, State.receiverAlive, huntouched.watching]
  have hdead (hsubset : ∀ command ∈ s'.outstanding, command ∈ s.outstanding) (id : Nat)
      (key : String) (watcher : Nat) (hmem : .unwatch id key watcher ∈ s'.outstanding) :
      s'.receiverAlive watcher = false :=
    (halive watcher).trans (h.dead id key watcher (hsubset _ hmem))
  cases hflow with
  | still hwatchers houtstanding hhandled =>
      refine ⟨hdead fun _ => houtstanding.mem_iff.mp, ?_⟩
      intro hbound link id key watcher hmem hlisten
      rw [hwatchers]
      rw [huntouched.nextWatchId] at hbound
      exact h.listed hbound link id key watcher (hhandled _ _ hmem) (halive watcher ▸ hlisten)
  | overflowed _ _ _ hwatchers houtstanding hhandled =>
      refine ⟨hdead fun _ hmem => houtstanding.mem_iff.mpr (List.mem_cons_of_mem _ hmem), ?_⟩
      intro hbound link id key watcher hmem hlisten
      rw [hwatchers]
      rw [huntouched.nextWatchId] at hbound
      exact h.listed hbound link id key watcher (hhandled _ _ hmem) (halive watcher ▸ hlisten)
  | @handled t t' send command actions result hhandling ht ht' houtstanding hhandled =>
      refine ⟨hdead fun _ hmem => houtstanding.mem_iff.mpr (List.mem_cons_of_mem _ hmem), ?_⟩
      intro hbound link id key watcher hmem hlisten
      rw [ht']
      rw [huntouched.nextWatchId] at hbound
      rw [halive watcher] at hlisten
      rcases hhandled _ _ hmem with hold | rfl
      · obtain ⟨list, hlookup, hentry⟩ := h.listed hbound link id key watcher hold hlisten
        refine hhandling.keeps (ht ▸ hlookup) hentry ?_
        rintro id' watcher' rfl
        have hunwatch : .unwatch id' key watcher' ∈ s.outstanding :=
          houtstanding.mem_iff.mpr List.mem_cons_self
        refine hsourced.id_ne hnumbered hbound (hsourced.history _ hold)
          (hsourced.outstanding hunwatch) ?_
        rintro rfl
        simp [h.dead _ _ _ hunwatch] at hlisten
      · exact hhandling.listed
  | @notified key' list' hlookup' hwatchers houtstanding hhandled =>
      refine ⟨hdead fun _ => houtstanding.mem_iff.mp, ?_⟩
      intro hbound link id key watcher hmem hlisten
      rw [huntouched.nextWatchId] at hbound
      rw [halive watcher] at hlisten
      obtain ⟨list, hlookup, hentry⟩ :=
        h.listed hbound link id key watcher (hhandled _ _ hmem) hlisten
      rw [hwatchers]
      by_cases hkey : key = key'
      · subst hkey
        obtain rfl := Option.some.inj (hlookup.symm.trans hlookup')
        exact ⟨_, AList.lookup_insert _, List.mem_filter.mpr ⟨hentry, hlisten⟩⟩
      · exact ⟨list, (AList.lookup_insert_ne hkey).trans hlookup, hentry⟩
  | ended hdone => exact absurd hdone hlive

theorem Reachable.listed {rmp : Rmp} {options : ConnectOptions} {s : State}
    (h : Reachable rmp options s) : s.phase ≠ .done → Listed s := by
  refine Reaches.invariant (I := fun s => s.phase ≠ .done → Listed s) ?_ ?_ h
  · intro _
    constructor <;> simp [State.initial, State.outstanding]
  · intro s s' event hreach hlisted _ hstep hlive
    have hreachable : Reachable rmp options s := hreach
    cases step_move hstep with
    | caller hmove =>
        have huntouched := hmove.untouched
        exact (hlisted (huntouched.phase ▸ hlive)).issued hreachable.sourced huntouched
          hmove.watcherMove
    | task hmove =>
        exact (hlisted hmove.not_done).moved hreachable.sourced hreachable.numbered
          hmove.untouched hmove.flow hlive
    | server => exact ⟨(hlisted hlive).dead, (hlisted hlive).listed⟩

/-- A live watcher whose `Watch` was handled has its entry in the list and its key
registered on the link. -/
def Subscribed (s : State) : Prop :=
  s.phase.up = true → Unbroken s.link s.history → ∀ link id key watcher,
    .handled link (.watch id key watcher) ∈ s.history → s.receiverAlive watcher = true →
    (∃ list, s.task.watchers.lookup key = some list ∧ ⟨id, watcher⟩ ∈ list) ∧
      registered s.link key s.history = true

/-- Handling an `Unwatch` removes no entry of another watcher, and writes nothing
about the key of one. -/
def UnwatchesOwn (s : State) : Prop :=
  ∀ id key watcher, .unwatch id key watcher ∈ s.outstanding → ∀ deferred link send,
    ∀ key' list subscriber, s.task.watchers.lookup key' = some list → subscriber ∈ list →
    subscriber.watcher ≠ watcher →
    let (t, actions, _) :=
      (s.task.setDeferred deferred).handleCommand link send (.unwatch id key watcher)
    (∃ list', t.watchers.lookup key' = some list' ∧ subscriber ∈ list') ∧
      ∀ l origin packet result, .wrote l origin packet result ∈ actions →
        packet.eventKey ≠ some key'

theorem Handling.unwatches {t t' : Task} {link : Nat} {send : SendResult} {id : Nat}
    {key : String} {watcher : Nat} {actions : List Action} {result : Except Error Unit}
    (h : Handling t link send (.unwatch id key watcher) t' actions result) :
    ∀ l origin packet result, .wrote l origin packet result ∈ actions →
      packet.eventKey = some key ∧ t'.watchers.lookup key = none := by
  intro l origin packet result hmem
  cases h with
  | unwatchedLast =>
      obtain ⟨-, -, rfl, -⟩ := Action.wrote.inj (List.mem_singleton.mp hmem)
      exact ⟨rfl, AList.lookup_erase _ _⟩
  | _ => simp at hmem

theorem Sourced.unwatchesOwn {s : State} (h : Sourced s) (hnumbered : Numbered s)
    (hbound : s.nextWatchId ≤ 2 ^ 64 + 1) : UnwatchesOwn s := by
  intro id key watcher hunwatch deferred link send key' list subscriber hlookup hmem hne
  have hhandling := handleCommand_handling (s.task.setDeferred deferred) link send
    (.unwatch id key watcher)
  have hwatch : Genuine s (.watch subscriber.id key' subscriber.watcher) :=
    h.task.lookup hlookup subscriber hmem
  obtain ⟨list', hlookup', hmem'⟩ := hhandling.keeps hlookup hmem fun id' watcher' heq => by
    obtain ⟨rfl, -, rfl⟩ := Command.unwatch.inj heq
    exact h.id_ne hnumbered hbound hwatch (h.outstanding hunwatch) hne
  refine ⟨⟨list', hlookup', hmem'⟩, fun l origin packet result hwrote hkey => ?_⟩
  obtain ⟨hpacket, hgone⟩ := hhandling.unwatches l origin packet result hwrote
  obtain rfl : key' = key := Option.some.inj (hkey.symm.trans hpacket)
  simp [hlookup'] at hgone

/--
As long as the watch ids have not wrapped around, a live subscription is never
lost: its entry stays in the list and its key registered on the link, whatever
other watchers do.
-/
theorem live_subscription_kept {rmp : Rmp} {options : ConnectOptions} {s : State}
    (h : Reachable rmp options s) (hbound : s.nextWatchId ≤ 2 ^ 64 + 1) :
    Subscribed s ∧ UnwatchesOwn s := by
  refine ⟨fun hup hunbroken link id key watcher hmem halive => ?_,
    h.sourced.unwatchesOwn h.numbered hbound⟩
  have hlive : s.phase ≠ .done := by
    intro hdone
    simp [hdone, Phase.up] at hup
  obtain ⟨list, hlookup, hentry⟩ := (h.listed hlive).listed hbound link id key watcher hmem halive
  refine ⟨⟨list, hlookup, hentry⟩, (h.agreement.agree hup hunbroken key).mpr ?_⟩
  exact AList.lookup_isSome.mp (by simp [hlookup])

def sampleWatch : List Event :=
  sampleHandshake 0 [] ++
    [Event.task (.drain .sent), .caller (.watch "config"), .caller (.submitWatch 1),
      .task (.command .sent), .task (.drain .sent)]

theorem live_subscription_kept_sample :
    ∃ s, Reachable fixintRmp {} s ∧ s.nextWatchId ≤ 2 ^ 64 + 1 ∧
      s.receiverAlive 1 = true ∧ Subscribed s ∧ UnwatchesOwn s := by
  obtain ⟨s, hreach, hcheck⟩ := reaches_of_check (step fixintRmp) (.initial {}) sampleWatch
    (fun s => s.receiverAlive 1 && decide (s.nextWatchId = 2)) (by decide +kernel)
  simp only [Bool.and_eq_true, decide_eq_true_eq] at hcheck
  have hbound : s.nextWatchId ≤ 2 ^ 64 + 1 := by
    rw [hcheck.2]
    decide
  exact ⟨s, hreach, hbound, hcheck.1, live_subscription_kept hreach hbound⟩

theorem step_watch (rmp : Rmp) {s : State} (key : String) (hhandles : s.handles = true)
    (hannounced : Gated.watch.Announced s.negotiated) :
    step rmp s (.caller (.watch key)) =
      some { s.setWatching s.nextWatchId ⟨key, .sending, true⟩ with
        nextWatchId := s.nextWatchId + 1 } := by
  simp [step, callerStep, hhandles, hannounced]

theorem watch_many (rmp : Rmp) {s : State} (key : String) (hhandles : s.handles = true)
    (hannounced : Gated.watch.Announced s.negotiated) (k : Nat) :
    ∃ watching, Reaches (step rmp) anyStep s
        { s with watching := watching, nextWatchId := s.nextWatchId + k } ∧
      ∀ watcher < s.nextWatchId, watching watcher = s.watching watcher := by
  induction k with
  | zero => exact ⟨s.watching, .refl, fun _ _ => rfl⟩
  | succ k ih =>
      obtain ⟨watching, hreach, hkept⟩ := ih
      refine ⟨_, .next hreach trivial (step_watch rmp key hhandles hannounced), ?_⟩
      intro watcher hlt
      have hne : watcher ≠ s.nextWatchId + k := by omega
      exact (Function.update_of_ne hne _ _).trans (hkept watcher hlt)

def eventPacket (key : String) (value : Bytes) : Inbound :=
  ⟨{ kind := .event, sync := 0, body := value, eventKey := some key,
     eventData := some (0, value.length) }, none⟩

@[simp] theorem eventPacket_event (key : String) (value : Bytes) :
    (eventPacket key value).response.event = some (key, value) := by
  simp [eventPacket, Response.event, Response.slice]

theorem step_handled (rmp : Rmp) {s : State} {command : Command} {rest : List Command}
    {send : SendResult} {t : Task} {actions : List Action} (hphase : s.phase = .select)
    (hchannel : s.channel = command :: rest) (hclose : command ≠ .close)
    (hhandle : s.task.handleCommand s.link send command = (t, actions, .ok ())) :
    step rmp s (.task (.command send)) = some ((s.takeCommand command rest).perform t
      (.handled s.link command :: actions) .drain) := by
  have htaken : (s.takeCommand command rest).task.handleCommand
      (s.takeCommand command rest).link send command = (t, actions, .ok ()) := hhandle
  cases command with
  | close => exact absurd rfl hclose
  | _ => simp [step, taskStep, hphase, State.commandStep, hchannel, htaken]; rfl

structure Waiting (s : State) (key : String) (list : List Subscriber) : Prop where
  phase : s.phase = .select
  channel : s.channel = []
  deferred : s.task.deferred = []
  shuttingDown : s.task.shuttingDown = false
  lookup : s.task.watchers.lookup key = some list
  opened : s.link < s.sockets
  read : s.read s.link = (s.inbound s.link).length

theorem Waiting.draw (rmp : Rmp) {s : State} {key : String} {list : List Subscriber}
    (h : Waiting s key list) (hhandles : s.handles = true)
    (hannounced : Gated.watch.Announced s.negotiated) (k : Nat) :
    ∃ t, Reaches (step rmp) anyStep s t ∧ Waiting t key list ∧
      t.watching (s.nextWatchId + k) = some ⟨key, .sending, true⟩ ∧
      ∀ watcher < s.nextWatchId, t.watching watcher = s.watching watcher := by
  obtain ⟨watching, hmany, hkept⟩ := watch_many rmp key hhandles hannounced k
  refine ⟨_, .next hmany trivial (step_watch rmp key hhandles hannounced), ?_,
    Function.update_self _ _ _, fun watcher hlt => ?_⟩
  · exact ⟨h.phase, h.channel, h.deferred, h.shuttingDown, h.lookup, h.opened, h.read⟩
  · have hne : watcher ≠ s.nextWatchId + k := by omega
    exact (Function.update_of_ne hne _ _).trans (hkept watcher hlt)

theorem Waiting.subscribe (rmp : Rmp) {s : State} {key : String} {list : List Subscriber}
    {w : Nat} (h : Waiting s key list) (hw : s.watching w = some ⟨key, .sending, true⟩) :
    ∃ t, Reaches (step rmp) anyStep s t ∧ Waiting t key (list ++ [⟨syncOf w, w⟩]) ∧
      t.watching = Function.update s.watching w (some ⟨key, .queued, true⟩) := by
  let command : Command := .watch (syncOf w) key w
  let s₁ : State :=
    { s.setWatching w ⟨key, .queued, true⟩ with channel := s.channel ++ [command] }
  have h₁ : step rmp s (.caller (.submitWatch w)) = some s₁ := by
    simp [step, callerStep, State.submitWatch, hw, h.phase, State.hasRoom, h.channel,
      channelCapacity, s₁, command]
  let t₂ : Task :=
    { s.task with watchers := s.task.watchers.insert key (list ++ [⟨syncOf w, w⟩]) }
  let s₂ : State := (s₁.takeCommand command []).perform t₂ [.handled s.link command] .drain
  have h₂ : step rmp s₁ (.task (.command .sent)) = some s₂ := by
    have hkey : key ∈ s.task.watchers := AList.lookup_isSome.mp (by simp [h.lookup])
    have hhandle : s.task.handleCommand s.link .sent command = (t₂, [], .ok ()) := by
      simp [Task.handleCommand, command, hkey, h.lookup, t₂]
    exact step_handled rmp h.phase (by simp [s₁, h.channel]) (by simp [command]) hhandle
  have h₃ : step rmp s₂ (.task (.drain .sent)) = some { s₂ with phase := .select } := by
    have hdeferred : s₂.task.deferred = [] := h.deferred
    have hphase : s₂.phase = .drain := rfl
    simp [step, taskStep, hphase, State.drainStep, hdeferred]
  refine ⟨_, .next (.next (.next .refl trivial h₁) trivial h₂) trivial h₃, ?_, rfl⟩
  exact ⟨rfl, rfl, h.deferred, h.shuttingDown, AList.lookup_insert _, h.opened, h.read⟩

theorem step_received (rmp : Rmp) {s : State} {ack : SendResult} {inbound : Inbound}
    (hphase : s.phase = .select) (hinbound : (s.inbound s.link)[s.read s.link]? = some inbound)
    (hfinished : (s.receive ack inbound).task.finished = false) :
    step rmp s (.task (.packet ack)) = some (s.receive ack inbound) := by
  simp [step, taskStep, hphase, State.packetStep, hinbound, hfinished]

theorem handleResponse_event (t : Task) (link : Nat) (alive : Nat → Bool) (ack : SendResult)
    (arrival : Arrival) {key : String} {data : Bytes} {list : List Subscriber}
    (hkind : arrival.response.kind = .event)
    (hevent : arrival.response.event = some (key, data))
    (hlookup : t.watchers.lookup key = some list) :
    t.handleResponse link alive ack arrival =
      ({ t with
          shuttingDown := t.shuttingDown || Task.isShutdown key data
          watchers := t.watchers.insert key (list.filter (alive ·.watcher)) },
        (if Task.isShutdown key data then [.announced link] else []) ++
          (list.filter (alive ·.watcher)).map
            (fun subscriber => .published subscriber.watcher data) ++
          [.wrote link .ack (watchPacket Request.watch key) ack]) := by
  simp [Task.handleResponse, hkind, hevent, hlookup]

theorem cell_isSome {s : State} {watcher : Nat} {data : Bytes}
    (h : .published watcher data ∈ s.history) : (s.cell watcher).isSome = true := by
  have hmem : data ∈ publishedTo watcher s.history :=
    List.mem_filterMap.mpr ⟨_, h, by simp⟩
  exact List.getLast?_isSome.mpr (List.ne_nil_of_mem hmem)

theorem Waiting.notify (rmp : Rmp) {s : State} {key : String} {list : List Subscriber}
    (h : Waiting s key list)
    (hlisten : ∀ subscriber ∈ list, s.receiverAlive subscriber.watcher = true) :
    ∃ t, Reaches (step rmp) anyStep s t ∧ t.phase = .drain ∧ t.channel = [] ∧
      t.task.watchers.lookup key = some list ∧ t.watching = s.watching ∧
      ∀ subscriber ∈ list, (t.cell subscriber.watcher).isSome = true := by
  let inbound := eventPacket key [0xc0]
  let s₁ : State :=
    { s with inbound := Function.update s.inbound s.link (s.inbound s.link ++ [inbound]) }
  have h₁ : step rmp s (.server s.link inbound) = some s₁ := if_pos h.opened
  have hget : (s₁.inbound s₁.link)[s₁.read s₁.link]? = some inbound := by
    have hinbound : s₁.inbound s₁.link = s.inbound s.link ++ [inbound] :=
      Function.update_self _ _ _
    have hread : s₁.read s₁.link = (s.inbound s.link).length := h.read
    rw [hinbound, hread, List.getElem?_concat_length]
  have hroute := handleResponse_event s₁.task s₁.link s₁.receiverAlive .sent
    ⟨inbound.response, s₁.link, s₁.read s₁.link⟩ rfl (eventPacket_event key [0xc0]) h.lookup
  have hfilter : list.filter (fun subscriber => s₁.receiverAlive subscriber.watcher) = list :=
    List.filter_eq_self.mpr hlisten
  rw [hfilter] at hroute
  have h₂ : step rmp s₁ (.task (.packet .sent)) = some (s₁.receive .sent inbound) := by
    refine step_received rmp h.phase hget ?_
    have hdown : s₁.task.shuttingDown = false := h.shuttingDown
    simp [State.receive, State.perform, hroute, Task.finished, hdown, Task.isShutdown]
  refine ⟨_, .next (.next .refl trivial h₁) trivial h₂, rfl, h.channel, ?_, rfl, ?_⟩
  · simp [State.receive, State.perform, hroute]
  · intro subscriber hmem
    have hpublished : .published subscriber.watcher [0xc0] ∈
        (s₁.receive .sent inbound).history := by
      simp only [State.receive, State.perform, hroute, List.mem_append, List.mem_map]
      exact .inr (.inl (.inr ⟨subscriber, hmem, rfl⟩))
    exact cell_isSome hpublished

theorem resolve_and_drop (rmp : Rmp) {s : State} {key : String} {w : Nat}
    (hphase : s.phase = .drain) (hchannel : s.channel = [])
    (hw : s.watching w = some ⟨key, .queued, true⟩) (hcell : (s.cell w).isSome = true) :
    ∃ t, Reaches (step rmp) anyStep s t ∧ t.task = s.task ∧
      .unwatch (syncOf w) key w ∈ t.channel := by
  let s₁ : State := s.setWatching w ⟨key, .watching, true⟩
  have h₁ : step rmp s (.caller (.resolveWatch w)) = some s₁ := by
    simp [step, callerStep, State.resolveWatch, hw, hcell, s₁]
  let s₂ : State := { s₁.setWatching w ⟨key, .watching, false⟩ with
    channel := s.channel ++ [.unwatch (syncOf w) key w] }
  have h₂ : step rmp s₁ (.caller (.dropWatch w)) = some s₂ := by
    have hw₁ : s₁.watching w = some ⟨key, .watching, true⟩ := Function.update_self _ _ _
    have hroom : s₁.hasRoom = true := by
      simp [s₁, State.setWatching, State.hasRoom, hphase, hchannel, channelCapacity]
    simp [step, callerStep, State.dropWatch, hw₁, hroom, s₂]
    rfl
  exact ⟨s₂, .next (.next .refl trivial h₁) trivial h₂, rfl, by simp [s₂]⟩

/-- After 2^64 ids a watcher is dropped that has the id of a live one. -/
theorem wrapped_id_unsubscribes_other :
    ¬ ∀ rmp options s, Reachable rmp options s → Subscribed s ∧ UnwatchesOwn s := by
  intro hall
  obtain ⟨s, hreach, hcheck⟩ := reaches_of_check (step fixintRmp) (.initial {}) sampleWatch
    (fun s => s.handles && decide (Gated.watch.Announced s.negotiated) && s.receiverAlive 1 &&
      decide (s.nextWatchId = 2 ∧ s.phase = .select ∧ s.channel = [] ∧ s.task.deferred = [] ∧
        s.task.shuttingDown = false ∧ s.task.watchers.lookup "config" = some [⟨1, 1⟩] ∧
        s.link < s.sockets ∧ s.read s.link = (s.inbound s.link).length))
    (by decide +kernel)
  simp only [Bool.and_eq_true, decide_eq_true_eq] at hcheck
  obtain ⟨⟨⟨hhandles, hannounced⟩, hlisten⟩, hnext, hphase, hchannel, hdeferred, hdown, hlookup,
    hopened, hread⟩ := hcheck
  have hwaiting : Waiting s "config" [⟨1, 1⟩] :=
    ⟨hphase, hchannel, hdeferred, hdown, hlookup, hopened, hread⟩
  obtain ⟨t₁, hdrawn, hwaiting₁, hw₁, hkept⟩ :=
    hwaiting.draw fixintRmp hhandles hannounced (2 ^ 64 - 1)
  rw [hnext] at hw₁ hkept
  obtain ⟨w, hdef⟩ : ∃ w, w = 2 + (2 ^ 64 - 1) := ⟨_, rfl⟩
  have hwrapped : syncOf w = 1 := by
    rw [hdef]
    rfl
  rw [← hdef] at hw₁
  obtain ⟨t₂, hsubscribed, hwaiting₂, hwatching₂⟩ := hwaiting₁.subscribe fixintRmp hw₁
  rw [hwrapped] at hwaiting₂
  have hlisten₁ : t₂.receiverAlive 1 = true := by
    rw [State.receiverAlive, hwatching₂, Function.update_of_ne (by omega), hkept 1 (by omega)]
    exact hlisten
  have hlisten₂ : t₂.receiverAlive w = true := by
    simp [State.receiverAlive, hwatching₂]
  obtain ⟨t₃, hnotified, hphase₃, hchannel₃, hlookup₃, hwatching₃, hcell⟩ :=
    hwaiting₂.notify fixintRmp (by simp [hlisten₁, hlisten₂])
  have hw₃ : t₃.watching w = some ⟨"config", .queued, true⟩ := by
    rw [hwatching₃, hwatching₂]
    exact Function.update_self _ _ _
  obtain ⟨t₄, hdropped, htask, hmem⟩ := resolve_and_drop fixintRmp hphase₃ hchannel₃ hw₃
    (hcell ⟨1, w⟩ (by simp))
  have hlookup₄ : t₄.task.watchers.lookup "config" = some [⟨1, 1⟩, ⟨1, w⟩] := by
    rw [htask]
    exact hlookup₃
  have hown := (hall fixintRmp {} t₄
    ((((hreach.trans hdrawn).trans hsubscribed).trans hnotified).trans hdropped)).2
    (syncOf w) "config" w (List.mem_append_left _ hmem) [] 0 .sent "config" _ ⟨1, 1⟩
    hlookup₄ (by simp) (by simp only; omega)
  simp [Task.handleCommand, hlookup₄, hwrapped] at hown

end Tarant.Connection
