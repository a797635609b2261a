import Tarant.Connection.Watchers

/-!
# Leaked subscriptions

When the last watcher of a key is gone its key should leave the map and the
server.  Three commands can go missing on the way there: the `Unwatch` a
cancelled `Client::watch` never sends, the `Unwatch` a full channel refuses, and
the one that a full deferred queue discards.
-/

namespace Tarant.Connection

open Foundation
open Iproto

def LiveWatcher (s : State) (key : String) : Prop :=
  ∃ watcher w, s.watching watcher = some w ∧ w.key = key ∧ w.alive = true ∧
    w.stage ≠ .sending

/-- With the link unbroken and no command on its way, a key without a live
watcher is neither registered nor in the map, and its events are not
acknowledged. -/
def NoLeak (s : State) : Prop :=
  s.phase.up = true → Unbroken s.link s.history → s.channel = [] → s.task.deferred = [] →
    ∀ key, LiveWatcher s key ∨
      registered s.link key s.history = false ∧ key ∉ s.task.watchers ∧
        ∀ ack arrival data, arrival.response.event = some (key, data) →
          ∀ l origin packet result, .wrote l origin packet result ∉
            (s.task.handleResponse s.link s.receiverAlive ack arrival).2

/-- No `Unwatch` goes missing in the step. -/
def LeakSafe (s : State) : Event → Prop
  | .caller (.dropWatch watcher) => s.phase = .done ∨ ∀ w ∈ s.watching watcher,
      (w.stage = .queued → s.senderGone watcher = true) ∧
        (w.stage = .watching → s.hasRoom = true)
  | .task .reconnectCommand => ∀ id key watcher rest,
      s.channel = .unwatch id key watcher :: rest →
        s.task.deferred.length < Task.maxDeferred
  | _ => True

/-! ## Watchers before their `Watch` is handled -/

def Command.watches (watcher : Nat) : Command → Bool
  | .watch _ _ w => w == watcher
  | _ => false

structure Unlisted (s : State) (watcher : Nat) : Prop where
  entry : ∀ key list, s.task.watchers.lookup key = some list →
    ∀ subscriber ∈ list, subscriber.watcher ≠ watcher
  published : ∀ data, .published watcher data ∉ s.history

def State.watches (s : State) (watcher : Nat) : Nat := s.outstanding.countP (·.watches watcher)

/-- A watcher is listed only after its one `Watch` was sent and handled, and while
that is on its way its future waits. -/
structure Waits (s : State) (watcher : Nat) : Prop where
  unsent : (∀ w ∈ s.watching watcher, w.stage = .sending) →
    Unlisted s watcher ∧ s.watches watcher = 0
  queued : 0 < s.watches watcher → Unlisted s watcher ∧
    ∃ w, s.watching watcher = some w ∧ w.alive = true ∧ w.stage = .queued
  once : s.watches watcher ≤ 1

theorem Unlisted.cell {s : State} {watcher : Nat} (h : Unlisted s watcher) :
    s.cell watcher = none := by
  rw [State.cell, List.getLast?_eq_none_iff, publishedTo, List.filterMap_eq_nil_iff]
  intro action hmem
  cases action with
  | published w data =>
      have hne : w ≠ watcher := by
        rintro rfl
        exact h.published data hmem
      simp [hne]
  | _ => rfl

theorem Recorded.published {rmp : Rmp} {s s' : State} {event : TaskEvent} {watcher : Nat}
    {data : Bytes} (h : Recorded rmp s event s' (.published watcher data)) :
    ∃ key list, s.task.watchers.lookup key = some list ∧
      ∃ subscriber ∈ list, subscriber.watcher = watcher := by
  cases h with
  | handling deferred hup hlink hhandling hmem => cases hhandling.acts _ hmem
  | routing hphase hlink hinbound hrouting hmem =>
      cases hrouting.acts _ hmem with
      | @published key data list subscriber hevent hlookup hsubscriber =>
          exact ⟨key, list, hlookup, subscriber, hsubscriber, rfl⟩

theorem TaskMove.unpublished {rmp : Rmp} {s s' : State} {event : TaskEvent} {watcher : Nat}
    (h : TaskMove rmp s event s') (hunlisted : Unlisted s watcher) (data : Bytes) :
    .published watcher data ∉ s'.history := by
  obtain ⟨actions, hhistory, hrecorded⟩ := h.recorded
  rw [hhistory, List.mem_append]
  rintro (hold | hnew)
  · exact hunlisted.published data hold
  · obtain ⟨key, list, hlookup, subscriber, hmem, heq⟩ := (hrecorded _ hnew).published
    exact hunlisted.entry key list hlookup subscriber hmem heq

section Callers

variable {s s' : State} {event : CallerEvent} {watcher : Nat}

theorem Unlisted.of_eq (h : Unlisted s watcher) (htask : s'.task = s.task)
    (hhistory : s'.history = s.history) : Unlisted s' watcher := by
  constructor
  · rw [htask]
    exact h.entry
  · rw [hhistory]
    exact h.published

theorem Waits.of_eq (h : Waits s watcher) (htask : s'.task = s.task)
    (hhistory : s'.history = s.history) (hwatching : s'.watching watcher = s.watching watcher)
    (hwatches : s'.watches watcher = s.watches watcher) : Waits s' watcher := by
  constructor
  · intro hsending
    rw [hwatching] at hsending
    exact ⟨(h.unsent hsending).1.of_eq htask hhistory, hwatches ▸ (h.unsent hsending).2⟩
  · intro hpos
    rw [hwatching]
    obtain ⟨hunlisted, hqueued⟩ := h.queued (hwatches ▸ hpos)
    exact ⟨hunlisted.of_eq htask hhistory, hqueued⟩
  · exact hwatches ▸ h.once

theorem Waits.idle (h : Waits s watcher) (huntouched : TaskUntouched s s')
    (hwatches : s'.watches watcher = 0)
    (hstage : (∀ w ∈ s'.watching watcher, w.stage = .sending) →
      ∀ w ∈ s.watching watcher, w.stage = .sending) : Waits s' watcher := by
  constructor
  · intro hsending
    exact ⟨(h.unsent (hstage hsending)).1.of_eq huntouched.task huntouched.history, hwatches⟩
  · intro hpos
    omega
  · omega

theorem watches_append (watcher : Nat) (huntouched : TaskUntouched s s') {added : List Command}
    (hchannel : s'.channel = s.channel ++ added) :
    s'.watches watcher = s.watches watcher + added.countP (·.watches watcher) := by
  rw [State.watches, State.watches, State.outstanding, State.outstanding, hchannel,
    huntouched.task]
  simp only [List.countP_append]
  omega

theorem senderGone_unlisted (h : s.senderGone watcher = true) :
    (∀ key list, s.task.watchers.lookup key = some list →
      ∀ subscriber ∈ list, subscriber.watcher ≠ watcher) ∧ s.watches watcher = 0 := by
  simp only [State.senderGone, Bool.and_eq_true, List.all_eq_true] at h
  constructor
  · intro key list hlookup subscriber hmem
    simpa using h.2 ⟨key, list⟩ (AList.mem_lookup_iff.mp hlookup) subscriber hmem
  · rw [State.watches, List.countP_eq_zero]
    intro command hmem
    have hcommand := h.1 command hmem
    cases command <;> simp_all [Command.watches]

theorem Vanishes.unlisted {w : Watching} (h : Vanishes s event watcher w)
    (hw : s.watching watcher = some w) (hwaits : Waits s watcher)
    (hsafe : LeakSafe s (.caller event)) (hlive : s.phase ≠ .done) :
    (∀ key list, s.task.watchers.lookup key = some list →
      ∀ subscriber ∈ list, subscriber.watcher ≠ watcher) ∧ s.watches watcher = 0 := by
  cases h with
  | unsent hstage =>
      obtain ⟨hunlisted, hwatches⟩ := hwaits.unsent (by simp [hw, hstage])
      exact ⟨hunlisted.entry, hwatches⟩
  | orphaned hstage hgone => exact senderGone_unlisted hgone
  | cancelled hstage hevent =>
      subst hevent
      exact senderGone_unlisted ((hsafe.resolve_left hlive w hw).1 hstage)
  | refused hstage hevent hroom =>
      subst hevent
      simp [(hsafe.resolve_left hlive w hw).2 hstage] at hroom

theorem Waits.issued (h : Waits s watcher) (hregistered : Registered s)
    (huntouched : TaskUntouched s s') (hmove : WatcherMove s event s')
    (hsafe : LeakSafe s (.caller event)) (hlive : s.phase ≠ .done) : Waits s' watcher := by
  have hsame := h.of_eq huntouched.task huntouched.history
  cases hmove with
  | @idle added hwatching hnext hchannel hadded =>
      refine hsame (by rw [hwatching]) ?_
      have hnone : added.countP (·.watches watcher) = 0 := by
        rw [List.countP_eq_zero]
        intro command hmem
        have hcommand := hadded command hmem
        cases command <;> simp_all [Command.watches, Command.watcher?]
      rw [watches_append watcher huntouched hchannel, hnone, Nat.add_zero]
  | @issued key hwatching hnext hchannel =>
      have hwatches := watches_append watcher huntouched
        (hchannel.trans (List.append_nil _).symm)
      by_cases hother : watcher = s.nextWatchId
      · have hnone : s.watching watcher = none := hregistered.fresh _ hother.ge
        refine h.idle huntouched ?_ (by simp [hnone])
        exact hwatches.trans (h.unsent (by simp [hnone])).2
      · exact hsame (by rw [hwatching, Function.update_of_ne hother]) hwatches
  | @submitted target w hw halive hstage hwatching hnext hchannel =>
      have hwatches := watches_append watcher huntouched hchannel
      by_cases hother : watcher = target
      · subst hother
        obtain ⟨hunlisted, hzero⟩ := h.unsent (by simp [hw, hstage])
        have hone : s'.watches watcher = 1 := by simp [hwatches, hzero, Command.watches]
        have hqueued : s'.watching watcher = some { w with stage := .queued } := by
          rw [hwatching, Function.update_self]
        refine ⟨by simp [hqueued], fun _ => ⟨?_, _, hqueued, halive, rfl⟩, hone.le⟩
        exact hunlisted.of_eq huntouched.task huntouched.history
      · refine hsame (by rw [hwatching, Function.update_of_ne hother]) ?_
        simpa [Command.watches, Ne.symm hother] using hwatches
  | @resolved target w hw halive hstage hcell hwatching hnext hchannel =>
      have hwatches := watches_append watcher huntouched
        (hchannel.trans (List.append_nil _).symm)
      by_cases hother : watcher = target
      · subst hother
        refine h.idle huntouched ?_ (by simp [hwatching])
        by_contra hpos
        have hunlisted := (h.queued (by simp only [List.countP_nil] at hwatches; omega)).1
        simp [hunlisted.cell] at hcell
      · exact hsame (by rw [hwatching, Function.update_of_ne hother]) hwatches
  | @vanished target w hw halive hhow hwatching hnext hchannel =>
      have hwatches := watches_append watcher huntouched
        (hchannel.trans (List.append_nil _).symm)
      by_cases hother : watcher = target
      · subst hother
        refine h.idle huntouched (hwatches.trans (hhow.unlisted hw h hsafe hlive).2) ?_
        simp [hwatching, hw]
      · exact hsame (by rw [hwatching, Function.update_of_ne hother]) hwatches
  | @dropped target w hw halive hstage hwatching hnext hchannel =>
      have hwatches := watches_append watcher huntouched hchannel
      simp only [List.countP_cons, List.countP_nil, Command.watches] at hwatches
      by_cases hother : watcher = target
      · subst hother
        refine h.idle huntouched ?_ (by simp [hwatching, hw, hstage])
        by_contra hpos
        obtain ⟨-, w', hw', -, hqueued⟩ := h.queued (by simp at hwatches; omega)
        obtain rfl := Option.some.inj (hw'.symm.trans hw)
        simp [hstage] at hqueued
      · refine hsame (by rw [hwatching, Function.update_of_ne hother]) ?_
        simpa using hwatches

end Callers

section Task

variable {t t' : Task} {link : Nat} {send : SendResult} {command : Command}
  {actions : List Action} {result : Except Error Unit} {key : String} {list : List Subscriber}
  {subscriber : Subscriber}

theorem Handling.entry_source (h : Handling t link send command t' actions result)
    (hlookup : t'.watchers.lookup key = some list) (hmem : subscriber ∈ list) :
    ((∃ list', t.watchers.lookup key = some list' ∧ subscriber ∈ list') ∨
      command = .watch subscriber.id key subscriber.watcher) ∧
      ∀ watcher, command ≠ .unwatch subscriber.id key watcher := by
  cases h with
  | @watchedFirst id key' watcher hnone =>
      refine ⟨?_, nofun⟩
      by_cases hkey : key = key'
      · subst hkey
        obtain rfl := Option.some.inj (hlookup.symm.trans (AList.lookup_insert _))
        rw [List.mem_singleton] at hmem
        subst hmem
        exact .inr rfl
      · exact .inl ⟨list, (AList.lookup_insert_ne hkey).symm.trans hlookup, hmem⟩
  | @watched id key' watcher list' hsome =>
      refine ⟨?_, nofun⟩
      by_cases hkey : key = key'
      · subst hkey
        obtain rfl := Option.some.inj (hlookup.symm.trans (AList.lookup_insert _))
        rw [List.mem_append, List.mem_singleton] at hmem
        rcases hmem with hold | rfl
        · exact .inl ⟨list', hsome, hold⟩
        · exact .inr rfl
      · exact .inl ⟨list, (AList.lookup_insert_ne hkey).symm.trans hlookup, hmem⟩
  | @unwatchedUnknown id key' watcher hnone =>
      refine ⟨.inl ⟨list, hlookup, hmem⟩, ?_⟩
      intro watcher' heq
      obtain ⟨-, rfl, -⟩ := Command.unwatch.inj heq
      simp [hnone] at hlookup
  | @unwatchedLast id key' watcher list' hsome hkept =>
      have hkey : key ≠ key' := by
        rintro rfl
        simp [AList.lookup_erase] at hlookup
      refine ⟨.inl ⟨list, (AList.lookup_erase_ne hkey).symm.trans hlookup, hmem⟩, ?_⟩
      intro watcher' heq
      exact hkey (Command.unwatch.inj heq).2.1.symm
  | @unwatched id key' watcher list' hsome hkept =>
      by_cases hkey : key = key'
      · subst hkey
        obtain rfl := Option.some.inj (hlookup.symm.trans (AList.lookup_insert _))
        rw [List.mem_filter, decide_eq_true_eq] at hmem
        refine ⟨.inl ⟨list', hsome, hmem.1⟩, ?_⟩
        intro watcher' heq
        exact hmem.2 (Command.unwatch.inj heq).1.symm
      · refine ⟨.inl ⟨list, (AList.lookup_insert_ne hkey).symm.trans hlookup, hmem⟩, ?_⟩
        intro watcher' heq
        exact hkey (Command.unwatch.inj heq).2.1.symm
  | _ => exact ⟨.inl ⟨list, hlookup, hmem⟩, nofun⟩

theorem Handling.empty_source (h : Handling t link send command t' actions result)
    (hlookup : t'.watchers.lookup key = some []) :
    t.watchers.lookup key = some [] ∧ ∀ id watcher, command ≠ .unwatch id key watcher := by
  cases h with
  | @watchedFirst id key' watcher hnone =>
      have hkey : key ≠ key' := by
        rintro rfl
        simp [AList.lookup_insert] at hlookup
      exact ⟨(AList.lookup_insert_ne hkey).symm.trans hlookup, nofun⟩
  | @watched id key' watcher list' hsome =>
      have hkey : key ≠ key' := by
        rintro rfl
        simp [AList.lookup_insert] at hlookup
      exact ⟨(AList.lookup_insert_ne hkey).symm.trans hlookup, nofun⟩
  | @unwatchedUnknown id key' watcher hnone =>
      refine ⟨hlookup, ?_⟩
      rintro id' watcher' heq
      obtain ⟨-, rfl, -⟩ := Command.unwatch.inj heq
      simp [hnone] at hlookup
  | @unwatchedLast id key' watcher list' hsome hkept =>
      have hkey : key ≠ key' := by
        rintro rfl
        simp [AList.lookup_erase] at hlookup
      refine ⟨(AList.lookup_erase_ne hkey).symm.trans hlookup, ?_⟩
      intro id' watcher' heq
      exact hkey (Command.unwatch.inj heq).2.1.symm
  | @unwatched id key' watcher list' hsome hkept =>
      have hkey : key ≠ key' := by
        rintro rfl
        rw [AList.lookup_insert] at hlookup
        exact hkept (Option.some.inj hlookup)
      refine ⟨(AList.lookup_insert_ne hkey).symm.trans hlookup, ?_⟩
      intro id' watcher' heq
      exact hkey (Command.unwatch.inj heq).2.1.symm
  | _ => exact ⟨hlookup, nofun⟩

end Task

section Moves

variable {rmp : Rmp} {s s' : State} {event : TaskEvent} {watcher : Nat}

theorem WatchFlow.entry_source (h : WatchFlow s event s') (hlive : s'.phase ≠ .done)
    {key : String} {list : List Subscriber} {subscriber : Subscriber}
    (hlookup : s'.task.watchers.lookup key = some list) (hmem : subscriber ∈ list) :
    (∃ list', s.task.watchers.lookup key = some list' ∧ subscriber ∈ list') ∨
      s.outstanding.Perm (.watch subscriber.id key subscriber.watcher :: s'.outstanding) := by
  cases h with
  | still hwatchers | overflowed _ _ _ hwatchers =>
      exact .inl ⟨list, hwatchers ▸ hlookup, hmem⟩
  | handled hhandling ht ht' houtstanding =>
      rcases (hhandling.entry_source (ht' ▸ hlookup) hmem).1 with hold | rfl
      · exact .inl (ht ▸ hold)
      · exact .inr houtstanding
  | @notified key' list' hlookup' hwatchers =>
      rw [hwatchers] at hlookup
      by_cases hkey : key = key'
      · subst hkey
        obtain rfl := Option.some.inj (hlookup.symm.trans (AList.lookup_insert _))
        exact .inl ⟨list', hlookup', (List.mem_filter.mp hmem).1⟩
      · exact .inl ⟨list, (AList.lookup_insert_ne hkey).symm.trans hlookup, hmem⟩
  | ended hdone => exact absurd hdone hlive

theorem WatchFlow.watches_le (h : WatchFlow s event s') (hlive : s'.phase ≠ .done) :
    s'.watches watcher ≤ s.watches watcher := by
  cases h with
  | still _ houtstanding | notified _ _ houtstanding => exact (houtstanding.countP_eq _).le
  | handled _ _ _ houtstanding | overflowed _ _ _ _ houtstanding =>
      have hcount := houtstanding.countP_eq (·.watches watcher)
      rw [List.countP_cons] at hcount
      exact hcount.ge.trans' (Nat.le_add_right _ _)
  | ended hdone => exact absurd hdone hlive

theorem Unlisted.moved (h : Unlisted s watcher) (hmove : TaskMove rmp s event s')
    (hlive : s'.phase ≠ .done) (hwatches : s.watches watcher ≤ s'.watches watcher) :
    Unlisted s' watcher := by
  refine ⟨?_, hmove.unpublished h⟩
  rintro key list hlookup subscriber hmem rfl
  rcases hmove.flow.entry_source hlive hlookup hmem with ⟨list', hlookup', hmem'⟩ | hperm
  · exact h.entry key list' hlookup' subscriber hmem' rfl
  · have hcount := hperm.countP_eq (·.watches subscriber.watcher)
    rw [List.countP_cons_of_pos (by simp [Command.watches])] at hcount
    simp only [State.watches] at hwatches
    omega

theorem Waits.moved (h : Waits s watcher) (hmove : TaskMove rmp s event s')
    (hlive : s'.phase ≠ .done) : Waits s' watcher := by
  have hle : s'.watches watcher ≤ s.watches watcher := hmove.flow.watches_le hlive
  have hwatching : s'.watching = s.watching := hmove.untouched.watching
  constructor
  · intro hsending
    rw [hwatching] at hsending
    obtain ⟨hunlisted, hzero⟩ := h.unsent hsending
    exact ⟨hunlisted.moved hmove hlive (by omega), by omega⟩
  · intro hpos
    rw [hwatching]
    obtain ⟨hunlisted, hqueued⟩ := h.queued (by omega)
    have honce := h.once
    exact ⟨hunlisted.moved hmove hlive (by omega), hqueued⟩
  · exact hle.trans h.once

end Moves

/-! ## Entries of watchers that are gone -/

structure Tended (s : State) : Prop where
  waits : ∀ watcher, Waits s watcher
  entry : ∀ key list, s.task.watchers.lookup key = some list → ∀ subscriber ∈ list,
    s.receiverAlive subscriber.watcher = true ∨
      .unwatch subscriber.id key subscriber.watcher ∈ s.outstanding
  empty : ∀ key, s.task.watchers.lookup key = some [] →
    ∃ id watcher, .unwatch id key watcher ∈ s.outstanding

theorem WatcherMove.died {s s' : State} {event : CallerEvent} (h : WatcherMove s event s')
    {watcher : Nat} (halive : s.receiverAlive watcher = true) :
    s'.receiverAlive watcher = true ∨ ∃ w, s.watching watcher = some w ∧
      (Vanishes s event watcher w ∨ .unwatch (syncOf watcher) w.key watcher ∈ s'.channel) := by
  have hsame {target : Nat} {w : Watching} (hother : watcher ≠ target)
      (hwatching : s'.watching = Function.update s.watching target (some w)) :
      s'.receiverAlive watcher = true := by
    rw [State.receiverAlive, hwatching, Function.update_of_ne hother]
    exact halive
  cases h with
  | idle hwatching =>
      refine .inl ?_
      rw [State.receiverAlive, hwatching]
      exact halive
  | issued hwatching =>
      by_cases hother : watcher = s.nextWatchId
      · exact .inl (by simp [State.receiverAlive, hwatching, hother])
      · exact .inl (hsame hother hwatching)
  | @submitted target w hw halive' _ hwatching | @resolved target w hw halive' _ _ hwatching =>
      by_cases hother : watcher = target
      · exact .inl (by simp [State.receiverAlive, hwatching, hother, halive'])
      · exact .inl (hsame hother hwatching)
  | @vanished target w hw _ hhow hwatching =>
      by_cases hother : watcher = target
      · subst hother
        exact .inr ⟨w, hw, .inl hhow⟩
      · exact .inl (hsame hother hwatching)
  | @dropped target w hw _ _ hwatching _ hchannel =>
      by_cases hother : watcher = target
      · subst hother
        exact .inr ⟨w, hw, .inr (by simp [hchannel])⟩
      · exact .inl (hsame hother hwatching)

theorem Tended.issued {s s' : State} {event : CallerEvent} (h : Tended s) (hsourced : Sourced s)
    (huntouched : TaskUntouched s s') (hmove : WatcherMove s event s')
    (hsafe : LeakSafe s (.caller event)) (hlive : s.phase ≠ .done) : Tended s' := by
  have houtstanding (command : Command) (hmem : command ∈ s.outstanding) :
      command ∈ s'.outstanding := by
    have hchannel : ∃ added, s'.channel = s.channel ++ added := by
      cases hmove with
      | idle _ _ hchannel | submitted _ _ _ _ _ hchannel | dropped _ _ _ _ _ hchannel =>
          exact ⟨_, hchannel⟩
      | issued _ _ hchannel | resolved _ _ _ _ _ _ hchannel | vanished _ _ _ _ _ hchannel =>
          exact ⟨[], hchannel.trans (List.append_nil _).symm⟩
    obtain ⟨added, hchannel⟩ := hchannel
    rw [State.outstanding, List.mem_append] at hmem ⊢
    rw [hchannel, huntouched.task]
    exact hmem.imp_left (List.mem_append_left _)
  refine ⟨fun watcher => (h.waits watcher).issued hsourced.toRegistered huntouched hmove hsafe
    hlive, ?_, ?_⟩
  · intro key list hlookup subscriber hmem
    rw [huntouched.task] at hlookup
    obtain ⟨hid, w₀, hw₀, hkey⟩ := hsourced.task.lookup hlookup subscriber hmem
    rcases h.entry key list hlookup subscriber hmem with halive | hunwatch
    · rcases hmove.died halive with halive' | ⟨w, hw, hvanishes | hunwatch⟩
      · exact .inl halive'
      · have hunlisted := (hvanishes.unlisted hw (h.waits _) hsafe hlive).1
        exact absurd rfl (hunlisted key list hlookup subscriber hmem)
      · obtain rfl := Option.some.inj (hw₀.symm.trans hw)
        rw [← hid, hkey] at hunwatch
        exact .inr (List.mem_append_left _ hunwatch)
    · exact .inr (houtstanding _ hunwatch)
  · intro key hlookup
    rw [huntouched.task] at hlookup
    obtain ⟨id, watcher, hunwatch⟩ := h.empty key hlookup
    exact ⟨id, watcher, houtstanding _ hunwatch⟩

theorem WatchFlow.unwatch_kept {s s' : State} {event : TaskEvent} (h : WatchFlow s event s')
    (hsafe : LeakSafe s (.task event)) (hlive : s'.phase ≠ .done) {id : Nat} {key : String}
    {watcher : Nat} (hmem : .unwatch id key watcher ∈ s.outstanding) :
    .unwatch id key watcher ∈ s'.outstanding ∨
      ∀ list, s'.task.watchers.lookup key = some list →
        list ≠ [] ∧ ∀ subscriber ∈ list, subscriber.id ≠ id := by
  cases h with
  | still _ houtstanding | notified _ _ houtstanding =>
      exact .inl (houtstanding.mem_iff.mpr hmem)
  | @overflowed command rest hevent hchannel hfull _ houtstanding =>
      rcases List.mem_cons.mp (houtstanding.mem_iff.mp hmem) with rfl | hrest
      · subst hevent
        exact absurd (hsafe id key watcher rest hchannel) (by omega)
      · exact .inl hrest
  | handled hhandling _ ht' houtstanding =>
      rcases List.mem_cons.mp (houtstanding.mem_iff.mp hmem) with rfl | hrest
      · refine .inr fun list hlookup => ⟨?_, ?_⟩
        · rintro rfl
          exact (hhandling.empty_source (ht' ▸ hlookup)).2 id watcher rfl
        · rintro subscriber hsubscriber rfl
          exact (hhandling.entry_source (ht' ▸ hlookup) hsubscriber).2 watcher rfl
      · exact .inl hrest
  | ended hdone => exact absurd hdone hlive

theorem Tended.empty_source {s s' : State} {event : TaskEvent} (h : Tended s)
    (hflow : WatchFlow s event s') (hlive : s'.phase ≠ .done) {key : String}
    (hlookup : s'.task.watchers.lookup key = some []) :
    ∃ id watcher, .unwatch id key watcher ∈ s.outstanding := by
  cases hflow with
  | still hwatchers | overflowed _ _ _ hwatchers => exact h.empty key (hwatchers ▸ hlookup)
  | handled hhandling ht ht' =>
      exact h.empty key (ht ▸ (hhandling.empty_source (ht' ▸ hlookup)).1)
  | @notified key' list hlookup' hwatchers =>
      rw [hwatchers] at hlookup
      by_cases hkey : key = key'
      · subst hkey
        rw [AList.lookup_insert, Option.some.injEq, List.filter_eq_nil_iff] at hlookup
        cases list with
        | nil => exact h.empty key hlookup'
        | cons first rest =>
            have hdead := hlookup first List.mem_cons_self
            have hunwatch := (h.entry key _ hlookup' first List.mem_cons_self).resolve_left hdead
            exact ⟨_, _, hunwatch⟩
      · exact h.empty key ((AList.lookup_insert_ne hkey).symm.trans hlookup)
  | ended hdone => exact absurd hdone hlive

theorem Tended.moved {rmp : Rmp} {s s' : State} {event : TaskEvent} (h : Tended s)
    (hmove : TaskMove rmp s event s') (hsafe : LeakSafe s (.task event))
    (hlive : s'.phase ≠ .done) : Tended s' := by
  have halive (watcher : Nat) : s'.receiverAlive watcher = s.receiverAlive watcher := by
    rw [State.receiverAlive, State.receiverAlive, hmove.untouched.watching]
  refine ⟨fun watcher => (h.waits watcher).moved hmove hlive, ?_, ?_⟩
  · intro key list hlookup subscriber hmem
    rw [halive]
    rcases hmove.flow.entry_source hlive hlookup hmem with ⟨list', hlookup', hmem'⟩ | hperm
    · rcases h.entry key list' hlookup' subscriber hmem' with hlisten | hunwatch
      · exact .inl hlisten
      · refine .inr ((hmove.flow.unwatch_kept hsafe hlive hunwatch).resolve_right fun hgone => ?_)
        exact (hgone list hlookup).2 subscriber hmem rfl
    · have hpos : 0 < s.watches subscriber.watcher := by
        rw [State.watches, hperm.countP_eq, List.countP_cons_of_pos (by simp [Command.watches])]
        omega
      obtain ⟨-, w, hw, hlisten, -⟩ := (h.waits _).queued hpos
      exact .inl (receiverAlive_iff.mpr ⟨w, hw, hlisten⟩)
  · intro key hlookup
    obtain ⟨id, watcher, hunwatch⟩ := h.empty_source hmove.flow hlive hlookup
    refine ⟨id, watcher, (hmove.flow.unwatch_kept hsafe hlive hunwatch).resolve_right ?_⟩
    intro hgone
    exact (hgone [] hlookup).1 rfl

theorem ReachableBy.tended {rmp : Rmp} {options : ConnectOptions} {s : State}
    (h : ReachableBy rmp options LeakSafe s) : s.phase ≠ .done → Tended s := by
  refine Reaches.invariant (I := fun s => s.phase ≠ .done → Tended s) ?_ ?_ h
  · intro _
    refine ⟨fun watcher => ⟨fun _ => ⟨⟨?_, ?_⟩, rfl⟩, ?_, ?_⟩, ?_, ?_⟩ <;>
      simp [State.initial, State.watches, State.outstanding]
  · intro s s' event hreach htended hsafe hstep hlive
    have hreachable : Reachable rmp options s := hreach.weaken
    cases step_move hstep with
    | caller hmove =>
        have huntouched := hmove.untouched
        rw [huntouched.phase] at hlive
        exact (htended hlive).issued hreachable.sourced huntouched hmove.watcherMove hsafe hlive
    | task hmove => exact (htended hmove.not_done).moved hmove hsafe hlive
    | server =>
        have hkept := htended hlive
        exact ⟨fun watcher => (hkept.waits watcher).of_eq rfl rfl rfl rfl, hkept.entry,
          hkept.empty⟩

/-! ## No leaked subscription -/

theorem Routing.acknowledged {t t' : Task} {link : Nat} {alive : Nat → Bool} {ack : SendResult}
    {arrival : Arrival} {actions : List Action}
    (h : Routing t link alive ack arrival t' actions) {l : Nat} {origin : Origin}
    {packet : Packet} {result : SendResult} (hmem : .wrote l origin packet result ∈ actions) :
    ∃ key data, arrival.response.event = some (key, data) ∧ key ∈ t.watchers := by
  cases h.acts _ hmem with
  | @acknowledged key data list hevent hlookup =>
      exact ⟨key, data, hevent, AList.lookup_isSome.mp (by simp [hlookup])⟩

theorem Tended.live {s : State} (h : Tended s) (hsourced : Sourced s) (hempty : s.outstanding = [])
    {key : String} (hmem : key ∈ s.task.watchers) : LiveWatcher s key := by
  obtain ⟨list, hlookup⟩ := Option.isSome_iff_exists.mp (AList.lookup_isSome.mpr hmem)
  cases list with
  | nil =>
      obtain ⟨id, watcher, hunwatch⟩ := h.empty key hlookup
      simp [hempty] at hunwatch
  | cons first rest =>
      have hfirst : first ∈ first :: rest := List.mem_cons_self
      have hlisten := (h.entry key _ hlookup first hfirst).resolve_right (by simp [hempty])
      obtain ⟨w, hw, halive⟩ := receiverAlive_iff.mp hlisten
      obtain ⟨-, w', hw', hkey⟩ := hsourced.task.lookup hlookup first hfirst
      obtain rfl := Option.some.inj (hw.symm.trans hw')
      refine ⟨first.watcher, w, hw, hkey, halive, fun hstage => ?_⟩
      have hunlisted := ((h.waits first.watcher).unsent (by simp [hw, hstage])).1
      exact hunlisted.entry key _ hlookup first hfirst rfl

/--
In a run in which no `Unwatch` goes missing, a key whose watchers are all gone is
unregistered, and its events are not acknowledged.
-/
theorem no_leaked_subscription {rmp : Rmp} {options : ConnectOptions} {s : State}
    (h : ReachableBy rmp options LeakSafe s) : NoLeak s := by
  have hreachable : Reachable rmp options s := h.weaken
  intro hup hunbroken hchannel hdeferred key
  have hlive : s.phase ≠ .done := by
    intro hdone
    simp [hdone, Phase.up] at hup
  by_cases hmem : key ∈ s.task.watchers
  · exact .inl ((h.tended hlive).live hreachable.sourced
      (by simp [State.outstanding, hchannel, hdeferred]) hmem)
  · refine .inr ⟨?_, hmem, ?_⟩
    · rw [← Bool.not_eq_true, hreachable.agreement.agree hup hunbroken key]
      exact hmem
    · intro ack arrival data hevent l origin packet result hwrote
      obtain ⟨key', data', hevent', hmem'⟩ :=
        (handleResponse_routing s.task s.link s.receiverAlive ack arrival).acknowledged hwrote
      obtain ⟨rfl, -⟩ := Prod.mk.inj (Option.some.inj (hevent.symm.trans hevent'))
      exact hmem hmem'

def leakSafe (s : State) : Event → Bool
  | .caller (.dropWatch watcher) => (s.watching watcher).all fun w =>
      decide (w.stage = .watching) && s.hasRoom
  | .task .reconnectCommand => false
  | _ => true

theorem leakSafe_sound (s : State) (event : Event) (h : leakSafe s event = true) :
    LeakSafe s event := by
  unfold leakSafe at h
  split at h
  · refine .inr fun w hw => ?_
    rw [Option.mem_def.mp hw] at h
    simp only [Option.all_some, Bool.and_eq_true, decide_eq_true_eq] at h
    exact ⟨by simp [h.1], fun _ => h.2⟩
  · contradiction
  next hdrop hreconnect =>
    unfold LeakSafe
    split
    · exact absurd rfl (hdrop _)
    · exact absurd rfl hreconnect
    · trivial

def sampleUnwatch : List Event :=
  sampleWatch ++
    [Event.server 0 (eventPacket "config" [0xc0]), .task (.packet .sent), .task (.drain .sent),
      .caller (.resolveWatch 1), .caller (.dropWatch 1), .task (.command .sent),
      .task (.drain .sent)]

def settled (s : State) : Bool :=
  s.phase.up && s.channel.isEmpty && s.task.deferred.isEmpty && s.history.all fun
    | .wrote _ _ _ (.failed _ _) => false
    | _ => true

theorem settled_sound {s : State} (h : settled s = true) :
    s.phase.up = true ∧ Unbroken s.link s.history ∧ s.channel = [] ∧ s.task.deferred = [] := by
  simp only [settled, Bool.and_eq_true, List.isEmpty_iff, List.all_eq_true] at h
  obtain ⟨⟨⟨hup, hchannel⟩, hdeferred⟩, hhistory⟩ := h
  refine ⟨hup, fun origin packet err buffered hmem => ?_, hchannel, hdeferred⟩
  simpa using hhistory _ hmem

theorem no_leaked_subscription_sample :
    ∃ s, ReachableBy fixintRmp {} LeakSafe s ∧ settled s = true ∧ NoLeak s ∧
      subscriptions 0 "config" s.history = [true, true, false] := by
  obtain ⟨s, hreach, hcheck⟩ := reaches_of_guarded (step fixintRmp) leakSafe leakSafe_sound
    (.initial {}) sampleUnwatch
    (fun s => settled s && decide (subscriptions 0 "config" s.history = [true, true, false]))
    (by decide +kernel)
  simp only [Bool.and_eq_true, decide_eq_true_eq] at hcheck
  exact ⟨s, hreach, hcheck.1, no_leaked_subscription hreach, hcheck.2⟩

/-- The future of `Client::watch` is dropped while it waits for the first value. -/
theorem cancelled_watch_stays_registered :
    ¬ ∀ rmp options s, Reachable rmp options s → NoLeak s := by
  intro hall
  obtain ⟨s, hreach, hcheck⟩ := reaches_of_check (step fixintRmp) (.initial {})
    (sampleWatch ++ [Event.caller (.dropWatch 1)])
    (fun s => settled s && registered s.link "config" s.history && !s.receiverAlive 1 &&
      decide (s.nextWatchId = 2)) (by decide +kernel)
  simp only [Bool.and_eq_true, Bool.not_eq_true', decide_eq_true_eq] at hcheck
  obtain ⟨⟨⟨hsettled, hregistered⟩, hdead⟩, hnext⟩ := hcheck
  obtain ⟨hup, hunbroken, hchannel, hdeferred⟩ := settled_sound hsettled
  have hreachable : Reachable fixintRmp {} s := hreach
  rcases hall fixintRmp {} s hreach hup hunbroken hchannel hdeferred "config" with
    ⟨watcher, w, hw, -, halive, -⟩ | ⟨hunregistered, -⟩
  · have hlt := hreachable.sourced.toRegistered.lt hw
    have hlisten : s.receiverAlive watcher = true := receiverAlive_iff.mpr ⟨w, hw, halive⟩
    obtain rfl | rfl : watcher = 0 ∨ watcher = 1 := by omega
    · simp [hreachable.numbered.zero] at hw
    · simp [hdead] at hlisten
  · simp [hregistered] at hunregistered

end Tarant.Connection
