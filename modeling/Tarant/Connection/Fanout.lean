import Tarant.Connection.Broadcast

/-!
# Events reach every watcher once

Each event the task reads goes to the watchers that are listed under its key at
that moment.  A watcher is listed once, from its `Watch` command on, so what it
is sent is the sequence of the events of its key that were read since.
-/

namespace Tarant.Connection

open Foundation
open Iproto

/-! ## One sender for each watcher -/

def entriesOf (watchers : WatcherMap) (key : String) (w : Nat) : Nat :=
  ((watchers.lookup key).getD []).countP (·.watcher == w)

def State.unsubscribed (s : State) (w : Nat) : Bool :=
  (s.watching w).all fun watching => decide (watching.stage = .sending)

/-- The senders of the watcher that are not in the map: unsent, or on their way. -/
def State.senders (s : State) (w : Nat) : Nat :=
  (s.unsubscribed w).toNat + s.outstanding.countP (·.watches w)

def SenderOnce (s : State) : Prop :=
  ∀ key w, s.senders w + entriesOf s.task.watchers key w ≤ 1

theorem entriesOf_insert (watchers : WatcherMap) (key key' : String) (w : Nat)
    (list : List Subscriber) :
    entriesOf (watchers.insert key' list) key w =
      if key = key' then list.countP (·.watcher == w) else entriesOf watchers key w := by
  unfold entriesOf
  split
  next hkey =>
    subst hkey
    rw [AList.lookup_insert, Option.getD_some]
  next hkey => rw [AList.lookup_insert_ne hkey]

theorem entriesOf_lookup {watchers : WatcherMap} {key : String} {list : List Subscriber}
    (h : watchers.lookup key = some list) (w : Nat) :
    entriesOf watchers key w = list.countP (·.watcher == w) := by
  rw [entriesOf, h, Option.getD_some]

theorem entriesOf_filter {watchers : WatcherMap} {key' : String} {list : List Subscriber}
    (h : watchers.lookup key' = some list) (p : Subscriber → Bool) (key : String) (w : Nat) :
    entriesOf (watchers.insert key' (list.filter p)) key w ≤ entriesOf watchers key w := by
  rw [entriesOf_insert]
  split
  next hkey =>
    subst hkey
    rw [entriesOf_lookup h]
    exact List.filter_sublist.countP_le
  · exact le_rfl

theorem Handling.entriesOf {t t' : Task} {link : Nat} {send : SendResult} {command : Command}
    {actions : List Action} {result : Except Error Unit}
    (h : Handling t link send command t' actions result) (key : String) (w : Nat) :
    entriesOf t'.watchers key w ≤
      (if command.watches w then 1 else 0) + entriesOf t.watchers key w := by
  cases h with
  | @watchedFirst id key' watcher hlookup =>
      rw [entriesOf_insert]
      split
      · rw [List.countP_singleton]
        exact Nat.le_add_right _ _
      · exact Nat.le_add_left _ _
  | @watched id key' watcher list hlookup =>
      rw [entriesOf_insert]
      split
      next hkey =>
        subst hkey
        rw [entriesOf_lookup hlookup, List.countP_append, List.countP_singleton, Nat.add_comm]
        exact le_rfl
      · exact Nat.le_add_left _ _
  | @unwatchedLast id key' watcher list hlookup hkept =>
      refine Nat.le_trans ?_ (Nat.le_add_left _ _)
      by_cases hkey : key = key'
      · subst hkey
        simp [Connection.entriesOf, AList.lookup_erase]
      · simp [Connection.entriesOf, AList.lookup_erase_ne hkey]
  | unwatched hlookup hkept =>
      exact Nat.le_trans (entriesOf_filter hlookup _ key w) (Nat.le_add_left _ _)
  | _ => exact Nat.le_add_left _ _

theorem State.senders_eq {s s' : State} (hwatching : s'.watching = s.watching)
    (taken : List Command) (houtstanding : s.outstanding.Perm (taken ++ s'.outstanding))
    (w : Nat) : s.senders w = s'.senders w + taken.countP (·.watches w) := by
  have hunsubscribed : s'.unsubscribed w = s.unsubscribed w := by
    rw [State.unsubscribed, State.unsubscribed, hwatching]
  rw [State.senders, State.senders, hunsubscribed, houtstanding.countP_eq, List.countP_append]
  omega

theorem WatchFlow.senders_le {s s' : State} {event : TaskEvent} (h : WatchFlow s event s')
    (hwatching : s'.watching = s.watching) (hlive : s'.phase ≠ .done) (w : Nat) :
    s'.senders w ≤ s.senders w := by
  have hperm (taken : List Command)
      (houtstanding : s.outstanding.Perm (taken ++ s'.outstanding)) :
      s'.senders w ≤ s.senders w := by
    rw [State.senders_eq hwatching taken houtstanding]
    exact Nat.le_add_right _ _
  cases h with
  | still _ houtstanding | notified _ _ houtstanding => exact hperm [] houtstanding.symm
  | handled _ _ _ houtstanding | overflowed _ _ _ _ houtstanding => exact hperm [_] houtstanding
  | ended hdone => exact absurd hdone hlive

theorem SenderOnce.moved {s s' : State} {event : TaskEvent} (h : SenderOnce s)
    (hflow : WatchFlow s event s') (hwatching : s'.watching = s.watching)
    (hlive : s'.phase ≠ .done) : SenderOnce s' := by
  intro key w
  have hold := h key w
  have hsenders := hflow.senders_le hwatching hlive w
  cases hflow with
  | still hwatchers | overflowed _ _ _ hwatchers =>
      rw [hwatchers]
      omega
  | handled hhandling ht ht' houtstanding =>
      have hentries := hhandling.entriesOf key w
      have hcount := State.senders_eq hwatching [_] houtstanding w
      rw [List.countP_singleton] at hcount
      rw [ht] at hentries
      rw [ht']
      omega
  | notified hlookup hwatchers =>
      have hfewer := entriesOf_filter hlookup (s.receiverAlive ·.watcher) key w
      rw [hwatchers]
      omega
  | ended hdone => exact absurd hdone hlive

theorem WatcherMove.senders_le {s s' : State} {event : CallerEvent} (h : WatcherMove s event s')
    (htask : s'.task = s.task) (hfresh : s.watching s.nextWatchId = none) (n : Nat) :
    s'.senders n ≤ s.senders n := by
  have hquiet {added : List Command} (hchannel : s'.channel = s.channel ++ added)
      (hadded : ∀ command ∈ added, command.watches n = false)
      (hunsubscribed : s'.unsubscribed n = true → s.unsubscribed n = true) :
      s'.senders n ≤ s.senders n := by
    have hnone : added.countP (·.watches n) = 0 :=
      List.countP_eq_zero.mpr fun command hmem => by simp [hadded command hmem]
    have hle : (s'.unsubscribed n).toNat ≤ (s.unsubscribed n).toNat := by
      cases hs : s'.unsubscribed n with
      | false => exact Nat.zero_le _
      | true => rw [hunsubscribed hs]
    rw [State.senders, State.senders, State.outstanding, htask, hchannel]
    simp only [State.outstanding, List.countP_append]
    omega
  have hkeep {watcher : Nat} {w w' : Watching} (hw : s.watching watcher = some w)
      (hwatching : s'.watching = Function.update s.watching watcher (some w'))
      (hstage : w'.stage = .sending → w.stage = .sending)
      (hn : s'.unsubscribed n = true) : s.unsubscribed n = true := by
    by_cases hother : n = watcher
    · subst hother
      simp_all [State.unsubscribed]
    · simpa [State.unsubscribed, hwatching, Function.update_of_ne hother] using hn
  cases h with
  | idle hwatching hnext hchannel hadded =>
      refine hquiet hchannel (fun command hmem => ?_) fun hn => ?_
      · have hnone := hadded command hmem
        cases command <;> simp_all [Command.watcher?, Command.watches]
      · rw [State.unsubscribed, hwatching] at hn
        exact hn
  | issued hwatching hnext hchannel =>
      refine hquiet (hchannel.trans (List.append_nil _).symm) (by simp) fun hn => ?_
      by_cases hother : n = s.nextWatchId
      · simp [State.unsubscribed, hother, hfresh]
      · simpa [State.unsubscribed, hwatching, Function.update_of_ne hother] using hn
  | @submitted watcher w hw halive hstage hwatching hnext hchannel =>
      by_cases hother : n = watcher
      · subst hother
        simp [State.senders, State.outstanding, State.unsubscribed, Command.watches, htask,
          hchannel, hwatching, hw, hstage]
        omega
      · refine hquiet hchannel ?_ fun hn => ?_
        · simp [Command.watches, Ne.symm hother]
        · rwa [State.unsubscribed, hwatching, Function.update_of_ne hother] at hn
  | resolved hw halive hstage hcell hwatching hnext hchannel =>
      exact hquiet (hchannel.trans (List.append_nil _).symm) (by simp)
        (hkeep hw hwatching (by simp))
  | vanished hw halive hhow hwatching hnext hchannel =>
      exact hquiet (hchannel.trans (List.append_nil _).symm) (by simp)
        (hkeep hw hwatching (by simp))
  | dropped hw halive hstage hwatching hnext hchannel =>
      exact hquiet hchannel (by simp [Command.watches]) (hkeep hw hwatching (by simp))

theorem Reachable.sender_once {rmp : Rmp} {options : ConnectOptions} {s : State}
    (h : Reachable rmp options s) : s.phase ≠ .done → SenderOnce s := by
  refine Reaches.invariant (I := fun s => s.phase ≠ .done → SenderOnce s) ?_ ?_ h
  · intro _ key w
    simp [State.initial, State.senders, State.unsubscribed, State.outstanding, entriesOf]
  · intro s s' event hreach honce _ hstep hlive
    have hreachable : Reachable rmp options s := hreach
    cases step_move hstep with
    | caller hmove =>
        have huntouched := hmove.untouched
        intro key w
        have hold := honce (huntouched.phase ▸ hlive) key w
        have hsenders := hmove.watcherMove.senders_le huntouched.task
          (hreachable.sourced.toRegistered.fresh _ le_rfl) w
        rw [huntouched.task]
        omega
    | task hmove =>
        exact (honce hmove.not_done).moved hmove.flow hmove.untouched.watching hlive
    | server => exact honce hlive

/-! ## What happens to a watcher -/

/-- What is to reach watchers: a `Watch` command was handled, or an event was read. -/
inductive Notice where
  | registered (watcher : Nat)
  | event (key : String) (data : Bytes)
  deriving DecidableEq

def Action.notice : Action → Option Notice
  | .handled _ (.watch _ _ watcher) => some (.registered watcher)
  | _ => none

def State.eventRead (s : State) : TaskEvent → Option (String × Bytes)
  | .packet _ => ((s.inbound s.link)[s.read s.link]?).bind Inbound.event
  | _ => none

def State.notices (s : State) (event : Event) (s' : State) : List Notice :=
  match event with
  | .task event =>
      ((s.eventRead event).toList.map fun (key, data) => .event key data) ++
        (s'.history.drop s.history.length).filterMap Action.notice
  | _ => []

def Noticed (rmp : Rmp) (options : ConnectOptions) (s : State) (seen : List Notice) : Prop :=
  Reaches (observing (step rmp) State.notices) anyStep (State.initial options, []) (s, seen)

def Notice.valueOf (key : String) : Notice → Option Bytes
  | .event k data => if k = key then some data else none
  | .registered _ => none

/-- The events of the key that were read since the watcher was registered. -/
def valuesFor (w : Nat) (key : String) (seen : List Notice) : List Bytes :=
  (seen.dropWhile fun notice => decide (notice ≠ .registered w)).filterMap (Notice.valueOf key)

theorem valuesFor_append (w : Nat) (key : String) (seen more : List Notice) :
    valuesFor w key (seen ++ more) =
      if .registered w ∈ seen then valuesFor w key seen ++ more.filterMap (Notice.valueOf key)
      else valuesFor w key more := by
  have hiff : (seen.dropWhile fun notice => decide (notice ≠ .registered w)) = [] ↔
      .registered w ∉ seen := by
    rw [List.dropWhile_eq_nil_iff]
    constructor
    · intro hall hmem
      simpa using hall _ hmem
    · intro hnone notice hmem
      exact decide_eq_true fun heq => hnone (heq ▸ hmem)
  unfold valuesFor
  rw [List.dropWhile_append]
  by_cases hmem : .registered w ∈ seen
  · rw [if_pos hmem, if_neg, List.filterMap_append]
    rw [List.isEmpty_iff, hiff]
    exact fun hnone => hnone hmem
  · rw [if_neg hmem, if_pos]
    rw [hiff.mpr hmem]
    rfl

theorem valuesFor_eq_nil {w : Nat} {key : String} {seen : List Notice}
    (h : .registered w ∉ seen) : valuesFor w key seen = [] := by
  have happend := valuesFor_append w key seen []
  rw [List.append_nil, if_neg h] at happend
  rw [happend]
  rfl

theorem valuesFor_still {w : Nat} {key : String} {seen more : List Notice}
    (h : ∀ notice ∈ more, notice.valueOf key = none) :
    valuesFor w key (seen ++ more) = valuesFor w key seen := by
  rw [valuesFor_append]
  split
  next hmem => rw [List.filterMap_eq_nil_iff.mpr h, List.append_nil]
  next hmem =>
    rw [valuesFor_eq_nil hmem, valuesFor, List.filterMap_eq_nil_iff]
    intro notice hnotice
    exact h notice ((List.dropWhile_sublist _).subset hnotice)

theorem valuesFor_event {w : Nat} {key k : String} {data : Bytes} {seen : List Notice} :
    valuesFor w key (seen ++ [.event k data]) =
      valuesFor w key seen ++ if .registered w ∈ seen ∧ k = key then [data] else [] := by
  rw [valuesFor_append]
  by_cases hmem : .registered w ∈ seen
  · by_cases hkey : k = key <;> simp [hmem, hkey, Notice.valueOf]
  · rw [if_neg hmem, if_neg fun h => hmem h.1, valuesFor_eq_nil hmem]
    exact valuesFor_eq_nil (by simp)

/-! ## What a step publishes -/

theorem publishedTo_append (w : Nat) (history actions : List Action) :
    publishedTo w (history ++ actions) = publishedTo w history ++ publishedTo w actions :=
  List.filterMap_append

theorem mem_publishedTo {w : Nat} {data : Bytes} {history : List Action} :
    data ∈ publishedTo w history ↔ .published w data ∈ history := by
  rw [publishedTo, List.mem_filterMap]
  constructor
  · rintro ⟨action, hmem, haction⟩
    cases action with
    | published watcher value =>
        simp only [Option.ite_none_right_eq_some, Option.some.injEq] at haction
        obtain ⟨rfl, rfl⟩ := haction
        exact hmem
    | _ => simp at haction
  · intro hmem
    exact ⟨_, hmem, by simp⟩

def Unheard (actions : List Action) : Prop :=
  ∀ action ∈ actions, action.notice = none ∧ ∀ w data, action ≠ .published w data

theorem Unheard.notices {actions : List Action} (h : Unheard actions) :
    actions.filterMap Action.notice = [] :=
  List.filterMap_eq_nil_iff.mpr fun action hmem => (h action hmem).1

theorem Unheard.published {actions : List Action} (h : Unheard actions) (w : Nat) :
    publishedTo w actions = [] := by
  rw [publishedTo, List.filterMap_eq_nil_iff]
  intro action hmem
  cases action with
  | published watcher data => exact absurd rfl ((h _ hmem).2 watcher data)
  | _ => rfl

theorem Unheard.append {actions actions' : List Action} (h : Unheard actions)
    (h' : Unheard actions') : Unheard (actions ++ actions') :=
  List.forall_mem_append.mpr ⟨h, h'⟩

theorem unheard_nil : Unheard [] := List.forall_mem_nil _

theorem Handling.unheard {t t' : Task} {link : Nat} {send : SendResult} {command : Command}
    {actions : List Action} {result : Except Error Unit}
    (h : Handling t link send command t' actions result) : Unheard actions := by
  intro action hmem
  cases h.acts action hmem <;> exact ⟨rfl, by simp⟩

theorem answered_unheard (link : Nat) (tickets : List Nat) (answer : Answer) :
    Unheard (tickets.map fun ticket => .answered link ticket answer) :=
  List.forall_mem_map.mpr fun _ _ => ⟨rfl, by simp⟩

theorem failPending_unheard (t : Task) (link : Nat) : Unheard (t.failPending link).2 :=
  List.forall_mem_map.mpr fun _ _ => ⟨rfl, by simp⟩

theorem failLink_unheard (t : Task) (link : Nat) : Unheard (t.failLink link).2 :=
  List.forall_mem_cons.mpr ⟨⟨rfl, by simp⟩, failPending_unheard t link⟩

theorem took_unheard (command : Command) : Unheard [.took command] :=
  List.forall_mem_singleton.mpr ⟨rfl, by simp⟩

theorem discarded_unheard (commands : List Command) : Unheard (commands.map .discarded) :=
  List.forall_mem_map.mpr fun _ _ => ⟨rfl, by simp⟩

theorem defer_unheard (t : Task) (link : Nat) (command : Command) :
    Unheard (t.defer link command).2 := by
  unfold Task.defer
  split
  · exact answered_unheard link _ _
  · exact unheard_nil

theorem defer_watchers (t : Task) (link : Nat) (command : Command) :
    (t.defer link command).1.watchers = t.watchers := by
  unfold Task.defer
  split <;> rfl

theorem resubscribe_unheard (link : Nat) (send : String → SendResult) (keys : List String) :
    Unheard (Task.resubscribe link send keys) :=
  Task.forall_mem_resubscribe (fun _ => ⟨rfl, by simp⟩) keys

theorem closeDown_unheard (s : State) (cause : CloseCause) :
    ∃ actions, (s.closeDown cause).history = s.history ++ actions ∧ Unheard actions := by
  refine ⟨_, rfl, Unheard.append (List.forall_mem_cons.mpr ⟨⟨rfl, by simp⟩, ?_⟩)
    (discarded_unheard _)⟩
  exact (failPending_unheard _ _).append (answered_unheard _ _ _)

theorem giveUp_unheard (s : State) :
    ∃ actions, s.giveUp.history = s.history ++ actions ∧ Unheard actions :=
  ⟨_, rfl, (answered_unheard _ _ _).append (discarded_unheard _)⟩

theorem lose_unheard (s : State) :
    ∃ actions, s.lose.history = s.history ++ actions ∧ Unheard actions := by
  simp only [State.lose]
  split
  · exact ⟨_, rfl, failLink_unheard _ _⟩
  · exact ⟨_, List.append_assoc _ _ _, (failLink_unheard _ _).append
      ((answered_unheard _ _ _).append (discarded_unheard _))⟩

inductive Fans (s : State) (event : TaskEvent) (s' : State) : Prop where
  | still {actions : List Action} (hhistory : s'.history = s.history ++ actions)
      (hunheard : Unheard actions) (hread : s.eventRead event = none)
      (hwatchers : s'.phase = .done ∨ s'.task.watchers = s.task.watchers)
  | handled {t t' : Task} {send : SendResult} {command : Command}
      {before actions after : List Action} {result : Except Error Unit}
      (hsent : command ∈ s.outstanding)
      (hhandling : Handling t s.link send command t' actions result)
      (ht : t.watchers = s.task.watchers)
      (ht' : s'.phase = .done ∨ s'.task.watchers = t'.watchers)
      (hhistory : s'.history =
        s.history ++ (before ++ .handled s.link command :: (actions ++ after)))
      (hbefore : Unheard before) (hafter : Unheard after) (hread : s.eventRead event = none)
  | routed {ack : SendResult} {inbound : Inbound} {t : Task} {actions after : List Action}
      (hrouting : Routing s.task s.link s.receiverAlive ack
        ⟨inbound.response, s.link, s.read s.link⟩ t actions)
      (hread : s.eventRead event = inbound.event)
      (ht : s'.phase = .done ∨ s'.task = t)
      (hhistory : s'.history = s.history ++ (actions ++ after)) (hafter : Unheard after)

theorem State.eventRead_packet {s : State} {ack : SendResult} {inbound : Inbound}
    (h : (s.inbound s.link)[s.read s.link]? = some inbound) :
    s.eventRead (.packet ack) = inbound.event := by
  rw [State.eventRead, h, Option.bind_some]

theorem TaskMove.fans {rmp : Rmp} {s s' : State} {event : TaskEvent}
    (h : TaskMove rmp s event s') : Fans s event s' := by
  cases h with
  | drained | woke | attemptFailed | replyRejected | idAccepted =>
      exact .still (List.append_nil _).symm unheard_nil rfl (.inr rfl)
  | replayed hphase hdeferred hhandle =>
      exact .handled (by simp [State.outstanding, hdeferred]) (handling_of_eq hhandle) rfl
        (.inr rfl) (by simp [State.perform]) unheard_nil unheard_nil rfl
  | @replayFailed command rest send t actions err hphase hdeferred hhandle =>
      exact .handled (by simp [State.outstanding, hdeferred]) (handling_of_eq hhandle) rfl
        (.inr rfl) (by simp [State.perform]) unheard_nil (failLink_unheard t s.link) rfl
  | @handled command rest send t actions hphase hchannel hclose hhandle =>
      exact .handled (by simp [State.outstanding, hchannel]) (handling_of_eq hhandle) rfl (.inr rfl)
        (by simp [State.perform, State.takeCommand]) (took_unheard command) unheard_nil rfl
  | @handledLost command rest send t actions err hphase hchannel hclose hhandle =>
      obtain ⟨after, hhistory, hafter⟩ := lose_unheard ((s.takeCommand command rest).perform t
        (.handled s.link command :: actions) .drain)
      refine .handled (by simp [State.outstanding, hchannel]) (handling_of_eq hhandle) rfl ?_
        (hhistory.trans ?_) (took_unheard command) hafter rfl
      · rcases lose_flow _ with hdone | ⟨hwatchers, -⟩
        · exact .inl hdone
        · exact .inr hwatchers
      · simp [State.perform, State.takeCommand]
  | @closeCommand send rest hphase hchannel =>
      obtain ⟨actions, hhistory, hunheard⟩ := closeDown_unheard (s.takeCommand .close rest) .command
      exact .still (hhistory.trans (List.append_assoc _ _ _)) ((took_unheard _).append hunheard)
        rfl (.inl rfl)
  | channelClosed =>
      obtain ⟨actions, hhistory, hunheard⟩ := closeDown_unheard s .command
      exact .still hhistory hunheard rfl (.inl rfl)
  | received hphase hinbound =>
      exact .routed (handleResponse_routing _ _ _ _ _) (s.eventRead_packet hinbound) (.inr rfl)
        (by simp [State.receive, State.perform]) unheard_nil
  | @receivedLast ack inbound hphase hinbound =>
      obtain ⟨after, hhistory, hafter⟩ := closeDown_unheard (s.receive ack inbound) .drained
      exact .routed (handleResponse_routing _ _ _ _ _) (s.eventRead_packet hinbound) (.inl rfl)
        (hhistory.trans (List.append_assoc _ _ _)) hafter
  | linkLost =>
      obtain ⟨actions, hhistory, hunheard⟩ := lose_unheard s
      refine .still hhistory hunheard rfl ?_
      rcases lose_flow s with hdone | ⟨hwatchers, -⟩
      · exact .inl hdone
      · exact .inr hwatchers
  | @deferred command rest delay hphase hchannel hclose =>
      refine .still (List.append_assoc _ _ _)
        ((took_unheard command).append (defer_unheard s.task s.link command)) rfl (.inr ?_)
      exact defer_watchers s.task s.link command
  | @closeWhileDown rest delay hphase hchannel =>
      obtain ⟨actions, hhistory, hunheard⟩ := giveUp_unheard (s.takeCommand .close rest)
      exact .still (hhistory.trans (List.append_assoc _ _ _)) ((took_unheard _).append hunheard)
        rfl (.inl rfl)
  | channelClosedWhileDown =>
      obtain ⟨actions, hhistory, hunheard⟩ := giveUp_unheard s
      exact .still hhistory hunheard rfl (.inl rfl)
  | connected | authenticated | spawned =>
      exact .still rfl (by simp [Unheard, Action.notice]) rfl (.inr rfl)
  | reconnected =>
      refine .still rfl (List.forall_mem_cons.mpr ⟨⟨rfl, by simp⟩, ?_⟩) rfl (.inr rfl)
      exact resubscribe_unheard _ _ _

theorem publishedTo_notified (alive : Nat → Bool) (w : Nat) (data : Bytes)
    (list : List Subscriber) :
    publishedTo w ((list.filter (alive ·.watcher)).map fun subscriber =>
      .published subscriber.watcher data) =
        List.replicate (if alive w then list.countP (·.watcher == w) else 0) data := by
  induction list with
  | nil => simp [publishedTo]
  | cons subscriber list ih =>
      rw [publishedTo] at ih ⊢
      by_cases hself : subscriber.watcher = w
      · cases halive : alive w <;>
          simp_all [List.replicate_succ]
      · cases halive : alive subscriber.watcher <;>
          simp_all

theorem Routing.publishes {t t' : Task} {link n : Nat} {alive : Nat → Bool} {ack : SendResult}
    {inbound : Inbound} {actions : List Action}
    (h : Routing t link alive ack ⟨inbound.response, link, n⟩ t' actions) (w : Nat) :
    publishedTo w actions = match inbound.event with
      | some (key, data) =>
          List.replicate (if alive w then entriesOf t.watchers key w else 0) data
      | none => [] := by
  have hnone (hkind : inbound.response.kind ≠ .event) : inbound.event = none := if_neg hkind
  have hsome (hkind : inbound.response.kind = .event) : inbound.event = inbound.response.event :=
    if_pos hkind
  have hsaid (said : Prop) [Decidable said] :
      publishedTo w (if said then [Action.announced link] else []) = [] := by
    split <;> rfl
  cases h with
  | delivered hfinal =>
      rw [hnone fun hkind => by simp [hkind, Kind.final] at hfinal]
      rfl
  | unexpected hfinal =>
      rw [hnone fun hkind => by simp [hkind, Kind.final] at hfinal]
      rfl
  | pushed hkind | unheard hkind =>
      rw [hnone (by rw [hkind]; decide)]
      rfl
  | malformed hkind hevent =>
      rw [hsome hkind, hevent]
      rfl
  | unwatched hkind hevent hlookup =>
      rw [hsome hkind, hevent, hsaid]
      simp [entriesOf, hlookup]
  | @notified key data list hkind hevent hlookup =>
      rw [hsome hkind, hevent, publishedTo_append, publishedTo_append, hsaid, List.nil_append,
        publishedTo_notified]
      simp only [entriesOf_lookup hlookup]
      exact List.append_nil _

theorem watches_iff {w : Nat} {command : Command} (link : Nat) :
    command.watches w = true ↔
      Action.notice (.handled link command) = some (.registered w) := by
  cases command <;> simp [Command.watches, Action.notice]

theorem registers_iff {link w : Nat} {command : Command} :
    Action.notice (.handled link command) = some (.registered w) ↔
      ∃ id key, command = .watch id key w := by
  cases command <;> simp [Action.notice]

theorem notice_handled {link : Nat} {command : Command} {notice : Notice}
    (h : Action.notice (.handled link command) = some notice) : ∃ w, notice = .registered w := by
  cases command with
  | watch id key watcher => exact ⟨watcher, (Option.some.inj h).symm⟩
  | _ => simp [Action.notice] at h

/-! ## What a watcher has been sent -/

structure Fanned (s : State) (seen : List Notice) : Prop where
  registered : ∀ w, .registered w ∈ seen →
    ∃ link id key, .handled link (.watch id key w) ∈ s.history
  spent : s.phase ≠ .done → ∀ w, .registered w ∈ seen → s.senders w = 0
  entered : s.phase ≠ .done → ∀ key w, 0 < entriesOf s.task.watchers key w →
    .registered w ∈ seen
  heard : ∀ w watching, s.watching w = some watching →
    publishedTo w s.history <+: valuesFor w watching.key seen
  current : s.phase ≠ .done → ∀ w watching, s.watching w = some watching →
    watching.alive = true → 0 < entriesOf s.task.watchers watching.key w →
      publishedTo w s.history = valuesFor w watching.key seen
  kept : s.nextWatchId ≤ 2 ^ 64 + 1 → ∀ w watching, s.watching w = some watching →
    watching.alive = true → publishedTo w s.history = valuesFor w watching.key seen

theorem Fanned.still {s s' : State} {seen more : List Notice} (h : Fanned s seen)
    (huntouched : CallersUntouched s s') {added : List Action}
    (hhistory : s'.history = s.history ++ added) (hpublished : ∀ w, publishedTo w added = [])
    (hsilent : ∀ key, ∀ notice ∈ more, notice.valueOf key = none)
    (hnoted : ∀ w, .registered w ∈ more →
      ∃ link id key, .handled link (.watch id key w) ∈ added)
    (hspent : s'.phase ≠ .done → ∀ w, .registered w ∈ seen ++ more → s'.senders w = 0)
    (hentered : s'.phase ≠ .done → s.phase ≠ .done ∧ ∀ key w,
      0 < entriesOf s'.task.watchers key w → 0 < entriesOf s.task.watchers key w ∨
        .registered w ∈ more ∧ .registered w ∉ seen) : Fanned s' (seen ++ more) := by
  have hsame (w : Nat) : publishedTo w s'.history = publishedTo w s.history := by
    rw [hhistory, publishedTo_append, hpublished, List.append_nil]
  constructor
  · intro w hmem
    rw [hhistory]
    rcases List.mem_append.mp hmem with hold | hnew
    · obtain ⟨link, id, key, hhandled⟩ := h.registered w hold
      exact ⟨link, id, key, List.mem_append_left _ hhandled⟩
    · obtain ⟨link, id, key, hhandled⟩ := hnoted w hnew
      exact ⟨link, id, key, List.mem_append_right _ hhandled⟩
  · exact hspent
  · intro hlive key w hpos
    obtain ⟨hbefore, hentries⟩ := hentered hlive
    rcases hentries key w hpos with hold | ⟨hnew, -⟩
    · exact List.mem_append_left _ (h.entered hbefore key w hold)
    · exact List.mem_append_right _ hnew
  · intro w watching hw
    rw [huntouched.watching] at hw
    rw [hsame, valuesFor_still (hsilent watching.key)]
    exact h.heard w watching hw
  · intro hlive w watching hw halive hpos
    rw [huntouched.watching] at hw
    obtain ⟨hbefore, hentries⟩ := hentered hlive
    rw [hsame, valuesFor_still (hsilent watching.key)]
    rcases hentries watching.key w hpos with hold | ⟨-, hnew⟩
    · exact h.current hbefore w watching hw halive hold
    · -- nothing was read for it, and nothing sent
      have hnone := h.heard w watching hw
      rw [valuesFor_eq_nil hnew] at hnone ⊢
      exact List.prefix_nil.mp hnone
  · intro hbound w watching hw halive
    rw [huntouched.watching] at hw
    rw [huntouched.nextWatchId] at hbound
    rw [hsame, valuesFor_still (hsilent watching.key)]
    exact h.kept hbound w watching hw halive

theorem Routing.entriesOf {t t' : Task} {link : Nat} {alive : Nat → Bool} {ack : SendResult}
    {arrival : Arrival} {actions : List Action}
    (h : Routing t link alive ack arrival t' actions) (key : String) (w : Nat) :
    entriesOf t'.watchers key w ≤ entriesOf t.watchers key w := by
  cases h with
  | notified hkind hevent hlookup => exact entriesOf_filter hlookup _ key w
  | _ => exact le_rfl

theorem entriesOf_pos {watchers : WatcherMap} {key : String} {w : Nat} :
    0 < entriesOf watchers key w ↔
      ∃ list, watchers.lookup key = some list ∧ ∃ subscriber ∈ list, subscriber.watcher = w := by
  cases hlookup : watchers.lookup key <;> simp [entriesOf, hlookup, List.countP_pos_iff]

theorem Sourced.entry_key {s : State} (h : Sourced s) {key : String} {w : Nat}
    {watching : Watching} (hpos : 0 < entriesOf s.task.watchers key w)
    (hw : s.watching w = some watching) : watching.key = key := by
  obtain ⟨list, hlookup, subscriber, hmem, rfl⟩ := entriesOf_pos.mp hpos
  obtain ⟨-, watching', hw', hkey⟩ := h.task.lookup hlookup subscriber hmem
  obtain rfl := Option.some.inj (hw.symm.trans hw')
  exact hkey

theorem Listed.entry {s : State} (h : Listed s) (hsourced : Sourced s)
    (hbound : s.nextWatchId ≤ 2 ^ 64 + 1) {link id : Nat} {key : String} {w : Nat}
    {watching : Watching} (hhandled : .handled link (.watch id key w) ∈ s.history)
    (hw : s.watching w = some watching) (halive : watching.alive = true) :
    0 < entriesOf s.task.watchers watching.key w := by
  obtain ⟨-, watching', hw', hkey⟩ := hsourced.history _ hhandled
  obtain rfl := Option.some.inj (hw.symm.trans hw')
  obtain ⟨list, hlookup, hmem⟩ := h.listed hbound link id key w hhandled
    (receiverAlive_iff.mpr ⟨watching, hw, halive⟩)
  rw [hkey]
  exact entriesOf_pos.mpr ⟨list, hlookup, _, hmem, rfl⟩

theorem Fanned.event {s s' : State} {seen : List Notice} (h : Fanned s seen)
    (honce : SenderOnce s) (hlisted : Listed s) (hsourced : Sourced s) (hbefore : s.phase ≠ .done)
    (huntouched : CallersUntouched s s') {k : String} {data : Bytes}
    (hgrows : s.history <+: s'.history)
    (hsent : ∀ w, publishedTo w s'.history = publishedTo w s.history ++
      List.replicate (if s.receiverAlive w then entriesOf s.task.watchers k w else 0) data)
    (hspent : s'.phase ≠ .done → ∀ w, .registered w ∈ seen → s'.senders w = 0)
    (hentries : s'.phase ≠ .done → ∀ key w,
      entriesOf s'.task.watchers key w ≤ entriesOf s.task.watchers key w) :
    Fanned s' (seen ++ [.event k data]) := by
  -- a live entry gets the value that was read for it
  have hlive {w : Nat} {watching : Watching} (hw : s.watching w = some watching)
      (halive : watching.alive = true) (hpos : 0 < entriesOf s.task.watchers k w) :
      publishedTo w s'.history = valuesFor w watching.key (seen ++ [.event k data]) := by
    have hkey := hsourced.entry_key hpos hw
    have hone : entriesOf s.task.watchers k w = 1 := by
      have hle := honce k w
      omega
    rw [hsent, if_pos (receiverAlive_iff.mpr ⟨watching, hw, halive⟩), hone,
      valuesFor_event, if_pos ⟨h.entered hbefore k w hpos, hkey.symm⟩,
      h.current hbefore w watching hw halive (hkey ▸ hpos)]
    rfl
  have hmissed {w : Nat} {watching : Watching} (hw : s.watching w = some watching)
      (hnot : ¬ (watching.alive = true ∧ 0 < entriesOf s.task.watchers k w)) :
      publishedTo w s'.history = publishedTo w s.history := by
    rw [hsent]
    simp_all [State.receiverAlive]
  constructor
  · intro w hmem
    obtain ⟨link, id, key, hhandled⟩ := h.registered w (by simpa using hmem)
    exact ⟨link, id, key, hgrows.subset hhandled⟩
  · intro hdone w hmem
    exact hspent hdone w (by simpa using hmem)
  · intro hdone key w hpos
    exact List.mem_append_left _ (h.entered hbefore key w (hpos.trans_le (hentries hdone key w)))
  · intro w watching hw
    rw [huntouched.watching] at hw
    by_cases hentry : watching.alive = true ∧ 0 < entriesOf s.task.watchers k w
    · rw [hlive hw hentry.1 hentry.2]
    · rw [hmissed hw hentry, valuesFor_event]
      exact (h.heard w watching hw).trans (List.prefix_append _ _)
  · intro hdone w watching hw halive hpos
    rw [huntouched.watching] at hw
    by_cases hentry : 0 < entriesOf s.task.watchers k w
    · exact hlive hw halive hentry
    · have hkept := hpos.trans_le (hentries hdone _ w)
      rw [hmissed hw fun hboth => hentry hboth.2, valuesFor_event,
        h.current hbefore w watching hw halive hkept, if_neg, List.append_nil]
      rintro ⟨-, rfl⟩
      exact hentry hkept
  · intro hbound w watching hw halive
    rw [huntouched.watching] at hw
    rw [huntouched.nextWatchId] at hbound
    by_cases hentry : 0 < entriesOf s.task.watchers k w
    · exact hlive hw halive hentry
    · rw [hmissed hw fun hboth => hentry hboth.2, valuesFor_event,
        h.kept hbound w watching hw halive, if_neg, List.append_nil]
      rintro ⟨hregistered, rfl⟩
      obtain ⟨link, id, key, hhandled⟩ := h.registered w hregistered
      exact hentry (hlisted.entry hsourced hbound hhandled hw halive)

theorem Fanned.routed {s s' : State} {seen : List Notice} (h : Fanned s seen)
    (honce : SenderOnce s) (hlisted : Listed s) (hsourced : Sourced s) (hbefore : s.phase ≠ .done)
    (huntouched : CallersUntouched s s') {ack : SendResult} {inbound : Inbound} {t : Task}
    {actions after : List Action}
    (hrouting : Routing s.task s.link s.receiverAlive ack
      ⟨inbound.response, s.link, s.read s.link⟩ t actions)
    (ht : s'.phase = .done ∨ s'.task = t)
    (hspent : s'.phase ≠ .done → ∀ w, .registered w ∈ seen → s'.senders w = 0)
    (hhistory : s'.history = s.history ++ (actions ++ after)) (hafter : Unheard after) :
    Fanned s' (seen ++ inbound.event.toList.map fun (key, data) => .event key data) := by
  have hentries (hlive : s'.phase ≠ .done) (key : String) (w : Nat) :
      entriesOf s'.task.watchers key w ≤ entriesOf s.task.watchers key w := by
    rw [ht.resolve_left hlive]
    exact hrouting.entriesOf key w
  have hpublishes (w : Nat) : publishedTo w (actions ++ after) = publishedTo w actions := by
    rw [publishedTo_append, hafter.published, List.append_nil]
  cases hevent : inbound.event with
  | none =>
      refine h.still huntouched hhistory (fun w => ?_) (by simp) (by simp)
        (by simpa using hspent) fun hlive => ⟨hbefore, fun key w hpos => .inl ?_⟩
      · rw [hpublishes, hrouting.publishes w, hevent]
      · exact hpos.trans_le (hentries hlive key w)
  | some event =>
      have hgrows : s.history <+: s'.history := ⟨_, hhistory.symm⟩
      refine h.event honce hlisted hsourced hbefore huntouched hgrows (fun w => ?_) hspent hentries
      rw [hhistory, publishedTo_append, hpublishes, hrouting.publishes w, hevent]

theorem Fanned.handled {s s' : State} {seen : List Notice} (h : Fanned s seen)
    (honce' : s'.phase ≠ .done → SenderOnce s') (hbefore : s.phase ≠ .done)
    (huntouched : CallersUntouched s s') {t t' : Task} {send : SendResult} {command : Command}
    {before actions after : List Action} {result : Except Error Unit}
    (hsent : command ∈ s.outstanding)
    (hhandling : Handling t s.link send command t' actions result)
    (ht : t.watchers = s.task.watchers) (ht' : s'.phase = .done ∨ s'.task.watchers = t'.watchers)
    (hspent : s'.phase ≠ .done → ∀ w, .registered w ∈ seen → s'.senders w = 0)
    (hhistory : s'.history =
      s.history ++ (before ++ .handled s.link command :: (actions ++ after)))
    (hquiet : Unheard before) (hafter : Unheard after) :
    Fanned s' (seen ++ (Action.notice (.handled s.link command)).toList) := by
  refine h.still huntouched hhistory (fun w => ?_) ?_ ?_ ?_ ?_
  · rw [publishedTo_append, hquiet.published, publishedTo, List.filterMap_cons]
    exact (hhandling.unheard.append hafter).published w
  · intro key notice hmem
    obtain ⟨w, rfl⟩ := notice_handled (Option.mem_toList.mp hmem)
    rfl
  · intro w hmem
    obtain ⟨id, key, rfl⟩ := registers_iff.mp (Option.mem_toList.mp hmem)
    exact ⟨s.link, id, key, by simp⟩
  · intro hlive w hmem
    rcases List.mem_append.mp hmem with hold | hnew
    · exact hspent hlive w hold
    · -- its sender is in the map now
      obtain ⟨id, key, rfl⟩ := registers_iff.mp (Option.mem_toList.mp hnew)
      obtain ⟨list, hlookup, hentry⟩ := hhandling.listed
      have hpos : 0 < entriesOf s'.task.watchers key w := by
        rw [ht'.resolve_left hlive]
        exact entriesOf_pos.mpr ⟨list, hlookup, _, hentry, rfl⟩
      have hle := honce' hlive key w
      omega
  · refine fun hlive => ⟨hbefore, fun key w hpos => ?_⟩
    have hle := hhandling.entriesOf key w
    rw [ht, ← ht'.resolve_left hlive] at hle
    cases hwatches : command.watches w with
    | false =>
        rw [hwatches] at hle
        exact .inl (by simpa using hpos.trans_le hle)
    | true =>
        refine .inr ⟨?_, fun hmem => ?_⟩
        · exact Option.mem_toList.mpr ((watches_iff s.link).mp hwatches)
        · have hnone := h.spent hbefore w hmem
          have hcount : 0 < s.outstanding.countP (·.watches w) :=
            List.countP_pos_iff.mpr ⟨command, hsent, hwatches⟩
          rw [State.senders] at hnone
          omega

theorem Fanned.moved {rmp : Rmp} {s s' : State} {event : TaskEvent} {seen : List Notice}
    (h : Fanned s seen) (hmove : TaskMove rmp s event s') (honce : SenderOnce s)
    (honce' : s'.phase ≠ .done → SenderOnce s') (hlisted : Listed s) (hsourced : Sourced s) :
    Fanned s' (seen ++ s.notices (.task event) s') := by
  have huntouched := hmove.untouched
  have hspent (hlive : s'.phase ≠ .done) (w : Nat) (hmem : .registered w ∈ seen) :
      s'.senders w = 0 := by
    have hle := hmove.flow.senders_le huntouched.watching hlive w
    rw [h.spent hmove.not_done w hmem] at hle
    exact Nat.le_zero.mp hle
  have hnotices {added : List Action} (hhistory : s'.history = s.history ++ added) :
      s.notices (.task event) s' = ((s.eventRead event).toList.map fun (key, data) =>
        .event key data) ++ added.filterMap Action.notice := by
    rw [State.notices, hhistory, List.drop_left]
  cases hmove.fans with
  | still hhistory hunheard hread hwatchers =>
      rw [hnotices hhistory, hread, hunheard.notices]
      refine h.still huntouched hhistory hunheard.published (by simp) (by simp)
        (by simpa using hspent) fun hlive => ⟨hmove.not_done, fun key w hpos => .inl ?_⟩
      rwa [hwatchers.resolve_left hlive] at hpos
  | @handled t t' send command before actions after result hsent hhandling ht ht' hhistory
      hbefore hafter hread =>
      have hnew : (before ++ .handled s.link command :: (actions ++ after)).filterMap
          Action.notice = (Action.notice (.handled s.link command)).toList := by
        rw [List.filterMap_append, hbefore.notices, List.nil_append, List.filterMap_cons,
          List.filterMap_append, hhandling.unheard.notices, hafter.notices]
        cases Action.notice (.handled s.link command) <;> rfl
      rw [hnotices hhistory, hread, hnew]
      exact h.handled honce' hmove.not_done huntouched hsent hhandling ht ht' hspent hhistory
        hbefore hafter
  | @routed ack inbound t actions after hrouting hread ht hhistory hafter =>
      have hquiet : (actions ++ after).filterMap Action.notice = [] := by
        rw [List.filterMap_append, hafter.notices, List.append_nil, List.filterMap_eq_nil_iff]
        intro action hmem
        cases hrouting.acts action hmem <;> rfl
      rw [hnotices hhistory, hread, hquiet, List.append_nil]
      exact h.routed honce hlisted hsourced hmove.not_done huntouched hrouting ht hspent hhistory
        hafter

theorem WatcherMove.known {s s' : State} {event : CallerEvent} (h : WatcherMove s event s')
    {w : Nat} {watching' : Watching} (hw : s'.watching w = some watching') :
    w = s.nextWatchId ∨ ∃ watching, s.watching w = some watching ∧
      watching.key = watching'.key ∧ (watching'.alive = true → watching.alive = true) := by
  have hupdate {other : Nat} {x x' : Watching} (hx : s.watching other = some x)
      (hwatching : s'.watching = Function.update s.watching other (some x'))
      (hkey : x.key = x'.key) (halive : x'.alive = true → x.alive = true) :
      ∃ watching, s.watching w = some watching ∧ watching.key = watching'.key ∧
        (watching'.alive = true → watching.alive = true) := by
    rw [hwatching] at hw
    by_cases hother : w = other
    · subst hother
      rw [Function.update_self] at hw
      obtain rfl := Option.some.inj hw
      exact ⟨x, hx, hkey, halive⟩
    · rw [Function.update_of_ne hother] at hw
      exact ⟨watching', hw, rfl, id⟩
  cases h with
  | idle hwatching =>
      rw [hwatching] at hw
      exact .inr ⟨watching', hw, rfl, id⟩
  | issued hwatching =>
      by_cases hother : w = s.nextWatchId
      · exact .inl hother
      · rw [hwatching, Function.update_of_ne hother] at hw
        exact .inr ⟨watching', hw, rfl, id⟩
  | submitted hx halive _ hwatching => exact .inr (hupdate hx hwatching rfl fun _ => halive)
  | resolved hx halive _ _ hwatching => exact .inr (hupdate hx hwatching rfl fun _ => halive)
  | vanished hx halive _ hwatching | dropped hx halive _ hwatching =>
      exact .inr (hupdate hx hwatching rfl (by simp))

theorem Fanned.issued {s s' : State} {event : CallerEvent} {seen : List Notice}
    (h : Fanned s seen) (hmove : CallerMove s event s') (hsourced : Sourced s) :
    Fanned s' seen := by
  have huntouched := hmove.untouched
  have hwatcher := hmove.watcherMove
  have hfresh := hsourced.toRegistered.fresh _ le_rfl
  have hunsent : publishedTo s.nextWatchId s.history = [] := by
    rw [List.eq_nil_iff_forall_not_mem]
    intro data hmem
    obtain ⟨id, key, -, watching, hw, -⟩ := hsourced.history _ (mem_publishedTo.mp hmem)
    simp [hfresh] at hw
  have hunread (key : String) : valuesFor s.nextWatchId key seen = [] := by
    refine valuesFor_eq_nil fun hmem => ?_
    obtain ⟨link, id, key, hhandled⟩ := h.registered _ hmem
    obtain ⟨-, watching, hw, -⟩ := hsourced.history _ hhandled
    simp [hfresh] at hw
  constructor
  · rw [huntouched.history]
    exact h.registered
  · intro hlive w hmem
    have hle := hwatcher.senders_le huntouched.task hfresh w
    rw [h.spent (huntouched.phase ▸ hlive) w hmem] at hle
    exact Nat.le_zero.mp hle
  · rw [huntouched.phase, huntouched.task]
    exact h.entered
  · intro w watching' hw
    rw [huntouched.history]
    rcases hwatcher.known hw with rfl | ⟨watching, hold, hkey, -⟩
    · rw [hunsent]
      exact List.nil_prefix
    · rw [← hkey]
      exact h.heard w watching hold
  · intro hlive w watching' hw halive hpos
    rw [huntouched.history]
    rcases hwatcher.known hw with rfl | ⟨watching, hold, hkey, hkept⟩
    · rw [hunsent, hunread]
    · rw [← hkey, huntouched.task] at hpos
      rw [← hkey]
      exact h.current (huntouched.phase ▸ hlive) w watching hold (hkept halive) hpos
  · intro hbound w watching' hw halive
    rw [huntouched.history]
    rcases hwatcher.known hw with rfl | ⟨watching, hold, hkey, hkept⟩
    · rw [hunsent, hunread]
    · rw [← hkey]
      exact h.kept (hwatcher.nextWatchId_le.trans hbound) w watching hold (hkept halive)

theorem Noticed.reachable {rmp : Rmp} {options : ConnectOptions} {s : State} {seen : List Notice}
    (h : Noticed rmp options s seen) : Reachable rmp options s :=
  Reaches.unobserved h

theorem Noticed.fanned {rmp : Rmp} {options : ConnectOptions} {s : State} {seen : List Notice}
    (h : Noticed rmp options s seen) : Fanned s seen := by
  refine Reaches.invariant (I := fun x => Fanned x.1 x.2) ?_ ?_ h
  · constructor <;> simp [State.initial, entriesOf, State.senders, publishedTo]
  · rintro ⟨s, seen⟩ ⟨s', seen'⟩ event hreach hfanned - hstep
    have hbefore : Reachable rmp options s := Noticed.reachable hreach
    have hafter : Reachable rmp options s' := Noticed.reachable (.next hreach trivial hstep)
    obtain ⟨hmoved, rfl⟩ := observing_eq_some.mp hstep
    cases step_move hmoved with
    | caller hmove =>
        exact (List.append_nil seen).symm ▸ hfanned.issued hmove hbefore.sourced
    | task hmove =>
        exact hfanned.moved hmove (hbefore.sender_once hmove.not_done) hafter.sender_once
          (hbefore.listed hmove.not_done) hbefore.sourced
    | server =>
        obtain ⟨h₁, h₂, h₃, h₄, h₅, h₆⟩ := hfanned
        exact (List.append_nil seen).symm ▸ ⟨h₁, h₂, h₃, h₄, h₅, h₆⟩

/-- A watcher is sent the events of its key that were read since its `Watch` was
handled: each once, in order, and all of them while it listens and ids are not reused. -/
theorem events_reach_watchers_once {rmp : Rmp} {options : ConnectOptions} {s : State}
    {seen : List Notice} (h : Noticed rmp options s seen) {w : Nat} {watching : Watching}
    (hw : s.watching w = some watching) :
    publishedTo w s.history <+: valuesFor w watching.key seen ∧
      (watching.alive = true → s.nextWatchId ≤ 2 ^ 64 + 1 →
        publishedTo w s.history = valuesFor w watching.key seen) := by
  have hfanned := h.fanned
  constructor
  · exact hfanned.heard w watching hw
  · intro halive hbound
    exact hfanned.kept hbound w watching hw halive

def sampleEvents : List Event :=
  sampleHandshake 0 [] ++
    [Event.task (.drain .sent), .server 0 (eventPacket "config" [1]), .task (.packet .sent),
      .task (.drain .sent), .caller (.watch "config"), .caller (.submitWatch 1),
      .task (.command .sent), .task (.drain .sent), .server 0 (eventPacket "config" [2]),
      .server 0 (eventPacket "other" [3]), .server 0 (eventPacket "config" [4]),
      .task (.packet .sent), .task (.drain .sent), .task (.packet .sent), .task (.drain .sent),
      .task (.packet .sent)]

theorem events_reach_watchers_once_sample :
    ∃ s seen, Noticed fixintRmp {} s seen ∧ publishedTo 1 s.history = [[2], [4]] ∧
      ∃ watching, s.watching 1 = some watching ∧
        publishedTo 1 s.history = valuesFor 1 watching.key seen := by
  obtain ⟨⟨s, seen⟩, hreach, hcheck⟩ := reaches_of_check
    (observing (step fixintRmp) State.notices) (.initial {}, []) sampleEvents
    (fun (s, _) => (s.watching 1).any Watching.alive &&
      decide (s.nextWatchId = 2 ∧ publishedTo 1 s.history = [[2], [4]])) (by decide +kernel)
  simp only [Bool.and_eq_true, decide_eq_true_eq, Option.any_eq_true] at hcheck
  obtain ⟨⟨watching, hw, halive⟩, hnext, hsent⟩ := hcheck
  have hbound : s.nextWatchId ≤ 2 ^ 64 + 1 := by
    rw [hnext]
    decide
  exact ⟨s, seen, hreach, hsent, watching, hw,
    (events_reach_watchers_once hreach hw).2 halive hbound⟩

end Tarant.Connection
