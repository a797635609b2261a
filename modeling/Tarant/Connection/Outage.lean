import Tarant.Connection.Records

/-!
# Outages

Between the loss of a link and the next one the task waits, takes at most one command
off the channel for each attempt to connect, and keeps what it takes in a queue of
bounded length.  The delay doubles with each failed attempt, up to a limit.
-/

namespace Tarant.Connection

open Foundation

/-! ## What an outage is -/

def Phase.delay? : Phase → Option Nat
  | .backoff delay => some delay
  | phase => phase.attempt.join

def Phase.resting : Phase → Bool
  | .backoff _ => true
  | _ => false

/-- The delay after so many failed attempts; the first one is not limited. -/
def backoffDelay (least most : Nat) : Nat → Nat
  | 0 => least
  | failures + 1 => min (least * 2 ^ (failures + 1)) most

/-- What was deferred when the link was lost, what was taken since, and how many attempts
failed. -/
structure Outage where
  kept : List Command := []
  taken : List Command := []
  failures : Nat := 0

def Outage.next (o : Outage) (s : State) (event : Event) (s' : State) : Outage :=
  match s.phase.delay?, event with
  | none, _ => { kept := s'.task.deferred }
  | some _, .task .reconnectCommand => { o with taken := o.taken ++ s.channel.head?.toList }
  | some _, .task _ => if s'.phase.resting then { o with failures := o.failures + 1 } else o
  | some _, _ => o

def outageStep (rmp : Rmp) : State × Outage → Event → Option (State × Outage)
  | (s, o), event => (step rmp s event).map fun s' => (s', o.next s event s')

def Outages (rmp : Rmp) (options : ConnectOptions) (s : State) (o : Outage) : Prop :=
  Reaches (outageStep rmp) anyStep (State.initial options, {}) (s, o)

/-! ## The delay -/

theorem backoffDelay_succ (least most failures : Nat) :
    backoffDelay least most (failures + 1) =
      min (backoffDelay least most failures * 2) most := by
  cases failures with
  | zero => simp [backoffDelay]
  | succ failures =>
      simp only [backoffDelay]
      rw [Nat.pow_succ 2 (failures + 1), ← Nat.mul_assoc]
      omega

/-! ## A queue with a limit -/

theorem take_concat_full {α : Type*} {n : Nat} {l : List α} (h : n ≤ (l.take n).length) (x : α) :
    (l ++ [x]).take n = l.take n ∧ (l ++ [x]).drop n = l.drop n ++ [x] := by
  have hfull : n ≤ l.length := h.trans (List.length_take_le' n l)
  exact ⟨List.take_append_of_le_length hfull, List.drop_append_of_le_length hfull⟩

theorem take_concat_room {α : Type*} {n : Nat} {l : List α} (h : (l.take n).length < n) (x : α) :
    (l ++ [x]).take n = l.take n ++ [x] ∧ (l ++ [x]).drop n = [] := by
  have hroom : l.length < n := by
    rw [List.length_take] at h
    omega
  constructor
  · rw [List.take_of_length_le hroom.le, List.take_of_length_le]
    simpa using hroom
  · apply List.drop_of_length_le
    simpa using hroom

/-! ## Steps of an outage -/

inductive OutageMove (s : State) : TaskEvent → State → Prop where
  /-- There is none afterwards. -/
  | served {event : TaskEvent} {s' : State} (hafter : s'.phase.delay? = none)
      (hdeferred : s'.task.deferred.length ≤ s.task.deferred.length) : OutageMove s event s'
  | lost {event : TaskEvent} {s' : State} {least most : Nat} (hbefore : s.phase.delay? = none)
      (hpolicy : s.options.reconnect = .backoff least most) (hphase : s'.phase = .backoff least)
      (hdeferred : s'.task.deferred = s.task.deferred) : OutageMove s event s'
  /-- The delay passes, or the attempt goes on. -/
  | tried {event : TaskEvent} {s' : State} {delay : Nat} (hbefore : s.phase.delay? = some delay)
      (hafter : s'.phase.delay? = some delay) (hresting : s'.phase.resting = false)
      (htask : s'.task = s.task) (hevent : event ≠ .reconnectCommand) : OutageMove s event s'
  | taken {s' : State} {delay : Nat} {command : Command} {rest : List Command}
      (hbefore : s.phase = .backoff delay) (hchannel : s.channel = command :: rest)
      (hafter : s'.phase = .connecting (some delay))
      (htask : s'.task = (s.task.defer s.link command).1)
      (hhistory : s'.history = s.history ++ .took command :: (s.task.defer s.link command).2) :
      OutageMove s .reconnectCommand s'
  | failed {event : TaskEvent} {s' : State} {delay least most : Nat}
      (hbefore : s.phase.delay? = some delay) (hresting : s.phase.resting = false)
      (hpolicy : s.options.reconnect = .backoff least most)
      (hafter : s'.phase = .backoff (min (delay * 2) most)) (htask : s'.task = s.task)
      (hevent : event ≠ .reconnectCommand) : OutageMove s event s'

theorem lose_outage {s u : State} {event : TaskEvent} (hphase : s.phase.delay? = none)
    (hoptions : u.options = s.options) (hdeferred : u.task.deferred = s.task.deferred) :
    OutageMove s event u.lose := by
  unfold State.lose
  split
  next t failed hfail =>
    obtain rfl : (u.task.failLink u.link).1 = t := by rw [hfail]
    split
    next least most hpolicy =>
      exact .lost hphase (hoptions ▸ hpolicy) rfl hdeferred
    next => exact .served rfl (Nat.zero_le _)

theorem delay?_of_attempt {phase : Phase} {delay : Option Nat} (h : phase.attempt = some delay) :
    phase.delay? = delay ∧ phase.resting = false := by
  cases phase <;> cases h <;> exact ⟨rfl, rfl⟩

theorem attempt_outage {s s' : State} {event : TaskEvent} {delay : Option Nat} {phase : Phase}
    (hattempt : s.phase.attempt = some delay)
    (hafter : Phase.afterFailure s.options delay = some phase) (hphase : s'.phase = phase)
    (htask : s'.task = s.task) (hevent : event ≠ .reconnectCommand) : OutageMove s event s' := by
  obtain ⟨hbefore, hresting⟩ := delay?_of_attempt hattempt
  cases delay with
  | none =>
      cases hafter
      exact .served (by rw [hphase]; rfl) (by rw [htask])
  | some delay =>
      simp only [Phase.afterFailure] at hafter
      split at hafter
      next least most hpolicy =>
        cases hafter
        exact .failed hbefore hresting hpolicy hphase htask hevent
      · cases hafter

theorem attempted_outage {s s' : State} {event : TaskEvent} {delay : Option Nat}
    (hbefore : s.phase.attempt = some delay) (hafter : s'.phase.attempt = some delay)
    (htask : s'.task = s.task) (hevent : event ≠ .reconnectCommand) : OutageMove s event s' := by
  obtain ⟨hdelay, hresting⟩ := delay?_of_attempt hafter
  cases delay with
  | none => exact .served hdelay (by rw [htask])
  | some delay => exact .tried (delay?_of_attempt hbefore).1 hdelay hresting htask hevent

theorem TaskMove.outage {rmp : Rmp} {s s' : State} {event : TaskEvent}
    (h : TaskMove rmp s event s') : OutageMove s event s' := by
  cases h with
  | drained => exact .served rfl le_rfl
  | replayed hphase hdeferred hhandle | replayFailed hphase hdeferred hhandle =>
      refine .served rfl ?_
      have hrest := (handling_of_eq hhandle).deferred_eq
      simp only [State.perform, Task.failLink, Task.failPending, hrest, hdeferred]
      exact Nat.le_succ _
  | handled hphase hchannel hclose hhandle =>
      exact .served rfl (congrArg List.length (handling_of_eq hhandle).deferred_eq).le
  | handledLost hphase hchannel hclose hhandle =>
      exact lose_outage (by rw [hphase]; rfl) rfl (handling_of_eq hhandle).deferred_eq
  | received =>
      exact .served rfl (congrArg List.length (handleResponse_routing _ _ _ _ _).deferred_eq).le
  | linkLost hphase => exact lose_outage (by rw [hphase]; rfl) rfl rfl
  | closeCommand | channelClosed | receivedLast | closeWhileDown | channelClosedWhileDown =>
      exact .served rfl (Nat.zero_le _)
  | woke hphase => exact .tried (by rw [hphase]; rfl) rfl rfl rfl (by simp)
  | deferred hphase hchannel hclose =>
      exact .taken hphase hchannel rfl rfl (by simp [State.perform, State.takeCommand])
  | @connected delay version send phase hphase hafter =>
      rcases afterSend_cases hafter with ⟨-, rfl⟩ | hfailed
      · exact attempted_outage (by rw [hphase]; rfl) (greeted_phase s delay version).2.1 rfl
          (by simp)
      · exact attempt_outage (by rw [hphase]; rfl) hfailed rfl rfl (by simp)
  | authenticated hphase huser hafter =>
      rcases afterSend_cases hafter with ⟨-, rfl⟩ | hfailed
      · exact attempted_outage (by rw [hphase]; rfl) rfl rfl (by simp)
      · exact attempt_outage (by rw [hphase]; rfl) hfailed rfl rfl (by simp)
  | attemptFailed hattempt hafter => exact attempt_outage hattempt hafter rfl rfl (by simp)
  | replyRejected hsocket hattempt hafter =>
      exact attempt_outage hattempt hafter rfl rfl (by simp)
  | idAccepted hphase => exact attempted_outage (by rw [hphase]; rfl) rfl rfl (by simp)
  | spawned | reconnected => exact .served rfl le_rfl

def Persistent (s : State) : Prop :=
  ∀ delay, s.phase.delay? = some delay → ∃ least most, s.options.reconnect = .backoff least most

theorem Reachable.persistent {rmp : Rmp} {options : ConnectOptions} {s : State}
    (h : Reachable rmp options s) : Persistent s := by
  refine Reaches.invariant (I := Persistent) ?_ ?_ h
  · intro delay hdelay
    cases hdelay
  · intro s s' event _ hpolicy _ hstep
    cases step_move hstep with
    | caller hmove =>
        rw [Persistent, hmove.untouched.phase, hmove.untouched.options]
        exact hpolicy
    | task hmove =>
        rw [Persistent, hmove.untouched.options]
        intro delay hdelay
        cases hmove.outage with
        | served hafter =>
            rw [hafter] at hdelay
            cases hdelay
        | lost hbefore hreconnect => exact ⟨_, _, hreconnect⟩
        | tried hbefore => exact hpolicy _ hbefore
        | taken hbefore => exact hpolicy _ (by rw [hbefore]; rfl)
        | failed hbefore hresting hreconnect => exact ⟨_, _, hreconnect⟩
    | server => exact hpolicy

theorem Persistent.retry {s t : State} {delay : Option Nat} (h : Persistent s)
    (hattempt : s.phase.attempt = some delay) (hoptions : t.options = s.options) :
    ∃ phase, Phase.afterFailure s.options delay = some phase ∧
      t.retry delay = some { t with phase := phase } := by
  cases delay with
  | none => exact ⟨.done, rfl, rfl⟩
  | some delay =>
      obtain ⟨least, most, hpolicy⟩ := h delay (delay?_of_attempt hattempt).1
      exact ⟨.backoff (min (delay * 2) most), by simp only [Phase.afterFailure, hpolicy],
        by simp only [State.retry, hoptions, hpolicy]⟩

/-! ## Runs -/

structure Outage.Running (o : Outage) (s : State) (delay : Nat) : Prop where
  policy : ∃ least most, s.options.reconnect = .backoff least most ∧
    delay = backoffDelay least most o.failures
  deferred : s.task.deferred = (o.kept ++ o.taken).take Task.maxDeferred
  refused : ∀ command ∈ (o.kept ++ o.taken).drop Task.maxDeferred,
    ∀ ticket ∈ command.reply?, ∃ link, .answered link ticket (.error .closed) ∈ s.history
  /-- One command for each attempt, the one that is going on included. -/
  paced : o.taken.length + s.phase.resting.toNat ≤ o.failures + 1

structure Outage.Accounts (o : Outage) (s : State) : Prop where
  bounded : s.task.deferred.length ≤ Task.maxDeferred
  running : ∀ delay, s.phase.delay? = some delay → o.Running s delay

namespace Outage

variable {o : Outage} {s s' : State} {delay : Nat}

theorem Running.defer (h : o.Running s delay) (command : Command) :
    ((s.task.defer s.link command).1.deferred =
        (o.kept ++ (o.taken ++ [command])).take Task.maxDeferred) ∧
      ∀ refused ∈ (o.kept ++ (o.taken ++ [command])).drop Task.maxDeferred,
        ∀ ticket ∈ refused.reply?, (∃ link, .answered link ticket (.error .closed) ∈ s.history) ∨
          .answered s.link ticket (.error .closed) ∈ (s.task.defer s.link command).2 := by
  rw [← List.append_assoc, Task.defer]
  split
  next hfull =>
    obtain ⟨htake, hdrop⟩ := take_concat_full (h.deferred ▸ hfull) command
    rw [htake, hdrop]
    refine ⟨h.deferred, fun refused hmem ticket hticket => ?_⟩
    rcases List.mem_append.mp hmem with hold | hnew
    · exact .inl (h.refused refused hold ticket hticket)
    · obtain rfl := List.mem_singleton.mp hnew
      exact .inr (List.mem_map_of_mem (Option.mem_toList.mpr hticket))
  next hroom =>
    obtain ⟨htake, hdrop⟩ := take_concat_room (h.deferred ▸ not_le.mp hroom) command
    rw [htake, hdrop]
    refine ⟨congrArg (· ++ [command]) h.deferred, fun refused hmem => ?_⟩
    exact absurd hmem List.not_mem_nil

theorem Running.take (h : o.Running s delay) {command : Command} (hbefore : s.phase.resting = true)
    (hafter : s'.phase.resting = false) (htask : s'.task = (s.task.defer s.link command).1)
    (hhistory : s'.history = s.history ++ .took command :: (s.task.defer s.link command).2)
    (hoptions : s'.options = s.options) :
    Running { o with taken := o.taken ++ [command] } s' delay := by
  obtain ⟨hdeferred, hrefused⟩ := h.defer command
  have hpaced := h.paced
  rw [hbefore] at hpaced
  constructor
  · rw [hoptions]
    exact h.policy
  · rw [htask]
    exact hdeferred
  · intro refused hmem ticket hticket
    rw [hhistory]
    rcases hrefused refused hmem ticket hticket with ⟨link, hanswered⟩ | hanswered
    · exact ⟨link, List.mem_append_left _ hanswered⟩
    · exact ⟨s.link, List.mem_append_right _ (List.mem_cons_of_mem _ hanswered)⟩
  · rw [hafter, List.length_append]
    exact hpaced

theorem Running.go (h : o.Running s delay) {o' : Outage} {delay' : Nat} (hkept : o'.kept = o.kept)
    (htaken : o'.taken = o.taken)
    (hpolicy : ∃ least most, s.options.reconnect = .backoff least most ∧
      delay' = backoffDelay least most o'.failures)
    (hpaced : o.taken.length + s'.phase.resting.toNat ≤ o'.failures + 1)
    (htask : s'.task = s.task) (hhistory : ∃ actions, s'.history = s.history ++ actions)
    (hoptions : s'.options = s.options) : o'.Running s' delay' := by
  obtain ⟨actions, hhistory⟩ := hhistory
  constructor
  · rw [hoptions]
    exact hpolicy
  · rw [htask, hkept, htaken]
    exact h.deferred
  · rw [hkept, htaken, hhistory]
    intro refused hmem ticket hticket
    obtain ⟨link, hanswered⟩ := h.refused refused hmem ticket hticket
    exact ⟨link, List.mem_append_left _ hanswered⟩
  · rw [htaken]
    exact hpaced

theorem Accounts.moved (h : o.Accounts s) {rmp : Rmp} {event : TaskEvent}
    (hmove : TaskMove rmp s event s') : (o.next s (.task event) s').Accounts s' := by
  have hoptions := hmove.untouched.options
  obtain ⟨actions, hhistory, -⟩ := hmove.recorded
  cases hmove.outage with
  | served hafter hdeferred =>
      exact ⟨hdeferred.trans h.bounded, fun delay hdelay => by rw [hafter] at hdelay; cases hdelay⟩
  | @lost _ _ least most hbefore hpolicy hphase hdeferred =>
      simp only [Outage.next, hbefore]
      have hlength : s'.task.deferred.length ≤ Task.maxDeferred := hdeferred ▸ h.bounded
      refine ⟨hlength, fun delay hdelay => ?_⟩
      rw [hphase] at hdelay
      obtain rfl := Option.some.inj hdelay
      constructor
      · exact ⟨least, most, hoptions ▸ hpolicy, rfl⟩
      · rw [List.append_nil, List.take_of_length_le hlength]
      · rw [List.append_nil, List.drop_of_length_le hlength]
        simp
      · rw [hphase]
        exact le_rfl
  | @tried _ _ delay hbefore hafter hresting htask hevent =>
      have hrunning := h.running delay hbefore
      have hnext : o.next s (.task event) s' = o := by
        cases event <;> simp_all [Outage.next]
      rw [hnext]
      refine ⟨htask ▸ h.bounded, fun delay' hdelay => ?_⟩
      obtain rfl := Option.some.inj (hafter.symm.trans hdelay)
      refine hrunning.go rfl rfl hrunning.policy ?_ htask ⟨actions, hhistory⟩ hoptions
      rw [hresting]
      exact (Nat.le_add_right _ _).trans hrunning.paced
  | @taken _ delay command rest hbefore hchannel hafter htask hhistory' =>
      have hrunning := h.running delay (by rw [hbefore]; rfl)
      have hnext : o.next s (.task .reconnectCommand) s' =
          { o with taken := o.taken ++ [command] } := by
        simp [Outage.next, hbefore, hchannel, Phase.delay?]
      have htook := hrunning.take (by rw [hbefore]; rfl) (by rw [hafter]; rfl) htask hhistory'
        hoptions
      rw [hnext]
      refine ⟨?_, fun delay' hdelay => ?_⟩
      · rw [htook.deferred]
        exact List.length_take_le _ _
      · rw [hafter] at hdelay
        obtain rfl := Option.some.inj hdelay
        exact htook
  | @failed _ _ delay least most hbefore hresting hpolicy hafter htask hevent =>
      have hrunning := h.running delay hbefore
      have hnext : o.next s (.task event) s' = { o with failures := o.failures + 1 } := by
        cases event <;> simp_all [Outage.next, Phase.resting]
      rw [hnext]
      refine ⟨htask ▸ h.bounded, fun delay' hdelay => ?_⟩
      rw [hafter] at hdelay
      obtain rfl := Option.some.inj hdelay
      obtain ⟨least', most', hpolicy', hdelay⟩ := hrunning.policy
      rw [hpolicy] at hpolicy'
      obtain ⟨rfl, rfl⟩ := Reconnect.backoff.inj hpolicy'
      refine hrunning.go rfl rfl ⟨least, most, hpolicy, ?_⟩ ?_ htask ⟨actions, hhistory⟩ hoptions
      · rw [backoffDelay_succ, ← hdelay]
      · have hpaced := hrunning.paced
        rw [hresting] at hpaced
        rw [hafter]
        simpa [Phase.resting] using hpaced

theorem Accounts.step (h : o.Accounts s) {rmp : Rmp} {event : Event}
    (hstep : Connection.step rmp s event = some s') : (o.next s event s').Accounts s' := by
  have hstill (hevent : ∀ event', event ≠ .task event') (hoptions : s'.options = s.options)
      (htask : s'.task = s.task) (hphase : s'.phase = s.phase) (hhistory : s'.history = s.history) :
      (o.next s event s').Accounts s' := by
    refine ⟨htask ▸ h.bounded, fun delay hdelay => ?_⟩
    rw [hphase] at hdelay
    have hnext : o.next s event s' = o := by
      cases event <;> simp_all [Outage.next]
    have hrunning := h.running delay hdelay
    rw [hnext]
    refine hrunning.go rfl rfl hrunning.policy ?_ htask ⟨[], ?_⟩ hoptions
    · rw [hphase]
      exact hrunning.paced
    · rw [hhistory, List.append_nil]
  cases step_move hstep with
  | caller hmove =>
      have huntouched := hmove.untouched
      exact hstill (by simp) huntouched.options huntouched.task huntouched.phase
        huntouched.history
  | task hmove => exact h.moved hmove
  | server => exact hstill (by simp) rfl rfl rfl rfl

end Outage

theorem fireNow_channel_le (s : State) (stream : Option Nat) (ty : Nat) (body : List (Nat × Field))
    (h : s.channel.length ≤ channelCapacity) :
    (s.fireNow stream ty body).channel.length ≤ channelCapacity := by
  unfold State.fireNow
  split
  next hroom =>
    simp only [State.hasRoom, Bool.and_eq_true, decide_eq_true_eq] at hroom
    simpa using hroom.2
  next => exact h

theorem CallerMove.channel_le {s s' : State} {event : CallerEvent} (hmove : CallerMove s event s')
    (h : s.channel.length ≤ channelCapacity) : s'.channel.length ≤ channelCapacity := by
  have hsend (hroom : s.hasRoom = true) (command : Command) :
      (s.channel ++ [command]).length ≤ channelCapacity := by
    simp only [State.hasRoom, Bool.and_eq_true, decide_eq_true_eq] at hroom
    simpa using hroom.2
  cases hmove with
  | submitted _ _ _ hroom | watchSubmitted _ _ _ hroom | watcherDropped _ _ _ hroom
  | closeSent hroom => exact hsend hroom _
  | succeeded =>
      obtain ⟨streams, heq⟩ := settleStream_eq _ _ _
      rw [heq]
      exact h
  | fired hbase => cases hbase <;> exact fireNow_channel_le _ _ _ _ h
  | _ => exact h

theorem lose_channel (s : State) : s.lose.channel.length ≤ s.channel.length := by
  simp only [State.lose]
  split
  · exact le_rfl
  · exact Nat.zero_le _

theorem TaskMove.channel_le {rmp : Rmp} {s s' : State} {event : TaskEvent}
    (hmove : TaskMove rmp s event s') : s'.channel.length ≤ s.channel.length := by
  cases hmove with
  | handled _ hchannel | deferred _ hchannel =>
      rw [hchannel]
      exact Nat.le_succ _
  | handledLost _ hchannel =>
      rw [hchannel]
      exact (lose_channel _).trans (Nat.le_succ _)
  | linkLost => exact lose_channel s
  | closeCommand | channelClosed | receivedLast | closeWhileDown | channelClosedWhileDown =>
      exact Nat.zero_le _
  | _ => exact le_rfl

theorem step_options {rmp : Rmp} {s s' : State} {event : Event}
    (h : step rmp s event = some s') : s'.options = s.options := by
  cases step_move h with
  | caller hmove => exact hmove.untouched.options
  | task hmove => exact hmove.untouched.options
  | server => rfl

theorem step_channel {rmp : Rmp} {s s' : State} {event : Event} (hstep : step rmp s event = some s')
    (h : s.channel.length ≤ channelCapacity) : s'.channel.length ≤ channelCapacity := by
  cases step_move hstep with
  | caller hmove => exact hmove.channel_le h
  | task hmove => exact hmove.channel_le.trans h
  | server => exact h

theorem Outages.accounts {rmp : Rmp} {options : ConnectOptions} {s : State} {o : Outage}
    (h : Outages rmp options s o) :
    s.options = options ∧ s.channel.length ≤ channelCapacity ∧ o.Accounts s := by
  refine Reaches.invariant (I := fun x => x.1.options = options ∧
    x.1.channel.length ≤ channelCapacity ∧ x.2.Accounts x.1) ?_ ?_ h
  · exact ⟨rfl, Nat.zero_le _, Nat.zero_le _, fun delay hdelay => by cases hdelay⟩
  · rintro ⟨s, o⟩ ⟨s', o'⟩ event - ⟨hoptions, hchannel, haccounts⟩ - hstep
    obtain ⟨s₁, hmoved, heq⟩ := Option.map_eq_some_iff.mp hstep
    obtain ⟨rfl, rfl⟩ := Prod.mk.inj heq
    exact ⟨(step_options hmoved).trans hoptions, step_channel hmoved hchannel,
      haccounts.step hmoved⟩

/-- Both queues are bounded.  While a link is being replaced the delay is the least one
doubled for each failed attempt, up to the limit; what is deferred is what was deferred
before and what was taken since, in order, as far as there is room, and the requests for
which there is none are answered; but only one command is taken for each attempt, so that
there is room for all before thousands of attempts have failed. -/
theorem outage_accounts {rmp : Rmp} {options : ConnectOptions} {s : State} {o : Outage}
    (h : Outages rmp options s o) :
    s.channel.length ≤ channelCapacity ∧ s.task.deferred.length ≤ Task.maxDeferred ∧
    ∀ delay, s.phase.delay? = some delay →
      (∃ least most, options.reconnect = .backoff least most ∧
        delay = backoffDelay least most o.failures) ∧
      s.task.deferred = (o.kept ++ o.taken).take Task.maxDeferred ∧
      (∀ command ∈ (o.kept ++ o.taken).drop Task.maxDeferred, ∀ ticket ∈ command.reply?,
        ∃ link, .answered link ticket (.error .closed) ∈ s.history) ∧
      o.taken.length ≤ o.failures + 1 ∧
      (o.kept.length + o.failures < Task.maxDeferred →
        s.task.deferred = o.kept ++ o.taken) := by
  obtain ⟨rfl, hchannel, haccounts⟩ := h.accounts
  refine ⟨hchannel, haccounts.bounded, fun delay hdelay => ?_⟩
  have hrunning := haccounts.running delay hdelay
  have hpaced : o.taken.length ≤ o.failures + 1 := (Nat.le_add_right _ _).trans hrunning.paced
  refine ⟨hrunning.policy, hrunning.deferred, hrunning.refused, hpaced, fun hroom => ?_⟩
  rw [hrunning.deferred, List.take_of_length_le]
  rw [List.length_append]
  omega

def sampleOutage : List Event :=
  sampleHandshake 0 [] ++
    [Event.task (.drain .sent), .caller (.watch "config"), .caller (.submitWatch 1),
      .task (.linkError .closed), .task .reconnectCommand, .task (.handshakeFailed .closed),
      .task .wake, .task (.handshakeFailed .closed)]

theorem outage_accounts_sample :
    ∃ s o, Outages fixintRmp { reconnect := .backoff 100 350 } s o ∧ s.phase = .backoff 350 ∧
      o.failures = 2 ∧ s.task.deferred = [.watch 1 "config" 1] := by
  obtain ⟨⟨s, o⟩, hreach, hcheck⟩ := reaches_of_check (outageStep fixintRmp)
    (.initial { reconnect := .backoff 100 350 }, {}) sampleOutage
    (fun (s, o) => decide (s.phase = .backoff 350 ∧ o.failures = 2 ∧ o.kept = [] ∧
      o.taken = [.watch 1 "config" 1])) (by decide +kernel)
  obtain ⟨hphase, hfailures, hkept, htaken⟩ := of_decide_eq_true hcheck
  have hdeferred := ((outage_accounts hreach).2.2 350 (by rw [hphase]; rfl)).2.2.2.2
    (by rw [hkept, hfailures]; decide)
  rw [hkept, htaken] at hdeferred
  exact ⟨s, o, hreach, hphase, hfailures, hdeferred⟩

end Tarant.Connection
