import Tarant.Connection.Provenance

/-!
# One outcome per request

A request taken off the channel is deferred, pending under its own sync, or
answered, and never two of these at once.  Nothing is left when the task ends.
-/

namespace Tarant.Connection

open Foundation

/-! ## Without a link nothing is pending -/

structure Offline (s : State) : Prop where
  pending : s.phase.up = false → s.task.pending = ∅
  deferred : s.phase = .done ∨ s.phase.attempt = some none → s.task.deferred = []

theorem Offline.of_up {s : State} (hup : s.phase.up = true) : Offline s where
  pending h := by simp [hup] at h
  deferred h := by
    rcases h with h | h
    · simp [h, Phase.up] at hup
    · cases hphase : s.phase <;> simp_all [Phase.up, Phase.attempt]

theorem Offline.of_done {s : State} (hpending : s.task.pending = ∅)
    (hdeferred : s.task.deferred = []) : Offline s :=
  ⟨fun _ => hpending, fun _ => hdeferred⟩

theorem closeDown_offline (s : State) (cause : CloseCause) : Offline (s.closeDown cause) :=
  .of_done rfl rfl

theorem giveUp_offline {s : State} (h : s.task.pending = ∅) : Offline s.giveUp :=
  .of_done h rfl

theorem lose_offline (s : State) : Offline s.lose := by
  simp only [State.lose]
  split
  · exact ⟨fun _ => rfl, by simp [State.perform, Phase.attempt]⟩
  · exact giveUp_offline rfl

theorem Offline.failed {s s' : State} {delay : Option Nat} {phase : Phase} (h : Offline s)
    (hattempt : s.phase.attempt = some delay)
    (hafter : Phase.afterFailure s.options delay = some phase) (htask : s'.task = s.task)
    (hphase : s'.phase = phase) : Offline s' := by
  have hpending : s.task.pending = ∅ := by
    apply h.pending
    cases hs : s.phase <;> simp_all [Phase.up, Phase.attempt]
  refine ⟨fun _ => htask ▸ hpending, fun hdone => ?_⟩
  rw [htask]
  apply h.deferred
  cases delay with
  | none => exact .inr hattempt
  | some delay =>
      rw [hphase] at hdone
      simp only [Phase.afterFailure] at hafter
      split at hafter
      · cases hafter
        simp [Phase.attempt] at hdone
      · contradiction

theorem Offline.of_attempt {s s' : State} {delay : Option Nat} (h : Offline s)
    (hbefore : s.phase.attempt = some delay) (hafter : s'.phase.attempt = some delay)
    (htask : s'.task = s.task) : Offline s' where
  pending _ := by
    rw [htask]
    apply h.pending
    cases hs : s.phase <;> simp_all [Phase.up, Phase.attempt]
  deferred hdone := by
    rw [htask]
    apply h.deferred
    rcases hdone with hdone | hfirst
    · simp [hdone, Phase.attempt] at hafter
    · exact .inr (hbefore.trans (hafter.symm.trans hfirst))

theorem Offline.moved {rmp : Rmp} {s s' : State} {event : TaskEvent} (h : Offline s)
    (hmove : TaskMove rmp s event s') : Offline s' := by
  cases hmove with
  | drained | replayed | replayFailed | handled | received | spawned | reconnected =>
      exact .of_up rfl
  | handledLost | linkLost => exact lose_offline _
  | closeCommand | channelClosed | receivedLast => exact closeDown_offline _ _
  | closeWhileDown hphase | channelClosedWhileDown hphase =>
      exact giveUp_offline (h.pending (by rw [hphase]; rfl))
  | woke hphase =>
      exact ⟨fun _ => h.pending (by rw [hphase]; rfl), by simp [Phase.attempt]⟩
  | @deferred command rest delay hphase =>
      refine ⟨fun _ => ?_, by simp [State.perform, Phase.attempt]⟩
      have hpending := h.pending (by rw [hphase]; rfl)
      simp only [State.perform, Task.defer]
      split <;> exact hpending
  | @connected delay version send phase hphase hafter =>
      have hattempt : s.phase.attempt = some delay := by rw [hphase]; rfl
      rcases afterSend_cases hafter with ⟨-, rfl⟩ | hfailed
      · exact h.of_attempt hattempt (greeted_phase s delay version).2.1 rfl
      · exact h.failed hattempt hfailed rfl rfl
  | @authenticated delay socket version user scramble send phase hphase huser hafter =>
      have hattempt : s.phase.attempt = some delay := by rw [hphase]; rfl
      rcases afterSend_cases hafter with ⟨-, rfl⟩ | hfailed
      · exact h.of_attempt hattempt rfl rfl
      · exact h.failed hattempt hfailed rfl rfl
  | attemptFailed hattempt hafter => exact h.failed hattempt hafter rfl rfl
  | replyRejected hsocket hattempt hafter => exact h.failed hattempt hafter rfl rfl
  | idAccepted hphase => exact h.of_attempt (by rw [hphase]; rfl) rfl rfl

theorem Offline.untouched {s s' : State} (h : Offline s) (hphase : s'.phase = s.phase)
    (htask : s'.task = s.task) : Offline s' where
  pending := by
    rw [hphase, htask]
    exact h.pending
  deferred := by
    rw [hphase, htask]
    exact h.deferred

theorem Reachable.offline {rmp : Rmp} {options : ConnectOptions} {s : State}
    (h : Reachable rmp options s) : Offline s := by
  refine Reaches.invariant (.of_done rfl rfl) ?_ h
  intro s s' event _ hoffline _ hstep
  cases step_move hstep with
  | caller hmove => exact hoffline.untouched hmove.untouched.phase hmove.untouched.task
  | task hmove => exact hoffline.moved hmove
  | server => exact hoffline.untouched rfl rfl

/-! ## Tickets and syncs -/

theorem syncOf_injOn {bound n m : Nat} (hbound : bound ≤ 2 ^ 64 + 1) (hn : 0 < n ∧ n < bound)
    (hm : 0 < m ∧ m < bound) (h : syncOf n = syncOf m) : n = m := by
  unfold syncOf at h
  omega

theorem inPending_pos {t : Task} {sync : Nat} {pending : Pending}
    (h : t.pending.lookup sync = some pending) : 0 < t.inPending pending.ticket := by
  rw [Task.inPending, List.countP_pos_iff]
  exact ⟨⟨sync, pending⟩, mem_entries_of_lookup h, by simp⟩

theorem Ledger.takes_le_one {s : State} (h : Ledger s) (n : Nat) :
    s.channel.countP (·.carries n) + s.history.countP (Action.takes n) ≤ 1 := by
  have hsource := h.source n
  have hknown : s.known n ≤ 1 := Bool.toNat_le _
  omega

theorem Ledger.writes_le_one {s : State} (h : Ledger s) (n : Nat) :
    s.history.countP (Action.writes n) ≤ 1 := by
  have honce := h.once n
  have htakes := h.takes_le_one n
  omega

theorem Ledger.takesRequest_eq_one {s : State} {sync : Nat} {packet : Packet} {n : Nat}
    {pushes : Option Nat} (h : Ledger s)
    (htook : .took (.request sync packet n pushes) ∈ s.history) :
    s.history.countP (Action.takesRequest n) = 1 := by
  have hle := h.takes_le_one n
  have hrequest := countP_takesRequest_le_takes n s.history
  have hpos : 0 < s.history.countP (Action.takesRequest n) :=
    List.countP_pos_iff.mpr ⟨_, htook, by simp [Action.takesRequest, Command.awaits]⟩
  omega

theorem Sourced.pending_lookup {s : State} {sync : Nat} {packet : Packet} {n : Nat}
    {pushes : Option Nat} (h : Sourced s)
    (htook : .took (.request sync packet n pushes) ∈ s.history)
    (hpending : 0 < s.task.inPending n) :
    s.task.pending.lookup sync = some ⟨n, pushes⟩ := by
  obtain ⟨hsync, call, hcall, hpacket, hpushes⟩ := h.history _ htook
  obtain ⟨⟨key, entry⟩, hmem, hticket⟩ := List.countP_pos_iff.mp hpending
  obtain ⟨packet', hkey, call', hcall', -, hpushes'⟩ := h.task.pending _ hmem
  simp only [beq_iff_eq] at hticket hkey hcall' hpushes'
  subst hticket
  have hsame : call' = call := Option.mem_unique hcall' hcall
  obtain ⟨ticket, channel⟩ := entry
  simp only at hkey hpushes' hpushes hsync
  rw [hsync, hpushes, ← hsame, ← hpushes', ← hkey]
  exact lookup_of_mem_entries hmem

/-- A request that is still to be handled finds its place in the pending map free. -/
theorem Reachable.pending_free {rmp : Rmp} {options : ConnectOptions} {s : State}
    (h : Reachable rmp options s) (hbound : s.nextSync ≤ 2 ^ 64 + 1) {sync : Nat}
    {packet : Packet} {n : Nat} {pushes : Option Nat}
    (hmem : .request sync packet n pushes ∈ s.channel ++ s.task.deferred) :
    s.task.pending.lookup sync = none := by
  have hledger := h.ledger
  have hsourced := h.sourced
  by_contra hsome
  obtain ⟨pending, hlookup⟩ := Option.ne_none_iff_exists'.mp hsome
  have hgenuine : Genuine s (.request sync packet n pushes) := by
    rcases List.mem_append.mp hmem with hmem | hmem
    · exact hsourced.channel _ hmem
    · exact hsourced.task.deferred _ hmem
  obtain ⟨hsync, call, hcall, -, -⟩ := hgenuine
  obtain ⟨packet', hsync', call', hcall', -⟩ :=
    hsourced.task.pending _ (mem_entries_of_lookup hlookup)
  have hticket : n = pending.ticket :=
    syncOf_injOn hbound (hledger.toFresh.bounds hcall) (hledger.toFresh.bounds hcall')
      (hsync.symm.trans hsync')
  -- the oneshot of the request would be held twice
  have hpending := inPending_pos hlookup
  have hbalance := hledger.balance pending.ticket
  have htakes := hledger.takes_le_one pending.ticket
  have hrequest := countP_takesRequest_le_takes pending.ticket s.history
  rcases List.mem_append.mp hmem with hmem | hmem
  · have hchannel : 0 < s.channel.countP (·.carries pending.ticket) :=
      List.countP_pos_iff.mpr ⟨_, hmem, by simp [Command.carries, hticket]⟩
    omega
  · have hdeferred : 0 < s.task.deferred.countP (·.awaits pending.ticket) :=
      List.countP_pos_iff.mpr ⟨_, hmem, by simp [Command.awaits, hticket]⟩
    omega

/-! ## Exactly one outcome -/

def State.places (s : State) (n : Nat) : Nat :=
  s.task.deferred.countP (·.awaits n) + s.task.inPending n +
    s.history.countP (Action.answers n)

/--
Every request taken off the channel is at one place only: deferred, pending
under its own sync, or answered once; when the task has ended it is answered.
No insertion into the pending map replaces an entry before the sync counter
wraps around.
-/
theorem request_settled_exactly_once {rmp : Rmp} {options : ConnectOptions} {s : State}
    (h : Reachable rmp options s) :
    (∀ sync packet n pushes, .took (.request sync packet n pushes) ∈ s.history →
      s.places n = 1 ∧
      (0 < s.task.inPending n → s.task.pending.lookup sync = some ⟨n, pushes⟩) ∧
      (s.phase = .done → s.history.countP (Action.answers n) = 1)) ∧
    (s.nextSync ≤ 2 ^ 64 + 1 → ∀ sync packet n pushes,
      .request sync packet n pushes ∈ s.channel ++ s.task.deferred →
      s.task.pending.lookup sync = none) := by
  have hledger := h.ledger
  refine ⟨fun sync packet n pushes htook => ?_, fun hbound sync packet n pushes hmem => ?_⟩
  · have hplaces : s.places n = 1 :=
      (hledger.balance n).trans (hledger.takesRequest_eq_one htook)
    refine ⟨hplaces, h.sourced.pending_lookup htook, fun hdone => ?_⟩
    have hpending := h.offline.pending (by rw [hdone]; rfl)
    have hdeferred := h.offline.deferred (.inl hdone)
    simpa [State.places, Task.inPending, hpending, hdeferred] using hplaces
  · exact h.pending_free hbound hmem

def sampleRequest : List Event :=
  sampleHandshake 0 [] ++
    [Event.task (.drain .sent), .caller (.call none 1 [] false), .caller (.submit 1),
      .task (.command .sent), .task (.drain .sent)]

theorem request_settled_exactly_once_sample :
    ∃ s, Reachable fixintRmp {} s ∧ 0 < s.task.inPending 1 ∧ s.places 1 = 1 := by
  obtain ⟨s, hreach, hcheck⟩ := reaches_of_check (step fixintRmp) (.initial {}) sampleRequest
    (fun s => s.history.any (Action.takesRequest 1) && 0 < s.task.inPending 1)
    (by decide +kernel)
  simp only [Bool.and_eq_true, decide_eq_true_eq, List.any_eq_true] at hcheck
  obtain ⟨⟨action, hmem, htakes⟩, hpending⟩ := hcheck
  refine ⟨s, hreach, hpending, ?_⟩
  cases action with
  | took command =>
      cases command with
      | request sync packet n pushes =>
          obtain rfl : n = 1 := by simpa [Action.takesRequest, Command.awaits] using htakes
          exact ((request_settled_exactly_once hreach).1 sync packet _ pushes hmem).1
      | _ => simp [Action.takesRequest, Command.awaits] at htakes
  | _ => simp [Action.takesRequest] at htakes

theorem draw_many (rmp : Rmp) {s : State} (hhandles : s.handles = true) (k : Nat) :
    ∃ t, Reaches (step rmp) anyStep s t ∧ t.nextSync = s.nextSync + k ∧ t.handles = true ∧
      t.task = s.task ∧ t.channel = s.channel ∧ t.phase = s.phase ∧ t.closed = s.closed := by
  induction k with
  | zero => exact ⟨s, .refl, rfl, hhandles, rfl, rfl, rfl, rfl⟩
  | succ k ih =>
      obtain ⟨t, hreach, hnext, hopen, htask, hchannel, hphase, hclosed⟩ := ih
      have hdraw : step rmp t (.caller (.call none 0 [] false)) =
          some (t.issue .plain none 0 [] false .drawn) := by
        simp [step, callerStep, State.issueIfAllowed, State.mayIssue, hopen]
      refine ⟨_, .next hreach trivial hdraw, ?_, hopen, htask, hchannel, hphase, hclosed⟩
      simp only [State.issue, hnext]
      omega

theorem send_next (rmp : Rmp) {s : State} (hhandles : s.handles = true)
    (hclosed : s.closed = false) (hphase : s.phase = .select) (hchannel : s.channel = []) :
    ∃ t packet, Reaches (step rmp) anyStep s t ∧ t.task = s.task ∧
      .request (syncOf s.nextSync) packet s.nextSync none ∈ t.channel := by
  obtain ⟨t, ht⟩ : ∃ t, t = s.issue .plain none 0 [] false .drawn := ⟨_, rfl⟩
  have hdraw : step rmp s (.caller (.call none 0 [] false)) = some t := by
    simp [step, callerStep, State.issueIfAllowed, State.mayIssue, hhandles, ht]
  let call : Call :=
    ⟨⟨0, syncOf s.nextSync, none, []⟩, .plain, none, false, none, .drawn, true⟩
  have hcall : t.calls s.nextSync = some call := by
    simp [ht, State.issue, call]
  have hroom : t.hasRoom = true := by
    simp [ht, State.issue, State.hasRoom, hphase, hchannel, channelCapacity]
  have hopen : ¬ (t.closed = true ∨ t.phase = .done) := by
    simp [ht, State.issue, hclosed, hphase]
  have hsubmit : step rmp t (.caller (.submit s.nextSync)) =
      some { t.setCall s.nextSync { call with stage := .queued } with
        channel := t.channel ++ [call.command s.nextSync] } := by
    simp only [step, callerStep, State.submit, hcall, Option.bind_some]
    rw [if_pos ⟨rfl, rfl⟩, if_neg hopen, if_pos hroom]
  refine ⟨_, call.packet, .next (.next .refl trivial hdraw) trivial hsubmit, ?_, ?_⟩
  · rw [ht]
    rfl
  · exact List.mem_append_right _ (List.mem_singleton.mpr rfl)

/-- After 2^64 draws the first sync is handed out again while it is still in use. -/
theorem wrapped_sync_overwrites :
    ¬ ∀ rmp options s, Reachable rmp options s →
      ∀ sync packet n pushes, .request sync packet n pushes ∈ s.channel ++ s.task.deferred →
        s.task.pending.lookup sync = none := by
  intro hall
  obtain ⟨s, hreach, hcheck⟩ := reaches_of_check (step fixintRmp) (.initial {}) sampleRequest
    (fun s => s.handles && decide (s.nextSync = 2) && !s.closed &&
      decide (s.phase = .select ∧ s.channel = [] ∧
        s.task.pending.lookup 1 = some ⟨1, none⟩))
    (by decide +kernel)
  simp only [Bool.and_eq_true, decide_eq_true_eq, Bool.not_eq_true'] at hcheck
  obtain ⟨⟨⟨hhandles, hnext⟩, hclosed⟩, hphase, hchannel, hpending⟩ := hcheck
  obtain ⟨t, hdraws, hnext', hopen, htask, hchannel', hphase', hclosed'⟩ :=
    draw_many fixintRmp hhandles (2 ^ 64 - 1)
  obtain ⟨u, packet, hsent, htask', hmem⟩ := send_next fixintRmp hopen
    (hclosed'.trans hclosed) (hphase'.trans hphase) (hchannel'.trans hchannel)
  have hwrapped : syncOf t.nextSync = 1 := by
    rw [hnext', hnext]
    rfl
  have hfree := hall fixintRmp {} u ((hreach.trans hdraws).trans hsent) _ _ _ _
    (List.mem_append_left _ hmem)
  rw [hwrapped, htask', htask, hpending] at hfree
  contradiction

end Tarant.Connection
