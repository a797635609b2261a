import Tarant.Connection.Ledger

/-!
# Streams and their calls

`begin`, `commit` and `rollback` borrow their stream exclusively and the other
methods share it, so the transaction of a stream stays as it is while one of its
calls is running.
-/

namespace Tarant.Connection

open Foundation

structure Running (s : State) (id n : Nat) (call : Call) : Prop where
  known : s.calls n = some call
  borrows : call.stream = some id
  live : call.live = true

theorem Call.live_iff {call : Call} :
    call.live = true ↔ call.alive = true ∧ (call.stage = .drawn ∨ call.stage = .queued) := by
  simp [Call.live]

theorem Running.not_busy {s : State} {id n : Nat} {call : Call} {role : Call → Bool}
    (h : Running s id n call) (hfresh : Fresh s) (hidle : s.busyWith id role = false) :
    role call = false := by
  have hlt := (hfresh.bounds h.known).2
  simp only [State.busyWith, List.any_eq_false, List.mem_range, Bool.not_eq_true] at hidle
  simpa [h.known, h.borrows, h.live] using hidle n hlt

/-! ## What one step does to a stream and to a call -/

inductive StreamChange (s s' : State) (id : Nat) : Option Stream → Option Stream → Prop where
  | same {value : Option Stream} : StreamChange s s' id value value
  | opened {value : Option Stream} (hid : id = s.nextStreamId)
      (hnext : s'.nextStreamId = s.nextStreamId + 1) : StreamChange s s' id value (some {})
  | dropped {stream : Stream} (hidle : s.busyWith id (fun _ => true) = false) :
      StreamChange s s' id (some stream) (some { stream with opened := false })
  | settled {stream : Stream} {n : Nat} {call : Call} {answer : Answer} {arrival : Arrival}
      (hrunning : Running s id n call) (hanswer : answerOf n s.history = some answer)
      (hsuccess : answer.success = some arrival)
      (hcall : s'.calls n = some { call with stage := .returned true }) :
      StreamChange s s' id (some stream) (some (stream.settle call.role arrival))

inductive CallChange (s s' : State) (n : Nat) : Option Call → Option Call → Prop where
  | same {value : Option Call} : CallChange s s' n value value
  | issued {value : Option Call} {call : Call} (hn : n = s.nextSync)
      (hstreams : s'.streams = s.streams) (hmay : s.mayIssue call.role call.stream = true)
      (hstage : call.stage = .drawn)
      (htransaction : call.transaction = (call.stream.bind s.streams).bind Stream.transaction) :
      CallChange s s' n value (some call)
  | fired {value : Option Call} {call : Call} (hn : n = s.nextSync)
      (halive : call.alive = false) (hstage : call.stage ≠ .returned true)
      (htransaction : call.transaction = (call.stream.bind s.streams).bind Stream.transaction)
      (hopened : ∀ id, call.stream = some id → ∃ stream, s.streams id = some stream ∧
        stream.opened = true) : CallChange s s' n value (some call)
  | submitted {call : Call} (hlive : call.live = true) :
      CallChange s s' n (some call) (some { call with stage := .queued })
  | failed {call : Call} (hlive : call.live = true) :
      CallChange s s' n (some call) (some { call with stage := .returned false })
  | abandoned {call : Call} (hlive : call.live = true) :
      CallChange s s' n (some call) (some { call with alive := false })
  | succeeded {call : Call} {answer : Answer} {arrival : Arrival} (hlive : call.live = true)
      (hanswer : answerOf n s.history = some answer)
      (hsuccess : answer.success = some arrival) :
      CallChange s s' n (some call) (some { call with stage := .returned true })

theorem StreamChange.update {s s' : State} {id other : Nat} {value : Stream}
    (h : id = other → StreamChange s s' id (s.streams id) (some value)) :
    StreamChange s s' id (s.streams id) (Function.update s.streams other (some value) id) := by
  by_cases hid : id = other
  · rw [hid, Function.update_self]
    exact hid ▸ h hid
  · rw [Function.update_of_ne hid]
    exact .same

theorem CallChange.update {s s' : State} {n ticket : Nat} {call : Call}
    (h : n = ticket → CallChange s s' n (s.calls n) (some call)) :
    CallChange s s' n (s.calls n) (Function.update s.calls ticket (some call) n) := by
  by_cases hn : n = ticket
  · rw [hn, Function.update_self]
    exact hn ▸ h hn
  · rw [Function.update_of_ne hn]
    exact .same

theorem settleStream_change {s s' : State} {n : Nat} {call : Call} {answer : Answer}
    {arrival : Arrival} (hcall : s.calls n = some call) (hlive : call.live = true)
    (hanswer : answerOf n s.history = some answer) (hsuccess : answer.success = some arrival)
    (hcall' : s'.calls n = some { call with stage := .returned true }) (id : Nat) :
    StreamChange s s' id (s.streams id) ((s.setCall n
      { call with stage := .returned true }).settleStream call arrival |>.streams id) := by
  unfold State.settleStream
  split
  · exact .same
  next other hother =>
    split
    · exact .same
    next stream hstream =>
      have hstream : s.streams other = some stream := hstream
      refine .update fun hid => ?_
      subst hid
      rw [hstream]
      exact .settled ⟨hcall, hother, hlive⟩ hanswer hsuccess hcall'

theorem CallerMove.stream_change {s s' : State} {event : CallerEvent}
    (h : CallerMove s event s') (id : Nat) :
    StreamChange s s' id (s.streams id) (s'.streams id) := by
  cases h with
  | @succeeded ticket call answer arrival hcall halive hstage hanswer hsuccess =>
      refine settleStream_change hcall ?_ hanswer hsuccess ?_ id
      · exact Call.live_iff.mpr ⟨halive, .inr hstage⟩
      · obtain ⟨streams, heq⟩ := settleStream_eq
          (s.setCall ticket { call with stage := .returned true }) call arrival
        rw [heq]
        exact Function.update_self _ _ _
  | fired hbase =>
      cases hbase with
      | client =>
          unfold State.fireNow
          split <;> exact .same
      | stream hstream hopened hidle =>
          unfold State.fireNow
          split <;> exact .update fun hid => by subst hid; rw [hstream]; exact .dropped hidle
  | openedStream => exact .update fun hid => .opened hid rfl
  | droppedStream hstream hopened hidle =>
      exact .update fun hid => by subst hid; rw [hstream]; exact .dropped hidle
  | _ => exact .same

theorem CallerMove.call_change {s s' : State} {event : CallerEvent}
    (h : CallerMove s event s') (n : Nat) : CallChange s s' n (s.calls n) (s'.calls n) := by
  cases h with
  | issued hrole hmay => exact .update fun hn => .issued hn rfl hmay rfl rfl
  | submitted hcall halive hstage =>
      refine .update fun hn => ?_
      subst hn
      rw [hcall]
      exact .submitted (Call.live_iff.mpr ⟨halive, .inl hstage⟩)
  | refused hcall halive hstage =>
      refine .update fun hn => ?_
      subst hn
      rw [hcall]
      exact .failed (Call.live_iff.mpr ⟨halive, .inl hstage⟩)
  | abandoned hcall hlive =>
      refine .update fun hn => ?_
      subst hn
      rw [hcall]
      exact .abandoned hlive
  | @succeeded ticket call answer arrival hcall halive hstage hanswer hsuccess =>
      obtain ⟨streams, heq⟩ := settleStream_eq
        (s.setCall ticket { call with stage := .returned true }) call arrival
      rw [heq]
      refine .update fun hn => ?_
      subst hn
      rw [hcall]
      exact .succeeded (Call.live_iff.mpr ⟨halive, .inr hstage⟩) hanswer hsuccess
  | failed hcall halive hstage =>
      refine .update fun hn => ?_
      subst hn
      rw [hcall]
      exact .failed (Call.live_iff.mpr ⟨halive, .inr hstage⟩)
  | fired hbase =>
      cases hbase with
      | client =>
          unfold State.fireNow
          split <;> exact .update fun hn => .fired hn rfl (by simp) rfl nofun
      | @stream id stream hstream hopened =>
          have htransaction : ((s.setStream id { stream with opened := false }).streams id).bind
              Stream.transaction = (s.streams id).bind Stream.transaction := by
            simp [State.setStream, hstream]
          unfold State.fireNow
          split <;> exact CallChange.update (s := s) fun hn =>
            .fired hn rfl (by simp) htransaction fun _ hid =>
              ⟨stream, Option.some.inj hid ▸ hstream, hopened⟩
  | _ => exact .same

theorem Running.back {s s' : State} {id n : Nat} {call' : Call} (h : Running s' id n call')
    (hchange : CallChange s s' n (s.calls n) (s'.calls n)) :
    (∃ call, Running s id n call ∧ call.role = call'.role ∧
        call.transaction = call'.transaction) ∨
      (n = s.nextSync ∧ s'.streams = s.streams ∧ s.mayIssue call'.role (some id) = true ∧
        call'.transaction = (s.streams id).bind Stream.transaction) := by
  obtain ⟨hknown, hborrows, hlive⟩ := h
  rw [hknown] at hchange
  generalize hold : s.calls n = old at hchange
  cases hchange with
  | same => exact .inl ⟨call', ⟨hold, hborrows, hlive⟩, rfl, rfl⟩
  | issued hn hstreams hmay hstage htransaction =>
      rw [hborrows] at hmay htransaction
      exact .inr ⟨hn, hstreams, hmay, htransaction⟩
  | fired hn halive => simp [Call.live, halive] at hlive
  | @submitted call hlive' => exact .inl ⟨call, ⟨hold, hborrows, hlive'⟩, rfl, rfl⟩
  | failed | succeeded | abandoned => simp [Call.live] at hlive

/-! ## The borrow rules over a run -/

structure Borrows (s : State) : Prop where
  fresh : ∀ id, s.nextStreamId ≤ id → s.streams id = none
  flag : ∀ id stream, s.streams id = some stream →
    stream.inTransaction = stream.transaction.isSome
  opened : ∀ id n call, Running s id n call → ∃ stream, s.streams id = some stream ∧
    stream.opened = true ∧ call.transaction = stream.transaction
  exclusive : ∀ id n m call other, Running s id n call → Running s id m other →
    call.role.exclusive = true → m = n

theorem Borrows.opened_change {s s' : State} {id n : Nat} {call call' : Call} (h : Borrows s)
    (hfresh : Fresh s) (hrunning : Running s id n call) (hrunning' : Running s' id n call')
    (hchange : StreamChange s s' id (s.streams id) (s'.streams id)) :
    ∃ stream, s'.streams id = some stream ∧ stream.opened = true ∧
      call.transaction = stream.transaction := by
  obtain ⟨stream, hstream, hopened, htransaction⟩ := h.opened id n call hrunning
  rw [hstream] at hchange
  generalize hnew : s'.streams id = new at hchange
  cases hchange with
  | same => exact ⟨stream, rfl, hopened, htransaction⟩
  | opened hid => simp [h.fresh id hid.ge] at hstream
  | dropped hidle => simpa using hrunning.not_busy hfresh hidle
  | @settled _ m other answer arrival hother _ _ hcall =>
      refine ⟨_, rfl, ?_⟩
      cases hrole : other.role with
      | begin | commit | rollback =>
          -- an exclusive call is the only one, and this one has just finished
          obtain rfl := h.exclusive id m n other call hother hrunning (by rw [hrole]; rfl)
          obtain rfl := Option.some.inj (hcall.symm.trans hrunning'.known)
          simpa [Call.live] using hrunning'.live
      | plain | fire => exact ⟨hopened, htransaction⟩

theorem Running.not_exclusive {s : State} {id n : Nat} {call : Call} {role : Role}
    (h : Running s id n call) (hfresh : Fresh s)
    (hmay : s.mayIssue role (some id) = true) :
    role.exclusive = false ∧ call.role.exclusive = false := by
  simp only [State.mayIssue, Bool.and_eq_true, Bool.not_eq_true'] at hmay
  simpa using h.not_busy hfresh hmay.2

theorem Borrows.issued {s s' : State} {event : CallerEvent} (h : Borrows s) (hfresh : Fresh s)
    (hmove : CallerMove s event s') : Borrows s' := by
  constructor
  · intro id hle
    have hold := h.fresh id (hmove.numbers.nextStreamId.trans hle)
    have hchange := hmove.stream_change id
    rw [hold] at hchange
    generalize s'.streams id = new at hchange
    cases hchange with
    | same => rfl
    | opened hid hnext => omega
  · intro id stream' hstream'
    have hchange := hmove.stream_change id
    rw [hstream'] at hchange
    generalize hold : s.streams id = old at hchange
    cases hchange with
    | same => exact h.flag id stream' hold
    | opened => rfl
    | @dropped stream => exact h.flag id stream hold
    | @settled stream n call =>
        have hflag := h.flag id stream hold
        cases hrole : call.role <;> simp [Stream.settle, hflag]
  · intro id n call' hrunning'
    rcases hrunning'.back (hmove.call_change n) with
      ⟨call, hrunning, -, htransaction⟩ | ⟨hn, hstreams, hmay, htransaction⟩
    · rw [← htransaction]
      exact h.opened_change hfresh hrunning hrunning' (hmove.stream_change id)
    · simp only [State.mayIssue, Bool.and_eq_true, Option.any_eq_true] at hmay
      obtain ⟨⟨stream, hstream, hopened⟩, -⟩ := hmay
      rw [hstream] at htransaction
      exact ⟨stream, hstreams ▸ hstream, hopened, htransaction⟩
  · intro id n m call' other' hrunning hrunning' hexclusive
    rcases hrunning.back (hmove.call_change n) with
      ⟨call, hcall, hrole, -⟩ | ⟨hn, -, hmay, -⟩
    · rcases hrunning'.back (hmove.call_change m) with
        ⟨other, hother, -, -⟩ | ⟨hm, -, hmay', -⟩
      · exact h.exclusive id n m call other hcall hother (hrole ▸ hexclusive)
      · have := (hcall.not_exclusive hfresh hmay').2
        simp [hrole, hexclusive] at this
    · rcases hrunning'.back (hmove.call_change m) with
        ⟨other, hother, -, -⟩ | ⟨hm, -, hmay', -⟩
      · have := (hother.not_exclusive hfresh hmay).1
        simp [hexclusive] at this
      · omega

theorem Borrows.of_eq {s s' : State} (h : Borrows s) (hcalls : s'.calls = s.calls)
    (hstreams : s'.streams = s.streams) (hnext : s'.nextStreamId = s.nextStreamId) :
    Borrows s' := by
  have hrunning {id n : Nat} {call : Call} (hrun : Running s' id n call) :
      Running s id n call := ⟨hcalls ▸ hrun.known, hrun.borrows, hrun.live⟩
  constructor
  · rw [hstreams, hnext]
    exact h.fresh
  · rw [hstreams]
    exact h.flag
  · rw [hstreams]
    exact fun id n call hrun => h.opened id n call (hrunning hrun)
  · exact fun id n m call other hrun hrun' =>
      h.exclusive id n m call other (hrunning hrun) (hrunning hrun')

theorem TaskMove.nextStreamId_eq {rmp : Rmp} {s s' : State} {event : TaskEvent}
    (h : TaskMove rmp s event s') : s'.nextStreamId = s.nextStreamId := by
  have hlose (x : State) : x.lose.nextStreamId = x.nextStreamId := by
    simp only [State.lose]
    split <;> rfl
  cases h with
  | handledLost | linkLost => exact hlose _
  | _ => rfl

theorem Reachable.borrows {rmp : Rmp} {options : ConnectOptions} {s : State}
    (h : Reachable rmp options s) : Borrows s := by
  refine Reaches.invariant ?_ ?_ h
  · constructor
    · simp [State.initial]
    · simp [State.initial]
    · intro id n call hrunning
      simpa [State.initial] using hrunning.known
    · intro id n m call other hrunning
      simpa [State.initial] using hrunning.known
  · intro s s' event hreach hborrows _ hstep
    cases step_move hstep with
    | caller hmove => exact hborrows.issued (Reachable.ledger hreach).toFresh hmove
    | task hmove =>
        have huntouched := hmove.untouched
        exact hborrows.of_eq huntouched.calls huntouched.streams hmove.nextStreamId_eq
    | server => exact hborrows.of_eq rfl rfl rfl

end Tarant.Connection
