import Tarant.Connection.System

/-!
# What one step of a caller can do

`CallerMove` lists the transitions of requests, streams, watchers and handles.
None of them touches the task, its link or its history: a caller reaches the
task only through the channel.
-/

namespace Tarant.Connection

open Foundation
open Iproto

/-- A stream that is dropped is closed before its rollback is fired. -/
inductive FireBase (s : State) : State → Option Nat → Prop where
  | client (hhandles : s.handles = true) : FireBase s s none
  | stream {id : Nat} {stream : Stream} (hstream : s.streams id = some stream)
      (hopened : stream.opened = true) (hidle : s.busyWith id (fun _ => true) = false)
      (htransaction : stream.inTransaction = true) :
      FireBase s (s.setStream id { stream with opened := false }) (some id)

inductive CallerMove (s : State) : CallerEvent → State → Prop where
  | issued {event : CallerEvent} {role : Role} {stream : Option Nat} {ty : Nat}
      {body : List (Nat × Field)} {pushes : Bool} (hrole : role ≠ .fire)
      (hmay : s.mayIssue role stream = true) :
      CallerMove s event (s.issue role stream ty body pushes .drawn)
  | submitted {ticket : Nat} {call : Call} (hcall : s.calls ticket = some call)
      (halive : call.alive = true) (hstage : call.stage = .drawn)
      (hroom : s.hasRoom = true) :
      CallerMove s (.submit ticket) { s.setCall ticket { call with stage := .queued } with
        channel := s.channel ++ [call.command ticket] }
  | refused {ticket : Nat} {call : Call} (hcall : s.calls ticket = some call)
      (halive : call.alive = true) (hstage : call.stage = .drawn) :
      CallerMove s (.submit ticket) (s.setCall ticket { call with stage := .returned false })
  | abandoned {ticket : Nat} {call : Call} (hcall : s.calls ticket = some call)
      (hlive : call.live = true) :
      CallerMove s (.abandon ticket) (s.setCall ticket { call with alive := false })
  | succeeded {ticket : Nat} {call : Call} {answer : Answer} {arrival : Arrival}
      (hcall : s.calls ticket = some call) (halive : call.alive = true)
      (hstage : call.stage = .queued) (hanswer : answerOf ticket s.history = some answer)
      (hsuccess : answer.success = some arrival) :
      CallerMove s (.finish ticket)
        ((s.setCall ticket { call with stage := .returned true }).settleStream call arrival)
  | failed {ticket : Nat} {call : Call} {answer : Answer}
      (hcall : s.calls ticket = some call) (halive : call.alive = true)
      (hstage : call.stage = .queued) (hanswer : answerOf ticket s.history = some answer)
      (hsuccess : answer.success = none) :
      CallerMove s (.finish ticket) (s.setCall ticket { call with stage := .returned false })
  | fired {event : CallerEvent} {s₁ : State} {stream : Option Nat} {ty : Nat}
      {body : List (Nat × Field)} (hbase : FireBase s s₁ stream) :
      CallerMove s event (s₁.fireNow stream ty body)
  | openedStream (hhandles : s.handles = true) :
      CallerMove s .openStream { s.setStream s.nextStreamId {} with
        nextStreamId := s.nextStreamId + 1 }
  | droppedStream {id : Nat} {stream : Stream} (hstream : s.streams id = some stream)
      (hopened : stream.opened = true) (hidle : s.busyWith id (fun _ => true) = false)
      (htransaction : stream.inTransaction = false) :
      CallerMove s (.dropStream id) (s.setStream id { stream with opened := false })
  | watchIssued {key : String} (hhandles : s.handles = true) :
      CallerMove s (.watch key) { s.setWatching s.nextWatchId ⟨key, .sending, true⟩ with
        nextWatchId := s.nextWatchId + 1 }
  | watchSubmitted {watcher : Nat} {w : Watching} (hw : s.watching watcher = some w)
      (halive : w.alive = true) (hstage : w.stage = .sending) (hroom : s.hasRoom = true) :
      CallerMove s (.submitWatch watcher) { s.setWatching watcher { w with stage := .queued } with
        channel := s.channel ++ [.watch (syncOf watcher) w.key watcher] }
  | watchRefused {watcher : Nat} {w : Watching} (hw : s.watching watcher = some w)
      (halive : w.alive = true) (hstage : w.stage = .sending) (hphase : s.phase = .done) :
      CallerMove s (.submitWatch watcher) (s.setWatching watcher { w with alive := false })
  | watchResolved {watcher : Nat} {w : Watching} (hw : s.watching watcher = some w)
      (halive : w.alive = true) (hstage : w.stage = .queued)
      (hcell : (s.cell watcher).isSome = true) :
      CallerMove s (.resolveWatch watcher) (s.setWatching watcher { w with stage := .watching })
  | watchOrphaned {watcher : Nat} {w : Watching} (hw : s.watching watcher = some w)
      (halive : w.alive = true) (hstage : w.stage = .queued)
      (hgone : s.senderGone watcher = true) :
      CallerMove s (.resolveWatch watcher) (s.setWatching watcher { w with alive := false })
  | watchCancelled {watcher : Nat} {w : Watching} (hw : s.watching watcher = some w)
      (halive : w.alive = true) (hstage : w.stage ≠ .watching) :
      CallerMove s (.dropWatch watcher) (s.setWatching watcher { w with alive := false })
  | watcherDropped {watcher : Nat} {w : Watching} (hw : s.watching watcher = some w)
      (halive : w.alive = true) (hstage : w.stage = .watching) (hroom : s.hasRoom = true) :
      CallerMove s (.dropWatch watcher) { s.setWatching watcher { w with alive := false } with
        channel := s.channel ++ [.unwatch (syncOf watcher) w.key watcher] }
  | watcherDroppedFull {watcher : Nat} {w : Watching} (hw : s.watching watcher = some w)
      (halive : w.alive = true) (hstage : w.stage = .watching)
      (hroom : s.hasRoom = false) :
      CallerMove s (.dropWatch watcher) (s.setWatching watcher { w with alive := false })
  | closeSent (hroom : s.hasRoom = true) :
      CallerMove s .close { s with channel := s.channel ++ [.close] }
  | handlesDropped (hfree : s.handlesFree = true) :
      CallerMove s .dropHandles { s with handles := false }

/-! ## The list is complete -/

theorem issueIfAllowed_move {s s' : State} {event : CallerEvent} {role : Role}
    {stream : Option Nat} {ty : Nat} {body : List (Nat × Field)} {pushes : Bool}
    (hrole : role ≠ .fire)
    (h : s.issueIfAllowed role stream ty body pushes = some s') : CallerMove s event s' := by
  simp only [State.issueIfAllowed, Option.ite_none_right_eq_some, Option.some.injEq] at h
  obtain ⟨hmay, rfl⟩ := h
  exact .issued hrole hmay

theorem submit_move {s s' : State} {ticket : Nat} (h : s.submit ticket = some s') :
    CallerMove s (.submit ticket) s' := by
  simp only [State.submit, Option.bind_eq_some_iff, Option.ite_none_right_eq_some] at h
  obtain ⟨call, hcall, ⟨halive, hstage⟩, h⟩ := h
  split at h
  · cases h
    exact .refused hcall halive hstage
  · simp only [Option.ite_none_right_eq_some, Option.some.injEq] at h
    obtain ⟨hroom, rfl⟩ := h
    exact .submitted hcall halive hstage hroom

theorem finish_move {s s' : State} {ticket : Nat} (h : s.finish ticket = some s') :
    CallerMove s (.finish ticket) s' := by
  simp only [State.finish, Option.bind_eq_some_iff, Option.ite_none_right_eq_some,
    Option.map_eq_some_iff] at h
  obtain ⟨call, hcall, ⟨halive, hstage⟩, answer, hanswer, rfl⟩ := h
  cases hsuccess : answer.success with
  | some arrival => exact .succeeded hcall halive hstage hanswer hsuccess
  | none => exact .failed hcall halive hstage hanswer hsuccess

theorem dropStream_move {s s' : State} {id : Nat} (h : s.dropStream id = some s') :
    CallerMove s (.dropStream id) s' := by
  simp only [State.dropStream, Option.bind_eq_some_iff, Option.ite_none_right_eq_some] at h
  obtain ⟨stream, hstream, ⟨hopened, hidle⟩, h⟩ := h
  have hidle : s.busyWith id (fun _ => true) = false := by simpa using hidle
  split at h
  next htransaction =>
    cases h
    exact .fired (.stream hstream hopened hidle htransaction)
  next htransaction =>
    cases h
    exact .droppedStream hstream hopened hidle (by simpa using htransaction)

theorem submitWatch_move {s s' : State} {watcher : Nat}
    (h : s.submitWatch watcher = some s') : CallerMove s (.submitWatch watcher) s' := by
  simp only [State.submitWatch, Option.bind_eq_some_iff, Option.ite_none_right_eq_some] at h
  obtain ⟨w, hw, ⟨halive, hstage⟩, h⟩ := h
  split at h
  next hphase =>
    cases h
    exact .watchRefused hw halive hstage hphase
  · simp only [Option.ite_none_right_eq_some, Option.some.injEq] at h
    obtain ⟨hroom, rfl⟩ := h
    exact .watchSubmitted hw halive hstage hroom

theorem resolveWatch_move {s s' : State} {watcher : Nat}
    (h : s.resolveWatch watcher = some s') : CallerMove s (.resolveWatch watcher) s' := by
  simp only [State.resolveWatch, Option.bind_eq_some_iff,
    Option.ite_none_right_eq_some] at h
  obtain ⟨w, hw, ⟨halive, hstage⟩, h⟩ := h
  split at h
  next hcell =>
    cases h
    exact .watchResolved hw halive hstage hcell
  · simp only [Option.ite_none_right_eq_some, Option.some.injEq] at h
    obtain ⟨hgone, rfl⟩ := h
    exact .watchOrphaned hw halive hstage hgone

theorem dropWatch_move {s s' : State} {watcher : Nat}
    (h : s.dropWatch watcher = some s') : CallerMove s (.dropWatch watcher) s' := by
  simp only [State.dropWatch, Option.bind_eq_some_iff, Option.ite_none_right_eq_some] at h
  obtain ⟨w, hw, halive, h⟩ := h
  split at h
  next hdrop =>
    cases h
    exact .watcherDropped hw halive hdrop.1 hdrop.2
  next hdrop =>
    cases h
    by_cases hstage : w.stage = .watching
    · exact .watcherDroppedFull hw halive hstage
        (by simpa [hstage] using hdrop)
    · exact .watchCancelled hw halive hstage

theorem callerStep_move {s s' : State} {event : CallerEvent}
    (h : callerStep s event = some s') : CallerMove s event s' := by
  cases event with
  | call stream ty body pushes => exact issueIfAllowed_move (by simp) h
  | begin stream options =>
      simp only [callerStep, Option.ite_none_right_eq_some] at h
      exact issueIfAllowed_move (by simp) h.2
  | commit stream => exact issueIfAllowed_move (by simp) h
  | rollback stream => exact issueIfAllowed_move (by simp) h
  | submit ticket => exact submit_move h
  | abandon ticket =>
      simp only [callerStep, State.abandon, Option.bind_eq_some_iff,
        Option.ite_none_right_eq_some, Option.some.injEq] at h
      obtain ⟨call, hcall, hlive, rfl⟩ := h
      exact .abandoned hcall hlive
  | finish ticket => exact finish_move h
  | fire ty body =>
      simp only [callerStep, Option.ite_none_right_eq_some, Option.some.injEq] at h
      obtain ⟨hhandles, rfl⟩ := h
      exact .fired (.client hhandles)
  | openStream =>
      simp only [callerStep, Option.ite_none_right_eq_some, Option.some.injEq] at h
      obtain ⟨hhandles, rfl⟩ := h
      exact .openedStream hhandles
  | dropStream id => exact dropStream_move h
  | watch key =>
      simp only [callerStep, Option.ite_none_right_eq_some, Option.some.injEq] at h
      obtain ⟨⟨hhandles, -⟩, rfl⟩ := h
      exact .watchIssued hhandles
  | submitWatch watcher => exact submitWatch_move h
  | resolveWatch watcher => exact resolveWatch_move h
  | dropWatch watcher => exact dropWatch_move h
  | close =>
      simp only [callerStep, Option.ite_none_right_eq_some, Option.some.injEq] at h
      obtain ⟨⟨-, hroom⟩, rfl⟩ := h
      exact .closeSent hroom
  | dropHandles =>
      simp only [callerStep, Option.ite_none_right_eq_some, Option.some.injEq] at h
      obtain ⟨⟨-, hfree⟩, rfl⟩ := h
      exact .handlesDropped hfree

/-! ## What callers leave alone -/

structure TaskUntouched (s s' : State) : Prop where
  options : s'.options = s.options
  task : s'.task = s.task
  phase : s'.phase = s.phase
  closed : s'.closed = s.closed
  link : s'.link = s.link
  sockets : s'.sockets = s.sockets
  inbound : s'.inbound = s.inbound
  read : s'.read = s.read
  history : s'.history = s.history

theorem settleStream_eq (s : State) (call : Call) (arrival : Arrival) :
    ∃ streams, s.settleStream call arrival = { s with streams := streams } := by
  unfold State.settleStream
  split
  · exact ⟨s.streams, rfl⟩
  · split
    · exact ⟨s.streams, rfl⟩
    · exact ⟨_, rfl⟩

theorem fireNow_untouched (s : State) (stream : Option Nat) (ty : Nat)
    (body : List (Nat × Field)) : TaskUntouched s (s.fireNow stream ty body) := by
  unfold State.fireNow
  split <;> exact ⟨rfl, rfl, rfl, rfl, rfl, rfl, rfl, rfl, rfl⟩

theorem CallerMove.untouched {s s' : State} {event : CallerEvent}
    (h : CallerMove s event s') : TaskUntouched s s' := by
  cases h with
  | succeeded =>
      obtain ⟨streams, heq⟩ := settleStream_eq _ _ _
      rw [heq]
      exact ⟨rfl, rfl, rfl, rfl, rfl, rfl, rfl, rfl, rfl⟩
  | fired hbase =>
      cases hbase with
      | client => exact fireNow_untouched _ _ _ _
      | stream =>
          obtain ⟨h₁, h₂, h₃, h₄, h₅, h₆, h₇, h₈, h₉⟩ := fireNow_untouched _ _ _ _
          exact ⟨h₁, h₂, h₃, h₄, h₅, h₆, h₇, h₈, h₉⟩
  | _ => exact ⟨rfl, rfl, rfl, rfl, rfl, rfl, rfl, rfl, rfl⟩

structure Numbers (s s' : State) : Prop where
  nextSync : s.nextSync ≤ s'.nextSync
  nextStreamId : s.nextStreamId ≤ s'.nextStreamId
  negotiated : s'.negotiated = s.negotiated

theorem fireNow_numbers (s : State) (stream : Option Nat) (ty : Nat)
    (body : List (Nat × Field)) : Numbers s (s.fireNow stream ty body) := by
  unfold State.fireNow
  split <;> exact ⟨Nat.le_succ _, le_rfl, rfl⟩

theorem CallerMove.numbers {s s' : State} {event : CallerEvent}
    (h : CallerMove s event s') : Numbers s s' := by
  cases h with
  | issued => exact ⟨Nat.le_succ _, le_rfl, rfl⟩
  | succeeded =>
      obtain ⟨streams, heq⟩ := settleStream_eq _ _ _
      rw [heq]
      exact ⟨le_rfl, le_rfl, rfl⟩
  | fired hbase =>
      cases hbase with
      | client => exact fireNow_numbers _ _ _ _
      | stream =>
          obtain ⟨hsync, hid, hnegotiated⟩ := fireNow_numbers _ _ _ _
          exact ⟨hsync, hid, hnegotiated⟩
  | openedStream => exact ⟨le_rfl, Nat.le_succ _, rfl⟩
  | _ => exact ⟨le_rfl, le_rfl, rfl⟩

end Tarant.Connection
