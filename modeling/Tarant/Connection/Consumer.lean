import Tarant.Foundation.Latest
import Tarant.Connection.Fanout

/-!
# The consumer of a watcher

`Watcher::subscribe`, `get` and `changed` over the receiver that the connection task
publishes to.  A consumer may miss values, but it reads them in the order the
connection read them in, and one that waits for a change has read the last.
-/

namespace Tarant.Connection

open Foundation

/-! ## Consumers beside the connection -/

/-- What a key broadcast with no value decodes from. -/
def nilValue : Bytes := [0xc0]

structure Consumption where
  state : State
  notices : List Notice := []
  readers : Nat → Reader Bytes := fun _ => {}

inductive ConsumerEvent where
  /-- Anything but the end of `subscribe`. -/
  | system (event : Event)
  /-- `subscribe` sees a first value, at once or after it waited for it. -/
  | subscribed (watcher : Nat) (waited : Bool)
  | get (watcher : Nat)
  | changed (watcher : Nat)

def State.holds (s : State) (watcher : Nat) : Bool :=
  (s.watching watcher).any fun watching => watching.alive && watching.stage == .watching

def Event.subscribes : Event → Bool
  | .caller (.resolveWatch _) => true
  | _ => false

namespace Consumption

def published (x : Consumption) (watcher : Nat) : List Bytes := publishedTo watcher x.state.history

def setReader (x : Consumption) (watcher : Nat) (reader : Reader Bytes) : Consumption :=
  { x with readers := Function.update x.readers watcher reader }

def advance (rmp : Rmp) (x : Consumption) (event : Event) : Option Consumption :=
  (observing (Connection.step rmp) State.notices (x.state, x.notices) event).map
    fun (state, notices) => { x with state, notices }

def get (x : Consumption) (watcher : Nat) : Bytes := (x.state.cell watcher).getD nilValue

def change (x : Consumption) (watcher : Nat) : Change :=
  (x.readers watcher).change (x.published watcher) (x.state.senderGone watcher)

def step (rmp : Rmp) (x : Consumption) : ConsumerEvent → Option Consumption
  | .system event => if event.subscribes then none else x.advance rmp event
  | .subscribed watcher waited =>
      (x.advance rmp (.caller (.resolveWatch watcher))).map fun x =>
        if waited then x.setReader watcher ((x.readers watcher).mark (x.published watcher)) else x
  | .get watcher =>
      if x.state.holds watcher then
        some (x.setReader watcher ((x.readers watcher).read (x.get watcher)))
      else none
  | .changed watcher =>
      if x.state.holds watcher then
        match x.change watcher with
        | .ready =>
            some (x.setReader watcher ((x.readers watcher).mark (x.published watcher)))
        | .ended => some x
        | .pending => none
      else none

end Consumption

def Consumes (rmp : Rmp) (options : ConnectOptions) (x : Consumption) : Prop :=
  Reaches (Consumption.step rmp) anyStep { state := State.initial options } x

/-! ## A `Watcher` has a first value -/

def Supplied (s : State) : Prop :=
  ∀ w watching, s.watching w = some watching → watching.stage = .watching →
    publishedTo w s.history ≠ []

theorem publishedTo_grows {rmp : Rmp} {s s' : State} {event : Event}
    (h : step rmp s event = some s') (w : Nat) :
    publishedTo w s.history <+: publishedTo w s'.history := by
  obtain ⟨actions, hhistory⟩ := history_grows (Reaches.next .refl trivial h)
  rw [hhistory, publishedTo_append]
  exact List.prefix_append _ _

theorem cell_eq_none {s : State} {w : Nat} : s.cell w = none ↔ publishedTo w s.history = [] :=
  List.getLast?_eq_none_iff

theorem Supplied.issued {s s' : State} {event : CallerEvent} (h : Supplied s)
    (hhistory : s'.history = s.history) (hmove : WatcherMove s event s') : Supplied s' := by
  have hupdate {watcher : Nat} {watching' : Watching}
      (hwatching : s'.watching = Function.update s.watching watcher (some watching'))
      (hnew : watching'.stage = .watching → publishedTo watcher s.history ≠ []) : Supplied s' := by
    intro w watching hw hstage
    rw [hhistory]
    rw [hwatching] at hw
    by_cases hsame : w = watcher
    · subst hsame
      rw [Function.update_self] at hw
      obtain rfl := Option.some.inj hw
      exact hnew hstage
    · rw [Function.update_of_ne hsame] at hw
      exact h w watching hw hstage
  cases hmove with
  | idle hwatching =>
      intro w watching hw hstage
      rw [hhistory]
      exact h w watching (hwatching ▸ hw) hstage
  | issued hwatching => exact hupdate hwatching fun hstage => by cases hstage
  | submitted hw halive hstage hwatching => exact hupdate hwatching fun hstage => by cases hstage
  | @resolved watcher _ hw halive hstage hcell hwatching =>
      refine hupdate hwatching fun _ hnil => ?_
      rw [cell_eq_none.mpr hnil] at hcell
      cases hcell
  | vanished hw halive hhow hwatching => exact hupdate hwatching fun hstage => h _ _ hw hstage
  | dropped hw halive hstage hwatching => exact hupdate hwatching fun hstage => h _ _ hw hstage

theorem Supplied.step {rmp : Rmp} {s s' : State} {event : Event} (h : Supplied s)
    (hstep : Connection.step rmp s event = some s') : Supplied s' := by
  cases step_move hstep with
  | caller hmove => exact h.issued hmove.untouched.history hmove.watcherMove
  | task hmove =>
      intro w watching hw hstage hnil
      apply h w watching (hmove.untouched.watching ▸ hw) hstage
      exact List.prefix_nil.mp (hnil ▸ publishedTo_grows hstep w)
  | server => exact h

/-! ## Runs -/

structure Tracked (rmp : Rmp) (options : ConnectOptions) (x : Consumption) : Prop where
  noticed : Noticed rmp options x.state x.notices
  supplied : Supplied x.state
  readers : ∀ w, (x.readers w).Sound (x.published w)

theorem Tracked.advance {rmp : Rmp} {options : ConnectOptions} {x y : Consumption} {event : Event}
    (h : Tracked rmp options x) (hstep : x.advance rmp event = some y) :
    Tracked rmp options y := by
  simp only [Consumption.advance, Option.map_eq_some_iff] at hstep
  obtain ⟨⟨state, notices⟩, hobserve, rfl⟩ := hstep
  obtain ⟨hmoved, rfl⟩ := observing_eq_some.mp hobserve
  refine ⟨.next h.noticed trivial hobserve, h.supplied.step hmoved, fun w => ?_⟩
  exact (h.readers w).extend (publishedTo_grows hmoved w)

theorem Tracked.setReader {rmp : Rmp} {options : ConnectOptions} {x : Consumption} {watcher : Nat}
    {reader : Reader Bytes} (h : Tracked rmp options x)
    (hreader : reader.Sound (x.published watcher)) :
    Tracked rmp options (x.setReader watcher reader) where
  noticed := h.noticed
  supplied := h.supplied
  readers w := by
    change Reader.Sound (x.published w) (Function.update x.readers watcher reader w)
    by_cases hsame : w = watcher
    · subst hsame
      rw [Function.update_self]
      exact hreader
    · rw [Function.update_of_ne hsame]
      exact h.readers w

theorem State.holds_iff {s : State} {watcher : Nat} : s.holds watcher = true ↔
    ∃ watching, s.watching watcher = some watching ∧ watching.alive = true ∧
      watching.stage = .watching := by
  rw [State.holds, Option.any_eq_true]
  simp only [Bool.and_eq_true, beq_iff_eq]

theorem Tracked.get {rmp : Rmp} {options : ConnectOptions} {x : Consumption} {watcher : Nat}
    (h : Tracked rmp options x) (hholds : x.state.holds watcher = true) :
    (x.published watcher).getLast? = some (x.get watcher) := by
  obtain ⟨watching, hw, -, hstage⟩ := State.holds_iff.mp hholds
  cases hcell : x.state.cell watcher with
  | none => exact absurd (cell_eq_none.mp hcell) (h.supplied watcher watching hw hstage)
  | some value =>
      rw [Consumption.get, hcell]
      exact hcell

theorem Tracked.step {rmp : Rmp} {options : ConnectOptions} {x y : Consumption}
    {event : ConsumerEvent} (h : Tracked rmp options x) (hstep : x.step rmp event = some y) :
    Tracked rmp options y := by
  cases event with
  | system event =>
      simp only [Consumption.step, Option.ite_none_left_eq_some] at hstep
      exact h.advance hstep.2
  | subscribed watcher waited =>
      simp only [Consumption.step, Option.map_eq_some_iff] at hstep
      obtain ⟨z, hadvance, rfl⟩ := hstep
      have hz := h.advance hadvance
      cases waited with
      | true => exact hz.setReader (hz.readers watcher).mark
      | false => exact hz
  | get watcher =>
      simp only [Consumption.step, Option.ite_none_right_eq_some, Option.some.injEq] at hstep
      obtain ⟨hholds, rfl⟩ := hstep
      exact h.setReader ((h.readers watcher).read (h.get hholds))
  | changed watcher =>
      simp only [Consumption.step, Option.ite_none_right_eq_some] at hstep
      obtain ⟨hholds, hstep⟩ := hstep
      split at hstep
      · cases hstep
        exact h.setReader (h.readers watcher).mark
      · cases hstep
        exact h
      · cases hstep

theorem Consumes.tracked {rmp : Rmp} {options : ConnectOptions} {x : Consumption}
    (h : Consumes rmp options x) : Tracked rmp options x := by
  refine Reaches.invariant (I := Tracked rmp options) ?_ ?_ h
  · refine ⟨.refl, ?_, fun _ => .start⟩
    intro w watching hw
    simp [State.initial] at hw
  · intro x y event _ htracked _ hstep
    exact htracked.step hstep

/-- A `Watcher` always has a value to give.  Its consumer reads events of its key that were
read since it was registered, none before an older one; and when it has read one since
`changed` last returned and need not wait for another, it has read the newest. -/
theorem consumer_holds_latest {rmp : Rmp} {options : ConnectOptions} {x : Consumption}
    (h : Consumes rmp options x) {w : Nat} {watching : Watching}
    (hw : x.state.watching w = some watching) (hstage : watching.stage = .watching) :
    (x.state.cell w).isSome ∧
      (∃ places : List Nat, places.Pairwise (· ≤ ·) ∧
        places.map ((valuesFor w watching.key x.notices)[·]?) =
          (x.readers w).got.map some) ∧
      (watching.alive = true → x.state.nextWatchId ≤ 2 ^ 64 + 1 →
        ∀ value, (x.readers w).held = some value → x.change w ≠ .ready →
          (valuesFor w watching.key x.notices).getLast? = some value) := by
  have htracked := h.tracked
  have hfanned := htracked.noticed.fanned
  refine ⟨?_, ?_, ?_⟩
  · rw [Option.isSome_iff_ne_none]
    exact fun hcell => htracked.supplied w watching hw hstage (cell_eq_none.mp hcell)
  · exact ((htracked.readers w).extend (hfanned.heard w watching hw)).got
  · intro halive hbound value hheld hchange
    rw [← hfanned.kept hbound w watching hw halive]
    exact (htracked.readers w).latest hheld hchange

def sampleConsumer : List ConsumerEvent :=
  (sampleHandshake 0 [] ++
    [Event.task (.drain .sent), .caller (.watch "config"), .caller (.submitWatch 1),
      .task (.command .sent), .task (.drain .sent), .server 0 (eventPacket "config" [1]),
      .task (.packet .sent), .task (.drain .sent)]).map .system ++
    [.subscribed 1 true, .get 1] ++
    [Event.server 0 (eventPacket "config" [2]), .server 0 (eventPacket "config" [3]),
      .task (.packet .sent), .task (.drain .sent), .task (.packet .sent)].map .system ++
    [.changed 1, .get 1]

theorem consumer_holds_latest_sample :
    ∃ x, Consumes fixintRmp {} x ∧ (x.readers 1).got = [[1], [3]] ∧
      ∃ watching, x.state.watching 1 = some watching ∧
        (valuesFor 1 watching.key x.notices).getLast? = some [3] := by
  obtain ⟨x, hreach, hcheck⟩ := reaches_of_check (Consumption.step fixintRmp)
    { state := .initial {} } sampleConsumer
    (fun x => (x.state.watching 1).any (fun w => w.alive && w.stage == .watching) &&
      decide (x.state.nextWatchId = 2 ∧ (x.readers 1).got = [[1], [3]] ∧
        (x.readers 1).held = some [3] ∧ x.change 1 ≠ .ready)) (by decide +kernel)
  simp only [Bool.and_eq_true, decide_eq_true_eq, Option.any_eq_true, beq_iff_eq] at hcheck
  obtain ⟨⟨watching, hw, halive, hstage⟩, hnext, hgot, hheld, hchange⟩ := hcheck
  have hbound : x.state.nextWatchId ≤ 2 ^ 64 + 1 := by
    rw [hnext]
    decide
  exact ⟨x, hreach, hgot, watching, hw,
    (consumer_holds_latest hreach hw hstage).2.2 halive hbound _ hheld hchange⟩

end Tarant.Connection
