import Tarant.Foundation.Feed
import Tarant.Connection.Leaks

/-!
# Broadcast values

The connection together with a server that keeps a value for every key.  For each key
a link carries a feed of these values, with the entries of the watchers map as its
members; an entry that joins a running feed is given nothing until the value changes.
-/

namespace Tarant.Connection

open Foundation
open Iproto

/-! ## The server -/

/--
The connection and the server: the values of the keys, the registrations of each link
with the value sent last and whether it was acknowledged, and how many packets of each
link were processed.
-/
structure Joint where
  client : State
  values : String → Bytes
  registrations : Nat → String → Option (Bytes × Bool) := fun _ _ => none
  processed : Nat → Nat := fun _ => 0

namespace Joint

def register (s : Joint) (link : Nat) (key : String) (registration : Option (Bytes × Bool)) :
    Joint :=
  { s with
    registrations := Function.update s.registrations link
      (Function.update (s.registrations link) key registration) }

def arrive (s : Joint) (link : Nat) (inbound : Inbound) : Joint :=
  { s with
    client := { s.client with
      inbound := Function.update s.client.inbound link (s.client.inbound link ++ [inbound]) } }

def emit (s : Joint) (link : Nat) (key : String) : Joint :=
  (s.register link key (some (s.values key, false))).arrive link (eventPacket key (s.values key))

/-- A `WATCH` registers its key, or acknowledges the last event. -/
def watch (s : Joint) (link : Nat) (key : String) : Joint :=
  match s.registrations link key with
  | none => s.emit link key
  | some (sent, _) =>
      if sent = s.values key then s.register link key (some (sent, true)) else s.emit link key

def answer (s : Joint) (link : Nat) (sent : Origin × Packet) : Joint :=
  match sent.1.registers, sent.2.eventKey with
  | some true, some key => s.watch link key
  | some false, some key => s.register link key none
  | _, _ => s

def advance (s : Joint) (link : Nat) : Joint :=
  { s with processed := Function.update s.processed link (s.processed link + 1) }

def process (s : Joint) (link : Nat) : Option Joint :=
  if link < s.client.sockets then
    (outbound link s.client.history)[s.processed link]?.map ((s.advance link).answer link)
  else none

def notify (s : Joint) (link : Nat) (key : String) : Option Joint :=
  match s.registrations link key with
  | some (sent, true) =>
      if link < s.client.sockets ∧ sent ≠ s.values key then some (s.emit link key) else none
  | _ => none

end Joint

/-- An event the server sends of its own accord is none of these. -/
def Event.bringsEvent : Event → Bool
  | .server _ inbound => inbound.response.kind == .event
  | _ => false

inductive JointEvent where
  /-- A step of the connection, or a packet other than an event. -/
  | connection (event : Event)
  | process (link : Nat)
  | notify (link : Nat) (key : String)
  | broadcast (key : String) (value : Bytes)

def jointStep (rmp : Rmp) (s : Joint) : JointEvent → Option Joint
  | .connection event =>
      if event.bringsEvent then none
      else (step rmp s.client event).map fun client => { s with client := client }
  | .process link => s.process link
  | .notify link key => s.notify link key
  | .broadcast key value => some { s with values := Function.update s.values key value }

/-! ## The feed of a key -/

def Inbound.event (inbound : Inbound) : Option (String × Bytes) :=
  if inbound.response.kind = .event then inbound.response.event else none

def Inbound.eventFor (key : String) (inbound : Inbound) : Option Bytes :=
  inbound.event.bind fun (k, data) => if k = key then some data else none

def State.live (s : State) (key : String) : List Nat :=
  (((s.task.watchers.lookup key).getD []).map Subscriber.watcher).filter s.receiverAlive

namespace Joint

def feed (s : Joint) (link : Nat) (key : String) : Feed Nat Bytes where
  handled := ((outbound link s.client.history).take (s.processed link)).filterMap
    (sessionRequest key)
  requests := ((outbound link s.client.history).drop (s.processed link)).filterMap
    (sessionRequest key)
  registration := s.registrations link key
  events := ((s.client.inbound link).drop (s.client.read link)).filterMap (Inbound.eventFor key)
  wanted := (s.client.task.watchers.lookup key).isSome
  members := s.client.live key
  cell := s.client.cell

/-- The link is up, and nothing is on its way in either direction. -/
structure Quiescent (s : Joint) : Prop where
  up : s.client.phase.up = true
  unbroken : Unbroken s.client.link s.client.history
  channel : s.client.channel = []
  deferred : s.client.task.deferred = []
  read : s.client.read s.client.link = (s.client.inbound s.client.link).length
  processed : s.processed s.client.link = (outbound s.client.link s.client.history).length
  notified : ∀ key, s.notify s.client.link key = none

end Joint

/-- A live watcher joins a key with an event still to come, or one not watched yet. -/
def Prompt (s : Joint) : JointEvent → Prop
  | .connection event => ∀ id key watcher,
      s.client.handles? event = some (.watch id key watcher) →
        s.client.receiverAlive watcher = true → Unbroken s.client.link s.client.history →
          s.client.task.watchers.lookup key = none ∨ (s.feed s.client.link key).Due
  | _ => True

def JointlyReachableBy (rmp : Rmp) (options : ConnectOptions) (values : String → Bytes)
    (allowed : Joint → JointEvent → Prop) (s : Joint) : Prop :=
  Reaches (jointStep rmp) allowed { client := State.initial options, values := values } s

def Joint.Converged (s : Joint) : Prop :=
  s.Quiescent → ∀ key list, s.client.task.watchers.lookup key = some list →
    ∀ subscriber ∈ list, s.client.receiverAlive subscriber.watcher = true →
      s.client.cell subscriber.watcher = some (s.values key)

/-! ## The server's steps on the feeds -/

theorem eventFor_eventPacket (key key' : String) (value : Bytes) :
    (eventPacket key value).eventFor key' = if key = key' then some value else none := by
  have hevent : (eventPacket key value).event = some (key, value) :=
    (if_pos rfl).trans (eventPacket_event key value)
  rw [Inbound.eventFor, hevent]
  rfl

theorem eventFor_of_kind {inbound : Inbound} (h : inbound.response.kind ≠ .event) (key : String) :
    inbound.eventFor key = none := by
  rw [Inbound.eventFor, Inbound.event, if_neg h]
  rfl

structure Joint.Orderly (s : Joint) : Prop where
  processed : ∀ link, s.processed link ≤ (outbound link s.client.history).length
  read : ∀ link, s.client.read link ≤ (s.client.inbound link).length
  fresh : ∀ link key, (s.feed link key).handled = [] → s.registrations link key = none ∧
    (s.feed link key).events = []

namespace Joint

variable {s : Joint} {link link' : Nat} {key key' : String}

theorem feed_register_self (registration : Option (Bytes × Bool)) :
    (s.register link key registration).feed link key =
      { s.feed link key with registration := registration } := by
  simp [feed, register]

theorem feed_register_other (h : ¬ (link' = link ∧ key' = key))
    (registration : Option (Bytes × Bool)) :
    (s.register link key registration).feed link' key' = s.feed link' key' := by
  by_cases hlink : link' = link
  · subst hlink
    have hkey : key' ≠ key := fun heq => h ⟨rfl, heq⟩
    simp [feed, register, hkey]
  · simp [feed, register, hlink]

theorem feed_arrive (hread : s.client.read link' ≤ (s.client.inbound link').length)
    (inbound : Inbound) (key' : String) :
    (s.arrive link inbound).feed link' key' =
      { s.feed link' key' with
        events := (s.feed link' key').events ++
          if link' = link then (inbound.eventFor key').toList else [] } := by
  by_cases hlink : link' = link
  · subst hlink
    have hdrop : ((s.client.inbound link' ++ [inbound]).drop (s.client.read link')).filterMap
        (Inbound.eventFor key') = ((s.client.inbound link').drop (s.client.read link')).filterMap
          (Inbound.eventFor key') ++ (inbound.eventFor key').toList := by
      rw [List.drop_append_of_le_length hread, List.filterMap_append]
      cases hevent : inbound.eventFor key' <;> simp [hevent]
    simp only [feed, arrive, Function.update_self, hdrop, if_true]
    rfl
  · simp only [feed, arrive, Function.update_of_ne hlink, if_neg hlink, List.append_nil]
    rfl

theorem feed_emit_self (hread : s.client.read link ≤ (s.client.inbound link).length) :
    (s.emit link key).feed link key = (s.feed link key).emit (s.values key) := by
  rw [emit, feed_arrive (s := s.register link key _) hread, feed_register_self,
    eventFor_eventPacket, if_pos rfl, if_pos rfl]
  rfl

theorem feed_emit_other (hread : s.client.read link' ≤ (s.client.inbound link').length)
    (h : ¬ (link' = link ∧ key' = key)) : (s.emit link key).feed link' key' = s.feed link' key' := by
  have hnone : (if link' = link then ((eventPacket key (s.values key)).eventFor key').toList
      else []) = [] := by
    split
    next hlink =>
        rw [eventFor_eventPacket, if_neg fun hkey => h ⟨hlink, hkey.symm⟩]
        rfl
    next => rfl
  rw [emit, feed_arrive (s := s.register link key _) hread, feed_register_other h, hnone,
    List.append_nil]

theorem feed_watch_self (hread : s.client.read link ≤ (s.client.inbound link).length) :
    (s.watch link key).feed link key = (s.feed link key).respond (s.values key) true := by
  have hregistration : (s.feed link key).registration = s.registrations link key := rfl
  unfold watch Feed.respond
  rw [hregistration]
  cases s.registrations link key with
  | none => exact feed_emit_self hread
  | some record =>
      simp only
      split
      · exact feed_register_self _
      · exact feed_emit_self hread

theorem feed_watch_other (hread : s.client.read link' ≤ (s.client.inbound link').length)
    (h : ¬ (link' = link ∧ key' = key)) : (s.watch link key).feed link' key' = s.feed link' key' := by
  unfold watch
  split
  · exact feed_emit_other hread h
  · split
    · exact feed_register_other h _
    · exact feed_emit_other hread h

theorem feed_answer_self (hread : s.client.read link ≤ (s.client.inbound link).length)
    {sent : Origin × Packet} {request : Bool} (hrequest : sessionRequest key sent = some request) :
    (s.answer link sent).feed link key = (s.feed link key).respond (s.values key) request := by
  rw [sessionRequest, Option.ite_none_right_eq_some] at hrequest
  obtain ⟨hkey, hregisters⟩ := hrequest
  rw [answer, hkey, hregisters]
  cases request with
  | true => exact feed_watch_self hread
  | false => exact feed_register_self none

theorem feed_answer_other (hread : s.client.read link' ≤ (s.client.inbound link').length)
    {sent : Origin × Packet} (h : link' = link → sessionRequest key' sent = none) :
    (s.answer link sent).feed link' key' = s.feed link' key' := by
  have hother {request : Bool} {key : String} (hregisters : sent.1.registers = some request)
      (hkey : sent.2.eventKey = some key) : ¬ (link' = link ∧ key' = key) := by
    rintro ⟨hlink, rfl⟩
    have hnone := h hlink
    rw [sessionRequest, if_pos hkey, hregisters] at hnone
    cases hnone
  unfold answer
  split
  next hregisters hkey => exact feed_watch_other hread (hother hregisters hkey)
  next hregisters hkey => exact feed_register_other (hother hregisters hkey) none
  next => rfl

theorem process_cases {s' : Joint} (h : s.process link = some s') :
    link < s.client.sockets ∧
      ∃ sent, (outbound link s.client.history)[s.processed link]? = some sent ∧
        s' = (s.advance link).answer link sent := by
  unfold process at h
  rw [Option.ite_none_right_eq_some, Option.map_eq_some_iff] at h
  obtain ⟨hopened, sent, hsent, rfl⟩ := h
  exact ⟨hopened, sent, hsent, rfl⟩

theorem notify_cases {s' : Joint} (h : s.notify link key = some s') :
    link < s.client.sockets ∧ (s.registrations link key).isSome = true ∧ s' = s.emit link key := by
  unfold notify at h
  split at h
  next hregistration =>
      rw [Option.ite_none_right_eq_some] at h
      obtain ⟨⟨hopened, -⟩, hemit⟩ := h
      exact ⟨hopened, by rw [hregistration]; rfl, (Option.some.inj hemit).symm⟩
  next => cases h

theorem process_feed {s' : Joint} (h : s.Orderly) (hprocess : s.process link = some s')
    (link' : Nat) (key' : String) : s'.feed link' key' = s.feed link' key' ∨
      ∃ request rest, (s.feed link' key').requests = request :: rest ∧
        s'.feed link' key' = (s.feed link' key').serve (s.values key') request rest := by
  obtain ⟨-, sent, hsent, rfl⟩ := process_cases hprocess
  by_cases hlink : link' = link
  · subst hlink
    obtain ⟨hlt, hget⟩ := List.getElem?_eq_some_iff.mp hsent
    have htake := List.take_succ_eq_append_getElem hlt
    have hdrop := List.drop_eq_getElem_cons hlt
    rw [hget] at htake hdrop
    cases hrequest : sessionRequest key' sent with
    | none =>
        refine .inl ((feed_answer_other (s := s.advance link') (h.read link')
          fun _ => hrequest).trans ?_)
        simp only [feed, advance, Function.update_self, htake, hdrop, List.filterMap_append,
          List.filterMap_cons, hrequest, List.filterMap_nil, List.append_nil]
    | some request =>
        refine .inr ⟨request, ((outbound link' s.client.history).drop
          (s.processed link' + 1)).filterMap (sessionRequest key'), ?_, ?_⟩
        · simp only [feed, hdrop, List.filterMap_cons, hrequest]
        · rw [feed_answer_self (s := s.advance link') (h.read link') hrequest, Feed.serve]
          simp only [feed, advance, Function.update_self, htake, List.filterMap_append,
            List.filterMap_cons, hrequest, List.filterMap_nil]
  · refine .inl ((feed_answer_other (s := s.advance link) (h.read link')
        fun heq => absurd heq hlink).trans ?_)
    simp only [feed, advance, Function.update_of_ne hlink]

theorem notify_feed {s' : Joint} (h : s.Orderly) (hnotify : s.notify link key = some s')
    (link' : Nat) (key' : String) : s'.feed link' key' = s.feed link' key' ∨
      (s.feed link' key').registration.isSome = true ∧
        s'.feed link' key' = (s.feed link' key').emit (s.values key') := by
  obtain ⟨-, hregistered, rfl⟩ := notify_cases hnotify
  by_cases hsame : link' = link ∧ key' = key
  · obtain ⟨rfl, rfl⟩ := hsame
    exact .inr ⟨hregistered, feed_emit_self (h.read link')⟩
  · exact .inl (feed_emit_other (h.read link') hsame)

end Joint

end Tarant.Connection
