import Tarant.Connection.Settlement
import Tarant.Connection.Records

/-!
# Session pushes

A chunk goes into the push channel of the request that is pending under its
sync.  `PushChannel` says what the owner of a channel is to see of a run, given
only which requests were accepted, which packets were read, and when the link
was lost or closed; the task's pending map is shown to implement it.
-/

namespace Tarant.Connection

open Foundation

/-! ## What the owner of a push channel is to see -/

inductive Observation where
  /-- A request entered the pending map, with its push channel if it has one. -/
  | accepted (sync : Nat) (pushes : Option Nat)
  | received (response : Response)
  | linkLost
  | closed

structure PushChannel where
  isOpen : Bool := false
  chunks : List Bytes := []
  deriving DecidableEq

/-- What the owner is promised: the channel ends with the final reply or the link. -/
def PushChannel.observe (n : Nat) (channel : PushChannel) : Observation → PushChannel
  | .accepted _ pushes =>
      if pushes = some n then { channel with isOpen := true } else channel
  | .received response =>
      if response.sync = syncOf n then
        if Kind.final response.kind then { channel with isOpen := false }
        else if response.kind = .chunk ∧ channel.isOpen then
          { channel with chunks := channel.chunks ++ [response.dataBytes] }
        else channel
      else channel
  | .linkLost => { channel with isOpen := false }
  | .closed => channel

def PushChannel.after (n : Nat) (seen : List Observation) : PushChannel :=
  seen.foldl (PushChannel.observe n) {}

inductive Observation.Cuts (n : Nat) : Observation → Prop where
  /-- Only a wrapped counter hands out the sync of `n` again. -/
  | overwritten {pushes : Option Nat} (hpushes : pushes ≠ some n) :
      Cuts n (.accepted (syncOf n) pushes)
  | closed : Cuts n .closed

instance (n : Nat) (observation : Observation) : Decidable (observation.Cuts n) :=
  match observation with
  | .accepted sync pushes =>
      decidable_of_iff (sync = syncOf n ∧ pushes ≠ some n)
        ⟨fun ⟨hsync, hpushes⟩ => hsync ▸ .overwritten hpushes, by rintro ⟨⟩; exact ⟨rfl, ‹_›⟩⟩
  | .received _ | .linkLost => .isFalse nofun
  | .closed => .isTrue .closed

/-- What the owner gets: the channel also ends when it is cut off. -/
def PushChannel.follow (n : Nat) (channel : PushChannel) (observation : Observation) :
    PushChannel :=
  if observation.Cuts n then { channel with isOpen := false } else channel.observe n observation

def PushChannel.followed (n : Nat) (seen : List Observation) : PushChannel :=
  seen.foldl (PushChannel.follow n) {}

/-- Whatever cuts the channel off finds it closed. -/
def PushChannel.Uncut (n : Nat) : PushChannel → List Observation → Prop
  | _, [] => True
  | channel, observation :: seen =>
      (observation.Cuts n → channel.isOpen = false) ∧ Uncut n (channel.follow n observation) seen

namespace PushChannel

variable {n : Nat} {channel : PushChannel} {seen seen' : List Observation}

theorem follow_of_cuts {observation : Observation} (h : observation.Cuts n) :
    channel.follow n observation = { channel with isOpen := false } := if_pos h

theorem follow_of_not_cuts {observation : Observation} (h : ¬ observation.Cuts n) :
    channel.follow n observation = channel.observe n observation := if_neg h

theorem observe_of_cuts {observation : Observation} (h : observation.Cuts n) :
    channel.observe n observation = channel := by
  cases h with
  | overwritten hpushes => exact if_neg hpushes
  | closed => rfl

theorem follow_accepted (sync : Nat) (pushes : Option Nat) :
    channel.follow n (.accepted sync pushes) =
      if pushes = some n then { channel with isOpen := true }
      else if sync = syncOf n then { channel with isOpen := false } else channel := by
  by_cases hpushes : pushes = some n
  · rw [follow_of_not_cuts (by rintro ⟨hother⟩; exact hother hpushes), if_pos hpushes]
    exact if_pos hpushes
  rw [if_neg hpushes]
  by_cases hsync : sync = syncOf n
  · rw [if_pos hsync, hsync, follow_of_cuts (.overwritten hpushes)]
  · rw [if_neg hsync, follow_of_not_cuts (by rintro ⟨⟩; exact hsync rfl)]
    exact if_neg hpushes

@[simp] theorem follow_received (response : Response) :
    channel.follow n (.received response) = channel.observe n (.received response) :=
  follow_of_not_cuts nofun

@[simp] theorem follow_linkLost : channel.follow n .linkLost = { channel with isOpen := false } :=
  follow_of_not_cuts nofun

@[simp] theorem follow_closed : channel.follow n .closed = { channel with isOpen := false } :=
  follow_of_cuts .closed

theorem Uncut.append (h : Uncut n channel seen)
    (h' : Uncut n (seen.foldl (follow n) channel) seen') : Uncut n channel (seen ++ seen') := by
  induction seen generalizing channel with
  | nil => exact h'
  | cons observation seen ih => exact ⟨h.1, ih h.2 h'⟩

/-- A channel that is never cut off is as promised. -/
theorem Uncut.foldl_observe (h : Uncut n channel seen) :
    seen.foldl (observe n) channel = seen.foldl (follow n) channel := by
  induction seen generalizing channel with
  | nil => rfl
  | cons observation seen ih =>
      obtain ⟨hcut, hrest⟩ := h
      have hsame : channel.observe n observation = channel.follow n observation := by
        by_cases hcuts : observation.Cuts n
        · rw [observe_of_cuts hcuts, follow_of_cuts hcuts, ← hcut hcuts]
        · rw [follow_of_not_cuts hcuts]
      rw [List.foldl_cons, List.foldl_cons, hsame, ih hrest]

end PushChannel

/-! ## Observing the connection -/

def Action.observation (down : Bool) : Action → Option Observation
  | .handled _ (.request sync _ _ pushes) =>
      if down then none else some (.accepted sync pushes)
  | .lost _ _ => some .linkLost
  | .closedSocket _ _ => some .closed
  | _ => none

def State.readBy (s : State) : Event → Option Response
  | .task (.packet _) => ((s.inbound s.link)[s.read s.link]?).map Inbound.response
  | _ => none

def seenIn (down : Bool) (reply : Option Response) (actions : List Action) :
    List Observation :=
  reply.toList.map .received ++ actions.filterMap (Action.observation down)

def State.observations (s : State) (event : Event) (s' : State) : List Observation :=
  seenIn s.task.shuttingDown (s.readBy event) (s'.history.drop s.history.length)

theorem observations_eq {s s' : State} {event : Event} {actions : List Action}
    (h : s'.history = s.history ++ actions) :
    s.observations event s' = seenIn s.task.shuttingDown (s.readBy event) actions := by
  rw [State.observations, h, List.drop_left]

def Observed (rmp : Rmp) (options : ConnectOptions) (s : State) (seen : List Observation) :
    Prop :=
  Reaches (observing (step rmp) State.observations) anyStep (State.initial options, [])
    (s, seen)

def ObservedBy (rmp : Rmp) (options : ConnectOptions) (allowed : State → Event → Prop)
    (s : State) (seen : List Observation) : Prop :=
  Reaches (observing (step rmp) State.observations) (fun x event => allowed x.1 event)
    (State.initial options, []) (s, seen)

def pushedTo (n : Nat) (history : List Action) : List Bytes :=
  history.filterMap fun
    | .pushed ticket data => if ticket = n then some data else none
    | _ => none

def Task.listening (t : Task) (n : Nat) : Bool :=
  decide ((t.pending.lookup (syncOf n)).bind Pending.pushes = some n)

def Command.holdsPushes (n : Nat) : Command → Bool
  | .request _ _ _ pushes => pushes == some n
  | _ => false

def State.pushSender (s : State) (n : Nat) : Bool :=
  (s.channel ++ s.task.deferred).any (Command.holdsPushes n) ||
    s.task.pending.entries.any (·.2.pushes == some n)

theorem pushedTo_append (n : Nat) (history actions : List Action) :
    pushedTo n (history ++ actions) = pushedTo n history ++ pushedTo n actions :=
  List.filterMap_append

theorem seenIn_append (down : Bool) (reply : Option Response) (actions actions' : List Action) :
    seenIn down reply (actions ++ actions') =
      seenIn down reply actions ++ seenIn down none actions' := by
  simp [seenIn]

/-! ## What each function of the task does to the push channels -/

def Command.OwnPushes : Command → Prop
  | .request sync _ _ pushes => ∀ n ∈ pushes, sync = syncOf n
  | _ => True

def OwnChannels (t : Task) : Prop :=
  ∀ sync, ∀ pending ∈ t.pending.lookup sync, ∀ n ∈ pending.pushes, sync = syncOf n

/-- Between `t` and `t'` every push channel gets what it is to get, and has a
sender left if it is to have one; `safe` keeps it from being cut off.  An accepted
request is written. -/
structure Tracks (safe : Prop) (down : Bool) (reply : Option Response) (t : Task)
    (actions : List Action) (t' : Task) : Prop where
  channels : ∀ n chunks, (seenIn down reply actions).foldl (PushChannel.follow n)
    ⟨t.listening n, chunks⟩ = ⟨t'.listening n, chunks ++ pushedTo n actions⟩
  uncut : safe → ∀ n chunks,
    PushChannel.Uncut n ⟨t.listening n, chunks⟩ (seenIn down reply actions)
  written : ∀ link sync packet n pushes, .handled link (.request sync packet n pushes) ∈ actions →
    down = false → 0 < actions.countP (Action.writes n)

section Task

variable {safe : Prop} {down : Bool} {reply : Option Response} {t t' t'' : Task}
  {actions actions' : List Action} {link : Nat}

theorem Tracks.trans (h : Tracks safe down reply t actions t')
    (h' : Tracks safe down none t' actions' t'') :
    Tracks safe down reply t (actions ++ actions') t'' where
  channels n chunks := by
    rw [seenIn_append, List.foldl_append, h.channels, h'.channels, pushedTo_append,
      List.append_assoc]
  uncut hsafe n chunks := by
    rw [seenIn_append]
    refine (h.uncut hsafe n chunks).append ?_
    rw [h.channels]
    exact h'.uncut hsafe n _
  written link sync packet n pushes hmem hdown := by
    rw [List.countP_append]
    rcases List.mem_append.mp hmem with hmem | hmem
    · have := h.written link sync packet n pushes hmem hdown
      omega
    · have := h'.written link sync packet n pushes hmem hdown
      omega

def Action.Silent : Action → Prop
  | .handled _ command => command.reply? = none
  | .pushed _ _ | .lost _ _ | .closedSocket _ _ => False
  | _ => True

theorem request_not_silent {sync n : Nat} {packet : Packet} {pushes : Option Nat} :
    ¬ (Action.handled link (.request sync packet n pushes)).Silent := by
  simp [Action.Silent, Command.reply?]

theorem seenIn_silent (h : ∀ action ∈ actions, action.Silent) : seenIn down none actions = [] := by
  simp only [seenIn, Option.toList_none, List.map_nil, List.nil_append,
    List.filterMap_eq_nil_iff]
  intro action hmem
  have hsilent := h action hmem
  cases action with
  | handled link command =>
      cases command with
      | request => exact absurd hsilent (Option.some_ne_none _)
      | _ => rfl
  | pushed | lost | closedSocket => exact hsilent.elim
  | _ => rfl

theorem pushedTo_silent (h : ∀ action ∈ actions, action.Silent) (n : Nat) :
    pushedTo n actions = [] := by
  rw [pushedTo, List.filterMap_eq_nil_iff]
  intro action hmem
  have hsilent := h action hmem
  cases action with
  | pushed => exact hsilent.elim
  | _ => rfl

theorem Tracks.of_silent (h : ∀ action ∈ actions, action.Silent)
    (hpending : t'.pending = t.pending) : Tracks safe down none t actions t' where
  channels n chunks := by
    rw [seenIn_silent h, pushedTo_silent h, List.foldl_nil, List.append_nil]
    simp only [Task.listening, hpending]
  uncut _ n chunks := by
    rw [seenIn_silent h]
    trivial
  written link sync packet n pushes hmem := absurd (h _ hmem) request_not_silent

theorem seenIn_cons (down : Bool) (action : Action) (actions : List Action) :
    seenIn down none (action :: actions) =
      (action.observation down).toList ++ seenIn down none actions := by
  cases h : action.observation down <;> simp [seenIn, h]

theorem listening_insert {sync ticket : Nat} {pushes : Option Nat}
    (hown : ∀ n ∈ pushes, sync = syncOf n) (n : Nat) :
    Task.listening { t with pending := t.pending.insert sync ⟨ticket, pushes⟩ } n =
      if pushes = some n then true
      else if sync = syncOf n then false else t.listening n := by
  simp only [Task.listening]
  split_ifs with hpushes hsync
  · rw [hown n hpushes, AList.lookup_insert]
    simpa using hpushes
  · rw [hsync, AList.lookup_insert]
    simpa using hpushes
  · rw [AList.lookup_insert_ne (Ne.symm hsync)]

def Task.Fresh (t : Task) (command : Command) : Prop :=
  t.shuttingDown = false → ∀ sync packet n pushes,
    command = .request sync packet n pushes → t.pending.lookup sync = none

theorem Handling.silent {send : SendResult} {command : Command} {result : Except Error Unit}
    (h : Handling t link send command t' actions result) : ∀ action ∈ actions, action.Silent := by
  intro action hmem
  cases h.acts action hmem <;> trivial

theorem Handling.tracks {send : SendResult} {command : Command} {result : Except Error Unit}
    (h : Handling t link send command t' actions result) (hown : command.OwnPushes)
    (hfresh : safe → t.Fresh command) :
    Tracks safe t.shuttingDown none t (.handled link command :: actions) t' := by
  have hsilent := h.silent
  have hpushed : ∀ n, pushedTo n (.handled link command :: actions) = [] := by
    intro n
    exact (pushedTo_append n [.handled link command] actions).trans (pushedTo_silent hsilent n)
  constructor
  · intro n chunks
    rw [hpushed, seenIn_cons, seenIn_silent hsilent, List.append_nil, List.append_nil]
    cases h with
    | refused hdown => simp [Action.observation, hdown]
    | requested hdown =>
        rw [listening_insert hown]
        simp only [Action.observation, hdown, Bool.false_eq_true, if_false, Option.toList_some,
          List.foldl_cons, List.foldl_nil, PushChannel.follow_accepted]
        split_ifs <;> rfl
    | _ => rfl
  · intro hsafe n chunks
    rw [seenIn_cons, seenIn_silent hsilent, List.append_nil]
    cases h with
    | refused hdown => simp [Action.observation, hdown, PushChannel.Uncut]
    | requested hdown =>
        simp only [Action.observation, hdown, Bool.false_eq_true, if_false, Option.toList_some]
        refine ⟨fun hcuts => ?_, trivial⟩
        cases hcuts with
        | overwritten => simp [Task.listening, hfresh hsafe hdown _ _ _ _ rfl]
    | _ => exact trivial
  · intro l sync packet n pushes hmem hdown
    rcases List.mem_cons.mp hmem with hhandled | hmem
    · obtain ⟨-, rfl⟩ := Action.handled.inj hhandled
      cases h with
      | refused hrefused => simp [hdown] at hrefused
      | requested => simp [Action.writes]
    · exact absurd (hsilent _ hmem) request_not_silent

theorem Routing.seenIn_eq {alive : Nat → Bool} {ack : SendResult} {arrival : Arrival}
    (h : Routing t link alive ack arrival t' actions) (response : Response) :
    seenIn down (some response) actions = [.received response] := by
  have hnone : ∀ action ∈ actions, action.observation down = none := by
    intro action hmem
    cases h.acts action hmem <;> rfl
  rw [seenIn, List.filterMap_eq_nil_iff.mpr hnone]
  rfl

theorem observe_event {response : Response} (hkind : response.kind = .event) (n : Nat)
    (channel : PushChannel) : channel.observe n (.received response) = channel := by
  simp [PushChannel.observe, hkind, Kind.final]

theorem Routing.pushedTo_event {alive : Nat → Bool} {ack : SendResult} {arrival : Arrival}
    (h : Routing t link alive ack arrival t' actions) (hkind : arrival.response.kind = .event)
    (n : Nat) : t'.listening n = t.listening n ∧ pushedTo n actions = [] := by
  cases h with
  | delivered hfinal | unexpected hfinal => simp [hkind, Kind.final] at hfinal
  | pushed hchunk | unheard hchunk => simp [hkind] at hchunk
  | malformed => exact ⟨rfl, rfl⟩
  | unwatched => exact ⟨rfl, pushedTo_silent (by split <;> simp [Action.Silent]) n⟩
  | notified =>
      refine ⟨rfl, pushedTo_silent ?_ n⟩
      simp only [List.forall_mem_append, List.forall_mem_map, List.forall_mem_singleton]
      refine ⟨⟨?_, fun _ _ => trivial⟩, trivial⟩
      split <;> simp [Action.Silent]

theorem Routing.tracks {alive : Nat → Bool} {ack : SendResult} {arrival : Arrival}
    (h : Routing t link alive ack arrival t' actions) (hown : OwnChannels t) :
    Tracks safe down (some arrival.response) t actions t' := by
  refine ⟨fun n chunks => ?_, fun _ n chunks => ?_,
    fun l sync packet n pushes hmem => (h.isLocal _ hmem).elim⟩
  swap
  · rw [h.seenIn_eq]
    exact ⟨nofun, trivial⟩
  rw [h.seenIn_eq, List.foldl_cons, List.foldl_nil, PushChannel.follow_received]
  by_cases hevent : arrival.response.kind = .event
  · obtain ⟨hlistening, hpushed⟩ := h.pushedTo_event hevent n
    rw [observe_event hevent, hlistening, hpushed, List.append_nil]
  by_cases hsync : arrival.response.sync = syncOf n
  · simp only [PushChannel.observe, if_pos hsync]
    cases h with
    | delivered hfinal hlookup =>
        simp [hfinal, Task.listening, hsync, pushedTo]
    | unexpected hfinal hlookup =>
        rw [hsync] at hlookup
        simp [hfinal, Task.listening, hlookup, pushedTo]
    | @pushed channel hkind hlookup =>
        rw [hsync] at hlookup
        by_cases hn : channel = n
        · simp [hkind, Kind.final, Task.listening, hlookup, pushedTo, hn]
        · simp [hkind, Kind.final, Task.listening, hlookup, pushedTo, hn]
    | unheard hkind hlookup =>
        rw [hsync] at hlookup
        simp [hkind, Kind.final, Task.listening, hlookup, pushedTo]
    | malformed hkind | unwatched hkind | notified hkind => exact absurd hkind hevent
  · simp only [PushChannel.observe, if_neg hsync]
    cases h with
    | delivered => simp [Task.listening, AList.lookup_erase_ne (Ne.symm hsync), pushedTo]
    | unexpected | unheard => simp [pushedTo]
    | @pushed channel hkind hlookup =>
        obtain ⟨pending, hpending, hpushes⟩ := Option.bind_eq_some_iff.mp hlookup
        -- the channel is pending under the sync of its own call
        have hn : channel ≠ n := by
          rintro rfl
          exact hsync (hown _ pending hpending _ hpushes)
        simp [pushedTo, hn]
    | malformed hkind | unwatched hkind | notified hkind => exact absurd hkind hevent

theorem answered_silent (tickets : List Nat) (answer : Answer) :
    ∀ action ∈ tickets.map fun ticket => Action.answered link ticket answer, action.Silent := by
  simp [Action.Silent]

theorem failPending_silent : ∀ action ∈ (t.failPending link).2, action.Silent := by
  rw [Task.failPending, List.forall_mem_map]
  exact fun _ _ => trivial

theorem clearPending_tracks {action : Action} (hsilent : ∀ action ∈ actions, action.Silent)
    (haction : action.observation down = some .linkLost ∨
      action.observation down = some .closed ∧ (safe → t.pending = ∅))
    (hpushed : ∀ n, pushedTo n [action] = []) (hpending : t'.pending = ∅) :
    Tracks safe down none t (action :: actions) t' := by
  refine ⟨fun n chunks => ?_, fun hsafe n chunks => ?_, ?_⟩
  · have hdeaf : t'.listening n = false := by simp [Task.listening, hpending]
    have hnone : pushedTo n (action :: actions) = [] := by
      rw [← List.singleton_append, pushedTo_append, hpushed, pushedTo_silent hsilent,
        List.append_nil]
    rw [hnone, hdeaf, List.append_nil, seenIn_cons, seenIn_silent hsilent]
    rcases haction with haction | ⟨haction, -⟩ <;> simp [haction]
  · rw [seenIn_cons, seenIn_silent hsilent]
    rcases haction with haction | ⟨haction, hempty⟩
    · rw [haction]
      exact ⟨nofun, trivial⟩
    · rw [haction]
      exact ⟨fun _ => by simp [Task.listening, hempty hsafe], trivial⟩
  · intro l sync packet n pushes hmem hdown
    rcases List.mem_cons.mp hmem with rfl | hmem
    · simp [Action.observation, hdown] at haction
    · exact absurd (hsilent _ hmem) request_not_silent

end Task

/-! ## What each transition does to the push channels -/

def Feeds (safe : Prop) (down : Bool) (reply : Option Response) (s s' : State) : Prop :=
  ∃ actions, s'.history = s.history ++ actions ∧ Tracks safe down reply s.task actions s'.task

section State

variable {safe : Prop} {down : Bool} {reply : Option Response} {s s' s'' : State}

theorem Feeds.trans (h : Feeds safe down reply s s') (h' : Feeds safe down none s' s'') :
    Feeds safe down reply s s'' := by
  obtain ⟨actions, hactions, htracks⟩ := h
  obtain ⟨actions', hactions', htracks'⟩ := h'
  exact ⟨actions ++ actions', by rw [hactions', hactions, List.append_assoc],
    htracks.trans htracks'⟩

theorem Feeds.of_silent {actions : List Action} (h : ∀ action ∈ actions, action.Silent)
    (hhistory : s'.history = s.history ++ actions) (hpending : s'.task.pending = s.task.pending) :
    Feeds safe down none s s' :=
  ⟨actions, hhistory, .of_silent h hpending⟩

theorem closeDown_history_eq (s : State) (cause : CloseCause) :
    ∃ actions, (s.closeDown cause).history =
      s.history ++ Action.closedSocket s.link cause :: actions ∧
        ∀ action ∈ actions, action.Silent := by
  refine ⟨_, rfl, ?_⟩
  simp only [List.append_eq, List.forall_mem_append]
  exact ⟨⟨failPending_silent, answered_silent _ _⟩, by simp [Action.Silent]⟩

theorem closeDown_feeds (s : State) (cause : CloseCause) (hempty : safe → s.task.pending = ∅) :
    Feeds safe down none s (s.closeDown cause) := by
  obtain ⟨actions, hhistory, hsilent⟩ := closeDown_history_eq s cause
  exact ⟨_, hhistory, clearPending_tracks hsilent (.inr ⟨rfl, hempty⟩) (fun _ => rfl) rfl⟩

theorem giveUp_feeds (s : State) : Feeds safe down none s s.giveUp := by
  refine .of_silent ?_ rfl rfl
  rw [List.forall_mem_append]
  exact ⟨answered_silent _ _, by simp [Action.Silent]⟩

theorem failed_feeds (s : State) (phase : Phase) :
    Feeds safe down none s
      (s.perform (s.task.failLink s.link).1 (s.task.failLink s.link).2 phase) :=
  ⟨_, rfl, clearPending_tracks failPending_silent (.inl rfl) (fun _ => rfl) rfl⟩

theorem lose_feeds (s : State) : Feeds safe down none s s.lose := by
  simp only [State.lose]
  split
  · exact failed_feeds s _
  · exact (failed_feeds s _).trans (giveUp_feeds _)

theorem takeCommand_feeds (s : State) (command : Command) (rest : List Command) :
    Feeds safe down none s (s.takeCommand command rest) :=
  .of_silent (by simp [Action.Silent]) rfl rfl

theorem handled_feeds {command : Command} {t t' : Task} {send : SendResult}
    {actions : List Action} {result : Except Error Unit} (phase : Phase)
    (hhandle : t.handleCommand s.link send command = (t', actions, result))
    (hown : command.OwnPushes) (hfresh : safe → s.task.Fresh command)
    (hpending : t.pending = s.task.pending) (hdown : t.shuttingDown = s.task.shuttingDown) :
    Feeds safe s.task.shuttingDown none s
      (s.perform t' (.handled s.link command :: actions) phase) := by
  have hsame : ∀ n, t.listening n = s.task.listening n := by simp [Task.listening, hpending]
  have htracks : Tracks safe t.shuttingDown none t (.handled s.link command :: actions) t' := by
    refine (handling_of_eq hhandle).tracks hown fun hsafe => ?_
    unfold Task.Fresh
    rw [hdown, hpending]
    exact hfresh hsafe
  rw [hdown] at htracks
  refine ⟨_, rfl, fun n chunks => ?_, fun hsafe n chunks => ?_, htracks.written⟩
  · rw [← hsame]
    exact htracks.channels n chunks
  · rw [← hsame]
    exact htracks.uncut hsafe n chunks

theorem receive_feeds {ack : SendResult} {inbound : Inbound} (hown : OwnChannels s.task) :
    Feeds safe down (some inbound.response) s (s.receive ack inbound) :=
  ⟨_, rfl, (handleResponse_routing _ _ _ _ ⟨inbound.response, s.link, s.read s.link⟩).tracks hown⟩

theorem resubscribe_silent (link : Nat) (send : String → SendResult) (keys : List String) :
    ∀ action ∈ Task.resubscribe link send keys, action.Silent := by
  apply Task.forall_mem_resubscribe
  simp [Action.Silent]

theorem Genuine.ownPushes {command : Command} (h : Genuine s command) : command.OwnPushes := by
  cases command with
  | request sync packet ticket pushes =>
      obtain ⟨hsync, call, -, -, hpushes⟩ := h
      intro n hn
      rw [hpushes] at hn
      split at hn <;> simp_all
  | _ => trivial

theorem Sourced.ownChannels (h : Sourced s) : OwnChannels s.task := by
  intro sync pending hlookup
  obtain ⟨packet, hgenuine⟩ := h.task.pending _ (mem_entries_of_lookup hlookup)
  exact hgenuine.ownPushes

theorem finished_pending {t : Task} (h : t.finished = true) : t.pending = ∅ := by
  simp only [Task.finished, Bool.and_eq_true, List.isEmpty_iff] at h
  exact AList.ext h.2

/-- The main loop takes `Close`, or finds that no handle is left. -/
def State.Closes (s : State) : Event → Prop
  | .task (.command _) => s.channel = [] ∨ s.channel.head? = some .close
  | _ => False

/-- The steps at which no push channel is cut off. -/
structure PushSafe (s : State) (event : Event) : Prop where
  closes : s.Closes event → s.task.pending = ∅
  accepts : ∀ command ∈ s.handles? event, s.task.Fresh command

theorem TaskMove.feeds {rmp : Rmp} {event : TaskEvent} (h : TaskMove rmp s event s')
    (hsourced : Sourced s) :
    Feeds (PushSafe s (.task event)) s.task.shuttingDown (s.readBy (.task event)) s s' := by
  cases h with
  | drained | woke | attemptFailed | replyRejected | idAccepted =>
      exact .of_silent (by simp) (List.append_nil _).symm rfl
  | replayed hphase hdeferred hhandle =>
      have hgenuine := hsourced.task.deferred _ (hdeferred ▸ List.mem_cons_self)
      exact handled_feeds _ hhandle hgenuine.ownPushes
        (fun hsafe => hsafe.accepts _ (by simp [State.handles?, hdeferred])) rfl rfl
  | @replayFailed command rest send t actions err hphase hdeferred hhandle =>
      have hgenuine := hsourced.task.deferred _ (hdeferred ▸ List.mem_cons_self)
      have hfresh (hsafe : PushSafe s (.task (.drain send))) : s.task.Fresh command :=
        hsafe.accepts _ (by simp [State.handles?, hdeferred])
      obtain ⟨actions', hhistory, htracks⟩ := (handled_feeds .drain hhandle hgenuine.ownPushes
        hfresh rfl rfl).trans (failed_feeds _ .select)
      exact ⟨actions', (List.append_assoc _ _ _).symm.trans hhistory, htracks⟩
  | @handled command rest send t actions hphase hchannel hclose hhandle =>
      have hgenuine := hsourced.channel _ (hchannel ▸ List.mem_cons_self)
      exact (takeCommand_feeds s command rest).trans (handled_feeds _ hhandle hgenuine.ownPushes
        (fun hsafe => hsafe.accepts _ (by simp [State.handles?, hchannel])) rfl rfl)
  | @handledLost command rest send t actions err hphase hchannel hclose hhandle =>
      have hgenuine := hsourced.channel _ (hchannel ▸ List.mem_cons_self)
      exact ((takeCommand_feeds s command rest).trans (handled_feeds _ hhandle hgenuine.ownPushes
        (fun hsafe => hsafe.accepts _ (by simp [State.handles?, hchannel])) rfl rfl)).trans
        (lose_feeds _)
  | closeCommand hphase hchannel =>
      refine (takeCommand_feeds _ _ _).trans (closeDown_feeds _ _ fun hsafe => ?_)
      exact hsafe.closes (.inr (by simp [hchannel]))
  | channelClosed hphase hchannel =>
      exact closeDown_feeds _ _ fun hsafe => hsafe.closes (.inl hchannel)
  | received hphase hinbound =>
      simp only [State.readBy, hinbound, Option.map_some]
      exact receive_feeds hsourced.ownChannels
  | receivedLast hphase hinbound hfinished =>
      simp only [State.readBy, hinbound, Option.map_some]
      exact (receive_feeds hsourced.ownChannels).trans
        (closeDown_feeds _ _ fun _ => finished_pending hfinished)
  | linkLost => exact lose_feeds _
  | @deferred command rest delay =>
      refine (takeCommand_feeds s command rest).trans ?_
      unfold Task.defer
      split
      · exact .of_silent (answered_silent _ _) rfl rfl
      · exact .of_silent (by simp) rfl rfl
  | closeWhileDown => exact (takeCommand_feeds _ _ _).trans (giveUp_feeds _)
  | channelClosedWhileDown => exact giveUp_feeds _
  | connected | authenticated =>
      refine .of_silent ?_ rfl rfl
      simp [Action.Silent]
  | spawned => exact .of_silent (by simp [Action.Silent]) rfl rfl
  | reconnected =>
      refine .of_silent ?_ rfl rfl
      rw [List.forall_mem_cons]
      exact ⟨trivial, resubscribe_silent _ _ _⟩

theorem step_feeds {rmp : Rmp} {event : Event} (h : step rmp s event = some s')
    (hsourced : Sourced s) :
    Feeds (PushSafe s event) s.task.shuttingDown (s.readBy event) s s' := by
  cases step_move h with
  | caller hmove =>
      refine ⟨[], ?_, .of_silent (by simp) (by rw [hmove.untouched.task])⟩
      rw [hmove.untouched.history, List.append_nil]
  | task hmove => exact hmove.feeds hsourced
  | server => exact .of_silent (by simp) (List.append_nil _).symm rfl

end State

/-! ## Observed runs -/

theorem Observed.reachable {rmp : Rmp} {options : ConnectOptions} {s : State}
    {seen : List Observation} (h : Observed rmp options s seen) : Reachable rmp options s :=
  Reaches.unobserved h

structure Heard (s : State) (seen : List Observation) : Prop where
  channels : ∀ n, PushChannel.followed n seen = ⟨s.task.listening n, pushedTo n s.history⟩
  accepted : ∀ sync n, .accepted sync (some n) ∈ seen →
    sync = syncOf n ∧ 0 < s.history.countP (Action.writes n)

theorem accepted_handled {down : Bool} {reply : Option Response} {actions : List Action}
    {sync : Nat} {pushes : Option Nat} (h : .accepted sync pushes ∈ seenIn down reply actions) :
    down = false ∧ ∃ link packet n, .handled link (.request sync packet n pushes) ∈ actions := by
  simp only [seenIn, List.mem_append, List.mem_map, reduceCtorEq, and_false, exists_false,
    false_or, List.mem_filterMap] at h
  obtain ⟨action, hmem, haction⟩ := h
  cases action with
  | handled link command =>
      cases command with
      | request sync' packet n pushes' =>
          simp only [Action.observation, Option.ite_none_left_eq_some, Option.some.injEq,
            Observation.accepted.injEq] at haction
          obtain ⟨hdown, rfl, rfl⟩ := haction
          exact ⟨by simpa using hdown, link, packet, n, hmem⟩
      | _ => simp [Action.observation] at haction
  | _ => simp [Action.observation] at haction

theorem Genuine.ticket {s : State} {sync n m : Nat} {packet : Packet}
    (h : Genuine s (.request sync packet n (some m))) : n = m := by
  obtain ⟨-, call, -, -, hpushes⟩ := h
  split at hpushes <;> simp_all

theorem Heard.step {rmp : Rmp} {s s' : State} {event : Event} {seen : List Observation}
    (h : Heard s seen) (hsourced : Sourced s) (hsourced' : Sourced s')
    (hstep : step rmp s event = some s') : Heard s' (seen ++ s.observations event s') := by
  obtain ⟨actions, hactions, htracks⟩ := step_feeds hstep hsourced
  rw [observations_eq hactions]
  constructor
  · intro n
    rw [PushChannel.followed, List.foldl_append, ← PushChannel.followed, h.channels,
      htracks.channels, hactions, pushedTo_append]
  · intro sync n hmem
    rw [hactions, List.countP_append]
    rcases List.mem_append.mp hmem with hmem | hmem
    · obtain ⟨hsync, hwritten⟩ := h.accepted sync n hmem
      exact ⟨hsync, by omega⟩
    · obtain ⟨hdown, link, packet, ticket, hhandled⟩ := accepted_handled hmem
      have hgenuine : Genuine s' (.request sync packet ticket (some n)) := by
        have hmem : .handled link (.request sync packet ticket (some n)) ∈ s'.history := by
          rw [hactions]
          exact List.mem_append_right _ hhandled
        exact hsourced'.history _ hmem
      obtain rfl := hgenuine.ticket
      have hwritten := htracks.written link sync packet ticket _ hhandled hdown
      exact ⟨hgenuine.1, by omega⟩

theorem Observed.heard {rmp : Rmp} {options : ConnectOptions} {s : State}
    {seen : List Observation} (h : Observed rmp options s seen) : Heard s seen := by
  refine Reaches.invariant (I := fun x => Heard x.1 x.2) ?_ ?_ h
  · refine ⟨fun n => ?_, fun _ _ hmem => by cases hmem⟩
    simp [PushChannel.followed, Task.listening, State.initial, pushedTo]
  · rintro ⟨s, seen⟩ ⟨s', seen'⟩ event hreach hheard - hnext
    obtain ⟨hstep, rfl⟩ := observing_eq_some.mp hnext
    have hreachable : Reachable rmp options s := Reaches.unobserved hreach
    have hreachable' : Reachable rmp options s' := .next hreachable trivial hstep
    exact hheard.step hreachable.sourced hreachable'.sourced hstep

theorem ObservedBy.uncut {rmp : Rmp} {options : ConnectOptions} {s : State}
    {seen : List Observation} (h : ObservedBy rmp options PushSafe s seen) (n : Nat) :
    PushChannel.Uncut n {} seen := by
  refine Reaches.invariant (I := fun x => PushChannel.Uncut n {} x.2) ?_ ?_ h
  · trivial
  rintro ⟨s, seen⟩ ⟨s', seen'⟩ event hreach huncut hsafe hnext
  obtain ⟨hstep, rfl⟩ := observing_eq_some.mp hnext
  have hobserved : Observed rmp options s seen := Reaches.weaken hreach
  have hsourced := hobserved.reachable.sourced
  obtain ⟨actions, hactions, htracks⟩ := step_feeds hstep hsourced
  refine huncut.append ?_
  rw [← PushChannel.followed, hobserved.heard.channels, observations_eq hactions]
  exact htracks.uncut hsafe n _

theorem pushSender_eq_listening {s : State} (hledger : Ledger s) (hsourced : Sourced s) {n : Nat}
    (hwritten : 0 < s.history.countP (Action.writes n)) : s.pushSender n = s.task.listening n := by
  have hqueues : (s.channel ++ s.task.deferred).any (Command.holdsPushes n) = false := by
    have honce := hledger.once n
    have htakes := hledger.takes_le_one n
    have hzero : (s.channel ++ s.task.deferred).countP (·.carries n) = 0 := by
      rw [List.countP_append]
      omega
    rw [List.any_eq_false]
    intro command hmem hholds
    have hgenuine : Genuine s command := by
      rcases List.mem_append.mp hmem with hmem | hmem
      · exact hsourced.channel _ hmem
      · exact hsourced.task.deferred _ hmem
    cases command with
    | request sync packet ticket pushes =>
        obtain rfl : pushes = some n := by simpa [Command.holdsPushes] using hholds
        obtain rfl := hgenuine.ticket
        exact List.countP_eq_zero.mp hzero _ hmem (by simp [Command.carries])
    | _ => simp [Command.holdsPushes] at hholds
  rw [State.pushSender, hqueues, Bool.false_or, Task.listening, Bool.eq_iff_iff]
  simp only [List.any_eq_true, beq_iff_eq, decide_eq_true_eq, Option.bind_eq_some_iff]
  constructor
  · rintro ⟨⟨sync, pending⟩, hmem, hpushes⟩
    have hlookup := lookup_of_mem_entries hmem
    rw [← hsourced.ownChannels sync pending hlookup n hpushes]
    exact ⟨pending, hlookup, hpushes⟩
  · rintro ⟨pending, hlookup, hpushes⟩
    exact ⟨_, mem_entries_of_lookup hlookup, hpushes⟩

/-! ## Chunks -/

theorem Routing.chunk {t t' : Task} {link : Nat} {alive : Nat → Bool} {ack : SendResult}
    {arrival : Arrival} {actions : List Action} (h : Routing t link alive ack arrival t' actions)
    (hkind : arrival.response.kind = .chunk) :
    t' = t ∧ ∀ action ∈ actions, ∃ n, action = .pushed n arrival.response.dataBytes ∧
      (t.pending.lookup arrival.response.sync).bind Pending.pushes = some n := by
  cases h with
  | delivered hfinal | unexpected hfinal => simp [hkind, Kind.final] at hfinal
  | pushed hchunk hlookup => exact ⟨rfl, List.forall_mem_singleton.mpr ⟨_, rfl, hlookup⟩⟩
  | unheard => exact ⟨rfl, by simp⟩
  | malformed hevent | unwatched hevent | notified hevent => simp [hkind] at hevent

/-- A chunk goes only to the request pending under its sync, and leaves the pending
map and every oneshot alone.  A task that has finished closes after any packet,
and then drops the commands that are still deferred. -/
structure ChunkStep (s : State) (response : Response) (s' : State) : Prop where
  pending : s'.task.pending = s.task.pending
  unanswered : ∀ link n answer, .answered link n answer ∈ s'.history →
    .answered link n answer ∈ s.history ∨ s.task.finished = true ∧ answer = .dropped
  elsewhere : ∀ n, response.sync ≠ syncOf n → pushedTo n s'.history = pushedTo n s.history

theorem receive_chunkStep {s : State} {ack : SendResult} {inbound : Inbound}
    (hsourced : Sourced s) (hkind : inbound.response.kind = .chunk) :
    ChunkStep s inbound.response (s.receive ack inbound) := by
  obtain ⟨htask, hactions⟩ := (handleResponse_routing s.task s.link s.receiverAlive ack
    ⟨inbound.response, s.link, s.read s.link⟩).chunk hkind
  refine ⟨congrArg Task.pending htask, fun link n answer hmem => ?_, fun n hsync => ?_⟩
  · rcases List.mem_append.mp hmem with hmem | hmem
    · exact .inl hmem
    · obtain ⟨_, heq, -⟩ := hactions _ hmem
      cases heq
  · have hnone : pushedTo n (s.task.handleResponse s.link s.receiverAlive ack
        ⟨inbound.response, s.link, s.read s.link⟩).2 = [] := by
      rw [pushedTo, List.filterMap_eq_nil_iff]
      intro action hmem
      obtain ⟨m, rfl, hlookup⟩ := hactions action hmem
      obtain ⟨pending, hpending, hpushes⟩ := Option.bind_eq_some_iff.mp hlookup
      have hne : m ≠ n := by
        rintro rfl
        exact hsync (hsourced.ownChannels _ pending hpending _ hpushes)
      exact if_neg hne
    have happend := pushedTo_append n s.history (s.task.handleResponse s.link s.receiverAlive
      ack ⟨inbound.response, s.link, s.read s.link⟩).2
    rw [hnone, List.append_nil] at happend
    exact happend

theorem closeDown_chunkStep {s s' : State} {response : Response} {cause : CloseCause}
    (h : ChunkStep s response s') (hfinished : s.task.finished = true) :
    ChunkStep s response (s'.closeDown cause) := by
  have hempty : s'.task.pending = ∅ := h.pending.trans (finished_pending hfinished)
  have hentries : s'.task.pending.entries = [] := by
    rw [hempty]
    rfl
  obtain ⟨actions, hhistory, hsilent⟩ := closeDown_history_eq s' cause
  refine ⟨?_, fun link n answer hmem => ?_, fun n hsync => ?_⟩
  · rw [← h.pending, hempty]
    rfl
  · have hsplit : .answered link n answer ∈ s'.history ∨ answer = .dropped := by
      simp only [State.closeDown, State.stop, Task.failPending, Task.dropDeferred,
        hentries] at hmem
      rcases List.mem_append.mp hmem with hold | hnew
      · exact .inl hold
      · simp only [List.map_nil, List.nil_append, List.cons_append, List.mem_cons,
          reduceCtorEq, List.mem_append, List.mem_map, false_or, and_false, exists_false,
          or_false, Action.answered.injEq] at hnew
        obtain ⟨_, -, -, -, hanswer⟩ := hnew
        exact .inr hanswer.symm
    rcases hsplit with hold | hdropped
    · exact h.unanswered link n answer hold
    · exact .inr ⟨hfinished, hdropped⟩
  · rw [hhistory, pushedTo_append, ← List.singleton_append, pushedTo_append,
      pushedTo_silent hsilent]
    simpa [pushedTo] using h.elsewhere n hsync

theorem chunk_step {rmp : Rmp} {s s' : State} {ack : SendResult} {inbound : Inbound}
    (hsourced : Sourced s) (hinbound : (s.inbound s.link)[s.read s.link]? = some inbound)
    (hkind : inbound.response.kind = .chunk)
    (hstep : step rmp s (.task (.packet ack)) = some s') : ChunkStep s inbound.response s' := by
  cases step_move hstep with
  | task hmove =>
      cases hmove with
      | received _ hread =>
          obtain rfl := Option.some.inj (hinbound.symm.trans hread)
          exact receive_chunkStep hsourced hkind
      | receivedLast _ hread hfinished =>
          obtain rfl := Option.some.inj (hinbound.symm.trans hread)
          have htask := ((handleResponse_routing s.task s.link s.receiverAlive ack
            ⟨inbound.response, s.link, s.read s.link⟩).chunk hkind).1
          refine closeDown_chunkStep (receive_chunkStep hsourced hkind) ?_
          rw [← htask]
          exact hfinished

/-- In every run a channel also ends when the task closes its socket, and when a
wrapped counter gives its sync to another request. -/
theorem Observed.followed {rmp : Rmp} {options : ConnectOptions} {s : State}
    {seen : List Observation} (h : Observed rmp options s seen) :
    (∀ n, pushedTo n s.history = (PushChannel.followed n seen).chunks) ∧
    ∀ sync n, .accepted sync (some n) ∈ seen →
      sync = syncOf n ∧ s.pushSender n = (PushChannel.followed n seen).isOpen := by
  have hsourced := h.reachable.sourced
  have hheard := h.heard
  refine ⟨fun n => ?_, fun sync n haccepted => ?_⟩
  · rw [hheard.channels n]
  · obtain ⟨hsync, hwritten⟩ := hheard.accepted sync n haccepted
    rw [hheard.channels n]
    exact ⟨hsync, pushSender_eq_listening h.reachable.ledger hsourced hwritten⟩

/--
A push channel yields the payloads of the chunks with its sync that were read
after its request was accepted and before the channel ended, in the order they
were read, and ends exactly with the final reply or the link, unless the task
closes its socket while a request is pending.  A chunk reaches no other channel,
settles no oneshot and leaves the pending map alone.
-/
theorem pushes_arrive_complete {rmp : Rmp} {options : ConnectOptions} {s : State}
    {seen : List Observation} (h : ObservedBy rmp options PushSafe s seen) :
    (∀ n, pushedTo n s.history = (PushChannel.after n seen).chunks) ∧
    (∀ sync n, .accepted sync (some n) ∈ seen →
      sync = syncOf n ∧ s.pushSender n = (PushChannel.after n seen).isOpen) ∧
    ∀ ack inbound s', (s.inbound s.link)[s.read s.link]? = some inbound →
      inbound.response.kind = .chunk → step rmp s (.task (.packet ack)) = some s' →
      ChunkStep s inbound.response s' := by
  have hobserved : Observed rmp options s seen := Reaches.weaken h
  have hpromised : ∀ n, PushChannel.after n seen = PushChannel.followed n seen :=
    fun n => (h.uncut n).foldl_observe
  obtain ⟨hchunks, hsenders⟩ := hobserved.followed
  simp only [hpromised]
  exact ⟨hchunks, hsenders, fun ack inbound s' hinbound hkind hstep =>
    chunk_step hobserved.reachable.sourced hinbound hkind hstep⟩

def samplePushCalls : List Event :=
  sampleHandshake 0 [] ++
    [Event.task (.drain .sent), .caller (.call none 10 [] true), .caller (.call none 10 [] true),
      .caller (.submit 1), .caller (.submit 2), .task (.command .sent), .task (.drain .sent),
      .task (.command .sent), .task (.drain .sent)]

def sampleChunk (sync : Nat) (byte : UInt8) : Event :=
  .server 0 ⟨{ kind := .chunk, sync := sync, body := [byte], data := some (0, 1) }, none⟩

def samplePushes : List Event :=
  samplePushCalls ++
    [sampleChunk 1 7, sampleChunk 2 8, .server 0 ⟨{ kind := .chunk, sync := 1 }, none⟩,
      .server 0 ⟨{ kind := .ok, sync := 1 }, some 1⟩, sampleChunk 1 9, sampleChunk 2 10] ++
    (List.replicate 5 [.task (.packet .sent), .task (.drain .sent)]).flatten

def Observation.accepts (n : Nat) : Observation → Bool
  | .accepted _ pushes => pushes == some n
  | _ => false

theorem Observation.accepts_iff {n : Nat} {seen : List Observation}
    (h : seen.any (Observation.accepts n) = true) : ∃ sync, .accepted sync (some n) ∈ seen := by
  obtain ⟨observation, hmem, haccepts⟩ := List.any_eq_true.mp h
  cases observation with
  | accepted sync pushes =>
      obtain rfl : pushes = some n := by simpa [Observation.accepts] using haccepts
      exact ⟨sync, hmem⟩
  | _ => simp [Observation.accepts] at haccepts

def pushSafe (s : State) (event : Event) : Bool :=
  (match event with
  | .task (.command _) => !s.channel.isEmpty && s.channel.head? != some .close
  | _ => true) &&
  (match s.handles? event with
  | some (.request sync _ _ _) => (s.task.pending.lookup sync).isNone
  | _ => true)

theorem pushSafe_sound (s : State) (event : Event) (h : pushSafe s event = true) :
    PushSafe s event := by
  obtain ⟨hcloses, haccepts⟩ := Bool.and_eq_true_iff.mp h
  constructor
  · intro hcloses'
    unfold State.Closes at hcloses'
    split at hcloses'
    · rcases hcloses' with hempty | hclose
      · simp [hempty] at hcloses
      · simp [hclose] at hcloses
    · exact hcloses'.elim
  · intro command hcommand _ sync packet n pushes heq
    rw [hcommand, heq] at haccepts
    simpa using haccepts

theorem pushes_arrive_complete_sample :
    ∃ s seen, ObservedBy fixintRmp {} PushSafe s seen ∧
      pushedTo 1 s.history = [[7], [0xc0]] ∧ pushedTo 2 s.history = [[8]] ∧
      s.pushSender 1 = false ∧ s.pushSender 2 = true ∧
      ∃ (inbound : Inbound) (s' : State), step fixintRmp s (.task (.packet .sent)) = some s' ∧
        ChunkStep s inbound.response s' := by
  obtain ⟨⟨s, seen⟩, hreach, hcheck⟩ := reaches_of_guarded
    (observing (step fixintRmp) State.observations) (fun x event => pushSafe x.1 event)
    (fun x event => pushSafe_sound x.1 event) (.initial {}, []) samplePushes
    (fun x => x.2.any (Observation.accepts 1) && x.2.any (Observation.accepts 2) &&
      decide (PushChannel.after 1 x.2 = ⟨false, [[7], [0xc0]]⟩) &&
      decide (PushChannel.after 2 x.2 = ⟨true, [[8]]⟩) &&
      ((x.1.inbound x.1.link)[x.1.read x.1.link]?).any
        (fun inbound => decide (inbound.response.kind = Kind.chunk)) &&
      (step fixintRmp x.1 (.task (.packet .sent))).isSome)
    (by decide +kernel)
  simp only [Bool.and_eq_true, decide_eq_true_eq, Option.any_eq_true,
    Option.isSome_iff_exists] at hcheck
  obtain ⟨⟨⟨⟨⟨hfirst, hsecond⟩, hone⟩, htwo⟩, inbound, hinbound, hkind⟩, s', hstep⟩ := hcheck
  obtain ⟨sync, haccepted⟩ := Observation.accepts_iff hfirst
  obtain ⟨sync', haccepted'⟩ := Observation.accepts_iff hsecond
  obtain ⟨hchunks, hsenders, hchunk⟩ := pushes_arrive_complete hreach
  refine ⟨s, seen, hreach, ?_, ?_, ?_, ?_, inbound, s', hstep,
    hchunk .sent inbound s' hinbound hkind hstep⟩
  · rw [hchunks, hone]
  · rw [hchunks, htwo]
  · rw [(hsenders sync 1 haccepted).2, hone]
  · rw [(hsenders sync' 2 haccepted').2, htwo]

def Observation.ends : Observation → Bool
  | .linkLost => true
  | .received response => Kind.final response.kind
  | _ => false

/-- `Close` ends the channel of a pending call whose reply has not come, on a link
that is not lost. -/
theorem close_ends_push_channel :
    ¬ ∀ rmp options s seen, Observed rmp options s seen → ∀ sync n,
      .accepted sync (some n) ∈ seen → s.pushSender n = false →
      seen.any Observation.ends = true := by
  intro hall
  obtain ⟨⟨s, seen⟩, hreach, hcheck⟩ := reaches_of_check
    (observing (step fixintRmp) State.observations) (.initial {}, [])
    (samplePushCalls ++ [Event.caller .close, .task (.command .sent)])
    (fun x => x.2.any (Observation.accepts 1) && !x.1.pushSender 1 &&
      !x.2.any Observation.ends)
    (by decide +kernel)
  simp only [Bool.and_eq_true, Bool.not_eq_true'] at hcheck
  obtain ⟨⟨haccepts, hsender⟩, hend⟩ := hcheck
  obtain ⟨sync, haccepted⟩ := Observation.accepts_iff haccepts
  have hends := hall fixintRmp {} s seen hreach sync 1 haccepted hsender
  rw [hend] at hends
  contradiction

end Tarant.Connection
