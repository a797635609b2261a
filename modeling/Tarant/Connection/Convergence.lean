import Tarant.Connection.Feeding

/-!
# Watchers converge

Every step of the connection is one of the operations of a feed, on the link that is up and
for each key.  A sound feed with nothing in flight has given all its members the value, so
the watchers converge in every run in which none of them joins a feed that is running and
has nothing to come.
-/

namespace Tarant.Connection

open Foundation
open Iproto

namespace Joint

variable {s s' : Joint} {link : Nat} {key : String} {client : State}

/-! ## Feeds of the link -/

/-- The feeds of the link that is up are sound, as long as no `send` on it has failed. -/
def Fed (s : Joint) : Prop :=
  s.client.phase.up = true → Unbroken s.client.link s.client.history →
    ∀ key, (s.feed s.client.link key).Sound

theorem Fed.of_down (h : s.client.phase.up = false) : s.Fed := by
  intro hup
  simp [h] at hup

theorem Fed.process (h : s.Fed) (horderly : s.Orderly) (hprocess : s.process link = some s') :
    s'.Fed := by
  have hextended := Extended.of_process hprocess
  intro hup hunbroken key
  rw [hextended.phase] at hup
  rw [hextended.link, hextended.history] at hunbroken
  rw [hextended.link]
  have hsound := h hup hunbroken key
  obtain hsame | ⟨request, rest, hrequests, hserved⟩ :=
    process_feed horderly hprocess s.client.link key
  · rwa [hsame]
  · rw [hserved]
    exact hsound.serve hrequests _

theorem Fed.notify (h : s.Fed) (horderly : s.Orderly) (hnotify : s.notify link key = some s') :
    s'.Fed := by
  have hextended := Extended.of_notify hnotify
  intro hup hunbroken key'
  rw [hextended.phase] at hup
  rw [hextended.link, hextended.history] at hunbroken
  rw [hextended.link]
  have hsound := h hup hunbroken key'
  obtain hsame | ⟨hregistered, hemitted⟩ := notify_feed horderly hnotify s.client.link key'
  · rwa [hsame]
  · rw [hemitted]
    exact hsound.notify hregistered _

theorem Fed.caller {event : CallerEvent} (h : s.Fed) (horderly : s.Orderly)
    (hsourced : Sourced s.client) (hmove : CallerMove s.client event client) :
    (s.withClient client).Fed := by
  have huntouched := hmove.untouched
  intro hup hunbroken key
  have hup' : s.client.phase.up = true := huntouched.phase ▸ hup
  have hlink : client.link = s.client.link := huntouched.link
  change ((s.withClient client).feed client.link key).Sound
  have hunbroken' : Unbroken s.client.link s.client.history := by
    rw [← hlink, ← huntouched.history]
    exact hunbroken
  have hhistory : client.history = s.client.history ++ [] := by
    rw [huntouched.history, List.append_nil]
  rw [hlink]
  refine (h hup' hunbroken' key).within (feed_within (horderly.processed _) hhistory
    huntouched.inbound huntouched.read rfl (by rw [huntouched.task]) fun m hmem => ?_)
  obtain ⟨⟨list, hlookup, subscriber, hentry, rfl⟩, halive⟩ := mem_live.mp hmem
  rw [huntouched.task] at hlookup
  obtain ⟨-, w, hw, -⟩ := hsourced.task.lookup hlookup subscriber hentry
  have hbefore := (hmove.watcherMove.alive halive).resolve_right (hsourced.toRegistered.lt hw).ne
  exact ⟨mem_live.mpr ⟨⟨list, hlookup, subscriber, hentry, rfl⟩, hbefore⟩,
    cell_append hhistory (by simp)⟩

theorem Fed.server {inbound : Inbound} (h : s.Fed) (horderly : s.Orderly)
    (hkind : inbound.response.kind ≠ .event) : (s.arrive link inbound).Fed := by
  intro hup hunbroken key
  have harrived := @feed_arrive s link _ (horderly.read s.client.link) inbound key
  rw [eventFor_of_kind hkind] at harrived
  have hsame : (s.arrive link inbound).feed s.client.link key = s.feed s.client.link key := by
    rw [harrived]
    simp
  change ((s.arrive link inbound).feed s.client.link key).Sound
  rw [hsame]
  exact h hup hunbroken key

/-! ## The steps of the task -/

theorem feed_all (s : Joint) (link : Nat) (key : String) :
    (s.feed link key).handled ++ (s.feed link key).requests =
      subscriptions link key s.client.history := by
  simp only [feed]
  rw [← List.filterMap_append, List.take_append_drop]
  rfl

theorem sound_of_fresh (horderly : s.Orderly) (hagreement : Agreement s.client)
    (hup : s.client.phase.up = true) (hunbroken : Unbroken s.client.link s.client.history)
    (hhandled : (s.feed s.client.link key).handled = []) :
    (s.feed s.client.link key).Sound := by
  have hnone : (s.feed s.client.link key).registration = none :=
    (horderly.fresh s.client.link key hhandled).1
  constructor
  · rw [hnone, hhandled]
    simp
  · rw [feed_all]
    have hagree := hagreement.agree hup hunbroken key
    rw [registered, decide_eq_true_iff] at hagree
    exact AList.lookup_isSome.trans hagree.symm
  · intro hne
    obtain ⟨m, hmem⟩ := List.exists_mem_of_ne_nil _ hne
    obtain ⟨⟨list, hlookup, -⟩, -⟩ := mem_live.mp hmem
    exact Option.isSome_iff_exists.mpr ⟨list, hlookup⟩
  · intro sent acked hregistration
    simp [hnone] at hregistration
  · intro sent hregistration
    simp [hnone] at hregistration
  · intro sent acked hregistration
    simp [hnone] at hregistration

theorem Fed.handshaken {actions : List Action} (horderly : s.Orderly)
    (horderly' : (s.withClient client).Orderly) (hagreement : Agreement client)
    (hserved : Served s.client) (hlinks : Links s.client) {socket : Nat}
    (hsocket : s.client.phase.socket = some socket) (hlink : client.link = socket)
    (hhistory : client.history = s.client.history ++ actions) : (s.withClient client).Fed := by
  intro hup hunbroken key
  refine sound_of_fresh horderly' hagreement hup hunbroken ?_
  have hall := feed_all s socket key
  rw [hserved.subscriptions_socket hlinks hsocket key, List.append_eq_nil_iff] at hall
  change ((s.withClient client).feed client.link key).handled = []
  rw [hlink, (feed_written (horderly.processed socket) hhistory key).1]
  exact hall.1

theorem Fed.handled {t t' : Task} {send : SendResult} {command : Command} {actions : List Action}
    {result : Except Error Unit} (h : s.Fed) (horderly : s.Orderly)
    (hup : s.client.phase.up = true) (hperforms : Performs s client actions)
    (hhandling : Handling t s.client.link send command t' actions result)
    (ht : t.watchers = s.client.task.watchers) (ht' : client.task.watchers = t'.watchers)
    (hprompt : Unbroken s.client.link s.client.history → ∀ id key watcher,
      command = .watch id key watcher → s.client.receiverAlive watcher = true →
        s.client.task.watchers.lookup key = none ∨ (s.feed s.client.link key).Due) :
    (s.withClient client).Fed := by
  intro _ hunbroken key
  obtain ⟨hold, hnew⟩ := hperforms.unbroken hunbroken
  change ((s.withClient client).feed client.link key).Sound
  rw [hperforms.link]
  exact hperforms.handling horderly hhandling ht ht' hnew (hprompt hold) (h hup hold) key

theorem Fed.task {rmp : Rmp} {event : TaskEvent} (h : s.Fed) (horderly : s.Orderly)
    (horderly' : (s.withClient client).Orderly) (hsourced : Sourced s.client)
    (hserved : Served s.client) (hlinks : Links s.client) (hagreement : Agreement client)
    (hprompt : Prompt s (.connection (.task event)))
    (hmove : TaskMove rmp s.client event client) : (s.withClient client).Fed := by
  have hpass {command : Command} (hhandles : s.client.handles? (.task event) = some command)
      (hunbroken : Unbroken s.client.link s.client.history) (id : Nat) (key : String)
      (watcher : Nat) (heq : command = .watch id key watcher) :=
    fun halive => hprompt id key watcher (heq ▸ hhandles) halive hunbroken
  cases hmove with
  | drained hphase => exact fun _ hunbroken => h (by rw [hphase]; rfl) hunbroken
  | @replayed command rest send t actions hphase hdeferred hhandle =>
      refine h.handled horderly (by rw [hphase]; rfl)
        ⟨rfl, ⟨[.handled s.client.link command], rfl, by simp, by simp⟩, rfl, rfl, rfl⟩
        (handling_of_eq hhandle) rfl rfl (hpass ?_)
      simp [State.handles?, hdeferred]
  | @replayFailed command rest send t actions err hphase hdeferred hhandle =>
      intro _ hunbroken
      exact absurd (Unbroken.of_append (Unbroken.of_append hunbroken).2.of_cons).1
        (handling_of_eq hhandle).failed
  | @handled command rest send t actions hphase hchannel hclose hhandle =>
      refine h.handled horderly (by rw [hphase]; rfl)
        ⟨rfl, ⟨[.took command, .handled s.client.link command], List.append_assoc _ _ _,
          by simp, by simp⟩, rfl, rfl, rfl⟩
        (handling_of_eq hhandle) rfl rfl (hpass ?_)
      simp [State.handles?, hchannel]
  | @received ack inbound hphase hinbound =>
      intro _ hunbroken key
      have hrouting := handleResponse_routing s.client.task s.client.link s.client.receiverAlive
        ack ⟨inbound.response, s.client.link, s.client.read s.client.link⟩
      have htakes : Takes s (s.client.receive ack inbound) inbound _ :=
        ⟨hinbound, rfl, rfl, rfl, rfl⟩
      obtain ⟨hold, hnew⟩ := Unbroken.of_append hunbroken
      exact htakes.routing horderly hsourced rfl hrouting hnew (h (by rw [hphase]; rfl) hold) key
  | handledLost | linkLost => exact .of_down (lose_not_up _)
  | closeCommand | channelClosed | receivedLast | woke | deferred | closeWhileDown
  | channelClosedWhileDown | idAccepted => exact .of_down rfl
  | connected hphase hafter =>
      exact .of_down (afterSend_not_up (greeted_phase _ _ _).2.2 hafter)
  | authenticated hphase huser hafter => exact .of_down (afterSend_not_up rfl hafter)
  | attemptFailed hphase hafter | replyRejected _ hphase hafter =>
      obtain ⟨-, rfl | ⟨-, delay, rfl⟩⟩ := afterFailure_cases hafter <;> exact .of_down rfl
  | spawned hreply =>
      exact .handshaken horderly horderly' hagreement hserved hlinks hreply.phase.1 rfl rfl
  | reconnected hreply =>
      exact .handshaken horderly horderly' hagreement hserved hlinks hreply.phase.1 rfl rfl

theorem Fed.connection {rmp : Rmp} {options : ConnectOptions} {event : Event} (h : s.Fed)
    (horderly : s.Orderly) (hreach : Reachable rmp options s.client)
    (hevent : event.bringsEvent = false) (hprompt : Prompt s (.connection event))
    (hstep : step rmp s.client event = some client) : (s.withClient client).Fed := by
  have hreach' : Reachable rmp options client := .next hreach trivial hstep
  have horderly' := horderly.connection hevent hstep
  cases step_move hstep with
  | caller hmove => exact h.caller horderly hreach.sourced hmove
  | task hmove =>
      exact h.task horderly horderly' hreach.sourced hreach.served hreach.links
        hreach'.agreement hprompt hmove
  | @server link inbound hopened =>
      change (s.arrive link inbound).Fed
      refine h.server horderly ?_
      rintro hkind
      simp [Event.bringsEvent, hkind] at hevent

/-- With nothing in flight, the feeds of the link have given everyone the value. -/
theorem Fed.converged (h : s.Fed) (hlinks : Links s.client) : s.Converged := by
  intro hquiescent key list hlookup subscriber hmem halive
  have hopened : s.client.link < s.client.sockets := by
    refine hlinks.opened (Phase.not_first_of_up hquiescent.up) ?_
    rintro hdone
    have hup := hquiescent.up
    rw [hdone] at hup
    cases hup
  have hrequests : (s.feed s.client.link key).requests = [] := by
    simp only [feed]
    rw [hquiescent.processed, List.drop_length]
    rfl
  have hevents : (s.feed s.client.link key).events = [] := by
    simp only [feed]
    rw [hquiescent.read, List.drop_length]
    rfl
  refine (h hquiescent.up hquiescent.unbroken key).settled hrequests hevents ?_
    (mem_live.mpr ⟨⟨list, hlookup, subscriber, hmem, rfl⟩, halive⟩)
  intro sent hregistration
  change s.registrations s.client.link key = some (sent, true) at hregistration
  have hnone := hquiescent.notified key
  unfold Joint.notify at hnone
  rw [hregistration] at hnone
  by_contra hne
  exact absurd hnone (by simp [hopened, hne])

end Joint

theorem JointlyReachableBy.orderly {rmp : Rmp} {options : ConnectOptions}
    {values : String → Bytes} {allowed : Joint → JointEvent → Prop} {s : Joint}
    (h : JointlyReachableBy rmp options values allowed s) : s.Orderly := by
  refine Reaches.invariant (I := Joint.Orderly) ?_ ?_ h
  · exact ⟨fun _ => Nat.zero_le _, fun _ => Nat.zero_le _, fun _ _ _ => ⟨rfl, rfl⟩⟩
  · intro s s' event _ horderly _ hstep
    cases event with
    | connection event =>
        simp only [jointStep, Option.ite_none_left_eq_some, Option.map_eq_some_iff,
          Bool.not_eq_true] at hstep
        obtain ⟨hevent, client, hclient, rfl⟩ := hstep
        exact horderly.connection hevent hclient
    | process link => exact horderly.process hstep
    | notify link key => exact horderly.notify hstep
    | broadcast key value =>
        obtain rfl := Option.some.inj hstep
        exact ⟨horderly.processed, horderly.read, horderly.fresh⟩

theorem JointlyReachableBy.fed {rmp : Rmp} {options : ConnectOptions} {values : String → Bytes}
    {s : Joint} (h : JointlyReachableBy rmp options values Prompt s) : s.Fed := by
  refine Reaches.invariant (I := Joint.Fed) ?_ ?_ h
  · exact .of_down rfl
  · intro s s' event hreach hfed hprompt hstep
    have hreachable : JointlyReachableBy rmp options values Prompt s := hreach
    have horderly := hreachable.orderly
    cases event with
    | connection event =>
        simp only [jointStep, Option.ite_none_left_eq_some, Option.map_eq_some_iff,
          Bool.not_eq_true] at hstep
        obtain ⟨hevent, client, hclient, rfl⟩ := hstep
        exact hfed.connection horderly hreachable.client hevent hprompt hclient
    | process link => exact hfed.process horderly hstep
    | notify link key => exact hfed.notify horderly hstep
    | broadcast key value =>
        obtain rfl := Option.some.inj hstep
        exact hfed

/--
In every run in which no live watcher joins a running feed that has nothing to come, every
live watcher holds the value of its key whenever nothing is in flight.
-/
theorem watchers_converge {rmp : Rmp} {options : ConnectOptions} {values : String → Bytes}
    {s : Joint} (h : JointlyReachableBy rmp options values Prompt s) : s.Converged :=
  h.fed.converged h.client.links

/-! ## Sample runs -/

def prompt (s : Joint) : JointEvent → Bool
  | .connection event =>
      match s.client.handles? event with
      | some (.watch _ key _) => (s.client.task.watchers.lookup key).isNone
      | _ => true
  | _ => true

theorem prompt_sound (s : Joint) (event : JointEvent) (h : prompt s event = true) :
    Prompt s event := by
  cases event with
  | connection event =>
      intro id key watcher hhandles _ _
      simp only [prompt, hhandles, Option.isNone_iff_eq_none] at h
      exact .inl h
  | _ => trivial

def Joint.still (s : Joint) (key : String) : Bool :=
  settled s.client &&
    decide (s.client.read s.client.link = (s.client.inbound s.client.link).length ∧
      s.processed s.client.link = (outbound s.client.link s.client.history).length ∧
      s.registrations s.client.link key = some (s.values key, true)) &&
    (outbound s.client.link s.client.history).all fun sent =>
      sent.2.eventKey.all fun k => decide (k = key)

theorem Joint.Orderly.quiescent {s : Joint} (h : s.Orderly) {key : String}
    (hstill : s.still key = true) : s.Quiescent := by
  simp only [Joint.still, Bool.and_eq_true, decide_eq_true_eq, List.all_eq_true] at hstill
  obtain ⟨⟨hsettled, hread, hprocessed, hregistration⟩, hkeys⟩ := hstill
  obtain ⟨hup, hunbroken, hchannel, hdeferred⟩ := settled_sound hsettled
  refine ⟨hup, hunbroken, hchannel, hdeferred, hread, hprocessed, fun key' => ?_⟩
  by_cases hkey : key' = key
  · subst hkey
    simp [Joint.notify, hregistration]
  · have hhandled : (s.feed s.client.link key').handled = [] := by
      rw [Joint.feed, List.filterMap_eq_nil_iff]
      intro sent hmem
      have hall := hkeys sent (List.mem_of_mem_take hmem)
      refine if_neg fun heq => hkey ?_
      rw [heq] at hall
      simpa using hall
    have hnone := (h.fresh s.client.link key' hhandled).1
    simp [Joint.notify, hnone]

def sampleConvergence : List JointEvent :=
  sampleWatch.map .connection ++
    [JointEvent.process 0, .process 0, .connection (.task (.packet .sent)),
      .connection (.task (.drain .sent)), .process 0]

def sampleValues : String → Bytes := fun _ => [0x01]

theorem watchers_converge_sample :
    ∃ s, JointlyReachableBy fixintRmp {} sampleValues Prompt s ∧ s.Quiescent ∧
      s.client.cell 1 = some (s.values "config") := by
  obtain ⟨s, hreach, hcheck⟩ := reaches_of_guarded (jointStep fixintRmp) prompt prompt_sound
    { client := .initial {}, values := sampleValues } sampleConvergence
    (fun s => s.still "config" && s.client.receiverAlive 1 &&
      decide (s.client.task.watchers.lookup "config" = some [⟨1, 1⟩])) (by decide +kernel)
  simp only [Bool.and_eq_true, decide_eq_true_eq] at hcheck
  obtain ⟨⟨hstill, halive⟩, hlookup⟩ := hcheck
  have hreachable : JointlyReachableBy fixintRmp {} sampleValues Prompt s := hreach
  have hquiescent := hreachable.orderly.quiescent hstill
  exact ⟨s, hreachable, hquiescent,
    watchers_converge hreachable hquiescent "config" _ hlookup ⟨1, 1⟩ (by simp) halive⟩

/-- A second watcher of the key is left without a value. -/
theorem second_watcher_gets_none :
    ¬ ∀ rmp options values s, JointlyReachableBy rmp options values anyStep s → s.Converged := by
  intro hall
  obtain ⟨s, hreach, hcheck⟩ := reaches_of_check (jointStep fixintRmp)
    { client := .initial {}, values := sampleValues }
    (sampleConvergence ++ [JointEvent.connection (.caller (.watch "config")),
      .connection (.caller (.submitWatch 2)), .connection (.task (.command .sent))])
    (fun s => s.still "config" && s.client.receiverAlive 2 &&
      decide (s.client.task.watchers.lookup "config" = some [⟨1, 1⟩, ⟨2, 2⟩] ∧
        s.client.cell 2 = none)) (by decide +kernel)
  simp only [Bool.and_eq_true, decide_eq_true_eq] at hcheck
  obtain ⟨⟨hstill, halive⟩, hlookup, hcell⟩ := hcheck
  have hreachable : JointlyReachableBy fixintRmp {} sampleValues anyStep s := hreach
  have hvalue := hall _ _ _ s hreachable (hreachable.orderly.quiescent hstill) "config" _ hlookup
    ⟨2, 2⟩ (by simp) halive
  rw [hcell] at hvalue
  cases hvalue

end Tarant.Connection
