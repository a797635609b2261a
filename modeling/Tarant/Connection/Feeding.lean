import Tarant.Connection.Orderly

/-!
# Commands and events as operations of a feed

A command changes the members of the feed of its key and may send a request.  An event for a
key that is watched goes to the members and is acknowledged; any other packet leaves the
feeds as they are.
-/

namespace Tarant.Connection

open Foundation
open Iproto

namespace Joint

variable {s : Joint} {link : Nat} {key : String} {client : State}

/-! ## Cells and members -/

theorem mem_live {s : State} {key : String} {watcher : Nat} :
    watcher ∈ s.live key ↔ (∃ list, s.task.watchers.lookup key = some list ∧
      ∃ subscriber ∈ list, subscriber.watcher = watcher) ∧ s.receiverAlive watcher = true := by
  rw [State.live, List.mem_filter, List.mem_map]
  refine and_congr_left' ?_
  cases s.task.watchers.lookup key <;> simp

theorem live_of_watching {s : State} (h : client.watching = s.watching) (key : String) :
    client.live key = (((client.task.watchers.lookup key).getD []).map
      Subscriber.watcher).filter s.receiverAlive := by
  have halive : client.receiverAlive = s.receiverAlive := by
    funext watcher
    rw [State.receiverAlive, State.receiverAlive, h]
  rw [State.live, halive]

theorem live_of_lookup {s : State} {list : List Subscriber}
    (hlookup : s.task.watchers.lookup key = some list) :
    s.live key = (list.map Subscriber.watcher).filter s.receiverAlive := by
  rw [State.live, hlookup]
  rfl

theorem cell_append {s : State} {actions : List Action} {watcher : Nat}
    (hhistory : client.history = s.history ++ actions)
    (h : ∀ data, .published watcher data ∉ actions) : client.cell watcher = s.cell watcher := by
  have hnone : publishedTo watcher actions = [] := by
    rw [publishedTo, List.filterMap_eq_nil_iff]
    intro action hmem
    cases action with
    | published w data =>
        have hne : w ≠ watcher := by
          rintro rfl
          exact h data hmem
        simp [hne]
    | _ => rfl
  have happend : publishedTo watcher (s.history ++ actions) =
      publishedTo watcher s.history ++ publishedTo watcher actions := List.filterMap_append
  rw [State.cell, hhistory, happend, hnone, List.append_nil]
  rfl

theorem feed_within {actions : List Action}
    (hprocessed : s.processed link ≤ (outbound link s.client.history).length)
    (hhistory : client.history = s.client.history ++ actions)
    (hinbound : client.inbound = s.client.inbound) (hread : client.read = s.client.read)
    (hsubscriptions : subscriptions link key actions = [])
    (hwanted : (client.task.watchers.lookup key).isSome =
      (s.client.task.watchers.lookup key).isSome)
    (hmembers : ∀ m ∈ client.live key, m ∈ s.client.live key ∧ client.cell m = s.client.cell m) :
    ((s.withClient client).feed link key).Within (s.feed link key) := by
  obtain ⟨hhandled, hrequests⟩ := feed_written hprocessed hhistory key
  rw [hsubscriptions, List.append_nil] at hrequests
  refine ⟨hhandled, hrequests, rfl, ?_, hwanted, hmembers⟩
  simp only [feed, withClient, hinbound, hread]

end Joint

/-! ## Handling a command -/

theorem Handling.unpublished {t t' : Task} {link : Nat} {send : SendResult} {command : Command}
    {actions : List Action} {result : Except Error Unit}
    (h : Handling t link send command t' actions result) (watcher : Nat) (data : Bytes) :
    .published watcher data ∉ actions := by
  intro hmem
  cases h.acts _ hmem

theorem sent_of_unbroken {link : Nat} {origin : Origin} {packet : Packet} {send : SendResult}
    (h : Unbroken link [.wrote link origin packet send]) : send = .sent := by
  cases send with
  | sent => rfl
  | failed err buffered => exact absurd List.mem_cons_self (h origin packet err buffered)

structure Performs (s : Joint) (client : State) (actions : List Action) : Prop where
  link : client.link = s.client.link
  history : ∃ before, client.history = s.client.history ++ (before ++ actions) ∧
    (∀ l origin packet result, .wrote l origin packet result ∉ before) ∧
      ∀ watcher data, .published watcher data ∉ before
  inbound : client.inbound = s.client.inbound
  read : client.read = s.client.read
  watching : client.watching = s.client.watching

namespace Performs

variable {s : Joint} {client : State} {link : Nat} {key : String} {actions : List Action}

theorem unbroken (h : Performs s client actions) (hunbroken : Unbroken client.link client.history) :
    Unbroken s.client.link s.client.history ∧ Unbroken s.client.link actions := by
  obtain ⟨before, hhistory, -⟩ := h.history
  rw [h.link, hhistory] at hunbroken
  exact ⟨hunbroken.of_append.1, hunbroken.of_append.2.of_append.2⟩

theorem subscriptions_eq (h : Performs s client actions) : ∃ written,
    client.history = s.client.history ++ written ∧
      (∀ link key, subscriptions link key written = subscriptions link key actions) ∧
        ∀ watcher, (∀ data, .published watcher data ∉ actions) →
          ∀ data, .published watcher data ∉ written := by
  obtain ⟨before, hhistory, hwrote, hpublished⟩ := h.history
  refine ⟨before ++ actions, hhistory, fun link key => ?_, fun watcher hnone data hmem => ?_⟩
  · have hsilent : subscriptions link key before = [] :=
      subscriptions_eq_nil fun l origin packet result hmem =>
        absurd hmem (hwrote l origin packet result)
    rw [subscriptions_append, hsilent, List.nil_append]
  · exact (List.mem_append.mp hmem).elim (hpublished watcher data) (hnone data)

theorem feed_eq (h : Performs s client actions)
    (hprocessed : s.processed link ≤ (outbound link s.client.history).length)
    (hunpublished : ∀ watcher data, .published watcher data ∉ actions) (key : String) :
    (s.withClient client).feed link key =
      { s.feed link key with
        requests := (s.feed link key).requests ++ subscriptions link key actions
        wanted := (client.task.watchers.lookup key).isSome
        members := client.live key } := by
  obtain ⟨written, hhistory, hsubscriptions, hpublished⟩ := h.subscriptions_eq
  obtain ⟨hhandled, hrequests⟩ := Joint.feed_written hprocessed hhistory key
  have hcell : client.cell = s.client.cell := funext fun watcher =>
    Joint.cell_append hhistory (hpublished watcher (hunpublished watcher))
  rw [hsubscriptions] at hrequests
  refine Feed.ext hhandled hrequests rfl ?_ rfl rfl hcell
  simp only [Joint.feed, Joint.withClient, h.inbound, h.read]

theorem sound_kept (h : Performs s client actions)
    (hprocessed : s.processed link ≤ (outbound link s.client.history).length)
    (hunpublished : ∀ watcher data, .published watcher data ∉ actions)
    (hsilent : subscriptions link key actions = [])
    (hwanted : (client.task.watchers.lookup key).isSome =
      (s.client.task.watchers.lookup key).isSome)
    (hmembers : ∀ m ∈ client.live key, m ∈ s.client.live key)
    (hsound : (s.feed link key).Sound) : ((s.withClient client).feed link key).Sound := by
  rw [h.feed_eq hprocessed hunpublished, hsilent, List.append_nil]
  exact hsound.within ⟨rfl, rfl, rfl, rfl, hwanted, fun m hmem => ⟨hmembers m hmem, rfl⟩⟩

theorem sound_untouched (h : Performs s client actions)
    (hprocessed : s.processed link ≤ (outbound link s.client.history).length)
    (hunpublished : ∀ watcher data, .published watcher data ∉ actions)
    (hsilent : subscriptions link key actions = [])
    (hlookup : client.task.watchers.lookup key = s.client.task.watchers.lookup key)
    (hsound : (s.feed link key).Sound) : ((s.withClient client).feed link key).Sound := by
  refine h.sound_kept hprocessed hunpublished hsilent (by rw [hlookup]) (fun m hmem => ?_) hsound
  rwa [Joint.live_of_watching h.watching, hlookup] at hmem

theorem sound_joined {list : List Subscriber} {subscriber : Subscriber}
    (h : Performs s client actions)
    (hprocessed : s.processed link ≤ (outbound link s.client.history).length)
    (hunpublished : ∀ watcher data, .published watcher data ∉ actions)
    (hsilent : subscriptions link key actions = [])
    (hlookup : s.client.task.watchers.lookup key = some list)
    (hlookup' : client.task.watchers.lookup key = some (list ++ [subscriber]))
    (hdue : s.client.receiverAlive subscriber.watcher = true → (s.feed link key).Due)
    (hsound : (s.feed link key).Sound) : ((s.withClient client).feed link key).Sound := by
  have hwanted : (s.feed link key).wanted = true := by simp [Joint.feed, hlookup]
  have hjoined : client.live key =
      s.client.live key ++ [subscriber.watcher].filter s.client.receiverAlive := by
    rw [Joint.live_of_watching h.watching, hlookup', Joint.live_of_lookup hlookup]
    simp
  by_cases halive : s.client.receiverAlive subscriber.watcher = true
  · have hjoin : (s.withClient client).feed link key =
        (s.feed link key).join [subscriber.watcher] := by
      rw [h.feed_eq hprocessed hunpublished, hsilent, hlookup', hjoined]
      refine Feed.ext rfl (List.append_nil _) rfl rfl hwanted.symm ?_ rfl
      simp [Feed.join, halive, Joint.feed]
    rw [hjoin]
    exact hsound.join hwanted (hdue halive) _
  · refine h.sound_kept hprocessed hunpublished hsilent ?_ (fun m hmem => ?_) hsound
    · rw [hlookup', hlookup]
      rfl
    · rw [hjoined] at hmem
      simpa [halive] using hmem

theorem sound_left {list kept : List Subscriber} (h : Performs s client actions)
    (hprocessed : s.processed link ≤ (outbound link s.client.history).length)
    (hunpublished : ∀ watcher data, .published watcher data ∉ actions)
    (hsilent : subscriptions link key actions = [])
    (hlookup : s.client.task.watchers.lookup key = some list)
    (hlookup' : client.task.watchers.lookup key = some kept) (hkept : kept.Sublist list)
    (hsound : (s.feed link key).Sound) : ((s.withClient client).feed link key).Sound := by
  refine h.sound_kept hprocessed hunpublished hsilent ?_ (fun m hmem => ?_) hsound
  · rw [hlookup', hlookup]
    rfl
  · rw [Joint.live_of_watching h.watching, hlookup'] at hmem
    rw [Joint.live_of_lookup hlookup]
    exact ((hkept.map _).filter _).subset hmem

theorem handling {t t' : Task} {send : SendResult} {command : Command}
    {result : Except Error Unit} (h : Performs s client actions) (horderly : s.Orderly)
    (hhandling : Handling t s.client.link send command t' actions result)
    (ht : t.watchers = s.client.task.watchers) (ht' : client.task.watchers = t'.watchers)
    (hunbroken : Unbroken s.client.link actions)
    (hprompt : ∀ id key watcher, command = .watch id key watcher →
      s.client.receiverAlive watcher = true →
        s.client.task.watchers.lookup key = none ∨ (s.feed s.client.link key).Due)
    (hsound : ∀ key, (s.feed s.client.link key).Sound) (key : String) :
    ((s.withClient client).feed s.client.link key).Sound := by
  have hprocessed := horderly.processed s.client.link
  have hunpublished := hhandling.unpublished
  have hacts := hhandling.acts
  have hquiet (hsilent : subscriptions s.client.link key actions = [])
      (hsame : t'.watchers = t.watchers) :
      ((s.withClient client).feed s.client.link key).Sound :=
    h.sound_untouched hprocessed hunpublished hsilent (by rw [ht', hsame, ht]) (hsound key)
  have hfeed := h.feed_eq hprocessed hunpublished key
  have hlive := Joint.live_of_watching h.watching key
  rw [ht'] at hfeed hlive
  cases hhandling with
  | @watchedFirst id key' watcher hlookup =>
      rw [ht] at hlookup
      obtain rfl := sent_of_unbroken hunbroken
      have hsingle := subscriptions_single s.client.link key key' (.watch watcher) Request.watch
      by_cases hkey : key' = key
      · subst hkey
        rw [if_pos rfl] at hsingle
        have hwanted : (s.feed s.client.link key').wanted = false := by
          simp [Joint.feed, hlookup]
        rw [hfeed, hsingle, AList.lookup_insert]
        exact (hsound key').subscribe hwanted _
      · rw [if_neg hkey] at hsingle
        refine h.sound_untouched hprocessed hunpublished hsingle ?_ (hsound key)
        rw [ht', AList.lookup_insert_ne (Ne.symm hkey), ht]
  | @watched id key' watcher list hlookup =>
      rw [ht] at hlookup
      by_cases hkey : key' = key
      · subst hkey
        have hlookup' : client.task.watchers.lookup key' = some (list ++ [⟨id, watcher⟩]) := by
          rw [ht', AList.lookup_insert]
        refine h.sound_joined hprocessed hunpublished rfl hlookup hlookup' (fun halive => ?_)
          (hsound key')
        exact (hprompt id key' watcher rfl halive).resolve_left (by simp [hlookup])
      · refine h.sound_untouched hprocessed hunpublished rfl ?_ (hsound key)
        rw [ht', AList.lookup_insert_ne (Ne.symm hkey), ht]
  | @unwatchedLast id key' watcher list hlookup hkept =>
      obtain rfl := sent_of_unbroken hunbroken
      have hsingle := subscriptions_single s.client.link key key' (.unwatch watcher)
        Request.unwatch
      by_cases hkey : key' = key
      · subst hkey
        rw [if_pos rfl] at hsingle
        rw [AList.lookup_erase] at hfeed hlive
        have hnobody : client.live key' = [] := hlive
        rw [hfeed, hsingle, hnobody]
        exact (hsound key').unsubscribe
      · rw [if_neg hkey] at hsingle
        refine h.sound_untouched hprocessed hunpublished hsingle ?_ (hsound key)
        rw [ht', AList.lookup_erase_ne (Ne.symm hkey), ht]
  | @unwatched id key' watcher list hlookup hkept =>
      rw [ht] at hlookup
      by_cases hkey : key' = key
      · subst hkey
        have hlookup' : client.task.watchers.lookup key' = some (list.filter (·.id ≠ id)) := by
          rw [ht', AList.lookup_insert]
        exact h.sound_left hprocessed hunpublished rfl hlookup hlookup' List.filter_sublist
          (hsound key')
      · refine h.sound_untouched hprocessed hunpublished rfl ?_ (hsound key)
        rw [ht', AList.lookup_insert_ne (Ne.symm hkey), ht]
  | requested | fired =>
      refine hquiet (subscriptions_eq_nil fun l origin packet result hmem => ?_) rfl
      cases hacts _ hmem
      rfl
  | _ => exact hquiet rfl rfl

end Performs

/-! ## Reading a packet -/

theorem publishedTo_of_eq {watcher : Nat} {data : Bytes} {actions : List Action}
    (h : ∀ data', .published watcher data' ∈ actions → data' = data) :
    ∀ data' ∈ publishedTo watcher actions, data' = data := by
  intro data' hmem
  obtain ⟨action, haction, hsome⟩ := List.mem_filterMap.mp hmem
  cases action with
  | published w data'' =>
      simp only [Option.ite_none_right_eq_some, Option.some.injEq] at hsome
      obtain ⟨rfl, rfl⟩ := hsome
      exact h _ haction
  | _ => cases hsome

theorem cell_published {s client : State} {watcher : Nat} {data : Bytes} {actions : List Action}
    (hhistory : client.history = s.history ++ actions) (hmem : .published watcher data ∈ actions)
    (h : ∀ data', .published watcher data' ∈ actions → data' = data) :
    client.cell watcher = some data := by
  have hlisted : data ∈ publishedTo watcher actions :=
    List.mem_filterMap.mpr ⟨_, hmem, by simp⟩
  obtain ⟨last, hlast⟩ := Option.isSome_iff_exists.mp
    (List.getLast?_isSome.mpr (List.ne_nil_of_mem hlisted))
  have happend : publishedTo watcher (s.history ++ actions) =
      publishedTo watcher s.history ++ publishedTo watcher actions := List.filterMap_append
  obtain rfl := publishedTo_of_eq h last (List.mem_of_getLast? hlast)
  rw [State.cell, hhistory, happend, List.getLast?_append, hlast]
  rfl

def notifications (link : Nat) (key : String) (data : Bytes) (kept : List Subscriber)
    (ack : SendResult) : List Action :=
  (if Task.isShutdown key data then [.announced link] else []) ++
    kept.map (fun subscriber => .published subscriber.watcher data) ++
    [.wrote link .ack (watchPacket Request.watch key) ack]

theorem mem_notifications {link : Nat} {key : String} {data data' : Bytes}
    {kept : List Subscriber} {ack : SendResult} {watcher : Nat} :
    .published watcher data' ∈ notifications link key data kept ack ↔
      (∃ subscriber ∈ kept, subscriber.watcher = watcher) ∧ data' = data := by
  have hannounced : .published watcher data' ∉
      (if Task.isShutdown key data then [Action.announced link] else []) := by
    split <;> simp
  simp only [notifications, List.mem_append, List.mem_map, List.mem_singleton, reduceCtorEq,
    or_false, hannounced, false_or, Action.published.injEq]
  constructor
  · rintro ⟨subscriber, hmem, rfl, rfl⟩
    exact ⟨⟨subscriber, hmem, rfl⟩, rfl⟩
  · rintro ⟨⟨subscriber, hmem, rfl⟩, rfl⟩
    exact ⟨subscriber, hmem, rfl, rfl⟩

theorem subscriptions_notifications {link : Nat} {key key' : String} {data : Bytes}
    {kept : List Subscriber} {ack : SendResult}
    (hunbroken : Unbroken link (notifications link key' data kept ack)) :
    subscriptions link key (notifications link key' data kept ack) =
      if key' = key then [true] else [] := by
  obtain rfl := sent_of_unbroken hunbroken.of_append.2
  rw [notifications, subscriptions_append, subscriptions_single, subscriptions_eq_nil]
  · rfl
  · intro l origin packet result hmem
    simp only [List.mem_append, List.mem_map, reduceCtorEq, and_false, exists_false,
      or_false] at hmem
    split at hmem <;> simp at hmem

structure Takes (s : Joint) (client : State) (inbound : Inbound) (actions : List Action) :
    Prop where
  next : (s.client.inbound s.client.link)[s.client.read s.client.link]? = some inbound
  history : client.history = s.client.history ++ actions
  inbound : client.inbound = s.client.inbound
  read : client.read =
    Function.update s.client.read s.client.link (s.client.read s.client.link + 1)
  watching : client.watching = s.client.watching

namespace Takes

variable {s : Joint} {client : State} {inbound : Inbound} {actions : List Action} {key : String}

theorem events (h : Takes s client inbound actions) (key : String) :
    (s.feed s.client.link key).events = (inbound.eventFor key).toList ++
      ((s.withClient client).feed s.client.link key).events := by
  obtain ⟨hlt, hget⟩ := List.getElem?_eq_some_iff.mp h.next
  simp only [Joint.feed, Joint.withClient, h.inbound, h.read, Function.update_self]
  rw [List.drop_eq_getElem_cons hlt, hget, List.filterMap_cons]
  cases inbound.eventFor key <;> rfl

theorem sound_kept (h : Takes s client inbound actions) (horderly : s.Orderly)
    (hevent : inbound.eventFor key = none)
    (hsilent : subscriptions s.client.link key actions = [])
    (hlookup : client.task.watchers.lookup key = s.client.task.watchers.lookup key)
    (hunpublished : ∀ m ∈ s.client.live key, ∀ data, .published m data ∉ actions)
    (hsound : (s.feed s.client.link key).Sound) :
    ((s.withClient client).feed s.client.link key).Sound := by
  obtain ⟨hhandled, hrequests⟩ :=
    Joint.feed_written (horderly.processed s.client.link) h.history key
  have hevents := h.events key
  rw [hevent] at hevents
  rw [hsilent, List.append_nil] at hrequests
  refine hsound.within ⟨hhandled, hrequests, rfl, hevents.symm, congrArg Option.isSome hlookup,
    fun m hmem => ?_⟩
  have hlive : client.live key = s.client.live key := by
    rw [Joint.live_of_watching h.watching, hlookup]
    rfl
  have hmem' : m ∈ s.client.live key := hlive ▸ hmem
  exact ⟨hmem', Joint.cell_append h.history (hunpublished m hmem')⟩

theorem sound_unwatched (h : Takes s client inbound actions) (horderly : s.Orderly)
    {data : Bytes} (hevent : inbound.eventFor key = some data)
    (hsilent : subscriptions s.client.link key actions = [])
    (hunpublished : ∀ m data, .published m data ∉ actions)
    (hwatchers : client.task.watchers = s.client.task.watchers)
    (hlookup : s.client.task.watchers.lookup key = none)
    (hsound : (s.feed s.client.link key).Sound) :
    ((s.withClient client).feed s.client.link key).Sound := by
  obtain ⟨hhandled, hrequests⟩ :=
    Joint.feed_written (horderly.processed s.client.link) h.history key
  have hevents := h.events key
  rw [hevent] at hevents
  rw [hsilent, List.append_nil] at hrequests
  have hread : (s.withClient client).feed s.client.link key =
      (s.feed s.client.link key).read data
        ((s.withClient client).feed s.client.link key).events := by
    have hwanted : ¬ (s.feed s.client.link key).wanted = true := by
      simp [Joint.feed, hlookup]
    rw [Feed.read, if_neg hwanted]
    refine Feed.ext hhandled hrequests rfl rfl ?_ ?_ ?_
    · exact congrArg (fun map => (AList.lookup key map).isSome) hwatchers
    · change client.live key = s.client.live key
      rw [Joint.live_of_watching h.watching, hwatchers]
      rfl
    · exact funext fun m => Joint.cell_append h.history (hunpublished m)
  rw [hread]
  exact hsound.read hevents

theorem sound_notified {data : Bytes} {list : List Subscriber} {ack : SendResult}
    (h : Takes s client inbound (notifications s.client.link key data
      (list.filter (s.client.receiverAlive ·.watcher)) ack)) (horderly : s.Orderly)
    (hevent : inbound.eventFor key = some data)
    (hunbroken : Unbroken s.client.link (notifications s.client.link key data
      (list.filter (s.client.receiverAlive ·.watcher)) ack))
    (hlookup : s.client.task.watchers.lookup key = some list)
    (hlookup' : client.task.watchers.lookup key =
      some (list.filter (s.client.receiverAlive ·.watcher)))
    (hsound : (s.feed s.client.link key).Sound) :
    ((s.withClient client).feed s.client.link key).Sound := by
  obtain ⟨hhandled, hrequests⟩ :=
    Joint.feed_written (horderly.processed s.client.link) h.history key
  have hevents := h.events key
  rw [hevent] at hevents
  rw [subscriptions_notifications hunbroken, if_pos rfl] at hrequests
  have hlive (m : Nat) : m ∈ s.client.live key ↔
      ∃ subscriber ∈ list.filter (s.client.receiverAlive ·.watcher), subscriber.watcher = m := by
    rw [Joint.mem_live, hlookup]
    simp only [Option.some.injEq, exists_eq_left', List.mem_filter]
    constructor
    · rintro ⟨⟨subscriber, hmem, rfl⟩, halive⟩
      exact ⟨subscriber, ⟨hmem, halive⟩, rfl⟩
    · rintro ⟨subscriber, ⟨hmem, halive⟩, rfl⟩
      exact ⟨⟨subscriber, hmem, rfl⟩, halive⟩
  have hread : (s.withClient client).feed s.client.link key =
      (s.feed s.client.link key).read data
        ((s.withClient client).feed s.client.link key).events := by
    have hwanted : (s.feed s.client.link key).wanted = true := by
      simp [Joint.feed, hlookup]
    rw [Feed.read, if_pos hwanted]
    refine Feed.ext hhandled hrequests rfl rfl ?_ ?_ ?_
    · change (client.task.watchers.lookup key).isSome = (s.client.task.watchers.lookup key).isSome
      rw [hlookup', hlookup]
      rfl
    · change client.live key = s.client.live key
      rw [Joint.live_of_watching h.watching, hlookup', Joint.live_of_lookup hlookup]
      simp [List.filter_map, Function.comp_def]
    · funext m
      change client.cell m = if m ∈ s.client.live key then some data else s.client.cell m
      split
      next hmem =>
          refine cell_published h.history (mem_notifications.mpr ⟨(hlive m).mp hmem, rfl⟩) ?_
          exact fun data' hpublished => (mem_notifications.mp hpublished).2
      next hmem =>
          refine Joint.cell_append h.history fun data' hpublished => ?_
          exact hmem ((hlive m).mpr (mem_notifications.mp hpublished).1)
  rw [hread]
  exact hsound.read hevents

theorem key_unique {s : State} (h : Sourced s) {key key' : String} {list list' : List Subscriber}
    (hlookup : s.task.watchers.lookup key = some list)
    (hlookup' : s.task.watchers.lookup key' = some list') {subscriber subscriber' : Subscriber}
    (hmem : subscriber ∈ list) (hmem' : subscriber' ∈ list')
    (hsame : subscriber.watcher = subscriber'.watcher) : key = key' := by
  obtain ⟨-, w, hw, rfl⟩ := h.task.lookup hlookup subscriber hmem
  obtain ⟨-, w', hw', rfl⟩ := h.task.lookup hlookup' subscriber' hmem'
  rw [hsame] at hw
  rw [Option.mem_def.mp hw] at hw'
  rw [Option.some.inj hw']

theorem routing {t' : Task} {ack : SendResult} {index : Nat}
    (h : Takes s client inbound actions) (horderly : s.Orderly) (hsourced : Sourced s.client)
    (htask : client.task = t')
    (hrouting : Routing s.client.task s.client.link s.client.receiverAlive ack
      ⟨inbound.response, s.client.link, index⟩ t' actions)
    (hunbroken : Unbroken s.client.link actions)
    (hsound : ∀ key, (s.feed s.client.link key).Sound) (key : String) :
    ((s.withClient client).feed s.client.link key).Sound := by
  -- all but a notification write nothing and publish nothing
  have hquiet (hsilent : subscriptions s.client.link key actions = [])
      (hunpublished : ∀ m data, .published m data ∉ actions)
      (hwatchers : client.task.watchers = s.client.task.watchers)
      (hnobody : ∀ data, inbound.eventFor key = some data →
        s.client.task.watchers.lookup key = none) :
      ((s.withClient client).feed s.client.link key).Sound := by
    cases hevent : inbound.eventFor key with
    | none =>
        exact h.sound_kept horderly hevent hsilent (by rw [hwatchers])
          (fun m _ => hunpublished m) (hsound key)
    | some data =>
        exact h.sound_unwatched horderly hevent hsilent hunpublished hwatchers
          (hnobody data hevent) (hsound key)
  have hkind {data : Bytes} (hevent : inbound.eventFor key = some data) :
      inbound.response.kind = .event := by
    by_contra hkind
    rw [eventFor_of_kind hkind] at hevent
    cases hevent
  have hsilent (hwrote : ∀ l origin packet result, .wrote l origin packet result ∉ actions) :
      subscriptions s.client.link key actions = [] :=
    subscriptions_eq_nil fun l origin packet result hmem =>
      absurd hmem (hwrote l origin packet result)
  cases hrouting with
  | @notified key' data list hkind' hevent' hlookup =>
      have heventFor : inbound.eventFor key = if key' = key then some data else none := by
        rw [Inbound.eventFor, Inbound.event, if_pos hkind', hevent']
        rfl
      by_cases hkey : key' = key
      · subst hkey
        rw [if_pos rfl] at heventFor
        refine h.sound_notified horderly heventFor hunbroken hlookup ?_ (hsound key')
        rw [htask]
        exact AList.lookup_insert _
      · rw [if_neg hkey] at heventFor
        refine h.sound_kept horderly heventFor ?_ ?_ ?_ (hsound key)
        · exact (subscriptions_notifications hunbroken).trans (if_neg hkey)
        · rw [htask]
          exact AList.lookup_insert_ne (Ne.symm hkey)
        · intro m hmem data' hpublished
          obtain ⟨subscriber, hentry, rfl⟩ := (mem_notifications.mp hpublished).1
          obtain ⟨⟨list', hlookup', subscriber', hentry', hsame⟩, -⟩ := Joint.mem_live.mp hmem
          exact hkey (key_unique hsourced hlookup hlookup' (List.mem_of_mem_filter hentry)
            hentry' hsame.symm)
  | @unwatched key' data hkind' hevent' hlookup =>
      refine hquiet (hsilent ?_) ?_ (by rw [htask]) fun data' hevent => ?_
      · intro l origin packet result
        split <;> simp
      · intro m data'
        split <;> simp
      · rw [Inbound.eventFor, Inbound.event, if_pos hkind', hevent', Option.bind_some,
          Option.ite_none_right_eq_some] at hevent
        rw [← hevent.1]
        exact hlookup
  | malformed hkind' hevent' =>
      refine hquiet rfl (by simp) (by rw [htask]) fun data hevent => ?_
      rw [Inbound.eventFor, Inbound.event, if_pos hkind', hevent'] at hevent
      cases hevent
  | delivered hfinal | unexpected hfinal =>
      refine hquiet (hsilent (by simp)) (by simp) (by rw [htask]) fun data hevent => ?_
      rw [show inbound.response.kind = .event from hkind hevent] at hfinal
      cases hfinal
  | pushed hchunk | unheard hchunk =>
      refine hquiet (hsilent (by simp)) (by simp) (by rw [htask]) fun data hevent => ?_
      rw [show inbound.response.kind = .event from hkind hevent] at hchunk
      cases hchunk

end Takes

end Tarant.Connection
