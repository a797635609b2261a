import Tarant.Connection.Records
import Tarant.Connection.Settlement

/-!
# Subscriptions

The watchers map, the commands on their way to it, and the registrations with
the server.  A key is registered on a link when the last packet about it that
went over the link is a `WATCH`; as long as every `send` succeeds these are the
keys of the map.
-/

namespace Tarant.Connection

open Foundation
open Iproto

/-! ## Registrations on a link -/

/-- What a packet of the task asks for: a registration, or the end of one.  No
call of a handle carries a `WATCH` or an `UNWATCH`. -/
def Origin.registers : Origin → Option Bool
  | .watch _ | .ack | .resubscribe => some true
  | .unwatch _ => some false
  | _ => none

def sessionRequest (key : String) (sent : Origin × Packet) : Option Bool :=
  if sent.2.eventKey = some key then sent.1.registers else none

def subscriptions (link : Nat) (key : String) (history : List Action) : List Bool :=
  (outbound link history).filterMap (sessionRequest key)

def registered (link : Nat) (key : String) (history : List Action) : Bool :=
  (subscriptions link key history).getLast? = some true

def Unbroken (link : Nat) (history : List Action) : Prop :=
  ∀ origin packet err buffered, .wrote link origin packet (.failed err buffered) ∉ history

theorem subscriptions_append (link : Nat) (key : String) (history actions : List Action) :
    subscriptions link key (history ++ actions) =
      subscriptions link key history ++ subscriptions link key actions := by
  rw [subscriptions, outbound_append, List.filterMap_append]
  rfl

theorem Unbroken.of_append {link : Nat} {history actions : List Action}
    (h : Unbroken link (history ++ actions)) : Unbroken link history ∧ Unbroken link actions :=
  ⟨fun origin packet err buffered hmem =>
      h origin packet err buffered (List.mem_append_left _ hmem),
    fun origin packet err buffered hmem =>
      h origin packet err buffered (List.mem_append_right _ hmem)⟩

theorem Unbroken.of_cons {link : Nat} {action : Action} {actions : List Action}
    (h : Unbroken link (action :: actions)) : Unbroken link actions :=
  fun origin packet err buffered hmem => h origin packet err buffered (List.mem_cons_of_mem _ hmem)

theorem subscriptions_eq_nil {link : Nat} {key : String} {actions : List Action}
    (h : ∀ l origin packet result, .wrote l origin packet result ∈ actions →
      origin.registers = none) : subscriptions link key actions = [] := by
  rw [subscriptions, List.filterMap_eq_nil_iff]
  rintro ⟨origin, packet⟩ hmem
  obtain ⟨result, hwrote⟩ := mem_outbound hmem
  simp [sessionRequest, h _ _ _ _ hwrote]

theorem registered_append_nil {link : Nat} {key : String} {history actions : List Action}
    (h : subscriptions link key actions = []) :
    registered link key (history ++ actions) = registered link key history := by
  rw [registered, subscriptions_append, h, List.append_nil]
  rfl

theorem registered_append {link : Nat} {key : String} {history actions : List Action}
    {said : Bool} (h : (subscriptions link key actions).getLast? = some said) :
    registered link key (history ++ actions) = said := by
  rw [registered, subscriptions_append, List.getLast?_append, h]
  cases said <;> rfl

theorem subscriptions_single (link : Nat) (key key' : String) (origin : Origin) (ty : Nat) :
    subscriptions link key [.wrote link origin (watchPacket ty key') .sent] =
      if key' = key then origin.registers.toList else [] := by
  by_cases hkey : key' = key
  · subst hkey
    cases hrequests : origin.registers <;>
      simp [subscriptions, outbound, SendResult.reached, sessionRequest, hrequests]
  · simp [subscriptions, outbound, SendResult.reached, sessionRequest, hkey]

/-! ## The map and the registrations -/

section Task

variable {t t' : Task} {link : Nat} {key : String} {history actions : List Action}

theorem registered_single {key' : String} {origin : Origin} {ty : Nat} {send : SendResult}
    {said : Bool} (hrequests : origin.registers = some said)
    (hunbroken : Unbroken link [.wrote link origin (watchPacket ty key') send]) :
    registered link key (history ++ [Action.wrote link origin (watchPacket ty key') send]) =
      if key' = key then said else registered link key history := by
  cases send with
  | failed err buffered => exact absurd List.mem_cons_self (hunbroken _ _ err buffered)
  | sent =>
      have hsingle := subscriptions_single link key key' origin ty
      split at hsingle
      next hkey =>
        rw [if_pos hkey]
        exact registered_append (by rw [hsingle, hrequests]; rfl)
      next hkey =>
        rw [if_neg hkey]
        exact registered_append_nil hsingle

theorem mem_insert_of_lookup {m : WatcherMap} {key key' : String} {list list' : List Subscriber}
    (hlookup : m.lookup key' = some list) : key ∈ m.insert key' list' ↔ key ∈ m := by
  have hmem : key' ∈ m := AList.lookup_isSome.mp (by simp [hlookup])
  rw [AList.mem_insert]
  constructor
  · rintro (rfl | hkey)
    · exact hmem
    · exact hkey
  · exact .inr

theorem Handling.registers {send : SendResult} {command : Command} {result : Except Error Unit}
    (h : Handling t link send command t' actions result) (hunbroken : Unbroken link actions)
    (hagree : registered link key history = true ↔ key ∈ t.watchers) :
    registered link key (history ++ actions) = true ↔ key ∈ t'.watchers := by
  have hacts := h.acts
  cases h with
  | watchedFirst hlookup =>
      rw [registered_single rfl hunbroken, AList.mem_insert]
      split
      next hkey => simp [hkey]
      next hkey => simp [hagree, Ne.symm hkey]
  | unwatchedLast hlookup =>
      rw [registered_single rfl hunbroken, AList.mem_erase]
      split
      next hkey => simp [hkey]
      next hkey => simp [hagree, Ne.symm hkey]
  | watched hlookup | unwatched hlookup =>
      rw [List.append_nil, hagree, mem_insert_of_lookup hlookup]
  | unwatchedUnknown => rw [List.append_nil, hagree]
  | _ =>
      rw [registered_append_nil, hagree]
      refine subscriptions_eq_nil fun l origin packet result hmem => ?_
      cases hacts _ hmem <;> rfl

theorem Routing.registers {alive : Nat → Bool} {ack : SendResult} {arrival : Arrival}
    (h : Routing t link alive ack arrival t' actions) (hunbroken : Unbroken link actions)
    (hagree : registered link key history = true ↔ key ∈ t.watchers) :
    registered link key (history ++ actions) = true ↔ key ∈ t'.watchers := by
  cases h with
  | @notified key' data list hkind hevent hlookup =>
      rw [← List.append_assoc, registered_single rfl hunbroken.of_append.2,
        mem_insert_of_lookup hlookup]
      split
      next hkey =>
        subst hkey
        simp [← AList.lookup_isSome, hlookup]
      next hkey =>
        rw [registered_append_nil, hagree]
        refine subscriptions_eq_nil fun l origin packet result hmem => ?_
        split at hmem <;> simp at hmem
  | unwatched =>
      rw [registered_append_nil, hagree]
      refine subscriptions_eq_nil fun l origin packet result hmem => ?_
      split at hmem <;> simp at hmem
  | _ =>
      rw [registered_append_nil, hagree]
      refine subscriptions_eq_nil fun l origin packet result hmem => ?_
      simp at hmem

theorem Handling.failed {send : SendResult} {command : Command} {err : Error}
    (h : Handling t link send command t' actions (.error err)) : ¬ Unbroken link actions := by
  intro hunbroken
  generalize hresult : Except.error err = result at h
  have hfailed (actions : List Action) {origin : Origin} {packet : Packet}
      (hlast : Unbroken link (actions ++ [Action.wrote link origin packet send])) :
      send.result ≠ .error err := by
    cases send with
    | sent => simp [SendResult.result]
    | failed err' buffered => exact absurd (by simp) (hlast origin packet err' buffered)
  cases h with
  | requested => exact hfailed _ hunbroken hresult.symm
  | fired | watchedFirst | unwatchedLast => exact hfailed [] hunbroken hresult.symm
  | _ => cases hresult

theorem subscriptions_resubscribe {send : String → SendResult} {keys : List String}
    (hunbroken : Unbroken link (Task.resubscribe link send keys)) :
    subscriptions link key (Task.resubscribe link send keys) =
      (keys.filter (· = key)).map fun _ => true := by
  induction keys with
  | nil => rfl
  | cons first keys ih =>
      rw [Task.resubscribe] at hunbroken ⊢
      cases hsend : send first with
      | failed err buffered =>
          rw [hsend] at hunbroken
          exact absurd List.mem_cons_self (hunbroken _ _ err buffered)
      | sent =>
          simp only [hsend, SendResult.isSent, if_true] at hunbroken ⊢
          have htail := ih hunbroken.of_cons
          rw [← List.singleton_append, subscriptions_append, subscriptions_single, htail]
          by_cases hkey : first = key <;> simp [hkey, Origin.registers]

theorem registered_resubscribe {send : String → SendResult} {keys : List String}
    (hunbroken : Unbroken link (Task.resubscribe link send keys))
    (hold : subscriptions link key history = []) :
    registered link key (history ++ Task.resubscribe link send keys) = true ↔ key ∈ keys := by
  rw [registered, subscriptions_append, hold, List.nil_append,
    subscriptions_resubscribe hunbroken, List.getLast?_map]
  cases hlast : (keys.filter (· = key)).getLast? with
  | none =>
      rw [List.getLast?_eq_none_iff, List.filter_eq_nil_iff] at hlast
      simpa using fun hmem => hlast key hmem (by simp)
  | some last =>
      have hmem := List.mem_of_getLast? hlast
      simp only [List.mem_filter, decide_eq_true_eq] at hmem
      simpa using hmem.2 ▸ hmem.1

end Task

/-- Apart from the handshakes, only links that are or were current are written to. -/
def Served (s : State) : Prop :=
  ∀ link origin packet result, .wrote link origin packet result ∈ s.history →
    origin.handshake = false → ¬ s.phase.first ∧ link ≤ s.link

theorem Phase.not_first_of_up {phase : Phase} (h : phase.up = true) : ¬ phase.first := by
  cases phase <;> simp_all [Phase.up, Phase.first, Phase.attempt]

theorem Served.moved {rmp : Rmp} {s s' : State} {event : TaskEvent} (h : Served s)
    (hlinks : Links s) (hmove : TaskMove rmp s event s') : Served s' := by
  obtain ⟨actions, hhistory, hrecorded⟩ := hmove.recorded
  intro link origin packet result hmem hhandshake
  rw [hhistory] at hmem
  -- a link that was current stays behind the current one
  have hkept (hfirst : ¬ s.phase.first) (hle : link ≤ s.link) :
      ¬ s'.phase.first ∧ link ≤ s'.link := by
    obtain ⟨hlink, hfirst'⟩ := hmove.link_le hlinks hfirst
    exact ⟨hfirst', hle.trans hlink⟩
  rcases List.mem_append.mp hmem with hold | hnew
  · obtain ⟨hfirst, hle⟩ := h link origin packet result hold hhandshake
    exact hkept hfirst hle
  · cases hrecorded _ hnew with
    | handling deferred hup hlink hhandling hmem =>
        exact hkept (Phase.not_first_of_up hup) (hhandling.isLocal _ hmem).1.le
    | routing hphase hlink hinbound hrouting hmem =>
        exact hkept (by rw [hphase]; rintro ⟨⟩) (hrouting.isLocal _ hmem).1.le
    | greeted | loggedIn => cases hhandshake
    | resubscribed hreply hlink =>
        have hfirst : ¬ s.phase.first := by
          rw [Phase.first, hreply.phase.2]
          rintro ⟨⟩
        exact ⟨(hmove.link_le hlinks hfirst).2, hlink.ge⟩

theorem Served.subscriptions_socket {s : State} (h : Served s) (hlinks : Links s) {socket : Nat}
    (hsocket : s.phase.socket = some socket) (key : String) :
    subscriptions socket key s.history = [] := by
  rw [subscriptions, List.filterMap_eq_nil_iff]
  rintro ⟨origin, packet⟩ hmem
  obtain ⟨result, hwrote⟩ := mem_outbound hmem
  cases hhandshake : origin.handshake with
  | true => cases origin <;> simp_all [Origin.handshake, sessionRequest, Origin.registers]
  | false =>
      obtain ⟨hfirst, hle⟩ := h socket origin packet result hwrote hhandshake
      have hlt := (hlinks.socket socket hsocket).2 hfirst
      omega

theorem Reachable.served {rmp : Rmp} {options : ConnectOptions} {s : State}
    (h : Reachable rmp options s) : Served s := by
  refine h.task_invariant ?_ ?_ fun hreach hserved _ hmove =>
    hserved.moved (Reachable.links hreach) hmove
  · simp [Served, State.initial]
  · intro s s' hside hserved
    rw [Served, hside.history, hside.phase, hside.link]
    exact hserved

/-- The keys of the map are those registered on the current link, unless one of
its `send`s has failed. -/
structure Agreement (s : State) : Prop where
  first : s.phase.first → s.task.watchers = ∅
  agree : s.phase.up = true → Unbroken s.link s.history →
    ∀ key, registered s.link key s.history = true ↔ key ∈ s.task.watchers

theorem Agreement.of_down {s : State} (hup : s.phase.up = false) (hfirst : ¬ s.phase.first) :
    Agreement s where
  first h := absurd h hfirst
  agree h := by simp [hup] at h

theorem Agreement.of_up {s : State} (hup : s.phase.up = true)
    (hagree : Unbroken s.link s.history → ∀ key,
      registered s.link key s.history = true ↔ key ∈ s.task.watchers) : Agreement s where
  first h := absurd h (Phase.not_first_of_up hup)
  agree _ := hagree

theorem Agreement.handled {s s' : State} {t t' : Task} {send : SendResult} {command : Command}
    {actions : List Action} {result : Except Error Unit} (h : Agreement s)
    (hhandling : Handling t s.link send command t' actions result) (before : List Action)
    (hbefore : ∀ key, subscriptions s.link key before = []) (hup : s.phase.up = true)
    (hup' : s'.phase.up = true) (hlink : s'.link = s.link)
    (hhistory : s'.history = s.history ++ (before ++ actions))
    (ht : t.watchers = s.task.watchers) (ht' : s'.task.watchers = t'.watchers) :
    Agreement s' := by
  refine .of_up hup' fun hunbroken key => ?_
  rw [hlink, hhistory] at hunbroken
  rw [hlink, hhistory, ht', ← List.append_assoc]
  refine hhandling.registers hunbroken.of_append.2.of_append.2 ?_
  rw [registered_append_nil (hbefore key), ht]
  exact h.agree hup hunbroken.of_append.1 key

theorem Agreement.moved {rmp : Rmp} {s s' : State} {event : TaskEvent} (h : Agreement s)
    (hlinks : Links s) (hserved : Served s) (hmove : TaskMove rmp s event s') :
    Agreement s' := by
  have hquiet {before : List Action} (hbefore : ∀ l origin packet result,
      .wrote l origin packet result ∉ before) (key : String) :
      subscriptions s.link key before = [] :=
    subscriptions_eq_nil fun l origin packet result hmem =>
      absurd hmem (hbefore l origin packet result)
  -- a socket that has just finished its handshake
  have hnew {socket : Nat} (negotiated : Negotiated) (hphase : s.phase.socket = some socket)
      (key : String) :
      subscriptions socket key (s.history ++ [Action.up socket negotiated]) = [] := by
    rw [subscriptions_append, hserved.subscriptions_socket hlinks hphase key]
    rfl
  cases hmove with
  | drained hphase => exact .of_up rfl (h.agree (by rw [hphase]; rfl))
  | @replayed command rest send t actions hphase hdeferred hhandle =>
      exact h.handled (handling_of_eq hhandle) [.handled s.link command] (hquiet (by simp))
        (by rw [hphase]; rfl) rfl rfl rfl rfl rfl
  | @replayFailed command rest send t actions err hphase hdeferred hhandle =>
      refine .of_up rfl fun hunbroken => ?_
      exact absurd hunbroken.of_append.2.of_cons.of_append.1 (handling_of_eq hhandle).failed
  | @handled command rest send t actions hphase hchannel hclose hhandle =>
      exact h.handled (handling_of_eq hhandle) [.took command, .handled s.link command]
        (hquiet (by simp)) (by rw [hphase]; rfl) rfl rfl (List.append_assoc _ _ _) rfl rfl
  | received hphase =>
      refine .of_up rfl fun hunbroken key => ?_
      exact (handleResponse_routing _ _ _ _ _).registers hunbroken.of_append.2
        (h.agree (by rw [hphase]; rfl) hunbroken.of_append.1 key)
  | handledLost | linkLost => exact .of_down (lose_not_up _) (lose_not_first _)
  | closeCommand | channelClosed | receivedLast | woke | deferred | closeWhileDown
  | channelClosedWhileDown => exact .of_down rfl nofun
  | @connected delay version send phase hphase hafter =>
      have hattempt : s.phase.attempt = some delay := by rw [hphase]; rfl
      rcases afterSend_cases hafter with ⟨-, rfl⟩ | hfailed
      · obtain ⟨-, hdelay, hdown⟩ := greeted_phase s delay version
        refine ⟨fun hfirst => h.first ?_, fun hup => ?_⟩
        · exact hattempt.trans (hdelay.symm.trans hfirst)
        · exact absurd (hdown.symm.trans hup) Bool.false_ne_true
      · obtain ⟨-, rfl | ⟨-, delay, rfl⟩⟩ := afterFailure_cases hfailed <;> exact .of_down rfl nofun
  | authenticated hphase huser hafter =>
      rcases afterSend_cases hafter with ⟨-, rfl⟩ | hfailed
      · refine ⟨fun hfirst => h.first ?_, nofun⟩
        rw [hphase]
        exact hfirst
      · obtain ⟨-, rfl | ⟨-, delay, rfl⟩⟩ := afterFailure_cases hfailed <;> exact .of_down rfl nofun
  | idAccepted hphase =>
      refine ⟨fun hfirst => h.first ?_, nofun⟩
      rw [hphase]
      exact hfirst
  | attemptFailed hphase hafter | replyRejected _ hphase hafter =>
      obtain ⟨-, rfl | ⟨-, delay, rfl⟩⟩ := afterFailure_cases hafter <;> exact .of_down rfl nofun
  | @spawned order send socket negotiated inbound hreply =>
      refine .of_up rfl fun _ key => ?_
      have hempty : s.task.watchers = ∅ := h.first hreply.phase.2
      simp [registered, State.perform, State.advance, hnew negotiated hreply.phase.1 key, hempty]
  | @reconnected delay socket negotiated inbound order send hreply hinbound horder =>
      refine .of_up rfl fun hunbroken key => ?_
      have hkeys := registered_resubscribe hunbroken.of_append.2.of_cons
        (hnew negotiated hreply.phase.1 key)
      rw [List.append_assoc] at hkeys
      exact hkeys.trans (horder.mem_iff.trans AList.mem_keys.symm)

theorem Reachable.agreement {rmp : Rmp} {options : ConnectOptions} {s : State}
    (h : Reachable rmp options s) : Agreement s := by
  refine h.task_invariant ?_ ?_ fun hreach hagreement _ hmove =>
    hagreement.moved (Reachable.links hreach) (Reachable.served hreach) hmove
  · exact ⟨fun _ => rfl, nofun⟩
  · intro s s' hside hagreement
    constructor
    · rw [hside.phase, hside.task]
      exact hagreement.first
    · rw [hside.phase, hside.task, hside.link, hside.history]
      exact hagreement.agree

end Tarant.Connection
