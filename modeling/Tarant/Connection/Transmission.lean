import Tarant.Foundation.Delimited
import Tarant.Connection.Fanout
import Tarant.Connection.Routing
import Tarant.Serving

/-!
# From packets to bytes

The transition system records packets; the socket carries bytes.  `transmit` is
what the builder and the encoder make of the packets of a link.  A server that cuts
these bytes into length-prefixed frames, wherever they are split and however far
they have come, finds the packets of the link in order, and every frame reads as
its packet in one way only.
-/

namespace Tarant.Connection

open Foundation
open Iproto
open Building (Writer EncodesEach named fieldCall buildPacket send send_ok headerEntries)
open Tarant.Wire (Encodes)

/-! ## Where the written packets come from -/

def State.knowsKey (s : State) (key : String) : Prop :=
  ∃ w watching, s.watching w = some watching ∧ watching.key = key

def Origin.Accounts (s : State) (packet : Packet) : Origin → Prop
  | .handshakeId => packet = idPacket
  | .handshakeAuth => ∃ user ∈ s.options.loginUser, ∃ scramble : Bytes,
      scramble.length = 20 ∧ packet = authPacket user scramble
  | .call n => ∃ call, s.calls n = some call ∧ call.packet = packet
  | .watch _ | .ack | .resubscribe =>
      ∃ key, s.knowsKey key ∧ packet = watchPacket Request.watch key
  | .unwatch _ => ∃ key, s.knowsKey key ∧ packet = watchPacket Request.unwatch key

/-- The scramble of `chap_sha1` is an array of twenty bytes. -/
def FullScramble (_ : State) : Event → Prop
  | .task (.authenticated scramble _) => scramble.length = 20
  | _ => True

theorem knowsKey_mono {s s' : State} {key : String} (h : s.knowsKey key)
    (hextends : Extends s s') : s'.knowsKey key := by
  obtain ⟨w, watching, hw, rfl⟩ := h
  obtain ⟨watching', hw', hkey⟩ := hextends.watching w watching hw
  exact ⟨w, watching', hw', hkey⟩

def Action.Founded (s : State) : Action → Prop
  | .wrote _ .handshakeAuth packet _ => Origin.handshakeAuth.Accounts s packet
  | .wrote _ .ack packet _ => Origin.ack.Accounts s packet
  | .wrote _ .resubscribe packet _ => Origin.resubscribe.Accounts s packet
  | _ => True

theorem Action.Founded.mono {s s' : State} (hoptions : s'.options = s.options)
    (hextends : Extends s s') {action : Action} (h : action.Founded s) : action.Founded s' := by
  have hkeys {packet : Packet} (h : Origin.ack.Accounts s packet) :
      Origin.ack.Accounts s' packet :=
    h.imp fun _ hkey => ⟨knowsKey_mono hkey.1 hextends, hkey.2⟩
  cases action with
  | wrote link origin packet result =>
      cases origin with
      | handshakeAuth =>
          change ∃ user ∈ s'.options.loginUser, _
          rw [hoptions]
          exact h
      | ack => exact hkeys h
      | resubscribe => exact hkeys h
      | _ => trivial
  | _ => trivial

theorem Handling.keys {t t' : Task} {link : Nat} {send : SendResult} {command : Command}
    {actions : List Action} {result : Except Error Unit}
    (h : Handling t link send command t' actions result) {key : String} (hmem : key ∈ t'.watchers) :
    key ∈ t.watchers ∨ ∃ id watcher, command = .watch id key watcher := by
  cases h with
  | watchedFirst hlookup | watched hlookup =>
      rcases (AList.mem_insert _).mp hmem with rfl | hold
      · exact .inr ⟨_, _, rfl⟩
      · exact .inl hold
  | unwatchedLast hlookup hkept => exact .inl (AList.mem_erase.mp hmem).2
  | unwatched hlookup hkept =>
      rcases (AList.mem_insert _).mp hmem with rfl | hold
      · exact .inl (AList.lookup_isSome.mp (by rw [hlookup]; rfl))
      · exact .inl hold
  | _ => exact .inl hmem

theorem Routing.keys {t t' : Task} {link : Nat} {alive : Nat → Bool} {ack : SendResult}
    {arrival : Arrival} {actions : List Action} (h : Routing t link alive ack arrival t' actions)
    {key : String} (hmem : key ∈ t'.watchers) : key ∈ t.watchers := by
  cases h with
  | notified hkind hevent hlookup =>
      rcases (AList.mem_insert _).mp hmem with rfl | hold
      · exact AList.lookup_isSome.mp (by rw [hlookup]; rfl)
      · exact hold
  | _ => exact hmem

theorem TaskMove.founded {rmp : Rmp} {s s' : State} {event : TaskEvent}
    (h : TaskMove rmp s event s') (hscramble : FullScramble s (.task event))
    (hkeys : ∀ key ∈ s.task.watchers, s.knowsKey key) :
    ∃ actions, s'.history = s.history ++ actions ∧ ∀ action ∈ actions, action.Founded s := by
  obtain ⟨actions, hhistory, hrecorded⟩ := h.recorded
  refine ⟨actions, hhistory, fun action hmem => ?_⟩
  cases hrecorded action hmem with
  | handling deferred hup hlink hhandling hmem =>
      cases hhandling.acts action hmem <;> trivial
  | routing hphase hlink hinbound hrouting hmem =>
      cases hrouting.acts action hmem with
      | acknowledged hevent hlookup =>
          exact ⟨_, hkeys _ (AList.lookup_isSome.mp (by rw [hlookup]; rfl)), rfl⟩
      | _ => trivial
  | @loggedIn _ _ _ user scramble _ _ huser hevent =>
      subst hevent
      exact ⟨user, huser, scramble, hscramble, rfl⟩
  | @resubscribed _ _ _ _ key _ _ _ hkey => exact ⟨key, hkeys key hkey, rfl⟩
  | _ => trivial

theorem TaskMove.keys {rmp : Rmp} {s s' : State} {event : TaskEvent}
    (h : TaskMove rmp s event s') (hsourced : Sourced s) (hlive : s'.phase ≠ .done)
    {key : String} (hmem : key ∈ s'.task.watchers) : key ∈ s.task.watchers ∨ s.knowsKey key := by
  cases h.fans with
  | still hhistory hunheard hread hwatchers =>
      rw [hwatchers.resolve_left hlive] at hmem
      exact .inl hmem
  | handled hsent hhandling ht ht' =>
      rw [ht'.resolve_left hlive] at hmem
      rcases hhandling.keys hmem with hold | ⟨id, watcher, rfl⟩
      · exact .inl (ht ▸ hold)
      · obtain ⟨-, watching, hw, hkey⟩ := hsourced.outstanding hsent
        exact .inr ⟨watcher, watching, hw, hkey⟩
  | routed hrouting hread ht =>
      rw [ht.resolve_left hlive] at hmem
      exact .inl (hrouting.keys hmem)

structure Founded (s : State) : Prop where
  keys : s.phase ≠ .done → ∀ key ∈ s.task.watchers, s.knowsKey key
  history : ∀ action ∈ s.history, action.Founded s

theorem founded_of_reachable {rmp : Rmp} {options : ConnectOptions} {s : State}
    (h : ReachableBy rmp options FullScramble s) : Founded s := by
  refine Reaches.invariant ?_ ?_ h
  · exact ⟨fun _ key hmem => absurd hmem (by simp [State.initial]), List.forall_mem_nil _⟩
  · intro s s' event hreach hfounded hscramble hstep
    have hreachable : Reachable rmp options s := hreach.weaken
    cases step_move hstep with
    | caller hmove =>
        have huntouched := hmove.untouched
        have hextends := hmove.extends (hreachable.ledger.fresh _ le_rfl)
          (hreachable.sourced.fresh _ le_rfl)
        constructor
        · rw [huntouched.phase, huntouched.task]
          exact fun hlive key hmem => knowsKey_mono (hfounded.keys hlive key hmem) hextends
        · rw [huntouched.history]
          exact fun action hmem => (hfounded.history action hmem).mono huntouched.options hextends
    | task hmove =>
        have huntouched := hmove.untouched
        have hextends := Extends.of_eq huntouched.calls huntouched.watching
        have hkeys := hfounded.keys hmove.not_done
        constructor
        · intro hlive key hmem
          rcases hmove.keys hreachable.sourced hlive hmem with hold | hknown
          · exact knowsKey_mono (hkeys key hold) hextends
          · exact knowsKey_mono hknown hextends
        · obtain ⟨actions, hhistory, hactions⟩ := hmove.founded hscramble hkeys
          rw [hhistory, List.forall_mem_append]
          exact ⟨fun action hmem => (hfounded.history action hmem).mono huntouched.options hextends,
            fun action hmem => (hactions action hmem).mono huntouched.options hextends⟩
    | server => exact ⟨hfounded.keys, hfounded.history⟩

theorem outbound_accounted {rmp : Rmp} {options : ConnectOptions} {s : State}
    (h : ReachableBy rmp options FullScramble s) {link : Nat} {origin : Origin} {packet : Packet}
    (hmem : (origin, packet) ∈ outbound link s.history) : origin.Accounts s packet := by
  obtain ⟨result, hwrote⟩ := mem_outbound hmem
  have hfounded := (founded_of_reachable h).history _ hwrote
  have hreachable : Reachable rmp options s := h.weaken
  have htraced := hreachable.sourced.history _ hwrote
  cases origin with
  | handshakeId => exact htraced
  | call n =>
      rcases htraced with ⟨_, _, -, call, hcall, hpacket, -⟩ | ⟨call, hcall, hpacket⟩
      · exact ⟨call, hcall, hpacket⟩
      · exact ⟨call, hcall, hpacket⟩
  | watch watcher | unwatch watcher =>
      obtain ⟨id, key, ⟨-, watching, hw, hkey⟩, hpacket⟩ := htraced
      exact ⟨key, ⟨watcher, watching, hw, hkey⟩, hpacket⟩
  | handshakeAuth | ack | resubscribe => exact hfounded

/-! ## Packets as bytes -/

inductive Field.Means : Field → Value → Prop where
  | uint {value : Nat} (h : value < 2 ^ 64) : Means (.uint value) (.integer value)
  | str {text : String} (h : (asBytes text).length < 2 ^ 32) :
      Means (.str text) (.string (asBytes text))
  | bool (value : Bool) : Means (.bool value) (.boolean value)
  | f64 (bits : UInt64) : Means (.f64 bits) (.f64 bits)
  | ext {tag : Int} {payload : Bytes} (htag : -128 ≤ tag ∧ tag < 128)
      (h : payload.length < 2 ^ 32) : Means (.ext tag payload) (.ext tag payload)
  | raw {value : Value} {msgpack : Bytes} (h : Encodes [value] msgpack) :
      Means (.raw msgpack) value
  | rawArray {values : List Value} {elements : List Bytes} (h : EncodesEach values elements)
      (hlength : elements.length < 2 ^ 32) : Means (.rawArray elements) (.array values)

def Packet.Says (packet : Packet) : List (Value × Value) → Prop :=
  List.Forall₂ (fun field entry => field.1 < 256 ∧ entry.1 = .integer field.1 ∧
    field.2.Means entry.2) packet.body

def Packet.header (packet : Packet) : List (Value × Value) :=
  [(.integer Key.requestType, .integer packet.ty), (.integer Key.sync, .integer packet.sync)] ++
    packet.streamId.toList.map fun id => (.integer Key.streamId, .integer id)

def Packet.Carries (packet : Packet) (bytes : Bytes) : Prop :=
  ∃ entries, packet.Says entries ∧ Encodes [.map packet.header, .map entries] bytes

/-- Numbers fit a `u64`, texts and arrays their length fields. -/
structure Packet.Ready (packet : Packet) : Prop where
  ty : packet.ty < 2 ^ 64
  sync : packet.sync < 2 ^ 64
  streamId : ∀ id ∈ packet.streamId, id < 2 ^ 64
  body : packet.body.length < 2 ^ 32
  fields : ∃ entries, packet.Says entries

theorem Field.Means.asks {k : Nat} {field : Field} {value : Value} (h : field.Means value) :
    (fieldCall k field).Asks (named k, value) ∧ (fieldCall k field).Accepted := by
  cases h with
  | @uint n h =>
      have hasks := Building.Call.Asks.uint (named k) (.ofNat n)
      rw [UInt64.toNat_ofNat_of_lt' h] at hasks
      exact ⟨hasks, trivial⟩
  | str h => exact ⟨.str _ h, trivial⟩
  | bool value => exact ⟨.bool _ _, trivial⟩
  | f64 bits => exact ⟨.f64 _ _, trivial⟩
  | @ext tag payload htag h =>
      have hasks := Building.Call.Asks.ext (named k) (.ofInt tag) payload
      rw [Int8.toInt_ofInt_of_le htag.1 htag.2] at hasks
      exact ⟨hasks, h⟩
  | raw h => exact ⟨.raw _ h, trivial⟩
  | rawArray h hlength => exact ⟨.rawArray _ h, hlength⟩

theorem named_toNat {k : Nat} (h : k < 256) : (named k).toNat = k := by
  simp [named, UInt8.toNat_ofNat']
  omega

theorem Packet.Says.asked {packet : Packet} {entries : List (Value × Value)}
    (h : packet.Says entries) : ∃ asked, asked.map Building.entry = entries ∧
      List.Forall₂ Building.Call.Asks (packet.body.map fun (k, field) => fieldCall k field) asked ∧
      ∀ call ∈ packet.body.map fun (k, field) => fieldCall k field, call.Accepted := by
  obtain ⟨ty, sync, streamId, body⟩ := packet
  simp only [Packet.Says] at h ⊢
  induction h with
  | nil => exact ⟨[], rfl, .nil, List.forall_mem_nil _⟩
  | @cons field entry body entries hfield _ ih =>
      obtain ⟨hkey, hentry, hmeans⟩ := hfield
      obtain ⟨asked, rfl, hasked, haccepted⟩ := ih
      obtain ⟨hasks, haccepts⟩ := hmeans.asks (k := field.1)
      refine ⟨(named field.1, entry.2) :: asked, ?_, .cons hasks hasked,
        List.forall_mem_cons.mpr ⟨haccepts, haccepted⟩⟩
      rw [List.map_cons, Building.entry, named_toNat hkey, ← hentry]

theorem headerEntries_eq {packet : Packet} (h : packet.Ready) :
    headerEntries (.ofNat packet.ty) (.ofNat packet.sync) (packet.streamId.map .ofNat) =
      packet.header := by
  have hty := h.ty
  have hsync := h.sync
  rw [headerEntries, Packet.header, UInt64.toNat_ofNat_of_lt' hty, UInt64.toNat_ofNat_of_lt' hsync]
  cases hid : packet.streamId with
  | none => rfl
  | some id => simp [UInt64.toNat_ofNat_of_lt' (h.streamId id hid)]

variable {w : Writer}

theorem Packet.Ready.built (hw : w.Lawful) {packet : Packet} (h : packet.Ready) :
    ∃ bytes, buildPacket w packet = .ok bytes ∧ packet.Carries bytes := by
  obtain ⟨entries, hsays⟩ := h.fields
  obtain ⟨asked, rfl, hasked, haccepted⟩ := hsays.asked
  have hlength : (packet.body.map fun (k, field) => fieldCall k field).length < 2 ^ 32 := by
    rw [List.length_map]
    exact h.body
  have hexists : ∃ bytes, buildPacket w packet = .ok bytes :=
    Building.exists_send hw hasked haccepted hlength
  obtain ⟨bytes, hsend⟩ := hexists
  refine ⟨bytes, hsend, _, hsays, ?_⟩
  rw [← headerEntries_eq h]
  exact Building.encodes_of_send hw hsend hasked hlength

def Packet.Same (packet packet' : Packet) : Prop :=
  packet.ty = packet'.ty ∧ packet.sync = packet'.sync ∧ packet.streamId = packet'.streamId ∧
    ∃ entries, packet.Says entries ∧ packet'.Says entries

theorem Packet.Carries.same {packet packet' : Packet} {bytes : Bytes} (h : packet.Carries bytes)
    (h' : packet'.Carries bytes) : packet.Same packet' := by
  obtain ⟨entries, hsays, hencodes⟩ := h
  obtain ⟨entries', hsays', hencodes'⟩ := h'
  have hvalues := (hencodes.unambiguous hencodes' rfl (Eq.refl (bytes ++ []))).1
  obtain ⟨hheader, rfl⟩ : packet.header = packet'.header ∧ entries = entries' := by
    simpa using hvalues
  have hfields : packet.ty = packet'.ty ∧ packet.sync = packet'.sync ∧
      packet.streamId = packet'.streamId := by
    cases hid : packet.streamId with
    | none =>
        cases hid' : packet'.streamId with
        | none => simpa [Packet.header, hid, hid'] using hheader
        | some id' => simp [Packet.header, hid, hid'] at hheader
    | some id =>
        cases hid' : packet'.streamId with
        | none => simp [Packet.header, hid, hid'] at hheader
        | some id' => simpa [Packet.header, hid, hid'] using hheader
  exact ⟨hfields.1, hfields.2.1, hfields.2.2, entries, hsays, hsays'⟩

/-! ## Packets on the wire -/

def Frame (packet word : Bytes) : Prop :=
  ∃ head, Encodes [.integer packet.length] head ∧ word = head ++ packet

theorem frame_prefixFree : PrefixFree Frame where
  ne_nil := by
    rintro packet word ⟨head, hencodes, rfl⟩ hnil
    obtain ⟨rfl, -⟩ := List.append_eq_nil_iff.mp hnil
    simpa using hencodes.length_le
  unique := by
    rintro a b x y s t ⟨head, hencodes, rfl⟩ ⟨head', hencodes', rfl⟩ heq
    rw [List.append_assoc, List.append_assoc] at heq
    obtain ⟨hvalues, rfl⟩ := hencodes.unambiguous hencodes' rfl heq
    have hlength : a.length = b.length := by simpa using hvalues
    obtain ⟨rfl, -⟩ := List.append_inj (List.append_cancel_left heq) hlength
    exact ⟨rfl, rfl⟩

theorem encode_frame {packet buffer buffer' : Bytes}
    (h : Codec.encode packet buffer = .ok buffer') :
    ∃ word, Frame packet word ∧ buffer' = buffer ++ word := by
  simp only [Codec.encode] at h
  split at h
  next hlength =>
    cases h
    refine ⟨_, ⟨0xce :: Codec.beBytes 4 packet.length, ?_, rfl⟩, by simp⟩
    exact Wire.Scalar.encodes (.uint (by decide) hlength)
  next => cases h

def transmitOne (w : Writer) (buffer : Bytes) (packet : Packet) : Option Bytes :=
  (buildPacket w packet).toOption.bind fun bytes => (Codec.encode bytes buffer).toOption

def transmit (w : Writer) (packets : List Packet) : Option Bytes :=
  packets.foldlM (transmitOne w) []

theorem ok_of_toOption {ε α : Type} {result : Except ε α} {a : α}
    (h : result.toOption = some a) : result = .ok a := by
  cases result with
  | error err => cases h
  | ok other => exact congrArg Except.ok (Option.some.inj h)

theorem transmitOne_frame {packet : Packet} {buffer buffer' : Bytes}
    (h : transmitOne w buffer packet = some buffer') :
    ∃ bytes word, buildPacket w packet = .ok bytes ∧ Frame bytes word ∧
      buffer' = buffer ++ word := by
  rw [transmitOne, Option.bind_eq_some_iff] at h
  obtain ⟨bytes, hbuilt, hencoded⟩ := h
  obtain ⟨word, hframe, heq⟩ := encode_frame (ok_of_toOption hencoded)
  exact ⟨bytes, word, ok_of_toOption hbuilt, hframe, heq⟩

theorem foldlM_transmitOne {packets : List Packet} {buffer wire : Bytes}
    (h : packets.foldlM (transmitOne w) buffer = some wire) :
    ∃ frames bytes, List.Forall₂ (fun packet frame => buildPacket w packet = .ok frame) packets
      frames ∧ Words Frame frames bytes ∧ wire = buffer ++ bytes := by
  induction packets generalizing buffer with
  | nil =>
      obtain rfl : buffer = wire := by simpa using h
      exact ⟨[], [], .nil, .nil, (List.append_nil _).symm⟩
  | cons packet packets ih =>
      rw [List.foldlM_cons, Option.bind_eq_bind, Option.bind_eq_some_iff] at h
      obtain ⟨buffer', hone, hrest⟩ := h
      obtain ⟨frame, word, hbuilt, hframe, rfl⟩ := transmitOne_frame hone
      obtain ⟨frames, bytes, hall, hwords, rfl⟩ := ih hrest
      exact ⟨frame :: frames, word ++ bytes, .cons hbuilt hall, .cons hframe hwords,
        List.append_assoc _ _ _⟩

theorem carries_of_built (hw : w.Lawful) {packets : List Packet} {frames : List Bytes}
    (hready : ∀ packet ∈ packets, packet.Ready)
    (h : List.Forall₂ (fun packet frame => buildPacket w packet = .ok frame) packets frames) :
    List.Forall₂ Packet.Carries packets frames := by
  induction h with
  | nil => exact .nil
  | @cons packet frame _ _ hbuilt _ ih =>
      obtain ⟨hpacket, hpackets⟩ := List.forall_mem_cons.mp hready
      obtain ⟨bytes, hsame, hcarries⟩ := hpacket.built hw
      obtain rfl : bytes = frame := Except.ok.inj (hsame.symm.trans hbuilt)
      exact .cons hcarries (ih hpackets)

/-! ## What the task writes is ready -/

theorem watchPacket_ready {ty : Nat} (hty : ty < 2 ^ 64) {key : String}
    (hkey : (asBytes key).length < 2 ^ 32) : (watchPacket ty key).Ready where
  ty := hty
  sync := Nat.two_pow_pos 64
  streamId := by simp [watchPacket]
  body := by simp [watchPacket]
  fields := by
    refine ⟨[(.integer Key.eventKey, .string (asBytes key))], .cons ⟨?_, rfl, .str hkey⟩ .nil⟩
    exact (by decide : Key.eventKey < 256)

theorem features_encode : EncodesEach (Feature.announced.map fun f => .integer f.code)
    (Feature.announced.map fun f => [UInt8.ofNat f.code]) := by
  rw [EncodesEach, List.forall₂_map_left_iff, List.forall₂_map_right_iff, List.forall₂_same]
  intro feature _
  apply Wire.Scalar.encodes
  apply Wire.Scalar.posFixint
  cases feature <;> decide

theorem idPacket_ready : idPacket.Ready where
  ty := by decide
  sync := by decide
  streamId := by simp [idPacket]
  body := by decide
  fields := by
    refine ⟨[(.integer Key.version, .integer protocolVersion),
      (.integer Key.features, .array (Feature.announced.map fun f => .integer f.code)),
      (.integer Key.authType, .string (asBytes chapSha1))],
      .cons ⟨by decide, rfl, .uint (by decide)⟩ (.cons ⟨by decide, rfl, ?_⟩
        (.cons ⟨by decide, rfl, .str (by decide +kernel)⟩ .nil))⟩
    exact .rawArray features_encode (by decide)

theorem authPacket_ready {user : String} (huser : (asBytes user).length < 2 ^ 32)
    {scramble : Bytes} (hlength : scramble.length = 20) : (authPacket user scramble).Ready where
  ty := (by decide : Request.auth < 2 ^ 64)
  sync := (by decide : 1 < 2 ^ 64)
  streamId := by simp [authPacket]
  body := by simp [authPacket]
  fields := by
    have hshort {text : Bytes} {marker : UInt8} (hle : text.length ≤ 31)
        (hmarker : marker = UInt8.ofNat (0xa0 + text.length)) :
        Encodes [.string text] (marker :: text) := by
      rw [hmarker]
      exact Wire.Scalar.encodes (.fixstr hle)
    have hmethod : Encodes [.string (asBytes chapSha1)] (0xa9 :: asBytes chapSha1) :=
      hshort (by decide +kernel) (by decide +kernel)
    have hscramble : Encodes [.string scramble] (0xb4 :: scramble) :=
      hshort (by omega) (by rw [hlength]; rfl)
    refine ⟨[(.integer Key.userName, .string (asBytes user)),
      (.integer Key.tuple, .array [.string (asBytes chapSha1), .string scramble])],
      .cons ⟨(by decide : Key.userName < 256), rfl, .str huser⟩
        (.cons ⟨(by decide : Key.tuple < 256), rfl, ?_⟩ .nil)⟩
    exact .rawArray (.cons hmethod (.cons hscramble .nil)) (by simp)

/-- What callers asked for can be written down: their packets are ready, and the keys
and the user name fit a string. -/
structure State.Writable (s : State) : Prop where
  calls : ∀ n call, s.calls n = some call → call.packet.Ready
  keys : ∀ key, s.knowsKey key → (asBytes key).length < 2 ^ 32
  user : ∀ user ∈ s.options.loginUser, (asBytes user).length < 2 ^ 32

theorem Origin.Accounts.ready {s : State} (h : s.Writable) {origin : Origin} {packet : Packet}
    (haccounts : origin.Accounts s packet) : packet.Ready := by
  cases origin with
  | handshakeId =>
      obtain rfl := haccounts
      exact idPacket_ready
  | handshakeAuth =>
      obtain ⟨user, huser, scramble, hlength, rfl⟩ := haccounts
      exact authPacket_ready (h.user user huser) hlength
  | call n =>
      obtain ⟨call, hcall, rfl⟩ := haccounts
      exact h.calls n call hcall
  | watch watcher | unwatch watcher | ack | resubscribe =>
      obtain ⟨key, hkey, rfl⟩ := haccounts
      exact watchPacket_ready (by decide) (h.keys key hkey)

def State.packetsOn (s : State) (link : Nat) : List Packet := (outbound link s.history).map Prod.snd

theorem sent_ready {rmp : Rmp} {options : ConnectOptions} {s : State}
    (h : ReachableBy rmp options FullScramble s) (hwritable : s.Writable) (link : Nat) :
    ∀ packet ∈ s.packetsOn link, packet.Ready := by
  intro packet hmem
  obtain ⟨⟨origin, packet⟩, hsent, rfl⟩ := List.mem_map.mp hmem
  exact (outbound_accounted h hsent).ready hwritable

theorem same_of_carries {packets packets' : List Packet} {frames : List Bytes}
    (h : List.Forall₂ Packet.Carries packets frames)
    (h' : List.Forall₂ Packet.Carries packets' frames) :
    List.Forall₂ Packet.Same packets packets' := by
  induction h generalizing packets' with
  | nil =>
      cases h' with
      | nil => exact .nil
  | cons hfirst _ ih =>
      cases h' with
      | cons hfirst' hrest' => exact .cons (hfirst.same hfirst') (ih hrest')

/-- Whatever a server has received of a link's bytes, the frames it can cut off carry
the first packets of the link, in order and each one of them alone; it can cut off all
but less than a frame, and of all the bytes it cuts the frames of all the packets. -/
theorem wire_reads_as_sent {rmp : Rmp} {options : ConnectOptions} {s : State}
    (hw : w.Lawful) (h : ReachableBy rmp options FullScramble s) (hwritable : s.Writable)
    {link : Nat} {wire : Bytes} (hwire : transmit w (s.packetsOn link) = some wire)
    {received : Bytes} (hreceived : received <+: wire) :
    (∃ frames part left, Words Frame frames part ∧ received = part ++ left ∧
      (left = [] ∨ ∃ frame word, Frame frame word ∧ left <+: word ∧ left ≠ word) ∧
      (received = wire → left = [] ∧ List.Forall₂ Packet.Carries (s.packetsOn link) frames)) ∧
    ∀ frames part left, Words Frame frames part → received = part ++ left →
      ∃ packets, packets <+: s.packetsOn link ∧ List.Forall₂ Packet.Carries packets frames ∧
        ∀ packets', List.Forall₂ Packet.Carries packets' frames →
          List.Forall₂ Packet.Same packets packets' := by
  obtain ⟨whole, bytes, hbuilt, hwords, hbytes⟩ := foldlM_transmitOne hwire
  obtain rfl : wire = bytes := hbytes
  have hcarries := carries_of_built hw (sent_ready h hwritable link) hbuilt
  constructor
  · by_cases hall : received = wire
    · exact ⟨whole, wire, [], hwords, by simpa using hall, .inl rfl, fun _ => ⟨rfl, hcarries⟩⟩
    · obtain ⟨frames, rest, part, left, rfl, hcut, rfl, hleft⟩ := hwords.cut hreceived
      refine ⟨frames, part, left, hcut, rfl, hleft.imp_right ?_, fun heq => absurd heq hall⟩
      rintro ⟨frame, word, -, hframe, hbegins, hne⟩
      exact ⟨frame, word, hframe, hbegins, hne⟩
  · rintro frames part left hcut rfl
    obtain ⟨rest, rfl⟩ := hreceived
    rw [List.append_assoc] at hwords
    obtain ⟨others, rfl, -⟩ := hcut.begins frame_prefixFree hwords rfl
    have hfirst := List.forall₂_take_append _ _ _ hcarries
    exact ⟨_, List.take_prefix _ _, hfirst, fun packets' h' => same_of_carries hfirst h'⟩

def sampleWire : List Event :=
  [.task (.connected "3.0.0" .sent), .task (.authenticated (List.replicate 20 7) .sent),
    .server 0 sampleIdReply,
    .task (.handshakeReply [] fun _ => .sent), sampleAuthReply,
    .task (.handshakeReply [] fun _ => .sent), .task (.drain .sent), .caller (.watch "config"),
    .caller (.submitWatch 1), .task (.command .sent), .task (.drain .sent),
    .caller (.call none 10 [(Key.tuple, .raw [0x91, 0x05])] false), .caller (.submit 1),
    .task (.command .sent)]

def fullScramble (_ : State) : Event → Bool
  | .task (.authenticated scramble _) => scramble.length == 20
  | _ => true

theorem fullScramble_sound (s : State) (event : Event) (h : fullScramble s event = true) :
    FullScramble s event := by
  unfold FullScramble
  split
  · simpa [fullScramble] using h
  · trivial

theorem sampleCall_ready : (Packet.mk 10 1 none [(Key.tuple, .raw [0x91, 0x05])]).Ready where
  ty := by decide
  sync := by decide
  streamId := by simp
  body := by decide
  fields := by
    refine ⟨[(.integer Key.tuple, .array [.integer 5])], .cons ⟨by decide, rfl, .raw ?_⟩ .nil⟩
    exact .array (.fix (by decide)) (Wire.Scalar.encodes (.posFixint (by decide))) .done

theorem wire_reads_as_sent_sample :
    ∃ s wire, ReachableBy fixintRmp { user := some "app" } FullScramble s ∧
      (s.packetsOn 0).length = 4 ∧ transmit Building.compactWriter (s.packetsOn 0) = some wire ∧
      ∃ frames, Words Frame frames wire ∧ List.Forall₂ Packet.Carries (s.packetsOn 0) frames := by
  obtain ⟨s, hreach, hcheck⟩ := reaches_of_guarded (step fixintRmp) fullScramble
    fullScramble_sound (.initial { user := some "app" }) sampleWire
    (fun s => decide (s.nextSync = 2 ∧ s.nextWatchId = 2 ∧ s.options.loginUser = some "app" ∧
        (s.calls 1).map Call.packet = some ⟨10, 1, none, [(Key.tuple, .raw [0x91, 0x05])]⟩ ∧
        s.watching 0 = none ∧ (s.watching 1).map Watching.key = some "config" ∧
        (s.packetsOn 0).length = 4 ∧
        (transmit Building.compactWriter (s.packetsOn 0)).isSome)) (by decide +kernel)
  obtain ⟨hsync, hid, huser, hcall, hnone, hkey, hsent, hwire⟩ := of_decide_eq_true hcheck
  obtain ⟨wire, hwire⟩ := Option.isSome_iff_exists.mp hwire
  have hreachable : Reachable fixintRmp { user := some "app" } s := hreach.weaken
  have hwritable : s.Writable := by
    refine ⟨fun n call hn => ?_, ?_, ?_⟩
    · obtain ⟨hpos, hlt⟩ := hreachable.ledger.toFresh.bounds hn
      obtain rfl : n = 1 := by omega
      rw [hn] at hcall
      rw [Option.some.inj hcall]
      exact sampleCall_ready
    · rintro key ⟨w, watching, hw, rfl⟩
      have hlt := hreachable.sourced.toRegistered.lt hw
      obtain rfl | rfl : w = 0 ∨ w = 1 := by omega
      · rw [hnone] at hw
        cases hw
      · rw [hw] at hkey
        rw [Option.some.inj hkey]
        decide +kernel
    · rw [huser]
      intro user hmem
      obtain rfl : "app" = user := Option.some.inj hmem
      decide +kernel
  obtain ⟨⟨frames, part, left, hwords, hpart, -, hall⟩, -⟩ :=
    wire_reads_as_sent Building.compactWriter_lawful hreach hwritable hwire (List.prefix_refl wire)
  obtain ⟨rfl, hcarries⟩ := hall rfl
  rw [List.append_nil] at hpart
  exact ⟨s, wire, hreach, hsent, hwire, frames, hpart ▸ hwords, hcarries⟩

end Tarant.Connection
