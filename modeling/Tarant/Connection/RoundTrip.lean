import Tarant.Returning
import Tarant.Connection.Routing
import Tarant.Connection.Transmission
import Tarant.Connection.Reception

/-!
# A request and its answer

Both directions of a socket together: the frame that carries a request to the server,
the reply that the server writes to it, and what the caller makes of the reply.
-/

namespace Tarant.Connection

open Foundation
open Building (Method Reads Writer buildPacket)
open Codec (decodeAll)
open Iproto
open Returning (Decodes said)

/-- Among the frames that a server can cut off the bytes, the one with this number. -/
def FrameAt (wire : Bytes) (i : Nat) (frame : Bytes) : Prop :=
  ∃ frames, Words Frame frames wire ∧ frames[i]? = some frame

/-- A packet stands on the wire where it was handed over. -/
theorem frameAt_of_sent {w : Writer} {packets : List Packet} {wire : Bytes}
    (h : transmit w packets = some wire) {i : Nat} {packet : Packet}
    (hget : packets[i]? = some packet) :
    ∃ frame, FrameAt wire i frame ∧ buildPacket w packet = .ok frame := by
  obtain ⟨frames, bytes, hbuilt, hwords, hbytes⟩ := foldlM_transmitOne h
  obtain rfl : wire = bytes := hbytes
  obtain ⟨hlt, rfl⟩ := List.getElem?_eq_some_iff.mp hget
  have hlt' : i < frames.length := hbuilt.length_eq ▸ hlt
  exact ⟨frames[i], ⟨frames, hwords, List.getElem?_eq_getElem hlt'⟩, hbuilt.get hlt hlt'⟩

/-- The answer is what the server wrote in reply to the frame of the call: the server's
packets on the socket are told from the bytes that arrived, the client's frames from the
bytes that left. -/
structure RoundTrip (w : Writer) (rmp : Rmp) (x : Buffered) (wire : Bytes) (call : Call)
    (arrival : Arrival) (i : Nat) (frame : Bytes) : Prop where
  asked : FrameAt wire i frame
  built : buildPacket w call.packet = .ok frame
  answers : (x.state.inbound arrival.link)[arrival.index]? = some ⟨arrival.response, some i⟩
  arrived : (decodeAll rmp (x.arrived arrival.link)).results[arrival.index]? =
    some (.ok arrival.response)

theorem Delivered.roundTrip {w : Writer} {rmp : Rmp} {x : Buffered} {link n : Nat}
    {arrival : Arrival} (h : Delivered x.state link n arrival) (hsound : x.Sound rmp)
    {wire : Bytes} (hwire : transmit w (x.state.packetsOn link) = some wire) :
    arrival.link = link ∧ ∃ call i frame, x.state.calls n = some call ∧
      RoundTrip w rmp x wire call arrival i frame := by
  obtain ⟨rfl, inbound, i, packet, call, hget, hresponse, hanswers, hsent, hcall, rfl⟩ := h
  have hpacket : (x.state.packetsOn arrival.link)[i]? = some call.packet := by
    rw [State.packetsOn, List.getElem?_map, hsent]
    rfl
  obtain ⟨frame, hasked, hbuilt⟩ := frameAt_of_sent hwire hpacket
  refine ⟨rfl, call, i, frame, hcall, hasked, hbuilt, ?_, ?_⟩
  · rw [hget, ← hresponse, ← hanswers]
  · have hdecoded := hsound.decoded arrival.link []
    rw [List.append_nil, List.append_nil] at hdecoded
    have hlt : arrival.index < (x.state.inbound arrival.link).length :=
      (List.getElem?_eq_some_iff.mp hget).1
    rw [hdecoded, List.getElem?_append_left (by simpa [State.responses] using hlt),
      List.getElem?_map, State.responses, List.getElem?_map, hget, ← hresponse]
    rfl

theorem RoundTrip.reply {w : Writer} {rmp : Rmp} {x : Buffered} {wire : Bytes} {call : Call}
    {arrival : Arrival} {i : Nat} {frame : Bytes} (h : RoundTrip w rmp x wire call arrival i frame)
    (hsound : x.Sound rmp) {packets : List Codec.Framed} (hlegal : ∀ f ∈ packets, f.Legal rmp)
    {rest : Bytes}
    (harrived : x.arrived arrival.link ++ rest = packets.flatMap Codec.Framed.bytes) :
    ∃ reply, packets[arrival.index]? = some reply ∧ reply.response = arrival.response := by
  have hread : (x.state.responses arrival.link)[arrival.index]? = some arrival.response := by
    rw [State.responses, List.getElem?_map, h.answers]
    rfl
  obtain ⟨more, hmore⟩ := prefix_of_ok (hsound.results_of_legal hlegal harrived)
  have hlt := (List.getElem?_eq_some_iff.mp hread).1
  have hget : (packets.map Codec.Framed.response)[arrival.index]? = some arrival.response := by
    rw [← hmore, List.getElem?_append_left hlt, hread]
  rw [List.getElem?_map] at hget
  exact Option.map_eq_some_iff.mp hget

/-! ## Main result -/

/-- With the server's word on what its replies answer, an answered call gets what it asked
for: its frame stands among those on its socket, where a server reads it as the operation
of the method that was called; the reply is the packet that the server wrote to this very
frame; and if the server's packets are legal frames, the caller's value is the data of
that packet. -/
theorem call_gets_what_it_asked_for {w : Writer} (hw : w.Lawful) {rmp : Rmp}
    {options : ConnectOptions} {x : Buffered} (h : ReceivesBy rmp options LoginSafe x)
    (hbound : x.state.nextSync ≤ 2 ^ 64) {link n : Nat} {arrival : Arrival}
    (hanswered : .answered link n (.reply arrival) ∈ x.state.history) {wire : Bytes}
    (hwire : transmit w (x.state.packetsOn link) = some wire) :
    ∃ call i frame, x.state.calls n = some call ∧ RoundTrip w rmp x wire call arrival i frame ∧
      (∀ (m : Method) negotiated sync, m.Fits →
        m.packet w negotiated sync = buildPacket w call.packet →
          ∃ op, m.operation = some op ∧
            Reads frame sync.toNat (m.stream.map UInt64.toNat) op) ∧
      ∀ packets : List Codec.Framed, (∀ f ∈ packets, f.Legal rmp) →
        x.arrived link <+: packets.flatMap Codec.Framed.bytes →
        ∃ reply, packets[arrival.index]? = some reply ∧ reply.response = arrival.response ∧
          ∀ packet limit, packet.Distinct rmp limit .ok → reply.packet = packet.bytes →
            ∀ {α : Type} (fromSlice : Bytes → Except String α) meaning,
              Decodes packet fromSlice meaning →
              (Returning.value fromSlice arrival.response).toOption =
                meaning ((said packet Key.data).getD .nil) := by
  have hreceives : Receives rmp options x := h.weaken
  have hdelivered := h.reachableBy.routable.routed hbound link n arrival hanswered
  obtain ⟨rfl, call, i, frame, hcall, htrip⟩ :=
    hdelivered.roundTrip hreceives.sound hwire
  refine ⟨call, i, frame, hcall, htrip, ?_, ?_⟩
  · intro m negotiated sync hfits hsame
    obtain ⟨op, hop, hreads⟩ :=
      (Building.method_delivers hw m hfits).reads frame (hsame.trans htrip.built)
    exact ⟨op, Method.operation_of_sendable hop, hreads⟩
  · rintro packets hlegal ⟨rest, hrest⟩
    obtain ⟨reply, hreply, hresponse⟩ :=
      htrip.reply hreceives.sound hlegal hrest
    refine ⟨reply, hreply, hresponse, ?_⟩
    intro packet limit hdistinct hbytes α fromSlice meaning hdecodes
    obtain ⟨response, hparse, hanswers⟩ := hdistinct.parsed
    have haccepted := (hlegal reply (List.mem_of_getElem? hreply)).accepted
    rw [hbytes, hparse, hresponse] at haccepted
    obtain rfl := Except.ok.inj haccepted
    rw [Returning.value_ok fromSlice hanswers.kind]
    exact Returning.data_said hanswers hdecodes

def sampleInvocation : Method :=
  .call none "f" (.scalar (.ok
    ⟨.integer 5, [0x05], Wire.Scalar.encodes (.posFixint (by decide))⟩))

theorem zero_small : 0 ≤ 0x7f := by decide

theorem one_small : 1 ≤ 0x7f := by decide

theorem data_small : 0x30 ≤ 0x7f := by decide

theorem five_small : 5 ≤ 0x7f := by decide

def sampleAnswer : Tarant.Packet where
  header := ⟨[0x82], [smallEntry 0x00 0 zero_small zero_small,
    smallEntry 0x01 1 one_small one_small], .fix (by decide)⟩
  body := some ⟨[0x81], [smallEntry 0x30 5 data_small five_small], .fix (by decide)⟩

theorem sampleAnswer_distinct : sampleAnswer.Distinct sampleRmp 1024 .ok where
  length := by decide
  header :=
    { read := by
        intro written hmem
        simp only [sampleAnswer, List.mem_cons, List.not_mem_nil, or_false] at hmem
        obtain rfl | rfl := hmem
        · exact readBy_integer rfl rfl rfl rfl
        · exact readBy_integer rfl rfl rfl rfl
      uint := by
        intro written hmem _
        simp only [sampleAnswer, List.mem_cons, List.not_mem_nil, or_false] at hmem
        obtain rfl | rfl := hmem
        · exact ⟨0, rfl⟩
        · exact ⟨1, rfl⟩ }
  body := by
    have hentry : ∀ written ∈ sampleAnswer.entries,
        written = smallEntry 0x30 5 (by decide) (by decide) := by
      intro written hmem
      exact List.mem_singleton.mp hmem
    exact (dataReply_body fun written hmem => .inl (hentry written hmem)).1
  known := ⟨0, rfl, rfl⟩
  text := by
    intro written hmem hkey
    obtain rfl := List.mem_singleton.mp hmem
    exact absurd hkey (by decide)
  headerKeys := by decide
  bodyKeys := by decide
  noError := by decide

def sampleReplies : List Codec.Framed :=
  [⟨.fixint, [0x82, 0x00, 0x00, 0x01, 0x00, 0x80], { kind := .ok, sync := 0, body := [0x80] }⟩,
    ⟨.fixint, sampleAnswer.bytes,
      { kind := .ok, sync := 1, body := [0x81, 0x30, 0x05], data := some (2, 3) }⟩]

def sampleRoundTrip : List SocketEvent :=
  [.task (.connected "1.10.0" .sent), .arrive 0 ((sampleReplies.flatMap Codec.Framed.bytes).take 9),
    .recv (some 0) (.handshakeReply [] fun _ => .sent), .task (.drain .sent),
    .caller (.call none 10 [(Key.functionName, .str "f"), (Key.tuple, .raw [0x91, 0x05])] false),
    .caller (.submit 1), .task (.command .sent), .task (.drain .sent),
    .arrive 0 ((sampleReplies.flatMap Codec.Framed.bytes).drop 9),
    .recv (some 1) (.packet .sent)]

def State.notLoggingIn (s : State) : Bool :=
  match s.phase with
  | .awaitingAuth _ _ _ _ => false
  | _ => true

theorem authConfirmed_of_notLoggingIn {s : State} (h : s.notLoggingIn = true) (event : Event) :
    AuthConfirmed s event := by
  unfold AuthConfirmed
  split
  · intro delay socket user negotiated inbound hphase
    rw [State.notLoggingIn, hphase] at h
    cases h
  · trivial

def guestServed (x : Buffered) : SocketEvent → Bool
  | .recv answers _ => x.state.notLoggingIn && x.state.awaited.all fun socket =>
      match Codec.decode sampleRmp (x.buffer socket) with
      | (.ok (some response), _) => decide (x.state.serverMay socket ⟨response, answers⟩)
      | _ => true
  | _ => x.state.notLoggingIn

theorem guestServed_sound (x : Buffered) (event : SocketEvent)
    (h : guestServed x event = true) : x.Allows sampleRmp LoginSafe event := by
  cases event with
  | caller event => exact ⟨trivial, authConfirmed_of_notLoggingIn h (.caller event)⟩
  | task event => exact ⟨trivial, authConfirmed_of_notLoggingIn h (.task event)⟩
  | arrive socket chunk => trivial
  | recv answers event =>
      simp only [guestServed, Bool.and_eq_true] at h
      obtain ⟨hguest, hserved⟩ := h
      refine fun socket hsocket => ⟨fun response rest s hcut hserver => ?_, fun err rest _ => ?_⟩
      · rw [hsocket, Option.all_some, hcut] at hserved
        simp only [serverStep, Option.ite_none_right_eq_some, Option.some.injEq] at hserver
        obtain ⟨-, rfl⟩ := hserver
        refine ⟨⟨of_decide_eq_true hserved, trivial⟩, trivial, ?_⟩
        exact authConfirmed_of_notLoggingIn (by exact hguest) (.task event)
      · exact ⟨trivial, authConfirmed_of_notLoggingIn hguest (.task (x.state.recvFailed err))⟩

def firstReply : Action → Option Arrival
  | .answered 0 1 (.reply arrival) => some arrival
  | _ => none

theorem firstReply_eq_some {action : Action} {arrival : Arrival}
    (h : firstReply action = some arrival) : action = .answered 0 1 (.reply arrival) := by
  unfold firstReply at h
  split at h
  · rw [Option.some.inj h]
  · cases h

theorem call_gets_what_it_asked_for_sample :
    ∃ x arrival wire i frame, ReceivesBy sampleRmp {} LoginSafe x ∧
      .answered 0 1 (.reply arrival) ∈ x.state.history ∧
      transmit Building.compactWriter (x.state.packetsOn 0) = some wire ∧
      FrameAt wire i frame ∧ Reads frame 1 none (.call (asBytes "f") [.integer 5]) ∧
      (Returning.value (Returning.sampleSlice Value.asU64) arrival.response).toOption =
        some 5 := by
  obtain ⟨x, hreach, hcheck⟩ := reaches_of_guarded (Buffered.step sampleRmp) guestServed
    guestServed_sound { state := .initial {} } sampleRoundTrip
    (fun x => decide (x.state.nextSync = 2 ∧
      (x.state.history.findSome? firstReply).map Arrival.index = some 1 ∧
      (x.state.calls 1).map Call.packet =
        some ⟨10, 1, none, [(Key.functionName, .str "f"), (Key.tuple, .raw [0x91, 0x05])]⟩ ∧
      (transmit Building.compactWriter (x.state.packetsOn 0)).isSome ∧
      x.arrived 0 = sampleReplies.flatMap Codec.Framed.bytes)) (by decide +kernel)
  obtain ⟨hsync, hreply, hpacket, hwire, harrived⟩ := of_decide_eq_true hcheck
  obtain ⟨arrival, hfound, hindex⟩ := Option.map_eq_some_iff.mp hreply
  obtain ⟨action, hmem, haction⟩ := List.exists_of_findSome?_eq_some hfound
  obtain rfl := firstReply_eq_some haction
  obtain ⟨wire, hwire⟩ := Option.isSome_iff_exists.mp hwire
  obtain ⟨call, i, frame, hcall, htrip, hasked, hgot⟩ := call_gets_what_it_asked_for
    Building.compactWriter_lawful hreach (by omega) hmem hwire
  have hlegal : ∀ f ∈ sampleReplies, f.Legal sampleRmp := by
    intro f hf
    simp only [sampleReplies, List.mem_cons, List.not_mem_nil, or_false] at hf
    obtain rfl | rfl := hf
    · exact ⟨by decide, (by decide : _ ≤ 127), rfl⟩
    · exact ⟨by decide, (by decide : _ ≤ 127), rfl⟩
  have hfits : sampleInvocation.Fits := by
    constructor
    · intro s hs
      obtain rfl : s = "f" := by simpa [sampleInvocation, Method.texts] using hs
      decide +kernel
    · intro statement hstatement
      cases hstatement
  have hcallPacket : call.packet =
      ⟨10, 1, none, [(Key.functionName, .str "f"), (Key.tuple, .raw [0x91, 0x05])]⟩ := by
    rw [hcall] at hpacket
    exact Option.some.inj hpacket
  obtain ⟨op, hop, hreads⟩ := hasked sampleInvocation ⟨"", 0, ∅⟩ 1 hfits (by rw [hcallPacket]; rfl)
  obtain rfl := Option.some.inj hop
  refine ⟨x, arrival, wire, i, frame, hreach, hmem, hwire, htrip.asked, hreads, ?_⟩
  obtain ⟨reply, hget, hresponse, hvalue⟩ := hgot sampleReplies hlegal (harrived ▸ List.prefix_rfl)
  rw [hindex] at hget
  obtain rfl := Option.some.inj hget
  have hdecodes : Decodes sampleAnswer (Returning.sampleSlice Value.asU64) Value.asU64 := by
    refine ⟨fun written hwritten => ?_, rfl⟩
    obtain rfl := List.mem_singleton.mp hwritten
    rfl
  exact hvalue sampleAnswer 1024 sampleAnswer_distinct rfl _ _ hdecodes

end Tarant.Connection
