import Tarant.Parsing

/-!
# What a reply can say

Two readings of `Response::parse` on well-typed packets.  With distinct keys it is
a lookup that the layout does not change.  In general it accepts a packet exactly
when the strings in it are UTF-8: text under `ERROR_24` has to be, while the same
text in the stack under `ERROR` does not.
-/

namespace Tarant

open Iproto
open Codec (frame maxPacketLen)
open Wire (Encodes)

/-! ## Answers depend on what stands under the known keys -/

def Written.view (written : Written) : Nat × Value × Bytes :=
  (written.key, written.value, written.valueBytes)

def bodyKeys : List Nat := stringKeys ++ countKeys ++ rawKeys

def known (keys : List Nat) (entries : List Written) : List (Nat × Value × Bytes) :=
  (entries.filter fun written => written.key ∈ keys).map Written.view

theorem under_eq_some {entries : List Written} (h : (entries.map Written.key).Nodup) {key : Nat}
    {written : Written} :
    Written.under key entries = some written ↔ written ∈ entries ∧ written.key = key := by
  constructor
  · intro hfind
    exact ⟨List.mem_of_find?_eq_some hfind, of_decide_eq_true (List.find?_some hfind :)⟩
  · rintro ⟨hmem, rfl⟩
    induction entries with
    | nil => contradiction
    | cons other entries ih =>
        rw [List.map_cons, List.nodup_cons] at h
        obtain rfl | hmem := List.mem_cons.mp hmem
        · simp [Written.under]
        · have hne : other.key ≠ written.key :=
            fun hsame => h.1 (List.mem_map.mpr ⟨written, hmem, hsame.symm⟩)
          rw [Written.under, List.find?_cons_of_neg (by simpa using hne)]
          exact ih h.2 hmem

theorem under_view {entries : List Written} (h : (entries.map Written.key).Nodup)
    {keys : List Nat} {key : Nat} (hkey : key ∈ keys) (view : Nat × Value × Bytes) :
    (Written.under key entries).map Written.view = some view ↔
      view ∈ known keys entries ∧ view.1 = key := by
  simp only [known, Option.map_eq_some_iff, List.mem_map, List.mem_filter, decide_eq_true_eq]
  constructor
  · rintro ⟨written, hunder, rfl⟩
    obtain ⟨hmem, rfl⟩ := (under_eq_some h).mp hunder
    exact ⟨⟨written, ⟨hmem, hkey⟩, rfl⟩, rfl⟩
  · rintro ⟨⟨written, ⟨hmem, -⟩, rfl⟩, hsame⟩
    exact ⟨written, (under_eq_some h).mpr ⟨hmem, hsame⟩, rfl⟩

theorem under_view_perm {entries entries' : List Written}
    (h : (entries.map Written.key).Nodup) (h' : (entries'.map Written.key).Nodup)
    {keys : List Nat} (hperm : (known keys entries).Perm (known keys entries')) {key : Nat}
    (hkey : key ∈ keys) :
    (Written.under key entries).map Written.view =
      (Written.under key entries').map Written.view := by
  refine Option.ext fun view => ?_
  rw [under_view h hkey, under_view h' hkey, hperm.mem_iff]

theorem of_view {found found' : Option Written}
    (h : found.map Written.view = found'.map Written.view) :
    uintOf found = uintOf found' ∧ textOf found = textOf found' ∧ bytesOf found = bytesOf found' := by
  cases found with
  | none =>
      obtain rfl := Option.map_eq_none_iff.mp h.symm
      exact ⟨rfl, rfl, rfl⟩
  | some written =>
      obtain ⟨other, rfl, hview⟩ := Option.map_eq_some_iff.mp h.symm
      obtain ⟨-, hview⟩ := Prod.mk.inj hview
      obtain ⟨hvalue, hbytes⟩ := Prod.mk.inj hview
      simp [uintOf, textOf, bytesOf, hvalue, hbytes]

theorem Answers.congr {header header' body body' : Nat → Option Written} {kind : Kind}
    {response : Response} (h : Answers header body kind response)
    (hheader : ∀ key ∈ headerKeys, (header key).map Written.view = (header' key).map Written.view)
    (hbody : ∀ key ∈ bodyKeys, (body key).map Written.view = (body' key).map Written.view) :
    Answers header' body' kind response where
  kind := h.kind
  sync := h.sync.trans (by rw [(of_view (hheader _ (by decide))).1])
  schemaVersion := h.schemaVersion.trans (of_view (hheader _ (by decide))).1
  position := h.position.trans (of_view (hbody _ (by decide))).2.1
  eventKey := h.eventKey.trans (of_view (hbody _ (by decide))).2.1
  bindCount := h.bindCount.trans (of_view (hbody _ (by decide))).1
  stmtId := h.stmtId.trans (of_view (hbody _ (by decide))).1
  data := h.data.trans (by rw [(of_view (hbody _ (by decide))).2.2])
  event := h.event.trans (by
    rw [(of_view (hbody Key.eventKey (by decide))).2.1,
      (of_view (hbody Key.eventData (by decide))).2.2])
  metadata := h.metadata.trans (of_view (hbody _ (by decide))).2.2
  bindMetadata := h.bindMetadata.trans (of_view (hbody _ (by decide))).2.2
  sqlInfo := h.sqlInfo.trans (of_view (hbody _ (by decide))).2.2

/-! ## Lookup -/

/-- A well-typed packet with distinct keys, whose strings are text. -/
structure Packet.Distinct (rmp : Rmp) (limit : Nat) (kind : Kind) (packet : Packet) : Prop
    extends packet.Typed rmp limit kind where
  text : AllText packet.entries
  headerKeys : (packet.header.entries.map Written.key).Nodup
  bodyKeys : (packet.entries.map Written.key).Nodup
  noError : ∀ written ∈ packet.entries, written.key ≠ Key.error

theorem Packet.Distinct.parsed {rmp : Rmp} {limit : Nat} {kind : Kind} {packet : Packet}
    (h : packet.Distinct rmp limit kind) :
    ∃ response, Response.parse rmp packet.bytes = .ok response ∧
      Answers (Written.under · packet.header.entries) (Written.under · packet.entries) kind
        response := by
  obtain ⟨-, response, hparse, hanswers⟩ | ⟨htext, -⟩ := parse_typed h.toTyped
  · refine ⟨response, hparse, ?_⟩
    simpa only [Written.last_eq_under h.headerKeys, Written.last_eq_under h.bodyKeys] using hanswers
  · exact absurd h.text htext

theorem Packet.Distinct.kind_eq {rmp : Rmp} {limit : Nat} {kind kind' : Kind}
    {packet packet' : Packet} (h : packet.Distinct rmp limit kind)
    (h' : packet'.Distinct rmp limit kind')
    (hheader : (known Tarant.headerKeys packet.header.entries).Perm
      (known Tarant.headerKeys packet'.header.entries)) : kind' = kind := by
  obtain ⟨requestType, htype, hkind⟩ := h.known
  obtain ⟨requestType', htype', hkind'⟩ := h'.known
  rw [Written.last_eq_under h.headerKeys] at htype
  rw [Written.last_eq_under h'.headerKeys] at htype'
  have hview := under_view_perm h.headerKeys h'.headerKeys hheader
    (show Key.requestType ∈ Tarant.headerKeys by decide)
  obtain rfl := Option.some.inj (htype.symm.trans ((of_view hview).1.trans htype'))
  exact Except.ok.inj (hkind'.symm.trans hkind)

/-! ## Samples -/

def sampleRmp : Rmp where
  readInt
    | [byte] => if byte ≤ 0x7f then some byte.toNat else none
    | [0xcd, high, low] => some (high.toNat * 256 + low.toNat)
    | _ => none
  readStrLen
    | marker :: rest => if 0xa0 ≤ marker ∧ marker ≤ 0xbf then some (marker.toNat - 0xa0, rest) else none
    | [] => none
  readValue
    | [byte] => if byte ≤ 0x7f then .ok (.integer byte.toNat) else .error "unknown marker"
    | [0xcd, high, low] => .ok (.integer (high.toNat * 256 + low.toNat))
    | marker :: rest =>
        if 0xa0 ≤ marker ∧ marker ≤ 0xbf then .ok (.string rest) else .error "unknown marker"
    | [] => .error "unexpected end"

theorem encodes_small {n : Nat} (h : n ≤ 0x7f) : Encodes [.integer n] [UInt8.ofNat n] :=
  .scalar (.posFixint h) .done

def smallEntry (key n : Nat) (hkey : key ≤ 0x7f) (hn : n ≤ 0x7f) : Written :=
  ⟨key, .integer n, [UInt8.ofNat key], [UInt8.ofNat n], encodes_small hkey, encodes_small hn⟩

def wideEntry (key n : Nat) (hkey : key ≤ 0x7f) (hn : n < 2 ^ 16) : Written :=
  ⟨key, .integer n, [UInt8.ofNat key], 0xcd :: Codec.beBytes 2 n, encodes_small hkey,
    by simpa using Encodes.scalar (.uint (by decide) hn) .done⟩

def textEntry (key : Nat) (text : Bytes) (hkey : key ≤ 0x7f) (htext : text.length ≤ 31) :
    Written :=
  ⟨key, .string text, [UInt8.ofNat key], UInt8.ofNat (0xa0 + text.length) :: text,
    encodes_small hkey, by simpa using Encodes.scalar (.fixstr htext) .done⟩

theorem readBy_integer {rmp : Rmp} {limit n : Nat} {written : Written}
    (hvalue : written.value = .integer n)
    (hkey : rmp.readInt written.keyBytes = some written.key)
    (hint : rmp.readInt written.valueBytes = some n)
    (hread : rmp.readValue written.valueBytes = .ok (.integer n)) : written.ReadBy rmp limit where
  key := hkey
  int m hm := by
    rw [hvalue, Value.integer.injEq, Int.natCast_inj] at hm
    rw [hint, hm]
  str text htext := by simp [hvalue] at htext
  value _ := by rw [hread, hvalue]

theorem readBy_string {rmp : Rmp} {limit : Nat} {text : Bytes} {written : Written}
    (hvalue : written.value = .string text)
    (hkey : rmp.readInt written.keyBytes = some written.key)
    (hstr : rmp.readStrLen written.valueBytes = some (text.length, text))
    (hread : rmp.readValue written.valueBytes = .ok (.string text)) : written.ReadBy rmp limit where
  key := hkey
  int n hn := by simp [hvalue] at hn
  str text' htext := by
    rw [hvalue, Value.string.injEq] at htext
    rw [hstr, htext]
  value _ := by rw [hread, hvalue]

def errorReply (text : Bytes) (htext : text.length ≤ 31) : Packet where
  header := ⟨[0x82], [wideEntry 0x00 0x8014 (by decide) (by decide),
    smallEntry 0x01 7 (by decide) (by decide)], .fix (by decide)⟩
  body := some ⟨[0x81], [textEntry 0x31 text (by decide) htext], .fix (by simp)⟩

theorem errorReply_typed {text : Bytes} (htext : text.length ≤ 31)
    (hread : (textEntry 0x31 text (by decide) htext).ReadBy sampleRmp 1024) :
    (errorReply text htext).Typed sampleRmp 1024 .error where
  length := by
    have hlength : (errorReply text htext).bytes.length = 10 + text.length := by
      simp [errorReply, Packet.bytes, Packet.bodyBytes, WrittenMap.bytes, WrittenMap.body,
        Written.bytes, wideEntry, smallEntry, textEntry]
      omega
    omega
  header :=
    { read := by
        intro written hmem
        simp only [errorReply, List.mem_cons, List.not_mem_nil, or_false] at hmem
        obtain rfl | rfl := hmem
        · exact readBy_integer rfl rfl rfl rfl
        · exact readBy_integer rfl rfl rfl rfl
      uint := by
        intro written hmem _
        simp only [errorReply, List.mem_cons, List.not_mem_nil, or_false] at hmem
        obtain rfl | rfl := hmem
        · exact ⟨0x8014, rfl⟩
        · exact ⟨7, rfl⟩ }
  body :=
    { read := by
        intro written hmem
        obtain rfl := List.mem_singleton.mp hmem
        exact hread
      string := by
        intro written hmem _
        obtain rfl := List.mem_singleton.mp hmem
        exact ⟨text, rfl⟩
      uint := by
        intro written hmem hkey
        obtain rfl := List.mem_singleton.mp hmem
        change 0x31 ∈ countKeys at hkey
        exact absurd hkey (by decide)
      stack := by
        intro written hmem hkey
        obtain rfl := List.mem_singleton.mp hmem
        change 0x31 = Key.error at hkey
        exact absurd hkey (by decide) }
  known := ⟨0x8014, rfl, rfl⟩

def dataReply : Packet where
  header := ⟨[0x82], [smallEntry 0x00 0 (by decide) (by decide),
    smallEntry 0x01 7 (by decide) (by decide)], .fix (by decide)⟩
  body := some ⟨[0x82], [smallEntry 0x30 5 (by decide) (by decide),
    textEntry 0x35 [0x61] (by decide) (by decide)], .fix (by decide)⟩

def dataReplyReordered : Packet where
  header := ⟨[0x82], [smallEntry 0x01 7 (by decide) (by decide),
    smallEntry 0x00 0 (by decide) (by decide)], .fix (by decide)⟩
  body := some ⟨0xde :: Codec.beBytes 2 3, [textEntry 0x35 [0x61] (by decide) (by decide),
    wideEntry 0x7f 300 (by decide) (by decide), smallEntry 0x30 5 (by decide) (by decide)],
    .wide (by decide) (by decide)⟩

theorem dataReply_header {entries : List Written}
    (h : ∀ written ∈ entries, written = smallEntry 0x00 0 (by decide) (by decide) ∨
      written = smallEntry 0x01 7 (by decide) (by decide)) :
    HeaderTyped sampleRmp 1024 entries where
  read written hmem := by
    obtain rfl | rfl := h written hmem <;> exact readBy_integer rfl rfl rfl rfl
  uint written hmem _ := by
    obtain rfl | rfl := h written hmem <;> exact ⟨_, rfl⟩

theorem dataReply_body {entries : List Written}
    (h : ∀ written ∈ entries, written = smallEntry 0x30 5 (by decide) (by decide) ∨
      written = textEntry 0x35 [0x61] (by decide) (by decide) ∨
      written = wideEntry 0x7f 300 (by decide) (by decide)) :
    BodyTyped sampleRmp 1024 entries ∧ AllText entries := by
  refine ⟨⟨?_, ?_, ?_, ?_⟩, ?_⟩ <;> intro written hmem <;>
    obtain rfl | rfl | rfl := h written hmem
  · exact readBy_integer rfl rfl rfl rfl
  · exact readBy_string rfl rfl rfl rfl
  · exact readBy_integer rfl rfl rfl rfl
  all_goals first
    | exact fun hkey => absurd hkey (by decide)
    | exact fun _ => ⟨_, rfl⟩
    | exact fun _ => rfl

theorem dataReply_distinct : dataReply.Distinct sampleRmp 1024 .ok where
  length := by decide
  header := dataReply_header (by simp [dataReply])
  body := (dataReply_body (by simp [dataReply, Packet.entries])).1
  known := ⟨0, rfl, rfl⟩
  text := (dataReply_body (by simp [dataReply, Packet.entries])).2
  headerKeys := by decide
  bodyKeys := by decide
  noError := by decide

theorem dataReplyReordered_distinct : dataReplyReordered.Distinct sampleRmp 1024 .ok where
  length := by decide
  header := dataReply_header (by simp [dataReplyReordered])
  body := (dataReply_body (by simp [dataReplyReordered, Packet.entries])).1
  known := ⟨0, rfl, rfl⟩
  text := (dataReply_body (by simp [dataReplyReordered, Packet.entries])).2
  headerKeys := by decide
  bodyKeys := by decide
  noError := by decide

/-! ## Main results -/

/--
A packet with distinct keys parses to what stands under its keys, and any other
packet whose known entries are the same up to order parses to the same answers.
-/
theorem parse_is_lookup {rmp : Rmp} {limit : Nat} {kind : Kind} {packet : Packet}
    (h : packet.Distinct rmp limit kind) :
    (∃ response, Response.parse rmp packet.bytes = .ok response ∧
      Answers (Written.under · packet.header.entries) (Written.under · packet.entries) kind
        response) ∧
    ∀ (kind' : Kind) (packet' : Packet), packet'.Distinct rmp limit kind' →
      (known headerKeys packet.header.entries).Perm (known headerKeys packet'.header.entries) →
      (known bodyKeys packet.entries).Perm (known bodyKeys packet'.entries) →
      ∃ response, Response.parse rmp packet'.bytes = .ok response ∧
        Answers (Written.under · packet.header.entries) (Written.under · packet.entries) kind
          response := by
  refine ⟨h.parsed, fun kind' packet' h' hheader hbody => ?_⟩
  obtain ⟨response, hparse, hanswers⟩ := h'.parsed
  obtain rfl := h.kind_eq h' hheader
  refine ⟨response, hparse, hanswers.congr (fun key hkey => ?_) fun key hkey => ?_⟩
  · exact under_view_perm h'.headerKeys h.headerKeys hheader.symm hkey
  · exact under_view_perm h'.bodyKeys h.bodyKeys hbody.symm hkey

theorem parse_is_lookup_sample :
    (∃ response, Response.parse sampleRmp dataReply.bytes = .ok response ∧
      Answers (Written.under · dataReply.header.entries) (Written.under · dataReply.entries) .ok
        response) ∧
    ∃ response, Response.parse sampleRmp dataReplyReordered.bytes = .ok response ∧
      Answers (Written.under · dataReply.header.entries) (Written.under · dataReply.entries) .ok
        response := by
  obtain ⟨hparsed, hothers⟩ := parse_is_lookup dataReply_distinct
  refine ⟨hparsed, hothers .ok dataReplyReordered dataReplyReordered_distinct ?_ ?_⟩
  · exact .swap _ _ _
  · exact .swap _ _ _

/--
A well-typed packet is accepted, with its kind and sync, exactly when the strings
of its body are UTF-8; otherwise `decode` fails on the frame, and with it the link.
-/
theorem reply_accepted_iff {rmp : Rmp} {limit : Nat} {kind : Kind} {packet : Packet}
    (h : packet.Typed rmp limit kind) :
    ((∃ response, Response.parse rmp packet.bytes = .ok response ∧ response.kind = kind ∧
        response.sync = (uintOf (Written.last Key.sync packet.header.entries)).getD 0) ↔
      AllText packet.entries) ∧
    ∀ (width : Codec.Width) (rest : Bytes), width.Holds packet.bytes.length →
      packet.bytes.length ≤ maxPacketLen →
      ((∃ response, Codec.decode rmp (frame width packet.bytes ++ rest) =
          (.ok (some response), rest) ∧ response.kind = kind ∧
          response.sync = (uintOf (Written.last Key.sync packet.header.entries)).getD 0) ↔
        AllText packet.entries) := by
  obtain ⟨htext, response, hparse, hanswers⟩ | ⟨htext, err, hparse⟩ := parse_typed h
  · refine ⟨⟨fun _ => htext, fun _ => ⟨response, hparse, hanswers.kind, hanswers.sync⟩⟩, ?_⟩
    intro width rest hholds hmax
    refine ⟨fun _ => htext, fun _ => ⟨response, ?_, hanswers.kind, hanswers.sync⟩⟩
    rw [Codec.decode_frame rmp hholds hmax, hparse]
    rfl
  · refine ⟨⟨?_, fun hall => absurd hall htext⟩, ?_⟩
    · rintro ⟨response, hok, -⟩
      rw [hparse] at hok
      contradiction
    · intro width rest hholds hmax
      refine ⟨?_, fun hall => absurd hall htext⟩
      rintro ⟨response, hok, -⟩
      rw [Codec.decode_frame rmp hholds hmax, hparse] at hok
      simp [Except.map] at hok

theorem reply_accepted_iff_sample :
    ((∃ response, Response.parse sampleRmp (errorReply [0x61] (by decide)).bytes = .ok response ∧
        response.kind = .error ∧ response.sync = 7) ↔
      AllText (errorReply [0x61] (by decide)).entries) ∧
    AllText (errorReply [0x61] (by decide)).entries := by
  refine ⟨(reply_accepted_iff (errorReply_typed (by decide) ?_)).1, ?_⟩
  · exact readBy_string rfl rfl rfl rfl
  · intro written hmem _
    obtain rfl := List.mem_singleton.mp hmem
    rfl

set_option maxRecDepth 4000 in
/-- One string under `ERROR_24` that is not UTF-8 fails the packet, and the link with it. -/
theorem error_text_fails_reply :
    (errorReply [0xff] (by decide)).Typed sampleRmp 1024 .error ∧
    Response.parse sampleRmp (errorReply [0xff] (by decide)).bytes =
      .error (.protocol "string is not UTF-8") ∧
    Codec.decode sampleRmp (frame .uint32 (errorReply [0xff] (by decide)).bytes) =
      (.error (.protocol "string is not UTF-8"), []) := by
  have hparse : Response.parse sampleRmp (errorReply [0xff] (by decide)).bytes =
      .error (.protocol "string is not UTF-8") := rfl
  have hholds : Codec.Width.uint32.Holds (errorReply [0xff] (by decide)).bytes.length := by
    change _ < 2 ^ 32
    decide
  refine ⟨errorReply_typed (by decide) (readBy_string rfl rfl rfl rfl), hparse, ?_⟩
  rw [← List.append_nil (frame _ _), Codec.decode_frame sampleRmp hholds (by decide), hparse]
  rfl

end Tarant
