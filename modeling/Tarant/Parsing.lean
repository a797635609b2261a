import Tarant.Layout
import Tarant.Wire

/-!
# Parsing a packet is looking up its keys

A packet is written as two maps, each entry with its own choice of widths.
`Response.parse` finds in it what stands under the known keys, wherever it stands
and whatever else the maps hold.
-/

namespace Tarant

open Iproto
open Msgpack
open Wire (Encodes Holds MapHead)

/-! ## Written maps -/

structure Written where
  key : Nat
  value : Value
  keyBytes : Bytes
  valueBytes : Bytes
  keyEncodes : Encodes [.integer key] keyBytes
  valueEncodes : Encodes [value] valueBytes

def Written.bytes (written : Written) : Bytes := written.keyBytes ++ written.valueBytes

structure WrittenMap where
  head : Bytes
  entries : List Written
  counts : MapHead entries.length head

namespace WrittenMap

def body (map : WrittenMap) : Bytes := map.entries.flatMap Written.bytes

def bytes (map : WrittenMap) : Bytes := map.head ++ map.body

theorem encodes_body (entries : List Written) :
    Encodes (Wire.children (entries.map fun written => (.integer written.key, written.value)))
      (entries.flatMap Written.bytes) := by
  induction entries with
  | nil => exact .done
  | cons written entries ih =>
      exact ((written.keyEncodes.append written.valueEncodes).append ih)

theorem encodes (map : WrittenMap) :
    Encodes [.map (map.entries.map fun written => (.integer written.key, written.value))]
      map.bytes := by
  rw [← List.append_nil map.bytes]
  refine .map ?_ (encodes_body map.entries) .done
  rw [List.length_map]
  exact map.counts

end WrittenMap

def Written.last (key : Nat) (entries : List Written) : Option Written :=
  (entries.filter fun written => written.key = key).getLast?

def Written.under (key : Nat) (entries : List Written) : Option Written :=
  entries.find? fun written => written.key = key

theorem Written.last_eq_under {entries : List Written}
    (h : (entries.map Written.key).Nodup) (key : Nat) :
    Written.last key entries = Written.under key entries := by
  induction entries with
  | nil => rfl
  | cons written entries ih =>
      rw [List.map_cons, List.nodup_cons] at h
      by_cases hkey : written.key = key
      · have hrest : entries.filter (fun other => other.key = key) = [] := by
          rw [List.filter_eq_nil_iff]
          intro other hother hsame
          exact h.1 (List.mem_map.mpr ⟨other, hother, (of_decide_eq_true hsame).trans hkey.symm⟩)
        simp [Written.last, Written.under, hkey, hrest]
      · simpa [Written.last, Written.under, hkey] using ih h.2

def uintOf (found : Option Written) : Option Nat := found.bind fun written => written.value.asU64

def textOf (found : Option Written) : Option String := found.bind fun written => written.value.asStr

def bytesOf (found : Option Written) : Option Bytes := found.map Written.valueBytes

def Value.Within : Nat → Value → Prop
  | 0, _ => False
  | limit + 1, .array items => ∀ item ∈ items, item.Within limit
  | limit + 1, .map entries => ∀ entry ∈ entries, entry.1.Within limit ∧ entry.2.Within limit
  | _ + 1, _ => True

/-- `rmp` reads the entry as what it encodes; `limit` is the depth `rmpv` goes to. -/
structure Written.ReadBy (rmp : Rmp) (limit : Nat) (written : Written) : Prop where
  key : rmp.readInt written.keyBytes = some written.key
  int : ∀ n : Nat, written.value = .integer n → rmp.readInt written.valueBytes = some n
  str : ∀ text : Bytes, written.value = .string text →
    rmp.readStrLen written.valueBytes = some (text.length, text)
  value : written.value.Within limit → rmp.readValue written.valueBytes = .ok written.value

/-! ## The entries the cursor yields -/

def entriesAt : Nat → List Written → List Entry
  | _, [] => []
  | pos, written :: entries =>
      ⟨written.key, pos + written.keyBytes.length, written.valueBytes⟩ ::
        entriesAt (pos + written.bytes.length) entries

theorem Wire.Holds.drop {buf bytes : Bytes} {pos : Nat} (h : Holds buf pos bytes) :
    ∃ after, buf.drop pos = bytes ++ after ∧ (bytes ++ after).length ≤ buf.length := by
  obtain ⟨before, after, rfl, rfl⟩ := h
  refine ⟨after, ?_, ?_⟩
  · rw [List.append_assoc, List.drop_left]
  · simp only [List.length_append]
    omega

theorem Wire.Holds.valueLen {buf bytes : Bytes} {pos : Nat} {value : Value}
    (h : Holds buf pos bytes) (hvalue : Encodes [value] bytes) (hbuf : buf.length < 2 ^ 64) :
    valueLen (buf.drop pos) = .ok bytes.length ∧ (buf.drop pos).take bytes.length = bytes := by
  obtain ⟨after, hdrop, hlength⟩ := h.drop
  rw [hdrop]
  exact ⟨Wire.valueLen_of_encodes _ hvalue (by omega), List.take_left⟩

theorem next_written {rmp : Rmp} {written : Written} {buf more : Bytes} {pos remaining : Nat}
    (hkey : rmp.readInt written.keyBytes = some written.key) (hbuf : buf.length < 2 ^ 64)
    (h : Holds buf pos (written.bytes ++ more)) :
    MapCursor.next rmp ⟨buf, pos, remaining + 1⟩ =
      .ok (some (⟨written.key, pos + written.keyBytes.length, written.valueBytes⟩,
        ⟨buf, pos + written.bytes.length, remaining⟩)) := by
  obtain ⟨hkeyLen, hkeyTake⟩ := h.left.left.valueLen written.keyEncodes hbuf
  obtain ⟨hlen, htake⟩ := h.left.right.valueLen written.valueEncodes hbuf
  have hread : readUint rmp written.keyBytes = .ok written.key := by
    rw [readUint, hkey]
  unfold MapCursor.next
  rw [if_neg (Nat.succ_ne_zero _), hkeyLen]
  change (readUint rmp ((buf.drop pos).take written.keyBytes.length) >>= _) = _
  rw [hkeyTake, hread]
  change (valueLen (buf.drop (pos + written.keyBytes.length)) >>= _) = _
  rw [hlen]
  change Except.ok (some (Entry.mk _ _ ((buf.drop _).take written.valueBytes.length), _)) = _
  rw [htake, Written.bytes, List.length_append, ← Nat.add_assoc]
  rfl

theorem walks_entries {rmp : Rmp} {entries : List Written} {buf : Bytes} {pos : Nat}
    (hkeys : ∀ written ∈ entries, rmp.readInt written.keyBytes = some written.key)
    (hbuf : buf.length < 2 ^ 64) (h : Holds buf pos (entries.flatMap Written.bytes)) :
    (MapCursor.mk buf pos entries.length).Walks rmp (entriesAt pos entries) := by
  induction entries generalizing pos with
  | nil => exact .done rfl
  | cons written entries ih =>
      rw [List.flatMap_cons] at h
      refine .step (next_written (hkeys written (by simp)) hbuf h) (ih ?_ h.right)
      exact fun written hmem => hkeys written (by simp [hmem])

theorem readLen_beBytes {marker : UInt8} {width n : Nat} {after : Bytes}
    (h : n < 256 ^ width) :
    readLen (marker :: Codec.beBytes width n ++ after) 1 width = .ok n := by
  have htake : ((marker :: Codec.beBytes width n ++ after).drop 1).take width =
      Codec.beBytes width n := by
    rw [List.cons_append, List.drop_succ_cons, List.drop_zero]
    exact List.take_left' (Codec.beBytes_length width n)
  rw [readLen_eq, htake, Codec.fromBeBytes_beBytes h, if_pos]
  simp only [List.length_append, List.length_cons, Codec.beBytes_length]
  omega

theorem new_of_head {head body : Bytes} {count total : Nat} (hhead : MapHead count head)
    (htotal : valueLen (head ++ body) = .ok total) :
    MapCursor.new (head ++ body) = .ok (⟨head ++ body, head.length, count⟩, total) := by
  unfold MapCursor.new
  rw [htotal]
  cases hhead with
  | fix h =>
      have hmarker : (UInt8.ofNat (0x80 + count)).toNat = 0x80 + count :=
        Wire.toNat_ofNat_of_lt (by omega)
      have hcount : (0x80 + count) &&& 0x0f = count := by
        rw [Nat.and_two_pow_sub_one_eq_mod _ 4]
        omega
      change (if 0x80 ≤ (UInt8.ofNat (0x80 + count)).toNat ∧
        (UInt8.ofNat (0x80 + count)).toNat ≤ 0x8f then _ else _ : Except Error _) = _
      rw [hmarker, if_pos (by omega)]
      change Except.ok (MapCursor.mk _ 1 ((UInt8.ofNat (0x80 + count)).toNat &&& 0x0f), total) = _
      rw [hmarker, hcount]
      rfl
  | wide hwidth h =>
      simp only [List.mem_cons, Prod.mk.injEq, List.not_mem_nil, or_false] at hwidth
      obtain ⟨rfl, rfl⟩ | ⟨rfl, rfl⟩ := hwidth
      all_goals
        rw [readLen_beBytes h]
        rfl

theorem new_written (map : WrittenMap) {after : Bytes}
    (hlength : (map.bytes ++ after).length < 2 ^ 64) :
    MapCursor.new (map.bytes ++ after) =
      .ok (⟨map.bytes ++ after, map.head.length, map.entries.length⟩, map.bytes.length) := by
  have htotal := Wire.valueLen_of_encodes _ map.encodes hlength
  have hbytes : map.bytes ++ after = map.head ++ (map.body ++ after) := List.append_assoc _ _ _
  rw [hbytes] at htotal ⊢
  exact new_of_head map.counts htotal

/-! ## Reading one entry -/

theorem integer_lt {z : Int} {bytes : Bytes} (h : Encodes [.integer z] bytes) : z < 2 ^ 64 := by
  cases h with
  | scalar h _ =>
      cases h with
      | posFixint h => omega
      | negFixint _ _ => omega
      | uint hwidth h =>
          simp only [List.mem_cons, Prod.mk.injEq, List.not_mem_nil, or_false] at hwidth
          obtain ⟨rfl, -⟩ | ⟨rfl, -⟩ | ⟨rfl, -⟩ | ⟨rfl, -⟩ := hwidth <;> omega
      | int hwidth _ h =>
          simp only [List.mem_cons, Prod.mk.injEq, List.not_mem_nil, or_false] at hwidth
          obtain ⟨rfl, -⟩ | ⟨rfl, -⟩ | ⟨rfl, -⟩ | ⟨rfl, -⟩ := hwidth <;> omega

def Value.IsUint (value : Value) : Prop := ∃ n : Nat, value = .integer n

def Value.IsString (value : Value) : Prop := ∃ bytes : Bytes, value = .string bytes

theorem readUint_written {rmp : Rmp} {limit : Nat} {written : Written}
    (h : written.ReadBy rmp limit) (huint : written.value.IsUint) :
    ∃ n, readUint rmp written.valueBytes = .ok n ∧ written.value.asU64 = some n := by
  obtain ⟨n, hn⟩ := huint
  have hlt := integer_lt (hn ▸ written.valueEncodes)
  refine ⟨n, ?_, ?_⟩
  · rw [readUint, h.int n hn]
  · rw [hn, Value.asU64, if_pos ⟨Int.natCast_nonneg n, hlt⟩, Int.toNat_natCast]

theorem readStr_written {rmp : Rmp} {limit : Nat} {written : Written}
    (h : written.ReadBy rmp limit) (hstring : written.value.IsString) :
    (readStr rmp written.valueBytes).toOption = written.value.asStr := by
  obtain ⟨text, htext⟩ := hstring
  rw [readStr, h.str text htext, htext]
  simp only
  rw [if_neg (lt_irrefl _), List.take_length, Value.asStr]
  cases String.fromUTF8? ⟨text.toArray⟩ <;> rfl

/-! ## The last entry under a key -/

theorem entriesAt_map (pos : Nat) (entries : List Written) :
    (entriesAt pos entries).map (fun entry => (entry.key, entry.value)) =
      entries.map fun written => (written.key, written.valueBytes) := by
  induction entries generalizing pos with
  | nil => rfl
  | cons written entries ih =>
      rw [entriesAt, List.map_cons, ih, List.map_cons]

theorem narrowKey_eq {k key : Nat} (hkey : key < 255) : narrowKey k = key ↔ k = key := by
  unfold narrowKey
  split <;> omega

theorem narrowKey_mem {k : Nat} {keys : List Nat} (hkeys : ∀ key ∈ keys, key < 255) :
    narrowKey k ∈ keys ↔ k ∈ keys := by
  constructor
  · intro h
    have hnarrow : k = narrowKey k := (narrowKey_eq (hkeys _ h)).mp rfl
    rwa [← hnarrow] at h
  · intro h
    have hnarrow : narrowKey k = k := (narrowKey_eq (hkeys k h)).mpr rfl
    rwa [hnarrow]

theorem lastUnder_entriesAt {key : Nat} (hkey : key < 255) (pos : Nat) (entries : List Written) :
    (lastUnder key (entriesAt pos entries)).map Entry.value =
      (Written.last key entries).map Written.valueBytes := by
  have hlast {α : Type} (f : α → Nat × Bytes) (items : List α) :
      (items.filter fun item => (f item).1 = key).getLast?.map (fun item => (f item).2) =
        ((items.map f).filter fun pair => pair.1 = key).getLast?.map Prod.snd := by
    rw [List.filter_map, List.getLast?_map, Option.map_map]
    rfl
  unfold lastUnder Written.last
  simp only [narrowKey_eq hkey]
  calc _ = _ := hlast (fun entry : Entry => (entry.key, entry.value)) _
    _ = _ := by rw [entriesAt_map]
    _ = _ := (hlast (fun written : Written => (written.key, written.valueBytes)) _).symm

theorem Written.last_mem {key : Nat} {entries : List Written} {written : Written}
    (h : Written.last key entries = some written) : written ∈ entries ∧ written.key = key := by
  have hmem := List.mem_of_getLast? h
  rw [List.mem_filter] at hmem
  exact ⟨hmem.1, of_decide_eq_true hmem.2⟩

theorem lastUnder_read {β : Type} {key : Nat} (hkey : key < 255) (pos : Nat)
    {entries : List Written} {r : Bytes → Option β} {v : Value → Option β}
    (hread : ∀ written ∈ entries, written.key = key → r written.valueBytes = v written.value) :
    ((lastUnder key (entriesAt pos entries)).map fun entry => r entry.value).getD none =
      (Written.last key entries).bind fun written => v written.value := by
  have hbytes := lastUnder_entriesAt hkey pos entries
  have hmap : (lastUnder key (entriesAt pos entries)).map (fun entry => r entry.value) =
      ((lastUnder key (entriesAt pos entries)).map Entry.value).map r := by
    rw [Option.map_map]
    rfl
  rw [hmap, hbytes]
  cases hlast : Written.last key entries with
  | none => rfl
  | some written =>
      obtain ⟨hmem, hsame⟩ := Written.last_mem hlast
      exact hread written hmem hsame

theorem entriesAt_mem {pos : Nat} {entries : List Written} {entry : Entry}
    (h : entry ∈ entriesAt pos entries) :
    ∃ written ∈ entries, entry.key = written.key ∧ entry.value = written.valueBytes := by
  have hpair := List.mem_map_of_mem (f := fun entry : Entry => (entry.key, entry.value)) h
  rw [entriesAt_map] at hpair
  obtain ⟨written, hmem, hsame⟩ := List.mem_map.mp hpair
  obtain ⟨hkey, hvalue⟩ := Prod.mk.inj hsame
  exact ⟨written, hmem, hkey.symm, hvalue.symm⟩

theorem entriesAt_holds {pos : Nat} {entries : List Written} {buf : Bytes} {entry : Entry}
    (h : Holds buf pos (entries.flatMap Written.bytes)) (hmem : entry ∈ entriesAt pos entries) :
    Holds buf entry.offset entry.value := by
  induction entries generalizing pos with
  | nil => contradiction
  | cons written entries ih =>
      rw [List.flatMap_cons] at h
      rw [entriesAt, List.mem_cons] at hmem
      obtain rfl | hmem := hmem
      · exact h.left.right
      · exact ih h.right hmem

theorem lastUnder_mem {key : Nat} {entries : List Entry} {entry : Entry}
    (h : lastUnder key entries = some entry) : entry ∈ entries :=
  List.mem_of_mem_filter (List.mem_of_getLast? h)

theorem slice_lastUnder {key : Nat} (hkey : key < 255) {pos : Nat} {entries : List Written}
    {response : Response} (h : Holds response.body pos (entries.flatMap Written.bytes)) :
    response.slice (((lastUnder key (entriesAt pos entries)).map
        fun entry => some entry.range).getD none) =
      bytesOf (Written.last key entries) := by
  rw [bytesOf, ← lastUnder_entriesAt hkey pos]
  cases hlast : lastUnder key (entriesAt pos entries) with
  | none => rfl
  | some entry =>
      obtain ⟨after, hdrop, -⟩ := (entriesAt_holds h (lastUnder_mem hlast)).drop
      change some ((response.body.drop entry.offset).take
        (entry.offset + entry.value.length - entry.offset)) = some entry.value
      rw [hdrop, Nat.add_sub_cancel_left, List.take_left]

/-! ## The header loop -/

theorem readUint_toOption {rmp : Rmp} {limit : Nat} {written : Written}
    (h : written.ReadBy rmp limit) (huint : written.value.IsUint) :
    (readUint rmp written.valueBytes).toOption = written.value.asU64 := by
  obtain ⟨n, hread, hn⟩ := readUint_written h huint
  rw [hread, hn]
  rfl

structure HeaderTyped (rmp : Rmp) (limit : Nat) (entries : List Written) : Prop where
  read : ∀ written ∈ entries, written.ReadBy rmp limit
  uint : ∀ written ∈ entries, written.key ∈ headerKeys → written.value.IsUint

theorem HeaderTyped.loop {rmp : Rmp} {limit : Nat} {entries : List Written}
    (h : HeaderTyped rmp limit entries) (pos : Nat) :
    (entriesAt pos entries).foldlM (Header.visit rmp) {} =
      .ok { requestType := uintOf (Written.last Key.requestType entries)
            sync := (uintOf (Written.last Key.sync entries)).getD 0
            schemaVersion := uintOf (Written.last Key.schemaVersion entries) } := by
  have hunder {key : Nat} (hmem : key ∈ headerKeys) (hkey : key < 255) :
      ((lastUnder key (entriesAt pos entries)).map fun entry =>
        (readUint rmp entry.value).toOption).getD none = uintOf (Written.last key entries) := by
    refine lastUnder_read (r := fun bytes => (readUint rmp bytes).toOption) hkey pos ?_
    intro written hwritten hsame
    exact readUint_toOption (h.read written hwritten) (h.uint written hwritten (hsame ▸ hmem))
  refine (foldlM_ok (Header.visit_ok rmp)).mpr ⟨?_, ?_⟩
  · intro entry hentry hkey
    obtain ⟨written, hmem, hsame, hvalue⟩ := entriesAt_mem hentry
    rw [narrowKey_mem (by decide), hsame] at hkey
    obtain ⟨n, hread, -⟩ := readUint_written (h.read written hmem) (h.uint written hmem hkey)
    exact ⟨n, hvalue ▸ hread⟩
  · have htype : ((entriesAt pos entries).foldl (Header.recorded rmp) {}).requestType = _ :=
      (foldl_lastUnder (fun _ _ => rfl) _ _).trans (hunder (by decide) (by decide))
    have hversion : ((entriesAt pos entries).foldl (Header.recorded rmp) {}).schemaVersion = _ :=
      (foldl_lastUnder (fun _ _ => rfl) _ _).trans (hunder (by decide) (by decide))
    have hsync : ((entriesAt pos entries).foldl (Header.recorded rmp) {}).sync =
        (uintOf (Written.last Key.sync entries)).getD 0 := by
      rw [← hunder (by decide) (by decide)]
      refine (foldl_lastUnder (fun _ _ => rfl) _ _).trans ?_
      cases lastUnder Key.sync (entriesAt pos entries) <;> rfl
    rw [← htype, ← hsync, ← hversion]

/-! ## The body loop -/

def Value.IsErrorStack (value : Value) : Prop :=
  ∃ entries stack frames, value = .map entries ∧
    entries.find? (fun entry => entry.1.asU64 == some ErrorKey.stack) = some (stack, .array frames) ∧
    ∀ frame ∈ frames, ∃ fields, frame = .map fields

structure BodyTyped (rmp : Rmp) (limit : Nat) (entries : List Written) : Prop where
  read : ∀ written ∈ entries, written.ReadBy rmp limit
  string : ∀ written ∈ entries, written.key ∈ stringKeys → written.value.IsString
  uint : ∀ written ∈ entries, written.key ∈ countKeys → written.value.IsUint
  stack : ∀ written ∈ entries, written.key = Key.error →
    written.value.IsErrorStack ∧ written.value.Within limit

def AllText (entries : List Written) : Prop :=
  ∀ written ∈ entries, written.key ∈ stringKeys → written.value.asStr.isSome

theorem exists_entryAt (pos : Nat) {entries : List Written} {written : Written}
    (h : written ∈ entries) :
    ∃ entry ∈ entriesAt pos entries, entry.key = written.key ∧ entry.value = written.valueBytes := by
  have hpair := List.mem_map_of_mem
    (f := fun written : Written => (written.key, written.valueBytes)) h
  rw [← entriesAt_map pos] at hpair
  obtain ⟨entry, hmem, hsame⟩ := List.mem_map.mp hpair
  obtain ⟨hkey, hvalue⟩ := Prod.mk.inj hsame
  exact ⟨entry, hmem, hkey, hvalue⟩

theorem isSome_toOption {α : Type} {x : Except Error α} :
    x.toOption.isSome ↔ ∃ a, x = .ok a := by
  cases x with
  | error err => exact ⟨nofun, fun ⟨_, h⟩ => nomatch h⟩
  | ok a => exact ⟨fun _ => ⟨a, rfl⟩, fun _ => rfl⟩

theorem BodyTyped.reads_iff {rmp : Rmp} {limit : Nat} {entries : List Written}
    (h : BodyTyped rmp limit entries) (pos : Nat) :
    (∀ entry ∈ entriesAt pos entries, BodyParts.Reads rmp entry) ↔ AllText entries := by
  constructor
  · intro hreads written hmem hkey
    obtain ⟨entry, hentry, hsame, hvalue⟩ := exists_entryAt pos hmem
    rw [← readStr_written (h.read written hmem) (h.string written hmem hkey), isSome_toOption,
      ← hvalue]
    refine (hreads entry hentry).text ?_
    rw [narrowKey_mem (by decide), hsame]
    exact hkey
  · intro htext entry hentry
    obtain ⟨written, hmem, hsame, hvalue⟩ := entriesAt_mem hentry
    refine ⟨fun hkey => ?_, fun hkey => ?_⟩
    · rw [narrowKey_mem (by decide), hsame] at hkey
      rw [hvalue, ← isSome_toOption,
        readStr_written (h.read written hmem) (h.string written hmem hkey)]
      exact htext written hmem hkey
    · rw [narrowKey_mem (by decide), hsame] at hkey
      obtain ⟨n, hread, -⟩ := readUint_written (h.read written hmem) (h.uint written hmem hkey)
      exact ⟨n, hvalue ▸ hread⟩

/-- The response holds what stands in the two maps, found by `header` and `body`. -/
structure Answers (header body : Nat → Option Written) (kind : Kind) (response : Response) :
    Prop where
  kind : response.kind = kind
  sync : response.sync = (uintOf (header Key.sync)).getD 0
  schemaVersion : response.schemaVersion = uintOf (header Key.schemaVersion)
  position : response.position = textOf (body Key.position)
  eventKey : response.eventKey = textOf (body Key.eventKey)
  bindCount : response.bindCount = uintOf (body Key.bindCount)
  stmtId : response.stmtId = uintOf (body Key.stmtId)
  data : response.dataBytes = (bytesOf (body Key.data)).getD [0xc0]
  event : response.event = (textOf (body Key.eventKey)).map fun key =>
    (key, (bytesOf (body Key.eventData)).getD [0xc0])
  metadata : response.metadataBytes = bytesOf (body Key.metadata)
  bindMetadata : response.bindMetadataBytes = bytesOf (body Key.bindMetadata)
  sqlInfo : response.sqlInfoBytes = bytesOf (body Key.sqlInfo)

def bare (kind : Kind) (header : List Written) (body : Bytes) : Response where
  kind := kind
  sync := (uintOf (Written.last Key.sync header)).getD 0
  schemaVersion := uintOf (Written.last Key.schemaVersion header)
  body := body

theorem bare_answers (kind : Kind) (header : List Written) (body : Bytes) :
    Answers (Written.last · header) (Written.last · []) kind (bare kind header body) :=
  ⟨rfl, rfl, rfl, rfl, rfl, rfl, rfl, rfl, rfl, rfl, rfl, rfl⟩

theorem foldl_recorded_kept (rmp : Rmp) (entries : List Entry) (parts : BodyParts) :
    (entries.foldl (BodyParts.recorded rmp) parts).response.kind = parts.response.kind ∧
    (entries.foldl (BodyParts.recorded rmp) parts).response.sync = parts.response.sync ∧
    (entries.foldl (BodyParts.recorded rmp) parts).response.schemaVersion =
      parts.response.schemaVersion ∧
    (entries.foldl (BodyParts.recorded rmp) parts).response.body = parts.response.body := by
  induction entries generalizing parts with
  | nil => exact ⟨rfl, rfl, rfl, rfl⟩
  | cons entry entries ih => exact ih _

theorem BodyTyped.answers {rmp : Rmp} {limit : Nat} {header entries : List Written}
    (h : BodyTyped rmp limit entries) {kind : Kind} {body : Bytes} {pos : Nat}
    (hbody : Holds body pos (entries.flatMap Written.bytes)) :
    Answers (Written.last · header) (Written.last · entries) kind
      ((entriesAt pos entries).foldl (BodyParts.recorded rmp)
        ⟨bare kind header body, none, none⟩).response := by
  have hstring {key : Nat} (hmem : key ∈ stringKeys) (hkey : key < 255) :
      ((lastUnder key (entriesAt pos entries)).map fun entry =>
        (readStr rmp entry.value).toOption).getD none = textOf (Written.last key entries) := by
    refine lastUnder_read (r := fun bytes => (readStr rmp bytes).toOption) hkey pos ?_
    intro written hwritten hsame
    exact readStr_written (h.read written hwritten) (h.string written hwritten (hsame ▸ hmem))
  have huint {key : Nat} (hmem : key ∈ countKeys) (hkey : key < 255) :
      ((lastUnder key (entriesAt pos entries)).map fun entry =>
        (readUint rmp entry.value).toOption).getD none = uintOf (Written.last key entries) := by
    refine lastUnder_read (r := fun bytes => (readUint rmp bytes).toOption) hkey pos ?_
    intro written hwritten hsame
    exact readUint_toOption (h.read written hwritten) (h.uint written hwritten (hsame ▸ hmem))
  let init : BodyParts := ⟨bare kind header body, none, none⟩
  have hslice {key : Nat} (hkey : key < 255) :
      ((entriesAt pos entries).foldl (BodyParts.recorded rmp) init).response.slice
        (((lastUnder key (entriesAt pos entries)).map fun entry => some entry.range).getD none) =
        bytesOf (Written.last key entries) := by
    refine slice_lastUnder hkey ?_
    rw [(foldl_recorded_kept _ _ _).2.2.2]
    exact hbody
  have hfield {β : Type} (f : BodyParts → Option β) {g : Entry → Option β} {key : Nat}
      (hf : ∀ parts entry, f (BodyParts.recorded rmp parts entry) =
        if narrowKey entry.key = key then g entry else f parts) :
      f ((entriesAt pos entries).foldl (BodyParts.recorded rmp) init) =
        ((lastUnder key (entriesAt pos entries)).map g).getD (f init) :=
    foldl_lastUnder hf _ _
  have hraw {key : Nat} (f : Response → Option (Nat × Nat)) (hkey : key < 255)
      (hf : ∀ parts entry, f (BodyParts.recorded rmp parts entry).response =
        if narrowKey entry.key = key then some entry.range else f parts.response)
      (hnone : f init.response = none) :
      ((entriesAt pos entries).foldl (BodyParts.recorded rmp) init).response.slice
        (f ((entriesAt pos entries).foldl (BodyParts.recorded rmp) init).response) =
        bytesOf (Written.last key entries) := by
    rw [hfield (fun parts => f parts.response) hf, hnone]
    exact hslice hkey
  have hposition := hfield (fun parts => parts.response.position) fun _ _ => rfl
  have heventKey := hfield (fun parts => parts.response.eventKey) fun _ _ => rfl
  have hbindCount := hfield (fun parts => parts.response.bindCount) fun _ _ => rfl
  have hstmtId := hfield (fun parts => parts.response.stmtId) fun _ _ => rfl
  have hdata := hraw Response.data (by decide) (fun _ _ => rfl) rfl
  have heventData := hraw Response.eventData (by decide) (fun _ _ => rfl) rfl
  obtain ⟨hkind, hsync, hversion, -⟩ :=
    foldl_recorded_kept rmp (entriesAt pos entries) init
  exact
    { kind := hkind
      sync := hsync
      schemaVersion := hversion
      position := hposition.trans (hstring (by decide) (by decide))
      eventKey := heventKey.trans (hstring (by decide) (by decide))
      bindCount := hbindCount.trans (huint (by decide) (by decide))
      stmtId := hstmtId.trans (huint (by decide) (by decide))
      data := congrArg (Option.getD · [0xc0]) hdata
      event := by
        rw [Response.event, heventData, heventKey.trans (hstring (by decide) (by decide))]
      metadata := hraw Response.metadata (by decide) (fun _ _ => rfl) rfl
      bindMetadata := hraw Response.bindMetadata (by decide) (fun _ _ => rfl) rfl
      sqlInfo := hraw Response.sqlInfo (by decide) (fun _ _ => rfl) rfl }

/-! ## The error stack -/

theorem decodeErrorFrame_map (fields : List (Value × Value)) :
    ∃ err, decodeErrorFrame (.map fields) = .ok err := ⟨_, rfl⟩

theorem mapM_decodeErrorFrame {frames : List Value}
    (h : ∀ frame ∈ frames, ∃ fields, frame = .map fields) :
    ∃ errs, frames.mapM decodeErrorFrame = .ok errs := by
  induction frames with
  | nil => exact ⟨[], rfl⟩
  | cons frame frames ih =>
      obtain ⟨⟨fields, rfl⟩, hrest⟩ := List.forall_mem_cons.mp h
      obtain ⟨err, herr⟩ := decodeErrorFrame_map fields
      obtain ⟨errs, herrs⟩ := ih hrest
      refine ⟨err :: errs, ?_⟩
      rw [List.mapM_cons, herr, herrs]
      rfl

theorem decodeErrorMap_ok {rmp : Rmp} {value : Value} {bytes : Bytes}
    (hread : rmp.readValue bytes = .ok value) (hstack : value.IsErrorStack) (code : Nat) :
    ∃ err, decodeErrorMap rmp bytes code = .ok err := by
  obtain ⟨entries, stack, frames, rfl, hfind, hframes⟩ := hstack
  obtain ⟨errs, herrs⟩ := mapM_decodeErrorFrame hframes
  have hstack : ((Value.map entries).asMap.bind fun entries =>
      (entries.find? fun entry => entry.1.asU64 == some ErrorKey.stack).map
        Prod.snd).bind Value.asArray = some frames := by
    change ((entries.find? _).map Prod.snd).bind Value.asArray = _
    rw [hfind]
    rfl
  unfold decodeErrorMap
  rw [hread]
  simp only [hstack, herrs]
  cases errs with
  | nil => exact ⟨_, rfl⟩
  | cons outer rest => exact ⟨_, rfl⟩

/-! ## The whole packet -/

structure Packet where
  header : WrittenMap
  body : Option WrittenMap

namespace Packet

def entries (packet : Packet) : List Written := (packet.body.map WrittenMap.entries).getD []

def bodyBytes (packet : Packet) : Bytes := (packet.body.map WrittenMap.bytes).getD []

def bytes (packet : Packet) : Bytes := packet.header.bytes ++ packet.bodyBytes

/-- Every value has the type its key asks for, and the request type is one of a response. -/
structure Typed (rmp : Rmp) (limit : Nat) (kind : Kind) (packet : Packet) : Prop where
  length : packet.bytes.length < 2 ^ 64
  header : HeaderTyped rmp limit packet.header.entries
  body : BodyTyped rmp limit packet.entries
  known : ∃ requestType,
    uintOf (Written.last Key.requestType packet.header.entries) = some requestType ∧
      kindOf requestType = .ok kind

end Packet

def finish (rmp : Rmp) (kind : Kind) (requestType : Nat) (parts : BodyParts) :
    Except Error Response :=
  if kind = .error then do
    let err ← match parts.errorExt with
      | some bytes => decodeErrorMap rmp bytes (errorCode requestType)
      | none => .ok (ServerError.fromMessage (errorCode requestType)
          (parts.error24.getD ""))
    .ok { parts.response with error := some err }
  else .ok parts.response

def continueWith (rmp : Rmp) (kind : Kind) (requestType : Nat) (this : Response) :
    Except Error Response :=
  if this.body = [] then .ok this
  else do
    let (cursor, _) ← MapCursor.new this.body
    let parts ← cursor.forEach rmp ⟨this, none, none⟩ (BodyParts.visit rmp)
    finish rmp kind requestType parts

theorem WrittenMap.forEach {α : Type} {rmp : Rmp} (map : WrittenMap) {after : Bytes}
    (hkeys : ∀ written ∈ map.entries, rmp.readInt written.keyBytes = some written.key)
    (hlength : (map.bytes ++ after).length < 2 ^ 64) (acc : α)
    (visit : α → Entry → Except Error α) :
    MapCursor.forEach rmp ⟨map.bytes ++ after, map.head.length, map.entries.length⟩ acc visit =
      (entriesAt map.head.length map.entries).foldlM visit acc :=
  (walks_entries hkeys hlength ⟨map.head, after, rfl, rfl⟩).forEach acc visit

theorem parse_header {rmp : Rmp} {limit : Nat} {kind : Kind} {packet : Packet}
    (h : packet.Typed rmp limit kind) :
    ∃ requestType, Response.parse rmp packet.bytes =
      continueWith rmp kind requestType (bare kind packet.header.entries packet.bodyBytes) := by
  obtain ⟨requestType, htype, hkind⟩ := h.known
  refine ⟨requestType, ?_⟩
  have hlength := h.length
  unfold Response.parse Packet.bytes at *
  rw [new_written packet.header hlength]
  change (MapCursor.forEach rmp _ _ _ >>= _) = _
  rw [WrittenMap.forEach packet.header (fun written hmem => (h.header.read written hmem).key)
    hlength, h.header.loop]
  simp only [htype]
  change (kindOf requestType >>= _) = _
  rw [hkind, List.drop_left]
  rfl

theorem parse_bodiless {rmp : Rmp} {limit : Nat} {kind : Kind} {packet : Packet}
    (h : packet.Typed rmp limit kind) (hbody : packet.body = none) :
    Response.parse rmp packet.bytes = .ok (bare kind packet.header.entries []) := by
  obtain ⟨requestType, hparse⟩ := parse_header h
  have hempty : packet.bodyBytes = [] := by
    rw [Packet.bodyBytes, hbody]
    rfl
  rw [hparse, hempty]
  rfl

theorem parse_body {rmp : Rmp} {limit : Nat} {kind : Kind} {packet : Packet} {map : WrittenMap}
    (h : packet.Typed rmp limit kind) (hbody : packet.body = some map) :
    ∃ requestType, Response.parse rmp packet.bytes =
      (entriesAt map.head.length map.entries).foldlM (BodyParts.visit rmp)
        ⟨bare kind packet.header.entries map.bytes, none, none⟩ >>= finish rmp kind requestType := by
  obtain ⟨requestType, hparse⟩ := parse_header h
  refine ⟨requestType, ?_⟩
  have hbytes : packet.bodyBytes = map.bytes := by
    rw [Packet.bodyBytes, hbody]
    rfl
  have hentries : packet.entries = map.entries := by
    rw [Packet.entries, hbody]
    rfl
  have hne : map.bytes ≠ [] := by
    have := map.encodes.length_le
    rintro hnil
    rw [hnil] at this
    contradiction
  have hlength : (map.bytes ++ []).length < 2 ^ 64 := by
    have := h.length
    rw [Packet.bytes, hbytes, List.length_append] at this
    rw [List.append_nil]
    omega
  have hloop := WrittenMap.forEach map
    (fun written hmem => (h.body.read written (hentries ▸ hmem)).key) hlength
    ⟨bare kind packet.header.entries map.bytes, none, none⟩ (BodyParts.visit rmp)
  have hnew := new_written map hlength
  rw [List.append_nil] at hnew hloop
  rw [hparse, hbytes, continueWith]
  refine (if_neg hne).trans ?_
  change (MapCursor.new map.bytes >>= _) = _
  rw [hnew, ← hloop]
  rfl

theorem errorExt_foldl (rmp : Rmp) (pos : Nat) (entries : List Written) (parts : BodyParts)
    (hnone : parts.errorExt = none) :
    ((entriesAt pos entries).foldl (BodyParts.recorded rmp) parts).errorExt =
      bytesOf (Written.last Key.error entries) := by
  rw [bytesOf, ← lastUnder_entriesAt (by decide) pos]
  refine (foldl_lastUnder (fun _ _ => rfl) _ _).trans ?_
  rw [hnone]
  cases lastUnder Key.error (entriesAt pos entries) <;> rfl

theorem finish_ok {rmp : Rmp} {limit : Nat} {entries : List Written}
    (h : BodyTyped rmp limit entries) (kind : Kind) (requestType : Nat) {parts : BodyParts}
    (hext : parts.errorExt = bytesOf (Written.last Key.error entries)) :
    ∃ error, finish rmp kind requestType parts = .ok { parts.response with error } := by
  unfold finish
  split
  · rw [hext]
    cases hlast : Written.last Key.error entries with
    | none => exact ⟨_, rfl⟩
    | some written =>
        obtain ⟨hmem, hkey⟩ := Written.last_mem hlast
        obtain ⟨hstack, hwithin⟩ := h.stack written hmem hkey
        obtain ⟨err, herr⟩ := decodeErrorMap_ok ((h.read written hmem).value hwithin) hstack
          (errorCode requestType)
        refine ⟨some err, ?_⟩
        change (decodeErrorMap rmp written.valueBytes (errorCode requestType) >>= _) = _
        rw [herr]
        rfl
  · exact ⟨parts.response.error, rfl⟩

theorem Answers.withError {header body : Nat → Option Written} {kind : Kind} {response : Response}
    (h : Answers header body kind response) (error : Option ServerError) :
    Answers header body kind { response with error } :=
  ⟨h.kind, h.sync, h.schemaVersion, h.position, h.eventKey, h.bindCount, h.stmtId, h.data, h.event,
    h.metadata, h.bindMetadata, h.sqlInfo⟩

theorem parse_typed {rmp : Rmp} {limit : Nat} {kind : Kind} {packet : Packet}
    (h : packet.Typed rmp limit kind) :
    (AllText packet.entries ∧ ∃ response, Response.parse rmp packet.bytes = .ok response ∧
        Answers (Written.last · packet.header.entries) (Written.last · packet.entries) kind
          response) ∨
      (¬ AllText packet.entries ∧ ∃ err, Response.parse rmp packet.bytes = .error err) := by
  cases hbody : packet.body with
  | none =>
      have hentries : packet.entries = [] := by
        rw [Packet.entries, hbody]
        rfl
      rw [hentries]
      exact .inl ⟨nofun, _, parse_bodiless h hbody, bare_answers _ _ _⟩
  | some map =>
      have hentries : packet.entries = map.entries := by
        rw [Packet.entries, hbody]
        rfl
      have htyped := hentries ▸ h.body
      obtain ⟨requestType, hparse⟩ := parse_body h hbody
      rw [hparse, hentries]
      by_cases htext : AllText map.entries
      · have hloop : (entriesAt map.head.length map.entries).foldlM (BodyParts.visit rmp)
            ⟨bare kind packet.header.entries map.bytes, none, none⟩ = .ok _ :=
          (foldlM_ok (BodyParts.visit_ok rmp)).mpr
            ⟨(htyped.reads_iff map.head.length).mpr htext, rfl⟩
        have hholds : Holds map.bytes map.head.length (map.entries.flatMap Written.bytes) :=
          ⟨map.head, [], (List.append_nil _).symm, rfl⟩
        obtain ⟨error, hfinish⟩ := finish_ok htyped kind requestType
          (errorExt_foldl rmp map.head.length map.entries
            ⟨bare kind packet.header.entries map.bytes, none, none⟩ rfl)
        refine .inl ⟨htext, _, ?_, (htyped.answers hholds).withError error⟩
        rw [hloop]
        exact hfinish
      · refine .inr ⟨htext, ?_⟩
        cases hloop : (entriesAt map.head.length map.entries).foldlM (BodyParts.visit rmp)
            ⟨bare kind packet.header.entries map.bytes, none, none⟩ with
        | error err => exact ⟨err, rfl⟩
        | ok parts =>
            have hreads := ((foldlM_ok (BodyParts.visit_ok rmp)).mp hloop).1
            exact absurd ((htyped.reads_iff map.head.length).mp hreads) htext

end Tarant
