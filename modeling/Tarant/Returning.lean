import Tarant.Replies
import Tarant.ErrorStack
import Tarant.Statements

/-!
# What a request returns

The methods of `client.rs` and `sql.rs` from the reply on.  Values are decoded by
`rmp_serde::from_slice`, which comes from a crate and is a parameter here at each type it
is used at.
-/

namespace Tarant.Returning

open Iproto
open Sql (Column Statement requestResult)
open Wire (Encodes)

/-- `rmp_serde::from_slice` at a type, and at lists of maps. -/
abbrev FromSlice (α : Type) := Bytes → Except String α

abbrev Fields := List (Nat × Value)

/-! ## Values -/

section Values

variable {α : Type}

def data (fromSlice : FromSlice α) (response : Response) : Except Error α :=
  (fromSlice response.dataBytes).mapError .decode

/-- `call`, `eval`, `watch_once`, `PushCall::finish`, and a `Select` that is awaited. -/
def value (fromSlice : FromSlice α) (response : Response) : Except Error α := do
  data fromSlice (← requestResult response)

/-- `ping`, the writes, `begin`, `commit`, `rollback` and `unprepare`. -/
def nothing (response : Response) : Except Error Unit := do
  let _ ← requestResult response

/-- `Space::get`, `delete` and `update`. -/
def first (fromSlice : FromSlice (List α)) (response : Response) : Except Error (Option α) := do
  let rows ← value fromSlice response
  return rows.head?

structure Page (α : Type) where
  rows : List α
  position : Option String

def page (fromSlice : FromSlice (List α)) (response : Response) : Except Error (Page α) := do
  let response ← requestResult response
  return { rows := ← data fromSlice response, position := response.position }

end Values

/-! ## SQL -/

structure Rows (α : Type) where
  columns : List Column
  rows : List α

structure Exec where
  rowCount : Nat := 0
  autoincrementIds : List Nat := []
  deriving DecidableEq

def noResultSet : String :=
  "the statement returned no result set; use `execute` for statements that change data"

def rows {α : Type} (fromSlices : FromSlice (List Fields)) (fromSlice : FromSlice (List α))
    (response : Response) : Except Error (Rows α) :=
  if response.data.isSome then do
    let columns ← Sql.columns fromSlices response.metadataBytes
    return { columns, rows := ← data fromSlice response }
  else .error (.decode noResultSet)

/-- The `IPROTO_SQL_INFO` of a response; all zeros if it has none. -/
def exec (fromSlice : FromSlice Fields) (response : Response) : Except Error Exec :=
  match response.sqlInfoBytes with
  | none => .ok {}
  | some bytes => do
      let info ← (fromSlice bytes).mapError .decode
      return {
        rowCount := ((info.lookup Sql.infoRowCount).bind Value.asU64).getD 0
        autoincrementIds := (((info.lookup Sql.infoAutoincrementIds).bind Value.asArray).map
          (·.filterMap Value.asU64)).getD [] }

def query {α : Type} (fromSlices : FromSlice (List Fields)) (fromSlice : FromSlice (List α))
    (response : Response) : Except Error (Rows α) := do
  rows fromSlices fromSlice (← requestResult response)

def execute (fromSlice : FromSlice Fields) (response : Response) : Except Error Exec := do
  exec fromSlice (← requestResult response)

def prepare (fromSlices : FromSlice (List Fields)) (sql : String) (response : Response) :
    Except Error Statement := do
  Statement.ofReply fromSlices sql (← requestResult response)

/-! ## Replies -/

theorem parse_data {rmp : Rmp} {limit : Nat} {kind : Kind} {packet : Packet} {response : Response}
    (h : packet.Typed rmp limit kind) (hparse : Response.parse rmp packet.bytes = .ok response) :
    response.data.isSome = (Written.last Key.data packet.entries).isSome := by
  cases hbody : packet.body with
  | none =>
      rw [parse_bodiless h hbody] at hparse
      obtain rfl := Except.ok.inj hparse
      rw [Packet.entries, hbody]
      rfl
  | some map =>
      obtain ⟨requestType, heq⟩ := parse_body h hbody
      rw [heq] at hparse
      obtain ⟨parts, hloop, hfinish⟩ := Msgpack.bind_ok.mp hparse
      obtain ⟨-, rfl⟩ := (foldlM_ok (BodyParts.visit_ok rmp)).mp hloop
      have hentries : packet.entries = map.entries := by
        rw [Packet.entries, hbody]
        rfl
      obtain ⟨error, hok⟩ := finish_ok (hentries ▸ h.body) kind requestType
        (errorExt_foldl rmp map.head.length map.entries
          ⟨bare kind packet.header.entries map.bytes, none, none⟩ rfl)
      obtain rfl := Except.ok.inj (hok.symm.trans hfinish)
      have hrecorded (parts : BodyParts) (entry : Msgpack.Entry) :
          (parts.recorded rmp entry).response.data =
            if narrowKey entry.key = Key.data then some entry.range else parts.response.data := rfl
      have hlast := foldl_lastUnder (f := fun parts : BodyParts => parts.response.data)
        (r := BodyParts.recorded rmp) (g := fun entry => some entry.range) hrecorded
        (entriesAt map.head.length map.entries)
        ⟨bare kind packet.header.entries map.bytes, none, none⟩
      have hfound := congrArg Option.isSome
        (lastUnder_entriesAt (show Key.data < 255 by decide) map.head.length map.entries)
      rw [Option.isSome_map, Option.isSome_map] at hfound
      rw [hentries, ← hfound]
      refine (congrArg Option.isSome hlast).trans ?_
      cases lastUnder Key.data (entriesAt map.head.length map.entries) <;> rfl

/-! ## What the server says -/

def said (packet : Packet) (key : Nat) : Option Value :=
  (Written.under key packet.entries).map Written.value

/-- The deserializer of a type, by what it makes of the values of a packet and of nil. -/
structure Decodes {α : Type} (packet : Packet) (fromSlice : FromSlice α)
    (meaning : Value → Option α) : Prop where
  entry : ∀ written ∈ packet.entries,
    (fromSlice written.valueBytes).toOption = meaning written.value
  nil : (fromSlice [0xc0]).toOption = meaning .nil

def many {α : Type} (meaning : Value → Option α) (value : Value) : Option (List α) :=
  value.asArray.bind (·.mapM meaning)

def mapValue (fields : Fields) : Value :=
  .map (fields.map fun field => (.integer field.1, field.2))

def Keyed (fields : Fields) : Prop :=
  (fields.map Prod.fst).Nodup ∧ ∀ field ∈ fields, field.1 < 2 ^ 8

def ReadsMap (packet : Packet) (fromSlice : FromSlice Fields) : Prop :=
  ∀ written ∈ packet.entries, ∀ fields, Keyed fields → written.value = mapValue fields →
    ∃ read, fromSlice written.valueBytes = .ok read ∧ ∀ k, read.lookup k = fields.lookup k

def ReadsMaps (packet : Packet) (fromSlice : FromSlice (List Fields)) : Prop :=
  ∀ written ∈ packet.entries, ∀ maps, (∀ fields ∈ maps, Keyed fields) →
    written.value = .array (maps.map mapValue) →
    ∃ read, fromSlice written.valueBytes = .ok read ∧
      List.Forall₂ (fun fields fields' => ∀ k, fields'.lookup k = fields.lookup k) maps read

structure Describes (fields : Fields) (column : Column) : Prop where
  keyed : Keyed fields
  name : fields.lookup Sql.fieldName = some (.ofString column.name)
  typeName : fields.lookup Sql.fieldType = some (.ofString column.typeName)
  collation : fields.lookup Sql.fieldColl = column.collation.map .ofString
  nullable : fields.lookup Sql.fieldIsNullable = column.nullable.map .boolean
  autoincrement : fields.lookup Sql.fieldIsAutoincrement = column.autoincrement.map .boolean
  span : fields.lookup Sql.fieldSpan = column.span.map .ofString

inductive Lists : Option Value → List Column → Prop where
  | none : Lists none []
  | some {maps : List Fields} {columns : List Column} (h : List.Forall₂ Describes maps columns) :
      Lists (some (.array (maps.map mapValue))) columns

structure Reports (fields : Fields) (done : Exec) : Prop where
  keyed : Keyed fields
  fits : ∀ n ∈ done.rowCount :: done.autoincrementIds, n < 2 ^ 64
  rowCount : fields.lookup Sql.infoRowCount = some (.ofNat done.rowCount)
  ids : done.autoincrementIds = [] ∧ fields.lookup Sql.infoAutoincrementIds = none ∨
    fields.lookup Sql.infoAutoincrementIds =
      some (.array (done.autoincrementIds.map .ofNat))

/-! ## Decoding it -/

theorem toOption_mapError {α : Type} (result : Except String α) (f : String → Error) :
    (result.mapError f).toOption = result.toOption := by
  cases result <;> rfl

theorem toOption_map {α β : Type} (result : Except Error α) (f : α → β) :
    (result.map f).toOption = result.toOption.map f := by
  cases result <;> rfl

theorem mem_of_under {entries : List Written} {k : Nat} {written : Written}
    (h : Written.under k entries = some written) : written ∈ entries :=
  List.mem_of_find?_eq_some h

theorem data_said {header : Nat → Option Written} {packet : Packet} {response : Response}
    (hanswers : Answers header (Written.under · packet.entries) .ok response)
    {α : Type} {fromSlice : FromSlice α} {meaning : Value → Option α}
    (h : Decodes packet fromSlice meaning) :
    (data fromSlice response).toOption = meaning ((said packet Key.data).getD .nil) := by
  rw [data, toOption_mapError, hanswers.data, said]
  cases hfound : Written.under Key.data packet.entries with
  | none => exact h.nil
  | some written => exact h.entry written (mem_of_under hfound)

theorem value_ok {α : Type} (fromSlice : FromSlice α) {response : Response}
    (h : response.kind = .ok) : value fromSlice response = data fromSlice response := by
  rw [value, Sql.requestResult_ok h]
  rfl

theorem Describes.column {fields fields' : Fields} {column : Column} (h : Describes fields column)
    (hread : ∀ k, fields'.lookup k = fields.lookup k) :
    ({ name := ((fields'.lookup Sql.fieldName).bind Value.asStr).getD ""
       typeName := ((fields'.lookup Sql.fieldType).bind Value.asStr).getD ""
       collation := (fields'.lookup Sql.fieldColl).bind Value.asStr
       nullable := (fields'.lookup Sql.fieldIsNullable).bind Value.asBool
       autoincrement := (fields'.lookup Sql.fieldIsAutoincrement).bind Value.asBool
       span := (fields'.lookup Sql.fieldSpan).bind Value.asStr } : Column) = column := by
  have htext (text : Option String) : (text.map Value.ofString).bind Value.asStr = text := by
    cases text with
    | none => rfl
    | some text => exact Value.asStr_ofString text
  have hflag (flag : Option Bool) : (flag.map Value.boolean).bind Value.asBool = flag := by
    cases flag <;> rfl
  simp only [hread, h.name, h.typeName, h.collation, h.nullable, h.autoincrement, h.span, htext,
    hflag, Option.bind_some, Value.asStr_ofString, Option.getD_some]

theorem columns_listed {packet : Packet} {fromSlices : FromSlice (List Fields)}
    (h : ReadsMaps packet fromSlices) {k : Nat} {columns : List Column}
    (hlists : Lists (said packet k) columns) :
    Sql.columns fromSlices (bytesOf (Written.under k packet.entries)) = .ok columns := by
  rw [said] at hlists
  cases hfound : Written.under k packet.entries with
  | none =>
      rw [hfound] at hlists
      cases hlists
      rfl
  | some written =>
      rw [hfound, Option.map_some] at hlists
      generalize hvalue : written.value = value at hlists
      cases hlists with
      | @some maps _ hdescribes =>
          have hkeyed : ∀ fields ∈ maps, Keyed fields := by
            intro fields hmem
            obtain ⟨n, hn, rfl⟩ := List.getElem_of_mem hmem
            exact (hdescribes.get hn (hdescribes.length_eq ▸ hn)).keyed
          obtain ⟨read, hread, hsame⟩ := h written (mem_of_under hfound) maps hkeyed hvalue
          change (match fromSlices written.valueBytes with
            | .error reason => Except.error (Error.decode reason)
            | .ok entries => _) = _
          rw [hread]
          refine congrArg Except.ok ?_
          clear hread hkeyed hvalue
          induction hsame generalizing columns with
          | nil =>
              cases hdescribes
              rfl
          | cons hfields _ ih =>
              cases hdescribes with
              | cons hcolumn hrest =>
                  rw [List.map_cons, ih hrest]
                  exact congrArg (· :: _) (hcolumn.column hfields)

theorem filterMap_ofNat {ids : List Nat} (h : ∀ n ∈ ids, n < 2 ^ 64) :
    (ids.map Value.ofNat).filterMap Value.asU64 = ids := by
  induction ids with
  | nil => rfl
  | cons n ids ih =>
      obtain ⟨hn, hids⟩ := List.forall_mem_cons.mp h
      rw [List.map_cons, List.filterMap_cons_some (Value.asU64_ofNat hn), ih hids]

theorem exec_reported {packet : Packet} {fromSlice : FromSlice Fields}
    (h : ReadsMap packet fromSlice) {response : Response} {k : Nat}
    (hinfo : response.sqlInfoBytes = bytesOf (Written.under k packet.entries)) {fields : Fields}
    {done : Exec} (hsaid : said packet k = some (mapValue fields))
    (hreports : Reports fields done) : exec fromSlice response = .ok done := by
  obtain ⟨written, hfound, hvalue⟩ := Option.map_eq_some_iff.mp hsaid
  obtain ⟨read, hread, hsame⟩ := h written (mem_of_under hfound) fields hreports.keyed hvalue
  rw [hfound] at hinfo
  change response.sqlInfoBytes = some written.valueBytes at hinfo
  obtain ⟨hcount, hids⟩ := List.forall_mem_cons.mp hreports.fits
  unfold exec
  rw [hinfo]
  simp only [hread]
  change Except.ok (Exec.mk _ _) = _
  rw [hsame, hsame, hreports.rowCount, Option.bind_some, Value.asU64_ofNat hcount,
    Option.getD_some]
  rcases hreports.ids with ⟨hnone, hlookup⟩ | hlookup
  · rw [hlookup]
    change Except.ok (Exec.mk done.rowCount []) = .ok done
    rw [← hnone]
  · rw [hlookup]
    change Except.ok (Exec.mk done.rowCount
      ((done.autoincrementIds.map Value.ofNat).filterMap Value.asU64)) = .ok done
    rw [filterMap_ofNat hids]

theorem execute_ok (fromSlice : FromSlice Fields) {response : Response}
    (h : response.kind = .ok) : execute fromSlice response = exec fromSlice response := by
  rw [execute, Sql.requestResult_ok h]
  rfl

theorem query_ok {α : Type} (fromSlices : FromSlice (List Fields)) (fromSlice : FromSlice (List α))
    {response : Response} (h : response.kind = .ok) :
    query fromSlices fromSlice response = rows fromSlices fromSlice response := by
  rw [query, Sql.requestResult_ok h]
  rfl

section Answered

variable {header : Nat → Option Written} {packet : Packet} {response : Response}
variable (hanswers : Answers header (Written.under · packet.entries) .ok response)
variable {fromSlices : FromSlice (List Fields)}
include hanswers

theorem exec_unsaid (fromSlice : FromSlice Fields) (h : said packet Key.sqlInfo = none) :
    exec fromSlice response = .ok {} := by
  have hbytes : response.sqlInfoBytes = none := by
    rw [hanswers.sqlInfo, bytesOf, Option.map_eq_none_iff]
    exact Option.map_eq_none_iff.mp h
  rw [exec, hbytes]

theorem rows_said (hslices : ReadsMaps packet fromSlices) {columns : List Column}
    (hcolumns : Lists (said packet Key.metadata) columns)
    (hdata : response.data.isSome = (said packet Key.data).isSome) {α : Type}
    {fromSlice : FromSlice (List α)} {meaning : Value → Option α}
    (hdecodes : Decodes packet fromSlice (many meaning)) {tuples : List Value}
    (htuples : said packet Key.data = some (.array tuples)) :
    (rows fromSlices fromSlice response).toOption =
      (tuples.mapM meaning).map fun rows => { columns, rows } := by
  have hlisted : Sql.columns fromSlices response.metadataBytes = .ok columns := by
    rw [hanswers.metadata]
    exact columns_listed hslices hcolumns
  have hrows := data_said hanswers hdecodes
  rw [htuples, Option.getD_some] at hrows
  rw [htuples] at hdata
  rw [rows, hdata, hlisted]
  exact (toOption_map (data fromSlice response) _).trans (congrArg (Option.map _) hrows)

theorem statement_said (hslices : ReadsMaps packet fromSlices) {columns parameters : List Column}
    (hcolumns : Lists (said packet Key.metadata) columns)
    (hparameters : Lists (said packet Key.bindMetadata) parameters) {id : Nat}
    (hid : uintOf (Written.under Key.stmtId packet.entries) = some id) (sql : String) :
    Statement.ofReply fromSlices sql response =
      .ok { sql, id, columns, parameters
            parameterCount := (uintOf (Written.under Key.bindCount packet.entries)).getD 0 } := by
  have hlisted : Sql.columns fromSlices response.metadataBytes = .ok columns := by
    rw [hanswers.metadata]
    exact columns_listed hslices hcolumns
  have hbound : Sql.columns fromSlices response.bindMetadataBytes = .ok parameters := by
    rw [hanswers.bindMetadata]
    exact columns_listed hslices hparameters
  have hnamed : Sql.statementId response = .ok id := by
    rw [Sql.statementId, hanswers.stmtId, hid]
  rw [Statement.ofReply, hlisted, hbound, hnamed, ← hanswers.bindCount]
  rfl

end Answered

/-! ## Samples -/

def sampleItems (read : Bytes → Option (Value × Bytes)) : Nat → Bytes →
    Option (List Value × Bytes)
  | 0, bytes => some ([], bytes)
  | n + 1, bytes => do
      let (item, bytes) ← read bytes
      let (items, bytes) ← sampleItems read n bytes
      return (item :: items, bytes)

def samplePairs : List Value → List (Value × Value)
  | k :: value :: rest => (k, value) :: samplePairs rest
  | _ => []

def sampleValue : Nat → Bytes → Option (Value × Bytes)
  | depth + 1, marker :: rest =>
      if marker ≤ 0x7f then some (.integer marker.toNat, rest)
      else if marker = 0xc0 then some (.nil, rest)
      else if 0xa0 ≤ marker ∧ marker ≤ 0xbf then
        some (.string (rest.take (marker.toNat - 0xa0)), rest.drop (marker.toNat - 0xa0))
      else if 0x90 ≤ marker ∧ marker ≤ 0x9f then
        (sampleItems (sampleValue depth) (marker.toNat - 0x90) rest).map fun read =>
          (.array read.1, read.2)
      else if 0x80 ≤ marker ∧ marker ≤ 0x8f then
        (sampleItems (sampleValue depth) (2 * (marker.toNat - 0x80)) rest).map fun read =>
          (.map (samplePairs read.1), read.2)
      else none
  | _, _ => none

def sampleSlice {α : Type} (meaning : Value → Option α) : FromSlice α := fun bytes =>
  match sampleValue 4 bytes with
  | some (value, []) => (meaning value).elim (.error "invalid type") .ok
  | _ => .error "invalid length"

def fieldsOf : Value → Option Fields
  | .map entries => entries.mapM fun entry => entry.1.asU64.map (·, entry.2)
  | _ => none

def resultRmp : Rmp :=
  { sampleRmp with
    readValue := fun bytes =>
      match sampleValue 4 bytes with
      | some (value, []) => .ok value
      | _ => .error "unknown marker" }

def columnFields : Fields := [(Sql.fieldName, .string [0x63]), (Sql.fieldType, .string [0x74])]

def reportFields : Fields := [(Sql.infoRowCount, .ofNat 2),
  (Sql.infoAutoincrementIds, .array [.ofNat 3])]

def columnEntry : Written where
  key := Key.metadata
  value := .array [mapValue columnFields]
  keyBytes := [0x32]
  valueBytes := [0x91, 0x82, 0x00, 0xa1, 0x63, 0x01, 0xa1, 0x74]
  keyEncodes := encodes_small (by decide)
  valueEncodes := by
    have hfields := Encodes.scalar (.posFixint (show 0 ≤ 0x7f by decide))
      (.scalar (.fixstr (show [(0x63 : UInt8)].length ≤ 31 by decide))
        (.scalar (.posFixint (show 1 ≤ 0x7f by decide))
          (.scalar (.fixstr (show [(0x74 : UInt8)].length ≤ 31 by decide)) .done)))
    have hmap := @Encodes.map [(.integer 0, .string [0x63]), (.integer 1, .string [0x74])] []
      _ _ _ (.fix (by decide)) hfields .done
    exact Encodes.array (.fix (by decide)) hmap .done

def reportEntry : Written where
  key := Key.sqlInfo
  value := mapValue reportFields
  keyBytes := [0x42]
  valueBytes := [0x82, 0x00, 0x02, 0x01, 0x91, 0x03]
  keyEncodes := encodes_small (by decide)
  valueEncodes := by
    have hids := Encodes.array (.fix (by decide)) (encodes_small (show 3 ≤ 0x7f by decide)) .done
    have hfields := Encodes.scalar (.posFixint (show 0 ≤ 0x7f by decide))
      (.scalar (.posFixint (show 2 ≤ 0x7f by decide))
        (.scalar (.posFixint (show 1 ≤ 0x7f by decide)) hids))
    exact @Encodes.map [(.integer 0, .integer 2), (.integer 1, .array [.integer 3])] []
      _ _ _ (.fix (by decide)) hfields .done

def rowsEntry : Written where
  key := Key.data
  value := .array [.ofNat 5, .ofNat 6]
  keyBytes := [0x30]
  valueBytes := [0x92, 0x05, 0x06]
  keyEncodes := encodes_small (by decide)
  valueEncodes := by
    have hitems := Encodes.scalar (.posFixint (show 5 ≤ 0x7f by decide))
      (encodes_small (show 6 ≤ 0x7f by decide))
    exact Encodes.array (.fix (by decide)) hitems .done

theorem position_small : Key.position ≤ 0x7f := by decide

theorem letter_short : [(0x61 : UInt8)].length ≤ 31 := by decide

theorem stmtId_small : Key.stmtId ≤ 0x7f := by decide

theorem nine_small : 9 ≤ 0x7f := by decide

def positionEntry : Written := textEntry Key.position [0x61] position_small letter_short

def stmtEntry : Written := smallEntry Key.stmtId 9 stmtId_small nine_small

def resultEntries : List Written :=
  [columnEntry, rowsEntry, positionEntry, stmtEntry, reportEntry]

def resultReply : Packet where
  header := dataReply.header
  body := some ⟨[0x85], resultEntries, .fix (by decide)⟩

theorem mem_resultEntries {written : Written} (h : written ∈ resultEntries) :
    written = columnEntry ∨ written = rowsEntry ∨ written = positionEntry ∨
      written = stmtEntry ∨ written = reportEntry := by
  simpa only [resultEntries, List.mem_cons, List.not_mem_nil, or_false] using h

set_option maxRecDepth 4000 in
theorem resultEntries_sample {written : Written} (h : written ∈ resultEntries) :
    sampleValue 4 written.valueBytes = some (written.value, []) := by
  obtain rfl | rfl | rfl | rfl | rfl := mem_resultEntries h <;> rfl

theorem readBy_resultRmp {written : Written} (h : written ∈ resultEntries) :
    written.ReadBy resultRmp 1024 := by
  have hvalue : resultRmp.readValue written.valueBytes = .ok written.value := by
    change (match sampleValue 4 written.valueBytes with
      | some (value, []) => Except.ok value
      | _ => .error "unknown marker") = _
    rw [resultEntries_sample h]
  obtain rfl | rfl | rfl | rfl | rfl := mem_resultEntries h
  · exact ⟨rfl, fun _ hint => (by cases hint), fun _ htext => (by cases htext),
      fun _ => hvalue⟩
  · exact ⟨rfl, fun _ hint => (by cases hint), fun _ htext => (by cases htext),
      fun _ => hvalue⟩
  · exact readBy_string rfl rfl rfl hvalue
  · exact readBy_integer rfl rfl rfl hvalue
  · exact ⟨rfl, fun _ hint => (by cases hint), fun _ htext => (by cases htext),
      fun _ => hvalue⟩

theorem resultReply_distinct : resultReply.Distinct resultRmp 1024 .ok where
  length := by decide
  header :=
    { read := by
        intro written hmem
        simp only [resultReply, dataReply, List.mem_cons, List.not_mem_nil, or_false] at hmem
        obtain rfl | rfl := hmem
        · exact readBy_integer rfl rfl rfl rfl
        · exact readBy_integer rfl rfl rfl rfl
      uint := by
        intro written hmem _
        simp only [resultReply, dataReply, List.mem_cons, List.not_mem_nil, or_false] at hmem
        obtain rfl | rfl := hmem
        · exact ⟨0, rfl⟩
        · exact ⟨7, rfl⟩ }
  body :=
    { read := fun written hmem => readBy_resultRmp hmem
      string := by
        intro written hmem hkey
        obtain rfl | rfl | rfl | rfl | rfl := mem_resultEntries hmem
        · exact absurd hkey (by decide)
        · exact absurd hkey (by decide)
        · exact ⟨_, rfl⟩
        · exact absurd hkey (by decide)
        · exact absurd hkey (by decide)
      uint := by
        intro written hmem hkey
        obtain rfl | rfl | rfl | rfl | rfl := mem_resultEntries hmem
        · exact absurd hkey (by decide)
        · exact absurd hkey (by decide)
        · exact absurd hkey (by decide)
        · exact ⟨_, rfl⟩
        · exact absurd hkey (by decide)
      stack := by
        intro written hmem hkey
        obtain rfl | rfl | rfl | rfl | rfl := mem_resultEntries hmem <;>
          exact absurd hkey (by decide) }
  known := ⟨0, rfl, rfl⟩
  text := by
    intro written hmem hkey
    obtain rfl | rfl | rfl | rfl | rfl := mem_resultEntries hmem
    · exact absurd hkey (by decide)
    · exact absurd hkey (by decide)
    · rfl
    · exact absurd hkey (by decide)
    · exact absurd hkey (by decide)
  headerKeys := by decide
  bodyKeys := by decide
  noError := by decide

theorem sampleSlice_eq {α : Type} (meaning : Value → Option α) {written : Written}
    (h : written ∈ resultReply.entries) :
    sampleSlice meaning written.valueBytes =
      (meaning written.value).elim (.error "invalid type") .ok := by
  rw [sampleSlice, resultEntries_sample h]

theorem sampleSlice_decodes {α : Type} (meaning : Value → Option α) :
    Decodes resultReply (sampleSlice meaning) meaning where
  entry written hmem := by
    rw [sampleSlice_eq meaning hmem]
    cases meaning written.value <;> rfl
  nil := by
    change ((meaning .nil).elim (Except.error "invalid type") .ok).toOption = _
    cases meaning .nil <;> rfl

theorem fieldsOf_mapValue {fields : Fields} (h : Keyed fields) :
    fieldsOf (mapValue fields) = some fields := by
  have hfits : ∀ field ∈ fields, field.1 < 2 ^ 64 := fun field hmem =>
    (h.2 field hmem).trans (by decide)
  rw [mapValue, fieldsOf]
  clear h
  induction fields with
  | nil => rfl
  | cons field fields ih =>
      obtain ⟨hfield, hfits⟩ := List.forall_mem_cons.mp hfits
      have hkey : (Value.integer field.1).asU64 = some field.1 := Value.asU64_ofNat hfield
      rw [List.map_cons, List.mapM_cons, hkey, ih hfits]
      rfl

theorem sampleSlice_readsMap : ReadsMap resultReply (sampleSlice fieldsOf) := by
  intro written hmem fields hkeyed hvalue
  refine ⟨fields, ?_, fun _ => rfl⟩
  rw [sampleSlice_eq fieldsOf hmem, hvalue, fieldsOf_mapValue hkeyed]
  rfl

theorem sampleSlice_readsMaps : ReadsMaps resultReply (sampleSlice (many fieldsOf)) := by
  intro written hmem maps hkeyed hvalue
  refine ⟨maps, ?_, List.forall₂_same.mpr fun _ _ _ => rfl⟩
  have hall : (maps.map mapValue).mapM fieldsOf = some maps := by
    clear hvalue
    induction maps with
    | nil => rfl
    | cons fields maps ih =>
        obtain ⟨hfields, hmaps⟩ := List.forall_mem_cons.mp hkeyed
        rw [List.map_cons, List.mapM_cons, fieldsOf_mapValue hfields, ih hmaps]
        rfl
  rw [sampleSlice_eq (many fieldsOf) hmem, hvalue]
  change ((maps.map mapValue).mapM fieldsOf).elim (Except.error "invalid type") .ok = _
  rw [hall]
  rfl

/-! ## Main results -/

/-- What a method returns is what the server said under the key the method looks at, decoded,
however the reply was laid out: a value, the first of several tuples, or a page of them with
the position that was said.  A method that returns nothing succeeds. -/
theorem reply_reaches_caller {rmp : Rmp} {limit : Nat} {packet : Packet}
    (h : packet.Distinct rmp limit .ok) :
    ∃ response, Response.parse rmp packet.bytes = .ok response ∧ nothing response = .ok () ∧
      ∀ {α : Type} (meaning : Value → Option α),
        (∀ fromSlice, Decodes packet fromSlice meaning →
          (value fromSlice response).toOption = meaning ((said packet Key.data).getD .nil)) ∧
        ∀ fromSlice, Decodes packet fromSlice (many meaning) →
          ∀ tuples, said packet Key.data = some (.array tuples) →
            (first fromSlice response).toOption = (tuples.mapM meaning).map List.head? ∧
            (page fromSlice response).toOption = (tuples.mapM meaning).map fun rows =>
              { rows, position := (said packet Key.position).bind Value.asStr } := by
  obtain ⟨response, hparse, hanswers⟩ := h.parsed
  have hresult := Sql.requestResult_ok hanswers.kind
  refine ⟨response, hparse, ?_, fun {α} meaning => ⟨fun fromSlice hdecodes => ?_, ?_⟩⟩
  · rw [nothing, hresult]
    rfl
  · rw [value_ok fromSlice hanswers.kind]
    exact data_said hanswers hdecodes
  · intro fromSlice hdecodes tuples htuples
    have hdata := data_said hanswers hdecodes
    rw [htuples, Option.getD_some] at hdata
    have hposition : response.position = (said packet Key.position).bind Value.asStr := by
      rw [hanswers.position, said, Option.bind_map]
      rfl
    constructor
    · rw [first, value_ok fromSlice hanswers.kind]
      exact (toOption_map (data fromSlice response) List.head?).trans
        (congrArg (Option.map List.head?) hdata)
    · rw [page, hresult, ← hposition]
      exact (toOption_map (data fromSlice response) _).trans (congrArg (Option.map _) hdata)

theorem reply_reaches_caller_sample :
    ∃ response, Response.parse resultRmp resultReply.bytes = .ok response ∧
      (value (sampleSlice (many Value.asU64)) response).toOption = some [5, 6] ∧
      (first (sampleSlice (many Value.asU64)) response).toOption = some (some 5) ∧
      (page (sampleSlice (many Value.asU64)) response).toOption =
        some { rows := [5, 6], position := some "a" } := by
  obtain ⟨response, hparse, -, hmeaning⟩ := reply_reaches_caller resultReply_distinct
  have hvalue := (hmeaning (many Value.asU64)).1 _ (sampleSlice_decodes _)
  obtain ⟨hfirst, hpage⟩ := (hmeaning Value.asU64).2 _ (sampleSlice_decodes _) _
    (show said resultReply Key.data = some (.array [.ofNat 5, .ofNat 6]) from rfl)
  have hposition : (said resultReply Key.position).bind Value.asStr = some "a" := by
    decide +kernel
  rw [hposition] at hpage
  exact ⟨response, hparse, hvalue, hfirst, hpage⟩

/-- A result set arrives with its columns and rows, a prepared statement with its id, columns
and parameters, and what a statement did as the server reports it, however the server lays
them out; without data there is no result set, and without a report nothing was done. -/
theorem sql_results_arrive {rmp : Rmp} {limit : Nat} {packet : Packet}
    (h : packet.Distinct rmp limit .ok) {fromSlices : FromSlice (List Fields)}
    (hslices : ReadsMaps packet fromSlices) {columns : List Column}
    (hcolumns : Lists (said packet Key.metadata) columns) :
    ∃ response, Response.parse rmp packet.bytes = .ok response ∧
      (∀ {α : Type} (fromSlice : FromSlice (List α)) (meaning : Value → Option α),
        Decodes packet fromSlice (many meaning) →
        (said packet Key.data = none →
          query fromSlices fromSlice response = .error (.decode noResultSet)) ∧
        ∀ tuples, said packet Key.data = some (.array tuples) →
          (query fromSlices fromSlice response).toOption =
            (tuples.mapM meaning).map fun rows => { columns, rows }) ∧
      (∀ sql parameters id, Lists (said packet Key.bindMetadata) parameters →
        uintOf (Written.under Key.stmtId packet.entries) = some id →
        prepare fromSlices sql response =
          .ok { sql, id, columns, parameters
                parameterCount :=
                  (uintOf (Written.under Key.bindCount packet.entries)).getD 0 }) ∧
      ∀ fromSlice : FromSlice Fields, ReadsMap packet fromSlice →
        (said packet Key.sqlInfo = none → execute fromSlice response = .ok {}) ∧
        ∀ fields done, said packet Key.sqlInfo = some (mapValue fields) →
          Reports fields done → execute fromSlice response = .ok done := by
  obtain ⟨response, hparse, hanswers⟩ := h.parsed
  have hdata : response.data.isSome = (said packet Key.data).isSome := by
    rw [parse_data h.toTyped hparse, Written.last_eq_under h.bodyKeys, said, Option.isSome_map]
  refine ⟨response, hparse, ?_, ?_, ?_⟩
  · intro α fromSlice meaning hdecodes
    rw [query_ok fromSlices fromSlice hanswers.kind]
    constructor
    · intro hnone
      rw [hnone] at hdata
      rw [rows, hdata]
      rfl
    · intro tuples htuples
      exact rows_said hanswers hslices hcolumns hdata hdecodes htuples
  · intro sql parameters id hparameters hid
    rw [prepare, Sql.requestResult_ok hanswers.kind]
    exact statement_said hanswers hslices hcolumns hparameters hid sql
  · intro fromSlice hmap
    rw [execute_ok fromSlice hanswers.kind]
    constructor
    · exact exec_unsaid hanswers fromSlice
    · intro fields done hsaid hreports
      exact exec_reported hmap hanswers.sqlInfo hsaid hreports

theorem sql_results_arrive_sample :
    ∃ response, Response.parse resultRmp resultReply.bytes = .ok response ∧
      (query (sampleSlice (many fieldsOf)) (sampleSlice (many Value.asU64)) response).toOption =
        some { columns := [⟨"c", "t", none, none, none, none⟩], rows := [5, 6] } ∧
      prepare (sampleSlice (many fieldsOf)) "select 1" response =
        .ok { sql := "select 1", id := 9, columns := [⟨"c", "t", none, none, none, none⟩],
              parameters := [], parameterCount := 0 } ∧
      execute (sampleSlice fieldsOf) response = .ok { rowCount := 2, autoincrementIds := [3] } := by
  have hname : Value.ofString "c" = .string [0x63] := congrArg Value.string (by decide +kernel)
  have htype : Value.ofString "t" = .string [0x74] := congrArg Value.string (by decide +kernel)
  have hkeyed : Keyed columnFields ∧ Keyed reportFields :=
    ⟨⟨by decide, by decide⟩, by decide, by decide⟩
  have hcolumns : Lists (said resultReply Key.metadata) [⟨"c", "t", none, none, none, none⟩] :=
    @Lists.some [columnFields] _ (.cons ⟨hkeyed.1, congrArg some hname.symm,
      congrArg some htype.symm, rfl, rfl, rfl, rfl⟩ .nil)
  obtain ⟨response, hparse, hquery, hprepare, hexecute⟩ :=
    sql_results_arrive resultReply_distinct sampleSlice_readsMaps hcolumns
  have hrows := (hquery _ Value.asU64 (sampleSlice_decodes _)).2 _
    (show said resultReply Key.data = some (.array [.ofNat 5, .ofNat 6]) from rfl)
  have hprepared := hprepare "select 1" [] 9 .none (by decide)
  have hdone := (hexecute _ sampleSlice_readsMap).2 reportFields ⟨2, [3]⟩ rfl
    ⟨hkeyed.2, by decide, rfl, .inr rfl⟩
  exact ⟨response, hparse, hrows, hprepared, hdone⟩

end Tarant.Returning
