import Tarant.Measure

/-!
# What the parser records of a map

`Response.parse` walks two maps.  A walk over entries that can be read is a fold,
and what a field holds afterwards comes from the last entry under its key.
-/

namespace Tarant

open Iproto
open Msgpack

/-! ## One header entry -/

def Header.recorded (rmp : Rmp) (header : Header) (entry : Entry) : Header where
  requestType :=
    if narrowKey entry.key = Key.requestType then (readUint rmp entry.value).toOption
    else header.requestType
  sync :=
    if narrowKey entry.key = Key.sync then (readUint rmp entry.value).toOption.getD 0
    else header.sync
  schemaVersion :=
    if narrowKey entry.key = Key.schemaVersion then (readUint rmp entry.value).toOption
    else header.schemaVersion

def headerKeys : List Nat := [Key.requestType, Key.sync, Key.schemaVersion]

def Header.Reads (rmp : Rmp) (entry : Entry) : Prop :=
  narrowKey entry.key ∈ headerKeys → ∃ n, readUint rmp entry.value = .ok n

theorem Header.visit_ok (rmp : Rmp) (header header' : Header) (entry : Entry) :
    Header.visit rmp header entry = .ok header' ↔
      Header.Reads rmp entry ∧ header' = header.recorded rmp entry := by
  unfold Header.visit Header.Reads Header.recorded
  generalize narrowKey entry.key = k
  by_cases hk : k ∈ headerKeys
  · simp only [hk, true_implies]
    simp only [headerKeys, List.mem_cons, List.not_mem_nil, or_false] at hk
    obtain rfl | rfl | rfl := hk <;>
      (cases hread : readUint rmp entry.value with
        | error err => exact ⟨nofun, fun ⟨⟨_, hn⟩, _⟩ => nomatch hn⟩
        | ok n => exact ⟨fun h => ⟨⟨n, rfl⟩, (Except.ok.inj h).symm⟩, fun h => h.2 ▸ rfl⟩)
  · simp only [headerKeys, List.mem_cons, List.not_mem_nil, or_false, not_or] at hk
    obtain ⟨htype, hsync, hversion⟩ := hk
    simp only [headerKeys, List.mem_cons, List.not_mem_nil, htype, hsync, hversion, or_self,
      if_false, false_implies, true_and]
    exact ⟨fun h => (Except.ok.inj h).symm, fun h => h ▸ rfl⟩

/-! ## One body entry -/

def Msgpack.Entry.range (entry : Entry) : Nat × Nat :=
  (entry.offset, entry.offset + entry.value.length)

def BodyParts.recorded (rmp : Rmp) (parts : BodyParts) (entry : Entry) : BodyParts :=
  let this := parts.response
  let k := narrowKey entry.key
  { response :=
      { this with
        data := if k = Key.data then some entry.range else this.data
        position :=
          if k = Key.position then (readStr rmp entry.value).toOption else this.position
        eventKey :=
          if k = Key.eventKey then (readStr rmp entry.value).toOption else this.eventKey
        eventData := if k = Key.eventData then some entry.range else this.eventData
        metadata := if k = Key.metadata then some entry.range else this.metadata
        bindMetadata := if k = Key.bindMetadata then some entry.range else this.bindMetadata
        sqlInfo := if k = Key.sqlInfo then some entry.range else this.sqlInfo
        bindCount :=
          if k = Key.bindCount then (readUint rmp entry.value).toOption else this.bindCount
        stmtId := if k = Key.stmtId then (readUint rmp entry.value).toOption else this.stmtId }
    error24 := if k = Key.error24 then (readStr rmp entry.value).toOption else parts.error24
    errorExt := if k = Key.error then some entry.value else parts.errorExt }

def stringKeys : List Nat := [Key.position, Key.error24, Key.eventKey]

def countKeys : List Nat := [Key.bindCount, Key.stmtId]

def rawKeys : List Nat :=
  [Key.data, Key.error, Key.eventData, Key.metadata, Key.bindMetadata, Key.sqlInfo]

structure BodyParts.Reads (rmp : Rmp) (entry : Entry) : Prop where
  text : narrowKey entry.key ∈ stringKeys → ∃ text, readStr rmp entry.value = .ok text
  count : narrowKey entry.key ∈ countKeys → ∃ n, readUint rmp entry.value = .ok n

theorem BodyParts.reads_iff {rmp : Rmp} {entry : Entry} :
    BodyParts.Reads rmp entry ↔
      (narrowKey entry.key ∈ stringKeys → ∃ text, readStr rmp entry.value = .ok text) ∧
        (narrowKey entry.key ∈ countKeys → ∃ n, readUint rmp entry.value = .ok n) :=
  ⟨fun h => ⟨h.text, h.count⟩, fun h => ⟨h.1, h.2⟩⟩

theorem BodyParts.visit_ok (rmp : Rmp) (parts parts' : BodyParts) (entry : Entry) :
    BodyParts.visit rmp parts entry = .ok parts' ↔
      BodyParts.Reads rmp entry ∧ parts' = parts.recorded rmp entry := by
  rw [BodyParts.reads_iff]
  unfold BodyParts.visit BodyParts.recorded
  generalize narrowKey entry.key = k
  simp only
  by_cases htext : k ∈ stringKeys
  · have hcount : k ∉ countKeys := by
      revert k
      decide
    simp only [htext, hcount, true_implies, false_implies, and_true]
    simp only [stringKeys, List.mem_cons, List.not_mem_nil, or_false] at htext
    obtain rfl | rfl | rfl := htext <;>
      (cases hread : readStr rmp entry.value with
        | error err => exact ⟨nofun, fun ⟨⟨_, hn⟩, _⟩ => nomatch hn⟩
        | ok n => exact ⟨fun h => ⟨⟨n, rfl⟩, (Except.ok.inj h).symm⟩, fun h => h.2 ▸ rfl⟩)
  simp only [htext, false_implies, true_and]
  by_cases hcount : k ∈ countKeys
  · simp only [hcount, true_implies]
    simp only [countKeys, List.mem_cons, List.not_mem_nil, or_false] at hcount
    obtain rfl | rfl := hcount <;>
      (cases hread : readUint rmp entry.value with
        | error err => exact ⟨nofun, fun ⟨⟨_, hn⟩, _⟩ => nomatch hn⟩
        | ok n => exact ⟨fun h => ⟨⟨n, rfl⟩, (Except.ok.inj h).symm⟩, fun h => h.2 ▸ rfl⟩)
  simp only [hcount, false_implies, true_and]
  by_cases hraw : k ∈ rawKeys
  · simp only [rawKeys, List.mem_cons, List.not_mem_nil, or_false] at hraw
    obtain rfl | rfl | rfl | rfl | rfl | rfl := hraw <;>
      exact ⟨fun h => (Except.ok.inj h).symm, fun h => h ▸ rfl⟩
  · simp only [stringKeys, countKeys, rawKeys, List.mem_cons, List.not_mem_nil, or_false,
      not_or] at htext hcount hraw
    simp only [htext, hcount, hraw, if_false]
    exact ⟨fun h => (Except.ok.inj h).symm, fun h => h ▸ rfl⟩

/-! ## All entries of a map -/

/-- The entries the cursor still has to visit, read without an error. -/
inductive Msgpack.MapCursor.Walks (rmp : Rmp) : MapCursor → List Entry → Prop where
  | done {cursor : MapCursor} (h : cursor.remaining = 0) : Walks rmp cursor []
  | step {cursor cursor' : MapCursor} {entry : Entry} {entries : List Entry}
      (h : cursor.next rmp = .ok (some (entry, cursor'))) (hrest : Walks rmp cursor' entries) :
      Walks rmp cursor (entry :: entries)

theorem Msgpack.MapCursor.Walks.length {rmp : Rmp} {cursor : MapCursor} {entries : List Entry}
    (h : cursor.Walks rmp entries) : entries.length = cursor.remaining := by
  induction h with
  | done h => exact h.symm
  | step h _ ih =>
      obtain ⟨-, hpos, rfl⟩ := MapCursor.next_some h
      rw [List.length_cons, ih]
      simp only
      omega

theorem Msgpack.MapCursor.Walks.walk {α : Type} {rmp : Rmp} {cursor : MapCursor}
    {entries : List Entry} (h : cursor.Walks rmp entries)
    (visit : α → Entry → Except Error α) {fuel : Nat} (hfuel : entries.length < fuel) (acc : α) :
    MapCursor.walk rmp visit fuel cursor acc = entries.foldlM visit acc := by
  induction h generalizing fuel acc with
  | done h =>
      obtain ⟨fuel, rfl⟩ := Nat.exists_eq_succ_of_ne_zero hfuel.ne_bot
      rw [MapCursor.walk, MapCursor.next, if_pos h]
      rfl
  | step h _ ih =>
      obtain ⟨fuel, rfl⟩ := Nat.exists_eq_succ_of_ne_zero hfuel.ne_bot
      rw [MapCursor.walk, h, List.foldlM_cons]
      change (visit acc _ >>= _) = _
      exact bind_congr fun acc' => ih (by simpa using hfuel) acc'

theorem Msgpack.MapCursor.Walks.forEach {α : Type} {rmp : Rmp} {cursor : MapCursor}
    {entries : List Entry} (h : cursor.Walks rmp entries) (acc : α)
    (visit : α → Entry → Except Error α) :
    cursor.forEach rmp acc visit = entries.foldlM visit acc :=
  h.walk visit (by rw [h.length]; omega) acc

section Fold

variable {α : Type} {visit : α → Entry → Except Error α} {Reads : Entry → Prop}
  {r : α → Entry → α}

theorem foldlM_ok
    (hvisit : ∀ acc acc' entry, visit acc entry = .ok acc' ↔
      Reads entry ∧ acc' = r acc entry)
    {entries : List Entry} {acc result : α} :
    entries.foldlM visit acc = .ok result ↔
      (∀ entry ∈ entries, Reads entry) ∧ result = entries.foldl r acc := by
  induction entries generalizing acc with
  | nil =>
      simp only [List.foldlM_nil, List.not_mem_nil, false_implies, implies_true, true_and,
        List.foldl_nil]
      exact ⟨fun h => (Except.ok.inj h).symm, fun h => h ▸ rfl⟩
  | cons entry entries ih =>
      rw [List.foldlM_cons, bind_ok, List.forall_mem_cons, List.foldl_cons]
      constructor
      · rintro ⟨acc', hhead, htail⟩
        obtain ⟨hreads, rfl⟩ := (hvisit _ _ _).mp hhead
        obtain ⟨hrest, rfl⟩ := ih.mp htail
        exact ⟨⟨hreads, hrest⟩, rfl⟩
      · rintro ⟨⟨hreads, hrest⟩, rfl⟩
        exact ⟨_, (hvisit _ _ _).mpr ⟨hreads, rfl⟩, ih.mpr ⟨hrest, rfl⟩⟩

def lastUnder (key : Nat) (entries : List Entry) : Option Entry :=
  (entries.filter fun entry => narrowKey entry.key = key).getLast?

theorem foldl_lastUnder {β : Type} {f : α → β} {g : Entry → β} {key : Nat}
    (hf : ∀ acc entry, f (r acc entry) =
      if narrowKey entry.key = key then g entry else f acc)
    (entries : List Entry) (acc : α) :
    f (entries.foldl r acc) = ((lastUnder key entries).map g).getD (f acc) := by
  induction entries using List.reverseRecOn with
  | nil => rfl
  | append_singleton entries entry ih =>
      rw [List.foldl_append, List.foldl_cons, List.foldl_nil, hf, lastUnder,
        List.filter_append]
      by_cases hkey : narrowKey entry.key = key
      · simp [hkey]
      · simpa [hkey, lastUnder] using ih

end Fold

end Tarant
