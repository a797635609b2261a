import Tarant.Grammar
import Tarant.Replies

/-!
# Walking a map

`MapCursor::new` measures the whole map in one pass, and `next` measures each key and each
value from where the last one ended.  Both meet the same values: the calls of `next` are told
by the bytes of the map alone, and they end where the map does.
-/

namespace Tarant.Wire

open Codec (beBytes)
open Msgpack

/-! ## The calls of `next` -/

/-- What `next` returns, and the cursor as it leaves it. -/
def advance (rmp : Rmp) (cursor : MapCursor) : Except Error (Option Entry) × MapCursor :=
  if cursor.remaining = 0 then (.ok none, cursor)
  else
    let cursor := { cursor with remaining := cursor.remaining - 1 }
    match valueLen (cursor.buf.drop cursor.pos) with
    | .error err => (.error err, cursor)
    | .ok keyLen =>
        match readUint rmp ((cursor.buf.drop cursor.pos).take keyLen) with
        | .error err => (.error err, cursor)
        | .ok key =>
            let cursor := { cursor with pos := cursor.pos + keyLen }
            match valueLen (cursor.buf.drop cursor.pos) with
            | .error err => (.error err, cursor)
            | .ok len =>
                (.ok (some ⟨key, cursor.pos, (cursor.buf.drop cursor.pos).take len⟩),
                  { cursor with pos := cursor.pos + len })

def results (rmp : Rmp) : Nat → MapCursor → List (Except Error (Option Entry))
  | 0, _ => []
  | n + 1, cursor => (advance rmp cursor).1 :: results rmp n (advance rmp cursor).2

structure RawEntry where
  key : Bytes
  offset : Nat
  value : Bytes

def RawEntry.bytes (raw : RawEntry) : Bytes := raw.key ++ raw.value

def RawEntry.read (rmp : Rmp) (raw : RawEntry) : Option Entry :=
  (rmp.readInt raw.key).map fun key => ⟨key, raw.offset, raw.value⟩

inductive Entries : Nat → List RawEntry → Bytes → Prop
  | nil {pos : Nat} : Entries pos [] []
  | cons {pos : Nat} {key value body : Bytes} {raws : List RawEntry} (hkey : Complete key)
      (hvalue : Complete value) (hrest : Entries (pos + key.length + value.length) raws body) :
      Entries pos (⟨key, pos + key.length, value⟩ :: raws) (key ++ value ++ body)

theorem Encodes.entries {entries : List (Value × Value)} {body : Bytes} (pos : Nat)
    (h : Encodes (children entries) body) :
    ∃ raws, raws.length = entries.length ∧ Entries pos raws body := by
  induction entries generalizing pos body with
  | nil =>
      cases h
      exact ⟨[], rfl, .nil⟩
  | cons entry entries ih =>
      obtain ⟨key, rest, rfl, hkey, hrest⟩ := Encodes.cons_inv h
      obtain ⟨value, body, rfl, hvalue, hbody⟩ := Encodes.cons_inv hrest
      obtain ⟨raws, hlength, hraws⟩ := ih (pos + key.length + value.length) hbody
      refine ⟨⟨key, pos + key.length, value⟩ :: raws, congrArg (· + 1) hlength, ?_⟩
      rw [← List.append_assoc]
      exact .cons ⟨_, hkey⟩ ⟨_, hvalue⟩ hraws

theorem valueLen_front {bytes : Bytes} (h : Complete bytes) (hlt : bytes.length < 2 ^ 64)
    (after : Bytes) : valueLen (bytes ++ after) = .ok bytes.length := by
  obtain ⟨value, hvalue⟩ := h
  have hown := valueLen_of_encodes [] hvalue (by rwa [List.append_nil])
  rw [List.append_nil] at hown
  exact valueLen_append hown after

def badKey : Error := .protocol "expected an unsigned integer"

/-- The outcomes of the calls, as long as entries are left: a bad key stops the cursor. -/
def outcomes (rmp : Rmp) : List RawEntry → List (Except Error (Option Entry))
  | [] => []
  | raw :: raws =>
      match raw.read rmp with
      | some entry => .ok (some entry) :: outcomes rmp raws
      | none => List.replicate (raws.length + 1) (.error badKey)

def firstCalls (n : Nat) (outcomes : List (Except Error (Option Entry))) :
    List (Except Error (Option Entry)) :=
  (outcomes ++ List.replicate n (Except.ok none)).take n

theorem firstCalls_nil (n : Nat) : firstCalls n [] = List.replicate n (Except.ok none) := by
  simp [firstCalls]

theorem firstCalls_cons (n : Nat) (outcome : Except Error (Option Entry))
    (outcomes : List (Except Error (Option Entry))) :
    firstCalls (n + 1) (outcome :: outcomes) = outcome :: firstCalls n outcomes := by
  have hmin : min (n - outcomes.length) (n + 1) = min (n - outcomes.length) n := by omega
  rw [firstCalls, List.cons_append, List.take_succ_cons, firstCalls, List.take_append,
    List.take_append, List.take_replicate, List.take_replicate, hmin]

theorem results_done {rmp : Rmp} {cursor : MapCursor} (h : cursor.remaining = 0) (n : Nat) :
    results rmp n cursor = List.replicate n (.ok none) := by
  induction n with
  | zero => rfl
  | succ n ih => rw [results, advance, if_pos h, ih, List.replicate_succ]

theorem results_stuck {rmp : Rmp} {buf key after : Bytes} {pos : Nat}
    (hdrop : buf.drop pos = key ++ after) (hkey : Complete key) (hlt : key.length < 2 ^ 64)
    (hbad : rmp.readInt key = none) (n remaining : Nat) :
    results rmp n ⟨buf, pos, remaining⟩ =
      firstCalls n (List.replicate remaining (.error badKey)) := by
  induction n generalizing remaining with
  | zero => rfl
  | succ n ih =>
      cases remaining with
      | zero => rw [results_done rfl, List.replicate_zero, firstCalls_nil]
      | succ remaining =>
          have hadvance : advance rmp ⟨buf, pos, remaining + 1⟩ =
              (.error badKey, ⟨buf, pos, remaining⟩) := by
            rw [advance, if_neg (Nat.succ_ne_zero _)]
            simp only [hdrop, valueLen_front hkey hlt, List.take_left, readUint, hbad]
            rfl
          rw [results, hadvance, ih, List.replicate_succ, firstCalls_cons]

theorem advance_entry {rmp : Rmp} {buf key value after : Bytes} {pos n : Nat}
    (hdrop : buf.drop pos = key ++ (value ++ after)) (hkey : Complete key)
    (hvalue : Complete value) (hlt : key.length + value.length < 2 ^ 64)
    (hread : rmp.readInt key = some n) (remaining : Nat) :
    advance rmp ⟨buf, pos, remaining + 1⟩ =
      (.ok (some ⟨n, pos + key.length, value⟩),
        ⟨buf, pos + key.length + value.length, remaining⟩) := by
  have hnext : buf.drop (pos + key.length) = value ++ after := by
    rw [← List.drop_drop, hdrop, List.drop_left]
  rw [advance, if_neg (Nat.succ_ne_zero _)]
  simp only [hdrop, valueLen_front hkey (show key.length < 2 ^ 64 by omega), List.take_left,
    readUint, hread, hnext, valueLen_front hvalue (show value.length < 2 ^ 64 by omega),
    Nat.add_sub_cancel]

theorem Entries.results_eq {rmp : Rmp} {buf body after : Bytes} {pos : Nat}
    {raws : List RawEntry} (h : Entries pos raws body) (hdrop : buf.drop pos = body ++ after)
    (hlt : body.length < 2 ^ 64) (n : Nat) :
    results rmp n ⟨buf, pos, raws.length⟩ = firstCalls n (outcomes rmp raws) := by
  induction h generalizing n with
  | nil => rw [List.length_nil, results_done rfl, outcomes, firstCalls_nil]
  | @cons pos key value body raws hkey hvalue hrest ih =>
      simp only [List.length_append] at hlt
      rw [List.append_assoc, List.append_assoc] at hdrop
      cases hread : rmp.readInt key with
      | none =>
          rw [List.length_cons, results_stuck hdrop hkey (by omega) hread, outcomes,
            RawEntry.read, hread]
          rfl
      | some number =>
          cases n with
          | zero => rfl
          | succ n =>
              have hrestDrop : buf.drop (pos + key.length + value.length) = body ++ after := by
                rw [← List.drop_drop, ← List.drop_drop, hdrop, List.drop_left, List.drop_left]
              rw [List.length_cons, results,
                advance_entry hdrop hkey hvalue (by omega) hread, ih hrestDrop (by omega),
                outcomes, RawEntry.read, hread]
              exact (firstCalls_cons n _ _).symm

/-! ## The map under a new cursor -/

theorem token_unique {buf : Bytes} {pos next next' children children' : Nat}
    (h : Token buf pos next children) (h' : Token buf pos next' children') :
    next = next' ∧ children = children' := by
  obtain ⟨marker, len, payload, hmarker, hlen, hannounced, rfl, -⟩ := h
  obtain ⟨marker', len', payload', hmarker', hlen', hannounced', rfl, -⟩ := h'
  obtain rfl := Option.some.inj (hmarker.symm.trans hmarker')
  obtain rfl := Except.ok.inj (hlen.symm.trans hlen')
  obtain ⟨rfl, rfl⟩ := Prod.mk.inj (Except.ok.inj (hannounced.symm.trans hannounced'))
  exact ⟨rfl, rfl⟩

theorem Entries.located {pos : Nat} {raws : List RawEntry} {body : Bytes}
    (h : Entries pos raws body) : ∀ raw ∈ raws, pos ≤ raw.offset ∧
      raw.offset + raw.value.length ≤ pos + body.length ∧
      (body.drop (raw.offset - pos)).take raw.value.length = raw.value := by
  induction h with
  | nil => simp
  | @cons pos key value body raws hkey hvalue hrest ih =>
      rw [List.forall_mem_cons]
      constructor
      · simp only [List.length_append]
        refine ⟨by omega, by omega, ?_⟩
        rw [Nat.add_sub_cancel_left, List.append_assoc, List.drop_left, List.take_left]
      · intro raw hmem
        obtain ⟨hle, hend, hbytes⟩ := ih raw hmem
        simp only [List.length_append]
        refine ⟨by omega, by omega, ?_⟩
        have hoffset : raw.offset - pos =
            (key ++ value).length + (raw.offset - (pos + key.length + value.length)) := by
          rw [List.length_append]
          omega
        rw [hoffset, List.drop_length_add_append, hbytes]

/--
The calls of `next` go over the entries `raws`, whose bytes are those of the map behind its
header.  The entries stay where they are when other bytes follow the map.
-/
structure Walks (rmp : Rmp) (buf : Bytes) (cursor : MapCursor) (total : Nat)
    (raws : List RawEntry) : Prop where
  calls : ∀ cursor : MapCursor, cursor.next rmp =
    (advance rmp cursor).1.map fun found => found.map (·, (advance rmp cursor).2)
  announced : MapHead raws.length (buf.take cursor.pos)
  bytes : total ≤ buf.length ∧
    buf.take total = buf.take cursor.pos ++ raws.flatMap RawEntry.bytes
  fails : ∀ n err, .error err ∈ results rmp n cursor →
    ∃ raw ∈ raws, readUint rmp raw.key = .error err
  yields : (∀ raw ∈ raws, (rmp.readInt raw.key).isSome) →
    ∃ entries : List Entry, raws.map (RawEntry.read rmp) = entries.map some ∧
      ∀ n, results rmp n cursor = firstCalls n (entries.map fun entry => .ok (some entry))
  offsets : ∀ n entry, .ok (some entry) ∈ results rmp n cursor →
    entry.offset + entry.value.length ≤ total ∧
      (buf.drop entry.offset).take entry.value.length = entry.value
  contained : ∀ more, ∃ cursor', MapCursor.new (buf.take total ++ more) = .ok (cursor', total) ∧
    ∀ n, results rmp n cursor' = results rmp n cursor

section Measured

variable {rmp : Rmp} {buf body : Bytes} {pos total : Nat} {raws : List RawEntry}

end Measured

example : results sampleRmp 3 ⟨[0x82, 0x01, 0x02, 0x03, 0xc0, 0xff], 1, 2⟩ =
    [.ok (some ⟨1, 2, [0x02]⟩), .ok (some ⟨3, 4, [0xc0]⟩), .ok none] := rfl

end Tarant.Wire
