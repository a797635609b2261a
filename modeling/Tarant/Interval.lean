import Tarant.Machine
import Tarant.Foundation.LastMatch
import Tarant.Decimal.Payload

/-!
# Intervals

Tarantool's `interval` field type: eight units, each an `i64`, and the rule for days past
the end of a month.  A payload is a count and as many pairs of a field id and a value;
units that are zero and the rule `excess` are left out.  The integers are read and
written by `rmp`.
-/

namespace Tarant

open Foundation

/-! ## The type -/

/-- How month arithmetic treats a day that the target month does not have. -/
inductive Adjust where
  | limit
  | excess
  | snap
  deriving DecidableEq, Repr

namespace Adjust

def code : Adjust → Int
  | excess => 0
  | limit => 1
  | snap => 2

theorem inI64_code (adjust : Adjust) : InI64 adjust.code := by
  cases adjust <;> decide

def fromCode (code : Int) : Option Adjust :=
  if code = 0 then some excess
  else if code = 1 then some limit
  else if code = 2 then some snap
  else none

end Adjust

structure IntervalError where
  reason : String
  deriving DecidableEq, Repr

@[ext] structure Interval where
  years : I64
  months : I64
  weeks : I64
  days : I64
  hours : I64
  minutes : I64
  seconds : I64
  nanoseconds : I64
  adjust : Adjust
  deriving DecidableEq

/-- What the interval code uses of `rmp`: its writers, and `read_int` with the bytes it leaves. -/
structure Ints where
  writeUint : Nat → Bytes
  writeSint : Int → Bytes
  readInt : Bytes → Option (Int × Bytes)

namespace Ints

def readU64 (rmp : Ints) (bytes : Bytes) : Option (Nat × Bytes) :=
  match rmp.readInt bytes with
  | some (n, rest) => if 0 ≤ n ∧ n < 2 ^ 64 then some (n.toNat, rest) else none
  | none => none

def readI64 (rmp : Ints) (bytes : Bytes) : Option (I64 × Bytes) :=
  match rmp.readInt bytes with
  | some (n, rest) => if h : InI64 n then some (⟨n, h⟩, rest) else none
  | none => none

/-- Reading undoes writing, whatever follows, and takes at least one byte. -/
structure Lawful (rmp : Ints) : Prop where
  uint : ∀ n < 2 ^ 64, ∀ rest, rmp.readInt (rmp.writeUint n ++ rest) = some ((n : Int), rest)
  sint : ∀ n, InI64 n → ∀ rest, rmp.readInt (rmp.writeSint n ++ rest) = some (n, rest)
  consumes : ∀ bytes n rest, rmp.readInt bytes = some (n, rest) → rest.length < bytes.length

end Ints

namespace Interval

/-! ## The functions -/

def FieldId.year : Nat := 0
def FieldId.month : Nat := 1
def FieldId.week : Nat := 2
def FieldId.day : Nat := 3
def FieldId.hour : Nat := 4
def FieldId.minute : Nat := 5
def FieldId.second : Nat := 6
def FieldId.nanosecond : Nat := 7
def FieldId.adjust : Nat := 8

def zero : Interval :=
  let zero : I64 := ⟨0, inI64_zero⟩
  ⟨zero, zero, zero, zero, zero, zero, zero, zero, .limit⟩

def withAdjust (i : Interval) (adjust : Adjust) : Interval := { i with adjust := adjust }

def fields (i : Interval) : List (Nat × I64 × String) :=
  [(FieldId.year, i.years, "years"), (FieldId.month, i.months, "months"),
    (FieldId.week, i.weeks, "weeks"), (FieldId.day, i.days, "days"),
    (FieldId.hour, i.hours, "hours"), (FieldId.minute, i.minutes, "minutes"),
    (FieldId.second, i.seconds, "seconds"),
    (FieldId.nanosecond, i.nanoseconds, "nanoseconds")]

def presentFields (i : Interval) : List (Nat × I64 × String) :=
  i.fields.filter fun field => field.2.1.val ≠ 0

def toPayload (rmp : Ints) (i : Interval) : Bytes :=
  let present := i.presentFields.length + if i.adjust ≠ .excess then 1 else 0
  rmp.writeUint present ++
    (i.presentFields.flatMap (fun field => rmp.writeUint field.1 ++ rmp.writeSint field.2.1) ++
      if i.adjust ≠ .excess then
        rmp.writeUint FieldId.adjust ++ rmp.writeSint i.adjust.code else [])

def setField (i : Interval) (id : Nat) (value : I64) : Except IntervalError Interval :=
  if id = FieldId.year then .ok { i with years := value }
  else if id = FieldId.month then .ok { i with months := value }
  else if id = FieldId.week then .ok { i with weeks := value }
  else if id = FieldId.day then .ok { i with days := value }
  else if id = FieldId.hour then .ok { i with hours := value }
  else if id = FieldId.minute then .ok { i with minutes := value }
  else if id = FieldId.second then .ok { i with seconds := value }
  else if id = FieldId.nanosecond then .ok { i with nanoseconds := value }
  else if id = FieldId.adjust then
    match Adjust.fromCode value with
    | some adjust => .ok { i with adjust := adjust }
    | none => .error ⟨"unknown adjust"⟩
  else .error ⟨"unknown field id"⟩

def decodeField (rmp : Ints) (cursor : Bytes) (i : Interval) :
    Except IntervalError (Bytes × Interval) :=
  match rmp.readU64 cursor with
  | none => .error ⟨"bad field id"⟩
  | some (id, cursor) =>
      match rmp.readI64 cursor with
      | none => .error ⟨"bad field value"⟩
      | some (value, cursor) => do
          let i ← i.setField id value
          return (cursor, i)

def decodeFields (rmp : Ints) : Nat → Bytes → Interval → Except IntervalError (Bytes × Interval)
  | 0, cursor, i => .ok (cursor, i)
  | count + 1, cursor, i => do
      let (cursor, i) ← decodeField rmp cursor i
      decodeFields rmp count cursor i

def fromPayload (rmp : Ints) (payload : Bytes) : Except IntervalError Interval :=
  match rmp.readU64 payload with
  | none => .error ⟨"payload does not start with a field count"⟩
  | some (count, cursor) => do
      let (cursor, i) ← decodeFields rmp count cursor (zero.withAdjust .excess)
      if cursor ≠ [] then .error ⟨"trailing bytes"⟩ else return i

/-- The iterations begun before the loop is done or returns an error. -/
def iterations (rmp : Ints) : Nat → Bytes → Interval → Nat
  | 0, _, _ => 0
  | count + 1, cursor, i =>
      match decodeField rmp cursor i with
      | .ok (cursor, i) => iterations rmp count cursor i + 1
      | .error _ => 1

/-! ## Pairs -/

def pairs (i : Interval) : List (Nat × I64) :=
  i.presentFields.map (fun field => (field.1, field.2.1)) ++
    if i.adjust ≠ .excess then [(FieldId.adjust, ⟨i.adjust.code, i.adjust.inI64_code⟩)] else []

def writePair (rmp : Ints) (pair : Nat × I64) : Bytes :=
  rmp.writeUint pair.1 ++ rmp.writeSint pair.2

inductive ReadsPairs (rmp : Ints) : Bytes → List (Nat × I64) → Bytes → Prop
  | nil (cursor : Bytes) : ReadsPairs rmp cursor [] cursor
  | cons {cursor middle next rest : Bytes} {id : Nat} {value : I64} {pairs : List (Nat × I64)}
      (hid : rmp.readU64 cursor = some (id, middle))
      (hvalue : rmp.readI64 middle = some (value, next)) (htail : ReadsPairs rmp next pairs rest) :
      ReadsPairs rmp cursor ((id, value) :: pairs) rest

def Known (pair : Nat × I64) : Prop :=
  pair.1 ≤ 8 ∧ (pair.1 = 8 → 0 ≤ pair.2.val ∧ pair.2.val ≤ 2)

def lastValue (pairs : List (Nat × I64)) (id : Nat) : Option I64 :=
  (lastMatch (·.1 == id) pairs).map (·.2)

def ofPairs (pairs : List (Nat × I64)) : Interval where
  years := (lastValue pairs FieldId.year).getD ⟨0, inI64_zero⟩
  months := (lastValue pairs FieldId.month).getD ⟨0, inI64_zero⟩
  weeks := (lastValue pairs FieldId.week).getD ⟨0, inI64_zero⟩
  days := (lastValue pairs FieldId.day).getD ⟨0, inI64_zero⟩
  hours := (lastValue pairs FieldId.hour).getD ⟨0, inI64_zero⟩
  minutes := (lastValue pairs FieldId.minute).getD ⟨0, inI64_zero⟩
  seconds := (lastValue pairs FieldId.second).getD ⟨0, inI64_zero⟩
  nanoseconds := (lastValue pairs FieldId.nanosecond).getD ⟨0, inI64_zero⟩
  adjust := ((lastValue pairs FieldId.adjust).bind fun value => Adjust.fromCode value).getD .excess

/-! ## One field -/

def put (i : Interval) (pair : Nat × I64) : Interval where
  years := if pair.1 == FieldId.year then pair.2 else i.years
  months := if pair.1 == FieldId.month then pair.2 else i.months
  weeks := if pair.1 == FieldId.week then pair.2 else i.weeks
  days := if pair.1 == FieldId.day then pair.2 else i.days
  hours := if pair.1 == FieldId.hour then pair.2 else i.hours
  minutes := if pair.1 == FieldId.minute then pair.2 else i.minutes
  seconds := if pair.1 == FieldId.second then pair.2 else i.seconds
  nanoseconds := if pair.1 == FieldId.nanosecond then pair.2 else i.nanoseconds
  adjust := if pair.1 == FieldId.adjust then (Adjust.fromCode pair.2).getD .excess else i.adjust

theorem fromCode_eq_some {code : Int} :
    (∃ adjust, Adjust.fromCode code = some adjust) ↔ 0 ≤ code ∧ code ≤ 2 := by
  unfold Adjust.fromCode
  split
  · simp [*]
  · split
    · simp [*]
    · split
      · simp [*]
      · simp
        omega

theorem fromCode_code (adjust : Adjust) : Adjust.fromCode adjust.code = some adjust := by
  cases adjust <;> rfl

theorem setField_adjust (i : Interval) (value : I64) :
    setField i FieldId.adjust value = match Adjust.fromCode value with
      | some adjust => .ok { i with adjust := adjust }
      | none => .error ⟨"unknown adjust"⟩ := rfl

theorem setField_known {i : Interval} (pair : Nat × I64) (h : Known pair) :
    setField i pair.1 pair.2 = .ok (i.put pair) := by
  obtain ⟨id, value⟩ := pair
  obtain ⟨hid, hrange⟩ := h
  obtain hunit | rfl : id ≤ 7 ∨ id = FieldId.adjust := by
    unfold FieldId.adjust
    dsimp only at hid
    omega
  · interval_cases id <;> rfl
  · obtain ⟨adjust, hadjust⟩ := fromCode_eq_some.mpr (hrange rfl)
    dsimp only
    rw [setField_adjust, hadjust]
    simp [put, hadjust, FieldId.year, FieldId.month, FieldId.week, FieldId.day, FieldId.hour,
      FieldId.minute, FieldId.second, FieldId.nanosecond, FieldId.adjust]

theorem setField_unknown {i : Interval} {id : Nat} {value : I64} (h : ¬ Known (id, value)) :
    ∃ error, setField i id value = .error error := by
  by_cases hadjust : id = FieldId.adjust
  · subst hadjust
    have hnone : Adjust.fromCode value = none := by
      refine Option.eq_none_iff_forall_ne_some.mpr fun adjust hadjust => h ?_
      exact ⟨Nat.le_refl _, fun _ => fromCode_eq_some.mp ⟨adjust, hadjust⟩⟩
    rw [setField_adjust, hnone]
    exact ⟨_, rfl⟩
  · have hid : ¬ id ≤ 8 := by
      intro hle
      exact h ⟨hle, fun heq => absurd heq hadjust⟩
    unfold setField FieldId.year FieldId.month FieldId.week FieldId.day FieldId.hour
      FieldId.minute FieldId.second FieldId.nanosecond
    rw [if_neg (by omega), if_neg (by omega), if_neg (by omega), if_neg (by omega),
      if_neg (by omega), if_neg (by omega), if_neg (by omega), if_neg (by omega), if_neg hadjust]
    exact ⟨_, rfl⟩

/-! ## The loop -/

theorem decodeField_ok_iff {rmp : Ints} {cursor next : Bytes} {i result : Interval} :
    decodeField rmp cursor i = .ok (next, result) ↔ ∃ id value middle,
      rmp.readU64 cursor = some (id, middle) ∧ rmp.readI64 middle = some (value, next) ∧
        Known (id, value) ∧ result = i.put (id, value) := by
  constructor
  · intro h
    unfold decodeField at h
    cases hid : rmp.readU64 cursor with
    | none => simp [hid] at h
    | some read =>
        obtain ⟨id, middle⟩ := read
        cases hvalue : rmp.readI64 middle with
        | none => simp [hid, hvalue] at h
        | some read =>
            obtain ⟨value, rest⟩ := read
            simp only [hid, hvalue] at h
            by_cases hknown : Known (id, value)
            · rw [setField_known (id, value) hknown] at h
              obtain ⟨rfl, rfl⟩ := Prod.mk.inj (Except.ok.inj h)
              exact ⟨id, value, middle, rfl, hvalue, hknown, rfl⟩
            · obtain ⟨error, herror⟩ := setField_unknown (i := i) hknown
              rw [herror] at h
              cases h
  · rintro ⟨id, value, middle, hid, hvalue, hknown, rfl⟩
    simp only [decodeField, hid, hvalue, setField_known (id, value) hknown]
    rfl

theorem decodeFields_ok_iff {rmp : Ints} {count : Nat} {cursor rest : Bytes}
    {i result : Interval} :
    decodeFields rmp count cursor i = .ok (rest, result) ↔
      ∃ pairs, ReadsPairs rmp cursor pairs rest ∧ pairs.length = count ∧
        (∀ pair ∈ pairs, Known pair) ∧ result = pairs.foldl put i := by
  induction count generalizing cursor i with
  | zero =>
      constructor
      · intro h
        obtain ⟨rfl, rfl⟩ := Prod.mk.inj (Except.ok.inj h)
        exact ⟨[], .nil _, rfl, by simp, rfl⟩
      · rintro ⟨pairs, hreads, hlength, -, rfl⟩
        obtain rfl := List.length_eq_zero_iff.mp hlength
        cases hreads
        rfl
  | succ count ih =>
      constructor
      · intro h
        unfold decodeFields at h
        cases hfield : decodeField rmp cursor i with
        | error error =>
            rw [hfield] at h
            cases h
        | ok read =>
            obtain ⟨next, middle⟩ := read
            rw [hfield] at h
            obtain ⟨id, value, after, hid, hvalue, hknown, rfl⟩ := decodeField_ok_iff.mp hfield
            obtain ⟨pairs, hreads, hlength, hall, rfl⟩ := ih.mp h
            exact ⟨(id, value) :: pairs, .cons hid hvalue hreads, by simp [hlength],
              List.forall_mem_cons.mpr ⟨hknown, hall⟩, rfl⟩
      · rintro ⟨pairs, hreads, hlength, hall, rfl⟩
        cases hreads with
        | nil => simp at hlength
        | @cons cursor middle next rest id value pairs hid hvalue htail =>
            obtain ⟨hknown, hall⟩ := List.forall_mem_cons.mp hall
            have hfield := (decodeField_ok_iff (i := i)).mpr
              ⟨id, value, middle, hid, hvalue, hknown, rfl⟩
            unfold decodeFields
            rw [hfield]
            exact ih.mpr ⟨pairs, htail, by simpa using hlength, hall, rfl⟩

theorem foldl_put (pairs : List (Nat × I64)) :
    pairs.foldl put (zero.withAdjust .excess) = ofPairs pairs := by
  have hunit (unit : Interval → I64) (id : Nat)
      (hzero : unit (zero.withAdjust .excess) = ⟨0, inI64_zero⟩)
      (hput : ∀ i pair, unit (put i pair) = if pair.1 == id then pair.2 else unit i) :
      unit (pairs.foldl put (zero.withAdjust .excess)) =
        (lastValue pairs id).getD ⟨0, inI64_zero⟩ := by
    rw [foldl_lastMatch hput, hzero]
    rfl
  have hadjust : (pairs.foldl put (zero.withAdjust .excess)).adjust =
      ((lastValue pairs FieldId.adjust).bind fun value => Adjust.fromCode value).getD .excess := by
    rw [foldl_lastMatch (f := adjust) (p := (·.1 == FieldId.adjust))
      (g := fun pair => (Adjust.fromCode pair.2).getD .excess) (fun _ _ => rfl), lastValue]
    cases lastMatch (·.1 == FieldId.adjust) pairs <;> rfl
  exact Interval.ext (hunit _ FieldId.year rfl fun _ _ => rfl)
    (hunit _ FieldId.month rfl fun _ _ => rfl) (hunit _ FieldId.week rfl fun _ _ => rfl)
    (hunit _ FieldId.day rfl fun _ _ => rfl) (hunit _ FieldId.hour rfl fun _ _ => rfl)
    (hunit _ FieldId.minute rfl fun _ _ => rfl) (hunit _ FieldId.second rfl fun _ _ => rfl)
    (hunit _ FieldId.nanosecond rfl fun _ _ => rfl) hadjust

theorem fromPayload_ok_iff {rmp : Ints} {payload : Bytes} {i : Interval} :
    fromPayload rmp payload = .ok i ↔ ∃ pairs cursor,
      rmp.readU64 payload = some (pairs.length, cursor) ∧ ReadsPairs rmp cursor pairs [] ∧
        (∀ pair ∈ pairs, Known pair) ∧ i = ofPairs pairs := by
  constructor
  · intro h
    unfold fromPayload at h
    cases hcount : rmp.readU64 payload with
    | none => simp [hcount] at h
    | some read =>
        obtain ⟨count, cursor⟩ := read
        simp only [hcount] at h
        cases hfields : decodeFields rmp count cursor (zero.withAdjust .excess) with
        | error error =>
            rw [hfields] at h
            cases h
        | ok read =>
            obtain ⟨rest, result⟩ := read
            rw [hfields] at h
            obtain ⟨pairs, hreads, rfl, hall, rfl⟩ := decodeFields_ok_iff.mp hfields
            change (if rest ≠ [] then _ else _) = Except.ok i at h
            split at h
            next => cases h
            next hrest =>
                obtain rfl := not_not.mp hrest
                exact ⟨pairs, cursor, rfl, hreads, hall,
                  (Except.ok.inj h).symm.trans (foldl_put pairs)⟩
  · rintro ⟨pairs, cursor, hcount, hreads, hall, rfl⟩
    have hfields : decodeFields rmp pairs.length cursor (zero.withAdjust .excess) =
        .ok ([], ofPairs pairs) :=
      decodeFields_ok_iff.mpr ⟨pairs, hreads, rfl, hall, (foldl_put pairs).symm⟩
    simp only [fromPayload, hcount, hfields]
    rfl

/-! ## The length of the loop -/

theorem length_readU64 {rmp : Ints} (hrmp : rmp.Lawful) {bytes rest : Bytes} {n : Nat}
    (h : rmp.readU64 bytes = some (n, rest)) : rest.length < bytes.length := by
  unfold Ints.readU64 at h
  split at h
  next n rest' hread =>
      split at h
      next =>
          obtain ⟨-, rfl⟩ := Prod.mk.inj (Option.some.inj h)
          exact hrmp.consumes _ _ _ hread
      next => cases h
  next => cases h

theorem length_readI64 {rmp : Ints} (hrmp : rmp.Lawful) {bytes rest : Bytes} {n : I64}
    (h : rmp.readI64 bytes = some (n, rest)) : rest.length < bytes.length := by
  unfold Ints.readI64 at h
  split at h
  next n rest' hread =>
      split at h
      next =>
          obtain ⟨-, rfl⟩ := Prod.mk.inj (Option.some.inj h)
          exact hrmp.consumes _ _ _ hread
      next => cases h
  next => cases h

theorem iterations_le {rmp : Ints} (hrmp : rmp.Lawful) (count : Nat) (cursor : Bytes)
    (i : Interval) : iterations rmp count cursor i ≤ cursor.length / 2 + 1 := by
  induction count generalizing cursor i with
  | zero => exact Nat.zero_le _
  | succ count ih =>
      unfold iterations
      split
      next next i' hfield =>
          obtain ⟨id, value, middle, hid, hvalue, -⟩ := decodeField_ok_iff.mp hfield
          have hfirst := length_readU64 hrmp hid
          have hsecond := length_readI64 hrmp hvalue
          have htail := ih next i'
          omega
      next => exact Nat.le_add_left 1 _

/-! ## The round trip -/

theorem readU64_writeUint {rmp : Ints} (hrmp : rmp.Lawful) {n : Nat} (h : n < 2 ^ 64)
    (rest : Bytes) : rmp.readU64 (rmp.writeUint n ++ rest) = some (n, rest) := by
  rw [Ints.readU64, hrmp.uint n h rest]
  dsimp only
  rw [if_pos (by omega), Int.toNat_natCast]

theorem readI64_writeSint {rmp : Ints} (hrmp : rmp.Lawful) (n : I64) (rest : Bytes) :
    rmp.readI64 (rmp.writeSint n ++ rest) = some (n, rest) := by
  rw [Ints.readI64, hrmp.sint n n.property rest]
  exact dif_pos n.property

theorem readsPairs_write {rmp : Ints} (hrmp : rmp.Lawful) {pairs : List (Nat × I64)}
    (h : ∀ pair ∈ pairs, Known pair) (rest : Bytes) :
    ReadsPairs rmp (pairs.flatMap (writePair rmp) ++ rest) pairs rest := by
  induction pairs with
  | nil => exact .nil rest
  | cons pair pairs ih =>
      obtain ⟨hknown, hall⟩ := List.forall_mem_cons.mp h
      have hid : pair.1 < 2 ^ 64 := hknown.1.trans_lt (by decide)
      refine .cons ?_ (readI64_writeSint hrmp pair.2 _) (ih hall)
      rw [List.flatMap_cons, writePair, List.append_assoc, List.append_assoc]
      exact readU64_writeUint hrmp hid _

theorem toPayload_eq (rmp : Ints) (i : Interval) :
    toPayload rmp i = rmp.writeUint i.pairs.length ++ i.pairs.flatMap (writePair rmp) := by
  unfold toPayload pairs
  split
  next => simp [List.flatMap_map, writePair]
  next => simp [List.flatMap_map, writePair]

theorem known_pairs (i : Interval) : ∀ pair ∈ i.pairs, Known pair := by
  intro pair hmem
  obtain hunit | hadjust := List.mem_append.mp hmem
  · obtain ⟨field, hfield, rfl⟩ := List.mem_map.mp hunit
    have hid : ∀ field ∈ i.fields, field.1 < 8 := by
      simp [fields, FieldId.year, FieldId.month, FieldId.week, FieldId.day, FieldId.hour,
        FieldId.minute, FieldId.second, FieldId.nanosecond]
    have hlt := hid field (List.mem_filter.mp hfield).1
    exact ⟨hlt.le, fun heq => absurd heq hlt.ne⟩
  · split at hadjust
    next =>
        obtain rfl := List.mem_singleton.mp hadjust
        exact ⟨Nat.le_refl _, fun _ => fromCode_eq_some.mp ⟨_, fromCode_code _⟩⟩
    next => cases hadjust

theorem pairs_length (i : Interval) : i.pairs.length ≤ 9 := by
  have hunits : i.presentFields.length ≤ 8 := List.length_filter_le _ _
  have hadjust : (if i.adjust ≠ .excess then
      [(FieldId.adjust, (⟨i.adjust.code, i.adjust.inI64_code⟩ : I64))] else []).length ≤ 1 := by
    split <;> simp
  rw [pairs, List.length_append, List.length_map]
  omega

theorem lastValue_unit {i : Interval} {id : Nat} {value : I64} {name : String}
    (hid : id ≠ FieldId.adjust) (hfield : i.fields.filter (·.1 == id) = [(id, value, name)]) :
    (lastValue i.pairs id).getD ⟨0, inI64_zero⟩ = value := by
  have hunits : i.presentFields.filter (·.1 == id) =
      if value.val ≠ 0 then [(id, value, name)] else [] := by
    rw [presentFields, List.filter_comm, hfield]
    split <;> simp_all
  have hadjust : (if i.adjust ≠ .excess then
      [(FieldId.adjust, (⟨i.adjust.code, i.adjust.inI64_code⟩ : I64))]
      else []).filter (·.1 == id) = [] := by
    split <;> simp [hid.symm]
  have hmap : (fun pair : Nat × I64 => pair.1 == id) ∘ (fun field : Nat × I64 × String =>
      (field.1, field.2.1)) = fun field => field.1 == id := rfl
  rw [lastValue, lastMatch, pairs, List.filter_append, hadjust, List.append_nil, List.filter_map,
    hmap, hunits]
  split
  next => rfl
  next hzero =>
      rw [not_not] at hzero
      exact Subtype.ext hzero.symm

theorem lastValue_adjust (i : Interval) :
    ((lastValue i.pairs FieldId.adjust).bind fun value => Adjust.fromCode value).getD .excess =
      i.adjust := by
  have hunits : i.presentFields.filter (·.1 == FieldId.adjust) = [] := by
    rw [presentFields, List.filter_comm]
    rfl
  have hmap : (fun pair : Nat × I64 => pair.1 == FieldId.adjust) ∘
      (fun field : Nat × I64 × String => (field.1, field.2.1)) =
        fun field => field.1 == FieldId.adjust := rfl
  rw [lastValue, lastMatch, pairs, List.filter_append, List.filter_map, hmap, hunits]
  split
  next => exact congrArg (·.getD .excess) (fromCode_code i.adjust)
  next hexcess =>
      rw [not_not] at hexcess
      exact hexcess.symm

theorem ofPairs_pairs (i : Interval) : ofPairs i.pairs = i :=
  Interval.ext (lastValue_unit (by decide) rfl) (lastValue_unit (by decide) rfl)
    (lastValue_unit (by decide) rfl) (lastValue_unit (by decide) rfl)
    (lastValue_unit (by decide) rfl) (lastValue_unit (by decide) rfl)
    (lastValue_unit (by decide) rfl) (lastValue_unit (by decide) rfl) (lastValue_adjust i)

/--
Intervals round-trip, and the count is that of the pairs written.  Accepted is a count
and exactly as many pairs of a known field and a value, in any order and with
repetitions: each field has the last value given for it.  Whatever count is announced,
the loop ends within the pairs that the payload has room for.
-/
theorem intervals_round_trip {rmp : Ints} (hrmp : rmp.Lawful) :
    (∀ i : Interval, toPayload rmp i =
        rmp.writeUint i.pairs.length ++ i.pairs.flatMap (writePair rmp) ∧ i.pairs.length ≤ 9 ∧
      fromPayload rmp (toPayload rmp i) = .ok i) ∧
    (∀ payload count cursor, rmp.readU64 payload = some (count, cursor) →
      iterations rmp count cursor (zero.withAdjust .excess) ≤ payload.length / 2 + 1) ∧
    ∀ payload i, fromPayload rmp payload = .ok i ↔ ∃ pairs cursor,
      rmp.readU64 payload = some (pairs.length, cursor) ∧ ReadsPairs rmp cursor pairs [] ∧
        (∀ pair ∈ pairs, Known pair) ∧ i = ofPairs pairs := by
  refine ⟨fun i => ⟨toPayload_eq rmp i, pairs_length i, ?_⟩, fun payload count cursor hcount => ?_,
    fun payload i => fromPayload_ok_iff⟩
  · have hlength : i.pairs.length < 2 ^ 64 := (pairs_length i).trans_lt (by decide)
    have hreads := readsPairs_write hrmp (known_pairs i) []
    rw [List.append_nil] at hreads
    refine fromPayload_ok_iff.mpr ⟨i.pairs, _, ?_, hreads, known_pairs i, (ofPairs_pairs i).symm⟩
    rw [toPayload_eq]
    exact readU64_writeUint hrmp hlength _
  · have hshorter := length_readU64 hrmp hcount
    have hle := iterations_le hrmp count cursor (zero.withAdjust .excess)
    omega

def sampleInts : Ints where
  writeUint n := if n < 0x80 then [UInt8.ofNat n] else 0xcf :: Codec.beBytes 8 n
  writeSint := Decimal.sampleSint.writeSint
  readInt
    | [] => none
    | marker :: rest =>
        if marker = 0xcf then
          if 8 ≤ rest.length then some (Codec.fromBeBytes (rest.take 8), rest.drop 8) else none
        else Decimal.sampleSint.readInt (marker :: rest)

theorem sampleInts_other {bytes : Bytes} (h : bytes.head? ≠ some 0xcf) :
    sampleInts.readInt bytes = Decimal.sampleSint.readInt bytes := by
  cases bytes with
  | nil => rfl
  | cons marker rest => exact if_neg fun heq => h (congrArg some heq)

theorem small_marker {n : Nat} (h : n < 0x80) : UInt8.ofNat n ≠ 0xcf := by
  intro heq
  have hvalue := congrArg UInt8.toNat heq
  rw [UInt8.toNat_ofNat_of_lt' (h.trans (by decide))] at hvalue
  simp at hvalue
  omega

theorem sampleInts_lawful : sampleInts.Lawful where
  uint n hn rest := by
    by_cases hsmall : n < 0x80
    · have hwrite : sampleInts.writeUint n = Decimal.sampleSint.writeSint n := by
        simp [sampleInts, Decimal.sampleSint, hsmall]
      have hhead : (sampleInts.writeUint n ++ rest).head? ≠ some 0xcf := by
        simpa [sampleInts, hsmall] using small_marker hsmall
      rw [sampleInts_other hhead, hwrite]
      exact Decimal.sampleSint_inverse n (by unfold InI64; omega) rest
    · have hlength := Codec.beBytes_length 8 n
      have hlt : n < 256 ^ 8 := by omega
      simp only [sampleInts, if_neg hsmall, List.cons_append, if_true]
      rw [if_pos (by simp), List.take_left' hlength, List.drop_left' hlength,
        Codec.fromBeBytes_beBytes hlt]
  sint n hn rest := by
    have hhead : (sampleInts.writeSint n ++ rest).head? ≠ some 0xcf := by
      by_cases hsmall : 0 ≤ n ∧ n < 0x80
      · simpa [sampleInts, Decimal.sampleSint, hsmall] using small_marker (by omega)
      · simp [sampleInts, Decimal.sampleSint, hsmall]
    rw [sampleInts_other hhead]
    exact Decimal.sampleSint_inverse n hn rest
  consumes bytes n rest h := by
    cases bytes with
    | nil => cases h
    | cons marker tail =>
        simp only [sampleInts, Decimal.sampleSint] at h
        rw [List.length_cons]
        split at h
        next =>
            split at h
            next =>
                obtain ⟨-, rfl⟩ := Prod.mk.inj (Option.some.inj h)
                rw [List.length_drop]
                omega
            next => cases h
        next =>
            split at h
            next =>
                obtain ⟨-, rfl⟩ := Prod.mk.inj (Option.some.inj h)
                exact Nat.lt_succ_self _
            next =>
                split at h
                next =>
                    obtain ⟨-, rfl⟩ := Prod.mk.inj (Option.some.inj h)
                    rw [List.length_drop]
                    omega
                next => cases h

theorem inI64_one : InI64 1 := by decide

def samplePairs : List (Nat × I64) :=
  [(FieldId.year, ⟨1, inI64_one⟩), (FieldId.adjust, ⟨1, inI64_one⟩)]

theorem intervals_round_trip_sample :
    fromPayload sampleInts [0x02, 0x00, 0x01, 0x08, 0x01] = .ok (ofPairs samplePairs) := by
  have hknown : ∀ pair ∈ samplePairs, Known pair := by
    simp [samplePairs, Known, FieldId.year, FieldId.adjust]
  exact ((intervals_round_trip sampleInts_lawful).2.2 _ _).mpr ⟨samplePairs, _,
    readU64_writeUint sampleInts_lawful (n := 2) (by decide) [0x00, 0x01, 0x08, 0x01],
    readsPairs_write sampleInts_lawful hknown [], hknown, rfl⟩

end Interval

end Tarant
