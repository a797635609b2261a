import Tarant.Datetime.Civil
import Tarant.Decimal.Integers

/-!
# Datetimes as text

`Display` writes a datetime at its own offset, in the form of RFC 3339: the date and the
time of day there, the nanoseconds without their last zeros, and the offset.  The text
is read back with the calendar of `Foundation.Calendar`, which gives the instant and the
offset again.
-/

namespace Tarant.Datetime

open Foundation
open Decimal (digitsText decimalDigits point IsDigit digitValue)

/-! ## The functions -/

def letterT : UInt8 := 0x54

def letterZ : UInt8 := 0x5a

def colon : UInt8 := 0x3a

def padded (width n : Nat) : Bytes :=
  digitsText (List.replicate (width - (decimalDigits n).length) 0 ++ decimalDigits n)

def fractionText (nsec : Nat) : Bytes :=
  if nsec ≠ 0 then point :: (padded 9 nsec).rdropWhile (· == 0x30) else []

def zoneText (tzOffset : I16) : Bytes :=
  if tzOffset.val = 0 then [letterZ]
  else
    let minutes := tzOffset.val.natAbs
    (if tzOffset.val < 0 then minus else plus) ::
      (padded 2 (minutes / 60) ++ colon :: padded 2 (minutes % 60))

def dateText (year : Int) (magnitude month day : Nat) : Bytes :=
  (if year < 0 then [minus] else []) ++
    (padded 4 magnitude ++ minus :: (padded 2 month ++ minus :: padded 2 day))

def timeText (secondOfDay : Nat) : Bytes :=
  padded 2 (secondOfDay / 3600) ++ colon :: (padded 2 (secondOfDay / 60 % 60) ++
    colon :: padded 2 (secondOfDay % 60))

/-- `Display`, with a format that asks for no padding. -/
def display (d : Datetime) : Except Panic Bytes := do
  let shift ← strictI64 (d.tzOffset * 60)
  let here := saturateI64 (d.epoch + shift)
  let (year, month, day) ← civilFromDays (here / secondsPerDay)
  let secondOfDay := (here.val % secondsPerDay).toNat
  let magnitude ← strictI64 |year|
  return dateText year magnitude.val.toNat month day ++
    letterT :: (timeText secondOfDay ++ (fractionText d.nsec ++ zoneText d.tzOffset))

/-! ## Reading a text -/

def readNumber (text : Bytes) : Option (List Nat × Bytes) :=
  let digits := text.takeWhile (fun byte => decide (IsDigit byte))
  if digits = [] then none
  else some (digits.map digitValue, text.dropWhile (fun byte => decide (IsDigit byte)))

def readPair (bound : Nat) (text : Bytes) : Option (Nat × Bytes) := do
  let (digits, rest) ← readNumber text
  if digits.length = 2 ∧ positional 10 digits < bound then some (positional 10 digits, rest)
  else none

def readByte (byte : UInt8) : Bytes → Option Bytes
  | [] => none
  | first :: rest => if first = byte then some rest else none

def readYear (text : Bytes) : Option (Int × Bytes) :=
  match readByte minus text with
  | some rest => do
      let (digits, rest) ← readNumber rest
      some (-positional 10 digits, rest)
  | none => do
      let (digits, rest) ← readNumber text
      some (positional 10 digits, rest)

def readDate (text : Bytes) : Option (Date × Bytes) := do
  let (year, rest) ← readYear text
  let rest ← readByte minus rest
  let (month, rest) ← readPair 13 rest
  let rest ← readByte minus rest
  let (day, rest) ← readPair 32 rest
  let date : Date := ⟨year, month, day⟩
  if date.Valid then some (date, rest) else none

def readTime (text : Bytes) : Option (Nat × Bytes) := do
  let (hours, rest) ← readPair 24 text
  let rest ← readByte colon rest
  let (minutes, rest) ← readPair 60 rest
  let rest ← readByte colon rest
  let (seconds, rest) ← readPair 60 rest
  some (hours * 3600 + minutes * 60 + seconds, rest)

def readFraction (text : Bytes) : Option (Nat × Bytes) :=
  match readByte point text with
  | some rest => do
      let (digits, rest) ← readNumber rest
      if digits.length ≤ 9 then some (positional 10 digits * 10 ^ (9 - digits.length), rest)
      else none
  | none => some (0, text)

/-- The offset in minutes, at the end of the text; an offset has any number of hours. -/
def readZone : Bytes → Option Int
  | [] => none
  | sign :: rest =>
      if sign = letterZ then if rest = [] then some 0 else none
      else do
        let (hours, rest) ← readNumber rest
        let rest ← readByte colon rest
        let (minutes, rest) ← readPair 60 rest
        let offset : Int := positional 10 hours * 60 + minutes
        if rest ≠ [] then none
        else if sign = minus then some (-offset)
        else if sign = plus then some offset
        else none

def readText (text : Bytes) : Option (Int × Nat × Int) := do
  let (date, rest) ← readDate text
  let rest ← readByte letterT rest
  let (seconds, rest) ← readTime rest
  let (nsec, rest) ← readFraction rest
  let offset ← readZone rest
  some (date.dayNumber * secondsPerDay + seconds - 60 * offset, nsec, offset)

/-! ## Numbers -/

theorem readNumber_suffix {text rest : Bytes} (hne : text ≠ [])
    (hdigits : ∀ byte ∈ text, IsDigit byte) (hrest : ∀ byte ∈ rest.head?, ¬ IsDigit byte) :
    readNumber (text ++ rest) = some (text.map digitValue, rest) := by
  have hall : ∀ byte ∈ text, decide (IsDigit byte) = true :=
    fun byte hmem => decide_eq_true (hdigits byte hmem)
  have hstop : rest.takeWhile (fun byte => decide (IsDigit byte)) = [] ∧
      rest.dropWhile (fun byte => decide (IsDigit byte)) = rest := by
    cases rest with
    | nil => exact ⟨rfl, rfl⟩
    | cons byte rest =>
        have hbyte : ¬ IsDigit byte := hrest byte rfl
        simp [hbyte]
  unfold readNumber
  rw [List.takeWhile_append_of_pos hall, List.dropWhile_append_of_pos hall, hstop.1, hstop.2,
    List.append_nil, if_neg hne]

theorem readByte_cons (byte : UInt8) (rest : Bytes) : readByte byte (byte :: rest) = some rest :=
  if_pos rfl

theorem readByte_other {byte first : UInt8} (h : first ≠ byte) (rest : Bytes) :
    readByte byte (first :: rest) = none := if_neg h

theorem padded_lt (width n : Nat) :
    ∀ d ∈ List.replicate (width - (decimalDigits n).length) 0 ++ decimalDigits n, d < 10 := by
  intro d hmem
  obtain hmem | hmem := List.mem_append.mp hmem
  · simp [(List.mem_replicate.mp hmem).2]
  · exact Decimal.decimalDigits_lt n d hmem

theorem padded_digits (width n : Nat) : ∀ byte ∈ padded width n, IsDigit byte :=
  Decimal.isDigit_digitsText (padded_lt width n)

theorem padded_ne_nil (width n : Nat) : padded width n ≠ [] := by
  simp [padded, digitsText, Decimal.decimalDigits_ne_nil]

theorem padded_value (width n : Nat) : positional 10 ((padded width n).map digitValue) = n := by
  rw [padded, Decimal.map_digitValue (padded_lt width n), positional_zeros_append,
    Decimal.positional_decimalDigits]

theorem padded_length {width n : Nat} (hwidth : 0 < width) (h : n < 10 ^ width) :
    (padded width n).length = width := by
  have hle : (decimalDigits n).length ≤ width := by
    unfold decimalDigits
    split
    next => exact hwidth
    next => rwa [List.length_reverse, Nat.digits_length_le_iff (by decide)]
  simp [padded, digitsText]
  omega

theorem readNumber_padded (width n : Nat) {rest : Bytes}
    (hrest : ∀ byte ∈ rest.head?, ¬ IsDigit byte) :
    ∃ digits, readNumber (padded width n ++ rest) = some (digits, rest) ∧
      positional 10 digits = n :=
  ⟨_, readNumber_suffix (padded_ne_nil width n) (padded_digits width n) hrest,
    padded_value width n⟩

theorem readPair_padded {bound n : Nat} (h : n < bound) (hbound : bound ≤ 100) {rest : Bytes}
    (hrest : ∀ byte ∈ rest.head?, ¬ IsDigit byte) :
    readPair bound (padded 2 n ++ rest) = some (n, rest) := by
  have hlength : (padded 2 n).length = 2 := padded_length (by decide) (by omega)
  unfold readPair
  rw [readNumber_suffix (padded_ne_nil 2 n) (padded_digits 2 n) hrest]
  simp only [Option.bind_eq_bind, Option.bind_some, List.length_map, hlength, padded_value]
  exact if_pos ⟨trivial, h⟩

/-! ## The parts of the text -/

theorem stops_cons {byte : UInt8} (h : ¬ IsDigit byte) (rest : Bytes) :
    ∀ first ∈ (byte :: rest).head?, ¬ IsDigit first := by
  simpa using h

theorem padded_head (width n : Nat) (rest : Bytes) {byte : UInt8} (h : ¬ IsDigit byte) :
    readByte byte (padded width n ++ rest) = none := by
  cases htext : padded width n with
  | nil => exact absurd htext (padded_ne_nil width n)
  | cons first tail =>
      have hfirst := padded_digits width n first (by simp [htext])
      refine readByte_other (fun heq => h ?_) _
      rwa [← heq]

theorem readYear_text (year : Int) {rest : Bytes} (hrest : ∀ byte ∈ rest.head?, ¬ IsDigit byte) :
    readYear ((if year < 0 then [minus] else []) ++ (padded 4 year.natAbs ++ rest)) =
      some (year, rest) := by
  obtain ⟨digits, hread, hvalue⟩ := readNumber_padded 4 year.natAbs hrest
  unfold readYear
  by_cases hneg : year < 0
  · rw [if_pos hneg, List.cons_append, List.nil_append, readByte_cons]
    simp only [hread, Option.bind_eq_bind, Option.bind_some, hvalue]
    congr 2
    omega
  · rw [if_neg hneg, List.nil_append, padded_head 4 _ _ (by decide)]
    simp only [hread, Option.bind_eq_bind, Option.bind_some, hvalue]
    congr 2
    omega

theorem readDate_text {date : Date} (hvalid : date.Valid) {rest : Bytes}
    (hrest : ∀ byte ∈ rest.head?, ¬ IsDigit byte) :
    readDate (dateText date.year date.year.natAbs date.month date.day ++ rest) =
      some (date, rest) := by
  have hmonth : date.month < 13 := Nat.lt_succ_of_le hvalid.month_le
  have hday : date.day < 32 :=
    Nat.lt_succ_of_le (hvalid.day_le.trans (monthLength_le date.year date.month))
  unfold readDate dateText
  simp only [List.append_assoc, List.cons_append]
  rw [readYear_text _ (stops_cons (by decide) _)]
  simp only [Option.bind_eq_bind, Option.bind_some, readByte_cons]
  rw [readPair_padded hmonth (by decide) (stops_cons (by decide) _)]
  simp only [Option.bind_some, readByte_cons]
  rw [readPair_padded hday (by decide) hrest]
  exact if_pos hvalid

theorem readTime_text {secondOfDay : Nat} (h : secondOfDay < 86400) {rest : Bytes}
    (hrest : ∀ byte ∈ rest.head?, ¬ IsDigit byte) :
    readTime (timeText secondOfDay ++ rest) = some (secondOfDay, rest) := by
  have hhours : secondOfDay / 3600 < 24 := by omega
  have hminutes : secondOfDay / 60 % 60 < 60 := Nat.mod_lt _ (by decide)
  have hseconds : secondOfDay % 60 < 60 := Nat.mod_lt _ (by decide)
  unfold readTime timeText
  simp only [List.append_assoc, List.cons_append]
  rw [readPair_padded hhours (by decide) (stops_cons (by decide) _)]
  simp only [Option.bind_eq_bind, Option.bind_some, readByte_cons]
  rw [readPair_padded hminutes (by decide) (stops_cons (by decide) _)]
  simp only [Option.bind_some, readByte_cons]
  rw [readPair_padded hseconds (by decide) hrest]
  simp only [Option.bind_some]
  congr 2
  omega

theorem trimmed_value {nsec : Nat} (h : nsec < 1000000000) :
    positional 10 (((padded 9 nsec).rdropWhile (· == 0x30)).map digitValue) *
      10 ^ (9 - ((padded 9 nsec).rdropWhile (· == 0x30)).length) = nsec := by
  have hsplit : (padded 9 nsec).rdropWhile (· == 0x30) ++ (padded 9 nsec).rtakeWhile (· == 0x30) =
      padded 9 nsec := List.rdropWhile_append_rtakeWhile
  have hlength := congrArg List.length hsplit
  rw [List.length_append, padded_length (by decide) h] at hlength
  have hzeros : ((padded 9 nsec).rtakeWhile (· == 0x30)).map digitValue =
      List.replicate (9 - ((padded 9 nsec).rdropWhile (· == 0x30)).length) 0 := by
    refine List.eq_replicate_iff.mpr ⟨by rw [List.length_map]; omega, fun d hmem => ?_⟩
    obtain ⟨byte, hbyte, rfl⟩ := List.mem_map.mp hmem
    have hzero := List.mem_rtakeWhile_imp hbyte
    rw [beq_iff_eq] at hzero
    rw [hzero]
    rfl
  rw [← positional_append_zeros, ← hzeros, ← List.map_append, hsplit, padded_value]

theorem trimmed_ne_nil {nsec : Nat} (h : nsec ≠ 0) :
    (padded 9 nsec).rdropWhile (· == 0x30) ≠ [] := by
  intro hnil
  have hall := List.rdropWhile_eq_nil_iff.mp hnil
  have hzeros : ∀ d ∈ (padded 9 nsec).map digitValue, d = 0 := by
    intro d hmem
    obtain ⟨byte, hbyte, rfl⟩ := List.mem_map.mp hmem
    have hzero := hall byte hbyte
    rw [beq_iff_eq] at hzero
    rw [hzero]
    rfl
  refine h ?_
  rw [← padded_value 9 nsec, (positional_eq_zero_iff (by decide)).mpr hzeros]

theorem readFraction_text {nsec : Nat} (h : nsec < 1000000000) {rest : Bytes}
    (hrest : ∀ byte ∈ rest.head?, ¬ IsDigit byte) (hpoint : readByte point rest = none) :
    readFraction (fractionText nsec ++ rest) = some (nsec, rest) := by
  unfold readFraction fractionText
  by_cases hzero : nsec = 0
  · rw [if_neg (not_not.mpr hzero), List.nil_append, hpoint, hzero]
  · have hdigits : ∀ byte ∈ (padded 9 nsec).rdropWhile (· == 0x30), IsDigit byte :=
      fun byte hmem => padded_digits 9 nsec byte ((List.rdropWhile_prefix _ _).subset hmem)
    have hlength : ((padded 9 nsec).rdropWhile (· == 0x30)).length ≤ 9 :=
      (List.rdropWhile_prefix _ _).length_le.trans (padded_length (by decide) h).le
    rw [if_pos hzero, List.cons_append, readByte_cons]
    simp only [readNumber_suffix (trimmed_ne_nil hzero) hdigits hrest, Option.bind_eq_bind,
      Option.bind_some, List.length_map, trimmed_value h]
    exact if_pos hlength

theorem readZone_text (tzOffset : I16) : readZone (zoneText tzOffset) = some tzOffset.val := by
  unfold zoneText
  by_cases hzero : tzOffset.val = 0
  · rw [if_pos hzero, hzero]
    rfl
  · have hminutes : readPair 60 (padded 2 (tzOffset.val.natAbs % 60)) =
        some (tzOffset.val.natAbs % 60, []) := by
      have hpair := @readPair_padded 60 (tzOffset.val.natAbs % 60) (Nat.mod_lt _ (by decide))
        (by decide) [] (by simp)
      rwa [List.append_nil] at hpair
    obtain ⟨hours, hhours, hhoursValue⟩ := readNumber_padded 2 (tzOffset.val.natAbs / 60)
      (stops_cons (show ¬ IsDigit colon by decide) (padded 2 (tzOffset.val.natAbs % 60)))
    rw [if_neg hzero]
    by_cases hneg : tzOffset.val < 0
    · have hletter : minus ≠ letterZ := by decide
      simp only [readZone, if_pos hneg, if_neg hletter, hhours, hminutes, readByte_cons,
        Option.bind_eq_bind, Option.bind_some, hhoursValue]
      rw [if_neg (not_not.mpr rfl), if_pos trivial]
      congr 1
      omega
    · have hletter : plus ≠ letterZ := by decide
      have hminus : plus ≠ minus := by decide
      simp only [readZone, if_neg hneg, if_neg hletter, if_neg hminus, hhours, hminutes,
        readByte_cons, Option.bind_eq_bind, Option.bind_some, hhoursValue]
      rw [if_neg (not_not.mpr rfl), if_pos trivial]
      congr 1
      omega

theorem zoneText_head (tzOffset : I16) :
    (∀ byte ∈ (zoneText tzOffset).head?, ¬ IsDigit byte) ∧
      readByte point (zoneText tzOffset) = none := by
  unfold zoneText
  split
  next => exact ⟨stops_cons (by decide) _, readByte_other (by decide) _⟩
  next =>
      split
      next => exact ⟨stops_cons (by decide) _, readByte_other (by decide) _⟩
      next => exact ⟨stops_cons (by decide) _, readByte_other (by decide) _⟩

theorem fractionText_head (nsec : Nat) (tzOffset : I16) :
    ∀ byte ∈ (fractionText nsec ++ zoneText tzOffset).head?, ¬ IsDigit byte := by
  unfold fractionText
  split
  next => exact stops_cons (by decide) _
  next => exact (zoneText_head tzOffset).1

/-! ## The text -/

def here (d : Datetime) : Int := d.epoch + d.tzOffset * 60

theorem year_bound {date : Date} (hvalid : date.Valid) {seconds : Int} (h : InI64 seconds)
    (hnumber : date.dayNumber = seconds / secondsPerDay) : InI64 |date.year| := by
  obtain ⟨hlow, hhigh⟩ := hvalid.dayNumber_lt
  have hlength : yearLength date.year ≤ 366 := by
    unfold yearLength
    split <;> omega
  rw [Int.abs_eq_natAbs]
  unfold InI64 at *
  unfold daysBeforeYear secondsPerDay at *
  omega

theorem display_text {d : Datetime} (h : InI64 d.here) :
    ∃ date : Date, date.Valid ∧ date.dayNumber = d.here / secondsPerDay ∧
      display d = .ok (dateText date.year date.year.natAbs date.month date.day ++
        letterT :: (timeText (d.here % secondsPerDay).toNat ++
          (fractionText d.nsec ++ zoneText d.tzOffset))) := by
  have hoffset := d.tzOffset.property
  unfold InI16 at hoffset
  have hcivil := civilFromDays_of_seconds ⟨d.here, h⟩
  obtain ⟨hvalid, hnumber⟩ := civilDate_spec (d.here / secondsPerDay)
  have hyear := year_bound hvalid h hnumber
  refine ⟨_, hvalid, hnumber, ?_⟩
  have hshift : InI64 (d.tzOffset * 60) := by unfold InI64; omega
  have hhere : (saturateI64 (d.epoch + d.tzOffset * 60)).val = d.here := saturateI64_val h
  have habs : |(civilDate (d.here / secondsPerDay)).year|.toNat =
      (civilDate (d.here / secondsPerDay)).year.natAbs := by
    rw [Int.abs_eq_natAbs, Int.toNat_natCast]
  dsimp only at hcivil
  unfold display
  rw [strictI64_bind hshift]
  simp only [hhere, hcivil]
  change (strictI64 |(civilDate (d.here / secondsPerDay)).year| >>= _) = _
  rw [strictI64_bind hyear]
  dsimp only
  rw [habs]
  rfl

theorem readText_display {d : Datetime} (h : InI64 d.here) :
    ∃ text, display d = .ok text ∧ readText text = some (d.epoch.val, d.nsec, d.tzOffset.val) := by
  obtain ⟨date, hvalid, hnumber, hdisplay⟩ := display_text h
  obtain ⟨hzone, hpoint⟩ := zoneText_head d.tzOffset
  refine ⟨_, hdisplay, ?_⟩
  unfold readText
  have hseconds : (d.here % secondsPerDay).toNat < 86400 := by
    unfold secondsPerDay
    omega
  rw [readDate_text hvalid (stops_cons (by decide) _)]
  simp only [Option.bind_eq_bind, Option.bind_some, readByte_cons]
  rw [readTime_text hseconds (fractionText_head d.nsec d.tzOffset)]
  simp only [Option.bind_some]
  rw [readFraction_text d.nsec_lt hzone hpoint]
  simp only [Option.bind_some, readZone_text, hnumber]
  congr 2
  unfold here secondsPerDay
  omega

/--
Where the offset does not take it out of `i64`, the text of a datetime denotes it: read
with the calendar, it gives back the epoch, the nanoseconds and the offset.  Equal texts
are of one instant and one offset.
-/
theorem display_denotes_instant :
    (∀ d : Datetime, InI64 (d.epoch + 60 * d.tzOffset) →
      ∃ text, display d = .ok text ∧
        readText text = some (d.epoch.val, d.nsec, d.tzOffset.val)) ∧
    ∀ d other : Datetime, InI64 (d.epoch + 60 * d.tzOffset) →
      InI64 (other.epoch + 60 * other.tzOffset) → display d = display other →
        d.epoch = other.epoch ∧ d.nsec = other.nsec ∧ d.tzOffset = other.tzOffset := by
  have hread : ∀ d : Datetime, InI64 (d.epoch + 60 * d.tzOffset) →
      ∃ text, display d = .ok text ∧
        readText text = some (d.epoch.val, d.nsec, d.tzOffset.val) := by
    intro d hd
    rw [Int.mul_comm] at hd
    exact readText_display hd
  refine ⟨hread, fun d other hd hother heq => ?_⟩
  obtain ⟨text, hdisplay, htext⟩ := hread d hd
  obtain ⟨text', hdisplay', htext'⟩ := hread other hother
  obtain rfl := Except.ok.inj (hdisplay.symm.trans (heq.trans hdisplay'))
  obtain ⟨hepoch, hrest⟩ := Prod.mk.inj (Option.some.inj (htext.symm.trans htext'))
  obtain ⟨hnsec, hoffset⟩ := Prod.mk.inj hrest
  exact ⟨Subtype.ext hepoch, hnsec, Subtype.ext hoffset⟩

end Tarant.Datetime
