import Mathlib

/-!
# The proleptic Gregorian calendar

Dates by year, month and day, for every year, also before the first.  Days are counted
from 1970-01-01; the count grows by one from a date to the next, and a date is
determined by it.
-/

namespace Tarant.Foundation

/-! ## Months and years -/

def IsLeap (year : Int) : Prop := year % 4 = 0 ∧ (year % 100 ≠ 0 ∨ year % 400 = 0)

instance : DecidablePred IsLeap := fun _ => inferInstanceAs (Decidable (_ ∧ _))

def monthLength (year : Int) : Nat → Nat
  | 2 => if IsLeap year then 29 else 28
  | 4 | 6 | 9 | 11 => 30
  | _ => 31

def yearLength (year : Int) : Nat := if IsLeap year then 366 else 365

def daysBeforeMonth (year : Int) (month : Nat) : Nat :=
  ((List.range' 1 (month - 1)).map (monthLength year)).sum

def daysBeforeYear (year : Int) : Int :=
  365 * (year - 1970) + (year - 1) / 4 - (year - 1) / 100 + (year - 1) / 400 - 477

theorem monthLength_pos (year : Int) (month : Nat) : 0 < monthLength year month := by
  unfold monthLength
  split
  next => split <;> omega
  all_goals omega

theorem monthLength_le (year : Int) (month : Nat) : monthLength year month ≤ 31 := by
  unfold monthLength
  split
  next => split <;> omega
  all_goals omega

theorem daysBeforeYear_succ (year : Int) :
    daysBeforeYear (year + 1) = daysBeforeYear year + yearLength year := by
  unfold daysBeforeYear yearLength
  by_cases h : IsLeap year
  · rw [if_pos h]
    unfold IsLeap at h
    omega
  · rw [if_neg h]
    unfold IsLeap at h
    omega

theorem daysBeforeMonth_succ (year : Int) {month : Nat} (h : 1 ≤ month) :
    daysBeforeMonth year (month + 1) = daysBeforeMonth year month + monthLength year month := by
  obtain ⟨k, rfl⟩ := Nat.exists_eq_add_of_le' h
  simp [daysBeforeMonth, List.range'_concat, Nat.add_comm]

theorem daysBeforeMonth_thirteen (year : Int) : daysBeforeMonth year 13 = yearLength year := by
  unfold yearLength
  split
  next h => simp [daysBeforeMonth, monthLength, List.range', h]
  next h => simp [daysBeforeMonth, monthLength, List.range', h]

theorem daysBeforeMonth_mono (year : Int) {month later : Nat} (hmonth : 1 ≤ month)
    (h : month < later) :
    daysBeforeMonth year month + monthLength year month ≤ daysBeforeMonth year later := by
  induction later, h using Nat.le_induction with
  | base => exact (daysBeforeMonth_succ year hmonth).ge
  | succ later hle ih =>
      rw [daysBeforeMonth_succ year (by omega)]
      exact ih.trans (Nat.le_add_right _ _)

theorem daysBeforeYear_mono {year later : Int} (h : year < later) :
    daysBeforeYear year + yearLength year ≤ daysBeforeYear later := by
  induction later, h using Int.leInduction with
  | base => exact (daysBeforeYear_succ year).ge
  | succ later hle ih =>
      rw [daysBeforeYear_succ]
      exact ih.trans (le_add_of_nonneg_right (Nat.cast_nonneg _))

/-! ## Dates -/

@[ext] structure Date where
  year : Int
  month : Nat
  day : Nat
  deriving DecidableEq, Repr

namespace Date

structure Valid (date : Date) : Prop where
  month_ge : 1 ≤ date.month
  month_le : date.month ≤ 12
  day_ge : 1 ≤ date.day
  day_le : date.day ≤ monthLength date.year date.month

instance (date : Date) : Decidable date.Valid :=
  decidable_of_iff (1 ≤ date.month ∧ date.month ≤ 12 ∧ 1 ≤ date.day ∧
      date.day ≤ monthLength date.year date.month)
    ⟨fun ⟨hge, hle, hday, hlength⟩ => ⟨hge, hle, hday, hlength⟩,
      fun h => ⟨h.month_ge, h.month_le, h.day_ge, h.day_le⟩⟩

def dayNumber (date : Date) : Int :=
  daysBeforeYear date.year + daysBeforeMonth date.year date.month + (date.day - 1)

def next (date : Date) : Date :=
  if date.day < monthLength date.year date.month then { date with day := date.day + 1 }
  else if date.month < 12 then ⟨date.year, date.month + 1, 1⟩
  else ⟨date.year + 1, 1, 1⟩

theorem Valid.next {date : Date} (h : date.Valid) : date.next.Valid := by
  unfold Date.next
  split
  next hday => exact ⟨h.month_ge, h.month_le, Nat.succ_pos _, hday⟩
  next =>
      split
      next hmonth => exact ⟨Nat.succ_pos _, hmonth, Nat.le_refl _, monthLength_pos _ _⟩
      next => exact ⟨Nat.le_refl _, Nat.succ_pos _, Nat.le_refl _, monthLength_pos _ _⟩

theorem dayNumber_next {date : Date} (h : date.Valid) : date.next.dayNumber = date.dayNumber + 1 := by
  have hmonth := daysBeforeMonth_succ date.year h.month_ge
  have hday := h.day_le
  unfold Date.next
  split
  next =>
      simp only [dayNumber]
      omega
  next hlast =>
      split
      next =>
          simp only [dayNumber]
          omega
      next hdecember =>
          have htwelve : date.month = 12 := by have := h.month_le; omega
          have hyear := daysBeforeYear_succ date.year
          have htotal := daysBeforeMonth_thirteen date.year
          have hjanuary : daysBeforeMonth (date.year + 1) 1 = 0 := rfl
          rw [htwelve] at hmonth hlast hday
          norm_num at hmonth
          simp only [dayNumber, htwelve]
          omega

theorem Valid.dayNumber_lt {date : Date} (h : date.Valid) :
    daysBeforeYear date.year ≤ date.dayNumber ∧
      date.dayNumber < daysBeforeYear date.year + yearLength date.year := by
  have htotal := daysBeforeMonth_thirteen date.year
  have hlast : date.month < 13 := Nat.lt_succ_of_le h.month_le
  have hwithin := daysBeforeMonth_mono date.year h.month_ge hlast
  have hge := h.day_ge
  have hle := h.day_le
  unfold dayNumber
  omega

theorem Valid.eq_of_dayNumber {date other : Date} (h : date.Valid) (hother : other.Valid)
    (heq : date.dayNumber = other.dayNumber) : date = other := by
  obtain ⟨hlow, hhigh⟩ := h.dayNumber_lt
  obtain ⟨hlow', hhigh'⟩ := hother.dayNumber_lt
  have hyear : date.year = other.year := by
    rcases lt_trichotomy date.year other.year with hlt | heq | hgt
    · have := daysBeforeYear_mono hlt
      omega
    · exact heq
    · have := daysBeforeYear_mono hgt
      omega
  have hge := h.day_ge
  have hle := h.day_le
  have hge' := hother.day_ge
  have hle' := hother.day_le
  unfold dayNumber at heq
  rw [hyear] at heq hle
  have hmonth : date.month = other.month := by
    rcases Nat.lt_trichotomy date.month other.month with hlt | heq | hgt
    · have := daysBeforeMonth_mono other.year h.month_ge hlt
      omega
    · exact heq
    · have := daysBeforeMonth_mono other.year hother.month_ge hgt
      omega
  rw [hmonth] at heq
  exact Date.ext hyear hmonth (by omega)

end Date

end Tarant.Foundation
