import Tarant.Datetime
import Tarant.Foundation.Calendar

/-!
# The date of a day

`civil_from_days` counts years from the first of March, in eras of 400 years.  It
computes the proleptic Gregorian date of every day that a datetime can be shown on.
-/

namespace Tarant.Datetime

open Foundation

/-! ## The function -/

/-- `u32::try_from(n).expect(reason)`. -/
def expectU32 (n : Int) (reason : String) : Except Panic Nat :=
  if 0 ≤ n ∧ n < 2 ^ 32 then .ok n.toNat else .error (.expect reason)

def civilFromDays (days : Int) : Except Panic (Int × Nat × Nat) := do
  let z ← strictI64 (days + 719468)
  let era := z.val / 146097
  let doe := z.val % 146097
  let yoe ← strictI64 (doe - doe.tdiv 1460)
  let yoe ← strictI64 (yoe + doe.tdiv 36524)
  let yoe ← strictI64 (yoe - doe.tdiv 146096)
  let yoe := yoe.val.tdiv 365
  let past ← strictI64 (365 * yoe)
  let past ← strictI64 (past + yoe.tdiv 4)
  let past ← strictI64 (past - yoe.tdiv 100)
  let doy ← strictI64 (doe - past)
  let mp ← strictI64 (5 * doy)
  let mp ← strictI64 (mp + 2)
  let mp := mp.val.tdiv 153
  let first ← strictI64 (153 * mp)
  let first ← strictI64 (first + 2)
  let day ← strictI64 (doy - first.val.tdiv 5)
  let day ← strictI64 (day + 1)
  let day ← expectU32 day "1..=31"
  let month ← strictI64 (if mp < 10 then mp + 3 else mp - 9)
  let month ← expectU32 month "1..=12"
  let past ← strictI64 (era * 400)
  let year ← strictI64 (yoe + past)
  let year ← strictI64 (year + if month ≤ 2 then 1 else 0)
  return (year.val, month, day)

/-! ## Years of an era -/

structure EraDay (doe century cycle year day : Int) : Prop where
  century_range : 0 ≤ century ∧ century ≤ 3
  cycle_range : 0 ≤ cycle ∧ cycle ≤ 24
  year_range : 0 ≤ year ∧ year ≤ 3
  day_range : 0 ≤ day ∧ day ≤ 365
  leap : day = 365 → year = 3 ∧ (cycle = 24 → century = 3)
  doe_eq : doe = 36524 * century + 1461 * cycle + 365 * year + day

theorem exists_eraDay {doe : Int} (hlow : 0 ≤ doe) (hhigh : doe < 146097) :
    ∃ century cycle year day, EraDay doe century cycle year day := by
  -- the last day of the fourth century is its 36525th
  obtain ⟨century, hcentury, hrest⟩ : ∃ century, (0 ≤ century ∧ century ≤ 3) ∧
      0 ≤ doe - 36524 * century ∧ doe - 36524 * century < 36525 ∧
      (doe - 36524 * century = 36524 → century = 3) :=
    ⟨min (doe / 36524) 3, by omega, by omega⟩
  obtain ⟨cycle, hcycle, hrest'⟩ : ∃ cycle, (0 ≤ cycle ∧ cycle ≤ 24) ∧
      0 ≤ doe - 36524 * century - 1461 * cycle ∧ doe - 36524 * century - 1461 * cycle < 1461 :=
    ⟨(doe - 36524 * century) / 1461, by omega, by omega⟩
  obtain ⟨year, hyear, hday⟩ : ∃ year, (0 ≤ year ∧ year ≤ 3) ∧
      0 ≤ doe - 36524 * century - 1461 * cycle - 365 * year ∧
      doe - 36524 * century - 1461 * cycle - 365 * year ≤ 365 ∧
      (doe - 36524 * century - 1461 * cycle - 365 * year = 365 → year = 3) :=
    ⟨min ((doe - 36524 * century - 1461 * cycle) / 365) 3, by omega, by omega⟩
  exact ⟨century, cycle, year, doe - 36524 * century - 1461 * cycle - 365 * year, hcentury,
    hcycle, hyear, ⟨hday.1, hday.2.1⟩, by omega, by omega⟩

def yearOfEra (doe : Int) : Int := (doe - doe / 1460 + doe / 36524 - doe / 146096) / 365

def daysBeforeEraYear (yoe : Int) : Int := 365 * yoe + yoe / 4 - yoe / 100

variable {doe century cycle year day : Int}

theorem EraDay.yearOfEra (h : EraDay doe century cycle year day) :
    Datetime.yearOfEra doe = 100 * century + 4 * cycle + year := by
  obtain ⟨hcentury, hcycle, hyear, hday, hleap, hdoe⟩ := h
  -- the last day of the era is in a fifth piece of 36524 days and in a second of 146096
  have hcenturies : doe / 36524 - doe / 146096 = century := by
    by_cases hlast : doe = 146096
    · subst hlast
      omega
    · have hpiece : 36524 * century ≤ doe ∧ doe < 36524 * century + 36524 := by omega
      omega
  obtain ⟨carry, hcarry, hcycles⟩ : ∃ carry, (0 ≤ day - carry ∧ day - carry < 365) ∧
      doe / 1460 = 25 * century + cycle + carry := by
    by_cases hlate : 1460 ≤ 24 * century + cycle + 365 * year + day
    · exact ⟨1, by omega, by omega⟩
    · exact ⟨0, by omega, by omega⟩
  unfold Datetime.yearOfEra
  omega

theorem EraDay.daysBefore (h : EraDay doe century cycle year day) :
    daysBeforeEraYear (100 * century + 4 * cycle + year) = doe - day := by
  obtain ⟨hcentury, hcycle, hyear, hday, hleap, rfl⟩ := h
  unfold daysBeforeEraYear
  omega

/-- The day is one of its year; the year has a day more where the next one is a leap year. -/
theorem yearOfEra_spec (hlow : 0 ≤ doe) (hhigh : doe < 146097) :
    0 ≤ yearOfEra doe ∧ yearOfEra doe < 400 ∧ daysBeforeEraYear (yearOfEra doe) ≤ doe ∧
      doe ≤ daysBeforeEraYear (yearOfEra doe) + 365 ∧
      (doe = daysBeforeEraYear (yearOfEra doe) + 365 → IsLeap (yearOfEra doe + 1)) := by
  obtain ⟨century, cycle, year, day, h⟩ := exists_eraDay hlow hhigh
  rw [h.yearOfEra, h.daysBefore]
  obtain ⟨hcentury, hcycle, hyear, hday, hleap, -⟩ := h
  unfold IsLeap
  omega

/-! ## Months of a year from March -/

def daysBeforeMarch (year : Int) : Int := 365 * year + year / 4 - year / 100 + year / 400 - 719468

def daysFromMarch (mp : Int) : Int := (153 * mp + 2) / 5

theorem daysBeforeMarch_eq (year : Int) :
    daysBeforeYear year + daysBeforeMonth year 3 = daysBeforeMarch year := by
  have hmonths : daysBeforeMonth year 3 = 31 + if IsLeap year then 29 else 28 := rfl
  rw [hmonths]
  unfold daysBeforeYear daysBeforeMarch
  by_cases h : IsLeap year
  · rw [if_pos h]
    unfold IsLeap at h
    omega
  · rw [if_neg h]
    unfold IsLeap at h
    omega

theorem march_months (year : Int) : ∀ mp : Nat, mp < 10 →
    (daysBeforeMonth year (mp + 3) : Int) = daysBeforeMonth year 3 + daysFromMarch mp ∧
      (monthLength year (mp + 3) : Int) = daysFromMarch (mp + 1) - daysFromMarch mp := by
  intro mp hmp
  induction mp with
  | zero => exact ⟨by simp [daysFromMarch], rfl⟩
  | succ mp ih =>
      obtain ⟨hbefore, hlength⟩ := ih (by omega)
      refine ⟨?_, ?_⟩
      · rw [show mp + 1 + 3 = mp + 3 + 1 by omega, daysBeforeMonth_succ year (by omega)]
        push_cast
        omega
      · have hcases : mp < 9 := by omega
        interval_cases mp <;> rfl

structure MarchDay (year doy : Int) (date : Date) : Prop where
  valid : date.Valid
  dayNumber_eq : date.dayNumber = daysBeforeMarch year + doy

def marchDate (year doy : Int) : Date :=
  let mp := (5 * doy + 2) / 153
  let month := (if mp < 10 then mp + 3 else mp - 9).toNat
  ⟨year + if month ≤ 2 then 1 else 0, month, (doy - daysFromMarch mp + 1).toNat⟩

theorem marchDate_spec (year : Int) {doy : Int} (hlow : 0 ≤ doy) (hhigh : doy ≤ 365)
    (hleap : doy = 365 → IsLeap (year + 1)) : MarchDay year doy (marchDate year doy) := by
  obtain ⟨mp, hmp⟩ := Int.eq_ofNat_of_zero_le (show 0 ≤ (5 * doy + 2) / 153 by omega)
  have hfrom : daysFromMarch mp ≤ doy ∧ doy < daysFromMarch (mp + 1) := by
    unfold daysFromMarch
    omega
  have hjanuary : daysBeforeYear (year + 1) = daysBeforeMarch year + 306 := by
    unfold daysBeforeYear daysBeforeMarch
    omega
  obtain hsame | rfl | rfl : mp < 10 ∨ mp = 10 ∨ mp = 11 := by omega
  · obtain ⟨hbefore, hlength⟩ := march_months year mp hsame
    have hmarch := daysBeforeMarch_eq year
    have hdate : marchDate year doy = ⟨year, mp + 3, (doy - daysFromMarch mp + 1).toNat⟩ := by
      simp only [marchDate, hmp, Nat.cast_lt_ofNat, if_pos hsame]
      congr 1
      · rw [if_neg (by omega), add_zero]
    rw [hdate]
    refine ⟨⟨by simp, by simp only; omega, by simp only; omega, by simp only; omega⟩, ?_⟩
    simp only [Date.dayNumber]
    omega
  · have hdate : marchDate year doy = ⟨year + 1, 1, (doy - 306 + 1).toNat⟩ := by
      simp only [marchDate, hmp]
      rfl
    have hlength : monthLength (year + 1) 1 = 31 := rfl
    have hbefore : daysBeforeMonth (year + 1) 1 = 0 := rfl
    simp only [daysFromMarch] at hfrom
    rw [hdate]
    refine ⟨⟨by simp, by simp, by simp only; omega, by simp only; omega⟩, ?_⟩
    simp only [Date.dayNumber]
    omega
  · have hdate : marchDate year doy = ⟨year + 1, 2, (doy - 337 + 1).toNat⟩ := by
      simp only [marchDate, hmp]
      rfl
    have hlength : (doy - 337 + 1).toNat ≤ monthLength (year + 1) 2 := by
      simp only [monthLength]
      split
      next => omega
      next hcommon =>
          have hshort : doy ≠ 365 := fun h => hcommon (hleap h)
          omega
    have hbefore : daysBeforeMonth (year + 1) 2 = 31 := rfl
    simp only [daysFromMarch] at hfrom
    rw [hdate]
    refine ⟨⟨by simp, by simp, by simp only; omega, hlength⟩, ?_⟩
    simp only [Date.dayNumber]
    omega

/-! ## The result -/

def civilDate (days : Int) : Date :=
  let era := (days + 719468) / 146097
  let doe := (days + 719468) % 146097
  marchDate (yearOfEra doe + era * 400) (doe - daysBeforeEraYear (yearOfEra doe))

theorem civilDate_spec (days : Int) :
    (civilDate days).Valid ∧ (civilDate days).dayNumber = days := by
  have hrange := Int.emod_nonneg (days + 719468) (show (146097 : Int) ≠ 0 by decide)
  have hbound := Int.emod_lt_of_pos (days + 719468) (show (0 : Int) < 146097 by decide)
  obtain ⟨hyoe, hyoe', hlow, hhigh, hleap⟩ := yearOfEra_spec hrange hbound
  have hmarch := marchDate_spec
    (yearOfEra ((days + 719468) % 146097) + (days + 719468) / 146097 * 400)
    (Int.sub_nonneg_of_le hlow) (by omega) (by
      intro hlast
      have hera := hleap (by omega)
      unfold IsLeap at hera ⊢
      omega)
  refine ⟨hmarch.valid, hmarch.dayNumber_eq.trans ?_⟩
  unfold daysBeforeMarch daysBeforeEraYear
  omega

theorem expectU32_bind {α : Type} {n : Int} {reason : String} (h : 0 ≤ n ∧ n < 2 ^ 32)
    (f : Nat → Except Panic α) : (expectU32 n reason >>= f) = f n.toNat := by
  rw [expectU32, if_pos h]
  rfl

/-- No step leaves `i64`. -/
theorem civilFromDays_eq {days : Int}
    (h : -0x4000000000000000 ≤ days ∧ days < 0x4000000000000000) :
    civilFromDays days =
      .ok ((civilDate days).year, (civilDate days).month, (civilDate days).day) := by
  have hz : InI64 (days + 719468) := by unfold InI64; omega
  have hlow := Int.emod_nonneg (days + 719468) (show (146097 : Int) ≠ 0 by decide)
  have hhigh := Int.emod_lt_of_pos (days + 719468) (show (0 : Int) < 146097 by decide)
  have hera : -0x4000000000000000 ≤ (days + 719468) / 146097 * 400 ∧
      (days + 719468) / 146097 * 400 < 0x4000000000000000 := by omega
  obtain ⟨hyoe, hyoe', hbefore, hafter, -⟩ := yearOfEra_spec hlow hhigh
  unfold civilFromDays civilDate marchDate
  rw [strictI64_bind hz]
  dsimp only
  generalize (days + 719468) % 146097 = doe at *
  generalize (days + 719468) / 146097 = era at *
  -- the year of the era
  rw [Int.tdiv_eq_ediv_of_nonneg hlow, Int.tdiv_eq_ediv_of_nonneg hlow,
    Int.tdiv_eq_ediv_of_nonneg hlow, strictI64_bind (by simp only [InI64]; omega),
    strictI64_bind (by simp only [InI64]; omega), strictI64_bind (by simp only [InI64]; omega)]
  dsimp only
  rw [Int.tdiv_eq_ediv_of_nonneg (by omega), ← yearOfEra]
  generalize yearOfEra doe = yoe at *
  -- the day of the year
  unfold daysBeforeEraYear at *
  rw [Int.tdiv_eq_ediv_of_nonneg hyoe, Int.tdiv_eq_ediv_of_nonneg hyoe,
    strictI64_bind (by simp only [InI64]; omega), strictI64_bind (by simp only [InI64]; omega),
    strictI64_bind (by simp only [InI64]; omega), strictI64_bind (by simp only [InI64]; omega)]
  dsimp only
  have hdoy : 0 ≤ doe - (365 * yoe + yoe / 4 - yoe / 100) ∧
      doe - (365 * yoe + yoe / 4 - yoe / 100) ≤ 365 := by omega
  generalize doe - (365 * yoe + yoe / 4 - yoe / 100) = doy at *
  -- the month and the day of the month
  rw [strictI64_bind (by simp only [InI64]; omega), strictI64_bind (by simp only [InI64]; omega)]
  dsimp only
  rw [Int.tdiv_eq_ediv_of_nonneg (by omega)]
  have hmp : 0 ≤ (5 * doy + 2) / 153 ∧ (5 * doy + 2) / 153 ≤ 11 ∧
      daysFromMarch ((5 * doy + 2) / 153) ≤ doy := by
    unfold daysFromMarch
    omega
  unfold daysFromMarch at *
  generalize (5 * doy + 2) / 153 = mp at *
  rw [strictI64_bind (by simp only [InI64]; omega), strictI64_bind (by simp only [InI64]; omega)]
  dsimp only
  rw [Int.tdiv_eq_ediv_of_nonneg (by omega), strictI64_bind (by simp only [InI64]; omega),
    strictI64_bind (by simp only [InI64]; omega), expectU32_bind (by simp only; omega)]
  have hrange : 1 ≤ (if mp < 10 then mp + 3 else mp - 9) ∧
      (if mp < 10 then mp + 3 else mp - 9) ≤ 12 := by
    split <;> omega
  generalize (if mp < 10 then mp + 3 else mp - 9) = month at *
  rw [strictI64_bind (by simp only [InI64]; omega), expectU32_bind (by simp only; omega)]
  -- the year
  have hcarry : 0 ≤ (if month.toNat ≤ 2 then 1 else 0 : Int) ∧
      (if month.toNat ≤ 2 then 1 else 0 : Int) ≤ 1 := by
    split <;> omega
  rw [strictI64_bind (by simp only [InI64]; omega), strictI64_bind (by simp only [InI64]; omega),
    strictI64_bind (by simp only [InI64]; omega)]
  rfl

def triple (date : Date) : Int × Nat × Nat := (date.year, date.month, date.day)

theorem civilFromDays_of_seconds (seconds : I64) :
    civilFromDays (seconds / secondsPerDay) =
      .ok (triple (civilDate (seconds / secondsPerDay))) := by
  have hseconds := seconds.property
  simp only [InI64] at hseconds
  refine civilFromDays_eq ?_
  unfold secondsPerDay
  omega

/--
For every count of seconds in `i64` the date of its day is computed without a panic; it
is the only valid date with that day number.  The first day is 1970-01-01, and the day
after a day has the date that follows.
-/
theorem civil_is_gregorian :
    (∀ seconds : I64, ∃ date : Date,
      civilFromDays (seconds / secondsPerDay) = .ok (triple date) ∧ date.Valid ∧
        date.dayNumber = seconds / secondsPerDay ∧
        ∀ other : Date, other.Valid → other.dayNumber = seconds / secondsPerDay →
          other = date) ∧
    civilFromDays 0 = .ok (1970, 1, 1) ∧
    ∀ (seconds later : I64) (date : Date),
      later / secondsPerDay = seconds / secondsPerDay + 1 →
      civilFromDays (seconds / secondsPerDay) = .ok (triple date) →
        civilFromDays (later / secondsPerDay) = .ok (triple date.next) := by
  refine ⟨fun seconds => ?_, rfl, fun seconds later date hlater hdate => ?_⟩
  · obtain ⟨hvalid, hnumber⟩ := civilDate_spec (seconds / secondsPerDay)
    exact ⟨_, civilFromDays_of_seconds seconds, hvalid, hnumber, fun other hother heq =>
      hother.eq_of_dayNumber hvalid (heq.trans hnumber.symm)⟩
  · obtain ⟨hvalid, hnumber⟩ := civilDate_spec (seconds / secondsPerDay)
    obtain ⟨hvalid', hnumber'⟩ := civilDate_spec (later / secondsPerDay)
    rw [civilFromDays_of_seconds] at hdate ⊢
    obtain rfl : civilDate (seconds / secondsPerDay) = date := by
      obtain ⟨hyear, hrest⟩ := Prod.mk.inj (Except.ok.inj hdate)
      obtain ⟨hmonth, hday⟩ := Prod.mk.inj hrest
      exact Date.ext hyear hmonth hday
    have hnext := Date.dayNumber_next hvalid
    rw [hvalid'.eq_of_dayNumber hvalid.next (by rw [hnumber', hnext, hnumber, hlater])]

end Tarant.Datetime
