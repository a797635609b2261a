import Tarant.Datetime

/-!
# Datetimes and the system clock

`SystemTime` is a signed 64-bit count of seconds and the nanoseconds after it.  A time
before the epoch reaches a datetime as the duration up to the epoch, whose seconds are
then negated.
-/

namespace Tarant

/-! ## The clock and its durations -/

@[ext] structure Duration where
  secs : Nat
  nanos : Nat
  secs_lt : secs < 2 ^ 64
  nanos_lt : nanos < nanosPerSecond

@[ext] structure SystemTime where
  secs : I64
  nanos : Nat
  nanos_lt : nanos < nanosPerSecond

def Duration.ofNanos (n : Nat) (h : n < 2 ^ 64 * nanosPerSecond) : Duration where
  secs := n / nanosPerSecond
  nanos := n % nanosPerSecond
  secs_lt := Nat.div_lt_of_lt_mul (Nat.mul_comm _ _ ▸ h)
  nanos_lt := Nat.mod_lt _ nanosPerSecond_pos

def Duration.total (d : Duration) : Nat := d.secs * nanosPerSecond + d.nanos

def Duration.add (a b : Duration) : Except Panic Duration :=
  if h : a.total + b.total < 2 ^ 64 * nanosPerSecond then .ok (.ofNanos _ h)
  else .error .overflow

namespace SystemTime

def total (time : SystemTime) : Int := time.secs * nanosPerSecond + time.nanos

theorem natMod_lt (n : Int) : (n % nanosPerSecond).toNat < nanosPerSecond := by
  unfold nanosPerSecond
  omega

def ofTotal (n : Int) : Option SystemTime :=
  if h : InI64 (n / nanosPerSecond) then
    some ⟨⟨_, h⟩, (n % nanosPerSecond).toNat, natMod_lt n⟩
  else none

def unixEpoch : SystemTime := ⟨⟨0, inI64_zero⟩, 0, nanosPerSecond_pos⟩

theorem apart_lt (a b : SystemTime) : (a.total - b.total).natAbs < 2 ^ 64 * nanosPerSecond := by
  have ha := a.secs.property
  have hb := b.secs.property
  have han := a.nanos_lt
  have hbn := b.nanos_lt
  unfold InI64 at ha hb
  unfold total
  unfold nanosPerSecond at *
  omega

def durationSince (time other : SystemTime) : Except Duration Duration :=
  let apart := Duration.ofNanos _ (apart_lt time other)
  if other.total ≤ time.total then .ok apart else .error apart

def checkedAdd (time : SystemTime) (d : Duration) : Option SystemTime :=
  ofTotal (time.total + d.total)

def checkedSub (time : SystemTime) (d : Duration) : Option SystemTime :=
  ofTotal (time.total - d.total)

end SystemTime

/-! ## The conversions -/

namespace Datetime

def fromSystemTime (time : SystemTime) : Except Panic Datetime :=
  match time.durationSince .unixEpoch with
  | .ok after => return fromUnix ⟨_, inI64_ofLen after.secs⟩ after.nanos
  | .error before => do
      let seconds ← strictI64 (-i64OfLen before.secs)
      if before.nanos = 0 then return fromUnix seconds 0
      else
        let seconds ← strictI64 (seconds - 1)
        -- in `u32`, as the nanoseconds are below a second
        return fromUnix seconds (nanosPerSecond - before.nanos)

theorem unsignedAbs_lt (n : I64) : n.val.natAbs < 2 ^ 64 := by
  have h := n.property
  unfold InI64 at h
  omega

theorem nsec_lt_all (d : Datetime) : d.nsec < 2 ^ 64 * nanosPerSecond :=
  d.nsec_lt.trans (by decide)

def nanos (value : Datetime) : Duration := .ofNanos value.nsec value.nsec_lt_all

def seconds (value : Datetime) : Duration :=
  ⟨value.epoch.val.natAbs, 0, unsignedAbs_lt _, nanosPerSecond_pos⟩

def toSystemTime (value : Datetime) : Except Panic (Except DatetimeError SystemTime) := do
  let outOfRange : DatetimeError := ⟨"out of range for SystemTime"⟩
  if 0 ≤ value.epoch.val then
    let after ← value.seconds.add value.nanos
    return (SystemTime.unixEpoch.checkedAdd after).elim (.error outOfRange) .ok
  else
    return ((SystemTime.unixEpoch.checkedSub value.seconds).bind (·.checkedAdd value.nanos)).elim
      (.error outOfRange) .ok

end Datetime

/-! ## Times as nanoseconds -/

theorem Duration.total_ofNanos {n : Nat} (h : n < 2 ^ 64 * nanosPerSecond) :
    (Duration.ofNanos n h).total = n := Nat.div_add_mod' n nanosPerSecond

namespace SystemTime

theorem total_epoch : unixEpoch.total = 0 := by decide

theorem ofTotal_total (time : SystemTime) : ofTotal time.total = some time := by
  have hnanos := time.nanos_lt
  have hsecs : time.total / nanosPerSecond = time.secs := by
    unfold total
    unfold nanosPerSecond at *
    omega
  have hrest : (time.total % nanosPerSecond).toNat = time.nanos := by
    unfold total
    unfold nanosPerSecond at *
    omega
  unfold ofTotal
  rw [dif_pos (hsecs ▸ time.secs.property)]
  exact congrArg some (SystemTime.ext (Subtype.ext hsecs) hrest)

theorem since_epoch {time : SystemTime} (h : 0 ≤ time.secs.val) :
    ∃ after : Duration, time.durationSince unixEpoch = .ok after ∧
      after.secs = time.secs.val.toNat ∧ after.nanos = time.nanos := by
  have hnanos := time.nanos_lt
  have hle : unixEpoch.total ≤ time.total := by
    rw [total_epoch]
    unfold total nanosPerSecond
    omega
  refine ⟨_, if_pos hle, ?_, ?_⟩ <;> simp only [Duration.ofNanos, total_epoch] <;>
    unfold total <;> unfold nanosPerSecond at * <;> omega

theorem until_epoch {time : SystemTime} (h : time.secs.val < 0) :
    ∃ before : Duration, time.durationSince unixEpoch = .error before ∧
      (time.nanos = 0 → before.secs = -time.secs.val ∧ before.nanos = 0) ∧
      (time.nanos ≠ 0 → before.secs = -time.secs.val - 1 ∧
        before.nanos = nanosPerSecond - time.nanos) := by
  have hnanos := time.nanos_lt
  have hle : ¬ unixEpoch.total ≤ time.total := by
    rw [total_epoch]
    unfold total nanosPerSecond at *
    omega
  refine ⟨_, if_neg hle, fun hzero => ?_, fun hne => ?_⟩ <;>
    simp only [Duration.ofNanos, total_epoch] <;> unfold total <;>
    unfold nanosPerSecond at * <;> omega

end SystemTime

namespace Datetime

/-! ## What the conversions give -/

theorem total_nanos (d : Datetime) : d.nanos.total = d.nsec := Duration.total_ofNanos _

theorem total_seconds (d : Datetime) : d.seconds.total = d.epoch.val.natAbs * nanosPerSecond := by
  simp [Duration.total, seconds]

theorem toSystemTime_eq (d : Datetime) :
    d.toSystemTime = .ok (.ok ⟨d.epoch, d.nsec, d.nsec_lt⟩) := by
  have hnsec := d.nsec_lt
  have hepoch := d.epoch.property
  unfold InI64 at hepoch
  have htime := SystemTime.ofTotal_total ⟨d.epoch, d.nsec, d.nsec_lt⟩
  have hwhole := SystemTime.ofTotal_total ⟨d.epoch, 0, nanosPerSecond_pos⟩
  unfold toSystemTime
  split
  next hafter =>
      have hroom : d.seconds.total + d.nanos.total < 2 ^ 64 * nanosPerSecond := by
        rw [total_nanos, total_seconds]
        unfold nanosPerSecond at *
        omega
      have hsum : SystemTime.unixEpoch.total + (Duration.ofNanos _ hroom).total =
          SystemTime.total ⟨d.epoch, d.nsec, d.nsec_lt⟩ := by
        rw [SystemTime.total_epoch, Duration.total_ofNanos, total_nanos, total_seconds]
        unfold SystemTime.total nanosPerSecond
        dsimp only
        omega
      have hadd : d.seconds.add d.nanos = .ok (Duration.ofNanos _ hroom) := dif_pos hroom
      rw [hadd]
      change Except.ok ((SystemTime.unixEpoch.checkedAdd _).elim _ _) = _
      rw [SystemTime.checkedAdd, hsum, htime]
      rfl
  next hbefore =>
      have hsub : SystemTime.unixEpoch.total - d.seconds.total =
          SystemTime.total ⟨d.epoch, 0, nanosPerSecond_pos⟩ := by
        rw [SystemTime.total_epoch, total_seconds]
        unfold SystemTime.total nanosPerSecond
        dsimp only
        omega
      have hadd : SystemTime.total ⟨d.epoch, 0, nanosPerSecond_pos⟩ + d.nanos.total =
          SystemTime.total ⟨d.epoch, d.nsec, d.nsec_lt⟩ := by
        rw [total_nanos]
        unfold SystemTime.total
        dsimp only
        omega
      rw [SystemTime.checkedSub, hsub, hwhole, Option.bind_some, SystemTime.checkedAdd, hadd, htime]
      rfl

theorem fromSystemTime_eq (time : SystemTime) :
    ∃ d, fromSystemTime time = .ok d ∧ d.nsec = time.nanos ∧
      (d.epoch = time.secs ↔ ¬ (time.secs.val = -2 ^ 63 ∧ time.nanos = 0)) := by
  have hsecs := time.secs.property
  unfold InI64 at hsecs
  unfold fromSystemTime
  rcases Int.lt_or_le time.secs.val 0 with hbefore | hafter
  · obtain ⟨before, hsince, hwhole, hpart⟩ := time.until_epoch hbefore
    have hnegated : InI64 (-i64OfLen before.secs) := by
      unfold i64OfLen InI64
      split <;> omega
    rw [hsince]
    dsimp only
    rw [strictI64_bind hnegated]
    by_cases hnanos : time.nanos = 0
    · obtain ⟨hbeforeSecs, hbeforeNanos⟩ := hwhole hnanos
      obtain ⟨hepoch, hnsec⟩ := fromUnix_small ⟨_, hnegated⟩ nanosPerSecond_pos
      rw [if_pos hbeforeNanos]
      refine ⟨_, rfl, hnsec.trans hnanos.symm, ?_⟩
      rw [hepoch, Subtype.ext_iff]
      simp only [i64OfLen, hnanos, and_true]
      split <;> omega
    · obtain ⟨hbeforeSecs, hbeforeNanos⟩ := hpart hnanos
      have hrest := time.nanos_lt
      have hseconds : InI64 (-i64OfLen before.secs - 1) := by
        unfold i64OfLen InI64
        split <;> omega
      have hborrowed : before.nanos ≠ 0 := by omega
      rw [if_neg hborrowed, strictI64_bind hseconds]
      obtain ⟨hepoch, hnsec⟩ := fromUnix_small ⟨_, hseconds⟩
        (show nanosPerSecond - before.nanos < nanosPerSecond by omega)
      refine ⟨_, rfl, hnsec.trans (by omega), ?_⟩
      rw [hepoch, Subtype.ext_iff]
      simp only [i64OfLen]
      split <;> omega
  · obtain ⟨after, hsince, hsecs', hnanos⟩ := time.since_epoch hafter
    rw [hsince]
    have hlen : (⟨_, inI64_ofLen after.secs⟩ : I64) = time.secs := by
      refine Subtype.ext ?_
      simp only [i64OfLen, hsecs']
      omega
    obtain ⟨hepoch, hnsec⟩ := fromUnix_small time.secs time.nanos_lt
    refine ⟨_, rfl, ?_, ?_⟩
    · rw [hlen, hnanos, hnsec]
    · rw [hlen, hnanos, hepoch]
      exact iff_of_true rfl fun h => by omega

/-! ## There and back -/

/-- A datetime is its time of the clock again. -/
def Lossless (d : Datetime) : Prop :=
  ∀ time, d.toSystemTime = .ok (.ok time) →
    ∃ back, fromSystemTime time = .ok back ∧ back.epoch = d.epoch ∧ back.nsec = d.nsec

/-- A time of the clock is its datetime again. -/
def Returns (time : SystemTime) : Prop :=
  ∃ d, fromSystemTime time = .ok d ∧ d.toSystemTime = .ok (.ok time)

/--
Neither conversion panics.  Both are lossless, but for the instant at the very start of
the seconds: its distance from the epoch is no `i64`.
-/
theorem clock_is_lossless_iff (d : Datetime) (time : SystemTime) :
    ((∃ result, d.toSystemTime = .ok result) ∧
      (d.Lossless ↔ ¬ (d.epoch.val = -2 ^ 63 ∧ d.nsec = 0))) ∧
    (∃ d, fromSystemTime time = .ok d) ∧
      (Returns time ↔ ¬ (time.secs.val = -2 ^ 63 ∧ time.nanos = 0)) := by
  refine ⟨⟨⟨_, toSystemTime_eq d⟩, ?_⟩, ?_⟩
  · obtain ⟨back, hback, hnsec, hepoch⟩ := fromSystemTime_eq ⟨d.epoch, d.nsec, d.nsec_lt⟩
    rw [← hepoch]
    constructor
    · intro h
      obtain ⟨back', hback', hepoch', -⟩ := h _ (toSystemTime_eq d)
      obtain rfl := Except.ok.inj (hback.symm.trans hback')
      exact hepoch'
    · intro h time htime
      obtain rfl := Except.ok.inj (Except.ok.inj ((toSystemTime_eq d).symm.trans htime))
      exact ⟨back, hback, h, hnsec⟩
  · obtain ⟨d, hd, hnsec, hepoch⟩ := fromSystemTime_eq time
    refine ⟨⟨d, hd⟩, ?_⟩
    rw [← hepoch]
    constructor
    · rintro ⟨d', hd', htime⟩
      obtain rfl := Except.ok.inj (hd.symm.trans hd')
      exact congrArg SystemTime.secs
        (Except.ok.inj (Except.ok.inj ((toSystemTime_eq d).symm.trans htime)))
    · intro h
      refine ⟨d, hd, (toSystemTime_eq d).trans ?_⟩
      exact congrArg (fun time => Except.ok (Except.ok time)) (SystemTime.ext h hnsec)

theorem inI64_min : InI64 (-2 ^ 63) := by decide

/-- The first second of the clock comes back as the second one. -/
theorem first_second_is_lost :
    (∃ back, fromSystemTime ⟨⟨-2 ^ 63, inI64_min⟩, 0, nanosPerSecond_pos⟩ = .ok back ∧
      back.epoch.val = -2 ^ 63 + 1) ∧
    ¬ ((∀ d : Datetime, d.Lossless) ∧ ∀ time, Returns time) := by
  have hlost : ∃ back, fromSystemTime ⟨⟨-2 ^ 63, inI64_min⟩, 0, nanosPerSecond_pos⟩ = .ok back ∧
      back.epoch.val = -2 ^ 63 + 1 := ⟨_, rfl, rfl⟩
  refine ⟨hlost, fun hall => ?_⟩
  obtain ⟨back, hback, hepoch⟩ := hlost
  obtain ⟨d, hd, htime⟩ := hall.2 ⟨⟨-2 ^ 63, inI64_min⟩, 0, nanosPerSecond_pos⟩
  obtain rfl := Except.ok.inj (hback.symm.trans hd)
  have hsecs := congrArg (fun time => time.secs.val)
    (Except.ok.inj (Except.ok.inj ((toSystemTime_eq back).symm.trans htime)))
  rw [hepoch] at hsecs
  exact absurd hsecs (by decide)

end Datetime

end Tarant
