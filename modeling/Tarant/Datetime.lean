import Tarant.Machine
import Tarant.Error

/-!
# Datetimes

Tarantool's `datetime` field type: Unix time in seconds and nanoseconds, and beside it
the zone it is shown in.  The nanoseconds are below a second by construction.
-/

namespace Tarant

def nanosPerSecond : Nat := 1000000000

def secondsPerDay : Int := 86400

theorem nanosPerSecond_pos : 0 < nanosPerSecond := by decide

structure DatetimeError where
  reason : String
  deriving DecidableEq, Repr

@[ext] structure Datetime where
  epoch : I64
  nsec : Nat
  tzOffset : I16
  tzIndex : I16
  nsec_lt : nsec < nanosPerSecond
  deriving DecidableEq

namespace Datetime

/-- The instant `seconds` after the Unix epoch; whole seconds in `nanoseconds` carry. -/
def fromUnix (seconds : I64) (nanoseconds : Nat) : Datetime where
  epoch := saturateI64 (seconds + (nanoseconds / nanosPerSecond : Nat))
  nsec := nanoseconds % nanosPerSecond
  tzOffset := ⟨0, inI16_zero⟩
  tzIndex := ⟨0, inI16_zero⟩
  nsec_lt := Nat.mod_lt _ nanosPerSecond_pos

/-- `==`: the same instant, in whatever zones. -/
def eq (a b : Datetime) : Bool := (a.epoch, a.nsec) == (b.epoch, b.nsec)

theorem fromUnix_small (seconds : I64) {nanoseconds : Nat} (h : nanoseconds < nanosPerSecond) :
    (fromUnix seconds nanoseconds).epoch = seconds ∧
      (fromUnix seconds nanoseconds).nsec = nanoseconds := by
  refine ⟨Subtype.ext ?_, Nat.mod_eq_of_lt h⟩
  rw [fromUnix, Nat.div_eq_of_lt h]
  exact (saturateI64_val (by simpa using seconds.property)).trans (by simp)

end Datetime

end Tarant
