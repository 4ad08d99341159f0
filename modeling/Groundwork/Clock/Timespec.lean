import Groundwork.Binary.Arithmetic
import Groundwork.Clock.Nanoseconds

/-!
# Clock readings

A reading of a clock is a number of seconds and of nanoseconds, which order it. As a floating-point
number of seconds it is the sum of its two parts, each converted by itself; ticks of processor time
are millionths of a second.
-/

namespace Groundwork

structure Timespec where
  sec : Int
  /-- A reading has less than a second here; other values are allowed. -/
  nsec : Int
deriving DecidableEq, Repr

namespace Timespec

/-- The order of two readings, the seconds first. -/
def compare (a b : Timespec) : Ordering := (Ord.compare a.sec b.sec).then (Ord.compare a.nsec b.nsec)

/-- The seconds of a reading as a floating-point number. -/
def seconds (t : Timespec) : Binary .double :=
  (Binary.ofInt .double t.sec).sum ((Binary.ofInt .double t.nsec).quotient (.ofInt .double Nanoseconds.perSecond))

/-- The reading of a clock that has counted `n` nanoseconds. -/
def ofNanoseconds (n : Nat) : Timespec := ⟨(n / Nanoseconds.perSecond : Nat), (n % Nanoseconds.perSecond : Nat)⟩

def isNormal (t : Timespec) : Bool := 0 ≤ t.nsec && t.nsec < Nanoseconds.perSecond

end Timespec

namespace Ticks

/-- Ticks of processor time in a second. -/
def perSecond : Nat := 1000000

/-- Processor time in seconds. -/
def seconds (ticks : Int) : Binary .double :=
  (Binary.ofInt .double ticks).quotient (.ofInt .double perSecond)

/-- The ticks in a reading of the processor clock. -/
def ofTimespec (t : Timespec) : Int := t.sec * perSecond + t.nsec.tdiv 1000

end Ticks

end Groundwork
