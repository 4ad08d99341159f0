import Groundwork.Clock.Timespec

/-!
# The clocks of a system

A system has a clock for the time of day, one that counts from its start, and for each process one that
counts the processor time it has used. All are counts of nanoseconds, and none is ever set back while
time passes.
-/

namespace Groundwork

/-- The counts behind the clocks, in nanoseconds. -/
structure Clocks where
  /-- The time of day at which the system was started, counted from the epoch. -/
  boot : Nat
  /-- The time since then. -/
  uptime : Nat
  /-- The processor time that the process has used. -/
  busy : Nat
deriving DecidableEq, Repr

namespace Clocks

variable (c : Clocks)

/-- The clocks of a system started in the year 2024. -/
def initial : Clocks := ⟨1704067200 * Nanoseconds.perSecond, 0, 0⟩

/-- The clocks after a time, of which the process was running for a part. -/
def after (time busy : Nat) : Clocks :=
  { c with uptime := c.uptime + time, busy := c.busy + min time busy }

/-- The time of day. -/
def realtime : Timespec := .ofNanoseconds (c.boot + c.uptime)

/-- The time since the start of the system. -/
def monotonic : Timespec := .ofNanoseconds c.uptime

/-- The processor time in ticks. -/
def processor : Int := Ticks.ofTimespec (.ofNanoseconds c.busy)

/-- Whether the time of day is a proper reading, past a second of the year 2020. -/
def realtimeIsSound : Bool := c.realtime.isNormal && 1600000000 < c.realtime.sec

/-- Whether the time since the start is a proper reading and not before an earlier one. -/
def monotonicIsSound (earlier : Clocks) : Bool :=
  c.monotonic.isNormal && earlier.monotonic.compare c.monotonic != .gt

/-- Whether the processor time is not negative and not before an earlier one. -/
def processorIsSound (earlier : Clocks) : Bool :=
  0 ≤ earlier.processor && earlier.processor ≤ c.processor

end Clocks

end Groundwork
