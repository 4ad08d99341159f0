import Groundwork.Calendar.Fields

/-!
# Local time

A zone has a standard offset from universal time and possibly daylight saving time, with an offset and
two yearly changes: the one on which it starts and the one on which it ends. A change is a day of the
year and a time of that day, told by the clock that is in effect before it.

The changes of a year are those of the year that universal time shows. A start that comes after the
end means that daylight saving time spans the new year. The day on which a year begins is counted in
32 bits from 1970, and years up to 1970 all begin on day zero.
-/

namespace Groundwork

/-- The day of the year on which a change falls. -/
inductive ChangeDay
  /-- Day `n` from 1, 29 February never being counted. -/
  | julian (n : Nat)
  /-- Day `n` from 0, 29 February being counted. -/
  | ordinal (n : Nat)
  /-- Weekday `weekday` of the `week`-th week of month `month` from 1, week 5 being the last. -/
  | weekday (month week weekday : Nat)
deriving DecidableEq, Repr

/-- A yearly change between standard and daylight saving time. -/
structure Change where
  day : ChangeDay
  /-- The time of that day in seconds. -/
  time : Int
deriving DecidableEq, Repr

/-- Daylight saving time; the offset is in seconds east of universal time. -/
structure Daylight where
  offset : Int
  start : Change
  stop : Change
deriving DecidableEq, Repr

/-- A time zone; offsets are in seconds east of universal time. -/
structure Zone where
  standard : Int
  daylight : Option Daylight
deriving DecidableEq, Repr

def Zone.utc : Zone := ⟨0, none⟩

namespace ChangeDay

/-- The day of the week of the first day of month `m` of year `y`. The division is the truncating
one, so the rule goes astray before year zero. -/
def firstWeekday (y : Int) (m : Nat) : Int :=
  let m1 : Int := ((m + 9) % 12 + 1 : Nat)
  let y0 := if m ≤ 2 then y - 1 else y
  let c := y0.tdiv 100
  let d := y0.tmod 100
  ((26 * m1 - 2) / 10 + 1 + d + d.tdiv 4 + c.tdiv 4 - 2 * c) % 7

/-- The days from the first day of a month of `length` days, a weekday `first`, to the weekday `dow`
of its week `week`; a month that has no such day in its fifth week has it in the fourth. -/
def nthWeekday (first : Int) (length week dow : Nat) : Nat :=
  let d := ((dow - first) % 7).toNat + 7 * (week - 1)
  if d < length then d else d - 7

/-- The days from the start of year `y` to the day. -/
def inYear (y : Int) : ChangeDay → Int
  | .julian n => n - 1 + if 60 ≤ n ∧ Gregorian.isLeap y then 1 else 0
  | .ordinal n => n
  | .weekday month week dow =>
    let leap := Gregorian.isLeap y
    let m := month - 1
    Gregorian.monthStart leap m
      + nthWeekday (firstWeekday y month) (Gregorian.monthLength leap m) week dow

end ChangeDay

namespace Change

/-- The day on which the changes of year `y` are counted from. -/
def yearStart (y : Int) : Int :=
  if 1970 < y then (Gregorian.yearStart y).bmod 4294967296 else 0

/-- The instant of the change in year `y`, if the clock before it is `offset` seconds ahead. -/
def instant (c : Change) (offset y : Int) : Int :=
  86400 * (yearStart y + c.day.inYear y) + c.time - offset

end Change

namespace Zone

variable (z : Zone)

/-- Whether daylight saving time is in effect at instant `t`, which falls into year `y`. -/
def isDaylight (d : Daylight) (y t : Int) : Bool :=
  let start := d.start.instant z.standard y
  let stop := d.stop.instant d.offset y
  if stop < start then t < stop || start ≤ t else start ≤ t && t < stop

/-- The seconds by which local time is ahead at instant `t`, and whether that is daylight saving
time; `year` is the year field of universal time, and years are counted in 32 bits. -/
def offsetAt (year : Int32) (t : Int) : Int × Bool :=
  match z.daylight with
  | none => (z.standard, false)
  | some d =>
    if z.isDaylight d (1900 + year).toInt t then (d.offset, true) else (z.standard, false)

/-- The fields that a clock in the zone shows at instant `t`, if universal and local time both have
a year that fits. -/
def fields (t : Int) : Option Fields := do
  let u ← Fields.ofSeconds t
  let (offset, dst) := z.offsetAt u.year t
  let c ← Fields.ofSeconds (t + offset)
  return { c with isdst := if dst then 1 else 0 }

end Zone

end Groundwork
