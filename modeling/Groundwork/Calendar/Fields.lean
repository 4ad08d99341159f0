import Groundwork.Calendar.Gregorian

/-!
# Calendar fields

A point in time broken down into nine 32-bit fields. Months count from zero, years from 1900, days of
the week from Sunday and days of the year from 1 January. Fields that describe no real date are
allowed: `Fields.seconds` gives every combination a meaning by carrying months into years and adding
up the rest.
-/

namespace Groundwork

structure Fields where
  sec : Int32
  min : Int32
  hour : Int32
  mday : Int32
  mon : Int32
  year : Int32
  wday : Int32
  yday : Int32
  /-- Positive where daylight saving time is in effect, zero where it is not, negative where it is
  not known. -/
  isdst : Int32
deriving DecidableEq, Repr

namespace Fields

def zero : Fields := ⟨0, 0, 0, 0, 0, 0, 0, 0, 0⟩

/-- `i` is a value of a field. -/
def Holds (i : Int) : Prop := -2147483648 ≤ i ∧ i < 2147483648

instance (i : Int) : Decidable (Holds i) := inferInstanceAs (Decidable (_ ∧ _))

/-- The Gregorian year of the fields, months beyond a year carried into it. -/
def gregorianYear (c : Fields) : Int := 1900 + c.year.toInt + c.mon.toInt / 12

/-- The first day of the month of the fields. -/
def monthDay (c : Fields) : Int :=
  let y := c.gregorianYear
  Gregorian.yearStart y + Gregorian.monthStart (Gregorian.isLeap y) (c.mon.toInt % 12).toNat

/-- The seconds since the epoch of the fields read as universal time, with seconds `s`. -/
def secondsWith (c : Fields) (s : Int) : Int :=
  86400 * (c.monthDay + c.mday.toInt - 1) + 3600 * c.hour.toInt + 60 * c.min.toInt + s

/-- The seconds since the epoch of the fields read as universal time. -/
def seconds (c : Fields) : Int := c.secondsWith c.sec.toInt

/-- The fields that show time `t`, which `offset` has been added to, if its year fits; `t` is in
seconds since the epoch. -/
def ofSeconds (t : Int) : Option Fields :=
  let day := t / 86400
  let rest := t % 86400
  let (year, yday) := Gregorian.yearOf day
  let leap := Gregorian.isLeap year
  let mon := Gregorian.monthOf leap yday.toNat 11
  if Holds (year - 1900) then
    some {
      sec := Int32.ofInt (rest % 60)
      min := Int32.ofInt (rest / 60 % 60)
      hour := Int32.ofInt (rest / 3600)
      mday := Int32.ofInt (yday - Gregorian.monthStart leap mon + 1)
      mon := Int32.ofNat mon
      year := Int32.ofInt (year - 1900)
      wday := Int32.ofInt (Gregorian.weekday day)
      yday := Int32.ofInt yday
      isdst := 0 }
  else none

end Fields

end Groundwork
