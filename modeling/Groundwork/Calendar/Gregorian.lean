/-!
# The proleptic Gregorian calendar

Days are counted from 1 January 1970 and years are the years of the Gregorian calendar carried on in
both directions without bound, with a year zero. `yearStart` is the day on which a year begins and
`yearOf` the year that a day falls in: it takes off whole cycles of 400, 100, 4 and 1 years.
-/

namespace Groundwork

namespace Gregorian

/-- Every fourth year is a leap year, except every hundredth, but for every four hundredth. -/
def isLeap (y : Int) : Bool := y % 4 = 0 && (y % 100 ≠ 0 || y % 400 = 0)

/-- The days from 1 January of year 1 to 1 January of year `y`. -/
def daysBefore (y : Int) : Int := 365 * (y - 1) + (y - 1) / 4 - (y - 1) / 100 + (y - 1) / 400

/-- The day on which year `y` begins. -/
def yearStart (y : Int) : Int := daysBefore y - daysBefore 1970

/-- The length of a month; months are counted from zero. -/
def monthLength (leap : Bool) (m : Nat) : Nat :=
  match m with
  | 1 => if leap then 29 else 28
  | 3 | 5 | 8 | 10 => 30
  | _ => 31

/-- The days of a year before its month `m`. -/
def monthStart (leap : Bool) : Nat → Nat
  | 0 => 0
  | m + 1 => monthStart leap m + monthLength leap m

/-- The year in which day `n` falls, and the number of days since that year began. -/
def yearOf (n : Int) : Int × Int :=
  let d := n + daysBefore 1970
  let r := d % 146097
  let century := min (r / 36524) 3
  let r := r - 36524 * century
  let leap := r / 1461
  let r := r - 1461 * leap
  let single := min (r / 365) 3
  (400 * (d / 146097) + 100 * century + 4 * leap + single + 1, r - 365 * single)

/-- The month in which day `yday` of a year falls, counted down from `m`. -/
def monthOf (leap : Bool) (yday : Nat) : Nat → Nat
  | 0 => 0
  | m + 1 => if monthStart leap (m + 1) ≤ yday then m + 1 else monthOf leap yday m

/-- The day of the week of day `n`, Sunday being zero; 1 January 1970 was a Thursday. -/
def weekday (n : Int) : Int := (4 + n) % 7

theorem yearStart_epoch : yearStart 1970 = 0 := rfl

end Gregorian

end Groundwork
