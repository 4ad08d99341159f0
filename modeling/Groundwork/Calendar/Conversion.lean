import Groundwork.Calendar.Inverse
import Groundwork.System.Error

/-!
# Converting between instants and calendar fields

An instant is a count of seconds since the epoch. Broken down in universal time it has daylight flag
zero; in local time it has the zone's offset and flag. The way back ignores the day of the week and
the day of the year, and in universal time the daylight flag too. It also depends on what came before:
the first conversion of a process looks for the file that the zone is named after, and so does one from
fields in local time after the zone has been renamed. A zone that is given by its rules has no such
file, and the error of not finding it is left behind (`Zone.Past`).
-/

namespace Groundwork

inductive ClockChoice
  | utc
  | zone
deriving DecidableEq, Repr

/-- Why a point in time could not be had. -/
inductive TimeError
  /-- The system's clock cannot be read. -/
  | clock (e : OsError)
  /-- The instant has a year that no calendar field holds. -/
  | calendar (seconds : Int) (e : OsError)
  /-- The fields are those of no instant. -/
  | linear (e : OsError)
  /-- The instant is beyond what the system counts. -/
  | overflow (seconds : Int)
deriving DecidableEq, Repr

def TimeError.message : TimeError → String
  | .clock e => "clock unavailable: " ++ e.message
  | .calendar seconds e =>
    toString seconds ++ " seconds since the epoch has no calendar representation: " ++ e.message
  | .linear e =>
    "calendar time has no representation in seconds since the epoch: " ++ e.message
  | .overflow seconds => toString seconds ++ " does not fit in time_t"

namespace Zone

variable (z : Zone)

def clock : ClockChoice → Clock
  | .utc => Fields.ofSeconds
  | .zone => z.fields

/-- The fields shown at an instant. -/
def toCalendar (choice : ClockChoice) (seconds : Int) : Except TimeError Fields :=
  match z.clock choice seconds with
  | some c => .ok c
  | none => .error (.calendar seconds .overflow)

/-- What a conversion finds of those made before it. -/
structure Past where
  /-- The correction at which the last search in the zone ended. -/
  carried : Int32
  /-- The error left by looking for the zone's file, where that is still to be done and fails. -/
  leftover : Option OsError
deriving DecidableEq, Repr

/-- What is made of the instant that a search returns and the error that there is then. Minus one is an
instant and the mark of a failure, so the error decides. -/
def judged (t : Int) (left : Option OsError) : Except TimeError Int :=
  match left with
  | some e => if t = -1 then .error (.linear e) else .ok t
  | none => .ok t

/-- The instant that fields stand for. In universal time all searches end at no correction. -/
def fromCalendarIn (past : Past) (choice : ClockChoice) (c : Fields) : Except TimeError Int :=
  let found := match choice with
    | .utc => (z.clock choice).instant? { c with isdst := 0 }
    | .zone => (z.clock choice).instantFrom? past.carried c
  match found with
  | some t => judged t past.leftover
  | none => judged (-1) (some .overflow)

/-- The instant that fields stand for, where the zone's file has been looked for, as by any conversion,
and an earlier search in the zone ended at the correction `carried`. -/
def fromCalendarAfter (carried : Int32) : ClockChoice → Fields → Except TimeError Int :=
  z.fromCalendarIn ⟨carried, none⟩

/-- The instant that fields stand for, where the zone's file has been looked for and no search has been
made before. -/
def fromCalendar (choice : ClockChoice) (c : Fields) : Except TimeError Int :=
  z.fromCalendarAfter 0 choice c

theorem toCalendar_of_eq_some {choice : ClockChoice} {seconds : Int} {c : Fields}
    (h : z.clock choice seconds = some c) : z.toCalendar choice seconds = .ok c := by
  simp [toCalendar, h]

theorem judged_eq_ok {t : Int} {left : Option OsError} (h : t = -1 → left = none) :
    judged t left = .ok t := by
  cases left with
  | none => rfl
  | some e => exact if_neg fun ht => nomatch h ht

theorem judged_neg_one (e : OsError) : judged (-1) (some e) = .error (.linear e) := rfl

theorem eq_of_judged_eq_ok {t v : Int} {left : Option OsError} (h : judged t left = .ok v) : v = t := by
  unfold judged at h
  split at h
  · split at h
    · cases h
    · exact (Except.ok.inj h).symm
  · exact (Except.ok.inj h).symm

theorem eq_neg_one_of_judged_eq_error {t : Int} {left : Option OsError} {e : TimeError}
    (h : judged t left = .error e) : t = -1 := by
  unfold judged at h
  split at h
  · split at h
    · assumption
    · cases h
  · cases h

theorem fromCalendarIn_utc_of_eq_some {past : Past} {c : Fields} {seconds : Int}
    (h : Clock.instant? Fields.ofSeconds { c with isdst := 0 } = some seconds) :
    z.fromCalendarIn past .utc c = judged seconds past.leftover := by
  unfold fromCalendarIn
  dsimp only [clock]
  rw [h]

theorem fromCalendarIn_zone_of_eq_some {past : Past} {c : Fields} {seconds : Int}
    (h : Clock.instantFrom? z.fields past.carried c = some seconds) :
    z.fromCalendarIn past .zone c = judged seconds past.leftover := by
  unfold fromCalendarIn
  dsimp only [clock]
  rw [h]

theorem fromCalendarAfter_zone_of_eq_some {carried : Int32} {c : Fields} {seconds : Int}
    (h : Clock.instantFrom? z.fields carried c = some seconds) :
    z.fromCalendarAfter carried .zone c = .ok seconds :=
  z.fromCalendarIn_zone_of_eq_some h

end Zone

end Groundwork
