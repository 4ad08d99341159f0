import Groundwork.Calendar.Conversion

/-!
# Calendar fields in flat arrays

For callers without structures the nine fields are handed over in an array of 64-bit integers: the
seconds first, the daylight flag last. A tenth integer flags a failed breakdown, whose fields are then
zero; in the other direction minus one stands for a failure as well as for the instant it is.
-/

namespace Groundwork

namespace Fields

/-- The fields in the order in which they are handed over. -/
def inOrder (c : Fields) : List Int32 :=
  [c.sec, c.min, c.hour, c.mday, c.mon, c.year, c.wday, c.yday, c.isdst]

/-- The fields as the integers that are handed over. -/
def slots (c : Fields) : List Int := c.inOrder.map Int32.toInt

/-- The fields in an array of nine integers, each cut down to 32 bits. -/
def ofSlots (data : List Int) : Fields :=
  let field (i : Nat) : Int32 := Int32.ofInt (data.getD i 0)
  ⟨field 0, field 1, field 2, field 3, field 4, field 5, field 6, field 7, field 8⟩

@[simp] theorem length_inOrder (c : Fields) : c.inOrder.length = 9 := rfl

theorem ofSlots_slots_append (c : Fields) (rest : List Int) : ofSlots (c.slots ++ rest) = c := by
  simp [ofSlots, slots, inOrder]

end Fields

namespace Zone

variable (z : Zone)

/-- The zone's clock for any number but zero. -/
def choice (isLocal : UInt8) : ClockChoice := if isLocal = 0 then .utc else .zone

/-- Writes the fields shown at an instant, and whether there are none, over the first ten integers of
an array. -/
def breakDown (isLocal : UInt8) (seconds : Int) (array : List Int) : List Int :=
  let written := match z.toCalendar (choice isLocal) seconds with
    | .ok c => c.slots ++ [0]
    | .error _ => Fields.zero.slots ++ [1]
  written ++ array.drop 10

/-- The instant that nine integers stand for, or minus one. -/
def buildUpIn (past : Past) (isLocal : UInt8) (data : List Int) : Int :=
  match z.fromCalendarIn past (choice isLocal) (.ofSlots data) with
  | .ok t => t
  | .error _ => -1

/-- The instant that nine integers stand for, or minus one, where the zone's file has been looked for and
no search has been made before. -/
def buildUp (isLocal : UInt8) (data : List Int) : Int := z.buildUpIn ⟨0, none⟩ isLocal data

variable {z : Zone} {isLocal : UInt8} {past : Past} {seconds t : Int} {c : Fields} {e : TimeError}
  {data : List Int}

theorem breakDown_of_ok (h : z.toCalendar (choice isLocal) seconds = .ok c) (array : List Int) :
    z.breakDown isLocal seconds array = c.slots ++ 0 :: array.drop 10 := by
  simp [breakDown, h]

theorem breakDown_of_error (h : z.toCalendar (choice isLocal) seconds = .error e)
    (array : List Int) :
    z.breakDown isLocal seconds array = Fields.zero.slots ++ 1 :: array.drop 10 := by
  simp [breakDown, h]

theorem buildUpIn_of_ok
    (h : z.fromCalendarIn past (choice isLocal) (.ofSlots data) = .ok t) :
    z.buildUpIn past isLocal data = t := by
  simp [buildUpIn, h]

theorem buildUpIn_of_error
    (h : z.fromCalendarIn past (choice isLocal) (.ofSlots data) = .error e) :
    z.buildUpIn past isLocal data = -1 := by
  simp [buildUpIn, h]

end Zone

end Groundwork
