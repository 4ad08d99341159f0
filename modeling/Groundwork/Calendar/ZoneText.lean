import Groundwork.Calendar.Zone
import Groundwork.Text.Numeral

/-!
# Zones as text

A zone is written as in `EST5EDT,M3.2.0,M11.1.0/3`: a name and an offset for standard time, a name and
possibly an offset for daylight saving time, and the two changes. A name is three or more letters, or
three or more letters, digits and signs in angle brackets. An offset is positive to the west, so its
sign is turned; daylight saving time without an offset is an hour ahead of standard time, and a change
without a time is at two o'clock. Without changes, those of March and November hold. A text that
starts with no name and offset is universal time.
-/

namespace Groundwork

namespace Zone

/-- Takes one given byte off the front of a text. -/
def skip? (c : Char) : Bytes → Option Bytes
  | [] => none
  | b :: s => if b = c.toUInt8 then some s else none

/-- Whether a byte may stand in a name in angle brackets. -/
def isQuotedNameByte (b : UInt8) : Bool :=
  Ascii.isLetter b || Ascii.isDigit b || b = '+'.toUInt8 || b = '-'.toUInt8

/-- Skips the name of a kind of time. -/
def skipName? (s : Bytes) : Option Bytes :=
  if 3 ≤ (s.takeWhile Ascii.isLetter).length then some (s.dropWhile Ascii.isLetter)
  else do
    let s ← skip? '<' s
    if 3 ≤ (s.takeWhile isQuotedNameByte).length then skip? '>' (s.dropWhile isQuotedNameByte)
    else none

/-- The number of 64 bits that digits after a sign make. A number that is too great counts as the
greatest, and the minus sign turns a number within the 64 bits. -/
def wrap (negative : Bool) (n : Nat) : Nat :=
  if 18446744073709551616 ≤ n then 18446744073709551615
  else if negative then 18446744073709551616 - n
  else n

/-- A number of 16 bits and what follows it; blanks and a sign may come before it. -/
def number? (s : Bytes) : Option (Nat × Bytes) :=
  let (negative, body) := Ascii.splitSign (s.dropWhile Ascii.isSpace)
  match Numeral.spanDigits 10 body with
  | ([], _) => none
  | (ds, rest) => some (wrap negative (Numeral.value 10 ds) % 65536, rest)

/-- Hours, and minutes and seconds where they are given after colons. -/
def clock? (s : Bytes) : Option ((Nat × Nat × Nat) × Bytes) := do
  let (h, s) ← number? s
  match (skip? ':' s).bind number? with
  | none => return ((h, 0, 0), s)
  | some (m, s) =>
    match (skip? ':' s).bind number? with
    | none => return ((h, m, 0), s)
    | some (c, s) => return ((h, m, c), s)

/-- The seconds of a clock reading whose parts are cut down to what an offset may have. -/
def offsetSeconds : Nat × Nat × Nat → Int
  | (h, m, s) => (min h 24 * 3600 + min m 59 * 60 + min s 59 : Nat)

/-- Whether a text starts with a sign or a digit. -/
def startsOffset (s : Bytes) : Bool :=
  s.head?.any fun b => Ascii.isDigit b || b = '+'.toUInt8 || b = '-'.toUInt8

/-- The offset of standard time, in seconds east. -/
def standardOffset? (s : Bytes) : Option (Int × Bytes) :=
  if startsOffset s then do
    let (negative, body) := Ascii.splitSign s
    let (t, rest) ← clock? body
    return (if negative then offsetSeconds t else -offsetSeconds t, rest)
  else none

/-- The offset of daylight saving time, an hour ahead of standard time where none is given. -/
def daylightOffset (standard : Int) (s : Bytes) : Int × Bytes :=
  let (negative, body) := Ascii.splitSign s
  match clock? body with
  | none => (standard + 3600, body)
  | some (t, rest) => (if negative then offsetSeconds t else -offsetSeconds t, rest)

/-- The number of a day of the year and what follows it. -/
def dayNumber? (s : Bytes) : Option (Nat × Bytes) :=
  match Numeral.spanDigits 10 s with
  | ([], _) => none
  | (ds, rest) => if Numeral.value 10 ds ≤ 365 then some (Numeral.value 10 ds, rest) else none

/-- The day of a change: `Jn`, `n` or `Mm.w.d`. -/
def changeDay? (s : Bytes) : Option (ChangeDay × Bytes) :=
  match skip? 'J' s with
  | some s => do
    let (n, s) ← dayNumber? s
    if 1 ≤ n then return (.julian n, s) else none
  | none =>
    match skip? 'M' s with
    | some s => do
      let (m, s) ← number? s
      let (w, s) ← (skip? '.' s).bind number?
      let (d, s) ← (skip? '.' s).bind number?
      if 1 ≤ m ∧ m ≤ 12 ∧ 1 ≤ w ∧ w ≤ 5 ∧ d ≤ 6 then return (.weekday m w d, s) else none
    | none => do
      let (n, s) ← dayNumber? s
      return (.ordinal n, s)

/-- The time of a change in seconds: two o'clock, or what stands after a slash. -/
def changeTime? (s : Bytes) : Option (Int × Bytes) :=
  match s with
  | [] => some (7200, [])
  | b :: rest =>
    if b = ','.toUInt8 then some (7200, s)
    else if b = '/'.toUInt8 ∧ rest ≠ [] then
      let (negative, body) := match skip? '-' rest with
        | some body => (true, body)
        | none => (false, rest)
      let ((h, m, c), rest) := (clock? body).getD ((2, 0, 0), body)
      let t : Int := (h * 3600 + m * 60 + c : Nat)
      some (if negative then -t else t, rest)
    else none

/-- A change after an optional comma; `usual` is the day that holds at the end of the text. -/
def change? (usual : ChangeDay) (s : Bytes) : Option (Change × Bytes) := do
  let s := (skip? ',' s).getD s
  let (day, s) ← if s = [] then some (usual, s) else changeDay? s
  let (time, s) ← changeTime? s
  return (⟨day, time⟩, s)

/-- A change that was never given: midnight on 1 January. -/
def noChange : Change := ⟨.ordinal 0, 0⟩

/-- The start and the end of daylight saving time. -/
def changes (s : Bytes) : Change × Change :=
  match change? (.weekday 3 2 0) s with
  | none => (noChange, noChange)
  | some (start, s) =>
    match change? (.weekday 11 1 0) s with
    | none => (start, noChange)
    | some (stop, _) => (start, stop)

/-- The zone that a text describes. -/
def ofBytes (s : Bytes) : Zone :=
  match (skipName? s).bind standardOffset? with
  | none => .utc
  | some (standard, []) => ⟨standard, none⟩
  | some (standard, s) =>
    let (offset, s) := match skipName? s with
      | none => (0, s)
      | some s => daylightOffset standard s
    let (start, stop) := changes s
    ⟨standard, some ⟨offset, start, stop⟩⟩

end Zone

end Groundwork
