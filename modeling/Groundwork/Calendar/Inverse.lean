import Groundwork.Calendar.Zone

/-!
# From calendar fields to instants

The instant that a clock shows given fields at is found by probing: a guess is broken down, and the
difference between the fields wanted and the fields shown is the next step. Two instants between which
the guesses swing show that the fields fall into a gap that a change leaves, and then one of the two
is the answer. Where the clock shows the fields but its daylight flag is not the wanted one, the
nearest instants on both sides are searched for one with that flag and its offset is used; where none
is found within seven years, an hour's difference is assumed.

The clock is any function from instants to fields; an instant it has no fields for is out of range.
-/

namespace Groundwork

/-- A clock: the fields shown at an instant, where their year fits. -/
abbrev Clock := Int → Option Fields

namespace Clock

variable (clock : Clock)

/-- Instants that are counted in 64 bits. -/
def leastInstant : Int := -9223372036854775808

def greatestInstant : Int := 9223372036854775807

/-- The point between two instants, the later of the two middle ones where there are two. -/
def middle (a b : Int) : Int := (a + b + 1) / 2

/-- The last instant on the way from `good`, where the clock shows `shown`, to `bad` that bisection
finds fields at. -/
def bisect (good bad : Int) (shown : Option Fields) : Option (Int × Fields) :=
  if 2 ≤ (bad - good).natAbs then
    let m := middle good bad
    match clock m with
    | some c => bisect m bad (some c)
    | none => bisect good m shown
  else shown.map (good, ·)
termination_by (bad - good).natAbs
decreasing_by all_goals unfold middle; omega

/-- The fields at `t`, or at the instant nearest to it that has any. -/
def nearest (t : Int) : Option (Int × Fields) :=
  let t := max leastInstant (min t greatestInstant)
  match clock t with
  | some c => some (t, c)
  | none => bisect clock 0 t none

/-- Whether a daylight flag is other than a wanted one; a negative flag is not known and never
differs. -/
def flagDiffers (wanted shown : Int32) : Bool :=
  (wanted = 0) != (shown = 0) && 0 ≤ wanted && 0 ≤ shown

/-- The seconds from the fields `shown` to the wanted ones, whose seconds are `s`. -/
def difference (wanted : Fields) (s : Int) (shown : Fields) : Int :=
  wanted.secondsWith s - shown.seconds

/-- How the search for a matching instant ended. -/
inductive Probe
  /-- The clock shows the wanted date and time. -/
  | exact (t : Int) (shown : Fields)
  /-- The wanted time falls into a gap; the instant is the one to take. -/
  | gap (t : Int) (shown : Fields)
deriving DecidableEq, Repr

/-- Probes from `t` on; `t1` and `t2` are the two guesses before it and `dst2` tells whether daylight
saving time was in effect at `t2`. -/
def probe (wanted : Fields) (s : Int) : Nat → Int → Int → Int → Bool → Option Probe
  | 0, _, _, _, _ => none
  | remaining + 1, t, t1, t2, dst2 => do
    let (t, shown) ← nearest clock t
    let dt := difference wanted s shown
    let dst := shown.isdst ≠ 0
    if dt = 0 then return .exact t shown
    else if t = t1 ∧ t ≠ t2 ∧ (shown.isdst < 0 ∨
        (if wanted.isdst < 0 then dst2 → dst else (wanted.isdst ≠ 0) ≠ dst)) then
      return .gap t shown
    else if remaining = 0 then none
    else probe wanted s remaining (t + dt) t2 t dst

/-- The distance between the instants at which the wanted daylight flag is looked for. -/
def stride : Int := 601200

/-- How many instants are looked at on either side. -/
def reach : Nat := 381

/-- The instants at which the wanted daylight flag is looked for, nearest first and at each distance
the earlier first. -/
def neighbours (t : Int) : List Int :=
  (List.range reach).flatMap fun i : Nat => [t - stride * (i + 1), t + stride * (i + 1)]

/-- What the clock would make of the wanted fields under the offset that holds at one of the given
instants with the wanted flag. The outer `none` says that an instant had no fields near it. -/
def borrow (wanted : Fields) (s : Int) : List Int → Option (Option (Int × Fields))
  | [] => some none
  | u :: us => do
    let (u, shown) ← nearest clock u
    if flagDiffers wanted.isdst shown.isdst then borrow wanted s us
    else
      let g := u + difference wanted s shown
      match if leastInstant ≤ g ∧ g ≤ greatestInstant then clock g else none with
      | some c => some (some (g, c))
      | none => borrow wanted s us

/-- Settles the daylight flag of an instant at which the clock shows the wanted date and time. -/
def settle (wanted : Fields) (s : Int) (t : Int) (shown : Fields) : Option (Int × Fields) :=
  if flagDiffers wanted.isdst shown.isdst then do
    match ← borrow clock wanted s (neighbours t) with
    | some found => return found
    | none =>
      let t := t + if wanted.isdst = 0 then 3600 else -3600
      let c ← clock t
      return (t, c)
  else some (t, shown)

/-- The seconds that the search works with: those wanted, brought into a minute. -/
def clampedSecond (wanted : Fields) : Int := max 0 (min wanted.sec.toInt 59)

/-- The instant at which the clock shows the wanted fields. The first guess takes them for universal time
and corrects it by `carried`, the correction in 32 bits that an earlier search ended at. -/
def instantFrom? (carried : Int32) (wanted : Fields) : Option Int := do
  let s := clampedSecond wanted
  let t0 := wanted.secondsWith s - (-carried).toInt
  let (t, shown) ← match ← probe clock wanted s 6 t0 t0 t0 false with
    | .exact t shown => settle clock wanted s t shown
    | .gap t shown => some (t, shown)
  if wanted.sec = shown.sec then return t
  else
    let t := t - s + wanted.sec.toInt
    let _ ← clock t
    return t

/-- The instant at which the clock shows the wanted fields, where no search has been made before. -/
def instant? (wanted : Fields) : Option Int := instantFrom? clock 0 wanted

end Clock

end Groundwork
