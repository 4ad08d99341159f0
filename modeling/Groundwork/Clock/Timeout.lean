import Groundwork.Binary.Reading
import Groundwork.Clock.Nanoseconds

/-!
# Timeouts

A wait may be bounded by a number of nanoseconds. A bound given in seconds as a floating-point number
is rounded to the nearest nanosecond; one below zero, or that is not a number, is a bound of zero, and
one that no count of nanoseconds holds is no bound at all.
-/

namespace Groundwork

/-- The longest time a wait may take, in nanoseconds; `none` is without bound. -/
abbrev Timeout := Option Nat

namespace Timeout

/-- The least number of seconds beyond what a bound can say. -/
def secondsLimit : Nat := 18446744073709551616

def greatest : Timeout := some (secondsLimit * Nanoseconds.perSecond - 1)

def ofMilliseconds (ms : Nat) : Timeout := some (ms * Nanoseconds.perMillisecond)

/-- Seconds rounded to the nearest nanosecond. -/
def nanoseconds (x : Binary .double) : Nat :=
  let m := x.magnitude
  (Ratio.mk (m.num * Nanoseconds.perSecond) m.den).round

def ofSeconds (x : Binary .double) : Timeout :=
  if x.isNaN || x.negative then some 0
  else if x.isInfinite then none
  else if secondsLimit * x.magnitude.den ≤ x.magnitude.num then none
  else some (nanoseconds x)

/-- The bound of so many seconds as a text. One beyond all numbers is no bound, and one too small to
tell from zero is a bound of zero. -/
def ofText? (s : Bytes) : Option Timeout :=
  (Literal.ofBytes? s).map fun l =>
    match Binary.ofLiteral .double l with
    | .ok x => ofSeconds x
    | .error _ =>
      match l.magnitude with
      | .finite base significand exponent =>
        if l.negative || Numeral.length base significand + exponent ≤ 0 then some 0 else none
      | _ => some 0

end Timeout

end Groundwork
