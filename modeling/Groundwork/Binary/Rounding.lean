import Groundwork.Binary.Format
import Groundwork.Binary.Ratio
import Groundwork.Number.Error

/-!
# Rounding an exact value to a format

A positive fraction is rounded to the grid of the binade it lies in, or to the subnormal grid when it
lies below the normal numbers. The code of the result is the rounded significand plus one binade's
worth of codes for every step of the grid above the subnormal one: a significand that rounds up to
the next power of two carries into the next binade by itself.

`ofRatio` refuses what the format cannot deliver: a value that rounds beyond the largest finite
number, and a tiny value whose delivered rounding is inexact. A value is tiny when it is below the
normal numbers after rounding to full precision with no bound on the exponent. What is rounded to the
subnormal grid is the value as a significand of full precision with a mark for lower bits that are not
zero: the first bit below full precision has no part in that mark, so by itself it is lost (`trimmed`).
-/

namespace Groundwork

-- Powers are those of the core library, whatever else is in scope.
attribute [local instance (high)] instPowNat

namespace Format

variable (f : Format)

/-- The exponent of the last place to which the positive fraction `x` is rounded. -/
def lastPlace (x : Ratio) : Int := max f.leastExponent (x.log2 - f.fractionBits)

/-- The code of the number nearest to the positive fraction `x`, with no upper bound. -/
def roundedCode (x : Ratio) : Nat :=
  let e := f.lastPlace x
  (x.scale 2 (-e)).round + (e - f.leastExponent).toNat * 2 ^ f.fractionBits

/-- Whether rounding `x` to the format keeps its value. -/
def represents (x : Ratio) : Bool := (x.scale 2 (-f.lastPlace x)).isInteger

/-- Whether `x` rounded to full precision, its exponent unbounded, is below the normal numbers. -/
def isTiny (x : Ratio) : Bool :=
  let k := x.log2
  let carried := 2 ^ (f.fractionBits + 1) ≤ (x.scale 2 (f.fractionBits - k)).round
  (if carried then k + 1 else k) < f.normalExponent

/-- The number nearest to the fraction `x`, beyond the largest finite number infinity. -/
def nearest (negative : Bool) (x : Ratio) : Binary f :=
  if x.num = 0 then .zero negative
  else .ofCode negative (min (f.roundedCode x) f.infinityCode)

/-- The value by which a positive fraction is rounded to the subnormal grid. One that takes exactly one
bit more than full precision is cut to full precision; any other counts as it is. Where the places of a
decimal numeral are counted, that bit is seen by itself down to two places below the subnormal grid only,
which is where it lies in the binade next to the normal numbers. -/
def trimmed (isDecimal : Bool) (x : Ratio) : Ratio :=
  let k := x.log2
  let last : Int := k - f.fractionBits - 1
  let y := x.scale 2 (-last)
  if k < f.normalExponent && (!isDecimal || f.leastExponent - 2 ≤ last) && y.isInteger
      && y.num / y.den % 2 = 1 then
    (Ratio.ofNat (y.num / y.den - 1)).scale 2 last
  else x

/-- The number that the fraction `x` is delivered as, unless that overflows or underflows. -/
def ofRatio (negative isDecimal : Bool) (x : Ratio) : Except ReadError (Binary f) :=
  if x.num = 0 then .ok (.zero negative)
  else
    let y := f.trimmed isDecimal x
    if f.infinityCode ≤ f.roundedCode y || (f.isTiny x && !f.represents y) then .error .outOfRange
    else .ok (.ofCode negative (f.roundedCode y))

end Format

namespace Binary

variable {f : Format}

/-- The exact magnitude of a finite number. -/
def magnitude (x : Binary f) : Ratio := (Ratio.ofNat x.significand).scale 2 x.exponent

/-- The number of the format nearest to an integer. -/
def ofInt (f : Format) (i : Int) : Binary f := f.nearest (i < 0) (.ofNat i.natAbs)

end Binary

end Groundwork
