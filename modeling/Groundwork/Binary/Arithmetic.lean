import Groundwork.Binary.Rounding

/-!
# Sums and quotients of finite numbers

Each is the exact value rounded once. A sum that cancels is positive zero.
-/

namespace Groundwork

namespace Binary

variable {f : Format}

/-- The exact value of a finite number times `d`, the denominator of its magnitude. -/
def signedNumerator (x : Binary f) : Int :=
  if x.negative then -(x.magnitude.num : Int) else x.magnitude.num

/-- The number nearest to `x / y`, for finite numbers and `y` not zero. -/
def quotient (x y : Binary f) : Binary f :=
  f.nearest (x.negative != y.negative)
    ⟨x.magnitude.num * y.magnitude.den, x.magnitude.den * y.magnitude.num⟩

/-- The number nearest to `x + y`, for finite numbers. -/
def sum (x y : Binary f) : Binary f :=
  let num := x.signedNumerator * y.magnitude.den + y.signedNumerator * x.magnitude.den
  if num = 0 then .zero (x.negative && y.negative)
  else f.nearest (num < 0) ⟨num.natAbs, x.magnitude.den * y.magnitude.den⟩

end Binary

end Groundwork
