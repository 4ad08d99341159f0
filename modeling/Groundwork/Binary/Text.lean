import Groundwork.Binary.Rounding
import Groundwork.Text.Numeral

/-!
# Writing floating-point numbers

The fixed style writes a number with a given count of digits after the point, the exponent style with
one digit before the point and a decimal exponent. The digits are those of the exact binary value,
rounded to the nearest with ties to even.
-/

namespace Groundwork

-- Powers are those of the core library, whatever else is in scope.
attribute [local instance (high)] instPowNat

/-- The two ways of writing a finite number. -/
inductive Style
  /-- `ddd.dddddd` -/
  | fixed
  /-- `d.dddddde+dd` -/
  | exponent
deriving DecidableEq, Repr

namespace Style

/-- The precision that is used where none is given. -/
def defaultPrecision : Nat := 6

/-- Digits with a point before the last `p` of them; there is no point where `p` is zero. -/
def point (p : Nat) (ds : List Nat) : Bytes :=
  let whole := (ds.take (ds.length - p)).map Ascii.digit
  if p = 0 then whole else whole ++ '.'.toUInt8 :: (ds.drop (ds.length - p)).map Ascii.digit

/-- Fills `ds` with leading zeros to at least `n` digits. -/
def pad (n : Nat) (ds : List Nat) : List Nat := List.replicate (n - ds.length) 0 ++ ds

/-- `x` with `p` digits after the point. -/
def fixedText (x : Ratio) (p : Nat) : Bytes :=
  point p (pad (p + 1) (Numeral.digits (x.scale 10 p).round))

/-- The decimal exponent `k` of a positive fraction: `10 ^ k ≤ x < 10 ^ (k + 1)`. -/
def decade (x : Ratio) : Int :=
  let k : Int := Numeral.length 10 x.num - Numeral.length 10 x.den
  if (x.scale 10 (-k)).atLeastOne then k else k - 1

/-- `x` rounded to `p + 1` significant digits: the digits as a number, and the exponent of the
first. -/
def significant (x : Ratio) (p : Nat) : Nat × Int :=
  if x.num = 0 then (0, 0)
  else
    let k := decade x
    let n := (x.scale 10 (p - k)).round
    if 10 ^ (p + 1) ≤ n then (10 ^ p, k + 1) else (n, k)

/-- The exponent part: a mark, a sign and at least two digits. -/
def exponentText (k : Int) : Bytes :=
  'e'.toUInt8 :: (if k < 0 then '-' else '+').toUInt8 ::
    (pad 2 (Numeral.digits k.natAbs)).map Ascii.digit

/-- `x` with one digit before the point, `p` after it, and an exponent. -/
def scientificText (x : Ratio) (p : Nat) : Bytes :=
  let (n, k) := significant x p
  point p (pad (p + 1) (Numeral.digits n)) ++ exponentText k

end Style

namespace Binary

variable {f : Format}

/-- The text of a number without its sign. -/
def magnitudeText (x : Binary f) (style : Style) (p : Nat) : Bytes :=
  if x.isNaN then Ascii.text ['n', 'a', 'n']
  else if x.isInfinite then Ascii.text ['i', 'n', 'f']
  else match style with
    | .fixed => Style.fixedText x.magnitude p
    | .exponent => Style.scientificText x.magnitude p

/-- The text of a 64-bit number; a set sign bit is written as a minus whatever follows it. -/
def write (x : Binary .double) (style : Style) (precision : Option Nat) : Bytes :=
  let body := x.magnitudeText style (precision.getD Style.defaultPrecision)
  if x.negative then '-'.toUInt8 :: body else body

/-- The 64-bit number of the same value; a NaN becomes quiet and keeps its sign and payload. -/
def widen (x : Binary .single) : Binary .double :=
  if x.isNaN then .quietNaN x.negative (x.code * 536870912)
  else if x.isInfinite then .infinity x.negative
  else Format.double.nearest x.negative x.magnitude

/-- The text of a 32-bit number, which is that of the 64-bit number of its value. -/
def writeSingle (x : Binary .single) (style : Style) (precision : Option Nat) : Bytes :=
  x.widen.write style precision

end Binary

end Groundwork
