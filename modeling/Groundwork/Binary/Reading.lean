import Groundwork.Binary.Literal
import Groundwork.Binary.Rounding
import Groundwork.Text.CString

/-!
# Reading floating-point numbers

The exact value of a literal is rounded once, directly to the wanted format. A numeral so far from
one that no format position can matter is out of range without its power being computed; every other
numeral is compared as an exact fraction.

The word of a NaN sets its payload when it is an integer literal from end to end: decimal, octal after
a leading zero, or hexadecimal after `0x`. The digits that the word starts with are counted in 64
bits, and a word that starts with a larger number is out of range.
-/

namespace Groundwork

namespace Format

variable (f : Format)

/-- The number nearest to `significand * base ^ exponent`. -/
def ofScaled (negative : Bool) (base significand : Nat) (exponent : Int) :
    Except ReadError (Binary f) :=
  let size : Int := Numeral.length base significand + exponent
  if significand = 0 then .ok (.zero negative)
  else if f.span < size || size < -f.span then .error .outOfRange
  else f.ofRatio negative (base = 10) ((Ratio.ofNat significand).scale base exponent)

end Format

/-- The base that an integer literal's beginning announces, and its digits. -/
def Literal.integerBase (word : Bytes) : Nat × Bytes :=
  if Ascii.spells ['0', 'x'] (word.take 2) then (16, word.drop 2)
  else if word.take 1 = ['0'.toUInt8] then (8, word)
  else (10, word)

/-- The payload that the word of a NaN asks for. -/
def Literal.payload (word : Bytes) : Except ReadError Nat :=
  let (base, body) := Literal.integerBase word
  let (ds, rest) := Numeral.spanDigits base body
  let n := Numeral.value base ds
  if 18446744073709551616 ≤ n then .error .outOfRange else .ok (if rest = [] then n else 0)

namespace Binary

variable (f : Format)

/-- The number of format `f` that a literal stands for. -/
def ofLiteral (l : Literal) : Except ReadError (Binary f) :=
  match l.magnitude with
  | .finite base significand e => f.ofScaled l.negative base significand e
  | .infinity => .ok (.infinity l.negative)
  | .nan word => (Literal.payload word).map (.quietNaN l.negative)

/-- The number of format `f` that the text `s` stands for. -/
def read (s : Bytes) : Except ReadError (Binary f) :=
  match Literal.ofBytes? s with
  | none => .error .invalid
  | some l => ofLiteral f l

/-- The number of format `f` that a character string stands for. -/
def readString (s : String) : Except ReadError (Binary f) :=
  match CString.ofString? s with
  | none => .error .invalid
  | some bytes => read f bytes

end Binary

end Groundwork
