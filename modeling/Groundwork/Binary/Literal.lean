import Groundwork.Text.Numeral

/-!
# The text of a floating-point number

A literal is an optional sign and a magnitude: a decimal or hexadecimal numeral with an optional
fraction and an optional exponent, `inf` or `infinity`, or `nan` with an optional parenthesised word.
Letters are read in either case. `Literal.ofBytes?` accepts a text only as a whole: nothing may stand
before or after the literal.
-/

namespace Groundwork

/-- What the text of a floating-point number says, apart from its sign. -/
inductive Magnitude
  /-- `significand * base ^ exponent`. -/
  | finite (base significand : Nat) (exponent : Int)
  | infinity
  /-- A NaN and the word in its parentheses, empty where there are none. -/
  | nan (word : Bytes)
deriving DecidableEq, Repr

structure Literal where
  negative : Bool
  magnitude : Magnitude
deriving DecidableEq, Repr

namespace Literal

/-- How a radix is written: its digits, the power base of its exponent, how many powers of that base
one digit is worth, and the letter that introduces the exponent. -/
structure Radix where
  digits : Nat
  base : Nat
  perDigit : Nat
  mark : UInt8
deriving DecidableEq, Repr

/-- Digits in base ten and powers of ten after an `e`. -/
def Radix.decimal : Radix := ⟨10, 10, 1, 'e'.toUInt8⟩

/-- Digits in base sixteen and powers of two after a `p`. -/
def Radix.hexadecimal : Radix := ⟨16, 2, 4, 'p'.toUInt8⟩

/-- An exponent part and nothing else: empty for exponent zero, or the mark, an optional sign and at
least one decimal digit. -/
def exponent? (mark : UInt8) : Bytes → Option Int
  | [] => some 0
  | b :: s =>
    if Ascii.lower b = mark then
      let (negative, body) := Ascii.splitSign s
      match Numeral.spanDigits 10 body with
      | (d :: ds, []) =>
        let e : Int := Numeral.value 10 (d :: ds)
        some (if negative then -e else e)
      | _ => none
    else none

/-- The digits before and after the point of a numeral, at least one in all, and what follows. -/
def numeral? (base : Nat) (s : Bytes) : Option (List Nat × List Nat × Bytes) :=
  let (whole, rest) := Numeral.spanDigits base s
  let (fraction, rest) :=
    match rest with
    | b :: more => if b = '.'.toUInt8 then Numeral.spanDigits base more else ([], rest)
    | [] => ([], rest)
  if whole ++ fraction = [] then none else some (whole, fraction, rest)

/-- A whole numeral of the given radix. -/
def finite? (r : Radix) (s : Bytes) : Option Magnitude := do
  let (whole, fraction, rest) ← numeral? r.digits s
  let e ← exponent? r.mark rest
  return .finite r.base (Numeral.value r.digits (whole ++ fraction))
    (e - r.perDigit * fraction.length)

/-- A word in parentheses and nothing else; no parentheses are an empty word. -/
def nanWord? : Bytes → Option Bytes
  | [] => some []
  | b :: s =>
    let word := s.takeWhile Ascii.isWordByte
    if b = '('.toUInt8 && s.dropWhile Ascii.isWordByte = [')'.toUInt8] then some word else none

/-- The magnitude that a text without sign spells. -/
def magnitude? (s : Bytes) : Option Magnitude :=
  if Ascii.spells ['i', 'n', 'f'] s || Ascii.spells ['i', 'n', 'f', 'i', 'n', 'i', 't', 'y'] s then
    some .infinity
  else if Ascii.spells ['n', 'a', 'n'] (s.take 3) then (nanWord? (s.drop 3)).map .nan
  else if Ascii.spells ['0', 'x'] (s.take 2) then finite? .hexadecimal (s.drop 2)
  else finite? .decimal s

/-- The literal that the text `s` is, if it is one from end to end. -/
def ofBytes? (s : Bytes) : Option Literal :=
  let (negative, body) := Ascii.splitSign s
  (magnitude? body).map (Literal.mk negative)

end Literal

end Groundwork
