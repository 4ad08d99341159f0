import Groundwork.Number.Error
import Groundwork.Text.CString
import Groundwork.Text.Numeral

/-!
# Fixed-width integers and their decimal text

The eight integer types are a width and a signedness. A text is read as a signed or unsigned number
of 64 bits first and then narrowed, so a number that fits 64 bits but not the narrower type is out of
range just as one that fits neither. An unsigned number may carry a minus sign: it is then the
two's complement of its digits in 64 bits.
-/

namespace Groundwork

-- Powers are those of the core library, whatever else is in scope.
attribute [local instance (high)] instPowNat

/-- A number of bytes that a scalar may occupy. -/
inductive Width
  | one
  | two
  | four
  | eight
deriving DecidableEq, Repr

def Width.bytes : Width → Nat
  | .one => 1
  | .two => 2
  | .four => 4
  | .eight => 8

def Width.bits (w : Width) : Nat := 8 * w.bytes

structure IntType where
  signed : Bool
  width : Width
deriving DecidableEq, Repr

namespace IntType

def bits (t : IntType) : Nat := t.width.bits

def least (t : IntType) : Int := if t.signed then -2 ^ (t.bits - 1) else 0

def greatest (t : IntType) : Int := if t.signed then 2 ^ (t.bits - 1) - 1 else 2 ^ t.bits - 1

/-- `i` is a value of the type. -/
def Has (t : IntType) (i : Int) : Prop := t.least ≤ i ∧ i ≤ t.greatest

instance (t : IntType) (i : Int) : Decidable (t.Has i) :=
  inferInstanceAs (Decidable (_ ∧ _))

end IntType

namespace Integer

/-- The sign and the digits of a decimal integer: an optional sign and at least one digit, and
nothing else. -/
def parts? (s : Bytes) : Option (Bool × List Nat) :=
  let (negative, body) := Ascii.splitSign s
  match Numeral.spanDigits 10 body with
  | (d :: ds, []) => some (negative, d :: ds)
  | _ => none

/-- The least number that 64 bits do not hold. -/
def wordLimit : Nat := 18446744073709551616

/-- The 64-bit value of a sign and a magnitude. -/
def widen (signed negative : Bool) (m : Nat) : Except ReadError Int :=
  if signed then
    let i : Int := if negative then -m else m
    if (IntType.mk true .eight).Has i then .ok i else .error .outOfRange
  else if wordLimit ≤ m then .error .outOfRange
  else .ok (if negative then ((wordLimit - m) % wordLimit : Nat) else m)

/-- Keeps a 64-bit value that the type `t` has. -/
def narrow (t : IntType) (i : Int) : Except ReadError Int :=
  if t.Has i then .ok i else .error .outOfRange

/-- The value of type `t` that the text `s` stands for. -/
def read (t : IntType) (s : Bytes) : Except ReadError Int :=
  match parts? s with
  | none => .error .invalid
  | some (negative, ds) => do
    let i ← widen t.signed negative (Numeral.value 10 ds)
    narrow t i

/-- The value of type `t` that a character string stands for. -/
def readString (t : IntType) (s : String) : Except ReadError Int :=
  match CString.ofString? s with
  | none => .error .invalid
  | some bytes => read t bytes

end Integer

end Groundwork
