import Groundwork.Binary.Format
import Groundwork.Number.Integer

/-!
# Scalars that have a place in a buffer

The ten scalar types are the eight integer types and the two floating-point formats. In a buffer a
value is nothing but its bit pattern: two's complement for an integer, the word of the format for a
floating-point number.
-/

namespace Groundwork

inductive Scalar
  | int (t : IntType)
  | single
  | double
deriving DecidableEq, Repr

namespace Scalar

def width : Scalar → Width
  | .int t => t.width
  | .single => .four
  | .double => .eight

/-- Number of bytes that a value occupies. -/
def bytes (t : Scalar) : Nat := t.width.bytes

def bits (t : Scalar) : Nat := t.width.bits

/-- The bit pattern of an integer in two's complement. -/
def pattern (t : Scalar) (i : Int) : BitVec t.bits := BitVec.ofInt t.bits i

/-- The integer of type `t` with the bit pattern `v`. -/
def integer (t : IntType) (v : BitVec (Scalar.int t).bits) : Int :=
  if t.signed then v.toInt else v.toNat

end Scalar

end Groundwork
