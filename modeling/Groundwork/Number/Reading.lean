import Groundwork.Binary.Reading
import Groundwork.Layout.Scalar

/-!
# Reading a number of any scalar type
-/

namespace Groundwork

namespace Scalar

/-- A number of one of the scalar types. -/
inductive Value
  | int (i : Int)
  | double (x : Binary .double)
  | single (x : Binary .single)
deriving DecidableEq, Repr

/-- The zero of a type, which has no minus sign. -/
def zero : Scalar → Value
  | .int _ => .int 0
  | .double => .double (.zero false)
  | .single => .single (.zero false)

/-- The number of type `t` that the text `s` stands for. -/
def read (t : Scalar) (s : Bytes) : Except ReadError Value :=
  match t with
  | .int t => (Integer.read t s).map .int
  | .double => (Binary.read .double s).map .double
  | .single => (Binary.read .single s).map .single

/-- The number of type `t` that a character string stands for. -/
def readString (t : Scalar) (s : String) : Except ReadError Value :=
  match t with
  | .int t => (Integer.readString t s).map .int
  | .double => (Binary.readString .double s).map .double
  | .single => (Binary.readString .single s).map .single

end Scalar

end Groundwork
