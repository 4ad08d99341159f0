import Groundwork.Binary.Text
import Groundwork.Text.CString

/-!
# Writing a number into memory

A caller hands over memory of which a number's text may take the first so many bytes, and is told the length of
the whole text. One that asks with no bytes learns how many it needs.
-/

namespace Groundwork

/-- A number with the way in which it is to be written. -/
inductive Written
  | int (i : Int)
  | double (x : Binary .double) (style : Style) (precision : Option Nat)
  | single (x : Binary .single) (style : Style) (precision : Option Nat)
deriving DecidableEq, Repr

namespace Written

def text : Written → Bytes
  | .int i => Numeral.decimalInt i
  | .double x style precision => x.write style precision
  | .single x style precision => x.writeSingle style precision

/-- Writes the text into the first `capacity` bytes of the memory: its whole length, and the memory afterwards. -/
def store (w : Written) (capacity : Nat) (memory : Bytes) : Nat × Bytes :=
  (w.text.length, CString.write w.text (memory.take capacity) ++ memory.drop capacity)

end Written

end Groundwork
