/-!
# Why a text is not a number
-/

namespace Groundwork

/-- The two ways in which reading a number fails. A text that is no number at all is `invalid`
however large the digits it starts with. -/
inductive ReadError
  /-- Empty, starting with a blank, or not a number from end to end. -/
  | invalid
  /-- A number that the wanted type has no value for. -/
  | outOfRange
deriving DecidableEq, Repr

def ReadError.message : ReadError → String
  | .invalid => "invalid number"
  | .outOfRange => "number out of range"

end Groundwork
