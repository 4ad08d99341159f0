import Groundwork.Waiting.Step

/-!
# Requests to wait

Callers without sum types name the process by any integer and the time limit in seconds, and get a report.
Integers that no process number can hold are turned away before any call begins.
-/

namespace Groundwork

namespace Waiting

/-- The process number that an integer is. -/
def processNumber? (n : Int) : Option Nat := if 0 ≤ n ∧ n < 4294967296 then some n.toNat else none

structure Request where
  pid : Int
  /-- The time limit, if there is one. -/
  seconds : Option (Binary .double)

namespace Request

variable (r : Request)

def limit : Timeout := r.seconds.bind Timeout.ofSeconds

end Request

end Waiting

end Groundwork
