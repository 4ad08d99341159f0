/-!
# Nanoseconds

Spans of time are counted in nanoseconds.
-/

namespace Groundwork

namespace Nanoseconds

def perSecond : Nat := 1000000000

def perMillisecond : Nat := 1000000

end Nanoseconds

end Groundwork
