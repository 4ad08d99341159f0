/-!
# Exact fractions and rounding to the nearest

A nonnegative fraction is a pair of naturals. Everything that rounds in this library rounds such a
fraction once, to the nearest integer of some grid with ties to the even one; `roundHalfEven_le` and
`le_roundHalfEven` bound the error by half a unit.
-/

namespace Groundwork

-- Powers are those of the core library, whatever else is in scope.
attribute [local instance (high)] instPowNat

/-- `n / d` rounded to the nearest integer, a tie going to the even one. -/
def roundHalfEven (n d : Nat) : Nat :=
  let q := n / d
  let r := n % d
  if 2 * r < d then q else if d < 2 * r then q + 1 else q + q % 2

/-- The fraction `num / den`. -/
structure Ratio where
  num : Nat
  den : Nat
deriving DecidableEq, Repr

namespace Ratio

def ofNat (n : Nat) : Ratio := ⟨n, 1⟩

/-- The fraction times `base ^ e`. -/
def scale (x : Ratio) (base : Nat) : Int → Ratio
  | .ofNat e => ⟨x.num * base ^ e, x.den⟩
  | .negSucc e => ⟨x.num, x.den * base ^ (e + 1)⟩

/-- The nearest integer, a tie going to the even one. -/
def round (x : Ratio) : Nat := roundHalfEven x.num x.den

def isInteger (x : Ratio) : Bool := x.num % x.den = 0

def atLeastOne (x : Ratio) : Bool := x.den ≤ x.num

/-- The exponent `k` with `2 ^ k ≤ x < 2 ^ (k + 1)`, for a positive fraction `x`. -/
def log2 (x : Ratio) : Int :=
  let k : Int := x.num.log2 - x.den.log2
  if (x.scale 2 (-k)).atLeastOne then k else k - 1

end Ratio

section

variable {n d : Nat}

theorem roundHalfEven_le (hd : 0 < d) : 2 * (roundHalfEven n d * d) ≤ 2 * n + d := by
  have h := Nat.div_add_mod n d
  have hr := Nat.mod_lt n hd
  unfold roundHalfEven
  simp only []
  have hc : d * (n / d) = n / d * d := Nat.mul_comm _ _
  split
  · omega
  · split
    · rw [Nat.add_mul]; omega
    · rcases Nat.mod_two_eq_zero_or_one (n / d) with h2 | h2 <;> rw [h2, Nat.add_mul] <;> omega

theorem le_roundHalfEven (hd : 0 < d) : 2 * n ≤ 2 * (roundHalfEven n d * d) + d := by
  have h := Nat.div_add_mod n d
  have hr := Nat.mod_lt n hd
  unfold roundHalfEven
  simp only []
  have hc : d * (n / d) = n / d * d := Nat.mul_comm _ _
  split
  · omega
  · split
    · rw [Nat.add_mul]; omega
    · rcases Nat.mod_two_eq_zero_or_one (n / d) with h2 | h2 <;> rw [h2, Nat.add_mul] <;> omega

end

end Groundwork
