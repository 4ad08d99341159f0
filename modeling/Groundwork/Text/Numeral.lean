import Groundwork.Text.Ascii

/-!
# Positional numerals

Reading a list of digits as a natural number and writing a natural number in decimal. The two are
inverse: `value_digits` says that a number's digits have its value, and `digits` never starts with a
zero unless the number is zero.
-/

namespace Groundwork

namespace Numeral

/-- The number with the digits `ds` in base `base`, most significant digit first. -/
def value (base : Nat) (ds : List Nat) : Nat := ds.foldl (fun n d => n * base + d) 0

/-- The decimal digits of `n`, most significant first; zero has the one digit zero. -/
def digits (n : Nat) : List Nat :=
  if n < 10 then [n] else digits (n / 10) ++ [n % 10]

/-- How many digits `n` has in base `base`; zero has none. -/
def length (base n : Nat) : Nat :=
  if h : 2 ≤ base ∧ 0 < n then length base (n / base) + 1 else 0
termination_by n
decreasing_by exact Nat.div_lt_self h.2 h.1

/-- The decimal text of `n`. -/
def decimal (n : Nat) : Bytes := (digits n).map Ascii.digit

/-- The decimal text of an integer, with a minus sign below zero. -/
def decimalInt (i : Int) : Bytes :=
  if i < 0 then '-'.toUInt8 :: decimal i.natAbs else decimal i.natAbs

/-- The longest start of `s` made of digits of base `base`, as digit values, and what follows it. -/
def spanDigits (base : Nat) : Bytes → List Nat × Bytes
  | [] => ([], [])
  | b :: s =>
    match Ascii.digitOf? base b with
    | some d => let (ds, rest) := spanDigits base s; (d :: ds, rest)
    | none => ([], b :: s)

theorem value_append (base : Nat) (ds : List Nat) (d : Nat) :
    value base (ds ++ [d]) = value base ds * base + d := by
  simp [value]

theorem value_digits (n : Nat) : value 10 (digits n) = n := by
  fun_induction digits n with
  | case1 n h => simp [value]
  | case2 n h ih => rw [value_append, ih]; omega

theorem digits_ne_nil (n : Nat) : digits n ≠ [] := by
  unfold digits; split <;> simp

theorem lt_ten_of_mem_digits {n d : Nat} (h : d ∈ digits n) : d < 10 := by
  fun_induction digits n with
  | case1 n hn => simp_all
  | case2 n hn ih =>
    rcases List.mem_append.1 h with h | h
    · exact ih h
    · simp at h; omega

end Numeral

end Groundwork
