import Groundwork.Binary.Format
import Mathlib.Tactic

/-!
# The values of the codes

`Format.codeValue` is the value of a code as a rational number, infinity taken as the next power of two.
A code is `n + j * 2 ^ fractionBits` with a significand `n` that is full unless the code lies in the
lowest binade, `j = 0`, and such a code has the value `n * 2 ^ (leastExponent + j)` (`codeValue_add`);
`n` may be one more than a significand holds. So codes are ordered as their values are
(`codeValue_strictMono`), and a value below the significands of one binade is on no finer grid than
theirs (`on_grid`).
-/

namespace Groundwork

namespace Format

/-- A format with bits for a fraction and for more than two exponents. -/
structure Proper (f : Format) : Prop where
  fraction : 0 < f.fractionBits
  exponent : 1 < f.exponentBits

theorem proper_single : single.Proper := ⟨by decide, by decide⟩

theorem proper_double : double.Proper := ⟨by decide, by decide⟩

/-- The value of a code: its significand times a power of two. -/
def codeValue (f : Format) (c : ℕ) : ℚ :=
  (c % 2 ^ f.fractionBits + if c / 2 ^ f.fractionBits = 0 then 0 else 2 ^ f.fractionBits : ℕ) *
    2 ^ (f.leastExponent + (c / 2 ^ f.fractionBits - 1 : ℕ))

variable {f : Format} {c n j : ℕ}

theorem normalExponent_eq (f : Format) : f.normalExponent = f.leastExponent + f.fractionBits := rfl

theorem two_pow_mul {p : ℕ} {e k : ℤ} (h : p + e = k) : (2 : ℚ) ^ p * 2 ^ e = 2 ^ k := by
  rw [← zpow_natCast, ← zpow_add₀ two_ne_zero, h]

/-! ### Codes and their values -/

theorem codeValue_add (hn : n ≤ 2 ^ (f.fractionBits + 1)) (hj : 2 ^ f.fractionBits ≤ n ∨ j = 0) :
    f.codeValue (n + j * 2 ^ f.fractionBits) = n * 2 ^ (f.leastExponent + j) := by
  unfold codeValue
  rw [pow_succ] at hn
  have hP : 0 < 2 ^ f.fractionBits := Nat.two_pow_pos _
  generalize 2 ^ f.fractionBits = P at hn hj hP ⊢
  rcases Nat.lt_or_ge n P with hlt | hge
  · obtain rfl : j = 0 := by omega
    rw [Nat.zero_mul, Nat.add_zero, Nat.div_eq_of_lt hlt, Nat.mod_eq_of_lt hlt]
    simp
  obtain ⟨r, rfl⟩ := Nat.exists_eq_add_of_le hge
  rcases Nat.lt_or_ge r P with hr | hr
  · have hc : P + r + j * P = r + (j + 1) * P := by ring
    rw [hc, Nat.add_mul_div_right _ _ hP, Nat.div_eq_of_lt hr, Nat.add_mul_mod_self_right, Nat.mod_eq_of_lt hr]
    rw [if_neg (by omega), Nat.add_comm r P]
    congr 3
    omega
  · -- the carry into the next binade
    obtain rfl : r = P := by omega
    have hc : r + r + j * r = (j + 2) * r := by ring
    rw [hc, Nat.mul_div_cancel _ hP, Nat.mul_mod_left, if_neg (by omega)]
    have he : f.leastExponent + ((j + 2 - 1 : ℕ) : ℤ) = (f.leastExponent + j) + 1 := by omega
    rw [he, zpow_add_one₀ two_ne_zero]
    push_cast
    ring

theorem exists_code (f : Format) (c : ℕ) :
    ∃ n j, c = n + j * 2 ^ f.fractionBits ∧ n < 2 ^ (f.fractionBits + 1) ∧ (2 ^ f.fractionBits ≤ n ∨ j = 0) := by
  have hP : 0 < 2 ^ f.fractionBits := Nat.two_pow_pos _
  rw [pow_succ]
  generalize 2 ^ f.fractionBits = P at hP ⊢
  have hdiv := Nat.mod_add_div c P
  have hr := Nat.mod_lt c hP
  rcases Nat.eq_zero_or_pos (c / P) with h0 | hpos
  · refine ⟨c % P, 0, ?_, by omega, .inr rfl⟩
    rw [h0] at hdiv
    omega
  · refine ⟨c % P + P, c / P - 1, ?_, by omega, .inl (by omega)⟩
    obtain ⟨k, hk⟩ := Nat.exists_eq_add_of_le' hpos
    rw [hk] at hdiv ⊢
    calc c = c % P + P * (k + 1) := hdiv.symm
      _ = c % P + P + (k + 1 - 1) * P := by rw [Nat.add_sub_cancel]; ring

theorem codeValue_zero (f : Format) : f.codeValue 0 = 0 := by simp [codeValue]

theorem codeValue_nonneg (f : Format) (c : ℕ) : 0 ≤ f.codeValue c :=
  mul_nonneg (Nat.cast_nonneg _) (zpow_nonneg zero_le_two _)

theorem codeValue_strictMono (f : Format) : StrictMono f.codeValue := by
  refine strictMono_nat_of_lt_succ fun c => ?_
  obtain ⟨n, j, rfl, hn, hj⟩ := f.exists_code c
  have hsucc : n + j * 2 ^ f.fractionBits + 1 = (n + 1) + j * 2 ^ f.fractionBits := by ring
  rw [hsucc, codeValue_add hn.le hj, codeValue_add hn (hj.imp_left fun h => h.trans n.le_succ)]
  have hpos : (0 : ℚ) < 2 ^ (f.leastExponent + (j : ℤ)) := zpow_pos two_pos _
  push_cast
  linarith

/-- A value that is not below the significands of a binade is a multiple of the binade's last place. -/
theorem on_grid (h : j = 0 ∨ 2 ^ f.fractionBits * 2 ^ (f.leastExponent + j) ≤ f.codeValue c) :
    ∃ i : ℕ, f.codeValue c = i * 2 ^ (f.leastExponent + j) := by
  obtain ⟨n, k, rfl, hn, hk⟩ := f.exists_code c
  rw [codeValue_add hn.le hk] at h ⊢
  have hjk : j ≤ k := by
    rcases h with rfl | h
    · exact Nat.zero_le _
    by_contra hlt
    have hn : (n : ℚ) < 2 ^ f.fractionBits * 2 := by rw [← pow_succ]; exact_mod_cast hn
    have hkj : f.leastExponent + (k : ℤ) + 1 ≤ f.leastExponent + j := by omega
    have := calc (n : ℚ) * 2 ^ (f.leastExponent + k)
        < 2 ^ f.fractionBits * 2 * 2 ^ (f.leastExponent + k) := by gcongr
      _ = 2 ^ f.fractionBits * 2 ^ (f.leastExponent + k + 1) := by rw [zpow_add_one₀ two_ne_zero]; ring
      _ ≤ 2 ^ f.fractionBits * 2 ^ (f.leastExponent + j) := by gcongr; norm_num
    linarith
  refine ⟨n * 2 ^ (k - j), ?_⟩
  have he : f.leastExponent + (k : ℤ) = ((k - j : ℕ) : ℤ) + (f.leastExponent + j) := by omega
  rw [he, zpow_add₀ two_ne_zero, zpow_natCast]
  push_cast
  ring

theorem exists_multiple (f : Format) (c : ℕ) : ∃ i : ℕ, f.codeValue c = i * 2 ^ f.leastExponent := by
  simpa using on_grid (f := f) (c := c) (j := 0) (.inl rfl)

/-- Infinity follows the largest finite number as the next power of two. -/
theorem codeValue_infinityCode (hf : f.Proper) :
    f.codeValue f.infinityCode = 2 ^ (2 ^ (f.exponentBits - 1) : ℤ) := by
  have hexp := hf.exponent
  have hbits : 4 ≤ 2 ^ f.exponentBits := by
    calc 4 = 2 ^ 2 := by norm_num
      _ ≤ 2 ^ f.exponentBits := Nat.pow_le_pow_right two_pos hf.exponent
  have hcode : f.infinityCode = 2 ^ f.fractionBits + (2 ^ f.exponentBits - 2) * 2 ^ f.fractionBits := by
    have h : 2 ^ f.exponentBits - 1 = 1 + (2 ^ f.exponentBits - 2) := by omega
    have hcode : f.infinityCode = (2 ^ f.exponentBits - 1) * 2 ^ f.fractionBits := rfl
    rw [hcode, h]
    ring
  have hfull : 2 ^ f.fractionBits ≤ 2 ^ (f.fractionBits + 1) := Nat.pow_le_pow_right two_pos (Nat.le_succ _)
  rw [hcode, codeValue_add hfull (.inl le_rfl)]
  have hhalf : (2 : ℤ) ^ f.exponentBits = 2 * 2 ^ (f.exponentBits - 1) := by
    rw [← pow_succ', Nat.sub_add_cancel (by omega)]
  have hcast : ((2 ^ f.exponentBits - 2 : ℕ) : ℤ) = 2 ^ f.exponentBits - 2 := by
    rw [Nat.cast_sub (by omega)]
    push_cast
    rfl
  have hleast : f.leastExponent = 2 - 2 ^ (f.exponentBits - 1) - f.fractionBits := rfl
  rw [Nat.cast_pow, Nat.cast_ofNat]
  refine two_pow_mul ?_
  rw [hcast, hleast, hhalf]
  ring

theorem infinityCode_lt (f : Format) : f.infinityCode < 2 ^ f.codeBits := by
  have hcode : f.infinityCode = (2 ^ f.exponentBits - 1) * 2 ^ f.fractionBits := rfl
  rw [hcode, codeBits, pow_add]
  exact Nat.mul_lt_mul_of_pos_right (Nat.sub_lt (Nat.two_pow_pos _) one_pos) (Nat.two_pow_pos _)

end Format

/-! ### Words -/

/-- The number with the given sign and magnitude. -/
def signed (negative : Bool) (q : ℚ) : ℚ := if negative then -q else q

theorem abs_signed (negative : Bool) (q : ℚ) : |signed negative q| = |q| := by
  cases negative <;> simp [signed]

theorem signed_sub (negative : Bool) (p q : ℚ) : signed negative p - signed negative q = signed negative (p - q) := by
  cases negative
  · rfl
  · simp only [signed, if_true]; ring

namespace Binary

variable {f : Format} {negative : Bool} {c : ℕ}

/-- The value of a finite number. -/
def toRat (x : Binary f) : ℚ := signed x.negative (x.significand * 2 ^ x.exponent)

theorem isFinite_iff (x : Binary f) : x.isFinite = true ↔ x.code < f.infinityCode := decide_eq_true_iff

theorem isInfinite_iff (x : Binary f) : x.isInfinite = true ↔ x.code = f.infinityCode := decide_eq_true_iff

theorem isNaN_iff (x : Binary f) : x.isNaN = true ↔ f.infinityCode < x.code := decide_eq_true_iff

theorem value_code (x : Binary f) : x.significand * 2 ^ x.exponent = f.codeValue x.code := rfl

theorem abs_toRat (x : Binary f) : |x.toRat| = f.codeValue x.code := by
  rw [toRat, value_code, abs_signed, abs_of_nonneg (f.codeValue_nonneg _)]

/-- The fraction field ends in the last bit of the code. -/
theorem even_significand (hf : f.Proper) (x : Binary f) : Even x.significand ↔ Even x.code := by
  have hP : Even (2 ^ f.fractionBits) := Nat.even_pow.2 ⟨even_two, hf.fraction.ne'⟩
  have hsig : x.significand = x.code % 2 ^ f.fractionBits +
      if x.code / 2 ^ f.fractionBits = 0 then 0 else 2 ^ f.fractionBits := rfl
  have hmod : Even (x.code % 2 ^ f.fractionBits) ↔ Even x.code := by
    rw [Nat.even_iff, Nat.even_iff, Nat.mod_mod_of_dvd _ hP.two_dvd]
  rw [hsig, Nat.even_add, hmod]
  split_ifs
  · simp
  · simp [hP]

theorem toNat_ofCode (hc : c < 2 ^ f.codeBits) :
    (ofCode negative c : Binary f).word.toNat = (if negative then 2 ^ f.codeBits else 0) + c := by
  show ((if negative then 2 ^ f.codeBits else 0) + c) % 2 ^ (f.codeBits + 1) = _
  refine Nat.mod_eq_of_lt ?_
  rw [pow_succ]
  cases negative <;> simp <;> omega

theorem code_ofCode (hc : c < 2 ^ f.codeBits) : (ofCode negative c : Binary f).code = c := by
  rw [code, toNat_ofCode hc]
  cases negative
  · simpa using Nat.mod_eq_of_lt hc
  · simpa using Nat.mod_eq_of_lt hc

theorem negative_ofCode (hc : c < 2 ^ f.codeBits) : (ofCode negative c : Binary f).negative = negative := by
  rw [Binary.negative, toNat_ofCode hc]
  cases negative
  · simpa using hc
  · simp

theorem toRat_ofCode (hc : c < 2 ^ f.codeBits) :
    (ofCode negative c : Binary f).toRat = signed negative (f.codeValue c) := by
  rw [toRat, value_code, code_ofCode hc, negative_ofCode hc]

theorem isFinite_ofCode (hc : c < 2 ^ f.codeBits) :
    (ofCode negative c : Binary f).isFinite = true ↔ c < f.infinityCode := by
  rw [isFinite_iff, code_ofCode hc]

/-- A number is its sign and its code. -/
theorem eq_of_code_eq {x y : Binary f} (hs : x.negative = y.negative) (hc : x.code = y.code) : x = y := by
  have hword : ∀ z : Binary f, z.word.toNat = (if z.negative then 2 ^ f.codeBits else 0) + z.code := by
    intro z
    have hz : z.word.toNat < 2 ^ f.codeBits * 2 := by rw [← pow_succ]; exact z.word.isLt
    have hdiv := Nat.div_add_mod z.word.toNat (2 ^ f.codeBits)
    by_cases h : 2 ^ f.codeBits ≤ z.word.toNat
    · have hq : z.word.toNat / 2 ^ f.codeBits = 1 := Nat.div_eq_of_lt_le (by omega) (by omega)
      rw [hq] at hdiv
      simp only [Binary.negative, code, h, decide_true, if_true]
      omega
    · simp [Binary.negative, code, h, Nat.mod_eq_of_lt (not_le.1 h)]
  obtain ⟨x⟩ := x
  obtain ⟨y⟩ := y
  congr 1
  refine BitVec.eq_of_toNat_eq ?_
  rw [hword ⟨x⟩, hword ⟨y⟩, hs, hc]

theorem eq_of_toRat_eq {x y : Binary f} (hs : x.negative = y.negative) (h : x.toRat = y.toRat) : x = y := by
  refine eq_of_code_eq hs ((f.codeValue_strictMono).injective ?_)
  rw [← abs_toRat, ← abs_toRat, h]

end Binary

end Groundwork
