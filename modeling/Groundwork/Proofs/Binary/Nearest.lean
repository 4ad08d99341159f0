import Groundwork.Proofs.Binary.Rounding

/-!
# The nearest number of a format

`Binary.IsNearest y x` compares `y` with every finite number of the format, of either sign. The sign of
`y` is not determined by it when `x` rounds to zero. A number of the format itself is what `Format.nearest`
delivers for it (`nearest_of_codeValue`).
-/

namespace Groundwork

/-- No finite number is nearer to `x` than `y`, and if another is as near, `y` is the even one. -/
def Binary.IsNearest {f : Format} (y : Binary f) (x : ℚ) : Prop :=
  y.isFinite = true ∧ ∀ z : Binary f, z.isFinite = true →
    |y.toRat - x| ≤ |z.toRat - x| ∧ (|y.toRat - x| = |z.toRat - x| → z.toRat ≠ y.toRat → Even y.significand)

namespace Format

variable {f : Format} {q : ℚ} {c : ℕ} {negative : Bool} {x : Ratio}

/-- A number of the other sign is farther away than its own negation. -/
theorem IsRoundedCode.isNearest (hf : f.Proper) (hq : 0 < q) (h : f.IsRoundedCode q c) (hc : c < f.infinityCode) :
    (Binary.ofCode negative c : Binary f).IsNearest (signed negative q) := by
  have hbits : c < 2 ^ f.codeBits := hc.trans f.infinityCode_lt
  have hvalue := f.codeValue_nonneg c
  have hy : |(Binary.ofCode negative c : Binary f).toRat - signed negative q| = |f.codeValue c - q| := by
    rw [Binary.toRat_ofCode hbits, signed_sub, abs_signed]
  refine ⟨(Binary.isFinite_ofCode hbits).2 hc, fun z _ => ?_⟩
  have hz : |f.codeValue z.code - q| ≤ |z.toRat - signed negative q| := by
    have := abs_abs_sub_abs_le z.toRat (signed negative q)
    rwa [Binary.abs_toRat, abs_signed, abs_of_pos hq] at this
  obtain ⟨hle, heven⟩ := h.dist_le hf hq z.code
  rw [hy]
  refine ⟨hle.trans hz, fun he hne => ?_⟩
  rw [Binary.even_significand hf, Binary.code_ofCode hbits]
  rcases ne_or_eq z.code c with hcode | hcode
  · exact heven (le_antisymm hle (by rw [he]; exact hz)) hcode
  · have hsign : z.negative ≠ negative := by
      rintro rfl
      exact hne (by rw [Binary.toRat_ofCode hbits, ← hcode]; rfl)
    have hopp : z.toRat = -signed negative (f.codeValue c) := by
      rw [Binary.toRat, Binary.value_code, hcode]
      cases hn : z.negative <;> cases negative <;> simp_all [signed]
    have hsum : |z.toRat - signed negative q| = f.codeValue c + q := by
      have : z.toRat - signed negative q = -signed negative (f.codeValue c + q) := by
        rw [hopp]
        cases negative <;> simp only [signed, if_true, Bool.false_eq_true, if_false] <;> ring
      rw [this, abs_neg, abs_signed, abs_of_nonneg (by linarith)]
    rw [hsum] at he
    have hzero : f.codeValue c = 0 := by
      rcases abs_cases (f.codeValue c - q) with ⟨h, -⟩ | ⟨h, -⟩ <;> linarith
    exact absurd (by rw [hopp, Binary.toRat_ofCode hbits, hzero]; cases negative <;> rfl) hne

theorem isFinite_zero (hf : f.Proper) (negative : Bool) : (Binary.zero negative : Binary f).isFinite = true := by
  refine (Binary.isFinite_ofCode (Nat.two_pow_pos _)).2 ?_
  have hlt : f.codeValue 0 < f.codeValue f.infinityCode := by
    rw [codeValue_zero, codeValue_infinityCode hf]; exact zpow_pos two_pos _
  exact (f.codeValue_strictMono).lt_iff_lt.1 hlt

theorem toRat_zero (negative : Bool) : (Binary.zero negative : Binary f).toRat = 0 := by
  rw [Binary.zero, Binary.toRat_ofCode (Nat.two_pow_pos _), codeValue_zero]
  cases negative <;> rfl

theorem isNearest_zero (hf : f.Proper) (negative : Bool) : (Binary.zero negative : Binary f).IsNearest 0 := by
  refine ⟨isFinite_zero hf negative, fun z _ => ?_⟩
  rw [toRat_zero, sub_zero, sub_zero, abs_zero]
  exact ⟨abs_nonneg _, fun he hne => absurd (abs_eq_zero.1 he.symm) hne⟩

/-! ### The delivered number -/

theorem nearest_of_pos (hn : 0 < x.num) :
    f.nearest negative x = .ofCode negative (min (f.roundedCode x) f.infinityCode) := by
  rw [nearest, if_neg hn.ne']

theorem nearest_of_zero (hn : x.num = 0) : f.nearest negative x = .zero negative := by
  rw [nearest, if_pos hn]

theorem not_overflows_zero (f : Format) : ¬ f.Overflows 0 := by
  rintro ⟨r, ⟨n, hn, rfl⟩, hle⟩
  rw [zero_div] at hn
  have h0 : n = 0 := Nat.le_zero.1 (hn.ge_of_le (by simp))
  rw [h0, Nat.cast_zero, zero_mul] at hle
  exact absurd hle (not_le.2 (zpow_pos two_pos _))

theorem roundedCode_lt (hf : f.Proper) (hn : 0 < x.num) (hd : 0 < x.den) (h : ¬ f.Overflows x.toRat) :
    f.roundedCode x < f.infinityCode :=
  not_le.1 fun hle => h (((isRoundedCode_roundedCode hn hd).infinityCode_le_iff hf (Ratio.toRat_pos hn hd)).1 hle)

theorem not_overflows_of_codeValue (hf : f.Proper) (hn : 0 < x.num) (hd : 0 < x.den) (hx : f.codeValue c = x.toRat)
    (hc : c < f.infinityCode) : ¬ f.Overflows x.toRat := by
  have hcode := isRoundedCode_roundedCode (f := f) hn hd
  rw [← hcode.infinityCode_le_iff hf (Ratio.toRat_pos hn hd), hcode.eq_of_codeValue hf (Ratio.toRat_pos hn hd) hx]
  exact not_le.2 hc

/-- A value with a short significand above the last place of the subnormal numbers is that of a code. -/
theorem exists_codeValue {n : ℕ} (hn : n < 2 ^ (f.fractionBits + 1)) (j : ℕ) :
    ∃ c, f.codeValue c = n * 2 ^ (f.leastExponent + j) := by
  induction j generalizing n with
  | zero => exact ⟨n, by simpa using codeValue_add (j := 0) hn.le (.inr rfl)⟩
  | succ j ih =>
    rcases Nat.lt_or_ge n (2 ^ f.fractionBits) with hlt | hge
    · obtain ⟨c, hc⟩ := ih (n := 2 * n) (by rw [pow_succ]; omega)
      refine ⟨c, ?_⟩
      have he : f.leastExponent + ((j + 1 : ℕ) : ℤ) = (f.leastExponent + j) + 1 := by push_cast; ring
      rw [hc, he, zpow_add_one₀ two_ne_zero]
      push_cast
      ring
    · exact ⟨_, codeValue_add hn.le (.inl hge)⟩

/-- A value that the format has is delivered as it is. -/
theorem nearest_of_codeValue (hf : f.Proper) (hd : 0 < x.den) (hx : f.codeValue c = x.toRat) (hc : c ≤ f.infinityCode) :
    f.nearest negative x = .ofCode negative c := by
  rcases Nat.eq_zero_or_pos x.num with hn | hn
  · have h0 : x.toRat = 0 := by simp [Ratio.toRat, hn]
    rw [h0, ← codeValue_zero f] at hx
    rw [nearest_of_zero hn, (f.codeValue_strictMono).injective hx]
    rfl
  · rw [nearest_of_pos hn,
      (isRoundedCode_roundedCode hn hd).eq_of_codeValue hf (Ratio.toRat_pos hn hd) hx, min_eq_left hc]

end Format

end Groundwork
