import Groundwork.Proofs.Binary.Conversion

/-!
# Values near a normal number

The gap beside a code is at least `2 ^ -(fractionBits + 1)` of its value, just that much below a power of
two and more anywhere else (`codeValue_le_gap`). So whatever is within half of it, relative to a normal
number, is converted to that number (`ofRatio_of_near`). Below the least normal number such a value still
rounds to it at full precision, and has no room for an extra bit; above the largest number it does not
overflow.
-/

namespace Groundwork

namespace Format

variable {f : Format} {q : ℚ} {c d : ℕ} {negative isDecimal : Bool} {x : Ratio}

/-! ### Gaps -/

theorem exists_gap (f : Format) (c : ℕ) : ∃ u : ℚ, f.codeValue (c + 1) = f.codeValue c + u ∧
    f.codeValue (c + 1) ≤ 2 ^ (f.fractionBits + 1) * u := by
  obtain ⟨n, j, rfl, hn, hj⟩ := f.exists_code c
  have hsucc : n + j * 2 ^ f.fractionBits + 1 = (n + 1) + j * 2 ^ f.fractionBits := by ring
  have hle : ((n + 1 : ℕ) : ℚ) ≤ 2 ^ (f.fractionBits + 1) := by exact_mod_cast hn
  have hpos : (0 : ℚ) < 2 ^ (f.leastExponent + (j : ℤ)) := zpow_pos two_pos _
  refine ⟨2 ^ (f.leastExponent + (j : ℤ)), ?_, ?_⟩
  · rw [hsucc, codeValue_add hn.le hj, codeValue_add hn (hj.imp_left fun h => h.trans n.le_succ)]
    push_cast
    ring
  · rw [hsucc, codeValue_add hn (hj.imp_left fun h => h.trans n.le_succ)]
    gcongr

theorem codeValue_le_gap (h : c ≠ d) : f.codeValue d ≤ 2 ^ (f.fractionBits + 1) * |f.codeValue c - f.codeValue d| := by
  have hmono := f.codeValue_strictMono.monotone
  rcases Nat.lt_or_gt_of_ne h with hlt | hgt
  · obtain ⟨d, rfl⟩ := Nat.exists_eq_add_of_le' (Nat.one_le_of_lt hlt)
    obtain ⟨u, hu, hle⟩ := f.exists_gap d
    have hcd : f.codeValue c ≤ f.codeValue d := hmono (Nat.le_of_lt_succ hlt)
    refine hle.trans ?_
    rw [abs_sub_comm]
    gcongr
    exact le_abs.2 (.inl (by linarith))
  · obtain ⟨u, hu, hle⟩ := f.exists_gap d
    have hdc : f.codeValue (d + 1) ≤ f.codeValue c := hmono hgt
    refine (hmono d.le_succ).trans (hle.trans ?_)
    gcongr
    exact le_abs.2 (.inl (by linarith))

/-- The code of `q` is as near to `q` as `d` is, and together that is less than the gap beside `d`. -/
theorem IsRoundedCode.eq_of_near (hf : f.Proper) (hq : 0 < q) (h : f.IsRoundedCode q c)
    (hnear : 2 ^ (f.fractionBits + 2) * |f.codeValue d - q| < f.codeValue d) : c = d := by
  by_contra hne
  have hgap := codeValue_le_gap (f := f) hne
  have hdist := (h.dist_le hf hq d).1
  have htri : |f.codeValue c - f.codeValue d| ≤ |f.codeValue c - q| + |f.codeValue d - q| := by
    rw [abs_sub_comm (f.codeValue d) q]
    exact abs_sub_le _ _ _
  refine absurd hnear (not_lt.2 ?_)
  calc f.codeValue d ≤ 2 ^ (f.fractionBits + 1) * |f.codeValue c - f.codeValue d| := hgap
    _ ≤ 2 ^ (f.fractionBits + 1) * (2 * |f.codeValue d - q|) := by gcongr; linarith
    _ = 2 ^ (f.fractionBits + 2) * |f.codeValue d - q| := by ring

/-! ### Close below the normal numbers -/

theorem codeValue_two_pow (f : Format) : f.codeValue (2 ^ f.fractionBits) = 2 ^ f.normalExponent := by
  have hle : 2 ^ f.fractionBits ≤ 2 ^ (f.fractionBits + 1) := Nat.pow_le_pow_right two_pos (Nat.le_succ _)
  have h := codeValue_add (f := f) (j := 0) hle (.inr rfl)
  rw [zero_mul, add_zero, Nat.cast_zero, add_zero, Nat.cast_pow, Nat.cast_ofNat] at h
  rw [h]
  exact two_pow_mul (by rw [f.normalExponent_eq, add_comm])

/-- `q` is above the last number of full precision and an extra bit that lies below the normal ones. -/
def AlmostNormal (f : Format) (q : ℚ) : Prop :=
  (2 ^ (f.fractionBits + 2) - 1) * 2 ^ (f.normalExponent - (f.fractionBits + 2)) < q

theorem almostNormal_of_near (hd : 2 ^ f.fractionBits ≤ d)
    (hnear : 2 ^ (f.fractionBits + 2) * |f.codeValue d - q| < f.codeValue d) : f.AlmostNormal q := by
  have hnormal : (2 : ℚ) ^ f.normalExponent ≤ f.codeValue d := by
    rw [← codeValue_two_pow]
    exact f.codeValue_strictMono.monotone hd
  have hsplit : (2 : ℚ) ^ (f.fractionBits + 2) * 2 ^ (f.normalExponent - (f.fractionBits + 2)) = 2 ^ f.normalExponent :=
    two_pow_mul (by push_cast; ring)
  have hone : (1 : ℚ) ≤ 2 ^ (f.fractionBits + 2) := one_le_pow₀ one_le_two
  rw [← hsplit] at hnormal
  unfold AlmostNormal
  generalize (2 : ℚ) ^ (f.normalExponent - (f.fractionBits + 2)) = u at hnormal
  generalize (2 : ℚ) ^ (f.fractionBits + 2) = k at hnear hnormal hone
  refine lt_of_mul_lt_mul_left ?_ (zero_le_one.trans hone)
  calc k * ((k - 1) * u) = (k - 1) * (k * u) := by ring
    _ ≤ (k - 1) * f.codeValue d := by gcongr
    _ = k * f.codeValue d - f.codeValue d := by ring
    _ < k * f.codeValue d - k * |f.codeValue d - q| := by linarith
    _ ≤ k * f.codeValue d - k * (f.codeValue d - q) := by gcongr; exact le_abs_self _
    _ = k * q := by ring

theorem AlmostNormal.pos (h : f.AlmostNormal q) : 0 < q := by
  have hone : (1 : ℚ) ≤ 2 ^ (f.fractionBits + 2) := one_le_pow₀ one_le_two
  refine lt_of_le_of_lt ?_ h
  exact mul_nonneg (by linarith) (zpow_nonneg zero_le_two _)

theorem AlmostNormal.log (h : f.AlmostNormal q) (hlt : q < 2 ^ f.normalExponent) :
    Int.log 2 q = f.normalExponent - 1 := by
  have hpow : (2 : ℚ) ^ (f.normalExponent - 1) =
      2 ^ (f.fractionBits + 1) * 2 ^ (f.normalExponent - (f.fractionBits + 2)) :=
    (two_pow_mul (by push_cast; ring)).symm
  have hone : (1 : ℚ) ≤ 2 ^ (f.fractionBits + 1) := one_le_pow₀ one_le_two
  have hle : (2 : ℚ) ^ (f.normalExponent - 1) ≤ q := by
    refine le_of_lt (lt_of_le_of_lt ?_ h)
    rw [hpow, pow_succ _ (f.fractionBits + 1)]
    gcongr
    linarith
  have h₁ := (Int.zpow_le_iff_le_log one_lt_two h.pos).1 hle
  have h₂ := (Int.lt_zpow_iff_log_lt one_lt_two h.pos).1 hlt
  omega

theorem AlmostNormal.not_tiny (h : f.AlmostNormal q) : ¬ f.Tiny q := by
  rintro ⟨hq, r, hr, hlt⟩
  have hsub : q < 2 ^ f.normalExponent := by
    by_contra hle
    have hlog := (Int.zpow_le_iff_le_log one_lt_two hq).1 (not_lt.1 hle)
    exact absurd hlt (not_lt.2 ((zpow_le_zpow_right₀ one_le_two hlog).trans (hr.bounds hq).1))
  obtain ⟨n, hn, rfl⟩ := hr
  have he : Int.log 2 q - f.fractionBits = (f.normalExponent - (f.fractionBits + 2)) + 1 := by
    rw [h.log hsub]; ring
  have hpos : (0 : ℚ) < 2 ^ (f.normalExponent - (f.fractionBits + 2)) := zpow_pos two_pos _
  rw [he] at hn hlt
  -- a quarter of the last place is missing to the next power of two
  have hfar : (2 : ℚ) ^ (f.fractionBits + 1) - 1 / 2 < q / 2 ^ ((f.normalExponent - (f.fractionBits + 2)) + 1) := by
    rw [lt_div_iff₀ (zpow_pos two_pos _), zpow_add_one₀ two_ne_zero]
    refine lt_of_eq_of_lt ?_ h
    ring
  have hge : 2 ^ (f.fractionBits + 1) ≤ n := by
    have hn : (2 : ℚ) ^ (f.fractionBits + 1) < n + 1 := by linarith [(abs_le.1 hn.1).2]
    exact Nat.le_of_lt_succ (by exact_mod_cast hn)
  have hge : (2 : ℚ) ^ (f.fractionBits + 1) ≤ n := by exact_mod_cast hge
  refine absurd hlt (not_lt.2 ?_)
  calc (2 : ℚ) ^ f.normalExponent
      = 2 ^ (f.fractionBits + 1) * 2 ^ ((f.normalExponent - (f.fractionBits + 2)) + 1) :=
        (two_pow_mul (by push_cast; ring)).symm
    _ ≤ n * 2 ^ ((f.normalExponent - (f.fractionBits + 2)) + 1) := by gcongr

theorem AlmostNormal.not_extraBit (h : f.AlmostNormal q) (n : ℕ) (k : ℤ) : ¬ f.ExtraBit isDecimal q n k := by
  intro hx
  have hk : k = f.normalExponent - (f.fractionBits + 2) := by
    have := hx.log.2
    have := h.log hx.subnormal
    omega
  have hlt : (2 : ℚ) ^ (f.fractionBits + 2) - 1 < (2 * n + 1 : ℕ) := by
    refine lt_of_mul_lt_mul_right ?_ (zpow_nonneg zero_le_two k)
    rw [← hx.value, hk]
    exact h
  have hlt : (2 : ℚ) ^ (f.fractionBits + 2) < (2 * n + 1 : ℕ) + 1 := by linarith
  have hlt : 2 ^ (f.fractionBits + 2) < 2 * n + 1 + 1 := by exact_mod_cast hlt
  have hshort := hx.short
  rw [pow_succ] at hlt
  omega

/-! ### The conversion -/

theorem ofRatio_of_near (hf : f.Proper) (hn : 0 < x.num) (hd : 0 < x.den) (hnormal : 2 ^ f.fractionBits ≤ c)
    (hfinite : c < f.infinityCode) (hnear : 2 ^ (f.fractionBits + 2) * |f.codeValue c - x.toRat| < f.codeValue c) :
    f.ofRatio negative isDecimal x = .ok (.ofCode negative c) := by
  have halmost := almostNormal_of_near hnormal hnear
  have hcode := (isRoundedCode_roundedCode (f := f) hn hd).eq_of_near hf halmost.pos hnear
  obtain ⟨n, k, hx, -⟩ | ⟨-, htrim⟩ := f.trimmed_cases isDecimal hn hd
  · exact absurd hx (halmost.not_extraBit n k)
  have htiny : ¬ f.isTiny x = true := by
    rw [isTiny_iff hn hd]
    exact halmost.not_tiny
  rw [ofRatio_of_pos hn, htrim, hcode, if_neg]
  rintro (hinf | ⟨hx, -⟩)
  · exact absurd hfinite (not_lt.2 hinf)
  · exact htiny hx

end Format

end Groundwork
