import Groundwork.Proofs.Binary.Nearest

/-!
# Conversion of an exact value, and where it is not correct

`Converts f negative q r` is what a correctly rounded conversion of `q` with a sign has to answer: the
nearest number, or that the range is left, by overflow or by an underflow that is not exact. `ofRatio`
answers that for every value but one kind. A value below the normal numbers that takes one bit more than
full precision (`ExtraBit`) is cut before it is rounded; if what is left is a number of the format
(`DropsBit`) the lost bit is nowhere noticed, and the cut value is delivered as if it were exact. In all
other cases the cut changes nothing (`roundedCode_of_allOnes` is the one that needs a calculation).
-/

namespace Groundwork

namespace Format

/-- `r` is the answer of a correctly rounded conversion of `q` to the format. -/
structure Converts (f : Format) (negative : Bool) (q : ℚ) (r : Except ReadError (Binary f)) : Prop where
  overflow : f.Overflows q → r = .error .outOfRange
  delivered : ¬ f.Overflows q → ∃ y : Binary f, y.IsNearest (signed negative q) ∧ y.negative = negative ∧
    (f.Tiny q ∧ y.toRat ≠ signed negative q → r = .error .outOfRange) ∧
    (¬ (f.Tiny q ∧ y.toRat ≠ signed negative q) → r = .ok y)

/-- Below the normal numbers, `q` is an odd multiple `2 * n + 1` of `2 ^ k` with one bit more than full
precision; a decimal numeral is moreover in the binade next to the normal numbers. -/
structure ExtraBit (f : Format) (isDecimal : Bool) (q : ℚ) (n : ℕ) (k : ℤ) : Prop where
  full : 2 ^ f.fractionBits ≤ n
  short : n < 2 ^ (f.fractionBits + 1)
  value : q = (2 * n + 1 : ℕ) * 2 ^ k
  subnormal : q < 2 ^ f.normalExponent
  decimal : isDecimal = true → 2 ^ (f.normalExponent - 1) ≤ q

/-- The value `(2 * n + 1) * 2 ^ k` without its last bit. -/
def cut (n : ℕ) (k : ℤ) : Ratio := (Ratio.ofNat (2 * n)).scale 2 k

/-- `q` without its extra bit is `p`, and `p` is on the grid of the subnormal numbers. -/
def DropsBit (f : Format) (isDecimal : Bool) (q p : ℚ) : Prop :=
  ∃ n k, f.ExtraBit isDecimal q n k ∧ p = (cut n k).toRat ∧ ∃ i : ℕ, p = i * 2 ^ f.leastExponent

variable {f : Format} {q : ℚ} {n : ℕ} {k : ℤ} {negative isDecimal : Bool} {x : Ratio}

theorem toRat_cut (n : ℕ) (k : ℤ) : (cut n k).toRat = (2 * n : ℕ) * 2 ^ k := by
  rw [cut, Ratio.toRat_scale _ two_pos, Ratio.toRat_ofNat]
  rfl

theorem den_cut_pos (n : ℕ) (k : ℤ) : 0 < (cut n k).den := Ratio.den_scale_pos one_pos two_pos k

theorem Converts.zero (hf : f.Proper) (negative : Bool) : f.Converts negative 0 (.ok (.zero negative)) := by
  have h0 : signed negative 0 = 0 := by cases negative <;> simp [signed]
  refine ⟨fun h => absurd h f.not_overflows_zero, fun _ => ⟨.zero negative, ?_, ?_, ?_, fun _ => rfl⟩⟩
  · rw [h0]; exact isNearest_zero hf negative
  · exact Binary.negative_ofCode (Nat.two_pow_pos _)
  · rintro ⟨⟨h, -⟩, -⟩; exact absurd h (lt_irrefl 0)

theorem Converts.eq_ok {r : Except ReadError (Binary f)} (h : f.Converts negative q r) (hover : ¬ f.Overflows q)
    {y : Binary f} (hy : y.isFinite = true) (hsign : y.negative = negative) (hval : y.toRat = signed negative q) :
    r = .ok y := by
  obtain ⟨z, hz, hzsign, -, hok⟩ := h.delivered hover
  have hle := (hz.2 y hy).1
  rw [hval, sub_self, abs_zero] at hle
  have hzval : z.toRat = signed negative q := sub_eq_zero.1 (abs_eq_zero.1 (le_antisymm hle (abs_nonneg _)))
  rw [hok (fun h => h.2 hzval), Binary.eq_of_toRat_eq (hzsign.trans hsign.symm) (hzval.trans hval.symm)]

theorem zpow_add_two (k : ℤ) : (2 : ℚ) ^ (k + 2) = 4 * 2 ^ k := by
  rw [zpow_add₀ two_ne_zero, mul_comm]
  norm_num

theorem log_mul_pow {a p : ℕ} (hlo : 2 ^ p ≤ a) (hhi : a < 2 ^ (p + 1)) (k : ℤ) :
    0 < (a : ℚ) * 2 ^ k ∧ Int.log 2 ((a : ℚ) * 2 ^ k) = p + k := by
  have hlo : (2 : ℚ) ^ p ≤ a := by exact_mod_cast hlo
  have hhi : (a : ℚ) < 2 ^ (p + 1) := by exact_mod_cast hhi
  have hpos : (0 : ℚ) < 2 ^ k := zpow_pos two_pos k
  have hle : (2 : ℚ) ^ (p + k) ≤ a * 2 ^ k := by rw [← two_pow_mul rfl]; gcongr
  have hlt : (a : ℚ) * 2 ^ k < 2 ^ (p + k + 1) := by
    calc (a : ℚ) * 2 ^ k < 2 ^ (p + 1) * 2 ^ k := by gcongr
      _ = 2 ^ (p + k + 1) := two_pow_mul (by push_cast; ring)
  have hq : 0 < (a : ℚ) * 2 ^ k := (zpow_pos two_pos _).trans_le hle
  have h₁ := (Int.zpow_le_iff_le_log one_lt_two hq).1 hle
  have h₂ := (Int.lt_zpow_iff_log_lt one_lt_two hq).1 hlt
  exact ⟨hq, by omega⟩

/-! ### Values with an extra bit -/

namespace ExtraBit

variable (h : f.ExtraBit isDecimal q n k)
include h

theorem log : 0 < q ∧ Int.log 2 q = f.fractionBits + 1 + k := by
  have hlo := h.full
  have hhi := h.short
  rw [h.value]
  exact_mod_cast log_mul_pow (a := 2 * n + 1) (p := f.fractionBits + 1) (by rw [pow_succ]; omega)
    (by rw [pow_succ]; omega) k

theorem log_cut : 0 < (cut n k).toRat ∧ Int.log 2 (cut n k).toRat = f.fractionBits + 1 + k := by
  have hlo := h.full
  have hhi := h.short
  rw [toRat_cut]
  exact_mod_cast log_mul_pow (a := 2 * n) (p := f.fractionBits + 1) (by rw [pow_succ]; omega)
    (by rw [pow_succ]; omega) k

theorem unique {n' : ℕ} {k' : ℤ} (h' : f.ExtraBit isDecimal q n' k') : n' = n ∧ k' = k := by
  have hlog := h.log.2
  have hlog' := h'.log.2
  obtain rfl : k' = k := by omega
  have hpos : (0 : ℚ) < 2 ^ k' := zpow_pos two_pos _
  have hval := h'.value.symm.trans h.value
  have hval : 2 * n' + 1 = 2 * n + 1 := by exact_mod_cast mul_right_cancel₀ hpos.ne' hval
  exact ⟨by omega, rfl⟩

theorem log_lt : Int.log 2 q < f.normalExponent := (Int.lt_zpow_iff_log_lt one_lt_two h.log.1).1 h.subnormal

theorem le : k + 2 ≤ f.leastExponent := by
  have hlog := h.log.2
  have hlt := h.log_lt
  have hnormal := f.normalExponent_eq
  omega

theorem not_overflows (hf : f.Proper) : ¬ f.Overflows q := not_overflows_of_lt hf h.log.1 h.log_lt

theorem not_overflows_cut (hf : f.Proper) : ¬ f.Overflows (cut n k).toRat :=
  not_overflows_of_lt hf h.log_cut.1 (by rw [h.log_cut.2, ← h.log.2]; exact h.log_lt)

theorem num_cut_pos : 0 < (cut n k).num := by
  refine Ratio.num_scale_pos ?_ two_pos k
  have hfull := h.full
  have := Nat.two_pow_pos f.fractionBits
  show 0 < 2 * n
  omega

theorem codeValue_ne (c : ℕ) : f.codeValue c ≠ q := by
  obtain ⟨i, hi⟩ := f.exists_multiple c
  have hk := h.le
  obtain ⟨d, hd⟩ := Int.eq_ofNat_of_zero_le (a := f.leastExponent - k - 1) (by omega)
  have hpos : (0 : ℚ) < 2 ^ k := zpow_pos two_pos k
  rw [hi, h.value]
  intro heq
  have he : f.leastExponent = ((d + 1 : ℕ) : ℤ) + k := by omega
  rw [he, ← two_pow_mul rfl, ← mul_assoc] at heq
  have heq : i * 2 ^ (d + 1) = 2 * n + 1 := by exact_mod_cast mul_right_cancel₀ hpos.ne' heq
  rw [pow_succ, ← mul_assoc] at heq
  omega

theorem place_eq : f.place q = f.leastExponent ∧ f.place (cut n k).toRat = f.leastExponent := by
  have hk := h.le
  rw [place, place, h.log.2, h.log_cut.2]
  omega

/-- Only all ones round up to the normal numbers at full precision. -/
theorem tiny_or {r : ℚ} (hr : f.Rounds q r) :
    f.Tiny q ∨ n + 1 = 2 ^ (f.fractionBits + 1) ∧ k + 2 = f.leastExponent := by
  obtain ⟨hq, hlog⟩ := h.log
  have hk := h.le
  have hnormal := f.normalExponent_eq
  by_cases hlt : r < 2 ^ f.normalExponent
  · exact .inl ⟨hq, r, hr, hlt⟩
  right
  have hle : f.normalExponent ≤ Int.log 2 q + 1 :=
    (zpow_le_zpow_iff_right₀ one_lt_two).1 ((not_lt.1 hlt).trans (hr.bounds hq).2)
  refine ⟨?_, by omega⟩
  obtain ⟨n', hn', rfl⟩ := hr
  have he : Int.log 2 q - f.fractionBits = k + 1 := by omega
  rw [he] at hn' hlt
  have hle : n' ≤ n + 1 := by
    refine hn'.ge_of_le ?_
    rw [div_le_iff₀ (zpow_pos two_pos _), zpow_add_one₀ two_ne_zero, h.value]
    have hpos : (0 : ℚ) < 2 ^ k := zpow_pos two_pos k
    push_cast
    nlinarith
  have hge : 2 ^ (f.fractionBits + 1) ≤ n' := by
    have hpow : (2 : ℚ) ^ f.normalExponent = 2 ^ (f.fractionBits + 1) * 2 ^ (k + 1) :=
      (two_pow_mul (by push_cast; omega)).symm
    rw [hpow, not_lt] at hlt
    exact_mod_cast le_of_mul_le_mul_right hlt (zpow_pos two_pos _)
  have := h.short
  omega

/-- The all-ones value and its cut round to the same power of two. -/
theorem roundedCode_of_allOnes (hf : f.Proper) (hn : n + 1 = 2 ^ (f.fractionBits + 1)) (hk : k + 2 = f.leastExponent) :
    f.IsRoundedCode q (2 ^ f.fractionBits) ∧ f.IsRoundedCode (cut n k).toRat (2 ^ f.fractionBits) := by
  obtain ⟨hplace, hplace'⟩ := h.place_eq
  have hpos : (0 : ℚ) < 2 ^ k := zpow_pos two_pos k
  have hfour : (2 : ℚ) ^ f.leastExponent = 4 * 2 ^ k := by rw [← hk, zpow_add_two]
  have hn : (n : ℚ) = 2 * 2 ^ f.fractionBits - 1 := by
    rw [pow_succ] at hn
    rw [eq_sub_iff_add_eq, mul_comm]
    exact_mod_cast hn
  refine ⟨⟨2 ^ f.fractionBits, 0, by simp, by rw [hplace]; simp, ?_⟩,
    ⟨2 ^ f.fractionBits, 0, by simp, by rw [hplace']; simp, ?_⟩⟩
  · have hdiff : q / 2 ^ f.place q - (2 ^ f.fractionBits : ℕ) = -(1 / 4) := by
      rw [hplace, h.value, hfour]
      push_cast
      rw [hn]
      field_simp
      ring
    rw [IsRounded, hdiff]
    constructor <;> norm_num
  · have hdiff : (cut n k).toRat / 2 ^ f.place (cut n k).toRat - (2 ^ f.fractionBits : ℕ) = -(1 / 2) := by
      rw [hplace', toRat_cut, hfour]
      push_cast
      rw [hn]
      field_simp
      ring
    rw [IsRounded, hdiff]
    exact ⟨by norm_num, fun _ => Nat.even_pow.2 ⟨even_two, hf.fraction.ne'⟩⟩

end ExtraBit

/-! ### The cut -/

/-- A value with an extra bit loses it, and every other value is left as it is. -/
theorem trimmed_cases (f : Format) (isDecimal : Bool) (hn : 0 < x.num) (hd : 0 < x.den) :
    (∃ n k, f.ExtraBit isDecimal x.toRat n k ∧ f.trimmed isDecimal x = cut n k) ∨
      (¬ ∃ n k, f.ExtraBit isDecimal x.toRat n k) ∧ f.trimmed isDecimal x = x := by
  have hq := Ratio.toRat_pos hn hd
  have hnormal := f.normalExponent_eq
  set last : ℤ := Int.log 2 x.toRat - f.fractionBits - 1 with hlast
  have hden : 0 < (x.scale 2 (-last)).den := Ratio.den_scale_pos hd two_pos _
  have hscale : (x.scale 2 (-last)).toRat = x.toRat / 2 ^ last := toRat_scale_neg x last
  have hpos : (0 : ℚ) < 2 ^ last := zpow_pos two_pos _
  have hsub : Int.log 2 x.toRat < f.normalExponent ↔ x.toRat < 2 ^ f.normalExponent :=
    (Int.lt_zpow_iff_log_lt one_lt_two hq).symm
  have hdec : f.leastExponent - 2 ≤ last ↔ (2 : ℚ) ^ (f.normalExponent - 1) ≤ x.toRat := by
    have := Int.zpow_le_iff_le_log one_lt_two hq (x := f.normalExponent - 1)
    rw [Nat.cast_ofNat] at this
    rw [this]
    omega
  have htrim : f.trimmed isDecimal x =
      if x.toRat < 2 ^ f.normalExponent ∧ (isDecimal = true → 2 ^ (f.normalExponent - 1) ≤ x.toRat) ∧
        (x.scale 2 (-last)).isInteger = true ∧ (x.scale 2 (-last)).num / (x.scale 2 (-last)).den % 2 = 1
      then (Ratio.ofNat ((x.scale 2 (-last)).num / (x.scale 2 (-last)).den - 1)).scale 2 last else x := by
    simp only [trimmed, Ratio.log2_eq hn hd, ← hlast]
    refine if_congr ?_ rfl rfl
    rw [← hsub, ← hdec]
    cases isDecimal <;> simp [and_assoc]
  -- a multiple of `2 ^ last` is the integer that the scaled fraction is
  have hquot : ∀ a : ℕ, x.toRat = a * 2 ^ last →
      (x.scale 2 (-last)).isInteger = true ∧ (x.scale 2 (-last)).num / (x.scale 2 (-last)).den = a := by
    intro a ha
    have ha : (x.scale 2 (-last)).toRat = a := by rw [hscale, ha, mul_div_cancel_right₀ _ hpos.ne']
    refine ⟨(Ratio.isInteger_iff hden).2 ⟨a, ha⟩, ?_⟩
    rw [(Ratio.toRat_eq_natCast_iff hden).1 ha, Nat.mul_div_cancel _ hden]
  rw [htrim]
  split_ifs with hcond
  · obtain ⟨hsub, hdec, hint, hodd⟩ := hcond
    obtain ⟨a, ha⟩ := (Ratio.isInteger_iff hden).1 hint
    rw [hscale, div_eq_iff hpos.ne'] at ha
    rw [(hquot a ha).2] at hodd ⊢
    obtain ⟨n, rfl⟩ : ∃ n, a = 2 * n + 1 := ⟨a / 2, by omega⟩
    have hlo : (2 : ℚ) ^ (f.fractionBits + 1) ≤ (2 * n + 1 : ℕ) := by
      refine le_of_mul_le_mul_right ?_ hpos
      rw [← ha, two_pow_mul (k := Int.log 2 x.toRat) (by push_cast; omega)]
      exact (Int.zpow_le_iff_le_log one_lt_two hq).2 le_rfl
    have hhi : ((2 * n + 1 : ℕ) : ℚ) < 2 ^ (f.fractionBits + 2) := by
      refine lt_of_mul_lt_mul_right ?_ hpos.le
      rw [← ha, two_pow_mul (k := Int.log 2 x.toRat + 1) (by push_cast; omega)]
      exact (Int.lt_zpow_iff_log_lt one_lt_two hq).2 (by omega)
    have hlo : 2 ^ (f.fractionBits + 1) ≤ 2 * n + 1 := by exact_mod_cast hlo
    have hhi : 2 * n + 1 < 2 ^ (f.fractionBits + 2) := by exact_mod_cast hhi
    rw [pow_succ] at hlo
    rw [pow_succ] at hhi
    exact .inl ⟨n, last, ⟨by omega, by omega, ha, hsub, hdec⟩, rfl⟩
  · right
    refine ⟨?_, rfl⟩
    rintro ⟨n, k, h⟩
    obtain rfl : k = last := by have := h.log.2; omega
    obtain ⟨hint, hquot⟩ := hquot _ h.value
    exact hcond ⟨h.subnormal, h.decimal, hint, by rw [hquot]; omega⟩

/-! ### The answer -/

theorem ofRatio_of_pos (hn : 0 < x.num) : f.ofRatio negative isDecimal x =
    if f.infinityCode ≤ f.roundedCode (f.trimmed isDecimal x) ∨
        f.isTiny x = true ∧ ¬ f.represents (f.trimmed isDecimal x) = true
    then .error .outOfRange else .ok (.ofCode negative (f.roundedCode (f.trimmed isDecimal x))) := by
  simp [ofRatio, hn.ne']

theorem toRat_ne_signed {y : Binary f} (hq : 0 < q) (hy : f.codeValue y.code ≠ q) :
    y.toRat ≠ signed negative q := by
  intro h
  rw [← Binary.abs_toRat, h, abs_signed, abs_of_pos hq] at hy
  exact hy rfl

theorem converts_of_code {c : ℕ} {r : Except ReadError (Binary f)} (hf : f.Proper) (hq : 0 < q)
    (hc : f.IsRoundedCode q c) (hover : f.Overflows q → r = .error .outOfRange)
    (htiny : ¬ f.Overflows q → f.Tiny q ∧ f.codeValue c ≠ q → r = .error .outOfRange)
    (hok : ¬ f.Overflows q → ¬ (f.Tiny q ∧ f.codeValue c ≠ q) → r = .ok (.ofCode negative c)) :
    f.Converts negative q r := by
  refine ⟨hover, fun hno => ?_⟩
  have hlt : c < f.infinityCode := not_le.1 fun hle => hno ((hc.infinityCode_le_iff hf hq).1 hle)
  have hbits : c < 2 ^ f.codeBits := hlt.trans f.infinityCode_lt
  have hne : (Binary.ofCode negative c : Binary f).toRat ≠ signed negative q ↔ f.codeValue c ≠ q := by
    constructor
    · rintro h rfl; exact h (Binary.toRat_ofCode hbits)
    · intro h; exact toRat_ne_signed hq (by rwa [Binary.code_ofCode hbits])
  exact ⟨.ofCode negative c, hc.isNearest hf hq hlt, Binary.negative_ofCode hbits, by rw [hne]; exact htiny hno,
    by rw [hne]; exact hok hno⟩

theorem ofRatio_of_dropsBit (negative : Bool) (hf : f.Proper) (hn : 0 < x.num) (hd : 0 < x.den) {p : ℚ}
    (h : f.DropsBit isDecimal x.toRat p) :
    ∃ y, f.ofRatio negative isDecimal x = .ok y ∧ y.negative = negative ∧ y.isFinite = true ∧
      y.toRat = signed negative p := by
  obtain ⟨n, k, h, rfl, i, hi⟩ := h
  obtain ⟨n', k', h', htrim⟩ | ⟨hnone, -⟩ := f.trimmed_cases isDecimal hn hd
  swap
  · exact absurd ⟨n, k, h⟩ hnone
  obtain ⟨rfl, rfl⟩ := h.unique h'
  obtain ⟨hp, hlog⟩ := h.log_cut
  have hyn := h.num_cut_pos
  have hyd := den_cut_pos n' k'
  -- the cut value is below the normal numbers, so it is a significand of the subnormal ones
  have hlt : i < 2 ^ (f.fractionBits + 1) := by
    have hnormal := f.normalExponent_eq
    have hpow : (2 : ℚ) ^ (f.fractionBits + 1) * 2 ^ f.leastExponent = 2 ^ (f.normalExponent + 1) :=
      two_pow_mul (by rw [hnormal]; push_cast; ring)
    have hle : Int.log 2 (cut n' k').toRat < f.normalExponent + 1 := by
      have := h.log_lt
      rw [hlog, ← h.log.2]
      omega
    have hlt := (Int.lt_zpow_iff_log_lt one_lt_two hp).2 hle
    rw [hi, Nat.cast_ofNat, ← hpow] at hlt
    exact_mod_cast lt_of_mul_lt_mul_right hlt (zpow_pos two_pos f.leastExponent).le
  obtain ⟨c, hc⟩ := exists_codeValue (f := f) hlt 0
  rw [Nat.cast_zero, add_zero, ← hi] at hc
  have hcode := (isRoundedCode_roundedCode hyn hyd).eq_of_codeValue hf hp hc
  have hfin := roundedCode_lt hf hyn hyd (h.not_overflows_cut hf)
  have hbits := hfin.trans f.infinityCode_lt
  have hrep : f.represents (cut n' k') = true := by rw [represents_iff hyn hyd, hcode, hc]
  rw [ofRatio_of_pos hn, htrim]
  refine ⟨.ofCode negative (f.roundedCode (cut n' k')), if_neg ?_, Binary.negative_ofCode hbits,
    (Binary.isFinite_ofCode hbits).2 hfin, ?_⟩
  · rintro (hle | ⟨-, hne⟩)
    · exact absurd hle (not_le.2 hfin)
    · exact hne hrep
  · rw [Binary.toRat_ofCode hbits, hcode, hc]

theorem ofRatio_converts (hf : f.Proper) (hn : 0 < x.num) (hd : 0 < x.den)
    (h : ¬ ∃ p, f.DropsBit isDecimal x.toRat p) :
    f.Converts negative x.toRat (f.ofRatio negative isDecimal x) := by
  have hq := Ratio.toRat_pos hn hd
  have hcode := isRoundedCode_roundedCode (f := f) hn hd
  obtain ⟨n, k, hx, htrim⟩ | ⟨-, htrim⟩ := f.trimmed_cases isDecimal hn hd
  · -- the cut value is off the grid, so an underflow is seen as it would be without the cut
    have hcut := isRoundedCode_roundedCode (f := f) hx.num_cut_pos (den_cut_pos n k)
    have hfin := roundedCode_lt hf hx.num_cut_pos (den_cut_pos n k) (hx.not_overflows_cut hf)
    have hrep : ¬ f.represents (cut n k) = true := by
      rw [represents_iff hx.num_cut_pos (den_cut_pos n k)]
      intro hval
      obtain ⟨i, hi⟩ := f.exists_multiple (f.roundedCode (cut n k))
      rw [hval] at hi
      exact h ⟨_, n, k, hx, rfl, i, hi⟩
    rw [ofRatio_of_pos hn, htrim]
    refine converts_of_code hf hq hcode (fun hover => absurd hover (hx.not_overflows hf)) (fun _ htiny => ?_)
      (fun _ hok => ?_)
    · exact if_pos (.inr ⟨(isTiny_iff hn hd).2 htiny.1, hrep⟩)
    · have htiny : ¬ f.Tiny x.toRat := fun ht => hok ⟨ht, hx.codeValue_ne _⟩
      obtain ⟨r, hr⟩ := f.exists_rounds hd
      obtain ⟨hones, hk⟩ := (hx.tiny_or hr).resolve_left htiny
      obtain ⟨hcode', hcut'⟩ := hx.roundedCode_of_allOnes hf hones hk
      rw [hcode.unique hcode', ← hcut.unique hcut']
      refine if_neg ?_
      rintro (hle | ⟨ht, -⟩)
      · exact absurd hle (not_le.2 hfin)
      · exact htiny ((isTiny_iff hn hd).1 ht)
  · have hover := hcode.infinityCode_le_iff hf hq
    have htiny : f.isTiny x = true ∧ ¬ f.represents x = true ↔
        f.Tiny x.toRat ∧ f.codeValue (f.roundedCode x) ≠ x.toRat := by
      rw [isTiny_iff hn hd, represents_iff hn hd]
    rw [ofRatio_of_pos hn, htrim]
    refine converts_of_code hf hq hcode (fun h => if_pos (.inl (hover.2 h))) (fun _ h => if_pos (.inr (htiny.2 h)))
      (fun hno hok => if_neg ?_)
    rintro (h | h)
    · exact hno (hover.1 h)
    · exact hok (htiny.1 h)

/-- A lost bit is the only thing that is not converted correctly. -/
theorem ofRatio_converts_iff (hf : f.Proper) (hn : 0 < x.num) (hd : 0 < x.den) :
    f.Converts negative x.toRat (f.ofRatio negative isDecimal x) ↔ ¬ ∃ p, f.DropsBit isDecimal x.toRat p := by
  refine ⟨?_, ofRatio_converts hf hn hd⟩
  rintro hconv ⟨p, hdrop⟩
  obtain ⟨y, hy, -⟩ := ofRatio_of_dropsBit negative hf hn hd hdrop
  obtain ⟨n, k, h, rfl, i, hi⟩ := hdrop
  have htiny : f.Tiny x.toRat := by
    obtain ⟨r, hr⟩ := f.exists_rounds hd
    refine (h.tiny_or hr).resolve_right ?_
    -- all ones without the extra bit is odd on a grid twice as fine
    rintro ⟨hones, hk⟩
    have hpos : (0 : ℚ) < 2 ^ k := zpow_pos two_pos k
    rw [toRat_cut, ← hk, zpow_add_two, ← mul_assoc] at hi
    have hi : 2 * n = i * 4 := by exact_mod_cast mul_right_cancel₀ hpos.ne' hi
    rw [pow_succ] at hones
    omega
  obtain ⟨z, -, -, herr, -⟩ := hconv.delivered (h.not_overflows hf)
  have := herr ⟨htiny, toRat_ne_signed (Ratio.toRat_pos hn hd) (h.codeValue_ne _)⟩
  rw [hy] at this
  cases this

end Format

end Groundwork
