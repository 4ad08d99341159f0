import Groundwork.Binary.Rounding
import Groundwork.Proofs.Binary.Grid
import Groundwork.Proofs.Binary.Ratio

/-!
# Rounding to a format

`IsRoundedCode f q c`: the code `c` is `q` rounded in the last place of its binade, or of the subnormal
numbers. Such a code is nearest among all codes and not only among those of its binade (`dist_le`), its
overflow is that of `q` rounded to full precision (`infinityCode_le_iff`), and `roundedCode` delivers it.
-/

namespace Groundwork

namespace Format

variable {f : Format} {q : ℚ} {c n : ℕ} {x : Ratio}

/-! ### Statements about exact values -/

/-- `r` is `q` rounded to full precision, with no bound on the exponent. -/
def Rounds (f : Format) (q r : ℚ) : Prop :=
  ∃ n : ℕ, IsRounded (q / 2 ^ (Int.log 2 q - f.fractionBits)) n ∧ r = n * 2 ^ (Int.log 2 q - f.fractionBits)

/-- Rounding `q` gives more than the largest finite number. -/
def Overflows (f : Format) (q : ℚ) : Prop := ∃ r, f.Rounds q r ∧ 2 ^ (2 ^ (f.exponentBits - 1) : ℤ) ≤ r

/-- Rounding `q`, not zero, gives less than the least normal number. -/
def Tiny (f : Format) (q : ℚ) : Prop := 0 < q ∧ ∃ r, f.Rounds q r ∧ r < 2 ^ f.normalExponent

def place (f : Format) (q : ℚ) : ℤ := max f.leastExponent (Int.log 2 q - f.fractionBits)

/-- The code `c` is `q` rounded in its last place. -/
def IsRoundedCode (f : Format) (q : ℚ) (c : ℕ) : Prop :=
  ∃ n j : ℕ, c = n + j * 2 ^ f.fractionBits ∧ f.leastExponent + j = f.place q ∧ IsRounded (q / 2 ^ f.place q) n

/-! ### The nearest code -/

theorem place_eq (f : Format) (q : ℚ) : f.place q = max f.leastExponent (Int.log 2 q - f.fractionBits) := rfl

theorem IsRoundedCode.value (hq : 0 < q) (h : f.IsRoundedCode q c) :
    ∃ n j : ℕ, c = n + j * 2 ^ f.fractionBits ∧ f.leastExponent + j = f.place q ∧ IsRounded (q / 2 ^ f.place q) n ∧
      n ≤ 2 ^ (f.fractionBits + 1) ∧ f.codeValue c = n * 2 ^ f.place q := by
  obtain ⟨n, j, rfl, hj, hn⟩ := h
  have hplace := f.place_eq q
  have hle : n ≤ 2 ^ (f.fractionBits + 1) := hn.le_pow one_lt_two hq (by omega)
  have hfull : 2 ^ f.fractionBits ≤ n ∨ j = 0 := by
    rcases Nat.eq_zero_or_pos j with hj0 | hj0
    · exact .inr hj0
    · exact .inl (hn.pow_le one_lt_two hq (by omega))
  exact ⟨n, j, rfl, hj, hn, hle, by rw [codeValue_add hle hfull, hj]⟩

theorem IsRoundedCode.unique (h : f.IsRoundedCode q c) {d : ℕ} (h' : f.IsRoundedCode q d) : c = d := by
  obtain ⟨n, j, rfl, hj, hn⟩ := h
  obtain ⟨n', j', rfl, hj', hn'⟩ := h'
  obtain rfl : j = j' := by omega
  rw [hn.eq hn']

theorem abs_mul_sub (q a : ℚ) (e : ℤ) : |a * 2 ^ e - q| = |q / 2 ^ e - a| * 2 ^ e := by
  have hpos : (0 : ℚ) < 2 ^ e := zpow_pos two_pos e
  rw [abs_sub_comm, ← abs_of_pos hpos, ← abs_mul, abs_of_pos hpos, sub_mul, div_mul_cancel₀ _ hpos.ne']

/-- The codes on the grid of `q` are no nearer by the choice of the integer; those of a lower binade are
all on the same side, beyond the least significand of the binade of `q`. -/
theorem IsRoundedCode.dist_le (hf : f.Proper) (hq : 0 < q) (h : f.IsRoundedCode q c) (d : ℕ) :
    |f.codeValue c - q| ≤ |f.codeValue d - q| ∧ (|f.codeValue c - q| = |f.codeValue d - q| → d ≠ c → Even c) := by
  obtain ⟨n, j, hc, hj, hn, -, hval⟩ := h.value hq
  have hpos : (0 : ℚ) < 2 ^ f.place q := zpow_pos two_pos _
  have hgrid : ∀ i : ℕ, |f.codeValue c - q| ≤ |i * 2 ^ f.place q - q| ∧
      (|f.codeValue c - q| = |i * 2 ^ f.place q - q| → i ≠ n → Even n) := by
    intro i
    obtain ⟨hle, heven⟩ := hn.dist_le i
    rw [Int.cast_natCast] at hle heven
    rw [hval, abs_mul_sub, abs_mul_sub]
    refine ⟨by gcongr, fun he hi => heven (mul_right_cancel₀ hpos.ne' he) (by omega)⟩
  have heven : Even n → Even c := by
    rintro hn
    rw [hc]
    exact hn.add ((Nat.even_pow.2 ⟨even_two, hf.fraction.ne'⟩).mul_left j)
  by_cases hd : j = 0 ∨ 2 ^ f.fractionBits * 2 ^ (f.leastExponent + j) ≤ f.codeValue d
  · obtain ⟨i, hi⟩ := on_grid hd
    rw [hj] at hi
    rw [hi]
    refine ⟨(hgrid i).1, fun he hne => heven ((hgrid i).2 he ?_)⟩
    rintro rfl
    exact hne ((f.codeValue_strictMono).injective (hi.trans hval.symm))
  · push Not at hd
    obtain ⟨hj0, hlt⟩ := hd
    have hplace := f.place_eq q
    have hle : (2 : ℚ) ^ f.fractionBits * 2 ^ f.place q ≤ q := by
      rw [two_pow_mul rfl]
      exact (Int.zpow_le_iff_le_log one_lt_two hq).2 (by omega)
    have hfar : |f.codeValue c - q| < |f.codeValue d - q| := by
      rw [hj] at hlt
      calc |f.codeValue c - q| ≤ |((2 ^ f.fractionBits : ℕ) : ℚ) * 2 ^ f.place q - q| := (hgrid _).1
        _ = q - 2 ^ f.fractionBits * 2 ^ f.place q := by
          rw [Nat.cast_pow, Nat.cast_ofNat, abs_of_nonpos (by linarith)]; ring
        _ < q - f.codeValue d := by linarith
        _ = |f.codeValue d - q| := by rw [abs_of_nonpos (by linarith)]; ring
    exact ⟨hfar.le, fun he => absurd he hfar.ne⟩

theorem IsRoundedCode.eq_of_codeValue (hf : f.Proper) (hq : 0 < q) (h : f.IsRoundedCode q c) {d : ℕ}
    (hd : f.codeValue d = q) : c = d := by
  have hle := (h.dist_le hf hq d).1
  rw [hd, sub_self, abs_zero] at hle
  have hc : f.codeValue c = q := sub_eq_zero.1 (abs_eq_zero.1 (le_antisymm hle (abs_nonneg _)))
  exact (f.codeValue_strictMono).injective (hc.trans hd.symm)

/-! ### Overflow and tininess -/

theorem Rounds.bounds (hq : 0 < q) {r : ℚ} (h : f.Rounds q r) :
    2 ^ Int.log 2 q ≤ r ∧ r ≤ 2 ^ (Int.log 2 q + 1) := by
  obtain ⟨n, hn, rfl⟩ := h
  have hpos : (0 : ℚ) < 2 ^ (Int.log 2 q - f.fractionBits) := zpow_pos two_pos _
  have hlo : (2 : ℚ) ^ f.fractionBits ≤ n := by exact_mod_cast hn.pow_le one_lt_two hq (by omega)
  have hhi : (n : ℚ) ≤ 2 ^ (f.fractionBits + 1) := by exact_mod_cast hn.le_pow one_lt_two hq (by omega)
  constructor
  · calc (2 : ℚ) ^ Int.log 2 q = 2 ^ f.fractionBits * 2 ^ (Int.log 2 q - f.fractionBits) := (two_pow_mul (by ring)).symm
      _ ≤ _ := by gcongr
  · calc (n : ℚ) * 2 ^ (Int.log 2 q - f.fractionBits)
        ≤ 2 ^ (f.fractionBits + 1) * 2 ^ (Int.log 2 q - f.fractionBits) := by gcongr
      _ = 2 ^ (Int.log 2 q + 1) := two_pow_mul (by push_cast; ring)

theorem Rounds.unique {r r' : ℚ} (h : f.Rounds q r) (h' : f.Rounds q r') : r = r' := by
  obtain ⟨n, hn, rfl⟩ := h
  obtain ⟨n', hn', rfl⟩ := h'
  rw [hn.eq hn']

theorem normalExponent_lt (hf : f.Proper) : f.normalExponent < 2 ^ (f.exponentBits - 1) := by
  have hbits : (2 : ℤ) ^ 1 ≤ 2 ^ (f.exponentBits - 1) := by
    have := hf.exponent
    gcongr
    · norm_num
    · omega
  have hnormal : f.normalExponent = 2 - 2 ^ (f.exponentBits - 1) - f.fractionBits + f.fractionBits := rfl
  rw [hnormal]
  omega

theorem not_overflows_of_lt (hf : f.Proper) (hq : 0 < q) (h : Int.log 2 q < f.normalExponent) : ¬ f.Overflows q := by
  rintro ⟨r, hr, hle⟩
  have hlt : (2 : ℚ) ^ (Int.log 2 q + 1) < 2 ^ (2 ^ (f.exponentBits - 1) : ℤ) :=
    zpow_lt_zpow_right₀ one_lt_two (by have := f.normalExponent_lt hf; omega)
  linarith [(hr.bounds hq).2]

/-- In the normal range the rounding is that to full precision; below it neither reaches infinity. -/
theorem IsRoundedCode.infinityCode_le_iff (hf : f.Proper) (hq : 0 < q) (h : f.IsRoundedCode q c) :
    f.infinityCode ≤ c ↔ f.Overflows q := by
  obtain ⟨n, j, -, hj, hn, hle, hval⟩ := h.value hq
  rw [← (f.codeValue_strictMono).le_iff_le, codeValue_infinityCode hf, hval]
  have hplace := f.place_eq q
  have hnormal := f.normalExponent_eq
  rcases lt_or_ge (Int.log 2 q) f.normalExponent with hlog | hlog
  · refine iff_of_false ?_ (not_overflows_of_lt hf hq hlog)
    have he : f.place q = f.leastExponent := by omega
    rw [he] at hn ⊢
    have hn : (n : ℚ) ≤ 2 ^ f.fractionBits := by exact_mod_cast hn.le_pow one_lt_two hq (by omega)
    have hlt := calc (n : ℚ) * 2 ^ f.leastExponent ≤ 2 ^ f.fractionBits * 2 ^ f.leastExponent := by gcongr
      _ = 2 ^ f.normalExponent := two_pow_mul (by rw [hnormal, add_comm])
      _ < 2 ^ (2 ^ (f.exponentBits - 1) : ℤ) := zpow_lt_zpow_right₀ one_lt_two (f.normalExponent_lt hf)
    exact not_le.2 hlt
  · have he : f.place q = Int.log 2 q - f.fractionBits := by omega
    rw [he] at hn ⊢
    constructor
    · intro h; exact ⟨_, ⟨n, hn, rfl⟩, h⟩
    · rintro ⟨r, hr, h⟩; rwa [hr.unique ⟨n, hn, rfl⟩] at h

/-! ### The computed rounding -/

theorem toRat_scale_neg (x : Ratio) (e : ℤ) : (x.scale 2 (-e)).toRat = x.toRat / 2 ^ e := by
  rw [Ratio.toRat_scale x two_pos, zpow_neg, div_eq_mul_inv, Nat.cast_ofNat]

theorem lastPlace_eq (hn : 0 < x.num) (hd : 0 < x.den) : f.lastPlace x = f.place x.toRat := by
  rw [lastPlace, place, Ratio.log2_eq hn hd]

theorem isRoundedCode_roundedCode (hn : 0 < x.num) (hd : 0 < x.den) :
    f.IsRoundedCode x.toRat (f.roundedCode x) := by
  have hround := Ratio.isRounded_round (Ratio.den_scale_pos hd two_pos (-f.lastPlace x))
  rw [toRat_scale_neg, lastPlace_eq hn hd] at hround
  refine ⟨_, (f.place x.toRat - f.leastExponent).toNat, ?_, ?_, hround⟩
  · rw [roundedCode, lastPlace_eq hn hd]
  · have : f.leastExponent ≤ f.place x.toRat := le_max_left _ _
    omega

theorem represents_iff (hn : 0 < x.num) (hd : 0 < x.den) :
    f.represents x = true ↔ f.codeValue (f.roundedCode x) = x.toRat := by
  have hpos : (0 : ℚ) < 2 ^ f.place x.toRat := zpow_pos two_pos _
  obtain ⟨n, j, -, hj, hround, -, hval⟩ := (isRoundedCode_roundedCode hn hd).value (f := f) (Ratio.toRat_pos hn hd)
  rw [represents, Ratio.isInteger_iff (Ratio.den_scale_pos hd two_pos _), lastPlace_eq hn hd, toRat_scale_neg, hval]
  constructor
  · rintro ⟨k, hk⟩
    rw [hk] at hround
    rw [hround.eq (.natCast k), ← hk, div_mul_cancel₀ _ hpos.ne']
  · intro h
    exact ⟨n, by rw [div_eq_iff hpos.ne', h]⟩

theorem isRounded_full (f : Format) (hd : 0 < x.den) :
    IsRounded (x.toRat / 2 ^ (Int.log 2 x.toRat - f.fractionBits))
      (x.scale 2 (f.fractionBits - Int.log 2 x.toRat)).round := by
  rw [← toRat_scale_neg, neg_sub]
  exact Ratio.isRounded_round (Ratio.den_scale_pos hd two_pos _)

theorem exists_rounds (f : Format) (hd : 0 < x.den) : ∃ r, f.Rounds x.toRat r :=
  ⟨_, _, f.isRounded_full hd, rfl⟩

theorem isTiny_iff (hn : 0 < x.num) (hd : 0 < x.den) : f.isTiny x = true ↔ f.Tiny x.toRat := by
  have hq := Ratio.toRat_pos hn hd
  have hround := f.isRounded_full hd
  simp only [isTiny, decide_eq_true_iff, Ratio.log2_eq hn hd]
  generalize (x.scale 2 (f.fractionBits - Int.log 2 x.toRat)).round = n at hround ⊢
  generalize x.toRat = q at hq hround ⊢
  have hr : f.Rounds q (n * 2 ^ (Int.log 2 q - f.fractionBits)) := ⟨n, hround, rfl⟩
  have htiny : f.Tiny q ↔ (n : ℚ) * 2 ^ (Int.log 2 q - f.fractionBits) < 2 ^ f.normalExponent := by
    refine ⟨?_, fun h => ⟨hq, _, hr, h⟩⟩
    rintro ⟨-, r, hr', h⟩
    rwa [hr'.unique hr] at h
  have hlt : ∀ a b : ℤ, (2 : ℚ) ^ a < 2 ^ b ↔ a < b := fun a b => zpow_lt_zpow_iff_right₀ one_lt_two
  rw [htiny]
  split_ifs with hcarry
  · have hn : n = 2 ^ (f.fractionBits + 1) := le_antisymm (hround.le_pow one_lt_two hq (by omega)) hcarry
    have hpow : (2 : ℚ) ^ (f.fractionBits + 1) * 2 ^ (Int.log 2 q - f.fractionBits) = 2 ^ (Int.log 2 q + 1) :=
      two_pow_mul (by push_cast; ring)
    rw [hn, ← hlt, Nat.cast_pow, Nat.cast_ofNat, hpow]
  · -- no carry: the rounding stays below the next power of two
    have hnlt : (n : ℚ) < 2 ^ (f.fractionBits + 1) := by exact_mod_cast not_le.1 hcarry
    have hnext := calc (n : ℚ) * 2 ^ (Int.log 2 q - f.fractionBits)
        < 2 ^ (f.fractionBits + 1) * 2 ^ (Int.log 2 q - f.fractionBits) := by gcongr
      _ = 2 ^ (Int.log 2 q + 1) := two_pow_mul (by push_cast; ring)
    constructor
    · intro h
      exact hnext.trans_le (zpow_le_zpow_right₀ one_le_two (by omega))
    · intro h
      exact (hlt _ _).1 ((hr.bounds hq).1.trans_lt h)

end Format

end Groundwork
