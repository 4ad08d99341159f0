import Groundwork.Proofs.Binary.RoundTrip

/-!
# Subnormal numbers and their digits

A subnormal number takes hundreds of significant digits (`five_pow_lt`). A text that has them all is read as the
number again. A text that has fewer is next to the number and below the normal ones, and it is not exact, so
reading it is an underflow (`ofRatio_of_below`). That an extra bit is dropped does not happen: a place fine enough
for that bit is fine enough for the number (`le_of_odd_multiple`).
-/

namespace Groundwork

/-- `q` has no more than `p + 1` significant digits. -/
def HasDigits (p : ℕ) (q : ℚ) : Prop := ∃ n : ℕ, q = n * 10 ^ (Int.log 10 q - p)

/-! ### Digits of binary fractions -/

section

variable {q : ℚ} {m n p c : ℕ} {e k l : ℤ}

theorem IsSignificant.value_eq_iff (hq : 0 < q) (h : IsSignificant q p n k) :
    (n : ℚ) * 10 ^ (k - p) = q ↔ HasDigits p q := by
  obtain ⟨r, hr, hval⟩ := h.exists_isRounded hq
  have hpos : (0 : ℚ) < 10 ^ (Int.log 10 q - p) := zpow_pos (by norm_num) _
  rw [hval]
  constructor
  · intro heq
    exact ⟨r, heq.symm⟩
  · rintro ⟨a, ha⟩
    rw [(div_eq_iff hpos.ne').2 ha] at hr
    rw [hr.eq (.natCast a)]
    exact ha.symm

theorem IsSignificant.near (hq : 0 < q) (h : IsSignificant q p n k) :
    10 ^ p * (2 * |q - n * 10 ^ (k - p)|) ≤ q := by
  obtain ⟨r, hr, hval⟩ := h.exists_isRounded hq
  rw [hval]
  refine hr.near ?_
  rw [add_sub_cancel]
  exact Int.zpow_log_le_self (b := 10) (by norm_num) hq

theorem ten_zpow (e : ℤ) : (10 : ℚ) ^ e = 2 ^ e * 5 ^ e := by
  rw [← mul_zpow]
  norm_num

theorem le_of_odd_multiple (h : ((2 * m + 1 : ℕ) : ℚ) * 2 ^ l = n * 10 ^ e) : e ≤ l := by
  by_contra hlt
  obtain ⟨d, hd⟩ := Int.eq_ofNat_of_zero_le (a := e - l - 1) (by omega)
  obtain ⟨a, ha⟩ := Int.eq_ofNat_of_zero_le (a := e + e.natAbs) (by omega)
  have htwo : (2 : ℚ) ^ e = 2 ^ (d + 1) * 2 ^ l := (Format.two_pow_mul (by push_cast; omega)).symm
  have hfive : (5 : ℚ) ^ e * 5 ^ e.natAbs = 5 ^ a := by
    rw [← zpow_natCast, ← zpow_add₀ (by norm_num), ha]
    exact zpow_natCast 5 a
  rw [ten_zpow, htwo] at h
  have heq : ((2 * m + 1 : ℕ) : ℚ) = n * 2 ^ (d + 1) * 5 ^ e := by
    refine mul_right_cancel₀ (zpow_pos two_pos l : (0 : ℚ) < 2 ^ l).ne' ?_
    rw [h]
    ring
  have heq : (2 * m + 1) * 5 ^ e.natAbs = n * 2 ^ (d + 1) * 5 ^ a := by
    have heq : ((2 * m + 1 : ℕ) : ℚ) * 5 ^ e.natAbs = n * 2 ^ (d + 1) * 5 ^ a := by
      rw [heq, mul_assoc, hfive]
    exact_mod_cast heq
  have hodd : Odd ((2 * m + 1) * 5 ^ e.natAbs) := (odd_two_mul_add_one m).mul (Odd.pow (by decide))
  rw [heq, ← Nat.not_even_iff_odd] at hodd
  exact hodd (((Nat.even_pow.2 ⟨even_two, d.succ_ne_zero⟩).mul_left n).mul_right _)

theorem hasDigits_of_le (hq : q = c * 2 ^ l) (hl : l ≤ 0) (h : Int.log 10 q - p ≤ l) : HasDigits p q := by
  obtain ⟨a, ha⟩ := Int.eq_ofNat_of_zero_le (a := l - (Int.log 10 q - p)) (by omega)
  obtain ⟨b, hb⟩ := Int.eq_ofNat_of_zero_le (a := -l) (by omega)
  refine ⟨c * 5 ^ b * 10 ^ a, ?_⟩
  have hsplit : (10 : ℚ) ^ a * 10 ^ (Int.log 10 q - p) = 10 ^ l := by
    rw [← zpow_natCast, ← zpow_add₀ (by norm_num)]
    congr 1
    omega
  have hfive : (5 : ℚ) ^ b * 5 ^ l = 1 := by
    rw [← zpow_natCast, ← zpow_add₀ (by norm_num), ← zpow_zero (5 : ℚ)]
    congr 1
    omega
  push_cast
  rw [mul_assoc, hsplit, ten_zpow]
  calc q = c * 2 ^ l * 1 := by rw [mul_one]; exact hq
    _ = c * 5 ^ b * (2 ^ l * 5 ^ l) := by rw [← hfive]; ring

theorem five_pow_lt {b : ℕ} (hc : 0 < c) (hlt : c < 2 ^ b) (hq : q = c * 2 ^ l) (h : HasDigits p q) :
    (5 : ℚ) ^ (1 - b - l) < 10 ^ (p + 1) := by
  obtain ⟨n, hn⟩ := h
  obtain ⟨j, r, hodd, rfl⟩ := Nat.exists_eq_two_pow_mul_odd hc.ne'
  obtain ⟨m, rfl⟩ := hodd
  have hj : j < b := by
    refine (Nat.pow_lt_pow_iff_right one_lt_two).1 (lt_of_le_of_lt ?_ hlt)
    exact Nat.le_mul_of_pos_right _ (Nat.succ_pos _)
  have hq' : q = ((2 * m + 1 : ℕ) : ℚ) * 2 ^ (j + l) := by
    rw [hq, ← Format.two_pow_mul rfl]
    push_cast
    ring
  have he := le_of_odd_multiple (hq'.symm.trans hn)
  have hpos : (0 : ℚ) < 2 ^ (j + l) := zpow_pos two_pos _
  have hle : (2 : ℚ) ^ (j + l) ≤ q := by
    rw [hq']
    refine le_mul_of_one_le_left hpos.le ?_
    exact_mod_cast Nat.succ_pos _
  have hlog : q < (10 : ℚ) ^ (Int.log 10 q + 1) := Int.lt_zpow_succ_log_self (b := 10) (by norm_num) q
  have hten : (10 : ℚ) ^ (Int.log 10 q + 1) ≤ 10 ^ (p + 1) * (2 ^ (j + l) * 5 ^ (j + l)) := by
    rw [← ten_zpow, ← zpow_natCast, ← zpow_add₀ (by norm_num)]
    exact zpow_le_zpow_right₀ (by norm_num) (by push_cast; omega)
  have hfive : (0 : ℚ) < 5 ^ (j + l) := zpow_pos (by norm_num) _
  have hone : 1 < (10 : ℚ) ^ (p + 1) * 5 ^ (j + l) := by
    refine lt_of_mul_lt_mul_right ?_ hpos.le
    calc 1 * (2 : ℚ) ^ (j + l) < 10 ^ (p + 1) * (2 ^ (j + l) * 5 ^ (j + l)) := by linarith
      _ = 10 ^ (p + 1) * 5 ^ (j + l) * 2 ^ (j + l) := by ring
  calc (5 : ℚ) ^ (1 - b - l) ≤ 5 ^ (-(j + l)) := zpow_le_zpow_right₀ (by norm_num) (by omega)
    _ = (5 ^ (j + l))⁻¹ := zpow_neg _ _
    _ < 10 ^ (p + 1) := by rwa [inv_lt_iff_one_lt_mul₀ hfive]

end

namespace Format

variable {f : Format} {q : ℚ} {c : ℕ} {negative isDecimal : Bool} {x : Ratio}

/-! ### Values next to a subnormal number -/

theorem leastExponent_nonpos (hf : f.Proper) : f.leastExponent ≤ 0 := by
  have := f.normalExponent_lt hf
  have := hf.exponent
  have hleast : f.leastExponent = 2 - 2 ^ (f.exponentBits - 1) - f.fractionBits := rfl
  have hpow : (2 : ℤ) ^ 1 ≤ 2 ^ (f.exponentBits - 1) := by
    gcongr
    · norm_num
    · omega
  omega

theorem codeValue_of_lt (hc : c < 2 ^ f.fractionBits) : f.codeValue c = c * 2 ^ f.leastExponent := by
  have hle : c ≤ 2 ^ (f.fractionBits + 1) := hc.le.trans (Nat.pow_le_pow_right two_pos (Nat.le_succ _))
  have h := codeValue_add (f := f) (j := 0) hle (.inr rfl)
  rwa [zero_mul, add_zero, Nat.cast_zero, add_zero] at h

theorem codeValue_lt_normal (hc : c < 2 ^ f.fractionBits) : f.codeValue c < 2 ^ f.normalExponent := by
  rw [← codeValue_two_pow]
  exact f.codeValue_strictMono hc

theorem tiny_of_le (hn : 0 < x.num) (hd : 0 < x.den)
    (h : x.toRat ≤ (2 ^ (f.fractionBits + 1) - 1) * 2 ^ (f.leastExponent - 1)) : f.Tiny x.toRat := by
  have hq := Ratio.toRat_pos hn hd
  have hnormal := f.normalExponent_eq
  have hpos : (0 : ℚ) < 2 ^ (f.leastExponent - 1) := zpow_pos two_pos _
  have hnext : (2 : ℚ) ^ (f.fractionBits + 1) * 2 ^ (f.leastExponent - 1) = 2 ^ f.normalExponent :=
    two_pow_mul (by push_cast; omega)
  obtain ⟨r, hr⟩ := f.exists_rounds hd
  refine ⟨hq, r, hr, ?_⟩
  have hlog : Int.log 2 x.toRat < f.normalExponent := by
    refine (Int.lt_zpow_iff_log_lt one_lt_two hq).1 ?_
    rw [Nat.cast_ofNat, ← hnext]
    linarith
  rcases lt_or_ge (Int.log 2 x.toRat) (f.normalExponent - 1) with hlow | htop
  · exact (hr.bounds hq).2.trans_lt (zpow_lt_zpow_right₀ one_lt_two (by omega))
  · obtain ⟨n, hn, rfl⟩ := hr
    have he : Int.log 2 x.toRat - f.fractionBits = f.leastExponent - 1 := by omega
    rw [he] at hn ⊢
    have hone : 1 ≤ 2 ^ (f.fractionBits + 1) := Nat.one_le_two_pow
    have hle : n ≤ 2 ^ (f.fractionBits + 1) - 1 := by
      refine hn.ge_of_le ?_
      rw [div_le_iff₀ hpos, Nat.cast_sub hone]
      exact_mod_cast h
    have hlt : (n : ℚ) < 2 ^ (f.fractionBits + 1) := by exact_mod_cast (show n < 2 ^ (f.fractionBits + 1) by omega)
    calc (n : ℚ) * 2 ^ (f.leastExponent - 1) < 2 ^ (f.fractionBits + 1) * 2 ^ (f.leastExponent - 1) := by gcongr
      _ = 2 ^ f.normalExponent := hnext

theorem codeValue_ne_of_near (hne : q ≠ f.codeValue c) (hnear : |f.codeValue c - q| < 2 ^ f.leastExponent) (d : ℕ) :
    f.codeValue d ≠ q := by
  rintro rfl
  obtain ⟨i, hi⟩ := f.exists_multiple c
  obtain ⟨j, hj⟩ := f.exists_multiple d
  have hpos : (0 : ℚ) < 2 ^ f.leastExponent := zpow_pos two_pos _
  rw [hi, hj, ← sub_mul, abs_mul, abs_of_pos hpos] at hnear
  have hlt : |(i : ℚ) - j| < 1 := by
    refine lt_of_mul_lt_mul_right ?_ hpos.le
    rwa [one_mul]
  have hlt : |(i : ℤ) - j| < 1 := by exact_mod_cast hlt
  have hij : i = j := by
    have := Int.abs_lt_one_iff.1 hlt
    omega
  exact hne (by rw [hi, hj, hij])

theorem bounds_of_near (hc : c < 2 ^ f.fractionBits)
    (hnear : 2 ^ (f.fractionBits + 2) * |f.codeValue c - q| ≤ f.codeValue c) :
    |f.codeValue c - q| < 2 ^ (f.leastExponent - 1) ∧
      q ≤ (2 ^ (f.fractionBits + 1) - 1) * 2 ^ (f.leastExponent - 1) := by
  have hleast : (2 : ℚ) ^ f.leastExponent = 2 * 2 ^ (f.leastExponent - 1) := by
    rw [← pow_one (2 : ℚ), ← pow_one (2 : ℚ)]
    exact (two_pow_mul (by push_cast; ring)).symm
  have hcode : f.codeValue c ≤
      2 ^ (f.fractionBits + 1) * 2 ^ (f.leastExponent - 1) - 2 * 2 ^ (f.leastExponent - 1) := by
    have hle : (c : ℚ) ≤ 2 ^ f.fractionBits - 1 := le_sub_iff_add_le.2 (by exact_mod_cast hc)
    rw [codeValue_of_lt hc, hleast]
    calc (c : ℚ) * (2 * 2 ^ (f.leastExponent - 1))
        ≤ (2 ^ f.fractionBits - 1) * (2 * 2 ^ (f.leastExponent - 1)) := by gcongr
      _ = _ := by ring
  have hpos : (0 : ℚ) < 2 ^ (f.leastExponent - 1) := zpow_pos two_pos _
  have herr : |f.codeValue c - q| < 2 ^ (f.leastExponent - 1) := by
    refine lt_of_mul_lt_mul_left ?_ (by positivity : (0 : ℚ) ≤ 2 ^ (f.fractionBits + 2))
    calc 2 ^ (f.fractionBits + 2) * |f.codeValue c - q|
        < 2 ^ (f.fractionBits + 1) * 2 ^ (f.leastExponent - 1) := by linarith
      _ ≤ 2 ^ (f.fractionBits + 2) * 2 ^ (f.leastExponent - 1) := by gcongr <;> norm_num
  refine ⟨herr, ?_⟩
  linarith [(abs_lt.1 herr).1]

theorem ofRatio_of_below (hf : f.Proper) (hn : 0 < x.num) (hd : 0 < x.den) (hc : c < 2 ^ f.fractionBits)
    (hnear : 2 ^ (f.fractionBits + 2) * |f.codeValue c - x.toRat| ≤ f.codeValue c) (hne : x.toRat ≠ f.codeValue c)
    (hextra : ¬ ∃ n k, f.ExtraBit isDecimal x.toRat n k) :
    f.ofRatio negative isDecimal x = .error .outOfRange := by
  have hq := Ratio.toRat_pos hn hd
  obtain ⟨herr, hle⟩ := bounds_of_near hc hnear
  have htiny := tiny_of_le hn hd hle
  have hover : ¬ f.Overflows x.toRat := by
    rintro ⟨r, hr, hge⟩
    obtain ⟨-, r', hr', hlt⟩ := htiny
    rw [hr'.unique hr] at hlt
    exact absurd hlt (not_lt.2 ((zpow_le_zpow_right₀ one_le_two (f.normalExponent_lt hf).le).trans hge))
  have hdrop : ¬ ∃ p, f.DropsBit isDecimal x.toRat p := by
    rintro ⟨p, n, k, hx, -⟩
    exact hextra ⟨n, k, hx⟩
  have hleast : (2 : ℚ) ^ (f.leastExponent - 1) ≤ 2 ^ f.leastExponent := zpow_le_zpow_right₀ one_le_two (by omega)
  have hconv : f.Converts negative x.toRat (f.ofRatio negative isDecimal x) := ofRatio_converts hf hn hd hdrop
  obtain ⟨y, -, -, hfail, -⟩ := hconv.delivered hover
  exact hfail ⟨htiny, toRat_ne_signed hq (codeValue_ne_of_near hne (herr.trans_le hleast) y.code)⟩

end Format

namespace Binary

variable {f : Format} {s : Bytes} {n p a b : ℕ} {e k : ℤ}

/-- Not zero and without a full significand. -/
def IsSubnormal (x : Binary f) : Prop := 0 < x.code ∧ x.code < 2 ^ f.fractionBits

theorem IsSubnormal.isFinite {x : Binary f} (hf : f.Proper) (hx : x.IsSubnormal) : x.isFinite = true := by
  rw [isFinite_iff]
  refine f.codeValue_strictMono.lt_iff_lt.1 ((Format.codeValue_lt_normal hx.2).trans ?_)
  rw [Format.codeValue_infinityCode hf]
  exact zpow_lt_zpow_right₀ one_lt_two (f.normalExponent_lt hf)

theorem IsSubnormal.abs_toRat {x : Binary f} (hx : x.IsSubnormal) :
    |x.toRat| = x.code * 2 ^ f.leastExponent ∧ 0 < |x.toRat| ∧ |x.toRat| < 2 ^ f.normalExponent := by
  rw [Binary.abs_toRat]
  refine ⟨Format.codeValue_of_lt hx.2, ?_, Format.codeValue_lt_normal hx.2⟩
  rw [← f.codeValue_zero]
  exact f.codeValue_strictMono hx.1

theorem IsSubnormal.five_pow_lt {x : Binary f} (hx : x.IsSubnormal) (hb : f.normalExponent = -b)
    (h : HasDigits p |x.toRat|) : 5 ^ (b + 1) < 10 ^ (p + 1) := by
  have hle := Groundwork.five_pow_lt hx.1 hx.2 hx.abs_toRat.1 h
  have he : 1 - (f.fractionBits : ℤ) - f.leastExponent = (b + 1 : ℕ) := by
    have := f.normalExponent_eq
    push_cast
    omega
  rw [he, zpow_natCast] at hle
  exact_mod_cast hle

theorem IsSubnormal.hasDigits (hf : f.Proper) {x : Binary f} (hx : x.IsSubnormal) (hb : f.normalExponent = -b)
    (ha : 10 ^ a ≤ 2 ^ b) (hp : -f.leastExponent ≤ p + 1 + a) : HasDigits p |x.toRat| := by
  obtain ⟨hcode, hpos, hlt⟩ := hx.abs_toRat
  refine hasDigits_of_le hcode (f.leastExponent_nonpos hf) ?_
  have ha : (10 : ℚ) ^ a ≤ 2 ^ b := by exact_mod_cast ha
  have hle : |x.toRat| < ((10 : ℕ) : ℚ) ^ (-a : ℤ) := by
    refine hlt.trans_le ?_
    rw [hb, zpow_neg, zpow_neg, zpow_natCast, zpow_natCast, Nat.cast_ofNat]
    gcongr
  have := (Int.lt_zpow_iff_log_lt (b := 10) (by norm_num) hpos).1 hle
  omega

theorem read_of_eq (hf : f.Proper) {y : Binary f} (hy : y.isFinite = true) (hn : 0 < n)
    (hs : Literal.Spells s ⟨y.negative, .finite 10 n e⟩) (hval : (n : ℚ) * 10 ^ e = |y.toRat|) :
    read f s = .ok y := by
  obtain ⟨hnum, hden, hq⟩ := Format.scale_ofNat (show 2 ≤ 10 by norm_num) hn e
  rw [Nat.cast_ofNat, hval, abs_toRat] at hq
  have hover := Format.not_overflows_of_codeValue hf hnum hden hq.symm (y.isFinite_iff.1 hy)
  have hdrop : ¬ ∃ p, f.DropsBit (10 = 10) ((Ratio.ofNat n).scale 10 e).toRat p := by
    rintro ⟨p, m, k, hx, -⟩
    exact hx.codeValue_ne _ hq.symm
  rw [(read_of_spells hf hs).2]
  refine (Format.ofRatio_converts hf hnum hden hdrop).eq_ok hover hy rfl ?_
  rw [hq]
  rfl

theorem read_of_isSignificant (hf : f.Proper) (hp : 2 ^ (f.fractionBits + 1) < 10 ^ p) {y : Binary f}
    (hy : y.IsSubnormal) (hspec : IsSignificant |y.toRat| p n k)
    (hs : Literal.Spells s ⟨y.negative, .finite 10 n (k - p)⟩) :
    (HasDigits p |y.toRat| → read f s = .ok y) ∧ (¬ HasDigits p |y.toRat| → read f s = .error .outOfRange) := by
  obtain ⟨hcode, hpos, -⟩ := hy.abs_toRat
  have hn : 0 < n := by
    obtain ⟨h0, -⟩ | ⟨-, hle, -⟩ := hspec
    · exact absurd h0 hpos.ne'
    · exact (Nat.pow_pos (by norm_num)).trans_le hle
  have hdigits := hspec.value_eq_iff hpos
  refine ⟨fun h => read_of_eq hf (hy.isFinite hf) hn hs (hdigits.2 h), fun h => ?_⟩
  obtain ⟨hnum, hden, hq⟩ := Format.scale_ofNat (show 2 ≤ 10 by norm_num) hn (k - p)
  rw [Nat.cast_ofNat] at hq
  rw [(read_of_spells hf hs).2]
  refine Format.ofRatio_of_below hf hnum hden hy.2 ?_ ?_ ?_
  · have hp : (2 : ℚ) ^ (f.fractionBits + 1) ≤ 10 ^ p := by exact_mod_cast hp.le
    rw [hq, ← Binary.abs_toRat]
    calc 2 ^ (f.fractionBits + 2) * |(|y.toRat|) - n * 10 ^ (k - p)|
        = 2 ^ (f.fractionBits + 1) * (2 * |(|y.toRat|) - n * 10 ^ (k - p)|) := by ring
      _ ≤ 10 ^ p * (2 * |(|y.toRat|) - n * 10 ^ (k - p)|) := by gcongr
      _ ≤ |y.toRat| := hspec.near hpos
  · rw [hq, ← Binary.abs_toRat]
    exact fun heq => h (hdigits.1 heq)
  · -- a place for the extra bit would have been one for all digits of the number
    rintro ⟨m, l, hx⟩
    obtain ⟨r, -, hr⟩ := hspec.exists_isRounded hpos
    have hle := hx.le
    have hvalue := hx.value
    rw [hq, hr] at hvalue
    have hplace := le_of_odd_multiple hvalue.symm
    exact h (hasDigits_of_le hcode (f.leastExponent_nonpos hf) (by omega))

/-- The text `s` of `y` is read as `y` if `p` digits after the point are enough, and as an underflow if not. -/
structure ReadByDigits (y : Binary f) (p : ℕ) (s : Bytes) : Prop where
  ok : read f s = .ok y ↔ HasDigits p |y.toRat|
  outOfRange : read f s = .error .outOfRange ↔ ¬ HasDigits p |y.toRat|
  string : readString f (Ascii.toString s) = read f s

theorem readByDigits_write (hf : f.Proper) (hp : 2 ^ (f.fractionBits + 1) < 10 ^ p) {x : Binary .double} {y : Binary f}
    (hy : y.IsSubnormal) (hsign : x.negative = y.negative) (hfin : x.isFinite = true) (hval : x.toRat = y.toRat) :
    y.ReadByDigits p (x.write .exponent (some p)) := by
  obtain ⟨hden, hmag⟩ := magnitude_spec x
  obtain ⟨n, k, hspec, hbody⟩ := Style.scientificText_spec hden p
  obtain ⟨hsignText, hsignPlain⟩ := isSign_minus x
  obtain ⟨hmagnitude, hplain⟩ := hbody.isMagnitude
  have htext : x.write .exponent (some p) = x.minus ++ Style.scientificText x.magnitude p := by
    rw [write_eq, ← (magnitudeText_of_isFinite hfin p).2]
    rfl
  rw [hmag, hval] at hspec
  rw [hsign] at hsignText
  rw [htext]
  obtain ⟨hok, herr⟩ := read_of_isSignificant hf hp hy hspec ⟨_, _, rfl, hsignText, hmagnitude⟩
  refine ⟨⟨fun h => ?_, hok⟩, ⟨fun h hdigits => ?_, herr⟩, readString_toString (hsignPlain.append hplain)⟩
  · by_contra hdigits
    rw [herr hdigits] at h
    cases h
  · rw [hok hdigits] at h
    cases h

/-- A subnormal number is read back from the text with `p` digits after the point exactly if it has no more
digits, and otherwise the text is out of range. With fewer than 715, or 88 for 32 bits, that is the fate of all
subnormal numbers; from 766 on, or 111, all are read back. -/
theorem read_write_iff_hasDigits (p : ℕ) :
    (16 ≤ p → ∀ x : Binary .double, x.IsSubnormal → x.ReadByDigits p (x.write .exponent (some p)) ∧
      (p < 715 → ¬ HasDigits p |x.toRat|) ∧ (766 ≤ p → HasDigits p |x.toRat|)) ∧
    (8 ≤ p → ∀ y : Binary .single, y.IsSubnormal → y.ReadByDigits p (y.writeSingle .exponent (some p)) ∧
      (p < 88 → ¬ HasDigits p |y.toRat|) ∧ (111 ≤ p → HasDigits p |y.toRat|)) := by
  have hshort : ∀ {a b : ℕ}, p < a → 10 ^ a ≤ 5 ^ b → ¬ 5 ^ b < 10 ^ (p + 1) :=
    fun hpa hab => not_lt.2 ((Nat.pow_le_pow_right (by norm_num) hpa).trans hab)
  constructor
  · intro hp x hx
    have hnormal : Format.double.normalExponent = -(1022 : ℕ) := by decide
    have hleast : Format.double.leastExponent = -1074 := by decide
    have hroom : 2 ^ 53 < 10 ^ p :=
      (by norm_num : 2 ^ 53 < 10 ^ 16).trans_le (Nat.pow_le_pow_right (by norm_num) hp)
    refine ⟨readByDigits_write Format.proper_double hroom hx rfl (hx.isFinite Format.proper_double) rfl,
      fun hlt h => ?_, fun hle => ?_⟩
    · exact hshort hlt (by decide +kernel) (hx.five_pow_lt hnormal h)
    · exact hx.hasDigits Format.proper_double hnormal (a := 307) (by decide +kernel) (by rw [hleast]; omega)
  · intro hp y hy
    have hnormal : Format.single.normalExponent = -(126 : ℕ) := by decide
    have hleast : Format.single.leastExponent = -149 := by decide
    have hroom : 2 ^ 24 < 10 ^ p :=
      (by norm_num : 2 ^ 24 < 10 ^ 8).trans_le (Nat.pow_le_pow_right (by norm_num) hp)
    obtain ⟨hsign, -, -, hfin⟩ := widen_spec y
    obtain ⟨hfin, hval⟩ := hfin (hy.isFinite Format.proper_single)
    refine ⟨readByDigits_write Format.proper_single hroom hy hsign hfin hval, fun hlt h => ?_, fun hle => ?_⟩
    · exact hshort hlt (by decide +kernel) (hy.five_pow_lt hnormal h)
    · exact hy.hasDigits Format.proper_single hnormal (a := 37) (by decide +kernel) (by rw [hleast]; omega)

/-- The least numbers are lost with 17 and with 9 digits; the first is read back from 767. -/
theorem read_write_iff_hasDigits_least :
    read .double ((⟨1⟩ : Binary .double).write .exponent (some 16)) = .error .outOfRange ∧
    read .single ((⟨1⟩ : Binary .single).writeSingle .exponent (some 8)) = .error .outOfRange ∧
    read .double ((⟨1⟩ : Binary .double).write .exponent (some 766)) = .ok ⟨1⟩ := by
  obtain ⟨hshort, hmissing, -⟩ := (read_write_iff_hasDigits 16).1 le_rfl ⟨1⟩ ⟨by decide, by decide⟩
  obtain ⟨hsingle, hmissing', -⟩ := (read_write_iff_hasDigits 8).2 le_rfl ⟨1⟩ ⟨by decide, by decide⟩
  obtain ⟨hlong, -, hall⟩ := (read_write_iff_hasDigits 766).1 (by norm_num) ⟨1⟩ ⟨by decide, by decide⟩
  exact ⟨hshort.outOfRange.2 (hmissing (by norm_num)), hsingle.outOfRange.2 (hmissing' (by norm_num)),
    hlong.ok.2 (hall le_rfl)⟩

/-- The least number of 64 bits is written with 17 digits, and is then said to be no number of 64 bits. -/
theorem least_not_read_back :
    (⟨1⟩ : Binary .double).IsSubnormal ∧
    (⟨1⟩ : Binary .double).write .exponent (some 16) = Ascii.text "4.9406564584124654e-324".toList ∧
    read .double (Ascii.text "4.9406564584124654e-324".toList) = .error .outOfRange := by
  refine ⟨⟨by decide, by decide⟩, ?_, ?_⟩ <;> decide +kernel

end Binary

end Groundwork
