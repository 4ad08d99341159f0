import Groundwork.Binary.Ratio
import Mathlib.Data.Int.Log
import Mathlib.Tactic

/-!
# Fractions as rational numbers

`IsRounded q n` says what rounding to an integer is, with no reference to how it is computed; `n` is
unique (`IsRounded.eq`) and `Ratio.round` delivers it. `Ratio.toRat` carries the other operations on
fractions over to `ℚ`; `log_estimate` corrects the guess of a logarithm by the number of digits, which
is off by at most one.
-/

namespace Groundwork

/-- `n` is the natural number nearest to `q`, the even one of two. -/
def IsRounded (q : ℚ) (n : ℕ) : Prop := |q - n| ≤ 1 / 2 ∧ (|q - n| = 1 / 2 → Even n)

namespace IsRounded

variable {q : ℚ} {n : ℕ}

theorem natCast (n : ℕ) : IsRounded n n := by
  constructor <;> norm_num

theorem le_of_le (h : IsRounded q n) {a : ℕ} (ha : (a : ℚ) ≤ q) : a ≤ n := by
  by_contra hlt
  have hlt : (n : ℚ) + 1 ≤ a := by exact_mod_cast not_le.1 hlt
  linarith [(abs_le.1 h.1).2]

theorem ge_of_le (h : IsRounded q n) {a : ℕ} (ha : q ≤ a) : n ≤ a := by
  by_contra hlt
  have hlt : (a : ℚ) + 1 ≤ n := by exact_mod_cast not_le.1 hlt
  linarith [(abs_le.1 h.1).1]

theorem le_pow {b p : ℕ} {e : ℤ} (hb : 1 < b) (hq : 0 < q) (h : IsRounded (q / (b : ℚ) ^ e) n)
    (he : Int.log b q < e + p) : n ≤ b ^ p := by
  have hbq : (0 : ℚ) < b := by exact_mod_cast Nat.zero_lt_one.trans hb
  refine h.ge_of_le ?_
  rw [div_le_iff₀ (zpow_pos hbq e), Nat.cast_pow, ← zpow_natCast, ← zpow_add₀ hbq.ne']
  exact ((Int.lt_zpow_iff_log_lt hb hq).2 (by omega)).le

theorem pow_le {b p : ℕ} {e : ℤ} (hb : 1 < b) (hq : 0 < q) (h : IsRounded (q / (b : ℚ) ^ e) n)
    (he : e + p ≤ Int.log b q) : b ^ p ≤ n := by
  have hbq : (0 : ℚ) < b := by exact_mod_cast Nat.zero_lt_one.trans hb
  refine h.le_of_le ?_
  rw [le_div_iff₀ (zpow_pos hbq e), Nat.cast_pow, ← zpow_natCast, ← zpow_add₀ hbq.ne']
  exact (Int.zpow_le_iff_le_log hb hq).2 (by omega)

/-- No other integer is nearer, and one that is as near is odd. -/
theorem dist_le (h : IsRounded q n) (i : ℤ) :
    |q - n| ≤ |q - i| ∧ (|q - n| = |q - i| → i ≠ n → Even n) := by
  by_cases hi : i = n
  · subst hi; simp
  have hsep : (1 : ℚ) ≤ |(n : ℚ) - i| := by
    have hne : (n : ℤ) - i ≠ 0 := by omega
    exact_mod_cast Int.one_le_abs hne
  have htri : |(n : ℚ) - i| ≤ |q - n| + |q - i| := by
    rw [abs_sub_comm q n]; simpa using abs_sub_le (n : ℚ) q i
  refine ⟨by linarith [h.1], fun he _ => h.2 ?_⟩
  linarith [h.1]

/-- Two roundings of one number would both be even neighbours. -/
theorem eq (h : IsRounded q n) {m : ℕ} (h' : IsRounded q m) : n = m := by
  by_contra hne
  have hnm : (m : ℤ) ≠ n := by omega
  have hmn : (n : ℤ) ≠ m := by omega
  obtain ⟨h₁, h₂⟩ := h.dist_le m
  obtain ⟨h₁', h₂'⟩ := h'.dist_le n
  simp only [Int.cast_natCast] at h₁ h₂ h₁' h₂'
  have hd := le_antisymm h₁ h₁'
  obtain ⟨a, rfl⟩ := h₂ hd hnm
  obtain ⟨b, rfl⟩ := h₂' hd.symm hmn
  have hn := abs_le.1 h.1
  have hm := abs_le.1 h'.1
  have hlt : ((a + a : ℕ) : ℚ) < (b + b : ℕ) + 2 ∧ ((b + b : ℕ) : ℚ) < (a + a : ℕ) + 2 := by
    constructor <;> linarith [hn.1, hn.2, hm.1, hm.2]
  have h1 : a + a < b + b + 2 := by exact_mod_cast hlt.1
  have h2 : b + b < a + a + 2 := by exact_mod_cast hlt.2
  omega

end IsRounded

/-- A quotient half a unit from its rounding is a tie, which goes to the even neighbour. -/
theorem even_roundHalfEven {n d : ℕ} (hd : 0 < d)
    (h : 2 * n = 2 * (roundHalfEven n d * d) + d ∨ 2 * n + d = 2 * (roundHalfEven n d * d)) :
    Even (roundHalfEven n d) := by
  have hdiv := Nat.div_add_mod n d
  have hr := Nat.mod_lt n hd
  have hc : d * (n / d) = n / d * d := Nat.mul_comm _ _
  revert h
  unfold roundHalfEven
  simp only []
  split_ifs
  · intro h; omega
  · intro h; rw [Nat.add_mul] at h; omega
  · intro; rw [Nat.even_iff]; omega

theorem isRounded_roundHalfEven {n d : ℕ} (hd : 0 < d) : IsRounded (n / d) (roundHalfEven n d) := by
  have hdq : (0 : ℚ) < d := by exact_mod_cast hd
  have hle : (2 * (roundHalfEven n d * d) : ℚ) ≤ 2 * n + d := by exact_mod_cast roundHalfEven_le hd
  have hge : (2 * n : ℚ) ≤ 2 * (roundHalfEven n d * d) + d := by exact_mod_cast le_roundHalfEven hd
  have hq : (n : ℚ) / d - roundHalfEven n d = (n - roundHalfEven n d * d) / d := by field_simp
  rw [IsRounded, hq, abs_div, abs_of_pos hdq, div_le_div_iff₀ hdq two_pos, div_eq_div_iff hdq.ne' two_ne_zero]
  constructor
  · rw [one_mul, ← le_div_iff₀ two_pos, abs_le]
    constructor <;> linarith
  · intro htie
    refine even_roundHalfEven hd ?_
    rcases abs_cases ((n : ℚ) - roundHalfEven n d * d) with ⟨habs, -⟩ | ⟨habs, -⟩
    · left
      have : (2 * n : ℚ) = 2 * (roundHalfEven n d * d) + d := by rw [habs] at htie; linarith
      exact_mod_cast this
    · right
      have : (2 * n + d : ℚ) = 2 * (roundHalfEven n d * d) := by rw [habs] at htie; linarith
      exact_mod_cast this

namespace Ratio

variable {x : Ratio} {base : ℕ}

/-- The fraction as a rational number. -/
def toRat (x : Ratio) : ℚ := x.num / x.den

theorem toRat_ofNat (n : ℕ) : (ofNat n).toRat = n := by simp [ofNat, toRat]

theorem toRat_scale (x : Ratio) (hb : 0 < base) (e : ℤ) : (x.scale base e).toRat = x.toRat * (base : ℚ) ^ e := by
  have hb : (base : ℚ) ≠ 0 := by exact_mod_cast hb.ne'
  cases e with
  | ofNat e => simp only [scale, toRat, Int.ofNat_eq_natCast, zpow_natCast]; push_cast; ring
  | negSucc e => simp only [scale, toRat, zpow_negSucc]; push_cast; rw [div_mul_eq_div_div]; rfl

theorem den_scale_pos (hd : 0 < x.den) (hb : 0 < base) (e : ℤ) : 0 < (x.scale base e).den := by
  cases e with
  | ofNat e => exact hd
  | negSucc e => exact Nat.mul_pos hd (Nat.pow_pos hb)

theorem num_scale_pos (hn : 0 < x.num) (hb : 0 < base) (e : ℤ) : 0 < (x.scale base e).num := by
  cases e with
  | ofNat e => exact Nat.mul_pos hn (Nat.pow_pos hb)
  | negSucc e => exact hn

theorem toRat_pos (hn : 0 < x.num) (hd : 0 < x.den) : 0 < x.toRat := by
  have hn : (0 : ℚ) < x.num := by exact_mod_cast hn
  have hd : (0 : ℚ) < x.den := by exact_mod_cast hd
  exact div_pos hn hd

theorem isRounded_round (hd : 0 < x.den) : IsRounded x.toRat x.round := isRounded_roundHalfEven hd

theorem atLeastOne_iff (hd : 0 < x.den) : x.atLeastOne = true ↔ 1 ≤ x.toRat := by
  have hd : (0 : ℚ) < x.den := by exact_mod_cast hd
  rw [atLeastOne, decide_eq_true_iff, toRat, one_le_div hd, Nat.cast_le]

theorem toRat_eq_natCast_iff (hd : 0 < x.den) {n : ℕ} : x.toRat = n ↔ x.num = n * x.den := by
  have hd : (x.den : ℚ) ≠ 0 := by exact_mod_cast hd.ne'
  rw [toRat, div_eq_iff hd]
  exact_mod_cast Iff.rfl

theorem isInteger_iff (hd : 0 < x.den) : x.isInteger = true ↔ ∃ n : ℕ, x.toRat = n := by
  simp only [isInteger, decide_eq_true_iff, toRat_eq_natCast_iff hd]
  constructor
  · intro h; exact ⟨x.num / x.den, (Nat.div_mul_cancel (Nat.dvd_of_mod_eq_zero h)).symm⟩
  · rintro ⟨n, h⟩; rw [h, Nat.mul_mod_left]

/-! ### Logarithms -/

/-- Between the powers `a`, `a + 1` of the base over one between `c`, `c + 1`, the logarithm of a
fraction is `a - c` or one less. -/
theorem log_estimate (hb : 1 < base) {a c : ℤ} (hn : (base : ℚ) ^ a ≤ x.num ∧ (x.num : ℚ) < base ^ (a + 1))
    (hd : (base : ℚ) ^ c ≤ x.den ∧ (x.den : ℚ) < base ^ (c + 1)) :
    (if (x.scale base (-(a - c))).atLeastOne then a - c else a - c - 1) = Int.log base x.toRat := by
  have hbq : (0 : ℚ) < base := by exact_mod_cast (Nat.zero_lt_one.trans hb)
  have hden : (0 : ℚ) < x.den := (zpow_pos hbq c).trans_le hd.1
  have hpos : 0 < x.toRat := div_pos ((zpow_pos hbq a).trans_le hn.1) hden
  have hlo : (base : ℚ) ^ (a - c - 1) ≤ x.toRat := by
    rw [toRat, le_div_iff₀ hden]
    calc (base : ℚ) ^ (a - c - 1) * x.den ≤ base ^ (a - c - 1) * base ^ (c + 1) := by gcongr; exact hd.2.le
      _ = base ^ a := by rw [← zpow_add₀ hbq.ne']; congr 1; ring
      _ ≤ x.num := hn.1
  have hhi : x.toRat < (base : ℚ) ^ (a - c + 1) := by
    rw [toRat, div_lt_iff₀ hden]
    calc (x.num : ℚ) < base ^ (a + 1) := hn.2
      _ = base ^ (a - c + 1) * base ^ c := by rw [← zpow_add₀ hbq.ne']; congr 1; ring
      _ ≤ base ^ (a - c + 1) * x.den := by gcongr; exact hd.1
  have hone : (x.scale base (-(a - c))).atLeastOne = true ↔ (base : ℚ) ^ (a - c) ≤ x.toRat := by
    rw [atLeastOne_iff (den_scale_pos (by exact_mod_cast hden) (by omega) _), toRat_scale x (by omega), zpow_neg,
      ← div_eq_mul_inv, one_le_div (zpow_pos hbq _)]
  rw [Int.zpow_le_iff_le_log hb hpos] at hlo
  rw [Int.lt_zpow_iff_log_lt hb hpos] at hhi
  split_ifs with h
  · rw [hone, Int.zpow_le_iff_le_log hb hpos] at h; omega
  · rw [hone, Int.zpow_le_iff_le_log hb hpos] at h; omega

theorem log2_eq (hn : 0 < x.num) (hd : 0 < x.den) : x.log2 = Int.log 2 x.toRat := by
  have hlog : ∀ n : ℕ, 0 < n → ((2 : ℕ) : ℚ) ^ (n.log2 : ℤ) ≤ n ∧ (n : ℚ) < ((2 : ℕ) : ℚ) ^ ((n.log2 : ℤ) + 1) := by
    intro n hn
    have hhi : n < 2 ^ (n.log2 + 1) := Nat.lt_log2_self
    have hlo : 2 ^ n.log2 ≤ n := Nat.log2_self_le hn.ne'
    constructor
    · rw [zpow_natCast]; exact_mod_cast hlo
    · rw [← Nat.cast_add_one, zpow_natCast]; exact_mod_cast hhi
  exact log_estimate one_lt_two (hlog x.num hn) (hlog x.den hd)

end Ratio

end Groundwork
