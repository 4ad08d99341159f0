import Groundwork.Binary.Text
import Groundwork.Proofs.Binary.Nearest
import Groundwork.Proofs.Text.Numeral

/-!
# The text of a floating-point number

The forms of a text (`IsFixed`, `IsScientific`) are told apart from the number that stands in it, which is
a rounding of the exact value: to the nearest multiple of a power of ten (`IsRounded`), or to a count of
significant digits (`IsSignificant`). Both styles put a point into the padded digits of an integer, so
both rest on `isPointed_point`.
-/

namespace Groundwork

/-- Decimal digits before and after a point; the point is there exactly if digits follow it. -/
inductive IsPointed : Bytes → List ℕ → List ℕ → Prop
  | whole {s ds} : Numeral.Digits 10 s ds → IsPointed s ds []
  | point {s t ds es} : Numeral.Digits 10 s ds → Numeral.Digits 10 t es → es ≠ [] →
      IsPointed (s ++ '.'.toUInt8 :: t) ds es

/-- The text of `n / 10 ^ p` with `p` digits after the point and no superfluous zero before it. -/
def IsFixed (s : Bytes) (p n : ℕ) : Prop :=
  ∃ whole fraction, IsPointed s whole fraction ∧ fraction.length = p ∧ whole ≠ [] ∧
    (whole.head? = some 0 → whole = [0]) ∧ Nat.ofDigits 10 (whole ++ fraction).reverse = n

/-- An exponent with its sign and two digits, or more if the first is not zero. -/
def IsExponentPart (s : Bytes) (k : ℤ) : Prop :=
  ∃ t ds, s = 'e'.toUInt8 :: (if k < 0 then '-' else '+').toUInt8 :: t ∧ Numeral.Digits 10 t ds ∧ 2 ≤ ds.length ∧
    (2 < ds.length → ds.head? ≠ some 0) ∧ Nat.ofDigits 10 ds.reverse = k.natAbs

/-- The text of `n / 10 ^ p * 10 ^ k` with one digit before the point, not zero unless `n` is, and `p`
after it. -/
def IsScientific (s : Bytes) (p n : ℕ) (k : ℤ) : Prop :=
  ∃ t u d fraction, s = t ++ u ∧ IsPointed t [d] fraction ∧ fraction.length = p ∧ (d = 0 → n = 0) ∧
    Nat.ofDigits 10 (d :: fraction).reverse = n ∧ IsExponentPart u k

/-- `n / 10 ^ p * 10 ^ k` is `q` rounded to `p + 1` significant digits. A rounding up to the next power
of ten takes its exponent. -/
def IsSignificant (q : ℚ) (p n : ℕ) (k : ℤ) : Prop :=
  q = 0 ∧ n = 0 ∧ k = 0 ∨
  0 < q ∧ 10 ^ p ≤ n ∧ ∃ r, IsRounded (q / 10 ^ (Int.log 10 q - p)) r ∧
    (r < 10 ^ (p + 1) ∧ n = r ∧ k = Int.log 10 q ∨ r = 10 ^ (p + 1) ∧ n = 10 ^ p ∧ k = Int.log 10 q + 1)

namespace Style

variable {n p : ℕ} {ds : List ℕ} {x : Ratio}

/-! ### Digits with a point -/

theorem value_pad (n : ℕ) (ds : List ℕ) : Numeral.value 10 (pad n ds) = Numeral.value 10 ds := by
  unfold pad
  induction n - ds.length with
  | zero => rfl
  | succ k ih =>
    rw [← ih, List.replicate_succ, List.cons_append]
    simp [Numeral.value]

theorem ofDigits_pad (p n : ℕ) : Nat.ofDigits 10 (pad p (Numeral.digits n)).reverse = n := by
  rw [← Numeral.value_eq_ofDigits, value_pad, Numeral.value_digits]

theorem length_pad (n : ℕ) (ds : List ℕ) : (pad n ds).length = max n ds.length := by
  rw [pad, List.length_append, List.length_replicate]
  omega

theorem lt_ten_of_mem_pad {d : ℕ} (h : d ∈ pad p (Numeral.digits n)) : d < 10 := by
  rcases List.mem_append.1 h with h | h
  · rw [List.eq_of_mem_replicate h]; norm_num
  · exact Numeral.lt_ten_of_mem_digits h

theorem isPointed_point (h : ∀ d ∈ ds, d < 10) (p : ℕ) (hp : p < ds.length) :
    IsPointed (point p ds) (ds.take (ds.length - p)) (ds.drop (ds.length - p)) := by
  have hwhole := Numeral.digits_map fun d hd => h d (List.mem_of_mem_take (i := ds.length - p) hd)
  have hfraction := Numeral.digits_map fun d hd => h d (List.mem_of_mem_drop (i := ds.length - p) hd)
  unfold point
  rcases Nat.eq_zero_or_pos p with rfl | hp0
  · rw [Nat.sub_zero, List.drop_length]
    exact .whole hwhole
  · simp only [hp0.ne', if_false]
    refine .point hwhole hfraction ?_
    rw [ne_eq, List.drop_eq_nil_iff]
    omega

theorem pad_eq_self (h : p ≤ ds.length) : pad p ds = ds := by
  rw [pad, Nat.sub_eq_zero_of_le h]
  rfl

theorem isFixed_point (p n : ℕ) : IsFixed (point p (pad (p + 1) (Numeral.digits n))) p n := by
  have hlen := length_pad (p + 1) (Numeral.digits n)
  have hlt : p < (pad (p + 1) (Numeral.digits n)).length := by omega
  refine ⟨_, _, isPointed_point (fun d => lt_ten_of_mem_pad) p hlt, ?_, ?_, fun h0 => ?_, ?_⟩
  · rw [List.length_drop]; omega
  · rw [ne_eq, List.take_eq_nil_iff, ← List.length_eq_zero_iff]; omega
  · rcases Nat.lt_or_ge (p + 1) (Numeral.digits n).length with hlong | hshort
    · rw [pad_eq_self hlong.le, List.head?_take, if_neg (by omega)] at h0
      rw [Numeral.head?_digits n h0] at hlong
      simp at hlong
    · have hone : (pad (p + 1) (Numeral.digits n)).length - p = 1 := by omega
      rw [hone, List.take_one] at h0 ⊢
      cases hd : (pad (p + 1) (Numeral.digits n)).head? with
      | none => rw [hd] at h0; cases h0
      | some d => rw [hd] at h0; cases h0; rfl
  · rw [List.take_append_drop, ofDigits_pad]

/-! ### The fixed style -/

theorem fixedText_spec (hd : 0 < x.den) (p : ℕ) :
    ∃ n, IsRounded (x.toRat * 10 ^ p) n ∧ IsFixed (fixedText x p) p n := by
  have hround := Ratio.isRounded_round (Ratio.den_scale_pos hd (by norm_num : 0 < 10) p)
  rw [Ratio.toRat_scale _ (by norm_num), zpow_natCast, Nat.cast_ofNat] at hround
  exact ⟨_, hround, isFixed_point p _⟩

/-! ### The exponent style -/

theorem decade_eq (hn : 0 < x.num) (hd : 0 < x.den) : decade x = Int.log 10 x.toRat := by
  have hlog : ∀ n : ℕ, 0 < n → ((10 : ℕ) : ℚ) ^ ((Numeral.length 10 n : ℤ) - 1) ≤ n ∧
      (n : ℚ) < ((10 : ℕ) : ℚ) ^ ((Numeral.length 10 n : ℤ) - 1 + 1) := by
    intro n hn
    have hhi : n < 10 ^ Numeral.length 10 n := Numeral.lt_pow_length (by norm_num) n
    have hlo : 10 ^ Numeral.length 10 n ≤ 10 * n := Numeral.pow_length_le (by norm_num) hn
    have hlo : (10 : ℚ) ^ Numeral.length 10 n ≤ 10 * n := by exact_mod_cast hlo
    rw [sub_add_cancel, zpow_sub_one₀ (by norm_num), zpow_natCast]
    refine ⟨?_, by exact_mod_cast hhi⟩
    rw [← div_eq_mul_inv, div_le_iff₀ (by norm_num)]
    push_cast
    linarith
  have h := Ratio.log_estimate (by norm_num) (hlog x.num hn) (hlog x.den hd)
  rw [sub_sub_sub_cancel_right] at h
  exact h

theorem significant_spec (hd : 0 < x.den) (p : ℕ) :
    IsSignificant x.toRat p (significant x p).1 (significant x p).2 := by
  unfold significant
  rcases Nat.eq_zero_or_pos x.num with hn | hn
  · left; simp [hn, Ratio.toRat]
  have hq := Ratio.toRat_pos hn hd
  have hround := Ratio.isRounded_round (Ratio.den_scale_pos hd (by norm_num : 0 < 10) (p - decade x))
  have hpow : x.toRat * (10 : ℚ) ^ ((p : ℤ) - Int.log 10 x.toRat) =
      x.toRat / ((10 : ℕ) : ℚ) ^ (Int.log 10 x.toRat - p) := by
    rw [← neg_sub, zpow_neg, div_eq_mul_inv, Nat.cast_ofNat]
  rw [Ratio.toRat_scale _ (by norm_num), Nat.cast_ofNat, decade_eq hn hd, hpow] at hround
  simp only [hn.ne', if_false, decade_eq hn hd]
  generalize (x.scale 10 (p - Int.log 10 x.toRat)).round = r at hround ⊢
  have hlo : 10 ^ p ≤ r := hround.pow_le (by norm_num) hq (by omega)
  have hhi : r ≤ 10 ^ (p + 1) := hround.le_pow (by norm_num) hq (by push_cast; omega)
  rw [Nat.cast_ofNat] at hround
  right
  split_ifs with hcarry
  · exact ⟨hq, le_rfl, r, hround, .inr ⟨le_antisymm hhi hcarry, rfl, rfl⟩⟩
  · exact ⟨hq, hlo, r, hround, .inl ⟨not_le.1 hcarry, rfl, rfl⟩⟩

theorem isExponentPart_exponentText (k : ℤ) : IsExponentPart (exponentText k) k := by
  have hlen := length_pad 2 (Numeral.digits k.natAbs)
  refine ⟨_, _, rfl, Numeral.digits_map fun d => lt_ten_of_mem_pad, by omega, fun h h0 => ?_, ofDigits_pad 2 _⟩
  have hlong : 2 < (Numeral.digits k.natAbs).length := by omega
  rw [pad_eq_self hlong.le] at h0
  rw [Numeral.head?_digits _ h0] at hlong
  simp at hlong

/-- A number of `p + 1` digits has its first digit before the point. -/
theorem isScientific_point {k : ℤ} (hlt : n < 10 ^ (p + 1)) (hn : n = 0 ∨ 10 ^ p ≤ n) :
    IsScientific (point p (pad (p + 1) (Numeral.digits n)) ++ exponentText k) p n k := by
  have hlen := length_pad (p + 1) (Numeral.digits n)
  have hshort : (Numeral.digits n).length ≤ p + 1 := Numeral.length_digits_le_iff.2 hlt
  have hval := ofDigits_pad (p + 1) n
  have hten : ∀ d ∈ pad (p + 1) (Numeral.digits n), d < 10 := fun d => lt_ten_of_mem_pad
  have hpoint := isPointed_point hten p (by omega)
  have hlen : (pad (p + 1) (Numeral.digits n)).length = p + 1 := by omega
  obtain ⟨d, fraction, hds⟩ := List.exists_of_length_succ _ hlen
  rw [hds] at hlen hval hpoint hten ⊢
  have hfraction : fraction.length = p := Nat.succ_injective hlen
  have hone : (d :: fraction).length - p = 1 := by simp; omega
  rw [hone] at hpoint
  refine ⟨_, _, d, fraction, rfl, hpoint, hfraction, ?_, hval, isExponentPart_exponentText k⟩
  rintro rfl
  have hrest : Nat.ofDigits 10 fraction.reverse < 10 ^ fraction.reverse.length :=
    Nat.ofDigits_lt_base_pow_length (by norm_num) fun d hd => hten d (List.mem_cons_of_mem _ (List.mem_reverse.1 hd))
  rw [List.reverse_cons, Nat.ofDigits_append] at hval
  rw [List.length_reverse, hfraction] at hrest
  simp at hval
  omega

theorem scientificText_spec (hd : 0 < x.den) (p : ℕ) :
    ∃ n k, IsSignificant x.toRat p n k ∧ IsScientific (scientificText x p) p n k := by
  have hspec := significant_spec hd p
  have htext : scientificText x p =
      point p (pad (p + 1) (Numeral.digits (significant x p).1)) ++ exponentText (significant x p).2 := rfl
  refine ⟨_, _, hspec, ?_⟩
  rw [htext]
  generalize significant x p = t at hspec ⊢
  obtain ⟨-, hn, hk⟩ | ⟨-, hn, r, -, ⟨hr, hnr, hk⟩ | ⟨hr, hnr, hk⟩⟩ := hspec
  · exact isScientific_point (by rw [hn]; positivity) (.inl hn)
  · exact isScientific_point (by rw [hnr]; exact hr) (.inr hn)
  · exact isScientific_point (by rw [hnr]; exact Nat.pow_lt_pow_right (by norm_num) p.lt_succ_self) (.inr hn)

end Style

namespace Binary

/-! ### Widening -/

section

variable {f : Format}

theorem magnitude_spec (x : Binary f) : 0 < x.magnitude.den ∧ x.magnitude.toRat = |x.toRat| := by
  refine ⟨Ratio.den_scale_pos one_pos two_pos _, ?_⟩
  rw [magnitude, Ratio.toRat_scale _ two_pos, Ratio.toRat_ofNat, abs_toRat, ← value_code]
  rfl

theorem isInfinite_infinity (negative : Bool) :
    (infinity negative : Binary f).isInfinite = true ∧ (infinity negative : Binary f).negative = negative := by
  rw [isInfinite_iff, infinity, code_ofCode f.infinityCode_lt, negative_ofCode f.infinityCode_lt]
  exact ⟨rfl, rfl⟩

theorem quietNaN_fields (hf : f.Proper) (negative : Bool) (payload : ℕ) :
    (quietNaN negative payload : Binary f).code =
      f.infinityCode + 2 ^ (f.fractionBits - 1) + payload % 2 ^ (f.fractionBits - 1) ∧
      (quietNaN negative payload : Binary f).negative = negative := by
  have hhalf : 2 ^ f.fractionBits = 2 * 2 ^ (f.fractionBits - 1) := by
    rw [← pow_succ', Nat.sub_add_cancel hf.fraction]
  have hpayload := Nat.mod_lt payload (Nat.two_pow_pos (f.fractionBits - 1))
  have hbits : f.infinityCode + 2 ^ (f.fractionBits - 1) + payload % 2 ^ (f.fractionBits - 1) < 2 ^ f.codeBits := by
    have hcode : f.infinityCode + 2 ^ f.fractionBits = 2 ^ f.codeBits := by
      have hinf : f.infinityCode = (2 ^ f.exponentBits - 1) * 2 ^ f.fractionBits := rfl
      have hexp := Nat.two_pow_pos f.exponentBits
      rw [hinf, Format.codeBits, pow_add, ← Nat.succ_mul, Nat.succ_eq_add_one, Nat.sub_add_cancel hexp]
    omega
  exact ⟨code_ofCode hbits, negative_ofCode hbits⟩

theorem isNaN_quietNaN (hf : f.Proper) (negative : Bool) (payload : ℕ) :
    (quietNaN negative payload : Binary f).isNaN = true ∧
      (quietNaN negative payload : Binary f).negative = negative := by
  obtain ⟨hcode, hsign⟩ := quietNaN_fields hf negative payload
  have hpos := Nat.two_pow_pos (f.fractionBits - 1)
  rw [isNaN_iff, hcode]
  exact ⟨by omega, hsign⟩

end

/-- A finite 32-bit number is one of the 64-bit numbers: there are more bits and more exponents. -/
theorem exists_double (x : Binary .single) (hx : x.isFinite = true) :
    ∃ c, Format.double.codeValue c = Format.single.codeValue x.code ∧ c < Format.double.infinityCode := by
  obtain ⟨n, j, hcode, hn, hj⟩ := Format.single.exists_code x.code
  have hvalue : Format.single.codeValue x.code = n * 2 ^ (Format.single.leastExponent + j) := by
    rw [hcode, Format.codeValue_add hn.le hj]
  have hwide : n < 2 ^ (Format.double.fractionBits + 1) :=
    hn.trans (Nat.pow_lt_pow_right one_lt_two (by decide))
  obtain ⟨c, hc⟩ := Format.exists_codeValue (f := .double) hwide (925 + j)
  have hleast : Format.double.leastExponent + ((925 + j : ℕ) : ℤ) = Format.single.leastExponent + j := by
    have hd : Format.double.leastExponent = -1074 := by decide
    have hs : Format.single.leastExponent = -149 := by decide
    rw [hd, hs]
    push_cast
    ring
  rw [hleast, ← hvalue] at hc
  refine ⟨c, hc, (Format.double.codeValue_strictMono).lt_iff_lt.1 ?_⟩
  have hlt := Format.single.codeValue_strictMono (x.isFinite_iff.1 hx)
  rw [Format.codeValue_infinityCode Format.proper_single] at hlt
  rw [hc, Format.codeValue_infinityCode Format.proper_double]
  exact hlt.trans (zpow_lt_zpow_right₀ one_lt_two (by decide))

theorem widen_spec (x : Binary .single) :
    x.widen.negative = x.negative ∧ (x.isNaN = true → x.widen.isNaN = true) ∧
    (x.isInfinite = true → x.widen.isInfinite = true) ∧
    (x.isFinite = true → x.widen.isFinite = true ∧ x.widen.toRat = x.toRat) := by
  rw [x.isNaN_iff, x.isInfinite_iff, x.isFinite_iff]
  rcases Nat.lt_trichotomy x.code Format.single.infinityCode with h | h | h
  · have hwiden : x.widen = Format.double.nearest x.negative x.magnitude := by
      rw [widen, if_neg (by rw [isNaN_iff]; omega), if_neg (by rw [isInfinite_iff]; omega)]
    obtain ⟨c, hc, hlt⟩ := exists_double x (x.isFinite_iff.2 h)
    obtain ⟨hden, hmag⟩ := magnitude_spec x
    rw [hwiden, Format.nearest_of_codeValue Format.proper_double hden (by rw [hc, hmag, abs_toRat]) hlt.le]
    have hbits := hlt.trans Format.double.infinityCode_lt
    refine ⟨negative_ofCode hbits, fun h' => absurd h' (by omega), fun h' => absurd h' (by omega), fun _ => ?_⟩
    rw [isFinite_ofCode hbits, toRat_ofCode hbits, hc]
    exact ⟨hlt, rfl⟩
  · have hwiden : x.widen = .infinity x.negative := by
      rw [widen, if_neg (by rw [isNaN_iff]; omega), if_pos (x.isInfinite_iff.2 h)]
    obtain ⟨hkind, hsign⟩ := isInfinite_infinity (f := .double) x.negative
    rw [hwiden]
    exact ⟨hsign, fun h' => absurd h' (by omega), fun _ => hkind, fun h' => absurd h' (by omega)⟩
  · have hwiden : x.widen = .quietNaN x.negative (x.code * 536870912) := by
      rw [widen, if_pos (x.isNaN_iff.2 h)]
    obtain ⟨hkind, hsign⟩ := isNaN_quietNaN Format.proper_double x.negative (x.code * 536870912)
    rw [hwiden]
    exact ⟨hsign, fun _ => hkind, fun h' => absurd h' (by omega), fun h' => absurd h' (by omega)⟩

/-! ### The whole text -/

def minus {f : Format} (x : Binary f) : Bytes := if x.negative then ['-'.toUInt8] else []

theorem write_eq (x : Binary .double) (style : Style) (precision : Option ℕ) :
    x.write style precision = x.minus ++ x.magnitudeText style (precision.getD 6) := by
  unfold write minus
  cases x.negative <;> rfl

theorem magnitudeText_of_isFinite {x : Binary .double} (hx : x.isFinite = true) (p : ℕ) :
    x.magnitudeText .fixed p = Style.fixedText x.magnitude p ∧
      x.magnitudeText .exponent p = Style.scientificText x.magnitude p := by
  rw [isFinite_iff] at hx
  have hnan : ¬ x.isNaN = true := by rw [isNaN_iff]; omega
  have hinf : ¬ x.isInfinite = true := by rw [isInfinite_iff]; omega
  simp only [magnitudeText, hnan, hinf, Bool.false_eq_true, if_false, and_self]

/-- A text is the minus of a set sign bit and the exact value of the number rounded once: in the fixed
style to `p` digits after the point, in the exponent style to `p + 1` significant digits. Infinities and
NaNs have one text in both. A 32-bit number has the text of the 64-bit number that it widens to. -/
theorem write_rounds (precision : Option ℕ) :
    (∀ x : Binary .double, x.isFinite = true → ∃ n, IsRounded (|x.toRat| * 10 ^ precision.getD 6) n ∧
      ∃ body, IsFixed body (precision.getD 6) n ∧ x.write .fixed precision = x.minus ++ body) ∧
    (∀ x : Binary .double, x.isFinite = true → ∃ n k, IsSignificant |x.toRat| (precision.getD 6) n k ∧
      ∃ body, IsScientific body (precision.getD 6) n k ∧ x.write .exponent precision = x.minus ++ body) ∧
    (∀ (x : Binary .double) style, x.isInfinite = true →
      x.write style precision = x.minus ++ Ascii.text ['i', 'n', 'f']) ∧
    (∀ (x : Binary .double) style, x.isNaN = true →
      x.write style precision = x.minus ++ Ascii.text ['n', 'a', 'n']) ∧
    ∀ (y : Binary .single) style, y.writeSingle style precision = y.widen.write style precision ∧
      y.widen.negative = y.negative ∧ (y.isNaN = true → y.widen.isNaN = true) ∧
      (y.isInfinite = true → y.widen.isInfinite = true) ∧
      (y.isFinite = true → y.widen.isFinite = true ∧ y.widen.toRat = y.toRat) := by
  refine ⟨fun x hx => ?_, fun x hx => ?_, fun x style hx => ?_, fun x style hx => ?_,
    fun y style => ⟨rfl, widen_spec y⟩⟩
  · obtain ⟨hden, hmag⟩ := magnitude_spec x
    obtain ⟨n, hn, hbody⟩ := Style.fixedText_spec hden (precision.getD 6)
    rw [hmag] at hn
    exact ⟨n, hn, _, hbody, by rw [write_eq, (magnitudeText_of_isFinite hx _).1]⟩
  · obtain ⟨hden, hmag⟩ := magnitude_spec x
    obtain ⟨n, k, hn, hbody⟩ := Style.scientificText_spec hden (precision.getD 6)
    rw [hmag] at hn
    exact ⟨n, k, hn, _, hbody, by rw [write_eq, (magnitudeText_of_isFinite hx _).2]⟩
  · have hnan : ¬ x.isNaN = true := by rw [isNaN_iff, x.isInfinite_iff.1 hx]; omega
    rw [write_eq]
    unfold magnitudeText
    rw [if_neg hnan, if_pos hx]
  · rw [write_eq]
    unfold magnitudeText
    rw [if_pos hx]

/-- A negative zero in both styles, minus infinity, a NaN, and the least 32-bit number. -/
theorem write_rounds_special :
    (∃ n, IsRounded (|(zero true : Binary .double).toRat| * 10 ^ 6) n ∧
      ∃ body, IsFixed body 6 n ∧
        (zero true : Binary .double).write .fixed none = (zero true : Binary .double).minus ++ body) ∧
    (∃ n k, IsSignificant |(zero true : Binary .double).toRat| 6 n k ∧
      ∃ body, IsScientific body 6 n k ∧
        (zero true : Binary .double).write .exponent none = (zero true : Binary .double).minus ++ body) ∧
    (infinity true : Binary .double).write .fixed none = Ascii.text ['-', 'i', 'n', 'f'] ∧
    (quietNaN false 0 : Binary .double).write .exponent none = Ascii.text ['n', 'a', 'n'] ∧
    (⟨1⟩ : Binary .single).widen.toRat = (⟨1⟩ : Binary .single).toRat := by
  obtain ⟨hfixed, hexponent, hinf, hnan, hsingle⟩ := write_rounds none
  refine ⟨hfixed _ (by decide), hexponent _ (by decide), ?_, ?_, ?_⟩
  · exact (hinf _ .fixed (by decide)).trans (by decide)
  · exact (hnan _ .exponent (by decide)).trans (by decide)
  · exact ((hsingle ⟨1⟩ .fixed).2.2.2.2 (by decide)).2

example : (⟨0x4023000000000000⟩ : Binary .double).write .exponent (some 0) = Ascii.text ['1', 'e', '+', '0', '1'] := by
  decide +kernel

end Binary

end Groundwork
