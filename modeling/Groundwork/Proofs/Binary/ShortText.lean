import Groundwork.Proofs.Binary.RoundTrip

/-!
# Short texts survive

A text of the exponent style is determined by its digits, its precision and its exponent
(`IsScientific.text_eq`), and so are they by the number that is written (`IsSignificant.eq`). The number
that a text is read as is off by at most one part in `2 ^ (fractionBits + 1)` (`IsRoundedCode.error_le`,
whether or not a bit was cut on the way). Where a full significand has more values than the digits, that is
less than half a unit of the last digit, also where the number has come to lie below a power of ten whose
digits are finer below it (`isSignificant_of_near`).
-/

namespace Groundwork

/-! ### The text of digits -/

section

variable {s s' : Bytes} {ds ds' es : List ℕ} {p n m : ℕ} {k : ℤ}

theorem Numeral.Digits.lt_ten (h : Numeral.Digits 10 s ds) : ∀ d ∈ ds, d < 10 := by
  induction h with
  | nil => simp
  | cons hd _ ih => exact List.forall_mem_cons.2 ⟨hd.1, ih⟩

theorem Numeral.Digits.text_eq (h : Numeral.Digits 10 s ds) (h' : Numeral.Digits 10 s' ds) : s = s' := by
  induction h generalizing s' with
  | nil => cases h'; rfl
  | cons hd _ ih =>
    obtain _ | ⟨hd', h'⟩ := h'
    obtain ⟨hlt, hbyte⟩ := hd
    obtain ⟨-, hbyte'⟩ := hd'
    exact congrArg₂ List.cons (UInt8.toNat_inj.1 (by omega)) (ih h')

theorem IsPointed.text_eq (h : IsPointed s ds es) (h' : IsPointed s' ds es) : s = s' := by
  cases h with
  | whole hds =>
    cases h' with
    | whole hds' => exact hds.text_eq hds'
    | point _ _ hne => exact absurd rfl hne
  | point hds hes hne =>
    cases h' with
    | whole _ => exact absurd rfl hne
    | point hds' hes' _ => rw [hds.text_eq hds', hes.text_eq hes']

theorem IsPointed.lt_ten (h : IsPointed s ds es) : ∀ d ∈ ds ++ es, d < 10 := by
  cases h with
  | whole hds => rw [List.append_nil]; exact hds.lt_ten
  | point hds hes _ => exact List.forall_mem_append.2 ⟨hds.lt_ten, hes.lt_ten⟩

theorem digits_eq_of_length_eq (h : ∀ d ∈ ds, d < 10) (h' : ∀ d ∈ ds', d < 10) (hlen : ds.length = ds'.length)
    (hval : Nat.ofDigits 10 ds.reverse = Nat.ofDigits 10 ds'.reverse) : ds = ds' := by
  refine List.reverse_injective (Nat.ofDigits_inj_of_len_eq (by norm_num) ?_ ?_ ?_ hval)
  · rw [List.length_reverse, List.length_reverse, hlen]
  · exact fun d hd => h d (List.mem_reverse.1 hd)
  · exact fun d hd => h' d (List.mem_reverse.1 hd)

theorem pow_le_of_head? (hne : ds ≠ []) (hhead : ds.head? ≠ some 0) :
    10 ^ (ds.length - 1) ≤ Nat.ofDigits 10 ds.reverse := by
  obtain ⟨d, ds, rfl⟩ := List.exists_cons_of_ne_nil hne
  have hd : 1 ≤ d := Nat.one_le_iff_ne_zero.2 fun h0 => hhead (by rw [h0]; rfl)
  rw [List.reverse_cons, Nat.ofDigits_append, Nat.ofDigits_singleton, List.length_reverse, List.length_cons,
    Nat.add_sub_cancel]
  exact le_add_left (Nat.le_mul_of_pos_right _ hd)

/-- Without a superfluous zero the value says how many digits there are. -/
theorem length_le_of_value_eq (h : ∀ d ∈ ds, d < 10) (hm : m ≤ ds.length)
    (hhead : m < ds'.length → ds'.head? ≠ some 0)
    (hval : Nat.ofDigits 10 ds.reverse = Nat.ofDigits 10 ds'.reverse) : ds'.length ≤ ds.length := by
  by_contra hlt
  rw [not_le] at hlt
  have hne : ds' ≠ [] := List.ne_nil_of_length_pos (by omega)
  have hlo := pow_le_of_head? hne (hhead (by omega))
  have hhi : Nat.ofDigits 10 ds.reverse < 10 ^ ds.reverse.length :=
    Nat.ofDigits_lt_base_pow_length (by norm_num) fun d hd => h d (List.mem_reverse.1 hd)
  rw [List.length_reverse] at hhi
  have hpow : 10 ^ ds.length ≤ 10 ^ (ds'.length - 1) := Nat.pow_le_pow_right (by norm_num) (by omega)
  omega

theorem IsExponentPart.text_eq (h : IsExponentPart s k) (h' : IsExponentPart s' k) : s = s' := by
  obtain ⟨t, ds, rfl, ht, hlen, hhead, hval⟩ := h
  obtain ⟨t', ds', rfl, ht', hlen', hhead', hval'⟩ := h'
  have hsame := hval.trans hval'.symm
  have hle := length_le_of_value_eq ht.lt_ten hlen hhead' hsame
  have hge := length_le_of_value_eq ht'.lt_ten hlen' hhead hsame.symm
  obtain rfl := digits_eq_of_length_eq ht.lt_ten ht'.lt_ten (le_antisymm hge hle) hsame
  rw [ht.text_eq ht']

theorem IsScientific.text_eq (h : IsScientific s p n k) (h' : IsScientific s' p n k) : s = s' := by
  obtain ⟨t, u, d, fraction, rfl, ht, hlen, -, hval, hu⟩ := h
  obtain ⟨t', u', d', fraction', rfl, ht', hlen', -, hval', hu'⟩ := h'
  have hlength : (d :: fraction).length = (d' :: fraction').length := by
    rw [List.length_cons, List.length_cons, hlen, hlen']
  have heq := digits_eq_of_length_eq ht.lt_ten ht'.lt_ten hlength (hval.trans hval'.symm)
  cases heq
  rw [ht.text_eq ht', hu.text_eq hu']

/-- The number of `p + 1` digits with a first one that is not zero. -/
theorem IsScientific.bounds (h : IsScientific s p n k) (hn : 0 < n) : 10 ^ p ≤ n ∧ n < 10 ^ (p + 1) := by
  obtain ⟨t, u, d, fraction, -, ht, rfl, hzero, rfl, -⟩ := h
  have hhead : (d :: fraction).head? ≠ some 0 := by
    intro h0
    rw [hzero (Option.some_inj.1 h0)] at hn
    exact lt_irrefl 0 hn
  have hlo := pow_le_of_head? (List.cons_ne_nil d fraction) hhead
  have hhi : Nat.ofDigits 10 (d :: fraction).reverse < 10 ^ (d :: fraction).reverse.length :=
    Nat.ofDigits_lt_base_pow_length (by norm_num) fun c hc => ht.lt_ten c (List.mem_reverse.1 hc)
  rw [List.length_cons, Nat.add_sub_cancel] at hlo
  rw [List.length_reverse, List.length_cons] at hhi
  exact ⟨hlo, hhi⟩

end

/-! ### Significant digits -/

section

variable {q v : ℚ} {p n n' b : ℕ} {k k' : ℤ}

theorem IsSignificant.eq (h : IsSignificant q p n k) (h' : IsSignificant q p n' k') : n = n' ∧ k = k' := by
  rcases h with ⟨h0, rfl, rfl⟩ | ⟨hpos, -, r, hr, hcases⟩
  · rcases h' with ⟨-, rfl, rfl⟩ | ⟨hpos, -⟩
    · exact ⟨rfl, rfl⟩
    · exact absurd h0 hpos.ne'
  · rcases h' with ⟨h0, -⟩ | ⟨-, -, r', hr', hcases'⟩
    · exact absurd h0 hpos.ne'
    obtain rfl := hr.eq hr'
    rcases hcases with ⟨hlt, rfl, rfl⟩ | ⟨hr, rfl, rfl⟩
    · rcases hcases' with ⟨-, rfl, rfl⟩ | ⟨hr', -, -⟩
      · exact ⟨rfl, rfl⟩
      · exact absurd hr' hlt.ne
    · rcases hcases' with ⟨hlt, -, -⟩ | ⟨-, rfl, rfl⟩
      · exact absurd hr hlt.ne
      · exact ⟨rfl, rfl⟩

theorem isRounded_of_abs_lt (h : |q - n| < 1 / 2) : IsRounded q n := ⟨h.le, fun heq => absurd heq h.ne⟩

theorem abs_div_sub_lt {w : ℚ} (hw : 0 < w) (h : |v - n * w| < w / 2) : |v / w - n| < 1 / 2 := by
  have hsplit : v / w - n = (v - n * w) / w := by field_simp
  rw [hsplit, abs_div, abs_of_pos hw, div_lt_iff₀ hw]
  linarith

theorem abs_sub_lt_half {w : ℚ} (hw : 0 < w) (hp : 10 ^ (p + 1) < b) (hn : n < 10 ^ (p + 1))
    (hnear : 2 * b * |v - n * w| ≤ max v (n * w)) : |v - n * w| < w / 2 := by
  have hb : ((10 ^ (p + 1) : ℕ) : ℚ) + 1 ≤ b := by exact_mod_cast hp
  have hn : (n : ℚ) + 1 ≤ (10 ^ (p + 1) : ℕ) := by exact_mod_cast hn
  have hn0 : (0 : ℚ) ≤ n := n.cast_nonneg
  have hle : max v (n * w) ≤ n * w + |v - n * w| := by
    refine max_le ?_ (le_add_of_nonneg_right (abs_nonneg _))
    linarith [le_abs_self (v - n * w)]
  have herr : (2 * b - 1) * |v - n * w| ≤ n * w := by linarith
  by_contra hlt
  rw [not_lt] at hlt
  have hcoef : (0 : ℚ) ≤ 2 * b - 1 := by linarith
  have hbig : (2 * b - 1) * (w / 2) ≤ n * w := (mul_le_mul_of_nonneg_left hlt hcoef).trans herr
  have hsmall : (n : ℚ) * w < (2 * b - 1) * (w / 2) := by
    have : (n : ℚ) < (2 * b - 1) / 2 := by linarith
    calc (n : ℚ) * w < (2 * b - 1) / 2 * w := by gcongr
      _ = (2 * b - 1) * (w / 2) := by ring
  linarith

theorem zpow_eq_pow_mul (p : ℕ) (k : ℤ) : (10 : ℚ) ^ k = 10 ^ p * 10 ^ (k - p) := by
  rw [← zpow_natCast, ← zpow_add₀ (by norm_num)]
  congr 1
  ring

/-- A number next to `n` units of a place has the digits `n` there. Below a power of ten the place is ten times
as fine; there is only that power to round up to, and it is still nearer than half a unit. -/
theorem isSignificant_of_near (hv : 0 < v) (hp : 10 ^ (p + 1) < b) (hlo : 10 ^ p ≤ n) (hhi : n < 10 ^ (p + 1))
    (hnear : 2 * b * |v - n * 10 ^ (k - p)| ≤ max v (n * 10 ^ (k - p))) : IsSignificant v p n k := by
  have hten : (0 : ℚ) < 10 := by norm_num
  have hpow := zpow_eq_pow_mul p k
  have hw : (0 : ℚ) < 10 ^ (k - p) := zpow_pos hten _
  have hhalf := abs_sub_lt_half hw hp hhi hnear
  have hloq : (10 : ℚ) ^ p ≤ n := by exact_mod_cast hlo
  have hhiq : (n : ℚ) + 1 ≤ 10 ^ (p + 1) := by exact_mod_cast hhi
  rcases le_or_gt ((10 : ℚ) ^ k) v with hle | hlt
  · have hupper : v < 10 ^ (k + 1) := by
      have hnext : (10 : ℚ) ^ (k + 1) = 10 ^ (p + 1) * 10 ^ (k - p) := by
        rw [zpow_add_one₀ hten.ne', hpow, pow_succ]
        ring
      rw [hnext]
      calc v < n * 10 ^ (k - p) + 10 ^ (k - p) / 2 := by linarith [(abs_lt.1 hhalf).2]
        _ ≤ (n + 1) * 10 ^ (k - p) := by linarith
        _ ≤ 10 ^ (p + 1) * 10 ^ (k - p) := by gcongr
    have hlog : Int.log 10 v = k := by
      have h₁ := (Int.zpow_le_iff_le_log (b := 10) (by norm_num) hv).1 hle
      have h₂ := (Int.lt_zpow_iff_log_lt (b := 10) (by norm_num) hv).1 hupper
      omega
    refine .inr ⟨hv, hlo, n, ?_, .inl ⟨hhi, rfl, hlog.symm⟩⟩
    rw [hlog]
    exact isRounded_of_abs_lt (abs_div_sub_lt hw hhalf)
  · -- the units are `10 ^ k` itself, and `v` is just below it
    have hn : n = 10 ^ p := by
      refine le_antisymm (Nat.le_of_lt_succ ?_) hlo
      have hlt' : (n : ℚ) * 10 ^ (k - p) < (10 ^ p + 1) * 10 ^ (k - p) := by
        rw [hpow] at hlt
        linarith [(abs_lt.1 hhalf).1]
      exact_mod_cast lt_of_mul_lt_mul_right hlt' hw.le
    have hone : (n : ℚ) * 10 ^ (k - p) = 10 ^ k := by rw [hn, hpow]; push_cast; rfl
    rw [hone, max_eq_right hlt.le] at hnear
    have hfine : (10 : ℚ) ^ k = ((10 ^ (p + 1) : ℕ) : ℚ) * 10 ^ (k - 1 - p) := by
      have := zpow_eq_pow_mul (p + 1) k
      push_cast at this ⊢
      rw [this]
      congr 2
      ring
    have hw' : (0 : ℚ) < 10 ^ (k - 1 - p) := zpow_pos hten _
    have hhalf' : |v - 10 ^ k| < 10 ^ (k - 1 - p) / 2 := by
      have hb : ((10 ^ (p + 1) : ℕ) : ℚ) < b := by exact_mod_cast hp
      have hb0 : (0 : ℚ) < 2 * b := by
        have : (0 : ℚ) ≤ (10 ^ (p + 1) : ℕ) := Nat.cast_nonneg _
        linarith
      refine lt_of_mul_lt_mul_left (hnear.trans_lt ?_) hb0.le
      rw [hfine]
      calc ((10 ^ (p + 1) : ℕ) : ℚ) * 10 ^ (k - 1 - p) < b * 10 ^ (k - 1 - p) := by gcongr
        _ = 2 * b * (10 ^ (k - 1 - p) / 2) := by ring
    have hlower : (10 : ℚ) ^ (k - 1) ≤ v := by
      have hprev : (10 : ℚ) ^ k = 10 ^ (k - 1) * 10 := by rw [← zpow_add_one₀ hten.ne', sub_add_cancel]
      have hunit : (10 : ℚ) ^ (k - 1 - p) ≤ 10 ^ (k - 1) := zpow_le_zpow_right₀ (by norm_num) (by omega)
      linarith [(abs_lt.1 hhalf').1]
    have hlog : Int.log 10 v = k - 1 := by
      have h₁ := (Int.zpow_le_iff_le_log (b := 10) (by norm_num) hv).1 hlower
      have h₂ := (Int.lt_zpow_iff_log_lt (b := 10) (by norm_num) hv).1 hlt
      omega
    refine .inr ⟨hv, hlo, 10 ^ (p + 1), ?_, .inr ⟨rfl, hn, by rw [hlog]; ring⟩⟩
    rw [hlog]
    refine isRounded_of_abs_lt (abs_div_sub_lt hw' ?_)
    rwa [← hfine]

end

/-! ### The error of reading -/

namespace Format

variable {f : Format} {q : ℚ} {c : ℕ} {x : Ratio} {negative isDecimal : Bool}

theorem IsRoundedCode.error_le (hq : 0 < q) (h : f.IsRoundedCode q c) (hc : 2 ^ f.fractionBits ≤ c) :
    2 ^ (f.fractionBits + 1) * |f.codeValue c - q| ≤ max (f.codeValue c) q := by
  obtain ⟨n, j, -, hj, hn, -, hval⟩ := h.value hq
  have hpos : (0 : ℚ) < 2 ^ f.place q := zpow_pos two_pos _
  have herr : 2 * |f.codeValue c - q| ≤ 2 ^ f.place q := by
    rw [hval, abs_mul_sub]
    linarith [mul_le_mul_of_nonneg_right hn.1 hpos.le]
  have hfull : (2 : ℚ) ^ f.fractionBits * 2 ^ f.place q ≤ max (f.codeValue c) q := by
    have hplace := f.place_eq q
    rcases le_or_gt f.leastExponent (Int.log 2 q - f.fractionBits) with hle | hlt
    · refine le_max_of_le_right ?_
      rw [two_pow_mul (k := Int.log 2 q) (by omega)]
      exact (Int.zpow_le_iff_le_log one_lt_two hq).2 le_rfl
    · refine le_max_of_le_left ?_
      have hnormal := f.normalExponent_eq
      rw [two_pow_mul (k := f.normalExponent) (by omega), ← codeValue_two_pow]
      exact f.codeValue_strictMono.monotone hc
  calc (2 : ℚ) ^ (f.fractionBits + 1) * |f.codeValue c - q|
      = 2 ^ f.fractionBits * (2 * |f.codeValue c - q|) := by ring
    _ ≤ 2 ^ f.fractionBits * 2 ^ f.place q := by gcongr
    _ ≤ max (f.codeValue c) q := hfull

theorem isRoundedCode_of_ofRatio (hf : f.Proper) (hn : 0 < x.num) (hd : 0 < x.den) {y : Binary f}
    (hy : y.isNormal = true) (h : f.ofRatio negative isDecimal x = .ok y) :
    y.negative = negative ∧ f.IsRoundedCode x.toRat y.code := by
  rw [ofRatio_of_pos hn] at h
  split_ifs at h with hfail
  push Not at hfail
  obtain ⟨hfin, htiny⟩ := hfail
  cases h
  have hbits := hfin.trans f.infinityCode_lt
  have hnormal := of_decide_eq_true (Bool.and_eq_true_iff.1 hy).1
  rw [Binary.code_ofCode hbits] at hnormal
  rw [Binary.negative_ofCode hbits, Binary.code_ofCode hbits]
  refine ⟨rfl, ?_⟩
  obtain ⟨n, k, hx, htrim⟩ | ⟨-, htrim⟩ := f.trimmed_cases isDecimal hn hd
  · rw [htrim] at hnormal htiny ⊢
    have hcut := isRoundedCode_roundedCode (f := f) hx.num_cut_pos (den_cut_pos n k)
    -- the cut value is below the normal numbers, so it was seen not to be exact
    have hne : f.codeValue (f.roundedCode (cut n k)) ≠ (cut n k).toRat := by
      have hge := f.codeValue_strictMono.monotone hnormal
      rw [codeValue_two_pow] at hge
      have hlt : (cut n k).toRat < 2 ^ f.normalExponent :=
        (Int.lt_zpow_iff_log_lt one_lt_two hx.log_cut.1).2 (by rw [hx.log_cut.2, ← hx.log.2]; exact hx.log_lt)
      exact (hlt.trans_le hge).ne'
    have htiny : ¬ f.Tiny x.toRat := by
      rw [← isTiny_iff hn hd]
      intro ht
      exact hne ((represents_iff hx.num_cut_pos (den_cut_pos n k)).1 (htiny ht))
    obtain ⟨r, hr⟩ := f.exists_rounds hd
    obtain ⟨hones, hk⟩ := (hx.tiny_or hr).resolve_left htiny
    obtain ⟨hcode, hcode'⟩ := hx.roundedCode_of_allOnes hf hones hk
    rwa [hcut.unique hcode']
  · rw [htrim]
    exact isRoundedCode_roundedCode hn hd

end Format

namespace Binary

variable {f : Format} {s body : Bytes} {n p : ℕ} {k : ℤ} {negative : Bool}

theorem error_of_read (hf : f.Proper) {y : Binary f} (hy : y.isNormal = true)
    (hs : Literal.Spells s ⟨negative, .finite 10 n k⟩) (hn : 0 < n) (hread : read f s = .ok y) :
    y.negative = negative ∧ 2 ^ (f.fractionBits + 1) * |(|y.toRat|) - n * 10 ^ k| ≤ max |y.toRat| (n * 10 ^ k) := by
  obtain ⟨hnum, hden, hval⟩ := Format.scale_ofNat (show 2 ≤ 10 by norm_num) hn k
  rw [Nat.cast_ofNat] at hval
  rw [(read_of_spells hf hs).2] at hread
  obtain ⟨hsign, hcode⟩ := Format.isRoundedCode_of_ofRatio hf hnum hden hy hread
  have hnormal := of_decide_eq_true (Bool.and_eq_true_iff.1 hy).1
  have herr := hcode.error_le (Ratio.toRat_pos hnum hden) hnormal
  rw [hval] at herr
  rw [abs_toRat]
  exact ⟨hsign, herr⟩

def minusOf (negative : Bool) : Bytes := if negative then ['-'.toUInt8] else []

theorem isSign_minusOf (negative : Bool) : IsSign (minusOf negative) negative := by
  cases negative
  · exact .absent
  · exact .minus

/-- A text of the exponent style with `p` digits after the point and a first digit that is not zero. -/
def IsExponentText (p : ℕ) (t : Bytes) : Prop :=
  ∃ negative body n k, t = minusOf negative ++ body ∧ IsScientific body p n k ∧ 0 < n

/-- What a text is read as is written as that text, by any 64-bit number of the same sign and value. -/
theorem write_of_read (hf : f.Proper) (hp : 10 ^ (p + 1) < 2 ^ f.fractionBits) {t : Bytes} (ht : IsExponentText p t)
    {y : Binary f} (hy : y.isNormal = true) (hread : read f t = .ok y) {x : Binary .double}
    (hsign : x.negative = y.negative) (hfin : x.isFinite = true) (hval : x.toRat = y.toRat) :
    x.write .exponent (some p) = t := by
  obtain ⟨negative, body, n, k, rfl, hbody, hn⟩ := ht
  have hspells : Literal.Spells (minusOf negative ++ body) ⟨negative, .finite 10 n (k - p)⟩ :=
    ⟨_, _, rfl, isSign_minusOf negative, hbody.isMagnitude.1⟩
  obtain ⟨hneg, herr⟩ := error_of_read hf hy hspells hn hread
  obtain ⟨hlo, hhi⟩ := hbody.bounds hn
  obtain ⟨hden, hmag⟩ := magnitude_spec x
  have hdigits : IsSignificant |y.toRat| p n k := by
    refine isSignificant_of_near (abs_toRat_pos hy) hp hlo hhi ?_
    rw [pow_succ] at herr
    push_cast
    rwa [mul_comm (2 : ℚ)]
  obtain ⟨n', k', hspec, htext⟩ := Style.scientificText_spec hden p
  rw [hmag, hval] at hspec
  obtain ⟨rfl, rfl⟩ := hdigits.eq hspec
  have hminus : x.minus = minusOf negative := by rw [minus, hsign, hneg]; rfl
  rw [write_eq, hminus]
  show minusOf negative ++ x.magnitudeText .exponent p = _
  rw [(magnitudeText_of_isFinite hfin p).2, htext.text_eq hbody]

theorem IsExponentText.isPlain {t : Bytes} (h : IsExponentText p t) : Ascii.IsPlain t := by
  obtain ⟨negative, body, n, k, rfl, hbody, -⟩ := h
  refine Ascii.IsPlain.append ?_ hbody.isMagnitude.2
  cases negative
  · simp [minusOf, Ascii.IsPlain]
  · exact List.forall_mem_singleton.2 (by decide)

/-- A text of up to 15 significant digits, or of 6 for 32 bits, that is read as a normal number is the text of
that number with as many digits. -/
theorem write_read_eq (p : ℕ) (t : Bytes) (ht : IsExponentText p t) :
    (p ≤ 14 → ∀ x : Binary .double, x.isNormal = true →
      (read .double t = .ok x ∨ readString .double (Ascii.toString t) = .ok x) → x.write .exponent (some p) = t) ∧
    (p ≤ 5 → ∀ y : Binary .single, y.isNormal = true →
      (read .single t = .ok y ∨ readString .single (Ascii.toString t) = .ok y) →
        y.writeSingle .exponent (some p) = t) := by
  rw [readString_toString ht.isPlain, readString_toString ht.isPlain]
  constructor
  · intro hp x hx hread
    have hroom : 10 ^ (p + 1) < 2 ^ 52 :=
      (Nat.pow_le_pow_right (by norm_num) (show p + 1 ≤ 15 by omega)).trans_lt (by norm_num)
    exact write_of_read Format.proper_double hroom ht hx (hread.elim id id) rfl (Bool.and_eq_true_iff.1 hx).2 rfl
  · intro hp y hy hread
    have hroom : 10 ^ (p + 1) < 2 ^ 23 :=
      (Nat.pow_le_pow_right (by norm_num) (show p + 1 ≤ 6 by omega)).trans_lt (by norm_num)
    obtain ⟨hsign, -, -, hfin⟩ := widen_spec y
    obtain ⟨hfin, hval⟩ := hfin (Bool.and_eq_true_iff.1 hy).2
    exact write_of_read Format.proper_single hroom ht hy (hread.elim id id) hsign hfin hval

/-- Two powers of ten that are read as numbers just below them, one with a sign and of 32 bits. -/
theorem write_read_eq_carry :
    read .double (Ascii.text "1.00000000000000e+23".toList) = .ok ⟨0x44b52d02c7e14af6⟩ ∧
    (⟨0x44b52d02c7e14af6⟩ : Binary .double).write .exponent (some 14) = Ascii.text "1.00000000000000e+23".toList ∧
    read .single (Ascii.text "-1.00000e-05".toList) = .ok ⟨0xb727c5ac⟩ ∧
    (⟨0xb727c5ac⟩ : Binary .single).writeSingle .exponent (some 5) = Ascii.text "-1.00000e-05".toList := by
  have htext : ∀ negative (p n : ℕ) (k : ℤ), n < 10 ^ (p + 1) → 10 ^ p ≤ n → IsExponentText p
      (minusOf negative ++ (Style.point p (Style.pad (p + 1) (Numeral.digits n)) ++ Style.exponentText k)) := by
    intro negative p n k hlt hle
    exact ⟨negative, _, n, k, rfl, Style.isScientific_point hlt (.inr hle), (Nat.pow_pos (by norm_num)).trans_le hle⟩
  have hdouble : read .double (Ascii.text "1.00000000000000e+23".toList) = .ok ⟨0x44b52d02c7e14af6⟩ := by
    decide +kernel
  have hsingle : read .single (Ascii.text "-1.00000e-05".toList) = .ok ⟨0xb727c5ac⟩ := by decide +kernel
  refine ⟨hdouble, (write_read_eq 14 _ ?_).1 le_rfl _ (by decide) (.inl hdouble), hsingle,
    (write_read_eq 5 _ ?_).2 le_rfl _ (by decide) (.inl hsingle)⟩
  · have h := htext false 14 (10 ^ 14) 23 (by norm_num) le_rfl
    rwa [show minusOf false ++ (Style.point 14 (Style.pad 15 (Numeral.digits (10 ^ 14))) ++ Style.exponentText 23) =
      Ascii.text "1.00000000000000e+23".toList by decide +kernel] at h
  · have h := htext true 5 (10 ^ 5) (-5) (by norm_num) le_rfl
    rwa [show minusOf true ++ (Style.point 5 (Style.pad 6 (Numeral.digits (10 ^ 5))) ++ Style.exponentText (-5)) =
      Ascii.text "-1.00000e-05".toList by decide +kernel] at h

end Binary

end Groundwork
