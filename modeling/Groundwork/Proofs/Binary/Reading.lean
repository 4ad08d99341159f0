import Groundwork.Binary.Reading
import Groundwork.Proofs.Binary.Conversion
import Groundwork.Proofs.Binary.Literal

/-!
# Reading floating-point numbers

A text is refused as invalid by exactly the language of literals, whatever the format: a literal may be
out of range for one format and not for another, but it is never invalid (`ofLiteral_ne_invalid`).

A numeral is read as its exact value is converted. The powers that `ofScaled` does not compute make no
difference (`ofScaled_eq`): on one side they overflow, on the other they are below half the least number.
-/

namespace Groundwork

namespace Binary

variable {f : Format} {s : Bytes}

theorem ofRatio_ne_invalid (negative isDecimal : Bool) (x : Ratio) :
    f.ofRatio negative isDecimal x ≠ .error .invalid := by
  simp only [Format.ofRatio]
  split_ifs <;> simp

theorem ofLiteral_ne_invalid (l : Literal) : ofLiteral f l ≠ .error .invalid := by
  obtain ⟨negative, magnitude⟩ := l
  cases magnitude with
  | finite base significand e =>
    simp only [ofLiteral, Format.ofScaled]
    split_ifs
    · simp
    · simp
    · exact ofRatio_ne_invalid _ _ _
  | infinity => simp [ofLiteral]
  | nan word =>
    simp only [ofLiteral, Literal.payload]
    split_ifs <;> simp [Except.map]

theorem read_eq_invalid_iff : read f s = .error .invalid ↔ ¬ ∃ l, Literal.Spells s l := by
  simp only [read, ← Literal.ofBytes?_eq_some_iff]
  cases Literal.ofBytes? s with
  | none => simp
  | some l => simpa using ofLiteral_ne_invalid l

theorem read_of_not_graphic {b : UInt8} (hb : b ∈ s) (hle : b.toNat ≤ 32) : read f s = .error .invalid := by
  refine read_eq_invalid_iff.2 ?_
  rintro ⟨l, hl⟩
  have := hl.graphic b hb
  omega

theorem readString_of_nul {text : String} (h : 0 ∈ text.toUTF8.data.toList) :
    readString f text = .error .invalid := by
  simp only [readString, CString.ofString?_of_nul h]

theorem readString_eq (text : String) : readString f text = read f text.toUTF8.data.toList := by
  by_cases h : 0 ∈ text.toUTF8.data.toList
  · rw [readString_of_nul h, read_of_not_graphic h (by decide)]
  · simp only [readString, CString.ofString?_of_no_nul h]

theorem read_of_blank (h : s = [] ∨ ∃ b ∈ s.head?, Ascii.isSpace b = true) : read f s = .error .invalid := by
  rcases h with rfl | ⟨b, hb, hspace⟩
  · rfl
  · refine read_of_not_graphic (List.mem_of_mem_head? hb) ?_
    simp only [Ascii.isSpace, Bool.or_eq_true, Bool.and_eq_true, decide_eq_true_eq, UInt8.le_iff_toNat_le,
      ← UInt8.toNat_inj] at hspace
    simp at hspace
    omega

/-- A text is invalid for a format exactly if it is outside the language, so for one format exactly if
it is for another. Reading a character string is reading its bytes. -/
theorem read_invalid_iff_not_literal (f : Format) :
    (∀ s, read f s = .error .invalid ↔ ¬ ∃ l, Literal.Spells s l) ∧
    (∀ g s, read f s = .error .invalid ↔ read g s = .error .invalid) ∧
    (∀ s, (s = [] ∨ ∃ b ∈ s.head?, Ascii.isSpace b = true) → read f s = .error .invalid) ∧
    ∀ text : String, readString f text = read f text.toUTF8.data.toList ∧
      (0 ∈ text.toUTF8.data.toList → readString f text = .error .invalid) := by
  refine ⟨fun s => read_eq_invalid_iff, fun g s => ?_, fun s => read_of_blank, fun text => ?_⟩
  · rw [read_eq_invalid_iff, read_eq_invalid_iff]
  · exact ⟨readString_eq text, readString_of_nul⟩

/-- A blank before a number that is out of range, and a NUL after one that is not. -/
theorem read_invalid_blank_and_nul :
    read .single (Ascii.text " 1e999".toList) = .error .invalid ∧ readString .double "1\x00" = .error .invalid :=
  ⟨(read_invalid_iff_not_literal .single).2.2.1 _ (.inr ⟨32, by decide, by decide⟩),
    ((read_invalid_iff_not_literal .double).2.2.2 "1\x00").2 (by decide)⟩

example : ∀ s ∈ ["", ".", "0x", "1e", "1e+", "infinit", "nan(", "1e999x"],
    read .double (Ascii.text s.toList) = .error .invalid := by decide

end Binary

/-! ### Numerals -/

namespace Format

variable {f : Format} {negative isDecimal : Bool} {x : Ratio} {base significand : ℕ} {e : ℤ}

theorem ofRatio_zero (f : Format) (negative isDecimal : Bool) (base : ℕ) (e : ℤ) :
    f.ofRatio negative isDecimal ((Ratio.ofNat 0).scale base e) = .ok (.zero negative) := by
  have hnum : ((Ratio.ofNat 0).scale base e).num = 0 := by cases e <;> simp [Ratio.scale, Ratio.ofNat]
  rw [ofRatio, if_pos hnum]

theorem ofRatio_of_overflows (hf : f.Proper) (hn : 0 < x.num) (hd : 0 < x.den) (h : f.Overflows x.toRat) :
    f.ofRatio negative isDecimal x = .error .outOfRange := by
  refine (ofRatio_converts hf hn hd ?_).overflow h
  rintro ⟨p, n, k, hx, -⟩
  exact hx.not_overflows hf h

/-- Below half of the least number there is only zero, which is not exact. -/
theorem ofRatio_of_lt (hf : f.Proper) (hn : 0 < x.num) (hd : 0 < x.den) (h : x.toRat < 2 ^ (f.leastExponent - 1)) :
    f.ofRatio negative isDecimal x = .error .outOfRange := by
  have hq := Ratio.toRat_pos hn hd
  have hnormal := f.normalExponent_eq
  have hlog : Int.log 2 x.toRat < f.leastExponent - 1 := (Int.lt_zpow_iff_log_lt one_lt_two hq).1 h
  have hoff : ∀ i : ℕ, 0 < i → x.toRat < i * 2 ^ f.leastExponent := by
    intro i hi
    have hi : (1 : ℚ) ≤ i := by exact_mod_cast hi
    calc x.toRat < 2 ^ (f.leastExponent - 1) := h
      _ ≤ 1 * 2 ^ f.leastExponent := by rw [one_mul]; exact zpow_le_zpow_right₀ one_le_two (by omega)
      _ ≤ i * 2 ^ f.leastExponent := by gcongr
  have hdrop : ¬ ∃ p, f.DropsBit isDecimal x.toRat p := by
    rintro ⟨p, n, k, hx, rfl, i, hi⟩
    have hlt : (cut n k).toRat < x.toRat := by
      rw [toRat_cut, hx.value]
      have hpos : (0 : ℚ) < 2 ^ k := zpow_pos two_pos k
      gcongr
      omega
    rcases Nat.eq_zero_or_pos i with rfl | hi0
    · have := hx.log_cut.1
      rw [hi] at this
      simp at this
    · exact absurd (hi ▸ hlt) (not_lt.2 (hoff i hi0).le)
  obtain ⟨r, hr⟩ := f.exists_rounds hd
  have htiny : f.Tiny x.toRat :=
    ⟨hq, r, hr, (hr.bounds hq).2.trans_lt (zpow_lt_zpow_right₀ one_lt_two (by omega))⟩
  have hover : ¬ f.Overflows x.toRat := not_overflows_of_lt hf hq (by omega)
  obtain ⟨y, -, -, herr, -⟩ := (ofRatio_converts hf hn hd hdrop).delivered hover
  refine herr ⟨htiny, toRat_ne_signed hq ?_⟩
  obtain ⟨i, hi⟩ := f.exists_multiple y.code
  rw [hi]
  rcases Nat.eq_zero_or_pos i with rfl | hi0
  · simpa using hq.ne
  · exact (hoff i hi0).ne'

theorem overflows_of_le (hn : 0 < x.num) (hd : 0 < x.den) (h : 2 ^ f.span ≤ x.toRat) : f.Overflows x.toRat := by
  obtain ⟨r, hr⟩ := f.exists_rounds hd
  have hspan : (2 : ℚ) ^ (2 ^ (f.exponentBits - 1) : ℤ) ≤ 2 ^ f.span := by
    have hle : 2 ^ (f.exponentBits - 1) ≤ f.span :=
      (Nat.pow_le_pow_right two_pos (Nat.sub_le _ _)).trans (Nat.le_add_right _ _)
    rw [← zpow_natCast]
    exact zpow_le_zpow_right₀ one_le_two (by exact_mod_cast hle)
  rw [← zpow_natCast] at h hspan
  have hlog := (Int.zpow_le_iff_le_log one_lt_two (Ratio.toRat_pos hn hd)).1 h
  exact ⟨r, hr, hspan.trans ((zpow_le_zpow_right₀ one_le_two hlog).trans (hr.bounds (Ratio.toRat_pos hn hd)).1)⟩

theorem scaled_bounds (hb : 2 ≤ base) (hs : 0 < significand) (e : ℤ) :
    (base : ℚ) ^ (Numeral.length base significand + e - 1) ≤ significand * base ^ e ∧
      significand * (base : ℚ) ^ e < base ^ (Numeral.length base significand + e) := by
  have hbase : (0 : ℚ) < base := by exact_mod_cast two_pos.trans_le hb
  have hpos : (0 : ℚ) < base ^ e := zpow_pos hbase e
  have hlo : (base : ℚ) ^ Numeral.length base significand ≤ base * significand := by
    exact_mod_cast Numeral.pow_length_le hb hs
  have hhi : (significand : ℚ) < base ^ Numeral.length base significand := by
    exact_mod_cast Numeral.lt_pow_length hb significand
  rw [zpow_sub_one₀ hbase.ne', zpow_add₀ hbase.ne', zpow_natCast]
  constructor
  · calc (base : ℚ) ^ Numeral.length base significand * base ^ e * (base : ℚ)⁻¹
        ≤ base * significand * base ^ e * (base : ℚ)⁻¹ := by gcongr
      _ = significand * base ^ e := by field_simp
  · gcongr

theorem scale_ofNat (hb : 2 ≤ base) (hs : 0 < significand) (e : ℤ) :
    0 < ((Ratio.ofNat significand).scale base e).num ∧ 0 < ((Ratio.ofNat significand).scale base e).den ∧
      ((Ratio.ofNat significand).scale base e).toRat = significand * (base : ℚ) ^ e := by
  have hb0 : 0 < base := two_pos.trans_le hb
  refine ⟨Ratio.num_scale_pos hs hb0 e, Ratio.den_scale_pos one_pos hb0 e, ?_⟩
  rw [Ratio.toRat_scale _ hb0, Ratio.toRat_ofNat]

theorem ofScaled_eq (hf : f.Proper) (hb : 2 ≤ base) (significand : ℕ) (e : ℤ) :
    f.ofScaled negative base significand e =
      f.ofRatio negative (base = 10) ((Ratio.ofNat significand).scale base e) := by
  rcases Nat.eq_zero_or_pos significand with rfl | hs
  · rw [ofRatio_zero]
    rfl
  obtain ⟨hn, hd, hq⟩ := scale_ofNat hb hs e
  obtain ⟨hlo, hhi⟩ := scaled_bounds hb hs e
  have hbase : (2 : ℚ) ≤ base := by exact_mod_cast hb
  have hspan : (f.span : ℤ) = 2 * 2 ^ (f.exponentBits - 1) + f.fractionBits := by
    have hexp := hf.exponent
    have hdef : f.span = 2 ^ f.exponentBits + f.fractionBits := rfl
    rw [hdef, ← pow_succ', Nat.sub_add_cancel (by omega)]
    push_cast
    rfl
  have hleast : f.leastExponent = 2 - 2 ^ (f.exponentBits - 1) - f.fractionBits := rfl
  have hpow : (0 : ℤ) < 2 ^ (f.exponentBits - 1) := by positivity
  simp only [ofScaled, hs.ne', if_false, Bool.or_eq_true, decide_eq_true_eq]
  split_ifs with hfar
  · symm
    rcases hfar with hbig | hsmall
    · refine ofRatio_of_overflows hf hn hd (overflows_of_le hn hd ?_)
      calc (2 : ℚ) ^ f.span ≤ (base : ℚ) ^ f.span := by gcongr
        _ = (base : ℚ) ^ (f.span : ℤ) := (zpow_natCast _ _).symm
        _ ≤ (base : ℚ) ^ (Numeral.length base significand + e - 1) :=
          zpow_le_zpow_right₀ (by linarith) (by omega)
        _ ≤ _ := by rw [hq]; exact hlo
    · refine ofRatio_of_lt hf hn hd ?_
      calc ((Ratio.ofNat significand).scale base e).toRat
          < (base : ℚ) ^ (Numeral.length base significand + e) := by rw [hq]; exact hhi
        _ ≤ (base : ℚ) ^ (-((f.span + 1 : ℕ) : ℤ)) := zpow_le_zpow_right₀ (by linarith) (by omega)
        _ ≤ 2 ^ (-((f.span + 1 : ℕ) : ℤ)) := by
          rw [zpow_neg, zpow_neg, zpow_natCast, zpow_natCast]
          gcongr
        _ ≤ 2 ^ (f.leastExponent - 1) := zpow_le_zpow_right₀ one_le_two (by omega)
  · rfl

end Format

namespace Binary

variable {f : Format} {s : Bytes} {negative : Bool} {base significand : ℕ} {e : ℤ}

theorem read_of_spells (hf : f.Proper) (hs : Literal.Spells s ⟨negative, .finite base significand e⟩) :
    2 ≤ base ∧ read f s = f.ofRatio negative (base = 10) ((Ratio.ofNat significand).scale base e) := by
  have hb : 2 ≤ base := by
    obtain ⟨sign, body, -, -, hbody⟩ := hs
    cases hbody <;> norm_num
  refine ⟨hb, ?_⟩
  rw [← Format.ofScaled_eq hf hb]
  simp only [read, Literal.ofBytes?_eq_some_iff.2 hs, ofLiteral]

/-- A numeral is read as its exact value is to be converted, in one rounding to the format, unless an
extra bit is dropped: then the value without that bit is read, and nothing is out of range. A zero keeps
its sign whatever its exponent, and a numeral that a number of the format is equal to is read as that
number. -/
theorem read_converts_iff (f : Format) (hf : f.Proper) (s : Bytes) (negative : Bool) (base significand : ℕ) (e : ℤ)
    (hs : Literal.Spells s ⟨negative, .finite base significand e⟩) :
    let q : ℚ := significand * base ^ e
    (f.Converts negative q (read f s) ↔ ¬ ∃ p, f.DropsBit (base = 10) q p) ∧
    (∀ p, f.DropsBit (base = 10) q p →
      ∃ y, read f s = .ok y ∧ y.negative = negative ∧ y.isFinite = true ∧ y.toRat = signed negative p) ∧
    (significand = 0 → read f s = .ok (.zero negative)) ∧
    ∀ y : Binary f, y.isFinite = true → y.negative = negative → y.toRat = signed negative q → read f s = .ok y := by
  intro q
  obtain ⟨hb, hread⟩ := read_of_spells hf hs
  rw [hread]
  rcases Nat.eq_zero_or_pos significand with rfl | hpos
  · have hq : q = 0 := by simp [q]
    have hdrop : ∀ p, ¬ f.DropsBit (base = 10) q p := by
      rintro p ⟨n, k, hx, -⟩
      exact absurd hq hx.log.1.ne'
    rw [Format.ofRatio_zero, hq]
    refine ⟨iff_of_true (Format.Converts.zero hf negative) ?_, ?_, fun _ => rfl, fun y hy => ?_⟩
    · rintro ⟨p, hp⟩; exact hdrop p (hq ▸ hp)
    · intro p hp; exact absurd (hq ▸ hp) (hdrop p)
    · exact (Format.Converts.zero hf negative).eq_ok f.not_overflows_zero hy
  · obtain ⟨hn, hd, hq⟩ := Format.scale_ofNat hb hpos e
    have hq0 := Ratio.toRat_pos hn hd
    rw [show q = _ from hq.symm]
    refine ⟨Format.ofRatio_converts_iff hf hn hd, fun p hp => Format.ofRatio_of_dropsBit negative hf hn hd hp,
      fun h0 => absurd h0 hpos.ne', fun y hy hsign hval => ?_⟩
    have hcode : f.codeValue y.code = ((Ratio.ofNat significand).scale base e).toRat := by
      rw [← abs_toRat, hval, abs_signed, abs_of_pos hq0]
    have hover := Format.not_overflows_of_codeValue hf hn hd hcode (y.isFinite_iff.1 hy)
    refine (Format.ofRatio_converts hf hn hd ?_).eq_ok hover hy hsign hval
    rintro ⟨p, n, k, hx, -⟩
    exact hx.codeValue_ne _ hcode

theorem dropsBit_single : Format.single.DropsBit false ((16777217 : ℕ) * (2 : ℕ) ^ (-151 : ℤ)) (2 ^ (-127 : ℤ)) := by
  have hnormal : Format.single.normalExponent = -126 := by decide
  have hleast : Format.single.leastExponent = -149 := by decide
  refine ⟨8388608, -151, ⟨by decide, by decide, by norm_num, ?_, by simp⟩, ?_, 4194304, ?_⟩
  · rw [hnormal]; norm_num
  · rw [Format.toRat_cut]; norm_num
  · rw [hleast]; norm_num

/-- Half of the least normal number and one bit more than full precision: out of range, but delivered. -/
theorem read_extra_bit_not_converts :
    Literal.Spells (Ascii.text "0x1.000001p-127".toList) ⟨false, .finite 2 16777217 (-151)⟩ ∧
    read .single (Ascii.text "0x1.000001p-127".toList) = .ok ⟨0x00400000⟩ ∧
    ¬ Format.single.Converts false ((16777217 : ℕ) * (2 : ℕ) ^ (-151 : ℤ))
      (read .single (Ascii.text "0x1.000001p-127".toList)) := by
  have hs : Literal.Spells (Ascii.text "0x1.000001p-127".toList) ⟨false, .finite 2 16777217 (-151)⟩ :=
    Literal.ofBytes?_eq_some_iff.1 (by decide)
  have hq : ((16777217 : ℕ) * (2 : ℕ) ^ (-151 : ℤ) : ℚ) = ((Ratio.ofNat 16777217).scale 2 (-151)).toRat := by
    rw [Ratio.toRat_scale _ two_pos, Ratio.toRat_ofNat]
  have hdrop := dropsBit_single
  refine ⟨hs, by decide +kernel, ?_⟩
  rw [(read_of_spells Format.proper_single hs).2, hq,
    Format.ofRatio_converts_iff Format.proper_single (by decide) (by decide), not_not]
  rw [hq] at hdrop
  exact ⟨_, hdrop⟩

/-- The lost bit again, a negative zero, and the least number of the 64-bit format, which is exact. -/
theorem read_extra_bit_and_exact :
    (∃ y : Binary .single, read .single (Ascii.text "0x1.000001p-127".toList) = .ok y ∧ y.negative = false ∧
      y.isFinite = true ∧ y.toRat = 2 ^ (-127 : ℤ)) ∧
    read .double (Ascii.text "-0e999".toList) = .ok (.zero true) ∧
    read .double (Ascii.text "0x.8p-1073".toList) = .ok ⟨1⟩ := by
  have h₁ := read_converts_iff .single Format.proper_single (Ascii.text "0x1.000001p-127".toList) false
    2 16777217 (-151) (Literal.ofBytes?_eq_some_iff.1 (by decide))
  have h₂ := read_converts_iff .double Format.proper_double (Ascii.text "-0e999".toList) true 10 0 999
    (Literal.ofBytes?_eq_some_iff.1 (by decide))
  have h₃ := read_converts_iff .double Format.proper_double (Ascii.text "0x.8p-1073".toList) false 2 8 (-1077)
    (Literal.ofBytes?_eq_some_iff.1 (by decide))
  refine ⟨h₁.2.1 _ dropsBit_single, h₂.2.2.1 rfl, h₃.2.2.2 _ (by decide) (by decide) ?_⟩
  have hsig : (⟨1⟩ : Binary .double).significand = 1 := by decide
  have hexp : (⟨1⟩ : Binary .double).exponent = 3 + -1077 := by decide
  have hneg : (⟨1⟩ : Binary .double).negative = false := by decide
  rw [toRat, hsig, hexp, hneg, zpow_add₀ two_ne_zero]
  norm_num [signed]

end Binary

end Groundwork
