import Groundwork.Proofs.Binary.Reading
import Groundwork.Proofs.Binary.Separation
import Groundwork.Proofs.Binary.Text

/-!
# Written numbers are read back

Both styles write literals (`IsFixed.isMagnitude`, `IsScientific.isMagnitude`), whose value is a rounding
of the number in a decimal place. Where that place is at most `10 ^ -m` of the number and `10 ^ m` exceeds
a full significand, the value lies within half a gap of the number (`IsRounded.near`), and is read as that
number again: `10 ^ 16` does for 64 bits and `10 ^ 8` for 32.
-/

namespace Groundwork

/-! ### ASCII text in a string -/

/-- Only ASCII bytes: as a string it is encoded by the same bytes. -/
def Ascii.IsPlain (s : Bytes) : Prop := ∀ b ∈ s, b.toNat < 128

theorem Ascii.toUTF8_toString {s : Bytes} (h : Ascii.IsPlain s) : (Ascii.toString s).toUTF8.data.toList = s := by
  show ((s.map fun b => Char.ofNat b.toNat).flatMap String.utf8EncodeChar).toByteArray.data.toList = s
  rw [List.data_toByteArray]
  show (s.map fun b => Char.ofNat b.toNat).flatMap String.utf8EncodeChar = s
  induction s with
  | nil => rfl
  | cons b s ih =>
    obtain ⟨hb, hs⟩ := List.forall_mem_cons.1 h
    have hval : (Char.ofNat b.toNat).val.toNat = b.toNat := by
      have hvalid : b.toNat.isValidChar := .inl (by omega)
      rw [Char.ofNat, dif_pos hvalid]
      rfl
    have hsize : (Char.ofNat b.toNat).utf8Size = 1 := by
      rw [Char.utf8Size_eq_one_iff, UInt32.le_iff_toNat_le, hval]
      exact Nat.le_of_lt_succ hb
    have hbyte : (Char.ofNat b.toNat).val.toUInt8 = b := by
      rw [← UInt8.toNat_inj, UInt32.toNat_toUInt8, hval]
      omega
    rw [List.map_cons, List.flatMap_cons, ih hs, String.utf8EncodeChar_eq_singleton hsize, hbyte]
    rfl

section

variable {s t : Bytes} {ds es : List ℕ} {p n : ℕ} {k : ℤ}

theorem Numeral.Digits.isPlain {base : ℕ} (h : Numeral.Digits base s ds) : Ascii.IsPlain s := by
  intro b hb
  obtain ⟨d, hd⟩ := h.exists_of_mem hb
  have := hd.2
  omega

theorem Ascii.IsPlain.append (hs : Ascii.IsPlain s) (ht : Ascii.IsPlain t) : Ascii.IsPlain (s ++ t) :=
  List.forall_mem_append.2 ⟨hs, ht⟩

theorem Ascii.IsPlain.cons {b : UInt8} (hb : b.toNat < 128) (hs : Ascii.IsPlain s) : Ascii.IsPlain (b :: s) :=
  List.forall_mem_cons.2 ⟨hb, hs⟩

theorem IsPointed.isPlain (h : IsPointed s ds es) : Ascii.IsPlain s := by
  cases h with
  | whole hds => exact hds.isPlain
  | point hds hes _ => exact hds.isPlain.append (hes.isPlain.cons (by decide))

theorem IsExponentPart.isPlain (h : IsExponentPart s k) : Ascii.IsPlain s := by
  obtain ⟨t, ds, rfl, ht, -⟩ := h
  refine .cons (by decide) (.cons ?_ ht.isPlain)
  split_ifs <;> decide

/-! ### The written forms are literals -/

theorem IsPointed.isNumeral (h : IsPointed s ds es) (hds : ds ≠ []) : IsNumeral 10 s ds es := by
  cases h with
  | whole h => exact .whole h hds
  | point h h' _ => exact .point h h' (by simp [hds])

theorem IsExponentPart.isExponent (h : IsExponentPart s k) : IsExponent 'e' s k := by
  obtain ⟨t, ds, rfl, ht, hlen, -, hval⟩ := h
  have hne : ds ≠ [] := by rintro rfl; simp at hlen
  have hmark : IsWord ['e'] ['e'.toUInt8] := isWord_singleton.2 (.inl rfl)
  by_cases hk : k < 0
  · have h := IsExponent.present hmark .minus ht hne
    have habs : -(k.natAbs : ℤ) = k := by omega
    rw [hval, if_pos rfl, habs] at h
    rw [if_pos hk]
    exact h
  · have h := IsExponent.present hmark .plus ht hne
    have habs : (k.natAbs : ℤ) = k := by omega
    rw [hval, if_neg Bool.false_ne_true, habs] at h
    rw [if_neg hk]
    exact h

theorem IsFixed.isMagnitude (h : IsFixed s p n) : IsMagnitude s (.finite 10 n (-p)) ∧ Ascii.IsPlain s := by
  obtain ⟨ds, es, hs, rfl, hne, -, rfl⟩ := h
  have h := IsMagnitude.decimal (hs.isNumeral hne) .absent
  rw [List.append_nil, zero_sub] at h
  exact ⟨h, hs.isPlain⟩

theorem IsScientific.isMagnitude (h : IsScientific s p n k) : IsMagnitude s (.finite 10 n (k - p)) ∧ Ascii.IsPlain s := by
  obtain ⟨t, u, d, es, rfl, ht, rfl, -, rfl, hu⟩ := h
  exact ⟨.decimal (ht.isNumeral (List.cons_ne_nil _ _)) hu.isExponent, ht.isPlain.append hu.isPlain⟩

end

/-! ### The error of a decimal place -/

section

variable {q : ℚ} {m n p : ℕ} {e k : ℤ}

/-- Half a unit in a place that is at most `10 ^ -m` of the number. -/
theorem IsRounded.near (h : IsRounded (q / 10 ^ e) n) (hm : (10 : ℚ) ^ (m + e) ≤ q) :
    10 ^ m * (2 * |q - n * 10 ^ e|) ≤ q := by
  have hpos : (0 : ℚ) < 10 ^ e := zpow_pos (by norm_num) e
  have herr : |q - n * 10 ^ e| ≤ 1 / 2 * 10 ^ e := by
    calc |q - n * 10 ^ e| = |q / 10 ^ e - n| * 10 ^ e := by
          rw [← abs_of_pos hpos, ← abs_mul, abs_of_pos hpos, sub_mul, div_mul_cancel₀ _ hpos.ne']
      _ ≤ 1 / 2 * 10 ^ e := by gcongr; exact h.1
  calc (10 : ℚ) ^ m * (2 * |q - n * 10 ^ e|) ≤ 10 ^ m * (2 * (1 / 2 * 10 ^ e)) := by gcongr
    _ = 10 ^ (m + e) := by rw [zpow_add₀ (by norm_num), zpow_natCast]; ring
    _ ≤ q := hm

/-- A carry to the next power of ten keeps the value that the digits were rounded to. -/
theorem IsSignificant.exists_isRounded (hq : 0 < q) (h : IsSignificant q p n k) :
    ∃ r : ℕ, IsRounded (q / 10 ^ (Int.log 10 q - p)) r ∧ (n : ℚ) * 10 ^ (k - p) = r * 10 ^ (Int.log 10 q - p) := by
  obtain ⟨h0, -⟩ | ⟨-, -, r, hr, ⟨-, rfl, rfl⟩ | ⟨rfl, rfl, rfl⟩⟩ := h
  · exact absurd h0 hq.ne'
  · exact ⟨_, hr, rfl⟩
  · refine ⟨_, hr, ?_⟩
    have he : Int.log 10 q + 1 - p = (Int.log 10 q - p) + 1 := by ring
    rw [he, zpow_add_one₀ (by norm_num)]
    push_cast
    ring

end

namespace Binary

variable {f : Format} {s : Bytes} {n m p : ℕ} {e : ℤ}

/-! ### Reading a near value -/

theorem ofCode_eq {y : Binary f} {c : ℕ} (hc : c < 2 ^ f.codeBits) (hy : y.code = c) : ofCode y.negative c = y :=
  eq_of_code_eq (negative_ofCode hc) ((code_ofCode hc).trans hy.symm)

theorem abs_toRat_pos {y : Binary f} (hy : y.isNormal = true) : 0 < |y.toRat| := by
  have hnormal : 2 ^ f.fractionBits ≤ y.code := of_decide_eq_true (Bool.and_eq_true_iff.1 hy).1
  rw [abs_toRat, ← f.codeValue_zero]
  exact f.codeValue_strictMono ((Nat.two_pow_pos _).trans_le hnormal)

theorem read_of_near (hf : f.Proper) {y : Binary f} (hy : y.isNormal = true) (hm : 2 ^ (f.fractionBits + 1) < 10 ^ m)
    (hs : Literal.Spells s ⟨y.negative, .finite 10 n e⟩) {q : ℚ} (hq : |y.toRat| = q)
    (hnear : 10 ^ m * (2 * |q - n * 10 ^ e|) ≤ q) : read f s = .ok y := by
  have hq0 : 0 < q := hq ▸ abs_toRat_pos hy
  obtain ⟨hnormal, hfinite⟩ := Bool.and_eq_true_iff.1 hy
  have hnormal : 2 ^ f.fractionBits ≤ y.code := of_decide_eq_true hnormal
  have hfinite := y.isFinite_iff.1 hfinite
  rw [abs_toRat] at hq
  have hnear : 2 ^ (f.fractionBits + 2) * |q - n * 10 ^ e| < q := by
    have hm : (2 : ℚ) ^ (f.fractionBits + 1) < 10 ^ m := by exact_mod_cast hm
    rw [pow_succ, mul_assoc]
    rcases (abs_nonneg (q - n * 10 ^ e)).eq_or_lt with h0 | hpos
    · rw [← h0]; simpa using hq0
    · exact lt_of_lt_of_le (by gcongr) hnear
  have hn : 0 < n := by
    rcases Nat.eq_zero_or_pos n with rfl | hn
    · rw [Nat.cast_zero, zero_mul, sub_zero, abs_of_pos hq0] at hnear
      have hone : (1 : ℚ) ≤ 2 ^ (f.fractionBits + 2) := one_le_pow₀ one_le_two
      exact absurd hnear (not_lt.2 (le_mul_of_one_le_left hq0.le hone))
    · exact hn
  obtain ⟨hnum, hden, hval⟩ := Format.scale_ofNat (show 2 ≤ 10 by norm_num) hn e
  rw [Nat.cast_ofNat] at hval
  rw [← hval, ← hq] at hnear
  rw [(read_of_spells hf hs).2, Format.ofRatio_of_near hf hnum hden hnormal hfinite hnear]
  exact congrArg Except.ok (ofCode_eq (hfinite.trans f.infinityCode_lt) rfl)

theorem read_of_zero (hf : f.Proper) {y : Binary f} (hy : y.code = 0)
    (hs : Literal.Spells s ⟨y.negative, .finite 10 0 e⟩) : read f s = .ok y := by
  rw [(read_of_spells hf hs).2, Format.ofRatio_zero]
  exact congrArg Except.ok (ofCode_eq (Nat.two_pow_pos f.codeBits) hy)

theorem read_of_infinity {y : Binary f} (hy : y.isInfinite = true) (hs : Literal.Spells s ⟨y.negative, .infinity⟩) :
    read f s = .ok y := by
  have hread : read f s = .ok (infinity y.negative) := by
    simp only [read, Literal.ofBytes?_eq_some_iff.2 hs, ofLiteral]
  rw [hread]
  exact congrArg Except.ok (ofCode_eq f.infinityCode_lt (y.isInfinite_iff.1 hy))

/-! ### Reading what was written -/

/-- A text of `q` in this style and with this precision ends in a place of at most `10 ^ -m` of `q`. -/
def Resolves (style : Style) (p m : ℕ) (q : ℚ) : Prop :=
  style = .exponent ∧ m ≤ p ∨ style = .fixed ∧ (10 : ℚ) ^ ((m : ℤ) - p) ≤ q

/-- A finite number is written as a decimal numeral, zero for zero and near it for any other. -/
theorem magnitudeText_spells {x : Binary .double} (hx : x.isFinite = true) {q : ℚ} (hq : |x.toRat| = q)
    (style : Style) (p : ℕ) :
    ∃ n e, IsMagnitude (x.magnitudeText style p) (.finite 10 n e) ∧ Ascii.IsPlain (x.magnitudeText style p) ∧
      (q = 0 → n = 0) ∧ ∀ m, 0 < q → Resolves style p m q → 10 ^ m * (2 * |q - n * 10 ^ e|) ≤ q := by
  obtain ⟨hden, hmag⟩ := magnitude_spec x
  rw [hq] at hmag
  obtain ⟨hfixed, hexponent⟩ := magnitudeText_of_isFinite hx p
  cases style with
  | fixed =>
    obtain ⟨n, hn, hbody⟩ := Style.fixedText_spec hden p
    obtain ⟨hbody, hplain⟩ := hbody.isMagnitude
    have hpow : (10 : ℚ) ^ (-p : ℤ) = (10 ^ p)⁻¹ := by rw [zpow_neg, zpow_natCast]
    rw [hfixed]
    rw [hmag] at hn
    refine ⟨n, -p, hbody, hplain, ?_, fun m _ hm => ?_⟩
    · rintro rfl
      rw [zero_mul] at hn
      exact hn.eq (.natCast 0)
    · obtain ⟨hstyle, -⟩ | ⟨-, hm⟩ := hm
      · cases hstyle
      · refine IsRounded.near ?_ hm
        rwa [hpow, div_inv_eq_mul]
  | exponent =>
    obtain ⟨n, k, hn, hbody⟩ := Style.scientificText_spec hden p
    obtain ⟨hbody, hplain⟩ := hbody.isMagnitude
    rw [hexponent]
    rw [hmag] at hn
    refine ⟨n, k - p, hbody, hplain, ?_, fun m hpos hm => ?_⟩
    · rintro rfl
      obtain ⟨-, h, -⟩ | ⟨h, -⟩ := hn
      · exact h
      · exact absurd h (lt_irrefl 0)
    · obtain ⟨-, hm⟩ | ⟨hstyle, -⟩ := hm
      · obtain ⟨r, hr, hval⟩ := hn.exists_isRounded hpos
        rw [hval]
        refine hr.near ((zpow_le_zpow_right₀ (by norm_num) ?_).trans (Int.zpow_log_le_self (b := 10) (by norm_num) hpos))
        omega
      · cases hstyle

/-- Zeros and infinities, and the normal numbers that a text with this precision resolves. -/
def IsCarried (m : ℕ) (style : Style) (p : ℕ) (y : Binary f) : Prop :=
  y.code = 0 ∨ y.isInfinite = true ∨ y.isNormal = true ∧ Resolves style p m |y.toRat|

theorem isSign_minus (x : Binary f) : IsSign x.minus x.negative ∧ Ascii.IsPlain x.minus := by
  unfold minus
  cases x.negative
  · exact ⟨.absent, by simp [Ascii.IsPlain]⟩
  · exact ⟨.minus, List.forall_mem_singleton.2 (by decide)⟩

/-- The text of a 64-bit number `x` is read as the number of any format that has its sign, kind and value. -/
theorem read_write (hf : f.Proper) (hm : 2 ^ (f.fractionBits + 1) < 10 ^ m) {x : Binary .double} {y : Binary f}
    (hsign : x.negative = y.negative) (hinf : y.isInfinite = true → x.isInfinite = true)
    (hfin : y.isFinite = true → x.isFinite = true ∧ x.toRat = y.toRat) (style : Style) (precision : Option ℕ)
    (hy : y.IsCarried m style (precision.getD 6)) :
    read f (x.write style precision) = .ok y ∧ Ascii.IsPlain (x.write style precision) := by
  obtain ⟨hminus, hplain⟩ := isSign_minus x
  rw [hsign] at hminus
  rw [write_eq]
  by_cases hkind : y.isInfinite = true
  · have hnan : ¬ x.isNaN = true := by rw [isNaN_iff, x.isInfinite_iff.1 (hinf hkind)]; omega
    have htext : x.magnitudeText style (precision.getD 6) = Ascii.text ['i', 'n', 'f'] := by
      unfold magnitudeText
      rw [if_neg hnan, if_pos (hinf hkind)]
    have hword : Ascii.IsPlain (Ascii.text ['i', 'n', 'f']) := by
      intro b hb
      simp only [Ascii.text, List.map_cons, List.map_nil, List.mem_cons, List.not_mem_nil, or_false] at hb
      rcases hb with rfl | rfl | rfl <;> decide
    rw [htext]
    exact ⟨read_of_infinity hkind ⟨_, _, rfl, hminus, .inf (by decide)⟩, hplain.append hword⟩
  · have hyfin : y.isFinite = true := by
      obtain h | h | ⟨h, -⟩ := hy
      · rw [isFinite_iff, h]
        exact (Nat.zero_le _).trans_lt ((isFinite_iff _).1 (Format.isFinite_zero hf false))
      · exact absurd h hkind
      · exact (Bool.and_eq_true_iff.1 h).2
    obtain ⟨hxfin, hval⟩ := hfin hyfin
    obtain ⟨n, e, hbody, hbodyplain, hzero, hnear⟩ :=
      magnitudeText_spells hxfin (congrArg abs hval) style (precision.getD 6)
    refine ⟨?_, hplain.append hbodyplain⟩
    have hspells : Literal.Spells (x.minus ++ x.magnitudeText style (precision.getD 6)) ⟨y.negative, .finite 10 n e⟩ :=
      ⟨_, _, rfl, hminus, hbody⟩
    obtain h | h | ⟨h, hres⟩ := hy
    · rw [hzero (by rw [abs_toRat, h, f.codeValue_zero])] at hspells
      exact read_of_zero hf h hspells
    · exact absurd h hkind
    · exact read_of_near hf h hm hspells rfl (hnear m (abs_toRat_pos h) hres)

theorem readString_toString (h : Ascii.IsPlain s) : readString f (Ascii.toString s) = read f s := by
  rw [readString_eq, Ascii.toUTF8_toString h]

/-- Zeros and infinities are carried by every text, and normal numbers by a text of 17 significant digits,
or of 9 for 32 bits, or that goes down to a place as far below their first: each is read as the number that
was written, sign included. -/
theorem read_write_eq_ok (style : Style) (precision : Option ℕ) :
    (∀ x : Binary .double, x.IsCarried 16 style (precision.getD 6) →
      read .double (x.write style precision) = .ok x ∧
      readString .double (Ascii.toString (x.write style precision)) = .ok x) ∧
    ∀ y : Binary .single, y.IsCarried 8 style (precision.getD 6) →
      read .single (y.writeSingle style precision) = .ok y ∧
      readString .single (Ascii.toString (y.writeSingle style precision)) = .ok y := by
  constructor
  · intro x hx
    obtain ⟨hread, hplain⟩ := read_write Format.proper_double (by decide) rfl id (fun h => ⟨h, rfl⟩) style precision hx
    exact ⟨hread, (readString_toString hplain).trans hread⟩
  · intro y hy
    obtain ⟨hsign, -, hinf, hfin⟩ := widen_spec y
    obtain ⟨hread, hplain⟩ := read_write Format.proper_single (by decide) hsign hinf hfin style precision hy
    exact ⟨hread, (readString_toString hplain).trans hread⟩

/-- Minus zero, minus infinity, a power of two, and the ends of the normal range of 32 bits, where the text of
the least number lies below it and that of the largest above it. -/
theorem read_write_eq_ok_ends :
    read .double ((zero true : Binary .double).write .fixed (some 0)) = .ok (zero true) ∧
    read .single ((infinity true : Binary .single).writeSingle .exponent none) = .ok (infinity true) ∧
    read .double ((⟨0x4210000000000000⟩ : Binary .double).write .fixed none) = .ok ⟨0x4210000000000000⟩ ∧
    read .single ((⟨0x00800000⟩ : Binary .single).writeSingle .exponent (some 8)) = .ok ⟨0x00800000⟩ ∧
    readString .single (Ascii.toString ((⟨0x7f7fffff⟩ : Binary .single).writeSingle .exponent (some 8))) =
      .ok ⟨0x7f7fffff⟩ := by
  have hpower : (⟨0x4210000000000000⟩ : Binary .double).IsCarried 16 .fixed 6 := by
    have hsig : (⟨0x4210000000000000⟩ : Binary .double).significand = 2 ^ 52 := by decide
    have hexp : (⟨0x4210000000000000⟩ : Binary .double).exponent = -18 := by decide
    have hneg : (⟨0x4210000000000000⟩ : Binary .double).negative = false := by decide
    refine .inr (.inr ⟨by decide, .inr ⟨rfl, ?_⟩⟩)
    rw [toRat, hsig, hexp, hneg]
    norm_num [signed]
  have hnormal : ∀ y : Binary .single, y.isNormal = true → y.IsCarried 8 .exponent 8 :=
    fun y hy => .inr (.inr ⟨hy, .inl ⟨rfl, le_rfl⟩⟩)
  exact ⟨((read_write_eq_ok .fixed (some 0)).1 _ (.inl (by decide))).1,
    ((read_write_eq_ok .exponent none).2 _ (.inr (.inl (by decide)))).1,
    ((read_write_eq_ok .fixed none).1 _ hpower).1,
    ((read_write_eq_ok .exponent (some 8)).2 _ (hnormal _ (by decide))).1,
    ((read_write_eq_ok .exponent (some 8)).2 _ (hnormal _ (by decide))).2⟩

end Binary

end Groundwork
