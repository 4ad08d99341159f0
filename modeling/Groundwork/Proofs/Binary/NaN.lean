import Groundwork.Proofs.Binary.RoundTrip

/-!
# Infinities and NaNs

An infinity is read from each of its spellings. The word of a NaN counts if it is an integer literal
(`IsInteger`), and its value is cut to the bits below the quiet bit. The digits that the word starts with
are the longest literal it starts with, so they bound the value of every other one (`IsInteger.leading`), and
they are all that a number beyond 64 bits depends on: such a word is out of range, whatever follows the
digits. A written NaN has no word.
-/

namespace Groundwork

-- Powers are those of the core library, whatever else is in scope.
attribute [local instance (high)] instPowNat

namespace Numeral

variable {base : ℕ} {s t : Bytes} {ds : List ℕ}

theorem spanDigits_of_digits (h : Digits base s ds) (t : Bytes) :
    spanDigits base (s ++ t) = (ds ++ (spanDigits base t).1, (spanDigits base t).2) := by
  induction h with
  | nil => rfl
  | cons hd _ ih => simp [spanDigits, digitOf?_eq_some_iff.2 hd, ih]

theorem IsDigit.eq_zero_iff {b : UInt8} {d : ℕ} (h : IsDigit base b d) : d = 0 ↔ b = '0'.toUInt8 := by
  have hzero : '0'.toUInt8.toNat = 48 := rfl
  have hdigit := h.2
  rw [← UInt8.toNat_inj, hzero]
  omega

theorem ofDigits_le_append (hb : 0 < base) (ds es : List ℕ) :
    Nat.ofDigits base ds.reverse ≤ Nat.ofDigits base (ds ++ es).reverse := by
  rw [List.reverse_append, Nat.ofDigits_append]
  have hpos : 0 < base ^ es.reverse.length := Nat.pow_pos hb
  exact (Nat.le_mul_of_pos_left _ hpos).trans (Nat.le_add_left _ _)

theorem ofDigits_zero_cons (base : ℕ) (ds : List ℕ) :
    Nat.ofDigits base (0 :: ds).reverse = Nat.ofDigits base ds.reverse := by
  rw [List.reverse_cons, Nat.ofDigits_append_zero]

end Numeral

/-- The texts of an integer literal and their values: digits of base ten that do not start with a zero, octal ones
after a zero, and hexadecimal ones after `0x`. -/
inductive IsInteger : Bytes → ℕ → Prop
  | decimal {s d ds} : Numeral.Digits 10 s (d :: ds) → d ≠ 0 → IsInteger s (Nat.ofDigits 10 (d :: ds).reverse)
  | octal {s ds} : Numeral.Digits 8 s ds → IsInteger ('0'.toUInt8 :: s) (Nat.ofDigits 8 ds.reverse)
  | hexadecimal {x s ds} : IsWord ['0', 'x'] x → Numeral.Digits 16 s ds → ds ≠ [] →
      IsInteger (x ++ s) (Nat.ofDigits 16 ds.reverse)

/-- The text starts with a number that 64 bits do not hold. -/
def StartsBeyond (word : Bytes) : Prop := ∃ start rest n, word = start ++ rest ∧ IsInteger start n ∧ 2 ^ 64 ≤ n

namespace Literal

variable {word s t : Bytes} {n : ℕ}

/-- The number that a word starts with, zero where there is none, and what follows its digits. -/
def leading (word : Bytes) : ℕ × Bytes :=
  let digits := Numeral.spanDigits (integerBase word).1 (integerBase word).2
  (Nat.ofDigits (integerBase word).1 digits.1.reverse, digits.2)

theorem payload_eq (word : Bytes) : payload word =
    if 2 ^ 64 ≤ (leading word).1 then .error .outOfRange
    else .ok (if (leading word).2 = [] then (leading word).1 else 0) := by
  simp only [payload, leading, Numeral.value_eq_ofDigits]
  rfl

/-! ### The announced base -/

theorem integerBase_hexadecimal (h : IsWord ['0', 'x'] s) (t : Bytes) : integerBase (s ++ t) = (16, t) := by
  have hlen : s.length = 2 := h.length_eq.symm
  have hword : Ascii.spells ['0', 'x'] ((s ++ t).take 2) = true := by
    rw [← hlen, List.take_left]
    exact (Ascii.spells_iff (by decide) s).2 h
  rw [integerBase, if_pos hword, ← hlen, List.drop_left]

theorem integerBase_of_not_hexadecimal (h : ¬ IsWord ['0', 'x'] (word.take 2)) :
    integerBase word = (if word.take 1 = ['0'.toUInt8] then 8 else 10, word) := by
  have hword : ¬ Ascii.spells ['0', 'x'] (word.take 2) = true := fun hw => h ((Ascii.spells_iff (by decide) _).1 hw)
  rw [integerBase, if_neg hword]
  split <;> rfl

/-! ### Literals and the digits that a word starts with -/

theorem leading_cases (word : Bytes) :
    (leading word).1 = 0 ∨ ∃ start, word = start ++ (leading word).2 ∧ IsInteger start (leading word).1 := by
  by_cases hhex : IsWord ['0', 'x'] (word.take 2)
  · have hbase := integerBase_hexadecimal hhex (word.drop 2)
    rw [List.take_append_drop] at hbase
    rw [leading, hbase]
    obtain ⟨s, hs, hds⟩ := Numeral.exists_spanDigits 16 (word.drop 2)
    by_cases hne : (Numeral.spanDigits 16 (word.drop 2)).1 = []
    · exact .inl (by rw [hne]; rfl)
    · refine .inr ⟨word.take 2 ++ s, ?_, .hexadecimal hhex hds hne⟩
      rw [List.append_assoc, ← hs, List.take_append_drop]
  · obtain ⟨base, hbase⟩ : ∃ base, (if word.take 1 = ['0'.toUInt8] then 8 else 10) = base := ⟨_, rfl⟩
    rw [leading, integerBase_of_not_hexadecimal hhex, hbase]
    obtain ⟨s, hs, hds⟩ := Numeral.exists_spanDigits base word
    generalize Numeral.spanDigits base word = span at hs hds ⊢
    obtain ⟨ds, rest⟩ := span
    cases hds with
    | nil => exact .inl rfl
    | @cons b d s ds hd hds =>
      refine .inr ⟨b :: s, hs, ?_⟩
      rw [hs, List.cons_append, List.take_succ_cons, List.take_zero] at hbase
      by_cases hzero : b = '0'.toUInt8
      · obtain rfl : 8 = base := by rw [← hbase, hzero, if_pos rfl]
        obtain rfl := hd.eq_zero_iff.2 hzero
        rw [hzero, Numeral.ofDigits_zero_cons]
        exact .octal hds
      · obtain rfl : 10 = base := by rw [← hbase, if_neg (by simpa using hzero)]
        exact .decimal (.cons hd hds) (mt hd.eq_zero_iff.1 hzero)

end Literal

namespace IsInteger

variable {s t : Bytes} {n : ℕ}

theorem leading_of_digits {word : Bytes} {base : ℕ} {ds : List ℕ} (hbase : Literal.integerBase word = (base, s ++ t))
    (hpos : 0 < base) (hds : Numeral.Digits base s ds) :
    Nat.ofDigits base ds.reverse ≤ (Literal.leading word).1 ∧
      (t = [] → Literal.leading word = (Nat.ofDigits base ds.reverse, [])) := by
  rw [Literal.leading, hbase, Numeral.spanDigits_of_digits hds]
  refine ⟨Numeral.ofDigits_le_append hpos _ _, ?_⟩
  rintro rfl
  simp only [Numeral.spanDigits, List.append_nil]

/-- A literal at the start of a word is at most the number that the word starts with, and is that number if
nothing follows it. -/
theorem leading (h : IsInteger s n) (t : Bytes) :
    n ≤ (Literal.leading (s ++ t)).1 ∧ (t = [] → Literal.leading (s ++ t) = (n, [])) := by
  cases h with
  | @decimal s d ds hds hne =>
    refine leading_of_digits ?_ (by norm_num) hds
    obtain _ | @⟨b, _, s, _, hd, -⟩ := hds
    have hb : b ≠ '0'.toUInt8 := mt hd.eq_zero_iff.2 hne
    have hhex : ¬ IsWord ['0', 'x'] ((b :: s ++ t).take 2) := by
      rintro (_ | ⟨hzero, -⟩)
      exact hb (hzero.elim id id)
    rw [Literal.integerBase_of_not_hexadecimal hhex, List.cons_append, List.take_succ_cons, List.take_zero,
      if_neg (by simpa using hb)]
  | @octal s ds hds =>
    have hzero : Numeral.Digits 8 ('0'.toUInt8 :: s) (0 :: ds) :=
      .cons (Numeral.digitOf?_eq_some_iff.1 (by rfl)) hds
    rw [← Numeral.ofDigits_zero_cons]
    by_cases hhex : IsWord ['0', 'x'] (('0'.toUInt8 :: s ++ t).take 2)
    · cases hds with
      | nil =>
        -- The zero of `0x` is a literal by itself, of no value.
        refine ⟨Nat.zero_le _, ?_⟩
        rintro rfl
        exact absurd hhex.length_eq (by decide)
      | cons hd _ =>
        rcases isWord_singleton.1 (List.forall₂_cons.1 hhex).2 with rfl | rfl
        all_goals exact absurd hd (Numeral.not_isDigit (by rfl))
    · refine leading_of_digits ?_ (by norm_num) hzero
      rw [Literal.integerBase_of_not_hexadecimal hhex]
      rfl
  | @hexadecimal x s ds hx hds hne =>
    refine leading_of_digits ?_ (by norm_num) hds
    rw [List.append_assoc, Literal.integerBase_hexadecimal hx]

theorem leading_eq (h : IsInteger s n) : Literal.leading s = (n, []) := by
  simpa using (h.leading []).2 rfl

theorem rest_eq_nil (h : IsInteger s n) : (Literal.leading s).2 = [] := congrArg Prod.snd h.leading_eq

end IsInteger

namespace Literal

variable {word : Bytes} {n : ℕ}

theorem le_leading_iff : 2 ^ 64 ≤ (leading word).1 ↔ StartsBeyond word := by
  constructor
  · intro h
    obtain hzero | ⟨start, hword, hstart⟩ := leading_cases word
    · rw [hzero] at h
      exact absurd h (by norm_num)
    · exact ⟨start, _, _, hword, hstart, h⟩
  · rintro ⟨start, rest, n, rfl, hstart, hn⟩
    exact hn.trans (hstart.leading rest).1

instance (word : Bytes) : Decidable (StartsBeyond word) := decidable_of_iff _ le_leading_iff

theorem payload_eq_error_iff : payload word = .error .outOfRange ↔ StartsBeyond word := by
  rw [payload_eq, ← le_leading_iff]
  split <;> simp_all

theorem payload_of_isInteger (h : IsInteger word n) (hsmall : ¬ StartsBeyond word) : payload word = .ok n := by
  rw [payload_eq, if_neg (mt le_leading_iff.1 hsmall), h.leading_eq, if_pos rfl]

theorem payload_of_not_isInteger (h : ¬ ∃ n, IsInteger word n) (hsmall : ¬ StartsBeyond word) :
    payload word = .ok 0 := by
  rw [payload_eq, if_neg (mt le_leading_iff.1 hsmall)]
  split
  · rename_i hrest
    obtain hzero | ⟨start, hword, hstart⟩ := leading_cases word
    · rw [hzero]
    · rw [hrest, List.append_nil] at hword
      rw [← hword] at hstart
      exact absurd ⟨_, hstart⟩ h
  · rfl

end Literal

namespace Binary

variable {f : Format} {s word : Bytes} {negative : Bool} {n : ℕ}

/-- A NaN whose quiet bit is set, with its sign and the bits below that one. -/
structure IsQuiet (x : Binary f) (negative : Bool) (payload : ℕ) : Prop where
  isNaN : x.isNaN = true
  negative : x.negative = negative
  quiet : x.code / 2 ^ (f.fractionBits - 1) % 2 = 1
  payload : x.code % 2 ^ (f.fractionBits - 1) = payload

theorem isQuiet_quietNaN (hf : f.Proper) (negative : Bool) (n : ℕ) :
    (quietNaN negative n : Binary f).IsQuiet negative (n % 2 ^ (f.fractionBits - 1)) := by
  obtain ⟨hcode, hsign⟩ := quietNaN_fields hf negative n
  have hpos := Nat.two_pow_pos (f.fractionBits - 1)
  have hpayload := Nat.mod_lt n hpos
  have hcode : (quietNaN negative n : Binary f).code =
      2 ^ (f.fractionBits - 1) * (2 * (2 ^ f.exponentBits - 1) + 1) + n % 2 ^ (f.fractionBits - 1) := by
    have hinf : f.infinityCode = (2 ^ f.exponentBits - 1) * 2 ^ f.fractionBits := rfl
    have hhalf : 2 ^ f.fractionBits = 2 * 2 ^ (f.fractionBits - 1) := by
      rw [← pow_succ', Nat.sub_add_cancel hf.fraction]
    rw [hcode, hinf, hhalf]
    ring
  refine ⟨(isNaN_quietNaN hf negative n).1, hsign, ?_, ?_⟩
  · rw [hcode, Nat.mul_add_div hpos, Nat.div_eq_of_lt hpayload]
    omega
  · rw [hcode, Nat.mul_add_mod, Nat.mod_mod]

theorem read_of_nan (h : Literal.Spells s ⟨negative, .nan word⟩) :
    read f s = (Literal.payload word).map (quietNaN negative) := by
  simp only [read, Literal.ofBytes?_eq_some_iff.2 h, ofLiteral]

theorem read_of_nan_eq_error_iff (h : Literal.Spells s ⟨negative, .nan word⟩) :
    read f s = .error .outOfRange ↔ StartsBeyond word := by
  rw [read_of_nan h, ← Literal.payload_eq_error_iff]
  cases Literal.payload word <;> simp [Except.map]

theorem exists_read_of_nan (hf : f.Proper) (h : Literal.Spells s ⟨negative, .nan word⟩) (hsmall : ¬ StartsBeyond word) :
    ∃ y : Binary f, read f s = .ok y ∧
      (∀ n, IsInteger word n → y.IsQuiet negative (n % 2 ^ (f.fractionBits - 1))) ∧
      ((¬ ∃ n, IsInteger word n) → y.IsQuiet negative 0) := by
  rw [read_of_nan h]
  by_cases hword : ∃ n, IsInteger word n
  · obtain ⟨n, hn⟩ := hword
    have hpayload := Literal.payload_of_isInteger hn hsmall
    refine ⟨quietNaN negative n, by rw [hpayload]; rfl, fun m hm => ?_, fun hnone => absurd ⟨n, hn⟩ hnone⟩
    rw [Literal.payload_of_isInteger hm hsmall] at hpayload
    cases hpayload
    exact isQuiet_quietNaN hf negative n
  · have hzero := isQuiet_quietNaN hf negative 0
    rw [Nat.zero_mod] at hzero
    refine ⟨quietNaN negative 0, ?_, fun n hn => absurd ⟨n, hn⟩ hword, fun _ => hzero⟩
    rw [Literal.payload_of_not_isInteger hword hsmall]
    rfl

theorem write_of_isNaN {x : Binary .double} (hx : x.isNaN = true) (style : Style) (precision : Option ℕ) :
    x.write style precision = x.minus ++ Ascii.text ['n', 'a', 'n'] := by
  rw [write_eq]
  unfold magnitudeText
  rw [if_pos hx]

theorem read_of_nan_text (hf : f.Proper) (x : Binary .double) :
    ∃ y : Binary f, y.IsQuiet x.negative 0 ∧ read f (x.minus ++ Ascii.text ['n', 'a', 'n']) = .ok y ∧
      readString f (Ascii.toString (x.minus ++ Ascii.text ['n', 'a', 'n'])) = .ok y := by
  obtain ⟨hsign, hplain⟩ := isSign_minus x
  have hzero := isQuiet_quietNaN hf x.negative 0
  rw [Nat.zero_mod] at hzero
  have hread : read f (x.minus ++ Ascii.text ['n', 'a', 'n']) = .ok (quietNaN x.negative 0) :=
    read_of_nan ⟨_, _, rfl, hsign, .nan (by decide)⟩
  have hword : Ascii.IsPlain (Ascii.text ['n', 'a', 'n']) :=
    .cons (by decide) (.cons (by decide) (.cons (by decide) (List.forall_mem_nil _)))
  exact ⟨_, hzero, hread, (readString_toString (hplain.append hword)).trans hread⟩

/-- Every spelling of an infinity is read as the infinity of its sign. A NaN is read as the quiet NaN of its sign whose
lower bits are its word as an integer literal, cut to their number, and zero if the word is none; only where the word
starts with a number beyond 64 bits, literal or not, it is out of range instead. Every NaN is written as `nan` after
its sign, which is read as the NaN of that sign without a word. -/
theorem read_nan_iff (f : Format) (hf : f.Proper) :
    (∀ s negative, Literal.Spells s ⟨negative, .infinity⟩ →
      ∃ y : Binary f, read f s = .ok y ∧ y.isInfinite = true ∧ y.negative = negative) ∧
    (∀ s negative word, Literal.Spells s ⟨negative, .nan word⟩ →
      (read f s = .error .outOfRange ↔ StartsBeyond word) ∧
      (¬ StartsBeyond word → ∃ y : Binary f, read f s = .ok y ∧
        (∀ n, IsInteger word n → y.IsQuiet negative (n % 2 ^ (f.fractionBits - 1))) ∧
        ((¬ ∃ n, IsInteger word n) → y.IsQuiet negative 0))) ∧
    (∀ text : String, readString f text = read f text.toUTF8.data.toList) ∧
    (∀ (x : Binary .double) style precision, x.isNaN = true →
      x.write style precision = x.minus ++ Ascii.text ['n', 'a', 'n'] ∧
      ∃ y : Binary .double, y.IsQuiet x.negative 0 ∧ read .double (x.write style precision) = .ok y ∧
        readString .double (Ascii.toString (x.write style precision)) = .ok y) ∧
    ∀ (x : Binary .single) style precision, x.isNaN = true →
      x.writeSingle style precision = x.minus ++ Ascii.text ['n', 'a', 'n'] ∧
      ∃ y : Binary .single, y.IsQuiet x.negative 0 ∧ read .single (x.writeSingle style precision) = .ok y ∧
        readString .single (Ascii.toString (x.writeSingle style precision)) = .ok y := by
  refine ⟨fun s negative h => ?_, fun s negative word h => ?_, readString_eq, fun x style precision hx => ?_,
    fun x style precision hx => ?_⟩
  · obtain ⟨hkind, hsign⟩ := isInfinite_infinity (f := f) negative
    exact ⟨_, read_of_infinity hkind (hsign.symm ▸ h), hkind, hsign⟩
  · exact ⟨read_of_nan_eq_error_iff h, exists_read_of_nan hf h⟩
  · have htext := write_of_isNaN hx style precision
    rw [htext]
    exact ⟨rfl, read_of_nan_text Format.proper_double x⟩
  · obtain ⟨hsign, hnan, -⟩ := widen_spec x
    have htext : x.writeSingle style precision = x.widen.minus ++ Ascii.text ['n', 'a', 'n'] :=
      write_of_isNaN (hnan hx) style precision
    rw [htext, ← hsign]
    refine ⟨?_, read_of_nan_text Format.proper_single x.widen⟩
    unfold minus
    rw [hsign]

example : Format.double.fractionBits - 1 = 51 ∧ Format.single.fractionBits - 1 = 22 := by decide

/-- An infinity in mixed case, a hexadecimal payload of which 32 bits keep the end, a word that is no literal, and a
NaN with a payload, written and read. -/
theorem read_nan_iff_words :
    (∃ y : Binary .double, read .double (Ascii.text "-iNF".toList) = .ok y ∧ y.isInfinite = true ∧ y.negative = true) ∧
    (∃ y : Binary .single, read .single (Ascii.text "nan(0xC00005)".toList) = .ok y ∧ y.IsQuiet false 5) ∧
    (∃ y : Binary .double, read .double (Ascii.text "-NaN(08)".toList) = .ok y ∧ y.IsQuiet true 0) ∧
    (⟨0xfff0000000000005⟩ : Binary .double).write .exponent (some 3) = Ascii.text "-nan".toList ∧
    ∃ y : Binary .single, y.IsQuiet true 0 ∧
      read .single ((⟨0xffc00005⟩ : Binary .single).writeSingle .fixed none) = .ok y := by
  obtain ⟨hinf, hnan, -, hdouble, -⟩ := read_nan_iff .double Format.proper_double
  obtain ⟨-, hnanSingle, -, -, hsingle⟩ := read_nan_iff .single Format.proper_single
  have hdigits : Numeral.Digits 16 (Ascii.text "C00005".toList) [12, 0, 0, 0, 0, 5] :=
    Numeral.spanDigits_eq_nil_iff.1 (by decide)
  have hzerox : IsWord ['0', 'x'] (Ascii.text "0x".toList) := by decide
  have hhex : IsInteger (Ascii.text "0xC00005".toList) 0xC00005 := .hexadecimal hzerox hdigits (by decide)
  have hnone : ¬ ∃ n, IsInteger (Ascii.text "08".toList) n := by
    rintro ⟨n, hn⟩
    exact absurd hn.rest_eq_nil (by decide)
  have hsingleNaN := hnanSingle (Ascii.text "nan(0xC00005)".toList) false (Ascii.text "0xC00005".toList)
    (Literal.ofBytes?_eq_some_iff.1 (by decide))
  have hdoubleNaN := hnan (Ascii.text "-NaN(08)".toList) true (Ascii.text "08".toList)
    (Literal.ofBytes?_eq_some_iff.1 (by decide))
  obtain ⟨y, hy, hpayload, -⟩ := hsingleNaN.2 (by decide)
  obtain ⟨z, hz, -, hzero⟩ := hdoubleNaN.2 (by decide)
  obtain ⟨-, u, hu, hback, -⟩ := hsingle ⟨0xffc00005⟩ .fixed none (by decide)
  refine ⟨hinf _ _ (Literal.ofBytes?_eq_some_iff.1 (by decide)), ⟨y, hy, hpayload _ hhex⟩, ⟨z, hz, hzero hnone⟩,
    (hdouble _ _ _ (by decide)).1.trans (by decide), u, hu, hback⟩

/-- One more than 64 bits hold, and a word that only starts beyond them: out of range, though each has a NaN. -/
theorem nan_beyond_not_read :
    Literal.Spells (Ascii.text "nan(18446744073709551617)".toList)
      ⟨false, .nan (Ascii.text "18446744073709551617".toList)⟩ ∧
    IsInteger (Ascii.text "18446744073709551617".toList) 18446744073709551617 ∧
    read .double (Ascii.text "nan(18446744073709551617)".toList) = .error .outOfRange ∧
    Literal.Spells (Ascii.text "nan(99999999999999999999z)".toList)
      ⟨false, .nan (Ascii.text "99999999999999999999z".toList)⟩ ∧
    (¬ ∃ n, IsInteger (Ascii.text "99999999999999999999z".toList) n) ∧
    read .double (Ascii.text "nan(99999999999999999999z)".toList) = .error .outOfRange := by
  refine ⟨Literal.ofBytes?_eq_some_iff.1 (by decide), ?_, by decide, Literal.ofBytes?_eq_some_iff.1 (by decide), ?_,
    by decide⟩
  · have hdigits : Numeral.Digits 10 (Ascii.text "18446744073709551617".toList)
        [1, 8, 4, 4, 6, 7, 4, 4, 0, 7, 3, 7, 0, 9, 5, 5, 1, 6, 1, 7] := Numeral.spanDigits_eq_nil_iff.1 (by decide)
    exact IsInteger.decimal hdigits (by decide)
  · rintro ⟨n, hn⟩
    exact absurd hn.rest_eq_nil (by decide)

end Binary

end Groundwork
