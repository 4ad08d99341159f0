import Groundwork.Text.Numeral
import Mathlib.Data.Nat.Digits.Lemmas
import Mathlib.Tactic

/-!
# Signed digit strings

`Digits base s ds` relates a text to the digits it writes and `IsSign` the texts of a sign to the sign.
Both are read off the front of a longer text: `spanDigits_append`, `splitSign_append` where the rest
cannot go on, `exists_spanDigits`, `exists_splitSign` for any text. The positional value is `Nat.ofDigits`
(`value_eq_ofDigits`), and `digits`, `length` are those of `Nat.digits`.
-/

namespace Groundwork

namespace Numeral

/-- The byte `b` writes the digit `d` of base `base`; letters of either case count from ten. -/
def IsDigit (base : ℕ) (b : UInt8) (d : ℕ) : Prop :=
  d < base ∧ (d < 10 ∧ b.toNat = 48 + d ∨ 10 ≤ d ∧ d < 36 ∧ (b.toNat = 55 + d ∨ b.toNat = 87 + d))

/-- The bytes of `s` write the digits `ds`, one each. -/
def Digits (base : ℕ) : Bytes → List ℕ → Prop := List.Forall₂ (IsDigit base)

/-- The text `t` does not start with a digit of base `base`. -/
def NoDigit (base : ℕ) (t : Bytes) : Prop := ∀ b ∈ t.head?, ∀ d, ¬ IsDigit base b d

variable {base n : ℕ} {b : UInt8} {ds es : List ℕ} {s t : Bytes}

theorem digitOf?_eq_some_iff {d : ℕ} : Ascii.digitOf? base b = some d ↔ IsDigit base b d := by
  have hb := b.toNat_lt
  have hlower : ∀ c : UInt8, Ascii.lower c = if 65 ≤ c.toNat ∧ c.toNat ≤ 90 then c + 32 else c := by
    intro c; simp [Ascii.lower, Ascii.isUpper, UInt8.le_iff_toNat_le]
  simp only [Ascii.digitOf?, Ascii.digitValue?, Ascii.isDigit, Ascii.isLetter, Ascii.isUpper, Ascii.isLower,
    hlower, IsDigit, Option.filter_eq_some_iff, UInt8.le_iff_toNat_le]
  split_ifs <;> simp_all [UInt8.toNat_add] <;> omega

theorem not_isDigit {d : ℕ} (h : Ascii.digitOf? base b = none) : ¬ IsDigit base b d := fun hd => by
  rw [digitOf?_eq_some_iff.2 hd] at h; cases h

theorem noDigit_nil : NoDigit base [] := by intro b hb; cases hb

theorem noDigit_cons (h : Ascii.digitOf? base b = none) : NoDigit base (b :: t) := by
  intro c hc d
  obtain rfl : b = c := by simpa using hc
  exact not_isDigit h

/-! ### Digits off the front of a text -/

theorem Digits.ne_nil (h : Digits base s ds) (hne : ds ≠ []) : s ≠ [] := by
  rintro rfl; cases h; exact hne rfl

theorem Digits.exists_of_mem (h : Digits base s ds) (hb : b ∈ s) : ∃ d, IsDigit base b d := by
  induction h with
  | nil => cases hb
  | @cons c d _ _ hc _ ih =>
    rcases List.mem_cons.1 hb with rfl | hb
    · exact ⟨d, hc⟩
    · exact ih hb

theorem Digits.graphic (h : Digits base s ds) : ∀ b ∈ s, 32 < b.toNat := by
  intro b hb
  obtain ⟨d, hd⟩ := h.exists_of_mem hb
  have := hd.2
  omega

/-- Written digits are read back. -/
theorem digits_map (h : ∀ d ∈ ds, d < 10) : Digits 10 (ds.map Ascii.digit) ds := by
  induction ds with
  | nil => exact .nil
  | cons d ds ih =>
    rw [List.forall_mem_cons] at h
    refine .cons ⟨h.1, .inl ⟨h.1, ?_⟩⟩ (ih h.2)
    show (48 + d) % 256 = 48 + d
    omega

theorem spanDigits_of_noDigit (h : NoDigit base t) : spanDigits base t = ([], t) := by
  cases t with
  | nil => rfl
  | cons b t =>
    have hb : Ascii.digitOf? base b = none :=
      Option.eq_none_iff_forall_ne_some.2 fun d hd => h b rfl d (digitOf?_eq_some_iff.1 hd)
    simp [spanDigits, hb]

theorem spanDigits_append (hs : Digits base s ds) (ht : NoDigit base t) :
    spanDigits base (s ++ t) = (ds, t) := by
  induction hs with
  | nil => exact spanDigits_of_noDigit ht
  | cons hd _ ih => simp [spanDigits, digitOf?_eq_some_iff.2 hd, ih]

theorem exists_spanDigits (base : ℕ) (t : Bytes) :
    ∃ s, t = s ++ (spanDigits base t).2 ∧ Digits base s (spanDigits base t).1 := by
  fun_induction spanDigits base t with
  | case1 => exact ⟨[], rfl, .nil⟩
  | case2 b t d hd ds rest hspan ih =>
    obtain ⟨s, hs, hds⟩ := ih
    simp only [hspan] at hs hds
    exact ⟨b :: s, by simp [← hs], .cons (digitOf?_eq_some_iff.1 hd) hds⟩
  | case3 b t => exact ⟨[], rfl, .nil⟩

/-- A text that is digits from end to end. -/
theorem spanDigits_eq_nil_iff : spanDigits base s = (ds, []) ↔ Digits base s ds := by
  constructor
  · intro h
    obtain ⟨t, ht, hds⟩ := exists_spanDigits base s
    rw [h] at ht hds
    rwa [ht, List.append_nil]
  · intro h
    simpa using spanDigits_append h noDigit_nil

/-! ### Values -/

theorem value_eq_ofDigits (base : ℕ) (ds : List ℕ) : value base ds = Nat.ofDigits base ds.reverse := by
  induction ds using List.reverseRecOn with
  | nil => rfl
  | append_singleton ds d ih => rw [value_append, ih, List.reverse_concat, Nat.ofDigits_cons]; ring

theorem length_eq (hb : 2 ≤ base) (n : ℕ) : length base n = (Nat.digits base n).length := by
  induction n using Nat.strong_induction_on with
  | _ n ih =>
    rw [length]
    split
    · rename_i h
      rw [ih _ (Nat.div_lt_self h.2 h.1), Nat.digits_def' h.1 h.2, List.length_cons]
    · rename_i h
      obtain rfl : n = 0 := by omega
      simp

theorem lt_pow_length (hb : 2 ≤ base) (n : ℕ) : n < base ^ length base n := by
  rw [length_eq hb]; exact Nat.lt_base_pow_length_digits hb

theorem pow_length_le (hb : 2 ≤ base) (hn : 0 < n) : base ^ length base n ≤ base * n := by
  rw [length_eq hb]; exact Nat.base_pow_length_digits_le base n hb hn.ne'

theorem digits_eq (hn : 0 < n) : digits n = (Nat.digits 10 n).reverse := by
  fun_induction digits n with
  | case1 n h => rw [Nat.digits_of_lt 10 n hn.ne' h]; rfl
  | case2 n h ih => rw [ih (by omega), Nat.digits_def' (by norm_num) hn, List.reverse_cons]

/-- Writing starts with a zero for zero only. -/
theorem head?_digits (n : ℕ) (h : (digits n).head? = some 0) : digits n = [0] := by
  rcases Nat.eq_zero_or_pos n with rfl | hn
  · simp [digits]
  · rw [digits_eq hn, List.head?_reverse] at h
    exact absurd (Option.some_inj.1 (List.getLast?_eq_some_getLast _ ▸ h)) (Nat.getLast_digit_ne_zero 10 hn.ne')

theorem length_digits_le_iff {p : ℕ} : (digits n).length ≤ p + 1 ↔ n < 10 ^ (p + 1) := by
  rcases Nat.eq_zero_or_pos n with rfl | hn
  · simp [digits]
  · rw [digits_eq hn, List.length_reverse, Nat.digits_length_le_iff (by norm_num)]

end Numeral

/-! ### Signs -/

/-- The texts of an optional sign; `true` is the minus sign. -/
inductive IsSign : Bytes → Bool → Prop
  | absent : IsSign [] false
  | plus : IsSign ['+'.toUInt8] false
  | minus : IsSign ['-'.toUInt8] true

theorem IsSign.graphic {s : Bytes} {negative : Bool} (h : IsSign s negative) : ∀ b ∈ s, 32 < b.toNat := by
  cases h with
  | absent => simp
  | plus => exact List.forall_mem_singleton.2 (by decide)
  | minus => exact List.forall_mem_singleton.2 (by decide)

/-- The text `t` does not start with a sign. -/
def NoSign (t : Bytes) : Prop := ∀ b ∈ t.head?, b ≠ '+'.toUInt8 ∧ b ≠ '-'.toUInt8

namespace Ascii

variable {s t : Bytes} {negative : Bool}

theorem splitSign_append (hs : IsSign s negative) (ht : NoSign t) : splitSign (s ++ t) = (negative, t) := by
  cases hs with
  | plus => rfl
  | minus => rfl
  | absent =>
    cases t with
    | nil => rfl
    | cons b t => simp [splitSign, ht b rfl]

theorem exists_splitSign (t : Bytes) : ∃ s, IsSign s (splitSign t).1 ∧ t = s ++ (splitSign t).2 := by
  cases t with
  | nil => exact ⟨[], .absent, rfl⟩
  | cons b t =>
    by_cases hm : b = '-'.toUInt8
    · exact ⟨_, by simpa [splitSign, hm] using IsSign.minus, by simp [splitSign, hm]⟩
    by_cases hp : b = '+'.toUInt8
    · subst hp; exact ⟨_, .plus, rfl⟩
    · exact ⟨[], by simpa [splitSign, hm, hp] using IsSign.absent, by simp [splitSign, hm, hp]⟩

end Ascii

namespace Numeral

variable {base : ℕ} {s : Bytes} {ds : List ℕ}

/-- A digit is no sign. -/
theorem IsDigit.noSign {b : UInt8} {d : ℕ} (h : IsDigit base b d) (t : Bytes) : NoSign (b :: t) := by
  intro c hc
  obtain rfl : b = c := by simpa using hc
  have h48 : 48 ≤ b.toNat := by have := h.2; omega
  constructor <;> rintro rfl <;> revert h48 <;> decide

theorem Digits.noSign (h : Digits base s ds) (hne : ds ≠ []) (t : Bytes) : NoSign (s ++ t) := by
  cases h with
  | nil => exact absurd rfl hne
  | cons hd _ => exact hd.noSign _

end Numeral

end Groundwork
