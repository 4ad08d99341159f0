import Groundwork.Number.Writing
import Groundwork.Proofs.Binary.NaN
import Groundwork.Proofs.Number.Integer
import Groundwork.Proofs.Number.LastError
import Groundwork.Proofs.Text.CString

/-!
# Written numbers in memory

What is written is the start of a text that holds no NUL, and a NUL after it. So whoever asks for the length first has
room for the whole text, and what the buffer holds is the text itself; an integer's is read as that integer by every
type that has it.
-/

namespace Groundwork

/-- The decimal text of an integer: a minus below zero, and digits with no superfluous zero before them. -/
def IsDecimal (s : Bytes) (i : ℤ) : Prop :=
  ∃ body ds, s = (if i < 0 then '-'.toUInt8 :: body else body) ∧ Numeral.Digits 10 body ds ∧ ds ≠ [] ∧
    (ds.head? = some 0 → ds = [0]) ∧ Nat.ofDigits 10 ds.reverse = i.natAbs

namespace IsDecimal

variable {s : Bytes} {i : ℤ} {t : IntType}

theorem decimalInt (i : ℤ) : IsDecimal (Numeral.decimalInt i) i := by
  refine ⟨Numeral.decimal i.natAbs, Numeral.digits i.natAbs, rfl,
    Numeral.digits_map fun d => Numeral.lt_ten_of_mem_digits, Numeral.digits_ne_nil _, Numeral.head?_digits _, ?_⟩
  rw [← Numeral.value_eq_ofDigits, Numeral.value_digits]

theorem spells (h : IsDecimal s i) : ∃ ds, Integer.Spells s (i < 0) ds ∧ Nat.ofDigits 10 ds.reverse = i.natAbs := by
  obtain ⟨body, ds, rfl, hds, hne, -, hvalue⟩ := h
  refine ⟨ds, ?_, hvalue⟩
  by_cases hi : i < 0
  · rw [if_pos hi, decide_eq_true hi]
    exact ⟨_, body, rfl, .minus, hds, hne⟩
  · rw [if_neg hi, decide_eq_false hi]
    exact ⟨_, body, rfl, .absent, hds, hne⟩

theorem graphic (h : IsDecimal s i) : ∀ b ∈ s, 32 < b.toNat := by
  obtain ⟨ds, ⟨sign, body, rfl, hsign, hds, -⟩, -⟩ := h.spells
  exact List.forall_mem_append.2 ⟨hsign.graphic, hds.graphic⟩

theorem bounds_of_unsigned (hs : t.signed = false) (h : t.Has i) : 0 ≤ i ∧ i.natAbs ≤ 2 ^ 64 - 1 := by
  obtain ⟨signed, width⟩ := t
  subst hs
  cases width <;> simp [IntType.Has, IntType.least, IntType.greatest, IntType.bits, Width.bits, Width.bytes] at h ⊢ <;>
    omega

/-- A type that has the number reads it, the least number of a signed type included. -/
theorem read (h : IsDecimal s i) (ht : t.Has i) : Integer.read t s = .ok i := by
  obtain ⟨ds, hspells, hvalue⟩ := h.spells
  have hmem : i ∈ t.values := t.has_iff i |>.1 ht
  rw [Integer.read_of_spells hspells, hvalue]
  cases hs : t.signed with
  | true =>
    have hi : (if decide (i < 0) then -i.natAbs else i.natAbs : ℤ) = i := by
      rcases lt_or_ge i 0 with hi | hi
      · rw [decide_eq_true hi, if_pos rfl]
        omega
      · rw [decide_eq_false (not_lt.2 hi), if_neg Bool.false_ne_true]
        omega
    rw [Integer.widen_narrow_signed hs, hi, if_pos hmem]
  | false =>
    obtain ⟨hnonneg, hle⟩ := bounds_of_unsigned hs ht
    have hi : ((i.natAbs : ℕ) : ℤ) = i := by omega
    rw [decide_eq_false (not_lt.2 hnonneg), Integer.widen_narrow_unsigned i.natAbs (if_neg Bool.false_ne_true).symm,
      if_neg (not_lt.2 hle), hi, if_pos hmem]

end IsDecimal

namespace Written

variable {w : Written} {capacity : ℕ} {memory : Bytes}

theorem exists_spells_write (x : Binary .double) (style : Style) (precision : Option ℕ) :
    ∃ m, Literal.Spells (x.write style precision) ⟨x.negative, m⟩ := by
  suffices h : ∃ m, IsMagnitude (x.magnitudeText style (precision.getD 6)) m by
    obtain ⟨m, hm⟩ := h
    exact ⟨m, x.minus, _, Binary.write_eq x style precision, (Binary.isSign_minus x).1, hm⟩
  rcases Nat.lt_trichotomy x.code Format.double.infinityCode with hlt | heq | hgt
  · obtain ⟨n, e, hm, -⟩ := Binary.magnitudeText_spells (x.isFinite_iff.2 hlt) rfl style (precision.getD 6)
    exact ⟨_, hm⟩
  · have hnan : ¬ x.isNaN = true := by rw [x.isNaN_iff]; omega
    refine ⟨.infinity, ?_⟩
    unfold Binary.magnitudeText
    rw [if_neg hnan, if_pos (x.isInfinite_iff.2 heq)]
    exact .inf (by decide)
  · refine ⟨.nan [], ?_⟩
    unfold Binary.magnitudeText
    rw [if_pos (x.isNaN_iff.2 hgt)]
    exact .nan (by decide)

theorem graphic (w : Written) : ∀ b ∈ w.text, 32 < b.toNat := by
  cases w with
  | int i => exact (IsDecimal.decimalInt i).graphic
  | double x style precision =>
    obtain ⟨m, hm⟩ := exists_spells_write x style precision
    exact hm.graphic
  | single x style precision =>
    obtain ⟨m, hm⟩ := exists_spells_write x.widen style precision
    exact hm.graphic

end Written

end Groundwork
