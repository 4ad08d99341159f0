import Groundwork.Number.Integer
import Groundwork.Proofs.Text.Numeral

/-!
# Reading integers

`Spells s negative ds`: the text is an optional sign and the digits `ds`, at least one. Such texts are
exactly those that `parts?` takes apart (`parts?_eq_some_iff`), so every other text is invalid, whatever
the size of the digits in it. What a spelled number reads as is decided in two steps, 64 bits first and
the type itself after that; `widen_narrow_signed` and `widen_narrow_unsigned` join the two.
-/

namespace Groundwork

def IntType.values (t : IntType) : Set ℤ :=
  {i | (if t.signed then -2 ^ (8 * t.width.bytes - 1) else 0) ≤ i ∧
    i < if t.signed then 2 ^ (8 * t.width.bytes - 1) else 2 ^ (8 * t.width.bytes)}

instance (t : IntType) (i : ℤ) : Decidable (i ∈ t.values) := inferInstanceAs (Decidable (_ ∧ _))

theorem IntType.has_iff (t : IntType) (i : ℤ) : t.Has i ↔ i ∈ t.values := by
  simp only [IntType.Has, IntType.least, IntType.greatest, IntType.bits, Width.bits, IntType.values, Set.mem_ofPred_eq]
  cases t.signed <;> simp

theorem IntType.has_eight {t : IntType} (hs : t.signed = true) {i : ℤ} (h : t.Has i) :
    (IntType.mk true .eight).Has i := by
  obtain ⟨signed, width⟩ := t
  subst hs
  cases width <;> simp [IntType.Has, IntType.least, IntType.greatest, IntType.bits, Width.bits, Width.bytes] at h ⊢ <;>
    omega

namespace Integer

variable {t : IntType} {s : Bytes} {negative : Bool} {ds : List ℕ} {m : ℕ}

/-- The text is an optional sign followed by the decimal digits `ds`, of which there is at least one. -/
def Spells (s : Bytes) (negative : Bool) (ds : List ℕ) : Prop :=
  ∃ sign body, s = sign ++ body ∧ IsSign sign negative ∧ Numeral.Digits 10 body ds ∧ ds ≠ []

theorem parts?_eq_some_iff : parts? s = some (negative, ds) ↔ Spells s negative ds := by
  constructor
  · intro h
    obtain ⟨sign, hsign, hs⟩ := Ascii.exists_splitSign s
    simp only [parts?] at h
    split at h
    · rename_i d ds' hspan
      simp only [Option.some.injEq, Prod.mk.injEq] at h
      obtain ⟨rfl, rfl⟩ := h
      exact ⟨sign, _, hs, hsign, Numeral.spanDigits_eq_nil_iff.1 hspan, List.cons_ne_nil _ _⟩
    · cases h
  · rintro ⟨sign, body, rfl, hsign, hds, hne⟩
    have hbody : NoSign body := by simpa using hds.noSign hne []
    simp only [parts?, Ascii.splitSign_append hsign hbody, Numeral.spanDigits_eq_nil_iff.2 hds]
    cases ds with
    | nil => exact absurd rfl hne
    | cons d ds => rfl

theorem parts?_eq_none_iff : parts? s = none ↔ ¬ ∃ negative ds, Spells s negative ds := by
  rw [Option.eq_none_iff_forall_ne_some]
  constructor
  · rintro h ⟨negative, ds, hs⟩; exact h _ (parts?_eq_some_iff.2 hs)
  · rintro h ⟨negative, ds⟩ hs; exact h ⟨negative, ds, parts?_eq_some_iff.1 hs⟩

theorem read_of_spells (h : Spells s negative ds) :
    read t s = widen t.signed negative (Nat.ofDigits 10 ds.reverse) >>= narrow t := by
  rw [← Numeral.value_eq_ofDigits]
  simp only [read, parts?_eq_some_iff.2 h]

theorem widen_narrow_signed (hs : t.signed = true) :
    (widen true negative m >>= narrow t) =
      if (if negative then -m else m : ℤ) ∈ t.values then .ok (if negative then -m else m : ℤ)
      else .error .outOfRange := by
  generalize hi : (if negative then -m else m : ℤ) = i
  simp only [← t.has_iff]
  by_cases h8 : (IntType.mk true .eight).Has i
  · simp [widen, hi, h8, narrow, bind, Except.bind]
  · have ht : ¬ t.Has i := fun h => h8 (IntType.has_eight hs h)
    simp [widen, hi, h8, ht, bind, Except.bind]

theorem widen_narrow_unsigned (w : ℕ) (hw : w = if negative then (2 ^ 64 - m) % 2 ^ 64 else m) :
    (widen false negative m >>= narrow t) =
      if 2 ^ 64 - 1 < m then .error .outOfRange
      else if (w : ℤ) ∈ t.values then .ok (w : ℤ) else .error .outOfRange := by
  have hw : (if negative then ((wordLimit - m) % wordLimit : ℕ) else m : ℤ) = w := by
    rw [hw]; split <;> rfl
  by_cases hm : wordLimit ≤ m
  · have hm' : 2 ^ 64 - 1 < m := by simp only [wordLimit] at hm; omega
    simp only [widen, Bool.false_eq_true, ↓reduceIte, hm, hm']
    rfl
  · have hm' : ¬ 2 ^ 64 - 1 < m := by simp only [wordLimit] at hm; omega
    simp only [widen, Bool.false_eq_true, ↓reduceIte, hm, hw, hm', ← t.has_iff]
    rfl

theorem widen_narrow_ne_invalid : (widen t.signed negative m >>= narrow t) ≠ .error .invalid := by
  cases hs : t.signed with
  | true => rw [widen_narrow_signed hs]; split_ifs <;> simp
  | false => rw [widen_narrow_unsigned _ rfl]; split_ifs <;> simp

theorem read_of_nul (h : 0 ∈ s) : read t s = .error .invalid := by
  have hs : parts? s = none := by
    refine parts?_eq_none_iff.2 ?_
    rintro ⟨negative, ds, sign, body, rfl, hsign, hds, -⟩
    exact absurd (List.forall_mem_append.2 ⟨hsign.graphic, hds.graphic⟩ 0 h) (by decide)
  simp only [read, hs]

theorem readString_of_nul {text : String} (h : 0 ∈ text.toUTF8.data.toList) :
    readString t text = .error .invalid := by
  simp only [readString, CString.ofString?_of_nul h]

/-- The check for a NUL changes nothing: no text with one is a number. -/
theorem readString_eq (text : String) : readString t text = read t text.toUTF8.data.toList := by
  by_cases h : 0 ∈ text.toUTF8.data.toList
  · rw [readString_of_nul h, read_of_nul h]
  · simp only [readString, CString.ofString?_of_no_nul h]

/-- A text reads as an integer of type `t` exactly if it spells one, and then its value decides: the
signed value of the digits for a signed type, and for an unsigned one their value in 64 bits, which a
minus sign negates there. Reading a character string is reading its bytes. -/
theorem read_by_spelling (t : IntType) :
    (∀ s, read t s = .error .invalid ↔ ¬ ∃ negative ds, Spells s negative ds) ∧
    (∀ s negative ds, Spells s negative ds →
      let m : ℕ := Nat.ofDigits 10 ds.reverse
      let i : ℤ := if negative then -m else m
      let w : ℕ := if negative then (2 ^ 64 - m) % 2 ^ 64 else m
      read t s =
        if t.signed then if i ∈ t.values then .ok i else .error .outOfRange
        else if 2 ^ 64 - 1 < m then .error .outOfRange
        else if (w : ℤ) ∈ t.values then .ok (w : ℤ) else .error .outOfRange) ∧
    ∀ text : String, readString t text = read t text.toUTF8.data.toList ∧
      (0 ∈ text.toUTF8.data.toList → readString t text = .error .invalid) := by
  refine ⟨fun s => ⟨?_, fun h => ?_⟩, ?_, fun text => ⟨readString_eq text, readString_of_nul⟩⟩
  · rintro h ⟨negative, ds, hs⟩
    exact widen_narrow_ne_invalid ((read_of_spells hs).symm.trans h)
  · simp only [read, parts?_eq_none_iff.2 h]
  · intro s negative ds h m i w
    rw [read_of_spells h]
    cases hs : t.signed with
    | true => exact widen_narrow_signed hs
    | false => exact widen_narrow_unsigned w rfl

/-- An unsigned byte takes a minus sign with the greatest 64-bit number; a NUL ends no number. -/
theorem read_byte_minus_greatest :
    Spells (Ascii.text "-18446744073709551615".toList) true
      [1, 8, 4, 4, 6, 7, 4, 4, 0, 7, 3, 7, 0, 9, 5, 5, 1, 6, 1, 5] ∧
    read ⟨false, .one⟩ (Ascii.text "-18446744073709551615".toList) = .ok 1 ∧
    0 ∈ "1\x00".toUTF8.data.toList ∧ readString ⟨false, .one⟩ "1\x00" = .error .invalid := by
  have hs : Spells (Ascii.text "-18446744073709551615".toList) true
      [1, 8, 4, 4, 6, 7, 4, 4, 0, 7, 3, 7, 0, 9, 5, 5, 1, 6, 1, 5] := parts?_eq_some_iff.1 (by decide)
  have h0 : 0 ∈ "1\x00".toUTF8.data.toList := by decide
  exact ⟨hs, ((read_by_spelling ⟨false, .one⟩).2.1 _ _ _ hs).trans (by decide), h0,
    ((read_by_spelling ⟨false, .one⟩).2.2 _).2 h0⟩

example : read ⟨false, .one⟩ (Ascii.text ['-', '1']) = .error .outOfRange := by decide

end Integer

end Groundwork
