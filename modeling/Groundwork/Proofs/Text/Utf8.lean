import Groundwork.Text.CString
import Groundwork.Text.Utf8
import Mathlib.Tactic

/-!
# The first character of a byte string

`Utf8.next?` finds a character at the beginning of a byte string exactly when the string begins with the bytes that
encode one, and then it is that one (`next?_eq_some_iff`). Of all characters only the NUL is encoded with a zero byte,
so a text without it can be handed over as a NUL-terminated string.
-/

namespace Groundwork

namespace Utf8

variable {s rest : Bytes} {b : UInt8} {c : Char} {least n : ℕ}

theorem isContinuation_iff : isContinuation b = true ↔ 128 ≤ b.toNat ∧ b.toNat < 192 := by
  simp [isContinuation, UInt8.le_iff_toNat_le, UInt8.lt_iff_toNat_lt]

theorem char?_eq_some_iff : char? least n = some c ↔ c.val.toNat = n ∧ least ≤ n := by
  by_cases h : n.isValidChar ∧ least ≤ n
  · rw [char?, dif_pos h, Option.some.injEq]
    constructor
    · rintro rfl
      exact ⟨rfl, h.2⟩
    · rintro ⟨rfl, -⟩
      rfl
  · rw [char?, dif_neg h]
    refine ⟨fun h => (by cases h), ?_⟩
    rintro ⟨rfl, hleast⟩
    exact absurd ⟨c.valid, hleast⟩ h

theorem eq_of_next? (h : next? s = some (c, rest)) : s = String.utf8EncodeChar c ++ rest := by
  have hbyte : ∀ {a : UInt8} {n : ℕ}, a.toNat = n % 256 → a = UInt8.ofNat n := fun h =>
    UInt8.toNat_inj.1 (by simpa using h)
  unfold next? at h
  repeat' split at h
  any_goals contradiction
  all_goals
    obtain ⟨d, hd, heq⟩ := Option.map_eq_some_iff.1 h
    cases heq
    obtain ⟨hvalue, hleast⟩ := char?_eq_some_iff.1 hd
    simp only [isContinuation_iff, Bool.not_eq_true', ← Bool.not_eq_true, not_not, Bool.and_eq_true, decide_eq_true_eq,
      UInt8.le_iff_toNat_le, UInt8.lt_iff_toNat_lt, UInt8.reduceToNat] at *
    simp only [String.utf8EncodeChar]
    split_ifs
  all_goals first
    | omega
    | simp only [List.cons_append, List.nil_append, List.cons.injEq, and_true]
      repeat' apply And.intro
      all_goals exact hbyte (by omega)

theorem next?_append (c : Char) (rest : Bytes) : next? (String.utf8EncodeChar c ++ rest) = some (c, rest) := by
  have hvalid : c.val.toNat < 1114112 := by
    rcases c.valid with h | h
    · omega
    · omega
  simp only [String.utf8EncodeChar]
  have hchar : ∀ least n, c.val.toNat = n → least ≤ n → (char? least n).map (·, rest) = some (c, rest) :=
    fun least n hn hleast => by rw [char?_eq_some_iff.2 ⟨hn, hleast⟩, Option.map_some]
  split_ifs <;>
    simp only [List.cons_append, List.nil_append, next?, isContinuation, UInt8.le_iff_toNat_le, UInt8.lt_iff_toNat_lt,
      UInt8.toNat_ofNat', UInt8.reduceToNat]
  · rw [if_pos (by omega)]
    exact hchar _ _ (by omega) (by omega)
  · rw [if_neg (by omega), if_neg (by simp; omega), if_pos (by simp; omega)]
    exact hchar _ _ (by omega) (by omega)
  · rw [if_neg (by omega), if_neg (by simp; omega), if_neg (by simp; omega), if_neg (by simp; omega),
      if_pos (by simp; omega)]
    exact hchar _ _ (by omega) (by omega)
  · rw [if_neg (by omega), if_neg (by simp; omega), if_neg (by simp; omega), if_neg (by simp; omega),
      if_neg (by simp; omega), if_pos (by simp; omega)]
    exact hchar _ _ (by omega) (by omega)

theorem next?_eq_some_iff : next? s = some (c, rest) ↔ s = String.utf8EncodeChar c ++ rest := by
  refine ⟨eq_of_next?, ?_⟩
  rintro rfl
  exact next?_append c rest

/-- Only the NUL is encoded with a NUL. -/
theorem zero_notMem_encode (hc : c ≠ Char.ofNat 0) : (0 : UInt8) ∉ String.utf8EncodeChar c := by
  have hvalue : c.toNat ≠ 0 := fun h => hc (Char.toNat_inj.1 h)
  have hval : c.val.toNat = c.toNat := rfl
  simp only [String.utf8EncodeChar]
  split_ifs <;> simp [← UInt8.toNat_inj] <;> omega

theorem zero_notMem_flatMap {cs : List Char} (h : Char.ofNat 0 ∉ cs) :
    (0 : UInt8) ∉ cs.flatMap String.utf8EncodeChar := by
  rw [List.mem_flatMap]
  rintro ⟨c, hc, h0⟩
  exact zero_notMem_encode (fun heq => h (heq ▸ hc)) h0

theorem toUTF8_toList (text : String) : text.toUTF8.data.toList = text.toList.flatMap String.utf8EncodeChar := by
  conv_lhs => rw [← String.ofList_toList (s := text)]
  show (text.toList.flatMap String.utf8EncodeChar).toByteArray.data.toList = _
  rw [List.data_toByteArray]

end Utf8

/-- A text without a NUL is handed over as the bytes that encode it. -/
theorem CString.ofString?_eq_some {text : String} (h : Char.ofNat 0 ∉ text.toList) :
    CString.ofString? text = some (text.toList.flatMap String.utf8EncodeChar) := by
  rw [← Utf8.toUTF8_toList]
  apply CString.ofString?_of_no_nul
  rw [Utf8.toUTF8_toList]
  exact Utf8.zero_notMem_flatMap h

end Groundwork
