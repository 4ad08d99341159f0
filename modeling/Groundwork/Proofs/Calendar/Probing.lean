import Groundwork.Calendar.Inverse
import Mathlib.Tactic

/-!
# Guessing an instant

What one guess does (`probe_succ`). The instant that a guess is moved to, where the clock has no fields at it, is
one that the clock has fields at (`nearest_eq_some`), so it is never the guess itself.
-/

namespace Groundwork

namespace Clock

variable {clock : Clock} {wanted shown c : Fields} {known : Option Fields} {good bad s t t1 t2 u : ℤ} {k : ℕ}
  {dst2 : Bool}

/-! ### The nearest fields -/

theorem bisect_eq_some (hknown : ∀ c, known = some c → clock good = some c)
    (h : bisect clock good bad known = some (t, c)) : clock t = some c := by
  fun_induction bisect clock good bad known with
  | case1 good bad known hfar m c' hm ih =>
    refine ih ?_ h
    rintro _ ⟨⟩
    exact hm
  | case2 good bad known hfar m hm ih => exact ih hknown h
  | case3 good bad known hnear =>
    obtain ⟨c', hc', heq⟩ := Option.map_eq_some_iff.1 h
    cases heq
    exact hknown c hc'

theorem nearest_eq_some (h : nearest clock u = some (t, c)) : clock t = some c := by
  unfold nearest at h
  dsimp only at h
  split at h
  · cases h
    assumption
  · exact bisect_eq_some (by simp) h

theorem nearest_of_eq_some (h : clock t = some c) (ht : leastInstant ≤ t ∧ t ≤ greatestInstant) :
    nearest clock t = some (t, c) := by
  have hclamp : max leastInstant (min t greatestInstant) = t := by omega
  simp only [nearest, hclamp, h]

/-! ### One guess -/

theorem clampedSecond_mem (c : Fields) : 0 ≤ clampedSecond c ∧ clampedSecond c ≤ 59 := by
  unfold clampedSecond
  omega

theorem clampedSecond_of_mem (h : 0 ≤ c.sec.toInt ∧ c.sec.toInt ≤ 59) : clampedSecond c = c.sec.toInt := by
  unfold clampedSecond
  omega

/-- The guess is the one before the last again, and its flag lets it be the answer for a gap. -/
def EndsInGap (wanted shown : Fields) (t t1 t2 : ℤ) (dst2 : Bool) : Prop :=
  t = t1 ∧ t ≠ t2 ∧ (shown.isdst < 0 ∨
    (if wanted.isdst < 0 then dst2 → shown.isdst ≠ 0 else (wanted.isdst ≠ 0) ≠ (shown.isdst ≠ 0)))

instance : Decidable (EndsInGap wanted shown t t1 t2 dst2) := inferInstanceAs (Decidable (_ ∧ _))

theorem probe_succ (hn : nearest clock u = some (t, shown)) :
    probe clock wanted s (k + 1) u t1 t2 dst2 =
      if difference wanted s shown = 0 then some (.exact t shown)
      else if EndsInGap wanted shown t t1 t2 dst2 then some (.gap t shown)
      else if k = 0 then none
      else probe clock wanted s k (t + difference wanted s shown) t2 t (shown.isdst ≠ 0) := by
  rw [probe, hn]
  rfl

theorem probe_of_eq (hn : nearest clock u = some (t, shown)) (hd : difference wanted s shown = 0) :
    probe clock wanted s (k + 1) u t1 t2 dst2 = some (.exact t shown) := by
  rw [probe_succ hn, if_pos hd]

theorem probe_of_endsInGap (hn : nearest clock u = some (t, shown)) (hd : difference wanted s shown ≠ 0)
    (hgap : EndsInGap wanted shown t t1 t2 dst2) :
    probe clock wanted s (k + 1) u t1 t2 dst2 = some (.gap t shown) := by
  rw [probe_succ hn, if_neg hd, if_pos hgap]

/-- A guess that shows something else and does not end the search is followed by another. -/
theorem probe_of_ne (hn : nearest clock u = some (t, shown)) (hd : difference wanted s shown ≠ 0)
    (hgap : ¬ EndsInGap wanted shown t t1 t2 dst2) :
    probe clock wanted s (k + 2) u t1 t2 dst2 =
      probe clock wanted s (k + 1) (t + difference wanted s shown) t2 t (shown.isdst ≠ 0) := by
  rw [probe_succ hn, if_neg hd, if_neg hgap, if_neg (Nat.succ_ne_zero k)]

theorem not_endsInGap (h : t = t1 → t = t2) : ¬ EndsInGap wanted shown t t1 t2 dst2 :=
  fun ⟨hsame, hne, _⟩ => hne (h hsame)

/-- Where the search is led back to the guess it starts from, it stays there until it gives up. -/
theorem probe_eq_none (hn : nearest clock u = some (t, shown)) (hd : difference wanted s shown ≠ 0)
    (hback : t + difference wanted s shown = u) (hlast : t = t1 → t = t2) :
    probe clock wanted s k u t1 t2 dst2 = none := by
  induction k generalizing t1 t2 dst2 with
  | zero => rfl
  | succ k ih =>
    rw [probe_succ hn, if_neg hd, if_neg (not_endsInGap hlast), hback]
    split
    · rfl
    · exact ih fun _ => rfl

theorem flagDiffers_self (flag : Int32) : flagDiffers flag flag = false := by
  simp [flagDiffers]

theorem settle_of_not_differs (hf : flagDiffers wanted.isdst shown.isdst = false) :
    settle clock wanted s t shown = some (t, shown) := by
  simp [settle, hf]

end Clock

end Groundwork
