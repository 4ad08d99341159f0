import Groundwork.Calendar.Gregorian
import Mathlib.Tactic

/-!
# The days of the calendar

`FallsOn n d`: day `n` is the date `d`. It is defined by walking from 1 January 1970 one day at a time,
so it knows the lengths of the months and the leap rule and nothing of cycles. `Date.number` counts the
days up to a date and is increasing in the dates (`number_lt_iff`); `dateOf` is the way back, by
the 400-year cycle. `fallsOn_iff` says that both agree with the walk.
-/

namespace Groundwork

namespace Gregorian

/-- A date; months are counted from zero and days of the month from one. -/
structure Date where
  year : ℤ
  month : ℕ
  day : ℕ
deriving DecidableEq, Repr

namespace Date

/-- The month has the day. -/
structure Valid (d : Date) : Prop where
  month : d.month < 12
  pos : 1 ≤ d.day
  day : d.day ≤ monthLength (isLeap d.year) d.month

/-- The day after. -/
def next (d : Date) : Date :=
  if d.day < monthLength (isLeap d.year) d.month then { d with day := d.day + 1 }
  else if d.month < 11 then ⟨d.year, d.month + 1, 1⟩
  else ⟨d.year + 1, 0, 1⟩

/-- The order of dates: by the year, then the month, then the day. -/
def Before (d e : Date) : Prop :=
  d.year < e.year ∨ d.year = e.year ∧ (d.month < e.month ∨ d.month = e.month ∧ d.day < e.day)

/-- The days from 1 January 1970. -/
def number (d : Date) : ℤ := yearStart d.year + monthStart (isLeap d.year) d.month + (d.day - 1)

end Date

inductive FallsOn : ℤ → Date → Prop
  | epoch : FallsOn 0 ⟨1970, 0, 1⟩
  | next {n : ℤ} {d : Date} : FallsOn n d → FallsOn (n + 1) d.next
  | previous {n : ℤ} {d : Date} : d.Valid → FallsOn (n + 1) d.next → FallsOn n d

/-- The date of day `n`. -/
def dateOf (n : ℤ) : Date :=
  let (year, yday) := yearOf n
  let month := monthOf (isLeap year) yday.toNat 11
  ⟨year, month, yday.toNat - monthStart (isLeap year) month + 1⟩

variable {n : ℤ} {y : ℤ} {d e : Date} {leap : Bool} {m : ℕ}

/-! ### Years -/

theorem isLeap_iff : isLeap y = true ↔ y % 4 = 0 ∧ (y % 100 ≠ 0 ∨ y % 400 = 0) := by
  simp [isLeap]

theorem yearStart_succ (y : ℤ) : yearStart (y + 1) = yearStart y + if isLeap y then 366 else 365 := by
  unfold yearStart daysBefore
  split
  · rename_i h
    rw [isLeap_iff] at h
    omega
  · rename_i h
    rw [isLeap_iff] at h
    omega

theorem yearStart_strictMono : StrictMono yearStart := by
  refine strictMono_int_of_lt_succ fun y => ?_
  rw [yearStart_succ]
  split <;> omega

/-- The parts of a year in its cycle and the first day that they give. -/
theorem yearStart_eq {q c l s : ℤ} (hc : 0 ≤ c ∧ c ≤ 3) (hl : 0 ≤ l ∧ l ≤ 24) (hs : 0 ≤ s ∧ s ≤ 3) :
    yearStart (400 * q + 100 * c + 4 * l + s + 1) =
      146097 * q + 36524 * c + 1461 * l + 365 * s - daysBefore 1970 := by
  unfold yearStart
  generalize daysBefore 1970 = k
  unfold daysBefore
  omega

/-- Only the last day of a leap year is left over when four years of 365 days are taken off. -/
theorem yearOf_spec (n : ℤ) : yearStart (yearOf n).1 + (yearOf n).2 = n ∧ 0 ≤ (yearOf n).2 ∧
    (yearOf n).2 < if isLeap (yearOf n).1 then 366 else 365 := by
  unfold yearOf
  obtain ⟨q, hq⟩ : ∃ q, q = (n + daysBefore 1970) / 146097 := ⟨_, rfl⟩
  obtain ⟨r, hr⟩ : ∃ r, r = (n + daysBefore 1970) % 146097 := ⟨_, rfl⟩
  obtain ⟨c, hc⟩ : ∃ c, c = min (r / 36524) 3 := ⟨_, rfl⟩
  obtain ⟨l, hl⟩ : ∃ l, l = (r - 36524 * c) / 1461 := ⟨_, rfl⟩
  obtain ⟨s, hs⟩ : ∃ s, s = min ((r - 36524 * c - 1461 * l) / 365) 3 := ⟨_, rfl⟩
  simp only [← hq, ← hr, ← hc, ← hl, ← hs]
  have hc03 : 0 ≤ c ∧ c ≤ 3 := by omega
  have hl024 : 0 ≤ l ∧ l ≤ 24 := by omega
  have hs03 : 0 ≤ s ∧ s ≤ 3 := by omega
  rw [yearStart_eq hc03 hl024 hs03]
  refine ⟨by omega, by omega, ?_⟩
  split
  · omega
  · rename_i hleap
    rw [isLeap_iff] at hleap
    by_contra hlast
    have hs3 : s = 3 := by omega
    refine hleap ⟨by omega, ?_⟩
    by_cases hl24 : l = 24
    · right; omega
    · left; omega

/-! ### Months -/

theorem monthStart_twelve (leap : Bool) : monthStart leap 12 = if leap then 366 else 365 := by
  cases leap <;> rfl

theorem monthStart_succ (leap : Bool) (m : ℕ) : monthStart leap (m + 1) = monthStart leap m + monthLength leap m := rfl

theorem one_le_monthLength (leap : Bool) (m : ℕ) : 1 ≤ monthLength leap m := by
  unfold monthLength
  split
  · split <;> omega
  all_goals omega

theorem monthLength_le (leap : Bool) (m : ℕ) : monthLength leap m ≤ 31 := by
  unfold monthLength
  split
  · split <;> omega
  all_goals omega

theorem monthStart_strictMono (leap : Bool) : StrictMono (monthStart leap) := by
  refine strictMono_nat_of_lt_succ fun m => ?_
  have := one_le_monthLength leap m
  rw [monthStart_succ]
  omega

/-- The count down stops at the month that the day is in. -/
theorem monthOf_spec {yday : ℕ} (h : yday < monthStart leap (m + 1)) :
    monthOf leap yday m ≤ m ∧ monthStart leap (monthOf leap yday m) ≤ yday ∧
      yday < monthStart leap (monthOf leap yday m + 1) := by
  induction m with
  | zero => exact ⟨le_rfl, Nat.zero_le _, h⟩
  | succ m ih =>
    unfold monthOf
    split
    · rename_i hle
      exact ⟨le_rfl, hle, h⟩
    · rename_i hlt
      obtain ⟨hm, hspec⟩ := ih (not_le.1 hlt)
      exact ⟨by omega, hspec⟩

/-! ### Dates and day numbers -/

namespace Date

theorem number_eq (d : Date) : d.number = yearStart d.year + monthStart (isLeap d.year) d.month + (d.day - 1) := rfl

/-- A date lies in its month, and the month in its year. -/
theorem Valid.lt_month (h : d.Valid) :
    d.number < yearStart d.year + monthStart (isLeap d.year) (d.month + 1) := by
  have := h.day
  rw [number_eq, monthStart_succ]
  push_cast
  omega

theorem Valid.lt_year (h : d.Valid) : d.number < yearStart (d.year + 1) := by
  have hmonth := h.lt_month
  have hle := (monthStart_strictMono (isLeap d.year)).monotone (Nat.succ_le_of_lt h.month)
  rw [Nat.succ_eq_add_one, monthStart_twelve] at hle
  have hle : ((monthStart (isLeap d.year) (d.month + 1) : ℕ) : ℤ) ≤ if isLeap d.year then 366 else 365 := by
    exact_mod_cast hle
  rw [yearStart_succ]
  omega

theorem Valid.year_le (h : d.Valid) : yearStart d.year ≤ d.number := by
  have := h.pos
  rw [number_eq]
  omega

theorem Before.number_lt (hd : d.Valid) (he : e.Valid) (h : d.Before e) : d.number < e.number := by
  rcases h with hy | ⟨hy, hm | ⟨hm, h⟩⟩
  · have hle := yearStart_strictMono.monotone (Int.add_one_le_of_lt hy)
    have := hd.lt_year
    have := he.year_le
    omega
  · have hle : monthStart (isLeap e.year) (d.month + 1) ≤ monthStart (isLeap e.year) e.month :=
      (monthStart_strictMono _).monotone hm
    have hlt := hd.lt_month
    have hpos := he.pos
    rw [hy] at hlt
    rw [number_eq e]
    omega
  · rw [number_eq, number_eq, hy, hm]
    omega

theorem before_or_eq_or_before (d e : Date) : d.Before e ∨ d = e ∨ e.Before d := by
  obtain ⟨y, m, n⟩ := d
  obtain ⟨y', m', n'⟩ := e
  simp only [Before, mk.injEq]
  omega

theorem number_lt_iff (hd : d.Valid) (he : e.Valid) : d.number < e.number ↔ d.Before e := by
  refine ⟨fun h => ?_, fun h => h.number_lt hd he⟩
  rcases before_or_eq_or_before d e with hb | rfl | hb
  · exact hb
  · exact absurd h (lt_irrefl _)
  · exact absurd h (not_lt.2 (hb.number_lt he hd).le)

theorem eq_of_number_eq (hd : d.Valid) (he : e.Valid) (h : d.number = e.number) : d = e := by
  rcases before_or_eq_or_before d e with hb | hb | hb
  · exact absurd h (hb.number_lt hd he).ne
  · exact hb
  · exact absurd h (hb.number_lt he hd).ne'

theorem Valid.next (h : d.Valid) : d.next.Valid ∧ d.next.number = d.number + 1 := by
  have hmonth := h.month
  have hday := h.day
  unfold Date.next
  split
  · rename_i hlt
    refine ⟨⟨hmonth, Nat.le_add_left 1 _, hlt⟩, ?_⟩
    rw [number_eq, number_eq]
    push_cast
    ring
  · rename_i hlast
    have hlast : d.day = monthLength (isLeap d.year) d.month := by omega
    split
    · refine ⟨⟨by show d.month + 1 < 12; omega, le_rfl, one_le_monthLength _ _⟩, ?_⟩
      rw [number_eq, number_eq, hlast, monthStart_succ]
      push_cast
      ring
    · obtain hdec : d.month = 11 := by omega
      refine ⟨⟨by norm_num, le_rfl, one_le_monthLength _ _⟩, ?_⟩
      have htwelve := monthStart_twelve (isLeap d.year)
      rw [number_eq, number_eq, yearStart_succ, hlast, hdec]
      rw [monthStart_succ] at htwelve
      have htwelve : ((monthStart (isLeap d.year) 11 : ℕ) : ℤ) + (monthLength (isLeap d.year) 11 : ℕ) =
          if isLeap d.year then 366 else 365 := by exact_mod_cast htwelve
      show yearStart d.year + _ + ((0 : ℕ) : ℤ) + (((1 : ℕ) : ℤ) - 1) = _
      rw [← htwelve]
      push_cast
      ring

end Date

theorem dateOf_spec (n : ℤ) : (dateOf n).Valid ∧ (dateOf n).number = n := by
  obtain ⟨hn, hpos, hlt⟩ := yearOf_spec n
  unfold dateOf
  generalize yearOf n = t at hn hpos hlt ⊢
  obtain ⟨y, r⟩ := t
  obtain ⟨r, rfl⟩ := Int.eq_ofNat_of_zero_le hpos
  dsimp only at hn hlt ⊢
  have hr : r < monthStart (isLeap y) (11 + 1) := by
    rw [monthStart_twelve]
    exact_mod_cast hlt
  obtain ⟨hm, hle, hlt⟩ := monthOf_spec hr
  rw [monthStart_succ] at hlt
  rw [Int.toNat_natCast]
  refine ⟨⟨Nat.lt_succ_of_le hm, Nat.le_add_left 1 _, ?_⟩, ?_⟩
  · show r - monthStart (isLeap y) (monthOf (isLeap y) r 11) + 1 ≤ monthLength (isLeap y) (monthOf (isLeap y) r 11)
    omega
  · rw [Date.number_eq]
    push_cast [Nat.cast_sub hle]
    linarith

/-! ### The walk -/

theorem FallsOn.spec (h : FallsOn n d) : d.Valid ∧ d.number = n := by
  induction h with
  | epoch => exact ⟨⟨by decide, by decide, by decide⟩, by decide⟩
  | next _ ih =>
    obtain ⟨hvalid, hnum⟩ := ih.1.next
    exact ⟨hvalid, by rw [hnum, ih.2]⟩
  | previous hvalid _ ih =>
    refine ⟨hvalid, ?_⟩
    have := hvalid.next.2
    have := ih.2
    omega

theorem dateOf_add_one (n : ℤ) : dateOf (n + 1) = (dateOf n).next := by
  obtain ⟨hvalid, hn⟩ := dateOf_spec n
  obtain ⟨hvalid', hn'⟩ := dateOf_spec (n + 1)
  obtain ⟨hnext, hnum⟩ := hvalid.next
  exact Date.eq_of_number_eq hvalid' hnext (by rw [hn', hnum, hn])

theorem fallsOn_dateOf (n : ℤ) : FallsOn n (dateOf n) := by
  induction n using Int.induction_on with
  | zero => exact .epoch
  | succ n ih =>
    rw [dateOf_add_one]
    exact .next ih
  | pred n ih =>
    refine .previous (dateOf_spec _).1 ?_
    rwa [← dateOf_add_one, sub_add_cancel]

/-- A day falls on exactly one date. -/
theorem fallsOn_iff : FallsOn n d ↔ d = dateOf n := by
  constructor
  · intro h
    obtain ⟨hvalid, hnum⟩ := h.spec
    obtain ⟨hvalid', hnum'⟩ := dateOf_spec n
    exact Date.eq_of_number_eq hvalid hvalid' (hnum.trans hnum'.symm)
  · rintro rfl
    exact fallsOn_dateOf n

theorem FallsOn.of_number (h : d.Valid) : FallsOn d.number d := by
  obtain ⟨hvalid, hnum⟩ := dateOf_spec d.number
  exact fallsOn_iff.2 (Date.eq_of_number_eq h hvalid hnum.symm)

end Gregorian

end Groundwork
