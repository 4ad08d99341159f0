import Groundwork.Proofs.Calendar.Local

/-!
# Spells of daylight saving and of standard time

A zone's clock changes its flag at most so often (`SpellsLast`). If the rules of a zone put two changes into
every year, far enough from each other, its spells are as long (`Regular.spellsLast`): before 1970 and where
32 bits no longer hold the days, there is no change at all (`yearStart_cases`).
-/

namespace Groundwork

open Gregorian (dateOf)

namespace Change

def inYear (c : Change) (offset y : ℤ) : ℤ := 86400 * c.day.inYear y + c.time - offset

theorem instant_eq (c : Change) (offset y : ℤ) : c.instant offset y = 86400 * yearStart y + c.inYear offset y := by
  unfold instant inYear
  ring

end Change

namespace Zone

/-- The daylight flag that the clock shows is not that of a second before. -/
def ChangesAt (z : Zone) (t : ℤ) : Prop :=
  ∃ c c', z.fields (t - 1) = some c ∧ z.fields t = some c' ∧ c.isdst ≠ c'.isdst

/-- A spell of daylight saving or of standard time, from one change to the next, has at least `n` seconds. -/
def SpellsLast (z : Zone) (n : ℤ) : Prop := ∀ t t', z.ChangesAt t → z.ChangesAt t' → t < t' → t + n ≤ t'

variable {z : Zone} {c c' : Fields} {t : ℤ}

/-! ### Between two changes -/

theorem exists_changesAt (hz : z.Bounded) {a b : ℤ} (hab : a ≤ b) (ha : Moderate a) (hb : Moderate b)
    (hc : z.fields a = some c) (hc' : z.fields b = some c') (hne : c.isdst ≠ c'.isdst) :
    ∃ t, a < t ∧ t ≤ b ∧ z.ChangesAt t := by
  induction b, hab using Int.leInduction generalizing c' with
  | base =>
    rw [hc] at hc'
    cases hc'
    exact absurd rfl hne
  | succ b hab ih =>
    have hb' : Moderate b := ⟨ha.1.trans hab, by have := hb.2; omega⟩
    obtain ⟨d, hd⟩ := exists_fields hz hb'
    by_cases hsame : c.isdst = d.isdst
    · refine ⟨b + 1, by omega, le_rfl, d, c', ?_, hc', hsame ▸ hne⟩
      rw [add_sub_cancel_right]
      exact hd
    · obtain ⟨t, hlt, hle, ht⟩ := ih hb' hd hsame
      exact ⟨t, hlt, by omega, ht⟩

/-- Of two instants that a change comes between, the flag of the later holds a stride after the earlier, and
that of the earlier a stride before the later. -/
theorem isdst_one_stride_off (hz : z.Bounded) {n : ℤ} (hspell : z.SpellsLast n) {a b : ℤ} (hab : a ≤ b)
    (hn : b - a ≤ n) (ha : Moderate (b - n)) (hb : Moderate (a + n)) {ca cb : Fields} (hca : z.fields a = some ca)
    (hcb : z.fields b = some cb) (hne : ca.isdst ≠ cb.isdst) :
    (∀ c, z.fields (a + n) = some c → c.isdst = cb.isdst) ∧ ∀ c, z.fields (b - n) = some c → c.isdst = ca.isdst := by
  have ha' : Moderate a := ⟨by have := ha.1; omega, by have := hb.2; omega⟩
  have hb' : Moderate b := ⟨by have := ha.1; omega, by have := hb.2; omega⟩
  obtain ⟨t, hat, htb, ht⟩ := exists_changesAt hz hab ha' hb' hca hcb hne
  constructor
  · intro c hc
    by_contra hdiff
    obtain ⟨t', hbt', ht'a, ht'⟩ := exists_changesAt hz (by omega) hb' hb hcb hc (Ne.symm hdiff)
    have := hspell t t' ht ht' (by omega)
    omega
  · intro c hc
    by_contra hdiff
    obtain ⟨t', hbt', ht'a, ht'⟩ := exists_changesAt hz (by omega) ha ha' hc hca hdiff
    have := hspell t' t ht' ht (by omega)
    omega

/-! ### Rules with two changes a year -/

/-- Every year has two changes, `first` and `second` seconds after its start and both before its end; they are `n`
seconds apart, and so are the second and the first of the next year. In the `southern` half of the world
the first change of a year is the end of daylight saving time. -/
structure Regular (z : Zone) (d : Daylight) (southern : Bool) (first second : ℤ → ℤ) (n : ℤ) : Prop where
  daylight : z.daylight = some d
  start : ∀ y, d.start.inYear z.standard y = if southern then second y else first y
  stop : ∀ y, d.stop.inYear d.offset y = if southern then first y else second y
  pos : ∀ y, 0 < first y
  apart : ∀ y, first y + n ≤ second y
  inside : ∀ y, second y < 86400 * 365
  next : ∀ y, second y + n ≤ 86400 * 365 + first (y + 1)

def Between (first second : ℤ → ℤ) (t : ℤ) : Prop :=
  ∃ y, 1970 ≤ y ∧ Gregorian.yearStart y < 2147483648 ∧ 86400 * Gregorian.yearStart y + first y ≤ t ∧
    t < 86400 * Gregorian.yearStart y + second y

variable {d : Daylight} {southern : Bool} {first second : ℤ → ℤ} {n y : ℤ}

theorem yearStart_add_le (y : ℤ) : Gregorian.yearStart y + 365 ≤ Gregorian.yearStart (y + 1) := by
  rw [Gregorian.yearStart_succ]
  split <;> omega

theorem yearStart_unique {y' : ℤ} (hle : 86400 * Gregorian.yearStart y ≤ t)
    (hlt : t < 86400 * Gregorian.yearStart (y + 1)) (hle' : 86400 * Gregorian.yearStart y' ≤ t)
    (hlt' : t < 86400 * Gregorian.yearStart (y' + 1)) : y' = y := by
  have hmono := Gregorian.yearStart_strictMono.monotone
  rcases lt_trichotomy y' y with h | h | h
  · have := hmono (Int.add_one_le_of_lt h)
    omega
  · exact h
  · have := hmono (Int.add_one_le_of_lt h)
    omega

/-- The first day of a year is counted right from 1970 on, as long as 32 bits hold it; `y` is the year
as it is seen in 32 bits. -/
theorem yearStart_cases (hy : Fields.Holds (y - 1900)) :
    (y < 1970 ∧ y.bmod 4294967296 = y ∧ Change.yearStart y = 0) ∨
    (1970 ≤ y ∧ Gregorian.yearStart y < 2147483648 ∧ y.bmod 4294967296 = y ∧
      Change.yearStart y = Gregorian.yearStart y) ∨
    (2147483648 ≤ Gregorian.yearStart y ∧ Change.yearStart (y.bmod 4294967296) + 366 ≤ Gregorian.yearStart y) := by
  obtain ⟨hlo, hhi⟩ := hy
  have hgrow : 1970 ≤ y → 365 * (y - 1970) ≤ Gregorian.yearStart y := by
    have hepoch : Gregorian.daysBefore 1970 = 719162 := by decide
    unfold Gregorian.yearStart
    rw [hepoch]
    unfold Gregorian.daysBefore
    omega
  have hsame : y < 2147483648 → y.bmod 4294967296 = y := by
    intro hlt
    rw [Int.bmod_eq_of_le] <;> omega
  rcases lt_or_ge y 1970 with h1970 | h1970
  · exact .inl ⟨h1970, hsame (by omega), if_neg (by omega)⟩
  right
  have hnonneg := hgrow h1970
  rcases lt_or_ge (Gregorian.yearStart y) 2147483648 with hcount | hcount
  · left
    refine ⟨h1970, hcount, hsame (by omega), ?_⟩
    unfold Change.yearStart
    split
    · rw [Int.bmod_eq_of_le] <;> omega
    · obtain rfl : y = 1970 := by omega
      exact Gregorian.yearStart_epoch.symm
  · right
    refine ⟨hcount, ?_⟩
    unfold Change.yearStart
    split
    · rename_i hpos
      have hlt : y < 2147483648 := by
        by_contra hge
        have : y.bmod 4294967296 = y - 4294967296 := by
          rw [Int.bmod_def]
          omega
        omega
      rw [hsame hlt]
      generalize Gregorian.yearStart y = n at hcount
      rw [Int.bmod_def]
      omega
    · omega

namespace Regular

variable (h : z.Regular d southern first second n)
include h

theorem isDaylight_iff (hn : 0 < n) (y t : ℤ) : z.isDaylight d y t = true ↔
    (southern = true ↔ ¬ (86400 * Change.yearStart y + first y ≤ t ∧ t < 86400 * Change.yearStart y + second y)) := by
  have hstart := h.start y
  have hstop := h.stop y
  have hapart := h.apart y
  unfold isDaylight
  rw [Change.instant_eq, Change.instant_eq, hstart, hstop]
  cases southern
  · have hlt : ¬ 86400 * Change.yearStart y + second y < 86400 * Change.yearStart y + first y := by omega
    simp [hlt]
  · have hlt : 86400 * Change.yearStart y + first y < 86400 * Change.yearStart y + second y := by omega
    simp [hlt]
    omega

theorem between_iff (hy : Fields.Holds (y - 1900)) (hle : 86400 * Gregorian.yearStart y ≤ t)
    (hlt : t < 86400 * Gregorian.yearStart (y + 1)) :
    86400 * Change.yearStart (y.bmod 4294967296) + first (y.bmod 4294967296) ≤ t ∧
      t < 86400 * Change.yearStart (y.bmod 4294967296) + second (y.bmod 4294967296) ↔ Between first second t := by
  have hmono := Gregorian.yearStart_strictMono.monotone
  -- of the years counted right, a change falls into its own
  have hown : ∀ y', Gregorian.yearStart y' < 2147483648 → 86400 * Gregorian.yearStart y' + first y' ≤ t →
      t < 86400 * Gregorian.yearStart y' + second y' → y' = y := by
    intro y' _ hfirst hsecond
    have := h.pos y'
    have := h.inside y'
    have := yearStart_add_le y'
    exact yearStart_unique hle hlt (by omega) (by omega)
  rcases yearStart_cases hy with ⟨hbefore, hsame, hstart⟩ | ⟨hcounted, hcount, hsame, hstart⟩ | ⟨hcount, hstart⟩
  · rw [hsame, hstart]
    have := h.pos y
    have hend : Gregorian.yearStart (y + 1) ≤ 0 := Gregorian.yearStart_epoch ▸ hmono (show y + 1 ≤ 1970 by omega)
    refine iff_of_false (by omega) ?_
    rintro ⟨y', hy', hcount, hfirst, hsecond⟩
    have := hown y' hcount hfirst hsecond
    omega
  · rw [hsame, hstart]
    constructor
    · rintro ⟨hfirst, hsecond⟩
      exact ⟨y, hcounted, hcount, hfirst, hsecond⟩
    · rintro ⟨y', hy', hcount', hfirst, hsecond⟩
      obtain rfl := hown y' hcount' hfirst hsecond
      exact ⟨hfirst, hsecond⟩
  · have := h.inside (y.bmod 4294967296)
    refine iff_of_false (by omega) ?_
    rintro ⟨y', hy', hcount', hfirst, hsecond⟩
    obtain rfl := hown y' hcount' hfirst hsecond
    omega

theorem isdst_iff (hn : 0 < n) (hc : z.fields t = some c) :
    c.isdst = 1 ↔ (southern = true ↔ ¬ Between first second t) := by
  obtain ⟨v, b, dst, hv, hdst, -, rfl⟩ := fields_eq_some hc
  have hshows := Fields.shows_of_ofSeconds hv
  obtain ⟨hvalid, hnum⟩ := hshows.date.spec
  have hyear := hshows.year
  have hle := hvalid.year_le
  have hlt := hvalid.lt_year
  rw [hnum] at hle hlt
  have hbmod : (1900 + v.year).toInt = (dateOf (t / 86400)).year.bmod 4294967296 := by
    rw [Int32.toInt_add, hyear]
    congr 1
    show 1900 + ((dateOf (t / 86400)).year - 1900) = _
    omega
  have hholds : Fields.Holds ((dateOf (t / 86400)).year - 1900) := by
    rw [← hyear]
    exact ⟨v.year.le_toInt, v.year.toInt_lt⟩
  rw [← h.between_iff hholds (t := t) (by omega) (by omega), ← hbmod, ← h.isDaylight_iff hn]
  have hflag : z.isDaylight d (1900 + v.year).toInt t = dst := by
    unfold offsetAt at hdst
    rw [h.daylight] at hdst
    dsimp only at hdst
    split at hdst
    · rename_i hin
      exact hin.trans (congrArg Prod.snd hdst)
    · rename_i hout
      exact (Bool.eq_false_iff.2 hout).trans (congrArg Prod.snd hdst)
  rw [hflag]
  cases dst <;> simp

theorem eq_of_changesAt (hn : 0 < n) (ht : z.ChangesAt t) :
    ∃ y, t = 86400 * Gregorian.yearStart y + first y ∨ t = 86400 * Gregorian.yearStart y + second y := by
  obtain ⟨c, c', hc, hc', hne⟩ := ht
  have hflag := h.isdst_iff hn hc
  have hflag' := h.isdst_iff hn hc'
  have hdiff : ¬ (Between first second (t - 1) ↔ Between first second t) := by
    intro hsame
    rw [hsame, ← hflag'] at hflag
    obtain ⟨dst, hdst⟩ := showsAt_of_fields hc
    obtain ⟨dst', hdst'⟩ := showsAt_of_fields hc'
    rw [hdst.isdst, hdst'.isdst] at hflag hne
    cases dst <;> cases dst' <;> simp_all
  by_cases hbetween : Between first second t
  · have hnot : ¬ Between first second (t - 1) := fun hb => hdiff (iff_of_true hb hbetween)
    obtain ⟨y, hy, hcount, hfirst, hsecond⟩ := hbetween
    refine ⟨y, .inl ?_⟩
    by_contra hlt
    exact hnot ⟨y, hy, hcount, by omega, by omega⟩
  · have hb : Between first second (t - 1) := by
      by_contra hnot
      exact hdiff (iff_of_false hnot hbetween)
    obtain ⟨y, hy, hcount, hfirst, hsecond⟩ := hb
    refine ⟨y, .inr ?_⟩
    by_contra hlt
    exact hbetween ⟨y, hy, hcount, by omega, by omega⟩

theorem spellsLast (hn : 0 < n) : z.SpellsLast n := by
  intro t t' ht ht' hlt
  have hnext : ∀ {y y'}, y < y' →
      86400 * Gregorian.yearStart y + second y + n ≤ 86400 * Gregorian.yearStart y' + first y' := by
    intro y y' hyy'
    have hlength := yearStart_add_le y
    rcases eq_or_lt_of_le (Int.add_one_le_of_lt hyy') with rfl | hlater
    · have := h.next y
      omega
    · have hmono := Gregorian.yearStart_strictMono.monotone (Int.add_one_le_of_lt hlater)
      have hlength' := yearStart_add_le (y + 1)
      have := h.next y
      have := h.pos y'
      have := h.inside (y + 1)
      have := h.apart (y + 1)
      omega
  obtain ⟨y, hy⟩ := h.eq_of_changesAt hn ht
  obtain ⟨y', hy'⟩ := h.eq_of_changesAt hn ht'
  have hapart := h.apart y
  have hapart' := h.apart y'
  rcases lt_trichotomy y y' with hlater | rfl | hearlier
  · have := hnext hlater
    omega
  · omega
  · have := hnext hearlier
    omega

end Regular

/-! ### Rules that name a day of the week -/

theorem le_monthLength (leap : Bool) (month : ℕ) : 28 ≤ Gregorian.monthLength leap month := by
  unfold Gregorian.monthLength
  split
  · split <;> omega
  all_goals omega

theorem nthWeekday_lt (first : ℤ) {length : ℕ} (week dow : ℕ) (hweek : week ≤ 5) (hlength : 28 ≤ length) :
    ChangeDay.nthWeekday first length week dow < length := by
  unfold ChangeDay.nthWeekday
  dsimp only
  have hday : (((dow : ℤ) - first) % 7).toNat < 7 := by omega
  split <;> omega

theorem inYear_weekday (y : ℤ) {month : ℕ} (week dow : ℕ) (hmonth : 1 ≤ month) (hweek : week ≤ 5) :
    Gregorian.monthStart (Gregorian.isLeap y) (month - 1) ≤ (ChangeDay.weekday month week dow).inYear y ∧
      (ChangeDay.weekday month week dow).inYear y < Gregorian.monthStart (Gregorian.isLeap y) month := by
  have hlt := nthWeekday_lt (ChangeDay.firstWeekday y month) week dow hweek
    (le_monthLength (Gregorian.isLeap y) (month - 1))
  have hsucc := Gregorian.monthStart_succ (Gregorian.isLeap y) (month - 1)
  rw [Nat.sub_add_cancel hmonth] at hsucc
  show _ ≤ ((Gregorian.monthStart (Gregorian.isLeap y) (month - 1) : ℕ) : ℤ) + _ ∧
    ((Gregorian.monthStart (Gregorian.isLeap y) (month - 1) : ℕ) : ℤ) + _ < _
  omega

/-- Days of two months with another between them, neither of them January nor December, are far enough apart
for any times and offsets. -/
theorem weekdays_apart {m m' w w' : ℕ} (dow dow' : ℕ) (hm : 2 ≤ m) (hmm' : m + 2 ≤ m') (hm' : m' ≤ 11) (hw : w ≤ 5)
    (hw' : w' ≤ 5) (y : ℤ) :
    31 ≤ (ChangeDay.weekday m w dow).inYear y ∧
      (ChangeDay.weekday m w dow).inYear y + 28 < (ChangeDay.weekday m' w' dow').inYear y ∧
      (ChangeDay.weekday m' w' dow').inYear y < 335 := by
  obtain ⟨hlo, hhi⟩ := inYear_weekday y w dow (show 1 ≤ m by omega) hw
  obtain ⟨hlo', hhi'⟩ := inYear_weekday y w' dow' (show 1 ≤ m' by omega) hw'
  generalize Gregorian.isLeap y = leap at hlo hhi hlo' hhi'
  have hmono := (Gregorian.monthStart_strictMono leap).monotone
  have hfirst := hmono (show 1 ≤ m - 1 by omega)
  have hbetween := hmono (show m + 1 ≤ m' - 1 by omega)
  have hlast := hmono hm'
  have hlength := le_monthLength leap m
  have hjanuary : Gregorian.monthStart leap 1 = 31 := by cases leap <;> rfl
  have hnovember : Gregorian.monthStart leap 11 ≤ 335 := by cases leap <;> decide
  rw [Gregorian.monthStart_succ] at hbetween
  omega

/-- Rules by months that are not next to each other, nor at the ends of the year, make spells that outlast the
stride. -/
theorem spellsLast_of_weekdays (hz : z.Bounded) (hd : z.daylight = some d) {m m' w w' dow dow' : ℕ}
    (hday : d.start.day = .weekday m w dow) (hday' : d.stop.day = .weekday m' w' dow') (hm : 2 ≤ m ∧ m ≤ 11)
    (hm' : 2 ≤ m' ∧ m' ≤ 11) (hapart : m + 2 ≤ m' ∨ m' + 2 ≤ m) (hw : w ≤ 5) (hw' : w' ≤ 5)
    (ht : -604800 ≤ d.start.time ∧ d.start.time ≤ 604800)
    (ht' : -604800 ≤ d.stop.time ∧ d.stop.time ≤ 604800) : z.SpellsLast Clock.stride := by
  have hstandard : -93600 ≤ z.standard ∧ z.standard ≤ 93600 := by simpa [Zone.offset] using hz false
  have hoffset : -93600 ≤ d.offset ∧ d.offset ≤ 93600 := by simpa [Zone.offset, hd] using hz true
  have hstride : Clock.stride = 601200 := rfl
  have hstart : ∀ y, d.start.inYear z.standard y =
      86400 * (ChangeDay.weekday m w dow).inYear y + d.start.time - z.standard := fun _ => by rw [← hday]; rfl
  have hstop : ∀ y, d.stop.inYear d.offset y =
      86400 * (ChangeDay.weekday m' w' dow').inYear y + d.stop.time - d.offset := fun _ => by rw [← hday']; rfl
  rcases hapart with h | h
  · have hdays := weekdays_apart dow dow' hm.1 h hm'.2 hw hw'
    have hregular : z.Regular d false (d.start.inYear z.standard) (d.stop.inYear d.offset) Clock.stride := by
      refine ⟨hd, fun _ => rfl, fun _ => rfl, fun y => ?_, fun y => ?_, fun y => ?_, fun y => ?_⟩
      all_goals
        have := hdays y
        have := hdays (y + 1)
        have := hstart y
        have := hstart (y + 1)
        have := hstop y
        omega
    exact hregular.spellsLast (by decide)
  · have hdays := weekdays_apart dow' dow hm'.1 h hm.2 hw' hw
    have hregular : z.Regular d true (d.stop.inYear d.offset) (d.start.inYear z.standard) Clock.stride := by
      refine ⟨hd, fun _ => rfl, fun _ => rfl, fun y => ?_, fun y => ?_, fun y => ?_, fun y => ?_⟩
      all_goals
        have := hdays y
        have := hdays (y + 1)
        have := hstart y
        have := hstop y
        have := hstop (y + 1)
        omega
    exact hregular.spellsLast (by decide)

end Zone

end Groundwork
