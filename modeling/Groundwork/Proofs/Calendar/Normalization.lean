import Groundwork.Proofs.Calendar.Probing
import Groundwork.Proofs.Calendar.Universal

/-!
# Fields of any value in universal time

`Fields.Denotes c t`: the months of `c` are carried into years, and days, hours, minutes and seconds counted on from
the first of the month, whatever they are; that makes the instant `t`. The search for the instant of `c` has one guess
to make, the instant of the fields with their seconds brought into a minute (`Fields.clamped`), and the seconds left
out are added to what it finds. So it needs both instants to have a year that fits (`instant?_ofSeconds_eq_some_iff`).
-/

namespace Groundwork

open Gregorian (Date FallsOn dateOf)

namespace Fields

/-- The instant that fields of any value stand for in universal time. -/
def Denotes (c : Fields) (t : ℤ) : Prop :=
  ∃ n, FallsOn n ⟨1900 + c.year.toInt + c.mon.toInt / 12, (c.mon.toInt % 12).toNat, 1⟩ ∧
    t = 86400 * (n + c.mday.toInt - 1) + 3600 * c.hour.toInt + 60 * c.min.toInt + c.sec.toInt

/-- The year of the date of an instant is one that a field holds. -/
def YearFits (t : ℤ) : Prop := ∃ d, FallsOn (t / 86400) d ∧ Holds (d.year - 1900)

variable {c : Fields} {s t k : ℤ}

/-! ### Years that fit -/

theorem yearFits_iff : YearFits t ↔ ∃ c, ofSeconds t = some c := by
  constructor
  · rintro ⟨d, hd, hyear⟩
    rw [Gregorian.fallsOn_iff.1 hd] at hyear
    obtain ⟨c, hc, -⟩ := ofSeconds_of_holds hyear
    exact ⟨c, hc⟩
  · rintro ⟨c, hc⟩
    refine ⟨dateOf (t / 86400), Gregorian.fallsOn_dateOf _, ?_⟩
    by_contra hyear
    rw [ofSeconds_of_not_holds hyear] at hc
    cases hc

theorem yearStart_sum (y : ℤ) : Gregorian.yearStart y =
    365 * (y - 1) + (y - 1) / 4 - (y - 1) / 100 + (y - 1) / 400 - 719162 := rfl

theorem yearStart_bounds {n : ℤ} {d : Date} (h : FallsOn n d) :
    Gregorian.yearStart d.year ≤ n ∧ n < Gregorian.yearStart (d.year + 1) := by
  obtain ⟨hvalid, rfl⟩ := h.spec
  exact ⟨hvalid.year_le, hvalid.lt_year⟩

/-- The years up to here are far below what a field holds. -/
theorem yearFits_of_abs_le (h : |t| ≤ 67000000000000000) : YearFits t := by
  obtain ⟨hlo, hhi⟩ := abs_le.1 h
  have hdate := Gregorian.fallsOn_dateOf (t / 86400)
  obtain ⟨hfirst, hnext⟩ := yearStart_bounds hdate
  rw [yearStart_sum] at hfirst hnext
  exact ⟨_, hdate, by omega, by omega⟩

theorem abs_le_of_yearFits (h : YearFits t) : |t| ≤ 68000000000000000 := by
  obtain ⟨d, hdate, hlo, hhi⟩ := h
  obtain ⟨hfirst, hnext⟩ := yearStart_bounds hdate
  rw [yearStart_sum] at hfirst hnext
  rw [abs_le]
  omega

/-! ### What fields denote -/

theorem monthStart_le (leap : Bool) {m : ℕ} (hm : m < 12) : Gregorian.monthStart leap m ≤ 366 := by
  have hle := (Gregorian.monthStart_strictMono leap).monotone hm.le
  rw [Gregorian.monthStart_twelve] at hle
  split at hle <;> omega

theorem denotes_iff : c.Denotes t ↔ t = c.seconds := by
  have hvalid : Date.Valid ⟨1900 + c.year.toInt + c.mon.toInt / 12, (c.mon.toInt % 12).toNat, 1⟩ :=
    ⟨by show (c.mon.toInt % 12).toNat < 12; omega, le_rfl, Gregorian.one_le_monthLength _ _⟩
  have hnum : Date.number ⟨1900 + c.year.toInt + c.mon.toInt / 12, (c.mon.toInt % 12).toNat, 1⟩ = c.monthDay := by
    rw [Date.number_eq, Nat.cast_one, sub_self, add_zero]
    rfl
  have hsec : c.seconds = 86400 * (c.monthDay + c.mday.toInt - 1) + 3600 * c.hour.toInt + 60 * c.min.toInt +
      c.sec.toInt := rfl
  constructor
  · rintro ⟨n, hn, rfl⟩
    rw [← hn.spec.2, hnum, hsec]
  · rintro rfl
    exact ⟨_, FallsOn.of_number hvalid, by rw [hnum, hsec]⟩

theorem secondsWith_eq (c : Fields) (s : ℤ) : c.secondsWith s = c.seconds - c.sec.toInt + s := by
  unfold seconds secondsWith
  ring

theorem abs_monthDay_le (c : Fields) (hk : |c.year.toInt| ≤ k) : |c.monthDay| ≤ 366 * (k + 178957100) := by
  have hstart := monthStart_le (Gregorian.isLeap c.gregorianYear) (show (c.mon.toInt % 12).toNat < 12 by omega)
  have hmonth : c.monthDay = Gregorian.yearStart c.gregorianYear +
      Gregorian.monthStart (Gregorian.isLeap c.gregorianYear) (c.mon.toInt % 12).toNat := rfl
  have hyear : c.gregorianYear = 1900 + c.year.toInt + c.mon.toInt / 12 := rfl
  have := c.mon.le_toInt
  have := c.mon.toInt_lt
  rw [hmonth]
  generalize Gregorian.monthStart _ _ = m at hstart
  rw [yearStart_sum]
  obtain ⟨hlo, hhi⟩ := abs_le.1 hk
  rw [abs_le]
  omega

theorem abs_secondsWith_le (c : Fields) (hk : |c.year.toInt| ≤ k) :
    |c.secondsWith s| ≤ 31622400 * k + 6000000000000000 + |s| := by
  have hdef : c.secondsWith s =
      86400 * (c.monthDay + c.mday.toInt - 1) + 3600 * c.hour.toInt + 60 * c.min.toInt + s := rfl
  have := c.mday.le_toInt
  have := c.mday.toInt_lt
  have := c.hour.le_toInt
  have := c.hour.toInt_lt
  have := c.min.le_toInt
  have := c.min.toInt_lt
  have := le_abs_self s
  have := neg_abs_le s
  obtain ⟨hlo, hhi⟩ := abs_le.1 (c.abs_monthDay_le hk)
  rw [abs_le, hdef]
  omega

/-- The same fields with the seconds brought into a minute. -/
def clamped (c : Fields) : Fields := { c with sec := Int32.ofInt (Clock.clampedSecond c) }

theorem toInt_clamped (c : Fields) : c.clamped.sec.toInt = Clock.clampedSecond c := by
  have := Clock.clampedSecond_mem c
  exact toInt_ofInt ⟨by omega, by omega⟩

theorem seconds_clamped (c : Fields) : c.clamped.seconds = c.secondsWith (Clock.clampedSecond c) := by
  rw [← toInt_clamped]
  rfl

end Fields

namespace Clock

open Fields (ofSeconds YearFits yearFits_iff)

variable {c shown : Fields} {t : ℤ}

theorem first_guess (c : Fields) : c.secondsWith (clampedSecond c) - (-(0 : Int32)).toInt = c.clamped.seconds := by
  rw [Fields.seconds_clamped]
  exact sub_zero _

/-- Where the clock has no fields at the guess, every step leads back to it. -/
theorem instant?_of_clamped_none (h : ofSeconds c.clamped.seconds = none) : instant? ofSeconds c = none := by
  have hprobe : probe ofSeconds c (clampedSecond c) 6 c.clamped.seconds c.clamped.seconds c.clamped.seconds false =
      none := by
    cases hn : nearest ofSeconds c.clamped.seconds with
    | none => simp [probe, hn]
    | some found =>
      obtain ⟨u, shown⟩ := found
      have hshown := nearest_eq_some hn
      have hback : u + difference c (clampedSecond c) shown = c.clamped.seconds := by
        have hsec : shown.seconds = u := (Fields.shows_of_ofSeconds hshown).secondsWith
        rw [Fields.seconds_clamped, difference, hsec]
        ring
      have hne : u ≠ c.clamped.seconds := by
        rintro rfl
        rw [h] at hshown
        cases hshown
      exact probe_eq_none hn (by omega) hback fun h => absurd h hne
  rw [instant?, instantFrom?]
  dsimp only
  rw [first_guess, hprobe]
  rfl

/-- The guess shows the clamped fields, so only the seconds left out are still to be added. -/
theorem instant?_of_clamped_some (hflag : c.isdst = 0)
    (hcounted : leastInstant ≤ c.clamped.seconds ∧ c.clamped.seconds ≤ greatestInstant)
    (h : ofSeconds c.clamped.seconds = some shown) :
    instant? ofSeconds c = (ofSeconds c.seconds).map fun _ => c.seconds := by
  have hshows := Fields.shows_of_ofSeconds h
  have hsec : shown.seconds = c.clamped.seconds := hshows.secondsWith
  have hprobe : probe ofSeconds c (clampedSecond c) 6 c.clamped.seconds c.clamped.seconds c.clamped.seconds false =
      some (.exact c.clamped.seconds shown) :=
    probe_of_eq (nearest_of_eq_some h hcounted) (by rw [difference, hsec, Fields.seconds_clamped, sub_self])
  have hsettle : settle ofSeconds c (clampedSecond c) c.clamped.seconds shown = some (c.clamped.seconds, shown) :=
    settle_of_not_differs (by rw [hflag, hshows.isdst, flagDiffers_self])
  have hshown : shown.sec.toInt = clampedSecond c := by
    have hdef : c.clamped.seconds = 86400 * (c.monthDay + c.mday.toInt - 1) + 3600 * c.hour.toInt +
        60 * c.min.toInt + clampedSecond c := Fields.seconds_clamped c
    have := clampedSecond_mem c
    have := hshows.time
    have := hshows.sec
    omega
  have hback : c.clamped.seconds - clampedSecond c + c.sec.toInt = c.seconds := by
    rw [Fields.seconds_clamped, Fields.secondsWith_eq]
    ring
  rw [instant?, instantFrom?]
  dsimp only
  rw [first_guess, hprobe]
  simp only [Option.bind_eq_bind, Option.bind_some, hsettle]
  by_cases hsame : c.sec = shown.sec
  · have hinstant : c.clamped.seconds = c.seconds := by
      rw [← hback, ← hshown, ← hsame]
      ring
    rw [if_pos hsame, ← hinstant, h]
    rfl
  · rw [if_neg hsame, hback]
    cases ofSeconds c.seconds <;> rfl

theorem instant?_ofSeconds_eq_some_iff (hflag : c.isdst = 0)
    (hcounted : leastInstant ≤ c.clamped.seconds ∧ c.clamped.seconds ≤ greatestInstant) :
    instant? ofSeconds c = some t ↔ t = c.seconds ∧ YearFits c.seconds ∧ YearFits c.clamped.seconds := by
  rw [yearFits_iff, yearFits_iff]
  cases h : ofSeconds c.clamped.seconds with
  | none => simp [instant?_of_clamped_none h]
  | some shown =>
    rw [instant?_of_clamped_some hflag hcounted h]
    cases ofSeconds c.seconds <;> simp [eq_comm]

end Clock

namespace Zone

open Fields (YearFits)

variable (z : Zone) {past : Past} {c : Fields} {t : ℤ}

theorem counted_of_abs_year_le (c : Fields) {s : ℤ} (hs : |s| ≤ 2147483648) :
    Clock.leastInstant ≤ c.secondsWith s ∧ c.secondsWith s ≤ Clock.greatestInstant := by
  have hyear : |c.year.toInt| ≤ 2147483648 := abs_le.2 ⟨c.year.le_toInt, by have := c.year.toInt_lt; omega⟩
  obtain ⟨hlo, hhi⟩ := abs_le.1 (Fields.abs_secondsWith_le (s := s) c hyear)
  unfold Clock.leastInstant Clock.greatestInstant
  omega

theorem instant?_utc_eq_some_iff : Clock.instant? Fields.ofSeconds { c with isdst := 0 } = some t ↔
    t = c.seconds ∧ YearFits c.seconds ∧ YearFits c.clamped.seconds := by
  have hmem := Clock.clampedSecond_mem c
  have hcounted := counted_of_abs_year_le c (s := Clock.clampedSecond c) (abs_le.2 (by omega))
  rw [← Fields.seconds_clamped] at hcounted
  exact @Clock.instant?_ofSeconds_eq_some_iff { c with isdst := 0 } t rfl hcounted

theorem fromCalendarIn_utc_of_yearFits (past : Past) (h : YearFits c.seconds ∧ YearFits c.clamped.seconds) :
    z.fromCalendarIn past .utc c = judged c.seconds past.leftover :=
  z.fromCalendarIn_utc_of_eq_some (instant?_utc_eq_some_iff.2 ⟨rfl, h⟩)

theorem fromCalendarIn_utc_of_not_yearFits (past : Past) (h : ¬ (YearFits c.seconds ∧ YearFits c.clamped.seconds)) :
    z.fromCalendarIn past .utc c = .error (.linear .overflow) := by
  have hnone : Clock.instant? Fields.ofSeconds { c with isdst := 0 } = none :=
    Option.eq_none_iff_forall_ne_some.2 fun t ht => h (instant?_utc_eq_some_iff.1 ht).2
  unfold fromCalendarIn
  dsimp only [clock]
  rw [hnone]
  rfl

theorem yearFits_of_abs_year_le (hyear : |c.year.toInt| ≤ 1900000000) :
    YearFits c.seconds ∧ YearFits c.clamped.seconds := by
  have hfits : ∀ s : ℤ, |s| ≤ 2147483648 → YearFits (c.secondsWith s) := fun s hs =>
    Fields.yearFits_of_abs_le (by have := Fields.abs_secondsWith_le (s := s) c hyear; omega)
  have hmem := Clock.clampedSecond_mem c
  refine ⟨hfits _ (abs_le.2 ⟨c.sec.le_toInt, by have := c.sec.toInt_lt; omega⟩), ?_⟩
  rw [Fields.seconds_clamped]
  exact hfits _ (abs_le.2 (by omega))

/-- The clamped fields are too close to the second before the epoch to have another year than one that fits. -/
theorem yearFits_of_neg_one (hminus : c.seconds = -1) : YearFits c.seconds ∧ YearFits c.clamped.seconds := by
  have hmem := Clock.clampedSecond_mem c
  have hlo := c.sec.le_toInt
  have hhi := c.sec.toInt_lt
  refine ⟨hminus ▸ Fields.yearFits_of_abs_le (by norm_num), ?_⟩
  rw [Fields.seconds_clamped, Fields.secondsWith_eq, hminus]
  exact Fields.yearFits_of_abs_le (abs_le.2 (by omega))

theorem fromCalendarIn_utc_congr (past : Past) (c : Fields) (wday yday isdst : Int32) :
    z.fromCalendarIn past .utc { c with wday, yday, isdst } = z.fromCalendarIn past .utc c := by
  by_cases hfits : YearFits c.seconds ∧ YearFits c.clamped.seconds
  · rw [z.fromCalendarIn_utc_of_yearFits past hfits]
    exact z.fromCalendarIn_utc_of_yearFits past hfits
  · rw [z.fromCalendarIn_utc_of_not_yearFits past hfits]
    exact z.fromCalendarIn_utc_of_not_yearFits past hfits

theorem exists_toCalendar_utc_of_fromCalendarIn (h : z.fromCalendarIn past .utc c = .ok t) :
    t = c.seconds ∧ ∃ n, z.toCalendar .utc t = .ok n ∧
      ∀ later : Past, later.leftover = none → z.fromCalendarIn later .utc n = .ok t := by
  by_cases hfits : YearFits c.seconds ∧ YearFits c.clamped.seconds
  · rw [z.fromCalendarIn_utc_of_yearFits past hfits] at h
    obtain rfl := eq_of_judged_eq_ok h
    obtain ⟨n, hn⟩ := Fields.yearFits_iff.1 hfits.1
    have hcounted := counted_of_abs_year_le c (abs_le.2 ⟨c.sec.le_toInt, by have := c.sec.toInt_lt; omega⟩)
    refine ⟨rfl, n, (z.toCalendar_utc_eq_ok_iff).2 hn, fun later hleft => ?_⟩
    rw [z.fromCalendarIn_utc later hn hcounted, judged_eq_ok fun _ => hleft]
  · rw [z.fromCalendarIn_utc_of_not_yearFits past hfits] at h
    cases h

/-- Fields of any value stand for one instant in universal time. That instant is what is made of them if its year fits
and that of the instant of the clamped fields does, and otherwise nothing is. The one exception is the second before the
epoch, which fails where looking for the zone's file leaves an error behind. -/
theorem fromCalendarIn_utc_normalizes (past : Past) (c : Fields) : ∃ t u,
    (∀ v, c.Denotes v ↔ v = t) ∧ (∀ v, c.clamped.Denotes v ↔ v = u) ∧
    (YearFits t ∧ YearFits u → (t = -1 → past.leftover = none) → z.fromCalendarIn past .utc c = .ok t) ∧
    (∀ e, t = -1 → past.leftover = some e → z.fromCalendarIn past .utc c = .error (.linear e)) ∧
    (¬ (YearFits t ∧ YearFits u) → z.fromCalendarIn past .utc c = .error (.linear .overflow)) ∧
    (|c.year.toInt| ≤ 1900000000 ∨ t = -1 → YearFits t ∧ YearFits u) ∧
    (∀ wday yday isdst, z.fromCalendarIn past .utc { c with wday, yday, isdst } = z.fromCalendarIn past .utc c) ∧
    ∀ v, z.fromCalendarIn past .utc c = .ok v → v = t ∧ ∃ n, z.toCalendar .utc v = .ok n ∧
      ∀ later : Past, later.leftover = none → z.fromCalendarIn later .utc n = .ok v := by
  refine ⟨c.seconds, c.clamped.seconds, fun v => Fields.denotes_iff, fun v => Fields.denotes_iff, fun hfits hleft => ?_,
    fun e hminus hleft => ?_, z.fromCalendarIn_utc_of_not_yearFits past, ?_, z.fromCalendarIn_utc_congr past c,
    fun v => z.exists_toCalendar_utc_of_fromCalendarIn⟩
  · rw [z.fromCalendarIn_utc_of_yearFits past hfits, judged_eq_ok hleft]
  · rw [z.fromCalendarIn_utc_of_yearFits past (yearFits_of_neg_one hminus), hminus, hleft, judged_neg_one]
  · rintro (hyear | hminus)
    · exact yearFits_of_abs_year_le hyear
    · exact yearFits_of_neg_one hminus

/-- A second before month 12 of 2023 as the first fields of a process, and a second before the epoch as later ones. -/
theorem fromCalendarIn_utc_normalizes_carry :
    (∃ c : Fields, c = ⟨-1, 0, 0, 1, 12, 123, 0, 0, -1⟩ ∧ |c.year.toInt| ≤ 1900000000 ∧ c.Denotes 1704067199 ∧
      utc.fromCalendarIn ⟨0, some .noFile⟩ .utc c = .ok 1704067199) ∧
    utc.fromCalendarIn ⟨3600, none⟩ .utc ⟨-1, 0, 0, 1, 0, 70, 0, 0, 0⟩ = .ok (-1) := by
  constructor
  · have hdenotes : Fields.Denotes ⟨-1, 0, 0, 1, 12, 123, 0, 0, -1⟩ 1704067199 := Fields.denotes_iff.2 (by decide)
    have hyear : |(123 : Int32).toInt| ≤ 1900000000 := by decide
    obtain ⟨t, u, ht, -, hok, -, -, hfits, -⟩ :=
      utc.fromCalendarIn_utc_normalizes ⟨0, some .noFile⟩ ⟨-1, 0, 0, 1, 12, 123, 0, 0, -1⟩
    obtain rfl := (ht _).1 hdenotes
    exact ⟨_, rfl, hyear, hdenotes, hok (hfits (.inl hyear)) (by decide)⟩
  · obtain ⟨t, u, ht, -, hok, -, -, hfits, -⟩ :=
      utc.fromCalendarIn_utc_normalizes ⟨3600, none⟩ ⟨-1, 0, 0, 1, 0, 70, 0, 0, 0⟩
    obtain rfl := (ht (-1)).1 (Fields.denotes_iff.2 (by decide))
    exact hok (hfits (.inr rfl)) fun _ => rfl

/-- The fields of the second before the epoch fail as the first ones of a process whose zone has no file, though the
years fit and the same fields are that second from then on. -/
theorem fromCalendarIn_utc_first_neg_one :
    ∃ c : Fields, c = ⟨59, 59, 23, 31, 11, 69, 0, 0, 0⟩ ∧ c.Denotes (-1) ∧ c.clamped.Denotes (-1) ∧ YearFits (-1) ∧
      |c.year.toInt| ≤ 1900000000 ∧ utc.fromCalendarIn ⟨0, some .noFile⟩ .utc c = .error (.linear .noFile) ∧
      utc.fromCalendarIn ⟨0, none⟩ .utc c = .ok (-1) :=
  ⟨_, rfl, Fields.denotes_iff.2 (by decide), Fields.denotes_iff.2 (by decide),
    Fields.yearFits_of_abs_le (by norm_num), by decide, by decide, by decide⟩

end Zone

end Groundwork
