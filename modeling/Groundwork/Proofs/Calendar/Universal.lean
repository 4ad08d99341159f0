import Groundwork.Calendar.Conversion
import Groundwork.Proofs.Calendar.Gregorian

/-!
# Universal time

`Fields.Shows c s d`: the fields `c` are those of instant `s`, which is on the date `d`. An instant has
such fields exactly if the year of its date fits (`ofSeconds_eq`), the search for the instant of fields
finds it at the first guess (`instant?_ofSeconds`), and later instants have later fields
(`reading_lt`).
-/

namespace Groundwork

open Gregorian (Date FallsOn dateOf)

namespace Fields

/-- The fields of instant `s` on the date `d`, each in its range. -/
structure Shows (c : Fields) (s : ℤ) (d : Date) : Prop where
  date : FallsOn (s / 86400) d
  year : c.year.toInt = d.year - 1900
  mon : c.mon.toInt = d.month ∧ d.month ≤ 11
  mday : c.mday.toInt = d.day ∧ 1 ≤ d.day ∧ d.day ≤ Gregorian.monthLength (Gregorian.isLeap d.year) d.month
  time : 3600 * c.hour.toInt + 60 * c.min.toInt + c.sec.toInt = s % 86400
  hour : 0 ≤ c.hour.toInt ∧ c.hour.toInt ≤ 23
  min : 0 ≤ c.min.toInt ∧ c.min.toInt ≤ 59
  sec : 0 ≤ c.sec.toInt ∧ c.sec.toInt ≤ 59
  wday : c.wday.toInt = (4 + s / 86400) % 7
  yday : FallsOn (s / 86400 - c.yday.toInt) ⟨d.year, 0, 1⟩ ∧ 0 ≤ c.yday.toInt ∧ c.yday.toInt ≤ 365
  isdst : c.isdst = 0

def reading (c : Fields) : List ℤ :=
  [c.year.toInt, c.mon.toInt, c.mday.toInt, c.hour.toInt, c.min.toInt, c.sec.toInt]

variable {c c' : Fields} {s s' i : ℤ} {d d' : Date}

theorem toInt_ofInt (h : Holds i) : (Int32.ofInt i).toInt = i :=
  Int32.toInt_ofInt_of_le (by have := h.1; omega) (by have := h.2; omega)

theorem toInt_ofNat {n : ℕ} (h : n < 2147483648) : (Int32.ofNat n).toInt = n :=
  Int32.toInt_ofNat_of_lt h

/-! ### Breaking down -/

theorem ofSeconds_eq (s : ℤ) : ofSeconds s =
    let d := dateOf (s / 86400)
    if Holds (d.year - 1900) then
      some ⟨.ofInt (s % 86400 % 60), .ofInt (s % 86400 / 60 % 60), .ofInt (s % 86400 / 3600), .ofInt d.day,
        .ofNat d.month, .ofInt (d.year - 1900), .ofInt (Gregorian.weekday (s / 86400)),
        .ofInt (s / 86400 - Gregorian.yearStart d.year), 0⟩
    else none := by
  obtain ⟨hn, -⟩ := Gregorian.yearOf_spec (s / 86400)
  have hyday : (Gregorian.yearOf (s / 86400)).2 = s / 86400 - Gregorian.yearStart (dateOf (s / 86400)).year := by
    show _ = s / 86400 - Gregorian.yearStart (Gregorian.yearOf (s / 86400)).1
    omega
  have hday : (Gregorian.yearOf (s / 86400)).2 - Gregorian.monthStart (Gregorian.isLeap (dateOf (s / 86400)).year)
      (dateOf (s / 86400)).month + 1 = (dateOf (s / 86400)).day := by
    have hnum := (Gregorian.dateOf_spec (s / 86400)).2
    rw [Date.number_eq] at hnum
    omega
  rw [hyday] at hday
  dsimp only
  rw [← hday, ← hyday]
  rfl

theorem ofSeconds_of_not_holds (h : ¬ Holds ((dateOf (s / 86400)).year - 1900)) : ofSeconds s = none := by
  rw [ofSeconds_eq]
  exact if_neg h

theorem ofSeconds_of_holds (h : Holds ((dateOf (s / 86400)).year - 1900)) :
    ∃ c, ofSeconds s = some c ∧ c.Shows s (dateOf (s / 86400)) := by
  obtain ⟨hvalid, hnum⟩ := Gregorian.dateOf_spec (s / 86400)
  rw [ofSeconds_eq]
  refine ⟨_, if_pos h, ?_⟩
  generalize hd : dateOf (s / 86400) = d at h hvalid hnum ⊢
  have hmon := hvalid.month
  have hday := hvalid.day
  have hlen := Gregorian.monthLength_le (Gregorian.isLeap d.year) d.month
  have hyear := hvalid.year_le
  have hnext := hvalid.lt_year
  rw [Gregorian.yearStart_succ] at hnext
  have hyday : 0 ≤ s / 86400 - Gregorian.yearStart d.year ∧ s / 86400 - Gregorian.yearStart d.year ≤ 365 := by
    split at hnext <;> omega
  have hsec : (Int32.ofInt (s % 86400 % 60)).toInt = s % 86400 % 60 := toInt_ofInt ⟨by omega, by omega⟩
  have hmin : (Int32.ofInt (s % 86400 / 60 % 60)).toInt = s % 86400 / 60 % 60 := toInt_ofInt ⟨by omega, by omega⟩
  have hhour : (Int32.ofInt (s % 86400 / 3600)).toInt = s % 86400 / 3600 := toInt_ofInt ⟨by omega, by omega⟩
  have hfirst : FallsOn (Gregorian.yearStart d.year) ⟨d.year, 0, 1⟩ := by
    have := FallsOn.of_number (d := ⟨d.year, 0, 1⟩) ⟨by norm_num, le_rfl, Gregorian.one_le_monthLength _ _⟩
    simpa [Date.number, Gregorian.monthStart] using this
  exact {
    date := Gregorian.fallsOn_iff.2 hd.symm
    year := toInt_ofInt h
    mon := ⟨toInt_ofNat (by omega), by omega⟩
    mday := ⟨toInt_ofInt ⟨by omega, by omega⟩, hvalid.pos, hday⟩
    time := by rw [hsec, hmin, hhour]; omega
    hour := by rw [hhour]; omega
    min := by rw [hmin]; omega
    sec := by rw [hsec]; omega
    wday := toInt_ofInt (by unfold Gregorian.weekday; exact ⟨by omega, by omega⟩)
    yday := by
      rw [toInt_ofInt ⟨by omega, by omega⟩, sub_sub_cancel]
      exact ⟨hfirst, hyday⟩
    isdst := rfl }

theorem shows_of_ofSeconds (h : ofSeconds s = some c) : c.Shows s (dateOf (s / 86400)) := by
  by_cases hy : Holds ((dateOf (s / 86400)).year - 1900)
  · obtain ⟨c', hc', hshows⟩ := ofSeconds_of_holds hy
    rw [hc'] at h
    cases h
    exact hshows
  · rw [ofSeconds_of_not_holds hy] at h
    cases h

/-! ### Building up -/

theorem Shows.secondsWith (h : c.Shows s d) : c.secondsWith c.sec.toInt = s := by
  obtain ⟨hvalid, hnum⟩ := h.date.spec
  have hyear := h.year
  have hmon := h.mon
  have hmday := h.mday.1
  have htime := h.time
  have hy : c.gregorianYear = d.year := by
    unfold gregorianYear
    omega
  have hm : (c.mon.toInt % 12).toNat = d.month := by omega
  rw [Date.number_eq] at hnum
  rw [Fields.secondsWith, monthDay, hy, hm]
  omega

/-! ### Order -/

/-- Of two days the dates decide, and within a day the time. -/
theorem reading_lt (h : c.Shows s d) (h' : c'.Shows s' d') (hlt : s < s') : c.reading < c'.reading := by
  have hy := h.year
  have hy' := h'.year
  have hm := h.mon.1
  have hm' := h'.mon.1
  have hd := h.mday.1
  have hd' := h'.mday.1
  simp only [reading, List.cons_lt_cons_iff, lt_self_iff_false, and_false, or_false]
  rcases lt_or_eq_of_le (Int.ediv_le_ediv (by norm_num : (0 : ℤ) < 86400) hlt.le) with hday | hday
  · obtain ⟨hvalid, hnum⟩ := h.date.spec
    obtain ⟨hvalid', hnum'⟩ := h'.date.spec
    have hb : d.Before d' := (Date.number_lt_iff hvalid hvalid').1 (by rw [hnum, hnum']; exact hday)
    unfold Date.Before at hb
    omega
  · obtain rfl : d = d' := by
      have hdate := h.date
      rw [hday, Gregorian.fallsOn_iff, ← Gregorian.fallsOn_iff.1 h'.date] at hdate
      exact hdate
    have ht := h.time
    have ht' := h'.time
    have hmin := h.min
    have hmin' := h'.min
    have hsec := h.sec
    have hsec' := h'.sec
    omega

end Fields

namespace Clock

variable {c : Fields} {s : ℤ}

theorem instant?_ofSeconds (h : Fields.ofSeconds s = some c) (hs : leastInstant ≤ s ∧ s ≤ greatestInstant) :
    instant? Fields.ofSeconds c = some s := by
  have hshows := Fields.shows_of_ofSeconds h
  have hclamp : clampedSecond c = c.sec.toInt := by
    have := hshows.sec
    unfold clampedSecond
    omega
  have hguess := hshows.secondsWith
  have hnearest : nearest Fields.ofSeconds s = some (s, c) := by
    have : max leastInstant (min s greatestInstant) = s := by omega
    simp only [nearest, this, h]
  have hzero : difference c c.sec.toInt c = 0 := sub_self _
  have hflag : flagDiffers c.isdst c.isdst = false := by simp [flagDiffers]
  simp [instant?, instantFrom?, hclamp, hguess, probe, hnearest, hzero, settle, hflag]

end Clock

namespace Zone

variable (z : Zone) {c : Fields} {s : ℤ}

theorem toCalendar_utc_eq (s : ℤ) : z.toCalendar .utc s =
    match Fields.ofSeconds s with
    | some c => .ok c
    | none => .error (.calendar s .overflow) := rfl

theorem toCalendar_utc_eq_ok_iff : z.toCalendar .utc s = .ok c ↔ Fields.ofSeconds s = some c := by
  rw [toCalendar_utc_eq]
  cases Fields.ofSeconds s <;> simp

theorem fromCalendarIn_utc (past : Past) (h : Fields.ofSeconds s = some c)
    (hs : Clock.leastInstant ≤ s ∧ s ≤ Clock.greatestInstant) :
    z.fromCalendarIn past .utc c = judged s past.leftover := by
  have hflag : { c with isdst := 0 } = c := by
    have := (Fields.shows_of_ofSeconds h).isdst
    cases c
    cases this
    rfl
  have hfound := Clock.instant?_ofSeconds h hs
  rw [← hflag] at hfound
  exact z.fromCalendarIn_utc_of_eq_some hfound

/-- An instant has fields in universal time exactly if the year of its date fits. They are those of the
date and of the time of day, they stand for that instant and no other, and they come in the order of the
instants. -/
theorem toCalendar_utc_shows :
    (∀ s : Int64, ∃ d, (∀ e, FallsOn (s.toInt / 86400) e ↔ e = d) ∧
      if -2 ^ 31 ≤ d.year - 1900 ∧ d.year - 1900 < 2 ^ 31 then
        ∃ c, z.toCalendar .utc s.toInt = .ok c ∧ c.Shows s.toInt d ∧ z.fromCalendar .utc c = .ok s.toInt
      else z.toCalendar .utc s.toInt = .error (.calendar s.toInt .overflow)) ∧
    ∀ (s s' : Int64) (c c' : Fields), s < s' → z.toCalendar .utc s.toInt = .ok c →
      z.toCalendar .utc s'.toInt = .ok c' → c.reading < c'.reading := by
  constructor
  · intro s
    refine ⟨dateOf (s.toInt / 86400), fun e => Gregorian.fallsOn_iff, ?_⟩
    have hs : Clock.leastInstant ≤ s.toInt ∧ s.toInt ≤ Clock.greatestInstant := by
      have hlo := s.le_toInt
      have hhi := s.toInt_lt
      unfold Clock.leastInstant Clock.greatestInstant
      omega
    split
    · rename_i hy
      obtain ⟨c, hc, hshows⟩ := Fields.ofSeconds_of_holds hy
      exact ⟨c, (z.toCalendar_utc_eq_ok_iff).2 hc, hshows, z.fromCalendarIn_utc ⟨0, none⟩ hc hs⟩
    · rename_i hy
      rw [toCalendar_utc_eq, Fields.ofSeconds_of_not_holds hy]
  · intro s s' c c' hlt hc hc'
    rw [toCalendar_utc_eq_ok_iff] at hc hc'
    exact Fields.reading_lt (Fields.shows_of_ofSeconds hc) (Fields.shows_of_ofSeconds hc')
      (Int64.lt_iff_toInt_lt.1 hlt)

/-- The second before the epoch is the last of 1969. -/
theorem toCalendar_utc_shows_epoch :
    (∃ d, (∀ e, FallsOn (-1) e ↔ e = d) ∧ ∃ c, utc.toCalendar .utc (-1) = .ok c ∧ c.Shows (-1) d ∧
      utc.fromCalendar .utc c = .ok (-1)) ∧
    ([69, 11, 31, 23, 59, 59] : List ℤ) < [70, 0, 1, 0, 0, 0] := by
  obtain ⟨hshow, hlt⟩ := utc.toCalendar_utc_shows
  constructor
  · obtain ⟨d, hd, h⟩ := hshow (-1)
    obtain rfl := (hd ⟨1969, 11, 31⟩).1 (Gregorian.fallsOn_iff.2 (by decide))
    exact ⟨_, hd, h⟩
  · exact hlt (-1) 0 ⟨59, 59, 23, 31, 11, 69, 3, 364, 0⟩ ⟨0, 0, 0, 1, 0, 70, 4, 0, 0⟩ (by decide) (by decide)
      (by decide)

end Zone

end Groundwork
