import Groundwork.Proofs.Calendar.ZoneText

/-!
# Wall times

The search for the instant of a date and time whose daylight flag is not known. Whatever the first guess is, every later
one is the instant that one of the two offsets gives. If the clock shows the date and time at one of these two, the
third guess at the latest is such an instant (`exists_probe`). If it shows them at neither, each of the two leads to the
other, and the search ends at the one of standard time (`exists_probe_of_skipped`).
-/

namespace Groundwork

namespace Fields

theorem seconds_congr {c c' : Fields} (h : c.reading = c'.reading) : c.seconds = c'.seconds := by
  simp only [reading, List.cons.injEq, and_true] at h
  obtain ⟨hyear, hmon, hmday, hhour, hmin, hsec⟩ := h
  simp only [seconds, secondsWith, monthDay, gregorianYear, hyear, hmon, hmday, hhour, hmin, hsec]

end Fields

namespace Zone

open Clock (difference probe EndsInGap)

variable {z : Zone} {wanted shown c : Fields} {s t t₀ t₁ t₂ : ℤ} {dst dst' : Bool} {k : ℕ}

/-! ### One guess -/

theorem ShowsAt.guess (h : z.ShowsAt shown t dst) (c : Fields) :
    t + difference c c.sec.toInt shown = c.seconds - z.offset dst := by
  have := h.seconds
  show t + (c.seconds - shown.seconds) = _
  omega

theorem ShowsAt.eq_iff (h : z.ShowsAt shown t dst) :
    shown.seconds = wanted.seconds ↔ t = wanted.seconds - z.offset dst := by
  rw [h.seconds]
  omega

theorem ShowsAt.flag_of_ne (h : z.ShowsAt shown (wanted.seconds - z.offset dst) dst')
    (hne : shown.seconds ≠ wanted.seconds) : dst' = !dst := by
  by_contra hsame
  rw [Bool.not_eq_not] at hsame
  exact hne (h.eq_iff.2 (by rw [hsame]))

theorem ShowsAt.isdst_ne (h : z.ShowsAt shown t dst) : decide (shown.isdst ≠ 0) = dst := by
  rw [h.isdst]
  cases dst <;> decide

theorem nearest_of_fields (hshown : z.fields t = some shown) (ht : |t| ≤ 66900000000000000) :
    Clock.nearest z.fields t = some (t, shown) := by
  obtain ⟨hlo, hhi⟩ := abs_le.1 ht
  refine Clock.nearest_of_eq_some hshown ?_
  unfold Clock.leastInstant Clock.greatestInstant
  omega

theorem probe_exact (hshown : z.fields t = some shown) (ht : |t| ≤ 66900000000000000)
    (heq : shown.seconds = wanted.seconds) :
    probe z.fields wanted wanted.sec.toInt (k + 1) t t₁ t₂ dst' = some (.exact t shown) :=
  Clock.probe_of_eq (nearest_of_fields hshown ht) (sub_eq_zero.2 heq.symm)

theorem probe_next (hshown : z.fields t = some shown) (h : z.ShowsAt shown t dst) (ht : |t| ≤ 66900000000000000)
    (hne : shown.seconds ≠ wanted.seconds) (hgap : ¬ EndsInGap wanted shown t t₁ t₂ dst') :
    probe z.fields wanted wanted.sec.toInt (k + 2) t t₁ t₂ dst' =
      probe z.fields wanted wanted.sec.toInt (k + 1) (wanted.seconds - z.offset dst) t₂ t dst := by
  rw [Clock.probe_of_ne (nearest_of_fields hshown ht) (sub_ne_zero.2 hne.symm) hgap, h.guess, h.isdst_ne]

theorem probe_gap (hshown : z.fields t = some shown) (ht : |t| ≤ 66900000000000000)
    (hne : shown.seconds ≠ wanted.seconds) (hgap : EndsInGap wanted shown t t₁ t₂ dst') :
    probe z.fields wanted wanted.sec.toInt (k + 1) t t₁ t₂ dst' = some (.gap t shown) :=
  Clock.probe_of_endsInGap (nearest_of_fields hshown ht) (sub_ne_zero.2 hne.symm) hgap

/-- Where the flag is not known, only daylight saving time at the last guess and not at this one keeps a search that
comes back from ending. -/
theorem ShowsAt.endsInGap_iff (h : z.ShowsAt shown t dst) (hwanted : wanted.isdst < 0) :
    EndsInGap wanted shown t t₁ t₂ dst' ↔ t = t₁ ∧ t ≠ t₂ ∧ (dst' = true → dst = true) := by
  have hflag := h.isdst_ne
  have hpos : ¬ shown.isdst < 0 := by
    rw [h.isdst]
    cases dst <;> decide
  unfold EndsInGap
  rw [if_pos hwanted, or_iff_right hpos, ← hflag, decide_eq_true_iff]

/-! ### Times that the clock shows -/

theorem abs_guess_le (hz : z.Bounded) (hwanted : |wanted.seconds| ≤ 66800000000000000) (dst : Bool) :
    |wanted.seconds - z.offset dst| ≤ 66900000000000000 := by
  have hoffset := hz dst
  rw [abs_le] at hwanted ⊢
  omega

/-- The first guess shows the date and time, or the second does, or the third is by the other offset than the second. -/
theorem exists_two_guesses (hz : z.Bounded) (hwanted : |wanted.seconds| ≤ 66800000000000000)
    (ht₀ : |t₀| ≤ 66900000000000000) :
    (∃ t shown, probe z.fields wanted wanted.sec.toInt 6 t₀ t₀ t₀ false = some (.exact t shown) ∧
      z.fields t = some shown ∧ shown.seconds = wanted.seconds) ∨
    ∃ dst c, z.fields (wanted.seconds - z.offset dst) = some c ∧
      z.ShowsAt c (wanted.seconds - z.offset dst) (!dst) ∧ c.seconds ≠ wanted.seconds ∧
      probe z.fields wanted wanted.sec.toInt 6 t₀ t₀ t₀ false = probe z.fields wanted wanted.sec.toInt 4
        (wanted.seconds - z.offset !dst) t₀ (wanted.seconds - z.offset dst) (!dst) := by
  obtain ⟨c₀, hc₀⟩ := exists_fields_of_abs_le hz ht₀
  obtain ⟨dst, h₀⟩ := showsAt_of_fields hc₀
  by_cases heq₀ : c₀.seconds = wanted.seconds
  · exact .inl ⟨t₀, c₀, probe_exact hc₀ ht₀ heq₀, hc₀, heq₀⟩
  rw [probe_next hc₀ h₀ ht₀ heq₀ (Clock.not_endsInGap id)]
  have ht := abs_guess_le hz hwanted dst
  obtain ⟨c, hc⟩ := exists_fields_of_abs_le hz ht
  obtain ⟨dst', h⟩ := showsAt_of_fields hc
  by_cases heq : c.seconds = wanted.seconds
  · exact .inl ⟨_, c, probe_exact hc ht heq, hc, heq⟩
  · obtain rfl := h.flag_of_ne heq
    exact .inr ⟨dst, c, hc, h, heq, probe_next hc h ht heq (Clock.not_endsInGap id)⟩

theorem exists_probe (hz : z.Bounded) (hc : z.fields s = some c) (hcw : c.seconds = wanted.seconds)
    (hwanted : |wanted.seconds| ≤ 66800000000000000) (ht₀ : |t₀| ≤ 66900000000000000) :
    ∃ t shown, probe z.fields wanted wanted.sec.toInt 6 t₀ t₀ t₀ false = some (.exact t shown) ∧
      z.fields t = some shown ∧ shown.seconds = wanted.seconds := by
  obtain hfound | ⟨dst', c', hc', h', hne, hprobe⟩ := exists_two_guesses hz hwanted ht₀
  · exact hfound
  obtain ⟨dst, h⟩ := showsAt_of_fields hc
  have hs := h.eq_iff.1 hcw
  -- the second guess was not the instant, so the third is
  have hdst : dst = !dst' := by
    by_contra hsame
    rw [Bool.not_eq_not] at hsame
    rw [← hsame, ← hs, hc] at hc'
    cases hc'
    exact hne hcw
  rw [hprobe, ← hdst, ← hs]
  have ht := abs_guess_le hz hwanted dst
  rw [← hs] at ht
  exact ⟨s, c, probe_exact hc ht hcw, hc, hcw⟩

/-! ### Times that a change skips -/

theorem exists_fields_of_skipped (hz : z.Bounded) (hwanted : |wanted.seconds| ≤ 66800000000000000)
    (hskipped : ∀ t c, z.fields t = some c → c.seconds ≠ wanted.seconds) (dst : Bool) :
    ∃ c, z.fields (wanted.seconds - z.offset dst) = some c ∧ z.ShowsAt c (wanted.seconds - z.offset dst) (!dst) := by
  obtain ⟨c, hc⟩ := exists_fields_of_abs_le hz (abs_guess_le hz hwanted dst)
  obtain ⟨dst', h⟩ := showsAt_of_fields hc
  obtain rfl := h.flag_of_ne (hskipped _ _ hc)
  exact ⟨c, hc, h⟩

/-- A search that knows no flag ends at the instant that standard time gives. -/
theorem exists_probe_of_skipped (hz : z.Bounded) (hflag : wanted.isdst < 0)
    (hwanted : |wanted.seconds| ≤ 66800000000000000) (ht₀ : |t₀| ≤ 66900000000000000)
    (hskipped : ∀ t c, z.fields t = some c → c.seconds ≠ wanted.seconds) :
    ∃ c, probe z.fields wanted wanted.sec.toInt 6 t₀ t₀ t₀ false = some (.gap (wanted.seconds - z.offset false) c) ∧
      z.fields (wanted.seconds - z.offset false) = some c := by
  obtain ⟨cs, hcs, hs⟩ := exists_fields_of_skipped hz hwanted hskipped false
  obtain ⟨cd, hcd, hd⟩ := exists_fields_of_skipped hz hwanted hskipped true
  have hns := hskipped _ _ hcs
  have hnd := hskipped _ _ hcd
  have hts := abs_guess_le hz hwanted false
  have htd := abs_guess_le hz hwanted true
  generalize hstandard : wanted.seconds - z.offset false = ts at hcs hs hts ⊢
  generalize hdaylight : wanted.seconds - z.offset true = td at hcd hd htd
  have hapart : ts ≠ td := fun h => hns (hs.eq_iff.2 (h.trans hdaylight.symm))
  -- from standard time to daylight saving time and back
  have hback : ∀ {k}, probe z.fields wanted wanted.sec.toInt (k + 1) ts ts td false = some (.gap ts cs) := fun {k} =>
    probe_gap hcs hts hns ((hs.endsInGap_iff hflag).2 ⟨rfl, hapart, nofun⟩)
  have hturn : ∀ {k t₁}, probe z.fields wanted wanted.sec.toInt (k + 3) td t₁ ts true = some (.gap ts cs) :=
    fun {k t₁} => by
      have hgoes : ¬ EndsInGap wanted cd td t₁ ts true := fun hgap =>
        absurd (((hd.endsInGap_iff hflag).1 hgap).2.2 rfl) nofun
      rw [probe_next hcd hd htd hnd hgoes, Bool.not_true, hstandard]
      exact hback
  obtain ⟨t, shown, -, hshown, heq⟩ | ⟨dst, c, -, -, -, hprobe⟩ := exists_two_guesses hz hwanted ht₀
  · exact absurd heq (hskipped t shown hshown)
  refine ⟨cs, hprobe.trans ?_, hcs⟩
  cases dst with
  | false =>
    rw [Bool.not_false, hstandard, hdaylight]
    exact hturn
  | true =>
    rw [Bool.not_true, hstandard, hdaylight]
    by_cases hfirst : ts = t₀
    · rw [← hfirst]
      exact hback
    · rw [probe_next hcs hs hts hns fun hgap => hfirst hgap.1, Bool.not_false, hdaylight]
      exact hturn

/-! ### Flags that are not known -/

theorem instantFrom?_eq_some {carried : Int32} {p : Clock.Probe} (hflag : wanted.isdst < 0)
    (hsec : 0 ≤ wanted.sec.toInt ∧ wanted.sec.toInt ≤ 59) (hc : z.fields t = some c)
    (hprobe : probe z.fields wanted wanted.sec.toInt 6 (wanted.seconds - (-carried).toInt)
      (wanted.seconds - (-carried).toInt) (wanted.seconds - (-carried).toInt) false = some p)
    (hp : p = .exact t c ∨ p = .gap t c) : Clock.instantFrom? z.fields carried wanted = some t := by
  have hsettle : Clock.settle z.fields wanted wanted.sec.toInt t c = some (t, c) := by
    refine Clock.settle_of_not_differs ?_
    have hneg : ¬ (0 : Int32) ≤ wanted.isdst := Int32.not_le.2 hflag
    simp [Clock.flagDiffers, hneg]
  have hseconds : wanted.secondsWith wanted.sec.toInt = wanted.seconds := rfl
  unfold Clock.instantFrom?
  dsimp only
  rw [Clock.clampedSecond_of_mem hsec, hseconds, hprobe]
  rcases hp with rfl | rfl
  · simp [hsettle, hc]
  · simp [hc]

/-- Whatever an earlier search ended at, the instant found is one that an offset gives, and only a time that the clock
never shows is not shown at it. -/
theorem exists_instantFrom? (hz : z.Bounded) (hflag : wanted.isdst < 0)
    (hsec : 0 ≤ wanted.sec.toInt ∧ wanted.sec.toInt ≤ 59) (hwanted : |wanted.seconds| ≤ 66800000000000000)
    (carried : Int32) : ∃ t c dst, Clock.instantFrom? z.fields carried wanted = some t ∧ z.fields t = some c ∧
      t = wanted.seconds - z.offset dst ∧
      ((∃ s c, z.fields s = some c ∧ c.seconds = wanted.seconds) → c.seconds = wanted.seconds) := by
  have hcarried := (-carried).le_toInt
  have hcarried' := (-carried).toInt_lt
  have ht₀ : |wanted.seconds - (-carried).toInt| ≤ 66900000000000000 := by
    rw [abs_le] at hwanted ⊢
    omega
  by_cases hshown : ∃ s c, z.fields s = some c ∧ c.seconds = wanted.seconds
  · obtain ⟨s, c, hc, hcw⟩ := hshown
    obtain ⟨t, shown, hprobe, ht, heq⟩ := exists_probe hz hc hcw hwanted ht₀
    obtain ⟨dst, h⟩ := showsAt_of_fields ht
    exact ⟨t, shown, dst, instantFrom?_eq_some hflag hsec ht hprobe (.inl rfl), ht, h.eq_iff.1 heq, fun _ => heq⟩
  · have hskipped : ∀ t c, z.fields t = some c → c.seconds ≠ wanted.seconds := fun t c hc heq => hshown ⟨t, c, hc, heq⟩
    obtain ⟨c, hprobe, hc⟩ := exists_probe_of_skipped hz hflag hwanted ht₀ hskipped
    exact ⟨_, c, false, instantFrom?_eq_some hflag hsec hc hprobe (.inr rfl), hc, rfl, fun h => absurd h hshown⟩

theorem exists_fromCalendarIn_zone (hz : z.Bounded) (hflag : c.isdst < 0) (hsec : 0 ≤ c.sec.toInt ∧ c.sec.toInt ≤ 59)
    (hyear : |c.year.toInt| ≤ 1900000000) (past : Past) :
    ∃ n t dst, z.toCalendar .utc c.seconds = .ok n ∧ t = c.seconds - z.offset dst ∧
      z.fromCalendarIn past .zone c = judged t past.leftover ∧
      ∀ u cu, z.toCalendar .zone u = .ok cu → cu.reading = n.reading →
        ∃ ct, z.toCalendar .zone t = .ok ct ∧ ct.reading = n.reading := by
  have hwanted : |c.seconds| ≤ 66800000000000000 := by
    have hle := Fields.abs_secondsWith_le (s := c.sec.toInt) c hyear
    rw [abs_of_nonneg hsec.1] at hle
    exact hle.trans (by omega)
  obtain ⟨n, hn⟩ := Fields.yearFits_iff.1 (Fields.yearFits_of_abs_le (t := c.seconds) (by omega))
  have hnsec : n.seconds = c.seconds := (Fields.shows_of_ofSeconds hn).secondsWith
  obtain ⟨t, ct, dst, hfound, hct, ht, hshown⟩ := exists_instantFrom? hz hflag hsec hwanted past.carried
  refine ⟨n, t, dst, z.toCalendar_utc_eq_ok_iff.2 hn, ht, z.fromCalendarIn_zone_of_eq_some hfound,
    fun u cu hu hreading => ?_⟩
  have hcu : cu.seconds = c.seconds := (Fields.seconds_congr hreading).trans hnsec
  have hseconds := hshown ⟨u, cu, toCalendar_zone_eq_ok_iff.1 hu, hcu⟩
  refine ⟨ct, toCalendar_zone_eq_ok_iff.2 hct, ?_⟩
  obtain ⟨v, b, dst', -, -, hb, rfl⟩ := fields_eq_some hct
  have hbsec : t + z.offset dst' = c.seconds := (Fields.shows_of_ofSeconds hb).secondsWith.symm.trans hseconds
  rw [hbsec, hn] at hb
  cases hb
  rfl

/-- A date and time with no known flag get the instant that one of the offsets makes of them in the zone of any text,
except for the second before the epoch where looking for the zone's file leaves an error behind. The clock shows them
there, unless there is no instant at which it does. -/
theorem fromCalendarIn_zone_unknown {text : Bytes} {o : ℤ} {d : Option ℤ} (h : IsZone text o d) (c : Fields)
    (hflag : c.isdst < 0) (hsec : 0 ≤ c.sec.toInt ∧ c.sec.toInt ≤ 59) (hyear : |c.year.toInt| ≤ 1900000000)
    (past : Past) :
    ∃ v n t x, (∀ u, c.Denotes u ↔ u = v) ∧ (ofBytes text).toCalendar .utc v = .ok n ∧ (x = o ∨ d = some x) ∧
      t = v - x ∧
      ((t = -1 → past.leftover = none) → (ofBytes text).fromCalendarIn past .zone c = .ok t) ∧
      (∀ e, t = -1 → past.leftover = some e → (ofBytes text).fromCalendarIn past .zone c = .error (.linear e)) ∧
      ∀ u cu, (ofBytes text).toCalendar .zone u = .ok cu → cu.reading = n.reading →
        ∃ ct, (ofBytes text).toCalendar .zone t = .ok ct ∧ ct.reading = n.reading := by
  obtain ⟨n, t, dst, hn, ht, hfound, hshown⟩ := exists_fromCalendarIn_zone (bounded_ofBytes text) hflag hsec hyear past
  have hoffset : (ofBytes text).offset dst = o ∨ d = some ((ofBytes text).offset dst) := by
    rw [offset_of_isZone h]
    cases dst <;> cases d <;> simp
  refine ⟨c.seconds, n, t, _, fun u => Fields.denotes_iff, hn, hoffset, ht, fun hleft => ?_, fun e hminus hleft => ?_,
    hshown⟩
  · rw [hfound, judged_eq_ok hleft]
  · rw [hfound, hminus, hleft, judged_neg_one]

/-- Half past one on the day on which daylight saving time ended in New York in 2021, without its flag, as the first
fields of a process. -/
theorem fromCalendarIn_zone_unknown_twice :
    let text := "EST5EDT,M3.2.0,M11.1.0".toList.map Char.toUInt8
    let c : Fields := ⟨0, 30, 1, 7, 10, 121, 0, 0, -1⟩
    (IsZone text (-18000) (some (-14400)) ∧ c.isdst < 0 ∧ (0 ≤ c.sec.toInt ∧ c.sec.toInt ≤ 59) ∧
      |c.year.toInt| ≤ 1900000000) ∧
    ∃ t ct, (t = 1636266600 ∨ t = 1636263000) ∧ (ofBytes text).fromCalendarIn ⟨0, some .noFile⟩ .zone c = .ok t ∧
      (ofBytes text).toCalendar .zone t = .ok ct ∧ ct.reading = [121, 10, 7, 1, 30, 0] := by
  intro text c
  have hfive : IsNumber 24 ['5'.toUInt8] 5 := ⟨[5], Numeral.spanDigits_eq_nil_iff.1 (by decide), by decide⟩
  have hname : ∀ s : Bytes, 3 ≤ s.length → s.all Ascii.isLetter = true → IsName s := fun s hlength hletters =>
    .letters hlength (List.all_eq_true.1 hletters)
  have htext : IsZone text (-18000) (some (-14400)) :=
    .daylight (hname (Ascii.text ['E', 'S', 'T']) (by decide) (by decide)) (.signed .absent (.hours hfive))
      (hname (Ascii.text ['E', 'D', 'T']) (by decide) (by decide)) .absent
  have hc : c.isdst < 0 ∧ (0 ≤ c.sec.toInt ∧ c.sec.toInt ≤ 59) ∧ |c.year.toInt| ≤ 1900000000 := by decide
  have hz : ofBytes text = ⟨-18000, some ⟨-14400, ⟨.weekday 3 2 0, 7200⟩, ⟨.weekday 11 1 0, 7200⟩⟩⟩ := by decide +kernel
  obtain ⟨v, n, t, x, hv, hn, hx, ht, hok, -, hshown⟩ :=
    fromCalendarIn_zone_unknown htext c hc.1 hc.2.1 hc.2.2 ⟨0, some .noFile⟩
  obtain rfl := (hv 1636248600).1 (Fields.denotes_iff.2 (by decide))
  have hread : (ofBytes text).toCalendar .utc 1636248600 = .ok ⟨0, 30, 1, 7, 10, 121, 0, 310, 0⟩ := by decide
  obtain rfl := Except.ok.inj (hn.symm.trans hread)
  have hdaylight : (ofBytes text).toCalendar .zone 1636263000 = .ok ⟨0, 30, 1, 7, 10, 121, 0, 310, 1⟩ := by
    rw [hz]
    decide
  obtain ⟨ct, hct, hreading⟩ := hshown _ _ hdaylight rfl
  rw [Option.some.injEq] at hx
  exact ⟨⟨htext, hc⟩, t, ct, by omega, hok (by omega), hct, hreading⟩

/-- The date and time that the second before the epoch has in a zone five hours to the west fail as the first fields of
a process, though the clock shows them. -/
theorem fromCalendarIn_zone_first_neg_one :
    let text := "EST5".toList.map Char.toUInt8
    ∃ c n : Fields, c = ⟨59, 59, 18, 31, 11, 69, 0, 0, -1⟩ ∧ IsZone text (-18000) none ∧ c.Denotes (-1 + -18000) ∧
      (ofBytes text).toCalendar .zone (-1) = .ok n ∧ n.reading = c.reading ∧
      (ofBytes text).fromCalendarIn ⟨0, some .noFile⟩ .zone c = .error (.linear .noFile) ∧
      (ofBytes text).fromCalendarIn ⟨0, none⟩ .zone c = .ok (-1) := by
  intro text
  have hfive : IsNumber 24 ['5'.toUInt8] 5 := ⟨[5], Numeral.spanDigits_eq_nil_iff.1 (by decide), by decide⟩
  have hletters : (Ascii.text ['E', 'S', 'T']).all Ascii.isLetter = true := by decide
  have hname : IsName (Ascii.text ['E', 'S', 'T']) := .letters (by decide) (List.all_eq_true.1 hletters)
  have hz : ofBytes text = ⟨-18000, none⟩ := by decide +kernel
  refine ⟨_, ⟨59, 59, 18, 31, 11, 69, 3, 364, 0⟩, rfl, .standard hname (.signed .absent (.hours hfive)),
    Fields.denotes_iff.2 (by decide), ?_, rfl, ?_, ?_⟩ <;> rw [hz] <;> decide

end Zone

end Groundwork
