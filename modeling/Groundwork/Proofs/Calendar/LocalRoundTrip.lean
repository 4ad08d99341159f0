import Groundwork.Proofs.Calendar.Spells
import Groundwork.Proofs.Calendar.WallTime

/-!
# Reading local time back

Fields that the clock of a zone shows are read back by guessing. The third guess at the latest shows the date and
time (`exists_probe`). It may be the wrong one of two such instants. They lie on both sides of a change, and where
spells are as long as the stride of the search, the wanted flag is found one stride away on one side
(`settle_of_fields`).
-/

namespace Groundwork

namespace Clock

variable {clock : Clock} {wanted shown c : Fields} {s t u : ℤ} {us : List ℤ}

/-! ### The search for the wanted flag -/

theorem borrow_of_differs (hn : nearest clock u = some (u, shown)) (hf : flagDiffers wanted.isdst shown.isdst = true) :
    borrow clock wanted s (u :: us) = borrow clock wanted s us := by
  simp [borrow, hn, hf]

theorem borrow_of_not_differs (hn : nearest clock u = some (u, shown))
    (hf : flagDiffers wanted.isdst shown.isdst = false) (hg : u + difference wanted s shown = t)
    (ht : leastInstant ≤ t ∧ t ≤ greatestInstant) (hc : clock t = some c) :
    borrow clock wanted s (u :: us) = some (some (t, c)) := by
  simp [borrow, hn, hf, hg, ht, hc]

theorem exists_neighbours (t : ℤ) : ∃ us, neighbours t = (t - stride) :: (t + stride) :: us := by
  have hreach : List.range reach = 0 :: (List.range 380).map Nat.succ := List.range_succ_eq_map
  unfold neighbours
  rw [hreach, List.flatMap_cons, Nat.cast_zero, zero_add, mul_one, List.cons_append, List.cons_append]
  exact ⟨_, rfl⟩

theorem settle_of_borrow (hf : flagDiffers wanted.isdst shown.isdst = true)
    (hb : borrow clock wanted s (neighbours t) = some (some (u, c))) :
    settle clock wanted s t shown = some (u, c) := by
  simp [settle, hf, hb]

end Clock

namespace Zone

variable {z : Zone} {c shown : Fields} {s t u : ℤ} {dst dst' : Bool}

open Clock (settle borrow)

theorem Moderate.counted (ht : Moderate t) : Clock.leastInstant ≤ t ∧ t ≤ Clock.greatestInstant := by
  unfold Moderate at ht
  unfold Clock.leastInstant Clock.greatestInstant
  omega

theorem ShowsAt.flagDiffers (h : z.ShowsAt c s dst) (h' : z.ShowsAt shown t dst') :
    Clock.flagDiffers c.isdst shown.isdst = (dst != dst') := by
  rw [Clock.flagDiffers, h.isdst, h'.isdst]
  cases dst <;> cases dst' <;> decide

/-- Wherever the flag is the wanted one, the offset is too, and leads to the instant. -/
theorem borrow_of_fields (hc : z.fields s = some c) (h : z.ShowsAt c s dst) (hs : Moderate s) (hu : Moderate u)
    (hshown : z.fields u = some shown) (hsame : shown.isdst = c.isdst) (us : List ℤ) :
    borrow z.fields c c.sec.toInt (u :: us) = some (some (s, c)) := by
  obtain ⟨dst', h'⟩ := showsAt_of_fields hshown
  have hdst : dst = dst' := by
    have hf := h.flagDiffers h'
    rw [hsame, h.flagDiffers h] at hf
    simpa using hf.symm
  subst hdst
  refine Clock.borrow_of_not_differs (Clock.nearest_of_eq_some hshown hu.counted) ?_ ?_ hs.counted hc
  · rw [h.flagDiffers h', bne_self_eq_false]
  · rw [h'.guess, h.seconds, add_sub_cancel_right]

/-- Where the date and time are shown twice, the flag tells which instant is meant. -/
theorem settle_of_fields (hz : z.Bounded) (hspell : z.SpellsLast Clock.stride) (hc : z.fields s = some c)
    (hs : -60000000000000000 ≤ s ∧ s ≤ 60000000000000000) (hshown : z.fields t = some shown)
    (heq : shown.seconds = c.seconds) : settle z.fields c c.sec.toInt t shown = some (s, c) := by
  obtain ⟨dst, h⟩ := showsAt_of_fields hc
  obtain ⟨dst', h'⟩ := showsAt_of_fields hshown
  have hsec := h.seconds
  have hsec' := h'.seconds
  by_cases hdst : dst = dst'
  · subst hdst
    obtain rfl : t = s := by omega
    rw [hc] at hshown
    cases hshown
    exact Clock.settle_of_not_differs (by rw [h.flagDiffers h', bne_self_eq_false])
  have hoffset := hz dst
  have hoffset' := hz dst'
  have hs' : Moderate s := ⟨by omega, by omega⟩
  have hdiff : Clock.flagDiffers c.isdst shown.isdst = true := by rw [h.flagDiffers h', bne_iff_ne]; exact hdst
  have hne : c.isdst ≠ shown.isdst := by
    intro hsame
    rw [← hsame, h.flagDiffers h, bne_self_eq_false] at hdiff
    cases hdiff
  have hstride : Clock.stride = 601200 := rfl
  have hbefore : Moderate (t - Clock.stride) := ⟨by omega, by omega⟩
  have hafter : Moderate (t + Clock.stride) := ⟨by omega, by omega⟩
  refine Clock.settle_of_borrow hdiff ?_
  obtain ⟨us, hus⟩ := Clock.exists_neighbours t
  rw [hus]
  obtain ⟨cb, hcb⟩ := exists_fields hz hbefore
  by_cases hflag : cb.isdst = c.isdst
  · exact borrow_of_fields hc h hs' hbefore hcb hflag _
  -- a stride before `t` the flag is the other one, so `t` comes first
  have hts : t ≤ s := by
    by_contra hlt
    exact hflag ((isdst_one_stride_off hz hspell (by omega) (by omega) hbefore ⟨by omega, by omega⟩ hc hshown hne).2 cb hcb)
  obtain ⟨dstb, hb⟩ := showsAt_of_fields hcb
  rw [Clock.borrow_of_differs (Clock.nearest_of_eq_some hcb hbefore.counted) ?_]
  · obtain ⟨ca, hca⟩ := exists_fields hz hafter
    have hfound := (isdst_one_stride_off hz hspell hts (by omega) ⟨by omega, by omega⟩ hafter hshown hc hne.symm).1 ca hca
    exact borrow_of_fields hc h hs' hafter hca hfound _
  · rw [h.flagDiffers hb, bne_iff_ne]
    rintro rfl
    exact hflag (hb.isdst.trans h.isdst.symm)

theorem instantFrom?_of_fields (hz : z.Bounded) (hspell : z.SpellsLast Clock.stride) (hc : z.fields s = some c)
    (hs : -60000000000000000 ≤ s ∧ s ≤ 60000000000000000) (carried : Int32) :
    Clock.instantFrom? z.fields carried c = some s := by
  obtain ⟨dst, h⟩ := showsAt_of_fields hc
  have hsec := h.seconds
  have hoffset := hz dst
  have hcarried := (-carried).le_toInt
  have hcarried' := (-carried).toInt_lt
  have hwanted : |c.seconds| ≤ 66800000000000000 := abs_le.2 ⟨by omega, by omega⟩
  have ht₀ : |c.secondsWith c.sec.toInt - (-carried).toInt| ≤ 66900000000000000 := by
    show |c.seconds - _| ≤ _
    rw [abs_le] at hwanted ⊢
    omega
  obtain ⟨t, shown, hprobe, hshown, heq⟩ := exists_probe hz hc rfl hwanted ht₀
  have hsettle := settle_of_fields hz hspell hc hs hshown heq
  simp only [Clock.instantFrom?, Clock.clampedSecond_of_mem h.sec, hprobe, Option.bind_eq_bind, Option.bind_some, hsettle, if_true,
    Option.pure_def]

/-- In the zone of a text whose spells are no shorter than the stride of the search, an instant has fields, and they
are read back as that instant, whatever an earlier search ended at. -/
theorem fromCalendar_toCalendar_zone (text : Bytes) (hspell : (ofBytes text).SpellsLast 601200) {s : ℤ}
    (hs : |s| ≤ 6 * 10 ^ 16) : ∃ c, (ofBytes text).toCalendar .zone s = .ok c ∧
      (ofBytes text).fromCalendar .zone c = .ok s ∧
      ∀ carried, (ofBytes text).fromCalendarAfter carried .zone c = .ok s := by
  obtain ⟨hlo, hhi⟩ := abs_le.1 hs
  have hz := bounded_ofBytes text
  obtain ⟨c, hc⟩ := exists_fields hz (show Moderate s from ⟨by omega, by omega⟩)
  have hback : ∀ carried, (ofBytes text).fromCalendarAfter carried .zone c = .ok s := fun carried =>
    (ofBytes text).fromCalendarAfter_zone_of_eq_some (instantFrom?_of_fields hz hspell hc ⟨by omega, by omega⟩ carried)
  exact ⟨c, (ofBytes text).toCalendar_of_eq_some hc, hback 0, hback⟩

/-- The last second of daylight saving time in New York in 2021 and the same time of that day an hour later. -/
theorem fromCalendar_toCalendar_zone_twice :
    let z := ofBytes ("EST5EDT,M3.2.0,M11.1.0".toList.map Char.toUInt8)
    let c : Fields := ⟨59, 59, 1, 7, 10, 121, 0, 310, 1⟩
    z.SpellsLast 601200 ∧ z.toCalendar .zone 1636264799 = .ok c ∧ z.fromCalendar .zone c = .ok 1636264799 ∧
      z.toCalendar .zone 1636268399 = .ok { c with isdst := 0 } ∧
      z.fromCalendar .zone { c with isdst := 0 } = .ok 1636268399 := by
  intro z c
  have hz : z = ⟨-18000, some ⟨-14400, ⟨.weekday 3 2 0, 7200⟩, ⟨.weekday 11 1 0, 7200⟩⟩⟩ := by decide +kernel
  have hspell : z.SpellsLast 601200 := by
    refine spellsLast_of_weekdays (bounded_ofBytes _) (congrArg Zone.daylight hz) rfl rfl ?_ ?_ ?_ ?_ ?_ ?_ ?_
    all_goals decide
  obtain ⟨c₁, hc₁, hback₁, -⟩ := fromCalendar_toCalendar_zone _ hspell (s := 1636264799) (by norm_num)
  obtain ⟨c₂, hc₂, hback₂, -⟩ := fromCalendar_toCalendar_zone _ hspell (s := 1636268399) (by norm_num)
  have hshow₁ : z.toCalendar .zone 1636264799 = .ok c := by rw [hz]; decide
  have hshow₂ : z.toCalendar .zone 1636268399 = .ok { c with isdst := 0 } := by rw [hz]; decide
  obtain rfl : c₁ = c := Except.ok.inj (hc₁.symm.trans hshow₁)
  obtain rfl : c₂ = { c with isdst := 0 } := Except.ok.inj (hc₂.symm.trans hshow₂)
  exact ⟨hspell, hshow₁, hback₁, hshow₂, hback₂⟩

end Zone

end Groundwork
