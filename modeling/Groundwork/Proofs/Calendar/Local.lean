import Groundwork.Calendar.ZoneText
import Groundwork.Proofs.Calendar.Normalization

/-!
# Local time

The clock of a zone shows universal time shifted by one of two offsets, and the daylight flag tells by which
(`ShowsAt`). Offsets that come from a text are of a day and an hour at most (`bounded_ofBytes`), so a clock
shows fields at all instants but those of the last years that a field holds (`exists_fields`).
-/

namespace Groundwork

namespace Zone

/-- The offset that goes with a daylight flag. -/
def offset (z : Zone) (dst : Bool) : ℤ :=
  match z.daylight, dst with
  | some d, true => d.offset
  | _, _ => z.standard

/-- The fields `c` have the date and time of universal time shifted by the offset that their flag tells. -/
structure ShowsAt (z : Zone) (c : Fields) (t : ℤ) (dst : Bool) : Prop where
  seconds : c.seconds = t + z.offset dst
  sec : 0 ≤ c.sec.toInt ∧ c.sec.toInt ≤ 59
  isdst : c.isdst = if dst then 1 else 0

/-- Offsets of a day and two hours at most. -/
def Bounded (z : Zone) : Prop := ∀ dst, -93600 ≤ z.offset dst ∧ z.offset dst ≤ 93600

/-- An instant whose year fits, and that has room around it for offsets, corrections and strides. -/
def Moderate (t : ℤ) : Prop := -61000000000000000 ≤ t ∧ t ≤ 61000000000000000

variable {z : Zone} {c : Fields} {t : ℤ}

/-! ### What the clock shows -/

theorem offsetAt_eq (z : Zone) (year : Int32) (t : ℤ) : ∃ dst, z.offsetAt year t = (z.offset dst, dst) := by
  unfold offsetAt offset
  cases z.daylight with
  | none => exact ⟨false, rfl⟩
  | some d =>
    dsimp only
    split
    · exact ⟨true, rfl⟩
    · exact ⟨false, rfl⟩

theorem fields_eq_some (h : z.fields t = some c) : ∃ v b dst, Fields.ofSeconds t = some v ∧
    z.offsetAt v.year t = (z.offset dst, dst) ∧ Fields.ofSeconds (t + z.offset dst) = some b ∧
      c = { b with isdst := if dst then 1 else 0 } := by
  obtain ⟨v, hv, h⟩ := Option.bind_eq_some_iff.1 h
  obtain ⟨dst, hdst⟩ := z.offsetAt_eq v.year t
  rw [hdst] at h
  obtain ⟨b, hb, h⟩ := Option.bind_eq_some_iff.1 h
  cases h
  exact ⟨v, b, dst, hv, hdst, hb, rfl⟩

theorem showsAt_of_fields (h : z.fields t = some c) : ∃ dst, z.ShowsAt c t dst := by
  obtain ⟨v, b, dst, -, -, hb, rfl⟩ := fields_eq_some h
  have hshows := Fields.shows_of_ofSeconds hb
  exact ⟨dst, hshows.secondsWith, hshows.sec, rfl⟩

theorem exists_fields_of_yearFits (ht : Fields.YearFits t) (hlocal : ∀ dst, Fields.YearFits (t + z.offset dst)) :
    ∃ c, z.fields t = some c := by
  obtain ⟨v, hv⟩ := Fields.yearFits_iff.1 ht
  obtain ⟨dst, hdst⟩ := z.offsetAt_eq v.year t
  obtain ⟨b, hb⟩ := Fields.yearFits_iff.1 (hlocal dst)
  refine ⟨{ b with isdst := if dst then 1 else 0 }, ?_⟩
  unfold fields
  rw [hv, Option.bind_eq_bind, Option.bind_some, hdst]
  dsimp only
  rw [hb]
  rfl

theorem not_yearFits_of_fields (h : z.fields t = none) :
    ¬ Fields.YearFits t ∨ ∃ dst, ¬ Fields.YearFits (t + z.offset dst) := by
  by_contra hfits
  push Not at hfits
  obtain ⟨c, hc⟩ := exists_fields_of_yearFits hfits.1 hfits.2
  rw [h] at hc
  cases hc

theorem exists_fields_of_abs_le (hz : z.Bounded) (ht : |t| ≤ 66900000000000000) : ∃ c, z.fields t = some c := by
  refine exists_fields_of_yearFits (Fields.yearFits_of_abs_le (by omega)) fun dst => Fields.yearFits_of_abs_le ?_
  have hoffset := hz dst
  rw [abs_le] at ht ⊢
  omega

theorem exists_fields (hz : z.Bounded) (ht : Moderate t) : ∃ c, z.fields t = some c := by
  obtain ⟨hlo, hhi⟩ := ht
  exact exists_fields_of_abs_le hz (abs_le.2 ⟨by omega, by omega⟩)

theorem toCalendar_zone_eq (z : Zone) (t : ℤ) : z.toCalendar .zone t =
    match z.fields t with
    | some c => .ok c
    | none => .error (.calendar t .overflow) := rfl

theorem toCalendar_zone_eq_ok_iff : z.toCalendar .zone t = .ok c ↔ z.fields t = some c := by
  rw [toCalendar_zone_eq]
  cases z.fields t <;> simp

/-! ### Zones of a text -/

theorem offsetSeconds_mem (p : ℕ × ℕ × ℕ) : 0 ≤ offsetSeconds p ∧ offsetSeconds p < 90000 := by
  obtain ⟨h, m, s⟩ := p
  have hdef : offsetSeconds (h, m, s) = (min h 24 * 3600 + min m 59 * 60 + min s 59 : ℕ) := rfl
  omega

theorem standardOffset?_mem {text rest : Bytes} {o : ℤ} (h : standardOffset? text = some (o, rest)) :
    -90000 < o ∧ o < 90000 := by
  unfold standardOffset? at h
  split at h
  · obtain ⟨⟨p, rest'⟩, -, h⟩ := Option.bind_eq_some_iff.1 h
    have := offsetSeconds_mem p
    cases h
    split <;> omega
  · cases h

theorem daylightOffset_mem {o : ℤ} (ho : -90000 < o ∧ o < 90000) (text : Bytes) :
    -90000 < (daylightOffset o text).1 ∧ (daylightOffset o text).1 ≤ 93600 := by
  unfold daylightOffset
  dsimp only
  split
  · constructor <;> dsimp only <;> omega
  · rename_i p rest heq
    have := offsetSeconds_mem p
    dsimp only
    split <;> omega

theorem bounded_ofBytes (text : Bytes) : (ofBytes text).Bounded := by
  unfold ofBytes
  split
  · intro dst
    cases dst <;> decide
  · rename_i o h
    obtain ⟨rest, -, ho⟩ := Option.bind_eq_some_iff.1 h
    have := standardOffset?_mem ho
    intro dst
    show -93600 ≤ o ∧ o ≤ 93600
    omega
  · rename_i o rest _ h
    obtain ⟨rest', -, ho⟩ := Option.bind_eq_some_iff.1 h
    have hstandard := standardOffset?_mem ho
    intro dst
    cases dst with
    | false =>
      show -93600 ≤ o ∧ o ≤ 93600
      omega
    | true =>
      cases skipName? rest with
      | none =>
        show -93600 ≤ (0 : ℤ) ∧ (0 : ℤ) ≤ 93600
        decide
      | some text =>
        have := daylightOffset_mem hstandard text
        exact ⟨by show -93600 ≤ (daylightOffset o text).1; omega, this.2⟩

end Zone

end Groundwork
