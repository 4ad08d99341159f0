import Groundwork.Calendar.Slots
import Groundwork.Proofs.Calendar.Normalization

/-!
# Fields handed over in slots

A field is written with its sign extended to 64 bits (`slots_eq_map`), and of a slot that is read the low 32 bits count
(`inOrder_ofSlots`). So fields that were written are read back as they were (`ofSlots_breakDown`), in universal time as
the instant that they were made of (`buildUpIn_breakDown_utc`), and what slots have beyond 32 bits changes nothing
(`ofSlots_congr`).
-/

namespace Groundwork

namespace Fields

variable {c : Fields} {data data' : List Int64}

theorem inOrder_injective : Function.Injective inOrder := by
  rintro ⟨⟩ ⟨⟩ h
  simpa [inOrder] using h

theorem slots_eq_map (c : Fields) : c.slots = (c.inOrder.map Int32.toInt64).map Int64.toInt := by
  rw [List.map_map]
  exact List.map_congr_left fun f _ => (Int32.toInt_toInt64 f).symm

theorem getElem?_slots_append (c : Fields) (i : ℤ) (rest : List ℤ) : (c.slots ++ i :: rest)[9]? = some i := rfl

/-- The fields are the low halves of nine slots. -/
theorem inOrder_ofSlots (h : data.length = 9) (rest : List Int64) :
    (ofSlots ((data ++ rest).map Int64.toInt)).inOrder = data.map Int64.toInt32 := by
  have hslot : ∀ i (hi : i < data.length),
      Int32.ofInt (((data ++ rest).map Int64.toInt).getD i 0) = data[i].toInt32 := by
    intro i hi
    rw [List.getD_eq_getElem?_getD, List.getElem?_map, List.getElem?_append_left hi, List.getElem?_eq_getElem hi]
    exact Int32.ofInt_int64ToInt _
  refine List.ext_getElem (by simp [h]) fun i hi _ => ?_
  rw [length_inOrder, ← h] at hi
  rw [List.getElem_map, ← hslot i hi]
  rw [h] at hi
  interval_cases i <;> rfl

theorem exists_inOrder (h : data.length = 9) : ∃ c : Fields, c.inOrder = data.map Int64.toInt32 :=
  ⟨_, inOrder_ofSlots h []⟩

theorem ofSlots_of_inOrder (h : c.inOrder = data.map Int64.toInt32) (rest : List Int64) :
    ofSlots ((data ++ rest).map Int64.toInt) = c := by
  have hlength : data.length = 9 := by
    rw [← List.length_map Int64.toInt32, ← h, length_inOrder]
  exact inOrder_injective ((inOrder_ofSlots hlength rest).trans h.symm)

theorem toInt32_eq_iff {a b : Int64} : a.toInt32 = b.toInt32 ↔ a.toInt ≡ b.toInt [ZMOD 2 ^ 32] := by
  rw [← Int32.toInt_inj, Int64.toInt_toInt32, Int64.toInt_toInt32, Int.bmod_eq_emod, Int.bmod_eq_emod, Int.ModEq]
  split_ifs <;> omega

theorem ofSlots_congr (h : data.length = 9)
    (hcongr : List.Forall₂ (fun a b => a.toInt ≡ b.toInt [ZMOD 2 ^ 32]) data data') (rest rest' : List Int64) :
    ofSlots ((data ++ rest).map Int64.toInt) = ofSlots ((data' ++ rest').map Int64.toInt) := by
  have hlow : data.map Int64.toInt32 = data'.map Int64.toInt32 := by
    rw [← List.forall₂_eq_eq_eq, List.forall₂_map_left_iff, List.forall₂_map_right_iff]
    exact hcongr.imp fun _ _ => toInt32_eq_iff.2
  obtain ⟨c, hc⟩ := exists_inOrder h
  rw [ofSlots_of_inOrder hc, ofSlots_of_inOrder (hc.trans hlow)]

end Fields

namespace Zone

open Fields (YearFits)

variable {z : Zone} {isLocal : UInt8} {past : Past} {c : Fields} {e : TimeError} {s : ℤ} {old : List Int64}

/-! ### Broken down -/

theorem breakDown_append_of_ok (h : z.toCalendar (choice isLocal) s = .ok c) (hold : old.length = 10)
    (rest : List Int64) : z.breakDown isLocal s ((old ++ rest).map Int64.toInt) =
      (c.inOrder.map Int32.toInt64 ++ 0 :: rest).map Int64.toInt := by
  rw [breakDown_of_ok h, Fields.slots_eq_map, List.map_append, List.drop_left' (by simpa using hold), List.map_append]
  rfl

theorem breakDown_append_of_error (h : z.toCalendar (choice isLocal) s = .error e) (hold : old.length = 10)
    (rest : List Int64) : z.breakDown isLocal s ((old ++ rest).map Int64.toInt) =
      (List.replicate 9 0 ++ 1 :: rest).map Int64.toInt := by
  rw [breakDown_of_error h, List.map_append, List.drop_left' (by simpa using hold), List.map_append]
  rfl

theorem breakDown_flag_iff (array : List ℤ) :
    (z.breakDown isLocal s array)[9]? = some 0 ↔ ∃ c, z.toCalendar (choice isLocal) s = .ok c := by
  cases h : z.toCalendar (choice isLocal) s with
  | ok c =>
    rw [breakDown_of_ok h, Fields.getElem?_slots_append]
    simp
  | error e =>
    rw [breakDown_of_error h, Fields.getElem?_slots_append]
    simp

theorem breakDown_utc_flag_iff (array : List ℤ) : (z.breakDown 0 s array)[9]? = some 0 ↔ YearFits s := by
  rw [breakDown_flag_iff, Fields.yearFits_iff]
  exact exists_congr fun c => z.toCalendar_utc_eq_ok_iff

/-! ### Built up -/

/-- A failure and the second before the epoch have one answer. -/
theorem buildUpIn_eq_neg_one_iff {data : List ℤ} : z.buildUpIn past isLocal data = -1 ↔
    (∃ e, z.fromCalendarIn past (choice isLocal) (.ofSlots data) = .error e) ∨
      z.fromCalendarIn past (choice isLocal) (.ofSlots data) = .ok (-1) := by
  cases h : z.fromCalendarIn past (choice isLocal) (.ofSlots data) with
  | ok t => simp [buildUpIn_of_ok h]
  | error e => simp [buildUpIn_of_error h]

/-! ### There and back -/

theorem ofSlots_breakDown (h : z.toCalendar (choice isLocal) s = .ok c) (array : List ℤ) :
    Fields.ofSlots (z.breakDown isLocal s array) = c := by
  rw [breakDown_of_ok h]
  exact Fields.ofSlots_slots_append c _

theorem counted_of_yearFits (h : YearFits s) : Clock.leastInstant ≤ s ∧ s ≤ Clock.greatestInstant := by
  obtain ⟨hlo, hhi⟩ := abs_le.1 (Fields.abs_le_of_yearFits h)
  unfold Clock.leastInstant Clock.greatestInstant
  omega

theorem buildUpIn_breakDown_utc (h : YearFits s) (past : Past) (array : List ℤ) :
    z.buildUpIn past 0 (z.breakDown 0 s array) = s := by
  obtain ⟨c, hc⟩ := Fields.yearFits_iff.1 h
  have hfields : Fields.ofSlots (z.breakDown 0 s array) = c := ofSlots_breakDown (z.toCalendar_utc_eq_ok_iff.2 hc) _
  have hback : z.fromCalendarIn past (choice 0) (.ofSlots (z.breakDown 0 s array)) = judged s past.leftover := by
    rw [hfields]
    exact z.fromCalendarIn_utc past hc (counted_of_yearFits h)
  cases hjudged : judged s past.leftover with
  | ok t =>
    rw [hjudged] at hback
    rw [buildUpIn_of_ok hback, eq_of_judged_eq_ok hjudged]
  | error e =>
    -- the second before the epoch has the answer of a failure
    rw [hjudged] at hback
    rw [buildUpIn_of_error hback, eq_neg_one_of_judged_eq_error hjudged]

/-- An instant is broken down into ten slots, whatever they held, and no others: its fields in their order with their
signs extended and a zero, or nine zeros and a one if it has none. An instant is built up from the low 32 bits of nine
slots and from nothing else, whatever conversions were made before; the answer minus one tells a failure or the second
before the epoch. So the fields that were written are the ones that are read, and in universal time every
instant whose year fits comes back. -/
theorem slots_carry_fields (z : Zone) (isLocal : UInt8) (past : Past) :
    let which : ClockChoice := if isLocal = 0 then .utc else .zone
    (∀ (s : Int64) (old rest : List Int64), old.length = 10 →
      (∀ c, z.toCalendar which s.toInt = .ok c →
        z.breakDown isLocal s.toInt ((old ++ rest).map Int64.toInt) =
          ([c.sec, c.min, c.hour, c.mday, c.mon, c.year, c.wday, c.yday, c.isdst].map Int32.toInt64 ++
            0 :: rest).map Int64.toInt) ∧
      ∀ e, z.toCalendar which s.toInt = .error e →
        z.breakDown isLocal s.toInt ((old ++ rest).map Int64.toInt) =
          (List.replicate 9 0 ++ 1 :: rest).map Int64.toInt) ∧
    (∀ data : List Int64, data.length = 9 → ∃ c : Fields, c.inOrder = data.map Int64.toInt32 ∧ ∀ rest,
      (∀ t, z.fromCalendarIn past which c = .ok t →
        z.buildUpIn past isLocal ((data ++ rest).map Int64.toInt) = t) ∧
      (z.buildUpIn past isLocal ((data ++ rest).map Int64.toInt) = -1 ↔
        (∃ e, z.fromCalendarIn past which c = .error e) ∨ z.fromCalendarIn past which c = .ok (-1))) ∧
    (∀ data data' rest rest' : List Int64, data.length = 9 →
      List.Forall₂ (fun a b => a.toInt ≡ b.toInt [ZMOD 2 ^ 32]) data data' →
      z.buildUpIn past isLocal ((data ++ rest).map Int64.toInt) =
        z.buildUpIn past isLocal ((data' ++ rest').map Int64.toInt)) ∧
    (∀ (s : Int64) (array : List Int64) (c : Fields), z.toCalendar which s.toInt = .ok c →
      Fields.ofSlots (z.breakDown isLocal s.toInt (array.map Int64.toInt)) = c) ∧
    ∀ (s : Int64) (array : List Int64), ∃ after, z.breakDown 0 s.toInt (array.map Int64.toInt) = after ∧
      (after[9]? = some 0 ↔ YearFits s.toInt) ∧
      (after[9]? = some 0 → z.buildUpIn past 0 after = s.toInt) := by
  intro which
  refine ⟨fun s old rest hold => ⟨fun c hc => breakDown_append_of_ok hc hold rest,
      fun e he => breakDown_append_of_error he hold rest⟩, fun data hdata => ?_,
    fun data data' rest rest' hdata hcongr => ?_, fun s array c hc => ofSlots_breakDown hc _,
    fun s array => ⟨_, rfl, breakDown_utc_flag_iff _, fun hflag => ?_⟩⟩
  · obtain ⟨c, hc⟩ := Fields.exists_inOrder hdata
    refine ⟨c, hc, fun rest => ?_⟩
    rw [← Fields.ofSlots_of_inOrder hc rest]
    exact ⟨fun t => buildUpIn_of_ok, buildUpIn_eq_neg_one_iff⟩
  · unfold buildUpIn
    rw [Fields.ofSlots_congr hdata hcongr rest rest']
  · exact buildUpIn_breakDown_utc ((breakDown_utc_flag_iff _).1 hflag) past _

/-- The second before the epoch and the last of all seconds in New York, slots beyond 32 bits, and the minus one that is
an instant. -/
theorem slots_carry_fields_minus_one :
    let z : Zone := ⟨-18000, none⟩
    let c : Fields := ⟨59, 59, 18, 31, 11, 69, 3, 364, 0⟩
    let old : List Int64 := List.replicate 10 85
    let data : List Int64 := [59 + 2 ^ 32, 59, 18 - 2 ^ 32, 31, 11, 69, 3, 364, 0]
    let data' : List Int64 := [59, 59, 18, 31, 11, 69, 3, 364, 0]
    old.length = 10 ∧ data.length = 9 ∧
    (z.toCalendar .zone (-1) = .ok c ∧
      z.breakDown 1 (-1) ((old ++ [85, 85]).map Int64.toInt) = [59, 59, 18, 31, 11, 69, 3, 364, 0, 0, 85, 85] ∧
      Fields.ofSlots (z.breakDown 1 (-1) (old.map Int64.toInt)) = c) ∧
    (z.toCalendar .zone (2 ^ 63 - 1) = .error (.calendar (2 ^ 63 - 1) .overflow) ∧
      z.breakDown 1 (2 ^ 63 - 1) ((old ++ [85, 85]).map Int64.toInt) = [0, 0, 0, 0, 0, 0, 0, 0, 0, 1, 85, 85]) ∧
    (z.fromCalendarIn ⟨0, none⟩ .zone c = .ok (-1) ∧ z.buildUpIn ⟨0, none⟩ 1 ((data ++ []).map Int64.toInt) = -1) ∧
    (List.Forall₂ (fun a b => a.toInt ≡ b.toInt [ZMOD 2 ^ 32]) data data' ∧
      z.buildUpIn ⟨0, none⟩ 1 ((data ++ []).map Int64.toInt) = z.buildUpIn ⟨0, none⟩ 1 ((data' ++ [0]).map Int64.toInt)) ∧
    ∃ after, z.breakDown 0 (-1) (old.map Int64.toInt) = after ∧ after[9]? = some 0 ∧
      z.buildUpIn ⟨0, none⟩ 0 after = -1 := by
  intro z c old data data'
  obtain ⟨hbreak, hbuild, hcongr, hread, hutc⟩ := slots_carry_fields z 1 ⟨0, none⟩
  have hold : old.length = 10 := rfl
  have hdata : data.length = 9 := rfl
  have hok : z.toCalendar .zone (-1) = .ok c := by decide
  have herror : z.toCalendar .zone (2 ^ 63 - 1) = .error (.calendar (2 ^ 63 - 1) .overflow) := by decide
  have hback : z.fromCalendarIn ⟨0, none⟩ .zone c = .ok (-1) := by decide
  have hlow : List.Forall₂ (fun a b => a.toInt ≡ b.toInt [ZMOD 2 ^ 32]) data data' := by decide
  refine ⟨hold, hdata, ⟨hok, ?_, hread (-1) old c hok⟩, ⟨herror, ?_⟩, ⟨hback, ?_⟩, ⟨hlow, hcongr _ _ [] [0] hdata hlow⟩, ?_⟩
  · exact (hbreak (-1) old [85, 85] hold).1 c hok
  · have hlast : (2 ^ 63 - 1 : Int64).toInt = 2 ^ 63 - 1 := by decide
    have hfailed := (hbreak (2 ^ 63 - 1) old [85, 85] hold).2 (.calendar (2 ^ 63 - 1) .overflow)
    rw [hlast] at hfailed
    exact hfailed herror
  · obtain ⟨c', hc', hanswer⟩ := hbuild data hdata
    obtain rfl : c' = c := Fields.inOrder_injective (hc'.trans (by decide))
    exact (hanswer []).1 _ hback
  · obtain ⟨after, hafter, hflag, hinstant⟩ := hutc (-1) old
    have hzero : after[9]? = some 0 := by rw [← hafter]; decide
    exact ⟨after, hafter, hzero, hinstant hzero⟩

end Zone

end Groundwork
