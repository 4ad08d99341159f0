import Groundwork.Proofs.Calendar.Local
import Groundwork.Proofs.Text.Numeral

/-!
# Local time by the text of a zone

`IsZone text o d`: the text is a name and the offset `o` of standard time, and where it goes on, a name and the
offset `d` of daylight saving time and the rules after a comma. Such a text is read as a zone of these offsets
(`ofBytes_of_isZone`), so local time is universal time shifted by the one that its flag tells
(`toCalendar_zone_shifted`).
-/

namespace Groundwork

namespace Ascii

variable {b : UInt8} {d : ℕ}

theorem isDigit_of_digit (h : Numeral.IsDigit 10 b d) : isDigit b = true := by
  obtain ⟨hlt, hb⟩ := h
  simp only [isDigit, Bool.and_eq_true, decide_eq_true_iff, UInt8.le_iff_toNat_le, UInt8.reduceToNat]
  omega

theorem isLetter_of_isDigit (h : isDigit b = true) : isLetter b = false := by
  simp only [isDigit, Bool.and_eq_true, decide_eq_true_iff, UInt8.le_iff_toNat_le, UInt8.reduceToNat] at h
  simp only [isLetter, isUpper, isLower, Bool.or_eq_false_iff, Bool.and_eq_false_iff, decide_eq_false_iff_not,
    UInt8.le_iff_toNat_le, UInt8.reduceToNat]
  omega

theorem isSpace_of_isDigit (h : isDigit b = true) : isSpace b = false := by
  simp only [isDigit, Bool.and_eq_true, decide_eq_true_iff, UInt8.le_iff_toNat_le, UInt8.reduceToNat] at h
  simp only [isSpace, Bool.or_eq_false_iff, Bool.and_eq_false_iff, decide_eq_false_iff_not, UInt8.le_iff_toNat_le,
    UInt8.reduceToNat, ← UInt8.toNat_inj]
  omega

end Ascii

namespace Zone

open Numeral (Digits NoDigit)

/-! ### The grammar -/

/-- The texts of a name: letters, or letters, digits and signs in angle brackets, three at least. -/
inductive IsName : Bytes → Prop
  | letters {s : Bytes} : 3 ≤ s.length → (∀ b ∈ s, Ascii.isLetter b) → IsName s
  | quoted {s : Bytes} : 3 ≤ s.length → (∀ b ∈ s, isQuotedNameByte b) →
      IsName ('<'.toUInt8 :: (s ++ ['>'.toUInt8]))

/-- The texts of a number up to `limit`. -/
def IsNumber (limit : ℕ) (s : Bytes) (n : ℕ) : Prop :=
  ∃ ds, Digits 10 s ds ∧ ds ≠ [] ∧ Numeral.value 10 ds = n ∧ n ≤ limit

/-- The texts of hours, and minutes and seconds where they are given, and the seconds that they make. -/
inductive IsClock : Bytes → ℤ → Prop
  | hours {s : Bytes} {h : ℕ} : IsNumber 24 s h → IsClock s (3600 * h)
  | minutes {s s' : Bytes} {h m : ℕ} : IsNumber 24 s h → IsNumber 59 s' m →
      IsClock (s ++ ':'.toUInt8 :: s') (3600 * h + 60 * m)
  | seconds {s s' s'' : Bytes} {h m c : ℕ} : IsNumber 24 s h → IsNumber 59 s' m → IsNumber 59 s'' c →
      IsClock (s ++ ':'.toUInt8 :: (s' ++ ':'.toUInt8 :: s'')) (3600 * h + 60 * m + c)

/-- The texts of an offset in seconds east; a text without the minus sign counts to the west. -/
inductive IsOffset : Bytes → ℤ → Prop
  | signed {sign s : Bytes} {negative : Bool} {n : ℤ} : IsSign sign negative → IsClock s n →
      IsOffset (sign ++ s) (if negative then n else -n)

/-- The texts of the offset of daylight saving time, which is an hour ahead of standard time where none is given. -/
inductive IsDaylightOffset (standard : ℤ) : Bytes → ℤ → Prop
  | absent : IsDaylightOffset standard [] (standard + 3600)
  | given {s : Bytes} {o : ℤ} : IsOffset s o → IsDaylightOffset standard s o

/-- The texts of a zone with the offset of standard time and, if it has any, of daylight saving time, whose rules are
given. -/
inductive IsZone : Bytes → ℤ → Option ℤ → Prop
  | standard {name s : Bytes} {o : ℤ} : IsName name → IsOffset s o → IsZone (name ++ s) o none
  | daylight {name s name' s' rules : Bytes} {o d : ℤ} : IsName name → IsOffset s o → IsName name' →
      IsDaylightOffset o s' d → IsZone (name ++ (s ++ (name' ++ (s' ++ ','.toUInt8 :: rules)))) o (some d)

variable {s t name text : Bytes} {limit n : ℕ} {o d x : ℤ}

/-! ### Names -/

/-- The text `t` does not start with a letter. -/
def NoLetter (t : Bytes) : Prop := ∀ b ∈ t.head?, Ascii.isLetter b = false

theorem takeWhile_of_noLetter (h : NoLetter t) : t.takeWhile Ascii.isLetter = [] := by
  cases t with
  | nil => rfl
  | cons b t => exact List.takeWhile_cons_of_neg (by simp [h b rfl])

theorem dropWhile_of_noLetter (h : NoLetter t) : t.dropWhile Ascii.isLetter = t := by
  cases t with
  | nil => rfl
  | cons b t => exact List.dropWhile_cons_of_neg (by simp [h b rfl])

theorem skipName?_append (hname : IsName name) (ht : NoLetter t) : skipName? (name ++ t) = some t := by
  unfold skipName?
  cases hname with
  | letters hlength hletters =>
    rw [List.takeWhile_append_of_pos hletters, List.dropWhile_append_of_pos hletters, takeWhile_of_noLetter ht,
      dropWhile_of_noLetter ht, List.append_nil, if_pos hlength]
  | @quoted s hlength hbytes =>
    have hopen : NoLetter ('<'.toUInt8 :: (s ++ ['>'.toUInt8]) ++ t) := by
      rintro b ⟨⟩
      decide
    have hclose : isQuotedNameByte '>'.toUInt8 = false := by decide
    have htake : (s ++ ('>'.toUInt8 :: t)).takeWhile isQuotedNameByte = s := by
      rw [List.takeWhile_append_of_pos hbytes, List.takeWhile_cons_of_neg (by simp [hclose]), List.append_nil]
    have hdrop : (s ++ ('>'.toUInt8 :: t)).dropWhile isQuotedNameByte = '>'.toUInt8 :: t := by
      rw [List.dropWhile_append_of_pos hbytes, List.dropWhile_cons_of_neg (by simp [hclose])]
    rw [takeWhile_of_noLetter hopen, if_neg (by simp)]
    simp [skip?, htake, hdrop, hlength]

/-! ### Offsets -/

/-- The text `t` does not go on with a digit or a colon. -/
def EndsClock (t : Bytes) : Prop := NoDigit 10 t ∧ ∀ b ∈ t.head?, b ≠ ':'.toUInt8

theorem IsNumber.le (hs : IsNumber limit s n) : n ≤ limit := by
  obtain ⟨ds, -, -, -, hle⟩ := hs
  exact hle

theorem IsNumber.digit (hs : IsNumber limit s n) : ∃ b s' d, s = b :: s' ∧ Numeral.IsDigit 10 b d := by
  obtain ⟨ds, hds, hne, -, -⟩ := hs
  cases hds with
  | nil => exact absurd rfl hne
  | cons hd _ => exact ⟨_, _, _, rfl, hd⟩

theorem number?_append (hs : IsNumber limit s n) (hlimit : limit < 65536) (ht : NoDigit 10 t) :
    number? (s ++ t) = some (n, t) := by
  obtain ⟨b, s', d, rfl, hd⟩ := hs.digit
  obtain ⟨ds, hds, hne, rfl, hle⟩ := hs
  have hwrap : wrap false (Numeral.value 10 ds) % 65536 = Numeral.value 10 ds := by
    unfold wrap
    split
    · omega
    · exact Nat.mod_eq_of_lt (hle.trans_lt hlimit)
  have hsplit : Ascii.splitSign (((b :: s') ++ t).dropWhile Ascii.isSpace) = (false, (b :: s') ++ t) := by
    rw [List.cons_append, List.dropWhile_cons_of_neg (by simp [Ascii.isSpace_of_isDigit (Ascii.isDigit_of_digit hd)])]
    exact Ascii.splitSign_append .absent (hd.noSign _)
  unfold number?
  rw [hsplit]
  dsimp only
  rw [Numeral.spanDigits_append hds ht]
  cases ds with
  | nil => exact absurd rfl hne
  | cons d ds => simp only [hwrap]

theorem skip?_cons (c : Char) (t : Bytes) : skip? c (c.toUInt8 :: t) = some t := if_pos rfl

theorem skip?_of_endsClock (ht : EndsClock t) : skip? ':' t = none := by
  cases t with
  | nil => rfl
  | cons b t => exact if_neg (ht.2 b rfl)

theorem noDigit_colon (t : Bytes) : NoDigit 10 (':'.toUInt8 :: t) := Numeral.noDigit_cons (by decide)

theorem offsetSeconds_of_le {h m c : ℕ} (hh : h ≤ 24) (hm : m ≤ 59) (hc : c ≤ 59) :
    offsetSeconds (h, m, c) = 3600 * h + 60 * m + c := by
  simp only [offsetSeconds, min_eq_left hh, min_eq_left hm, min_eq_left hc]
  push_cast
  ring

theorem clock?_append (hs : IsClock s x) (ht : EndsClock t) :
    ∃ p, clock? (s ++ t) = some (p, t) ∧ offsetSeconds p = x := by
  cases hs with
  | @hours s h hh =>
    refine ⟨(h, 0, 0), ?_, ?_⟩
    · simp [clock?, number?_append hh (by norm_num) ht.1, skip?_of_endsClock ht]
    · rw [offsetSeconds_of_le hh.le (by norm_num) (by norm_num)]
      simp
  | @minutes s s' h m hh hm =>
    refine ⟨(h, m, 0), ?_, ?_⟩
    · simp [clock?, number?_append hh (by norm_num) (noDigit_colon _), skip?_cons,
        number?_append hm (by norm_num) ht.1, skip?_of_endsClock ht]
    · rw [offsetSeconds_of_le hh.le hm.le (by norm_num)]
      simp
  | @seconds s s' s'' h m c hh hm hc =>
    refine ⟨(h, m, c), ?_, offsetSeconds_of_le hh.le hm.le hc.le⟩
    simp [clock?, number?_append hh (by norm_num) (noDigit_colon _), skip?_cons,
      number?_append hm (by norm_num) (noDigit_colon _), number?_append hc (by norm_num) ht.1]

theorem IsClock.digit (hs : IsClock s x) : ∃ b s' d, s = b :: s' ∧ Numeral.IsDigit 10 b d := by
  cases hs with
  | hours hh => exact hh.digit
  | minutes hh _ =>
    obtain ⟨b, s', d, rfl, hd⟩ := hh.digit
    exact ⟨b, _, d, rfl, hd⟩
  | seconds hh _ _ =>
    obtain ⟨b, s', d, rfl, hd⟩ := hh.digit
    exact ⟨b, _, d, rfl, hd⟩

theorem offset_append (hs : IsOffset s o) (ht : EndsClock t) : ∃ negative body p,
    Ascii.splitSign (s ++ t) = (negative, body) ∧ clock? body = some (p, t) ∧
      (if negative then offsetSeconds p else -offsetSeconds p) = o := by
  cases hs with
  | @signed sign s negative n hsign hclock =>
    obtain ⟨p, hp, rfl⟩ := clock?_append hclock ht
    refine ⟨negative, s ++ t, p, ?_, hp, rfl⟩
    obtain ⟨b, s', d, rfl, hd⟩ := hclock.digit
    rw [List.append_assoc]
    exact Ascii.splitSign_append hsign (hd.noSign _)

theorem IsOffset.startsOffset (hs : IsOffset s o) (t : Bytes) : startsOffset (s ++ t) = true := by
  cases hs with
  | signed hsign hclock =>
    obtain ⟨b, s', d, rfl, hd⟩ := hclock.digit
    cases hsign with
    | absent =>
      show (Ascii.isDigit b || _ || _) = true
      rw [Ascii.isDigit_of_digit hd, Bool.true_or, Bool.true_or]
    | plus => rfl
    | minus => rfl

theorem IsOffset.noLetter (hs : IsOffset s o) (t : Bytes) : NoLetter (s ++ t) := by
  intro b hb
  have hstarts := hs.startsOffset t
  rw [Zone.startsOffset, Option.mem_def.1 hb, Option.any_some, Bool.or_eq_true, Bool.or_eq_true] at hstarts
  rcases hstarts with (hdigit | hplus) | hminus
  · exact Ascii.isLetter_of_isDigit hdigit
  · rw [of_decide_eq_true hplus]
    decide
  · rw [of_decide_eq_true hminus]
    decide

theorem standardOffset?_append (hs : IsOffset s o) (ht : EndsClock t) : standardOffset? (s ++ t) = some (o, t) := by
  obtain ⟨negative, body, p, hsplit, hp, ho⟩ := offset_append hs ht
  unfold standardOffset?
  rw [if_pos (hs.startsOffset t), hsplit]
  simp only [hp, Option.bind_eq_bind, Option.bind_some, ho, Option.pure_def]

theorem endsClock_comma (t : Bytes) : EndsClock (','.toUInt8 :: t) := by
  refine ⟨Numeral.noDigit_cons (by decide), ?_⟩
  rintro b ⟨⟩
  decide

theorem clock?_comma (t : Bytes) : clock? (','.toUInt8 :: t) = none := by
  have hdrop : (','.toUInt8 :: t).dropWhile Ascii.isSpace = ','.toUInt8 :: t := List.dropWhile_cons_of_neg (by decide)
  have hsplit : Ascii.splitSign (','.toUInt8 :: t) = (false, ','.toUInt8 :: t) := rfl
  have hnumber : number? (','.toUInt8 :: t) = none := by
    unfold number?
    rw [hdrop, hsplit]
    dsimp only
    rw [Numeral.spanDigits_of_noDigit (endsClock_comma t).1]
  unfold clock?
  rw [hnumber]
  rfl

theorem daylightOffset_append (hs : IsDaylightOffset o s d) (rules : Bytes) :
    daylightOffset o (s ++ ','.toUInt8 :: rules) = (d, ','.toUInt8 :: rules) := by
  unfold daylightOffset
  cases hs with
  | absent =>
    have hsplit : Ascii.splitSign ([] ++ ','.toUInt8 :: rules) = (false, ','.toUInt8 :: rules) := rfl
    rw [hsplit]
    simp only [clock?_comma]
  | given hs =>
    obtain ⟨negative, body, p, hsplit, hp, ho⟩ := offset_append hs (endsClock_comma rules)
    rw [hsplit]
    simp only [hp, ho]

theorem IsDaylightOffset.noLetter (hs : IsDaylightOffset o s d) (rules : Bytes) :
    NoLetter (s ++ ','.toUInt8 :: rules) := by
  cases hs with
  | absent =>
    rintro b ⟨⟩
    decide
  | given hs => exact hs.noLetter _

/-! ### Zones -/

theorem IsName.endsClock (hname : IsName name) (t : Bytes) : EndsClock (name ++ t) := by
  cases hname with
  | letters hlength hletters =>
    cases name with
    | nil => simp at hlength
    | cons b s =>
      have hletter : Ascii.isLetter b = true := hletters b List.mem_cons_self
      constructor
      · rintro c ⟨⟩ d hd
        rw [Ascii.isLetter_of_isDigit (Ascii.isDigit_of_digit hd)] at hletter
        cases hletter
      · rintro c ⟨⟩ rfl
        revert hletter
        decide
  | quoted _ _ =>
    constructor
    · exact Numeral.noDigit_cons (by decide)
    · rintro c ⟨⟩
      decide

/-- A text is read as a zone of its offsets. -/
theorem ofBytes_of_isZone {d : Option ℤ} (h : IsZone text o d) :
    (ofBytes text).standard = o ∧ (ofBytes text).daylight.map Daylight.offset = d := by
  cases h with
  | @standard name s o hname hs =>
    have hread : (skipName? (name ++ s)).bind standardOffset? = some (o, []) := by
      have hs' := hs.noLetter []
      have ho := standardOffset?_append hs (t := []) ⟨Numeral.noDigit_nil, by simp⟩
      rw [List.append_nil] at hs' ho
      rw [skipName?_append hname hs', Option.bind_some, ho]
    unfold ofBytes
    rw [hread]
    exact ⟨rfl, rfl⟩
  | @daylight name s name' s' rules o d hname hs hname' hs' =>
    have hread : (skipName? (name ++ (s ++ (name' ++ (s' ++ ','.toUInt8 :: rules))))).bind standardOffset? =
        some (o, name' ++ (s' ++ ','.toUInt8 :: rules)) := by
      rw [skipName?_append hname (hs.noLetter _), Option.bind_some, standardOffset?_append hs (hname'.endsClock _)]
    have hname := skipName?_append hname' (hs'.noLetter rules)
    have hoffset := daylightOffset_append hs' rules
    unfold ofBytes
    rw [hread]
    cases hrest : name' ++ (s' ++ ','.toUInt8 :: rules) with
    | nil => simp at hrest
    | cons b rest =>
      rw [hrest] at hname
      simp only [hname, hoffset, Option.map_some, and_self]

theorem offset_of_isZone {d : Option ℤ} (h : IsZone text o d) (dst : Bool) :
    (ofBytes text).offset dst = if dst then d.getD o else o := by
  obtain ⟨rfl, rfl⟩ := ofBytes_of_isZone h
  unfold offset
  cases (ofBytes text).daylight <;> cases dst <;> rfl

theorem offsetAt_of_isZone_none (h : IsZone text o none) (year : Int32) (t : ℤ) :
    (ofBytes text).offsetAt year t = (o, false) := by
  obtain ⟨rfl, hd⟩ := ofBytes_of_isZone h
  unfold offsetAt
  rw [Option.map_eq_none_iff.1 hd]

/-- Local time is universal time shifted by the offset that its flag tells. An instant has none only if its year does
not fit, or that of one of the instants that the offsets make of it. -/
theorem toCalendar_zone_shifted {d : Option ℤ} (h : IsZone text o d) (s : Int64) :
    (∀ c, (ofBytes text).toCalendar .zone s.toInt = .ok c → ∃ (dst : Bool) (r : Int64) (u : Fields),
      c.isdst = (if dst then 1 else 0) ∧ (d = none → dst = false) ∧
        r.toInt = s.toInt + (if dst then d.getD o else o) ∧ (ofBytes text).toCalendar .utc r.toInt = .ok u ∧
          c = { u with isdst := c.isdst }) ∧
    ∀ e, (ofBytes text).toCalendar .zone s.toInt = .error e → e = .calendar s.toInt .overflow ∧
      (¬ Fields.YearFits s.toInt ∨ ¬ Fields.YearFits (s.toInt + o) ∨ ∃ x ∈ d, ¬ Fields.YearFits (s.toInt + x)) := by
  constructor
  · intro c hc
    obtain ⟨v, b, dst, -, hdst, hb, rfl⟩ := fields_eq_some (toCalendar_zone_eq_ok_iff.1 hc)
    obtain ⟨hlo, hhi⟩ := abs_le.1 (Fields.abs_le_of_yearFits (Fields.yearFits_iff.2 ⟨b, hb⟩))
    have hr : (Int64.ofInt (s.toInt + (ofBytes text).offset dst)).toInt = s.toInt + (ofBytes text).offset dst :=
      Int64.toInt_ofInt_of_le (by omega) (by omega)
    refine ⟨dst, _, b, rfl, ?_, by rw [hr, offset_of_isZone h], ?_, rfl⟩
    · rintro rfl
      rw [offsetAt_of_isZone_none h] at hdst
      exact (congrArg Prod.snd hdst).symm
    · rw [hr]
      exact ((ofBytes text).toCalendar_utc_eq_ok_iff).2 hb
  · intro e he
    rw [toCalendar_zone_eq] at he
    cases hfields : (ofBytes text).fields s.toInt with
    | some c =>
      rw [hfields] at he
      cases he
    | none =>
      rw [hfields] at he
      refine ⟨(Except.error.inj he).symm, ?_⟩
      obtain hfit | ⟨dst, hfit⟩ := not_yearFits_of_fields hfields
      · exact .inl hfit
      · rw [offset_of_isZone h] at hfit
        cases dst with
        | false => exact .inr (.inl hfit)
        | true =>
          cases d with
          | none => exact .inr (.inl hfit)
          | some x => exact .inr (.inr ⟨x, rfl, hfit⟩)

/-- A summer's morning in Tehran in 2021. -/
theorem toCalendar_zone_shifted_half_hour :
    let text := "<+0330>-3:30<+0430>,J79/24,J263/24".toList.map Char.toUInt8
    IsZone text 12600 (some 16200) ∧ ∃ c u : Fields, (ofBytes text).toCalendar .zone 1625097600 = .ok c ∧
      (ofBytes text).toCalendar .utc 1625113800 = .ok u ∧ c.isdst = 1 ∧ c = { u with isdst := 1 } := by
  intro text
  have hthree : IsNumber 24 ['3'.toUInt8] 3 := ⟨[3], Numeral.spanDigits_eq_nil_iff.1 (by decide), by decide⟩
  have hthirty : IsNumber 59 ['3'.toUInt8, '0'.toUInt8] 30 :=
    ⟨[3, 0], Numeral.spanDigits_eq_nil_iff.1 (by decide), by decide⟩
  have hname : ∀ s : Bytes, 3 ≤ s.length → s.all isQuotedNameByte = true →
      IsName ('<'.toUInt8 :: (s ++ ['>'.toUInt8])) := fun s hlength hbytes => .quoted hlength (List.all_eq_true.1 hbytes)
  have htext : IsZone text 12600 (some 16200) :=
    .daylight (hname (Ascii.text ['+', '0', '3', '3', '0']) (by decide) (by decide))
      (.signed .minus (.minutes hthree hthirty))
      (hname (Ascii.text ['+', '0', '4', '3', '0']) (by decide) (by decide)) .absent
  have hz : ofBytes text = ⟨12600, some ⟨16200, ⟨.julian 79, 86400⟩, ⟨.julian 263, 86400⟩⟩⟩ := by decide +kernel
  have hc : (ofBytes text).toCalendar .zone 1625097600 = .ok ⟨0, 30, 4, 1, 6, 121, 4, 181, 1⟩ := by rw [hz]; decide
  obtain ⟨dst, r, u, hflag, -, hr, hu, hcu⟩ := (toCalendar_zone_shifted htext 1625097600).1 _ hc
  cases dst with
  | false => cases hflag
  | true =>
    rw [hr] at hu
    exact ⟨htext, _, u, hc, hu, rfl, hcu⟩

end Zone

end Groundwork
