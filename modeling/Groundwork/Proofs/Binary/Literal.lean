import Groundwork.Binary.Literal
import Groundwork.Proofs.Text.Numeral

/-!
# The language of floating-point literals

`Literal.Spells s l`: the text `s` is an optional sign and a magnitude, which is a decimal or
hexadecimal numeral with an optional exponent, an infinity or a NaN. The reader takes the longest start
at each step and never goes back, so for each part there are two lemmas: a text of the language is taken
apart as it was put together, because what follows a part cannot extend it, and what is taken apart is a
text of the language. `ofBytes?_eq_some_iff` is the two together.
-/

namespace Groundwork

/-- The bytes of `s` read `word` in capital or small letters; `word` is given in small ones. -/
def IsWord (word : List Char) (s : Bytes) : Prop :=
  List.Forall₂ (fun c b => b = c.toUInt8 ∨ b = c.toUpper.toUInt8) word s

instance (word : List Char) (s : Bytes) : Decidable (IsWord word s) :=
  inferInstanceAs (Decidable (List.Forall₂ _ _ _))

/-- Digits before and after a point, at least one in all; the point may be left out with the digits
after it. -/
inductive IsNumeral (base : ℕ) : Bytes → List ℕ → List ℕ → Prop
  | whole {s ds} : Numeral.Digits base s ds → ds ≠ [] → IsNumeral base s ds []
  | point {s t ds es} : Numeral.Digits base s ds → Numeral.Digits base t es → ds ++ es ≠ [] →
      IsNumeral base (s ++ '.'.toUInt8 :: t) ds es

/-- An optional exponent: the letter `mark`, an optional sign and at least one decimal digit. -/
inductive IsExponent (mark : Char) : Bytes → ℤ → Prop
  | absent : IsExponent mark [] 0
  | present {m sign s negative ds} : IsWord [mark] m → IsSign sign negative → Numeral.Digits 10 s ds → ds ≠ [] →
      IsExponent mark (m ++ (sign ++ s))
        (if negative then -(Nat.ofDigits 10 ds.reverse : ℕ) else (Nat.ofDigits 10 ds.reverse : ℕ))

/-- The texts of a magnitude. The point of a numeral stands `es.length` digits before its end, and a
hexadecimal digit counts for four powers of two. -/
inductive IsMagnitude : Bytes → Magnitude → Prop
  | decimal {s t ds es e} : IsNumeral 10 s ds es → IsExponent 'e' t e →
      IsMagnitude (s ++ t) (.finite 10 (Nat.ofDigits 10 (ds ++ es).reverse) (e - es.length))
  | hexadecimal {x s t ds es e} : IsWord ['0', 'x'] x → IsNumeral 16 s ds es → IsExponent 'p' t e →
      IsMagnitude (x ++ (s ++ t)) (.finite 2 (Nat.ofDigits 16 (ds ++ es).reverse) (e - 4 * es.length))
  | inf {s} : IsWord ['i', 'n', 'f'] s → IsMagnitude s .infinity
  | infinity {s} : IsWord ['i', 'n', 'f', 'i', 'n', 'i', 't', 'y'] s → IsMagnitude s .infinity
  | nan {s} : IsWord ['n', 'a', 'n'] s → IsMagnitude s (.nan [])
  | nanWord {s word} : IsWord ['n', 'a', 'n'] s → (∀ b ∈ word, Ascii.isWordByte b = true) →
      IsMagnitude (s ++ '('.toUInt8 :: (word ++ [')'.toUInt8])) (.nan word)

/-- The texts of a literal. -/
def Literal.Spells (s : Bytes) (l : Literal) : Prop :=
  ∃ sign body, s = sign ++ body ∧ IsSign sign l.negative ∧ IsMagnitude body l.magnitude

/-! ### Words -/

theorem Ascii.lower_eq_iff {c : Char} (hc : c.isLower ∨ c.isDigit) (b : UInt8) :
    Ascii.lower b = c.toUInt8 ↔ b = c.toUInt8 ∨ b = c.toUpper.toUInt8 := by
  have hb := b.toNat_lt
  have hbyte : ∀ c : Char, c.toUInt8.toNat = c.toNat % 256 := fun c => UInt32.toNat_toUInt8 c.val
  have hupper : c.toUpper.toNat = if 97 ≤ c.toNat ∧ c.toNat ≤ 122 then c.toNat - 32 else c.toNat := by
    unfold Char.toUpper
    have ha : 'a'.val.toNat = 97 := rfl
    have hz : 'z'.val.toNat = 122 := rfl
    simp only [← Char.toNat_val, UInt32.le_iff_toNat_le, ha, hz]
    split_ifs <;> simp_all [-Char.toNat_val, UInt32.toNat_add]
    all_goals omega
  have hc : 97 ≤ c.toNat ∧ c.toNat ≤ 122 ∨ 48 ≤ c.toNat ∧ c.toNat ≤ 57 := by
    have hlower : c.isLower = (decide (c.val ≥ 'a'.val) && decide (c.val ≤ 'z'.val)) := rfl
    have hdigit : c.isDigit = (decide (c.val ≥ '0'.val) && decide (c.val ≤ '9'.val)) := rfl
    rw [hlower, hdigit] at hc
    simpa [UInt32.le_iff_toNat_le] using hc
  simp only [← UInt8.toNat_inj, hbyte, hupper, Ascii.lower, Ascii.isUpper, UInt8.le_iff_toNat_le]
  split_ifs <;> simp_all [UInt8.toNat_add] <;> omega

theorem Ascii.spells_iff {word : List Char} (hw : (word.all fun c => c.isLower || c.isDigit) = true) (s : Bytes) :
    Ascii.spells word s = true ↔ IsWord word s := by
  unfold Ascii.spells
  rw [decide_eq_true_iff]
  induction word generalizing s with
  | nil => cases s <;> simp [IsWord, Ascii.text]
  | cons c word ih =>
    cases s with
    | nil => simp [IsWord, Ascii.text]
    | cons b s =>
      obtain ⟨hc, hw⟩ := Bool.and_eq_true_iff.1 (List.all_cons ▸ hw)
      have hs := ih hw s
      have hb := Ascii.lower_eq_iff (Bool.or_eq_true_iff.1 hc) b
      rw [Ascii.text, List.map_cons, List.map_cons, List.cons.injEq, hb, ← Ascii.text, hs, IsWord, IsWord,
        List.forall₂_cons]

theorem IsWord.length_eq {word : List Char} {s : Bytes} (h : IsWord word s) : word.length = s.length :=
  List.Forall₂.length_eq h

theorem isWord_singleton {c : Char} {b : UInt8} : IsWord [c] [b] ↔ b = c.toUInt8 ∨ b = c.toUpper.toUInt8 := by
  simp [IsWord]

/-! ### Numerals -/

section

variable {base : ℕ} {s t : Bytes} {ds es : List ℕ} {mark : Char} {e : ℤ}

theorem IsNumeral.ne_nil (h : IsNumeral base s ds es) : s ≠ [] := by
  cases h with
  | whole hds hne => exact hds.ne_nil hne
  | point => simp

theorem IsNumeral.of_mem (h : IsNumeral base s ds es) {b : UInt8} (hb : b ∈ s) :
    (∃ d, Numeral.IsDigit base b d) ∨ b = '.'.toUInt8 := by
  cases h with
  | whole hds _ => exact .inl (hds.exists_of_mem hb)
  | point hds hes _ =>
    rcases List.mem_append.1 hb with hb | hb
    · exact .inl (hds.exists_of_mem hb)
    · rcases List.mem_cons.1 hb with hb | hb
      · exact .inr hb
      · exact .inl (hes.exists_of_mem hb)

/-- An exponent that is there starts with its mark. -/
theorem IsExponent.head (h : IsExponent mark t e) {b : UInt8} (hb : b ∈ t.head?) : IsWord [mark] [b] := by
  cases h with
  | absent => cases hb
  | @present m sign s _ _ hm _ _ _ =>
    obtain _ | ⟨hc, hm⟩ := hm
    cases hm
    obtain rfl := Option.some_inj.1 hb
    exact .cons hc .nil

theorem IsWord.graphic {word : List Char} (h : IsWord word s)
    (hw : (word.all fun c => 32 < c.toUInt8.toNat && 32 < c.toUpper.toUInt8.toNat) = true) :
    ∀ b ∈ s, 32 < b.toNat := by
  induction h with
  | nil => simp
  | @cons c b word s hb _ ih =>
    obtain ⟨hc, hw⟩ := Bool.and_eq_true_iff.1 (List.all_cons ▸ hw)
    obtain ⟨hsmall, hcapital⟩ := Bool.and_eq_true_iff.1 hc
    intro a ha
    rcases List.mem_cons.1 ha with rfl | ha
    · rcases hb with rfl | rfl
      exacts [of_decide_eq_true hsmall, of_decide_eq_true hcapital]
    · exact ih hw a ha

theorem IsNumeral.graphic (h : IsNumeral base s ds es) : ∀ b ∈ s, 32 < b.toNat := by
  intro b hb
  rcases h.of_mem hb with ⟨d, hd⟩ | rfl
  · have := hd.2; omega
  · decide

theorem IsExponent.graphic (hmark : 32 < mark.toUInt8.toNat ∧ 32 < mark.toUpper.toUInt8.toNat)
    (h : IsExponent mark t e) : ∀ b ∈ t, 32 < b.toNat := by
  cases h with
  | absent => simp
  | present hm hsign hds _ =>
    intro b hb
    rcases List.mem_append.1 hb with hb | hb
    · exact hm.graphic (by simpa using hmark) b hb
    rcases List.mem_append.1 hb with hb | hb
    · exact hsign.graphic b hb
    · exact hds.graphic b hb

/-- No blank and no NUL stands in a magnitude. -/
theorem IsMagnitude.graphic {m : Magnitude} (h : IsMagnitude s m) : ∀ b ∈ s, 32 < b.toNat := by
  cases h with
  | decimal hs ht => exact List.forall_mem_append.2 ⟨hs.graphic, ht.graphic (by decide)⟩
  | hexadecimal hx hs ht =>
    exact List.forall_mem_append.2
      ⟨hx.graphic (by decide), List.forall_mem_append.2 ⟨hs.graphic, ht.graphic (by decide)⟩⟩
  | inf hs => exact hs.graphic (by decide)
  | infinity hs => exact hs.graphic (by decide)
  | nan hs => exact hs.graphic (by decide)
  | nanWord hs hword =>
    refine List.forall_mem_append.2 ⟨hs.graphic (by decide), List.forall_mem_cons.2 ⟨by decide, ?_⟩⟩
    refine List.forall_mem_append.2 ⟨fun b hb => ?_, List.forall_mem_singleton.2 (by decide)⟩
    have hb := hword b hb
    simp only [Ascii.isWordByte, Ascii.isLetter, Ascii.isUpper, Ascii.isLower, Ascii.isDigit, Bool.or_eq_true,
      Bool.and_eq_true, decide_eq_true_eq, UInt8.le_iff_toNat_le, ← UInt8.toNat_inj] at hb
    simp at hb
    omega

/-- No magnitude starts with a sign. -/
theorem IsMagnitude.noSign {m : Magnitude} (h : IsMagnitude s m) : NoSign s := by
  have hword : ∀ c ∈ ['0', 'i', 'n'], ∀ word u v, IsWord (c :: word) u → NoSign (u ++ v) := by
    intro c hc word u v hu a ha
    obtain _ | ⟨hb, _⟩ := hu
    obtain rfl := Option.some_inj.1 ha
    simp only [List.mem_cons, List.not_mem_nil, or_false] at hc
    rcases hc with rfl | rfl | rfl <;> rcases hb with rfl | rfl <;> decide
  cases h with
  | @decimal u t _ _ _ hu _ =>
    cases u with
    | nil => exact absurd rfl hu.ne_nil
    | cons b u =>
      rcases hu.of_mem List.mem_cons_self with ⟨d, hd⟩ | rfl
      · exact hd.noSign _
      · intro a ha
        obtain rfl := Option.some_inj.1 ha
        decide
  | hexadecimal hx _ _ => exact hword '0' (by decide) _ _ _ hx
  | inf hs => simpa using hword 'i' (by decide) _ _ [] hs
  | infinity hs => simpa using hword 'i' (by decide) _ _ [] hs
  | nan hs => simpa using hword 'n' (by decide) _ _ [] hs
  | nanWord hs _ => exact hword 'n' (by decide) _ _ _ hs

namespace Literal

theorem numeral?_append (hs : IsNumeral base s ds es) (ht : Numeral.NoDigit base t)
    (hpoint : '.'.toUInt8 ∉ t.head?) : numeral? base (s ++ t) = some (ds, es, t) := by
  cases hs with
  | whole hds hne =>
    simp only [numeral?, Numeral.spanDigits_append hds ht]
    cases t with
    | nil => simp [hne]
    | cons b t =>
      have hb : b ≠ '.'.toUInt8 := fun h => hpoint (by simp [h])
      simp [hb, hne]
  | @point s u _ _ hds hes hne =>
    have hdot : Numeral.NoDigit base ('.'.toUInt8 :: (u ++ t)) := Numeral.noDigit_cons (by rfl)
    simp only [List.append_assoc, List.cons_append, numeral?, Numeral.spanDigits_append hds hdot, ↓reduceIte,
      Numeral.spanDigits_append hes ht, if_neg hne]

theorem isNumeral_of_numeral? (h : numeral? base s = some (ds, es, t)) :
    ∃ u, s = u ++ t ∧ IsNumeral base u ds es := by
  obtain ⟨u, hu, hds⟩ := Numeral.exists_spanDigits base s
  simp only [numeral?] at h
  generalize Numeral.spanDigits base s = whole at *
  obtain ⟨ws, rest⟩ := whole
  cases rest with
  | nil =>
    dsimp only at h
    split at h
    · cases h
    · rename_i hne
      simp only [Option.some.injEq, Prod.mk.injEq] at h
      obtain ⟨rfl, rfl, rfl⟩ := h
      exact ⟨u, hu, .whole hds (by simpa using hne)⟩
  | cons b more =>
    by_cases hb : b = '.'.toUInt8
    · obtain ⟨v, hv, hes⟩ := Numeral.exists_spanDigits base more
      simp only [hb, ↓reduceIte] at h
      split at h
      · cases h
      · rename_i hne
        simp only [Option.some.injEq, Prod.mk.injEq] at h
        obtain ⟨rfl, rfl, rfl⟩ := h
        exact ⟨u ++ b :: v, by rw [hu, List.append_assoc, List.cons_append, ← hv], hb ▸ .point hds hes hne⟩
    · simp only [hb, ↓reduceIte, List.append_nil] at h
      split at h
      · cases h
      · rename_i hne
        simp only [Option.some.injEq, Prod.mk.injEq] at h
        obtain ⟨rfl, rfl, rfl⟩ := h
        exact ⟨u, hu, .whole hds hne⟩

theorem exponent?_eq_some_iff (hmark : mark.isLower) :
    exponent? mark.toUInt8 s = some e ↔ IsExponent mark s e := by
  constructor
  · intro h
    cases s with
    | nil => cases h; exact .absent
    | cons b s =>
      by_cases hb : Ascii.lower b = mark.toUInt8
      · obtain ⟨sign, hsign, hs⟩ := Ascii.exists_splitSign s
        simp only [exponent?, hb, ↓reduceIte] at h
        split at h
        · rename_i d ds hspan
          cases h
          generalize (Ascii.splitSign s).1 = negative at *
          generalize (Ascii.splitSign s).2 = body at *
          rw [Numeral.value_eq_ofDigits, hs, ← List.singleton_append]
          exact .present (.cons ((Ascii.lower_eq_iff (.inl hmark) b).1 hb) .nil) hsign
            (Numeral.spanDigits_eq_nil_iff.1 hspan) (List.cons_ne_nil _ _)
        · cases h
      · simp [exponent?, hb] at h
  · rintro (_ | @⟨m, sign, s, negative, ds, hm, hsign, hds, hne⟩)
    · rfl
    · obtain _ | @⟨_, b, _, _, hb, hm⟩ := hm
      cases hm
      have hsplit : Ascii.splitSign (sign ++ s) = (negative, s) :=
        Ascii.splitSign_append hsign (by simpa using hds.noSign hne [])
      rw [List.singleton_append, exponent?, if_pos ((Ascii.lower_eq_iff (.inl hmark) b).2 hb)]
      simp only [hsplit, Numeral.spanDigits_eq_nil_iff.2 hds]
      cases ds with
      | nil => exact absurd rfl hne
      | cons d ds => simp only [Numeral.value_eq_ofDigits]

/-- Nothing that may follow the digits of a numeral extends it. -/
theorem finite?_eq_some_iff {r : Radix} {m : Magnitude} (hmark : mark.isLower) (hr : r.mark = mark.toUInt8)
    (hafter : ∀ b, IsWord [mark] [b] → Ascii.digitOf? r.digits b = none ∧ b ≠ '.'.toUInt8) :
    finite? r s = some m ↔ ∃ u t ds es e, s = u ++ t ∧ IsNumeral r.digits u ds es ∧ IsExponent mark t e ∧
      m = .finite r.base (Nat.ofDigits r.digits (ds ++ es).reverse) (e - r.perDigit * es.length) := by
  constructor
  · intro h
    simp only [finite?, Option.bind_eq_bind, Option.bind_eq_some_iff] at h
    obtain ⟨⟨ds, es, t⟩, hnumeral, e, hexp, hm⟩ := h
    cases hm
    obtain ⟨u, rfl, hu⟩ := isNumeral_of_numeral? hnumeral
    rw [hr] at hexp
    exact ⟨u, t, ds, es, e, rfl, hu, (exponent?_eq_some_iff hmark).1 hexp, by rw [Numeral.value_eq_ofDigits]⟩
  · rintro ⟨u, t, ds, es, e, rfl, hu, ht, rfl⟩
    have hno : Numeral.NoDigit r.digits t := fun b hb d => Numeral.not_isDigit (hafter b (ht.head hb)).1
    have hpoint : '.'.toUInt8 ∉ t.head? := fun hp => (hafter _ (ht.head hp)).2 rfl
    simp only [finite?, numeral?_append hu hno hpoint, hr, (exponent?_eq_some_iff hmark).2 ht, Option.bind_eq_bind,
      Option.bind_some, Numeral.value_eq_ofDigits]
    rfl

theorem finite?_decimal_iff {m : Magnitude} : finite? .decimal s = some m ↔
    ∃ u t ds es e, s = u ++ t ∧ IsNumeral 10 u ds es ∧ IsExponent 'e' t e ∧
      m = .finite 10 (Nat.ofDigits 10 (ds ++ es).reverse) (e - es.length) := by
  have hafter : ∀ b, IsWord ['e'] [b] → Ascii.digitOf? 10 b = none ∧ b ≠ '.'.toUInt8 := by
    intro b hb
    obtain rfl | rfl := isWord_singleton.1 hb <;> decide
  simpa [Radix.decimal] using finite?_eq_some_iff (r := .decimal) (m := m) (s := s) (by decide) rfl hafter

theorem finite?_hexadecimal_iff {m : Magnitude} : finite? .hexadecimal s = some m ↔
    ∃ u t ds es e, s = u ++ t ∧ IsNumeral 16 u ds es ∧ IsExponent 'p' t e ∧
      m = .finite 2 (Nat.ofDigits 16 (ds ++ es).reverse) (e - 4 * es.length) := by
  have hafter : ∀ b, IsWord ['p'] [b] → Ascii.digitOf? 16 b = none ∧ b ≠ '.'.toUInt8 := by
    intro b hb
    obtain rfl | rfl := isWord_singleton.1 hb <;> decide
  simpa [Radix.hexadecimal] using finite?_eq_some_iff (r := .hexadecimal) (m := m) (s := s) (by decide) rfl hafter

theorem Spells.graphic {l : Literal} (h : Spells s l) : ∀ b ∈ s, 32 < b.toNat := by
  obtain ⟨sign, body, rfl, hsign, hbody⟩ := h
  exact List.forall_mem_append.2 ⟨hsign.graphic, hbody.graphic⟩

/-! ### Magnitudes -/

theorem nanWord?_eq_some_iff {word : Bytes} : nanWord? s = some word ↔
    s = [] ∧ word = [] ∨ s = '('.toUInt8 :: (word ++ [')'.toUInt8]) ∧ ∀ b ∈ word, Ascii.isWordByte b = true := by
  cases s with
  | nil => simp [nanWord?, @eq_comm _ [] word]
  | cons b s =>
    have hclose : Ascii.isWordByte ')'.toUInt8 = false := rfl
    simp only [nanWord?, Bool.and_eq_true, decide_eq_true_eq, Option.ite_none_right_eq_some, Option.some.injEq,
      reduceCtorEq, false_and, false_or, List.cons.injEq]
    constructor
    · rintro ⟨⟨rfl, hs⟩, rfl⟩
      refine ⟨⟨rfl, ?_⟩, fun b hb => List.all_eq_true.1 List.all_takeWhile b hb⟩
      rw [← hs, List.takeWhile_append_dropWhile]
    · rintro ⟨⟨rfl, rfl⟩, hword⟩
      rw [List.dropWhile_append_of_pos hword, List.takeWhile_append_of_pos hword]
      simp [hclose]

/-- Where the first byte of a decimal numeral stands, no word can start. -/
theorem not_isWord_of_numeral {b : UInt8} (hb : (∃ d, Numeral.IsDigit 10 b d) ∨ b = '.'.toUInt8) {c : Char}
    (hc : c ∈ ['i', 'n', 'x']) (word : List Char) (u : Bytes) : ¬ IsWord (c :: word) (b :: u) := by
  intro h
  have hb' := isWord_singleton.1 (.cons (List.forall₂_cons.1 h).1 .nil)
  simp only [List.mem_cons, List.not_mem_nil, or_false] at hc
  rcases hb with ⟨d, hd⟩ | rfl
  · rcases hc with rfl | rfl | rfl <;> rcases hb' with rfl | rfl <;>
      exact Numeral.not_isDigit (by rfl) hd
  · rcases hc with rfl | rfl | rfl <;> revert hb' <;> decide

theorem magnitude?_eq (s : Bytes) : magnitude? s =
    if IsWord ['i', 'n', 'f'] s ∨ IsWord ['i', 'n', 'f', 'i', 'n', 'i', 't', 'y'] s then some .infinity
    else if IsWord ['n', 'a', 'n'] (s.take 3) then (nanWord? (s.drop 3)).map .nan
    else if IsWord ['0', 'x'] (s.take 2) then finite? .hexadecimal (s.drop 2)
    else finite? .decimal s := by
  have hinf : _ ↔ IsWord ['i', 'n', 'f'] s := Ascii.spells_iff (by decide) s
  have hinfinity : _ ↔ IsWord ['i', 'n', 'f', 'i', 'n', 'i', 't', 'y'] s := Ascii.spells_iff (by decide) s
  have hnan : _ ↔ IsWord ['n', 'a', 'n'] (s.take 3) := Ascii.spells_iff (by decide) _
  have hhex : _ ↔ IsWord ['0', 'x'] (s.take 2) := Ascii.spells_iff (by decide) _
  simp only [magnitude?, Bool.or_eq_true, hinf, hinfinity, hnan, hhex]

theorem magnitude?_of_nan (h : IsWord ['n', 'a', 'n'] s) : magnitude? (s ++ t) = (nanWord? t).map .nan := by
  have hlen : s.length = 3 := h.length_eq.symm
  have hinf : ∀ word, ¬ IsWord ('i' :: word) (s ++ t) := by
    obtain _ | ⟨hb, _⟩ := h
    intro word hword
    have hi := (List.forall₂_cons.1 hword).1
    rcases hb with rfl | rfl <;> revert hi <;> decide
  rw [magnitude?_eq, if_neg (not_or.2 ⟨hinf _, hinf _⟩), ← hlen, List.take_left, List.drop_left, if_pos h]

theorem magnitude?_of_hexadecimal (h : IsWord ['0', 'x'] s) : magnitude? (s ++ t) = finite? .hexadecimal t := by
  have hlen : s.length = 2 := h.length_eq.symm
  have hno : ∀ c ∈ ['i', 'n', 'x'], ∀ word u, ¬ IsWord (c :: word) (s ++ u) := by
    intro c hc word u
    obtain _ | @⟨_, b, _, _, hb, _⟩ := h
    have hzero : b = '0'.toUInt8 := hb.elim id id
    exact not_isWord_of_numeral (.inl ⟨0, Numeral.digitOf?_eq_some_iff.1 (by rw [hzero]; rfl)⟩) hc _ _
  have htake : (s ++ t).take 3 = s ++ t.take 1 := by simp [List.take_append, hlen, List.take_of_length_le]
  rw [magnitude?_eq, if_neg (not_or.2 ⟨hno 'i' (by decide) _ _, hno 'i' (by decide) _ _⟩), htake,
    if_neg (hno 'n' (by decide) _ _), ← hlen, List.take_left, List.drop_left, if_pos h]

theorem magnitude?_of_numeral (hs : IsNumeral 10 s ds es) (ht : IsExponent 'e' t e) :
    magnitude? (s ++ t) = finite? .decimal (s ++ t) := by
  cases s with
  | nil => exact absurd rfl hs.ne_nil
  | cons b s =>
    have hno : ∀ c ∈ ['i', 'n', 'x'], ∀ word u, ¬ IsWord (c :: word) (b :: u) := fun c hc word u =>
      not_isWord_of_numeral (hs.of_mem List.mem_cons_self) hc word u
    -- The second byte goes on with the numeral or is the mark of the exponent, and no `x`.
    have hhex : ¬ IsWord ['0', 'x'] ((b :: s ++ t).take 2) := by
      intro h
      cases s with
      | cons c s =>
        exact not_isWord_of_numeral (hs.of_mem (b := c) (by simp)) (c := 'x') (by decide) [] _
          (List.forall₂_cons.1 h).2
      | nil =>
        cases t with
        | nil => exact absurd h.length_eq (by simp)
        | cons c t =>
          have hx := isWord_singleton.1 (List.forall₂_cons.1 h).2
          have he := isWord_singleton.1 (ht.head (b := c) rfl)
          rcases he with rfl | rfl <;> revert hx <;> decide
    have hi := hno 'i' (by decide)
    have hn := hno 'n' (by decide)
    rw [List.cons_append] at hhex ⊢
    rw [magnitude?_eq, if_neg (not_or.2 ⟨hi _ _, hi _ _⟩), List.take_succ_cons, if_neg (hn _ _), if_neg hhex]

theorem magnitude?_eq_some_iff {m : Magnitude} : magnitude? s = some m ↔ IsMagnitude s m := by
  constructor
  · intro h
    rw [magnitude?_eq] at h
    split_ifs at h with hinf hnan hhex
    · cases h; exact hinf.elim .inf .infinity
    · obtain ⟨word, hword, rfl⟩ := Option.map_eq_some_iff.1 h
      rw [← List.take_append_drop 3 s]
      rcases nanWord?_eq_some_iff.1 hword with ⟨hs, rfl⟩ | ⟨hs, hword⟩
      · rw [hs, List.append_nil]; exact .nan hnan
      · rw [hs]; exact .nanWord hnan hword
    · obtain ⟨u, t, ds, es, e, hs, hu, ht, rfl⟩ := finite?_hexadecimal_iff.1 h
      rw [← List.take_append_drop 2 s, hs]
      exact .hexadecimal hhex hu ht
    · obtain ⟨u, t, ds, es, e, rfl, hu, ht, rfl⟩ := finite?_decimal_iff.1 h
      exact .decimal hu ht
  · intro h
    cases h with
    | decimal hs ht => rw [magnitude?_of_numeral hs ht]; exact finite?_decimal_iff.2 ⟨_, _, _, _, _, rfl, hs, ht, rfl⟩
    | hexadecimal hx hs ht =>
      rw [magnitude?_of_hexadecimal hx]; exact finite?_hexadecimal_iff.2 ⟨_, _, _, _, _, rfl, hs, ht, rfl⟩
    | inf hs => rw [magnitude?_eq, if_pos (.inl hs)]
    | infinity hs => rw [magnitude?_eq, if_pos (.inr hs)]
    | nan hs => rw [← List.append_nil s, magnitude?_of_nan hs]; rfl
    | nanWord hs hword => rw [magnitude?_of_nan hs, nanWord?_eq_some_iff.2 (.inr ⟨rfl, hword⟩)]; rfl

theorem ofBytes?_eq_some_iff {l : Literal} : ofBytes? s = some l ↔ Spells s l := by
  constructor
  · intro h
    obtain ⟨sign, hsign, hs⟩ := Ascii.exists_splitSign s
    simp only [ofBytes?, Option.map_eq_some_iff] at h
    obtain ⟨m, hm, rfl⟩ := h
    exact ⟨sign, _, hs, hsign, magnitude?_eq_some_iff.1 hm⟩
  · rintro ⟨sign, body, rfl, hsign, hbody⟩
    have hno : NoSign body := hbody.noSign
    simp only [ofBytes?, Ascii.splitSign_append hsign hno, magnitude?_eq_some_iff.2 hbody, Option.map_some]

end Literal

end

end Groundwork
