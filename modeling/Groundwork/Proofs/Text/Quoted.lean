import Groundwork.Proofs.Text.Utf8
import Groundwork.Text.Quoted

/-!
# What a quoted byte string says

A byte string is a sequence of items, which are characters and bytes that belong to none, and it is quoted item
by item. `Item.Spelled` says in which ways an item is spelled, whichever characters show as themselves. No spelling is
the beginning of another one, so a quoted text is cut into items in one way only, and the items give the byte
string back (`body_cancel`).
-/

namespace Groundwork

namespace Quoted

/-- What a byte string consists of. -/
inductive Item
  | char (c : Char)
  /-- A byte that belongs to no character. -/
  | byte (b : UInt8)

namespace Item

def bytes : Item → Bytes
  | .char c => String.utf8EncodeChar c
  | .byte b => [b]

def text (shown : Char → Bool) : Item → List Char
  | .char c => Quoted.char shown c
  | .byte b => Quoted.byte b

end Item

def items (s : Bytes) : List Item :=
  match h : Utf8.next? s with
  | some (c, rest) =>
    have : rest.length < s.length := Utf8.length_next? h
    .char c :: items rest
  | none =>
    match s with
    | [] => []
    | b :: s => .byte b :: items s
termination_by s.length

/-- The characters that have an escape of their own, each with the letter that follows the backslash. -/
def letters : List (Char × Char) :=
  [(Char.ofNat 0, '0'), ('\t', 't'), ('\n', 'n'), ('\r', 'r'), ('"', '"'), ('\\', '\\')]

variable {shown shown' : Char → Bool} {s t : Bytes} {n : ℕ}

/-! ### Byte strings and their items -/

theorem bytes_items (s : Bytes) : (items s).flatMap Item.bytes = s := by
  fun_induction items s with
  | case1 s c rest h hlt ih => rw [List.flatMap_cons, ih, Utf8.eq_of_next? h, Item.bytes]
  | case2 h => rfl
  | case3 b s h ih => rw [List.flatMap_cons, ih, Item.bytes, List.singleton_append]

theorem body_eq_items (shown : Char → Bool) (s : Bytes) : body shown s = (items s).flatMap (Item.text shown) := by
  fun_induction items s with
  | case1 s c rest h hlt ih =>
    rw [List.flatMap_cons, ← ih, body]
    split
    · rename_i h'
      rw [h] at h'
      cases h'
      rfl
    · rename_i h'
      rw [h] at h'
      cases h'
  | case2 h =>
    rw [body]
    rfl
  | case3 b s h ih =>
    rw [List.flatMap_cons, ← ih, body]
    split
    · rename_i h'
      rw [h] at h'
      cases h'
    · rfl

/-! ### Digits -/

theorem hexDigit_inj : ∀ ten ∈ [65, 97], ∀ d < 16, ∀ e < 16, hexDigit ten d = hexDigit ten e → d = e := by
  decide

theorem hexDigit_ne : ∀ ten ∈ [65, 97], ∀ d < 16, hexDigit ten d ≠ '\x7d' ∧ hexDigit ten d ≠ Char.ofNat 0 := by
  decide

theorem exists_hexDigit (n : ℕ) : ∀ x ∈ hex n, ∃ d < 16, x = hexDigit 97 d := by
  fun_induction hex n with
  | case1 n h =>
    intro x hx
    exact ⟨n, h, List.mem_singleton.1 hx⟩
  | case2 n h ih =>
    intro x hx
    rcases List.mem_append.1 hx with hx | hx
    · exact ih x hx
    · exact ⟨n % 16, Nat.mod_lt n (by decide), List.mem_singleton.1 hx⟩

theorem hex_ne_nil (n : ℕ) : hex n ≠ [] := by
  rw [hex]
  split
  · exact List.cons_ne_nil _ _
  · exact List.append_ne_nil_of_right_ne_nil _ (List.cons_ne_nil _ _)

theorem hex_ne_singleton (h : ¬ n < 16) (x : Char) : hex n ≠ [x] := by
  rw [hex, if_neg h]
  intro heq
  have hlength := congrArg List.length heq
  exact hex_ne_nil (n / 16) (by simpa using hlength)

theorem hex_injective : hex.Injective := by
  intro m
  fun_induction hex m with
  | case1 m hm =>
    intro n h
    by_cases hn : n < 16
    · rw [hex, if_pos hn, List.singleton_inj] at h
      exact hexDigit_inj 97 (by decide) m hm n hn h
    · exact absurd h.symm (hex_ne_singleton hn _)
  | case2 m hm ih =>
    intro n h
    by_cases hn : n < 16
    · have hm' := hex_ne_singleton hm (hexDigit 97 n)
      rw [hex, if_neg hm] at hm'
      rw [hex.eq_def n, if_pos hn] at h
      exact absurd h hm'
    · rw [hex.eq_def n, if_neg hn] at h
      obtain ⟨hinit, hlast⟩ := List.append_inj' h rfl
      have hdiv : m / 16 = n / 16 := ih hinit
      have hmod : m % 16 = n % 16 := hexDigit_inj 97 (by decide) _ (Nat.mod_lt m (by decide)) _
        (Nat.mod_lt n (by decide)) (List.singleton_inj.1 hlast)
      omega

/-! ### Spellings -/

theorem eq_and_eq_of_notMem {α : Type} {x y u v : List α} {a : α} (hx : a ∉ x) (hy : a ∉ y)
    (h : x ++ a :: u = y ++ a :: v) : x = y ∧ u = v := by
  rcases List.append_eq_append_iff.1 h with ⟨w, rfl, hw⟩ | ⟨w, rfl, hw⟩
  · cases w with
    | nil => simpa using hw
    | cons b w =>
      obtain ⟨rfl, -⟩ := List.cons.inj hw
      simp at hy
  · cases w with
    | nil => simpa using hw.symm
    | cons b w =>
      obtain ⟨rfl, -⟩ := List.cons.inj hw
      simp at hx

namespace Item

/-- The spellings of an item, whichever characters show as themselves. -/
inductive Spelled : Item → List Char → Prop
  | kept {c : Char} (hc : c ≠ '\\') (h0 : c ≠ Char.ofNat 0) : Spelled (.char c) [c]
  | letter {c l : Char} (h : (c, l) ∈ letters) : Spelled (.char c) ['\\', l]
  | codePoint (c : Char) : Spelled (.char c) (byCodePoint c)
  | byte (b : UInt8) : Spelled (.byte b) (Quoted.byte b)

theorem spelled_text (shown : Char → Bool) (i : Item) : i.Spelled (i.text shown) := by
  cases i with
  | byte b => exact .byte b
  | char c =>
    rw [text, Quoted.char]
    split_ifs with h0 ht hn hr hq hb hshown
    · exact .letter (by simp [letters, h0])
    · exact .letter (by simp [letters, ht])
    · exact .letter (by simp [letters, hn])
    · exact .letter (by simp [letters, hr])
    · exact .letter (by simp [letters, hq])
    · exact .letter (by simp [letters, hb])
    · exact .kept hb h0
    · exact .codePoint c

variable {i j : Item} {w w' u v : List Char}

theorem letter_spec : ∀ x ∈ letters, x.2 ≠ 'u' ∧ x.2 ≠ 'x' ∧ x.2 ≠ Char.ofNat 0 ∧ ∀ y ∈ letters, x.2 = y.2 → x = y := by
  decide

/-- A code point ends at the first closing brace, and no digit is one. -/
theorem byCodePoint_cancel {c d : Char} (h : byCodePoint c ++ u = byCodePoint d ++ v) : c = d ∧ u = v := by
  simp only [byCodePoint, List.append_assoc, List.append_cancel_left_eq, List.singleton_append] at h
  have hbrace : ∀ n, '\x7d' ∉ hex n := fun n hn => by
    obtain ⟨e, he, heq⟩ := exists_hexDigit n _ hn
    exact (hexDigit_ne 97 (by decide) e he).1 heq.symm
  obtain ⟨hhex, hrest⟩ := eq_and_eq_of_notMem (hbrace _) (hbrace _) h
  exact ⟨Char.toNat_inj.1 (hex_injective hhex), hrest⟩

theorem byte_cancel {a b : UInt8} (h : Quoted.byte a ++ u = Quoted.byte b ++ v) : a = b ∧ u = v := by
  simp only [Quoted.byte, List.cons_append, List.nil_append, List.cons.injEq, true_and] at h
  obtain ⟨hhigh, hlow, hrest⟩ := h
  have hdigit := hexDigit_inj 65 (by decide)
  have := a.toNat_lt
  have := b.toNat_lt
  have hdiv := hdigit _ (by omega) _ (by omega) hhigh
  have hmod := hdigit _ (by omega) _ (by omega) hlow
  exact ⟨UInt8.toNat_inj.1 (by omega), hrest⟩

/-- No spelling begins another one, and no two items share one. -/
theorem Spelled.cancel (hi : i.Spelled w) (hj : j.Spelled w') (h : w ++ u = w' ++ v) : i = j ∧ u = v := by
  -- the first character tells whether the item is kept, and the second one of an escape tells which it is
  cases hi with
  | kept hc =>
    cases hj with
    | kept => simpa using h
    | letter => simp [hc] at h
    | codePoint => simp [byCodePoint, hc] at h
    | byte => simp [Quoted.byte, hc] at h
  | letter hl =>
    obtain ⟨hu, hx, -, hinj⟩ := letter_spec _ hl
    cases hj with
    | kept hc => simp [hc.symm] at h
    | letter hl' =>
      simp only [List.cons_append, List.nil_append, List.cons.injEq, true_and] at h
      cases hinj _ hl' h.1
      exact ⟨rfl, h.2⟩
    | codePoint => simp [byCodePoint, hu] at h
    | byte => simp [Quoted.byte, hx] at h
  | codePoint c =>
    cases hj with
    | kept hc => simp [byCodePoint, hc.symm] at h
    | letter hl => simp [byCodePoint, (letter_spec _ hl).1.symm] at h
    | codePoint d =>
      obtain ⟨rfl, hrest⟩ := byCodePoint_cancel h
      exact ⟨rfl, hrest⟩
    | byte => simp [Quoted.byte, byCodePoint] at h
  | byte b =>
    cases hj with
    | kept hc => simp [Quoted.byte, hc.symm] at h
    | letter hl => simp [Quoted.byte, (letter_spec _ hl).2.1.symm] at h
    | codePoint => simp [Quoted.byte, byCodePoint] at h
    | byte b' =>
      obtain ⟨rfl, hrest⟩ := byte_cancel h
      exact ⟨rfl, hrest⟩

theorem Spelled.ne_nil (hi : i.Spelled w) : w ≠ [] := by
  cases hi <;> exact List.cons_ne_nil _ _

theorem Spelled.zero_notMem (hi : i.Spelled w) : Char.ofNat 0 ∉ w := by
  cases hi with
  | kept hc h0 => simpa using h0.symm
  | letter hl => simpa using (letter_spec _ hl).2.2.1.symm
  | codePoint c =>
    intro h
    simp only [byCodePoint, List.mem_append] at h
    rcases h with (h | h) | h
    · revert h; decide
    · obtain ⟨e, he, heq⟩ := exists_hexDigit _ _ h
      exact (hexDigit_ne 97 (by decide) e he).2 heq.symm
    · revert h; decide
  | byte b =>
    have := b.toNat_lt
    have hdigit := fun d hd => (hexDigit_ne 65 (by decide) d hd).2.symm
    simp only [Quoted.byte, List.mem_cons, List.not_mem_nil, or_false, not_or]
    exact ⟨by decide, by decide, hdigit _ (by omega), hdigit _ (by omega)⟩

end Item

/-! ### Quoted texts -/

/-- Items are read off what they are quoted as, even when the tables of characters that show as themselves differ. -/
theorem items_cancel (is js : List Item) (h : is.flatMap (Item.text shown) = js.flatMap (Item.text shown')) :
    is = js := by
  induction is generalizing js with
  | nil =>
    cases js with
    | nil => rfl
    | cons j js => exact absurd (List.append_eq_nil_iff.1 h.symm).1 (j.spelled_text shown').ne_nil
  | cons i is ih =>
    cases js with
    | nil => exact absurd (List.append_eq_nil_iff.1 h).1 (i.spelled_text shown).ne_nil
    | cons j js =>
      obtain ⟨rfl, hrest⟩ := (i.spelled_text shown).cancel (j.spelled_text shown') h
      rw [ih js hrest]

theorem body_cancel (h : body shown s = body shown' t) : s = t := by
  rw [body_eq_items, body_eq_items] at h
  rw [← bytes_items s, ← bytes_items t, items_cancel _ _ h]

/-- Different byte strings are quoted differently. -/
theorem text_injective (shown : Char → Bool) : (text shown).Injective := by
  intro s t h
  have hbody := String.ofList_injective h
  rw [List.cons_append, List.cons_append, List.cons.injEq] at hbody
  exact body_cancel (List.append_inj_left' hbody.2 rfl)

theorem zero_notMem_body (shown : Char → Bool) (s : Bytes) : Char.ofNat 0 ∉ body shown s := by
  rw [body_eq_items, List.mem_flatMap]
  rintro ⟨i, -, h⟩
  exact (i.spelled_text shown).zero_notMem h

end Quoted

end Groundwork
