import Groundwork.Descriptor.Table
import Mathlib.Tactic

/-!
# Opening and copying descriptors

What each operation on a table does to its entries. A new descriptor is the lowest free one, so what
lies below it is open (`open?_eq_some_iff`); the two ends of a pipe take the lowest two, the reading end
the lower (`PipeMade`).
-/

namespace Groundwork

namespace Table

variable {t t' : Table} {d src dst : ℕ} {e : Entry}

/-- All descriptors below `n` are open. -/
def FullBelow (t : Table) (n : ℕ) : Prop := ∀ i < n, t.get i ≠ none

theorem lowestFree?_eq_some_iff : t.lowestFree? = some d ↔ d < t.limit ∧ t.get d = none ∧ t.FullBelow d := by
  unfold lowestFree?
  rw [List.find?_range_eq_some]
  simp only [isFree, List.mem_range, Option.isNone_iff_eq_none, Bool.not_eq_true', FullBelow]
  constructor
  · rintro ⟨hfree, hlt, hbelow⟩
    exact ⟨hlt, hfree, fun i hi h => by simpa [h] using hbelow i hi⟩
  · rintro ⟨hlt, hfree, hbelow⟩
    refine ⟨hfree, hlt, fun i hi => ?_⟩
    simpa [Option.isSome_iff_ne_none] using hbelow i hi

theorem open?_eq_some_iff :
    t.open? e = some (d, t') ↔ (d < t.limit ∧ t.get d = none ∧ t.FullBelow d) ∧ t' = t.set d (some e) := by
  unfold open?
  rw [Option.map_eq_some_iff, ← lowestFree?_eq_some_iff]
  constructor
  · rintro ⟨c, hc, h⟩
    cases h
    exact ⟨hc, rfl⟩
  · rintro ⟨hd, rfl⟩
    exact ⟨d, hd, rfl⟩

/-- Taking the lowest free descriptor leaves none free up to it. -/
theorem FullBelow.set_self (h : t.FullBelow d) : (t.set d (some e)).FullBelow (d + 1) := by
  intro i hi
  rw [get_set]
  split
  · simp
  · exact h i (by omega)

theorem FullBelow.le_of_free {n : ℕ} (h : t.FullBelow n) (hd : t.get d = none) : n ≤ d := by
  by_contra hlt
  exact h d (not_le.1 hlt) hd

/-- A pipe numbered `k` has been made at the free descriptors `r` and `w`, and there is no free one below. -/
structure PipeMade (t : Table) (k r w : ℕ) (t' : Table) : Prop where
  free : t.get r = none
  lt : r < w
  full : t'.FullBelow (w + 1)
  reader : t'.get r = some ⟨.pipe ⟨k, .reader⟩, true⟩
  writer : t'.get w = some ⟨.pipe ⟨k, .writer⟩, true⟩
  kept : ∀ i e, t.get i = some e → t'.get i = some e
  made : ∀ i e, t'.get i = some e →
    i = r ∧ e.file = .pipe ⟨k, .reader⟩ ∨ i = w ∧ e.file = .pipe ⟨k, .writer⟩ ∨ t.get i = some e

/-- The ends of a pipe are opened one after the other. -/
theorem pipe?_eq_some {k r w : ℕ} (h : t.pipe? k = some ((r, w), t')) :
    ∃ t₁, t.open? ⟨.pipe ⟨k, .reader⟩, true⟩ = some (r, t₁) ∧ t₁.open? ⟨.pipe ⟨k, .writer⟩, true⟩ = some (w, t') := by
  simp only [pipe?, Option.bind_eq_bind, Option.bind_eq_some_iff, Option.pure_def, Option.some.injEq,
    Prod.mk.injEq, Prod.exists] at h
  obtain ⟨r', t₁, h₁, w', t₂, h₂, ⟨rfl, rfl⟩, rfl⟩ := h
  exact ⟨t₁, h₁, h₂⟩

theorem pipe?_spec {k r w : ℕ} (h : t.pipe? k = some ((r, w), t')) : t.PipeMade k r w t' := by
  obtain ⟨t₁, h₁, h₂⟩ := pipe?_eq_some h
  rw [open?_eq_some_iff] at h₁ h₂
  obtain ⟨⟨-, hr, hbelow⟩, rfl⟩ := h₁
  obtain ⟨⟨-, hw, hbelow'⟩, rfl⟩ := h₂
  have hrw := hbelow.set_self.le_of_free hw
  rw [get_set, if_neg (by omega)] at hw
  refine ⟨hr, hrw, hbelow'.set_self, ?_, ?_, fun i e he => ?_, fun i e he => ?_⟩
  · rw [get_set, if_neg (by omega), get_set, if_pos rfl]
  · rw [get_set, if_pos rfl]
  · have hi : i ≠ w ∧ i ≠ r := by
      constructor <;> rintro rfl <;> simp_all
    rw [get_set, if_neg hi.1, get_set, if_neg hi.2, he]
  · rw [get_set, get_set] at he
    split at he
    · rename_i hi
      cases he
      exact .inr (.inl ⟨hi, rfl⟩)
    · split at he
      · rename_i hi
        cases he
        exact .inl ⟨hi, rfl⟩
      · exact .inr (.inr he)

theorem limit_of_open? (h : t.open? e = some (d, t')) : t'.limit = t.limit := by
  rw [(open?_eq_some_iff.1 h).2, limit_set]

theorem limit_of_pipe? {k : ℕ} {ends : ℕ × ℕ} (h : t.pipe? k = some (ends, t')) : t'.limit = t.limit := by
  obtain ⟨t₁, h₁, h₂⟩ := pipe?_eq_some h
  rw [limit_of_open? h₂, limit_of_open? h₁]

/-- A new pipe adds its two ends to what is open. -/
theorem PipeMade.get_eq_some_iff {k r w i : ℕ} (h : t.PipeMade k r w t') :
    t'.get i = some e ↔ i = r ∧ e = ⟨.pipe ⟨k, .reader⟩, true⟩ ∨ i = w ∧ e = ⟨.pipe ⟨k, .writer⟩, true⟩ ∨
      t.get i = some e := by
  constructor
  · intro he
    rcases h.made i e he with ⟨rfl, -⟩ | ⟨rfl, -⟩ | he'
    · rw [h.reader] at he
      exact .inl ⟨rfl, (Option.some_inj.1 he).symm⟩
    · rw [h.writer] at he
      exact .inr (.inl ⟨rfl, (Option.some_inj.1 he).symm⟩)
    · exact .inr (.inr he')
  · rintro (⟨rfl, rfl⟩ | ⟨rfl, rfl⟩ | he)
    exacts [h.reader, h.writer, h.kept i e he]

/-! ### How many descriptors are free -/

theorem freeCount_set (hd : d < t.limit) (hfree : t.get d = none) :
    (t.set d (some e)).freeCount + 1 = t.freeCount := by
  unfold freeCount
  rw [limit_set]
  generalize t.limit = n at hd
  induction n with
  | zero => omega
  | succ n ih =>
    rw [List.range_succ, List.countP_append, List.countP_append, List.countP_singleton, List.countP_singleton]
    rcases Nat.lt_succ_iff_lt_or_eq.1 hd with hlt | rfl
    · have hsame : (t.set d (some e)).isFree n = t.isFree n := by
        unfold isFree
        rw [get_set, if_neg (by omega)]
      have := ih hlt
      rw [hsame]
      omega
    · have hbelow : List.countP (t.set d (some e)).isFree (List.range d) = List.countP t.isFree (List.range d) := by
        refine List.countP_congr fun i hi => ?_
        unfold isFree
        rw [get_set, if_neg (List.mem_range.1 hi).ne]
      simp [hbelow, isFree, hfree]

theorem exists_open? (e : Entry) (h : 0 < t.freeCount) : ∃ d t', t.open? e = some (d, t') := by
  obtain ⟨d, hd, hfree⟩ := List.countP_pos_iff.1 h
  obtain ⟨c, hc⟩ := Option.isSome_iff_exists.1 (List.find?_isSome.2 ⟨d, hd, hfree⟩)
  exact ⟨c, t.set c (some e), by rw [open?, lowestFree?, hc, Option.map_some]⟩

theorem freeCount_of_open? (h : t.open? e = some (d, t')) : t'.freeCount + 1 = t.freeCount := by
  obtain ⟨⟨hlt, hfree, -⟩, rfl⟩ := open?_eq_some_iff.1 h
  exact freeCount_set hlt hfree

theorem close_of_open? (h : t.open? e = some (d, t')) : t'.close d = t := by
  obtain ⟨⟨-, hfree, -⟩, rfl⟩ := open?_eq_some_iff.1 h
  unfold close set
  congr 1
  funext i
  dsimp only
  split
  · rename_i hi
    rw [hi, hfree]
  · rfl

/-- A pipe takes two descriptors, and two are enough. -/
theorem exists_pipe? (k : ℕ) (h : 2 ≤ t.freeCount) : ∃ ends t', t.pipe? k = some (ends, t') := by
  obtain ⟨r, t₁, h₁⟩ := t.exists_open? ⟨.pipe ⟨k, .reader⟩, true⟩ (by omega)
  have hcount := freeCount_of_open? h₁
  obtain ⟨w, t₂, h₂⟩ := t₁.exists_open? ⟨.pipe ⟨k, .writer⟩, true⟩ (by omega)
  exact ⟨(r, w), t₂, by simp [pipe?, h₁, h₂]⟩

theorem freeCount_le_limit (t : Table) : t.freeCount ≤ t.limit := by
  have h := List.countP_le_length (p := t.isFree) (l := List.range t.limit)
  rwa [List.length_range] at h

/-- Where the two lowest descriptors are free, a pipe gets them. -/
theorem exists_pipe?_of_free (k : ℕ) (h0 : t.get 0 = none) (h1 : t.get 1 = none) (hlimit : 1 < t.limit) :
    ∃ t', t.pipe? k = some ((0, 1), t') := by
  have hbelow : t.FullBelow 0 := fun i hi => absurd hi (Nat.not_lt_zero i)
  have hreader : t.open? ⟨.pipe ⟨k, .reader⟩, true⟩ = some (0, t.set 0 (some ⟨.pipe ⟨k, .reader⟩, true⟩)) :=
    open?_eq_some_iff.2 ⟨⟨by omega, h0, hbelow⟩, rfl⟩
  have hwriter : (t.set 0 (some ⟨.pipe ⟨k, .reader⟩, true⟩)).open? ⟨.pipe ⟨k, .writer⟩, true⟩ = some (1, _) :=
    open?_eq_some_iff.2 ⟨⟨hlimit, by simpa using h1, hbelow.set_self⟩, rfl⟩
  exact ⟨_, by simp only [pipe?, hreader, hwriter, Option.bind_eq_bind, Option.bind_some]; rfl⟩

theorem freeCount_of_pipe? {k : ℕ} {ends : ℕ × ℕ} (h : t.pipe? k = some (ends, t')) :
    t'.freeCount + 2 = t.freeCount := by
  obtain ⟨t₁, h₁, h₂⟩ := pipe?_eq_some h
  have := freeCount_of_open? h₁
  have := freeCount_of_open? h₂
  omega

theorem close_set_of_ne {d' : ℕ} (h : d ≠ d') (e : Option Entry) : (t.set d' e).close d = (t.close d).set d' e := by
  unfold close set
  congr 1
  funext i
  dsimp only
  split
  · rename_i hi
    rw [if_neg (hi ▸ h)]
  · rfl

theorem close_writer_of_pipe? {k r w : ℕ} (h : t.pipe? k = some ((r, w), t')) :
    t'.close w = t.set r (some ⟨.pipe ⟨k, .reader⟩, true⟩) := by
  obtain ⟨t₁, h₁, h₂⟩ := pipe?_eq_some h
  rw [close_of_open? h₂, (open?_eq_some_iff.1 h₁).2]

theorem close_reader_of_pipe? {k r w : ℕ} (h : t.pipe? k = some ((r, w), t')) :
    t'.close r = t.set w (some ⟨.pipe ⟨k, .writer⟩, true⟩) := by
  have hrw := (pipe?_spec h).lt
  obtain ⟨t₁, h₁, h₂⟩ := pipe?_eq_some h
  rw [(open?_eq_some_iff.1 h₂).2, close_set_of_ne hrw.ne, close_of_open? h₁]

/-- Closing the ends of a pipe in reverse undoes it. -/
theorem close_of_pipe? {k r w : ℕ} (h : t.pipe? k = some ((r, w), t')) : (t'.close w).close r = t := by
  obtain ⟨t₁, h₁, h₂⟩ := pipe?_eq_some h
  rw [close_of_open? h₂, close_of_open? h₁]

theorem writer_free_of_pipe? {k r w : ℕ} (h : t.pipe? k = some ((r, w), t')) : t.get w = none := by
  have hrw := (pipe?_spec h).lt
  obtain ⟨t₁, h₁, h₂⟩ := pipe?_eq_some h
  have hfree := (open?_eq_some_iff.1 h₂).1.2.1
  rwa [(open?_eq_some_iff.1 h₁).2, get_set, if_neg hrw.ne'] at hfree

theorem PipeMade.free_of_free {k r w i : ℕ} (h : t.PipeMade k r w t') (hi : t'.get i = none) : t.get i = none := by
  by_contra hopen
  obtain ⟨e, he⟩ := Option.ne_none_iff_exists'.1 hopen
  rw [h.kept i e he] at hi
  cases hi

/-! ### Copies and marks -/

/-- A copy takes over the file and is not closed on exec. -/
theorem dup2?_eq_some (h : t.dup2? src dst = some t') (hne : src ≠ dst) :
    ∃ e, t.get src = some e ∧ dst < t.limit ∧ t' = t.set dst (some { e with closeOnExec := false }) := by
  unfold dup2? at h
  split at h
  · cases h
  · rename_i e he
    split_ifs at h with hlimit
    cases h
    exact ⟨e, he, not_le.1 hlimit, rfl⟩

theorem setCloseOnExec?_eq_some {flag : Bool} (h : t.setCloseOnExec? d flag = some t') :
    ∃ e, t.get d = some e ∧ t' = t.set d (some { e with closeOnExec := flag }) := by
  obtain ⟨e, he, rfl⟩ := Option.map_eq_some_iff.1 h
  exact ⟨e, he, rfl⟩

theorem get_exec_eq_some_iff : t.exec.get d = some e ↔ t.get d = some e ∧ e.closeOnExec = false := by
  rw [get_exec, Option.filter_eq_some_iff, Bool.not_eq_true']

end Table

end Groundwork
