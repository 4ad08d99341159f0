import Groundwork.Proofs.Layout.Codec

/-!
# Sequences of accesses to a buffer

An access that succeeds reads or replaces the bytes of its type at the start of its window, however long the
window is: its `place` (`Step.run_encode`, `Step.run_decode`). What stands in a place stays until a store
touches one of its bytes (`Step.view_runAll`), and stores to disjoint places commute.
-/

namespace Groundwork

namespace Layout

variable {b b' s s' : Bytes} {i : ℕ}

namespace Window

variable {w w' : Window}

/-- The window lies within a buffer of `n` bytes. -/
def Fits (w : Window) (n : ℕ) : Prop := w.offset + w.length ≤ n

/-- Byte `i` of a buffer is in the window. -/
def Has (w : Window) (i : ℕ) : Prop := w.offset ≤ i ∧ i < w.offset + w.length

theorem length_view (h : w.Fits b.length) : (w.view b).length = w.length := by
  have hend : w.offset + w.length ≤ b.length := h
  rw [view, List.length_take, List.length_drop]
  omega

theorem length_replace (h : w.Fits b.length) (hs : s.length = w.length) : (w.replace b s).length = b.length := by
  have hend : w.offset + w.length ≤ b.length := h
  simp only [replace, List.length_append, List.length_take, List.length_drop]
  omega

theorem getElem?_view : (w.view b)[i]? = if i < w.length then b[w.offset + i]? else none := by
  rw [view, List.getElem?_take, List.getElem?_drop]

theorem getElem?_replace (h : w.Fits b.length) (hs : s.length = w.length) :
    (w.Has i → (w.replace b s)[i]? = s[i - w.offset]?) ∧ (¬ w.Has i → (w.replace b s)[i]? = b[i]?) := by
  have hend : w.offset + w.length ≤ b.length := h
  have hstart : (b.take w.offset).length = w.offset := List.length_take_of_le (by omega)
  unfold Has replace
  rw [List.append_assoc]
  constructor
  · rintro ⟨hle, hlt⟩
    rw [List.getElem?_append_right (by omega), hstart, List.getElem?_append_left (by omega)]
  · intro hout
    rcases lt_or_ge i w.offset with hlt | hge
    · rw [List.getElem?_append_left (by omega), List.getElem?_take_of_lt hlt]
    · rw [List.getElem?_append_right (by omega), hstart, List.getElem?_append_right (by omega), List.getElem?_drop]
      congr 1
      omega

theorem view_congr (h : ∀ i, w.Has i → b[i]? = b'[i]?) : w.view b = w.view b' := by
  refine List.ext_getElem? fun i => ?_
  rw [getElem?_view, getElem?_view]
  split
  · exact h (w.offset + i) ⟨by omega, by omega⟩
  · rfl

theorem view_replace (h : w.Fits b.length) (hs : s.length = w.length) : w.view (w.replace b s) = s := by
  refine List.ext_getElem? fun i => ?_
  rw [getElem?_view]
  split
  · rw [(getElem?_replace h hs).1 ⟨by omega, by omega⟩, Nat.add_sub_cancel_left]
  · exact (List.getElem?_eq_none (by omega)).symm

theorem replace_view (h : w.Fits b.length) : w.replace b (w.view b) = b := by
  have hreplace := fun i => getElem?_replace (i := i) h (length_view h)
  refine List.ext_getElem? fun i => ?_
  by_cases hi : w.Has i
  · obtain ⟨hle, hlt⟩ := hi
    rw [(hreplace i).1 ⟨hle, hlt⟩, getElem?_view, if_pos (by omega), Nat.add_sub_cancel' hle]
  · exact (hreplace i).2 hi

theorem replace_comm (h : w.Fits b.length) (h' : w'.Fits b.length) (hs : s.length = w.length)
    (hs' : s'.length = w'.length) (hdisjoint : ∀ i, w.Has i → ¬ w'.Has i) :
    w'.replace (w.replace b s) s' = w.replace (w'.replace b s') s := by
  have hfits : w.Fits (w'.replace b s').length := by rwa [length_replace h' hs']
  have hfits' : w'.Fits (w.replace b s).length := by rwa [length_replace h hs]
  refine List.ext_getElem? fun i => ?_
  by_cases hi : w.Has i
  · rw [(getElem?_replace hfits' hs').2 (hdisjoint i hi), (getElem?_replace h hs).1 hi,
      (getElem?_replace hfits hs).1 hi]
  · rw [(getElem?_replace hfits hs).2 hi]
    by_cases hi' : w'.Has i
    · rw [(getElem?_replace hfits' hs').1 hi', (getElem?_replace h' hs').1 hi']
    · rw [(getElem?_replace hfits' hs').2 hi', (getElem?_replace h' hs').2 hi', (getElem?_replace h hs).2 hi]

end Window

namespace Step

variable {t : Scalar} {o : Order} {w : Window} {v : BitVec t.bits} {x y : Step} {n : ℕ}

def scalar : Step → Scalar
  | .encode t _ _ _ => t
  | .decode t _ _ => t

def window : Step → Window
  | .encode _ _ w _ => w
  | .decode _ _ w => w

/-- The bytes that a value of the step's type takes at the start of its window. -/
def place (x : Step) : Window := ⟨x.window.offset, x.scalar.bytes⟩

/-- The step stores into byte `i`. -/
def Touches (i : ℕ) : Step → Prop
  | .encode t o w v => t.bytes ≤ w.length ∧ (encode t o w v).place.Has i
  | .decode _ _ _ => False

/-! ### One access -/

theorem fits_place (hfits : x.window.Fits n) (h : x.scalar.bytes ≤ x.window.length) : x.place.Fits n :=
  (Nat.add_le_add_left h _).trans hfits

theorem run_of_lt (hfits : x.window.Fits b.length) (h : x.window.length < x.scalar.bytes) :
    x.run b = (b, .error (.tooShort x.scalar.bytes x.window.length)) := by
  have hview := Window.length_view hfits
  rw [← hview] at h ⊢
  cases x with
  | encode t o w v =>
    have hshort : (w.view b).length < t.bytes := h
    rw [run, encode_of_lt hshort]
    rfl
  | decode t o w =>
    have hshort : (w.view b).length < t.bytes := h
    rw [run, decode_of_lt hshort]
    rfl

/-- A store replaces its place alone, since it writes back what else its window shows. -/
theorem run_encode (hfits : w.Fits b.length) (h : t.bytes ≤ w.length) :
    (encode t o w v).run b = ((encode t o w v).place.replace b (bytesOf t o v), .ok .stored) := by
  have hview : t.bytes ≤ (w.view b).length := by rwa [Window.length_view hfits]
  have hrest : (w.view b).drop t.bytes ++ b.drop (w.offset + w.length) = b.drop (w.offset + t.bytes) := by
    obtain ⟨k, hk⟩ := Nat.exists_eq_add_of_le h
    have hdrop : b.drop (w.offset + w.length) = (b.drop (w.offset + t.bytes)).drop k := by
      rw [List.drop_drop, hk, Nat.add_assoc]
    rw [Window.view, List.drop_take, List.drop_drop, hdrop, hk, Nat.add_sub_cancel_left, List.take_append_drop]
  rw [run, encode_of_le hview]
  show (b.take w.offset ++ (bytesOf t o v ++ (w.view b).drop t.bytes) ++ b.drop (w.offset + w.length), _) = _
  rw [List.append_assoc, List.append_assoc, hrest, ← List.append_assoc]
  rfl

theorem run_decode (hfits : w.Fits b.length) (h : t.bytes ≤ w.length) :
    (decode t o w).run b = (b, .ok (.loaded t (ofBytes t o ((decode t o w).place.view b)))) := by
  have hview : t.bytes ≤ (w.view b).length := by rwa [Window.length_view hfits]
  have hplace : (w.view b).take t.bytes = (decode t o w).place.view b := by
    rw [Window.view, List.take_take, Nat.min_eq_left h]
    rfl
  rw [run, decode_of_le hview, hplace]
  rfl

theorem length_run (hfits : x.window.Fits b.length) : (x.run b).1.length = b.length := by
  rcases lt_or_ge x.window.length x.scalar.bytes with h | h
  · rw [run_of_lt hfits h]
  cases x with
  | encode t o w v =>
    have hrun : (encode t o w v).run b = _ := run_encode hfits h
    rw [hrun]
    exact Window.length_replace (fits_place hfits h) (length_bytesOf t o v)
  | decode t o w => rfl

theorem getElem?_run (hfits : x.window.Fits b.length) (hi : ¬ x.Touches i) : (x.run b).1[i]? = b[i]? := by
  rcases lt_or_ge x.window.length x.scalar.bytes with h | h
  · rw [run_of_lt hfits h]
  cases x with
  | encode t o w v =>
    have hrun : (encode t o w v).run b = _ := run_encode hfits h
    rw [hrun]
    exact (Window.getElem?_replace (fits_place hfits h) (length_bytesOf t o v)).2 fun hin => hi ⟨h, hin⟩
  | decode t o w => rfl

/-- A value that is stored where it was loaded from changes nothing. -/
theorem run_encode_of_decode (hfits : w.Fits b.length) {v : BitVec t.bits}
    (h : ((decode t o w).run b).2 = .ok (.loaded t v)) : (encode t o w v).run b = (b, .ok .stored) := by
  rcases lt_or_ge w.length t.bytes with hlt | hle
  · have hrun : (decode t o w).run b = _ := run_of_lt hfits hlt
    rw [hrun] at h
    cases h
  have hplace := fits_place (x := decode t o w) hfits hle
  rw [run_decode hfits hle] at h
  cases h
  rw [run_encode hfits hle, bytesOf_ofBytes t o (Window.length_view hplace)]
  exact congrArg (·, _) (Window.replace_view hplace)

/-- Stores to disjoint places commute; where one fails there is nothing to exchange. -/
theorem run_comm {t' : Scalar} {o' : Order} {w' : Window} {v' : BitVec t'.bits} (hfits : w.Fits b.length)
    (hfits' : w'.Fits b.length)
    (hdisjoint : ∀ i, (encode t o w v).place.Has i → ¬ (encode t' o' w' v').place.Has i) :
    ((encode t' o' w' v').run ((encode t o w v).run b).1).1 =
      ((encode t o w v).run ((encode t' o' w' v').run b).1).1 := by
  have hlength : ((encode t o w v).run b).1.length = b.length := length_run hfits
  have hlength' : ((encode t' o' w' v').run b).1.length = b.length := length_run hfits'
  have hfitsAfter : w.Fits ((encode t' o' w' v').run b).1.length := by rwa [hlength']
  have hfitsAfter' : w'.Fits ((encode t o w v).run b).1.length := by rwa [hlength]
  rcases lt_or_ge w.length t.bytes with h | h
  · have hrun : ∀ {b : Bytes}, w.Fits b.length → ((encode t o w v).run b).1 = b := fun hb =>
      congrArg Prod.fst (run_of_lt (x := encode t o w v) hb h)
    rw [hrun hfitsAfter, hrun hfits]
  rcases lt_or_ge w'.length t'.bytes with h' | h'
  · have hrun : ∀ {b : Bytes}, w'.Fits b.length → ((encode t' o' w' v').run b).1 = b := fun hb =>
      congrArg Prod.fst (run_of_lt (x := encode t' o' w' v') hb h')
    rw [hrun hfitsAfter', hrun hfits']
  rw [run_encode hfitsAfter' h', run_encode hfitsAfter h, run_encode hfits h, run_encode hfits' h']
  have hplace := fits_place (x := encode t o w v) hfits h
  have hplace' := fits_place (x := encode t' o' w' v') hfits' h'
  exact Window.replace_comm hplace hplace' (length_bytesOf t o v) (length_bytesOf t' o' v') hdisjoint

/-! ### Sequences of accesses -/

theorem runAll_append (b : Bytes) (xs ys : List Step) : runAll b (xs ++ ys) =
    ((runAll (runAll b xs).1 ys).1, (runAll b xs).2 ++ (runAll (runAll b xs).1 ys).2) := by
  induction xs generalizing b with
  | nil => rfl
  | cons x xs ih => simp only [List.cons_append, runAll, ih]

theorem length_answers (b : Bytes) (xs : List Step) : (runAll b xs).2.length = xs.length := by
  induction xs generalizing b with
  | nil => rfl
  | cons x xs ih => simp only [runAll, List.length_cons, ih]

theorem runAll_snoc (b : Bytes) (xs : List Step) (x : Step) : (runAll b (xs ++ [x])).1 = (x.run (runAll b xs).1).1 := by
  rw [runAll_append]
  rfl

theorem getElem?_answers (b : Bytes) (xs ys : List Step) (x : Step) :
    (runAll b (xs ++ x :: ys)).2[xs.length]? = some (x.run (runAll b xs).1).2 := by
  have hlength := length_answers b xs
  rw [runAll_append, List.getElem?_append_right hlength.le, hlength, Nat.sub_self]
  rfl

theorem length_runAll {xs : List Step} (hfits : ∀ x ∈ xs, x.window.Fits b.length) :
    (runAll b xs).1.length = b.length := by
  induction xs generalizing b with
  | nil => rfl
  | cons x xs ih =>
    obtain ⟨hx, hxs⟩ := List.forall_mem_cons.1 hfits
    have hlength := length_run hx
    rw [← hlength] at hxs
    exact (ih hxs).trans hlength

/-- Bytes that no step touches are as they were. -/
theorem getElem?_runAll {xs : List Step} (hfits : ∀ x ∈ xs, x.window.Fits b.length) (hi : ∀ x ∈ xs, ¬ x.Touches i) :
    (runAll b xs).1[i]? = b[i]? := by
  induction xs generalizing b with
  | nil => rfl
  | cons x xs ih =>
    obtain ⟨hx, hxs⟩ := List.forall_mem_cons.1 hfits
    obtain ⟨hi, his⟩ := List.forall_mem_cons.1 hi
    rw [← length_run hx] at hxs
    exact (ih hxs his).trans (getElem?_run hx hi)

/-- What an access does to a buffer and what it answers. -/
structure Lawful (x : Step) (b b' : Bytes) (a : Except LayoutError Answer) : Prop where
  fails_iff : (∃ e, a = .error e) ↔ x.window.length < x.scalar.bytes
  failure : ∀ e, a = .error e → e = .tooShort x.scalar.bytes x.window.length ∧ b' = b
  length : b'.length = b.length
  kept : ∀ i, ¬ x.Touches i → b'[i]? = b[i]?
  load : ∀ t o w, x = .decode t o w → b' = b

theorem exists_answer (hfits : x.window.Fits b.length) (h : x.scalar.bytes ≤ x.window.length) :
    ∃ a, (x.run b).2 = .ok a := by
  cases x with
  | encode t o w v => exact ⟨_, congrArg Prod.snd (run_encode hfits h)⟩
  | decode t o w => exact ⟨_, congrArg Prod.snd (run_decode hfits h)⟩

theorem lawful_run (hfits : x.window.Fits b.length) : Lawful x b (x.run b).1 (x.run b).2 := by
  have herror : ∀ e, (x.run b).2 = .error e → x.window.length < x.scalar.bytes := by
    intro e he
    by_contra hlong
    obtain ⟨a, ha⟩ := exists_answer hfits (not_lt.1 hlong)
    rw [ha] at he
    cases he
  refine ⟨⟨?_, fun h => ?_⟩, fun e he => ?_, length_run hfits, fun i hi => getElem?_run hfits hi, ?_⟩
  · rintro ⟨e, he⟩
    exact herror e he
  · exact ⟨_, congrArg Prod.snd (run_of_lt hfits h)⟩
  · have hrun := run_of_lt hfits (herror e he)
    rw [hrun] at he ⊢
    cases he
    exact ⟨rfl, rfl⟩
  · rintro t o w rfl
    rfl

/-- A value that no step has touched since it was stored is loaded. -/
theorem run_decode_of_stored {xs : List Step} {w' : Window} (hfits : w.Fits b.length) (hfits' : w'.Fits b.length)
    (hxs : ∀ x ∈ xs, x.window.Fits b.length) (hoffset : w'.offset = w.offset) (h : t.bytes ≤ w.length)
    (h' : t.bytes ≤ w'.length) (hkept : ∀ x ∈ xs, ∀ i, (encode t o w v).place.Has i → ¬ x.Touches i) :
    ((decode t o w').run (runAll ((encode t o w v).run b).1 xs).1).2 = .ok (.loaded t v) := by
  have hplace : (decode t o w').place = (encode t o w v).place := congrArg (Window.mk · _) hoffset
  have hlength : ((encode t o w v).run b).1.length = b.length := length_run hfits
  rw [← hlength] at hxs hfits'
  rw [← length_runAll hxs] at hfits'
  rw [run_decode hfits' h', hplace]
  have hview : (encode t o w v).place.view (runAll ((encode t o w v).run b).1 xs).1 = bytesOf t o v := by
    rw [Window.view_congr fun i hi => getElem?_runAll hxs fun x hx => hkept x hx i hi, run_encode hfits h]
    exact Window.view_replace (fits_place (x := encode t o w v) hfits h) (length_bytesOf t o v)
  rw [hview, ofBytes_bytesOf]

/-! ### Accesses within a sequence -/

section

variable {xs ys before between after : List Step} {w' : Window}

/-- What fits the first buffer fits each of the later ones. -/
theorem fits_runAll (hfits : ∀ x ∈ xs ++ ys, x.window.Fits b.length) :
    ∀ x ∈ ys, x.window.Fits (runAll b xs).1.length := by
  intro x hx
  rw [length_runAll fun y hy => hfits y (List.mem_append_left ys hy)]
  exact hfits x (List.mem_append_right xs hx)

theorem runAll_append_lawful (hfits : ∀ y ∈ before ++ x :: after, y.window.Fits b.length) :
    ∃ a, (runAll b (before ++ x :: after)).2[before.length]? = some a ∧
      Lawful x (runAll b before).1 (runAll b (before ++ [x])).1 a := by
  refine ⟨_, getElem?_answers b before after x, ?_⟩
  rw [runAll_snoc]
  exact lawful_run (fits_runAll hfits x List.mem_cons_self)

theorem answer_of_stored
    (hfits : ∀ x ∈ before ++ encode t o w v :: (between ++ decode t o w' :: after), x.window.Fits b.length)
    (hoffset : w'.offset = w.offset) (h : t.bytes ≤ w.length) (h' : t.bytes ≤ w'.length)
    (hkept : ∀ x ∈ between, ∀ i, (encode t o w v).place.Has i → ¬ x.Touches i) :
    (runAll b (before ++ encode t o w v :: (between ++ decode t o w' :: after))).2[before.length + 1 + between.length]? =
      some (.ok (.loaded t v)) := by
  have hall := fits_runAll hfits
  have hw : w.Fits (runAll b before).1.length := hall _ List.mem_cons_self
  have hw' : w'.Fits (runAll b before).1.length := hall (decode t o w') (by simp)
  have hbetween : ∀ x ∈ between, x.window.Fits (runAll b before).1.length := fun x hx => hall x (by simp [hx])
  have hstored := run_decode_of_stored hw hw' hbetween hoffset h h' hkept
  have hindex : (before ++ encode t o w v :: between).length = before.length + 1 + between.length := by
    rw [List.length_append, List.length_cons]
    omega
  have hanswer := getElem?_answers b (before ++ encode t o w v :: between) after (decode t o w')
  rw [List.append_assoc, List.cons_append, hindex,
    runAll_append b before (encode t o w v :: between)] at hanswer
  exact hanswer.trans (congrArg some hstored)

theorem runAll_store_back (hfits : ∀ x ∈ before ++ decode t o w :: encode t o w v :: after, x.window.Fits b.length)
    (hloaded : (runAll b (before ++ decode t o w :: encode t o w v :: after)).2[before.length]? =
      some (.ok (.loaded t v))) :
    (runAll b (before ++ [decode t o w, encode t o w v])).1 = (runAll b before).1 := by
  have hw : w.Fits (runAll b before).1.length := fits_runAll hfits _ List.mem_cons_self
  rw [getElem?_answers] at hloaded
  have hback := run_encode_of_decode hw (Option.some.inj hloaded)
  rw [runAll_append]
  show ((encode t o w v).run (runAll b before).1).1 = _
  rw [hback]

theorem runAll_comm {t' : Scalar} {o' : Order} {v' : BitVec t'.bits}
    (hfits : ∀ x ∈ before ++ encode t o w v :: encode t' o' w' v' :: after, x.window.Fits b.length)
    (hdisjoint : ∀ i, (encode t o w v).place.Has i → ¬ (encode t' o' w' v').place.Has i) :
    (runAll b (before ++ encode t o w v :: encode t' o' w' v' :: after)).1 =
      (runAll b (before ++ encode t' o' w' v' :: encode t o w v :: after)).1 := by
  have hall := fits_runAll hfits
  have hw : w.Fits (runAll b before).1.length := hall _ List.mem_cons_self
  have hw' : w'.Fits (runAll b before).1.length := hall (encode t' o' w' v') (by simp)
  rw [runAll_append, runAll_append]
  exact congrArg (fun b => (runAll b after).1) (run_comm hw hw' hdisjoint)

end

/-- In a sequence of accesses to windows of a buffer each fails only for want of room and stores only into its
place; a load returns what was last stored in its place, storing a loaded value back changes nothing, and
stores to disjoint places commute. The values are bit patterns, of which each integer has its own. -/
theorem runAll_lawful (buffer : Bytes) (steps : List Step) (hfits : ∀ x ∈ steps, x.window.Fits buffer.length) :
    (∀ (before : List Step) (x : Step) (after : List Step), steps = before ++ x :: after →
      ∃ a, (runAll buffer steps).2[before.length]? = some a ∧
        Lawful x (runAll buffer before).1 (runAll buffer (before ++ [x])).1 a) ∧
    (∀ (before : List Step) (t : Scalar) (o : Order) (w : Window) (v : BitVec t.bits) (between : List Step)
        (w' : Window) (after : List Step),
      steps = before ++ .encode t o w v :: (between ++ .decode t o w' :: after) →
      w'.offset = w.offset → t.bytes ≤ w.length → t.bytes ≤ w'.length →
      (∀ x ∈ between, ∀ i, (encode t o w v).place.Has i → ¬ x.Touches i) →
      (runAll buffer steps).2[before.length + 1 + between.length]? = some (.ok (.loaded t v))) ∧
    (∀ (before : List Step) (t : Scalar) (o : Order) (w : Window) (v : BitVec t.bits) (after : List Step),
      steps = before ++ .decode t o w :: .encode t o w v :: after →
      (runAll buffer steps).2[before.length]? = some (.ok (.loaded t v)) →
      (runAll buffer (before ++ [.decode t o w, .encode t o w v])).1 = (runAll buffer before).1) ∧
    (∀ (before : List Step) (t : Scalar) (o : Order) (w : Window) (v : BitVec t.bits) (t' : Scalar) (o' : Order)
        (w' : Window) (v' : BitVec t'.bits) (after : List Step),
      steps = before ++ .encode t o w v :: .encode t' o' w' v' :: after →
      (∀ i, (encode t o w v).place.Has i → ¬ (encode t' o' w' v').place.Has i) →
      (runAll buffer steps).1 = (runAll buffer (before ++ .encode t' o' w' v' :: .encode t o w v :: after)).1) ∧
    ∀ (t : IntType) (i : ℤ), t.Has i → Scalar.integer t ((Scalar.int t).pattern i) = i := by
  refine ⟨?_, ?_, ?_, ?_, Scalar.integer_pattern⟩
  · rintro before x after rfl
    exact runAll_append_lawful hfits
  · rintro before t o w v between w' after rfl hoffset h h' hkept
    exact answer_of_stored hfits hoffset h h' hkept
  · rintro before t o w v after rfl hloaded
    exact runAll_store_back hfits hloaded
  · rintro before t o w v t' o' w' v' after rfl hdisjoint
    exact runAll_comm hfits hdisjoint

/-- A word and a NaN next to it in the other order. -/
theorem runAll_lawful_neighbours :
    let word : Scalar := .int ⟨false, .two⟩
    let steps : List Step := [.encode word .big ⟨1, 4⟩ 0x1234, .encode .single .little ⟨3, 5⟩ 0xffa00001,
      .decode word .big ⟨1, 2⟩, .decode .single .little ⟨3, 4⟩]
    (∀ x ∈ steps, x.window.Fits 8) ∧
      (runAll (List.replicate 8 0) steps).2[2]? = some (.ok (.loaded word 0x1234)) ∧
      (runAll (List.replicate 8 0) steps).2[3]? = some (.ok (.loaded .single 0xffa00001)) := by
  intro word steps
  have hfits : ∀ x ∈ steps, x.window.Fits 8 := by
    unfold Window.Fits
    decide
  obtain ⟨-, hload, -⟩ := runAll_lawful (List.replicate 8 0) steps hfits
  refine ⟨hfits, ?_, ?_⟩
  · refine hload [] word .big ⟨1, 4⟩ 0x1234 [.encode .single .little ⟨3, 5⟩ 0xffa00001] ⟨1, 2⟩ _ rfl rfl (by decide)
      (by decide) fun x hx i hi htouch => ?_
    obtain rfl := List.mem_singleton.1 hx
    obtain ⟨-, hle, -⟩ := htouch
    exact absurd (hle.trans_lt hi.2) (by decide)
  · refine hload [.encode word .big ⟨1, 4⟩ 0x1234] .single .little ⟨3, 5⟩ 0xffa00001 [.decode word .big ⟨1, 2⟩] ⟨3, 4⟩
      _ rfl rfl (by decide) (by decide) fun x hx i hi htouch => ?_
    obtain rfl := List.mem_singleton.1 hx
    exact htouch

end Step

end Layout

end Groundwork
