import Groundwork.Proofs.Launch.Atomicity

/-!
# What a launch has open

`Spawn.held` reads off where a launch stands which ends of its pipes the caller has open for it, and at
which descriptors. `Spawn.Effect` says once what a step of the launch can do with them: nothing, open a
pipe, or close one end. Descriptors are given up in the reverse of the order in which they were made, so
what is left to close is a prefix of the six ends (`getElem?_reverse_unwind`).
-/

namespace Groundwork

def PipeSide.pick (ends : ℕ × ℕ) : PipeSide → ℕ
  | .reader => ends.1
  | .writer => ends.2

def PipeSide.index : PipeSide → ℕ
  | .reader => 0
  | .writer => 1

namespace Launch

namespace Stream

def index : Stream → ℕ
  | .stdin => 0
  | .stdout => 1
  | .stderr => 2

def nth : ℕ → Stream
  | 0 => .stdin
  | 1 => .stdout
  | _ => .stderr

/-- The end that the caller keeps. -/
def callerSide : Stream → PipeSide
  | .stdin => .writer
  | .stdout => .reader
  | .stderr => .reader

/-- The end that the child gets. -/
def childSide : Stream → PipeSide
  | .stdin => .reader
  | .stdout => .writer
  | .stderr => .writer

theorem index_injective : index.Injective := by
  intro a b h
  cases a <;> cases b <;> first | rfl | cases h

theorem index_nth {n : ℕ} (h : n < 3) : (nth n).index = n := by
  interval_cases n <;> rfl

theorem childSide_ne_callerSide (stream : Stream) : stream.childSide ≠ stream.callerSide := by
  cases stream <;> decide

theorem eq_childSide_iff {stream : Stream} {side : PipeSide} : side = stream.childSide ↔ side ≠ stream.callerSide := by
  cases stream <;> cases side <;> decide

/-- Where an end stands among the six ends of a launch, in the order in which they are made. -/
def place (stream : Stream) (side : PipeSide) : ℕ := 2 * stream.index + side.index

theorem place_inj {a b : Stream} {x y : PipeSide} : a.place x = b.place y ↔ a = b ∧ x = y := by
  cases a <;> cases b <;> cases x <;> cases y <;> decide

theorem exists_place {n : ℕ} (h : n < 6) : ∃ (stream : Stream) (side : PipeSide), stream.place side = n := by
  interval_cases n
  exacts [⟨.stdin, .reader, rfl⟩, ⟨.stdin, .writer, rfl⟩, ⟨.stdout, .reader, rfl⟩, ⟨.stdout, .writer, rfl⟩,
    ⟨.stderr, .reader, rfl⟩, ⟨.stderr, .writer, rfl⟩]

end Stream

namespace Spawn

/-- The descriptor at which the caller has an end of the launch open, if it has. -/
def held (sp : Spawn) (stream : Stream) (side : PipeSide) : Option ℕ :=
  match sp.phase with
  | .opening made => made[stream.index]?.map side.pick
  | .forking p => some (p.descriptor stream side)
  | .closing pending (.ok h) => if side = stream.callerSide then some (h.get stream) else pending.reverse[stream.index]?
  | .closing pending (.error _) => pending.reverse[stream.place side]?
  | .finished (.ok h) => if side = stream.callerSide ∧ stream ∈ sp.kept then some (h.get stream) else none
  | .finished (.error _) => none

/-- How many pipes the launch has made, three from there on. -/
def opened (sp : Spawn) : ℕ :=
  match sp.phase with
  | .opening made => made.length
  | _ => 3

/-- What holds of a launch wherever it stands. -/
def Sound (sp : Spawn) : Prop :=
  sp.kept.Nodup ∧
  match sp.phase with
  | .opening made => made.length < 3 ∧ (∀ ends ∈ made, ends.1 < ends.2) ∧ ∀ stream, stream ∈ sp.kept
  | .forking p => (∀ stream, p.descriptor stream .reader < p.descriptor stream .writer) ∧ ∀ stream, stream ∈ sp.kept
  | .closing pending (.ok _) => pending.length ≤ 3 ∧ ∀ stream, stream ∈ sp.kept
  | .closing pending (.error _) => pending.length ≤ 6
  | .finished _ => True

/-- What a step of a launch does with the descriptors that the launch has open. -/
inductive Effect (c : Caller) (sp : Spawn) : Caller → Spawn → Prop
  | quiet {sp' : Spawn} (held : sp'.held = sp.held) (opened : sp.opened ≤ sp'.opened) : Effect c sp c sp'
  | opens {sp' : Spawn} {ends : ℕ × ℕ} {t : Table} (pipe : c.table.pipe? c.nextPipe = some (ends, t))
      (first : sp.opened < 3) (opened : sp'.opened = sp.opened + 1)
      (held : ∀ stream side, sp'.held stream side =
        if stream = Stream.nth sp.opened then some (side.pick ends) else sp.held stream side) :
      Effect c sp ⟨t, c.nextPipe + 1⟩ sp'
  | closes {sp' : Spawn} {stream : Stream} {side : PipeSide} {d : ℕ} (was : sp.held stream side = some d)
      (opened : sp.opened ≤ sp'.opened)
      (held : ∀ stream' side', sp'.held stream' side' =
        if stream' = stream ∧ side' = side then none else sp.held stream' side') :
      Effect c sp { c with table := c.table.close d } sp'

theorem getElem?_concat {α : Type} (l : List α) (a : α) (n : ℕ) :
    (l ++ [a])[n]? = if n = l.length then some a else l[n]? := by
  rcases lt_trichotomy n l.length with h | rfl | h
  · rw [List.getElem?_append_left h, if_neg h.ne]
  · simp
  · rw [if_neg h.ne', List.getElem?_eq_none h.le, List.getElem?_eq_none]
    simpa using h

theorem getElem?_reverse_unwind (made : List (ℕ × ℕ)) (stream : Stream) (side : PipeSide) :
    (unwind made).reverse[stream.place side]? = made[stream.index]?.map side.pick := by
  induction made using List.reverseRecOn with
  | nil => rfl
  | append_singleton made ends ih =>
    obtain ⟨r, w⟩ := ends
    have hlength := length_unwind made
    rw [unwind_append, List.reverse_cons, List.reverse_cons, getElem?_concat, getElem?_concat, getElem?_concat, ih]
    simp only [List.length_append, List.length_reverse, List.length_singleton, hlength, Stream.place]
    rcases side with _ | _
    · rw [if_neg (by simp only [PipeSide.index]; omega)]
      by_cases h : stream.index = made.length
      · rw [if_pos (by simp only [PipeSide.index]; omega), if_pos h]
        rfl
      · rw [if_neg (by simp only [PipeSide.index]; omega), if_neg h]
    · by_cases h : stream.index = made.length
      · rw [if_pos (by simp only [PipeSide.index]; omega), if_pos h]
        rfl
      · rw [if_neg (by simp only [PipeSide.index]; omega), if_neg (by simp only [PipeSide.index]; omega), if_neg h]

variable {fork : Except OsError ℕ} {c c' : Caller} {sp sp' : Spawn} {child : Option Pipes}

theorem held_next {command : Command} {made : List (ℕ × ℕ)} {ends : ℕ × ℕ} {kept : List Stream} (h : made.length < 3)
    (stream : Stream) (side : PipeSide) :
    held ⟨command, next (made ++ [ends]), kept⟩ stream side =
      if stream = Stream.nth made.length then some (side.pick ends) else made[stream.index]?.map side.pick := by
  have hiff : stream = Stream.nth made.length ↔ stream.index = made.length := by
    rw [← Stream.index_injective.eq_iff, Stream.index_nth h]
  have hheld : held ⟨command, next (made ++ [ends]), kept⟩ stream side =
      (made ++ [ends])[stream.index]?.map side.pick := by
    match made, h with
    | [], _ => rfl
    | [_], _ => rfl
    | [_, _], _ => cases stream <;> cases side <;> rfl
  rw [hheld, getElem?_concat]
  simp only [hiff]
  split <;> rfl

theorem opened_next {command : Command} {made : List (ℕ × ℕ)} {ends : ℕ × ℕ} {kept : List Stream}
    (h : made.length < 3) : opened ⟨command, next (made ++ [ends]), kept⟩ = made.length + 1 := by
  match made, h with
  | [], _ => rfl
  | [_], _ => rfl
  | [_, _], _ => rfl

theorem sound_next {command : Command} {made : List (ℕ × ℕ)} {ends : ℕ × ℕ} {kept : List Stream} (hnodup : kept.Nodup)
    (h : made.length < 3) (hlt : ∀ ends ∈ made, ends.1 < ends.2) (hends : ends.1 < ends.2)
    (hkept : ∀ stream, stream ∈ kept) : Sound ⟨command, next (made ++ [ends]), kept⟩ := by
  refine ⟨hnodup, ?_⟩
  have hall : ∀ x ∈ made ++ [ends], x.1 < x.2 := by
    intro x hx
    rcases List.mem_append.1 hx with hx | hx
    · exact hlt x hx
    · exact List.mem_singleton.1 hx ▸ hends
  match made, h with
  | [], _ => exact ⟨by simp, hall, hkept⟩
  | [_], _ => exact ⟨by simp, hall, hkept⟩
  | [a, b], _ =>
    refine ⟨fun stream => ?_, hkept⟩
    cases stream
    · exact hall a (by simp)
    · exact hall b (by simp)
    · exact hends

theorem held_split {command : Command} {p : Pipes} {kept : List Stream} (pid : ℕ) :
    held ⟨command, .closing [p.stderr.2, p.stdout.2, p.stdin.1] (.ok ⟨p.stdin.2, p.stdout.1, p.stderr.1, pid⟩), kept⟩ =
      held ⟨command, .forking p, kept⟩ := by
  funext stream side
  cases stream <;> cases side <;> rfl

theorem held_unwind {command : Command} {p : Pipes} {kept : List Stream} (e : LaunchError) :
    held ⟨command, .closing (unwind [p.stdin, p.stdout, p.stderr]) (.error e), kept⟩ =
      held ⟨command, .forking p, kept⟩ := by
  funext stream side
  cases stream <;> cases side <;> rfl

theorem Effect.of_held (stream : Stream) (side : PipeSide) {d : ℕ} (hopened : sp.opened ≤ sp'.opened)
    (hafter : sp'.held stream side = none)
    (hbefore : ∀ stream' side', sp.held stream' side' =
      if stream' = stream ∧ side' = side then some d else sp'.held stream' side') :
    Effect c sp { c with table := c.table.close d } sp' := by
  have hwas : sp.held stream side = some d := by rw [hbefore, if_pos ⟨rfl, rfl⟩]
  refine .closes hwas hopened fun stream' side' => ?_
  rw [hbefore]
  split
  · rename_i h
    rw [h.1, h.2, hafter]
  · rfl

variable {command : Command} {kept : List Stream} {d : ℕ} {pending : List ℕ}

theorem effect_close_error {e : LaunchError} (hlength : pending.length < 6) :
    Effect c ⟨command, .closing (d :: pending) (.error e), kept⟩ { c with table := c.table.close d }
      ⟨command, .closing pending (.error e), kept⟩ := by
  obtain ⟨stream, side, hplace⟩ := Stream.exists_place hlength
  refine Effect.of_held stream side le_rfl ?_ fun stream' side' => ?_
  · simp [held, hplace]
  · simp only [held, List.reverse_cons, getElem?_concat, List.length_reverse, ← Stream.place_inj, hplace]

theorem effect_close_ok {h : Handles} (hlength : pending.length < 3) :
    Effect c ⟨command, .closing (d :: pending) (.ok h), kept⟩ { c with table := c.table.close d }
      ⟨command, .closing pending (.ok h), kept⟩ := by
  have hindex := Stream.index_nth hlength
  refine Effect.of_held (Stream.nth pending.length) (Stream.nth pending.length).childSide le_rfl ?_
    fun stream' side' => ?_
  · simp [held, Stream.childSide_ne_callerSide, hindex]
  · have hiff : stream' = Stream.nth pending.length ↔ stream'.index = pending.length := by
      rw [← Stream.index_injective.eq_iff, hindex]
    simp only [held, List.reverse_cons, getElem?_concat, List.length_reverse, hiff]
    by_cases hside : side' = stream'.callerSide
    · rw [if_pos hside, if_neg, if_pos hside]
      rintro ⟨hstream, hchild⟩
      rw [← hiff.2 hstream] at hchild
      exact Stream.childSide_ne_callerSide _ (hchild.symm.trans hside)
    · simp only [if_neg hside]
      congr 1
      refine propext ⟨fun hstream => ⟨hstream, ?_⟩, And.left⟩
      rw [← hiff.2 hstream]
      exact Stream.eq_childSide_iff.2 hside

theorem effect_drop {h : Handles} {stream : Stream} (hstream : stream ∈ kept) (hnodup : kept.Nodup) :
    Effect c ⟨command, .finished (.ok h), kept⟩ { c with table := c.table.close (h.get stream) }
      ⟨command, .finished (.ok h), kept.erase stream⟩ := by
  refine Effect.of_held stream stream.callerSide le_rfl ?_ fun stream' side' => ?_
  · simp [held, hnodup.not_mem_erase]
  · simp only [held, hnodup.mem_erase_iff]
    by_cases heq : stream' = stream
    · subst heq
      simp [hstream]
    · simp [heq]

theorem advance_effect (hsp : sp.Sound) (h : sp.advance fork c = some (c', sp', child)) : Effect c sp c' sp' := by
  obtain ⟨command, phase, kept⟩ := sp
  obtain ⟨-, hphase⟩ := hsp
  rcases phase with made | p | ⟨pending, result⟩ | result
  · rcases hpipe : c.table.pipe? c.nextPipe with _ | ⟨ends, t⟩
    · rw [State.advance_opening_none hpipe] at h
      cases h
      refine .quiet ?_ (show made.length ≤ 3 from hphase.1.le)
      funext stream side
      exact getElem?_reverse_unwind made stream side
    · rw [State.advance_opening_some hpipe] at h
      cases h
      exact .opens hpipe hphase.1 (opened_next hphase.1) (held_next hphase.1)
  · rcases fork with e | pid
    · cases h
      exact .quiet (held_unwind _) le_rfl
    · cases h
      exact .quiet (held_split pid) le_rfl
  · rcases pending with _ | ⟨d, pending⟩
    · cases h
      refine .quiet ?_ le_rfl
      rcases result with e | h
      · funext stream side
        simp [held]
      · funext stream side
        simp [held, hphase.2 stream]
    · cases h
      rcases result with e | h
      · exact effect_close_error hphase
      · exact effect_close_ok hphase.1
  · cases h

theorem Sound.advance (hsp : sp.Sound) (h : sp.advance fork c = some (c', sp', child)) : sp'.Sound := by
  obtain ⟨command, phase, kept⟩ := sp
  obtain ⟨hnodup, hphase⟩ := hsp
  rcases phase with made | p | ⟨pending, result⟩ | result
  · obtain ⟨hlength, hlt, hkept⟩ := hphase
    rcases hpipe : c.table.pipe? c.nextPipe with _ | ⟨⟨r, w⟩, t⟩
    · rw [State.advance_opening_none hpipe] at h
      cases h
      refine ⟨hnodup, ?_⟩
      have := length_unwind made
      simp only
      omega
    · rw [State.advance_opening_some hpipe] at h
      cases h
      exact sound_next hnodup hlength hlt (Table.pipe?_spec hpipe).lt hkept
  · rcases fork with e | pid
    · cases h
      exact ⟨hnodup, le_rfl⟩
    · cases h
      exact ⟨hnodup, le_rfl, hphase.2⟩
  · rcases pending with _ | ⟨d, pending⟩
    · cases h
      exact ⟨hnodup, trivial⟩
    · cases h
      rcases result with e | h
      · exact ⟨hnodup, Nat.le_of_succ_le hphase⟩
      · exact ⟨hnodup, Nat.le_of_succ_le hphase.1, hphase.2⟩
  · cases h

theorem sound_begin (command : Command) : (begin command).Sound := by
  unfold begin
  split
  · exact ⟨by simp, by simp, by simp, fun stream => by cases stream <;> simp⟩
  · exact ⟨List.nodup_nil, trivial⟩

theorem held_begin (command : Command) (stream : Stream) (side : PipeSide) :
    (begin command).held stream side = none := by
  unfold begin
  split <;> rfl

end Spawn

end Launch

end Groundwork
