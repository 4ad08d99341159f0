import Groundwork.Proofs.Launch.Holding

/-!
# A ledger of launches

Launches that run at the same time share one descriptor table, and no entry of it says who made it. A
`Ledger` is the state of all launches together with what its history tells: for which stream of which
launch each pipe was made, and which launch each child came from with which pipes. No step looks at these
notes (`Ledger.step_toState`).

`Ledger.Change` says once what a step can do with the descriptors that launches have open. The invariant
`Books` follows from it: the caller's table holds what it held at the start and what the launches hold, and
nothing else.
-/

namespace Groundwork

namespace Launch

namespace State

variable {s s' : State} {runnable : Command → Bool} {i pid : ℕ} {command : Command} {e : OsError} {stream : Stream}

/-- The descriptor at which the caller has an end of launch `i` open, if it has. -/
def held (s : State) (i : ℕ) (stream : Stream) (side : PipeSide) : Option ℕ :=
  (s.spawns i).bind fun sp => sp.held stream side

/-- How many pipes launch `i` has made, three from there on. -/
def opened (s : State) (i : ℕ) : ℕ := (s.spawns i).elim 0 Spawn.opened

/-- No launch has begun, and the pipes that are open have numbers before the next. -/
structure Fresh (s : State) : Prop where
  spawns : ∀ i, s.spawns i = none
  children : ∀ pid, s.children pid = none
  pipes : ∀ d e n side, s.caller.table.get d = some e → e.file = .pipe ⟨n, side⟩ → n < s.caller.nextPipe

theorem begin_eq_some (h : s.step runnable (.begin i command) = some s') :
    s.spawns i = none ∧ s' = { s with spawns := s.spawns.set i (some (.begin command)) } := by
  simp only [step, Option.isNone_iff_eq_none, Option.ite_none_right_eq_some, Option.some.injEq] at h
  exact ⟨h.1, h.2.symm⟩

theorem advance_eq_some (h : s.step runnable (.advance i) = some s') :
    ∃ sp x, s.spawns i = some sp ∧ sp.advance (.ok s.nextPid) s.caller = some x ∧ s' = s.settle i x := by
  simp only [step, Option.bind_eq_bind, Option.bind_eq_some_iff, Option.pure_def, Option.some.injEq] at h
  obtain ⟨sp, hsp, x, hx, rfl⟩ := h
  exact ⟨sp, x, hsp, hx, rfl⟩

theorem refuse_eq_some (h : s.step runnable (.refuse i e) = some s') :
    ∃ command p kept, s.spawns i = some ⟨command, .forking p, kept⟩ ∧
      s' = s.settle i (s.caller,
        ⟨command, .closing (Spawn.unwind [p.stdin, p.stdout, p.stderr]) (.error (.fork e)), kept⟩, none) := by
  simp only [step, Option.bind_eq_bind, Option.bind_eq_some_iff, Option.pure_def] at h
  obtain ⟨⟨command, phase, kept⟩, hsp, h⟩ := h
  split at h
  · rename_i p hphase
    cases hphase
    exact ⟨command, p, kept, hsp, (Option.some_inj.1 h).symm⟩
  · cases h

theorem child_eq_some (h : s.step runnable (.child pid) = some s') :
    ∃ c c', s.children pid = some c ∧ c.advance runnable = some c' ∧
      s' = { s with children := s.children.set pid (some c') } := by
  simp only [step, Option.bind_eq_bind, Option.bind_eq_some_iff, Option.pure_def, Option.some.injEq] at h
  obtain ⟨c, hc, c', hc', rfl⟩ := h
  exact ⟨c, c', hc, hc', rfl⟩

theorem drop_eq_some (h : s.step runnable (.drop i stream) = some s') :
    ∃ command handles kept, s.spawns i = some ⟨command, .finished (.ok handles), kept⟩ ∧ stream ∈ kept ∧
      s' = { s with
        caller := { s.caller with table := s.caller.table.close (handles.get stream) }
        spawns := s.spawns.set i (some ⟨command, .finished (.ok handles), kept.erase stream⟩) } := by
  simp only [step, Option.bind_eq_bind, Option.bind_eq_some_iff, Option.pure_def] at h
  obtain ⟨⟨command, phase, kept⟩, hsp, h⟩ := h
  split at h
  · rename_i handles hphase
    rw [Option.ite_none_right_eq_some] at h
    obtain ⟨hmem, h⟩ := h
    cases hphase
    exact ⟨command, handles, kept, hsp, hmem, (Option.some_inj.1 h).symm⟩
  · cases h

end State

/-- The state of all launches, with notes of what has led to it. -/
structure Ledger extends State where
  /-- For which stream of which launch a pipe was made. -/
  owner : Family (ℕ × Stream)
  /-- Which launch a child came from, and with which pipes. -/
  born : Family (ℕ × Pipes)

namespace Ledger

def start (s : State) : Ledger := ⟨s, Family.empty, Family.empty⟩

/-- The notes after an action that leads to `s`. -/
def note (l : Ledger) (a : Action) (s : State) : Ledger :=
  match a with
  | .advance i =>
    { toState := s
      owner :=
        if s.caller.nextPipe = l.caller.nextPipe then l.owner
        else l.owner.set l.caller.nextPipe (some (i, .nth (l.opened i)))
      born :=
        match l.spawns i with
        | some ⟨_, .forking p, _⟩ => l.born.set l.nextPid (some (i, p))
        | _ => l.born }
  | _ => { l with toState := s }

def step (runnable : Command → Bool) (l : Ledger) (a : Action) : Option Ledger :=
  (l.toState.step runnable a).map (l.note a)

def run (runnable : Command → Bool) (l : Ledger) (acts : List Action) : Option Ledger := acts.foldlM (step runnable) l

variable {runnable : Command → Bool} {l l' : Ledger} {a : Action} {acts : List Action}

theorem step_toState : (l.step runnable a).map toState = l.toState.step runnable a := by
  have hnote : toState ∘ l.note a = id := by
    funext s
    cases a <;> rfl
  rw [step, Option.map_map, hnote, Option.map_id, id]

theorem run_concat_eq_some_iff :
    l.run runnable (acts ++ [a]) = some l' ↔ ∃ m, l.run runnable acts = some m ∧ m.step runnable a = some l' := by
  simp only [run, List.foldlM_append, List.foldlM_cons, List.foldlM_nil, bind_pure, Option.bind_eq_bind,
    Option.bind_eq_some_iff]

/-- What a step can do with the descriptors that launches have open. -/
inductive Change (l : Ledger) : Ledger → Prop
  | quiet {l' : Ledger} (caller : l'.caller = l.caller) (owner : l'.owner = l.owner)
      (opened : ∀ i, l.opened i ≤ l'.opened i) (held : ∀ i, l'.held i = l.held i) : Change l l'
  | opens {l' : Ledger} {i : ℕ} {ends : ℕ × ℕ} {t : Table}
      (pipe : l.caller.table.pipe? l.caller.nextPipe = some (ends, t))
      (caller : l'.caller = ⟨t, l.caller.nextPipe + 1⟩)
      (owner : l'.owner = l.owner.set l.caller.nextPipe (some (i, .nth (l.opened i))))
      (first : l.opened i < 3) (opened : ∀ j, l'.opened j = if j = i then l.opened i + 1 else l.opened j)
      (held : ∀ j stream side, l'.held j stream side =
        if j = i ∧ stream = .nth (l.opened i) then some (side.pick ends) else l.held j stream side) :
      Change l l'
  | closes {l' : Ledger} {i : ℕ} {stream : Stream} {side : PipeSide} {d : ℕ}
      (was : l.held i stream side = some d)
      (caller : l'.caller = { l.caller with table := l.caller.table.close d }) (owner : l'.owner = l.owner)
      (opened : ∀ i, l.opened i ≤ l'.opened i)
      (held : ∀ j stream' side', l'.held j stream' side' =
        if j = i ∧ stream' = stream ∧ side' = side then none else l.held j stream' side') :
      Change l l'

theorem change_of_effect {i : ℕ} {sp sp' : Spawn} (hsp : l.spawns i = some sp)
    (heffect : Spawn.Effect l.caller sp l'.caller sp') (hspawns : l'.spawns = l.spawns.set i (some sp'))
    (howner : l'.owner = if l'.caller.nextPipe = l.caller.nextPipe then l.owner
      else l.owner.set l.caller.nextPipe (some (i, .nth (l.opened i)))) : Change l l' := by
  have hself : l'.spawns i = some sp' := by rw [hspawns, Family.set_self]
  have hother : ∀ j, j ≠ i → l'.spawns j = l.spawns j := fun j hj => by rw [hspawns, Family.set_of_ne _ hj]
  have hopened : ∀ j, l'.opened j = if j = i then sp'.opened else l.opened j := by
    intro j
    split
    · rename_i hj
      rw [hj, State.opened, hself, Option.elim_some]
    · rename_i hj
      rw [State.opened, hother j hj, State.opened]
  have hheld : ∀ j, l'.held j = if j = i then sp'.held else l.held j := by
    intro j
    funext stream side
    split
    · rename_i hj
      rw [hj, State.held, hself, Option.bind_some]
    · rename_i hj
      rw [State.held, hother j hj, State.held]
  have hopened_self : l.opened i = sp.opened := by rw [State.opened, hsp, Option.elim_some]
  have hheld_self : l.held i = sp.held := by
    funext stream side
    rw [State.held, hsp, Option.bind_some]
  have hle : sp.opened ≤ sp'.opened → ∀ j, l.opened j ≤ l'.opened j := by
    intro h j
    rw [hopened]
    split
    · rename_i hj
      rwa [hj, hopened_self]
    · exact le_rfl
  generalize hcaller : l'.caller = c' at heffect howner
  cases heffect with
  | quiet held opened =>
    refine .quiet hcaller (by rw [howner, if_pos rfl]) (hle opened) fun j => ?_
    rw [hheld]
    split
    · rename_i hj
      rw [held, hj, hheld_self]
    · rfl
  | opens pipe first opened held =>
    refine .opens pipe hcaller (by rw [howner, if_neg (by simp)]) (hopened_self ▸ first) (fun j => ?_)
      fun j stream side => ?_
    · rw [hopened, opened, hopened_self]
    · rw [hheld, hopened_self]
      by_cases hj : j = i
      · simp only [hj, if_true, true_and, held, hheld_self]
      · simp only [hj, if_false, false_and]
  | @closes _ stream side d was opened held =>
    have hwas : l.held i stream side = some d := by rw [hheld_self, was]
    refine .closes hwas hcaller (by rw [howner, if_pos rfl]) (hle opened) fun j stream' side' => ?_
    rw [hheld]
    by_cases hj : j = i
    · simp only [hj, if_true, true_and, held, hheld_self]
    · simp only [hj, if_false, false_and]

def Sound (l : Ledger) : Prop := ∀ i sp, l.spawns i = some sp → sp.Sound

theorem Sound.set {s' : State} {i : ℕ} {sp : Spawn} (h : l.Sound) (hsp : sp.Sound)
    (hspawns : s'.spawns = l.spawns.set i (some sp)) : ∀ j sp', s'.spawns j = some sp' → sp'.Sound := by
  intro j sp' hj
  rw [hspawns] at hj
  by_cases heq : j = i
  · rw [heq, Family.set_self, Option.some.injEq] at hj
    exact hj ▸ hsp
  · rw [Family.set_of_ne _ heq] at hj
    exact h j sp' hj

theorem settle_fields (s : State) (i : ℕ) (c : Caller) (sp : Spawn) (child : Option Pipes) :
    (s.settle i (c, sp, child)).caller = c ∧ (s.settle i (c, sp, child)).spawns = s.spawns.set i (some sp) := by
  cases child <;> exact ⟨rfl, rfl⟩

theorem Sound.step (hl : l.Sound) (h : l.step runnable a = some l') : l.Change l' ∧ l'.Sound := by
  obtain ⟨s, hs, rfl⟩ := Option.map_eq_some_iff.1 h
  cases a with
  | begin i command =>
    obtain ⟨hi, rfl⟩ := State.begin_eq_some hs
    refine ⟨.quiet rfl rfl ?_ ?_, hl.set (Spawn.sound_begin command) rfl⟩
    · intro j
      by_cases hj : j = i
      · simp [State.opened, hj, hi]
      · simp [State.opened, note, Family.set_of_ne _ hj]
    · intro j
      funext stream side
      by_cases hj : j = i
      · simp [State.held, note, hj, hi, Spawn.held_begin]
      · simp [State.held, note, Family.set_of_ne _ hj]
  | advance i =>
    obtain ⟨sp, ⟨c', sp', child⟩, hsp, hadvance, rfl⟩ := State.advance_eq_some hs
    obtain ⟨hcaller, hspawns⟩ := settle_fields l.toState i c' sp' child
    refine ⟨change_of_effect hsp ?_ hspawns ?_, hl.set ((hl i sp hsp).advance hadvance) hspawns⟩
    · simpa only [note, hcaller] using Spawn.advance_effect (hl i sp hsp) hadvance
    · rfl
  | refuse i e =>
    obtain ⟨command, p, kept, hsp, rfl⟩ := State.refuse_eq_some hs
    obtain ⟨hnodup, -⟩ := hl i _ hsp
    refine ⟨change_of_effect hsp (.quiet (Spawn.held_unwind _) le_rfl) rfl (if_pos rfl).symm, hl.set ?_ rfl⟩
    exact ⟨hnodup, le_rfl⟩
  | child pid =>
    obtain ⟨c, c', -, -, rfl⟩ := State.child_eq_some hs
    exact ⟨.quiet rfl rfl (fun _ => le_rfl) fun _ => rfl, hl⟩
  | drop i stream =>
    obtain ⟨command, handles, kept, hsp, hmem, rfl⟩ := State.drop_eq_some hs
    obtain ⟨hnodup, -⟩ := hl i _ hsp
    refine ⟨change_of_effect hsp (Spawn.effect_drop hmem hnodup) rfl (if_pos rfl).symm, hl.set ?_ rfl⟩
    exact ⟨hnodup.erase stream, trivial⟩

/-- The caller's table is what it was at the start `s₀` and what the launches hold. -/
structure Books (s₀ : State) (l : Ledger) : Prop where
  le : s₀.caller.nextPipe ≤ l.caller.nextPipe
  numbers : ∀ n, (∃ x, l.owner n = some x) ↔ s₀.caller.nextPipe ≤ n ∧ n < l.caller.nextPipe
  injective : ∀ n m x, l.owner n = some x → l.owner m = some x → n = m
  started : ∀ n i stream, l.owner n = some (i, stream) → stream.index < l.opened i
  owned : ∀ i stream side d, l.held i stream side = some d → ∃ n, l.owner n = some (i, stream)
  free : ∀ i stream side d, l.held i stream side = some d → s₀.caller.table.get d = none
  entries : ∀ d e, l.caller.table.get d = some e ↔ s₀.caller.table.get d = some e ∨
    ∃ i stream side n, l.held i stream side = some d ∧ l.owner n = some (i, stream) ∧ e = ⟨.pipe ⟨n, side⟩, true⟩
  limit : l.caller.table.limit = s₀.caller.table.limit

namespace Books

variable {s₀ : State} (h : l.Books s₀)
include h

theorem get_of_held {i n d : ℕ} {stream : Stream} {side : PipeSide} (hd : l.held i stream side = some d)
    (hn : l.owner n = some (i, stream)) : l.caller.table.get d = some ⟨.pipe ⟨n, side⟩, true⟩ :=
  (h.entries d _).2 (.inr ⟨i, stream, side, n, hd, hn, rfl⟩)

theorem held_inj {i j d : ℕ} {stream stream' : Stream} {side side' : PipeSide} (hd : l.held i stream side = some d)
    (hd' : l.held j stream' side' = some d) : j = i ∧ stream' = stream ∧ side' = side := by
  obtain ⟨n, hn⟩ := h.owned _ _ _ _ hd
  obtain ⟨m, hm⟩ := h.owned _ _ _ _ hd'
  have heq := (h.get_of_held hd' hm).symm.trans (h.get_of_held hd hn)
  simp only [Option.some.injEq, Entry.mk.injEq, File.pipe.injEq, PipeEnd.mk.injEq, and_true] at heq
  obtain ⟨rfl, rfl⟩ := heq
  rw [hn, Option.some.injEq, Prod.mk.injEq] at hm
  exact ⟨hm.1.symm, hm.2.symm, rfl⟩

theorem quiet (caller : l'.caller = l.caller) (owner : l'.owner = l.owner) (opened : ∀ i, l.opened i ≤ l'.opened i)
    (held : ∀ i, l'.held i = l.held i) : l'.Books s₀ := by
  constructor <;> simp only [caller, owner, held]
  · exact h.le
  · exact h.numbers
  · exact h.injective
  · exact fun n i stream hn => (h.started n i stream hn).trans_le (opened i)
  · exact h.owned
  · exact h.free
  · exact h.entries
  · exact h.limit

theorem closes {i : ℕ} {stream : Stream} {side : PipeSide} {d : ℕ} (was : l.held i stream side = some d)
    (caller : l'.caller = { l.caller with table := l.caller.table.close d }) (owner : l'.owner = l.owner)
    (opened : ∀ i, l.opened i ≤ l'.opened i)
    (held : ∀ j stream' side', l'.held j stream' side' =
      if j = i ∧ stream' = stream ∧ side' = side then none else l.held j stream' side') : l'.Books s₀ := by
  have hheld : ∀ {j stream' side' d'},
      l'.held j stream' side' = some d' ↔ d' ≠ d ∧ l.held j stream' side' = some d' := by
    intro j stream' side' d'
    rw [held]
    constructor
    · intro hd'
      split_ifs at hd' with heq
      refine ⟨?_, hd'⟩
      rintro rfl
      exact heq (h.held_inj was hd')
    · rintro ⟨hne, hd'⟩
      rw [if_neg, hd']
      rintro ⟨rfl, rfl, rfl⟩
      rw [was, Option.some.injEq] at hd'
      exact hne hd'.symm
  have hstart := h.free _ _ _ _ was
  constructor
  · simpa only [caller] using h.le
  · simpa only [caller, owner] using h.numbers
  · simpa only [owner] using h.injective
  · intro n j stream' hn
    rw [owner] at hn
    exact (h.started n j stream' hn).trans_le (opened j)
  · intro j stream' side' d' hd'
    rw [owner]
    exact h.owned j stream' side' d' (hheld.1 hd').2
  · intro j stream' side' d' hd'
    exact h.free j stream' side' d' (hheld.1 hd').2
  · intro d' e
    simp only [caller, owner, Table.get_close, hheld]
    by_cases heq : d' = d
    · simp [heq, hstart]
    · simp only [heq, if_false, ne_eq, not_false_eq_true, true_and]
      exact h.entries d' e
  · rw [caller]
    exact h.limit

theorem start_free {d : ℕ} (hd : l.caller.table.get d = none) : s₀.caller.table.get d = none := by
  by_contra hne
  obtain ⟨e, he⟩ := Option.ne_none_iff_exists'.1 hne
  rw [(h.entries d e).2 (.inl he)] at hd
  cases hd

theorem owner_ne_nth {i : ℕ} (first : l.opened i < 3) (n : ℕ) : l.owner n ≠ some (i, .nth (l.opened i)) := by
  intro hn
  have hlt := h.started n _ _ hn
  rw [Stream.index_nth first] at hlt
  exact absurd hlt (lt_irrefl _)

theorem held_nth {i : ℕ} (first : l.opened i < 3) (side : PipeSide) :
    l.held i (.nth (l.opened i)) side = none := by
  by_contra hne
  obtain ⟨d, hd⟩ := Option.ne_none_iff_exists'.1 hne
  obtain ⟨n, hn⟩ := h.owned _ _ _ _ hd
  exact h.owner_ne_nth first n hn

section

variable {i : ℕ} {ends : ℕ × ℕ} {t : Table}

theorem owner_iff_of_opens (owner : l'.owner = l.owner.set l.caller.nextPipe (some (i, .nth (l.opened i)))) {n : ℕ}
    {x : ℕ × Stream} : l'.owner n = some x ↔
      n = l.caller.nextPipe ∧ x = (i, .nth (l.opened i)) ∨ l.owner n = some x := by
  rw [owner]
  by_cases hn : n = l.caller.nextPipe
  · have hnone : l.owner l.caller.nextPipe ≠ some x := fun hx => lt_irrefl _ ((h.numbers _).1 ⟨x, hx⟩).2
    simp [hn, hnone, eq_comm]
  · simp [hn, Family.set_of_ne]

theorem held_iff_of_opens (first : l.opened i < 3)
    (held : ∀ j stream side, l'.held j stream side =
      if j = i ∧ stream = .nth (l.opened i) then some (side.pick ends) else l.held j stream side)
    {j d : ℕ} {stream : Stream} {side : PipeSide} : l'.held j stream side = some d ↔
      (j = i ∧ stream = .nth (l.opened i)) ∧ d = side.pick ends ∨ l.held j stream side = some d := by
  rw [held]
  by_cases hj : j = i ∧ stream = .nth (l.opened i)
  · obtain ⟨rfl, rfl⟩ := hj
    simp [h.held_nth first, eq_comm]
  · simp [hj]

variable (pipe : l.caller.table.pipe? l.caller.nextPipe = some (ends, t))
  (caller : l'.caller = ⟨t, l.caller.nextPipe + 1⟩)
  (owner : l'.owner = l.owner.set l.caller.nextPipe (some (i, .nth (l.opened i))))
  (first : l.opened i < 3)
  (held : ∀ j stream side, l'.held j stream side =
    if j = i ∧ stream = .nth (l.opened i) then some (side.pick ends) else l.held j stream side)
include pipe caller owner first held

/-- The two ends of a new pipe are its launch's, and all else stays as it was. -/
theorem entries_of_opens (d : ℕ) (e : Entry) : l'.caller.table.get d = some e ↔ s₀.caller.table.get d = some e ∨
    ∃ j stream side n, l'.held j stream side = some d ∧ l'.owner n = some (j, stream) ∧
      e = ⟨.pipe ⟨n, side⟩, true⟩ := by
  obtain ⟨r, w⟩ := ends
  have hheld : ∀ {j stream side d}, l'.held j stream side = some d ↔
      (j = i ∧ stream = .nth (l.opened i)) ∧ d = side.pick (r, w) ∨ l.held j stream side = some d :=
    h.held_iff_of_opens first held
  have hnew : l'.owner l.caller.nextPipe = some (i, .nth (l.opened i)) :=
    (h.owner_iff_of_opens owner).2 (.inl ⟨rfl, rfl⟩)
  rw [caller, (Table.pipe?_spec pipe).get_eq_some_iff, h.entries]
  constructor
  · rintro (⟨rfl, rfl⟩ | ⟨rfl, rfl⟩ | he | ⟨j, stream, side, n, hd, hn, rfl⟩)
    · exact .inr ⟨i, _, .reader, _, hheld.2 (.inl ⟨⟨rfl, rfl⟩, rfl⟩), hnew, rfl⟩
    · exact .inr ⟨i, _, .writer, _, hheld.2 (.inl ⟨⟨rfl, rfl⟩, rfl⟩), hnew, rfl⟩
    · exact .inl he
    · exact .inr ⟨j, stream, side, n, hheld.2 (.inr hd), (h.owner_iff_of_opens owner).2 (.inr hn), rfl⟩
  · rintro (he | ⟨j, stream, side, n, hd, hn, rfl⟩)
    · exact .inr (.inr (.inl he))
    rcases (h.owner_iff_of_opens owner).1 hn with ⟨rfl, heq⟩ | hn
    · cases heq
      rcases hheld.1 hd with ⟨-, rfl⟩ | hd
      · cases side
        · exact .inl ⟨rfl, rfl⟩
        · exact .inr (.inl ⟨rfl, rfl⟩)
      · rw [h.held_nth first] at hd
        cases hd
    · rcases hheld.1 hd with ⟨⟨rfl, rfl⟩, -⟩ | hd
      · exact absurd hn (h.owner_ne_nth first n)
      · exact .inr (.inr (.inr ⟨j, stream, side, n, hd, hn, rfl⟩))

theorem opens (opened : ∀ j, l'.opened j = if j = i then l.opened i + 1 else l.opened j) : l'.Books s₀ := by
  constructor
  · rw [caller]
    exact Nat.le_succ_of_le h.le
  · intro n
    have hle := h.le
    simp only [h.owner_iff_of_opens owner, caller, exists_or, h.numbers, exists_and_left, exists_eq, and_true]
    omega
  · intro n m x hn hm
    rcases (h.owner_iff_of_opens owner).1 hn with ⟨rfl, rfl⟩ | hn
    · rcases (h.owner_iff_of_opens owner).1 hm with ⟨rfl, -⟩ | hm
      · rfl
      · exact absurd hm (h.owner_ne_nth first m)
    · rcases (h.owner_iff_of_opens owner).1 hm with ⟨rfl, rfl⟩ | hm
      · exact absurd hn (h.owner_ne_nth first n)
      · exact h.injective n m x hn hm
  · intro n j stream hn
    rw [opened]
    rcases (h.owner_iff_of_opens owner).1 hn with ⟨-, heq⟩ | hn
    · cases heq
      rw [if_pos rfl, Stream.index_nth first]
      exact Nat.lt_succ_self _
    · have hlt := h.started n j stream hn
      split
      · rename_i hj
        rw [hj] at hlt
        exact hlt.trans (Nat.lt_succ_self _)
      · exact hlt
  · intro j stream side d hd
    rcases (h.held_iff_of_opens first held).1 hd with ⟨⟨rfl, rfl⟩, -⟩ | hd
    · exact ⟨_, (h.owner_iff_of_opens owner).2 (.inl ⟨rfl, rfl⟩)⟩
    · obtain ⟨n, hn⟩ := h.owned j stream side d hd
      exact ⟨n, (h.owner_iff_of_opens owner).2 (.inr hn)⟩
  · intro j stream side d hd
    rcases (h.held_iff_of_opens first held).1 hd with ⟨-, rfl⟩ | hd
    · cases side
      · exact h.start_free (Table.pipe?_spec pipe).free
      · exact h.start_free (Table.writer_free_of_pipe? pipe)
    · exact h.free j stream side d hd
  · exact h.entries_of_opens pipe caller owner first held
  · rw [caller]
    exact (Table.limit_of_pipe? pipe).trans h.limit

end

theorem change (hchange : l.Change l') : l'.Books s₀ := by
  cases hchange with
  | quiet caller owner opened held => exact h.quiet caller owner opened held
  | opens pipe caller owner first opened held => exact h.opens pipe caller owner first held opened
  | closes was caller owner opened held => exact h.closes was caller owner opened held

theorem owner_of_change (hchange : l.Change l') {n : ℕ} {x : ℕ × Stream} (hn : l.owner n = some x) :
    l'.owner n = some x := by
  cases hchange with
  | quiet caller owner opened held => rwa [owner]
  | opens pipe caller owner first opened held =>
    have hlt := ((h.numbers n).1 ⟨x, hn⟩).2
    rwa [owner, Family.set_of_ne _ hlt.ne]
  | closes was caller owner opened held => rwa [owner]

end Books

theorem books_start {s₀ : State} (h₀ : s₀.Fresh) : (start s₀).Books s₀ := by
  have hheld : ∀ i stream side, (start s₀).held i stream side = none := by
    intro i stream side
    rw [State.held, start, h₀.spawns, Option.bind_none]
  constructor
  · exact le_rfl
  · intro n
    constructor
    · rintro ⟨x, hx⟩
      cases hx
    · rintro ⟨hle, hlt⟩
      exact absurd hlt (not_lt.2 hle)
  · rintro n m x ⟨⟩
  · rintro n i stream ⟨⟩
  · intro i stream side d hd
    rw [hheld] at hd
    cases hd
  · intro i stream side d hd
    rw [hheld] at hd
    cases hd
  · intro d e
    refine ⟨.inl, ?_⟩
    rintro (he | ⟨i, stream, side, n, hd, -⟩)
    · exact he
    · rw [hheld] at hd
      cases hd
  · rfl

end Ledger

end Launch

end Groundwork
