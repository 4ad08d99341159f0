import Groundwork.Proofs.Launch.Ledger

/-!
# Children of launches at the same time

A child is born with a copy of the caller's table, whatever the other launches are in the middle of. All
ends of pipes in that copy are closed on exec, and what the child copies to the places of the standard
streams comes from its own ends (`Child.redirectAll_get`), so its program has no other. `Origin` says
what holds of the table a child was born with, and `Offspring` that every child still goes on from one.
-/

namespace Groundwork

namespace Launch

theorem Pipes.mem_childEnds_iff (p : Pipes) {d : ℕ} :
    d ∈ p.childEnds ↔ ∃ stream : Stream, d = p.descriptor stream stream.childSide := by
  simp only [Pipes.childEnds, List.mem_cons, List.not_mem_nil, or_false]
  constructor
  · rintro (rfl | rfl | rfl)
    exacts [⟨.stdin, rfl⟩, ⟨.stdout, rfl⟩, ⟨.stderr, rfl⟩]
  · rintro ⟨stream, rfl⟩
    cases stream
    exacts [.inl rfl, .inr (.inl rfl), .inr (.inr rfl)]

namespace Child

variable {t t' : Table} {target : ℕ} {ds : List ℕ}

/-- A place that is filled gets one of the files that were to be copied, though not always its own. -/
theorem redirectAll_get (P : File → Prop) (hr : redirectAll t target ds = some t')
    (hds : ∀ d ∈ ds, ∀ e, t.get d = some e → P e.file) (i : ℕ) : t'.get i = t.get i ∨
      (target ≤ i ∧ i < target + ds.length) ∧ ∃ f, t'.get i = some ⟨f, false⟩ ∧ P f := by
  induction ds generalizing t target with
  | nil =>
    cases hr
    exact .inl rfl
  | cons d ds ih =>
    obtain ⟨u, hu, hr⟩ := Option.bind_eq_some_iff.1 hr
    obtain ⟨e, he, hget⟩ := redirect?_eq_some hu
    have hfile : P e.file := hds d List.mem_cons_self e he
    have hds' : ∀ d' ∈ ds, ∀ e', u.get d' = some e' → P e'.file := by
      intro d' hd' e' he'
      rw [hget] at he'
      split at he'
      · cases he'
        exact hfile
      · exact hds d' (List.mem_cons_of_mem _ hd') e' he'
    rw [List.length_cons]
    rcases ih hr hds' with hsame | ⟨⟨hle, hlt⟩, hf⟩
    · rw [hsame, hget]
      split
      · rename_i hi
        exact .inr ⟨by omega, e.file, rfl, hfile⟩
      · exact .inl rfl
    · exact .inr ⟨by omega, hf⟩

end Child

theorem Spawn.child_of_advance {c c' : Caller} {sp sp' : Spawn} {pid : ℕ} {child : Option Pipes}
    (h : sp.advance (.ok pid) c = some (c', sp', child)) : (child = none ∧ ∀ p, sp.phase ≠ .forking p) ∨
      ∃ p, sp.phase = .forking p ∧ child = some p ∧ c' = c ∧ sp'.command = sp.command := by
  obtain ⟨command, phase, kept⟩ := sp
  rcases phase with made | p | ⟨pending, result⟩ | result
  · rcases hpipe : c.table.pipe? c.nextPipe with _ | ⟨ends, t⟩
    · rw [State.advance_opening_none hpipe] at h
      cases h
      exact .inl ⟨rfl, by simp⟩
    · rw [State.advance_opening_some hpipe] at h
      cases h
      exact .inl ⟨rfl, by simp⟩
  · cases h
    exact .inr ⟨p, rfl, rfl, rfl, rfl⟩
  · rcases pending with _ | ⟨d, pending⟩
    · cases h
      exact .inl ⟨rfl, by simp⟩
    · cases h
      exact .inl ⟨rfl, by simp⟩
  · cases h

namespace Ledger

variable {runnable : Command → Bool} {s₀ : State} {l l' : Ledger} {a : Action} {acts : List Action}

/-- The table `t` with which launch `i` brings a child into being that is to get its ends of the pipes `p`,
which are numbered by `k`. -/
structure Origin (s₀ : State) (l : Ledger) (i : ℕ) (p : Pipes) (k : Stream → ℕ) (t : Table) : Prop where
  owner : ∀ stream, l.owner (k stream) = some (i, stream)
  holds : HoldsPipes t p k
  lt : ∀ stream, p.descriptor stream .reader < p.descriptor stream .writer
  free : ∀ stream side, s₀.caller.table.get (p.descriptor stream side) = none
  marked : ∀ d e n side, t.get d = some e → e.file = .pipe ⟨n, side⟩ → s₀.caller.nextPipe ≤ n → e.closeOnExec = true

/-- Every child comes from the table that it was born with. -/
def Offspring (s₀ : State) (l : Ledger) : Prop :=
  ∀ pid c, l.children pid = some c → ∃ i p k t, l.born pid = some (i, p) ∧ l.Origin s₀ i p k t ∧
    c.Carries (Child.redirectAll t 0 p.childEnds)

theorem Origin.mono {i : ℕ} {p : Pipes} {k : Stream → ℕ} {t : Table} (h : l.Origin s₀ i p k t)
    (howner : ∀ n x, l.owner n = some x → l'.owner n = some x) : l'.Origin s₀ i p k t :=
  ⟨fun stream => howner _ _ (h.owner stream), h.holds, h.lt, h.free, h.marked⟩

namespace Books

variable (h : l.Books s₀)
include h

theorem held_of_le (h₀ : s₀.Fresh) {d n : ℕ} {e : Entry} {side : PipeSide} (he : l.caller.table.get d = some e)
    (hf : e.file = .pipe ⟨n, side⟩) (hn : s₀.caller.nextPipe ≤ n) :
    ∃ i stream, l.held i stream side = some d ∧ l.owner n = some (i, stream) ∧ e.closeOnExec = true := by
  rcases (h.entries d e).1 he with he | ⟨i, stream, side', m, hd, hm, rfl⟩
  · exact absurd (h₀.pipes d e n side he hf) (not_lt.2 hn)
  · cases hf
    exact ⟨i, stream, hd, hm, rfl⟩

theorem exists_origin (h₀ : s₀.Fresh) (hl : l.Sound) {i : ℕ} {command : Command} {p : Pipes} {kept : List Stream}
    (hsp : l.spawns i = some ⟨command, .forking p, kept⟩) : ∃ k, l.Origin s₀ i p k l.caller.table := by
  have hheld : ∀ stream side, l.held i stream side = some (p.descriptor stream side) := by
    intro stream side
    rw [State.held, hsp]
    rfl
  have howned : ∀ stream, ∃ n, l.owner n = some (i, stream) := fun stream => h.owned i stream .reader _ (hheld _ _)
  choose k hk using howned
  obtain ⟨-, hlt, -⟩ := hl i _ hsp
  refine ⟨k, hk, ⟨?_, ?_, ?_⟩, hlt, fun stream side => h.free i stream side _ (hheld _ _), ?_⟩
  · intro a b hab
    have heq := hk a
    rw [hab, hk b] at heq
    cases heq
    rfl
  · exact fun stream side => h.get_of_held (hheld stream side) (hk stream)
  · intro stream side d e he hf
    have hn : s₀.caller.nextPipe ≤ k stream := ((h.numbers _).1 ⟨_, hk stream⟩).1
    obtain ⟨j, stream', hd, howner, -⟩ := h.held_of_le h₀ he hf hn
    rw [hk stream] at howner
    cases howner
    rw [hheld] at hd
    exact (Option.some_inj.1 hd).symm
  · intro d e n side he hf hn
    obtain ⟨-, -, -, -, hmark⟩ := h.held_of_le h₀ he hf hn
    exact hmark

end Books

theorem children_cases (h : l.step runnable a = some l') {pid : ℕ} {c' : Child} (hc' : l'.children pid = some c') :
    (∃ c, l.children pid = some c ∧ (c' = c ∨ c.advance runnable = some c') ∧ l'.born pid = l.born pid) ∨
    ∃ i command p kept, l.spawns i = some ⟨command, .forking p, kept⟩ ∧
      c' = .begin command l.caller.table l.signals p ∧ l'.born pid = some (i, p) := by
  obtain ⟨s, hs, rfl⟩ := Option.map_eq_some_iff.1 h
  cases a with
  | begin i command =>
    obtain ⟨-, rfl⟩ := State.begin_eq_some hs
    exact .inl ⟨c', hc', .inl rfl, rfl⟩
  | advance i =>
    obtain ⟨⟨command, phase, kept⟩, ⟨c, sp', child⟩, hsp, hadvance, rfl⟩ := State.advance_eq_some hs
    rcases Spawn.child_of_advance hadvance with ⟨rfl, hphase⟩ | ⟨p, rfl, rfl, rfl, hcommand⟩
    · refine .inl ⟨c', hc', .inl rfl, ?_⟩
      simp only [note, hsp]
      cases phase with
      | forking p => exact absurd rfl (hphase p)
      | _ => rfl
    · by_cases hpid : pid = l.nextPid
      · subst hpid
        have heq : Child.begin sp'.command l.caller.table l.signals p = c' := by
          simpa [note, State.settle] using hc'
        refine .inr ⟨i, command, p, kept, hsp, ?_, ?_⟩
        · rw [← heq, hcommand]
        · simp [note, hsp]
      · have heq : l.children pid = some c' := by simpa [note, State.settle, Family.set_of_ne _ hpid] using hc'
        refine .inl ⟨c', heq, .inl rfl, ?_⟩
        simp [note, hsp, Family.set_of_ne _ hpid]
  | refuse i e =>
    obtain ⟨command, p, kept, -, rfl⟩ := State.refuse_eq_some hs
    exact .inl ⟨c', hc', .inl rfl, rfl⟩
  | child pid' =>
    obtain ⟨c, c'', hc, hadvance, rfl⟩ := State.child_eq_some hs
    by_cases hpid : pid = pid'
    · subst hpid
      have heq : some c'' = some c' := by simpa [note] using hc'
      exact .inl ⟨c, hc, .inr (heq ▸ hadvance), rfl⟩
    · have heq : l.children pid = some c' := by simpa [note, Family.set_of_ne _ hpid] using hc'
      exact .inl ⟨c', heq, .inl rfl, rfl⟩
  | drop i stream =>
    obtain ⟨command, handles, kept, -, -, rfl⟩ := State.drop_eq_some hs
    exact .inl ⟨c', hc', .inl rfl, rfl⟩

theorem Offspring.step (h : l.Offspring s₀) (h₀ : s₀.Fresh) (hl : l.Sound) (hbooks : l.Books s₀)
    (hstep : l.step runnable a = some l') : l'.Offspring s₀ := by
  have howner : ∀ n x, l.owner n = some x → l'.owner n = some x := fun n x => hbooks.owner_of_change (hl.step hstep).1
  intro pid c' hc'
  rcases children_cases hstep hc' with ⟨c, hc, hmoved, hborn⟩ | ⟨i, command, p, kept, hsp, rfl, hborn⟩
  · obtain ⟨i, p, k, t, hp, horigin, hcarries⟩ := h pid c hc
    refine ⟨i, p, k, t, hborn.trans hp, horigin.mono howner, ?_⟩
    rcases hmoved with rfl | hadvance
    · exact hcarries
    · exact hcarries.advance hadvance
  · obtain ⟨k, horigin⟩ := hbooks.exists_origin h₀ hl hsp
    exact ⟨i, p, k, l.caller.table, hborn, horigin.mono howner, Child.carries_begin _ _ _ _⟩

theorem run_spec (h₀ : s₀.Fresh) (hl : (start s₀).run runnable acts = some l) :
    l.Sound ∧ l.Books s₀ ∧ l.Offspring s₀ := by
  induction acts using List.reverseRecOn generalizing l with
  | nil =>
    cases hl
    refine ⟨fun i sp hsp => ?_, books_start h₀, fun pid c hc => ?_⟩
    · rw [start, h₀.spawns] at hsp
      cases hsp
    · rw [start, h₀.children] at hc
      cases hc
  | append_singleton acts a ih =>
    obtain ⟨m, hm, hstep⟩ := run_concat_eq_some_iff.1 hl
    obtain ⟨hsound, hbooks, hoffspring⟩ := ih hm
    obtain ⟨hchange, hsound'⟩ := hsound.step hstep
    exact ⟨hsound', hbooks.change hchange, hoffspring.step h₀ hsound hbooks hstep⟩

theorem Origin.of_running {i : ℕ} {p : Pipes} {k : Stream → ℕ} {t : Table} (h : l.Origin s₀ i p k t) {c : Child}
    (hcarries : c.Carries (Child.redirectAll t 0 p.childEnds)) (hrunning : c.phase = .running) {d n : ℕ} {e : Entry}
    {side : PipeSide} (he : c.table.get d = some e) (hf : e.file = .pipe ⟨n, side⟩) (hn : s₀.caller.nextPipe ≤ n) :
    d < 3 ∧ ∃ stream, n = k stream ∧ side = stream.childSide := by
  unfold Child.Carries at hcarries
  rw [hrunning] at hcarries
  obtain ⟨t', hr, htable⟩ := hcarries
  rw [htable, Table.get_exec_eq_some_iff] at he
  obtain ⟨he, hopen⟩ := he
  have hends : ∀ d ∈ p.childEnds, ∀ e, t.get d = some e →
      ∃ stream : Stream, e.file = .pipe ⟨k stream, stream.childSide⟩ := by
    intro d hd e he
    obtain ⟨stream, rfl⟩ := p.mem_childEnds_iff.1 hd
    rw [h.holds.get, Option.some.injEq] at he
    exact ⟨stream, he ▸ rfl⟩
  rcases Child.redirectAll_get (fun f => ∃ stream : Stream, f = .pipe ⟨k stream, stream.childSide⟩) hr hends d with
    hsame | ⟨⟨-, hlt⟩, f, hfile, stream, rfl⟩
  · rw [hsame] at he
    rw [h.marked d e n side he hf hn] at hopen
    cases hopen
  · rw [hfile] at he
    cases he
    cases hf
    exact ⟨hlt, stream, rfl, rfl⟩

theorem held_of_dropped {i : ℕ} {sp : Spawn} {handles : Handles} {stream : Stream} (hsp : l.spawns i = some sp)
    (hphase : sp.phase = .finished (.ok handles)) (hdropped : stream ∉ sp.kept) (side : PipeSide) :
    l.held i stream side = none := by
  rw [State.held, hsp, Option.bind_some, Spawn.held, hphase]
  exact if_neg fun h => hdropped h.2

/-- However launches come between each other, the caller's ends of all pipes are closed on exec, and a program
that has been started has no ends but its own launch's, in the places of the standard streams. So once a
standard input is dropped and no child is left between its birth and its program, nobody can write to it. -/
theorem run_isolated (h₀ : s₀.Fresh) (hl : (start s₀).run runnable acts = some l) :
    (∀ n, (∃ x, l.owner n = some x) ↔ s₀.caller.nextPipe ≤ n ∧ n < l.caller.nextPipe) ∧
    (∀ d n x side e, l.caller.table.get d = some e → e.file = .pipe ⟨n, side⟩ → l.owner n = some x →
      e.closeOnExec = true) ∧
    (∀ pid c, l.children pid = some c → c.phase = .running → ∃ i p, l.born pid = some (i, p) ∧
      ∀ d n x side e, c.table.get d = some e → e.file = .pipe ⟨n, side⟩ → l.owner n = some x →
        d < 3 ∧ ∃ stream, x = (i, stream) ∧ side = stream.childSide) ∧
    ∀ i sp handles, l.spawns i = some sp → sp.phase = .finished (.ok handles) → .stdin ∉ sp.kept →
      (∀ pid c, l.children pid = some c → c.phase = .running ∨ ∃ code, c.phase = .exited code) →
      ∀ n, l.owner n = some (i, .stdin) →
        (∀ d e, l.caller.table.get d = some e → e.file ≠ .pipe ⟨n, .writer⟩) ∧
        ∀ pid c, l.children pid = some c → (∀ code, c.phase ≠ .exited code) →
          ∀ d e, c.table.get d = some e → e.file ≠ .pipe ⟨n, .writer⟩ := by
  obtain ⟨-, hbooks, hoffspring⟩ := run_spec h₀ hl
  have hnew : ∀ {n x}, l.owner n = some x → s₀.caller.nextPipe ≤ n := fun hn => ((hbooks.numbers _).1 ⟨_, hn⟩).1
  have hown : ∀ pid c, l.children pid = some c → c.phase = .running → ∃ i p, l.born pid = some (i, p) ∧
      ∀ d n x side e, c.table.get d = some e → e.file = .pipe ⟨n, side⟩ → l.owner n = some x →
        d < 3 ∧ ∃ stream, x = (i, stream) ∧ side = stream.childSide := by
    intro pid c hc hrunning
    obtain ⟨i, p, k, t, hborn, horigin, hcarries⟩ := hoffspring pid c hc
    refine ⟨i, p, hborn, fun d n x side e he hf hn => ?_⟩
    obtain ⟨hd, stream, rfl, hside⟩ := horigin.of_running hcarries hrunning he hf (hnew hn)
    rw [horigin.owner] at hn
    exact ⟨hd, stream, (Option.some_inj.1 hn).symm, hside⟩
  refine ⟨hbooks.numbers, fun d n x side e he hf hn => ?_, hown, ?_⟩
  · obtain ⟨-, -, -, -, hmark⟩ := hbooks.held_of_le h₀ he hf (hnew hn)
    exact hmark
  · intro i sp handles hsp hphase hdropped hover n hn
    refine ⟨fun d e he hf => ?_, fun pid c hc halive d e he hf => ?_⟩
    · obtain ⟨j, stream, hd, howner, -⟩ := hbooks.held_of_le h₀ he hf (hnew hn)
      rw [hn, Option.some.injEq, Prod.mk.injEq] at howner
      obtain ⟨rfl, rfl⟩ := howner
      rw [held_of_dropped hsp hphase hdropped] at hd
      cases hd
    · have hrunning : c.phase = .running := (hover pid c hc).resolve_right fun ⟨code, hcode⟩ => halive code hcode
      obtain ⟨j, p, -, hends⟩ := hown pid c hc hrunning
      obtain ⟨-, stream, heq, hside⟩ := hends d n _ .writer e he hf hn
      cases heq
      cases hside

theorem run_isolated_halfway :
    let s₀ : State :=
      ⟨⟨⟨16, fun d => if d < 3 then some ⟨.other d, false⟩ else none⟩, 0⟩, ⟨[], []⟩, Family.empty, Family.empty, 7⟩
    let acts : List Action :=
      [.begin 1 ⟨[97], [[97]]⟩, .begin 2 ⟨[97], [[97]]⟩, .advance 1, .advance 2, .advance 1, .advance 1, .advance 1,
        .advance 1, .advance 1, .advance 1, .advance 1, .drop 1 .stdin, .child 7, .child 7, .child 7, .child 7,
        .child 7, .child 7]
    ∃ l, (start s₀).run (fun _ => true) acts = some l ∧ l.owner 0 = some (1, .stdin) ∧ l.owner 1 = some (2, .stdin) ∧
      (∃ c, l.children 7 = some c ∧ c.phase = .running ∧
        (∀ d e side, c.table.get d = some e → e.file ≠ .pipe ⟨1, side⟩) ∧
        ∀ d e, c.table.get d = some e → e.file ≠ .pipe ⟨0, .writer⟩) ∧
      ∀ d e, l.caller.table.get d = some e → e.file ≠ .pipe ⟨0, .writer⟩ := by
  intro s₀ acts
  have h₀ : s₀.Fresh := by
    refine ⟨fun i => rfl, fun pid => rfl, ?_⟩
    rintro d e n side he hf
    obtain ⟨-, he⟩ := Option.ite_none_right_eq_some.1 he
    cases he
    cases hf
  have hrun : ∃ l, (start s₀).run (fun _ => true) acts = some l ∧ l.owner 0 = some (1, .stdin) ∧
      l.owner 1 = some (2, .stdin) ∧ l.born 7 = some (1, ⟨(3, 4), (7, 8), (9, 10)⟩) ∧
      (∃ c, l.children 7 = some c ∧ c.phase = .running ∧ ∀ pid, pid ≠ 7 → l.children pid = none) ∧
      ∃ sp handles, l.spawns 1 = some sp ∧ sp.phase = .finished (.ok handles) ∧ .stdin ∉ sp.kept := by
    refine ⟨_, rfl, rfl, rfl, rfl, ⟨_, rfl, rfl, fun pid hpid => ?_⟩, _, _, rfl, rfl, by decide⟩
    -- the child is set once as it is born and once in each of its six steps
    iterate 7
      change Family.set _ 7 _ pid = none
      rw [Family.set_of_ne _ hpid]
    rfl
  obtain ⟨l, hl, hfirst, hsecond, hborn, ⟨c, hc, hrunning, honly⟩, sp, handles, hsp, hphase, hdropped⟩ := hrun
  obtain ⟨-, -, hown, hdrop⟩ := run_isolated h₀ hl
  have hover : ∀ pid c', l.children pid = some c' → c'.phase = .running ∨ ∃ code, c'.phase = .exited code := by
    intro pid c' hc'
    by_cases hpid : pid = 7
    · rw [hpid, hc] at hc'
      cases hc'
      exact .inl hrunning
    · rw [honly pid hpid] at hc'
      cases hc'
  obtain ⟨hcaller, hchildren⟩ := hdrop 1 sp handles hsp hphase hdropped hover 0 hfirst
  refine ⟨l, hl, hfirst, hsecond, ⟨c, hc, hrunning, ?_, hchildren 7 c hc fun code hcode => ?_⟩, hcaller⟩
  · intro d e side he hf
    obtain ⟨i, p, hi, hends⟩ := hown 7 c hc hrunning
    rw [hborn] at hi
    cases hi
    obtain ⟨-, stream, heq, -⟩ := hends d 1 _ side e he hf hsecond
    cases heq
  · rw [hrunning] at hcode
    cases hcode

end Ledger

end Launch

end Groundwork
