import Groundwork.Proofs.Launch.Isolation

/-!
# Crossed streams

A child fills the places 0, 1 and 2 in this order, so a writing end that stands at 0 or 1 is lost before it
is copied. It can stand there: each pipe takes the lowest free descriptors, and another launch can give up 0
and 1 between two pipes of this one. A writing end is never at 0, since the reading end is below it, and the
third pipe's is at 1 only where the pipe has got both 0 and 1. So a caller that has one of them open from the
start is safe, and one that has neither can always be led astray (`exists_crossed`): while the first launch
holds 0 and 1, the second makes two pipes; the first then runs to its end and gives 0 and 1 up
(`exists_settled`), and the second makes its third.
-/

namespace Groundwork

namespace Launch

def Spawn.left (sp : Spawn) : ℕ :=
  match sp.phase with
  | .opening made => sp.kept.length + (10 - made.length)
  | .forking _ => sp.kept.length + 7
  | .closing pending _ => sp.kept.length + pending.length + 1
  | .finished (.ok _) => sp.kept.length
  | .finished (.error _) => 0

theorem Spawn.exists_advance {sp : Spawn} (hsp : sp.Sound) (c : Caller) (pid : ℕ)
    (hphase : ∀ result, sp.phase ≠ .finished result) :
    ∃ c' sp' child, sp.advance (.ok pid) c = some (c', sp', child) ∧ sp'.left < sp.left := by
  obtain ⟨command, phase, kept⟩ := sp
  obtain ⟨-, hsound⟩ := hsp
  rcases phase with made | p | ⟨pending, result⟩ | result
  · have hlength : made.length < 3 := hsound.1
    rcases hpipe : c.table.pipe? c.nextPipe with _ | ⟨ends, t⟩
    · refine ⟨_, _, _, State.advance_opening_none hpipe, ?_⟩
      simp only [left, length_unwind]
      omega
    · refine ⟨_, _, _, State.advance_opening_some hpipe, ?_⟩
      match made, hlength with
      | [], _ => simp [left, next]
      | [_], _ => simp [left, next]
      | [_, _], _ => simp [left, next]
  · exact ⟨_, _, _, rfl, by simp [left]⟩
  · rcases pending with _ | ⟨d, pending⟩
    · refine ⟨_, _, _, rfl, ?_⟩
      rcases result with e | h <;> simp [left]
    · exact ⟨_, _, _, rfl, by simp [left]⟩
  · exact absurd rfl (hphase result)

namespace Ledger

variable {runnable : Command → Bool} {s₀ : State} {l l' m : Ledger} {a : Action} {acts : List Action}

/-- The program of a child of launch `i` that has the table `t` has its own ends in the three places. -/
def Connected (l : Ledger) (i : ℕ) (t : Table) : Prop :=
  ∃ k : Stream → ℕ, (∀ stream, l.owner (k stream) = some (i, stream)) ∧ Wired t k

/-- Only one end can be lost, and only in one place. -/
theorem Origin.connected_iff {i : ℕ} {p : Pipes} {k : Stream → ℕ} {t : Table} (h : l.Origin s₀ i p k t)
    (hbooks : l.Books s₀) {c : Child} (hcarries : c.Carries (Child.redirectAll t 0 p.childEnds))
    (hrunning : c.phase = .running) : l.Connected i c.table ↔ p.stderr.2 ≠ 1 := by
  unfold Child.Carries at hcarries
  rw [hrunning] at hcarries
  obtain ⟨t', hr, htable⟩ := hcarries
  have hlate : p.LateEnds ↔ p.stderr.2 ≠ 1 := by
    have hout : p.stdout.1 < p.stdout.2 := h.lt .stdout
    have herr : p.stderr.1 < p.stderr.2 := h.lt .stderr
    unfold Pipes.LateEnds
    omega
  rw [htable, ← hlate, ← h.holds.wired_exec_iff hr]
  constructor
  · rintro ⟨k', hk', hwired⟩
    have hk : k' = k := funext fun stream => hbooks.injective _ _ _ (hk' stream) (h.owner stream)
    rwa [← hk]
  · exact fun hwired => ⟨k, h.owner, hwired⟩

theorem Origin.stderr_ne_one {i : ℕ} {p : Pipes} {k : Stream → ℕ} {t : Table} (h : l.Origin s₀ i p k t)
    (hopen : s₀.caller.table.get 0 ≠ none ∨ s₀.caller.table.get 1 ≠ none) : p.stderr.2 ≠ 1 := by
  intro h1
  have hlt : p.stderr.1 < p.stderr.2 := h.lt .stderr
  have hr : s₀.caller.table.get p.stderr.1 = none := h.free .stderr .reader
  have hw : s₀.caller.table.get p.stderr.2 = none := h.free .stderr .writer
  rw [h1] at hw
  rw [show p.stderr.1 = 0 by omega] at hr
  exact hopen.elim (fun h0 => h0 hr) fun h1 => h1 hw

/-! ### Schedules -/

def Leads (runnable : Command → Bool) (l m : Ledger) : Prop := ∃ acts, l.run runnable acts = some m

theorem Leads.refl : l.Leads runnable l := ⟨[], rfl⟩

theorem Leads.trans (h : l.Leads runnable l') (h' : l'.Leads runnable m) : l.Leads runnable m := by
  obtain ⟨acts, hacts⟩ := h
  obtain ⟨acts', hacts'⟩ := h'
  refine ⟨acts ++ acts', ?_⟩
  rw [run, List.foldlM_append]
  exact Option.bind_eq_some_iff.2 ⟨l', hacts, hacts'⟩

theorem Leads.single (h : l.step runnable a = some l') : l.Leads runnable l' :=
  ⟨[a], by simp [run, h]⟩

theorem step_of_state {s : State} (h : l.toState.step runnable a = some s) : l.step runnable a = some (l.note a s) := by
  rw [step, h, Option.map_some]

theorem exists_begin (runnable : Command → Bool) {i : ℕ} (command : Command) (hi : l.spawns i = none) :
    ∃ m, l.Leads runnable m ∧ m.caller = l.caller ∧ m.spawns = l.spawns.set i (some (.begin command)) := by
  have hstep : l.toState.step runnable (.begin i command) =
      some { l.toState with spawns := l.spawns.set i (some (.begin command)) } := by
    rw [State.step, hi]
    rfl
  exact ⟨_, .single (step_of_state hstep), rfl, rfl⟩

theorem exists_advance (runnable : Command → Bool) {i : ℕ} {sp sp' : Spawn} {c' : Caller} {child : Option Pipes}
    (hsp : l.spawns i = some sp) (h : sp.advance (.ok l.nextPid) l.caller = some (c', sp', child)) :
    ∃ m, l.step runnable (.advance i) = some m ∧ m.caller = c' ∧ m.spawns = l.spawns.set i (some sp') := by
  have hstep : l.toState.step runnable (.advance i) = some (l.settle i (c', sp', child)) := by
    simp only [State.step, hsp, h, Option.bind_eq_bind, Option.bind_some, Option.pure_def]
  obtain ⟨hcaller, hspawns⟩ := settle_fields l.toState i c' sp' child
  exact ⟨_, step_of_state hstep, hcaller, hspawns⟩

theorem exists_made (runnable : Command → Bool) {i : ℕ} {command : Command} {made : List (ℕ × ℕ)} {kept : List Stream}
    {ends : ℕ × ℕ} {t : Table} (hsp : l.spawns i = some ⟨command, .opening made, kept⟩)
    (hpipe : l.caller.table.pipe? l.caller.nextPipe = some (ends, t)) :
    ∃ m, l.Leads runnable m ∧ m.caller.table = t ∧
      m.spawns = l.spawns.set i (some ⟨command, Spawn.next (made ++ [ends]), kept⟩) := by
  obtain ⟨m, hstep, hcaller, hspawns⟩ := exists_advance runnable hsp (State.advance_opening_some hpipe)
  exact ⟨m, .single hstep, by rw [hcaller], hspawns⟩

theorem exists_fork (runnable : Command → Bool) {i : ℕ} {command : Command} {p : Pipes} {kept : List Stream}
    (hsp : l.spawns i = some ⟨command, .forking p, kept⟩) :
    ∃ m, l.Leads runnable m ∧ m.children l.nextPid = some (.begin command l.caller.table l.signals p) ∧
      m.born l.nextPid = some (i, p) := by
  have hstep : l.toState.step runnable (.advance i) = some (l.settle i (l.caller,
      ⟨command, .closing [p.stderr.2, p.stdout.2, p.stdin.1]
        (.ok ⟨p.stdin.2, p.stdout.1, p.stderr.1, l.nextPid⟩), kept⟩, some p)) := by
    simp only [State.step, hsp, Option.bind_eq_bind, Option.bind_some, Option.pure_def, Spawn.advance]
  refine ⟨_, .single (step_of_state hstep), ?_, ?_⟩
  · simp [note, State.settle]
  · simp [note, hsp]

theorem exists_goes {pid : ℕ} {c c' : Child} (hc : l.children pid = some c) (hgoes : Child.Goes runnable c c') :
    ∃ m, l.Leads runnable m ∧ m.children pid = some c' ∧ m.born = l.born := by
  induction hgoes with
  | refl => exact ⟨l, .refl, hc, rfl⟩
  | @tail c₁ c₂ _ hstep ih =>
    obtain ⟨m, hleads, hm, hborn⟩ := ih
    have hadvance : c₁.advance runnable = some c₂ := hstep
    have hchild : m.toState.step runnable (.child pid) =
        some { m.toState with children := m.children.set pid (some c₂) } := by
      simp only [State.step, hm, hadvance, Option.bind_eq_bind, Option.bind_some, Option.pure_def]
    exact ⟨_, hleads.trans (.single (step_of_state hchild)), by simp [note], hborn⟩

theorem exists_drop (runnable : Command → Bool) {i : ℕ} {command : Command} {handles : Handles} {kept : List Stream}
    {stream : Stream} (hsp : l.spawns i = some ⟨command, .finished (.ok handles), kept⟩) (hmem : stream ∈ kept) :
    ∃ m, l.step runnable (.drop i stream) = some m ∧
      m.spawns = l.spawns.set i (some ⟨command, .finished (.ok handles), kept.erase stream⟩) := by
  have hstep : l.toState.step runnable (.drop i stream) = some { l.toState with
      caller := { l.caller with table := l.caller.table.close (handles.get stream) }
      spawns := l.spawns.set i (some ⟨command, .finished (.ok handles), kept.erase stream⟩) } := by
    simp only [State.step, hsp, Option.bind_eq_bind, Option.bind_some, Option.pure_def, if_pos hmem]
  exact ⟨_, step_of_state hstep, rfl⟩

theorem exists_settled (runnable : Command → Bool) {i : ℕ} {sp : Spawn} (hl : l.Sound) (hsp : l.spawns i = some sp) :
    ∃ m, l.Leads runnable m ∧ (∀ stream side, m.held i stream side = none) ∧ ∀ j, j ≠ i → m.spawns j = l.spawns j := by
  induction hleft : sp.left using Nat.strong_induction_on generalizing l sp with
  | _ left ih =>
    -- one step of the launch, and the rest by induction
    have hnext : ∀ a m sp', l.step runnable a = some m → m.spawns = l.spawns.set i (some sp') → sp'.left < left →
        ∃ m', l.Leads runnable m' ∧ (∀ stream side, m'.held i stream side = none) ∧
          ∀ j, j ≠ i → m'.spawns j = l.spawns j := by
      intro a m sp' hstep hspawns hlt
      have hsp' : m.spawns i = some sp' := by rw [hspawns, Family.set_self]
      obtain ⟨m', hleads, hheld, hother⟩ := ih _ hlt (hl.step hstep).2 hsp' rfl
      refine ⟨m', (Leads.single hstep).trans hleads, hheld, fun j hj => ?_⟩
      rw [hother j hj, hspawns, Family.set_of_ne _ hj]
    by_cases hphase : ∀ result, sp.phase ≠ .finished result
    · obtain ⟨c', sp', child, hadvance, hlt⟩ := Spawn.exists_advance (hl i sp hsp) l.caller l.nextPid hphase
      obtain ⟨m, hstep, -, hspawns⟩ := exists_advance runnable hsp hadvance
      exact hnext _ m sp' hstep hspawns (hleft ▸ hlt)
    · simp only [ne_eq, not_forall, not_not] at hphase
      obtain ⟨result, hphase⟩ := hphase
      obtain ⟨command, phase, kept⟩ := sp
      cases hphase
      have hdone : (∀ stream side, l.held i stream side = none) →
          ∃ m', l.Leads runnable m' ∧ (∀ stream side, m'.held i stream side = none) ∧
            ∀ j, j ≠ i → m'.spawns j = l.spawns j := fun hheld => ⟨l, .refl, hheld, fun j _ => rfl⟩
      rcases result with e | handles
      · exact hdone fun stream side => by rw [State.held, hsp]; rfl
      · rcases kept with _ | ⟨stream, kept⟩
        · exact hdone fun stream side => held_of_dropped hsp rfl List.not_mem_nil side
        · obtain ⟨m, hstep, hspawns⟩ := exists_drop runnable hsp List.mem_cons_self
          refine hnext _ m _ hstep hspawns ?_
          rw [← hleft]
          simp [Spawn.left]

theorem exists_blocked (runnable : Command → Bool) (h₀ : s₀.Fresh) (h0 : s₀.caller.table.get 0 = none)
    (h1 : s₀.caller.table.get 1 = none) (hroom : 6 ≤ s₀.caller.table.freeCount) {command : Command}
    (hnul : ¬ command.HasNul) :
    ∃ m a b kept, (start s₀).Leads runnable m ∧ m.spawns 2 = some ⟨command, .opening [a, b], kept⟩ ∧
      (∃ sp, m.spawns 1 = some sp) ∧ m.held 1 .stdin .reader = some 0 ∧ m.held 1 .stdin .writer = some 1 := by
  have hlimit := hroom.trans s₀.caller.table.freeCount_le_limit
  have hstart : ∀ i, (start s₀).spawns i = none := h₀.spawns
  have hbegin := Spawn.begin_of_not_hasNul hnul
  obtain ⟨l₁, hl₁, hcaller₁, hspawns₁⟩ := exists_begin runnable command (hstart 1)
  have hnone₁ : l₁.spawns 2 = none := by rw [hspawns₁, Family.set_of_ne _ (by decide), hstart]
  obtain ⟨l₂, hl₂, hcaller₂, hspawns₂⟩ := exists_begin runnable command hnone₁
  have hcaller : l₂.caller = s₀.caller := hcaller₂.trans hcaller₁
  obtain ⟨t₃, ht₃⟩ := Table.exists_pipe?_of_free l₂.caller.nextPipe h0 h1 (by omega)
  rw [← hcaller] at ht₃
  have hfirst₂ : l₂.spawns 1 = some ⟨command, .opening [], [.stdin, .stdout, .stderr]⟩ := by
    rw [hspawns₂, Family.set_of_ne _ (by decide), hspawns₁, Family.set_self, hbegin]
  obtain ⟨l₃, hl₃, htable₃, hspawns₃⟩ := exists_made runnable hfirst₂ ht₃
  have hcount₃ := Table.freeCount_of_pipe? ht₃
  rw [hcaller] at hcount₃
  have hsecond₃ : l₃.spawns 2 = some ⟨command, .opening [], [.stdin, .stdout, .stderr]⟩ := by
    rw [hspawns₃, Family.set_of_ne _ (by decide), hspawns₂, Family.set_self, hbegin]
  obtain ⟨a, t₄, ht₄⟩ := l₃.caller.table.exists_pipe? l₃.caller.nextPipe (by rw [htable₃]; omega)
  obtain ⟨l₄, hl₄, htable₄, hspawns₄⟩ := exists_made runnable hsecond₃ ht₄
  have hcount₄ := Table.freeCount_of_pipe? ht₄
  rw [htable₃] at hcount₄
  have hsecond₄ : l₄.spawns 2 = some ⟨command, .opening [a], [.stdin, .stdout, .stderr]⟩ := by
    rw [hspawns₄, Family.set_self]
    rfl
  obtain ⟨b, t₅, ht₅⟩ := l₄.caller.table.exists_pipe? l₄.caller.nextPipe (by rw [htable₄]; omega)
  obtain ⟨l₅, hl₅, -, hspawns₅⟩ := exists_made runnable hsecond₄ ht₅
  have hfirst₅ : l₅.spawns 1 = some ⟨command, .opening [(0, 1)], [.stdin, .stdout, .stderr]⟩ := by
    rw [hspawns₅, Family.set_of_ne _ (by decide), hspawns₄, Family.set_of_ne _ (by decide), hspawns₃, Family.set_self]
    rfl
  refine ⟨l₅, a, b, [.stdin, .stdout, .stderr], (((hl₁.trans hl₂).trans hl₃).trans hl₄).trans hl₅, ?_, ⟨_, hfirst₅⟩,
    ?_, ?_⟩
  · rw [hspawns₅, Family.set_self]
    rfl
  · rw [State.held, hfirst₅]
    rfl
  · rw [State.held, hfirst₅]
    rfl

/-- A caller without 0 and 1 can be led to start a child whose standard error is lost. -/
theorem exists_crossed (h₀ : s₀.Fresh) (h0 : s₀.caller.table.get 0 = none) (h1 : s₀.caller.table.get 1 = none)
    (hroom : 6 ≤ s₀.caller.table.freeCount) {command : Command} (hrun : runnable command = true)
    (hnul : ¬ command.HasNul) :
    ∃ m pid c i p, (start s₀).Leads runnable m ∧ m.children pid = some c ∧ c.phase = .running ∧
      m.born pid = some (i, p) ∧ p.stderr.2 = 1 := by
  have hlimit : 6 ≤ s₀.caller.table.limit := hroom.trans s₀.caller.table.freeCount_le_limit
  obtain ⟨l₁, a, b, kept, hl₁, hsecond, ⟨sp, hfirst⟩, hreader, hwriter⟩ :=
    exists_blocked runnable h₀ h0 h1 hroom hnul
  obtain ⟨hsound₁, hbooks₁, -⟩ := run_spec h₀ hl₁.choose_spec
  obtain ⟨l₂, hl₂, hheld, hother⟩ := exists_settled runnable hsound₁ hfirst
  obtain ⟨-, hbooks₂, -⟩ := run_spec h₀ (hl₁.trans hl₂).choose_spec
  -- what the second launch has is not at 0 or 1, and there is nobody else
  have hfree : ∀ d, s₀.caller.table.get d = none → (∃ side, l₁.held 1 .stdin side = some d) →
      l₂.caller.table.get d = none := by
    rintro d hd ⟨side, hblocked⟩
    by_contra hne
    obtain ⟨e, he⟩ := Option.ne_none_iff_exists'.1 hne
    rcases (hbooks₂.entries d e).1 he with he | ⟨j, stream, side', n, hj, -⟩
    · rw [hd] at he
      cases he
    · by_cases hj1 : j = 1
      · rw [hj1, hheld] at hj
        cases hj
      · rw [State.held, hother j hj1] at hj
        obtain ⟨rfl, -⟩ := hbooks₁.held_inj hblocked hj
        exact hj1 rfl
  obtain ⟨t, ht⟩ := Table.exists_pipe?_of_free l₂.caller.nextPipe (hfree 0 h0 ⟨_, hreader⟩) (hfree 1 h1 ⟨_, hwriter⟩)
    (by rw [hbooks₂.limit]; omega)
  have hsecond₂ : l₂.spawns 2 = some ⟨command, .opening [a, b], kept⟩ := by rw [hother 2 (by decide), hsecond]
  obtain ⟨l₃, hl₃, -, hspawns₃⟩ := exists_made runnable hsecond₂ ht
  have hforking : l₃.spawns 2 = some ⟨command, .forking ⟨a, b, (0, 1)⟩, kept⟩ := by rw [hspawns₃, Family.set_self]; rfl
  have hreach := (hl₁.trans hl₂).trans hl₃
  obtain ⟨hsound₃, hbooks₃, -⟩ := run_spec h₀ hreach.choose_spec
  obtain ⟨k, horigin⟩ := hbooks₃.exists_origin h₀ hsound₃ hforking
  obtain ⟨l₄, hl₄, hchild, hborn⟩ := exists_fork runnable hforking
  obtain ⟨t', ht'⟩ := Child.exists_redirectAll horigin.holds.childEnds_open
    (show 0 + 3 ≤ l₃.caller.table.limit by rw [hbooks₃.limit]; omega)
  obtain ⟨c, hgoes, hrunning⟩ := Child.exists_running l₃.signals command hrun _ ht'
  obtain ⟨l₅, hl₅, hc, hborn₅⟩ := exists_goes hchild hgoes
  exact ⟨l₅, _, c, 2, _, (hreach.trans hl₄).trans hl₅, hc, hrunning, hborn₅ ▸ hborn, rfl⟩

theorem exists_connected_iff (h₀ : s₀.Fresh) (hl : (start s₀).run runnable acts = some l) {pid : ℕ} {c : Child}
    (hc : l.children pid = some c) (hrunning : c.phase = .running) :
    ∃ i p, l.born pid = some (i, p) ∧ (l.Connected i c.table ↔ p.stderr.2 ≠ 1) ∧
      (s₀.caller.table.get 0 ≠ none ∨ s₀.caller.table.get 1 ≠ none → p.stderr.2 ≠ 1) := by
  obtain ⟨-, hbooks, hoffspring⟩ := run_spec h₀ hl
  obtain ⟨i, p, k, t, hborn, horigin, hcarries⟩ := hoffspring pid c hc
  exact ⟨i, p, hborn, horigin.connected_iff hbooks hcarries hrunning, horigin.stderr_ne_one⟩

/-- Whether a program gets its own ends is a matter of where the third pipe was: the child's end of it must not be
at 1. A caller that has 0 or 1 open from the start never sees it there, whatever its launches do at the same time;
a caller that has neither can see it there, if it can launch at all. -/
theorem run_connected (runnable : Command → Bool) (h₀ : s₀.Fresh) :
    (∀ acts l pid c, (start s₀).run runnable acts = some l → l.children pid = some c → c.phase = .running →
      ∃ i p, l.born pid = some (i, p) ∧ (l.Connected i c.table ↔ p.stderr.2 ≠ 1)) ∧
    ((s₀.caller.table.get 0 ≠ none ∨ s₀.caller.table.get 1 ≠ none) →
      ∀ acts l pid c, (start s₀).run runnable acts = some l → l.children pid = some c → c.phase = .running →
        ∃ i p, l.born pid = some (i, p) ∧ l.Connected i c.table) ∧
    (s₀.caller.table.get 0 = none → s₀.caller.table.get 1 = none → 6 ≤ s₀.caller.table.freeCount →
      (∃ command, runnable command = true ∧ ¬ command.HasNul) →
      ∃ acts l pid c i p, (start s₀).run runnable acts = some l ∧ l.children pid = some c ∧ c.phase = .running ∧
        l.born pid = some (i, p) ∧ ¬ l.Connected i c.table) := by
  refine ⟨?_, ?_, ?_⟩
  · intro acts l pid c hl hc hrunning
    obtain ⟨i, p, hborn, hiff, -⟩ := exists_connected_iff h₀ hl hc hrunning
    exact ⟨i, p, hborn, hiff⟩
  · intro hopen acts l pid c hl hc hrunning
    obtain ⟨i, p, hborn, hiff, hne⟩ := exists_connected_iff h₀ hl hc hrunning
    exact ⟨i, p, hborn, hiff.2 (hne hopen)⟩
  · rintro h0 h1 hroom ⟨command, hrun, hnul⟩
    obtain ⟨l, pid, c, i, p, ⟨acts, hl⟩, hc, hrunning, hborn, hstderr⟩ := exists_crossed h₀ h0 h1 hroom hrun hnul
    obtain ⟨i', p', hborn', hiff, -⟩ := exists_connected_iff h₀ hl hc hrunning
    rw [hborn] at hborn'
    cases hborn'
    exact ⟨acts, l, pid, c, i, p, hl, hc, hrunning, hborn, fun hconnected => hiff.1 hconnected hstderr⟩

/-- Descriptor 1 or 2 open at the start leaves no room at 1 for an end; with neither 0 nor 1 open there is. -/
theorem run_connected_ends :
    let s₀ (d : ℕ) : State :=
      ⟨⟨(Table.empty 8).set d (some ⟨.other 0, false⟩), 0⟩, ⟨[], []⟩, Family.empty, Family.empty, 7⟩
    (∀ acts l pid c, (start (s₀ 1)).run (fun _ => true) acts = some l → l.children pid = some c → c.phase = .running →
      ∃ i p, l.born pid = some (i, p) ∧ l.Connected i c.table) ∧
    ∃ acts l pid c i p, (start (s₀ 2)).run (fun _ => true) acts = some l ∧ l.children pid = some c ∧
      c.phase = .running ∧ l.born pid = some (i, p) ∧ ¬ l.Connected i c.table := by
  intro s₀
  have h₀ : ∀ d, (s₀ d).Fresh := by
    intro d
    refine ⟨fun i => rfl, fun pid => rfl, ?_⟩
    rintro d' e n side he hf
    obtain ⟨-, he⟩ := Option.ite_none_right_eq_some.1 he
    cases he
    cases hf
  obtain ⟨-, hsafe, -⟩ := run_connected (fun _ => true) (h₀ 1)
  obtain ⟨-, -, hcrossed⟩ := run_connected (fun _ => true) (h₀ 2)
  exact ⟨hsafe (.inr (by decide)), hcrossed rfl rfl (by decide) ⟨⟨[97], [[97]]⟩, rfl, by decide⟩⟩

/-- A launch that ends between the second and the third pipe of another: the child of the other has its standard
output twice. -/
theorem stderr_crossed :
    let s₀ : State := ⟨⟨Table.empty 16, 0⟩, ⟨[], []⟩, Family.empty, Family.empty, 7⟩
    let acts : List Action :=
      [.begin 1 ⟨[97], [[97]]⟩, .begin 2 ⟨[97], [[97]]⟩, .advance 1, .advance 2, .advance 2, .advance 1, .advance 1,
        .advance 1, .advance 1, .advance 1, .advance 1, .advance 1, .drop 1 .stdin, .advance 2, .advance 2, .child 8,
        .child 8, .child 8, .child 8, .child 8, .child 8]
    s₀.Fresh ∧ ∃ l c, (start s₀).run (fun _ => true) acts = some l ∧ l.children 8 = some c ∧ c.phase = .running ∧
      l.born 8 = some (2, ⟨(2, 3), (4, 5), (0, 1)⟩) ∧ c.table.get 1 = some ⟨.pipe ⟨2, .writer⟩, false⟩ ∧
      c.table.get 2 = some ⟨.pipe ⟨2, .writer⟩, false⟩ ∧ l.owner 2 = some (2, .stdout) ∧ ¬ l.Connected 2 c.table := by
  intro s₀ acts
  refine ⟨⟨fun i => rfl, fun pid => rfl, ?_⟩, ?_⟩
  · rintro d e n side ⟨⟩
  have hrun : ∃ l c, (start s₀).run (fun _ => true) acts = some l ∧ l.children 8 = some c ∧ c.phase = .running ∧
      l.born 8 = some (2, ⟨(2, 3), (4, 5), (0, 1)⟩) ∧ c.table.get 1 = some ⟨.pipe ⟨2, .writer⟩, false⟩ ∧
      c.table.get 2 = some ⟨.pipe ⟨2, .writer⟩, false⟩ ∧ l.owner 2 = some (2, .stdout) :=
    ⟨_, _, rfl, rfl, rfl, rfl, rfl, rfl, rfl⟩
  obtain ⟨l, c, hl, hc, hrunning, hborn, hout, herr, howner⟩ := hrun
  refine ⟨l, c, hl, hc, hrunning, hborn, hout, herr, howner, ?_⟩
  rintro ⟨k, hk, -, -, hfile⟩
  rw [herr] at hfile
  simp only [Option.map_some, Option.some.injEq, File.pipe.injEq, PipeEnd.mk.injEq, and_true] at hfile
  have hstderr := hk .stderr
  rw [← hfile, howner] at hstderr
  cases hstderr

end Ledger

end Launch

end Groundwork
