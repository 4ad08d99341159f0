import Groundwork.Proofs.Waiting.Moves
import Groundwork.Proofs.Waiting.Reaping

/-!
# What a call has done

Where a call stands tells what it has done on the way there: how often it has asked the system without blocking, and
at what time it has read the clock for its deadline (`Course`). What a call has done is read off the actions of a
run that are its own, with the states before them (`State.Advances`).
-/

namespace Groundwork

namespace Waiting

def Call.Valid (c : Call) : Prop := 0 < c.pid ∧ c.pid ≤ greatestPid

def Phase.deadline? : Phase → Option ℕ
  | .watching deadline | .engaging deadline | .registering deadline _ | .locking deadline _
  | .inspecting deadline _ | .deciding deadline _ | .retiring deadline _ _ | .sleeping deadline _ _ => some deadline
  | _ => none

def Phase.polls : Phase → Bool
  | .polling | .reaping => true
  | _ => false

/-- Where a call without a time limit can be. -/
def Phase.ofUnlimited : Phase → Bool
  | .starting | .blocking | .blocked _ | .finished _ => true
  | _ => false

/-- Where a call with no time at all can be. -/
def Phase.ofHurried : Phase → Bool
  | .starting | .polling | .finished _ => true
  | _ => false

namespace State

/-- After the part `before` of the run, the call takes a step from the state `u`, where it is `c`. -/
structure Advances (s₀ : State) (acts : List Action) (i : ℕ) (before : List Action) (u : State) (c : Call) : Prop where
  part : before ++ [.advance i] <+: acts
  run : s₀.follow before = some u
  call : u.calls i = some c

/-- The step of the call after `before` asks the system without blocking. -/
def Polls (s₀ : State) (acts : List Action) (i : ℕ) (before : List Action) : Prop :=
  ∃ u c, s₀.Advances acts i before u c ∧ c.phase.polls = true

/-- The call has read the clock, and found that its limit is over at the deadline. -/
def Due (s₀ : State) (acts : List Action) (i : ℕ) (limit : Timeout) (deadline : ℕ) : Prop :=
  ∃ d before u c, limit = some d ∧ s₀.Advances acts i before u c ∧ c.phase = .timing ∧ deadline = u.now + d

/-- The call has read the clock again, and found that its deadline has come. -/
def Expires (s₀ : State) (acts : List Action) (i : ℕ) (limit : Timeout) : Prop :=
  ∃ before u c deadline m, s₀.Advances acts i before u c ∧ c.phase = .deciding deadline m ∧ deadline ≤ u.now ∧
    s₀.Due before i limit deadline

/-- The call has read the clock, and found that its limit, if it has one, is over when no time can be told. -/
def Endless (s₀ : State) (acts : List Action) (i : ℕ) (limit : Timeout) : Prop :=
  ∃ before u c, s₀.Advances acts i before u c ∧ c.phase = .timing ∧ ∀ d, limit = some d → timeBound ≤ u.now + d

/-- The call was told the end of the child, and has asked for the status. -/
def Returns (s₀ : State) (acts : List Action) (i : ℕ) : Prop :=
  ∃ before u c, s₀.Advances acts i before u c ∧ c.phase = .reaping

/-- The outcome is that of the one status that the call has taken, or the call has taken none. -/
def Answers (s₀ : State) (acts : List Action) (i pid : ℕ) (o : Outcome) : Prop :=
  (o = .timedOut ∨ ∃ e, o = .failed e) ∧ (∀ q x, ¬ s₀.Takes acts q (.advance i) x) ∨
    ∃ k status, o = .ofStatus status ∧
      ∀ q x, s₀.Takes acts q (.advance i) x ↔ q = pid ∧ x = ⟨k, some status⟩

/-- What call `i` has done in the run `acts` if it is `c` now. -/
structure Course (s₀ : State) (acts : List Action) (i : ℕ) (c : Call) : Prop where
  valid : c.phase = .starting ∨ c.Valid ∨ c.phase = .finished (.failed .invalidArgument)
  unlimited : c.limit = none → c.phase.ofUnlimited = true ∧ ∀ before, ¬ s₀.Polls acts i before
  hurried : c.limit = some 0 → c.phase.ofHurried = true
  fresh : c.phase = .starting ∨ c.phase = .polling → ∀ before, ¬ s₀.Polls acts i before
  once : c.limit = some 0 → c.Valid → ∀ o, c.phase = .finished o → ∃! before, s₀.Polls acts i before
  due : ∀ deadline, c.phase.deadline? = some deadline → s₀.Due acts i c.limit deadline
  late : c.phase = .finished .timedOut → c.limit = some 0 ∨ s₀.Expires acts i c.limit
  blocks : c.phase = .blocking ∨ (∃ k, c.phase = .blocked k) →
    c.limit = none ∨ s₀.Endless acts i c.limit ∨ s₀.Returns acts i
  untaken : (∀ o, c.phase ≠ .finished o) → ∀ pid x, ¬ s₀.Takes acts pid (.advance i) x
  answer : ∀ o, c.phase = .finished o → s₀.Answers acts i c.pid o

variable {s s₀ t u : State} {a : Action} {acts before : List Action} {i j m n : ℕ} {c d : Call} {p : Phase}
  {limit : Timeout} {deadline : ℕ} {x x' : Monitor}

/-- What a step makes of a call: it stays where it is, takes a step of its own, or is woken. -/
theorem call_cases (hc : s.calls i = some c) (hstep : s.step a = some t) :
    t.calls i = some c ∨ (∃ p, s.CallStep a i c p t ∧ t.calls i = some { c with phase := p }) ∨
      ∃ deadline m wake, c.phase = .sleeping deadline m wake ∧
        t.calls i = some { c with phase := .locking deadline m } := by
  rcases step_cases hstep with ⟨j, d, p, hd, hcall⟩ | ⟨m, x, x', -, hmonitor⟩ | helse
  · by_cases hij : i = j
    · subst hij
      obtain rfl := Option.some.inj (hc.symm.trans hd)
      exact .inr (.inl ⟨p, hcall, by rw [hcall.calls, Family.set_self]⟩)
    · exact .inl (by rw [hcall.calls, Family.set_of_ne _ hij, hc])
  · rcases hmonitor.calls with hcalls | hcalls
    · exact .inl (by rw [hcalls, hc])
    · rcases roused_cases m c with hsame | ⟨deadline, wake, hphase, hmoved⟩
      · exact .inl (by simp only [hcalls, hc, Option.map_some, hsame])
      · exact .inr (.inr ⟨deadline, m, wake, hphase, by simp only [hcalls, hc, Option.map_some, hmoved]⟩)
  · cases helse with
    | launch | terminate | tick => exact .inl hc
    | @begin j pid limit free =>
      have hij : i ≠ j := by
        rintro rfl
        cases hc.symm.trans free
      exact .inl ((Family.set_of_ne _ hij _).trans hc)

/-! ### One more action -/

theorem Advances.concat (h : s₀.Advances acts i before u c) (a : Action) : s₀.Advances (acts ++ [a]) i before u c :=
  ⟨h.part.trans (List.prefix_append _ _), h.run, h.call⟩

theorem Advances.last (hrun : s₀.follow acts = some s) (hc : s.calls i = some c) :
    s₀.Advances (acts ++ [.advance i]) i acts s c :=
  ⟨List.prefix_rfl, hrun, hc⟩

theorem Due.concat (h : s₀.Due acts i limit deadline) (a : Action) : s₀.Due (acts ++ [a]) i limit deadline := by
  obtain ⟨d, before, u, c, hlimit, hadvances, h⟩ := h
  exact ⟨d, before, u, c, hlimit, hadvances.concat a, h⟩

theorem Expires.concat (h : s₀.Expires acts i limit) (a : Action) : s₀.Expires (acts ++ [a]) i limit := by
  obtain ⟨before, u, c, deadline, m, hadvances, h⟩ := h
  exact ⟨before, u, c, deadline, m, hadvances.concat a, h⟩

theorem Endless.concat (h : s₀.Endless acts i limit) (a : Action) : s₀.Endless (acts ++ [a]) i limit := by
  obtain ⟨before, u, c, hadvances, h⟩ := h
  exact ⟨before, u, c, hadvances.concat a, h⟩

theorem Returns.concat (h : s₀.Returns acts i) (a : Action) : s₀.Returns (acts ++ [a]) i := by
  obtain ⟨before, u, c, hadvances, h⟩ := h
  exact ⟨before, u, c, hadvances.concat a, h⟩

theorem advances_concat_iff (hrun : s₀.follow acts = some s) : s₀.Advances (acts ++ [a]) i before u c ↔
    s₀.Advances acts i before u c ∨ a = .advance i ∧ before = acts ∧ u = s ∧ s.calls i = some c := by
  constructor
  · rintro ⟨hpart, hu, hc⟩
    rcases List.prefix_concat_iff.1 hpart with heq | hpart
    · obtain ⟨rfl, ha⟩ := List.append_inj' heq rfl
      obtain rfl := Option.some.inj (hu.symm.trans hrun)
      exact .inr ⟨(List.singleton_inj.1 ha).symm, rfl, rfl, hc⟩
    · exact .inl ⟨hpart, hu, hc⟩
  · rintro (hadvances | ⟨rfl, rfl, rfl, hc⟩)
    · exact hadvances.concat a
    · exact .last hrun hc

theorem advances_concat_iff_of_ne (ha : a ≠ .advance i) :
    s₀.Advances (acts ++ [a]) i before u c ↔ s₀.Advances acts i before u c := by
  refine ⟨fun ⟨hpart, hu, hc⟩ => ?_, (·.concat a)⟩
  rcases List.prefix_concat_iff.1 hpart with heq | hpart
  · obtain ⟨-, hlast⟩ := List.append_inj' heq rfl
    exact absurd (List.singleton_inj.1 hlast).symm ha
  · exact ⟨hpart, hu, hc⟩

theorem polls_concat_iff (hrun : s₀.follow acts = some s) : s₀.Polls (acts ++ [a]) i before ↔
    s₀.Polls acts i before ∨ a = .advance i ∧ before = acts ∧ ∃ c, s.calls i = some c ∧ c.phase.polls = true := by
  unfold Polls
  simp only [advances_concat_iff hrun]
  constructor
  · rintro ⟨u, c, hadvances | ⟨ha, hbefore, -, hc⟩, hpolls⟩
    · exact .inl ⟨u, c, hadvances, hpolls⟩
    · exact .inr ⟨ha, hbefore, c, hc, hpolls⟩
  · rintro (⟨u, c, hadvances, hpolls⟩ | ⟨ha, hbefore, c, hc, hpolls⟩)
    · exact ⟨u, c, .inl hadvances, hpolls⟩
    · exact ⟨s, c, .inr ⟨ha, hbefore, rfl, hc⟩, hpolls⟩

theorem polls_concat_iff_of_ne (ha : a ≠ .advance i) : s₀.Polls (acts ++ [a]) i before ↔ s₀.Polls acts i before := by
  simp only [Polls, advances_concat_iff_of_ne ha]

theorem Advances.of_takes {pid : ℕ} {y : Child} (h : s₀.Takes acts pid (.advance i) y) :
    ∃ before u c, s₀.Advances acts i before u c := by
  obtain ⟨before, u, t, hpart, hu, hstep, -⟩ := h
  obtain ⟨c, hc, -⟩ := Option.bind_eq_some_iff.1 hstep
  exact ⟨before, u, c, hpart, hu, hc⟩

theorem not_polls_concat (hrun : s₀.follow acts = some s) (hc : s.calls i = some c) (hphase : c.phase.polls = false)
    (hbefore : ¬ s₀.Polls acts i before) : ¬ s₀.Polls (acts ++ [a]) i before := by
  rw [polls_concat_iff hrun]
  rintro (hpolls | ⟨-, -, d, hd, hpolls⟩)
  · exact hbefore hpolls
  · obtain rfl := Option.some.inj (hc.symm.trans hd)
    cases hphase.symm.trans hpolls

theorem existsUnique_polls_concat (hrun : s₀.follow acts = some s) (hc : s.calls i = some c)
    (hphase : c.phase.polls = true) (hfresh : ∀ before, ¬ s₀.Polls acts i before) :
    ∃! before, s₀.Polls (acts ++ [.advance i]) i before := by
  refine ⟨acts, (polls_concat_iff hrun).2 (.inr ⟨rfl, rfl, c, hc, hphase⟩), fun before hpolls => ?_⟩
  rcases (polls_concat_iff hrun).1 hpolls with hpolls | ⟨-, hlast, -⟩
  · exact absurd hpolls (hfresh before)
  · exact hlast

namespace Course

theorem valid_of_ne (h : s₀.Course acts i c) (hstarting : c.phase ≠ .starting)
    (hinvalid : c.phase ≠ .finished (.failed .invalidArgument)) : c.Valid := by
  rcases h.valid with hphase | hvalid | hphase
  · exact absurd hphase hstarting
  · exact hvalid
  · exact absurd hphase hinvalid

theorem concat (h : s₀.Course acts i c) (ha : a ≠ .advance i) : s₀.Course (acts ++ [a]) i c where
  valid := h.valid
  unlimited hlimit := ⟨(h.unlimited hlimit).1, fun before => by
    rw [polls_concat_iff_of_ne ha]
    exact (h.unlimited hlimit).2 before⟩
  hurried := h.hurried
  fresh hphase before := by
    rw [polls_concat_iff_of_ne ha]
    exact h.fresh hphase before
  once hlimit hvalid o ho := by
    simp only [polls_concat_iff_of_ne ha]
    exact h.once hlimit hvalid o ho
  due deadline hphase := (h.due deadline hphase).concat a
  late hphase := (h.late hphase).imp_right (·.concat a)
  blocks hphase := (h.blocks hphase).imp_right (Or.imp (·.concat a) (·.concat a))
  untaken hphase pid x := by
    rw [takes_concat_iff_of_ne ha.symm]
    exact h.untaken hphase pid x
  answer o ho := by
    simp only [Answers, takes_concat_iff_of_ne ha.symm]
    exact h.answer o ho

theorem rouse (h : s₀.Course acts i c) (m : ℕ) : s₀.Course acts i (roused m c) := by
  rcases roused_cases m c with hsame | ⟨deadline, wake, hphase, hmoved⟩
  · rwa [hsame]
  · rw [hmoved]
    have hvalid : c.Valid := h.valid_of_ne (by simp [hphase]) (by simp [hphase])
    refine ⟨.inr (.inl hvalid), fun hlimit => ?_, fun hlimit => ?_, nofun, nofun, fun deadline' hdeadline => ?_, nofun,
      nofun, fun _ => h.untaken (by simp [hphase]), nofun⟩
    · have hunlimited := (h.unlimited hlimit).1
      rw [hphase] at hunlimited
      cases hunlimited
    · have hhurried := h.hurried hlimit
      rw [hphase] at hhurried
      cases hhurried
    · exact h.due deadline' (by rw [hphase]; exact hdeadline)

section

variable (h : s₀.Course acts i c) (hcall : s.CallStep a i c p t)
include h hcall

theorem step_valid : c.Valid ∨ p = .finished (.failed .invalidArgument) := by
  have hnumber : ¬ (c.pid = 0 ∨ greatestPid < c.pid) → c.Valid := fun hpid => by
    unfold Call.Valid
    omega
  rcases h.valid with hphase | hvalid | hphase
  · cases hcall.moves <;> simp_all [Phase.asks]
  · exact .inl hvalid
  · cases hcall.moves <;> simp_all [Phase.asks]

theorem step_unlimited (hlimit : c.limit = none) : p.ofUnlimited = true := by
  have hphase := (h.unlimited hlimit).1
  cases hcall.moves <;> simp_all [Phase.ofUnlimited]

theorem step_hurried (hlimit : c.limit = some 0) : p.ofHurried = true := by
  have hphase := h.hurried hlimit
  cases hcall.moves <;> simp_all [Phase.ofHurried]

section

variable (hrun : s₀.follow acts = some s) (hstep : s.step a = some t)
include hrun hstep

theorem step_untaken (hchildren : t.children = s.children) (pid : ℕ) (x : Child) :
    ¬ s₀.Takes (acts ++ [a]) pid (.advance i) x := by
  rw [takes_concat_iff hrun hstep, hchildren]
  rintro (htakes | ⟨-, hsome, hnone⟩)
  · exact h.untaken hcall.unfinished pid x htakes
  · cases hnone.symm.trans hsome

theorem step_answer {o : Outcome} (ho : p = .finished o) : s₀.Answers (acts ++ [a]) i c.pid o := by
  rcases hcall.children with hchildren | ⟨k, status, rfl, hchild, hp, hchildren⟩
  · refine .inl ⟨?_, h.step_untaken hcall hrun hstep hchildren⟩
    have hmoves := hcall.moves
    subst ho
    generalize hq : Phase.finished o = q at hmoves
    cases hmoves with
    | invalid | gone | lost | fails => cases hq; exact .inr ⟨_, rfl⟩
    | expires | late => cases hq; exact .inl rfl
    | takes _ child taken =>
      rw [hchildren] at taken
      rw [taken, Family.set_self] at child
      cases child
    | _ => cases hq
  · obtain rfl := Phase.finished.inj (ho.symm.trans hp)
    refine .inr ⟨k, status, rfl, fun q x => ?_⟩
    rw [takes_concat_iff hrun hstep, hchildren]
    constructor
    · rintro (htakes | ⟨-, hsome, hnone⟩)
      · exact absurd htakes (h.untaken hcall.unfinished q x)
      · have hq : q = c.pid := by
          by_contra hne
          rw [Family.set_of_ne _ hne] at hnone
          cases hnone.symm.trans hsome
        subst hq
        exact ⟨rfl, (Option.some.inj (hchild.symm.trans hsome)).symm⟩
    · rintro ⟨rfl, rfl⟩
      exact .inr ⟨rfl, hchild, Family.set_self ..⟩

end

variable (hrun : s₀.follow acts = some s) (hc : s.calls i = some c)
include hrun hc

theorem step_fresh (hp : p = .starting ∨ p = .polling) : ¬ s₀.Polls (acts ++ [a]) i before := by
  have hphase : c.phase = .starting := by
    cases hcall.moves <;> simp_all
  exact not_polls_concat hrun hc (by rw [hphase]; rfl) (h.fresh (.inl hphase) before)

theorem step_once (hlimit : c.limit = some 0) (hvalid : c.Valid) {o : Outcome} (ho : p = .finished o) :
    ∃! before, s₀.Polls (acts ++ [a]) i before := by
  have hpolling : a = .advance i ∧ c.phase = .polling := by
    have hphase := h.hurried hlimit
    unfold Call.Valid at hvalid
    cases hcall.moves with
    | invalid => omega
    | gone phase => rcases phase with phase | phase | phase <;> simp_all [Phase.ofHurried]
    | takes action _ _ asks =>
      refine ⟨action, ?_⟩
      rcases hc : c.phase <;> simp_all [Phase.ofHurried, Phase.asks]
    | _ => simp_all [Phase.ofHurried]
  obtain ⟨rfl, hphase⟩ := hpolling
  exact existsUnique_polls_concat hrun hc (by rw [hphase]; rfl) (h.fresh (.inr hphase))

theorem step_due (hp : p.deadline? = some deadline) : s₀.Due (acts ++ [a]) i c.limit deadline := by
  have hold : c.phase.deadline? = some deadline → s₀.Due (acts ++ [a]) i c.limit deadline :=
    fun hphase => (h.due deadline hphase).concat a
  cases hcall.moves with
  | bounded phase limit _ action =>
    subst action
    exact ⟨_, acts, s, c, limit, .last hrun hc, phase, (Option.some.inj hp).symm⟩
  | joins phase | engages phase | starts phase | refused phase | registers phase | locks phase | sees phase
  | retires phase | sleeps phase | wakes phase => exact hold (by rw [phase]; exact hp)
  | _ => cases hp

theorem step_late (hp : p = .finished .timedOut) : c.limit = some 0 ∨ s₀.Expires (acts ++ [a]) i c.limit := by
  have hmoves := hcall.moves
  subst hp
  generalize hq : Phase.finished .timedOut = q at hmoves
  cases hmoves with
  | expires _ limit => exact .inl limit
  | late phase now action =>
    subst action
    exact .inr ⟨acts, s, c, _, _, .last hrun hc, phase, now, h.due _ (by rw [phase]; rfl)⟩
  | takes => exact absurd (Phase.finished.inj hq).symm (Outcome.ofStatus_ne_timedOut _)
  | _ => cases hq

theorem step_blocks (hp : p = .blocking ∨ ∃ k, p = .blocked k) :
    c.limit = none ∨ s₀.Endless (acts ++ [a]) i c.limit ∨ s₀.Returns (acts ++ [a]) i := by
  have hold : c.phase = .blocking ∨ (∃ k, c.phase = .blocked k) →
      c.limit = none ∨ s₀.Endless (acts ++ [a]) i c.limit ∨ s₀.Returns (acts ++ [a]) i :=
    fun hphase => (h.blocks hphase).imp_right (Or.imp (·.concat a) (·.concat a))
  cases hcall.moves with
  | blocks _ limit => exact .inl limit
  | unbounded phase limit action =>
    subst action
    exact .inr (.inl ⟨acts, s, c, .last hrun hc, phase, limit⟩)
  | repeats phase _ action =>
    subst action
    exact .inr (.inr ⟨acts, s, c, .last hrun hc, phase⟩)
  | waits phase => exact hold (.inl phase)
  | interrupted phase => exact hold (.inr ⟨_, phase⟩)
  | _ => simp at hp

theorem step (hstep : s.step a = some t) : s₀.Course (acts ++ [a]) i { c with phase := p } where
  valid := .inr (h.step_valid hcall)
  unlimited hlimit := by
    obtain ⟨hphase, hbefore⟩ := h.unlimited hlimit
    refine ⟨h.step_unlimited hcall hlimit, fun before => not_polls_concat hrun hc ?_ (hbefore before)⟩
    rcases hphase' : c.phase <;> simp_all [Phase.ofUnlimited, Phase.polls]
  hurried hlimit := h.step_hurried hcall hlimit
  fresh hp before := h.step_fresh hcall hrun hc hp
  once hlimit hvalid o ho := h.step_once hcall hrun hc hlimit hvalid ho
  due deadline hp := h.step_due hcall hrun hc hp
  late hp := h.step_late hcall hrun hc hp
  blocks hp := h.step_blocks hcall hrun hc hp
  untaken hp := by
    rcases hcall.children with hchildren | ⟨_, _, _, _, hfinished, _⟩
    · exact h.step_untaken hcall hrun hstep hchildren
    · exact absurd hfinished (hp _)
  answer o ho := h.step_answer hcall hrun hstep ho

end

end Course

/-! ### Runs -/

/-- What there is to know of a call that has begun or not: it has done nothing before it began. -/
def Record (s₀ : State) (acts : List Action) (i : ℕ) : Option Call → Prop
  | none => ∀ before u c, ¬ s₀.Advances acts i before u c
  | some c => s₀.Course acts i c

theorem Record.concat {o : Option Call} (h : s₀.Record acts i o) (ha : a ≠ .advance i) :
    s₀.Record (acts ++ [a]) i o := by
  cases o with
  | none =>
    intro before u c
    rw [advances_concat_iff_of_ne ha]
    exact h before u c
  | some c => exact Course.concat h ha

theorem Record.rouse {o : Option Call} (h : s₀.Record acts i o) (m : ℕ) : s₀.Record acts i (o.map (roused m)) := by
  cases o with
  | none => exact h
  | some c => exact Course.rouse h m

theorem Record.begin {pid : ℕ} (h : s₀.Record acts i none) : s₀.Record acts i (some ⟨pid, limit, .starting⟩) := by
  have hpolls : ∀ before, ¬ s₀.Polls acts i before := fun before ⟨u, c, hadvances, _⟩ => h before u c hadvances
  refine ⟨.inl rfl, fun _ => ⟨rfl, hpolls⟩, fun _ => rfl, fun _ => hpolls, nofun, nofun, nofun, nofun,
    fun _ q x htakes => ?_, nofun⟩
  obtain ⟨before, u, c, hadvances⟩ := Advances.of_takes htakes
  exact h before u c hadvances

theorem record_initial (hrun : initial.follow acts = some s) (i : ℕ) : initial.Record acts i (s.calls i) := by
  induction acts using List.reverseRecOn generalizing s with
  | nil =>
    cases hrun
    rintro before u c ⟨hpart, -⟩
    simp at hpart
  | append_singleton acts a ih =>
    obtain ⟨t, ht, hstep⟩ := follow_concat_eq_some_iff.1 hrun
    have hrecord := ih ht
    rcases step_cases hstep with ⟨j, c, p, hc, hcall⟩ | ⟨m, x, x', -, hmonitor⟩ | helse
    · rw [hcall.calls]
      by_cases hij : i = j
      · subst hij
        rw [Family.set_self]
        rw [hc] at hrecord
        exact Course.step hrecord hcall ht hc hstep
      · rw [Family.set_of_ne _ hij]
        exact hrecord.concat fun ha => hij (hcall.actor i ha)
    · have ha : a ≠ .advance i := by
        rintro rfl
        rcases hmonitor.action with ha | ⟨ha, -⟩ <;> cases ha
      rcases hmonitor.calls with hcalls | hcalls
      · rw [hcalls]
        exact hrecord.concat ha
      · rw [hcalls]
        exact (hrecord.concat ha).rouse m
    · have ha : a ≠ .advance i := by
        rintro rfl
        cases helse
      cases helse with
      | launch | terminate | tick => exact hrecord.concat ha
      | @begin j pid limit free =>
        dsimp only
        by_cases hij : i = j
        · subst hij
          rw [Family.set_self]
          rw [free] at hrecord
          exact (hrecord.concat ha).begin
        · rw [Family.set_of_ne _ hij]
          exact hrecord.concat ha

theorem course_of_follow (hrun : initial.follow acts = some s) (hc : s.calls i = some c) : initial.Course acts i c := by
  have hrecord := record_initial hrun i
  rwa [hc] at hrecord

end State

end Waiting

end Groundwork
