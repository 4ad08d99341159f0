import Groundwork.Proofs.Waiting.Course
import Groundwork.Proofs.Waiting.Registration

/-!
# Waiting up to a deadline

A call that waits up to a deadline looks at its monitor's state and at the clock under the lock of that state, and
lets go of the lock as it falls asleep. So what it has seen is still so when it falls asleep, and the monitor wakes
it when it has told what it saw: nobody sleeps on a monitor whose thread is over (`Guarded`). It stops waiting for
one of three reasons (`Stops`), whatever wakes it and whenever.
-/

namespace Groundwork

namespace Waiting

/-- The deadline and the monitor of a call that waits for the monitor to tell what it saw. -/
def Phase.waits? : Phase → Option (ℕ × ℕ)
  | .locking deadline m | .inspecting deadline m | .deciding deadline m | .retiring deadline m _
  | .sleeping deadline m _ => some (deadline, m)
  | _ => none

/-- The monitor that a call has seen to run, and whose lock it has held since. -/
def Phase.seen? : Phase → Option ℕ
  | .deciding _ m | .retiring _ m _ => some m
  | _ => none

theorem Phase.locked?_of_seen? {p : Phase} {m : ℕ} (h : p.seen? = some m) : p.locked? = some m := by
  cases p <;> simp_all [seen?, locked?]

/-- Why a call stops waiting for its monitor at the time `now`, and where it goes. -/
inductive Stops (deadline now : ℕ) (x : Monitor) : Phase → Prop
  | late (state : x.state = .running) (time : deadline ≤ now) : Stops deadline now x (.finished .timedOut)
  | told (state : x.state = .ended) : Stops deadline now x .reaping
  | fails {e : OsError} (state : x.state = .failed e) : Stops deadline now x (.finished (.failed e))

namespace State

variable {s s₀ t u : State} {a : Action} {acts before : List Action} {i j m n pid : ℕ} {c d : Call} {p : Phase}
  {x x' y : Monitor} {deadline : ℕ}

theorem Works.holder_eq (h : s.Works x x') : x'.holder = x.holder := by
  cases h <;> rfl

theorem Works.state_eq (h : s.Works x x') (hheld : x.holder ≠ none) : x'.state = x.state := by
  cases h with
  | tells _ free => exact absurd free hheld
  | _ => rfl

/-- What calls know of the monitors they have locked or sleep on. -/
structure Guarded (s : State) : Prop where
  held : ∀ i c m, s.calls i = some c → c.phase.locked? = some m → ∃ x, s.monitors m = some x ∧ x.holder = some i
  seen : ∀ i c m x, s.calls i = some c → c.phase.seen? = some m → s.monitors m = some x → x.state = .running
  clock : ∀ i c deadline m now, s.calls i = some c → c.phase = .retiring deadline m now → now < deadline ∧ now ≤ s.now
  sleeping : ∀ i c deadline m wake, s.calls i = some c → c.phase = .sleeping deadline m wake →
    ∃ x, s.monitors m = some x ∧ x.phase ≠ .finished

theorem guarded_initial : initial.Guarded := by
  have hnone : ∀ {i c}, ¬ initial.calls i = some c := nofun
  exact ⟨fun _ _ _ hc => (hnone hc).elim, fun _ _ _ _ hc => (hnone hc).elim, fun _ _ _ _ _ hc => (hnone hc).elim,
    fun _ _ _ _ _ hc => (hnone hc).elim⟩

namespace Guarded

/-! ### Steps of calls -/

section

variable (h : s.Guarded) (ho : s.Orderly) (hc : s.calls i = some c) (hcall : s.CallStep a i c p t)
include h ho hc hcall

theorem call_monitor (hx : s.monitors m = some x) : ∃ holder, t.monitors m = some { x with holder := holder } ∧
    ∀ j, j ≠ i → x.holder = some j → holder = some j := by
  have hsame : t.monitors m = s.monitors m →
      ∃ holder, t.monitors m = some { x with holder := holder } ∧ ∀ j, j ≠ i → x.holder = some j → holder = some j :=
    fun ht => ⟨x.holder, by rw [ht, hx], fun _ _ => id⟩
  rcases hcall.locks with ⟨-, hlock⟩ | ⟨-, -, -, y, ht, -⟩
  · cases hlock with
    | keep _ monitors => exact hsame (by rw [monitors])
    | @take n y _ _ monitor free monitors =>
      by_cases hmn : m = n
      · subst hmn
        obtain rfl := Option.some.inj (hx.symm.trans monitor)
        refine ⟨some i, by rw [monitors, Family.set_self], fun j _ hj => ?_⟩
        cases free.symm.trans hj
      · exact hsame (by rw [monitors, Family.set_of_ne _ hmn])
    | @release n y before _ monitor monitors =>
      by_cases hmn : m = n
      · subst hmn
        obtain rfl := Option.some.inj (hx.symm.trans monitor)
        refine ⟨none, by rw [monitors, Family.set_self], fun j hji hj => ?_⟩
        obtain ⟨z, hz, hzi⟩ := h.held i c m hc before
        obtain rfl := Option.some.inj (hx.symm.trans hz)
        exact absurd (Option.some.inj (hj.symm.trans hzi)) hji
      · exact hsame (by rw [monitors, Family.set_of_ne _ hmn])
  · have hmn : m ≠ s.nextMonitor := by
      rintro rfl
      cases hx.symm.trans (ho.fresh _ le_rfl)
    exact hsame (by rw [ht, Family.set_of_ne _ hmn])

omit ho in
theorem call_held (hp : p.locked? = some m) : ∃ x, t.monitors m = some x ∧ x.holder = some i := by
  rcases hcall.locks with ⟨-, hlock⟩ | ⟨hnone, -⟩
  · cases hlock with
    | keep phase monitors =>
      rw [monitors]
      exact h.held i c m hc (phase.symm.trans hp)
    | take _ after _ _ monitors =>
      obtain rfl := Option.some.inj (hp.symm.trans after)
      exact ⟨_, by rw [monitors, Family.set_self], rfl⟩
    | release _ after _ _ => cases hp.symm.trans after
  · cases hp.symm.trans hnone

omit ho in
theorem call_seen (hp : p.seen? = some m) : ∃ x, s.monitors m = some x ∧ x.state = .running := by
  cases hcall.moves with
  | sees _ monitor state =>
    cases hp
    exact ⟨_, monitor, state⟩
  | retires phase =>
    cases hp
    obtain ⟨x, hx, -⟩ := h.held i c m hc (by rw [phase]; rfl)
    exact ⟨x, hx, h.seen i c m x hc (by rw [phase]; rfl) hx⟩
  | _ => cases hp

theorem call : t.Guarded := by
  have hself : t.calls i = some { c with phase := p } := by rw [hcall.calls, Family.set_self]
  have hother : ∀ {j}, j ≠ i → t.calls j = s.calls j := fun hj => by rw [hcall.calls, Family.set_of_ne _ hj]
  refine ⟨fun j d m hd hm => ?_, fun j d m x hd hm hx => ?_, fun j d deadline m now hd hphase => ?_,
    fun j d deadline m wake hd hphase => ?_⟩
  · by_cases hj : j = i
    · subst hj
      obtain rfl := Option.some.inj (hself.symm.trans hd)
      exact h.call_held hc hcall hm
    · obtain ⟨x, hx, hxj⟩ := h.held j d m (hother hj ▸ hd) hm
      obtain ⟨holder, hx', hholder⟩ := h.call_monitor ho hc hcall hx
      exact ⟨_, hx', hholder j hj hxj⟩
  · have hrunning : ∃ y, s.monitors m = some y ∧ y.state = .running := by
      by_cases hj : j = i
      · subst hj
        obtain rfl := Option.some.inj (hself.symm.trans hd)
        exact h.call_seen hc hcall hm
      · obtain ⟨y, hy, -⟩ := h.held j d m (hother hj ▸ hd) (Phase.locked?_of_seen? hm)
        exact ⟨y, hy, h.seen j d m y (hother hj ▸ hd) hm hy⟩
    obtain ⟨y, hy, hrunning⟩ := hrunning
    obtain ⟨holder, hx', -⟩ := h.call_monitor ho hc hcall hy
    obtain rfl := Option.some.inj (hx.symm.trans hx')
    exact hrunning
  · rw [hcall.now]
    by_cases hj : j = i
    · subst hj
      obtain rfl := Option.some.inj (hself.symm.trans hd)
      dsimp only at hphase
      subst hphase
      cases hcall.moves with
      | retires _ hnow => exact ⟨hnow, le_rfl⟩
    · exact h.clock j d deadline m now (hother hj ▸ hd) hphase
  · have hthread : ∃ y, s.monitors m = some y ∧ y.phase ≠ .finished := by
      by_cases hj : j = i
      · subst hj
        obtain rfl := Option.some.inj (hself.symm.trans hd)
        dsimp only at hphase
        subst hphase
        cases hcall.moves with
        | sleeps phase =>
          -- it has held the lock since it saw that the monitor runs
          obtain ⟨y, hy, -⟩ := h.held j c m hc (by rw [phase]; rfl)
          have hrunning := h.seen j c m y hc (by rw [phase]; rfl) hy
          exact ⟨y, hy, ((ho.agrees m y hy).running_iff.1 hrunning).2⟩
      · exact h.sleeping j d deadline m wake (hother hj ▸ hd) hphase
    obtain ⟨y, hy, hthread⟩ := hthread
    obtain ⟨holder, hx', -⟩ := h.call_monitor ho hc hcall hy
    exact ⟨_, hx', hthread⟩

end

/-! ### Steps of monitors -/

theorem sleeping_of_monitor {deadline wake : ℕ} (hmonitor : s.MonitorStep a n x x' t) (hd : t.calls j = some d)
    (hphase : d.phase = .sleeping deadline m wake) : s.calls j = some d ∧ (m = n → x.phase ≠ .notifying) := by
  rcases hmonitor.rouses with ⟨hquiet, hcalls⟩ | ⟨hnotifying, hcalls⟩
  · exact ⟨hcalls ▸ hd, fun _ => hquiet⟩
  · rw [hcalls] at hd
    obtain ⟨c, hc, rfl⟩ := Option.map_eq_some_iff.1 hd
    unfold roused at hphase ⊢
    split at hphase
    · rename_i deadline' k wake' hk
      split_ifs at hphase with hkn
      · cases hk.symm.trans hphase
        simp [hc, hkn]
    · rename_i hnot
      exact absurd hphase (hnot _ _ _)

theorem monitor (h : s.Guarded) (hx : s.monitors n = some x) (hmonitor : s.MonitorStep a n x x' t) : t.Guarded := by
  have hcalls : ∀ {j d}, d.phase.locked? ≠ none → (t.calls j = some d ↔ s.calls j = some d) := by
    intro j d hd
    apply hmonitor.calls_iff
    all_goals
      intros
      intro hphase
      rw [hphase] at hd
      exact hd rfl
  have hself : t.monitors n = some x' := by rw [hmonitor.monitors, Family.set_self]
  have hother : ∀ {m}, m ≠ n → t.monitors m = s.monitors m := fun hm => by rw [hmonitor.monitors, Family.set_of_ne _ hm]
  refine ⟨fun j d m hd hm => ?_, fun j d m y hd hm hy => ?_, fun j d deadline m now hd hphase => ?_,
    fun j d deadline m wake hd hphase => ?_⟩
  · obtain ⟨y, hy, hyj⟩ := h.held j d m ((hcalls (by simp [hm])).1 hd) hm
    by_cases hmn : m = n
    · subst hmn
      obtain rfl := Option.some.inj (hx.symm.trans hy)
      exact ⟨x', hself, hmonitor.works.holder_eq.trans hyj⟩
    · exact ⟨y, (hother hmn).trans hy, hyj⟩
  · have hlocked := Phase.locked?_of_seen? hm
    have hd' := (hcalls (by simp [hlocked])).1 hd
    by_cases hmn : m = n
    · -- the call holds the lock that the thread needs to tell something
      subst hmn
      obtain rfl := Option.some.inj (hself.symm.trans hy)
      obtain ⟨z, hz, hzj⟩ := h.held j d m hd' hlocked
      obtain rfl := Option.some.inj (hx.symm.trans hz)
      rw [hmonitor.works.state_eq (by simp [hzj])]
      exact h.seen j d m x hd' hm hx
    · exact h.seen j d m y hd' hm (hother hmn ▸ hy)
  · rw [hmonitor.now]
    exact h.clock j d deadline m now ((hcalls (by simp [hphase, Phase.locked?])).1 hd) hphase
  · obtain ⟨hd', hquiet⟩ := sleeping_of_monitor hmonitor hd hphase
    obtain ⟨y, hy, hthread⟩ := h.sleeping j d deadline m wake hd' hphase
    by_cases hmn : m = n
    · subst hmn
      obtain rfl := Option.some.inj (hx.symm.trans hy)
      refine ⟨x', hself, ?_⟩
      cases hmonitor.works with
      | finishes phase => exact absurd phase (hquiet rfl)
      | _ => simp
    · exact ⟨y, (hother hmn).trans hy, hthread⟩

theorem step (h : s.Guarded) (ho : s.Orderly) (hstep : s.step a = some t) : t.Guarded := by
  rcases step_cases hstep with ⟨i, c, p, hc, hcall⟩ | ⟨n, x, x', hx, hmonitor⟩ | helse
  · exact h.call ho hc hcall
  · exact h.monitor hx hmonitor
  · cases helse with
    | launch | terminate => exact ⟨h.held, h.seen, h.clock, h.sleeping⟩
    | tick =>
      refine ⟨h.held, h.seen, fun j d deadline m now hd hphase => ?_, h.sleeping⟩
      obtain ⟨hlt, hle⟩ := h.clock j d deadline m now hd hphase
      exact ⟨hlt, hle.trans (Nat.le_add_right _ _)⟩
    | @begin i pid limit free =>
      -- a call that begins has locked nothing and does not sleep
      have hcalls : ∀ {j d}, d.phase ≠ .starting →
          (s.calls.set i (some ⟨pid, limit, .starting⟩) j = some d ↔ s.calls j = some d) :=
        fun {_ _} => calls_begin_iff free
      refine ⟨fun j d m hd hm => ?_, fun j d m x hd hm => ?_, fun j d deadline m now hd hphase => ?_,
        fun j d deadline m wake hd hphase => ?_⟩
      · exact h.held j d m ((hcalls (by rintro hphase; simp [hphase, Phase.locked?] at hm)).1 hd) hm
      · exact h.seen j d m x ((hcalls (by rintro hphase; simp [hphase, Phase.seen?] at hm)).1 hd) hm
      · exact h.clock j d deadline m now ((hcalls (by simp [hphase])).1 hd) hphase
      · exact h.sleeping j d deadline m wake ((hcalls (by simp [hphase])).1 hd) hphase

theorem follow (h : s.Guarded) (ho : s.Orderly) (hrun : s.follow acts = some t) : t.Guarded := by
  induction acts using List.reverseRecOn generalizing t with
  | nil =>
    cases hrun
    exact h
  | append_singleton acts a ih =>
    obtain ⟨u, hu, hstep⟩ := follow_concat_eq_some_iff.1 hrun
    exact (ih hu).step (ho.follow hu) hstep

/-! ### What waiting comes to -/

theorem waits_or_stops (h : s.Guarded) (hc : s.calls i = some c) (hwaits : c.phase.waits? = some (deadline, m))
    (hstep : s.step a = some t) : ∃ p, t.calls i = some { c with phase := p } ∧
      (p.waits? = some (deadline, m) ∨ ∃ x, s.monitors m = some x ∧ Stops deadline s.now x p) := by
  rcases call_cases hc hstep with hi | ⟨p, hcall, hi⟩ | ⟨_, _, wake, hphase, hi⟩
  · exact ⟨c.phase, hi, .inl hwaits⟩
  · refine ⟨p, hi, ?_⟩
    cases hcall.moves with
    | locks phase | retires phase | sleeps phase | wakes phase => rw [phase] at hwaits; exact .inl hwaits
    | sees phase => rw [phase] at hwaits; exact .inl hwaits
    | told phase monitor state =>
      rw [phase] at hwaits
      cases hwaits
      exact .inr ⟨_, monitor, .told state⟩
    | fails phase monitor state =>
      rw [phase] at hwaits
      cases hwaits
      exact .inr ⟨_, monitor, .fails state⟩
    | late phase now =>
      -- it has held the lock since it saw that the monitor runs
      obtain ⟨x, hx, -⟩ := h.held i c _ hc (by rw [phase]; rfl)
      have hrunning := h.seen i c _ x hc (by rw [phase]; rfl) hx
      rw [phase] at hwaits
      cases hwaits
      exact .inr ⟨x, hx, .late hrunning now⟩
    | gone phase => rcases phase with phase | phase | phase <;> (rw [phase] at hwaits; cases hwaits)
    | takes _ _ _ asks => rcases hphase : c.phase <;> simp_all [Phase.asks, Phase.waits?]
    | _ => simp_all [Phase.waits?]
  · rw [hphase] at hwaits
    cases hwaits
    exact ⟨.locking deadline m, hi, .inl rfl⟩

theorem wakes_sleeping (h : s.Guarded) (ho : s.Orderly) (hc : s.calls i = some c) {wake : ℕ}
    (hphase : c.phase = .sleeping deadline m wake) : ∃ x, s.monitors m = some x ∧ (x.state = .running ∨
      ∃ t, s.step (.monitor m) = some t ∧ t.calls i = some { c with phase := .locking deadline m }) := by
  obtain ⟨x, hx, hthread⟩ := h.sleeping i c deadline m wake hc hphase
  refine ⟨x, hx, ?_⟩
  by_cases hnotifying : x.phase = .notifying
  · have hstep : s.step (.monitor m) = some ({ s with calls := fun i => (s.calls i).map (roused m) }.setMonitor m
        { x with phase := .finished }) := by
      simp only [State.step, hx, Option.bind_some, runMonitor, hnotifying]
    exact .inr ⟨_, hstep, by simp [setMonitor, hc, roused, hphase]⟩
  · exact .inl ((ho.agrees m x hx).running_iff.2 ⟨hnotifying, hthread⟩)

end Guarded

/-! ### No time at all -/

theorem advance_of_hurried (hhurried : c.phase.ofHurried = true) (hc : s.calls i = some c)
    (hstep : s.step (.advance i) = some t) :
    t.register = s.register ∧ t.registrar = s.registrar ∧ t.monitors = s.monitors ∧ t.nextMonitor = s.nextMonitor := by
  have hphases : c.phase = .starting ∨ c.phase = .polling := by
    rcases hphase : c.phase <;> simp_all [Phase.ofHurried, State.step, advance]
  simp only [State.step, hc, Option.bind_some, advance] at hstep
  rcases hphases with hphase | hphase
  · simp only [hphase, Option.some.injEq] at hstep
    subst hstep
    exact ⟨rfl, rfl, rfl, rfl⟩
  · simp only [hphase] at hstep
    obtain ⟨-, rfl⟩ | ⟨k, status, -, rfl⟩ | ⟨k, -, hstill⟩ := reap_cases hstep
    · exact ⟨rfl, rfl, rfl, rfl⟩
    · exact ⟨rfl, rfl, rfl, rfl⟩
    · cases hstill
      exact ⟨rfl, rfl, rfl, rfl⟩

theorem advance_polling (hc : s.calls i = some c) (hlimit : c.limit = some 0) (hphase : c.phase = .polling) {k : ℕ}
    (hchild : s.children c.pid = some ⟨k, none⟩) : s.step (.advance i) = some (s.move i c (.finished .timedOut)) := by
  simp only [State.step, hc, Option.bind_some, advance, hphase, hlimit, reap, take?, hchild, if_true]

/-- A call that waits up to a deadline stops waiting when the time it reads has come to the deadline and the monitor
says that the child runs, when the monitor says that the child has ended, or when the monitor says that it has failed.
The time it subtracts from the deadline is before it. While it sleeps its monitor runs, or is about to wake it. So
the time is up for a call only if its limit is over since it first read the clock. A call with no time at all asks
once, and has no part in monitors. -/
theorem timed_out_in_time (hrun : initial.follow acts = some s) (hc : s.calls i = some c) :
    (∀ deadline m, c.phase.waits? = some (deadline, m) → ∀ a t, s.step a = some t →
      ∃ p, t.calls i = some { c with phase := p } ∧
        (p.waits? = some (deadline, m) ∨ ∃ x, s.monitors m = some x ∧ Stops deadline s.now x p)) ∧
    (∀ deadline m now, c.phase = .retiring deadline m now → now < deadline ∧ now ≤ s.now) ∧
    (∀ deadline m wake, c.phase = .sleeping deadline m wake → ∃ x, s.monitors m = some x ∧ (x.state = .running ∨
      ∃ t, s.step (.monitor m) = some t ∧ t.calls i = some { c with phase := .locking deadline m })) ∧
    (c.phase = .finished .timedOut → c.limit ≠ some 0 → initial.Expires acts i c.limit) ∧
    (c.limit = some 0 → c.phase.ofHurried = true ∧
      (∀ t, s.step (.advance i) = some t → t.register = s.register ∧ t.registrar = s.registrar ∧
        t.monitors = s.monitors ∧ t.nextMonitor = s.nextMonitor) ∧
      (c.phase = .polling → ∀ k, s.children c.pid = some ⟨k, none⟩ →
        s.step (.advance i) = some (s.move i c (.finished .timedOut))) ∧
      (c.phase = .finished .timedOut → ∃! before, initial.Polls acts i before)) := by
  have horderly := orderly_initial.follow hrun
  have hguarded := guarded_initial.follow orderly_initial hrun
  have hcourse := course_of_follow hrun hc
  refine ⟨fun deadline m hwaits a t => hguarded.waits_or_stops hc hwaits,
    fun deadline m now => hguarded.clock i c deadline m now hc,
    fun deadline m wake => hguarded.wakes_sleeping horderly hc,
    fun hphase hlimit => (hcourse.late hphase).resolve_left hlimit, fun hlimit => ?_⟩
  have hhurried := hcourse.hurried hlimit
  refine ⟨hhurried, fun t => advance_of_hurried hhurried hc, fun hphase k => advance_polling hc hlimit hphase,
    fun hphase => ?_⟩
  have hvalid : c.Valid := hcourse.valid_of_ne (by simp [hphase]) (by simp [hphase])
  exact hcourse.once hlimit hvalid _ hphase

/-- The first call has ten nanoseconds and is woken for no reason after four; the second has none. -/
theorem timed_out_in_time_woken :
    let before : List Action :=
      [.launch 7, .begin 1 7 (some 10), .begin 2 7 (some 0), .advance 1, .advance 1, .advance 1, .advance 1, .advance 1,
        .advance 1, .advance 1, .advance 1, .advance 1, .advance 1, .tick 4, .wake 1, .advance 1, .advance 1,
        .advance 1, .advance 1, .advance 2]
    let rest : List Action := [.advance 2, .tick 6, .wake 1, .advance 1, .advance 1, .advance 1]
    let acts := before ++ rest
    ∃ s t c d e, initial.follow before = some s ∧ s.calls 1 = some c ∧ c.phase = .sleeping 10 0 10 ∧
      (∃ x, s.monitors 0 = some x ∧ (x.state = .running ∨
        ∃ t, s.step (.monitor 0) = some t ∧ t.calls 1 = some { c with phase := .locking 10 0 })) ∧
      initial.follow acts = some t ∧
      t.calls 1 = some d ∧ d.phase = .finished .timedOut ∧ initial.Expires acts 1 d.limit ∧
      t.calls 2 = some e ∧ e.phase = .finished .timedOut ∧ ∃! part, initial.Polls acts 2 part := by
  intro before rest acts
  have hmiddle : (initial.follow before).map (·.calls 1) = some (some ⟨7, some 10, .sleeping 10 0 10⟩) := by decide
  have hend : (initial.follow acts).map (fun t => (t.calls 1, t.calls 2)) =
      some (some ⟨7, some 10, .finished .timedOut⟩, some ⟨7, some 0, .finished .timedOut⟩) := by decide
  obtain ⟨s, hs, hsleeps⟩ := Option.map_eq_some_iff.1 hmiddle
  obtain ⟨t, ht, hcalls⟩ := Option.map_eq_some_iff.1 hend
  obtain ⟨hfirst, hsecond⟩ := Prod.mk.inj hcalls
  obtain ⟨-, -, hwaking, -⟩ := timed_out_in_time hs hsleeps
  obtain ⟨-, -, -, hlate, -⟩ := timed_out_in_time ht hfirst
  obtain ⟨-, -, -, -, hnone⟩ := timed_out_in_time ht hsecond
  obtain ⟨-, -, -, honce⟩ := hnone rfl
  exact ⟨s, t, _, _, _, hs, hsleeps, rfl, hwaking 10 0 10 rfl, ht, hfirst, rfl, hlate rfl (by decide), hsecond, rfl,
    honce rfl⟩

end State

end Waiting

end Groundwork
