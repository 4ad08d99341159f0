import Groundwork.Proofs.Waiting.Moves

/-!
# Which child a monitor is of

Monitors never change the child that they are of, and in every run the register has under a process number,
and a call that waits for it looks at, none but monitors of that number (`Enrolled`). A number is not a child:
whether the monitor has asked about the child that has the number now, it cannot be told from the register.
-/

namespace Groundwork

namespace Waiting

/-- The monitor that a call in this phase looks at. -/
def Phase.monitor? : Phase → Option ℕ
  | .registering _ m | .locking _ m | .inspecting _ m | .deciding _ m | .retiring _ m _ | .sleeping _ m _ => some m
  | _ => none

namespace State

variable {s t : State} {a : Action} {acts : List Action} {i m pid : ℕ} {P : State → Prop}

/-- The monitor has been made for the child `pid`. -/
def Names (s : State) (m pid : ℕ) : Prop := m < s.nextMonitor ∧ ∃ x, s.monitors m = some x ∧ x.pid = pid

/-- Register and calls know the monitors of the right children. -/
structure Enrolled (s : State) : Prop where
  register : ∀ pid m, s.register pid = some m → s.Names m pid
  calls : ∀ i c m, s.calls i = some c → c.phase.monitor? = some m → s.Names m c.pid

theorem Works.pid_eq {x x' : Monitor} (h : s.Works x x') : x'.pid = x.pid := by
  cases h <;> rfl

theorem Names.set (h : s.Names m pid) {n : ℕ} {x x' : Monitor} (hx : s.monitors n = some x) (hpid : x'.pid = x.pid)
    (hnext : t.nextMonitor = s.nextMonitor) (ht : t.monitors = s.monitors.set n (some x')) : t.Names m pid := by
  obtain ⟨hlt, y, hy, rfl⟩ := h
  refine ⟨hnext ▸ hlt, ?_⟩
  by_cases hmn : m = n
  · subst hmn
    rw [hx, Option.some.injEq] at hy
    exact ⟨x', by rw [ht, Family.set_self], hy ▸ hpid⟩
  · exact ⟨y, by rw [ht, Family.set_of_ne _ hmn, hy], rfl⟩

theorem Names.of_eq (h : s.Names m pid) (hnext : t.nextMonitor = s.nextMonitor) (ht : t.monitors = s.monitors) :
    t.Names m pid := by
  unfold Names
  rw [hnext, ht]
  exact h

theorem Names.step (h : s.Names m pid) (hstep : s.step a = some t) : t.Names m pid := by
  rcases step_cases hstep with ⟨i, c, p, -, hcall⟩ | ⟨n, x, x', hx, hmonitor⟩ | helse
  · rcases hcall.monitors with ⟨hnext, ht | ⟨n, x, holder, hx, ht⟩⟩ | ⟨-, hnext, x, ht, -⟩
    · exact h.of_eq hnext ht
    · have hpid : ({ x with holder := holder } : Monitor).pid = x.pid := rfl
      exact h.set hx hpid hnext ht
    · obtain ⟨hlt, y, hy, hpid⟩ := h
      exact ⟨by omega, y, by rw [ht, Family.set_of_ne _ hlt.ne, hy], hpid⟩
  · exact h.set hx hmonitor.works.pid_eq hmonitor.nextMonitor hmonitor.monitors
  · cases helse <;> exact h

theorem AddsMonitor.names {c : Call} (h : s.AddsMonitor a i c t) : t.Names s.nextMonitor c.pid := by
  obtain ⟨-, hnext, x, ht, hx⟩ := h
  refine ⟨by omega, x, by rw [ht, Family.set_self], ?_⟩
  rcases hx with rfl | ⟨e, -, rfl⟩ <;> rfl

namespace Enrolled

theorem names_of_moves (h : s.Enrolled) {c : Call} {p : Phase} (hc : s.calls i = some c) (hp : p.monitor? = some m)
    (hmoves : s.Moves a i c t p) : s.Names m c.pid ∨ t.Names m c.pid := by
  have hsame : ∀ {q : Phase}, c.phase = q → q.monitor? = some m → s.Names m c.pid := by
    rintro q rfl hq
    exact h.calls i c m hc hq
  cases hmoves with
  | joins phase register =>
    cases hp
    exact .inl (h.register c.pid m register)
  | starts phase adds | refused phase adds =>
    cases hp
    exact .inr adds.names
  | registers phase | locks phase | sees phase | retires phase | sleeps phase | wakes phase =>
    exact .inl (hsame phase hp)
  | _ => cases hp

theorem call (h : s.Enrolled) {c : Call} {p : Phase} (hc : s.calls i = some c) (hstep : s.step a = some t)
    (hcall : s.CallStep a i c p t) : t.Enrolled := by
  constructor
  · intro pid m hm
    rcases hcall.register with hregister | ⟨deadline, n, hphase, hregister⟩
    · rw [hregister] at hm
      exact (h.register pid m hm).step hstep
    · rw [hregister] at hm
      by_cases hpid : pid = c.pid
      · subst hpid
        rw [Family.set_self, Option.some.injEq] at hm
        subst hm
        exact (h.calls i c n hc (by rw [hphase]; rfl)).step hstep
      · rw [Family.set_of_ne _ hpid] at hm
        exact (h.register pid m hm).step hstep
  · intro j d m hd hm
    rw [hcall.calls] at hd
    by_cases hj : j = i
    · rw [hj, Family.set_self, Option.some.injEq] at hd
      subst hd
      rcases h.names_of_moves hc hm hcall.moves with hnames | hnames
      · exact hnames.step hstep
      · exact hnames
    · rw [Family.set_of_ne _ hj] at hd
      exact (h.calls j d m hd hm).step hstep

theorem monitor (h : s.Enrolled) {x x' : Monitor} {n : ℕ} (hstep : s.step a = some t)
    (hmonitor : s.MonitorStep a n x x' t) : t.Enrolled := by
  constructor
  · intro pid m hm
    rcases hmonitor.register with hregister | hregister
    · rw [hregister] at hm
      exact (h.register pid m hm).step hstep
    · rw [hregister] at hm
      by_cases hpid : pid = x.pid
      · rw [hpid, Family.set_self] at hm
        cases hm
      · rw [Family.set_of_ne _ hpid] at hm
        exact (h.register pid m hm).step hstep
  · intro j d m hd hm
    rcases hmonitor.calls with hcalls | hcalls
    · rw [hcalls] at hd
      exact (h.calls j d m hd hm).step hstep
    · rw [hcalls] at hd
      obtain ⟨c, hc, rfl⟩ := Option.map_eq_some_iff.1 hd
      rcases roused_cases n c with hsame | ⟨deadline, wake, hphase, hmoved⟩
      · rw [hsame] at hm ⊢
        exact (h.calls j c m hc hm).step hstep
      · rw [hmoved] at hm ⊢
        exact (h.calls j c m hc (by rw [hphase]; exact hm)).step hstep

theorem step (h : s.Enrolled) (hstep : s.step a = some t) : t.Enrolled := by
  rcases step_cases hstep with ⟨i, c, p, hc, hcall⟩ | ⟨n, x, x', -, hmonitor⟩ | helse
  · exact h.call hc hstep hcall
  · exact h.monitor hstep hmonitor
  · cases helse with
    | launch | terminate | tick => exact ⟨h.register, h.calls⟩
    | @begin i pid limit free =>
      refine ⟨h.register, fun j d m hd hm => ?_⟩
      dsimp only at hd
      by_cases hj : j = i
      · rw [hj, Family.set_self, Option.some.injEq] at hd
        subst hd
        cases hm
      · rw [Family.set_of_ne _ hj] at hd
        exact h.calls j d m hd hm

end Enrolled

theorem enrolled_initial : initial.Enrolled := ⟨nofun, nofun⟩

theorem Enrolled.follow (h : s.Enrolled) (hrun : s.follow acts = some t) : t.Enrolled := by
  induction acts using List.reverseRecOn generalizing t with
  | nil =>
    cases hrun
    exact h
  | append_singleton acts a ih =>
    obtain ⟨u, hu, hstep⟩ := follow_concat_eq_some_iff.1 hrun
    exact (ih hu).step hstep

end State

end Waiting

end Groundwork
