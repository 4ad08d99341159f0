import Groundwork.Proofs.Waiting.Register

/-!
# One monitor for each child

A monitor's thread is started before the monitor is put on the register, and it takes the monitor off before it
tells what it has seen. In between, three locks are taken and released by different threads. What holds all the
time is `Orderly`: the monitors that are still to be taken off are those on the register and the one that is about
to be put there, and while a call holds the register there is none for its child. So a thread that is about to
take its monitor off, for which the register has to be free, finds it there.

A monitor that has told what it saw never tells anything else (`Monitor.Leads`).
-/

namespace Groundwork

namespace Waiting

def Monitor.Agrees (x : Monitor) : Prop :=
  match x.phase with
  | .waiting | .attached _ => x.state = .running
  | .unregistering told | .publishing told => x.state = .running ∧ told ≠ .running
  | .notifying | .finished => x.state ≠ .running

/-- `y` is the monitor `x` at a later time. -/
structure Monitor.Leads (x y : Monitor) : Prop where
  pid : y.pid = x.pid
  state : x.state ≠ .running → y.state = x.state
  listed : y.phase.listed = true → x.phase.listed = true

namespace Monitor

variable {x y z : Monitor}

theorem Leads.refl (x : Monitor) : x.Leads x := ⟨rfl, fun _ => rfl, id⟩

theorem Leads.trans (h : x.Leads y) (h' : y.Leads z) : x.Leads z := by
  refine ⟨h'.pid.trans h.pid, fun hx => ?_, h.listed ∘ h'.listed⟩
  have hy : y.state = x.state := h.state hx
  rw [h'.state (hy ▸ hx), hy]

theorem Agrees.running (h : x.Agrees) (hx : x.phase.listed = true) : x.state = .running := by
  unfold Agrees at h
  rcases hphase : x.phase with _ | _ | _ | _ | _ | _ <;> rw [hphase] at h hx
  · exact h
  · exact h
  · exact h.1
  all_goals cases hx

theorem Agrees.running_iff (h : x.Agrees) : x.state = .running ↔ x.phase ≠ .notifying ∧ x.phase ≠ .finished := by
  unfold Agrees at h
  rcases hphase : x.phase with _ | _ | _ | _ | _ | _ <;> rw [hphase] at h <;> simp [h]

end Monitor

namespace State

variable {s s₀ t u : State} {a : Action} {acts : List Action} {i j m n pid : ℕ} {c d : Call} {p : Phase}
  {x x' y : Monitor}

theorem Works.agrees (h : s.Works x x') (hx : x.Agrees) : x'.Agrees := by
  unfold Monitor.Agrees at hx ⊢
  cases h with
  | misses phase _ => rcases phase with phase | ⟨serial, phase⟩ <;> rw [phase] at hx <;> simp [hx]
  | loses phase _ _ | attaches phase _ | interrupted phase => rw [phase] at hx; simp [hx]
  | sees phase _ => rcases phase with phase | phase <;> rw [phase] at hx <;> simp [hx]
  | leaves phase => rw [phase] at hx; exact hx
  | tells phase _ => rw [phase] at hx; exact hx.2
  | finishes phase => rw [phase] at hx; exact hx

theorem Works.leads (h : s.Works x x') (hx : x.Agrees) : x.Leads x' := by
  refine ⟨h.pid_eq, fun hstate => ?_, fun hlisted => ?_⟩
  · cases h with
    | tells phase _ =>
      unfold Monitor.Agrees at hx
      rw [phase] at hx
      exact absurd hx.1 hstate
    | _ => rfl
  · cases h with
    | misses phase _ => rcases phase with phase | ⟨serial, phase⟩ <;> rw [phase] <;> rfl
    | sees phase _ => rcases phase with phase | phase <;> rw [phase] <;> rfl
    | loses phase _ _ | attaches phase _ | interrupted phase => rw [phase]; rfl
    | leaves | tells | finishes => cases hlisted

/-! ### Monitors that are still to be taken off the register -/

/-- The monitor `m` is of the child `pid`, and its thread has not taken it off the register. -/
def Lists (s : State) (pid m : ℕ) : Prop := ∃ x, s.monitors m = some x ∧ x.pid = pid ∧ x.phase.listed = true

theorem lists_set (ht : t.monitors = s.monitors.set n (some x)) :
    t.Lists pid m ↔ if m = n then x.pid = pid ∧ x.phase.listed = true else s.Lists pid m := by
  unfold Lists
  rw [ht]
  split_ifs with hmn
  · simp [hmn]
  · simp [Family.set_of_ne _ hmn]

theorem lists_set_congr (hx : s.monitors n = some x) (ht : t.monitors = s.monitors.set n (some x'))
    (hpid : x'.pid = x.pid) (hlisted : x'.phase.listed = x.phase.listed) : t.Lists pid m ↔ s.Lists pid m := by
  rw [lists_set ht, hpid, hlisted]
  split_ifs with hmn
  · simp [Lists, hmn, hx]
  · rfl

/-- Who is on the register, who is about to be, and who has the register's lock. -/
structure Orderly (s : State) : Prop where
  fresh : ∀ m, s.nextMonitor ≤ m → s.monitors m = none
  agrees : ∀ m x, s.monitors m = some x → x.Agrees
  registrar : ∀ i c, s.calls i = some c → c.phase.holdsRegister = true → s.registrar = some i ∧ s.register c.pid = none
  registered : ∀ pid m, s.register pid = some m → s.Lists pid m
  registering : ∀ i c deadline m, s.calls i = some c → c.phase = .registering deadline m → s.Lists c.pid m
  lists : ∀ pid m, s.Lists pid m → s.register pid = some m ∨
    ∃ i c deadline, s.calls i = some c ∧ c.pid = pid ∧ c.phase = .registering deadline m

theorem orderly_initial : initial.Orderly := by
  refine ⟨fun _ _ => rfl, nofun, nofun, nofun, nofun, ?_⟩
  rintro pid m ⟨x, hx, -⟩
  cases hx

theorem CallStep.lists_iff (h : s.CallStep a i c p t) (hfresh : s.monitors s.nextMonitor = none) :
    t.Lists pid m ↔ s.Lists pid m ∨ m = s.nextMonitor ∧ pid = c.pid ∧ ∃ deadline, p = .registering deadline m := by
  have hnew : ∀ {pid}, ¬ s.Lists pid s.nextMonitor := by
    rintro pid ⟨x, hx, -⟩
    cases hfresh.symm.trans hx
  have hkeeps : s.KeepsMonitors t → (t.Lists pid m ↔ s.Lists pid m) := by
    rintro ⟨-, ht | ⟨n, x, holder, hx, ht⟩⟩
    · simp only [Lists, ht]
    · exact lists_set_congr hx ht rfl rfl
  have hmoves := h.moves
  rcases h.locks with ⟨hnext, hlock⟩ | ⟨-, ⟨deadline, hphase⟩, hnext, -⟩
  · rw [hkeeps (h.monitors.resolve_right fun hadds => by have := hadds.2.1; omega)]
    refine (or_iff_left ?_).symm
    rintro ⟨-, -, deadline, rfl⟩
    cases hmoves with
    | starts phase adds => have := adds.2.1; omega
  · -- only a call that has found no monitor gets here: it has started one, or could not
    cases hmoves with
    | @starts deadline' _ _ monitors =>
      rw [lists_set monitors]
      split_ifs with hm
      · subst hm
        simp [hnew, MonitorPhase.listed, eq_comm]
      · simp [hm]
    | refused _ _ _ monitors =>
      rw [lists_set monitors]
      split_ifs with hm
      · subst hm
        simp [hnew, MonitorPhase.listed]
      · simp
    | gone phase _ => simp [hphase] at phase
    | takes _ _ _ asks => simp [hphase, Phase.asks] at asks
    | _ => simp_all

namespace Orderly

theorem registrar_unique (h : s.Orderly) (hc : s.calls i = some c) (hd : s.calls j = some d)
    (hi : c.phase.holdsRegister = true) (hj : d.phase.holdsRegister = true) : i = j := by
  have hregistrar := (h.registrar i c hc hi).1
  rw [(h.registrar j d hd hj).1] at hregistrar
  exact (Option.some.inj hregistrar).symm

theorem register_of_lists (h : s.Orderly) (hfree : s.registrar = none) (hm : s.Lists pid m) :
    s.register pid = some m := by
  rcases h.lists pid m hm with hregister | ⟨i, c, deadline, hc, -, hphase⟩
  · exact hregister
  · have hregistrar := (h.registrar i c hc (by rw [hphase]; rfl)).1
    cases hfree.symm.trans hregistrar

theorem lists_unique (h : s.Orderly) (hm : s.Lists pid m) (hn : s.Lists pid n) : m = n := by
  have hvacant : ∀ {i c deadline k}, s.calls i = some c → c.pid = pid → c.phase = .registering deadline k →
      s.register pid = none := by
    rintro i c deadline k hc rfl hphase
    exact (h.registrar i c hc (by rw [hphase]; rfl)).2
  rcases h.lists pid m hm with hm | ⟨i, c, deadline, hc, hcpid, hcphase⟩
  · rcases h.lists pid n hn with hn | ⟨j, d, deadline', hd, hdpid, hdphase⟩
    · exact Option.some.inj (hm.symm.trans hn)
    · cases hm.symm.trans (hvacant hd hdpid hdphase)
  · rcases h.lists pid n hn with hn | ⟨j, d, deadline', hd, hdpid, hdphase⟩
    · cases hn.symm.trans (hvacant hc hcpid hcphase)
    · -- both are about to be put on the register, by the one call that holds it
      obtain rfl := h.registrar_unique hc hd (by rw [hcphase]; rfl) (by rw [hdphase]; rfl)
      obtain rfl := Option.some.inj (hc.symm.trans hd)
      cases hcphase.symm.trans hdphase
      rfl

theorem exists_leads (h : s.Orderly) (hx : s.monitors m = some x) (hstep : s.step a = some t) :
    ∃ y, t.monitors m = some y ∧ x.Leads y := by
  have hset : ∀ {n z z'}, s.monitors n = some z → t.monitors = s.monitors.set n (some z') → z.Leads z' →
      ∃ y, t.monitors m = some y ∧ x.Leads y := by
    intro n z z' hz ht hleads
    by_cases hmn : m = n
    · subst hmn
      obtain rfl := Option.some.inj (hx.symm.trans hz)
      exact ⟨z', by rw [ht, Family.set_self], hleads⟩
    · exact ⟨x, by rw [ht, Family.set_of_ne _ hmn, hx], .refl x⟩
  rcases step_cases hstep with ⟨i, c, p, -, hcall⟩ | ⟨n, z, z', hz, hmonitor⟩ | helse
  · rcases hcall.monitors with ⟨-, ht | ⟨n, z, holder, hz, ht⟩⟩ | ⟨-, -, z, ht, -⟩
    · exact ⟨x, by rw [ht, hx], .refl x⟩
    · exact hset hz ht ⟨rfl, fun _ => rfl, id⟩
    · have hmn : m ≠ s.nextMonitor := by
        rintro rfl
        cases hx.symm.trans (h.fresh _ le_rfl)
      exact ⟨x, by rw [ht, Family.set_of_ne _ hmn, hx], .refl x⟩
  · exact hset hz hmonitor.monitors (hmonitor.works.leads (h.agrees n z hz))
  · cases helse <;> exact ⟨x, hx, .refl x⟩

/-! ### Steps -/

theorem step_fresh (h : s.Orderly) (hstep : s.step a = some t) (m : ℕ) (hm : t.nextMonitor ≤ m) :
    t.monitors m = none := by
  have hset : ∀ {n z}, s.monitors n ≠ none → t.nextMonitor = s.nextMonitor → t.monitors = s.monitors.set n z →
      t.monitors m = none := by
    intro n z hn hnext ht
    have hfree : s.monitors m = none := h.fresh m (by omega)
    have hmn : m ≠ n := by
      rintro rfl
      exact hn hfree
    rw [ht, Family.set_of_ne _ hmn, hfree]
  rcases step_cases hstep with ⟨i, c, p, -, hcall⟩ | ⟨n, z, z', hz, hmonitor⟩ | helse
  · rcases hcall.monitors with ⟨hnext, ht | ⟨n, z, holder, hz, ht⟩⟩ | ⟨-, hnext, z, ht, -⟩
    · rw [ht]
      exact h.fresh m (by omega)
    · exact hset (by simp [hz]) hnext ht
    · rw [ht, Family.set_of_ne _ (by omega)]
      exact h.fresh m (by omega)
  · exact hset (by simp [hz]) hmonitor.nextMonitor hmonitor.monitors
  · cases helse <;> exact h.fresh m hm

theorem step_agrees (h : s.Orderly) (hstep : s.step a = some t) (hx : t.monitors m = some x) : x.Agrees := by
  have hset : ∀ {n z}, z.Agrees → t.monitors = s.monitors.set n (some z) → x.Agrees := by
    intro n z hz ht
    by_cases hmn : m = n
    · rw [ht, hmn, Family.set_self, Option.some.injEq] at hx
      exact hx ▸ hz
    · rw [ht, Family.set_of_ne _ hmn] at hx
      exact h.agrees m x hx
  rcases step_cases hstep with ⟨i, c, p, -, hcall⟩ | ⟨n, z, z', hz, hmonitor⟩ | helse
  · rcases hcall.monitors with ⟨-, ht | ⟨n, z, holder, hz, ht⟩⟩ | ⟨-, -, z, ht, hz⟩
    · exact h.agrees m x (ht ▸ hx)
    · have hagrees : ({ z with holder := holder } : Monitor).Agrees := h.agrees n z hz
      exact hset hagrees ht
    · refine hset ?_ ht
      rcases hz with rfl | ⟨e, -, rfl⟩ <;> simp [Monitor.Agrees]
  · exact hset (hmonitor.works.agrees (h.agrees n z hz)) hmonitor.monitors
  · cases helse <;> exact h.agrees m x hx

section

variable (h : s.Orderly) (hc : s.calls i = some c) (hcall : s.CallStep a i c p t)
include h hc hcall

theorem call_other (hj : j ≠ i) (hd : s.calls j = some d) (hholds : d.phase.holdsRegister = true) :
    t.registrar = some j ∧ t.register d.pid = none := by
  obtain ⟨hregistrar, hvacant⟩ := h.registrar j d hd hholds
  have hnot : c.phase.holdsRegister = false := by
    by_contra hi
    exact hj (h.registrar_unique hd hc hholds (Bool.eq_true_of_not_eq_false hi))
  have hsame : t.register = s.register := by
    rcases hcall.registers with ⟨-, hsame⟩ | ⟨-, deadline, m, hphase, -⟩
    · exact hsame
    · rw [hphase] at hnot
      cases hnot
  rw [hsame]
  cases hcall.registrar with
  | keep _ registrar => exact ⟨registrar.trans hregistrar, hvacant⟩
  | take _ _ free _ _ => cases free.symm.trans hregistrar
  | release before _ _ => cases before.symm.trans hnot

/-- A call that has moved holds the register if it has found no monitor there. -/
theorem call_self (hholds : p.holdsRegister = true) : t.registrar = some i ∧ t.register c.pid = none := by
  have hsame : t.register = s.register := by
    rcases hcall.registers with ⟨-, hsame⟩ | ⟨hp, -⟩
    · exact hsame
    · cases hp.symm.trans hholds
  rw [hsame]
  cases hcall.registrar with
  | keep phase registrar =>
    rw [registrar]
    exact h.registrar i c hc (phase.symm.trans hholds)
  | take _ _ _ vacant registrar => exact ⟨registrar, vacant⟩
  | release _ after _ => cases after.symm.trans hholds

theorem call_lists (hm : s.Lists pid m) : t.register pid = some m ∨
    ∃ j d deadline, t.calls j = some d ∧ d.pid = pid ∧ d.phase = .registering deadline m := by
  rcases h.lists pid m hm with hregister | ⟨j, d, deadline, hd, rfl, hphase⟩
  · rcases hcall.register with hsame | ⟨deadline, n, hphase, hset⟩
    · exact .inl (hsame ▸ hregister)
    · have hpid : pid ≠ c.pid := by
        rintro rfl
        cases hregister.symm.trans (h.registrar i c hc (by rw [hphase]; rfl)).2
      exact .inl (by rw [hset, Family.set_of_ne _ hpid, hregister])
  · by_cases hj : j = i
    · subst hj
      obtain rfl := Option.some.inj (hc.symm.trans hd)
      rcases hcall.registers with ⟨hnot, -⟩ | ⟨-, deadline', n, hphase', hset⟩
      · exact absurd hphase (hnot _ _)
      · cases hphase.symm.trans hphase'
        exact .inl (by rw [hset, Family.set_self])
    · exact .inr ⟨j, d, deadline, by rw [hcall.calls, Family.set_of_ne _ hj, hd], rfl, hphase⟩

theorem call (hstep : s.step a = some t) : t.Orderly := by
  have hlists : ∀ {pid m}, t.Lists pid m ↔ s.Lists pid m ∨ m = s.nextMonitor ∧ pid = c.pid ∧
      ∃ deadline, p = .registering deadline m := fun {_ _} => hcall.lists_iff (h.fresh _ le_rfl)
  have hother : ∀ {j}, j ≠ i → t.calls j = s.calls j := fun hj => by rw [hcall.calls, Family.set_of_ne _ hj]
  have hself : t.calls i = some { c with phase := p } := by rw [hcall.calls, Family.set_self]
  refine ⟨h.step_fresh hstep, fun m x => h.step_agrees hstep, fun j d hd hholds => ?_, fun pid m hm => ?_,
    fun j d deadline m hd hphase => ?_, fun pid m hm => ?_⟩
  · by_cases hj : j = i
    · subst hj
      obtain rfl := Option.some.inj (hself.symm.trans hd)
      exact h.call_self (c := c) hc hcall hholds
    · exact h.call_other hc hcall hj (hother hj ▸ hd) hholds
  · rw [hlists]
    rcases hcall.register with hsame | ⟨deadline, n, hphase, hset⟩
    · exact .inl (h.registered pid m (hsame ▸ hm))
    · by_cases hpid : pid = c.pid
      · rw [hset, hpid, Family.set_self, Option.some.injEq] at hm
        subst hm hpid
        exact .inl (h.registering i c deadline n hc hphase)
      · rw [hset, Family.set_of_ne _ hpid] at hm
        exact .inl (h.registered pid m hm)
  · rw [hlists]
    by_cases hj : j = i
    · subst hj
      obtain rfl := Option.some.inj (hself.symm.trans hd)
      dsimp only at hphase
      subst hphase
      cases hcall.moves with
      | starts => exact .inr ⟨rfl, rfl, _, rfl⟩
    · exact .inl (h.registering j d deadline m (hother hj ▸ hd) hphase)
  · rcases hlists.1 hm with hm | ⟨rfl, rfl, deadline, rfl⟩
    · exact h.call_lists hc hcall hm
    · exact .inr ⟨i, _, deadline, hself, rfl, rfl⟩

end

theorem monitor (h : s.Orderly) (hx : s.monitors n = some x) (hstep : s.step a = some t)
    (hmonitor : s.MonitorStep a n x x' t) : t.Orderly := by
  have hholds : ∀ {j d}, d.phase.holdsRegister = true → (t.calls j = some d ↔ s.calls j = some d) := by
    intro j d hd
    apply hmonitor.calls_iff
    all_goals
      intros
      intro hphase
      rw [hphase] at hd
      cases hd
  have hpid := hmonitor.works.pid_eq
  rcases hmonitor.unlists with ⟨hlisted, hregister⟩ | ⟨hfree, hlisted, hunlisted, hregister⟩
  · have hlists : ∀ {pid m}, t.Lists pid m ↔ s.Lists pid m :=
      fun {_ _} => lists_set_congr hx hmonitor.monitors hpid hlisted
    refine ⟨h.step_fresh hstep, fun m x => h.step_agrees hstep, fun j d hd hregistrar => ?_, fun pid m hm => ?_,
      fun j d deadline m hd hphase => ?_, fun pid m hm => ?_⟩
    · rw [hmonitor.registrar, hregister]
      exact h.registrar j d ((hholds hregistrar).1 hd) hregistrar
    · exact hlists.2 (h.registered pid m (hregister ▸ hm))
    · exact hlists.2 (h.registering j d deadline m ((hholds (by rw [hphase]; rfl)).1 hd) hphase)
    · rw [hregister]
      rcases h.lists pid m (hlists.1 hm) with hm | ⟨j, d, deadline, hd, hdpid, hphase⟩
      · exact .inl hm
      · exact .inr ⟨j, d, deadline, (hholds (by rw [hphase]; rfl)).2 hd, hdpid, hphase⟩
  · -- the register is free, so the monitor is on it and nobody is about to put one there
    have hnone : ∀ {j d}, t.calls j = some d → d.phase.holdsRegister = true → False := by
      intro j d hd hregistrar
      cases hfree.symm.trans (h.registrar j d ((hholds hregistrar).1 hd) hregistrar).1
    have hmine : s.register x.pid = some n := h.register_of_lists hfree ⟨x, hx, rfl, hlisted⟩
    rw [if_pos hmine] at hregister
    have hlists : ∀ {pid m}, t.Lists pid m ↔ m ≠ n ∧ s.Lists pid m := by
      intro pid m
      rw [lists_set hmonitor.monitors]
      split_ifs with hmn <;> simp [hmn, hunlisted]
    refine ⟨h.step_fresh hstep, fun m x => h.step_agrees hstep, fun j d hd hregistrar => (hnone hd hregistrar).elim,
      fun pid m hm => ?_, fun j d deadline m hd hphase => (hnone hd (by rw [hphase]; rfl)).elim, fun pid m hm => ?_⟩
    · rw [hregister] at hm
      by_cases hp : pid = x.pid
      · rw [hp, Family.set_self] at hm
        cases hm
      · rw [Family.set_of_ne _ hp] at hm
        refine hlists.2 ⟨?_, h.registered pid m hm⟩
        rintro rfl
        obtain ⟨y, hy, rfl, -⟩ := h.registered pid m hm
        cases hx.symm.trans hy
        exact hp rfl
    · obtain ⟨hmn, hm⟩ := hlists.1 hm
      have hm' := h.register_of_lists hfree hm
      have hp : pid ≠ x.pid := by
        rintro rfl
        exact hmn (Option.some.inj (hm'.symm.trans hmine))
      exact .inl (by rw [hregister, Family.set_of_ne _ hp, hm'])

theorem step (h : s.Orderly) (hstep : s.step a = some t) : t.Orderly := by
  rcases step_cases hstep with ⟨i, c, p, hc, hcall⟩ | ⟨n, x, x', hx, hmonitor⟩ | helse
  · exact h.call hc hcall hstep
  · exact h.monitor hx hstep hmonitor
  · cases helse with
    | launch | terminate | tick => exact ⟨h.fresh, h.agrees, h.registrar, h.registered, h.registering, h.lists⟩
    | @begin i pid limit free =>
      -- a call that begins holds nothing
      have hcalls : ∀ {j d}, d.phase.holdsRegister = true →
          (s.calls.set i (some ⟨pid, limit, .starting⟩) j = some d ↔ s.calls j = some d) := by
        intro j d hd
        apply calls_begin_iff free
        intro hphase
        rw [hphase] at hd
        cases hd
      refine ⟨h.fresh, h.agrees, fun j d hd hholds => h.registrar j d ((hcalls hholds).1 hd) hholds, h.registered,
        fun j d deadline m hd hphase => h.registering j d deadline m ((hcalls (by rw [hphase]; rfl)).1 hd) hphase,
        fun pid m hm => ?_⟩
      rcases h.lists pid m hm with hm | ⟨j, d, deadline, hd, hdpid, hphase⟩
      · exact .inl hm
      · exact .inr ⟨j, d, deadline, (hcalls (by rw [hphase]; rfl)).2 hd, hdpid, hphase⟩

theorem follow (h : s.Orderly) (hrun : s.follow acts = some t) : t.Orderly := by
  induction acts using List.reverseRecOn generalizing t with
  | nil =>
    cases hrun
    exact h
  | append_singleton acts a ih =>
    obtain ⟨u, hu, hstep⟩ := follow_concat_eq_some_iff.1 hrun
    exact (ih hu).step hstep

theorem exists_leads_follow (h : s.Orderly) (hx : s.monitors m = some x) (hrun : s.follow acts = some t) :
    ∃ y, t.monitors m = some y ∧ x.Leads y := by
  induction acts using List.reverseRecOn generalizing t with
  | nil =>
    cases hrun
    exact ⟨x, hx, .refl x⟩
  | append_singleton acts a ih =>
    obtain ⟨u, hu, hstep⟩ := follow_concat_eq_some_iff.1 hrun
    obtain ⟨y, hy, hxy⟩ := ih hu
    obtain ⟨z, hz, hyz⟩ := (h.follow hu).exists_leads hy hstep
    exact ⟨z, hz, hxy.trans hyz⟩

end Orderly

/-! ### Runs -/

theorem Orderly.action_of_removed (h : s.Orderly) (hm : s.register pid = some m) (hstep : s.step a = some t)
    (hremoved : t.register pid ≠ some m) : a = .monitor m ∧ t.register pid = none := by
  rcases step_cases hstep with ⟨i, c, p, hc, hcall⟩ | ⟨n, x, x', hx, hmonitor⟩ | helse
  · rcases hcall.register with hsame | ⟨deadline, n, hphase, hset⟩
    · exact absurd (hsame ▸ hm) hremoved
    · have hpid : pid ≠ c.pid := by
        rintro rfl
        cases hm.symm.trans (h.registrar i c hc (by rw [hphase]; rfl)).2
      rw [hset, Family.set_of_ne _ hpid] at hremoved
      exact absurd hm hremoved
  · rcases hmonitor.unlists with ⟨-, hsame⟩ | ⟨-, -, hunlisted, hregister⟩
    · exact absurd (hsame ▸ hm) hremoved
    · have hmine : s.register x.pid = some n ∧ pid = x.pid := by
        by_contra hnot
        refine hremoved ?_
        rw [hregister]
        split_ifs with hn
        · rw [Family.set_of_ne _ fun hp => hnot ⟨hn, hp⟩, hm]
        · exact hm
      obtain ⟨hn, rfl⟩ := hmine
      obtain rfl := Option.some.inj (hm.symm.trans hn)
      rw [hregister, if_pos hn, Family.set_self]
      rcases hmonitor.action with ha | ⟨-, hwaiting⟩
      · exact ⟨ha, rfl⟩
      · rw [hwaiting] at hunlisted
        cases hunlisted
  · cases helse <;> exact absurd hm hremoved

theorem Orderly.action_of_told (h : s.Orderly) (hstep : s.step a = some t) (hx : t.monitors m = some x)
    (htold : x.state ≠ .running) (hbefore : ∀ y, s.monitors m = some y → y.state = .running) :
    a = .monitor m ∨ ∃ i e, a = .refuse i e ∧ x.state = .failed e := by
  have hold : s.monitors m ≠ some x := fun hy => htold (hbefore x hy)
  rcases step_cases hstep with ⟨i, c, p, -, hcall⟩ | ⟨n, z, z', hz, hmonitor⟩ | helse
  · rcases hcall.monitors with ⟨-, ht | ⟨n, z, holder, hz, ht⟩⟩ | ⟨-, -, z, ht, hz⟩
    · exact absurd (ht ▸ hx) hold
    · by_cases hmn : m = n
      · subst hmn
        rw [ht, Family.set_self, Option.some.injEq] at hx
        subst hx
        exact absurd (hbefore z hz) htold
      · rw [ht, Family.set_of_ne _ hmn] at hx
        exact absurd hx hold
    · by_cases hmn : m = s.nextMonitor
      · rw [ht, hmn, Family.set_self, Option.some.injEq] at hx
        subst hx
        rcases hz with rfl | ⟨e, ha, rfl⟩
        · exact absurd rfl htold
        · exact .inr ⟨i, e, ha, rfl⟩
      · rw [ht, Family.set_of_ne _ hmn] at hx
        exact absurd hx hold
  · by_cases hmn : m = n
    · subst hmn
      rw [hmonitor.monitors, Family.set_self, Option.some.injEq] at hx
      subst hx
      rcases hmonitor.action with ha | ⟨-, hwaiting⟩
      · exact .inl ha
      · have hagrees := hmonitor.works.agrees (h.agrees m z hz)
        exact absurd (hagrees.running (by rw [hwaiting]; rfl)) htold
    · rw [hmonitor.monitors, Family.set_of_ne _ hmn] at hx
      exact absurd hx hold
  · cases helse <;> exact absurd hx hold

/-- The state that a monitor has told by the end of a run is the one it has had since one action of the run. -/
theorem exists_told (h : s₀.Orderly) (hnone : s₀.monitors m = none) (hrun : s₀.follow acts = some s)
    (hx : s.monitors m = some x) (htold : x.state ≠ .running) :
    ∃ before a, before ++ [a] <+: acts ∧ (a = .monitor m ∨ ∃ i e, a = .refuse i e ∧ x.state = .failed e) ∧
      ∀ part u, part <+: acts → s₀.follow part = some u →
        (part <+: before → ∀ y, u.monitors m = some y → y.state = .running) ∧
        (before ++ [a] <+: part → ∃ y, u.monitors m = some y ∧ y.state = x.state) := by
  induction acts using List.reverseRecOn generalizing s x with
  | nil =>
    cases hrun
    cases hnone.symm.trans hx
  | append_singleton acts a ih =>
    obtain ⟨t, ht, hstep⟩ := follow_concat_eq_some_iff.1 hrun
    by_cases hbefore : ∀ y, t.monitors m = some y → y.state = .running
    · refine ⟨acts, a, List.prefix_rfl, (h.follow ht).action_of_told hstep hx htold hbefore,
        fun part u hpart hu => ⟨fun hpre y hy => ?_, fun hpre => ?_⟩⟩
      · -- had it told something then, it would have told it by now
        obtain ⟨rest, rfl⟩ := hpre
        obtain ⟨u', hu', hrest⟩ := follow_append_eq_some_iff.1 ht
        obtain rfl := Option.some.inj (hu.symm.trans hu')
        obtain ⟨z, hz, hleads⟩ := (h.follow hu).exists_leads_follow hy hrest
        by_contra hne
        exact hne ((hleads.state hne).symm.trans (hbefore z hz))
      · obtain rfl := hpart.eq_of_length_le hpre.length_le
        obtain rfl := Option.some.inj (hu.symm.trans hrun)
        exact ⟨x, hx, rfl⟩
    · push Not at hbefore
      obtain ⟨y, hy, hytold⟩ := hbefore
      obtain ⟨z, hz, hleads⟩ := (h.follow ht).exists_leads hy hstep
      obtain rfl := Option.some.inj (hx.symm.trans hz)
      obtain ⟨before, b, hpre, haction, hparts⟩ := ih ht hy hytold
      rw [hleads.state hytold]
      refine ⟨before, b, hpre.trans (List.prefix_append _ _), haction, fun part u hpart hu => ?_⟩
      rcases List.prefix_concat_iff.1 hpart with rfl | hpart
      · obtain rfl := Option.some.inj (hu.symm.trans hrun)
        refine ⟨fun hpre' => ?_, fun _ => ⟨x, hx, hleads.state hytold⟩⟩
        have hle := hpre'.length_le.trans (hpre.length_le.trans' (by simp))
        simp at hle
      · exact hparts part u hpart hu

/-- What comes of a thread that could not be started: a monitor that has failed and was never put on the register. -/
theorem exists_refused (h : s₀.Orderly) (hrun : s₀.follow acts = some s) {before : List Action} {e : OsError}
    (hpart : before ++ [.refuse i e] <+: acts) : ∃ u t c deadline, s₀.follow before = some u ∧
      u.step (.refuse i e) = some t ∧ u.calls i = some c ∧
      t.calls i = some { c with phase := .locking deadline u.nextMonitor } ∧
      t.monitors u.nextMonitor = some ⟨c.pid, .failed e, .finished, none⟩ ∧
      ∀ part v pid, part <+: acts → s₀.follow part = some v → v.register pid ≠ some u.nextMonitor := by
  obtain ⟨rest, rfl⟩ := hpart
  obtain ⟨t, ht, -⟩ := follow_append_eq_some_iff.1 hrun
  obtain ⟨u, hu, hstep⟩ := follow_concat_eq_some_iff.1 ht
  obtain ⟨c, hc, hrefuse⟩ := Option.bind_eq_some_iff.1 hstep
  have hnew : ∃ deadline, t.calls i = some { c with phase := .locking deadline u.nextMonitor } ∧
      t.monitors u.nextMonitor = some ⟨c.pid, .failed e, .finished, none⟩ := by
    unfold State.refuse at hrefuse
    split at hrefuse
    · rename_i deadline _
      cases hrefuse
      exact ⟨deadline, by simp [move], by simp [move, setMonitor]⟩
    · cases hrefuse
  obtain ⟨deadline, hcall, hmonitor⟩ := hnew
  refine ⟨u, t, c, deadline, hu, hstep, hc, hcall, hmonitor, fun part v pid hpart hv hregister => ?_⟩
  obtain ⟨x, hx, -, hlisted⟩ := (h.follow hv).registered pid _ hregister
  rcases List.prefix_or_prefix_of_prefix hpart (List.prefix_append (before ++ [.refuse i e]) rest) with hpre | hpre
  · rcases List.prefix_concat_iff.1 hpre with rfl | ⟨rest', rfl⟩
    · obtain rfl := Option.some.inj (hv.symm.trans ht)
      cases hmonitor.symm.trans hx
      cases hlisted
    · -- it has a number that no monitor had before
      obtain ⟨v', hv', hrest⟩ := follow_append_eq_some_iff.1 hu
      obtain rfl := Option.some.inj (hv.symm.trans hv')
      obtain ⟨y, hy, -⟩ := (h.follow hv).exists_leads_follow hx hrest
      cases hy.symm.trans ((h.follow hu).fresh _ le_rfl)
  · obtain ⟨rest', rfl⟩ := hpre
    obtain ⟨t', ht', hrest⟩ := follow_append_eq_some_iff.1 hv
    obtain rfl := Option.some.inj (ht.symm.trans ht')
    obtain ⟨y, hy, hleads⟩ := (h.follow ht).exists_leads_follow hmonitor hrest
    obtain rfl := Option.some.inj (hx.symm.trans hy)
    cases hleads.listed hlisted

/-- A monitor that is on the register runs, and its thread has still to take it off; for each child there is no
more than one such monitor, on the register or not. No other thread takes it off. A monitor whose thread could
not be started has failed by the time a call gets to see it, and is never on the register. A monitor has told
what it saw when its thread is past that point and not before: one action of the run has made the difference, and
nothing has changed since. -/
theorem monitored_once (hrun : initial.follow acts = some s) :
    (∀ pid m, s.register pid = some m → s.Lists pid m ∧ ∃ x, s.monitors m = some x ∧ x.state = .running) ∧
    (∀ pid m n, s.Lists pid m → s.Lists pid n → m = n) ∧
    (∀ pid m a t, s.register pid = some m → s.step a = some t → t.register pid ≠ some m →
      a = .monitor m ∧ t.register pid = none) ∧
    (∀ before i e, before ++ [.refuse i e] <+: acts → ∃ u t c deadline, initial.follow before = some u ∧
      u.step (.refuse i e) = some t ∧ u.calls i = some c ∧
      t.calls i = some { c with phase := .locking deadline u.nextMonitor } ∧
      t.monitors u.nextMonitor = some ⟨c.pid, .failed e, .finished, none⟩ ∧
      ∀ part v pid, part <+: acts → initial.follow part = some v → v.register pid ≠ some u.nextMonitor) ∧
    ∀ m x, s.monitors m = some x → (x.state = .running ↔ x.phase ≠ .notifying ∧ x.phase ≠ .finished) ∧
      (x.state ≠ .running → ∃ before a, before ++ [a] <+: acts ∧
        (a = .monitor m ∨ ∃ i e, a = .refuse i e ∧ x.state = .failed e) ∧
        ∀ part u, part <+: acts → initial.follow part = some u →
          (part <+: before → ∀ y, u.monitors m = some y → y.state = .running) ∧
          (before ++ [a] <+: part → ∃ y, u.monitors m = some y ∧ y.state = x.state)) := by
  have h := orderly_initial.follow hrun
  refine ⟨fun pid m hm => ?_, fun pid m n => h.lists_unique, fun pid m a t => h.action_of_removed,
    fun before i e hpart => exists_refused orderly_initial hrun hpart, fun m x hx => ⟨?_, fun htold => ?_⟩⟩
  · have hlists := h.registered pid m hm
    obtain ⟨x, hx, -, hlisted⟩ := hlists
    exact ⟨h.registered pid m hm, x, hx, (h.agrees m x hx).running hlisted⟩
  · exact (h.agrees m x hx).running_iff
  · exact exists_told orderly_initial rfl hrun hx htold

/-- The thread of the first monitor cannot be started. That of the second has seen the end of the child before the
monitor is on the register, and takes it off when the call that started it has let go of the register. -/
theorem monitored_once_overtaken :
    let before : List Action :=
      [.launch 7, .begin 1 7 (some 10), .begin 2 7 (some 10), .advance 1, .advance 1, .advance 1, .advance 1,
        .refuse 1 .tryAgain, .advance 2, .advance 2, .advance 2, .advance 2, .advance 2, .monitor 1,
        .terminate 7 (.exited 3), .monitor 1, .advance 2]
    let acts : List Action := before ++ [.monitor 1, .monitor 1]
    ∃ s t, initial.follow before = some s ∧ s.register 7 = some 1 ∧ s.Lists 7 1 ∧
      initial.follow acts = some t ∧ t.register 7 = none ∧
      (∀ part v pid, part <+: acts → initial.follow part = some v → v.register pid ≠ some 0) ∧
      ∃ y, t.monitors 1 = some y ∧ y.state = .ended ∧ ∃ part a, part ++ [a] <+: acts ∧
        (a = .monitor 1 ∨ ∃ i e, a = .refuse i e ∧ y.state = .failed e) := by
  intro before acts
  have hmiddle : (initial.follow before).map (·.register 7) = some (some 1) := by decide
  have hend : (initial.follow acts).map (fun t => (t.register 7, t.monitors 1)) =
      some (none, some ⟨7, .ended, .notifying, none⟩) := by decide
  obtain ⟨s, hs, hregister⟩ := Option.map_eq_some_iff.1 hmiddle
  obtain ⟨t, ht, htold'⟩ := Option.map_eq_some_iff.1 hend
  obtain ⟨hremoved, hended⟩ := Prod.mk.inj htold'
  obtain ⟨hregistered, -⟩ := monitored_once hs
  obtain ⟨-, -, -, hrefused, htold⟩ := monitored_once ht
  have hpart : before.take 7 ++ [.refuse 1 .tryAgain] <+: acts := by decide
  obtain ⟨u, -, -, -, hu, -, -, -, -, hnever⟩ := hrefused _ 1 .tryAgain hpart
  have hfirst : (initial.follow (before.take 7)).map (·.nextMonitor) = some 0 := by decide
  rw [hu, Option.map_some, Option.some.injEq] at hfirst
  obtain ⟨part, a, hpart, haction, -⟩ := (htold 1 _ hended).2 nofun
  exact ⟨s, t, hs, hregister, (hregistered 7 1 hregister).1, ht, hremoved, hfirst ▸ hnever, _, hended, rfl, part, a,
    hpart, haction⟩

end State

end Waiting

end Groundwork
