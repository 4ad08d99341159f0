import Groundwork.Proofs.Waiting.Register
import Groundwork.Proofs.Waiting.Reaping

/-!
# Process numbers that are given again

When a child has been reaped its number can be given to a new child while the monitor of the old one is still
at work. A call on the new child that finds such a monitor on the register is told what became of the old
child. `Misled` says that this has happened to a call, and nothing else comes between a call and its own child:
`Recycled` is what all other calls know of the child's fate.

That a monitor takes itself off the register before it tells what it has seen does not help. It has seen it
before it leaves, and the old child can be reaped, its number be given again and a call find the monitor in
between, as the runs at the end of this file show.
-/

namespace Groundwork

namespace Waiting

namespace State

variable {s₀ s t : State} {a : Action} {acts : List Action} {P : State → Prop}

def Sometime (s₀ : State) (acts : List Action) (P : State → Prop) : Prop :=
  ∃ before u, before <+: acts ∧ s₀.follow before = some u ∧ P u

theorem Sometime.concat (h : s₀.Sometime acts P) (a : Action) : s₀.Sometime (acts ++ [a]) P := by
  obtain ⟨before, u, hprefix, hu⟩ := h
  exact ⟨before, u, hprefix.trans (List.prefix_append _ _), hu⟩

theorem Sometime.now (hrun : s₀.follow acts = some s) (h : P s) : s₀.Sometime acts P :=
  ⟨acts, s, List.prefix_rfl, hrun, h⟩

end State

section

variable (s₀ : State) (pid : ℕ) (acts : List Action)

/-- A monitor of `pid` that has asked the system before. -/
def Stale (m : ℕ) : Prop :=
  ∃ x, s₀.monitors m = some x ∧ x.pid = pid ∧ ¬ (x.state = .running ∧ x.phase = .waiting)

def Joined (i m : ℕ) : Prop :=
  s₀.Sometime acts fun u => ∃ c deadline, u.calls i = some c ∧ c.phase = .locking deadline m

/-- Call `i` has come to look at a monitor that had asked before `s₀`. -/
def Misled (i : ℕ) : Prop := ∃ m, Joined s₀ acts i m ∧ Stale s₀ pid m

/-- When call `i` read the clock its deadline was beyond all that deadlines can say. -/
def Endless (i : ℕ) : Prop :=
  s₀.Sometime acts fun u => ∃ c d, u.calls i = some c ∧ c.phase = .timing ∧ c.limit = some d ∧ timeBound ≤ u.now + d

/-- A monitor's thread could not be started for lack of a child. -/
def Refused : Prop := ∃ j, .refuse j .noChild ∈ acts

def Knows (f : Fate) (i : ℕ) (limit : Timeout) : Phase → Prop
  | .blocking => limit = none ∨ Endless s₀ acts i ∨ Misled s₀ pid acts i ∨ f ≠ .running
  | .blocked serial =>
    serial = s₀.nextSerial ∧ (limit = none ∨ Endless s₀ acts i ∨ Misled s₀ pid acts i ∨ f ≠ .running)
  | .locking _ m | .inspecting _ m | .deciding _ m | .retiring _ m _ | .sleeping _ m _ => Joined s₀ acts i m
  | .reaping => Misled s₀ pid acts i ∨ f ≠ .running
  | .finished o => (o.IsEnd → ∃ status, f = .reaped status i ∧ o = .ofStatus status) ∧
    (o = .failed .noChild → f.IsReaped ∨ Refused acts ∨ Misled s₀ pid acts i)
  | .starting | .polling | .timing | .watching _ | .engaging _ | .registering _ _ => True

/-- The calls that have begun since `s₀`, and the monitors that have asked since, agree with the fate of the child
that was launched as `pid` in `s₀`. -/
structure Recycled (s : State) (f : Fate) : Prop where
  child : s.children pid = f.child s₀.nextSerial
  monitors : ∀ m x, s.monitors m = some x → x.pid = pid → ¬ Stale s₀ pid m →
    ThreadOk s₀ f (Refused acts) x.phase ∧ Told f (Refused acts) x.state
  calls : ∀ i c, s₀.calls i = none → s.calls i = some c → c.pid = pid → Knows s₀ pid acts f i c.limit c.phase

end

variable {s₀ s t : State} {pid i m : ℕ} {acts : List Action} {a : Action} {f f' : Fate} {c : Call} {p : Phase}

theorem Misled.concat (h : Misled s₀ pid acts i) (a : Action) : Misled s₀ pid (acts ++ [a]) i := by
  obtain ⟨m, hjoined, hstale⟩ := h
  exact ⟨m, State.Sometime.concat hjoined a, hstale⟩

theorem Refused.concat (h : Refused acts) (a : Action) : Refused (acts ++ [a]) := by
  obtain ⟨j, hj⟩ := h
  exact ⟨j, List.mem_append_left _ hj⟩

theorem Knows.concat {limit : Timeout} (h : Knows s₀ pid acts f i limit p) (hlead : f.Leads f') (a : Action) :
    Knows s₀ pid (acts ++ [a]) f' i limit p := by
  have hrunning : f ≠ .running → f' ≠ .running := fun hne heq => hne (hlead.running heq)
  have hblocking : (limit = none ∨ Endless s₀ acts i ∨ Misled s₀ pid acts i ∨ f ≠ .running) →
      limit = none ∨ Endless s₀ (acts ++ [a]) i ∨ Misled s₀ pid (acts ++ [a]) i ∨ f' ≠ .running := by
    rintro (hnone | hendless | hmisled | hne)
    · exact .inl hnone
    · exact .inr (.inl (State.Sometime.concat hendless a))
    · exact .inr (.inr (.inl (hmisled.concat a)))
    · exact .inr (.inr (.inr (hrunning hne)))
  cases p with
  | blocking => exact hblocking h
  | blocked serial => exact ⟨h.1, hblocking h.2⟩
  | locking | inspecting | deciding | retiring | sleeping => exact State.Sometime.concat h a
  | reaping => exact h.imp (·.concat a) hrunning
  | finished o =>
    refine ⟨fun hend => ?_, fun hno => ?_⟩
    · obtain ⟨status, hf, ho⟩ := h.1 hend
      exact ⟨status, hlead.reaped status i hf, ho⟩
    · exact (h.2 hno).imp hlead.isReaped (Or.imp (·.concat a) (·.concat a))
  | starting | polling | timing | watching | engaging | registering => trivial

theorem exists_turn (hchild : s.children pid = f.child s₀.nextSerial) (ha : a ≠ .launch pid)
    (hstep : s.step a = some t) :
    ∃ f', Fate.Turn pid f a f' ∧ f.Leads f' ∧ t.children pid = f'.child s₀.nextSerial := by
  have hkeep : t.children pid = s.children pid →
      ∃ f', Fate.Turn pid f a f' ∧ f.Leads f' ∧ t.children pid = f'.child s₀.nextSerial :=
    fun h => ⟨f, .keep, .refl f, h.trans hchild⟩
  rcases State.step_cases hstep with ⟨i, c, p, -, hcall⟩ | ⟨m, x, x', -, hmonitor⟩ | helse
  · rcases hcall.children with hsame | ⟨k, status, rfl, hended, -, htaken⟩
    · exact hkeep (by rw [hsame])
    · by_cases hp : pid = c.pid
      · rw [← hp, hchild] at hended
        obtain rfl := Fate.eq_ended_of_child hended
        exact ⟨_, .taken, ⟨nofun, nofun⟩, by rw [htaken, ← hp, Family.set_self]; rfl⟩
      · exact hkeep (by rw [htaken, Family.set_of_ne _ hp])
  · exact hkeep (by rw [hmonitor.children])
  · cases helse with
    | @launch q free =>
      have hq : pid ≠ q := by
        rintro rfl
        exact ha rfl
      exact hkeep (Family.set_of_ne _ hq _)
    | @terminate q k status hrunning =>
      by_cases hq : pid = q
      · subst hq
        rw [hchild] at hrunning
        obtain rfl := Fate.eq_running_of_child hrunning
        obtain rfl : k = s₀.nextSerial := Fate.serial_of_child hrunning
        exact ⟨_, .ends, ⟨nofun, nofun⟩, Family.set_self _ _ _⟩
      · exact hkeep (Family.set_of_ne _ hq _)
    | begin | tick => exact hkeep rfl

namespace Recycled

variable (h : Recycled s₀ pid acts s f)
include h

theorem serial_of_child {y : Child} (hy : s.children pid = some y) : y.serial = s₀.nextSerial :=
  Fate.serial_of_child (h.child.symm.trans hy)

theorem eq_running {k : ℕ} (hy : s.children pid = some ⟨k, none⟩) : f = .running :=
  Fate.eq_running_of_child (h.child.symm.trans hy)

theorem isReaped (hy : s.children pid = none) : f.IsReaped := Fate.isReaped_of_child (h.child.symm.trans hy)

theorem works {x x' : Monitor} (hworks : s.Works x x') (hpid : x.pid = pid)
    (hx : ThreadOk s₀ f (Refused acts) x.phase ∧ Told f (Refused acts) x.state) :
    ThreadOk s₀ f (Refused acts) x'.phase ∧ Told f (Refused acts) x'.state := by
  obtain ⟨hthread, htold⟩ := hx
  subst hpid
  cases hworks with
  | misses phase child => exact ⟨fun _ => .inl (h.isReaped child), htold⟩
  | loses phase child other =>
    rw [phase] at hthread
    exact absurd ((h.serial_of_child child).trans hthread.symm) other
  | sees phase child =>
    refine ⟨fun hrunning => ?_, htold⟩
    obtain rfl := Fate.eq_ended_of_child (h.child.symm.trans child)
    cases hrunning
  | attaches phase child => exact ⟨h.serial_of_child child, htold⟩
  | leaves phase =>
    rw [phase] at hthread
    exact ⟨hthread, htold⟩
  | tells phase =>
    rw [phase] at hthread
    exact ⟨trivial, hthread⟩
  | finishes | interrupted => exact ⟨trivial, htold⟩

theorem step_monitors (hlead : f.Leads f') (hstep : s.step a = some t) {x : Monitor} (hx : t.monitors m = some x)
    (hpid : x.pid = pid) (hfresh : ¬ Stale s₀ pid m) :
    ThreadOk s₀ f' (Refused (acts ++ [a])) x.phase ∧ Told f' (Refused (acts ++ [a])) x.state := by
  have hmono : ∀ {y : Monitor}, ThreadOk s₀ f (Refused acts) y.phase ∧ Told f (Refused acts) y.state →
      ThreadOk s₀ f' (Refused (acts ++ [a])) y.phase ∧ Told f' (Refused (acts ++ [a])) y.state :=
    fun hy => ⟨hy.1.mono hlead (·.concat a), hy.2.mono hlead (·.concat a)⟩
  have hold : ∀ {y : Monitor}, s.monitors m = some y → y.pid = pid →
      ThreadOk s₀ f (Refused acts) y.phase ∧ Told f (Refused acts) y.state := fun hy hp => h.monitors m _ hy hp hfresh
  rcases State.step_cases hstep with ⟨i, c, p, -, hcall⟩ | ⟨n, y, y', hy, hmonitor⟩ | helse
  · rcases hcall.monitors with ⟨-, ht | ⟨n, y, holder, hy, ht⟩⟩ | ⟨-, -, y, ht, hnew⟩
    · exact hmono (hold (ht ▸ hx) hpid)
    · by_cases hmn : m = n
      · subst hmn
        rw [ht, Family.set_self, Option.some.injEq] at hx
        subst hx
        exact hmono (y := y) (hold hy hpid)
      · rw [ht, Family.set_of_ne _ hmn] at hx
        exact hmono (hold hx hpid)
    · by_cases hmn : m = s.nextMonitor
      · rw [ht, hmn, Family.set_self, Option.some.injEq] at hx
        subst hx
        rcases hnew with rfl | ⟨e, rfl, rfl⟩
        · exact ⟨trivial, trivial⟩
        · refine ⟨trivial, ?_⟩
          rintro rfl
          exact .inr ⟨i, List.mem_append_right _ (List.mem_singleton_self _)⟩
      · rw [ht, Family.set_of_ne _ hmn] at hx
        exact hmono (hold hx hpid)
  · by_cases hmn : m = n
    · subst hmn
      rw [hmonitor.monitors, Family.set_self, Option.some.injEq] at hx
      subst hx
      have hpid' : y.pid = pid := hmonitor.works.pid_eq.symm.trans hpid
      exact hmono (h.works hmonitor.works hpid' (hold hy hpid'))
    · rw [hmonitor.monitors, Family.set_of_ne _ hmn] at hx
      exact hmono (hold hx hpid)
  · cases helse <;> exact hmono (hold hx hpid)

theorem told (henrolled : s.Enrolled) (hc : s.calls i = some c) (hpid : c.pid = pid) {m : ℕ}
    (hm : c.phase.monitor? = some m) (hjoined : Joined s₀ acts i m) {x : Monitor} (hx : s.monitors m = some x) :
    Misled s₀ pid acts i ∨ Told f (Refused acts) x.state := by
  obtain ⟨-, y, hy, hyp⟩ := henrolled.calls i c m hc hm
  obtain rfl := Option.some_inj.1 (hx.symm.trans hy)
  by_cases hstale : Stale s₀ pid m
  · exact .inl ⟨m, hjoined, hstale⟩
  · exact .inr (h.monitors m x hx (hyp.trans hpid) hstale).2

theorem moves (henrolled : s.Enrolled) (hrun : s₀.follow acts = some s) (hstep : s.step a = some t)
    (hturn : Fate.Turn pid f a f') (hlead : f.Leads f') (hchild : t.children pid = f'.child s₀.nextSerial)
    (hnew : s₀.calls i = none) (hc : s.calls i = some c) (hpid : c.pid = pid) (hcall : s.CallStep a i c p t) :
    Knows s₀ pid (acts ++ [a]) f' i c.limit p := by
  have hknows := h.calls i c hnew hc hpid
  have hrun' : s₀.follow (acts ++ [a]) = some t := State.follow_concat_eq_some_iff.2 ⟨s, hrun, hstep⟩
  have hjoins : ∀ {deadline m}, p = .locking deadline m → Joined s₀ (acts ++ [a]) i m := by
    rintro deadline m rfl
    exact State.Sometime.now hrun' ⟨_, deadline, by rw [hcall.calls, Family.set_self], rfl⟩
  subst hpid
  cases hcall.moves with
  | invalid => exact ⟨fun hend => absurd hend (Outcome.not_isEnd_failed _), fun hno => by cases hno⟩
  | blocks phase limit => exact .inl limit
  | polls | times | bounded | engages | starts => trivial
  | gone phase child =>
    exact ⟨fun hend => absurd hend (Outcome.not_isEnd_failed _), fun _ => .inl (hlead.isReaped (h.isReaped child))⟩
  | lost phase child =>
    rw [phase] at hknows
    have hnone : s.children c.pid = none := by
      by_contra hsome
      obtain ⟨y, hy⟩ := Option.ne_none_iff_exists'.1 hsome
      exact child y hy ((h.serial_of_child hy).trans hknows.1.symm)
    exact ⟨fun hend => absurd hend (Outcome.not_isEnd_failed _), fun _ => .inl (hlead.isReaped (h.isReaped hnone))⟩
  | takes action child taken =>
    obtain rfl := Fate.eq_ended_of_child (h.child.symm.trans child)
    rw [taken, Family.set_self] at hchild
    cases hturn with
    | keep => cases hchild
    | taken =>
      cases action
      exact ⟨fun _ => ⟨_, rfl, rfl⟩, fun hno => absurd hno (Outcome.ofStatus_ne_noChild _)⟩
  | waits phase child =>
    rw [phase] at hknows
    exact ⟨h.serial_of_child child, Knows.concat (p := .blocking) hknows hlead a⟩
  | expires => exact ⟨fun hend => absurd hend Outcome.not_isEnd_timedOut, fun hno => by cases hno⟩
  | unbounded phase limit =>
    rcases hlimit : c.limit with _ | d
    · exact .inl rfl
    · exact .inr (.inl (State.Sometime.concat (.now hrun ⟨c, d, hc, phase, hlimit, limit d hlimit⟩) a))
  | joins | refused | registers | wakes => exact hjoins rfl
  | locks phase | sees phase | retires phase | sleeps phase =>
    rw [phase] at hknows
    exact State.Sometime.concat hknows a
  | told phase monitor state =>
    rw [phase] at hknows
    rcases h.told henrolled hc rfl (by rw [phase]; rfl) hknows monitor with hmisled | htold
    · exact .inl (hmisled.concat a)
    · rw [state] at htold
      exact .inr fun hrunning => htold (hlead.running hrunning)
  | fails phase monitor state =>
    rw [phase] at hknows
    refine ⟨fun hend => absurd hend (Outcome.not_isEnd_failed _), fun hno => ?_⟩
    rcases h.told henrolled hc rfl (by rw [phase]; rfl) hknows monitor with hmisled | htold
    · exact .inr (.inr (hmisled.concat a))
    · cases hno
      rw [state] at htold
      exact (htold rfl).imp hlead.isReaped fun hrefused => .inl (hrefused.concat a)
  | late => exact ⟨fun hend => absurd hend Outcome.not_isEnd_timedOut, fun hno => by cases hno⟩
  | repeats phase child =>
    rw [phase] at hknows
    exact .inr (.inr (.inl ((hknows.resolve_right fun hne => hne (h.eq_running child)).concat a)))
  | interrupted phase =>
    rw [phase] at hknows
    exact Knows.concat (p := .blocking) hknows.2 hlead a

theorem step (henrolled : s.Enrolled) (hrun : s₀.follow acts = some s) (ha : a ≠ .launch pid)
    (hstep : s.step a = some t) : ∃ f', Fate.Turn pid f a f' ∧ Recycled s₀ pid (acts ++ [a]) t f' := by
  obtain ⟨f', hturn, hlead, hchild⟩ := exists_turn h.child ha hstep
  refine ⟨f', hturn, hchild, fun m x => h.step_monitors hlead hstep, fun j d hnew hd hpid => ?_⟩
  have hrun' : s₀.follow (acts ++ [a]) = some t := State.follow_concat_eq_some_iff.2 ⟨s, hrun, hstep⟩
  have hold : s.calls j = some d → Knows s₀ pid (acts ++ [a]) f' j d.limit d.phase :=
    fun hd => (h.calls j d hnew hd hpid).concat hlead a
  rcases State.step_cases hstep with ⟨i, c, p, hc, hcall⟩ | ⟨n, x, x', -, hmonitor⟩ | helse
  · by_cases hj : j = i
    · subst hj
      rw [hcall.calls, Family.set_self, Option.some.injEq] at hd
      subst hd
      exact h.moves (c := c) henrolled hrun hstep hturn hlead hchild hnew hc hpid hcall
    · rw [hcall.calls, Family.set_of_ne _ hj] at hd
      exact hold hd
  · rcases hmonitor.calls with hcalls | hcalls
    · exact hold (hcalls ▸ hd)
    · -- a call that is woken looks at its monitor again
      have hd' := hd
      rw [hcalls] at hd'
      obtain ⟨c, hc, rfl⟩ := Option.map_eq_some_iff.1 hd'
      rcases State.roused_cases n c with hsame | ⟨deadline, wake, -, hmoved⟩
      · rw [hsame] at hold ⊢
        exact hold hc
      · rw [hmoved] at hd ⊢
        exact State.Sometime.now hrun' ⟨_, deadline, hd, rfl⟩
  · cases helse with
    | launch | terminate | tick => exact hold hd
    | @begin i q limit free =>
      dsimp only at hd
      by_cases hj : j = i
      · rw [hj, Family.set_self, Option.some.injEq] at hd
        subst hd
        trivial
      · rw [Family.set_of_ne _ hj] at hd
        exact hold hd

end Recycled

theorem recycled_launch (hstep : s₀.step (.launch pid) = some s) : Recycled s₀ pid [.launch pid] s .running := by
  have hsome := hstep
  unfold State.step at hsome
  dsimp only at hsome
  split_ifs at hsome with hfree
  cases hsome
  refine ⟨Family.set_self _ _ _, fun m x hx hpid hfresh => ?_, fun i c hnew hc => ?_⟩
  · have hasks : x.state = .running ∧ x.phase = .waiting := by
      by_contra hne
      exact hfresh ⟨x, hx, hpid, hne⟩
    rw [hasks.1, hasks.2]
    exact ⟨trivial, trivial⟩
  · cases hnew.symm.trans hc

theorem exists_recycled (henrolled : s₀.Enrolled) (hrun : s₀.follow (.launch pid :: acts) = some s)
    (honce : .launch pid ∉ acts) :
    ∃ f, Recycled s₀ pid (.launch pid :: acts) s f ∧ Recorded s₀ pid acts f := by
  induction acts using List.reverseRecOn generalizing s with
  | nil =>
    have hstep : s₀.step (.launch pid) = some s := by simpa [State.follow] using hrun
    exact ⟨.running, recycled_launch hstep, recorded_launch hstep⟩
  | append_singleton acts a ih =>
    rw [← List.cons_append, State.follow_concat_eq_some_iff] at hrun
    obtain ⟨t, ht, hstep⟩ := hrun
    have honce' : .launch pid ∉ acts ∧ .launch pid ≠ a := by simpa using honce
    obtain ⟨f, hrecycled, hrecorded⟩ := ih ht honce'.1
    obtain ⟨f', hturn, hrecycled'⟩ := hrecycled.step (henrolled.follow ht) ht honce'.2.symm hstep
    exact ⟨f', hrecycled', hrecorded.concat hturn ht hstep hrecycled.child hrecycled'.child⟩

/-- A call that begins after a child was launched answers with an exit code or a signal only if it took the status
of that child itself. If it learns that there is no such child, or blocks though it has a limit, then this is the
child's end, or no deadline can say when the limit is over, or the call was misled by a monitor that had asked
before the launch. -/
theorem recycled_number {before : List Action} (hbefore : State.initial.follow before = some s₀)
    (hrun : s₀.follow (.launch pid :: acts) = some s) (honce : .launch pid ∉ acts) (hnew : s₀.calls i = none)
    (hc : s.calls i = some c) (hpid : c.pid = pid) :
    (∀ o, c.phase = .finished o → o.IsEnd → ∃ status, o = .ofStatus status ∧ .terminate pid status ∈ acts ∧
      s₀.Takes (.launch pid :: acts) pid (.advance i) ⟨s₀.nextSerial, some status⟩) ∧
    (c.phase = .finished (.failed .noChild) → (∀ j, .refuse j .noChild ∉ acts) →
      (∃ j status, s₀.Takes (.launch pid :: acts) pid (.advance j) ⟨s₀.nextSerial, some status⟩) ∨
        Misled s₀ pid (.launch pid :: acts) i) ∧
    ∀ d, c.limit = some d → (c.phase = .blocking ∨ ∃ serial, c.phase = .blocked serial) →
      s.children pid = some ⟨s₀.nextSerial, none⟩ →
        Endless s₀ (.launch pid :: acts) i ∨ Misled s₀ pid (.launch pid :: acts) i := by
  obtain ⟨f, hrecycled, hrecorded⟩ := exists_recycled (State.enrolled_initial.follow hbefore) hrun honce
  have hknows := hrecycled.calls i c hnew hc hpid
  refine ⟨fun o ho hend => ?_, fun ho hrefuse => ?_, fun d hd hphase hchild => ?_⟩
  · rw [ho] at hknows
    obtain ⟨status, rfl, rfl⟩ := hknows.1 hend
    exact ⟨status, rfl, hrecorded.1, (hrecorded.2 _ _).2 ⟨rfl, rfl⟩⟩
  · rw [ho] at hknows
    rcases hknows.2 rfl with ⟨status, j, rfl⟩ | ⟨j, hj⟩ | hmisled
    · exact .inl ⟨j, status, (hrecorded.2 _ _).2 ⟨rfl, rfl⟩⟩
    · rcases List.mem_cons.1 hj with hj | hj
      · cases hj
      · exact absurd hj (hrefuse j)
    · exact .inr hmisled
  · have hblocking : c.limit = none ∨ Endless s₀ (.launch pid :: acts) i ∨ Misled s₀ pid (.launch pid :: acts) i ∨
        f ≠ .running := by
      rcases hphase with hphase | ⟨serial, hphase⟩
      · rw [hphase] at hknows
        exact hknows
      · rw [hphase] at hknows
        exact hknows.2
    rcases hblocking with hnone | hendless | hmisled | hne
    · cases hnone.symm.trans hd
    · exact .inl hendless
    · exact .inr hmisled
    · exact absurd (hrecycled.eq_running hchild) hne

theorem recycled_number_twice :
    let before : List Action := [.launch 7, .begin 1 7 none, .advance 1, .terminate 7 (.exited 3), .advance 1]
    let acts : List Action :=
      [.begin 2 7 (some 10), .advance 2, .advance 2, .terminate 7 (.signaled 9), .begin 3 7 (some 0), .advance 3,
        .advance 3, .advance 2, .advance 2, .advance 2, .advance 2, .monitor 0, .monitor 0, .monitor 0, .advance 2,
        .advance 2]
    ∃ s₀ s, State.initial.follow before = some s₀ ∧ s₀.follow (.launch 7 :: acts) = some s ∧
      s.calls 2 = some ⟨7, some 10, .finished (.failed .noChild)⟩ ∧
      s.calls 3 = some ⟨7, some 0, .finished (.signaled 9)⟩ ∧
      (∃ status, Outcome.signaled 9 = .ofStatus status ∧
        s₀.Takes (.launch 7 :: acts) 7 (.advance 3) ⟨1, some status⟩) ∧
      ∃ j status, s₀.Takes (.launch 7 :: acts) 7 (.advance j) ⟨1, some status⟩ := by
  intro before acts
  have hruns : ∃ s₀ s, State.initial.follow before = some s₀ ∧ s₀.follow (.launch 7 :: acts) = some s ∧
      s₀.nextSerial = 1 ∧ s₀.monitors = Family.empty ∧ s₀.calls 2 = none ∧ s₀.calls 3 = none ∧
      s.calls 2 = some ⟨7, some 10, .finished (.failed .noChild)⟩ ∧
      s.calls 3 = some ⟨7, some 0, .finished (.signaled 9)⟩ := ⟨_, _, rfl, rfl, rfl, rfl, rfl, rfl, rfl, rfl⟩
  obtain ⟨s₀, s, hbefore, hrun, hserial, hmonitors, hnew2, hnew3, hc2, hc3⟩ := hruns
  have honce : .launch 7 ∉ acts := by simp [acts]
  have hrefuse : ∀ j, .refuse j .noChild ∉ acts := by simp [acts]
  obtain ⟨hend, -, -⟩ := recycled_number hbefore hrun honce hnew3 hc3 rfl
  obtain ⟨-, hno, -⟩ := recycled_number hbefore hrun honce hnew2 hc2 rfl
  refine ⟨s₀, s, hbefore, hrun, hc2, hc3, ?_, ?_⟩
  · obtain ⟨status, ho, -, htakes⟩ := hend _ rfl (.inr nofun)
    exact ⟨status, ho, hserial ▸ htakes⟩
  · obtain ⟨j, status, htakes⟩ | ⟨m, -, x, hx, -⟩ := hno rfl hrefuse
    · exact ⟨j, status, hserial ▸ htakes⟩
    · rw [hmonitors] at hx
      cases hx

/-- The monitor of call 1 is attached to the first child with the number 7 when call 2 reaps it. Call 3, on the
second child, finds the monitor on the register. Either the monitor learns that its child is gone, and call 3 ends with
that; or it has seen the end before, and call 3 blocks at a time when its limit of 10 is not over. The second child
runs all the while. -/
theorem stale_monitor_misleads :
    let gone : List Action :=
      [.launch 7, .begin 1 7 (some 10), .advance 1, .advance 1, .advance 1, .advance 1, .advance 1, .advance 1,
        .monitor 0, .begin 2 7 none, .advance 2, .terminate 7 (.exited 3), .advance 2, .launch 7,
        .begin 3 7 (some 10), .advance 3, .advance 3, .advance 3, .advance 3, .monitor 0, .monitor 0, .monitor 0,
        .advance 3, .advance 3]
    let ended : List Action :=
      [.launch 7, .begin 1 7 (some 10), .advance 1, .advance 1, .advance 1, .advance 1, .advance 1, .advance 1,
        .monitor 0, .begin 2 7 none, .advance 2, .terminate 7 (.exited 3), .monitor 0, .advance 2, .launch 7,
        .begin 3 7 (some 10), .advance 3, .advance 3, .advance 3, .advance 3, .monitor 0, .monitor 0, .advance 3,
        .advance 3, .advance 3]
    (∃ s, State.initial.follow gone = some s ∧ s.children 7 = some ⟨1, none⟩ ∧
      s.calls 3 = some ⟨7, some 10, .finished (.failed .noChild)⟩) ∧
    ∃ s, State.initial.follow ended = some s ∧ s.children 7 = some ⟨1, none⟩ ∧
      s.calls 3 = some ⟨7, some 10, .blocking⟩ ∧ s.now = 0 :=
  ⟨⟨_, rfl, rfl, rfl⟩, _, rfl, rfl, rfl, rfl⟩

end Waiting

end Groundwork
