import Groundwork.Proofs.Waiting.Runs

/-!
# What a step can do

One action moves one call, one monitor's thread, one child, or the clock (`State.step_cases`). `Moves` gives
the phase that a call goes to and why, `Works` the same for a monitor's thread, and `CallStep` and
`MonitorStep` say what else of the state is touched on the way: hardly anything is. Of the two kinds of locks,
a phase tells which a call holds.
-/

namespace Groundwork

namespace Waiting

def Phase.asks : Phase → Bool
  | .blocking | .blocked _ | .polling | .reaping => true
  | _ => false

def Phase.holdsRegister : Phase → Bool
  | .engaging _ | .registering _ _ => true
  | _ => false

def Phase.locked? : Phase → Option ℕ
  | .inspecting _ m | .deciding _ m | .retiring _ m _ => some m
  | _ => none

theorem Phase.no_lock_of_asks (p : Phase) (h : p.asks = true) : p.holdsRegister = false ∧ p.locked? = none := by
  cases p <;> simp_all [asks, holdsRegister, locked?]

def MonitorPhase.listed : MonitorPhase → Bool
  | .waiting | .attached _ | .unregistering _ => true
  | .publishing _ | .notifying | .finished => false

namespace State

/-- A new monitor for the child of call `c`, whose thread is about to ask or could not be started. -/
def AddsMonitor (s : State) (a : Action) (i : ℕ) (c : Call) (t : State) : Prop :=
  (∃ deadline, c.phase = .engaging deadline) ∧ t.nextMonitor = s.nextMonitor + 1 ∧
    ∃ x, t.monitors = s.monitors.set s.nextMonitor (some x) ∧
      (x = ⟨c.pid, .running, .waiting, none⟩ ∨ ∃ e, a = .refuse i e ∧ x = ⟨c.pid, .failed e, .finished, none⟩)

/-- Where a call goes from its phase. -/
inductive Moves (s : State) (a : Action) (i : ℕ) (c : Call) (t : State) : Phase → Prop
  | invalid (phase : c.phase = .starting) (pid : c.pid = 0 ∨ greatestPid < c.pid) :
    Moves s a i c t (.finished (.failed .invalidArgument))
  | blocks (phase : c.phase = .starting) (limit : c.limit = none) (pid : ¬ (c.pid = 0 ∨ greatestPid < c.pid)) :
    Moves s a i c t .blocking
  | polls (phase : c.phase = .starting) (limit : c.limit ≠ none) (pid : ¬ (c.pid = 0 ∨ greatestPid < c.pid)) :
    Moves s a i c t .polling
  /-- Is told that there is no such child. -/
  | gone (phase : c.phase = .blocking ∨ c.phase = .polling ∨ c.phase = .reaping) (child : s.children c.pid = none)
    (action : a = .advance i) : Moves s a i c t (.finished (.failed .noChild))
  /-- Blocks for a child that is no more, whether or not its number is another's now. -/
  | lost {serial : ℕ} (phase : c.phase = .blocked serial)
    (child : ∀ x, s.children c.pid = some x → x.serial ≠ serial) : Moves s a i c t (.finished (.failed .noChild))
  | takes {k : ℕ} {status : Status} (action : a = .advance i) (child : s.children c.pid = some ⟨k, some status⟩)
    (taken : t.children = s.children.set c.pid none) (asks : c.phase.asks = true) :
    Moves s a i c t (.finished (.ofStatus status))
  | waits {k : ℕ} (phase : c.phase = .blocking) (child : s.children c.pid = some ⟨k, none⟩) :
    Moves s a i c t (.blocked k)
  | expires (phase : c.phase = .polling) (limit : c.limit = some 0) (action : a = .advance i) :
    Moves s a i c t (.finished .timedOut)
  | times (phase : c.phase = .polling) (limit : c.limit ≠ some 0) : Moves s a i c t .timing
  | unbounded (phase : c.phase = .timing) (limit : ∀ d, c.limit = some d → timeBound ≤ s.now + d)
    (action : a = .advance i) : Moves s a i c t .blocking
  | bounded {d : ℕ} (phase : c.phase = .timing) (limit : c.limit = some d) (now : s.now + d < timeBound)
    (action : a = .advance i) : Moves s a i c t (.watching (s.now + d))
  | joins {deadline m : ℕ} (phase : c.phase = .watching deadline) (register : s.register c.pid = some m) :
    Moves s a i c t (.locking deadline m)
  | engages {deadline : ℕ} (phase : c.phase = .watching deadline) : Moves s a i c t (.engaging deadline)
  | starts {deadline : ℕ} (phase : c.phase = .engaging deadline) (adds : s.AddsMonitor a i c t)
    (monitors : t.monitors = s.monitors.set s.nextMonitor (some ⟨c.pid, .running, .waiting, none⟩)) :
    Moves s a i c t (.registering deadline s.nextMonitor)
  | refused {deadline : ℕ} {e : OsError} (phase : c.phase = .engaging deadline) (adds : s.AddsMonitor a i c t)
    (action : a = .refuse i e)
    (monitors : t.monitors = s.monitors.set s.nextMonitor (some ⟨c.pid, .failed e, .finished, none⟩)) :
    Moves s a i c t (.locking deadline s.nextMonitor)
  | registers {deadline m : ℕ} (phase : c.phase = .registering deadline m) : Moves s a i c t (.locking deadline m)
  | locks {deadline m : ℕ} (phase : c.phase = .locking deadline m) : Moves s a i c t (.inspecting deadline m)
  | sees {deadline m : ℕ} {x : Monitor} (phase : c.phase = .inspecting deadline m) (monitor : s.monitors m = some x)
    (state : x.state = .running) : Moves s a i c t (.deciding deadline m)
  | told {deadline m : ℕ} {x : Monitor} (phase : c.phase = .inspecting deadline m) (monitor : s.monitors m = some x)
    (state : x.state = .ended) : Moves s a i c t .reaping
  | fails {deadline m : ℕ} {x : Monitor} {e : OsError} (phase : c.phase = .inspecting deadline m)
    (monitor : s.monitors m = some x) (state : x.state = .failed e) : Moves s a i c t (.finished (.failed e))
  | late {deadline m : ℕ} (phase : c.phase = .deciding deadline m) (now : deadline ≤ s.now) (action : a = .advance i) :
    Moves s a i c t (.finished .timedOut)
  | retires {deadline m : ℕ} (phase : c.phase = .deciding deadline m) (now : s.now < deadline) :
    Moves s a i c t (.retiring deadline m s.now)
  | sleeps {deadline m now : ℕ} (phase : c.phase = .retiring deadline m now) :
    Moves s a i c t (.sleeping deadline m (s.now + (deadline - now)))
  | wakes {deadline m wake : ℕ} (phase : c.phase = .sleeping deadline m wake) : Moves s a i c t (.locking deadline m)
  /-- Was told the end of the child, and finds that the child runs. -/
  | repeats {k : ℕ} (phase : c.phase = .reaping) (child : s.children c.pid = some ⟨k, none⟩) (action : a = .advance i) :
    Moves s a i c t .blocking
  | interrupted {serial : ℕ} (phase : c.phase = .blocked serial) : Moves s a i c t .blocking

/-- No monitor is new, and what changes of one is at most who holds it. -/
def KeepsMonitors (s t : State) : Prop :=
  t.nextMonitor = s.nextMonitor ∧ (t.monitors = s.monitors ∨
    ∃ m x holder, s.monitors m = some x ∧ t.monitors = s.monitors.set m (some { x with holder := holder }))

/-- What a call does with the locks of monitors on its way to the phase `p`. -/
inductive LockStep (s : State) (i : ℕ) (c : Call) (p : Phase) (t : State) : Prop
  | keep (phase : p.locked? = c.phase.locked?) (monitors : t.monitors = s.monitors)
  | take {m : ℕ} {x : Monitor} (before : c.phase.locked? = none) (after : p.locked? = some m)
    (monitor : s.monitors m = some x) (free : x.holder = none)
    (monitors : t.monitors = s.monitors.set m (some { x with holder := some i }))
  | release {m : ℕ} {x : Monitor} (before : c.phase.locked? = some m) (after : p.locked? = none)
    (monitor : s.monitors m = some x) (monitors : t.monitors = s.monitors.set m (some { x with holder := none }))

/-- What a call does with the lock of the register: it takes it to start a monitor where there is none. -/
inductive RegistrarStep (s : State) (i : ℕ) (c : Call) (p : Phase) (t : State) : Prop
  | keep (phase : p.holdsRegister = c.phase.holdsRegister) (registrar : t.registrar = s.registrar)
  | take (before : c.phase.holdsRegister = false) (after : p.holdsRegister = true) (free : s.registrar = none)
    (vacant : s.register c.pid = none) (registrar : t.registrar = some i)
  | release (before : c.phase.holdsRegister = true) (after : p.holdsRegister = false) (registrar : t.registrar = none)

/-- Call `i` goes to the phase `p`, and nothing but what is named here changes. -/
structure CallStep (s : State) (a : Action) (i : ℕ) (c : Call) (p : Phase) (t : State) : Prop where
  actor : ∀ j, a = .advance j → j = i
  moves : s.Moves a i c t p
  calls : t.calls = s.calls.set i (some { c with phase := p })
  children : t.children = s.children ∨ ∃ k status, a = .advance i ∧ s.children c.pid = some ⟨k, some status⟩ ∧
    p = .finished (.ofStatus status) ∧ t.children = s.children.set c.pid none
  locks : t.nextMonitor = s.nextMonitor ∧ s.LockStep i c p t ∨ p.locked? = none ∧ s.AddsMonitor a i c t
  registrar : s.RegistrarStep i c p t
  registers : (∀ deadline m, c.phase ≠ .registering deadline m) ∧ t.register = s.register ∨
    p.holdsRegister = false ∧
      ∃ deadline m, c.phase = .registering deadline m ∧ t.register = s.register.set c.pid (some m)
  now : t.now = s.now

variable {s t : State} {a : Action} {i m : ℕ} {c : Call} {p q : Phase} {x : Monitor}

theorem CallStep.register (h : s.CallStep a i c p t) : t.register = s.register ∨
    ∃ deadline m, c.phase = .registering deadline m ∧ t.register = s.register.set c.pid (some m) :=
  h.registers.imp And.right And.right

theorem CallStep.monitors (h : s.CallStep a i c p t) : s.KeepsMonitors t ∨ s.AddsMonitor a i c t := by
  rcases h.locks with ⟨hnext, hlock⟩ | ⟨-, hadds⟩
  · refine .inl ⟨hnext, ?_⟩
    cases hlock with
    | keep _ monitors => exact .inl monitors
    | take _ _ monitor _ monitors | release _ _ monitor monitors => exact .inr ⟨_, _, _, monitor, monitors⟩
  · exact .inr hadds

theorem CallStep.unfinished (h : s.CallStep a i c p t) (o : Outcome) : c.phase ≠ .finished o := by
  cases h.moves with
  | gone phase => rcases phase with phase | phase | phase <;> simp [phase]
  | takes _ _ _ asks =>
    intro hphase
    rw [hphase] at asks
    cases asks
  | _ => simp_all

theorem not_registering_of_holdsRegister (hphase : c.phase = q) (hq : q.holdsRegister = false) (deadline m : ℕ) :
    c.phase ≠ .registering deadline m := by
  rintro hc
  rw [← hphase, hc] at hq
  cases hq

theorem CallStep.of_move (ha : ∀ j, a = .advance j → j = i) (hphase : c.phase = q) (hq : q.holdsRegister = false)
    (hp : p.holdsRegister = false) (hlock : p.locked? = q.locked?) (h : s.Moves a i c (s.move i c p) p) :
    s.CallStep a i c p (s.move i c p) :=
  ⟨ha, h, rfl, .inl rfl, .inl ⟨rfl, .keep (hphase ▸ hlock) rfl⟩, .keep (by rw [hphase, hq, hp]) rfl,
    .inl ⟨not_registering_of_holdsRegister hphase hq, rfl⟩, rfl⟩

theorem CallStep.of_lock (ha : ∀ j, a = .advance j → j = i) (hphase : c.phase = q)
    (hq : q.holdsRegister = false ∧ q.locked? = none) (hp : p.holdsRegister = false ∧ p.locked? = some m)
    (hx : s.monitors m = some x) (hfree : x.holder = none)
    (h : s.Moves a i c ((s.setMonitor m { x with holder := some i }).move i c p) p) :
    s.CallStep a i c p ((s.setMonitor m { x with holder := some i }).move i c p) :=
  ⟨ha, h, rfl, .inl rfl, .inl ⟨rfl, .take (hphase ▸ hq.2) hp.2 hx hfree rfl⟩, .keep (by rw [hphase, hq.1, hp.1]) rfl,
    .inl ⟨not_registering_of_holdsRegister hphase hq.1, rfl⟩, rfl⟩

theorem CallStep.of_unlock (ha : ∀ j, a = .advance j → j = i) (hphase : c.phase = q)
    (hq : q.holdsRegister = false ∧ q.locked? = some m) (hp : p.holdsRegister = false ∧ p.locked? = none)
    (hx : s.monitors m = some x)
    (h : s.Moves a i c ((s.setMonitor m { x with holder := none }).move i c p) p) :
    s.CallStep a i c p ((s.setMonitor m { x with holder := none }).move i c p) :=
  ⟨ha, h, rfl, .inl rfl, .inl ⟨rfl, .release (hphase ▸ hq.2) hp.2 hx rfl⟩, .keep (by rw [hphase, hq.1, hp.1]) rfl,
    .inl ⟨not_registering_of_holdsRegister hphase hq.1, rfl⟩, rfl⟩

theorem callStep_of_reap {still : Option State} (h : s.reap i c still = some t)
    (hphase : c.phase = .blocking ∨ c.phase = .polling ∨ c.phase = .reaping ∨
      ∃ serial x, c.phase = .blocked serial ∧ s.children c.pid = some x)
    (hstill : ∀ k, s.children c.pid = some ⟨k, none⟩ → still = some t → ∃ p, s.CallStep (.advance i) i c p t) :
    ∃ p, s.CallStep (.advance i) i c p t := by
  have hactor : ∀ j, Action.advance i = .advance j → j = i := fun j h => (Action.advance.inj h).symm
  have hasks : c.phase.asks = true := by
    rcases hphase with hphase | hphase | hphase | ⟨serial, x, hphase, -⟩ <;> simp [hphase, Phase.asks]
  have hlocks := c.phase.no_lock_of_asks hasks
  obtain ⟨hx, rfl⟩ | ⟨k, status, hx, rfl⟩ | ⟨k, hx, ht⟩ := reap_cases h
  · refine ⟨_, .of_move hactor rfl hlocks.1 rfl hlocks.2.symm (.gone ?_ hx rfl)⟩
    rcases hphase with hphase | hphase | hphase | ⟨serial, x, -, hsome⟩
    · exact .inl hphase
    · exact .inr (.inl hphase)
    · exact .inr (.inr hphase)
    · cases hx.symm.trans hsome
  · exact ⟨_, hactor, .takes rfl hx rfl hasks, rfl, .inr ⟨k, status, rfl, hx, rfl, rfl⟩,
      .inl ⟨rfl, .keep hlocks.2.symm rfl⟩, .keep hlocks.1.symm rfl,
      .inl ⟨not_registering_of_holdsRegister rfl hlocks.1, rfl⟩, rfl⟩
  · exact hstill k hx ht

theorem advance_cases (h : s.advance i c = some t) : ∃ p, s.CallStep (.advance i) i c p t := by
  have hactor : ∀ j, Action.advance i = .advance j → j = i := fun j h => (Action.advance.inj h).symm
  unfold State.advance at h
  cases hphase : c.phase with
  | starting =>
    simp only [hphase, Option.some.injEq] at h
    subst h
    split_ifs with hpid hlimit
    · exact ⟨_, .of_move hactor hphase rfl rfl rfl (.invalid hphase hpid)⟩
    · exact ⟨_, .of_move hactor hphase rfl rfl rfl (.blocks hphase hlimit hpid)⟩
    · exact ⟨_, .of_move hactor hphase rfl rfl rfl (.polls hphase hlimit hpid)⟩
  | blocking =>
    simp only [hphase] at h
    refine callStep_of_reap h (.inl hphase) fun k hx ht => ?_
    rw [hx, Option.map_some, Option.some.injEq] at ht
    subst ht
    exact ⟨_, .of_move hactor hphase rfl rfl rfl (.waits hphase hx)⟩
  | blocked serial =>
    simp only [hphase] at h
    split at h
    · rename_i x hx
      split_ifs at h with hserial
      · exact callStep_of_reap h (.inr (.inr (.inr ⟨serial, x, hphase, hx⟩))) nofun
      · cases h
        refine ⟨_, .of_move hactor hphase rfl rfl rfl (.lost hphase fun y hy => ?_)⟩
        cases hx.symm.trans hy
        exact hserial
    · rename_i hx
      cases h
      exact ⟨_, .of_move hactor hphase rfl rfl rfl (.lost hphase fun y hy => by cases hx.symm.trans hy)⟩
  | polling =>
    simp only [hphase] at h
    refine callStep_of_reap h (.inr (.inl hphase)) fun k hx ht => ?_
    cases ht
    split_ifs with hlimit
    · exact ⟨_, .of_move hactor hphase rfl rfl rfl (.expires hphase hlimit rfl)⟩
    · exact ⟨_, .of_move hactor hphase rfl rfl rfl (.times hphase hlimit)⟩
  | timing =>
    simp only [hphase] at h
    split at h
    · rename_i hlimit
      cases h
      refine ⟨_, .of_move hactor hphase rfl rfl rfl (.unbounded hphase (fun d hd => ?_) rfl)⟩
      cases hlimit.symm.trans hd
    · rename_i d hlimit
      cases h
      split_ifs with hnow
      · exact ⟨_, .of_move hactor hphase rfl rfl rfl (.bounded hphase hlimit hnow rfl)⟩
      · refine ⟨_, .of_move hactor hphase rfl rfl rfl (.unbounded hphase (fun d' hd' => ?_) rfl)⟩
        cases hlimit.symm.trans hd'
        exact not_lt.1 hnow
  | watching deadline =>
    simp only [hphase] at h
    split_ifs at h with hfree
    split at h
    · rename_i m hm
      cases h
      exact ⟨_, .of_move hactor hphase rfl rfl rfl (.joins hphase hm)⟩
    · rename_i hvacant
      cases h
      exact ⟨_, hactor, .engages hphase, rfl, .inl rfl, .inl ⟨rfl, .keep (by rw [hphase]; rfl) rfl⟩,
        .take (by rw [hphase]; rfl) rfl hfree hvacant rfl, .inl ⟨by simp [hphase], rfl⟩, rfl⟩
  | engaging deadline =>
    simp only [hphase, Option.some.injEq] at h
    have hadds : s.AddsMonitor (.advance i) i c t := by
      subst h
      exact ⟨⟨_, hphase⟩, rfl, _, rfl, .inl rfl⟩
    subst h
    exact ⟨_, hactor, .starts hphase hadds rfl, rfl, .inl rfl, .inr ⟨rfl, hadds⟩, .keep (by rw [hphase]; rfl) rfl,
      .inl ⟨by simp [hphase], rfl⟩, rfl⟩
  | registering deadline m =>
    simp only [hphase, Option.some.injEq] at h
    subst h
    exact ⟨_, hactor, .registers hphase, rfl, .inl rfl, .inl ⟨rfl, .keep (by rw [hphase]; rfl) rfl⟩,
      .release (by rw [hphase]; rfl) rfl rfl, .inr ⟨rfl, _, _, hphase, rfl⟩, rfl⟩
  | locking deadline m =>
    simp only [hphase] at h
    split at h
    · rename_i x hx
      split_ifs at h with hfree
      cases h
      exact ⟨_, .of_lock hactor hphase ⟨rfl, rfl⟩ ⟨rfl, rfl⟩ hx hfree (.locks hphase)⟩
    · cases h
  | inspecting deadline m =>
    simp only [hphase] at h
    split at h
    · rename_i x hx
      split at h
      · rename_i hstate
        cases h
        exact ⟨_, .of_move hactor hphase rfl rfl rfl (.sees hphase hx hstate)⟩
      · rename_i hstate
        cases h
        exact ⟨_, .of_unlock hactor hphase ⟨rfl, rfl⟩ ⟨rfl, rfl⟩ hx (.told hphase hx hstate)⟩
      · rename_i e hstate
        cases h
        exact ⟨_, .of_unlock hactor hphase ⟨rfl, rfl⟩ ⟨rfl, rfl⟩ hx (.fails hphase hx hstate)⟩
    · cases h
  | deciding deadline m =>
    simp only [hphase] at h
    split_ifs at h with hnow
    · split at h
      · rename_i x hx
        cases h
        exact ⟨_, .of_unlock hactor hphase ⟨rfl, rfl⟩ ⟨rfl, rfl⟩ hx (.late hphase hnow rfl)⟩
      · cases h
    · cases h
      exact ⟨_, .of_move hactor hphase rfl rfl rfl (.retires hphase (not_le.1 hnow))⟩
  | retiring deadline m now =>
    simp only [hphase] at h
    split at h
    · rename_i x hx
      cases h
      exact ⟨_, .of_unlock hactor hphase ⟨rfl, rfl⟩ ⟨rfl, rfl⟩ hx (.sleeps hphase)⟩
    · cases h
  | sleeping => simp only [hphase, reduceCtorEq] at h
  | reaping =>
    simp only [hphase] at h
    refine callStep_of_reap h (.inr (.inr (.inl hphase))) fun k hx ht => ?_
    cases ht
    exact ⟨_, .of_move hactor hphase rfl rfl rfl (.repeats hphase hx rfl)⟩
  | finished => simp only [hphase, reduceCtorEq] at h

theorem refuse_cases {e : OsError} (h : s.refuse i c e = some t) : ∃ p, s.CallStep (.refuse i e) i c p t := by
  unfold State.refuse at h
  split at h
  · rename_i deadline hphase
    have hadds : s.AddsMonitor (.refuse i e) i c t := by
      cases h
      exact ⟨⟨_, hphase⟩, rfl, _, rfl, .inr ⟨e, rfl, rfl⟩⟩
    cases h
    exact ⟨_, nofun, .refused hphase hadds rfl rfl, rfl, .inl rfl, .inr ⟨rfl, hadds⟩,
      .release (by rw [hphase]; rfl) rfl rfl, .inl ⟨by simp [hphase], rfl⟩, rfl⟩
  · cases h

/-! ### Monitors -/

inductive Works (s : State) (x : Monitor) : Monitor → Prop
  | misses (phase : x.phase = .waiting ∨ ∃ serial, x.phase = .attached serial) (child : s.children x.pid = none) :
    Works s x { x with phase := .unregistering (.failed .noChild) }
  | loses {serial : ℕ} {y : Child} (phase : x.phase = .attached serial) (child : s.children x.pid = some y)
    (other : y.serial ≠ serial) : Works s x { x with phase := .unregistering (.failed .noChild) }
  | sees {k : ℕ} {status : Status} (phase : x.phase = .waiting ∨ x.phase = .attached k)
    (child : s.children x.pid = some ⟨k, some status⟩) : Works s x { x with phase := .unregistering .ended }
  | attaches {k : ℕ} (phase : x.phase = .waiting) (child : s.children x.pid = some ⟨k, none⟩) :
    Works s x { x with phase := .attached k }
  | leaves {told : MonitorState} (phase : x.phase = .unregistering told) :
    Works s x { x with phase := .publishing told }
  | tells {told : MonitorState} (phase : x.phase = .publishing told) (free : x.holder = none) :
    Works s x { x with state := told, phase := .notifying }
  | finishes (phase : x.phase = .notifying) : Works s x { x with phase := .finished }
  | interrupted {serial : ℕ} (phase : x.phase = .attached serial) : Works s x { x with phase := .waiting }

/-- The thread of the monitor `m` makes it `x'`, and nothing but what is named here changes. -/
structure MonitorStep (s : State) (a : Action) (m : ℕ) (x x' : Monitor) (t : State) : Prop where
  action : a = .monitor m ∨ a = .interruptMonitor m ∧ x'.phase = .waiting
  works : s.Works x x'
  monitors : t.monitors = s.monitors.set m (some x')
  nextMonitor : t.nextMonitor = s.nextMonitor
  children : t.children = s.children
  registrar : t.registrar = s.registrar
  unlists : x'.phase.listed = x.phase.listed ∧ t.register = s.register ∨
    s.registrar = none ∧ x.phase.listed = true ∧ x'.phase.listed = false ∧
      t.register = if s.register x.pid = some m then s.register.set x.pid none else s.register
  rouses : x.phase ≠ .notifying ∧ t.calls = s.calls ∨
    x.phase = .notifying ∧ t.calls = fun i => (s.calls i).map (roused m)
  now : t.now = s.now

theorem MonitorStep.register {x' : Monitor} (h : s.MonitorStep a m x x' t) :
    t.register = s.register ∨ t.register = s.register.set x.pid none := by
  rcases h.unlists with ⟨-, hsame⟩ | ⟨-, -, -, hregister⟩
  · exact .inl hsame
  · split_ifs at hregister with hmine
    · exact .inr hregister
    · exact .inl hregister

theorem MonitorStep.calls {x' : Monitor} (h : s.MonitorStep a m x x' t) :
    t.calls = s.calls ∨ t.calls = fun i => (s.calls i).map (roused m) :=
  h.rouses.imp And.right And.right

theorem MonitorStep.calls_iff {x' : Monitor} (h : s.MonitorStep a m x x' t) {j : ℕ} {d : Call}
    (hsleeping : ∀ deadline n wake, d.phase ≠ .sleeping deadline n wake)
    (hlocking : ∀ deadline n, d.phase ≠ .locking deadline n) : t.calls j = some d ↔ s.calls j = some d := by
  rcases h.calls with hcalls | hcalls
  · rw [hcalls]
  · simp only [hcalls, Option.map_eq_some_iff]
    constructor
    · rintro ⟨c, hc, rfl⟩
      rcases roused_cases m c with hsame | ⟨deadline, wake, -, hmoved⟩
      · rw [hsame, hc]
      · rw [hmoved] at hlocking
        exact absurd rfl (hlocking _ _)
    · intro hd
      rcases roused_cases m d with hsame | ⟨deadline, wake, hphase, -⟩
      · exact ⟨d, hd, hsame⟩
      · exact absurd hphase (hsleeping _ _ _)

theorem calls_begin_iff {pid j : ℕ} {limit : Timeout} {d : Call} (free : s.calls i = none) (hd : d.phase ≠ .starting) :
    s.calls.set i (some ⟨pid, limit, .starting⟩) j = some d ↔ s.calls j = some d := by
  by_cases hj : j = i
  · rw [hj, Family.set_self, free, Option.some.injEq]
    refine ⟨?_, fun h => (by cases h)⟩
    rintro rfl
    exact absurd rfl hd
  · rw [Family.set_of_ne _ hj]

theorem MonitorStep.of_works {x' : Monitor} (ha : a = .monitor m ∨ a = .interruptMonitor m ∧ x'.phase = .waiting)
    (hlisted : x'.phase.listed = x.phase.listed) (hphase : x.phase ≠ .notifying) (h : s.Works x x') :
    s.MonitorStep a m x x' (s.setMonitor m x') :=
  ⟨ha, h, rfl, rfl, rfl, rfl, .inl ⟨hlisted, rfl⟩, .inl ⟨hphase, rfl⟩, rfl⟩

theorem runMonitor_cases (h : s.runMonitor m x = some t) : ∃ x', s.MonitorStep (.monitor m) m x x' t := by
  unfold State.runMonitor at h
  cases hphase : x.phase with
  | waiting =>
    simp only [hphase] at h
    split at h
    · rename_i hx
      cases h
      exact ⟨_, .of_works (.inl rfl) (by rw [hphase]; rfl) (by simp [hphase]) (.misses (.inl hphase) hx)⟩
    · rename_i k status hx
      cases h
      exact ⟨_, .of_works (.inl rfl) (by rw [hphase]; rfl) (by simp [hphase]) (.sees (.inl hphase) hx)⟩
    · rename_i k hx
      cases h
      exact ⟨_, .of_works (.inl rfl) (by rw [hphase]; rfl) (by simp [hphase]) (.attaches hphase hx)⟩
  | attached serial =>
    simp only [hphase] at h
    split at h
    · rename_i hx
      cases h
      exact ⟨_, .of_works (.inl rfl) (by rw [hphase]; rfl) (by simp [hphase]) (.misses (.inr ⟨serial, hphase⟩) hx)⟩
    · rename_i y hx
      split_ifs at h with hserial hstatus
      · cases h
        exact ⟨_, .of_works (.inl rfl) (by rw [hphase]; rfl) (by simp [hphase]) (.loses hphase hx hserial)⟩
      · cases h
        obtain ⟨k, status⟩ := y
        obtain ⟨status, rfl⟩ := Option.isSome_iff_exists.1 hstatus
        obtain rfl : k = serial := not_not.1 hserial
        exact ⟨_, .of_works (.inl rfl) (by rw [hphase]; rfl) (by simp [hphase]) (.sees (.inr hphase) hx)⟩
  | unregistering told =>
    simp only [hphase] at h
    split_ifs at h with hfree hmine
    · cases h
      exact ⟨_, .inl rfl, .leaves hphase, rfl, rfl, rfl, rfl,
        .inr ⟨hfree, by rw [hphase]; rfl, rfl, (if_pos hmine).symm⟩, .inl ⟨by simp [hphase], rfl⟩, rfl⟩
    · cases h
      exact ⟨_, .inl rfl, .leaves hphase, rfl, rfl, rfl, rfl,
        .inr ⟨hfree, by rw [hphase]; rfl, rfl, (if_neg hmine).symm⟩, .inl ⟨by simp [hphase], rfl⟩, rfl⟩
  | publishing told =>
    simp only [hphase] at h
    split_ifs at h with hfree
    cases h
    exact ⟨_, .of_works (.inl rfl) (by rw [hphase]; rfl) (by simp [hphase]) (.tells hphase hfree)⟩
  | notifying =>
    simp only [hphase, Option.some.injEq] at h
    subst h
    exact ⟨_, .inl rfl, .finishes hphase, rfl, rfl, rfl, rfl, .inl ⟨by rw [hphase]; rfl, rfl⟩, .inr ⟨hphase, rfl⟩, rfl⟩
  | finished => simp only [hphase, reduceCtorEq] at h

/-! ### Any step -/

/-- A step of the children and the clock, or the beginning of a call. -/
inductive Elsewhere (s : State) : Action → State → Prop
  | launch {pid : ℕ} (free : s.children pid = none) : Elsewhere s (.launch pid)
    { s with children := s.children.set pid (some ⟨s.nextSerial, none⟩), nextSerial := s.nextSerial + 1 }
  | terminate {pid k : ℕ} {status : Status} (child : s.children pid = some ⟨k, none⟩) :
    Elsewhere s (.terminate pid status) { s with children := s.children.set pid (some ⟨k, some status⟩) }
  | begin {i pid : ℕ} {limit : Timeout} (free : s.calls i = none) :
    Elsewhere s (.begin i pid limit) { s with calls := s.calls.set i (some ⟨pid, limit, .starting⟩) }
  | tick {d : ℕ} : Elsewhere s (.tick d) { s with now := s.now + d }

theorem step_cases (h : s.step a = some t) :
    (∃ i c p, s.calls i = some c ∧ s.CallStep a i c p t) ∨
    (∃ m x x', s.monitors m = some x ∧ s.MonitorStep a m x x' t) ∨ s.Elsewhere a t := by
  cases a with
  | launch pid =>
    simp only [step, Option.ite_none_right_eq_some, Option.some.injEq] at h
    obtain ⟨⟨hfree, -⟩, rfl⟩ := h
    exact .inr (.inr (.launch hfree))
  | terminate pid status =>
    unfold State.step at h
    dsimp only at h
    split at h
    · rename_i k hx
      cases h
      exact .inr (.inr (.terminate hx))
    · cases h
  | begin i pid limit =>
    simp only [step, Option.ite_none_right_eq_some, Option.some.injEq] at h
    obtain ⟨hfree, rfl⟩ := h
    exact .inr (.inr (.begin hfree))
  | advance i =>
    obtain ⟨c, hc, h⟩ := Option.bind_eq_some_iff.1 h
    obtain ⟨p, hp⟩ := advance_cases h
    exact .inl ⟨i, c, p, hc, hp⟩
  | refuse i e =>
    obtain ⟨c, hc, h⟩ := Option.bind_eq_some_iff.1 h
    obtain ⟨p, hp⟩ := refuse_cases h
    exact .inl ⟨i, c, p, hc, hp⟩
  | interrupt i =>
    obtain ⟨c, hc, h⟩ := Option.bind_eq_some_iff.1 h
    split at h
    · rename_i serial hphase
      cases h
      exact .inl ⟨i, c, _, hc, .of_move nofun hphase rfl rfl rfl (.interrupted hphase)⟩
    · cases h
  | interruptMonitor m =>
    obtain ⟨x, hx, h⟩ := Option.bind_eq_some_iff.1 h
    split at h
    · rename_i serial hphase
      cases h
      exact .inr (.inl ⟨m, x, _, hx,
        .of_works (.inr ⟨rfl, rfl⟩) (by rw [hphase]; rfl) (by simp [hphase]) (.interrupted hphase)⟩)
    · cases h
  | wake i =>
    obtain ⟨c, hc, h⟩ := Option.bind_eq_some_iff.1 h
    split at h
    · rename_i deadline m wake hphase
      cases h
      exact .inl ⟨i, c, _, hc, .of_move nofun hphase rfl rfl rfl (.wakes hphase)⟩
    · cases h
  | monitor m =>
    obtain ⟨x, hx, h⟩ := Option.bind_eq_some_iff.1 h
    obtain ⟨x', hx'⟩ := runMonitor_cases h
    exact .inr (.inl ⟨m, x, x', hx, hx'⟩)
  | tick d =>
    cases h
    exact .inr (.inr .tick)

end State

end Waiting

end Groundwork
