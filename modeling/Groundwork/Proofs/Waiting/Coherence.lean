import Groundwork.Proofs.Waiting.Runs

/-!
# One child, one reaper

The life of a child, from its launch in a state `s₀` on, is a `Fate`: it runs, it has ended, or a call has
reaped it. `Coherent` says what the calls and monitors that wait for the child know of its fate: a monitor
that tells the end, and a call that reaps because it was told, are right, and no call but the reaper has
an exit code or a signal to answer. Every step keeps that (`Coherent.step`), and turns the fate in one of
two ways only: the child ends by itself, and a call reaps a child that has ended.
-/

namespace Groundwork

/-- The outcome tells how the child ended. -/
def Outcome.IsEnd (o : Outcome) : Prop := o.code? ≠ none ∨ o.signal? ≠ none

theorem Outcome.not_isEnd_timedOut : ¬ Outcome.timedOut.IsEnd := by simp [IsEnd, code?, signal?]

theorem Outcome.not_isEnd_failed (e : OsError) : ¬ (Outcome.failed e).IsEnd := by simp [IsEnd, code?, signal?]

namespace Waiting

/-- What has become of a child, and which call reaped it. -/
inductive Fate
  | running
  | ended (status : Status)
  | reaped (status : Status) (call : ℕ)

namespace Fate

def child (k : ℕ) : Fate → Option Child
  | running => some ⟨k, none⟩
  | ended status => some ⟨k, some status⟩
  | reaped _ _ => none

def IsReaped (f : Fate) : Prop := ∃ status i, f = .reaped status i

/-- The fate of the child `pid` before and after an action. -/
inductive Turn (pid : ℕ) : Fate → Action → Fate → Prop
  | keep {f a} : Turn pid f a f
  | ends {status} : Turn pid .running (.terminate pid status) (.ended status)
  | taken {status i} : Turn pid (.ended status) (.advance i) (.reaped status i)

structure Leads (f f' : Fate) : Prop where
  running : f' = .running → f = .running
  reaped : ∀ status i, f = .reaped status i → f' = .reaped status i

variable {f f' : Fate} {k : ℕ} {x : Child}

theorem Leads.refl (f : Fate) : f.Leads f := ⟨id, fun _ _ => id⟩

theorem Leads.isReaped (h : f.Leads f') : f.IsReaped → f'.IsReaped := by
  rintro ⟨status, i, hf⟩
  exact ⟨status, i, h.reaped status i hf⟩

theorem isReaped_of_child (h : f.child k = none) : f.IsReaped := by
  cases f with
  | reaped status i => exact ⟨status, i, rfl⟩
  | running | ended => cases h

theorem serial_of_child (h : f.child k = some x) : x.serial = k := by
  cases f <;> cases h <;> rfl

theorem eq_running_of_child {q : ℕ} (h : f.child k = some ⟨q, none⟩) : f = .running := by
  cases f <;> cases h
  rfl

theorem eq_ended_of_child {q : ℕ} {status : Status} (h : f.child k = some ⟨q, some status⟩) : f = .ended status := by
  cases f <;> cases h
  rfl

end Fate

/-! ### What calls and monitors know -/

section

variable (s₀ s : State) (pid : ℕ) (f : Fate) (refused : Prop)

/-- The monitor `m` of the child `pid` is younger than the child. -/
def Watches (m : ℕ) : Prop :=
  s₀.nextMonitor ≤ m ∧ m < s.nextMonitor ∧ ∃ x, s.monitors m = some x ∧ x.pid = pid

/-- What a monitor tells is true. Where a thread was refused for lack of a child, that is told as well. -/
def Told : MonitorState → Prop
  | .running => True
  | .ended => f ≠ .running
  | .failed e => e = .noChild → f.IsReaped ∨ refused

def ThreadOk : MonitorPhase → Prop
  | .attached serial => serial = s₀.nextSerial
  | .unregistering told | .publishing told => Told f refused told
  | .waiting | .notifying | .finished => True

/-- What holds of call `i` in each of its phases. -/
def PhaseOk (i : ℕ) : Phase → Prop
  | .blocked serial => serial = s₀.nextSerial
  | .registering _ m | .locking _ m | .inspecting _ m | .deciding _ m | .retiring _ m _ | .sleeping _ m _ =>
    Watches s₀ s pid m
  | .reaping => f ≠ .running
  | .finished o => (∀ status, f ≠ .reaped status i) → ¬ o.IsEnd ∧ (o = .failed .noChild → f.IsReaped ∨ refused)
  | .starting | .blocking | .polling | .timing | .watching _ | .engaging _ => True

/-- The calls and monitors of the child that was launched as `pid` in `s₀` agree with its fate. Calls that
were over before are left out. -/
structure Coherent : Prop where
  count : s₀.nextMonitor ≤ s.nextMonitor
  child : s.children pid = f.child s₀.nextSerial
  register : ∀ m, s.register pid = some m → Watches s₀ s pid m
  monitors : ∀ m x, s₀.nextMonitor ≤ m → m < s.nextMonitor → s.monitors m = some x → x.pid = pid →
    ThreadOk s₀ f refused x.phase ∧ Told f refused x.state
  calls : ∀ i c, s.calls i = some c → c.pid = pid →
    s₀.calls i = some c ∧ (∃ o, c.phase = .finished o) ∨ PhaseOk s₀ s pid f refused i c.phase
  reaper : ∀ status i, f = .reaped status i → ∃ limit, s.calls i = some ⟨pid, limit, .finished (.ofStatus status)⟩

end

variable {s₀ s t u : State} {pid i m : ℕ} {f f' : Fate} {refused refused' : Prop} {c : Call} {x : Monitor}

theorem Told.mono (hlead : f.Leads f') (href : refused → refused') {told : MonitorState} (h : Told f refused told) :
    Told f' refused' told := by
  cases told with
  | running => trivial
  | ended => exact fun hrun => h (hlead.running hrun)
  | failed e => exact fun he => (h he).imp hlead.isReaped href

theorem ThreadOk.mono (hlead : f.Leads f') (href : refused → refused') {p : MonitorPhase}
    (h : ThreadOk s₀ f refused p) : ThreadOk s₀ f' refused' p := by
  cases p with
  | unregistering told | publishing told => exact Told.mono hlead href h
  | attached | waiting | notifying | finished => exact h

theorem PhaseOk.mono (hwatch : ∀ m, Watches s₀ s pid m → Watches s₀ t pid m) (hlead : f.Leads f')
    (href : refused → refused') {p : Phase} (h : PhaseOk s₀ s pid f refused i p) :
    PhaseOk s₀ t pid f' refused' i p := by
  cases p with
  | registering _ m | locking _ m | inspecting _ m | deciding _ m | retiring _ m | sleeping _ m => exact hwatch m h
  | reaping => exact fun hrun => h (hlead.running hrun)
  | finished o =>
    intro hother
    obtain ⟨hend, hno⟩ := h fun status hf => hother status (hlead.reaped status i hf)
    exact ⟨hend, fun ho => (hno ho).imp hlead.isReaped href⟩
  | blocked | starting | blocking | polling | timing | watching | engaging => exact h

theorem Watches.setMonitor {n : ℕ} (h : Watches s₀ s pid n) (hx : s.monitors m = some x) {y : Monitor}
    (hpid : y.pid = x.pid) : Watches s₀ (s.setMonitor m y) pid n := by
  obtain ⟨hn, hlt, z, hz, hzp⟩ := h
  refine ⟨hn, hlt, ?_⟩
  by_cases hnm : n = m
  · subst hnm
    obtain rfl := Option.some_inj.1 (hx.symm.trans hz)
    exact ⟨y, by simp [State.setMonitor], hpid.trans hzp⟩
  · exact ⟨z, by simpa [State.setMonitor, Family.set_of_ne _ hnm] using hz, hzp⟩

namespace Coherent

/-! ### Parts of steps -/

theorem change (h : Coherent s₀ s pid f refused) (hlead : f.Leads f') (href : refused → refused')
    (hchild : t.children pid = f'.child s₀.nextSerial) (hreaper : f'.IsReaped → f.IsReaped)
    (hregister : t.register pid = s.register pid) (hmonitors : t.monitors = s.monitors)
    (hnext : t.nextMonitor = s.nextMonitor) (hcalls : t.calls = s.calls) : Coherent s₀ t pid f' refused' := by
  have hwatch : ∀ m, Watches s₀ s pid m → Watches s₀ t pid m := by
    unfold Watches
    rw [hmonitors, hnext]
    exact fun _ => id
  refine ⟨by rw [hnext]; exact h.count, hchild, fun m hm => hwatch m (h.register m (hregister ▸ hm)), ?_, ?_, ?_⟩
  · rw [hmonitors, hnext]
    intro m x hm hlt hx hp
    obtain ⟨hphase, hstate⟩ := h.monitors m x hm hlt hx hp
    exact ⟨hphase.mono hlead href, hstate.mono hlead href⟩
  · rw [hcalls]
    intro i c hc hp
    exact (h.calls i c hc hp).imp_right (PhaseOk.mono hwatch hlead href)
  · rw [hcalls]
    intro status i hf'
    obtain ⟨status', j, hf⟩ := hreaper ⟨status, i, hf'⟩
    rw [hlead.reaped status' j hf] at hf'
    cases hf'
    exact h.reaper status i hf

theorem congr (h : Coherent s₀ s pid f refused) (hchild : t.children pid = s.children pid)
    (hregister : t.register pid = s.register pid) (hmonitors : t.monitors = s.monitors)
    (hnext : t.nextMonitor = s.nextMonitor) (hcalls : t.calls = s.calls) : Coherent s₀ t pid f refused :=
  h.change (.refl f) id (hchild.trans h.child) id hregister hmonitors hnext hcalls

theorem imp (h : Coherent s₀ s pid f refused) (href : refused → refused') : Coherent s₀ s pid f refused' :=
  h.change (.refl f) href h.child id rfl rfl rfl rfl

theorem move (h : Coherent s₀ s pid f refused) (hc : s.calls i = some c) (hopen : ∀ o, c.phase ≠ .finished o)
    {p : Phase} (hp : c.pid = pid → PhaseOk s₀ s pid f refused i p) : Coherent s₀ (s.move i c p) pid f refused := by
  refine ⟨h.count, h.child, h.register, h.monitors, fun j d hd hpid => ?_, fun status j hf => ?_⟩
  · by_cases hj : j = i
    · subst hj
      obtain rfl : { c with phase := p } = d := by simpa [State.move] using hd
      exact .inr (hp hpid)
    · exact h.calls j d (by simpa [State.move, Family.set_of_ne _ hj] using hd) hpid
  · obtain ⟨limit, hj⟩ := h.reaper status j hf
    have hne : j ≠ i := by
      rintro rfl
      rw [hc] at hj
      cases hj
      exact hopen _ rfl
    exact ⟨limit, by simpa [State.move, Family.set_of_ne _ hne] using hj⟩

theorem take {status : Status} (h : Coherent s₀ s pid (.ended status) refused) (hc : s.calls i = some c)
    (hpid : c.pid = pid) : Coherent s₀ (State.move { s with children := s.children.set pid none } i c
      (.finished (.ofStatus status))) pid (.reaped status i) refused := by
  -- fate and phase change in one step: neither order of two steps would be coherent in between
  have hlead : (Fate.ended status).Leads (.reaped status i) := ⟨nofun, nofun⟩
  refine ⟨h.count, Family.set_self _ _ _, h.register, fun m x hm hlt hx hp => ?_, fun j d hd hp => ?_, ?_⟩
  · obtain ⟨hphase, hstate⟩ := h.monitors m x hm hlt hx hp
    exact ⟨hphase.mono hlead id, hstate.mono hlead id⟩
  · by_cases hj : j = i
    · subst hj
      obtain rfl : { c with phase := .finished (.ofStatus status) } = d := by simpa [State.move] using hd
      exact .inr fun hother => absurd rfl (hother status)
    · have hd : s.calls j = some d := by simpa [State.move, Family.set_of_ne _ hj] using hd
      exact (h.calls j d hd hp).imp_right (PhaseOk.mono (fun _ => id) hlead id)
  · intro status' j hf
    cases hf
    exact ⟨c.limit, by simp [State.move, hpid]⟩

theorem setMonitor (h : Coherent s₀ s pid f refused) (hx : s.monitors m = some x) {y : Monitor} (hpid : y.pid = x.pid)
    (hy : s₀.nextMonitor ≤ m → x.pid = pid → ThreadOk s₀ f refused x.phase → Told f refused x.state →
      ThreadOk s₀ f refused y.phase ∧ Told f refused y.state) : Coherent s₀ (s.setMonitor m y) pid f refused := by
  have hwatch : ∀ n, Watches s₀ s pid n → Watches s₀ (s.setMonitor m y) pid n := fun _ hw => hw.setMonitor hx hpid
  refine ⟨h.count, h.child, fun n hn => hwatch n (h.register n hn), fun n z hn hlt hz hp => ?_, fun i c hc hp => ?_,
    h.reaper⟩
  · by_cases hnm : n = m
    · subst hnm
      obtain rfl : y = z := by simpa [State.setMonitor] using hz
      obtain ⟨hphase, hstate⟩ := h.monitors n x hn hlt hx (hpid ▸ hp)
      exact hy hn (hpid ▸ hp) hphase hstate
    · exact h.monitors n z hn hlt (by simpa [State.setMonitor, Family.set_of_ne _ hnm] using hz) hp
  · exact (h.calls i c hc hp).imp_right (PhaseOk.mono hwatch (.refl f) id)

theorem moveHolder (h : Coherent s₀ s pid f refused) (hc : s.calls i = some c) (hopen : ∀ o, c.phase ≠ .finished o)
    (hx : s.monitors m = some x) (holder : Option ℕ) {p : Phase}
    (hp : c.pid = pid → PhaseOk s₀ s pid f refused i p) :
    Coherent s₀ ((s.setMonitor m { x with holder := holder }).move i c p) pid f refused := by
  have hset : Coherent s₀ (s.setMonitor m { x with holder := holder }) pid f refused :=
    h.setMonitor hx rfl fun _ _ hphase hstate => ⟨hphase, hstate⟩
  have hwatch : ∀ n, Watches s₀ s pid n → Watches s₀ (s.setMonitor m { x with holder := holder }) pid n :=
    fun _ hw => hw.setMonitor hx rfl
  exact hset.move hc hopen fun hpid => (hp hpid).mono hwatch (.refl f) id

theorem setRegister (h : Coherent s₀ s pid f refused) {q : ℕ} (hm : q = pid → Watches s₀ s pid m) :
    Coherent s₀ { s with registrar := none, register := s.register.set q (some m) } pid f refused := by
  refine ⟨h.count, h.child, fun n hn => ?_, h.monitors, h.calls, h.reaper⟩
  by_cases hq : pid = q
  · subst hq
    obtain rfl : m = n := by simpa using hn
    exact hm rfl
  · exact h.register n (by simpa [Family.set_of_ne _ hq] using hn)

theorem told (h : Coherent s₀ s pid f refused) (hw : Watches s₀ s pid m) (hx : s.monitors m = some x) :
    Told f refused x.state := by
  obtain ⟨hm, hlt, y, hy, hp⟩ := hw
  obtain rfl := Option.some_inj.1 (hx.symm.trans hy)
  exact (h.monitors m x hm hlt hx hp).2

theorem addMonitor (h : Coherent s₀ s pid f refused)
    (hx : x.pid = pid → ThreadOk s₀ f refused x.phase ∧ Told f refused x.state) :
    Coherent s₀ (State.setMonitor { s with nextMonitor := s.nextMonitor + 1 } s.nextMonitor x) pid f refused ∧
      (x.pid = pid →
        Watches s₀ (State.setMonitor { s with nextMonitor := s.nextMonitor + 1 } s.nextMonitor x) pid s.nextMonitor) := by
  have hwatch : ∀ n, Watches s₀ s pid n →
      Watches s₀ (State.setMonitor { s with nextMonitor := s.nextMonitor + 1 } s.nextMonitor x) pid n := by
    rintro n ⟨hn, hlt, z, hz, hzp⟩
    exact ⟨hn, Nat.lt_succ_of_lt hlt, z, by simpa [State.setMonitor, Family.set_of_ne _ hlt.ne] using hz, hzp⟩
  refine ⟨⟨h.count.trans s.nextMonitor.le_succ, h.child, fun n hn => hwatch n (h.register n hn),
    fun n z hn hlt hz hp => ?_, fun i c hc hp => ?_, h.reaper⟩, fun hp => ?_⟩
  · rcases Nat.lt_succ_iff_lt_or_eq.1 hlt with hlt | rfl
    · exact h.monitors n z hn hlt (by simpa [State.setMonitor, Family.set_of_ne _ hlt.ne] using hz) hp
    · obtain rfl : x = z := by simpa [State.setMonitor] using hz
      exact hx hp
  · exact (h.calls i c hc hp).imp_right (PhaseOk.mono hwatch (.refl f) id)
  · exact ⟨h.count, Nat.lt_succ_self _, x, by simp [State.setMonitor], hp⟩

/-! ### Steps of calls -/

theorem running_of_child (h : Coherent s₀ s pid f refused) {k : ℕ} (hx : s.children pid = some ⟨k, none⟩) :
    f = .running :=
  Fate.eq_running_of_child (h.child.symm.trans hx)

theorem isReaped_of_child (h : Coherent s₀ s pid f refused) (hx : s.children pid = none) : f.IsReaped :=
  Fate.isReaped_of_child (h.child.symm.trans hx)

theorem serial_of_child (h : Coherent s₀ s pid f refused) {q : ℕ} {y : Child} (hy : s.children q = some y)
    (hq : q = pid) : y.serial = s₀.nextSerial := by
  subst hq
  exact Fate.serial_of_child (h.child.symm.trans hy)

/-- A call that is told there is no such child ends with that. -/
theorem noChild (h : Coherent s₀ s pid f refused) (hc : s.calls i = some c) (hopen : ∀ o, c.phase ≠ .finished o)
    (hx : c.pid = pid → f.IsReaped) :
    Coherent s₀ (s.move i c (.finished (.failed .noChild))) pid f refused :=
  h.move hc hopen fun hp _ => ⟨Outcome.not_isEnd_failed _, fun _ => .inl (hx hp)⟩

/-- A call that asks for the status gets it, or learns that there is no child, or goes on with `still`. -/
theorem reap (h : Coherent s₀ s pid f refused) (hc : s.calls i = some c) (hopen : ∀ o, c.phase ≠ .finished o)
    {still : Option State} (hu : s.reap i c still = some u)
    (hstill : still = some u → (c.pid = pid → f = .running) → Coherent s₀ u pid f refused) :
    ∃ f', Fate.Turn pid f (.advance i) f' ∧ Coherent s₀ u pid f' refused := by
  obtain ⟨hx, rfl⟩ | ⟨k, status, hx, rfl⟩ | ⟨k, hx, hu⟩ := State.reap_cases hu
  · refine ⟨f, .keep, h.noChild hc hopen ?_⟩
    rintro rfl
    exact h.isReaped_of_child hx
  · by_cases hp : c.pid = pid
    · rw [hp] at hx ⊢
      obtain rfl := Fate.eq_ended_of_child (h.child.symm.trans hx)
      exact ⟨_, .taken, h.take hc hp⟩
    · have hother : Coherent s₀ { s with children := s.children.set c.pid none } pid f refused :=
        h.congr (Family.set_of_ne _ (Ne.symm hp) _) rfl rfl rfl rfl
      exact ⟨f, .keep, hother.move hc hopen fun hp' => absurd hp' hp⟩
  · refine ⟨f, .keep, hstill hu ?_⟩
    rintro rfl
    exact h.running_of_child hx

theorem phase (h : Coherent s₀ s pid f refused) (hc : s.calls i = some c) (hopen : ∀ o, c.phase ≠ .finished o)
    (hp : c.pid = pid) : PhaseOk s₀ s pid f refused i c.phase := by
  obtain ⟨-, o, ho⟩ | h := h.calls i c hc hp
  · exact absurd ho (hopen o)
  · exact h

theorem advance (h : Coherent s₀ s pid f refused) (hc : s.calls i = some c) (hu : s.advance i c = some u) :
    ∃ f', Fate.Turn pid f (.advance i) f' ∧ Coherent s₀ u pid f' refused := by
  obtain ⟨q, limit, phase⟩ := c
  have hphase := h.phase hc
  cases phase with
  | starting =>
    cases hu
    refine ⟨f, .keep, h.move hc nofun fun _ => ?_⟩
    split_ifs
    · exact fun _ => ⟨Outcome.not_isEnd_failed _, fun he => by cases he⟩
    · trivial
    · trivial
  | blocking =>
    refine h.reap hc nofun hu fun hstill hrun => ?_
    obtain ⟨x, hx, rfl⟩ := Option.map_eq_some_iff.1 hstill
    refine h.move hc nofun fun hp => ?_
    exact h.serial_of_child hx hp
  | blocked serial =>
    have hserial := hphase nofun
    unfold State.advance at hu
    dsimp only at hu
    split at hu
    · rename_i x hx
      split_ifs at hu with hsame
      · exact h.reap hc nofun hu nofun
      · -- the number now means another child, which it does not for `pid`
        cases hu
        refine ⟨f, .keep, h.noChild hc nofun fun hp => ?_⟩
        exact absurd ((h.serial_of_child hx hp).trans (hserial hp).symm) hsame
    · rename_i hx
      cases hu
      exact ⟨f, .keep, h.noChild hc nofun fun hp => h.isReaped_of_child (hp ▸ hx)⟩
  | polling =>
    refine h.reap hc nofun hu fun hstill _ => ?_
    cases hstill
    refine h.move hc nofun fun _ => ?_
    split_ifs
    · exact fun _ => ⟨Outcome.not_isEnd_timedOut, nofun⟩
    · trivial
  | timing =>
    cases limit with
    | none => cases hu; exact ⟨f, .keep, h.move hc nofun fun _ => trivial⟩
    | some limit =>
      cases hu
      refine ⟨f, .keep, h.move hc nofun fun _ => ?_⟩
      split_ifs <;> trivial
  | watching deadline =>
    unfold State.advance at hu
    dsimp only at hu
    split_ifs at hu
    split at hu
    · rename_i m hm
      cases hu
      exact ⟨f, .keep, h.move hc nofun fun hp => h.register m (hp ▸ hm)⟩
    · cases hu
      have hlock : Coherent s₀ { s with registrar := some i } pid f refused := h.congr rfl rfl rfl rfl rfl
      exact ⟨f, .keep, hlock.move hc nofun fun _ => trivial⟩
  | engaging deadline =>
    cases hu
    obtain ⟨hadd, hwatch⟩ := h.addMonitor (x := ⟨q, .running, .waiting, none⟩) fun _ => ⟨trivial, trivial⟩
    exact ⟨f, .keep, hadd.move hc nofun hwatch⟩
  | registering deadline m =>
    cases hu
    have hset := h.setRegister (q := q) fun hp => hphase nofun hp
    exact ⟨f, .keep, hset.move hc nofun fun hp => hphase nofun hp⟩
  | locking deadline m =>
    unfold State.advance at hu
    dsimp only at hu
    split at hu
    · rename_i x hx
      split_ifs at hu
      cases hu
      exact ⟨f, .keep, h.moveHolder hc nofun hx _ (hphase nofun)⟩
    · cases hu
  | inspecting deadline m =>
    unfold State.advance at hu
    dsimp only at hu
    split at hu
    · rename_i x hx
      have htold : q = pid → Told f refused x.state := fun hp => h.told (hphase nofun hp) hx
      split at hu
      · cases hu
        exact ⟨f, .keep, h.move hc nofun (hphase nofun)⟩
      · rename_i hstate
        rw [hstate] at htold
        cases hu
        exact ⟨f, .keep, h.moveHolder hc nofun hx _ htold⟩
      · rename_i e hstate
        rw [hstate] at htold
        cases hu
        refine ⟨f, .keep, h.moveHolder hc nofun hx _ fun hp _ => ⟨Outcome.not_isEnd_failed e, fun he => ?_⟩⟩
        cases he
        exact htold hp rfl
    · cases hu
  | deciding deadline m =>
    unfold State.advance at hu
    dsimp only at hu
    split_ifs at hu
    · split at hu
      · rename_i x hx
        cases hu
        exact ⟨f, .keep, h.moveHolder hc nofun hx _ fun _ _ => ⟨Outcome.not_isEnd_timedOut, nofun⟩⟩
      · cases hu
    · cases hu
      exact ⟨f, .keep, h.move hc nofun (hphase nofun)⟩
  | retiring deadline m now =>
    unfold State.advance at hu
    dsimp only at hu
    split at hu
    · rename_i x hx
      cases hu
      exact ⟨f, .keep, h.moveHolder hc nofun hx _ (hphase nofun)⟩
    · cases hu
  | sleeping => cases hu
  | reaping =>
    refine h.reap hc nofun hu fun hstill hrun => ?_
    cases hstill
    exact h.move hc nofun fun _ => trivial
  | finished o => cases hu

theorem refuse {e : OsError} (h : Coherent s₀ s pid f refused) (hc : s.calls i = some c)
    (hu : s.refuse i c e = some u) : Coherent s₀ u pid f (refused ∨ e = .noChild) := by
  obtain ⟨q, limit, phase⟩ := c
  cases phase with
  | engaging deadline =>
    cases hu
    have hfree : Coherent s₀ { s with registrar := none } pid f (refused ∨ e = .noChild) :=
      (h.imp .inl).congr rfl rfl rfl rfl rfl
    obtain ⟨hadd, hwatch⟩ := hfree.addMonitor (x := ⟨q, .failed e, .finished, none⟩)
      fun _ => ⟨trivial, fun he => .inr (.inr he)⟩
    exact hadd.move hc nofun hwatch
  | _ => cases hu

/-! ### Steps of monitors -/

theorem setPhase (h : Coherent s₀ s pid f refused) (hx : s.monitors m = some x) {p : MonitorPhase}
    (hp : x.pid = pid → ThreadOk s₀ f refused x.phase → ThreadOk s₀ f refused p) :
    Coherent s₀ (s.setMonitor m { x with phase := p }) pid f refused :=
  h.setMonitor hx rfl fun _ hpid hphase hstate => ⟨hp hpid hphase, hstate⟩

theorem rouse (h : Coherent s₀ s pid f refused) (m : ℕ) :
    Coherent s₀ { s with calls := fun i => (s.calls i).map (State.roused m) } pid f refused := by
  refine ⟨h.count, h.child, h.register, h.monitors, fun i c hc hp => ?_, fun status i hf => ?_⟩
  · obtain ⟨d, hd, rfl⟩ := Option.map_eq_some_iff.1 hc
    obtain hsame | ⟨deadline, wake, hphase, hmoved⟩ := State.roused_cases m d
    · rw [hsame] at hp ⊢
      exact h.calls i d hd hp
    · rw [hmoved] at hp ⊢
      have hwatch := h.phase hd (by rw [hphase]; nofun) hp
      rw [hphase] at hwatch
      exact .inr hwatch
  · obtain ⟨limit, hi⟩ := h.reaper status i hf
    exact ⟨limit, by simp [hi, State.roused]⟩

theorem unregister (h : Coherent s₀ s pid f refused) (q : ℕ) :
    Coherent s₀ { s with register := s.register.set q none } pid f refused := by
  refine ⟨h.count, h.child, fun n hn => h.register n ?_, h.monitors, h.calls, h.reaper⟩
  by_cases hq : pid = q
  · subst hq
    simp at hn
  · simpa [Family.set_of_ne _ hq] using hn

theorem runMonitor (h : Coherent s₀ s pid f refused) (hx : s.monitors m = some x) (hu : s.runMonitor m x = some u) :
    Coherent s₀ u pid f refused := by
  obtain ⟨q, state, phase, holder⟩ := x
  have hgone : q = pid → s.children q = none → Told f refused (.failed .noChild) := by
    rintro rfl hnone _
    exact .inl (h.isReaped_of_child hnone)
  have hended : ∀ {y : Child}, y.status ≠ none → s.children q = some y → q = pid → Told f refused .ended := by
    rintro ⟨k, status⟩ hstatus hy rfl rfl
    exact hstatus (congrArg Child.status (Option.some_inj.1 (hy.symm.trans h.child)))
  cases phase with
  | waiting =>
    unfold State.runMonitor at hu
    dsimp only at hu
    split at hu
    · rename_i hnone
      cases hu
      exact h.setPhase hx fun hp _ => hgone hp hnone
    · rename_i k status hy
      cases hu
      exact h.setPhase hx fun hp _ => hended (Option.some_ne_none status) hy hp
    · rename_i k hy
      cases hu
      exact h.setPhase hx fun hp _ => h.serial_of_child hy hp
  | attached serial =>
    unfold State.runMonitor at hu
    dsimp only at hu
    split at hu
    · rename_i hnone
      cases hu
      exact h.setPhase hx fun hp _ => hgone hp hnone
    · rename_i y hy
      split_ifs at hu with hother hstatus
      · -- as for a blocked call
        cases hu
        refine h.setPhase hx fun hp hserial => absurd ?_ hother
        exact (h.serial_of_child hy hp).trans hserial.symm
      · cases hu
        exact h.setPhase hx fun hp _ => hended (Option.isSome_iff_ne_none.1 hstatus) hy hp
  | unregistering told =>
    unfold State.runMonitor at hu
    dsimp only at hu
    split_ifs at hu
    · cases hu
      exact (h.unregister q).setPhase hx fun _ htold => htold
    · cases hu
      exact h.setPhase hx fun _ htold => htold
  | publishing told =>
    unfold State.runMonitor at hu
    dsimp only at hu
    split_ifs at hu
    cases hu
    exact h.setMonitor hx rfl fun _ _ htold _ => ⟨trivial, htold⟩
  | notifying =>
    cases hu
    exact (h.rouse m).setPhase hx fun _ _ => trivial
  | finished => cases hu

/-! ### Any step -/

theorem begin {limit : Timeout} {q : ℕ} (h : Coherent s₀ s pid f refused) (hfree : s.calls i = none) :
    Coherent s₀ { s with calls := s.calls.set i (some ⟨q, limit, .starting⟩) } pid f refused := by
  refine ⟨h.count, h.child, h.register, h.monitors, fun j c hc hp => ?_, fun status j hf => ?_⟩
  · by_cases hj : j = i
    · subst hj
      obtain rfl : ⟨q, limit, .starting⟩ = c := by simpa using hc
      exact .inr trivial
    · exact h.calls j c (by simpa [Family.set_of_ne _ hj] using hc) hp
  · obtain ⟨limit, hj⟩ := h.reaper status j hf
    have hne : j ≠ i := by
      rintro rfl
      rw [hfree] at hj
      cases hj
    exact ⟨limit, by simpa [Family.set_of_ne _ hne] using hj⟩

theorem terminate {q : ℕ} {status : Status} (h : Coherent s₀ s pid f refused)
    (hu : s.step (.terminate q status) = some u) :
    ∃ f', Fate.Turn pid f (.terminate q status) f' ∧ Coherent s₀ u pid f' refused := by
  unfold State.step at hu
  dsimp only at hu
  split at hu
  · rename_i k hx
    cases hu
    by_cases hq : pid = q
    · subst hq
      obtain rfl := h.running_of_child hx
      obtain rfl : k = s₀.nextSerial := h.serial_of_child hx rfl
      exact ⟨_, .ends, h.change ⟨nofun, nofun⟩ id (Family.set_self _ _ _) nofun rfl rfl rfl rfl⟩
    · exact ⟨f, .keep, h.congr (Family.set_of_ne _ hq _) rfl rfl rfl rfl⟩
  · cases hu

theorem step {a : Action} (h : Coherent s₀ s pid f refused) (ha : a ≠ .launch pid) (hu : s.step a = some u) :
    ∃ f', Fate.Turn pid f a f' ∧ Coherent s₀ u pid f' (refused ∨ ∃ i, a = .refuse i .noChild) := by
  have keep : Coherent s₀ u pid f refused →
      ∃ f', Fate.Turn pid f a f' ∧ Coherent s₀ u pid f' (refused ∨ ∃ i, a = .refuse i .noChild) :=
    fun h => ⟨f, .keep, h.imp .inl⟩
  cases a with
  | launch q =>
    unfold State.step at hu
    dsimp only at hu
    split_ifs at hu
    cases hu
    have hq : pid ≠ q := by rintro rfl; exact ha rfl
    exact keep (h.congr (Family.set_of_ne _ hq _) rfl rfl rfl rfl)
  | terminate q status =>
    obtain ⟨f', hturn, hu⟩ := h.terminate hu
    exact ⟨f', hturn, hu.imp .inl⟩
  | begin i q limit =>
    unfold State.step at hu
    dsimp only at hu
    split_ifs at hu with hfree
    cases hu
    exact keep (h.begin hfree)
  | advance i =>
    obtain ⟨c, hc, hu⟩ := Option.bind_eq_some_iff.1 hu
    obtain ⟨f', hturn, hu⟩ := h.advance hc hu
    exact ⟨f', hturn, hu.imp .inl⟩
  | refuse i e =>
    obtain ⟨c, hc, hu⟩ := Option.bind_eq_some_iff.1 hu
    refine ⟨f, .keep, (h.refuse hc hu).imp (Or.imp_right ?_)⟩
    rintro rfl
    exact ⟨i, rfl⟩
  | interrupt i =>
    obtain ⟨⟨q, limit, phase⟩, hc, hu⟩ := Option.bind_eq_some_iff.1 hu
    cases phase with
    | blocked => cases hu; exact keep (h.move hc nofun fun _ => trivial)
    | _ => cases hu
  | interruptMonitor m =>
    obtain ⟨⟨q, state, phase, holder⟩, hx, hu⟩ := Option.bind_eq_some_iff.1 hu
    cases phase with
    | attached => cases hu; exact keep (h.setPhase hx fun _ _ => trivial)
    | _ => cases hu
  | wake i =>
    obtain ⟨⟨q, limit, phase⟩, hc, hu⟩ := Option.bind_eq_some_iff.1 hu
    have hphase := h.phase hc
    cases phase with
    | sleeping => cases hu; exact keep (h.move hc nofun (hphase nofun))
    | _ => cases hu
  | monitor m =>
    obtain ⟨x, hx, hu⟩ := Option.bind_eq_some_iff.1 hu
    exact keep (h.runMonitor hx hu)
  | tick d =>
    cases hu
    exact keep (h.congr rfl rfl rfl rfl rfl)

end Coherent

end Waiting

end Groundwork
