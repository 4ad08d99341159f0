import Groundwork.Proofs.Waiting.Coherence

/-!
# Every child is reaped once

From the launch of a child on, as long as its process number is given to no other, any number of calls
may wait for it in any order of steps. What a run has done to the child is its fate (`Lifetime.fate`), and
that is all the answers of the calls depend on.
-/

namespace Groundwork

namespace Outcome

theorem ofStatus_cases (status : Status) : (ofStatus status).IsEnd ∨ ofStatus status = .failed .invalidArgument := by
  unfold ofStatus
  split_ifs
  · exact .inl (.inl nofun)
  · exact .inr rfl
  · exact .inl (.inr nofun)

theorem ofStatus_ne_timedOut (status : Status) : ofStatus status ≠ .timedOut := by
  intro h
  obtain hend | hinvalid := ofStatus_cases status
  · exact not_isEnd_timedOut (h ▸ hend)
  · cases h.symm.trans hinvalid

theorem ofStatus_ne_noChild (status : Status) : ofStatus status ≠ .failed .noChild := by
  intro h
  obtain hend | hinvalid := ofStatus_cases status
  · exact not_isEnd_failed _ (h ▸ hend)
  · cases h.symm.trans hinvalid

end Outcome

namespace Waiting

/-- The child `pid` is launched in `s₀`, when no earlier wait for that number is going on, and `acts` lead
from there to `s` without another child of that number. -/
structure Lifetime (s₀ : State) (pid : ℕ) (acts : List Action) (s : State) : Prop where
  unregistered : s₀.register pid = none
  finished : ∀ i c, s₀.calls i = some c → c.pid = pid → ∃ o, c.phase = .finished o
  run : s₀.follow (.launch pid :: acts) = some s
  once : .launch pid ∉ acts

/-- Call `i` has waited for `pid` since some time after `s₀`, and has ended with `o` in `s`. -/
def Answers (s₀ s : State) (pid i : ℕ) (o : Outcome) : Prop :=
  s₀.calls i = none ∧ ∃ limit, s.calls i = some ⟨pid, limit, .finished o⟩

/-- What is on record of a fate: the child's end, and the one action that took the child away. -/
def Recorded (s₀ : State) (pid : ℕ) (acts : List Action) : Fate → Prop
  | .running => ∀ a x, ¬ s₀.Takes (.launch pid :: acts) pid a x
  | .ended status => .terminate pid status ∈ acts ∧ ∀ a x, ¬ s₀.Takes (.launch pid :: acts) pid a x
  | .reaped status i => .terminate pid status ∈ acts ∧
    ∀ a x, s₀.Takes (.launch pid :: acts) pid a x ↔ a = .advance i ∧ x = ⟨s₀.nextSerial, some status⟩

variable {s₀ s t u : State} {pid i : ℕ} {acts : List Action} {a : Action} {f f' : Fate} {refused refused' : Prop}

/-! ### The fate of the child along a run -/

theorem Recorded.concat (h : Recorded s₀ pid acts f) (hturn : Fate.Turn pid f a f')
    (ht : s₀.follow (.launch pid :: acts) = some t) (hu : t.step a = some u)
    (hchild : t.children pid = f.child s₀.nextSerial) (hchild' : u.children pid = f'.child s₀.nextSerial) :
    Recorded s₀ pid (acts ++ [a]) f' := by
  have htakes : ∀ b x, s₀.Takes (.launch pid :: (acts ++ [a])) pid b x ↔ s₀.Takes (.launch pid :: acts) pid b x ∨
      b = a ∧ f.child s₀.nextSerial = some x ∧ f'.child s₀.nextSerial = none := by
    intro b x
    rw [← List.cons_append, State.takes_concat_iff ht hu, hchild, hchild']
  cases hturn with
  | keep =>
    have hsame : ∀ b x, s₀.Takes (.launch pid :: (acts ++ [a])) pid b x ↔ s₀.Takes (.launch pid :: acts) pid b x := by
      intro b x
      rw [htakes, or_iff_left]
      rintro ⟨-, hsome, hnone⟩
      cases hsome.symm.trans hnone
    cases f with
    | running => exact fun b x => (hsame b x).not.2 (h b x)
    | ended status => exact ⟨List.mem_append_left _ h.1, fun b x => (hsame b x).not.2 (h.2 b x)⟩
    | reaped status i => exact ⟨List.mem_append_left _ h.1, fun b x => (hsame b x).trans (h.2 b x)⟩
  | ends =>
    refine ⟨List.mem_append_right _ (List.mem_singleton_self _), fun b x hx => ?_⟩
    obtain hx | ⟨-, -, hnone⟩ := (htakes b x).1 hx
    · exact h b x hx
    · cases hnone
  | @taken status i =>
    refine ⟨List.mem_append_left _ h.1, fun b x => ?_⟩
    rw [htakes, or_iff_right (h.2 b x)]
    constructor
    · rintro ⟨rfl, hx, -⟩
      exact ⟨rfl, (Option.some_inj.1 hx).symm⟩
    · rintro ⟨rfl, rfl⟩
      exact ⟨rfl, rfl, rfl⟩

theorem recorded_launch (hrun : s₀.step (.launch pid) = some s) : Recorded s₀ pid [] .running := by
  have htakes : ∀ b x, s₀.Takes ([] ++ [.launch pid]) pid b x ↔ _ := fun b x => State.takes_concat_iff rfl hrun
  unfold State.step at hrun
  dsimp only at hrun
  split_ifs at hrun with hfree
  intro b x hx
  obtain hx | ⟨-, hx, -⟩ := (htakes b x).1 hx
  · exact State.not_takes_nil hx
  · cases hfree.1.symm.trans hx

theorem Recorded.takes (h : Recorded s₀ pid acts f) {x : Child} (hx : s₀.Takes (.launch pid :: acts) pid a x) :
    ∃ status i, f = .reaped status i ∧ a = .advance i ∧ x = ⟨s₀.nextSerial, some status⟩ := by
  cases f with
  | running => exact absurd hx (h a x)
  | ended status => exact absurd hx (h.2 a x)
  | reaped status i => exact ⟨status, i, rfl, (h.2 a x).1 hx⟩

/-! ### The answers of the calls -/

namespace Coherent

theorem settled (h : Coherent s₀ s pid f refused) {o : Outcome} (ha : Answers s₀ s pid i o) :
    (∃ status, f = .reaped status i ∧ o = .ofStatus status) ∨
      (∀ status, f ≠ .reaped status i) ∧ ¬ o.IsEnd ∧ (o = .failed .noChild → f.IsReaped ∨ refused) := by
  obtain ⟨hnew, limit, hc⟩ := ha
  by_cases hmine : ∃ status, f = .reaped status i
  · obtain ⟨status, rfl⟩ := hmine
    obtain ⟨limit', hc'⟩ := h.reaper status i rfl
    rw [hc] at hc'
    cases hc'
    exact .inl ⟨status, rfl, rfl⟩
  · push Not at hmine
    obtain ⟨hold, -⟩ | hphase := h.calls i _ hc rfl
    · cases hnew.symm.trans hold
    · exact .inr ⟨hmine, hphase hmine⟩

theorem reaper_of_isEnd (h : Coherent s₀ s pid f refused) {o : Outcome} (ha : Answers s₀ s pid i o) (ho : o.IsEnd) :
    ∃ status, f = .reaped status i ∧ o = .ofStatus status := by
  obtain hmine | ⟨-, hend, -⟩ := h.settled ha
  · exact hmine
  · exact absurd ho hend

theorem step_reaping (h : Coherent s₀ s pid f refused) {limit : Timeout} (hc : s.calls i = some ⟨pid, limit, .reaping⟩) :
    ∃ u o, s.step (.advance i) = some u ∧ u.calls i = some ⟨pid, limit, .finished o⟩ := by
  have hended : f ≠ .running := h.phase hc nofun rfl
  have hask : s.step (.advance i) = s.reap i ⟨pid, limit, .reaping⟩ (some (s.move i ⟨pid, limit, .reaping⟩ .blocking)) := by
    simp only [State.step, hc, Option.bind_some, State.advance]
  have hchild := h.child
  rw [hask]
  unfold State.reap State.take?
  cases f with
  | running => exact absurd rfl hended
  | ended status =>
    simp only [hchild, Fate.child]
    exact ⟨_, .ofStatus status, rfl, by simp [State.move]⟩
  | reaped status j =>
    simp only [hchild, Fate.child]
    exact ⟨_, .failed .noChild, rfl, by simp [State.move]⟩

end Coherent

namespace Lifetime

theorem of_concat (h : Lifetime s₀ pid (acts ++ [a]) u) :
    a ≠ .launch pid ∧ ∃ t, Lifetime s₀ pid acts t ∧ t.step a = some u := by
  have hrun := h.run
  rw [← List.cons_append, State.follow_concat_eq_some_iff] at hrun
  obtain ⟨t, ht, hu⟩ := hrun
  have honce : .launch pid ∉ acts ∧ .launch pid ≠ a := by simpa using h.once
  exact ⟨honce.2.symm, t, ⟨h.unregistered, h.finished, ht, honce.1⟩, hu⟩

theorem launched (h : Lifetime s₀ pid [] s) : Coherent s₀ s pid .running False ∧ Recorded s₀ pid [] .running := by
  have hrun : s₀.step (.launch pid) = some s := by simpa [State.follow] using h.run
  refine ⟨?_, recorded_launch hrun⟩
  unfold State.step at hrun
  dsimp only at hrun
  split_ifs at hrun
  cases hrun
  refine ⟨le_rfl, Family.set_self _ _ _, fun m hm => ?_, fun m x hm hlt => absurd hlt (not_lt.2 hm),
    fun i c hc hp => .inl ⟨hc, h.finished i c hc hp⟩, fun _ _ hreaped => ?_⟩
  · cases h.unregistered.symm.trans hm
  · cases hreaped

theorem fate (h : Lifetime s₀ pid acts s) :
    ∃ f, Coherent s₀ s pid f (∃ i, .refuse i .noChild ∈ acts) ∧ Recorded s₀ pid acts f := by
  induction acts using List.reverseRecOn generalizing s with
  | nil =>
    obtain ⟨hcoherent, hrecord⟩ := h.launched
    exact ⟨_, hcoherent.imp False.elim, hrecord⟩
  | append_singleton acts a ih =>
    obtain ⟨ha, t, ht, hu⟩ := h.of_concat
    obtain ⟨f, hcoherent, hrecord⟩ := ih ht
    obtain ⟨f', hturn, hcoherent'⟩ := hcoherent.step ha hu
    refine ⟨f', hcoherent'.imp ?_, hrecord.concat hturn ht.run hu hcoherent.child hcoherent'.child⟩
    rintro (⟨i, hi⟩ | ⟨i, rfl⟩)
    · exact ⟨i, List.mem_append_left _ hi⟩
    · exact ⟨i, List.mem_append_right _ (List.mem_singleton_self _)⟩

/-- At most one call answers with an exit code or a signal, and it is the one that took the status that the
child had ended with. Nothing else takes the child away, no monitor in particular: whoever does, answers
with the status. So a call that timed out has not reaped the child, and one that learns there is no such
child comes after another that has; threads that cannot be started for that very reason do not occur. A
call that asks again after its monitor told the end is then done. -/
theorem reaped_once (h : Lifetime s₀ pid acts s) :
    (∀ i j o o', Answers s₀ s pid i o → Answers s₀ s pid j o' → o.IsEnd → o'.IsEnd → i = j) ∧
    (∀ i o, Answers s₀ s pid i o → o.IsEnd → ∃ k status, .terminate pid status ∈ acts ∧ o = .ofStatus status ∧
      s₀.Takes (.launch pid :: acts) pid (.advance i) ⟨k, some status⟩) ∧
    (∀ a x, s₀.Takes (.launch pid :: acts) pid a x → ∃ i limit status, a = .advance i ∧ x.status = some status ∧
      s.calls i = some ⟨pid, limit, .finished (.ofStatus status)⟩) ∧
    (∀ a x b y, s₀.Takes (.launch pid :: acts) pid a x → s₀.Takes (.launch pid :: acts) pid b y → a = b ∧ x = y) ∧
    (∀ i x, Answers s₀ s pid i .timedOut → ¬ s₀.Takes (.launch pid :: acts) pid (.advance i) x) ∧
    ((∀ i, .refuse i .noChild ∉ acts) → ∀ i, Answers s₀ s pid i (.failed .noChild) →
      ∃ j x, j ≠ i ∧ s₀.Takes (.launch pid :: acts) pid (.advance j) x) ∧
    ∀ i limit, s.calls i = some ⟨pid, limit, .reaping⟩ →
      ∃ u o, s.step (.advance i) = some u ∧ u.calls i = some ⟨pid, limit, .finished o⟩ := by
  obtain ⟨f, hcoherent, hrecord⟩ := h.fate
  refine ⟨fun i j o o' hi hj ho ho' => ?_, fun i o hi ho => ?_, fun a x hx => ?_, fun a x b y hx hy => ?_,
    fun i x hi hx => ?_, fun hrefuse i hi => ?_, fun i limit hc => hcoherent.step_reaping hc⟩
  · obtain ⟨status, rfl, -⟩ := hcoherent.reaper_of_isEnd hi ho
    obtain ⟨status', hf, -⟩ := hcoherent.reaper_of_isEnd hj ho'
    exact (Fate.reaped.inj hf).2
  · obtain ⟨status, rfl, rfl⟩ := hcoherent.reaper_of_isEnd hi ho
    exact ⟨s₀.nextSerial, status, hrecord.1, rfl, (hrecord.2 _ _).2 ⟨rfl, rfl⟩⟩
  · obtain ⟨status, i, rfl, rfl, rfl⟩ := hrecord.takes hx
    obtain ⟨limit, hc⟩ := hcoherent.reaper status i rfl
    exact ⟨i, limit, status, rfl, rfl, hc⟩
  · obtain ⟨status, i, rfl, rfl, rfl⟩ := hrecord.takes hx
    obtain ⟨rfl, rfl⟩ := (hrecord.2 b y).1 hy
    exact ⟨rfl, rfl⟩
  · obtain ⟨status, j, rfl, ha, -⟩ := hrecord.takes hx
    cases ha
    obtain ⟨status', -, ho⟩ | ⟨hother, -⟩ := hcoherent.settled hi
    · exact Outcome.ofStatus_ne_timedOut status' ho.symm
    · exact hother status rfl
  · obtain ⟨status', -, ho⟩ | ⟨hother, -, hno⟩ := hcoherent.settled hi
    · exact absurd ho.symm (Outcome.ofStatus_ne_noChild status')
    · obtain ⟨status, j, rfl⟩ | ⟨j, hj⟩ := hno rfl
      · refine ⟨j, _, ?_, (hrecord.2 _ _).2 ⟨rfl, rfl⟩⟩
        rintro rfl
        exact hother status rfl
      · exact absurd hj (hrefuse j)

/-- A call without a limit, one with a limit and one that only asks wait for the same child: the second sleeps
until the monitor wakes it, and finds that the first was quicker. -/
theorem reaped_once_race :
    let race : List Action :=
      [.begin 1 7 none, .begin 2 7 (some 10), .begin 3 7 (some 0), .advance 1, .advance 1, .advance 2, .advance 2,
        .advance 2, .advance 2, .advance 2, .monitor 0, .advance 2, .advance 2, .advance 2, .advance 2, .advance 2,
        .advance 3, .advance 3, .terminate 7 (.exited 3), .monitor 0, .monitor 0, .monitor 0, .monitor 0,
        .advance 2, .advance 2, .advance 1, .advance 2]
    ∃ s, Lifetime .initial 7 race s ∧ Answers .initial s 7 1 (.exited 3) ∧ Answers .initial s 7 2 (.failed .noChild) ∧
      Answers .initial s 7 3 .timedOut ∧ (∀ i o, Answers .initial s 7 i o → o.IsEnd → 1 = i) ∧
      (∃ j x, j ≠ 2 ∧ State.initial.Takes (.launch 7 :: race) 7 (.advance j) x) ∧
      ∀ x, ¬ State.initial.Takes (.launch 7 :: race) 7 (.advance 3) x := by
  intro race
  have hrun : (State.initial.follow (.launch 7 :: race)).map (fun s => (s.calls 1, s.calls 2, s.calls 3)) =
      some (some ⟨7, none, .finished (.exited 3)⟩, some ⟨7, some 10, .finished (.failed .noChild)⟩,
        some ⟨7, some 0, .finished .timedOut⟩) := by decide
  obtain ⟨s, hs, hcalls⟩ := Option.map_eq_some_iff.1 hrun
  simp only [Prod.mk.injEq] at hcalls
  obtain ⟨h1, h2, h3⟩ := hcalls
  have hlife : Lifetime .initial 7 race s := ⟨rfl, nofun, hs, by decide⟩
  have ha1 : Answers .initial s 7 1 (.exited 3) := ⟨rfl, none, h1⟩
  have ha2 : Answers .initial s 7 2 (.failed .noChild) := ⟨rfl, some 10, h2⟩
  have ha3 : Answers .initial s 7 3 .timedOut := ⟨rfl, some 0, h3⟩
  have hend : (Outcome.exited 3).IsEnd := .inl nofun
  obtain ⟨hone, -, -, -, htimed, hno, -⟩ := hlife.reaped_once
  exact ⟨s, hlife, ha1, ha2, ha3, fun i o hi ho => hone 1 i _ o ha1 hi hend ho,
    hno (by simp [race]) 2 ha2, fun x => htimed 3 x ha3⟩

end Lifetime

end Waiting

end Groundwork
