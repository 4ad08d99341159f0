import Groundwork.Proofs.Clock.Timeout
import Groundwork.Proofs.Waiting.Course
import Groundwork.Proofs.Waiting.Register
import Groundwork.Waiting.Request

/-!
# What requests come to

A request is an integer, which may be no process number, and any word of a floating-point format. No call and no
monitor ever asks the system for anything but one process (`State.valid_of_asks?`), and the answer to a request is
that of the one call that serves it, spread over a report (`Report.Tells`).
-/

namespace Groundwork

namespace Report

variable {report : Report} {o : Outcome} {late : Prop} {taken : Status → Prop}

end Report

namespace Waiting

def MonitorPhase.asks : MonitorPhase → Bool
  | .waiting | .attached _ => true
  | _ => false

namespace State

variable {s s₀ t u : State} {a : Action} {acts : List Action} {i m pid : ℕ} {c : Call} {x : Monitor} {limit : Timeout}

/-- The process number that an action asks the system about. -/
def asks? (s : State) : Action → Option ℕ
  | .advance i => (s.calls i).bind fun c => if c.phase.asks then some c.pid else none
  | .monitor m => (s.monitors m).bind fun x => if x.phase.asks then some x.pid else none
  | _ => none

theorem exists_phase (hc : s.calls i = some c) (hstep : s.step a = some t) :
    ∃ p, t.calls i = some { c with phase := p } := by
  rcases call_cases hc hstep with hi | ⟨p, -, hi⟩ | ⟨deadline, m, wake, -, hi⟩
  · exact ⟨c.phase, hi⟩
  · exact ⟨p, hi⟩
  · exact ⟨.locking deadline m, hi⟩

theorem exists_call_of_begin (hrun : s₀.follow acts = some s) (hbegin : .begin i pid limit ∈ acts) :
    ∃ p, s.calls i = some ⟨pid, limit, p⟩ := by
  induction acts using List.reverseRecOn generalizing s with
  | nil => cases hbegin
  | append_singleton acts a ih =>
    obtain ⟨t, ht, hstep⟩ := follow_concat_eq_some_iff.1 hrun
    rcases List.mem_append.1 hbegin with hbefore | hlast
    · obtain ⟨p, hp⟩ := ih ht hbefore
      obtain ⟨q, hq⟩ := exists_phase hp hstep
      exact ⟨q, hq⟩
    · obtain rfl := List.mem_singleton.1 hlast
      simp only [State.step, Option.ite_none_right_eq_some, Option.some.injEq] at hstep
      obtain ⟨-, rfl⟩ := hstep
      exact ⟨.starting, Family.set_self ..⟩

/-- A step that does not ask the system would be the same whatever has become of the children. -/
theorem step_of_not_asks (hasks : s.asks? a = none) (hlaunch : ∀ pid, a ≠ .launch pid)
    (hterminate : ∀ pid status, a ≠ .terminate pid status) (children : Family Child) :
    ({ s with children := children } : State).step a = (s.step a).map ({ · with children := children }) := by
  cases a with
  | launch pid => exact absurd rfl (hlaunch pid)
  | terminate pid status => exact absurd rfl (hterminate pid status)
  | begin i pid limit => simp only [State.step]; split_ifs <;> rfl
  | advance i =>
    rcases hc : s.calls i with _ | c
    · simp [State.step, hc]
    · have hphase : c.phase.asks = false := by simpa [asks?, hc] using hasks
      simp only [State.step, hc, Option.bind_some, advance]
      cases hp : c.phase <;> simp [hp, Phase.asks] at hphase ⊢ <;> (repeat' split) <;> simp_all [move, setMonitor]
  | refuse i e =>
    rcases hc : s.calls i with _ | c
    · simp [State.step, hc]
    · simp only [State.step, hc, Option.bind_some, refuse]
      split <;> rfl
  | interrupt i =>
    rcases hc : s.calls i with _ | c
    · simp [State.step, hc]
    · simp only [State.step, hc, Option.bind_some]
      split <;> rfl
  | interruptMonitor m =>
    rcases hx : s.monitors m with _ | x
    · simp [State.step, hx]
    · simp only [State.step, hx, Option.bind_some]
      split <;> rfl
  | wake i =>
    rcases hc : s.calls i with _ | c
    · simp [State.step, hc]
    · simp only [State.step, hc, Option.bind_some]
      split <;> rfl
  | monitor m =>
    rcases hx : s.monitors m with _ | x
    · simp [State.step, hx]
    · have hphase : x.phase.asks = false := by simpa [asks?, hx] using hasks
      simp only [State.step, hx, Option.bind_some, runMonitor]
      cases hp : x.phase <;> simp [hp, MonitorPhase.asks] at hphase ⊢ <;> (repeat' split) <;> simp_all [setMonitor]
  | tick d => rfl

end State

namespace Request

variable {r : Request} {s : State} {acts : List Action} {i n pid : ℕ} {c : Call} {p : Phase} {report : Report}

/-- Call `i` has taken the status from the process that the request names. -/
def Takes (r : Request) (acts : List Action) (i : ℕ) (status : Status) : Prop :=
  ∃ pid : ℕ, r.pid = pid ∧ ∃ k, State.initial.Takes acts pid (.advance i) ⟨k, some status⟩

end Request

end Waiting

end Groundwork
