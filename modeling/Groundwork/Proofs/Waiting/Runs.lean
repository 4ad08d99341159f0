import Groundwork.Waiting.Step
import Mathlib.Tactic

/-!
# Runs of waiting

A run is a list of actions, each of which could happen (`State.follow`). The child with a process number
goes away in one kind of step only, when a call takes its status; `State.Takes` names the action that did.
-/

namespace Groundwork

namespace Waiting

namespace State

variable {s t u : State} {acts : List Action} {a b : Action} {pid : ℕ} {x : Child}

/-- The state after all of `acts` in order, if each can happen. -/
def follow (s : State) (acts : List Action) : Option State := acts.foldlM step s

/-- In the run `acts` from `s`, the action `a` takes away the child `x` that had the number `pid`. -/
def Takes (s : State) (acts : List Action) (pid : ℕ) (a : Action) (x : Child) : Prop :=
  ∃ before t u, before ++ [a] <+: acts ∧ s.follow before = some t ∧ t.step a = some u ∧
    t.children pid = some x ∧ u.children pid = none

theorem follow_concat_eq_some_iff :
    s.follow (acts ++ [a]) = some u ↔ ∃ t, s.follow acts = some t ∧ t.step a = some u := by
  simp only [follow, List.foldlM_append, List.foldlM_cons, List.foldlM_nil, bind_pure, Option.bind_eq_bind,
    Option.bind_eq_some_iff]

theorem follow_single (h : s.step a = some u) : s.follow [a] = some u :=
  (follow_concat_eq_some_iff : s.follow ([] ++ [a]) = some u ↔ _).2 ⟨s, rfl, h⟩

theorem follow_append_eq_some_iff {acts' : List Action} :
    s.follow (acts ++ acts') = some u ↔ ∃ t, s.follow acts = some t ∧ t.follow acts' = some u := by
  simp only [follow, List.foldlM_append, Option.bind_eq_bind, Option.bind_eq_some_iff]

theorem not_takes_nil : ¬ s.Takes [] pid a x := by
  rintro ⟨before, -, -, h, -⟩
  simp at h

theorem takes_concat_iff (ht : s.follow acts = some t) (hu : t.step a = some u) :
    s.Takes (acts ++ [a]) pid b x ↔
      s.Takes acts pid b x ∨ b = a ∧ t.children pid = some x ∧ u.children pid = none := by
  constructor
  · rintro ⟨before, t', u', hprefix, ht', hu', hx, hnone⟩
    rcases List.prefix_concat_iff.1 hprefix with heq | hprefix
    · obtain ⟨rfl, hb⟩ := List.append_inj' heq rfl
      obtain rfl : b = a := List.singleton_inj.1 hb
      obtain rfl : t = t' := Option.some_inj.1 (ht.symm.trans ht')
      obtain rfl : u = u' := Option.some_inj.1 (hu.symm.trans hu')
      exact .inr ⟨rfl, hx, hnone⟩
    · exact .inl ⟨before, t', u', hprefix, ht', hu', hx, hnone⟩
  · rintro (⟨before, t', u', hprefix, h⟩ | ⟨rfl, hx, hnone⟩)
    · exact ⟨before, t', u', hprefix.trans (List.prefix_append _ _), h⟩
    · exact ⟨acts, t, u, List.prefix_rfl, ht, hu, hx, hnone⟩

theorem takes_concat_iff_of_ne (hb : b ≠ a) : s.Takes (acts ++ [a]) pid b x ↔ s.Takes acts pid b x := by
  constructor
  · rintro ⟨before, t', u', hprefix, h⟩
    rcases List.prefix_concat_iff.1 hprefix with heq | hprefix
    · obtain ⟨-, hlast⟩ := List.append_inj' heq rfl
      exact absurd (List.singleton_inj.1 hlast) hb
    · exact ⟨before, t', u', hprefix, h⟩
  · rintro ⟨before, t', u', hprefix, h⟩
    exact ⟨before, t', u', hprefix.trans (List.prefix_append _ _), h⟩

theorem reap_cases {i : ℕ} {c : Call} {still : Option State} (h : s.reap i c still = some u) :
    s.children c.pid = none ∧ u = s.move i c (.finished (.failed .noChild)) ∨
    (∃ k status, s.children c.pid = some ⟨k, some status⟩ ∧
      u = { s with children := s.children.set c.pid none }.move i c (.finished (.ofStatus status))) ∨
    ∃ k, s.children c.pid = some ⟨k, none⟩ ∧ still = some u := by
  unfold reap take? at h
  rcases hx : s.children c.pid with _ | ⟨k, _ | status⟩
  · rw [hx] at h
    exact .inl ⟨rfl, (Option.some_inj.1 h).symm⟩
  · rw [hx] at h
    exact .inr (.inr ⟨k, rfl, h⟩)
  · rw [hx] at h
    exact .inr (.inl ⟨k, status, rfl, (Option.some_inj.1 h).symm⟩)

theorem roused_cases (m : ℕ) (c : Call) : roused m c = c ∨
    ∃ deadline wake, c.phase = .sleeping deadline m wake ∧ roused m c = { c with phase := .locking deadline m } := by
  unfold roused
  split
  · rename_i deadline n wake hphase
    split_ifs with hn
    · exact .inr ⟨deadline, wake, hn ▸ hphase, rfl⟩
    · exact .inl rfl
  · exact .inl rfl

end State

end Waiting

end Groundwork
