import Groundwork.Proofs.Waiting.Requests
import Groundwork.Waiting.Schedule

/-!
# Runs that begin nothing

An action is quiet if it brings neither a child nor a call into being, which is so of all that the schedule of
`State.run` takes (`exists_follow_run`). A quiet run leaves a number free that no call has, and one that no child has.
So no two of its actions take away a child of one number (`takes_unique`).
-/

namespace Groundwork

namespace Waiting

/-- Brings neither a child nor a call into being. -/
def Action.quiet : Action → Bool
  | .launch _ | .begin .. => false
  | _ => true

namespace State

variable {s s₀ t u : State} {a b : Action} {acts acts' : List Action} {calls : List ℕ} {i pid : ℕ} {limit : Timeout}
  {x y : Child}

/-- What every action of a run keeps, the run keeps. -/
theorem follow_keeps {P : State → Prop} (hrun : s.follow acts = some t)
    (hstep : ∀ a ∈ acts, ∀ {u v : State}, P u → u.step a = some v → P v) (hs : P s) : P t := by
  induction acts using List.reverseRecOn generalizing t with
  | nil =>
    cases hrun
    exact hs
  | append_singleton acts a ih =>
    obtain ⟨u, hu, ha⟩ := follow_concat_eq_some_iff.1 hrun
    exact hstep a (by simp) (ih hu fun b hb => hstep b (by simp [hb])) ha

/-! ### The schedule -/

theorem exists_step_of_next? (h : s.next? calls = some t) : ∃ a, a.quiet = true ∧ s.step a = some t := by
  obtain ⟨a, hmem, ha⟩ := List.exists_of_findSome?_eq_some h
  refine ⟨a, ?_, ha⟩
  simp only [candidates, List.mem_append, List.mem_map] at hmem
  rcases hmem with ⟨m, -, rfl⟩ | ⟨i, -, rfl⟩
  · rfl
  · unfold callAction
    split <;> rfl

theorem exists_follow_run (calls : List ℕ) (fuel : ℕ) (s : State) :
    ∃ acts, (∀ a ∈ acts, a.quiet = true) ∧ s.follow acts = some (s.run calls fuel) := by
  induction fuel generalizing s with
  | zero => exact ⟨[], by simp, rfl⟩
  | succ fuel ih =>
    unfold run
    split
    · rename_i t ht
      obtain ⟨a, hquiet, ha⟩ := exists_step_of_next? ht
      obtain ⟨acts, hacts, hrun⟩ := ih t
      have hfirst : s.follow [a] = some t := follow_single ha
      exact ⟨[a] ++ acts, by simpa [hquiet] using hacts, follow_append_eq_some_iff.2 ⟨t, hfirst, hrun⟩⟩
    · exact ⟨[], by simp, rfl⟩

/-! ### Numbers that stay free -/

theorem calls_eq_none_of_step (hi : s.calls i = none) (hstep : s.step a = some t)
    (ha : ∀ pid limit, a ≠ .begin i pid limit) : t.calls i = none := by
  rcases step_cases hstep with ⟨j, c, p, hc, hcall⟩ | ⟨m, x, x', -, hmonitor⟩ | helse
  · have hij : i ≠ j := by
      rintro rfl
      cases hi.symm.trans hc
    rw [hcall.calls, Family.set_of_ne _ hij, hi]
  · rcases hmonitor.calls with hcalls | hcalls <;> simp [hcalls, hi]
  · cases helse with
    | launch | terminate | tick => exact hi
    | @begin j pid limit =>
      have hij : i ≠ j := by
        rintro rfl
        exact ha pid limit rfl
      exact (Family.set_of_ne _ hij _).trans hi

theorem children_eq_none_of_step (hpid : s.children pid = none) (hstep : s.step a = some t) (ha : a ≠ .launch pid) :
    t.children pid = none := by
  rcases step_cases hstep with ⟨j, c, p, -, hcall⟩ | ⟨m, x, x', -, hmonitor⟩ | helse
  · rcases hcall.children with hsame | ⟨-, -, -, -, -, hset⟩
    · rw [hsame, hpid]
    · by_cases hc : pid = c.pid
      · rw [hset, hc, Family.set_self]
      · rw [hset, Family.set_of_ne _ hc, hpid]
  · rw [hmonitor.children, hpid]
  · cases helse with
    | begin | tick => exact hpid
    | @launch q =>
      have hq : pid ≠ q := by
        rintro rfl
        exact ha rfl
      exact (Family.set_of_ne _ hq _).trans hpid
    | @terminate q k status child =>
      have hq : pid ≠ q := by
        rintro rfl
        cases hpid.symm.trans child
      exact (Family.set_of_ne _ hq _).trans hpid

theorem calls_eq_none_of_quiet (hi : s.calls i = none) (hrun : s.follow acts = some t)
    (hquiet : ∀ a ∈ acts, a.quiet = true) : t.calls i = none :=
  follow_keeps (P := fun s => s.calls i = none) hrun (fun a ha _ _ hu hstep =>
    calls_eq_none_of_step hu hstep fun pid limit hbegin => by cases hbegin ▸ hquiet a ha) hi

theorem children_eq_none_of_follow (hpid : s.children pid = none) (hrun : s.follow acts = some t)
    (hlaunch : .launch pid ∉ acts) : t.children pid = none :=
  follow_keeps (P := fun s => s.children pid = none) hrun (fun _ ha _ _ hu hstep =>
    children_eq_none_of_step hu hstep fun h => hlaunch (h ▸ ha)) hpid

/-! ### Children that are taken away -/

/-- What has been taken away is not there later. -/
theorem not_prefix_of_gone {before : List Action} (hlaunch : .launch pid ∉ acts) (hu : s.follow before = some u)
    (hnone : u.children pid = none) (ht : s.follow acts = some t) (hx : t.children pid = some x) :
    ¬ before <+: acts := by
  rintro ⟨rest, rfl⟩
  obtain ⟨u', hu', hrest⟩ := follow_append_eq_some_iff.1 ht
  obtain rfl := Option.some.inj (hu'.symm.trans hu)
  have hmem : .launch pid ∉ rest := fun hmem => hlaunch (List.mem_append_right _ hmem)
  cases hx.symm.trans (children_eq_none_of_follow hnone hrest hmem)

theorem takes_unique (hlaunch : .launch pid ∉ acts) (h : s.Takes acts pid a x) (h' : s.Takes acts pid b y) : a = b := by
  obtain ⟨before, t, u, hpart, ht, hu, hx, hnone⟩ := h
  obtain ⟨before', t', u', hpart', ht', hu', hx', hnone'⟩ := h'
  have hafter := follow_concat_eq_some_iff.2 ⟨t, ht, hu⟩
  have hafter' := follow_concat_eq_some_iff.2 ⟨t', ht', hu'⟩
  have hmem : .launch pid ∉ before := fun h => hlaunch (hpart.subset (List.mem_append_left _ h))
  have hmem' : .launch pid ∉ before' := fun h => hlaunch (hpart'.subset (List.mem_append_left _ h))
  rcases List.prefix_or_prefix_of_prefix hpart hpart' with hle | hle
  · rcases List.prefix_concat_iff.1 hle with heq | hle
    · exact List.singleton_inj.1 (List.append_inj' heq rfl).2
    · exact absurd hle (not_prefix_of_gone hmem' hafter hnone ht' hx')
  · rcases List.prefix_concat_iff.1 hle with heq | hle
    · exact (List.singleton_inj.1 (List.append_inj' heq rfl).2).symm
    · exact absurd hle (not_prefix_of_gone hmem hafter' hnone' ht hx)

/-- A call takes nothing away before it begins. -/
theorem takes_of_append (hs : s₀.follow acts = some s) (hi : s.calls i = none)
    (h : s₀.Takes (acts ++ acts') pid (.advance i) x) : s.Takes acts' pid (.advance i) x := by
  obtain ⟨before, t, u, hpart, ht, hstep, hx, hnone⟩ := h
  obtain ⟨c, hc, -⟩ := Option.bind_eq_some_iff.1 hstep
  rcases List.prefix_or_prefix_of_prefix ((List.prefix_append _ _).trans hpart) (List.prefix_append acts acts') with
    hle | hle
  · -- the call was there, so it still is
    obtain ⟨rest, rfl⟩ := hle
    obtain ⟨t', ht', hrest⟩ := follow_append_eq_some_iff.1 hs
    obtain rfl := Option.some.inj (ht.symm.trans ht')
    obtain ⟨d, hd⟩ := follow_keeps (P := fun s => ∃ c, s.calls i = some c) hrest
      (fun _ _ _ _ ⟨_, hc⟩ hstep => ⟨_, (exists_phase hc hstep).choose_spec⟩) ⟨c, hc⟩
    cases hi.symm.trans hd
  · obtain ⟨between, rfl⟩ := hle
    obtain ⟨s', hs', hbetween⟩ := follow_append_eq_some_iff.1 ht
    obtain rfl := Option.some.inj (hs.symm.trans hs')
    rw [List.append_assoc, List.prefix_append_right_inj] at hpart
    exact ⟨between, t, u, hpart, hbetween, hstep, hx, hnone⟩

theorem Course.exists_takes {o : Outcome} (hc : s.Course acts i ⟨pid, limit, .finished o⟩) (hend : o.IsEnd) :
    ∃ x, s.Takes acts pid (.advance i) x := by
  rcases hc.answer o rfl with ⟨rfl | ⟨e, rfl⟩, -⟩ | ⟨k, status, -, htakes⟩
  · exact absurd hend Outcome.not_isEnd_timedOut
  · exact absurd hend (Outcome.not_isEnd_failed e)
  · exact ⟨_, (htakes _ _).2 ⟨rfl, rfl⟩⟩

end State

end Waiting

end Groundwork
