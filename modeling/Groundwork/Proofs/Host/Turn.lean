import Groundwork.Host.Caller
import Groundwork.Proofs.Waiting.Quiet

/-!
# What turns leave alone

`Host.GoesOn h h'`: the calls and monitors of `h` have come to those of `h'` by quiet actions, and the caller has opened
no descriptor. A turn of a process does no more than that, whichever program it runs: it touches the calls only by ending
a process. So the same is true of letting the host run until something has happened (`goesOn_runUntil`), and a host that
is `Sound` stays so.
-/

namespace Groundwork

namespace Host

/-- The calls have taken steps, or children have ended or time has passed; no call and no launch has begun, and the
caller has no descriptor that it had not before. -/
structure GoesOn (h h' : Host) : Prop where
  run : ∃ acts, (∀ a ∈ acts, a.quiet = true) ∧ h.waiting.follow acts = some h'.waiting
  nextCall : h'.nextCall = h.nextCall
  spawns : ∀ i, h.launch.spawns i = none → h'.launch.spawns i = none
  nextLaunch : h'.nextLaunch = h.nextLaunch
  entries : ∀ d e, h'.launch.caller.table.get d = some e → h.launch.caller.table.get d = some e
  nextPipe : h.launch.caller.nextPipe ≤ h'.launch.caller.nextPipe

/-- The calls that wait have come to where they are by their own actions, the numbers of the calls and launches to come
are free, and no open pipe has the number of one to come. -/
structure Sound (h : Host) : Prop where
  run : ∃ acts, Waiting.State.initial.follow acts = some h.waiting
  calls : ∀ i, h.nextCall ≤ i → h.waiting.calls i = none
  spawns : ∀ i, h.nextLaunch ≤ i → h.launch.spawns i = none
  pipes : ∀ d e p, h.launch.caller.table.get d = some e → e.file = .pipe p → p.pipe < h.launch.caller.nextPipe

variable {h h' h'' : Host} {pid : ℕ} {p : Proc}

namespace GoesOn

theorem of_eq (heq : (h'.waiting, h'.nextCall, h'.launch, h'.nextLaunch) =
    (h.waiting, h.nextCall, h.launch, h.nextLaunch)) : h.GoesOn h' := by
  simp only [Prod.mk.injEq] at heq
  obtain ⟨hwaiting, hcall, hlaunch, hnext⟩ := heq
  exact ⟨⟨[], by simp, by rw [hwaiting]; rfl⟩, hcall, by simp [hlaunch], hnext, by simp [hlaunch], by rw [hlaunch]⟩

theorem refl (h : Host) : h.GoesOn h := .of_eq rfl

theorem trans (h₁ : h.GoesOn h') (h₂ : h'.GoesOn h'') : h.GoesOn h'' where
  run := by
    obtain ⟨acts, hquiet, hrun⟩ := h₁.run
    obtain ⟨acts', hquiet', hrun'⟩ := h₂.run
    refine ⟨acts ++ acts', fun a ha => ?_, Waiting.State.follow_append_eq_some_iff.2 ⟨_, hrun, hrun'⟩⟩
    exact (List.mem_append.1 ha).elim (hquiet a) (hquiet' a)
  nextCall := h₂.nextCall.trans h₁.nextCall
  spawns i hi := h₂.spawns i (h₁.spawns i hi)
  nextLaunch := h₂.nextLaunch.trans h₁.nextLaunch
  entries d e he := h₁.entries d e (h₂.entries d e he)
  nextPipe := h₁.nextPipe.trans h₂.nextPipe

theorem foldl {σ α : Type} {g : σ → Host} {f : σ → α → σ} (hf : ∀ x a, (g x).GoesOn (g (f x a))) (as : List α) (x : σ) :
    (g x).GoesOn (g (as.foldl f x)) := by
  induction as generalizing x with
  | nil => exact refl _
  | cons a as ih => exact (hf x a).trans (ih (f x a))

end GoesOn

theorem sound_initial : initial.Sound where
  run := ⟨[], rfl⟩
  calls _ _ := rfl
  spawns _ _ := rfl
  pipes d e p he hp := by
    simp only [initial, List.range, List.range.loop, List.foldl_cons, List.foldl_nil, Table.get_set, Table.empty] at he
    split_ifs at he <;> cases he <;> cases hp

theorem Sound.goesOn (hs : h.Sound) (hgoes : h.GoesOn h') : h'.Sound where
  run := by
    obtain ⟨acts, hrun⟩ := hs.run
    obtain ⟨acts', -, hrun'⟩ := hgoes.run
    exact ⟨acts ++ acts', Waiting.State.follow_append_eq_some_iff.2 ⟨_, hrun, hrun'⟩⟩
  calls i hi := by
    obtain ⟨acts, hquiet, hrun⟩ := hgoes.run
    exact Waiting.State.calls_eq_none_of_quiet (hs.calls i (hgoes.nextCall ▸ hi)) hrun hquiet
  spawns i hi := hgoes.spawns i (hs.spawns i (hgoes.nextLaunch ▸ hi))
  pipes d e p he hp := (hs.pipes d e p (hgoes.entries d e he) hp).trans_le hgoes.nextPipe

theorem goesOn_wait (h : Host) {a : Waiting.Action} (ha : a.quiet = true) : h.GoesOn (h.wait a) := by
  unfold wait
  split
  · rename_i w hw
    exact ⟨⟨[a], by simpa using ha, Waiting.State.follow_single hw⟩, rfl, fun _ => id, rfl, fun _ _ => id, le_rfl⟩
  · exact .refl h

/-! ### Processes -/

theorem goesOn_setProc (h : Host) (pid : ℕ) (p : Proc) : h.GoesOn (h.setProc pid p) := .of_eq rfl

theorem goesOn_finish (h : Host) (pid : ℕ) (status : Status) : h.GoesOn (h.finish pid status) := by
  unfold finish
  split
  · exact .refl h
  · dsimp only
    split
    · have hremoved : h.GoesOn ((h.orphan pid).removeProc pid) := .of_eq rfl
      exact hremoved.trans (goesOn_wait _ rfl)
    · split <;> exact .of_eq rfl

theorem goesOn_strike (h : Host) (pid signal : ℕ) : h.GoesOn (h.strike pid signal) := by
  unfold strike
  split
  · exact .refl h
  · split_ifs
    · exact .refl h
    · exact .refl h
    · exact goesOn_setProc h pid _
    · split
      · exact goesOn_finish h pid _
      · exact goesOn_setProc h pid _
      · exact .refl h
      · exact .refl h

theorem goesOn_deliver (h : Host) (pid signal : ℕ) : h.GoesOn (h.deliver pid signal) := by
  unfold deliver
  split
  · exact .refl h
  · split_ifs
    · exact .refl h
    · exact (goesOn_setProc h pid _).trans (.foldl (g := id) (fun h s => goesOn_strike h pid s) _ _)
    · exact goesOn_setProc h pid _
    · exact goesOn_strike h pid signal

/-! ### Turns -/

theorem goesOn_transmit {f : File} {s : Bytes} {more : List (File × Bytes)} (ht : h.transmit pid p f s more = some h') :
    h.GoesOn h' := by
  unfold transmit at ht
  dsimp only at ht
  split at ht
  · split_ifs at ht
    · cases ht
      exact goesOn_setProc h pid _
    · cases ht
      exact (goesOn_setProc h pid _).trans (goesOn_strike _ pid _)
    · split at ht <;> cases ht <;> exact .of_eq rfl
  · cases ht
    exact goesOn_setProc h pid _

theorem goesOn_receive? {f : File} {count : Queue → ℕ} {s : Option Bytes} (hr : h.receive? f count = some (h', s)) :
    h.GoesOn h' := by
  unfold receive? at hr
  split at hr
  · dsimp only at hr
    split_ifs at hr <;> cases hr <;> exact .of_eq rfl
  · cases hr
    exact .refl h

theorem goesOn_utilityTurn {u : Utility} (ht : h.utilityTurn pid p u = some h') : h.GoesOn h' := by
  unfold utilityTurn at ht
  dsimp only at ht
  split at ht
  · cases ht
    exact goesOn_finish h pid _
  · obtain ⟨⟨h₁, s⟩, hr, ht⟩ := Option.bind_eq_some_iff.1 ht
    split at ht <;> cases ht <;> exact (goesOn_receive? hr).trans (.of_eq rfl)
  · split_ifs at ht <;> cases ht
    · exact goesOn_finish h pid _
    · exact goesOn_setProc h pid _
  · cases ht
    exact goesOn_setProc h pid _
  · split_ifs at ht
    cases ht
    exact goesOn_finish h pid _

theorem goesOn_fork (h : Host) (pid : ℕ) (p : Proc) (stages : List Shell) (background : Bool) :
    h.GoesOn (h.fork pid p stages background).1 :=
  ⟨⟨[], by simp, rfl⟩, rfl, fun _ => id, rfl, fun _ _ => id, Nat.le_add_right ..⟩

theorem goesOn_shellTurn {s : Shell} (ht : h.shellTurn pid p s = some h') : h.GoesOn h' := by
  unfold shellTurn at ht
  dsimp only at ht
  split at ht
  · cases ht
    exact goesOn_setProc h pid _
  · split at ht
    · cases ht
      exact goesOn_setProc h pid _
    · cases ht
      exact goesOn_setProc h pid _
    · split at ht <;> cases ht <;> exact goesOn_setProc h pid _
    · cases ht
      exact (goesOn_fork h pid p _ _).trans (goesOn_setProc _ pid _)
    · split at ht
      · cases ht
        exact goesOn_setProc h pid _
      · split at ht <;> cases ht
        exact .of_eq rfl
    · obtain ⟨⟨h₁, s⟩, hr, ht⟩ := Option.bind_eq_some_iff.1 ht
      cases ht
      exact (goesOn_receive? hr).trans (goesOn_setProc h₁ pid _)
    · cases ht
      exact (goesOn_setProc h pid _).trans (goesOn_deliver _ _ _)
    · cases ht
      exact goesOn_setProc h pid _
    · cases ht
      exact goesOn_finish h pid _

theorem goesOn_turn? (ht : h.turn? pid = some h') : h.GoesOn h' := by
  obtain ⟨p, -, ht⟩ := Option.bind_eq_some_iff.1 ht
  split_ifs at ht
  split at ht
  · exact goesOn_transmit ht
  · split at ht
    · exact goesOn_shellTurn ht
    · exact goesOn_utilityTurn ht

theorem goesOn_round? (hr : h.round? = some h') : h.GoesOn h' := by
  unfold round? at hr
  dsimp only at hr
  split_ifs at hr
  cases hr
  refine GoesOn.foldl (g := Prod.fst) (fun x y => ?_) h.procs (h, false)
  split
  · exact goesOn_turn? ‹_›
  · exact .refl _

/-! ### Time -/

/-- What is kept by all that goes on by itself, and by what is waited for, is kept by waiting for it. -/
theorem runUntil_keeps {α : Type} {P : Host → Prop} {ready : Host → Host × Option α}
    (hgoes : ∀ {h h' : Host}, P h → h.GoesOn h' → P h') (hready : ∀ h, P h → P (ready h).1) (fuel : ℕ) (hP : P h) :
    P (h.runUntil ready fuel).1 := by
  induction fuel generalizing h with
  | zero => exact hP
  | succ fuel ih =>
    have hfirst := hready h hP
    unfold runUntil
    split
    · rename_i hr
      rwa [hr] at hfirst
    · rename_i h₁ hr
      rw [hr] at hfirst
      split
      · rename_i hround
        exact ih (hgoes (hgoes hfirst (goesOn_round? hround)) (goesOn_wait _ rfl))
      · split
        · exact ih (hgoes hfirst (goesOn_wait _ rfl))
        · exact hfirst

theorem goesOn_runUntil {α : Type} {ready : Host → Host × Option α} (hready : ∀ h : Host, h.GoesOn (ready h).1)
    (fuel : ℕ) (h : Host) : h.GoesOn (h.runUntil ready fuel).1 :=
  runUntil_keeps (P := h.GoesOn) GoesOn.trans (fun h' h₁ => h₁.trans (hready h')) fuel (.refl h)

end Host

end Groundwork
