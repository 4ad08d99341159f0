import Groundwork.Proofs.Host.Launching

/-!
# Sessions of the caller

A session is what the caller does from the start, one operation after another. Whatever programs it launches and
whatever they do, its calls and monitors are always in a state that their own actions lead to (`session_sound`). So what
is proved of runs of these actions holds of what a session is answered: threads that wait for one process at the same
time get the outcomes of calls that have run their course, and no two of them are told how the process ended
(`waitAll_answers`).
-/

namespace Groundwork

namespace Host

open Waiting (Action)

variable {h h' : Host} {pid n : ℕ} {limit : Timeout} {os : List Outcome} {calls : List ℕ}

/-! ### What begins no call -/

theorem goesOn_offer (h : Host) (pipe : ℕ) (s : Bytes) : h.GoesOn (h.offer pipe s).1 := by
  unfold offer
  split_ifs
  · exact .refl h
  · dsimp only
    split_ifs <;> exact .of_eq rfl

theorem goesOn_writePipe (pipe fuel : ℕ) (s : Bytes) (h : Host) : h.GoesOn (writePipe pipe fuel s h).1 := by
  induction fuel generalizing s h with
  | zero => cases s <;> exact .refl h
  | succ fuel ih =>
    cases s with
    | nil => exact .refl h
    | cons b s =>
      have hwait := goesOn_runUntil (fun h => goesOn_offer h pipe (b :: s)) patience h
      unfold writePipe
      split <;> rename_i heq <;> rw [heq] at hwait
      · exact hwait.trans (ih _ _)
      · exact hwait
      · exact hwait

theorem goesOn_write (h : Host) (i : ℕ) (s : Bytes) : h.GoesOn (h.write i s).1 := by
  unfold write
  split
  · exact goesOn_writePipe _ _ s h
  · exact .refl h

theorem goesOn_accept (h : Host) (pipe n : ℕ) : h.GoesOn (h.accept pipe n).1 := by
  unfold accept
  dsimp only
  split_ifs <;> exact .of_eq rfl

theorem goesOn_readPipe (pipe fuel n : ℕ) (pieces : List Bytes) (h : Host) :
    h.GoesOn (readPipe pipe fuel n pieces h).1 := by
  induction fuel generalizing n pieces h with
  | zero => exact .refl h
  | succ fuel ih =>
    cases n with
    | zero => exact .refl h
    | succ n =>
      have hwait := goesOn_runUntil (fun h => goesOn_accept h pipe (n + 1)) patience h
      rw [readPipe]
      swap
      · exact nofun
      split <;> rename_i heq <;> rw [heq] at hwait
      · exact hwait
      · exact hwait.trans (ih _ _ _)
      · exact hwait

theorem goesOn_read (h : Host) (i : ℕ) (stream : Launch.Stream) (n : Option ℕ) : h.GoesOn (h.read i stream n).1 := by
  unfold read
  split
  · exact goesOn_readPipe _ _ _ _ h
  · exact .refl h

theorem goesOn_closeStream (h : Host) (i : ℕ) (stream : Launch.Stream) : h.GoesOn (h.closeStream i stream).1 := by
  unfold closeStream
  split
  · rename_i launch hdrop
    simp only [Launch.State.step, Option.bind_eq_bind, Option.bind_eq_some_iff] at hdrop
    obtain ⟨sp, hsp, hdrop⟩ := hdrop
    split at hdrop
    · split_ifs at hdrop
      cases hdrop
      refine ⟨⟨[], by simp, rfl⟩, rfl, fun j hj => ?_, rfl, fun d e he => ?_, le_rfl⟩
      · rw [← hj]
        exact Family.set_of_ne _ (fun hji => by rw [hji, hsp] at hj; cases hj) _
      · rw [Table.get_close] at he
        split_ifs at he
        exact he
    · cases hdrop
  · exact .refl h

theorem goesOn_send (h : Host) (pid : ℕ) (signal : ℤ) : h.GoesOn (h.send pid signal).1 := by
  unfold send
  split_ifs
  · exact .refl h
  · exact .refl h
  · exact goesOn_deliver h pid _

theorem goesOn_settle (h : Host) (calls : List ℕ) : h.GoesOn (h.settle calls).1 :=
  ⟨Waiting.State.exists_follow_run h.calls _ h.waiting, rfl, fun _ => id, rfl, fun _ _ => id, le_rfl⟩

/-! ### Calls that wait at the same time -/

theorem runUntil_eq_some {α : Type} {ready : Host → Host × Option α} {fuel : ℕ} {a : α}
    (hrun : h.runUntil ready fuel = (h', some a)) : ∃ h₀, ready h₀ = (h', some a) := by
  induction fuel generalizing h with
  | zero => cases hrun
  | succ fuel ih =>
    unfold runUntil at hrun
    split at hrun
    · rename_i hready
      exact ⟨h, hready.trans hrun⟩
    · split at hrun
      · exact ih hrun
      · split at hrun
        · exact ih hrun
        · cases hrun

/-- Calls begin where no other call is. -/
theorem follow_begin (pid : ℕ) (limit : Timeout) (hnodup : calls.Nodup) (hfree : ∀ i ∈ calls, h.waiting.calls i = none) :
    ∃ w, calls.foldl (fun h i => h.wait (.begin i pid limit)) h = { h with waiting := w } ∧
      h.waiting.follow (calls.map fun i => .begin i pid limit) = some w ∧ ∀ j ∉ calls, w.calls j = h.waiting.calls j := by
  induction calls generalizing h with
  | nil => exact ⟨h.waiting, rfl, rfl, fun _ _ => rfl⟩
  | cons i calls ih =>
    obtain ⟨hi, hnodup⟩ := List.nodup_cons.1 hnodup
    obtain ⟨hfirst, hfree⟩ := List.forall_mem_cons.1 hfree
    have hstep : h.waiting.step (.begin i pid limit) =
        some { h.waiting with calls := h.waiting.calls.set i (some ⟨pid, limit, .starting⟩) } := by
      simp only [Waiting.State.step, hfirst, if_true]
    have hwait : h.wait (.begin i pid limit) =
        { h with waiting := { h.waiting with calls := h.waiting.calls.set i (some ⟨pid, limit, .starting⟩) } } := by
      rw [wait, hstep]
    have hother : ∀ j, j ≠ i → (h.wait (.begin i pid limit)).waiting.calls j = h.waiting.calls j := fun j hj => by
      rw [hwait]
      exact Family.set_of_ne _ hj _
    obtain ⟨w, hw, hrun, hsame⟩ := ih (h := h.wait (.begin i pid limit)) hnodup fun j hj => by
      rw [hother j fun h => hi (h ▸ hj), hfree j hj]
    have hone : h.waiting.follow [.begin i pid limit] = some (h.wait (.begin i pid limit)).waiting := by
      rw [hwait]
      exact Waiting.State.follow_single hstep
    refine ⟨w, hw.trans (by rw [hwait]), Waiting.State.follow_append_eq_some_iff.2 ⟨_, hone, hrun⟩, fun j hj => ?_⟩
    rw [List.mem_cons, not_or] at hj
    rw [hsame j hj.2, hother j hj.1]

/-- What happens in a wait: its calls begin, and then nothing does until they have ended. -/
theorem exists_waitAll (hs : h.Sound) (n pid : ℕ) (limit : Timeout) :
    let calls := (List.range n).map (h.nextCall + ·)
    ∃ b r : Host, b.Sound ∧ h.waiting.follow (calls.map (.begin · pid limit)) = some b.waiting ∧ b.GoesOn r ∧
      (h.waitAll n pid limit).1 = { r with calls := [] } ∧
      ∀ os, (h.waitAll n pid limit).2 = some os → r.outcomes? calls = some os := by
  intro calls
  have hnodup : calls.Nodup := List.nodup_range.map fun i j hij => by omega
  have hmem : ∀ i ∈ calls, h.nextCall ≤ i ∧ i < h.nextCall + n := fun i hi => by
    obtain ⟨k, hk, rfl⟩ := List.mem_map.1 hi
    have := List.mem_range.1 hk
    omega
  obtain ⟨w, hw, hbegin, hsame⟩ := follow_begin (h := { h with nextCall := h.nextCall + n, calls := calls }) pid limit
    hnodup fun i hi => hs.calls i (hmem i hi).1
  obtain ⟨acts, hacts⟩ := hs.run
  let b : Host := { h with nextCall := h.nextCall + n, calls := calls, waiting := w }
  have hsound : b.Sound := by
    refine ⟨⟨_, Waiting.State.follow_append_eq_some_iff.2 ⟨_, hacts, hbegin⟩⟩, fun i (hi : h.nextCall + n ≤ i) => ?_,
      hs.spawns, hs.pipes⟩
    refine (hsame i fun hcalls => ?_).trans (hs.calls i (by omega))
    have := (hmem i hcalls).2
    omega
  have hgoes := goesOn_runUntil (fun h => goesOn_settle h calls) patience b
  rcases hr : b.runUntil (fun h => h.settle calls) patience with ⟨r, out⟩
  have hwait : h.waitAll n pid limit = ({ r with calls := [] }, out) := by
    unfold waitAll
    dsimp only
    rw [hw, hr]
  rw [hr] at hgoes
  refine ⟨b, r, hsound, hbegin, hgoes, by rw [hwait], fun os hos => ?_⟩
  rw [hwait] at hos
  obtain rfl : out = some os := hos
  obtain ⟨h₀, hready⟩ := runUntil_eq_some hr
  rw [← (Prod.mk.inj hready).1]
  exact (Prod.mk.inj hready).2

theorem Sound.waitAll (hs : h.Sound) (n pid : ℕ) (limit : Timeout) : (h.waitAll n pid limit).1.Sound := by
  obtain ⟨b, r, hsound, -, hgoes, hwait, -⟩ := exists_waitAll hs n pid limit
  rw [hwait]
  exact (hsound.goesOn hgoes).goesOn (.of_eq rfl)

theorem Sound.waitFor (hs : h.Sound) (pid : ℕ) (limit : Timeout) : (h.waitFor pid limit).1.Sound :=
  hs.waitAll 1 pid limit

theorem Sound.poll (hs : h.Sound) (pid : ℕ) : (h.poll pid).1.Sound := by
  refine runUntil_keeps (P := Sound) Sound.goesOn (fun h hs => ?_) patience hs
  have hwait := hs.waitFor pid (some 0)
  split
  · rename_i heq
    rwa [heq] at hwait
  · exact hwait

/-! ### What threads are answered -/

theorem forall₂_of_mapM {α β : Type} {f : α → Option β} {as : List α} {bs : List β} (hm : as.mapM f = some bs) :
    List.Forall₂ (fun a b => f a = some b) as bs := by
  induction as generalizing bs with
  | nil =>
    cases hm
    exact .nil
  | cons a as ih =>
    rw [List.mapM_cons] at hm
    obtain ⟨b, hb, hm⟩ := Option.bind_eq_some_iff.1 hm
    obtain ⟨bs, hbs, hm⟩ := Option.bind_eq_some_iff.1 hm
    cases hm
    exact .cons hb (ih hbs)

theorem calls_of_outcome? {s : Waiting.State} {i : ℕ} {o : Outcome} (ho : s.outcome? i = some o) :
    ∃ pid limit, s.calls i = some ⟨pid, limit, .finished o⟩ := by
  unfold Waiting.State.outcome? at ho
  split at ho
  · rename_i hc
    cases ho
    exact ⟨_, _, hc⟩
  · cases ho

/-- Threads that wait for one process at the same time are answered what calls are that have run their course, and at
most one of them is told how the process ended. -/
theorem waitAll_answers (hs : h.Sound) (hwait : h.waitAll n pid limit = (h', some os)) :
    ∃ acts, Waiting.State.initial.follow acts = some h'.waiting ∧ os.length = n ∧
      (∀ k o, os[k]? = some o → Waiting.State.initial.Course acts (h.nextCall + k) ⟨pid, limit, .finished o⟩) ∧
      ∀ (j k : ℕ) (o o' : Outcome), os[j]? = some o → os[k]? = some o' → o.IsEnd → o'.IsEnd → j = k := by
  obtain ⟨acts, hacts⟩ := hs.run
  obtain ⟨b, r, -, hbegin, hgoes, hr, hos⟩ := exists_waitAll hs n pid limit
  obtain ⟨acts', hquiet, hrun⟩ := hgoes.run
  rw [hwait] at hr hos
  obtain rfl : h' = { r with calls := [] } := hr
  have hends := forall₂_of_mapM (hos os rfl)
  have hlength : os.length = n := by simpa using hends.length_eq.symm
  have hwhole := Waiting.State.follow_append_eq_some_iff.2
    ⟨_, hacts, Waiting.State.follow_append_eq_some_iff.2 ⟨_, hbegin, hrun⟩⟩
  have hcourse : ∀ k o, os[k]? = some o →
      Waiting.State.initial.Course (acts ++ (((List.range n).map (h.nextCall + ·)).map (.begin · pid limit) ++ acts'))
        (h.nextCall + k) ⟨pid, limit, .finished o⟩ := by
    intro k o hk
    obtain ⟨hlt, rfl⟩ := List.getElem?_eq_some_iff.1 hk
    have hcall := (List.forall₂_iff_get.1 hends).2 k (by simpa using hlength ▸ hlt) hlt
    obtain ⟨q, limit', hc⟩ := calls_of_outcome? hcall
    have hbegun : Action.begin (h.nextCall + k) pid limit ∈
        acts ++ (((List.range n).map (h.nextCall + ·)).map (.begin · pid limit) ++ acts') := by
      simp only [List.mem_append, List.mem_map, List.mem_range]
      exact .inr (.inl ⟨_, ⟨k, hlength ▸ hlt, rfl⟩, rfl⟩)
    obtain ⟨p, hp⟩ := Waiting.State.exists_call_of_begin hwhole hbegun
    simp only [List.get_eq_getElem, List.getElem_map, List.getElem_range] at hc
    cases hc.symm.trans hp
    exact Waiting.State.course_of_follow hwhole hp
  refine ⟨_, hwhole, hlength, hcourse, fun j k o o' hj hk hend hend' => ?_⟩
  obtain ⟨x, hx⟩ := (hcourse j o hj).exists_takes hend
  obtain ⟨y, hy⟩ := (hcourse k o' hk).exists_takes hend'
  have hfree : ∀ k, h.waiting.calls (h.nextCall + k) = none := fun k => hs.calls _ (by omega)
  have hlaunch : Action.launch pid ∉ ((List.range n).map (h.nextCall + ·)).map (.begin · pid limit) ++ acts' := by
    rw [List.mem_append, List.mem_map]
    rintro (⟨_, -, hfalse⟩ | hmem)
    · cases hfalse
    · cases hquiet _ hmem
  have hsame := Waiting.State.takes_unique hlaunch (Waiting.State.takes_of_append hacts (hfree j) hx)
    (Waiting.State.takes_of_append hacts (hfree k) hy)
  simpa using hsame

/-! ### Sessions -/

/-- One thing that the caller does. -/
inductive Operation
  | spawn (setting : Setting) (c : Command)
  | write (launch : ℕ) (s : Bytes)
  | read (launch : ℕ) (stream : Launch.Stream) (n : Option ℕ)
  | closeStream (launch : ℕ) (stream : Launch.Stream)
  | send (pid : ℕ) (signal : ℤ)
  | waitAll (n pid : ℕ) (limit : Timeout)
  | poll (pid : ℕ)

def perform (h : Host) : Operation → Host
  | .spawn setting c => (h.spawn setting c).1
  | .write launch s => (h.write launch s).1
  | .read launch stream n => (h.read launch stream n).1
  | .closeStream launch stream => (h.closeStream launch stream).1
  | .send pid signal => (h.send pid signal).1
  | .waitAll n pid limit => (h.waitAll n pid limit).1
  | .poll pid => (h.poll pid).1

theorem Sound.perform (hs : h.Sound) (op : Operation) : (h.perform op).Sound := by
  cases op with
  | spawn setting c => exact hs.spawn setting c
  | write launch s => exact hs.goesOn (goesOn_write h launch s)
  | read launch stream n => exact hs.goesOn (goesOn_read h launch stream n)
  | closeStream launch stream => exact hs.goesOn (goesOn_closeStream h launch stream)
  | send pid signal => exact hs.goesOn (goesOn_send h pid signal)
  | waitAll n pid limit => exact hs.waitAll n pid limit
  | poll pid => exact hs.poll pid

/-- Whatever the caller does from the start, its calls that wait are where their own actions lead. -/
theorem session_sound (ops : List Operation) : (ops.foldl perform initial).Sound := by
  induction ops using List.reverseRecOn with
  | nil => exact sound_initial
  | append_singleton ops op ih =>
    rw [List.foldl_append]
    exact ih.perform op

end Host

end Groundwork
