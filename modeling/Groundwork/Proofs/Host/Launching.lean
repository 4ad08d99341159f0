import Groundwork.Proofs.Host.Turn
import Groundwork.Proofs.Launch.Holding

/-!
# Programs that a session launches

Nothing comes between the steps of a launch on a host, so its three pipes are made one after the other and the child's
ends get to their places. The program that starts has at 0, 1 and 2 the other ends of what the caller has under the
launch (`spawn_wired`).
-/

namespace Groundwork

theorem Table.get_of_get_close {t : Table} {d i : ℕ} {e : Entry} (h : (t.close d).get i = some e) :
    t.get i = some e := by
  rw [get_close] at h
  split_ifs at h
  exact h

theorem Files.lookup_filterMap {f : ℕ → Option File} (d : ℕ) (ds : List ℕ) :
    (ds.filterMap fun d => (f d).map fun file => (d, file)).lookup d = if d ∈ ds then f d else none := by
  induction ds with
  | nil => rfl
  | cons a ds ih =>
    rcases hfa : f a with _ | file
    · rw [List.filterMap_cons_none (by rw [hfa]; rfl), ih]
      by_cases hd : d = a
      · subst hd
        simp [hfa]
      · simp [hd]
    · rw [List.filterMap_cons_some (by rw [hfa]; rfl), List.lookup_cons]
      by_cases hd : d = a
      · subst hd
        simp [hfa]
      · simp [beq_eq_false_iff_ne.2 hd, hd, ih]

theorem Files.get?_ofTable {t : Table} {d : ℕ} (hd : d < t.limit) :
    (Files.ofTable t).get? d = (t.get d).map Entry.file := by
  have hlookup := Files.lookup_filterMap (f := fun d => (t.get d).map Entry.file) d (List.range t.limit)
  rw [if_pos (List.mem_range.2 hd)] at hlookup
  rw [← hlookup]
  unfold Files.ofTable Files.get?
  simp only [Option.map_map, Function.comp_def]

namespace Launch

theorem Caller.pipeNumber_injective (c : Caller) : c.pipeNumber.Injective := by
  intro a b hab
  cases a <;> cases b <;> simp_all [Caller.pipeNumber]

theorem Caller.pipeNumber_bounds (c : Caller) (stream : Stream) :
    c.nextPipe ≤ c.pipeNumber stream ∧ c.pipeNumber stream < c.nextPipe + 3 := by
  cases stream <;> simp only [Caller.pipeNumber] <;> omega

theorem Pipes.descriptor_callerSide (p : Pipes) (pid : ℕ) (stream : Stream) :
    p.descriptor stream stream.callerSide = Handles.get ⟨p.stdin.2, p.stdout.1, p.stderr.1, pid⟩ stream := by
  cases stream <;> rfl

namespace Child

variable {t t' : Table} {target d : ℕ}

theorem limit_redirect? (hr : redirect? t target d = some t') : t'.limit = t.limit := by
  unfold redirect? at hr
  split at hr
  · obtain ⟨e, -, rfl⟩ := Table.setCloseOnExec?_eq_some hr
    rfl
  · rename_i hne
    obtain ⟨e, -, -, rfl⟩ := Table.dup2?_eq_some hr hne
    rfl

theorem limit_redirectAll {ds : List ℕ} (hr : redirectAll t target ds = some t') : t'.limit = t.limit := by
  induction ds generalizing t target with
  | nil =>
    cases hr
    rfl
  | cons d ds ih =>
    obtain ⟨u, hu, hr⟩ := Option.bind_eq_some_iff.1 hr
    rw [ih hr, limit_redirect? hu]

end Child

theorem Wired.get {t : Table} {k : Stream → ℕ} (h : Wired t k) (stream : Stream) :
    (t.get stream.index).map Entry.file = some (.pipe ⟨k stream, stream.childSide⟩) := by
  cases stream
  · exact h.1
  · exact h.2.1
  · exact h.2.2

theorem HoldsPipes.get_caller {t : Table} {p : Pipes} {k : Stream → ℕ} (h : HoldsPipes t p k) (stream : Stream) :
    (((t.close p.stderr.2).close p.stdout.2).close p.stdin.1).get (p.descriptor stream stream.callerSide) =
      some ⟨.pipe ⟨k stream, stream.callerSide⟩, true⟩ := by
  have hne : ∀ other : Stream, p.descriptor stream stream.callerSide ≠ p.descriptor other other.childSide := by
    intro other heq
    have hget := (h.get stream stream.callerSide).symm.trans (heq ▸ h.get other other.childSide)
    simp only [Option.some.injEq, Entry.mk.injEq, File.pipe.injEq, PipeEnd.mk.injEq, and_true] at hget
    rw [h.injective hget.1] at hget
    exact other.childSide_ne_callerSide hget.2.symm
  have hclosed : ∀ (t : Table) (other : Stream), (t.close (p.descriptor other other.childSide)).get
      (p.descriptor stream stream.callerSide) = t.get (p.descriptor stream stream.callerSide) :=
    fun t other => if_neg (hne other)
  exact (hclosed _ .stdin).trans ((hclosed _ .stdout).trans ((hclosed _ .stderr).trans (h.get stream _)))

namespace MakesPipes

variable {t u : Table} {p : Pipes} {k : Stream → ℕ}

theorem limit_eq (h : MakesPipes t u p k) : u.limit = t.limit := by
  obtain ⟨t₁, t₂, h₁, h₂, h₃⟩ := h
  rw [Table.limit_of_pipe? h₃, Table.limit_of_pipe? h₂, Table.limit_of_pipe? h₁]

theorem entry_cases (h : MakesPipes t u p k) {d : ℕ} {e : Entry} (he : u.get d = some e) :
    t.get d = some e ∨ ∃ stream side, e.file = .pipe ⟨k stream, side⟩ := by
  obtain ⟨t₁, t₂, h₁, h₂, h₃⟩ := h.exists_made
  rcases h₃.made d e he with ⟨-, hf⟩ | ⟨-, hf⟩ | he
  · exact .inr ⟨_, _, hf⟩
  · exact .inr ⟨_, _, hf⟩
  rcases h₂.made d e he with ⟨-, hf⟩ | ⟨-, hf⟩ | he
  · exact .inr ⟨_, _, hf⟩
  · exact .inr ⟨_, _, hf⟩
  rcases h₁.made d e he with ⟨-, hf⟩ | ⟨-, hf⟩ | he
  · exact .inr ⟨_, _, hf⟩
  · exact .inr ⟨_, _, hf⟩
  · exact .inl he

end MakesPipes

namespace State

variable {s : State} {i pid : ℕ} {command : Command} {runnable : Command → Bool} {c c' : Child} {t t' : Table}
  {signals : Signals} {p : Pipes}

/-! ### The child -/

theorem startChild_succ (fuel : ℕ) (hc : s.children pid = some c) (hstep : c.advance runnable = some c') :
    s.startChild runnable pid (fuel + 1) =
      { s with children := s.children.set pid (some c') }.startChild runnable pid fuel := by
  have hs : s.step runnable (.child pid) = some { s with children := s.children.set pid (some c') } := by
    simp [step, hc, hstep]
  rw [startChild, hs]

theorem startChild_set (fuel : ℕ) (hstep : c.advance runnable = some c') :
    { s with children := s.children.set pid (some c) }.startChild runnable pid (fuel + 1) =
      { s with children := s.children.set pid (some c') }.startChild runnable pid fuel := by
  rw [startChild_succ fuel (Family.set_self ..) hstep]
  simp only [Family.set_set]

theorem startChild_fields (s : State) (runnable : Command → Bool) (pid fuel : ℕ) :
    (s.startChild runnable pid fuel).caller = s.caller ∧ (s.startChild runnable pid fuel).spawns = s.spawns := by
  induction fuel generalizing s with
  | zero => exact ⟨rfl, rfl⟩
  | succ fuel ih =>
    unfold startChild
    split
    · rename_i s' hs'
      simp only [step, Option.bind_eq_bind, Option.bind_eq_some_iff] at hs'
      obtain ⟨c, -, c', -, heq⟩ := hs'
      cases heq
      exact ih _
    · exact ⟨rfl, rfl⟩

/-- A child whose ends can be copied takes all its steps. -/
theorem startChild_running (hc : s.children pid = some (.begin command t signals p)) (hrun : runnable command = true)
    (hr : Child.redirectAll t 0 p.childEnds = some t') :
    s.startChild runnable pid childSteps =
      { s with children := s.children.set pid (some ⟨command, t'.exec, signals.restored, .running⟩) } := by
  simp only [Pipes.childEnds, Child.redirectAll, Option.bind_eq_some_iff, Option.some.injEq] at hr
  obtain ⟨t₁, h₁, t₂, h₂, t₃, h₃, rfl⟩ := hr
  have hfirst : (Child.begin command t signals p).advance runnable =
      some ⟨command, t₁, signals, .redirecting 1 [p.stdout.2, p.stderr.2]⟩ := by
    simp [Child.advance, Child.begin, Pipes.childEnds, h₁]
  have hsecond : Child.advance runnable ⟨command, t₁, signals, .redirecting 1 [p.stdout.2, p.stderr.2]⟩ =
      some ⟨command, t₂, signals, .redirecting 2 [p.stderr.2]⟩ := by
    simp [Child.advance, h₂]
  have hthird : Child.advance runnable ⟨command, t₂, signals, .redirecting 2 [p.stderr.2]⟩ =
      some ⟨command, t₃, signals, .redirecting 3 []⟩ := by
    simp [Child.advance, h₃]
  have hlast : Child.advance runnable ⟨command, t₃, signals, .redirecting 3 []⟩ =
      some ⟨command, t₃, signals, .restoring⟩ := rfl
  have hrestore : Child.advance runnable ⟨command, t₃, signals, .restoring⟩ =
      some ⟨command, t₃, signals.restored, .executing⟩ := rfl
  have hexec : Child.advance runnable ⟨command, t₃, signals.restored, .executing⟩ =
      some ⟨command, t₃.exec, signals.restored, .running⟩ := if_pos hrun
  rw [childSteps, startChild_succ 5 hc hfirst, startChild_set 4 hsecond, startChild_set 3 hthird]
  rw [startChild_set 2 hlast, startChild_set 1 hrestore, startChild_set 0 hexec]
  rfl

/-! ### The launch -/

theorem spawn_cases (hi : s.spawns i = none) (command : Command) :
    (∃ e after, s.spawn i command = (some (.error e), after) ∧ after.caller.table = s.caller.table ∧
      s.caller.nextPipe ≤ after.caller.nextPipe ∧ ∃ sp, after.spawns = s.spawns.set i (some sp)) ∨
    6 ≤ s.caller.table.freeCount ∧ ∃ u p, MakesPipes s.caller.table u p s.caller.pipeNumber ∧
      s.spawn i command = (some (.ok ⟨p.stdin.2, p.stdout.1, p.stderr.1, s.nextPid⟩),
        (s.withChild (.begin command u s.signals p)).withSpawn i
          ⟨((u.close p.stderr.2).close p.stdout.2).close p.stdin.1, s.caller.nextPipe + 3⟩
          ⟨command, .finished (.ok ⟨p.stdin.2, p.stdout.1, p.stderr.1, s.nextPid⟩), [.stdin, .stdout, .stderr]⟩) := by
  by_cases hnul : command.HasNul
  · obtain ⟨string, -, hspawn⟩ := exists_spawn_of_hasNul hi hnul
    exact .inl ⟨_, _, hspawn, rfl, le_rfl, _, rfl⟩
  rcases lt_or_ge s.caller.table.freeCount 6 with hlack | hroom
  · exact .inl ⟨_, _, spawn_of_lack hi hnul hlack, rfl, Nat.le_add_right .., _, rfl⟩
  · obtain ⟨u, p, hpipes, hfinish⟩ := finish_of_room s i command [.stdin, .stdout, .stderr] hroom
      (show 8 ≤ spawnSteps by decide)
    rw [← Spawn.begin_of_not_hasNul hnul] at hfinish
    exact .inr ⟨hroom, u, p, hpipes, spawn_of_finish hi hfinish⟩

end State

end Launch

namespace Host

variable {h : Host} {setting : Setting} {c : Command}

/-! ### The caller's table -/

theorem get_tableFor {d : ℕ} {e : Entry} (he : (h.tableFor setting).get d = some e) :
    h.launch.caller.table.get d = some e := by
  have hclosed : ∀ (ds : List ℕ) (q : Table → ℕ → Bool) (t : Table),
      (ds.foldl (fun t d => if q t d then t.close d else t) t).get d = some e → t.get d = some e := by
    intro ds q
    induction ds with
    | nil => exact fun t => id
    | cons a ds ih =>
      intro t ht
      rw [List.foldl_cons] at ht
      have hget := ih _ ht
      split_ifs at hget
      · exact Table.get_of_get_close hget
      · exact hget
  unfold tableFor at he
  dsimp only at he
  split at he <;> exact hclosed _ _ _ he

theorem get_restoredTable (before t : Table) (closed : List ℕ) (d : ℕ) :
    (restoredTable before t closed).get d = t.get d ∨
      t.get d = none ∧ (restoredTable before t closed).get d = before.get d := by
  have hfold : ∀ t : Table,
      (closed.foldl (fun t d => if t.isFree d then t.set d (before.get d) else t) t).get d = t.get d ∨
        t.get d = none ∧
          (closed.foldl (fun t d => if t.isFree d then t.set d (before.get d) else t) t).get d = before.get d := by
    induction closed with
    | nil => exact fun t => .inl rfl
    | cons a closed ih =>
      intro t
      rw [List.foldl_cons]
      by_cases hd : d = a ∧ t.isFree a = true
      · obtain ⟨rfl, hfree⟩ := hd
        have hget : (t.set d (before.get d)).get d = before.get d := if_pos rfl
        rw [if_pos hfree]
        refine .inr ⟨Option.isNone_iff_eq_none.1 hfree, ?_⟩
        rcases ih (t.set d (before.get d)) with hsame | ⟨-, hsame⟩
        · rw [hsame, hget]
        · exact hsame
      · have hget : (if t.isFree a then t.set a (before.get a) else t).get d = t.get d := by
          split_ifs with hfree
          · exact if_neg fun hda => hd ⟨hda, hfree⟩
          · rfl
        rw [← hget]
        exact ih _
  exact hfold { t with limit := before.limit }

/-! ### The program -/

theorem launch_wait (h : Host) (a : Waiting.Action) : (h.wait a).launch = h.launch := by
  unfold wait
  split <;> rfl

theorem files_become? {pid : ℕ} {p : Proc} (program : Bytes) (argv : List Bytes) :
    ((h.become? pid p program argv).getD p).files = p.files := by
  rcases hb : h.become? pid p program argv with _ | q
  · rfl
  · obtain ⟨name, -, hb⟩ := Option.bind_eq_some_iff.1 hb
    split_ifs at hb <;> cases hb <;> rfl

/-- A child whose ends can be copied has a record, whatever its program then does. -/
theorem exists_startChild {pid : ℕ} {t t' : Table} {signals : Launch.Signals} {p : Launch.Pipes}
    (hc : h.launch.children pid = some (.begin c t signals p)) (hrun : isRunnable c = true)
    (hr : Launch.Child.redirectAll t 0 p.childEnds = some t') :
    ∃ q : Proc, (pid, q) ∈ (h.startChild pid).procs ∧ q.files = .ofTable t'.exec ∧
      (h.startChild pid).launch.caller = h.launch.caller ∧ (h.startChild pid).launch.spawns = h.launch.spawns := by
  unfold startChild
  rw [Launch.State.startChild_running hc hrun hr]
  dsimp only
  rw [Family.set_self]
  refine ⟨_, List.mem_append_right _ (List.mem_singleton_self _), ?_, ?_, ?_⟩
  · exact files_become? _ _
  · dsimp only [addProc]
    rw [launch_wait]
  · dsimp only [addProc]
    rw [launch_wait]

/-! ### Launches -/

theorem Sound.wait (hs : h.Sound) {a : Waiting.Action} (ha : ∀ i pid limit, a ≠ .begin i pid limit) :
    (h.wait a).Sound := by
  unfold Host.wait
  split
  · rename_i w hw
    obtain ⟨acts, hrun⟩ := hs.run
    exact ⟨⟨acts ++ [a], Waiting.State.follow_concat_eq_some_iff.2 ⟨_, hrun, hw⟩⟩, fun i hi =>
      Waiting.State.calls_eq_none_of_step (hs.calls i hi) hw (ha i), hs.spawns, hs.pipes⟩
  · exact hs

theorem Sound.startChild (hs : h.Sound) (pid : ℕ) : (h.startChild pid).Sound := by
  obtain ⟨hcaller, hspawns⟩ := h.launch.startChild_fields isRunnable pid Launch.State.childSteps
  have hsteps : { h with launch := h.launch.startChild isRunnable pid Launch.State.childSteps }.Sound := by
    refine ⟨hs.run, hs.calls, fun i hi => ?_, fun d e p he hp => ?_⟩
    · rw [hspawns]
      exact hs.spawns i hi
    · rw [hcaller] at he ⊢
      exact hs.pipes d e p he hp
  have hlaunched := hsteps.wait (a := .launch pid) fun _ _ _ => nofun
  unfold Host.startChild
  dsimp only
  split
  · exact hlaunched
  · split
    · refine Sound.goesOn ?_ (goesOn_finish _ _ _)
      exact hlaunched.goesOn (.of_eq rfl)
    · exact hlaunched.goesOn (.of_eq rfl)

/-- What is open after a launch was open before it, or is an end of a pipe that the launch has made. -/
theorem pipes_restoredTable (hs : h.Sound) {t : Table} {closed : List ℕ} {n : ℕ} (hn : h.launch.caller.nextPipe ≤ n)
    (ht : ∀ d e, t.get d = some e → h.launch.caller.table.get d = some e ∨ ∀ p, e.file = .pipe p → p.pipe < n) (d : ℕ)
    (e : Entry) (p : PipeEnd) (he : (restoredTable h.launch.caller.table t closed).get d = some e)
    (hp : e.file = .pipe p) : p.pipe < n := by
  have hbefore : h.launch.caller.table.get d = some e → p.pipe < n := fun he => (hs.pipes d e p he hp).trans_le hn
  rcases get_restoredTable h.launch.caller.table t closed d with hget | ⟨-, hget⟩
  · rcases ht d e (hget ▸ he) with he | hnew
    · exact hbefore he
    · exact hnew p hp
  · exact hbefore (hget ▸ he)

theorem Sound.spawn (hs : h.Sound) (setting : Setting) (c : Command) : (h.spawn setting c).1.Sound := by
  have hlaunched : ∀ (launch : Launch.State) (sp : Launch.Spawn),
      launch.spawns = h.launch.spawns.set h.nextLaunch (some sp) →
      (∀ d e p, launch.caller.table.get d = some e → e.file = .pipe p → p.pipe < launch.caller.nextPipe) →
      { h with launch := launch, nextLaunch := h.nextLaunch + 1 }.Sound := by
    intro launch sp hspawns hpipes
    refine ⟨hs.run, hs.calls, fun i (hi : h.nextLaunch + 1 ≤ i) => ?_, hpipes⟩
    rw [hspawns, Family.set_of_ne _ (by omega)]
    exact hs.spawns i (by omega)
  unfold Host.spawn
  dsimp only
  rcases Launch.State.spawn_cases (s := { h.launch with
    caller := { h.launch.caller with table := h.tableFor setting }
    signals := { h.launch.signals with blocked := setting.blocked } }) (hs.spawns _ le_rfl) c with
    ⟨e, after, hspawn, htable, hpipe, sp, hspawns⟩ | ⟨-, u, p, hmakes, hspawn⟩
  · rw [hspawn]
    refine hlaunched _ sp hspawns (pipes_restoredTable hs hpipe fun d e he => .inl ?_)
    exact get_tableFor (htable ▸ he)
  · rw [hspawn]
    refine Sound.startChild (hlaunched _ _ rfl (pipes_restoredTable hs (Nat.le_add_right ..) fun d e he => ?_)) _
    have hu := Table.get_of_get_close (Table.get_of_get_close (Table.get_of_get_close he))
    rcases hmakes.entry_cases hu with he | ⟨stream, side, hf⟩
    · exact .inl (get_tableFor he)
    · refine .inr fun p hp => ?_
      rw [hf] at hp
      cases hp
      exact (Launch.Caller.pipeNumber_bounds _ stream).2

/-- A child with three pipes of its own starts its program with its ends of them. -/
theorem startChild_wired {i : ℕ} {u : Table} {p : Launch.Pipes} {k : Launch.Stream → ℕ} (handles : Launch.Handles)
    (signals : Launch.Signals) (hc : h.launch.children handles.pid = some (.begin c u signals p))
    (hsp : h.launch.spawns i = some ⟨c, .finished (.ok handles), [.stdin, .stdout, .stderr]⟩)
    (htable : ∀ stream, h.launch.caller.table.get (handles.get stream) = some ⟨.pipe ⟨k stream, stream.callerSide⟩, true⟩)
    (hrun : isRunnable c = true) (hholds : Launch.HoldsPipes u p k) (hlate : p.LateEnds) (hlimit : 2 < u.limit) :
    ∃ kept q, (h.startChild handles.pid).handles? i = some kept ∧ (kept.pid, q) ∈ (h.startChild handles.pid).procs ∧
      ∀ stream, ∃ k, q.files.get? stream.index = some (.pipe ⟨k, stream.childSide⟩) ∧
        (h.startChild handles.pid).streamFile? i stream = some (.pipe ⟨k, stream.callerSide⟩) := by
  obtain ⟨t, hr⟩ : ∃ t, Launch.Child.redirectAll u 0 p.childEnds = some t :=
    Launch.Child.exists_redirectAll hholds.childEnds_open hlimit
  have hwired := (hholds.wired_exec_iff hr).2 hlate
  obtain ⟨q, hq, hfiles, hcaller, hspawns⟩ := exists_startChild hc hrun hr
  have hhandles : (h.startChild handles.pid).handles? i = some handles := by
    simp only [handles?, hspawns, hsp, Option.bind_eq_bind, Option.bind_some]
  refine ⟨handles, q, hhandles, hq, fun stream => ⟨k stream, ?_, ?_⟩⟩
  · have hindex : stream.index < t.exec.limit := by
      have : stream.index < 3 := by cases stream <;> decide
      exact this.trans_le ((Launch.Child.limit_redirectAll hr).symm ▸ hlimit)
    rw [hfiles, Files.get?_ofTable hindex, hwired.get]
  · have hkept : stream ∈ [Launch.Stream.stdin, .stdout, .stderr] := by cases stream <;> decide
    simp only [streamFile?, descriptor?, hhandles, hspawns, hsp, hcaller, Option.bind_eq_bind, Option.bind_some, hkept,
      if_true, Option.map_some, htable]

/-- A program that a session launches has at 0, 1 and 2 the other ends of what the caller has under the launch. -/
theorem spawn_wired {h' : Host} {i free : ℕ} (hs : h.Sound) (hrun : isRunnable c = true)
    (hspawn : h.spawn setting c = (h', .ok i, free)) :
    ∃ handles q, h'.handles? i = some handles ∧ (handles.pid, q) ∈ h'.procs ∧ ∀ stream, ∃ k,
      q.files.get? stream.index = some (.pipe ⟨k, stream.childSide⟩) ∧
      h'.streamFile? i stream = some (.pipe ⟨k, stream.callerSide⟩) := by
  unfold spawn at hspawn
  dsimp only at hspawn
  rcases Launch.State.spawn_cases (s := { h.launch with
    caller := { h.launch.caller with table := h.tableFor setting }
    signals := { h.launch.signals with blocked := setting.blocked } }) (hs.spawns _ le_rfl) c with
    ⟨e, after, heq, -⟩ | ⟨hroom, u, p, hmakes, heq⟩
  · rw [heq] at hspawn
    cases hspawn
  rw [heq] at hspawn
  obtain ⟨rfl, hi, -⟩ : _ ∧ Except.ok _ = Except.ok _ ∧ _ = _ := by simpa only [Prod.mk.injEq] using hspawn
  cases hi
  -- no descriptor is open on a pipe of this launch before it makes them
  have hholds := hmakes.holdsPipes (Launch.Caller.pipeNumber_injective _) fun d e stream side he hf =>
    absurd (hs.pipes d e _ (get_tableFor he) hf) (Launch.Caller.pipeNumber_bounds _ stream).1.not_gt
  have hlimit : 6 ≤ u.limit := hmakes.limit_eq ▸ hroom.trans (Table.freeCount_le_limit _)
  refine startChild_wired ⟨p.stdin.2, p.stdout.1, p.stderr.1, h.launch.nextPid⟩
    ⟨setting.blocked, h.launch.signals.ignored⟩ ?_ ?_ (fun stream => ?_) hrun hholds hmakes.lateEnds (by omega)
  · exact Family.set_self ..
  · exact Family.set_self ..
  have hopen := hholds.get_caller stream
  rw [Launch.Pipes.descriptor_callerSide _ h.launch.nextPid] at hopen
  rcases get_restoredTable h.launch.caller.table
    (((u.close p.stderr.2).close p.stdout.2).close p.stdin.1) setting.closed
    (Launch.Handles.get ⟨p.stdin.2, p.stdout.1, p.stderr.1, h.launch.nextPid⟩ stream) with hget | ⟨hnone, -⟩
  · exact hget.trans hopen
  · exact absurd (hopen.symm.trans hnone) (Option.some_ne_none _)

end Host

end Groundwork
