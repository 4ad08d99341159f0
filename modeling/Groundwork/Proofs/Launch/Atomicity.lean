import Groundwork.Launch.Places
import Groundwork.Proofs.Launch.Wiring

/-!
# Launches leave all or nothing

A launch that nothing comes between either gets its three pipes and its child, or it leaves the
descriptors as they were. What it does is settled by how many descriptors are free, two for each pipe. The
pipes are given up in the reverse of the order in which they were made, so the invariant of a launch that
is short of descriptors is that closing what it has made gives the table with which it began
(`State.finish_of_lack`).
-/

namespace Groundwork

namespace Command

/-- Some string of the command holds a NUL. -/
def HasNul (c : Command) : Prop := ∃ s ∈ c.program :: c.argv, (0 : UInt8) ∈ s

instance (c : Command) : Decidable c.HasNul :=
  inferInstanceAs (Decidable (∃ s ∈ c.program :: c.argv, (0 : UInt8) ∈ s))

theorem firstWithNul?_eq_none_iff {c : Command} : c.firstWithNul? = none ↔ ¬ c.HasNul := by
  unfold firstWithNul? HasNul
  rw [List.find?_eq_none]
  constructor
  · rintro h ⟨s, hs, h0⟩
    exact h s hs (List.contains_iff_mem.2 h0)
  · intro h s hs h0
    exact h ⟨s, hs, List.contains_iff_mem.1 h0⟩

theorem check_of_not_hasNul {c : Command} (h : ¬ c.HasNul) : c.check = .ok () := by
  unfold check
  rw [firstWithNul?_eq_none_iff.2 h]

theorem exists_check_of_hasNul {c : Command} (h : c.HasNul) :
    ∃ s, c.firstWithNul? = some s ∧ c.check = .error (.containsNul Glyph.isShown s) := by
  obtain ⟨s, hs⟩ := Option.ne_none_iff_exists'.1 (mt firstWithNul?_eq_none_iff.1 (not_not.2 h))
  exact ⟨s, hs, by rw [check, hs]⟩

theorem prepareString_of_not_mem {s : Bytes} (h : (0 : UInt8) ∉ s) : prepareString s = .ok s :=
  if_neg (mt List.contains_iff_mem.1 h)

theorem prepare_of_not_hasNul {c : Command} (h : ¬ c.HasNul) : c.prepare = .ok (c.program, c.argv) := by
  have hprogram : (0 : UInt8) ∉ c.program := fun h0 => h ⟨_, List.mem_cons_self, h0⟩
  have hargv : ∀ argv : List Bytes, (∀ s ∈ argv, (0 : UInt8) ∉ s) → argv.mapM prepareString = .ok argv := by
    intro argv hargv
    induction argv with
    | nil => rfl
    | cons s argv ih =>
      obtain ⟨hs, hrest⟩ := List.forall_mem_cons.1 hargv
      rw [List.mapM_cons, prepareString_of_not_mem hs, ih hrest]
      rfl
  rw [prepare, prepareString_of_not_mem hprogram, hargv c.argv fun s hs h0 => h ⟨s, List.mem_cons_of_mem _ hs, h0⟩]
  rfl

theorem accept_of_not_hasNul {c : Command} (h : ¬ c.HasNul) : c.accept = .ok (c.program, c.argv) := by
  rw [accept, check_of_not_hasNul h, prepare_of_not_hasNul h]
  rfl

theorem zero_notMem_contents (s : Bytes) : (0 : UInt8) ∉ CString.contents s := by
  intro h
  simpa using List.all_eq_true.1 List.all_takeWhile (0 : UInt8) h

theorem not_hasNul_ofCStrings (program : Bytes) (argv : List Bytes) : ¬ (ofCStrings program argv).HasNul := by
  rintro ⟨s, hs, h0⟩
  suffices h : ∃ u, s = CString.contents u by
    obtain ⟨u, rfl⟩ := h
    exact zero_notMem_contents u h0
  unfold ofCStrings ofArgv at hs
  rcases List.mem_cons.1 hs with rfl | hs
  · exact ⟨program, rfl⟩
  · dsimp only at hs
    split at hs
    · exact ⟨program, List.mem_singleton.1 hs⟩
    · obtain ⟨u, -, rfl⟩ := List.mem_map.1 hs
      exact ⟨u, rfl⟩

end Command

namespace Launch

/-- The numbers of the pipes of a launch that begins now. -/
def Caller.pipeNumber (c : Caller) : Stream → ℕ
  | .stdin => c.nextPipe
  | .stdout => c.nextPipe + 1
  | .stderr => c.nextPipe + 2

/-- Descriptors and children are as before. -/
structure Undone (s after : State) : Prop where
  table : after.caller.table = s.caller.table
  children : after.children = s.children
  nextPid : after.nextPid = s.nextPid

/-- The caller has its ends of three new pipes in descriptors that were free, and a new child has a copy
of the table with all ends in it. -/
structure Launched (s after : State) (c : Command) (h : Handles) : Prop where
  free : s.caller.table.get h.stdin = none ∧ s.caller.table.get h.stdout = none ∧ s.caller.table.get h.stderr = none
  increasing : h.stdin < h.stdout ∧ h.stdout < h.stderr
  table : after.caller.table =
    ((s.caller.table.set h.stdin (some ⟨.pipe ⟨s.caller.pipeNumber .stdin, .writer⟩, true⟩)).set
      h.stdout (some ⟨.pipe ⟨s.caller.pipeNumber .stdout, .reader⟩, true⟩)).set
      h.stderr (some ⟨.pipe ⟨s.caller.pipeNumber .stderr, .reader⟩, true⟩)
  child : ∃ u p, MakesPipes s.caller.table u p s.caller.pipeNumber ∧
    h = ⟨p.stdin.2, p.stdout.1, p.stderr.1, s.nextPid⟩ ∧
    (∀ d ∈ p.childEnds, after.caller.table.get d = none) ∧
    after.children = s.children.set s.nextPid (some (.begin c u s.signals p))
  nextPid : after.nextPid = s.nextPid + 1

namespace MakesPipes

variable {t u : Table} {p : Pipes} {k : Stream → ℕ} (h : MakesPipes t u p k)
include h

theorem close_childEnds : ((u.close p.stderr.2).close p.stdout.2).close p.stdin.1 =
    ((t.set p.stdin.2 (some ⟨.pipe ⟨k .stdin, .writer⟩, true⟩)).set
      p.stdout.1 (some ⟨.pipe ⟨k .stdout, .reader⟩, true⟩)).set
      p.stderr.1 (some ⟨.pipe ⟨k .stderr, .reader⟩, true⟩) := by
  obtain ⟨hin, hinOut, hout, houtErr, herr⟩ := h.increasing
  have hne₁ : p.stdin.1 ≠ p.stdout.1 := by omega
  have hne₂ : p.stdin.1 ≠ p.stderr.1 := by omega
  obtain ⟨t₁, t₂, h₁, h₂, h₃⟩ := h
  rw [Table.close_writer_of_pipe? h₃, Table.close_set_of_ne houtErr.ne, Table.close_writer_of_pipe? h₂]
  rw [Table.close_set_of_ne hne₂, Table.close_set_of_ne hne₁, Table.close_reader_of_pipe? h₁]

theorem free : t.get p.stdin.2 = none ∧ t.get p.stdout.1 = none ∧ t.get p.stderr.1 = none := by
  obtain ⟨t₁, t₂, h₁, h₂, h₃⟩ := h
  have hmade₁ := Table.pipe?_spec h₁
  have hmade₂ := Table.pipe?_spec h₂
  have hmade₃ := Table.pipe?_spec h₃
  exact ⟨Table.writer_free_of_pipe? h₁, hmade₁.free_of_free hmade₂.free,
    hmade₁.free_of_free (hmade₂.free_of_free hmade₃.free)⟩

end MakesPipes

namespace Spawn

theorem unwind_append (made : List (ℕ × ℕ)) (r w : ℕ) : unwind (made ++ [(r, w)]) = w :: r :: unwind made := by
  simp [unwind]

theorem length_unwind (made : List (ℕ × ℕ)) : (unwind made).length = 2 * made.length := by
  induction made using List.reverseRecOn with
  | nil => rfl
  | append_singleton made ends ih =>
    rw [unwind_append, List.length_append]
    simp only [List.length_cons, List.length_nil, ih]
    omega

theorem next_of_length_lt {made : List (ℕ × ℕ)} (h : made.length < 3) : next made = .opening made := by
  unfold next
  split
  · simp at h
  · rfl

theorem begin_of_not_hasNul {c : Command} (h : ¬ c.HasNul) :
    begin c = ⟨c, .opening [], [.stdin, .stdout, .stderr]⟩ := by
  rw [begin, c.accept_of_not_hasNul h]

theorem exists_begin_of_hasNul {c : Command} (h : c.HasNul) :
    ∃ s, c.firstWithNul? = some s ∧ begin c = ⟨c, .finished (.error (.containsNul Glyph.isShown s)), []⟩ := by
  obtain ⟨s, hs, hcheck⟩ := c.exists_check_of_hasNul h
  exact ⟨s, hs, by rw [begin, Command.accept, hcheck]; rfl⟩

end Spawn

namespace State

variable {s : State} {i : ℕ} {c c' : Caller} {sp sp' : Spawn} {runnable : Command → Bool}

def withSpawn (s : State) (i : ℕ) (c : Caller) (sp : Spawn) : State := s.settle i (c, sp, none)

theorem settle_withSpawn (x : Caller × Spawn × Option Pipes) : (s.withSpawn i c sp).settle i x = s.settle i x := by
  obtain ⟨c', sp', _ | p⟩ := x
  · simp [withSpawn, settle]
  · simp [withSpawn, settle]

theorem step_advance :
    (s.withSpawn i c sp).step runnable (.advance i) = (sp.advance (.ok s.nextPid) c).map (s.settle i) := by
  have hsp : (s.withSpawn i c sp).spawns i = some sp := Family.set_self _ _ _
  have hpid : (s.withSpawn i c sp).nextPid = s.nextPid := rfl
  have hcaller : (s.withSpawn i c sp).caller = c := rfl
  simp only [step, hsp, hpid, hcaller, Option.bind_eq_bind, Option.bind_some, settle_withSpawn]
  rw [Option.map_eq_bind]
  rfl

def withChild (s : State) (child : Child) : State :=
  { s with children := s.children.set s.nextPid (some child), nextPid := s.nextPid + 1 }

/-! ### The steps of a launch one after the other -/

theorem finish_succ (fuel : ℕ) (h : sp.advance (.ok s.nextPid) c = some (c', sp', none)) :
    finish i (fuel + 1) (s.withSpawn i c sp) = finish i fuel (s.withSpawn i c' sp') := by
  rw [finish, step_advance, h, Option.map_some]
  rfl

theorem finish_succ_child {p : Pipes} (fuel : ℕ) (h : sp.advance (.ok s.nextPid) c = some (c', sp', some p)) :
    finish i (fuel + 1) (s.withSpawn i c sp) =
      finish i fuel ((s.withChild (.begin sp'.command c'.table s.signals p)).withSpawn i c' sp') := by
  rw [finish, step_advance, h, Option.map_some]
  rfl

theorem finish_finished (fuel : ℕ) (h : sp.advance (.ok s.nextPid) c = none) :
    finish i fuel (s.withSpawn i c sp) = s.withSpawn i c sp := by
  cases fuel with
  | zero => rfl
  | succ fuel => rw [finish, step_advance, h, Option.map_none]

variable {command : Command} {kept : List Stream} {result : Except LaunchError Handles} {fuel : ℕ}

theorem finish_closing (pending : List ℕ) (h : pending.length < fuel) :
    finish i fuel (s.withSpawn i c ⟨command, .closing pending result, kept⟩) =
      s.withSpawn i { c with table := pending.foldl Table.close c.table } ⟨command, .finished result, kept⟩ := by
  induction pending generalizing c fuel with
  | nil =>
    obtain ⟨fuel, rfl⟩ := Nat.exists_eq_succ_of_ne_zero (show fuel ≠ 0 by omega)
    rw [finish_succ fuel rfl, finish_finished fuel rfl]
    rfl
  | cons d pending ih =>
    obtain ⟨fuel, rfl⟩ := Nat.exists_eq_succ_of_ne_zero (show fuel ≠ 0 by omega)
    rw [List.length_cons] at h
    rw [finish_succ fuel rfl]
    exact ih (show pending.length < fuel by omega)

theorem advance_opening_none {fork : Except OsError ℕ} {made : List (ℕ × ℕ)} (h : c.table.pipe? c.nextPipe = none) :
    Spawn.advance fork c ⟨command, .opening made, kept⟩ =
      some (c, ⟨command, .closing (Spawn.unwind made) (.error (.pipe .tooManyFiles)), kept⟩, none) := by
  simp only [Spawn.advance, h]

theorem advance_opening_some {fork : Except OsError ℕ} {made : List (ℕ × ℕ)} {ends : ℕ × ℕ} {t : Table}
    (h : c.table.pipe? c.nextPipe = some (ends, t)) :
    Spawn.advance fork c ⟨command, .opening made, kept⟩ =
      some (⟨t, c.nextPipe + 1⟩, ⟨command, Spawn.next (made ++ [ends]), kept⟩, none) := by
  simp only [Spawn.advance, h]

/-- A launch that is to make `left` pipes more with too few descriptors closes what it has made. -/
theorem finish_of_lack {t : Table} (left : ℕ) (made : List (ℕ × ℕ)) (hmade : made.length + left = 3)
    (hundo : (Spawn.unwind made).foldl Table.close c.table = t) (hlack : c.table.freeCount < 2 * left)
    (hfuel : left + 5 ≤ fuel) :
    finish i fuel (s.withSpawn i c ⟨command, .opening made, kept⟩) =
      s.withSpawn i ⟨t, c.nextPipe + c.table.freeCount / 2⟩
        ⟨command, .finished (.error (.pipe .tooManyFiles)), kept⟩ := by
  induction left generalizing c made fuel with
  | zero => omega
  | succ left ih =>
    obtain ⟨fuel, rfl⟩ := Nat.exists_eq_succ_of_ne_zero (show fuel ≠ 0 by omega)
    cases hpipe : c.table.pipe? c.nextPipe with
    | none =>
      -- at most one descriptor is free, and it stays so: a pipe takes both or none
      have hfew : c.table.freeCount < 2 := by
        by_contra hmany
        obtain ⟨ends, t', h⟩ := c.table.exists_pipe? c.nextPipe (not_lt.1 hmany)
        rw [hpipe] at h
        cases h
      have hlength := Spawn.length_unwind made
      rw [finish_succ fuel (advance_opening_none hpipe), finish_closing _ (by omega), hundo,
        Nat.div_eq_of_lt hfew, Nat.add_zero]
    | some made' =>
      obtain ⟨⟨r, w⟩, t'⟩ := made'
      have hcount := Table.freeCount_of_pipe? hpipe
      have hlength : (made ++ [(r, w)]).length = made.length + 1 := List.length_append
      have hundo' : (Spawn.unwind (made ++ [(r, w)])).foldl Table.close t' = t := by
        rw [Spawn.unwind_append, List.foldl_cons, List.foldl_cons, Table.close_of_pipe? hpipe, hundo]
      rw [finish_succ fuel (advance_opening_some hpipe), Spawn.next_of_length_lt (by omega)]
      rw [ih _ (by omega) hundo' (by dsimp only; omega) (by omega)]
      have hhalf : c.table.freeCount / 2 = t'.freeCount / 2 + 1 := by omega
      rw [hhalf]
      congr 2
      dsimp only
      omega

theorem finish_of_room (s : State) (i : ℕ) (command : Command) (kept : List Stream)
    (hroom : 6 ≤ c.table.freeCount) (hfuel : 8 ≤ fuel) :
    ∃ u p, MakesPipes c.table u p c.pipeNumber ∧
      finish i fuel (s.withSpawn i c ⟨command, .opening [], kept⟩) =
        (s.withChild (.begin command u s.signals p)).withSpawn i
          ⟨((u.close p.stderr.2).close p.stdout.2).close p.stdin.1, c.nextPipe + 3⟩
          ⟨command, .finished (.ok ⟨p.stdin.2, p.stdout.1, p.stderr.1, s.nextPid⟩), kept⟩ := by
  obtain ⟨stdin, t₁, h₁⟩ := c.table.exists_pipe? c.nextPipe (by omega)
  have hcount₁ := Table.freeCount_of_pipe? h₁
  obtain ⟨stdout, t₂, h₂⟩ := t₁.exists_pipe? (c.nextPipe + 1) (by omega)
  have hcount₂ := Table.freeCount_of_pipe? h₂
  obtain ⟨stderr, u, h₃⟩ := t₂.exists_pipe? (c.nextPipe + 2) (by omega)
  refine ⟨u, ⟨stdin, stdout, stderr⟩, ⟨t₁, t₂, h₁, h₂, h₃⟩, ?_⟩
  obtain ⟨fuel, rfl⟩ := Nat.exists_eq_add_of_le' hfuel
  rw [finish_succ (fuel + 7) (advance_opening_some h₁), Spawn.next_of_length_lt (by simp)]
  rw [finish_succ (fuel + 6) (advance_opening_some h₂), Spawn.next_of_length_lt (by simp)]
  rw [finish_succ (fuel + 5) (advance_opening_some h₃)]
  rw [finish_succ_child (fuel + 4) rfl, finish_closing _ (by simp)]
  rfl

/-! ### Whole launches -/

theorem spawn_of_finish {s' : State} (hi : s.spawns i = none)
    (h : finish i spawnSteps (s.withSpawn i s.caller (.begin command)) =
      s'.withSpawn i c ⟨command, .finished result, kept⟩) :
    s.spawn i command = (some result, s'.withSpawn i c ⟨command, .finished result, kept⟩) := by
  have hbegin : s.step (fun _ => true) (.begin i command) = some (s.withSpawn i s.caller (.begin command)) := by
    rw [step, hi]
    rfl
  have hend : (s'.withSpawn i c ⟨command, .finished result, kept⟩).spawns i = some ⟨command, .finished result, kept⟩ :=
    Family.set_self _ _ _
  simp only [spawn, hbegin, h, hend]

theorem exists_spawn_of_hasNul (hi : s.spawns i = none) (h : command.HasNul) :
    ∃ string, command.firstWithNul? = some string ∧ s.spawn i command =
      (some (.error (.containsNul Glyph.isShown string)), s.withSpawn i s.caller (.begin command)) := by
  obtain ⟨string, hstring, hbegin⟩ := Spawn.exists_begin_of_hasNul h
  refine ⟨string, hstring, ?_⟩
  rw [hbegin]
  apply spawn_of_finish hi
  rw [hbegin, finish_finished spawnSteps rfl]

theorem spawn_of_lack (hi : s.spawns i = none) (h : ¬ command.HasNul) (hlack : s.caller.table.freeCount < 6) :
    s.spawn i command =
      (some (.error (.pipe .tooManyFiles)),
        s.withSpawn i ⟨s.caller.table, s.caller.nextPipe + s.caller.table.freeCount / 2⟩
          ⟨command, .finished (.error (.pipe .tooManyFiles)), [.stdin, .stdout, .stderr]⟩) := by
  apply spawn_of_finish hi
  rw [Spawn.begin_of_not_hasNul h]
  exact finish_of_lack 3 [] rfl rfl hlack (by decide)

theorem exists_spawn_of_room (hi : s.spawns i = none) (h : ¬ command.HasNul) (hroom : 6 ≤ s.caller.table.freeCount) :
    ∃ handles, (s.spawn i command).1 = some (.ok handles) ∧ Launched s (s.spawn i command).2 command handles := by
  obtain ⟨u, p, hpipes, hfinish⟩ := finish_of_room s i command [.stdin, .stdout, .stderr] hroom
    (show 8 ≤ spawnSteps by decide)
  rw [← Spawn.begin_of_not_hasNul h] at hfinish
  have hspawn := spawn_of_finish hi hfinish
  obtain ⟨hin, hinOut, hout, houtErr, herr⟩ := hpipes.increasing
  refine ⟨⟨p.stdin.2, p.stdout.1, p.stderr.1, s.nextPid⟩, by rw [hspawn], ?_⟩
  rw [hspawn]
  refine ⟨hpipes.free, ⟨hinOut, hout.trans houtErr⟩, hpipes.close_childEnds, ⟨u, p, hpipes, rfl, ?_, rfl⟩, rfl⟩
  intro d hd
  simp only [Pipes.childEnds, List.mem_cons, List.not_mem_nil, or_false] at hd
  have hclosed : (((u.close p.stderr.2).close p.stdout.2).close p.stdin.1).get d = none := by
    simp only [Table.get_close, ite_eq_left_iff]
    tauto
  exact hclosed

theorem spawn_invalidArgument_iff (hi : s.spawns i = none) :
    (∃ text, (s.spawn i command).1 = some (.error (.invalidArgument text))) ↔ command.HasNul := by
  constructor
  · rintro ⟨text, htext⟩
    by_contra h
    rcases lt_or_ge s.caller.table.freeCount 6 with hlack | hroom
    · rw [spawn_of_lack hi h hlack] at htext
      cases htext
    · obtain ⟨handles, hok, -⟩ := exists_spawn_of_room hi h hroom
      rw [hok] at htext
      cases htext
  · intro h
    obtain ⟨string, -, hspawn⟩ := exists_spawn_of_hasNul hi h
    exact ⟨_, by rw [hspawn]; rfl⟩

theorem spawn_untouched (hi : s.spawns i = none) (h : command.HasNul) :
    (s.spawn i command).2 = { s with spawns := s.spawns.set i (some (.begin command)) } ∧
      ∀ fork caller, (Spawn.begin command).advance fork caller = none := by
  obtain ⟨string, -, hspawn⟩ := exists_spawn_of_hasNul hi h
  obtain ⟨string', -, hbegin⟩ := Spawn.exists_begin_of_hasNul h
  rw [hspawn, hbegin]
  exact ⟨rfl, fun fork caller => rfl⟩

/-! ### Launches into places -/

variable {program : Bytes} {argv : List Bytes} {places : Places}

theorem spawnInto_of_lack (hi : s.spawns i = none) (hlack : s.caller.table.freeCount < 6) :
    (s.spawnInto i program argv places).1 =
        { places with
          error := some "Failed to create pipe: Too many open files (os error 24)".toUTF8.data.toList } ∧
      Undone s (s.spawnInto i program argv places).2 := by
  have hmessage : CString.ofString? (LaunchError.pipe .tooManyFiles).message =
      some "Failed to create pipe: Too many open files (os error 24)".toUTF8.data.toList := by decide
  rw [spawnInto, spawn_of_lack hi (Command.not_hasNul_ofCStrings program argv) hlack]
  refine ⟨?_, rfl, rfl, rfl⟩
  simp only [Places.write, hmessage, Option.getD_some]

theorem exists_spawnInto_of_room (hi : s.spawns i = none) (hroom : 6 ≤ s.caller.table.freeCount) :
    ∃ h : Handles, (s.spawnInto i program argv places).1 =
        ⟨none, [(h.stdin : ℤ), h.stdout, h.stderr] ++ places.descriptors.drop 3, h.pid⟩ ∧
      Launched s (s.spawnInto i program argv places).2 (.ofCStrings program argv) h := by
  obtain ⟨h, hok, hlaunched⟩ := exists_spawn_of_room hi (Command.not_hasNul_ofCStrings program argv) hroom
  have hresult : s.spawn i (.ofCStrings program argv) =
      (some (.ok h), (s.spawn i (.ofCStrings program argv)).2) := Prod.ext hok rfl
  rw [spawnInto, hresult]
  exact ⟨h, rfl, hlaunched⟩

end State

/-- A launch that nothing comes between is refused for a NUL before it touches anything; with fewer than six
free descriptors it fails and leaves the table and the children as they were, and otherwise it succeeds.
Into places it writes a message alone or all but a message. -/
theorem State.spawn_allOrNothing (s : State) (i : ℕ) (hi : s.spawns i = none) :
    (∀ c : Command,
      ((∃ text, (s.spawn i c).1 = some (.error (.invalidArgument text))) ↔ c.HasNul) ∧
      (c.HasNul →
        (s.spawn i c).2 = { s with spawns := s.spawns.set i (some (.begin c)) } ∧
        ∀ fork caller, (Spawn.begin c).advance fork caller = none) ∧
      (¬ c.HasNul → s.caller.table.freeCount < 6 →
        (s.spawn i c).1 = some (.error (.pipe .tooManyFiles)) ∧ Undone s (s.spawn i c).2) ∧
      (¬ c.HasNul → 6 ≤ s.caller.table.freeCount →
        ∃ h, (s.spawn i c).1 = some (.ok h) ∧ Launched s (s.spawn i c).2 c h)) ∧
    ∀ program argv places,
      (s.caller.table.freeCount < 6 →
        (s.spawnInto i program argv places).1 =
          { places with
            error := some "Failed to create pipe: Too many open files (os error 24)".toUTF8.data.toList } ∧
        Undone s (s.spawnInto i program argv places).2) ∧
      (6 ≤ s.caller.table.freeCount →
        ∃ h, (s.spawnInto i program argv places).1 =
            ⟨none, [(h.stdin : ℤ), h.stdout, h.stderr] ++ places.descriptors.drop 3, h.pid⟩ ∧
          Launched s (s.spawnInto i program argv places).2 (.ofCStrings program argv) h) := by
  refine ⟨fun c => ⟨spawn_invalidArgument_iff hi, spawn_untouched hi, ?_, exists_spawn_of_room hi⟩, ?_⟩
  · intro h hlack
    rw [spawn_of_lack hi h hlack]
    exact ⟨rfl, rfl, rfl, rfl⟩
  · intro program argv places
    exact ⟨spawnInto_of_lack hi, exists_spawnInto_of_room hi⟩

/-- Standard input closed: five free descriptors do not make three pipes, and six do. -/
theorem State.spawn_allOrNothing_gap :
    let s (limit : ℕ) : State :=
      ⟨⟨⟨limit, fun d => if d = 1 ∨ d = 2 then some ⟨.other d, false⟩ else none⟩, 0⟩, ⟨[], []⟩, Family.empty,
        Family.empty, 7⟩
    (∃ text, ((s 8).spawn 0 ⟨[97], [[97, 0]]⟩).1 = some (.error (.invalidArgument text))) ∧
    ((s 7).spawn 0 ⟨[97], [[97]]⟩).1 = some (.error (.pipe .tooManyFiles)) ∧
    Undone (s 7) ((s 7).spawn 0 ⟨[97], [[97]]⟩).2 ∧
    (∃ h, ((s 8).spawn 0 ⟨[97], [[97]]⟩).1 = some (.ok h) ∧
      Launched (s 8) ((s 8).spawn 0 ⟨[97], [[97]]⟩).2 ⟨[97], [[97]]⟩ h) ∧
    ∃ h : Handles, ((s 8).spawnInto 0 [97] [[97]] ⟨some [], [9, 9, 9], 9⟩).1 =
      ⟨none, [(h.stdin : ℤ), h.stdout, h.stderr], h.pid⟩ := by
  intro s
  obtain ⟨hfew, -⟩ := State.spawn_allOrNothing (s 7) 0 rfl
  obtain ⟨hmany, hplaces⟩ := State.spawn_allOrNothing (s 8) 0 rfl
  obtain ⟨hresult, hundone⟩ := (hfew ⟨[97], [[97]]⟩).2.2.1 (by decide) (by decide)
  obtain ⟨h, hwritten, -⟩ := (hplaces [97] [[97]] ⟨some [], [9, 9, 9], 9⟩).2 (by decide)
  exact ⟨(hmany ⟨[97], [[97, 0]]⟩).1.2 (by decide), hresult, hundone,
    (hmany ⟨[97], [[97]]⟩).2.2.2 (by decide) (by decide), h, hwritten⟩

end Launch

end Groundwork
