import Groundwork.Launch.Interface
import Groundwork.Proofs.Launch.Refusal
import Groundwork.Proofs.Text.CString

/-!
# All ways to ask for a launch agree

What has been added to a command is told by its last name and its strings in order (`Builder.addAll_eq`), so a launch
by parts is one by an argument vector. A vector that a null ends is read as the strings that it holds
(`CVector.Holds.contents_entries`), so a launch from outside is one by an argument vector too. Every child of a launch
is to become the launch's own command, whatever other launches do in between (`State.delivers_of_run`), and what the
system is handed for it holds its program and its arguments (`Command.exists_image`).
-/

namespace Groundwork

/-! ### Commands in the making -/

namespace Builder

def Part.name? : Part → Option Bytes
  | .arg _ => none
  | .args _ => none
  | .argv0 s => some s

def Part.strings : Part → List Bytes
  | .arg s => [s]
  | .args ss => ss
  | .argv0 _ => []

/-- The last name among parts. -/
def lastName? (parts : List Part) : Option Bytes := (parts.filterMap Part.name?).getLast?

def unnamed (parts : List Part) : List Part := parts.filter fun part => part.name?.isNone

variable {program : Bytes} {parts parts' : List Part}

theorem lastName?_append (parts parts' : List Part) :
    lastName? (parts ++ parts') = (lastName? parts').or (lastName? parts) := by
  rw [lastName?, List.filterMap_append, List.getLast?_append]
  rfl

theorem lastName?_cons (part : Part) (parts : List Part) :
    lastName? (part :: parts) = (lastName? parts).or part.name? := by
  have hone : lastName? [part] = part.name? := by cases part <;> rfl
  rw [← hone]
  exact lastName?_append [part] parts

theorem add_eq (b : Builder) (part : Part) :
    b.add part = ⟨b.program, part.name?.or b.argv0, b.args ++ part.strings⟩ := by
  cases part with
  | arg s => rfl
  | args ss => rfl
  | argv0 s => rw [Part.strings, List.append_nil]; rfl

/-- What is added late counts as if it had been added in time: a name goes first, and the strings stay in order. -/
theorem addAll_eq (b : Builder) (parts : List Part) :
    b.addAll parts = ⟨b.program, (lastName? parts).or b.argv0, b.args ++ parts.flatMap Part.strings⟩ := by
  induction parts generalizing b with
  | nil => rw [List.flatMap_nil, List.append_nil]; rfl
  | cons part parts ih =>
    have hfirst : b.addAll (part :: parts) = (b.add part).addAll parts := rfl
    rw [hfirst, ih, add_eq, lastName?_cons, List.flatMap_cons, Option.or_assoc, List.append_assoc]

theorem argv_addAll_new (program : Bytes) (parts : List Part) :
    ((new program).addAll parts).argv = (lastName? parts).getD program :: parts.flatMap Part.strings := by
  rw [addAll_eq]
  show ((lastName? parts).or none).getD program :: ([] ++ parts.flatMap Part.strings) = _
  rw [Option.or_none, List.nil_append]

theorem addAll_congr (b : Builder) (hname : lastName? parts = lastName? parts')
    (hstrings : parts.flatMap Part.strings = parts'.flatMap Part.strings) : b.addAll parts = b.addAll parts' := by
  rw [addAll_eq, addAll_eq, hname, hstrings]

theorem flatMap_strings_unnamed (parts : List Part) :
    (unnamed parts).flatMap Part.strings = parts.flatMap Part.strings := by
  induction parts with
  | nil => rfl
  | cons part parts ih =>
    rw [List.flatMap_cons, ← ih]
    cases part with
    | arg s => rfl
    | args ss => rfl
    | argv0 s => rfl

theorem lastName?_map_args (xss : List (List Bytes)) : lastName? (xss.map .args) = none := by
  induction xss with
  | nil => rfl
  | cons xs xss ih => rw [List.map_cons, lastName?_cons, ih]; rfl

theorem addAll_args_flatten (b : Builder) (before : List Part) (xss : List (List Bytes)) (after : List Part) :
    b.addAll (before ++ xss.map .args ++ after) = b.addAll (before ++ .args xss.flatten :: after) := by
  apply addAll_congr
  · rw [lastName?_append, lastName?_append, lastName?_append, lastName?_cons, lastName?_map_args]
    cases lastName? after <;> rfl
  · have hpieces : (xss.map Part.args).flatMap Part.strings = xss.flatten := by
      rw [List.flatMap_map]
      show xss.flatMap id = xss.flatten
      rw [List.flatMap_id]
    rw [List.flatMap_append, List.flatMap_append, List.flatMap_append, List.flatMap_cons, hpieces, List.append_assoc]
    rfl

theorem command_eq_ofArgv (b : Builder) : b.command = .ofArgv b.program b.argv := by
  rw [Command.ofArgv, if_neg (show b.argv ≠ [] from List.cons_ne_nil _ _)]
  rfl

end Builder

/-! ### Strings in memory -/

/-- From here on the memory holds a string and a NUL after it. -/
def CString.Holds (memory s : Bytes) : Prop := (0 : UInt8) ∉ s ∧ ∃ rest, memory = s ++ 0 :: rest

theorem CString.Holds.contents {memory s : Bytes} (h : CString.Holds memory s) : CString.contents memory = s := by
  obtain ⟨hzero, rest, rfl⟩ := h
  exact CString.contents_append hzero rest

namespace CVector

/-- The pointers are to strings, one each, and a null follows them. -/
inductive Holds : CVector → List Bytes → Prop
  | null (rest : CVector) : Holds (none :: rest) []
  | cons {memory s : Bytes} {v : CVector} {ss : List Bytes} (head : CString.Holds memory s) (tail : Holds v ss) :
    Holds (some memory :: v) (s :: ss)

theorem Holds.contents_entries {v : CVector} {ss : List Bytes} (h : v.Holds ss) :
    v.entries.map CString.contents = ss := by
  induction h with
  | null rest => rfl
  | cons head tail ih => rw [entries, List.map_cons, head.contents, ih]

theorem holds_ofStrings {ss : List Bytes} (h : ∀ s ∈ ss, (0 : UInt8) ∉ s) : (ofStrings ss).Holds ss := by
  induction ss with
  | nil => exact .null []
  | cons s ss ih =>
    obtain ⟨hs, hrest⟩ := List.forall_mem_cons.1 h
    exact .cons ⟨hs, [], rfl⟩ (ih hrest)

end CVector

namespace Command

variable {c : Command} {program : Bytes} {argv : List Bytes}

/-- What the system is handed holds the program and the argument vector. -/
def Image.Holds (m : Image) (c : Command) : Prop := CString.Holds m.program c.program ∧ m.argv.Holds c.argv

theorem exists_image (h : ¬ c.HasNul) : ∃ m, c.image = .ok m ∧ m.Holds c := by
  have hstring : ∀ s ∈ c.program :: c.argv, (0 : UInt8) ∉ s := fun s hs h0 => h ⟨s, hs, h0⟩
  obtain ⟨hprogram, hargv⟩ := List.forall_mem_cons.1 hstring
  refine ⟨⟨c.program ++ [0], .ofStrings c.argv⟩, ?_, ⟨hprogram, [], rfl⟩, CVector.holds_ofStrings hargv⟩
  rw [image, prepare_of_not_hasNul h]
  rfl

theorem ofCStrings_eq {memory : Bytes} {v : CVector} (hprogram : CString.Holds memory program) (hargv : v.Holds argv) :
    ofCStrings memory v.entries = ofArgv program argv := by
  rw [ofCStrings, hprogram.contents, hargv.contents_entries]

end Command

/-! ### What a child becomes -/

namespace Launch

namespace Spawn

variable {c : Command} {sp sp' : Spawn} {caller caller' : Caller} {pid : ℕ} {child : Option Pipes} {handles : Handles}

theorem Of.not_hasNul (hsp : sp.Of c) (h : sp.phase.result? = some (.ok handles)) : ¬ c.HasNul := by
  cases hsp with
  | refused hfirst => cases h
  | accepted hnul hphase => exact hnul

theorem begin_pending (c : Command) :
    (begin c).command = c ∧ ∀ handles, (begin c).phase.result? ≠ some (.ok handles) := by
  unfold begin
  split
  · exact ⟨rfl, nofun⟩
  · exact ⟨rfl, nofun⟩

theorem result?_advance (h : sp.advance (.ok pid) caller = some (caller', sp', child)) : sp'.command = sp.command ∧
    ∀ handles, sp'.phase.result? = some (.ok handles) →
      sp.phase.result? = some (.ok handles) ∨ handles.pid = pid ∧ child ≠ none := by
  obtain ⟨command, phase, kept⟩ := sp
  cases phase with
  | opening made =>
    unfold advance at h
    dsimp only at h
    split at h
    · cases h
      exact ⟨rfl, fun handles hresult => by rw [result?_next] at hresult; cases hresult⟩
    · cases h
      exact ⟨rfl, nofun⟩
  | forking p =>
    cases h
    refine ⟨rfl, fun handles hresult => ?_⟩
    cases hresult
    exact .inr ⟨rfl, Option.some_ne_none p⟩
  | closing pending result =>
    cases pending with
    | nil =>
      cases h
      exact ⟨rfl, fun handles hresult => .inl hresult⟩
    | cons d pending =>
      cases h
      exact ⟨rfl, fun handles hresult => .inl hresult⟩
  | finished result => cases h

end Spawn

theorem Child.command_advance {runnable : Command → Bool} {c c' : Child} (h : c.advance runnable = some c') :
    c'.command = c.command := by
  unfold Child.advance at h
  split at h
  · cases h
    rfl
  · split at h <;> (cases h; rfl)
  · cases h
    rfl
  · split at h <;> (cases h; rfl)
  · cases h
  · cases h

namespace State

variable {runnable : Command → Bool} {s s' : State} {a : Action} {acts : List Action} {i : ℕ} {c : Command}

def Becomes (s : State) (pid : ℕ) (c : Command) : Prop :=
  pid < s.nextPid ∧ ∃ child, s.children pid = some child ∧ child.command = c

/-- Launch `i` is one of the command `c`, and so is the child with which it succeeds. -/
def Delivers (s : State) (i : ℕ) (c : Command) : Prop :=
  ∃ sp, s.spawns i = some sp ∧ sp.command = c ∧
    ∀ handles, sp.phase.result? = some (.ok handles) → s.Becomes handles.pid c

theorem becomes_settle (s : State) (j : ℕ) (caller : Caller) (sp : Spawn) {child : Option Pipes} (h : child ≠ none) :
    (s.settle j (caller, sp, child)).Becomes s.nextPid sp.command := by
  obtain ⟨p, rfl⟩ := Option.ne_none_iff_exists'.1 h
  exact ⟨Nat.lt_succ_self _, _, Family.set_self _ _ _, rfl⟩

theorem Becomes.settle {pid : ℕ} (h : s.Becomes pid c) (j : ℕ) (x : Caller × Spawn × Option Pipes) :
    (s.settle j x).Becomes pid c := by
  obtain ⟨caller, sp, child⟩ := x
  obtain ⟨hlt, own, hown, hcommand⟩ := h
  cases child with
  | none => exact ⟨hlt, own, hown, hcommand⟩
  | some p =>
    -- The new child has the next number, and this one has an earlier one.
    exact ⟨hlt.trans (Nat.lt_succ_self _), own, (Family.set_of_ne _ hlt.ne _).trans hown, hcommand⟩

theorem Becomes.step {pid : ℕ} (h : s.Becomes pid c) (hstep : s.step runnable a = some s') : s'.Becomes pid c := by
  cases a with
  | begin j command =>
    obtain ⟨-, rfl⟩ := begin_eq_some hstep
    exact h
  | advance j =>
    obtain ⟨sp, x, -, -, rfl⟩ := advance_eq_some hstep
    exact h.settle j x
  | refuse j e =>
    obtain ⟨command, p, kept, -, rfl⟩ := refuse_eq_some hstep
    exact h
  | child pid' =>
    obtain ⟨child, child', hchild, hadvance, rfl⟩ := child_eq_some hstep
    obtain ⟨hlt, own, hown, hcommand⟩ := h
    by_cases hpid : pid = pid'
    · subst hpid
      rw [hchild] at hown
      cases hown
      exact ⟨hlt, child', Family.set_self _ _ _, (Child.command_advance hadvance).trans hcommand⟩
    · exact ⟨hlt, own, (Family.set_of_ne _ hpid _).trans hown, hcommand⟩
  | drop j stream =>
    obtain ⟨command, handles, kept, -, -, rfl⟩ := drop_eq_some hstep
    exact h

theorem Delivers.step (h : s.Delivers i c) (hstep : s.step runnable a = some s') : s'.Delivers i c := by
  obtain ⟨sp, hi, rfl, hown⟩ := h
  obtain ⟨sp', hi', hturn⟩ := exists_turn hstep hi
  have hbefore : ∀ handles, sp.phase.result? = some (.ok handles) → s'.Becomes handles.pid sp.command :=
    fun handles hok => (hown handles hok).step hstep
  cases hturn with
  | stays => exact ⟨sp, hi', rfl, hbefore⟩
  | advances hadvance hs =>
    obtain ⟨hcommand, hresult⟩ := Spawn.result?_advance hadvance
    refine ⟨sp', hi', hcommand, fun handles hok => ?_⟩
    rcases hresult handles hok with hok | ⟨hpid, hchild⟩
    · exact hbefore handles hok
    · rw [hs, hpid, ← hcommand]
      exact becomes_settle s i _ sp' hchild
  | refuses command p kept e => exact ⟨_, hi', rfl, nofun⟩
  | drops command handles kept kept' => exact ⟨_, hi', rfl, hbefore⟩

theorem delivers_of_run (hrun : s.run runnable (.begin i c :: acts) = some s') : s'.Delivers i c := by
  obtain ⟨m, hbegin, hrest⟩ := run_cons_eq_some_iff.1 hrun
  obtain ⟨-, rfl⟩ := begin_eq_some hbegin
  obtain ⟨hcommand, hresult⟩ := Spawn.begin_pending c
  exact run_keeps (fun _ _ _ h => Delivers.step h)
    ⟨_, Family.set_self _ _ _, hcommand, fun handles h => absurd h (hresult handles)⟩ hrest

theorem exists_run_finish (i fuel : ℕ) (s : State) : ∃ acts, s.run (fun _ => true) acts = some (finish i fuel s) := by
  induction fuel generalizing s with
  | zero => exact ⟨[], rfl⟩
  | succ fuel ih =>
    cases hstep : s.step (fun _ => true) (.advance i) with
    | none => exact ⟨[], by rw [finish, hstep]; rfl⟩
    | some m =>
      obtain ⟨acts, hacts⟩ := ih m
      exact ⟨.advance i :: acts, by rw [finish, hstep]; exact run_cons_eq_some_iff.2 ⟨m, hstep, hacts⟩⟩

theorem exists_run_spawn {result : Except LaunchError Handles} (h : (s.spawn i c).1 = some result) :
    ∃ acts command kept, s.run (fun _ => true) (.begin i c :: acts) = some (s.spawn i c).2 ∧
      (s.spawn i c).2.spawns i = some ⟨command, .finished result, kept⟩ := by
  unfold spawn at h ⊢
  split at h
  · cases h
  · rename_i m hbegin
    obtain ⟨acts, hacts⟩ := exists_run_finish i spawnSteps m
    dsimp only at h ⊢
    split at h
    · rename_i command result' kept hspawn
      cases h
      exact ⟨acts, command, kept, run_cons_eq_some_iff.2 ⟨m, hbegin, hacts⟩, hspawn⟩
    · cases h

/-- For the child `pid` the system is handed the program and the argument vector. -/
def HandsOver (s : State) (pid : ℕ) (c : Command) : Prop :=
  ∃ child m, s.children pid = some child ∧ child.command.image = .ok m ∧ m.Holds c

theorem handsOver_of_run {command : Command} {handles : Handles} {kept : List Stream}
    (hrun : s.run runnable (.begin i c :: acts) = some s')
    (h : s'.spawns i = some ⟨command, .finished (.ok handles), kept⟩) : s'.HandsOver handles.pid c := by
  obtain ⟨sp, hsp, hof⟩ := launches_of_run hrun
  obtain ⟨sp', hsp', -, hown⟩ := delivers_of_run hrun
  rw [h] at hsp hsp'
  cases hsp
  cases hsp'
  obtain ⟨-, child, hchild, rfl⟩ := hown handles rfl
  obtain ⟨m, hm, hholds⟩ := Command.exists_image (hof.not_hasNul rfl)
  exact ⟨child, m, hchild, hm, hholds⟩

theorem handsOver_of_spawn {handles : Handles} (h : (s.spawn i c).1 = some (.ok handles)) :
    (s.spawn i c).2.HandsOver handles.pid c := by
  obtain ⟨acts, command, kept, hrun, hspawn⟩ := exists_run_spawn h
  exact handsOver_of_run hrun hspawn

theorem hasNul_of_spawn {text : String} (h : (s.spawn i c).1 = some (.error (.invalidArgument text))) : c.HasNul := by
  obtain ⟨acts, command, kept, hrun, hspawn⟩ := exists_run_spawn h
  obtain ⟨sp, hsp, hof⟩ := launches_of_run hrun
  rw [hspawn] at hsp
  cases hsp
  exact hof.hasNul rfl

theorem spawnVector_eq {program memory : Bytes} {argv : List Bytes} {v : CVector}
    (hprogram : CString.Holds memory program) (hargv : v.Holds argv) (places : Places) :
    s.spawnVector i memory v places =
      ((s.spawnArgv i program argv).1.elim places places.write, (s.spawnArgv i program argv).2) := by
  rw [spawnVector, spawnInto, spawnArgv, Command.ofCStrings_eq hprogram hargv]
  rcases s.spawn i (.ofArgv program argv) with ⟨result, after⟩
  cases result <;> rfl

/-- It makes no difference in which way a launch is asked for. The argument vector of a command in the making is its
last name, or the program, and then all its strings in order, so of the names only the last one counts, wherever they
stand, and it does not matter how the strings are grouped. Launching it is launching its argument vector, and each
argument vector is that of a command in the making. Strings in memory launch what they hold, are never refused and
succeed where there is room. In whatever way a launch has been asked for, the child with which it succeeds hands over
the launch's program and argument vector. -/
theorem entries_agree (s : State) (i : ℕ) (program : Bytes) :
    (∀ parts, ((Builder.new program).addAll parts).argv =
      (Builder.lastName? parts).getD program :: parts.flatMap Builder.Part.strings) ∧
    (∀ parts parts', Builder.unnamed parts = Builder.unnamed parts' →
      ((Builder.new program).addAll parts).argv.tail = ((Builder.new program).addAll parts').argv.tail ∧
      (Builder.lastName? parts = Builder.lastName? parts' →
        (Builder.new program).addAll parts = (Builder.new program).addAll parts')) ∧
    (∀ before (xss : List (List Bytes)) after, (Builder.new program).addAll (before ++ xss.map .args ++ after) =
      (Builder.new program).addAll (before ++ .args xss.flatten :: after)) ∧
    (∀ parts, s.spawnBuilder i ((Builder.new program).addAll parts) =
      s.spawnArgv i program ((Builder.new program).addAll parts).argv) ∧
    s.spawnArgv i program [] = s.spawnBuilder i (.new program) ∧
    (∀ name rest, s.spawnArgv i program (name :: rest) =
      s.spawnBuilder i ((Builder.new program).addAll [.argv0 name, .args rest])) ∧
    (∀ argv handles, (s.spawnArgv i program argv).1 = some (.ok handles) →
      (s.spawnArgv i program argv).2.HandsOver handles.pid ⟨program, if argv = [] then [program] else argv⟩) ∧
    (∀ argv memory v, CString.Holds memory program → CVector.Holds v argv →
      (∀ places, s.spawnVector i memory v places =
        ((s.spawnArgv i program argv).1.elim places places.write, (s.spawnArgv i program argv).2)) ∧
      (∀ text, (s.spawnArgv i program argv).1 ≠ some (.error (.invalidArgument text))) ∧
      (s.spawns i = none → 6 ≤ s.caller.table.freeCount →
        ∃ handles, (s.spawnArgv i program argv).1 = some (.ok handles)) ∧
      ∀ runnable acts s', s.run runnable (.begin i (.ofCStrings memory v.entries) :: acts) = some s' →
        ∀ command kept text, s'.spawns i ≠ some ⟨command, .finished (.error (.invalidArgument text)), kept⟩) ∧
    ∀ c runnable acts s', s.run runnable (.begin i c :: acts) = some s' → ∀ command handles kept,
      s'.spawns i = some ⟨command, .finished (.ok handles), kept⟩ → s'.HandsOver handles.pid c := by
  have hcommand : ∀ parts, ((Builder.new program).addAll parts).program = program := fun parts => by
    rw [Builder.addAll_eq]
    rfl
  refine ⟨Builder.argv_addAll_new program, ?_, Builder.addAll_args_flatten _, ?_, rfl, ?_,
    fun _ _ => handsOver_of_spawn, ?_, fun _ _ _ _ hrun _ _ _ => handsOver_of_run hrun⟩
  · intro parts parts' hunnamed
    have hstrings : parts.flatMap Builder.Part.strings = parts'.flatMap Builder.Part.strings := by
      rw [← Builder.flatMap_strings_unnamed parts, hunnamed, Builder.flatMap_strings_unnamed]
    refine ⟨?_, fun hname => Builder.addAll_congr _ hname hstrings⟩
    rw [Builder.argv_addAll_new, Builder.argv_addAll_new, hstrings, List.tail_cons, List.tail_cons]
  · intro parts
    rw [spawnBuilder, Builder.command_eq_ofArgv, hcommand]
    rfl
  · intro name rest
    have hsame : ((Builder.new program).addAll [.argv0 name, .args rest]).command = .ofArgv program (name :: rest) :=
      rfl
    rw [spawnBuilder, hsame, spawnArgv]
  · intro argv memory v hprogram hargv
    have hnul := Command.not_hasNul_ofCStrings memory v.entries
    have hsame := Command.ofCStrings_eq hprogram hargv
    refine ⟨spawnVector_eq hprogram hargv, fun text htext => ?_, fun hi hroom => ?_, ?_⟩
    · exact (hsame ▸ hnul) (hasNul_of_spawn htext)
    · obtain ⟨handles, hok, -⟩ := exists_spawn_of_room hi (hsame ▸ hnul) hroom
      exact ⟨handles, hok⟩
    · intro runnable acts s' hrun command kept text hspawn
      obtain ⟨sp, hsp, hof⟩ := launches_of_run hrun
      rw [hspawn] at hsp
      cases hsp
      exact hnul (hof.hasNul rfl)

/-- Bytes after a NUL and pointers after a null are not looked at, and an empty argument is one; a name that is replaced
later, and where the last one stands, are not seen either. -/
theorem entries_agree_empty_argument :
    let s : State := ⟨⟨⟨8, fun _ => none⟩, 0⟩, ⟨[], []⟩, Family.empty, Family.empty, 7⟩
    let v : CVector := [some [98, 0, 99], some [0], none, some [1]]
    let late : List Builder.Part := [.argv0 [120], .arg [], .argv0 [98]]
    let early : List Builder.Part := [.argv0 [120], .argv0 [98], .args [], .args [[]]]
    let acts : List Action := .begin 1 ⟨[0], []⟩ :: List.replicate 8 (.advance 0)
    ((Builder.new [97]).addAll late).argv = [[98], []] ∧ ((Builder.new [97]).addAll early).argv.tail = [[]] ∧
    (∃ handles, (s.spawnArgv 0 [97] [[98], []]).1 = some (.ok handles)) ∧
    s.spawnVector 0 [97, 0, 5] v ⟨some [1], [], 0⟩ = (⟨none, [1, 2, 4], 7⟩, (s.spawnArgv 0 [97] [[98], []]).2) ∧
    (s.spawnArgv 0 [97] [[98], []]).2.HandsOver 7 ⟨[97], [[98], []]⟩ ∧
    ∃ s', s.run (fun _ => true) (.begin 0 (.ofCStrings [97, 0, 5] v.entries) :: acts) = some s' ∧
      s'.HandsOver 7 (.ofCStrings [97, 0, 5] v.entries) := by
  intro s v late early acts
  have hv : CVector.Holds v [[98], []] :=
    .cons ⟨by decide, [99], rfl⟩ (.cons ⟨by decide, [], rfl⟩ (.null _))
  obtain ⟨hargv, hmoved, hpieces, -, -, -, hover, hvector, hrun⟩ := entries_agree s 0 [97]
  obtain ⟨htail, -⟩ := hmoved late [.argv0 [120], .argv0 [98], .arg []] rfl
  obtain ⟨hinto, -, hroom, -⟩ := hvector [[98], []] [97, 0, 5] v ⟨by decide, [5], rfl⟩ hv
  refine ⟨hargv late, ?_, hroom rfl (by decide), hinto _, hover _ ⟨1, 2, 4, 7⟩ rfl, ?_⟩
  · have hmerged := hpieces [.argv0 [120], .argv0 [98]] [[], [[]]] []
    rw [show early = [.argv0 [120], .argv0 [98]] ++ [[], [[]]].map .args ++ [] from rfl, hmerged]
    exact htail.symm
  · exact ⟨_, rfl, hrun _ (fun _ => true) acts _ rfl _ ⟨1, 2, 4, 7⟩ _ rfl⟩

end State

end Launch

end Groundwork
