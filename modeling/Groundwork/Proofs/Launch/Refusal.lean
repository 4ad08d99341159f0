import Groundwork.Proofs.Launch.Ledger
import Groundwork.Proofs.Text.Quoted

/-!
# Refused commands

A command with a NUL in one of its strings is refused before anything is done for it, and the message names the
string. A launch that is not refused at once is never refused, whatever becomes of its pipes and its child and
whatever other launches do in between: `State.Turn` is all that a step can do to a launch, and `Spawn.Of` is what
each turn keeps. Since the message quotes the string, it holds no NUL itself and tells which string it was.
-/

namespace Groundwork

namespace Command

variable {c : Command} {string : Bytes}

/-- The string holds a NUL and none before it does, the program coming first. -/
def IsFirstWithNul (c : Command) (string : Bytes) : Prop :=
  ∃ before after, c.program :: c.argv = before ++ string :: after ∧ (0 : UInt8) ∈ string ∧ ∀ s ∈ before, (0 : UInt8) ∉ s

theorem firstWithNul?_eq_some_iff : c.firstWithNul? = some string ↔ c.IsFirstWithNul string := by
  rw [firstWithNul?, List.find?_eq_some_iff_append, IsFirstWithNul]
  constructor
  · rintro ⟨h0, before, after, hsplit, hbefore⟩
    refine ⟨before, after, hsplit, List.contains_iff_mem.1 h0, ?_⟩
    intro s hs hs0
    have hnot := hbefore s hs
    rw [List.contains_iff_mem.2 hs0] at hnot
    cases hnot
  · rintro ⟨before, after, hsplit, h0, hbefore⟩
    refine ⟨List.contains_iff_mem.2 h0, before, after, hsplit, ?_⟩
    intro s hs
    rw [Bool.not_eq_true', ← Bool.not_eq_true, List.contains_iff_mem]
    exact hbefore s hs

theorem exists_isFirstWithNul_iff : (∃ string, c.IsFirstWithNul string) ↔ c.HasNul := by
  constructor
  · rintro ⟨string, before, after, hsplit, h0, -⟩
    exact ⟨string, by rw [hsplit]; exact List.mem_append_right _ List.mem_cons_self, h0⟩
  · intro h
    obtain ⟨string, hstring, -⟩ := exists_check_of_hasNul h
    exact ⟨string, firstWithNul?_eq_some_iff.1 hstring⟩

theorem prepare_of_check (h : c.check = .ok ()) : c.prepare = .ok (c.program, c.argv) := by
  apply prepare_of_not_hasNul
  intro hnul
  obtain ⟨string, -, hcheck⟩ := exists_check_of_hasNul hnul
  rw [h] at hcheck
  cases hcheck

end Command

namespace LaunchError

variable (shown : Char → Bool) (string : Bytes)

theorem message_invalidArgument (text : String) : (invalidArgument text).message = "Invalid argument: " ++ text := rfl

theorem message_containsNul : (containsNul shown string).message =
    "Invalid argument: \"" ++ String.ofList (Quoted.body shown string) ++ "\" contains a NUL byte" := by
  have hquoted : Quoted.text shown string = "\"" ++ String.ofList (Quoted.body shown string) ++ "\"" := by
    rw [← String.toList_inj]
    simp only [Quoted.text, String.toList_append, String.toList_ofList]
    rfl
  have hopen : "Invalid argument: \"" = "Invalid argument: " ++ "\"" := by decide
  have hclose : "\" contains a NUL byte" = "\"" ++ " contains a NUL byte" := by decide
  rw [containsNul, message_invalidArgument, hquoted, hopen, hclose]
  simp only [String.append_assoc]

theorem zero_notMem_message : Char.ofNat 0 ∉ (containsNul shown string).message.toList := by
  simp only [message_containsNul, String.toList_append, String.toList_ofList, List.mem_append, not_or]
  exact ⟨⟨by decide, Quoted.zero_notMem_body shown string⟩, by decide⟩

theorem encode_message_ne_nil : (containsNul shown string).message.toList.flatMap String.utf8EncodeChar ≠ [] := by
  rw [containsNul, message_invalidArgument, String.toList_append, List.flatMap_append]
  exact List.append_ne_nil_of_left_ne_nil (by decide) _

theorem message_containsNul_injective : Function.Injective fun string => (containsNul shown string).message := by
  intro s t h
  have hlist := congrArg String.toList h
  simp only [containsNul, message_invalidArgument, String.toList_append] at hlist
  have hquoted := List.append_cancel_right (List.append_cancel_left hlist)
  exact Quoted.text_injective shown (String.toList_injective hquoted)

end LaunchError

namespace Launch

/-- The result of a launch, as soon as it is settled. -/
def Phase.result? : Phase → Option (Except LaunchError Handles)
  | .opening _ => none
  | .forking _ => none
  | .closing _ result => some result
  | .finished result => some result

namespace Spawn

/-- Where a launch of a command can stand: it is refused when it begins, or it is never refused. -/
inductive Of (c : Command) : Spawn → Prop
  | refused {string : Bytes} (h : c.IsFirstWithNul string) :
    Of c ⟨c, .finished (.error (.containsNul Glyph.isShown string)), []⟩
  | accepted {phase : Phase} {kept : List Stream} (h : ¬ c.HasNul)
    (hphase : ∀ text, phase.result? ≠ some (.error (.invalidArgument text))) : Of c ⟨c, phase, kept⟩

variable {c : Command} {sp sp' : Spawn} {caller caller' : Caller} {fork : Except OsError ℕ} {child : Option Pipes}

theorem of_begin (c : Command) : (begin c).Of c := by
  by_cases h : c.HasNul
  · obtain ⟨string, hstring, hbegin⟩ := exists_begin_of_hasNul h
    rw [hbegin]
    exact .refused (Command.firstWithNul?_eq_some_iff.1 hstring)
  · rw [begin_of_not_hasNul h]
    exact .accepted h nofun

theorem result?_next (made : List (ℕ × ℕ)) : (next made).result? = none := by
  unfold next
  split <;> rfl

theorem Of.advance (hsp : sp.Of c) (h : sp.advance fork caller = some (caller', sp', child)) : sp'.Of c := by
  cases hsp with
  | refused hfirst => cases h
  | @accepted phase kept hnul hphase =>
    unfold Spawn.advance at h
    cases phase with
    | opening made =>
      dsimp only at h
      split at h
      · cases h
        exact .accepted hnul fun text => by rw [result?_next]; nofun
      · cases h
        exact .accepted hnul nofun
    | forking p =>
      cases fork with
      | ok pid =>
        cases h
        exact .accepted hnul nofun
      | error e =>
        cases h
        exact .accepted hnul nofun
    | closing pending result =>
      cases pending with
      | nil =>
        cases h
        exact .accepted hnul hphase
      | cons d pending =>
        cases h
        exact .accepted hnul hphase
    | finished result => cases h

theorem Of.drop {handles : Handles} {kept kept' : List Stream} {command : Command}
    (hsp : Of c ⟨command, .finished (.ok handles), kept⟩) : Of c ⟨command, .finished (.ok handles), kept'⟩ := by
  cases hsp with
  | accepted hnul hphase => exact .accepted hnul hphase

theorem Of.eq_of_isFirstWithNul {string : Bytes} (hsp : sp.Of c) (h : c.IsFirstWithNul string) :
    sp = ⟨c, .finished (.error (.containsNul Glyph.isShown string)), []⟩ := by
  cases hsp with
  | accepted hnul => exact absurd (Command.exists_isFirstWithNul_iff.1 ⟨string, h⟩) hnul
  | refused h' =>
    rw [← Command.firstWithNul?_eq_some_iff] at h h'
    rw [h] at h'
    cases h'
    rfl

theorem Of.hasNul {text : String} (hsp : sp.Of c) (h : sp.phase = .finished (.error (.invalidArgument text))) :
    c.HasNul := by
  cases hsp with
  | refused hfirst => exact Command.exists_isFirstWithNul_iff.1 ⟨_, hfirst⟩
  | accepted _ hphase => exact absurd (congrArg Phase.result? h) (hphase text)

end Spawn

namespace State

variable {runnable : Command → Bool} {s s' : State} {a : Action} {acts : List Action} {i : ℕ} {c : Command}
  {string : Bytes}

def run (runnable : Command → Bool) (s : State) (acts : List Action) : Option State :=
  acts.foldlM (fun s a => s.step runnable a) s

theorem run_cons_eq_some_iff :
    s.run runnable (a :: acts) = some s' ↔ ∃ m, s.step runnable a = some m ∧ m.run runnable acts = some s' := by
  rw [run, List.foldlM_cons, Option.bind_eq_bind, Option.bind_eq_some_iff]
  rfl

theorem run_keeps {P : State → Prop} (hstep : ∀ s a s', P s → s.step runnable a = some s' → P s') (h : P s)
    (hrun : s.run runnable acts = some s') : P s' := by
  induction acts generalizing s with
  | nil =>
    cases hrun
    exact h
  | cons a acts ih =>
    obtain ⟨m, hfirst, hrest⟩ := run_cons_eq_some_iff.1 hrun
    exact ih (hstep s a m h hfirst) hrest

def Launches (s : State) (i : ℕ) (c : Command) : Prop := ∃ sp, s.spawns i = some sp ∧ sp.Of c

/-- What a step can do to launch `i`. -/
inductive Turn (s s' : State) (i : ℕ) : Spawn → Spawn → Prop
  | stays (sp : Spawn) : Turn s s' i sp sp
  | advances {sp sp' : Spawn} {caller : Caller} {child : Option Pipes}
    (h : sp.advance (.ok s.nextPid) s.caller = some (caller, sp', child)) (hs : s' = s.settle i (caller, sp', child)) :
    Turn s s' i sp sp'
  | refuses (command : Command) (p : Pipes) (kept : List Stream) (e : OsError) :
    Turn s s' i ⟨command, .forking p, kept⟩
      ⟨command, .closing (Spawn.unwind [p.stdin, p.stdout, p.stderr]) (.error (.fork e)), kept⟩
  | drops (command : Command) (handles : Handles) (kept kept' : List Stream) :
    Turn s s' i ⟨command, .finished (.ok handles), kept⟩ ⟨command, .finished (.ok handles), kept'⟩

theorem exists_turn_set {j : ℕ} {sp spj spj' : Spawn} (hi : s.spawns i = some sp) (hj : s.spawns j = some spj)
    (hspawns : s'.spawns = s.spawns.set j (some spj')) (hturn : i = j → Turn s s' i spj spj') :
    ∃ sp', s'.spawns i = some sp' ∧ Turn s s' i sp sp' := by
  rw [hspawns]
  by_cases hij : i = j
  · subst hij
    rw [hi] at hj
    cases hj
    exact ⟨spj', Family.set_self _ _ _, hturn rfl⟩
  · exact ⟨sp, (Family.set_of_ne _ hij _).trans hi, .stays sp⟩

theorem exists_turn (hstep : s.step runnable a = some s') {sp : Spawn} (hi : s.spawns i = some sp) :
    ∃ sp', s'.spawns i = some sp' ∧ Turn s s' i sp sp' := by
  cases a with
  | begin j command =>
    obtain ⟨hj, rfl⟩ := begin_eq_some hstep
    have hij : i ≠ j := fun hij => by rw [hij, hj] at hi; cases hi
    exact ⟨sp, (Family.set_of_ne _ hij _).trans hi, .stays sp⟩
  | advance j =>
    obtain ⟨spj, ⟨caller, spj', child⟩, hj, hadvance, rfl⟩ := advance_eq_some hstep
    refine exists_turn_set hi hj (Ledger.settle_fields s j caller spj' child).2 ?_
    rintro rfl
    exact .advances hadvance rfl
  | refuse j e =>
    obtain ⟨command, p, kept, hj, rfl⟩ := refuse_eq_some hstep
    exact exists_turn_set hi hj rfl fun _ => .refuses command p kept e
  | child pid =>
    obtain ⟨child, child', -, -, rfl⟩ := child_eq_some hstep
    exact ⟨sp, hi, .stays sp⟩
  | drop j stream =>
    obtain ⟨command, handles, kept, hj, -, rfl⟩ := drop_eq_some hstep
    exact exists_turn_set hi hj rfl fun _ => .drops command handles kept _

theorem Launches.step (h : s.Launches i c) (hstep : s.step runnable a = some s') : s'.Launches i c := by
  obtain ⟨sp, hi, hof⟩ := h
  obtain ⟨sp', hi', hturn⟩ := exists_turn hstep hi
  refine ⟨sp', hi', ?_⟩
  cases hturn with
  | stays => exact hof
  | advances hadvance => exact hof.advance hadvance
  | refuses command p kept e =>
    have hadvance : Spawn.advance (.error e) s.caller ⟨command, .forking p, kept⟩ = some (s.caller,
      ⟨command, .closing (Spawn.unwind [p.stdin, p.stdout, p.stderr]) (.error (.fork e)), kept⟩, none) := rfl
    exact hof.advance hadvance
  | drops => exact hof.drop

theorem launches_of_run (hrun : s.run runnable (.begin i c :: acts) = some s') : s'.Launches i c := by
  obtain ⟨m, hbegin, hrest⟩ := run_cons_eq_some_iff.1 hrun
  obtain ⟨-, rfl⟩ := begin_eq_some hbegin
  exact run_keeps (fun _ _ _ h => Launches.step h) ⟨_, Family.set_self _ _ _, Spawn.of_begin c⟩ hrest

theorem spawn_of_isFirstWithNul (hi : s.spawns i = none) (h : c.IsFirstWithNul string) :
    (s.spawn i c).1 = some (.error (.containsNul Glyph.isShown string)) := by
  obtain ⟨string', hstring', hspawn⟩ := exists_spawn_of_hasNul hi (Command.exists_isFirstWithNul_iff.1 ⟨string, h⟩)
  rw [Command.firstWithNul?_eq_some_iff.2 h] at hstring'
  cases hstring'
  rw [hspawn]

end State

theorem Places.write_containsNul (places : Places) (shown : Char → Bool) (string : Bytes) :
    places.write (.error (.containsNul shown string)) =
      { places with
        error := some ((LaunchError.containsNul shown string).message.toList.flatMap String.utf8EncodeChar) } := by
  rw [Places.write, CString.ofString?_eq_some (LaunchError.zero_notMem_message shown string), Option.getD_some]

/-- A launch is refused exactly when a string of its command holds a NUL, the message names the first of them, and no
later step of anyone refuses it or takes the refusal back. What passes the check is prepared without an error. The
message arrives in full as a NUL-terminated string, and each string has its own, whatever characters show as
themselves. -/
theorem State.refused_by_name (s : State) (i : ℕ) (hi : s.spawns i = none) (c : Command) :
    ((∃ text, (s.spawn i c).1 = some (.error (.invalidArgument text))) ↔ c.HasNul) ∧
    ((∃ string, c.IsFirstWithNul string) ↔ c.HasNul) ∧
    (∀ string, c.IsFirstWithNul string →
      (s.spawn i c).1 = some (.error (.containsNul Glyph.isShown string))) ∧
    (∀ runnable acts s', s.run runnable (.begin i c :: acts) = some s' →
      (∀ string, c.IsFirstWithNul string →
        s'.spawns i = some ⟨c, .finished (.error (.containsNul Glyph.isShown string)), []⟩) ∧
      ∀ text kept, s'.spawns i = some ⟨c, .finished (.error (.invalidArgument text)), kept⟩ → c.HasNul) ∧
    (c.check = .ok () → c.prepare = .ok (c.program, c.argv)) ∧
    ∀ shown : Char → Bool,
      (∀ string, ∃ message bytes, (LaunchError.containsNul shown string).message = message ∧
        message = "Invalid argument: \"" ++ String.ofList (Quoted.body shown string) ++ "\" contains a NUL byte" ∧
        bytes = message.toList.flatMap String.utf8EncodeChar ∧ (0 : UInt8) ∉ bytes ∧ bytes ≠ [] ∧
        CString.ofString? message = some bytes ∧
        ∀ places : Places, places.write (.error (.containsNul shown string)) = { places with error := some bytes }) ∧
      ∀ string string', (LaunchError.containsNul shown string).message =
        (LaunchError.containsNul shown string').message → string = string' := by
  refine ⟨spawn_invalidArgument_iff hi, Command.exists_isFirstWithNul_iff, fun _ => spawn_of_isFirstWithNul hi, ?_,
    Command.prepare_of_check, fun shown => ⟨?_, fun _ _ h => LaunchError.message_containsNul_injective shown h⟩⟩
  · intro runnable acts s' hrun
    obtain ⟨sp, hsp, hof⟩ := launches_of_run hrun
    rw [hsp]
    refine ⟨fun string h => by rw [hof.eq_of_isFirstWithNul h], ?_⟩
    intro text kept h
    cases h
    exact hof.hasNul rfl
  · intro string
    have hzero := LaunchError.zero_notMem_message shown string
    exact ⟨_, _, rfl, LaunchError.message_containsNul shown string, rfl, Utf8.zero_notMem_flatMap hzero,
      LaunchError.encode_message_ne_nil shown string, CString.ofString?_eq_some hzero,
      fun places => places.write_containsNul shown string⟩

/-- Two arguments hold a NUL, and the first of them is named, also when another launch goes on in between. -/
theorem State.refused_by_name_twice :
    let s : State := ⟨⟨⟨8, fun _ => none⟩, 0⟩, ⟨[], []⟩, Family.empty, Family.empty, 7⟩
    let c : Command := ⟨[97], [[98, 0], [255, 0]]⟩
    (s.spawn 0 c).1 = some (.error (.containsNul Glyph.isShown [98, 0])) ∧
    (∃ s', s.run (fun _ => true) [.begin 0 c, .begin 1 ⟨[97], []⟩, .advance 1] = some s' ∧
      s'.spawns 0 = some ⟨c, .finished (.error (.containsNul Glyph.isShown [98, 0])), []⟩) ∧
    (¬ ∃ text, (s.spawn 0 ⟨[97], []⟩).1 = some (.error (.invalidArgument text))) ∧
    (LaunchError.containsNul Glyph.isShown [98, 0]).message ≠
      (LaunchError.containsNul Glyph.isShown [255, 0]).message := by
  intro s c
  obtain ⟨-, -, hnamed, hrun, -, hmessage⟩ := State.refused_by_name s 0 rfl c
  have hfirst : c.IsFirstWithNul [98, 0] := ⟨[[97]], [[255, 0]], rfl, by decide, by decide⟩
  obtain ⟨s', hs'⟩ : ∃ s', s.run (fun _ => true) [.begin 0 c, .begin 1 ⟨[97], []⟩, .advance 1] = some s' := ⟨_, rfl⟩
  refine ⟨hnamed _ hfirst, ⟨s', hs', (hrun _ _ _ hs').1 _ hfirst⟩, ?_, ?_⟩
  · rw [(State.refused_by_name s 0 rfl ⟨[97], []⟩).1]
    decide
  · intro h
    exact absurd ((hmessage Glyph.isShown).2 _ _ h) (by decide)

end Launch

end Groundwork
