import Groundwork.Launch.Child
import Groundwork.System.Family

/-!
# Launches at the same time

The state of all launches of a process and of the children that they have brought into being, and one
step of any of them. `State.spawn` is a whole launch with nothing between its steps.
-/

namespace Groundwork

namespace Launch

/-- The state of a process that launches programs from several threads, and of the children it has
launched; both are told apart by number. -/
structure State where
  caller : Caller
  signals : Signals
  spawns : Family Spawn
  children : Family Child
  nextPid : Nat

/-- One step of one participant. -/
inductive Action
  /-- A thread begins to launch a command as launch number `launch`. -/
  | begin (launch : Nat) (c : Command)
  /-- The launch takes its next step. -/
  | advance (launch : Nat)
  /-- The launch cannot split the process. -/
  | refuse (launch : Nat) (e : OsError)
  /-- The child takes its next step. -/
  | child (pid : Nat)
  /-- The caller closes its end of a stream of a launch that has succeeded. -/
  | drop (launch : Nat) (stream : Stream)

namespace State

variable (s : State)

/-- The state after a step of launch `i`. -/
def settle (i : Nat) : Caller × Spawn × Option Pipes → State
  | (caller, spawn, child) =>
    let s := { s with caller := caller, spawns := s.spawns.set i (some spawn) }
    match child with
    | none => s
    | some p =>
      { s with
        children :=
          s.children.set s.nextPid (some (.begin spawn.command s.caller.table s.signals p))
        nextPid := s.nextPid + 1 }

/-- The state after an action, if the action can happen; `runnable` tells which commands the system
can run. -/
def step (runnable : Command → Bool) (a : Action) : Option State :=
  match a with
  | .begin i c =>
    if (s.spawns i).isNone then some { s with spawns := s.spawns.set i (some (.begin c)) }
    else none
  | .advance i => do
    let spawn ← s.spawns i
    return s.settle i (← spawn.advance (.ok s.nextPid) s.caller)
  | .refuse i e => do
    let spawn ← s.spawns i
    match spawn.phase with
    | .forking _ => return s.settle i (← spawn.advance (.error e) s.caller)
    | _ => none
  | .child pid => do
    let c ← s.children pid
    return { s with children := s.children.set pid (some (← c.advance runnable)) }
  | .drop i stream => do
    let spawn ← s.spawns i
    match spawn.phase with
    | .finished (.ok h) =>
      if stream ∈ spawn.kept then
        return { s with
          caller := { s.caller with table := s.caller.table.close (h.get stream) }
          spawns := s.spawns.set i (some { spawn with kept := spawn.kept.erase stream }) }
      else none
    | _ => none

/-- Takes all the steps of launch `i` that are left, up to `fuel` of them. -/
def finish (i : Nat) : Nat → State → State
  | 0, s => s
  | fuel + 1, s =>
    match s.step (fun _ => true) (.advance i) with
    | some s => finish i fuel s
    | none => s

/-- Takes all the steps of the child that are left before its program starts. -/
def startChild (runnable : Command → Bool) (pid : Nat) : Nat → State → State
  | 0, s => s
  | fuel + 1, s =>
    match s.step runnable (.child pid) with
    | some s => startChild runnable pid fuel s
    | none => s

/-- The most steps that a launch takes: three pipes, a split, six closings and the return. -/
def spawnSteps : Nat := 11

/-- The most steps that a child takes: three redirections and their end, the signals, the program. -/
def childSteps : Nat := 6

/-- A whole launch without any other thread between its steps: the result, and the state. -/
def spawn (i : Nat) (c : Command) : Option (Except LaunchError Handles) × State :=
  match s.step (fun _ => true) (.begin i c) with
  | none => (none, s)
  | some s =>
    let s := finish i spawnSteps s
    match s.spawns i with
    | some ⟨_, .finished result, _⟩ => (some result, s)
    | _ => (none, s)

end State

end Launch

end Groundwork
