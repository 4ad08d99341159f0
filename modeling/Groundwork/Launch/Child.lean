import Groundwork.Launch.Spawn

/-!
# The child in a launch

The child goes on in the copies that it got of the caller's table and signals. It puts its three ends in
the places of the standard streams, goes back to an empty signal mask and the default action for broken
pipes, and becomes the program. A program that cannot be run shows only in the child's exit code.
-/

namespace Groundwork

namespace Launch

/-- Signals as a process treats them: those it has blocked, and those it ignores. -/
structure Signals where
  blocked : List Nat
  ignored : List Nat
deriving DecidableEq, Repr

/-- The signal of a write to a pipe that nobody reads. -/
def brokenPipeSignal : Nat := 13

/-- No signal blocked, and the default action for broken pipes. -/
def Signals.restored (s : Signals) : Signals :=
  ⟨[], s.ignored.filter (· ≠ brokenPipeSignal)⟩

inductive ChildPhase
  /-- Puts its ends, of which `pending` are left, in the places from `target` on. -/
  | redirecting (target : Nat) (pending : List Nat)
  /-- Restores the treatment of signals. -/
  | restoring
  /-- Is about to become the program. -/
  | executing
  /-- Runs the program. -/
  | running
  | exited (code : UInt8)
deriving DecidableEq, Repr

/-- The exit code of a child whose program could not be run. -/
def execFailureStatus : UInt8 := 1

/-- A child from its coming into being to the start of its program. -/
structure Child where
  command : Command
  table : Table
  signals : Signals
  phase : ChildPhase

namespace Child

/-- The child that a launch brings into being. -/
def begin (c : Command) (t : Table) (s : Signals) (p : Pipes) : Child :=
  ⟨c, t, s, .redirecting 0 p.childEnds⟩

/-- Puts the file of descriptor `d` in the place `target`. A descriptor that is in its place already
only has its mark taken off, since copying it onto itself would leave the mark. -/
def redirect? (t : Table) (target d : Nat) : Option Table :=
  if d = target then t.setCloseOnExec? d false else t.dup2? d target

/-- One step of a child; `runnable` tells whether the system can run its command. -/
def advance (runnable : Command → Bool) (c : Child) : Option Child :=
  match c.phase with
  | .redirecting _ [] => some { c with phase := .restoring }
  | .redirecting target (d :: pending) =>
    match redirect? c.table target d with
    | some t => some { c with table := t, phase := .redirecting (target + 1) pending }
    | none => some { c with phase := .exited execFailureStatus }
  | .restoring => some { c with signals := c.signals.restored, phase := .executing }
  | .executing =>
    if runnable c.command then some { c with table := c.table.exec, phase := .running }
    else some { c with phase := .exited execFailureStatus }
  | .running => none
  | .exited _ => none

end Child

end Launch

end Groundwork
