import Groundwork.Descriptor.Table
import Groundwork.Launch.Command

/-!
# The caller in a launch

A launch makes three pipes, splits the process in two and closes in the caller the ends that belong to
the child. Several threads of the caller share its descriptor table, so a launch is cut into steps, of
which one makes a pipe, splits the process, or closes one descriptor. A launch that fails closes what it
has opened.
-/

namespace Groundwork

namespace Launch

inductive Stream
  | stdin
  | stdout
  | stderr
deriving DecidableEq, Repr

/-- The descriptors of the three pipes of a launch in the caller. -/
structure Pipes where
  stdin : Nat × Nat
  stdout : Nat × Nat
  stderr : Nat × Nat
deriving DecidableEq, Repr

/-- The ends that the child gets, in the order of the descriptors they are to have there. -/
def Pipes.childEnds (p : Pipes) : List Nat := [p.stdin.1, p.stdout.2, p.stderr.2]

/-- What the caller keeps of a launch: its ends of the pipes, and the child's process number. -/
structure Handles where
  stdin : Nat
  stdout : Nat
  stderr : Nat
  pid : Nat
deriving DecidableEq, Repr

/-- The descriptor of the caller's end of a stream. -/
def Handles.get (h : Handles) : Stream → Nat
  | .stdin => h.stdin
  | .stdout => h.stdout
  | .stderr => h.stderr

inductive Phase
  /-- Has made the pipes `made`, at most two, and is about to make another. -/
  | opening (made : List (Nat × Nat))
  /-- Is about to split. -/
  | forking (p : Pipes)
  /-- Closes descriptors before it returns `result`. -/
  | closing (pending : List Nat) (result : Except LaunchError Handles)
  | finished (result : Except LaunchError Handles)

/-- A launch, in progress or over; `kept` are the streams that the caller has not closed. -/
structure Spawn where
  command : Command
  phase : Phase
  kept : List Stream

/-- The part of the caller that its launches share: its table, and the numbers of the next pipe. -/
structure Caller where
  table : Table
  nextPipe : Nat

namespace Spawn

/-- A launch that is about to begin. -/
def begin (c : Command) : Spawn :=
  match c.accept with
  | .ok _ => ⟨c, .opening [], [.stdin, .stdout, .stderr]⟩
  | .error e => ⟨c, .finished (.error e), []⟩

/-- The descriptors of pipes in the order in which they are given up: the last pipe first, and of
each pipe the writing end first. -/
def unwind (made : List (Nat × Nat)) : List Nat := made.reverse.flatMap fun (r, w) => [w, r]

/-- The phase after a number of pipes have been made. -/
def next : List (Nat × Nat) → Phase
  | [a, b, c] => .forking ⟨a, b, c⟩
  | made => .opening made

/-- One step of a launch in the caller; `fork` is what comes of splitting the process. The child that
a step brings into being is told by the ends it has. -/
def advance (fork : Except OsError Nat) (c : Caller) (s : Spawn) :
    Option (Caller × Spawn × Option Pipes) :=
  match s.phase with
  | .opening made =>
    match c.table.pipe? c.nextPipe with
    | some (ends, table) =>
      some (⟨table, c.nextPipe + 1⟩, { s with phase := next (made ++ [ends]) }, none)
    | none =>
      some (c, { s with phase := .closing (unwind made) (.error (.pipe .tooManyFiles)) }, none)
  | .forking p =>
    match fork with
    | .ok pid =>
      some (c, { s with phase := .closing [p.stderr.2, p.stdout.2, p.stdin.1]
                          (.ok ⟨p.stdin.2, p.stdout.1, p.stderr.1, pid⟩) }, some p)
    | .error e =>
      some (c, { s with phase := .closing (unwind [p.stdin, p.stdout, p.stderr])
                          (.error (.fork e)) }, none)
  | .closing (d :: pending) result =>
    some ({ c with table := c.table.close d }, { s with phase := .closing pending result }, none)
  | .closing [] result => some (c, { s with phase := .finished result }, none)
  | .finished _ => none

end Spawn

end Launch

end Groundwork
