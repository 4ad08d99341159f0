import Groundwork.Launch.Places

/-!
# Ways to ask for a launch

A launch is asked for by a command in the making, by a program and an argument vector, or from outside by
NUL-terminated strings, of which the arguments are pointed to by a vector that a null ends. When a child becomes its
program, the system is handed strings in that last form again.
-/

namespace Groundwork

/-- Pointers one after the other in memory, each with the memory from where it points on. -/
abbrev CVector := List (Option Bytes)

namespace CVector

/-- What the pointers before the first null point to. -/
def entries : CVector → List Bytes
  | some memory :: rest => memory :: entries rest
  | _ => []

/-- The vector of pointers to strings that a NUL has been put behind. -/
def ofStrings (ss : List Bytes) : CVector := ss.map (fun s => some (s ++ [0])) ++ [none]

end CVector

namespace Command

/-- What the system is handed to start a program. -/
structure Image where
  program : Bytes
  argv : CVector
deriving DecidableEq, Repr

/-- What is handed over for a command; it is made before the process is split. -/
def image (c : Command) : Except OsError Image := do
  let (program, argv) ← c.prepare
  return ⟨program ++ [0], .ofStrings argv⟩

end Command

namespace Launch

namespace State

variable (s : State) (i : Nat)

/-- The launch of a command in the making. -/
def spawnBuilder (b : Builder) : Option (Except LaunchError Handles) × State := s.spawn i b.command

/-- The launch of a program with an argument vector. -/
def spawnArgv (program : Bytes) (argv : List Bytes) : Option (Except LaunchError Handles) × State :=
  s.spawn i (.ofArgv program argv)

/-- The launch of a program with the arguments that a vector points to. -/
def spawnVector (program : Bytes) (argv : CVector) (p : Places) : Places × State :=
  s.spawnInto i program argv.entries p

end State

end Launch

end Groundwork
