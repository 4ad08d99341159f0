import Groundwork.Launch.State

/-!
# Launching into places

A caller without structures hands over the places that the answer of a launch is to be written to: one
for a message, an array for descriptors and one for a process number. A failure writes its message and
nothing else; a success writes null in its place and fills the others.
-/

namespace Groundwork

namespace Launch

/-- What stands in the places of a caller. -/
structure Places where
  /-- A message, or null. -/
  error : Option Bytes
  descriptors : List Int
  pid : Int
deriving DecidableEq, Repr

/-- Writes the result of a launch; a message that holds a NUL would be handed over empty. -/
def Places.write (p : Places) : Except LaunchError Handles → Places
  | .ok h => ⟨none, [(h.stdin : Int), h.stdout, h.stderr] ++ p.descriptors.drop 3, h.pid⟩
  | .error e => { p with error := some ((CString.ofString? e.message).getD []) }

/-- A whole launch of a command that is given by NUL-terminated strings, with its answer in places. -/
def State.spawnInto (s : State) (i : Nat) (program : Bytes) (argv : List Bytes) (p : Places) : Places × State :=
  match s.spawn i (.ofCStrings program argv) with
  | (some result, s) => (p.write result, s)
  | (none, s) => (p, s)

end Launch

end Groundwork
