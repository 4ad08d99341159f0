import Groundwork.Waiting.Step

/-!
# Running calls

One way to put the steps of monitors and calls in order: whichever can be taken is taken, monitors
first, and a sleeping call wakes up when its time has come.
-/

namespace Groundwork

namespace Waiting

namespace State

variable (calls : List Nat) (s : State)

/-- The time at which a call wakes up by itself. -/
def wakeTime? (i : Nat) : Option Nat := (s.calls i).bind fun c =>
  match c.phase with
  | .sleeping _ _ wake => some wake
  | _ => none

/-- The next action of a call: its step, or if it sleeps its waking up. -/
def callAction (i : Nat) : Action :=
  if (s.wakeTime? i).any (· ≤ s.now) then .wake i else .advance i

/-- The actions that may come next. -/
def candidates : List Action :=
  (List.range s.nextMonitor).map .monitor ++ calls.map s.callAction

/-- The state after the first action that can happen. -/
def next? : Option State := (s.candidates calls).findSome? s.step

/-- The state after at most `fuel` actions, in which none can happen if the fuel is enough. -/
def run : Nat → State → State
  | 0, s => s
  | fuel + 1, s =>
    match s.next? calls with
    | some s => run fuel s
    | none => s

/-- More actions than calls and monitors can take without the children's doing. -/
def runFuel : Nat := 64 * (calls.length + s.nextMonitor + 1)

end State

end Waiting

end Groundwork
