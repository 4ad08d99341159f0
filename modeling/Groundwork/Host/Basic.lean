import Groundwork.Launch.State
import Groundwork.System.Queue
import Groundwork.Shell.Running
import Groundwork.Waiting.Schedule

/-!
# A host and what runs on it

A host runs the programs that one process, the caller, has launched, and those that they start in
turn. It joins the launches, the calls that wait for children, the contents of all pipes, and one record
for every process; a process that has ended keeps its record until its parent has asked for it, where
the caller asks through the calls that wait.
-/

namespace Groundwork

inductive Program
  | shell (s : Shell)
  | utility (u : Utility)

structure Proc where
  /-- The process that started this one; the caller if there is none. -/
  parent : Option Nat
  files : Files
  signals : Launch.Signals
  stopped : Bool
  /-- The signals that have arrived and have had no effect yet. -/
  pending : List Nat
  /-- What is being written, which comes before all else. -/
  output : List (File × Bytes)
  program : Program
  /-- How the process has ended. -/
  status : Option Status

structure Host where
  launch : Launch.State
  waiting : Waiting.State
  /-- The contents of the pipes that are not empty. -/
  contents : List (Nat × Queue)
  procs : List (Nat × Proc)
  nextLaunch : Nat
  nextCall : Nat
  /-- The calls that have not ended. -/
  calls : List Nat

namespace Host

def pipeCapacity : Nat := 65536

def descriptorLimit : Nat := 1024

/-- A host on which the caller has its standard streams open and has launched nothing; it ignores the
signal for broken pipes. -/
def initial : Host where
  launch := {
    caller := ⟨(List.range 3).foldl (fun t d => t.set d (some ⟨.other (d + 1), false⟩))
      (Table.empty descriptorLimit), 0⟩
    signals := ⟨[], [Signal.brokenPipe]⟩
    spawns := .empty
    children := .empty
    nextPid := 1000 }
  waiting := .initial
  contents := []
  procs := []
  nextLaunch := 0
  nextCall := 0
  calls := []

variable (h : Host)

/-- The time in nanoseconds. -/
def now : Nat := h.waiting.now

/-- The host after an action of the calls that wait, if the action can happen. -/
def wait (a : Waiting.Action) : Host :=
  match h.waiting.step a with
  | some w => { h with waiting := w }
  | none => h

def tick (d : Nat) : Host := h.wait (.tick d)

/-! ## Pipes -/

def queue (pipe : Nat) : Queue := (h.contents.lookup pipe).getD .empty

def setQueue (pipe : Nat) (q : Queue) : Host :=
  let others := h.contents.filter (·.1 ≠ pipe)
  { h with contents := if q.size = 0 then others else (pipe, q) :: others }

/-- How many bytes a pipe has room for. -/
def room (pipe : Nat) : Nat := pipeCapacity - (h.queue pipe).size

/-- Whether any process has the file open. -/
def refersTo (f : File) : Bool :=
  h.procs.any (·.2.files.refersTo f) || h.launch.caller.table.refersTo f

/-- Whether what is written to a pipe can be read. -/
def hasReader (pipe : Nat) : Bool := h.refersTo (.pipe ⟨pipe, .reader⟩)

/-- Whether more can be written to a pipe. -/
def hasWriter (pipe : Nat) : Bool := h.refersTo (.pipe ⟨pipe, .writer⟩)

/-! ## Processes -/

def proc? (pid : Nat) : Option Proc := h.procs.lookup pid

def setProc (pid : Nat) (p : Proc) : Host :=
  { h with procs := h.procs.map fun x => if x.1 = pid then (pid, p) else x }

def addProc (pid : Nat) (p : Proc) : Host := { h with procs := h.procs ++ [(pid, p)] }

def removeProc (pid : Nat) : Host := { h with procs := h.procs.filter (·.1 ≠ pid) }

/-- Gives the children of a process that has ended to nobody; those that have ended are forgotten. -/
def orphan (pid : Nat) : Host :=
  let left := h.procs.filter fun (_, c) => !(c.parent = some pid && c.status.isSome)
  { h with
    procs := left.map fun (i, c) =>
      (i, if c.parent = some pid then { c with parent := some 0 } else c) }

def finish (pid : Nat) (status : Status) : Host :=
  match h.proc? pid with
  | none => h
  | some p =>
    let h := h.orphan pid
    match p.parent with
    | none => (h.removeProc pid).wait (.terminate pid status)
    | some parent =>
      if (h.proc? parent).any (·.status.isNone) then
        h.setProc pid { p with files := [], output := [], status := some status }
      else h.removeProc pid

/-- Whether there is a process with the number, running or ended. -/
def isPresent (pid : Nat) : Bool := (h.proc? pid).isSome || (h.waiting.children pid).isSome

end Host

/-- Whether a process runs something of its own when a signal arrives. -/
def Proc.catches (p : Proc) (signal : Nat) : Bool :=
  match p.program with
  | .shell s => s.catches signal
  | .utility _ => false

namespace Host

variable (h : Host)

/-- A signal takes effect on a process that is not stopped. -/
def strike (pid signal : Nat) : Host :=
  match h.proc? pid with
  | none => h
  | some p =>
    if p.status.isSome then h
    else if p.signals.ignored.contains signal then h
    else if p.catches signal then h.setProc pid { p with pending := p.pending ++ [signal] }
    else
      match Signal.action signal with
      | .terminate => h.finish pid (.signaled signal)
      | .stop => h.setProc pid { p with stopped := true }
      | .resume => h
      | .ignore => h

/-- Sends a signal to a process; zero only asks whether there is one. -/
def deliver (pid signal : Nat) : Host :=
  match h.proc? pid with
  | none => h
  | some p =>
    if signal = 0 then h
    else if signal = Signal.resume then
      let h := h.setProc pid { p with stopped := false, pending := [] }
      (p.pending ++ [signal]).foldl (fun h s => h.strike pid s) h
    else if p.stopped && signal ≠ Signal.kill then
      h.setProc pid { p with pending := p.pending ++ [signal] }
    else h.strike pid signal

end Host

end Groundwork
