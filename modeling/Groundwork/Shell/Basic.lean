import Groundwork.Descriptor.Files
import Groundwork.Script.Expansion
import Groundwork.Script.Parser
import Groundwork.Utility.Basic
import Groundwork.Waiting.Outcome

/-!
# The shell

A shell works off a stack of frames, each of which says what is to be done next. What it does with one
is a `Request`: it goes on, perhaps after printing, or it asks the system for something and says how it
goes on with the answer.
-/

namespace Groundwork

/-- One thing that a shell has to do. -/
inductive Frame
  /-- Runs a script; nothing comes after it if `last` is set. -/
  | run (a : Script) (last : Bool)
  /-- Runs a script if the last command has succeeded, or with `expected` false failed. -/
  | runIf (expected : Bool) (a : Script) (last : Bool)
  | negate
  | choose (yes no : Script) (last : Bool)
  /-- Goes through a loop once more, whose body has just run. -/
  | again (expected : Bool) (condition body : Script)
  /-- Goes on with a loop whose condition has just run; `result` is the status of the body so far. -/
  | decide (expected : Bool) (condition body : Script) (result : UInt8)
  | forEach (name : Bytes) (items : List Bytes) (body : Script)
  /-- Waits for processes in the foreground. -/
  | await (pids : List Nat)
  /-- Waits for processes in the background, which a command has `named` one by one or not. -/
  | collect (pids : List Nat) (named : Bool)
  /-- Reads a line into variables. -/
  | readLine (file : File) (names : List Bytes) (raw : Bool) (line : Bytes)
  /-- Reads more of the script from the standard input. -/
  | fetch
  /-- Sends a signal to processes. -/
  | send (signal : Nat) (pids : List Nat)
  /-- Goes back to the files that were open before. -/
  | reopen (files : Files)
  /-- Complains on the standard error. -/
  | complain (s : Bytes)
  | restore (status : UInt8)
  | leave (code : UInt8)

/-- Whether a frame belongs to a loop that is under way. -/
def Frame.isLoop : Frame → Bool
  | .again .. => true
  | .decide .. => true
  | .forEach .. => true
  | _ => false

/-- Whether a frame goes back to other open files. -/
def Frame.isReopen : Frame → Bool
  | .reopen _ => true
  | _ => false

structure Shell where
  parameters : Parameters
  todo : List Frame
  /-- What is to be run when a signal arrives, and with number zero when the shell exits. -/
  traps : List (Nat × Bytes)
  /-- The processes that were started without being waited for. -/
  jobs : List Nat
  /-- The part of a script on the standard input that has been read and not been run. -/
  unread : Bytes
  /-- Whether the standard input has ended. -/
  ended : Bool

namespace Shell

/-- What a shell does next, and how it goes on. -/
inductive Request
  /-- Goes on, having printed something. -/
  | go (s : Shell) (printed : List (File × Bytes))
  /-- Goes on with other open files. -/
  | reopen (s : Shell) (files : Files)
  /-- Becomes another program, or if it cannot be run complains why and exits. -/
  | become (files : Files) (argv : List Bytes) (complain : String → Bytes)
  /-- Starts shells whose inputs and outputs are joined by pipes. -/
  | fork (stages : List Shell) (background : Bool) (next : List Nat → Shell)
  /-- Waits for a process, which may turn out not to be there. -/
  | await (pid : Nat) (next : Option Status → Shell)
  /-- Reads from a file, up to the end of a line if `line` is set. -/
  | take (file : File) (line : Bool) (next : Option Bytes → Shell)
  /-- Sends a signal and is told whether there is such a process. -/
  | signal (pid signal : Nat) (next : Bool → Shell)
  /-- Ignores signals, or ceases to. -/
  | ignore (signals : List Nat) (flag : Bool) (next : Shell)
  | exit (code : UInt8)

variable (s : Shell)

def withStatus (code : UInt8) : Shell :=
  { s with parameters := { s.parameters with status := code } }

/-- The shell with something else to be done first. -/
def push (fs : List Frame) : Shell := { s with todo := fs ++ s.todo }

def complaint (text : String) : Bytes :=
  s.parameters.name ++ Utility.ascii (": 1: " ++ text ++ "\n")

/-- Goes on with a status after printing to a descriptor. -/
def done (files : Files) (code : UInt8) (fd : Nat) (text : Bytes) : Request :=
  .go (s.withStatus code) ((files.get? fd).toList.map (·, text))

/-- Goes on with a status. -/
def quietly (code : UInt8) : Request := .go (s.withStatus code) []

/-- Exits after running what is to be run then. -/
def leaving (code : UInt8) : Request :=
  match (s.traps.lookup 0).bind Script.ofBytes? with
  | some a =>
    .go { s.withStatus code with
      traps := s.traps.filter (·.1 ≠ 0), todo := [.run a false, .leave code] } []
  | none => .exit code

/-- Exits with a status after a complaint. -/
def failing (files : Files) (code : UInt8) (text : String) : Request :=
  { s with todo := [.leave code] }.done files code 2 (s.complaint text)

/-- Runs the script that a text is. -/
def running (files : Files) (text : Bytes) : Request :=
  match Script.ofBytes? text with
  | some a => .go (s.push [.run a false]) []
  | none => s.failing files 2 "Syntax error: end of file unexpected"

/-- A shell that runs a script as a process of its own. -/
def child (a : Script) : Shell :=
  { s with todo := [.run a true], traps := [], jobs := [], unread := [], ended := true }

/-- The shells of the commands that are joined by pipes. -/
def stages : Script → List Shell
  | .pipe a b => s.child a :: stages b
  | a => [s.child a]

end Shell

end Groundwork
