import Groundwork.System.Error
import Groundwork.Text.CString
import Groundwork.Text.Quoted

/-!
# Commands

A command is a program and the argument vector it is to receive, whose first element is by convention
the program's name. A `Builder` collects the arguments one by one and fills in the name at the end. The
system takes both as NUL-terminated strings, so a string with a NUL inside is refused by name.
-/

namespace Groundwork

inductive LaunchError
  /-- A pipe could not be made; those made before it are closed again. -/
  | pipe (e : OsError)
  /-- The process could not be split. -/
  | fork (e : OsError)
  /-- The program or an argument is not to be had as a NUL-terminated string. -/
  | invalidArgument (text : String)
deriving DecidableEq, Repr

def LaunchError.message : LaunchError → String
  | .pipe e => "Failed to create pipe: " ++ e.message
  | .fork e => "Failed to create child process: " ++ e.message
  | .invalidArgument text => "Invalid argument: " ++ text

/-- The refusal of a string that holds a NUL, where `shown` tells which characters show as themselves. -/
def LaunchError.containsNul (shown : Char → Bool) (s : Bytes) : LaunchError :=
  .invalidArgument (Quoted.text shown s ++ " contains a NUL byte")

/-- A program and its argument vector. -/
structure Command where
  program : Bytes
  argv : List Bytes
deriving DecidableEq, Repr

namespace Command

/-- The command of a program and an argument vector; an empty vector is replaced by the program's
name. -/
def ofArgv (program : Bytes) (argv : List Bytes) : Command :=
  ⟨program, if argv = [] then [program] else argv⟩

/-- The command that a caller gives by NUL-terminated strings. -/
def ofCStrings (program : Bytes) (argv : List Bytes) : Command :=
  ofArgv (CString.contents program) (argv.map CString.contents)

/-- The first string of the command that holds a NUL, the program coming first. -/
def firstWithNul? (c : Command) : Option Bytes := (c.program :: c.argv).find? (·.contains 0)

/-- Refuses a command of which some string holds a NUL. -/
def check (c : Command) : Except LaunchError Unit :=
  match c.firstWithNul? with
  | none => .ok ()
  | some s => .error (.containsNul Glyph.isShown s)

/-- A string as the system takes it; the NUL that ends it is left out here. -/
def prepareString (s : Bytes) : Except OsError Bytes :=
  if s.contains 0 then .error .invalidArgument else .ok s

/-- The program and the argument vector as the system takes them. -/
def prepare (c : Command) : Except OsError (Bytes × List Bytes) := do
  let program ← prepareString c.program
  let argv ← c.argv.mapM prepareString
  return (program, argv)

/-- What a launch hands over to the system, unless it refuses the command. -/
def accept (c : Command) : Except LaunchError (Bytes × List Bytes) := do
  c.check
  c.prepare.mapError fun e => .invalidArgument e.message

end Command

/-- A command in the making. -/
structure Builder where
  program : Bytes
  argv0 : Option Bytes
  args : List Bytes
deriving DecidableEq, Repr

namespace Builder

def new (program : Bytes) : Builder := ⟨program, none, []⟩

/-- One addition to a command. -/
inductive Part
  | arg (s : Bytes)
  | args (ss : List Bytes)
  /-- The first element of the argument vector, in place of the program. -/
  | argv0 (s : Bytes)
deriving DecidableEq, Repr

variable (b : Builder)

def add : Part → Builder
  | .arg s => { b with args := b.args ++ [s] }
  | .args ss => { b with args := b.args ++ ss }
  | .argv0 s => { b with argv0 := some s }

def addAll (ps : List Part) : Builder := ps.foldl add b

def argv : List Bytes := b.argv0.getD b.program :: b.args

def command : Command := ⟨b.program, b.argv⟩

end Builder

end Groundwork
