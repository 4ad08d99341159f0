import Groundwork.Shell.Basic
import Groundwork.System.Signal
import Groundwork.Utility.Condition
import Groundwork.Utility.Printing

/-!
# Commands of the shell itself

The commands that a shell runs without starting a process: those that change the shell, and for speed
some that only print or test. `Shell.own?` finds the command with a name.
-/

namespace Groundwork

namespace Shell

variable (s : Shell)

/-- The bytes of a line and whether each has lost its meaning by a backslash before it. -/
def literally (raw : Bool) : Bytes → List (UInt8 × Bool)
  | [] => []
  | b :: rest =>
    if b = '\\'.toUInt8 && !raw then
      match rest with
      | [] => []
      | c :: rest => if c = 10 then literally raw rest else (c, true) :: literally raw rest
    else (b, false) :: literally raw rest

/-- Whether a line goes on after its end: its last bytes are a backslash and a line feed. -/
def continues : Bytes → Bool
  | [] => false
  | b :: rest =>
    if b = '\\'.toUInt8 then
      match rest with
      | [] => false
      | c :: rest => (c = 10 && rest = []) || continues rest
    else continues rest

/-- Gives variables the words of a line, the last of them all that is left. -/
def assignWords (p : Parameters) (line : List (UInt8 × Bool)) : List Bytes → Parameters
  | [] => p
  | [name] =>
    let kept := (line.reverse.dropWhile isGap).reverse
    p.assign name (kept.map (·.1))
  | name :: names =>
    let word := line.takeWhile (!isGap ·)
    assignWords (p.assign name (word.map (·.1))) ((line.dropWhile (!isGap ·)).dropWhile isGap) names
where
  isGap (x : UInt8 × Bool) : Bool := Expansion.isBlank x.1 && !x.2

/-- Ends the reading of a line. -/
def assignLine (names : List Bytes) (raw : Bool) (line : Bytes) (code : UInt8) : Shell :=
  let text := if line.getLast? = some 10 then line.dropLast else line
  let marked := (literally raw text).dropWhile assignWords.isGap
  ({ s with parameters := assignWords s.parameters marked names }).withStatus code

def readCommand (files : Files) (args : List Bytes) : Request :=
  let raw := args.contains (Utility.ascii "-r")
  match args.filter (· ≠ Utility.ascii "-r"), files.get? 0 with
  | [], _ => s.done files 2 2 (s.complaint "read: arg count")
  | names, some f => .go (s.push [.readLine f names raw []]) []
  | _, none => s.quietly 1

/-- The number that an argument is, blanks around it and a sign aside, as far as the shell counts. -/
def number? (a : Bytes) : Option Nat :=
  let (negative, body) := Ascii.splitSign (a.dropWhile Ascii.isSpace)
  match Numeral.spanDigits 10 body with
  | ([], _) => none
  | (ds, rest) =>
    let n := Numeral.value 10 ds
    if rest.all Ascii.isSpace && n ≤ 2147483647 && (!negative || n = 0) then some n else none

/-- Goes on with status 2 after a complaint of a command. -/
def rejected (files : Files) (name text : String) : Request :=
  s.done files 2 2 (s.complaint (name ++ ": " ++ text))

/-- What the shell says of an argument that is no number. -/
def noNumber (a : Bytes) : String := "Illegal number: " ++ Ascii.toString a

/-- The signal with a name or a number. -/
def signal? (name : Bytes) : Option Nat := Signal.ofString? (Ascii.toString name)

/-- The signal that the arguments of `kill` name and the processes it goes to, or what is wrong. -/
def signalAndTargets (args : List Bytes) : Except String (Nat × List Bytes) :=
  match args with
  | (hyphen :: c :: name) :: rest =>
    if hyphen ≠ '-'.toUInt8 then .ok (Signal.terminate, args)
    else
      match signal? (c :: name) with
      | some signal => .ok (signal, rest)
      | none =>
        if c = '-'.toUInt8 then .ok (Signal.terminate, rest)
        else if c = 's'.toUInt8 then
          match if name = [] then rest else name :: rest with
          | [] => .error "No arg for -s option"
          | name :: rest =>
            match signal? name with
            | some signal =>
              .ok (signal, if rest.head? = some (Utility.ascii "--") then rest.tail else rest)
            | none => .error ("invalid signal number or name: " ++ Ascii.toString name)
        else .error ("Illegal option -" ++ Ascii.toString [c])
  | args => .ok (Signal.terminate, args)

/-- How `kill` is to be used. -/
def killUsage : String :=
  "Usage: kill [-s sigspec | -signum | -sigspec] [pid | job]... or\nkill -l [exitstatus]"

def killCommand (files : Files) (args : List Bytes) : Request :=
  match signalAndTargets args with
  | .error text => s.rejected files "kill" text
  | .ok (_, []) => s.rejected files "kill" killUsage
  | .ok (signal, targets) =>
    let known := targets.takeWhile fun a => (number? a).isSome
    let send : Frame := .send signal (known.filterMap number?)
    match targets.drop known.length with
    | [] => .go ((s.withStatus 0).push [send]) []
    | a :: _ =>
      .go (s.push
        [send, .complain (s.complaint ("kill: " ++ noNumber (Ascii.splitSign a).2)), .restore 2]) []

/-- The occasion on which a trap is run, a signal or zero for the end of the shell. -/
def occasion? (name : Bytes) : Option Nat :=
  if Ascii.spells ['e', 'x', 'i', 't'] name then some 0 else signal? name

def trapCommand (args : List Bytes) : Request :=
  let (action, names) := match args with
    | a :: b :: names =>
      if (Utility.number? a).isSome then (Utility.ascii "-", args) else (a, b :: names)
    | names => (Utility.ascii "-", names)
  let known := names.takeWhile fun n => (occasion? n).isSome
  let signals := known.filterMap occasion?
  let kept := s.traps.filter fun t => !signals.contains t.1
  let added := if action = [] || action = Utility.ascii "-" then [] else signals.map (·, action)
  let next := { s.withStatus 0 with traps := added ++ kept }
  .ignore (signals.filter Signal.isCatchable) (action = []) <|
    match names.drop known.length with
    | [] => next
    | n :: _ =>
      next.push [.complain (Utility.ascii ("trap: " ++ Ascii.toString n ++ ": bad trap\n")), .restore 1]

/-- Exits under the name of `exit` or of `return`, which outside of a function are the same. -/
def exitCommand (files : Files) (name : String) (args : List Bytes) : Request :=
  match args with
  | [] => s.leaving s.parameters.status
  | a :: _ =>
    match number? a with
    | some n => s.leaving (UInt8.ofNat n)
    | none => s.failing files 2 (name ++ ": " ++ noNumber a)

/-- What is left to do once `n` loops have been left, or all there are, the last of them going on if
`again` is set; the open files that are to come back on the way come back. -/
def leaveLoops (again : Bool) : Nat → List Frame → List Frame
  | 0, fs => fs
  | n + 1, fs =>
    let inner := fs.takeWhile (!Frame.isLoop ·)
    let files := inner.filter Frame.isReopen
    match fs.drop inner.length with
    | [] => fs
    | f :: rest =>
      if n = 0 || !rest.any Frame.isLoop then files ++ (if again then f :: rest else rest)
      else files ++ leaveLoops again n rest

def loopCommand (files : Files) (name : String) (again : Bool) (args : List Bytes) : Request :=
  match args.head?.map number? with
  | none => .go ({ s with todo := leaveLoops again 1 s.todo }.withStatus 0) []
  | some (some (n + 1)) => .go ({ s with todo := leaveLoops again (n + 1) s.todo }.withStatus 0) []
  | some _ => s.failing files 2 (name ++ ": " ++ noNumber (args.headD []))

def shiftCommand (files : Files) (args : List Bytes) : Request :=
  match number? (args.headD ['1'.toUInt8]) with
  | none => s.failing files 2 ("shift: " ++ noNumber (args.headD []))
  | some n =>
    let p := s.parameters
    if p.args.length < n then s.failing files 2 "shift: can't shift that many"
    else .go ({ s with parameters := { p with args := p.args.drop n } }.withStatus 0) []

def waitCommand (files : Files) (args : List Bytes) : Request :=
  if args = [] then .go ((s.withStatus 0).push [.collect s.jobs false, .restore 0]) []
  else
    match args.find? fun a => (number? a).isNone with
    | some a => s.rejected files "wait" (noNumber a)
    | none => .go ((s.withStatus 127).push [.collect (args.filterMap number?) true]) []

/-- Prints something; where it cannot, the command has failed. -/
def printing (files : Files) (name : String) (text : Bytes) : Request :=
  if text = [] || (files.get? 1).isSome then s.done files 0 1 text
  else s.done files 1 2 (s.complaint (name ++ ": " ++ name ++ ": I/O error"))

def printfCommand (files : Files) (args : List Bytes) : Request :=
  if args = [] then s.rejected files "printf" "usage: printf format [arg ...]"
  else s.printing files "printf" (Printing.printf args)

/-- Tests a condition under one of the two names that this has. -/
def testCommand (e : Surroundings) (files : Files) (name : String) (args : List Bytes) : Request :=
  match Utility.test e args with
  | .ok c => s.quietly (Utility.holds c)
  | .error text => s.rejected files name text

/-- Variables set by words of the form `name=value`. -/
def exportCommand (args : List Bytes) : Request :=
  let set (p : Parameters) (a : Bytes) : Parameters :=
    if a.contains '='.toUInt8 then
      p.assign (a.takeWhile (· ≠ '='.toUInt8)) (a.dropWhile (· ≠ '='.toUInt8)).tail
    else p
  .go ({ s with parameters := args.foldl set s.parameters }.withStatus 0) []

/-- Runs a command of the shell itself, if there is one with the name. -/
def own? (e : Surroundings) (files : Files) (name : Bytes) (args : List Bytes) :
    Option Request :=
  match Ascii.toString name with
  | ":" => some (s.quietly 0)
  | "true" => some (s.quietly 0)
  | "false" => some (s.quietly 1)
  | "echo" => some (s.printing files "echo" (Printing.shellEcho args))
  | "printf" => some (s.printfCommand files args)
  | "test" => some (s.testCommand e files "test" args)
  | "[" =>
    if args.getLast? = some (Utility.ascii "]") then some (s.testCommand e files "[" args.dropLast)
    else some (s.rejected files "[" "missing ]")
  | "read" => some (s.readCommand files args)
  | "kill" => some (s.killCommand files args)
  | "trap" => some (s.trapCommand args)
  | "exit" => some (s.exitCommand files "exit" args)
  | "return" => some (s.exitCommand files "return" args)
  | "wait" => some (s.waitCommand files args)
  | "export" => some (s.exportCommand args)
  | "eval" => some (s.running files (Ascii.spaced args))
  | "shift" => some (s.shiftCommand files args)
  | "break" => some (s.loopCommand files "break" false args)
  | "continue" => some (s.loopCommand files "continue" true args)
  | "exec" =>
    match args with
    | [] => some (.reopen (s.withStatus 0) files)
    | name :: _ =>
      some (.become files args fun why =>
        s.complaint ("exec: " ++ Ascii.toString name ++ ": " ++ why))
  | _ => none

end Shell

end Groundwork
