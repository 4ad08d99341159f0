import Groundwork.Clock.Nanoseconds
import Groundwork.Utility.Condition
import Groundwork.Utility.Editing

/-!
# The utilities that there are

`Utility.start` says how the utility with a name starts when it is given arguments and surroundings;
`Utility.names` lists those that there are.
-/

namespace Groundwork

namespace Utility

/-- Prints nothing and exits. -/
def quiet (code : UInt8) : Start := ⟨[], .finish code⟩

def prints (s : Bytes) (code : UInt8) : Start := ⟨[(1, s)], .finish code⟩

def complains (s : String) (code : UInt8) : Start := ⟨[(2, ascii (s ++ "\n"))], .finish code⟩

/-- The arguments that are options, and those that are not. -/
def options (args : List Bytes) : List Bytes × List Bytes :=
  args.partition fun a => a.head? = some '-'.toUInt8 && a.length ≠ 1

/-- The nanoseconds of a text of seconds with an optional fraction and unit. -/
def duration? (s : Bytes) : Option Nat :=
  let (whole, rest) := Numeral.spanDigits 10 s
  let (fraction, rest) :=
    if rest.head? = some '.'.toUInt8 then Numeral.spanDigits 10 rest.tail else ([], rest)
  if whole ++ fraction = [] then none
  else
    let unit := fraction.foldl (fun n _ => n * 10) 1
    let n := Numeral.value 10 (whole ++ fraction) * Nanoseconds.perSecond / unit
    match Ascii.toString rest with
    | "" => some n
    | "s" => some n
    | "m" => some (60 * n)
    | "h" => some (3600 * n)
    | "d" => some (86400 * n)
    | _ => none

/-- Applies a filter to a file, or to the standard input where none is named; a file that cannot be read
is complained of by `missing`. -/
def reading (e : Surroundings) (files : List Bytes) (f : Filter) (missing : String → Start) : Start :=
  match files.filter (· ≠ ascii "-") with
  | [] => ⟨[], .filter f []⟩
  | path :: _ =>
    match e.file? path with
    | none => missing (Ascii.toString path)
    | some s =>
      match f with
      | .each g => prints (s.filterMap g) 0
      | .first n => prints (s.take n) 0
      | .firstLines n => prints ((lines s).take n).flatten 0
      | .whole g => prints (g s).1 (g s).2

/-- A complaint that a file is missing. -/
def noSuchFile (start code : String) (status : UInt8) (path : String) : Start :=
  complains (start ++ path ++ code ++ ": No such file or directory") status

def head (e : Surroundings) (args : List Bytes) : Start :=
  let missing := noSuchFile "head: cannot open '" "' for reading" 1
  match args with
  | option :: count :: files =>
    match number? count with
    | none => complains ("head: invalid number of bytes: '" ++ Ascii.toString count ++ "'") 1
    | some n =>
      if option = ascii "-c" then
        if files = [ascii "/dev/zero"] then ⟨[], .zeros n⟩
        else reading e files (.first n) missing
      else reading e files (.firstLines n) missing
  | files => reading e files (.firstLines 10) missing

def tr : List Bytes → Start
  | [a, b] =>
    let set (s : Bytes) := byteSet (s.length + 1) s
    if a = ascii "-d" then
      let dropped := set b
      ⟨[], .filter (.each fun x => if dropped.contains x then none else some x) []⟩
    else
      let fromSet := set a
      let toSet := set b
      let table := ((List.range 256).map fun i => exchange fromSet toSet (UInt8.ofNat i)).toArray
      ⟨[], .filter (.each fun x => some (table.getD x.toNat x)) []⟩
  | _ => complains "tr: missing operand" 1

def wc (e : Surroundings) (args : List Bytes) : Start :=
  let (options, files) := options args
  let count (s : Bytes) : Nat := if options.contains (ascii "-l") then s.count 10 else s.length
  reading e files (.whole fun s => (Numeral.decimal (count s) ++ [10], 0)) (noSuchFile "wc: " "" 1)

def sed (e : Surroundings) (args : List Bytes) : Start :=
  let (options, rest) := options args
  let silent := options.contains (ascii "-n")
  match rest with
  | [] => complains "Usage: sed [OPTION]... \x7bscript-only-if-no-other-script\x7d [input-file]..." 1
  | script :: files =>
    match substitution? script with
    | none => complains "sed: -e expression #1, char 1: unknown command" 1
    | some (p, replacement, printed) =>
      reading e files (.whole fun s => (substituted silent p replacement printed s, 0))
        (noSuchFile "sed: can't read " "" 2)

def grep (e : Surroundings) (args : List Bytes) : Start :=
  let (options, rest) := options args
  match rest with
  | [] => complains "Usage: grep [OPTION]... PATTERNS [FILE]..." 2
  | pattern :: files =>
    match Pattern.ofBytes? pattern with
    | none => complains "grep: Invalid regular expression" 2
    | some p =>
      let found (s : Bytes) : Bytes × UInt8 := matching (options.contains (ascii "-v")) p s
      let shown (s : Bytes) : Bytes × UInt8 :=
        let (text, code) := found s
        if options.contains (ascii "-q") then ([], code)
        else if options.contains (ascii "-c") then (Numeral.decimal (text.count 10) ++ [10], code)
        else (text, code)
      reading e files (.whole shown) (noSuchFile "grep: " "" 2)

def seq (args : List Bytes) : Start :=
  match args.mapM number? with
  | some [b] => prints (counted 1 1 b) 0
  | some [a, b] => prints (counted a 1 b) 0
  | some [a, step, b] => prints (counted a step b) 0
  | _ => complains "seq: invalid argument" 1

/-- The variables with a name, or all of them. -/
def printenv : List Bytes → Start
  | [] => prints (environment.flatMap fun (n, v) => n ++ '='.toUInt8 :: v ++ [10]) 0
  | name :: _ =>
    match environment.lookup name with
    | some v => prints (v ++ [10]) 0
    | none => quiet 1

def ls (e : Surroundings) (args : List Bytes) : Start :=
  match (options args).2 with
  | [] => quiet 0
  | path :: _ =>
    match e.folder? path with
    | some names => prints (sorted false (names.flatMap (· ++ [10]))) 0
    | none => noSuchFile "ls: cannot access '" "'" 2 (Ascii.toString path)

def tests (e : Surroundings) (args : List Bytes) : Start :=
  match test e args with
  | .ok c => quiet (holds c)
  | .error text => complains ("test: " ++ text) 2

def names : List String :=
  ["true", "false", "echo", "printf", "cat", "sort", "tr", "head", "sleep", "sed", "wc", "test", "[",
   "yes", "grep", "seq", "env", "printenv", "ls"]

/-- How the utility with a name starts. -/
def start (e : Surroundings) (name : Bytes) (args : List Bytes) : Start :=
  match Ascii.toString name with
  | "true" => quiet 0
  | "echo" => prints (Printing.echo args) 0
  | "printf" => prints (Printing.printf args) 0
  | "cat" => reading e (options args).2 (.each some) (noSuchFile "cat: " "" 1)
  | "sort" =>
    reading e (options args).2 (.whole fun s => (sorted (args.contains (ascii "-r")) s, 0))
      (noSuchFile "sort: cannot read: " "" 2)
  | "tr" => tr args
  | "head" => head e args
  | "sleep" =>
    match args.mapM duration? with
    | some [] => complains "sleep: missing operand" 1
    | some ds => ⟨[], .sleep (ds.foldl (· + ·) e.now)⟩
    | none => complains "sleep: invalid time interval" 1
  | "sed" => sed e args
  | "grep" => grep e args
  | "wc" => wc e args
  | "seq" => seq args
  | "env" => printenv []
  | "printenv" => printenv args
  | "ls" => ls e args
  | "yes" => ⟨[], .forever ((if args = [] then ascii "y" else Ascii.spaced args) ++ [10])⟩
  | "test" => tests e args
  | "[" =>
    if args.getLast? = some (ascii "]") then tests e args.dropLast else complains "[: missing ']'" 2
  | _ => quiet 1

end Utility

end Groundwork
