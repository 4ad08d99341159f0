import Groundwork.Text.Numeral

/-!
# Running utilities

A utility is a program with no more to it than what it makes of its input: `Utility` is its state while
it runs. It passes its standard input through a filter, or counts zeros out, or sleeps, or has nothing
left to do but exit. `feed` and `flush` say what a filter makes of a piece of input and of its end.
-/

namespace Groundwork

/-- What is done to the bytes of the standard input. -/
inductive Filter
  /-- Every byte is replaced or dropped by itself. -/
  | each (f : UInt8 → Option UInt8)
  /-- Only so many bytes are passed on. -/
  | first (n : Nat)
  /-- Only so many lines are passed on. -/
  | firstLines (n : Nat)
  /-- The whole input is replaced once it has ended, which also decides the exit code. -/
  | whole (f : Bytes → Bytes × UInt8)

inductive Utility
  | finish (code : UInt8)
  /-- Passes its input on; `held` is the input that is kept back. -/
  | filter (f : Filter) (held : Bytes)
  /-- Prints so many zero bytes. -/
  | zeros (left : Nat)
  /-- Prints a line for ever. -/
  | forever (line : Bytes)
  /-- Sleeps until a time in nanoseconds. -/
  | sleep (wake : Nat)

/-- How a utility starts: what it prints to which descriptors, and what it goes on doing. -/
structure Start where
  output : List (Nat × Bytes)
  rest : Utility

/-- The kinds of files that programs tell apart. -/
inductive FileKind
  | regular
  | program
  | folder
  | pipe
  | device
deriving DecidableEq, Repr

/-- What a program learns of the system. -/
structure Surroundings where
  /-- The time in nanoseconds. -/
  now : Nat
  /-- The contents of a file that can be read. -/
  file? : Bytes → Option Bytes
  /-- The names in a folder that can be read. -/
  folder? : Bytes → Option (List Bytes)
  /-- The kind of the file that a path leads to. -/
  kind? : Bytes → Option FileKind

namespace Utility

/-- The bytes of a text whose characters stand for one byte each. -/
def ascii (s : String) : Bytes := Ascii.text s.toList

/-- The variables that every program is given. -/
def environment : List (Bytes × Bytes) :=
  [(ascii "PATH", ascii "/usr/local/sbin:/usr/local/bin:/usr/sbin:/usr/bin:/sbin:/bin"),
   (ascii "LC_ALL", ascii "C")]

/-- A number that is a text from end to end. -/
def number? (s : Bytes) : Option Nat :=
  match Numeral.spanDigits 10 s with
  | (d :: ds, []) => some (Numeral.value 10 (d :: ds))
  | _ => none

/-- A number with an optional sign that is a text from end to end. -/
def integer? (s : Bytes) : Option Int :=
  let (negative, body) := Ascii.splitSign s
  (number? body).map fun n => if negative then -n else n

/-- The lines of a text, each with its end; the last may lack one. -/
def lines (s : Bytes) : List Bytes :=
  s.foldr (fun b ls => match ls with
    | [] => [[b]]
    | l :: rest => if b = 10 then [b] :: l :: rest else (b :: l) :: rest) []

/-- What a filter makes of a piece of input: what it prints and how it goes on, having nothing more to
read where it is `none`. -/
def feed (f : Filter) (held s : Bytes) : Bytes × Option Utility :=
  match f with
  | .each g => (s.filterMap g, some (.filter f []))
  | .first n => (s.take n, if n ≤ s.length then none else some (.filter (.first (n - s.length)) []))
  | .firstLines n =>
    let k := s.count 10
    if n ≤ k then (((lines s).take n).flatten, none)
    else (s, some (.filter (.firstLines (n - k)) []))
  | .whole _ => ([], some (.filter f (held ++ s)))

/-- What a filter prints at the end of its input, and the exit code. -/
def flush (f : Filter) (held : Bytes) : Bytes × UInt8 :=
  match f with
  | .whole g => g held
  | _ => ([], 0)

end Utility

end Groundwork
