import Groundwork.Script.Arithmetic
import Groundwork.Script.Basic

/-!
# Parameters and the expansion of words

A word of a script becomes any number of arguments. Text is taken as it is; the value of a parameter
that stands outside quotes is cut at blanks, and makes no argument if nothing is left of it. The quoted
list of all arguments makes one argument of each.
-/

namespace Groundwork

/-- What the parameters of a script stand for. -/
structure Parameters where
  /-- The name under which the shell was started. -/
  name : Bytes
  args : List Bytes
  /-- The number of the process that the script was given to. -/
  pid : Nat
  /-- The exit code of the last command. -/
  status : UInt8
  /-- The process that was last started without being waited for. -/
  background : Option Nat
  bindings : List (Bytes × Bytes)

namespace Parameters

variable (p : Parameters)

/-- The value of the parameter with a name; one that is not set is empty. -/
def value (name : Bytes) : Bytes :=
  match name with
  | [b] =>
    if b = '?'.toUInt8 then Numeral.decimal p.status.toNat
    else if b = '#'.toUInt8 then Numeral.decimal p.args.length
    else if b = '$'.toUInt8 then Numeral.decimal p.pid
    else if b = '!'.toUInt8 then (p.background.map Numeral.decimal).getD []
    else if b = '@'.toUInt8 || b = '*'.toUInt8 then Ascii.spaced p.args
    else if b = '0'.toUInt8 then p.name
    else if Ascii.isDigit b then (p.args[b.toNat - 49]?).getD []
    else (p.bindings.lookup name).getD []
  | name => (p.bindings.lookup name).getD []

/-- The number that a parameter stands for in arithmetic; a text that is none counts as zero. -/
def number (name : Bytes) : Int :=
  let (negative, body) := Ascii.splitSign (p.value name)
  let n : Int := Numeral.value 10 (Numeral.spanDigits 10 body).1
  if negative then -n else n

/-- The value of an arithmetic expression as a text, empty where there is none. -/
def computed (s : Bytes) : Bytes := ((Arithmetic.value? p.number s).map Numeral.decimalInt).getD []

def assign (name value : Bytes) : Parameters :=
  { p with bindings := (name, value) :: p.bindings.filter (·.1 ≠ name) }

end Parameters

/-- Arguments in the making: those that are complete, the last first, and the one that is open. -/
structure Expansion where
  complete : List Bytes
  current : Option Bytes

namespace Expansion

def empty : Expansion := ⟨[], none⟩

variable (e : Expansion)

/-- Adds text to the open argument. -/
def add (s : Bytes) : Expansion := { e with current := some (e.current.getD [] ++ s) }

/-- Completes the open argument. -/
def cut : Expansion :=
  match e.current with
  | some s => ⟨s :: e.complete, none⟩
  | none => e

/-- The bytes that separate arguments. -/
def isBlank (b : UInt8) : Bool := b = 32 || b = 9 || b = 10

/-- Adds text that is cut at blanks. -/
def addSplit (s : Bytes) : Expansion :=
  s.foldl (fun e b => if isBlank b then e.cut else e.add [b]) e

/-- Adds several texts, completing an argument between them. -/
def addEach (add : Expansion → Bytes → Expansion) (e : Expansion) : List Bytes → Expansion
  | [] => e
  | [s] => add e s
  | s :: ss => addEach add (add e s).cut ss

def addPiece (p : Parameters) : Piece → Expansion
  | .text s _ => e.add s
  | .parameter name quoted =>
    if name = ['@'.toUInt8] then addEach (if quoted then add else addSplit) e p.args
    else if name = ['*'.toUInt8] && !quoted then addEach addSplit e p.args
    else if quoted then e.add (p.value name)
    else e.addSplit (p.value name)
  | .arithmetic s quoted => if quoted then e.add (p.computed s) else e.addSplit (p.computed s)

def arguments : List Bytes := e.cut.complete.reverse

end Expansion

namespace Word

/-- The arguments that a word stands for. -/
def arguments (p : Parameters) (w : Word) : List Bytes :=
  if p.args = [] && w = [.text [] true, .parameter ['@'.toUInt8] true] then []
  else (w.foldl (·.addPiece p) Expansion.empty).arguments

/-- The text that a word stands for where it is not cut. -/
def value (p : Parameters) (w : Word) : Bytes :=
  w.flatMap fun
    | .text s _ => s
    | .parameter name _ => p.value name
    | .arithmetic s _ => p.computed s

end Word

end Groundwork
