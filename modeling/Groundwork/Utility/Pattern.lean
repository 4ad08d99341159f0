import Groundwork.Text.Ascii

/-!
# Patterns

The regular expressions of the stream editor, as far as they have no groups: bytes, the dot, sets of
bytes, repetition, and the two anchors. The leftmost longest match counts.
-/

namespace Groundwork

/-- What one byte may be. -/
inductive ByteClass
  | any
  | only (b : UInt8)
  | set (negated : Bool) (ranges : List (UInt8 × UInt8))
deriving DecidableEq, Repr

def ByteClass.contains (c : ByteClass) (b : UInt8) : Bool :=
  match c with
  | .any => true
  | .only a => a = b
  | .set negated ranges => (ranges.any fun (lo, hi) => lo ≤ b && b ≤ hi) != negated

/-- A pattern; a `true` beside a class stands for any number of repetitions. -/
structure Pattern where
  atStart : Bool
  parts : List (ByteClass × Bool)
  atEnd : Bool
deriving DecidableEq, Repr

namespace Pattern

/-- The ranges of a set up to its closing bracket. -/
def ranges : Bytes → Option (List (UInt8 × UInt8) × Bytes)
  | [] => none
  | a :: s =>
    if a = ']'.toUInt8 then some ([], s)
    else match s with
      | b :: c :: rest =>
        if b = '-'.toUInt8 && c ≠ ']'.toUInt8 then (ranges rest).map fun (r, s) => ((a, c) :: r, s)
        else (ranges (b :: c :: rest)).map fun (r, s) => ((a, a) :: r, s)
      | s => (ranges s).map fun (r, s) => ((a, a) :: r, s)
termination_by s => s.length

/-- The class that a text starts with. -/
def class? : Bytes → Option (ByteClass × Bytes)
  | [] => none
  | b :: s =>
    if b = '.'.toUInt8 then some (.any, s)
    else if b = '\\'.toUInt8 then
      match s with
      | c :: s => some (.only c, s)
      | [] => none
    else if b = '['.toUInt8 then
      match s with
      | c :: rest =>
        if c = '^'.toUInt8 then (ranges rest).map fun (r, s) => (.set true r, s)
        else (ranges s).map fun (r, s) => (.set false r, s)
      | [] => none
    else some (.only b, s)

/-- The parts of a pattern, and whether it ends at the end of the text. -/
def parts? : Nat → Bytes → Option (List (ByteClass × Bool) × Bool)
  | 0, _ => none
  | _, [] => some ([], false)
  | fuel + 1, s =>
    if s = ['$'.toUInt8] then some ([], true)
    else do
      let (c, rest) ← class? s
      if rest.head? = some '*'.toUInt8 then
        let (ps, e) ← parts? fuel rest.tail
        return ((c, true) :: ps, e)
      else
        let (ps, e) ← parts? fuel rest
        return ((c, false) :: ps, e)

def ofBytes? (s : Bytes) : Option Pattern :=
  let (start, body) := if s.head? = some '^'.toUInt8 then (true, s.tail) else (false, s)
  (parts? (body.length + 1) body).map fun (ps, e) => ⟨start, ps, e⟩

/-- The length of the longest match of the parts at the start of a text. -/
def matchHere (atEnd : Bool) : List (ByteClass × Bool) → Bytes → Option Nat
  | [], s => if atEnd && s ≠ [] then none else some 0
  | (c, false) :: ps, s =>
    match s with
    | b :: s => if c.contains b then (matchHere atEnd ps s).map (· + 1) else none
    | [] => none
  | (c, true) :: ps, s =>
    let run := (s.takeWhile c.contains).length
    (List.range (run + 1)).reverse.findSome? fun k => (matchHere atEnd ps (s.drop k)).map (· + k)

/-- The start and the length of the first match in a text. -/
def find? (p : Pattern) (s : Bytes) : Option (Nat × Nat) :=
  let starts := if p.atStart then [0] else List.range (s.length + 1)
  starts.findSome? fun i => (matchHere p.atEnd p.parts (s.drop i)).map (i, ·)

/-- The text with the first match replaced, if there is one. -/
def replace? (p : Pattern) (replacement s : Bytes) : Option Bytes :=
  (p.find? s).map fun (i, n) => s.take i ++ replacement ++ s.drop (i + n)

end Pattern

end Groundwork
