import Groundwork.Utility.Basic
import Groundwork.Utility.Pattern
import Groundwork.Utility.Printing

/-!
# Whole texts

What the utilities that need all of their input make of it: lines in order, lines with a match, lines
with a match replaced, and counts. Here too are the sets of bytes by which `tr` replaces one byte by
another.
-/

namespace Groundwork

namespace Utility

/-- A line without its end. -/
def bare (l : Bytes) : Bytes := if l.getLast? = some 10 then l.dropLast else l

/-- Whether a line comes before another. -/
def lineLe : Bytes → Bytes → Bool
  | [], _ => true
  | _ :: _, [] => false
  | a :: s, b :: t => a < b || (a = b && lineLe s t)

/-- The lines of a text in ascending order of their bytes. -/
def sorted (reverse : Bool) (s : Bytes) : Bytes :=
  let inOrder := ((lines s).map bare).mergeSort lineLe
  ((if reverse then inOrder.reverse else inOrder).map (· ++ [10])).flatten

/-- The lines of a text with a match, or without one if `inverted` is set; there is none where the exit
code is 1. -/
def matching (inverted : Bool) (p : Pattern) (s : Bytes) : Bytes × UInt8 :=
  let kept := ((lines s).map bare).filter fun l => (p.find? l).isSome != inverted
  ((kept.map (· ++ [10])).flatten, if kept = [] then 1 else 0)

/-- The bytes of a set as it is given to `tr`. -/
def byteSet : Nat → Bytes → Bytes
  | 0, _ => []
  | _, [] => []
  | fuel + 1, b :: s =>
    let (first, rest) :=
      if b = '\\'.toUInt8 then
        match Printing.octal 3 s with
        | some r => r
        | none =>
          match s with
          | c :: s => ((Printing.letterEscape? c).getD c, s)
          | [] => (b, [])
      else (b, s)
    match rest with
    | hyphen :: last :: more =>
      if hyphen = '-'.toUInt8 && first ≤ last then
        (List.range (last.toNat - first.toNat + 1)).map (fun i => first + UInt8.ofNat i)
          ++ byteSet fuel more
      else first :: byteSet fuel rest
    | rest => first :: byteSet fuel rest

/-- The byte that `tr` puts in the place of another: the last of the second set stands for all that
the set lacks. -/
def exchange (fromSet toSet : Bytes) (b : UInt8) : UInt8 :=
  match fromSet.idxOf? b with
  | none => b
  | some i => (toSet[i]?.or toSet.getLast?).getD b

/-- A substitution command of the stream editor: the pattern, the replacement, and whether lines with
a match are printed. -/
def substitution? (s : Bytes) : Option (Pattern × Bytes × Bool) :=
  match s with
  | a :: d :: s =>
    if a ≠ 's'.toUInt8 then none
    else
      let pattern := s.takeWhile (· ≠ d)
      let s := (s.dropWhile (· ≠ d)).tail
      let replacement := s.takeWhile (· ≠ d)
      let flags := (s.dropWhile (· ≠ d)).tail
      (Pattern.ofBytes? pattern).map (·, replacement, flags.contains 'p'.toUInt8)
  | _ => none

/-- What the stream editor prints of a text. -/
def substituted (silent : Bool) (p : Pattern) (replacement : Bytes) (printed : Bool) (s : Bytes) :
    Bytes :=
  (lines s).flatMap fun l =>
    let close (t : Bytes) := if l.getLast? = some 10 then t ++ [10] else t
    match p.replace? replacement (bare l) with
    | some t => (if printed then close t else []) ++ (if silent then [] else close t)
    | none => if silent then [] else l

/-- The numbers from `a` to `b` in steps, a line each. -/
def counted (a step b : Nat) : Bytes :=
  if b < a then []
  else (List.range ((b - a) / (max step 1) + 1)).flatMap fun i => Numeral.decimal (a + i * step) ++ [10]

end Utility

end Groundwork
