import Groundwork.Text.Numeral

/-!
# Arithmetic in scripts

The value of an arithmetic expression: integers, names and the usual operators, from the loosest binding
to the tightest or, and, equality, order, sum and product. A comparison has the value one or zero. An
expression that is malformed or divides by zero has no value.
-/

namespace Groundwork

namespace Arithmetic

inductive Symbol
  | number (n : Nat)
  | name (s : Bytes)
  | op (s : Bytes)
deriving DecidableEq, Repr

/-- The operators of two bytes. -/
def wideOperators : List Bytes :=
  [Ascii.text ['|', '|'], Ascii.text ['&', '&'], Ascii.text ['=', '='], Ascii.text ['!', '='],
   Ascii.text ['<', '='], Ascii.text ['>', '=']]

/-- The symbols of a text; a dollar sign and braces around a name are skipped. -/
def symbols : Nat → Bytes → List Symbol
  | 0, _ => []
  | _, [] => []
  | fuel + 1, b :: s =>
    if Ascii.isSpace b || (Ascii.text ['$', '\x7b', '\x7d']).contains b then symbols fuel s
    else if Ascii.isDigit b then
      let (ds, rest) := Numeral.spanDigits 10 (b :: s)
      .number (Numeral.value 10 ds) :: symbols fuel rest
    else if Ascii.isWordByte b then
      .name (b :: s.takeWhile Ascii.isWordByte) :: symbols fuel (s.dropWhile Ascii.isWordByte)
    else if wideOperators.contains (b :: s.take 1) then .op (b :: s.take 1) :: symbols fuel s.tail
    else .op [b] :: symbols fuel s

def truth (b : Bool) : Int := if b then 1 else 0

/-- What an operator of a level makes of two values; `none` outside if it is not of that level. -/
def combine? (level : Nat) (op : Bytes) (a b : Int) : Option (Option Int) :=
  match level, Ascii.toString op with
  | 0, "||" => some (truth (a ≠ 0 || b ≠ 0))
  | 1, "&&" => some (truth (a ≠ 0 && b ≠ 0))
  | 2, "==" => some (truth (a = b))
  | 2, "!=" => some (truth (a ≠ b))
  | 3, "<" => some (truth (a < b))
  | 3, ">" => some (truth (b < a))
  | 3, "<=" => some (truth (a ≤ b))
  | 3, ">=" => some (truth (b ≤ a))
  | 4, "+" => some (some (a + b))
  | 4, "-" => some (some (a - b))
  | 5, "*" => some (some (a * b))
  | 5, "/" => some (if b = 0 then none else some (a.tdiv b))
  | 5, "%" => some (if b = 0 then none else some (a.tmod b))
  | _, _ => none

mutual

/-- The value of an expression of a level and the symbols after it. -/
def evaluate (lookup : Bytes → Int) : Nat → Nat → List Symbol → Option (Int × List Symbol)
  | 0, _, _ => none
  | fuel + 1, level, ts =>
    if 5 < level then operand lookup fuel ts
    else do
      let (a, rest) ← evaluate lookup fuel (level + 1) ts
      extend lookup fuel level a rest

/-- Goes on with the operators of a level, which bind to the left. -/
def extend (lookup : Bytes → Int) : Nat → Nat → Int → List Symbol → Option (Int × List Symbol)
  | 0, _, _, _ => none
  | fuel + 1, level, a, .op o :: rest =>
    if (combine? level o 1 1).isSome then do
      let (b, rest) ← evaluate lookup fuel (level + 1) rest
      let c ← (combine? level o a b).join
      extend lookup fuel level c rest
    else some (a, .op o :: rest)
  | _, _, a, rest => some (a, rest)

def operand (lookup : Bytes → Int) : Nat → List Symbol → Option (Int × List Symbol)
  | 0, _ => none
  | _, .number n :: rest => some (n, rest)
  | _, .name s :: rest => some (lookup s, rest)
  | fuel + 1, .op o :: rest =>
    match Ascii.toString o with
    | "-" => (operand lookup fuel rest).map fun (a, rest) => (-a, rest)
    | "+" => operand lookup fuel rest
    | "!" => (operand lookup fuel rest).map fun (a, rest) => (truth (a = 0), rest)
    | "(" => do
      match ← evaluate lookup fuel 0 rest with
      | (a, .op c :: rest) => if c = [41] then some (a, rest) else none
      | _ => none
    | _ => none
  | _, [] => none

end

/-- The value of an expression in which names have values. -/
def value? (lookup : Bytes → Int) (s : Bytes) : Option Int :=
  let ts := symbols (s.length + 1) s
  match evaluate lookup (8 * ts.length + 16) 0 ts with
  | some (a, []) => some a
  | _ => none

end Arithmetic

end Groundwork
