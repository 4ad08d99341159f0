import Groundwork.Utility.Basic

/-!
# Conditions

The conditions of `test`: of texts, of numbers, and of files, joined by `-a` and `-o`, of which the
first binds tighter, negated by `!` and grouped by parentheses. A word after which an operator of two
operands stands is an operand, whatever else it might be.
-/

namespace Groundwork

namespace Utility

/-- The condition of one operand that an operator states, if there is such an operator. -/
def testOne? (e : Surroundings) (op : Bytes) (a : Bytes) : Option Bool :=
  let kind := e.kind? a
  match Ascii.toString op with
  | "-n" => some (a ≠ [])
  | "-z" => some (a = [])
  | "-e" => some kind.isSome
  | "-r" => some kind.isSome
  | "-w" => some kind.isSome
  | "-x" => some (kind = some .program || kind = some .folder)
  | "-s" => some (kind = some .regular || kind = some .program || kind = some .folder)
  | "-p" => some (kind = some .pipe)
  | "-f" => some (kind = some .regular || kind = some .program)
  | "-d" => some (kind = some .folder)
  | "-c" => some (kind = some .device)
  | "-b" => some false
  | "-S" => some false
  | "-t" => some false
  | _ => none

/-- The condition of two operands that an operator states, if there is such an operator. -/
def testTwo? (op : Bytes) (a b : Bytes) : Option (Except String Bool) :=
  let numeric (f : Int → Int → Bool) : Option (Except String Bool) :=
    match integer? a, integer? b with
    | some m, some n => some (.ok (f m n))
    | none, _ => some (.error ("Illegal number: " ++ Ascii.toString a))
    | some _, none => some (.error ("Illegal number: " ++ Ascii.toString b))
  match Ascii.toString op with
  | "=" => some (.ok (a = b))
  | "!=" => some (.ok (a ≠ b))
  | "-eq" => numeric fun m n => m = n
  | "-ne" => numeric fun m n => m ≠ n
  | "-lt" => numeric fun m n => m < n
  | "-le" => numeric fun m n => m ≤ n
  | "-gt" => numeric fun m n => n < m
  | "-ge" => numeric fun m n => n ≤ m
  | _ => none

mutual

/-- A condition with its parts joined by `-o`, and the words after it. -/
def disjunction (e : Surroundings) : Nat → List Bytes → Except String (Bool × List Bytes)
  | 0, _ => .error "too many conditions"
  | fuel + 1, ws => do
    let (a, rest) ← conjunction e fuel ws
    match rest with
    | op :: more =>
      if op = ascii "-o" then
        let (b, rest) ← disjunction e fuel more
        return (a || b, rest)
      else return (a, rest)
    | [] => return (a, [])

/-- A condition with its parts joined by `-a`, and the words after it. -/
def conjunction (e : Surroundings) : Nat → List Bytes → Except String (Bool × List Bytes)
  | 0, _ => .error "too many conditions"
  | fuel + 1, ws => do
    let (a, rest) ← condition e fuel ws
    match rest with
    | op :: more =>
      if op = ascii "-a" then
        let (b, rest) ← conjunction e fuel more
        return (a && b, rest)
      else return (a, rest)
    | [] => return (a, [])

/-- A single condition, and the words after it. -/
def condition (e : Surroundings) : Nat → List Bytes → Except String (Bool × List Bytes)
  | 0, _ => .error "too many conditions"
  | fuel + 1, ws =>
    match ws with
    | [] => .error "argument expected"
    | [a] => .ok (a ≠ [], [])
    | a :: b :: rest =>
      match rest.head?.bind (testTwo? b a) with
      | some result => result.map (·, rest.tail)
      | none =>
        if a = ascii "!" then (condition e fuel (b :: rest)).map fun (c, rest) => (!c, rest)
        else if a = ascii "(" then do
          let (c, rest) ← disjunction e fuel (b :: rest)
          if rest.head? = some (ascii ")") then return (c, rest.tail)
          else .error "closing paren expected"
        else
          match testOne? e a b with
          | some c => .ok (c, rest)
          | none => .ok (a ≠ [], b :: rest)

end

/-- Whether the condition that the arguments of `test` state holds, or what is wrong with them. -/
def test (e : Surroundings) (args : List Bytes) : Except String Bool :=
  if args = [] then .ok false
  else
    match disjunction e (3 * args.length + 3) args with
    | .ok (c, []) => .ok c
    | .ok (_, _ :: _) => .error (Ascii.toString (args.headD []) ++ ": unexpected operator")
    | .error text => .error text

/-- The exit code that says whether a condition holds. -/
def holds (b : Bool) : UInt8 := if b then 0 else 1

end Utility

end Groundwork
