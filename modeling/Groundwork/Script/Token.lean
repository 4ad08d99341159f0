import Groundwork.Script.Basic

/-!
# Tokens of shell scripts

A script is cut into words and operators. Blanks separate tokens, a `#` at the start of a token begins
a comment, and a number right before a redirection names the descriptor that it redirects.
-/

namespace Groundwork

/-- The kinds of redirection. -/
inductive RedirectKind
  | input
  | output
  | append
  | duplicate
deriving DecidableEq, Repr

inductive Token
  | word (w : Word)
  | redirect (fd : Nat) (kind : RedirectKind)
  /-- An end of line. -/
  | newline
  | semicolon
  | ampersand
  | andIf
  | orIf
  | bar
  | leftParen
  | rightParen
deriving DecidableEq, Repr

namespace Token

/-- The bytes that end a word that is not quoted. -/
def endsWord (b : UInt8) : Bool :=
  b = 32 || b = 9 || b = 10 || (Ascii.text [';', '&', '|', '<', '>', '(', ')']).contains b

/-- The bytes that name a special parameter by themselves. -/
def isSpecialName (b : UInt8) : Bool :=
  Ascii.isDigit b || (Ascii.text ['@', '*', '#', '?', '$', '!', '-']).contains b

/-- The parameter named after a dollar sign, and what follows the name. -/
def parameter? : Bytes → Option (Bytes × Bytes)
  | [] => none
  | b :: s =>
    if b = '\x7b'.toUInt8 then
      match s.dropWhile (· ≠ '\x7d'.toUInt8) with
      | _ :: rest => some (s.takeWhile (· ≠ '\x7d'.toUInt8), rest)
      | [] => none
    else if isSpecialName b then some ([b], s)
    else if Ascii.isLetter b || b = '_'.toUInt8 then
      some (b :: s.takeWhile Ascii.isWordByte, s.dropWhile Ascii.isWordByte)
    else none

/-- The bytes up to the two closing parentheses that belong to `depth` open ones, and what follows. -/
def enclosed : Nat → Bytes → Option (Bytes × Bytes)
  | depth, b :: s =>
    if b = ')'.toUInt8 then
      match depth with
      | 0 => if s.head? = some ')'.toUInt8 then some ([], s.tail) else none
      | depth + 1 => (enclosed depth s).map fun (t, rest) => (b :: t, rest)
    else
      (enclosed (if b = '('.toUInt8 then depth + 1 else depth) s).map fun (t, rest) => (b :: t, rest)
  | _, [] => none

/-- The piece that a dollar sign begins, and what follows it. -/
def dollar? (quoted : Bool) (s : Bytes) : Option (Piece × Bytes) :=
  if s.take 2 = Ascii.text ['(', '('] then
    (enclosed 0 (s.drop 2)).map fun (t, rest) => (.arithmetic t quoted, rest)
  else (parameter? s).map fun (name, rest) => (.parameter name quoted, rest)

/-- What stands between double quotes, of which the first has been read. -/
def doubleQuoted : Nat → Bytes → Option (List Piece × Bytes)
  | 0, _ => none
  | _, [] => none
  | fuel + 1, b :: s =>
    if b = '"'.toUInt8 then some ([], s)
    else if b = '\\'.toUInt8 then
      match s with
      | [] => none
      | c :: s =>
        let kept := if c = 10 then []
          else if (Ascii.text ['$', '"', '\\']).contains c || c = 96 then [c]
          else [b, c]
        (doubleQuoted fuel s).map fun (ps, rest) => (.text kept true :: ps, rest)
    else
      match if b = '$'.toUInt8 then dollar? true s else none with
      | some (p, s) => (doubleQuoted fuel s).map fun (ps, rest) => (p :: ps, rest)
      | none => (doubleQuoted fuel s).map fun (ps, rest) => (.text [b] true :: ps, rest)

/-- The pieces of the word that a text starts with; byte 39 is the single quote. -/
def pieces : Nat → Bytes → Option (List Piece × Bytes)
  | 0, _ => none
  | _, [] => some ([], [])
  | fuel + 1, b :: s =>
    if endsWord b then some ([], b :: s)
    else if b = 39 then
      match s.dropWhile (· ≠ 39) with
      | _ :: rest => (pieces fuel rest).map fun (ps, rest) =>
          (.text (s.takeWhile (· ≠ 39)) true :: ps, rest)
      | [] => none
    else if b = '"'.toUInt8 then do
      let (inner, s) ← doubleQuoted fuel s
      let (ps, rest) ← pieces fuel s
      return (.text [] true :: inner ++ ps, rest)
    else if b = '\\'.toUInt8 then
      match s with
      | [] => some ([.text [b] true], [])
      | c :: s => (pieces fuel s).map fun (ps, rest) =>
          (if c = 10 then ps else .text [c] true :: ps, rest)
    else
      match if b = '$'.toUInt8 then dollar? false s else none with
      | some (p, s) => (pieces fuel s).map fun (ps, rest) => (p :: ps, rest)
      | none => (pieces fuel s).map fun (ps, rest) => (.text [b] false :: ps, rest)

/-- The operator that a text starts with, where `fd` is the number right before it. -/
def operator? (fd : Option Nat) : Bytes → Option (Token × Bytes)
  | [] => none
  | a :: s =>
    let followed (c : Char) := s.head? = some c.toUInt8
    if a = '>'.toUInt8 then
      let fd := fd.getD 1
      if followed '>' then some (.redirect fd .append, s.tail)
      else if followed '&' then some (.redirect fd .duplicate, s.tail)
      else some (.redirect fd .output, s)
    else if a = '<'.toUInt8 then
      let fd := fd.getD 0
      if followed '&' then some (.redirect fd .duplicate, s.tail)
      else some (.redirect fd .input, s)
    else if fd.isSome then none
    else if a = 10 then some (.newline, s)
    else if a = ';'.toUInt8 then some (.semicolon, s)
    else if a = '&'.toUInt8 then
      if followed '&' then some (.andIf, s.tail) else some (.ampersand, s)
    else if a = '|'.toUInt8 then
      if followed '|' then some (.orIf, s.tail) else some (.bar, s)
    else if a = '('.toUInt8 then some (.leftParen, s)
    else if a = ')'.toUInt8 then some (.rightParen, s)
    else none

/-- The number that a text starts with, if a redirection follows it. -/
def redirectedFd? (s : Bytes) : Option (Nat × Bytes) :=
  match s.span Ascii.isDigit with
  | (d, rest) =>
    if d ≠ [] && (rest.head? = some '<'.toUInt8 || rest.head? = some '>'.toUInt8) then
      some (d.foldl (fun n b => n * 10 + (b.toNat - 48)) 0, rest)
    else none

/-- The tokens of a text, taken with at most `fuel` steps. -/
def scan : Nat → Bytes → Option (List Token)
  | 0, _ => none
  | _, [] => some []
  | fuel + 1, b :: s =>
    if b = 32 || b = 9 then scan fuel s
    else if b = '#'.toUInt8 then scan fuel (s.dropWhile (· ≠ 10))
    else
      let numbered := (redirectedFd? (b :: s)).bind fun (fd, rest) => operator? (some fd) rest
      match numbered.or (operator? none (b :: s)) with
      | some (t, rest) => (scan fuel rest).map (t :: ·)
      | none => do
        let (w, rest) ← pieces (fuel + 1) (b :: s)
        return .word w :: (← scan fuel rest)

/-- The tokens of a text, unless a quotation in it has no end. -/
def ofBytes? (s : Bytes) : Option (List Token) := scan (s.length + 1) s

end Token

end Groundwork
