import Groundwork.Script.Token

/-!
# Reading shell scripts

Lists of pipelines joined by `;`, `&`, `&&` and `||`, the commands `if`, `while`, `until` and `for`,
and commands in parentheses and braces. Each function takes the tokens of one construct and leaves
those that follow it; `fuel` bounds how deep constructs are nested and how many follow each other, and
the number of tokens is always enough.
-/

namespace Groundwork

namespace Script

/-- The text of a word without quotation and parameters, as reserved words are written. -/
def plain? (w : Word) : Option Bytes :=
  w.foldr (fun p rest => match p, rest with
    | .text s false, some t => some (s ++ t)
    | _, _ => none) (some [])

def isReserved (word : List Char) : Token → Bool
  | .word w => plain? w = some (Ascii.text word)
  | _ => false

/-- Takes the given reserved word off the front. -/
def skip? (word : List Char) : List Token → Option (List Token)
  | t :: ts => if isReserved word t then some ts else none
  | [] => none

/-- The reserved words that end a list of commands. -/
def closers : List (List Char) :=
  [['d', 'o'], ['d', 'o', 'n', 'e'], ['t', 'h', 'e', 'n'], ['e', 'l', 's', 'e'],
   ['e', 'l', 'i', 'f'], ['f', 'i'], ['\x7d']]

/-- Whether a token ends a list of commands. -/
def isCloser (t : Token) : Bool := t = .rightParen || closers.any (isReserved · t)

def skipLines : List Token → List Token
  | .newline :: ts => skipLines ts
  | ts => ts

/-- The name and the value of a word of the form `name=value`. -/
def assignment? (w : Word) : Option (Bytes × Word) :=
  let isName : Piece → Bool
    | .text [b] false => Ascii.isWordByte b
    | _ => false
  let name := w.takeWhile isName
  let bytes := name.flatMap fun
    | .text s _ => s
    | _ => []
  match w.dropWhile isName with
  | .text [b] false :: value =>
    if b = '='.toUInt8 && bytes.head?.any (!Ascii.isDigit ·) then some (bytes, value) else none
  | _ => none

/-- A redirection from its kind and the word after it. -/
def redirect? (fd : Nat) (kind : RedirectKind) (w : Word) : Option Redirect :=
  match kind with
  | .input => some (.input fd w)
  | .output => some (.output fd w)
  | .append => some (.output fd w)
  | .duplicate =>
    match plain? w with
    | none => none
    | some s =>
      if s = ['-'.toUInt8] then some (.close fd)
      else if s ≠ [] && s.all Ascii.isDigit then
        some (.duplicate fd (s.foldl (fun n b => n * 10 + (b.toNat - 48)) 0))
      else none

/-- The words and redirections of a command up to the next operator. -/
def readSimple (c : SimpleCommand) : List Token → Option (SimpleCommand × List Token)
  | .word w :: ts =>
    match if c.words = [] then assignment? w else none with
    | some a => readSimple { c with assignments := c.assignments ++ [a] } ts
    | none => readSimple { c with words := c.words ++ [w] } ts
  | .redirect fd kind :: .word w :: ts => do
    let r ← redirect? fd kind w
    readSimple { c with redirects := c.redirects ++ [r] } ts
  | .redirect .. :: _ => none
  | ts => some (c, ts)

/-- The redirections that a list of tokens starts with. -/
def readRedirects : List Token → Option (List Redirect × List Token)
  | .redirect fd kind :: .word w :: ts => do
    let r ← redirect? fd kind w
    let (rs, rest) ← readRedirects ts
    return (r :: rs, rest)
  | .redirect .. :: _ => none
  | ts => some ([], ts)

/-- The words up to the end of a line or a semicolon. -/
def readItems : List Token → List Word × List Token
  | .word w :: ts => let (ws, rest) := readItems ts; (w :: ws, rest)
  | .semicolon :: ts => ([], ts)
  | .newline :: ts => ([], ts)
  | ts => ([], ts)

mutual

/-- A list of commands up to a closer or the end. -/
def readList : Nat → List Token → Option (Script × List Token)
  | 0, _ => none
  | fuel + 1, ts =>
    let ts := skipLines ts
    match ts with
    | [] => some (.nothing, [])
    | t :: _ =>
      if isCloser t then some (.nothing, ts)
      else do
        let (a, rest) ← readAndOr fuel ts
        match rest with
        | .semicolon :: rest => let (b, rest) ← readList fuel rest; return (.sequence a b, rest)
        | .newline :: rest => let (b, rest) ← readList fuel rest; return (.sequence a b, rest)
        | .ampersand :: rest =>
          let (b, rest) ← readList fuel rest
          return (.sequence (.background a) b, rest)
        | rest => return (a, rest)

/-- Pipelines joined by `&&` and `||`, which bind to the left. -/
def readAndOr : Nat → List Token → Option (Script × List Token)
  | 0, _ => none
  | fuel + 1, ts => do
    let (a, rest) ← readPipeline fuel ts
    readAndOrFrom fuel a rest

/-- The rest of pipelines joined by `&&` and `||` after the first of them. -/
def readAndOrFrom : Nat → Script → List Token → Option (Script × List Token)
  | 0, _, _ => none
  | fuel + 1, a, .andIf :: rest => do
    let (b, rest) ← readPipeline fuel (skipLines rest)
    readAndOrFrom fuel (.both a b) rest
  | fuel + 1, a, .orIf :: rest => do
    let (b, rest) ← readPipeline fuel (skipLines rest)
    readAndOrFrom fuel (.either a b) rest
  | _ + 1, a, rest => some (a, rest)

/-- Commands joined by pipes. -/
def readPipeline : Nat → List Token → Option (Script × List Token)
  | 0, _ => none
  | fuel + 1, ts =>
    match skip? ['!'] ts with
    | some ts => do
      let (a, rest) ← readPipeline fuel ts
      return (.negate a, rest)
    | none => do
      let (a, rest) ← readCommand fuel ts
      match rest with
      | .bar :: rest =>
        let (b, rest) ← readPipeline fuel (skipLines rest)
        return (.pipe a b, rest)
      | rest => return (a, rest)

/-- One command, with its redirections. -/
def readCommand : Nat → List Token → Option (Script × List Token)
  | 0, _ => none
  | fuel + 1, ts => do
    match ← readCompound fuel ts with
    | some (a, rest) =>
      let (rs, rest) ← readRedirects rest
      return (if rs.isEmpty then a else .redirected a rs, rest)
    | none =>
      let (c, rest) ← readSimple ⟨[], [], []⟩ ts
      if c.words = [] && c.assignments = [] && c.redirects = [] then none
      else return (.simple c, rest)

/-- A command in parentheses or braces, or one that starts with a reserved word; nothing inside if the
tokens do not start like that. -/
def readCompound : Nat → List Token → Option (Option (Script × List Token))
  | 0, _ => none
  | fuel + 1, ts => do
    if let .leftParen :: ts := ts then
      match ← readList fuel ts with
      | (a, .rightParen :: rest) => return some (.subshell a, rest)
      | _ => none
    else if let some ts := skip? ['\x7b'] ts then
      let (a, rest) ← readList fuel ts
      return some (a, ← skip? ['\x7d'] rest)
    else if let some ts := skip? ['w', 'h', 'i', 'l', 'e'] ts then readLoop fuel true ts
    else if let some ts := skip? ['u', 'n', 't', 'i', 'l'] ts then readLoop fuel false ts
    else if let some ts := skip? ['i', 'f'] ts then readChoice fuel ts
    else if let some ts := skip? ['f', 'o', 'r'] ts then
      let .word name :: ts := ts | none
      let name ← plain? name
      let (ws, ts) ← match skip? ['i', 'n'] ts with
        | some ts => some (readItems ts)
        | none => some ([[.parameter ['@'.toUInt8] true]], (readItems ts).2)
      let ts ← skip? ['d', 'o'] (skipLines ts)
      let (body, ts) ← readList fuel ts
      return some (.forEach name ws body, ← skip? ['d', 'o', 'n', 'e'] ts)
    else return none

/-- A loop after its first word. -/
def readLoop : Nat → Bool → List Token → Option (Script × List Token)
  | 0, _, _ => none
  | fuel + 1, expected, ts => do
    let (condition, ts) ← readList fuel ts
    let ts ← skip? ['d', 'o'] ts
    let (body, ts) ← readList fuel ts
    return (.loop expected condition body, ← skip? ['d', 'o', 'n', 'e'] ts)

/-- A choice after its first word. -/
def readChoice : Nat → List Token → Option (Script × List Token)
  | 0, _ => none
  | fuel + 1, ts => do
    let (condition, ts) ← readList fuel ts
    let ts ← skip? ['t', 'h', 'e', 'n'] ts
    let (yes, ts) ← readList fuel ts
    if let some ts := skip? ['e', 'l', 'i', 'f'] ts then
      let (no, ts) ← readChoice fuel ts
      return (.choose condition yes no, ts)
    else if let some ts := skip? ['e', 'l', 's', 'e'] ts then
      let (no, ts) ← readList fuel ts
      return (.choose condition yes no, ← skip? ['f', 'i'] ts)
    else return (.choose condition yes .nothing, ← skip? ['f', 'i'] ts)

end

/-- The script that a text is, if it is one. -/
def ofBytes? (s : Bytes) : Option Script := do
  let ts ← Token.ofBytes? s
  match ← readList (8 * ts.length + 8) ts with
  | (script, []) => return script
  | _ => none

end Script

end Groundwork
