import Groundwork.Text.Numeral

/-!
# Commands that print their arguments

The output of `echo` and `printf`. The shell's own `echo` reads backslash escapes, the stand-alone one
only when it is asked to. `printf` goes through its format again as long as there are arguments left.
-/

namespace Groundwork

namespace Printing

/-- The byte that a letter after a backslash stands for. -/
def letterEscape? (b : UInt8) : Option UInt8 :=
  if b = 'a'.toUInt8 then some 7
  else if b = 'b'.toUInt8 then some 8
  else if b = 't'.toUInt8 then some 9
  else if b = 'n'.toUInt8 then some 10
  else if b = 'v'.toUInt8 then some 11
  else if b = 'f'.toUInt8 then some 12
  else if b = 'r'.toUInt8 then some 13
  else if b = 'e'.toUInt8 then some 27
  else if b = '\\'.toUInt8 then some b
  else none

/-- Up to `n` octal digits as a byte, and what follows them. -/
def octal (n : Nat) (s : Bytes) : Option (UInt8 × Bytes) :=
  let ds := (Numeral.spanDigits 8 (s.take n)).1
  if ds = [] then none else some (UInt8.ofNat (Numeral.value 8 ds), s.drop ds.length)

/-- A text with its escapes replaced; an octal number follows a zero. What stands after `\c` is not
printed, and then the second component is true. -/
def unescape : Nat → Bytes → Bytes × Bool
  | 0, _ => ([], false)
  | _, [] => ([], false)
  | fuel + 1, b :: s =>
    let plain := let (t, stop) := unescape fuel s; (b :: t, stop)
    if b = '\\'.toUInt8 then
      match s with
      | [] => ([b], false)
      | c :: rest =>
        if c = 'c'.toUInt8 then ([], true)
        else if c = '0'.toUInt8 then
          match octal 3 rest with
          | some (d, rest) => let (t, stop) := unescape fuel rest; (d :: t, stop)
          | none => let (t, stop) := unescape fuel rest; (0 :: t, stop)
        else match letterEscape? c with
          | some d => let (t, stop) := unescape fuel rest; (d :: t, stop)
          | none => plain
    else plain

/-- What `echo` prints, reading escapes if `escapes` is set. -/
def echoText (newline escapes : Bool) (args : List Bytes) : Bytes :=
  let text := Ascii.spaced args
  let ended (t : Bytes) := if newline then t ++ [10] else t
  if escapes then
    let (t, stop) := unescape (text.length + 1) text
    if stop then t else ended t
  else ended text

def shellEcho : List Bytes → Bytes
  | a :: args =>
    if a = Ascii.text ['-', 'n'] then echoText false true args else echoText true true (a :: args)
  | [] => [10]

/-- Whether an argument is a group of options of the stand-alone `echo`. -/
def isEchoOption (a : Bytes) : Bool :=
  match a with
  | b :: rest => b = '-'.toUInt8 && rest ≠ [] && rest.all (Ascii.text ['n', 'e', 'E']).contains
  | [] => false

def echo (args : List Bytes) : Bytes :=
  let options := (args.takeWhile isEchoOption).flatten.filter (· ≠ '-'.toUInt8)
  let escapes := (options.filter (· ≠ 'n'.toUInt8)).getLast? = some 'e'.toUInt8
  echoText (!options.contains 'n'.toUInt8) escapes (args.dropWhile isEchoOption)

/-! ## Formats -/

/-- A directive of a format without the letter it ends with. -/
structure Directive where
  flags : Bytes
  width : Nat
  precision : Option Nat

namespace Directive

/-- The directive that a text starts with, and what follows it. -/
def read (s : Bytes) : Directive × Bytes :=
  let flags := s.takeWhile (Ascii.text ['-', '+', ' ', '0', '#']).contains
  let (width, rest) := Numeral.spanDigits 10 (s.drop flags.length)
  match rest with
  | [] => (⟨flags, Numeral.value 10 width, none⟩, [])
  | b :: more =>
    if b = '.'.toUInt8 then
      let (precision, rest) := Numeral.spanDigits 10 more
      (⟨flags, Numeral.value 10 width, some (Numeral.value 10 precision)⟩, rest)
    else (⟨flags, Numeral.value 10 width, none⟩, rest)

variable (f : Directive)

def has (c : Char) : Bool := f.flags.contains c.toUInt8

/-- Fills a text with blanks to the width. -/
def fill (s : Bytes) : Bytes :=
  let gap := List.replicate (f.width - s.length) 32
  if f.has '-' then s ++ gap else gap ++ s

def text (s : Bytes) : Bytes := f.fill (s.take (f.precision.getD s.length))

/-- A number with a sign and digits; zeros fill the digits to the precision, or where zeros are asked
for and there is none, to the width. -/
def number (sign digits : Bytes) : Bytes :=
  let least := f.precision.getD (if f.has '0' && !f.has '-' then f.width - sign.length else 0)
  f.fill (sign ++ List.replicate (least - digits.length) '0'.toUInt8 ++ digits)

end Directive

/-- The integer that an argument stands for: decimal, octal after a zero, hexadecimal after `0x`, or the
byte after a quotation mark. -/
def integer (a : Bytes) : Int :=
  let (negative, body) := Ascii.splitSign a
  let value (base : Nat) (s : Bytes) : Nat := Numeral.value base (Numeral.spanDigits base s).1
  let n := match body with
    | b :: c :: rest =>
      if b = 39 || b = '"'.toUInt8 then c.toNat
      else if b ≠ '0'.toUInt8 then value 10 body
      else if Ascii.lower c = 'x'.toUInt8 then value 16 rest
      else value 8 body
    | _ => value 10 body
  if negative then -n else n

/-- What a directive with a letter makes of an argument, if there is such a directive; the output ends
there where the second component is true. -/
def Directive.write? (f : Directive) (letter : UInt8) (a : Bytes) : Option (Bytes × Bool) :=
  let signed :=
    let i := integer a
    let sign := if i < 0 then ['-'.toUInt8] else if f.has '+' then ['+'.toUInt8]
      else if f.has ' ' then [32] else []
    f.number sign (Numeral.decimal i.natAbs)
  let unsigned (base : Nat) : Bytes :=
    (Nat.toDigits base ((integer a) % 18446744073709551616).toNat).map Char.toUInt8
  match Char.ofNat letter.toNat with
  | 's' => some (f.text a, false)
  | 'c' => some (f.fill (a.take 1), false)
  | 'd' => some (signed, false)
  | 'i' => some (signed, false)
  | 'u' => some (f.number [] (unsigned 10), false)
  | 'o' => some (f.number [] (unsigned 8), false)
  | 'x' => some (f.number [] (unsigned 16), false)
  | 'X' => some (f.number [] ((unsigned 16).map fun b => if Ascii.isLower b then b - 32 else b), false)
  | 'b' => let (t, stop) := unescape (a.length + 1) a; some (f.text t, stop)
  | _ => none

/-- One pass through a format: the text, and the arguments that are left unless the output has ended. -/
def formatOnce : Nat → Bytes → List Bytes → Bytes × Option (List Bytes)
  | 0, _, args => ([], some args)
  | _, [], args => ([], some args)
  | fuel + 1, b :: s, args =>
    let emit (text rest : Bytes) (args : List Bytes) :=
      let (t, left) := formatOnce fuel rest args
      (text ++ t, left)
    if b = '%'.toUInt8 then
      match Directive.read s with
      | (f, letter :: rest) =>
        if letter = b then emit [b] rest args
        else
          match f.write? letter (args.headD []) with
          | some (t, false) => emit t rest args.tail
          | some (t, true) => (t, none)
          | none => emit [b] s args
      | (_, []) => emit [b] s args
    else if b = '\\'.toUInt8 then
      match octal 3 s, s with
      | some (d, rest), _ => emit [d] rest args
      | none, c :: rest =>
        match letterEscape? c with
        | some d => emit [d] rest args
        | none => if c = '"'.toUInt8 then emit [c] rest args else emit [b] s args
      | none, [] => emit [b] s args
    else emit [b] s args

/-- Passes through a format until no argument is left, or none is used. -/
def formatAll (format : Bytes) : Nat → List Bytes → Bytes
  | 0, _ => []
  | fuel + 1, args =>
    match formatOnce (format.length + 1) format args with
    | (t, none) => t
    | (t, some left) =>
      if left = [] || left.length = args.length then t else t ++ formatAll format fuel left

def printf : List Bytes → Bytes
  | [] => []
  | format :: args => formatAll format (args.length + 1) args

end Printing

end Groundwork
