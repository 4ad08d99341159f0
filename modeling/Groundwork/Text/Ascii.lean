/-!
# Bytes of ASCII text

Byte strings are lists of bytes. The numbers, zone names and scripts read by this library are ASCII
text inside arbitrary byte strings, so every class below is a predicate on bytes: a byte from 128 up
belongs to none of them.
-/

namespace Groundwork

/-- A byte string. It need not be the encoding of any text. -/
abbrev Bytes := List UInt8

namespace Ascii

/-- The bytes of a text whose characters are all ASCII. -/
def text (cs : List Char) : Bytes := cs.map Char.toUInt8

/-- The characters of a byte string, each byte standing for the code point of its value. -/
def toString (s : Bytes) : String := String.ofList (s.map fun b => Char.ofNat b.toNat)

/-- Blank, tab, line feed, vertical tab, form feed, carriage return. -/
def isSpace (b : UInt8) : Bool := b = 32 || (9 ≤ b && b ≤ 13)

def isDigit (b : UInt8) : Bool := 48 ≤ b && b ≤ 57

def isUpper (b : UInt8) : Bool := 65 ≤ b && b ≤ 90

def isLower (b : UInt8) : Bool := 97 ≤ b && b ≤ 122

def isLetter (b : UInt8) : Bool := isUpper b || isLower b

/-- A letter, a digit or the underscore. -/
def isWordByte (b : UInt8) : Bool := isLetter b || isDigit b || b = 95

/-- The small letter of a capital one; any other byte is kept. -/
def lower (b : UInt8) : UInt8 := if isUpper b then b + 32 else b

/-- The value of a digit in a base up to 36, letters of either case counting from ten. -/
def digitValue? (b : UInt8) : Option Nat :=
  if isDigit b then some (b.toNat - 48)
  else if isLetter b then some ((lower b).toNat - 87)
  else none

/-- The value of `b` as a digit of base `base`. -/
def digitOf? (base : Nat) (b : UInt8) : Option Nat :=
  (digitValue? b).filter (· < base)

def digit (d : Nat) : UInt8 := UInt8.ofNat (48 + d)

/-- Whether `s` reads `word` when case is ignored; `word` is given in small letters. -/
def spells (word : List Char) (s : Bytes) : Bool := s.map lower = text word

/-- The strings with a blank between them. -/
def spaced (ss : List Bytes) : Bytes := (ss.intersperse [32]).flatten

/-- Splits an optional sign off the front of a text; `true` is the minus sign. -/
def splitSign : Bytes → Bool × Bytes
  | [] => (false, [])
  | b :: s => if b = '-'.toUInt8 then (true, s) else if b = '+'.toUInt8 then (false, s)
    else (false, b :: s)

end Ascii

end Groundwork
