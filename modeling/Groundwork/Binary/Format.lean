/-!
# Binary floating point

A number of a binary floating-point format is a word of a sign bit, an exponent field and a fraction
field. The word without its sign is the number's `code`; codes are ordered as the magnitudes they
stand for, from zero through the subnormal and the normal numbers to infinity, and the codes above
infinity are the NaNs. `significand` and `exponent` give the exact value of a finite code,
`significand * 2 ^ exponent`.
-/

namespace Groundwork

-- Powers are those of the core library, whatever else is in scope.
attribute [local instance (high)] instPowNat

/-- A binary format, by the widths of its two fields. -/
structure Format where
  fractionBits : Nat
  exponentBits : Nat
deriving DecidableEq, Repr

namespace Format

def single : Format := ⟨23, 8⟩

def double : Format := ⟨52, 11⟩

variable (f : Format)

/-- The width of a word without its sign bit. -/
def codeBits : Nat := f.exponentBits + f.fractionBits

def width : Nat := f.codeBits + 1

/-- The exponent of the last place of the subnormal numbers. -/
def leastExponent : Int := 2 - 2 ^ (f.exponentBits - 1) - f.fractionBits

/-- The exponent `k` of the least normal number `2 ^ k`. -/
def normalExponent : Int := f.leastExponent + f.fractionBits

/-- The code of infinity; smaller codes are finite. -/
def infinityCode : Nat := (2 ^ f.exponentBits - 1) * 2 ^ f.fractionBits

/-- A power of two beyond every finite number, whose inverse lies below every positive one. -/
def span : Nat := 2 ^ f.exponentBits + f.fractionBits

end Format

/-- A floating-point number: a word of the format. -/
structure Binary (f : Format) where
  word : BitVec f.width
deriving DecidableEq, Repr

namespace Binary

variable {f : Format}

/-- The number with the given sign and code. -/
def ofCode (negative : Bool) (code : Nat) : Binary f :=
  ⟨BitVec.ofNat f.width ((if negative then 2 ^ f.codeBits else 0) + code)⟩

/-- Whether the sign bit is set; zeros and NaNs have a sign as well. -/
def negative (x : Binary f) : Bool := 2 ^ f.codeBits ≤ x.word.toNat

/-- The word without its sign. -/
def code (x : Binary f) : Nat := x.word.toNat % 2 ^ f.codeBits

def isNaN (x : Binary f) : Bool := f.infinityCode < x.code

def isInfinite (x : Binary f) : Bool := x.code = f.infinityCode

def isFinite (x : Binary f) : Bool := x.code < f.infinityCode

/-- A finite number with a full significand. -/
def isNormal (x : Binary f) : Bool := 2 ^ f.fractionBits ≤ x.code && x.isFinite

/-- The integer significand of a finite number. -/
def significand (x : Binary f) : Nat :=
  let field := x.code / 2 ^ f.fractionBits
  x.code % 2 ^ f.fractionBits + if field = 0 then 0 else 2 ^ f.fractionBits

/-- The exponent of the significand's last place. -/
def exponent (x : Binary f) : Int :=
  f.leastExponent + (x.code / 2 ^ f.fractionBits - 1 : Nat)

def zero (negative : Bool) : Binary f := ofCode negative 0

def infinity (negative : Bool) : Binary f := ofCode negative f.infinityCode

/-- The quiet NaN that carries `payload` in the bits below its quiet bit. -/
def quietNaN (negative : Bool) (payload : Nat) : Binary f :=
  ofCode negative
    (f.infinityCode + 2 ^ (f.fractionBits - 1) + payload % 2 ^ (f.fractionBits - 1))

end Binary

end Groundwork
