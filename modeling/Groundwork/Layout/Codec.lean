import Groundwork.Layout.Order
import Groundwork.Layout.Scalar

/-!
# Storing scalars in buffers

`encode` writes a value over the first bytes of a buffer and `decode` reads one from them; both refuse
a buffer that is shorter than the value and then leave it as it was. A `Step` acts on a window of a
larger buffer, of which it sees nothing else.
-/

namespace Groundwork

/-- Why a value could not be stored or loaded. -/
inductive LayoutError
  | tooShort (needed length : Nat)
deriving DecidableEq, Repr

def LayoutError.message : LayoutError → String
  | .tooShort needed length =>
    "buffer of " ++ toString length ++ " bytes is too short for a " ++ toString needed
      ++ "-byte value"

namespace Layout

variable (t : Scalar) (o : Order)

/-- The bytes of a value in the order `o`. -/
def bytesOf (v : BitVec t.bits) : Bytes := o.arrange (Order.littleEndian t.bytes v.toNat)

/-- The value with the given bytes in the order `o`. -/
def ofBytes (s : Bytes) : BitVec t.bits := BitVec.ofNat t.bits (Order.ofLittleEndian (o.arrange s))

/-- Writes `v` over the first bytes of the buffer. -/
def encode (v : BitVec t.bits) (buffer : Bytes) : Except LayoutError Bytes :=
  if buffer.length < t.bytes then .error (.tooShort t.bytes buffer.length)
  else .ok (bytesOf t o v ++ buffer.drop t.bytes)

/-- Reads a value from the first bytes of the buffer. -/
def decode (buffer : Bytes) : Except LayoutError (BitVec t.bits) :=
  if buffer.length < t.bytes then .error (.tooShort t.bytes buffer.length)
  else .ok (ofBytes t o (buffer.take t.bytes))

/-- `encode` in the machine's order. -/
def store (v : BitVec t.bits) (buffer : Bytes) : Except LayoutError Bytes :=
  encode t .native v buffer

/-- `decode` in the machine's order. -/
def load (buffer : Bytes) : Except LayoutError (BitVec t.bits) := decode t .native buffer

/-- A run of `length` bytes that starts at `offset`. -/
structure Window where
  offset : Nat
  length : Nat
deriving DecidableEq, Repr

namespace Window

/-- The bytes of a buffer in the window. -/
def view (w : Window) (buffer : Bytes) : Bytes := (buffer.drop w.offset).take w.length

/-- The buffer with the bytes of the window replaced by as many others. -/
def replace (w : Window) (buffer bytes : Bytes) : Bytes :=
  buffer.take w.offset ++ bytes ++ buffer.drop (w.offset + w.length)

end Window

/-- One access to a window of a buffer. -/
inductive Step
  | encode (t : Scalar) (o : Order) (w : Window) (v : BitVec t.bits)
  | decode (t : Scalar) (o : Order) (w : Window)

/-- What an access answers: that it stored its value, or the value it loaded. -/
inductive Answer
  | stored
  | loaded (t : Scalar) (v : BitVec t.bits)

namespace Step

/-- The buffer after the access, and its answer. -/
def run (buffer : Bytes) : Step → Bytes × Except LayoutError Answer
  | .encode t o w v =>
    match Layout.encode t o v (w.view buffer) with
    | .ok bytes => (w.replace buffer bytes, .ok .stored)
    | .error e => (buffer, .error e)
  | .decode t o w => (buffer, (Layout.decode t o (w.view buffer)).map (.loaded t))

/-- The buffer after a sequence of accesses, and their answers in order. -/
def runAll (buffer : Bytes) : List Step → Bytes × List (Except LayoutError Answer)
  | [] => (buffer, [])
  | s :: rest =>
    let (buffer, a) := s.run buffer
    let (buffer, as) := runAll buffer rest
    (buffer, a :: as)

end Step

/-- Stores `v` at an offset of a buffer that has room for it there. -/
def storeAt (v : BitVec t.bits) (offset : Nat) (buffer : Bytes) : Bytes :=
  let w : Window := ⟨offset, t.bytes⟩
  match store t v (w.view buffer) with
  | .ok bytes => w.replace buffer bytes
  | .error _ => buffer

/-- Loads the value at an offset of a buffer; zero where the buffer ends before it does. -/
def loadAt (offset : Nat) (buffer : Bytes) : BitVec t.bits :=
  (load t (Window.view ⟨offset, t.bytes⟩ buffer)).toOption.getD 0

end Layout

end Groundwork
