import Groundwork.Number.Reading

/-!
# The error of the last number read

Callers that receive a bare number ask afterwards whether it was one. The reason of the last failure
is kept for each thread by itself: a success of any kind clears it, a failure replaces it, and nothing
else changes it.
-/

namespace Groundwork

/-- A reader whose failures are remembered. -/
inductive Reader
  | int64
  | uint64
  | double
  | single
deriving DecidableEq, Repr

/-- The type of the numbers that a reader returns. -/
def Reader.scalar : Reader → Scalar
  | .int64 => .int ⟨true, .eight⟩
  | .uint64 => .int ⟨false, .eight⟩
  | .double => .double
  | .single => .single

/-- The remembered failure of every thread. -/
structure LastError where
  slot : Nat → Option ReadError

namespace LastError

/-- No thread has read anything. -/
def fresh : LastError := ⟨fun _ => none⟩

/-- Whether the last text read by the thread was no number. -/
def invalid (e : LastError) (thread : Nat) : Bool := e.slot thread = some .invalid

/-- Whether the last text read by the thread was a number out of range. -/
def outOfRange (e : LastError) (thread : Nat) : Bool := e.slot thread = some .outOfRange

/-- Reads a text on a thread: the value, or zero where there is none, and what is remembered
afterwards. -/
def read (e : LastError) (thread : Nat) (r : Reader) (s : Bytes) : Scalar.Value × LastError :=
  let result := r.scalar.read s
  let failure := match result with
    | .ok _ => none
    | .error reason => some reason
  (result.toOption.getD r.scalar.zero, ⟨fun u => if u = thread then failure else e.slot u⟩)

/-- What a thread calls. -/
inductive Call
  /-- Reads the text that starts in a memory and goes up to its first NUL. -/
  | read (r : Reader) (memory : Bytes)
  | askInvalid
  | askOutOfRange
  /-- Reads a text for a caller that is told the reason of a failure at once. -/
  | tell (t : Scalar) (s : Bytes)
  | tellString (t : Scalar) (s : String)

/-- What a call returns. -/
inductive Answer
  | value (v : Scalar.Value)
  | flag (b : Bool)
  | told (result : Except ReadError Scalar.Value)

/-- One call of a thread. -/
def step (e : LastError) (thread : Nat) : Call → Answer × LastError
  | .read r memory =>
    let (v, e) := e.read thread r (CString.contents memory)
    (.value v, e)
  | .askInvalid => (.flag (e.invalid thread), e)
  | .askOutOfRange => (.flag (e.outOfRange thread), e)
  | .tell t s => (.told (t.read s), e)
  | .tellString t s => (.told (t.readString s), e)

/-- Calls of any threads one after the other, and their answers. -/
def run (e : LastError) : List (Nat × Call) → List Answer × LastError
  | [] => ([], e)
  | (thread, call) :: rest =>
    let (answer, e) := e.step thread call
    let (answers, e) := e.run rest
    (answer :: answers, e)

end LastError

end Groundwork
