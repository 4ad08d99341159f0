import Groundwork.System.Error

/-!
# How a wait for a child ends

The system describes a child's end by a status word: the low seven bits hold the signal that ended it,
or zero where it exited, and the next byte its exit code. A `Report` spreads an outcome over six bytes
for callers without sum types; exactly one of its four flags is set.
-/

namespace Groundwork

/-- The status word of a child. -/
structure Status where
  word : Nat
deriving DecidableEq, Repr

namespace Status

def signalBits (s : Status) : Nat := s.word % 128

/-- The byte of the exit code. -/
def codeByte (s : Status) : UInt8 := UInt8.ofNat (s.word / 256)

def exited (code : UInt8) : Status := ⟨code.toNat * 256⟩

def signaled (signal : Nat) : Status := ⟨signal % 128⟩

end Status

/-- How a wait for a child ended. -/
inductive Outcome
  /-- The time was up; the child still runs. -/
  | timedOut
  /-- The wait itself failed. -/
  | failed (e : OsError)
  | exited (code : UInt8)
  | signaled (signal : Int)
deriving DecidableEq, Repr

namespace Outcome

/-- The outcome of a wait that took the status word `s` of a child. -/
def ofStatus (s : Status) : Outcome :=
  if s.signalBits = 0 then .exited s.codeByte
  else if s.signalBits = 127 then .failed .invalidArgument
  else .signaled s.signalBits

def code? : Outcome → Option UInt8
  | .exited code => some code
  | _ => none

def signal? : Outcome → Option Int
  | .signaled signal => some signal
  | _ => none

def success (o : Outcome) : Bool := o.code? = some 0

def isTimeout : Outcome → Bool
  | .timedOut => true
  | _ => false

def error? : Outcome → Option OsError
  | .failed e => some e
  | _ => none

def message : Outcome → String
  | .timedOut => "timed out"
  | .failed e => "wait failed: " ++ e.message
  | .exited code => "exit code " ++ toString code.toNat
  | .signaled signal => "signal " ++ toString signal

end Outcome

/-- An outcome spread over six bytes. -/
structure Report where
  isTimeout : UInt8
  waitFailed : UInt8
  exitStatus : UInt8
  exitStatusAvailable : UInt8
  stopSignal : UInt8
  stopSignalAvailable : UInt8
deriving DecidableEq, Repr

namespace Report

def none : Report := ⟨0, 0, 0, 0, 0, 0⟩

/-- The report of an outcome; of a signal it keeps the low eight bits. -/
def ofOutcome : Outcome → Report
  | .timedOut => { none with isTimeout := 1 }
  | .failed _ => { none with waitFailed := 1 }
  | .exited code => { none with exitStatus := code, exitStatusAvailable := 1 }
  | .signaled signal =>
    { none with stopSignal := UInt8.ofNat (signal % 256).toNat, stopSignalAvailable := 1 }

end Report

end Groundwork
