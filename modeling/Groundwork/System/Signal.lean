/-!
# Signals

A signal that a process neither blocks nor ignores ends it, stops it, lets it go on, or does nothing,
depending on its number.
-/

namespace Groundwork

/-- What a signal does to a process that has not asked for anything else. -/
inductive SignalAction
  | terminate
  | ignore
  | stop
  | resume
deriving DecidableEq, Repr

namespace Signal

def interrupt : Nat := 2

def kill : Nat := 9

def brokenPipe : Nat := 13

def terminate : Nat := 15

def child : Nat := 17

def resume : Nat := 18

def stop : Nat := 19

def greatest : Nat := 64

def action (signal : Nat) : SignalAction :=
  if signal = resume then .resume
  else if signal = stop ∨ signal = 20 ∨ signal = 21 ∨ signal = 22 then .stop
  else if signal = child ∨ signal = 23 ∨ signal = 28 then .ignore
  else .terminate

/-- The numbers of signals that a process can neither ignore nor catch: no signal at all, the two that
always take effect, and two that the system keeps for itself. -/
def uncatchable : List Nat := [0, kill, stop, 32, 33]

def isCatchable (signal : Nat) : Bool := !uncatchable.contains signal

/-- The names of the signals from 1 on, as they are given to commands. -/
def names : List String :=
  ["HUP", "INT", "QUIT", "ILL", "TRAP", "ABRT", "BUS", "FPE", "KILL", "USR1", "SEGV", "USR2", "PIPE",
   "ALRM", "TERM", "STKFLT", "CHLD", "CONT", "STOP", "TSTP", "TTIN", "TTOU", "URG", "XCPU", "XFSZ",
   "VTALRM", "PROF", "WINCH", "IO", "PWR", "SYS"]

/-- What the signals from 1 on mean. -/
def meanings : List String :=
  ["Hangup", "Interrupt", "Quit", "Illegal instruction", "Trace/breakpoint trap", "Aborted",
   "Bus error", "Floating point exception", "Killed", "User defined signal 1", "Segmentation fault",
   "User defined signal 2", "Broken pipe", "Alarm clock", "Terminated", "Stack fault", "Child exited",
   "Continued", "Stopped (signal)", "Stopped", "Stopped (tty input)", "Stopped (tty output)",
   "Urgent I/O condition", "CPU time limit exceeded", "File size limit exceeded",
   "Virtual timer expired", "Profiling timer expired", "Window changed", "I/O possible",
   "Power failure", "Bad system call"]

/-- The least signal number that is free for any use. -/
def realTime : Nat := 34

def meaning (signal : Nat) : String :=
  if realTime ≤ signal then "Real-time signal " ++ toString (signal - realTime)
  else if signal = 0 then "Unknown signal 0"
  else (meanings[signal - 1]?).getD ("Unknown signal " ++ toString signal)

/-- The signal with a number, or with a name in letters of either case. -/
def ofString? (s : String) : Option Nat :=
  if s.all (·.isDigit) then s.toNat?.filter (· ≤ greatest)
  else (names.idxOf? s.toUpper).map (· + 1)

end Signal

end Groundwork
