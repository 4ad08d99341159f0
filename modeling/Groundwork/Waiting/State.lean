import Groundwork.Clock.Timeout
import Groundwork.System.Family
import Groundwork.Waiting.Outcome

/-!
# Waiting for children

Any number of calls wait for children of one process at the same time. A call without a time limit
blocks in the system. A call with one asks the system once, and if the child still runs it sleeps
until its time is up or until the child's monitor wakes it: a monitor is a thread, shared by all calls
on one child, that waits for the child's end without taking its status. Taking the status, which gives
the process number free, is always left to a call.

The state is that of all calls, monitors and children together, and one `Action` is one step that
cannot be interrupted by another: a request to the system, or what happens between taking a lock and
releasing it or going to sleep. Two locks are held over several steps: the one of the register of
running monitors while a new monitor is started, and the one of a monitor's state while a call decides
whether to sleep.
-/

namespace Groundwork

namespace Waiting

/-- A child of the process that has not been waited for. -/
structure Child where
  /-- Tells the children apart that had the same process number one after the other. -/
  serial : Nat
  /-- The child's status word, once it has ended. -/
  status : Option Status
deriving DecidableEq, Repr

/-- What a monitor tells the calls that watch it. -/
inductive MonitorState
  | running
  | ended
  | failed (e : OsError)
deriving DecidableEq, Repr

/-- Where a monitor's thread stands. -/
inductive MonitorPhase
  /-- Asks the system to be told the end of the child. -/
  | waiting
  /-- Waits for the end of the child that was `pid` when it asked. -/
  | attached (serial : Nat)
  /-- Takes itself off the register; it will then tell `s`. -/
  | unregistering (s : MonitorState)
  /-- Sets its state to `s`. -/
  | publishing (s : MonitorState)
  /-- Wakes the calls that sleep. -/
  | notifying
  | finished
deriving DecidableEq, Repr

/-- A monitor; `holder` is the call that holds the lock of its state. -/
structure Monitor where
  pid : Nat
  state : MonitorState
  phase : MonitorPhase
  holder : Option Nat
deriving DecidableEq, Repr

/-- Where a call stands. `deadline` is the time at which it gives up and `m` its monitor. -/
inductive Phase
  /-- Looks at the process number and the time limit. -/
  | starting
  /-- Asks the system, to block there until the child has ended. -/
  | blocking
  /-- Blocks in the system until the child that was `pid` when it asked has ended. -/
  | blocked (serial : Nat)
  /-- Asks the system without blocking. -/
  | polling
  /-- Reads the clock to find its deadline. -/
  | timing
  /-- Looks for a monitor on the register. -/
  | watching (deadline : Nat)
  /-- Holds the register and starts a monitor's thread. -/
  | engaging (deadline : Nat)
  /-- Holds the register and puts the monitor on it. -/
  | registering (deadline m : Nat)
  /-- Takes the lock of the monitor's state. -/
  | locking (deadline m : Nat)
  /-- Holds that lock and looks at the state. -/
  | inspecting (deadline m : Nat)
  /-- Holds that lock, has seen that the child runs, and reads the clock. -/
  | deciding (deadline m : Nat)
  /-- Holds that lock, has read `now` and goes to sleep. -/
  | retiring (deadline m now : Nat)
  /-- Sleeps until it is woken or `wake` has come. -/
  | sleeping (deadline m wake : Nat)
  /-- Asks the system without blocking, after the monitor has told the end. -/
  | reaping
  | finished (o : Outcome)
deriving DecidableEq, Repr

structure Call where
  pid : Nat
  limit : Timeout
  phase : Phase
deriving DecidableEq, Repr

/-- The state of all calls, monitors and children, with the time in nanoseconds. -/
structure State where
  children : Family Child
  nextSerial : Nat
  /-- The running monitor of each process number. -/
  register : Family Nat
  /-- The call that holds the register's lock. -/
  registrar : Option Nat
  monitors : Family Monitor
  nextMonitor : Nat
  calls : Family Call
  now : Nat

def State.initial : State where
  children := .empty
  nextSerial := 0
  register := .empty
  registrar := none
  monitors := .empty
  nextMonitor := 0
  calls := .empty
  now := 0

/-- One step of one participant. -/
inductive Action
  /-- A child with the free process number `pid` comes into being. -/
  | launch (pid : Nat)
  /-- The child `pid` ends with the status `s`. -/
  | terminate (pid : Nat) (s : Status)
  /-- A call begins to wait for `pid`. -/
  | begin (call pid : Nat) (limit : Timeout)
  /-- The call takes its next step. -/
  | advance (call : Nat)
  /-- The call cannot start a monitor's thread. -/
  | refuse (call : Nat) (e : OsError)
  /-- The blocked call is interrupted and asks again. -/
  | interrupt (call : Nat)
  /-- The blocked monitor is interrupted and asks again. -/
  | interruptMonitor (m : Nat)
  /-- The sleeping call wakes up, for no reason or because its time has come. -/
  | wake (call : Nat)
  /-- The monitor takes its next step. -/
  | monitor (m : Nat)
  /-- Time passes. -/
  | tick (d : Nat)
deriving DecidableEq, Repr

end Waiting

end Groundwork
