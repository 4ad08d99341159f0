import Groundwork.Host.Turn
import Groundwork.Waiting.Request

/-!
# What the caller does

The caller launches programs, writes to and reads from their standard streams, sends them signals and
waits for their ends. Whatever does not happen at once lets the host run until it has happened; an
answer of `none` means that it never does.
-/

namespace Groundwork

inductive StreamError
  | closed
  | failed (e : OsError)
deriving DecidableEq, Repr

def StreamError.message : StreamError → String
  | .closed => "stream is closed"
  | .failed e => e.message

/-- In what circumstances the caller launches a program. -/
structure Setting where
  /-- How many descriptors are free. -/
  free : Option Nat
  /-- Which of the caller's standard streams are closed. -/
  closed : List Nat
  /-- Which signals are blocked. -/
  blocked : List Nat

/-- The caller has its standard streams, all descriptors, and no signal blocked. -/
def Setting.usual : Setting := ⟨none, [], []⟩

namespace Host

variable (h : Host)

/-! ## Launching -/

def tableFor (setting : Setting) : Table :=
  let own (t : Table) (d : Nat) : Bool := (t.get d).any fun e => match e.file with
    | .other _ => true
    | .pipe _ => false
  let t := setting.closed.foldl (fun t d => if own t d then t.close d else t) h.launch.caller.table
  match setting.free with
  | some n => t.withFree n
  | none => t

/-- The caller's table `t` with the limit and the standard streams of `before`, as far as their
descriptors have not been taken meanwhile. -/
def restoredTable (before t : Table) (closed : List Nat) : Table :=
  closed.foldl (fun t d => if t.isFree d then t.set d (before.get d) else t)
    { t with limit := before.limit }

/-- Lets a child that has just come into being start its program. -/
def startChild (pid : Nat) : Host :=
  let launch := h.launch.startChild isRunnable pid Launch.State.childSteps
  let h := { h with launch := launch }.wait (.launch pid)
  match launch.children pid with
  | none => h
  | some c =>
    let p (code : UInt8) : Proc :=
      ⟨none, .ofTable c.table, c.signals, false, [], [], .utility (.finish code), none⟩
    match c.phase with
    | .exited code => (h.addProc pid (p code)).finish pid (.exited code)
    | _ =>
      let p := p Launch.execFailureStatus
      h.addProc pid ((h.become? pid p c.command.program c.command.argv).getD p)

/-- Launches a command: the number of the launch, and how many descriptors are free after it. -/
def spawn (setting : Setting) (c : Command) : Host × Except LaunchError Nat × Nat :=
  let before := h.launch
  let i := h.nextLaunch
  let (result, after) := { before with
    caller := { before.caller with table := h.tableFor setting }
    signals := { before.signals with blocked := setting.blocked } }.spawn i c
  let free := after.caller.table.freeCount
  let table := restoredTable before.caller.table after.caller.table setting.closed
  let h := { h with
    launch := { after with caller := { after.caller with table := table }, signals := before.signals }
    nextLaunch := i + 1 }
  match result with
  | some (.ok handles) => (h.startChild handles.pid, .ok i, free)
  | some (.error e) => (h, .error e, free)
  | none => (h, .error (.fork .tryAgain), free)

/-- What the caller has kept of a launch. -/
def handles? (i : Nat) : Option Launch.Handles := do
  match (← h.launch.spawns i).phase with
  | .finished (.ok handles) => some handles
  | _ => none

/-! ## Streams -/

/-- The descriptor of a stream, unless the caller has closed it. -/
def descriptor? (i : Nat) (stream : Launch.Stream) : Option Nat := do
  let spawn ← h.launch.spawns i
  if stream ∈ spawn.kept then (h.handles? i).map (·.get stream) else none

/-- The file of a stream that the caller has not closed. -/
def streamFile? (i : Nat) (stream : Launch.Stream) : Option File := do
  let d ← h.descriptor? i stream
  (h.launch.caller.table.get d).map (·.file)

/-- Closes a stream; answers whether it was open. -/
def closeStream (i : Nat) (stream : Launch.Stream) : Host × Bool :=
  match h.launch.step isRunnable (.drop i stream) with
  | some launch => ({ h with launch := launch }, true)
  | none => (h, false)

/-- Whether the descriptor of a stream is closed when the caller runs another program. -/
def closesOnExec? (i : Nat) (stream : Launch.Stream) : Option Bool := do
  let d ← h.descriptor? i stream
  (h.launch.caller.table.get d).map (·.closeOnExec)

/-- Writes as much of `s` into a pipe as there is room for: what is left, once there is some room or
nobody to read. -/
def offer (pipe : Nat) (s : Bytes) : Host × Option (Except StreamError Bytes) :=
  if !h.hasReader pipe then (h, some (.error (.failed .brokenPipe)))
  else
    let room := h.room pipe
    if room = 0 then (h, none)
    else (h.setQueue pipe ((h.queue pipe).push (s.take room)), some (.ok (s.drop room)))

/-- Writes all of `s` into a pipe, in as many pieces as there are units of fuel. -/
def writePipe (pipe : Nat) : Nat → Bytes → Host → Host × Option (Except StreamError Unit)
  | _, [], h => (h, some (.ok ()))
  | 0, _, h => (h, none)
  | fuel + 1, s, h =>
    match h.runUntil (fun h => h.offer pipe s) patience with
    | (h, some (.ok rest)) => writePipe pipe fuel rest h
    | (h, some (.error e)) => (h, some (.error e))
    | (h, none) => (h, none)

def write (i : Nat) (s : Bytes) : Host × Option (Except StreamError Unit) :=
  match h.streamFile? i .stdin with
  | some (.pipe e) => writePipe e.pipe s.length s h
  | _ => (h, some (.error .closed))

/-- Takes up to `n` of the bytes in a pipe, once there are some or nobody can write more. -/
def accept (pipe n : Nat) : Host × Option Bytes :=
  let q := h.queue pipe
  if q.size = 0 then (h, if h.hasWriter pipe then none else some [])
  else
    let (s, q) := q.pop n
    (h.setQueue pipe q, some s)

/-- Reads `n` bytes from a pipe or all up to its end; `pieces` holds what has been read, the last
first. -/
def readPipe (pipe : Nat) : Nat → Nat → List Bytes → Host → Host × Option Bytes
  | 0, _, pieces, h => (h, some pieces.reverse.flatten)
  | _, 0, pieces, h => (h, some pieces.reverse.flatten)
  | fuel + 1, n, pieces, h =>
    match h.runUntil (fun h => h.accept pipe n) patience with
    | (h, some []) => (h, some pieces.reverse.flatten)
    | (h, some s) => readPipe pipe fuel (n - s.length) (s :: pieces) h
    | (h, none) => (h, none)

/-- More bytes than are ever read. -/
def unbounded : Nat := 4611686018427387904

/-- Reads from a stream of a child: `n` bytes, or with `none` all, or as many as there are up to the
end. -/
def read (i : Nat) (stream : Launch.Stream) (n : Option Nat) :
    Host × Option (Except StreamError Bytes) :=
  match h.streamFile? i stream with
  | some (.pipe e) =>
    let (h, s) := readPipe e.pipe patience (n.getD unbounded) [] h
    (h, s.map .ok)
  | _ => (h, some (.error .closed))

/-! ## Signals -/

def send (pid : Nat) (signal : Int) : Host × Option OsError :=
  if !h.isPresent pid then (h, some .noSuchProcess)
  else if signal < 0 || Signal.greatest < signal.toNat then (h, some .invalidArgument)
  else (h.deliver pid signal.toNat, none)

/-! ## Waiting -/

/-- Lets the calls that wait take the steps that they can take. -/
def progress : Host :=
  { h with waiting := h.waiting.run h.calls (h.waiting.runFuel h.calls) }

/-- The outcomes of calls, once all of them have ended. -/
def outcomes? (calls : List Nat) : Option (List Outcome) := calls.mapM h.waiting.outcome?

/-- Lets the calls that wait go on, and looks at the outcomes of some. -/
def settle (calls : List Nat) : Host × Option (List Outcome) :=
  let h := h.progress
  (h, h.outcomes? calls)

/-- Lets `n` threads wait for a process at the same time. -/
def waitAll (n pid : Nat) (limit : Timeout) : Host × Option (List Outcome) :=
  let calls := (List.range n).map (h.nextCall + ·)
  let h := calls.foldl (fun h i => h.wait (.begin i pid limit))
    { h with nextCall := h.nextCall + n, calls := calls }
  let (h, outcomes) := h.runUntil (fun h => h.settle calls) patience
  ({ h with calls := [] }, outcomes)

def waitFor (pid : Nat) (limit : Timeout) : Host × Option Outcome :=
  let (h, outcomes) := h.waitAll 1 pid limit
  (h, outcomes.bind (·.head?))

/-- Waits for a process, and tells whether less than half of the limit has passed. -/
def waitMeasured (pid limit : Nat) : Host × Option (Outcome × Bool) :=
  let start := h.now
  let (h, outcome) := h.waitFor pid (some limit)
  (h, outcome.map fun o => (o, 2 * (h.now - start) < limit))

/-- Waits for a process without blocking as often as it takes until the process has ended. -/
def poll (pid : Nat) : Host × Option Outcome :=
  h.runUntil (fun h => match h.waitFor pid (some 0) with
    | (h, some .timedOut) => (h, none)
    | answer => answer) patience

/-- Waits for the process with a number that may be none at all. -/
def waitForAny (pid : Int) (limit : Timeout) : Host × Option Outcome :=
  match Waiting.processNumber? pid with
  | some pid => h.waitFor pid limit
  | none => (h, some (.failed .invalidArgument))

end Host

end Groundwork
