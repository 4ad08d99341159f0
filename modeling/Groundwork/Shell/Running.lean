import Groundwork.Shell.Builtin
import Groundwork.Shell.Redirection

/-!
# How a shell goes on

`Shell.request` takes the first frame of a shell and says what comes of it; a shell with nothing left to
do exits. An external command gets a process of its own, except the last one of a shell that is itself
such a process: it becomes the command, unless it has traps to see to. A signal that the shell catches
puts what is to be run for it before everything else.
-/

namespace Groundwork

namespace Shell

variable (s : Shell)

/-- Runs a command with its assignments and redirections. -/
def command (e : Surroundings) (files : Files) (c : SimpleCommand) (last : Bool) :
    Request :=
  let argv := c.words.flatMap fun w => w.arguments s.parameters
  match c.redirects.foldlM s.redirect files with
  | .error text => s.done files 2 2 (s.complaint text)
  | .ok redirected =>
    match argv with
    | [] =>
      let p := c.assignments.foldl (fun p (name, w) => p.assign name (w.value p)) s.parameters
      .go ({ s with parameters := p }.withStatus 0) []
    | name :: args =>
      match s.own? e redirected name args with
      | some request => request
      | none =>
        if last && s.traps = [] then
          .become redirected argv fun why => s.complaint (Ascii.toString name ++ ": " ++ why)
        else .fork [s.child (.simple c)] false fun pids => s.push [.await pids]

def script (e : Surroundings) (files : Files) (a : Script) (last : Bool) : Request :=
  match a with
  | .simple c => s.command e files c last
  | .pipe .. => .fork (s.stages a) false fun pids => s.push [.await pids]
  | .sequence a b => .go (s.push [.run a false, .run b last]) []
  | .both a b => .go (s.push [.run a false, .runIf true b last]) []
  | .either a b => .go (s.push [.run a false, .runIf false b last]) []
  | .negate a => .go (s.push [.run a false, .negate]) []
  | .background a => .fork [s.child a] true fun pids =>
    { s with
      parameters := { s.parameters with status := 0, background := pids.getLast? }
      jobs := s.jobs ++ pids }
  | .subshell a =>
    if last && s.traps = [] then .go (s.push [.run a true]) []
    else .fork [s.child a] false fun pids => s.push [.await pids]
  | .redirected a redirects =>
    match redirects.foldlM s.redirect files with
    | .error text => s.done files 2 2 (s.complaint text)
    | .ok redirected => .reopen (s.push [.run a false, .reopen files]) redirected
  | .forEach name items body =>
    let items := items.flatMap fun w => w.arguments s.parameters
    .go ((s.withStatus 0).push [.forEach name items body]) []
  | .loop expected condition body =>
    .go (s.push [.run condition false, .decide expected condition body 0]) []
  | .choose condition yes no => .go (s.push [.run condition false, .choose yes no last]) []
  | .nothing => .go s []

/-! ## Frames -/

/-- The code by which a shell knows how a process has ended. -/
def codeOf (status : Status) : UInt8 :=
  if status.signalBits = 0 then status.codeByte else UInt8.ofNat (128 + status.signalBits)

/-- What a shell says of a process that a signal has ended. -/
def obituary (status : Status) : List Frame :=
  let signal := status.signalBits
  if signal = 0 || signal = Signal.interrupt || signal = Signal.brokenPipe then []
  else [.complain (Utility.ascii (Signal.meaning signal ++ "\n"))]

/-- The first lines of a text that are a script, and what follows them. -/
def nextLines? (ended : Bool) (text : Bytes) : Option (Script × Bytes) :=
  let ls := Utility.lines text
  (List.range ls.length).findSome? fun i =>
    let taken := (ls.take (i + 1)).flatten
    if taken.getLast? = some 10 || ended then
      (Script.ofBytes? taken).map (·, (ls.drop (i + 1)).flatten)
    else none

/-- Runs the next lines of the script on the standard input, reading more where there are none. -/
def fetch (files : Files) : Request :=
  match nextLines? s.ended s.unread with
  | some (a, rest) => .go ({ s with unread := rest }.push [.run a false, .fetch]) []
  | none =>
    if s.ended then
      if s.unread = [] then .go s []
      else s.failing files 2 "Syntax error: end of file unexpected"
    else
      match files.get? 0 with
      | none => .go s []
      | some f => .take f false fun
        | none => { s with ended := true }.push [.fetch]
        | some b => { s with unread := s.unread ++ b }.push [.fetch]

/-- What a shell does with a frame. -/
def frame (e : Surroundings) (files : Files) (f : Frame) : Request :=
  let status := s.parameters.status
  match f with
  | .run a last => s.script e files a last
  | .runIf expected a last =>
    .go (if (status = 0) = expected then s.push [.run a last] else s) []
  | .negate => s.quietly (if status = 0 then 1 else 0)
  | .choose yes no last =>
    if status = 0 then .go (s.push [.run yes last]) []
    else .go ((s.withStatus 0).push [.run no last]) []
  | .again expected condition body =>
    .go (s.push [.run condition false, .decide expected condition body status]) []
  | .decide expected condition body result =>
    if (status = 0) = expected then
      .go (s.push [.run body false, .again expected condition body]) []
    else s.quietly result
  | .forEach name items body =>
    match items with
    | [] => .go s []
    | item :: items =>
      .go ({ s with parameters := s.parameters.assign name item }.push
        [.run body false, .forEach name items body]) []
  | .await pids =>
    match pids with
    | [] => .go s []
    | pid :: pids => .await pid fun
      | some status => (s.withStatus (codeOf status)).push (obituary status ++ [.await pids])
      | none => s.push [.await pids]
  | .collect pids named =>
    match pids with
    | [] => .go s []
    | pid :: pids => .await pid fun
      | some status =>
        let told := if named then obituary status else []
        { s.withStatus (codeOf status) with jobs := s.jobs.erase pid }.push
          (told ++ [Frame.collect pids named])
      | none => (s.withStatus 127).push [.collect pids named]
  | .readLine f names raw line => .take f true fun
    | none => s.assignLine names raw line 1
    | some more =>
      let line := line ++ more
      if line.getLast? = some 10 && (raw || !continues line) then s.assignLine names raw line 0
      else s.push [.readLine f names raw line]
  | .fetch => s.fetch files
  | .send signal pids =>
    match pids with
    | [] => .go s []
    | pid :: pids => .signal pid signal fun
      | true => s.push [.send signal pids]
      | false =>
        (s.withStatus 1).push
          [.complain (s.complaint "kill: No such process\n"), .send signal pids]
  | .reopen files => .reopen s files
  | .complain text => s.done files status 2 text
  | .restore status => s.quietly status
  | .leave code => .exit code

/-- What a shell with its open files does next. -/
def request (e : Surroundings) (files : Files) : Request :=
  match s.todo with
  | [] => s.leaving s.parameters.status
  | f :: rest => { s with todo := rest }.frame e files f

/-! ## Signals -/

/-- Whether a shell runs something when a signal arrives. -/
def catches (signal : Nat) : Bool := Signal.isCatchable signal && (s.traps.lookup signal).isSome

/-- Whether a shell waits for a process in the foreground, which it does to the end. -/
def isWaiting : Bool :=
  match s.todo with
  | .await _ :: _ => true
  | _ => false

/-- The shell after a signal that it catches; what it was waiting for it gives up. -/
def interrupted (signal : Nat) : Shell :=
  let s := match s.todo with
    | .readLine _ names raw line :: rest => { s with todo := rest }.assignLine names raw line 1
    | .collect .. :: rest => { s with todo := rest }.withStatus (UInt8.ofNat (128 + signal))
    | _ => s
  match (s.traps.lookup signal).bind Script.ofBytes? with
  | some a => s.push [.run a false, .restore s.parameters.status]
  | none => s

end Shell

end Groundwork
