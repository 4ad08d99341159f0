import Groundwork.Host.Basic
import Groundwork.Shell.Start
import Groundwork.Utility.Catalogue

/-!
# Turns

Processes take turns. In a turn a process writes some of what it is writing, or takes its program's next
step; it has no turn while it is stopped or waits for something that has not happened.
-/

namespace Groundwork

namespace Host

/-! ## Programs and their names -/

def shellNames : List Bytes := [Utility.ascii "sh", Utility.ascii "dash"]

/-- The folders in which programs are looked up. -/
def folders : List Bytes := [Utility.ascii "/usr/bin/", Utility.ascii "/bin/"]

def isProgramName (name : Bytes) : Bool :=
  shellNames.contains name || Utility.names.contains (Ascii.toString name)

/-- The name of the program that a path, or without a slash a name, leads to. -/
def resolve? (program : Bytes) : Option Bytes :=
  let name? := if program.contains '/'.toUInt8 then
      folders.findSome? fun f => if f.isPrefixOf program then some (program.drop f.length) else none
    else some program
  name?.filter isProgramName

/-- The greatest size of one argument, with the byte that ends it. -/
def argumentLimit : Nat := 131072

/-- The greatest size of all arguments, with the places that point to them. -/
def vectorLimit : Nat := 2097152

/-- Whether the system takes an argument vector. -/
def fits (argv : List Bytes) : Bool :=
  argv.all (·.length < argumentLimit) && argv.foldl (fun n a => n + a.length + 9) 0 ≤ vectorLimit

def isRunnable (c : Command) : Bool := (resolve? c.program).isSome && fits c.argv

variable (h : Host)

/-- A mask of signals as it is shown, one bit for each signal from 1 on. -/
def mask (signals : List Nat) : Bytes :=
  (List.range 16).reverse.map fun i =>
    let bit (j : Nat) : Nat := if signals.contains (4 * i + j + 1) then 1 <<< j else 0
    let d := bit 0 + bit 1 + bit 2 + bit 3
    UInt8.ofNat (if d < 10 then 48 + d else 87 + d)

/-- The caught signals of a program. -/
def caughtBy : Program → List Nat
  | .shell s => (s.traps.map (·.1)).filter s.catches
  | .utility _ => []

/-- What a process can read about itself. -/
def description (pid : Nat) (p : Proc) : Bytes :=
  let line (name : String) (value : Bytes) : Bytes := Utility.ascii name ++ [58, 9] ++ value ++ [10]
  line "Pid" (Numeral.decimal pid)
    ++ line "PPid" (Numeral.decimal (p.parent.getD 1))
    ++ line "SigPnd" (mask [])
    ++ line "ShdPnd" (mask p.pending)
    ++ line "SigBlk" (mask p.signals.blocked)
    ++ line "SigIgn" (mask p.signals.ignored)
    ++ line "SigCgt" (mask (caughtBy p.program))

/-- The kind of a file that every process finds in the same place. -/
def kindOf? (path : Bytes) : Option FileKind :=
  if path.contains '/'.toUInt8 && (resolve? path).isSome then some .program
  else
    match Ascii.toString path with
    | "/etc/passwd" => some .regular
    | "/proc/self/status" => some .regular
    | "/dev/zero" => some .device
    | "/" => some .folder
    | "/bin" => some .folder
    | "/dev" => some .folder
    | "/dev/fd" => some .folder
    | "/etc" => some .folder
    | "/proc" => some .folder
    | "/proc/self" => some .folder
    | "/proc/self/fd" => some .folder
    | "/tmp" => some .folder
    | "/usr" => some .folder
    | "/usr/bin" => some .folder
    | _ => none

/-- How a shell exits that cannot become a program, and why it cannot. -/
def refusal (program : Bytes) (argv : List Bytes) : UInt8 × String :=
  if (resolve? program).isSome && !fits argv then (126, "Argument list too long")
  else if (kindOf? program).isSome then (126, "Permission denied")
  else (127, "not found")

def surroundings (pid : Nat) (p : Proc) : Surroundings where
  now := h.now
  file? path :=
    if path = Utility.ascii "/proc/self/status" then some (description pid p)
    else if path = Utility.ascii "/dev/null" then some []
    else none
  folder? path :=
    if path = Utility.ascii "/proc/self/fd" || path = Utility.ascii "/dev/fd" then
      let ds := p.files.map (·.1)
      let extra := (List.range (ds.length + 1)).find? fun d => !ds.contains d
      some ((ds ++ extra.toList).map Numeral.decimal)
    else none
  kind? path :=
    match Shell.openFile? p.files path with
    | some (.pipe _) => some .pipe
    | some (.other _) => some .device
    | none => kindOf? path

/-- The process with the program of an argument vector, if there is one. -/
def become? (pid : Nat) (p : Proc) (program : Bytes) (argv : List Bytes) : Option Proc := do
  let name ← resolve? program
  if fits argv then
    if shellNames.contains name then
      return { p with program := .shell (.start pid argv) }
    else
      let start := Utility.start (h.surroundings pid { p with program := .utility (.finish 0) }) name
        argv.tail
      let output := start.output.filterMap fun (fd, s) => (p.files.get? fd).map (·, s)
      return { p with program := .utility start.rest, output := p.output ++ output }
  else none

/-! ## Steps -/

/-- How many bytes are moved at a time. -/
def chunkSize : Nat := 65536

/-- Writes some of what a process is writing. -/
def transmit (pid : Nat) (p : Proc) (f : File) (s : Bytes) (more : List (File × Bytes)) :
    Option Host :=
  let skip := some (h.setProc pid { p with output := more })
  match f with
  | .pipe ⟨pipe, .writer⟩ =>
    if s = [] then skip
    else if !h.hasReader pipe then
      (h.setProc pid { p with output := more }).strike pid Signal.brokenPipe
    else
      let room := h.room pipe
      if room = 0 then none
      else
        let h := h.setQueue pipe ((h.queue pipe).push (s.take room))
        match s.drop room with
        | [] => h.setProc pid { p with output := more }
        | rest => h.setProc pid { p with output := (f, rest) :: more }
  | _ => skip

/-- What a process reads from a file: nothing yet where it has to wait, and `none` inside at the end;
`count` says how many bytes of those that are there it takes. -/
def receive? (f : File) (count : Queue → Nat) : Option (Host × Option Bytes) :=
  match f with
  | .pipe ⟨pipe, .reader⟩ =>
    let q := h.queue pipe
    if q.size = 0 then if h.hasWriter pipe then none else some (h, none)
    else
      let (s, q) := q.pop (count q)
      some (h.setQueue pipe q, some s)
  | _ => some (h, none)

/-- How many bytes a line at the front of a queue has, with its end. -/
def lineLength (q : Queue) : Nat :=
  let s := if q.front.contains 10 then q.front else q.toList
  match s.idxOf? 10 with
  | some i => i + 1
  | none => q.size

def utilityTurn (pid : Nat) (p : Proc) (u : Utility) : Option Host :=
  let prints (s : Bytes) (rest : Utility) : Proc :=
    { p with program := .utility rest, output := (p.files.get? 1).toList.map (·, s) }
  match u with
  | .finish code => h.finish pid (.exited code)
  | .filter f held => do
    let count := match f with
      | .first n => min n chunkSize
      | _ => chunkSize
    let (h, s) ← h.receive? ((p.files.get? 0).getD .nothing) fun _ => count
    match s with
    | some s =>
      let (text, rest) := Utility.feed f held s
      return h.setProc pid (prints text (rest.getD (.finish 0)))
    | none =>
      let (text, code) := Utility.flush f held
      return h.setProc pid (prints text (.finish code))
  | .zeros left =>
    if left = 0 then h.finish pid (.exited 0)
    else
      let n := min left chunkSize
      h.setProc pid (prints (List.replicate n 0) (.zeros (left - n)))
  | .forever line =>
    h.setProc pid (prints (List.replicate (chunkSize / (line.length + 1) + 1) line).flatten u)
  | .sleep wake => if wake ≤ h.now then h.finish pid (.exited 0) else none

/-- Starts the shells of commands joined by pipes as children of a process, and tells their numbers. -/
def fork (pid : Nat) (p : Proc) (stages : List Shell) (background : Bool) : Host × List Nat :=
  let firstPid := h.launch.nextPid
  let firstPipe := h.launch.caller.nextPipe
  let last := stages.length - 1
  let signals := if background then
      { p.signals with ignored := p.signals.ignored ++ [Signal.interrupt, 3] }
    else p.signals
  let born (s : Shell) (i : Nat) : Nat × Proc :=
    let files := if i = 0 then if background then p.files.set 0 .nothing else p.files
      else p.files.set 0 (.pipe ⟨firstPipe + i - 1, .reader⟩)
    let files := if i = last then files else files.set 1 (.pipe ⟨firstPipe + i, .writer⟩)
    (firstPid + i, ⟨some pid, files, signals, false, [], [], .shell s, none⟩)
  ({ h with
    launch := { h.launch with
      nextPid := firstPid + stages.length
      caller := { h.launch.caller with nextPipe := firstPipe + last } }
    procs := h.procs ++ stages.zipIdx.map fun (s, i) => born s i },
    (List.range stages.length).map (firstPid + ·))

def shellTurn (pid : Nat) (p : Proc) (s : Shell) : Option Host :=
  let goes (h : Host) (s : Shell) : Host := h.setProc pid { p with program := .shell s }
  match p.pending, s.isWaiting with
  | signal :: pending, false =>
    h.setProc pid { p with program := .shell (s.interrupted signal), pending := pending }
  | _, _ =>
    match s.request (h.surroundings pid p) p.files with
    | .go s printed => h.setProc pid { p with program := .shell s, output := printed }
    | .reopen s files => h.setProc pid { p with program := .shell s, files := files }
    | .become files argv complain =>
      match h.become? pid { p with files := files } (argv.headD []) argv with
      | some p => h.setProc pid p
      | none =>
        let (code, why) := refusal (argv.headD []) argv
        h.setProc pid { p with
          program := .utility (.finish code)
          output := (files.get? 2).toList.map (·, complain why) }
    | .fork stages background next =>
      let (h, pids) := h.fork pid p stages background
      goes h (next pids)
    | .await child next =>
      match (h.proc? child).filter (·.parent = some pid) with
      | none => goes h (next none)
      | some c =>
        match c.status with
        | none => none
        | some status => goes (h.removeProc child) (next (some status))
    | .take file line next => do
      let (h, s) ← h.receive? file (if line then lineLength else fun _ => chunkSize)
      return goes h (next s)
    | .signal target signal next =>
      let present := h.isPresent target
      (goes h (next present)).deliver target signal
    | .ignore signals flag next =>
      let others := p.signals.ignored.filter (!signals.contains ·)
      h.setProc pid { p with
        program := .shell next
        signals := { p.signals with ignored := if flag then others ++ signals else others } }
    | .exit code => h.finish pid (.exited code)

/-- The turn of a process, if it has one. -/
def turn? (pid : Nat) : Option Host := do
  let p ← h.proc? pid
  if p.stopped || p.status.isSome then none
  else
    match p.output with
    | (f, s) :: more => h.transmit pid p f s more
    | [] =>
      match p.program with
      | .shell s => h.shellTurn pid p s
      | .utility u => h.utilityTurn pid p u

/-- A turn for every process, unless none has one. -/
def round? : Option Host :=
  let (h, moved) := h.procs.foldl (fun (h, moved) (pid, _) =>
    match h.turn? pid with
    | some h => (h, true)
    | none => (h, moved)) (h, false)
  if moved then some h else none

/-! ## Time -/

/-- How long a turn takes, in nanoseconds. -/
def turnTime : Nat := 10000

/-- The times at which something happens by itself. -/
def alarms : List Nat :=
  (h.procs.filterMap fun (_, p) => match p.program with
    | .utility (.sleep wake) => some wake
    | _ => none) ++ h.calls.filterMap h.waiting.wakeTime?

/-- The next time at which something happens by itself. -/
def nextAlarm? : Option Nat := (h.alarms.filter (h.now < ·)).min?

/-- The most rounds that are waited for anything. -/
def patience : Nat := 4000000

/-- Lets the processes run and time pass until something is ready. -/
def runUntil {α : Type} (ready : Host → Host × Option α) : Nat → Host → Host × Option α
  | 0, h => (h, none)
  | fuel + 1, h =>
    match ready h with
    | (h, some a) => (h, some a)
    | (h, none) =>
      match h.round? with
      | some h => runUntil ready fuel (h.tick turnTime)
      | none =>
        match h.nextAlarm? with
        | some t => runUntil ready fuel (h.tick (t - h.now))
        | none => (h, none)

end Host

end Groundwork
