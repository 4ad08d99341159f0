import Groundwork.Waiting.State

/-!
# The steps of waiting

What each participant does next in a state: a call in each of its phases, a monitor in each of its own,
and the children and the clock by themselves.
-/

namespace Groundwork

namespace Waiting

/-- The greatest process number there is; numbers above it, and zero, stand for groups of processes. -/
def greatestPid : Nat := 2147483647

/-- The first time, in nanoseconds, that is beyond what deadlines can say. -/
def timeBound : Nat := 9223372036854775808 * Nanoseconds.perSecond

namespace State

variable (s : State)

def move (i : Nat) (c : Call) (p : Phase) : State :=
  { s with calls := s.calls.set i (some { c with phase := p }) }

def setMonitor (m : Nat) (x : Monitor) : State :=
  { s with monitors := s.monitors.set m (some x) }

/-- What the system answers to a call that does not block: the child's status, which is thereby
taken, or nothing while the child runs. -/
def take? (pid : Nat) : Except OsError (Option (Status × State)) :=
  match s.children pid with
  | none => .error .noChild
  | some ⟨_, none⟩ => .ok none
  | some ⟨_, some status⟩ =>
    .ok (some (status, { s with children := s.children.set pid none }))

/-- Ends a call by taking the status of its child; `still` is what it does while the child runs. -/
def reap (i : Nat) (c : Call) (still : Option State) : Option State :=
  match s.take? c.pid with
  | .error e => some (s.move i c (.finished (.failed e)))
  | .ok (some (status, s)) => some (s.move i c (.finished (.ofStatus status)))
  | .ok none => still

/-- The next step of a call. -/
def advance (i : Nat) (c : Call) : Option State :=
  match c.phase with
  | .starting =>
    some (s.move i c (
      if c.pid = 0 ∨ greatestPid < c.pid then .finished (.failed .invalidArgument)
      else if c.limit = none then .blocking
      else .polling))
  | .blocking =>
    s.reap i c ((s.children c.pid).map fun child => s.move i c (.blocked child.serial))
  | .blocked serial =>
    match s.children c.pid with
    | some child =>
      if child.serial = serial then s.reap i c none
      else some (s.move i c (.finished (.failed .noChild)))
    | none => some (s.move i c (.finished (.failed .noChild)))
  | .polling => s.reap i c (s.move i c (if c.limit = some 0 then .finished .timedOut else .timing))
  | .timing =>
    match c.limit with
    | none => some (s.move i c .blocking)
    | some limit =>
      some (s.move i c (if s.now + limit < timeBound then .watching (s.now + limit) else .blocking))
  | .watching deadline =>
    if s.registrar = none then
      match s.register c.pid with
      | some m => some (s.move i c (.locking deadline m))
      | none => some ({ s with registrar := some i }.move i c (.engaging deadline))
    else none
  | .engaging deadline =>
    let m := s.nextMonitor
    some (({ s with nextMonitor := m + 1 }.setMonitor m ⟨c.pid, .running, .waiting, none⟩).move i c
      (.registering deadline m))
  | .registering deadline m =>
    some ({ s with registrar := none, register := s.register.set c.pid (some m) }.move i c
      (.locking deadline m))
  | .locking deadline m =>
    match s.monitors m with
    | some x =>
      if x.holder = none then
        some ((s.setMonitor m { x with holder := some i }).move i c (.inspecting deadline m))
      else none
    | none => none
  | .inspecting deadline m =>
    match s.monitors m with
    | some x =>
      match x.state with
      | .running => some (s.move i c (.deciding deadline m))
      | .ended => some ((s.setMonitor m { x with holder := none }).move i c .reaping)
      | .failed e =>
        some ((s.setMonitor m { x with holder := none }).move i c (.finished (.failed e)))
    | none => none
  | .deciding deadline m =>
    if deadline ≤ s.now then
      match s.monitors m with
      | some x => some ((s.setMonitor m { x with holder := none }).move i c (.finished .timedOut))
      | none => none
    else some (s.move i c (.retiring deadline m s.now))
  | .retiring deadline m now =>
    match s.monitors m with
    | some x =>
      some ((s.setMonitor m { x with holder := none }).move i c
        (.sleeping deadline m (s.now + (deadline - now))))
    | none => none
  | .sleeping .. => none
  | .reaping => s.reap i c (s.move i c .blocking)
  | .finished _ => none

/-- A call fails to start a monitor: the monitor says so and is never put on the register. -/
def refuse (i : Nat) (c : Call) (e : OsError) : Option State :=
  match c.phase with
  | .engaging deadline =>
    let m := s.nextMonitor
    some (({ s with nextMonitor := m + 1, registrar := none }.setMonitor m
      ⟨c.pid, .failed e, .finished, none⟩).move i c (.locking deadline m))
  | _ => none

/-- A call after its monitor has woken those that sleep. -/
def roused (m : Nat) (c : Call) : Call :=
  match c.phase with
  | .sleeping deadline n _ => if n = m then { c with phase := .locking deadline m } else c
  | _ => c

/-- The next step of a monitor. -/
def runMonitor (m : Nat) (x : Monitor) : Option State :=
  match x.phase with
  | .waiting =>
    match s.children x.pid with
    | none => some (s.setMonitor m { x with phase := .unregistering (.failed .noChild) })
    | some ⟨_, some _⟩ => some (s.setMonitor m { x with phase := .unregistering .ended })
    | some ⟨serial, none⟩ => some (s.setMonitor m { x with phase := .attached serial })
  | .attached serial =>
    match s.children x.pid with
    | none => some (s.setMonitor m { x with phase := .unregistering (.failed .noChild) })
    | some child =>
      if child.serial ≠ serial then
        some (s.setMonitor m { x with phase := .unregistering (.failed .noChild) })
      else if child.status.isSome then
        some (s.setMonitor m { x with phase := .unregistering .ended })
      else none
  | .unregistering told =>
    if s.registrar = none then
      let s := if s.register x.pid = some m then { s with register := s.register.set x.pid none }
        else s
      some (s.setMonitor m { x with phase := .publishing told })
    else none
  | .publishing told =>
    if x.holder = none then some (s.setMonitor m { x with state := told, phase := .notifying })
    else none
  | .notifying =>
    some ({ s with calls := fun i => (s.calls i).map (roused m) }.setMonitor m
      { x with phase := .finished })
  | .finished => none

/-- The state after an action, if the action can happen. -/
def step (a : Action) : Option State :=
  match a with
  | .launch pid =>
    if s.children pid = none ∧ 0 < pid ∧ pid ≤ greatestPid then
      some { s with
        children := s.children.set pid (some ⟨s.nextSerial, none⟩)
        nextSerial := s.nextSerial + 1 }
    else none
  | .terminate pid status =>
    match s.children pid with
    | some ⟨serial, none⟩ =>
      some { s with children := s.children.set pid (some ⟨serial, some status⟩) }
    | _ => none
  | .begin i pid limit =>
    if s.calls i = none then
      some { s with calls := s.calls.set i (some ⟨pid, limit, .starting⟩) }
    else none
  | .advance i => (s.calls i).bind (s.advance i)
  | .refuse i e => (s.calls i).bind (s.refuse i · e)
  | .interrupt i => (s.calls i).bind fun c =>
    match c.phase with
    | .blocked _ => some (s.move i c .blocking)
    | _ => none
  | .interruptMonitor m => (s.monitors m).bind fun x =>
    match x.phase with
    | .attached _ => some (s.setMonitor m { x with phase := .waiting })
    | _ => none
  | .wake i => (s.calls i).bind fun c =>
    match c.phase with
    | .sleeping deadline m _ => some (s.move i c (.locking deadline m))
    | _ => none
  | .monitor m => (s.monitors m).bind (s.runMonitor m)
  | .tick d => some { s with now := s.now + d }

/-- The outcome of a call that has ended. -/
def outcome? (i : Nat) : Option Outcome :=
  match s.calls i with
  | some ⟨_, _, .finished o⟩ => some o
  | _ => none

end State

end Waiting

end Groundwork
