import Groundwork.Number.LastError
import Mathlib.Tactic

/-!
# What is remembered of a thread's reads

Whatever is called on whatever threads, a thread is told of the last read on it whose failure is
remembered. A step changes at most the slot of its own thread, and that only if it is such a read
(`slot_step`); the slots after a run follow by induction on the calls (`slot_run`).
-/

namespace Groundwork

namespace LastError

variable {e : LastError} {calls : List (ℕ × Call)} {thread u : ℕ} {call : Call}

/-- What both questions are answered on a thread: whether its last text was no number, and whether its number
was out of range. -/
def flags (e : LastError) (thread : ℕ) : Bool × Bool := (e.invalid thread, e.outOfRange thread)

def reason? {α : Type} : Except ReadError α → Option ReadError
  | .ok _ => none
  | .error e => some e

def Call.result? : Call → Option (Except ReadError Scalar.Value)
  | .read r memory => some (r.scalar.read (CString.contents memory))
  | _ => none

theorem Call.result?_eq_none (h : ∀ r memory, call ≠ .read r memory) : call.result? = none := by
  cases call with
  | read r memory => exact absurd rfl (h r memory)
  | _ => rfl

/-- The result of the last such call on a thread. -/
def lastResult? (thread : ℕ) (calls : List (ℕ × Call)) : Option (Except ReadError Scalar.Value) :=
  (calls.filterMap fun c => if c.1 = thread then c.2.result? else none).getLast?

/-- What a thread is to be told after calls. -/
def flagsAfter (thread : ℕ) (calls : List (ℕ × Call)) : Bool × Bool :=
  match lastResult? thread calls with
  | none => (false, false)
  | some (.ok _) => (false, false)
  | some (.error .invalid) => (true, false)
  | some (.error .outOfRange) => (false, true)

/-- What a call on a thread is to return after others. -/
def answerAfter (calls : List (ℕ × Call)) (thread : ℕ) : Call → Answer
  | .read r memory =>
    match r.scalar.read (CString.contents memory) with
    | .ok v => .value v
    | .error _ => .value r.scalar.zero
  | .askInvalid => .flag (flagsAfter thread calls).1
  | .askOutOfRange => .flag (flagsAfter thread calls).2
  | .tell t s => .told (t.read s)
  | .tellString t s => .told (t.readString s)

theorem lastResult?_snoc : lastResult? thread (calls ++ [(u, call)]) =
    (if u = thread then call.result? else none).or (lastResult? thread calls) := by
  unfold lastResult?
  rw [List.filterMap_append, List.getLast?_append]
  split <;> simp [*]

/-! ### One call -/

theorem slot_read (r : Reader) (s : Bytes) :
    (e.read u r s).2.slot thread = if thread = u then reason? (r.scalar.read s) else e.slot thread := by
  unfold read
  cases r.scalar.read s <;> rfl

theorem value_read (r : Reader) (s : Bytes) : (e.read u r s).1 =
    match r.scalar.read s with
    | .ok v => v
    | .error _ => r.scalar.zero := by
  unfold read
  cases r.scalar.read s <;> rfl

theorem slot_step : (e.step u call).2.slot thread =
    ((if u = thread then call.result? else none).map reason?).getD (e.slot thread) := by
  cases call with
  | read r memory =>
    show (e.read u r (CString.contents memory)).2.slot thread = _
    rw [slot_read]
    by_cases h : u = thread
    · rw [if_pos h, if_pos h.symm]
      rfl
    · rw [if_neg h, if_neg (Ne.symm h)]
      rfl
  | askInvalid => split <;> rfl
  | askOutOfRange => split <;> rfl
  | tell t s => split <;> rfl
  | tellString t s => split <;> rfl

/-! ### All calls -/

theorem run_append (calls calls' : List (ℕ × Call)) :
    e.run (calls ++ calls') = ((e.run calls).1 ++ ((e.run calls).2.run calls').1, ((e.run calls).2.run calls').2) := by
  induction calls generalizing e with
  | nil => rfl
  | cons c calls ih => simp only [List.cons_append, run, ih]

theorem length_run (calls : List (ℕ × Call)) : (e.run calls).1.length = calls.length := by
  induction calls generalizing e with
  | nil => rfl
  | cons c calls ih => simp only [run, List.length_cons, ih]

theorem run_snoc : (e.run (calls ++ [(u, call)])).2 = ((e.run calls).2.step u call).2 := by
  rw [run_append]
  rfl

theorem slot_run (calls : List (ℕ × Call)) (thread : ℕ) :
    (fresh.run calls).2.slot thread = (lastResult? thread calls).bind reason? := by
  induction calls using List.reverseRecOn with
  | nil => rfl
  | append_singleton calls c ih =>
    obtain ⟨u, call⟩ := c
    rw [run_snoc, slot_step, ih, lastResult?_snoc]
    cases (if u = thread then call.result? else none) with
    | none => rfl
    | some result => rfl

theorem flags_run (calls : List (ℕ × Call)) (thread : ℕ) :
    (fresh.run calls).2.flags thread = flagsAfter thread calls := by
  unfold flags invalid outOfRange flagsAfter
  rw [slot_run]
  match lastResult? thread calls with
  | none => rfl
  | some (.ok _) => rfl
  | some (.error .invalid) => rfl
  | some (.error .outOfRange) => rfl

theorem answer_step (calls : List (ℕ × Call)) (u : ℕ) (call : Call) :
    ((fresh.run calls).2.step u call).1 = answerAfter calls u call := by
  have hflags := flags_run calls u
  cases call with
  | read r memory =>
    show Answer.value ((fresh.run calls).2.read u r (CString.contents memory)).1 = _
    rw [value_read, answerAfter]
    split <;> rfl
  | askInvalid => exact congrArg (fun p => Answer.flag p.1) hflags
  | askOutOfRange => exact congrArg (fun p => Answer.flag p.2) hflags
  | tell t s => rfl
  | tellString t s => rfl

theorem flagsAfter_ne (thread : ℕ) (calls : List (ℕ × Call)) : flagsAfter thread calls ≠ (true, true) := by
  unfold flagsAfter
  split <;> decide

theorem flags_step (h : u = thread → ∀ r memory, call ≠ .read r memory) :
    (e.step u call).2.flags thread = e.flags thread := by
  have hslot : (e.step u call).2.slot thread = e.slot thread := by
    rw [slot_step]
    by_cases hu : u = thread
    · rw [if_pos hu, Call.result?_eq_none (h hu)]
      rfl
    · rw [if_neg hu]
      rfl
  unfold flags invalid outOfRange
  rw [hslot]

theorem answers_run (u : ℕ) (call : Call) (calls' : List (ℕ × Call)) :
    (fresh.run (calls ++ (u, call) :: calls')).1[calls.length]? = some (answerAfter calls u call) := by
  have hlength := length_run (e := fresh) calls
  rw [run_append, List.getElem?_append_right hlength.le, hlength, Nat.sub_self, ← answer_step]
  rfl

/-- After any calls of any threads each thread is told of its own last remembered read, never both an invalid
text and one out of range, and a call that is not such a read or is on another thread changes nothing about
it; every call has returned what it is to return after those before it. -/
theorem run_tells_last (calls : List (ℕ × Call)) :
    (∀ thread, (fresh.run calls).2.flags thread = flagsAfter thread calls) ∧
    (∀ thread, (fresh.run calls).2.flags thread ≠ (true, true)) ∧
    (∀ thread u call, (u = thread → ∀ r memory, call ≠ .read r memory) →
      (fresh.run (calls ++ [(u, call)])).2.flags thread = (fresh.run calls).2.flags thread) ∧
    ∀ u call calls', (fresh.run (calls ++ (u, call) :: calls')).1[calls.length]? = some (answerAfter calls u call) := by
  refine ⟨flags_run calls, fun thread => ?_, fun thread u call h => ?_, answers_run⟩
  · rw [flags_run]
    exact flagsAfter_ne thread calls
  · rw [run_snoc]
    exact flags_step h

/-- Two threads: a number out of range, a text that is none, and a number that clears what the first thread had. -/
example :
    let told (thread : ℕ) : List (ℕ × Call) := [(thread, .askInvalid), (thread, .askOutOfRange)]
    (fresh.run ((0, .read .int64 [49, 120]) :: (1, .read .uint64 (List.replicate 20 57)) :: told 0 ++ told 1 ++
      (0, .read .uint64 [55, 0, 120]) :: told 0)).1 =
      [.value (.int 0), .value (.int 0), .flag true, .flag false, .flag false, .flag true, .value (.int 7),
        .flag false, .flag false] := rfl

end LastError

end Groundwork
