/-!
# Descriptor tables

A process refers to open files by small numbers, its descriptors. A new descriptor is the lowest number
that is free and below the table's limit. An entry may be marked to be closed when the process runs
another program.
-/

namespace Groundwork

/-- The two ends of a pipe. -/
inductive PipeSide
  | reader
  | writer
deriving DecidableEq, Repr

/-- One end of a pipe; pipes are told apart by number. -/
structure PipeEnd where
  pipe : Nat
  side : PipeSide
deriving DecidableEq, Repr

/-- What a descriptor refers to. -/
inductive File
  | pipe (e : PipeEnd)
  /-- Any other file. -/
  | other (id : Nat)
deriving DecidableEq, Repr

structure Entry where
  file : File
  closeOnExec : Bool
deriving DecidableEq, Repr

/-- The descriptors of a process; a new one is below `limit`. -/
structure Table where
  limit : Nat
  get : Nat → Option Entry

namespace Table

variable (t : Table)

def empty (limit : Nat) : Table := ⟨limit, fun _ => none⟩

def set (d : Nat) (e : Option Entry) : Table := { t with get := fun i => if i = d then e else t.get i }

/-- Closes a descriptor; nothing happens where it is not open. -/
def close (d : Nat) : Table := t.set d none

def isFree (d : Nat) : Bool := (t.get d).isNone

def lowestFree? : Option Nat := (List.range t.limit).find? t.isFree

def freeCount : Nat := (List.range t.limit).countP t.isFree

/-- Opens a file at the lowest free descriptor. -/
def open? (e : Entry) : Option (Nat × Table) :=
  t.lowestFree?.map fun d => (d, t.set d (some e))

/-- Makes a pipe whose ends are closed when another program is run: the descriptors of its reading
and its writing end, or nothing where two descriptors are not free. -/
def pipe? (pipe : Nat) : Option ((Nat × Nat) × Table) := do
  let (r, t) ← t.open? ⟨.pipe ⟨pipe, .reader⟩, true⟩
  let (w, t) ← t.open? ⟨.pipe ⟨pipe, .writer⟩, true⟩
  return ((r, w), t)

/-- Makes `dst` refer to what `src` refers to, not to be closed when another program is run; nothing
happens to a descriptor that is its own copy. -/
def dup2? (src dst : Nat) : Option Table :=
  match t.get src with
  | none => none
  | some e =>
    if t.limit ≤ dst then none
    else if src = dst then some t
    else some (t.set dst (some { e with closeOnExec := false }))

/-- Sets whether a descriptor is closed when another program is run. -/
def setCloseOnExec? (d : Nat) (flag : Bool) : Option Table :=
  (t.get d).map fun e => t.set d (some { e with closeOnExec := flag })

/-- The table with which another program starts. -/
def exec : Table := { t with get := fun d => (t.get d).filter (!·.closeOnExec) }

/-- Whether some descriptor below the limit refers to the file. -/
def refersTo (f : File) : Bool := (List.range t.limit).any fun d => (t.get d).any (·.file = f)

/-- The limit below which exactly `n` descriptors are free, counted from `d` on, where `budget`
descriptors are looked at. -/
def limitFrom : Nat → Nat → Nat → Nat
  | 0, d, _ => d
  | _, d, 0 => d
  | budget + 1, d, n + 1 => limitFrom budget (d + 1) (if t.isFree d then n else n + 1)

/-- The table with the limit lowered to leave `n` descriptors free. -/
def withFree (n : Nat) : Table := { t with limit := t.limitFrom t.limit 0 n }

@[simp] theorem get_set (d i : Nat) (e : Option Entry) :
    (t.set d e).get i = if i = d then e else t.get i := rfl

@[simp] theorem get_close (d i : Nat) : (t.close d).get i = if i = d then none else t.get i := rfl

@[simp] theorem limit_set (d : Nat) (e : Option Entry) : (t.set d e).limit = t.limit := rfl

@[simp] theorem limit_close (d : Nat) : (t.close d).limit = t.limit := rfl

@[simp] theorem get_exec (d : Nat) : t.exec.get d = (t.get d).filter (!·.closeOnExec) := rfl

end Table

end Groundwork
