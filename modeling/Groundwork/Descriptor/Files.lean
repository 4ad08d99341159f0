import Groundwork.Descriptor.Table

/-!
# Open files of a running program

Once a program runs, its descriptors matter only by the files they refer to: they are kept as a list,
and a descriptor that is not on it is closed.
-/

namespace Groundwork

/-- The file that gives nothing to read and swallows what is written. -/
def File.nothing : File := .other 0

/-- The open descriptors of a program, each at most once. -/
abbrev Files := List (Nat × File)

namespace Files

variable (fs : Files)

def get? (d : Nat) : Option File := fs.lookup d

def close (d : Nat) : Files := fs.filter (·.1 ≠ d)

def set (d : Nat) (f : File) : Files := (d, f) :: fs.close d

def refersTo (f : File) : Bool := fs.any (·.2 = f)

def ofTable (t : Table) : Files :=
  (List.range t.limit).filterMap fun d => (t.get d).map fun e => (d, e.file)

@[simp] theorem get?_set_self (d : Nat) (f : File) : (fs.set d f).get? d = some f := by
  simp [set, get?]

@[simp] theorem get?_close_self (d : Nat) : (fs.close d).get? d = none := by
  simp only [close, get?, List.lookup_eq_none_iff, List.mem_filter]
  rintro p ⟨-, hp⟩
  have hp : p.1 ≠ d := by simpa using hp
  simp [hp.symm]

end Files

end Groundwork
