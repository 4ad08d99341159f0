/-!
# Numbered members

Participants of a system (children, launches, calls, monitors) are told apart by number. A family
gives the member with each number, if there is one.
-/

namespace Groundwork

/-- The members of a kind, by number. -/
abbrev Family (α : Type) := Nat → Option α

namespace Family

variable {α : Type}

def empty : Family α := fun _ => none

/-- Replaces the member with number `i`; `none` takes it away. -/
def set (f : Family α) (i : Nat) (a : Option α) : Family α := fun j => if j = i then a else f j

@[simp] theorem set_self (f : Family α) (i : Nat) (a : Option α) : f.set i a i = a := by simp [set]

@[simp] theorem set_set (f : Family α) (i : Nat) (a b : Option α) : (f.set i a).set i b = f.set i b := by
  funext j
  unfold set
  split <;> rfl

theorem set_of_ne (f : Family α) {i j : Nat} (h : j ≠ i) (a : Option α) : f.set i a j = f j := by
  simp [set, h]

end Family

end Groundwork
