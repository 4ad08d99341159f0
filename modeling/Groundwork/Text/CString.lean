import Groundwork.Text.Ascii

/-!
# Text in fixed buffers

A text handed over in a buffer of fixed size is ended by a NUL byte and cut where the buffer has no
room for the rest. The buffer's owner learns the length of the whole text, so a length of at least the
buffer's size means that the text was cut.
-/

namespace Groundwork

namespace CString

/-- The text that a buffer holds: its bytes before the first NUL. -/
def contents (s : Bytes) : Bytes := s.takeWhile (· ≠ 0)

/-- The bytes of a character string, unless the NUL that is to end them is among them already. -/
def ofString? (s : String) : Option Bytes :=
  let bytes := s.toUTF8.data.toList
  if bytes.contains 0 then none else some bytes

/-- The buffer after `s` has been written into it; a buffer of no bytes is left alone. -/
def write (s buffer : Bytes) : Bytes :=
  if buffer = [] then buffer
  else
    let kept := s.take (buffer.length - 1)
    kept ++ 0 :: buffer.drop (kept.length + 1)

theorem ofString?_of_nul {s : String} (h : 0 ∈ s.toUTF8.data.toList) : ofString? s = none :=
  if_pos (List.contains_iff_mem.2 h)

theorem ofString?_of_no_nul {s : String} (h : 0 ∉ s.toUTF8.data.toList) :
    ofString? s = some s.toUTF8.data.toList :=
  if_neg (mt List.contains_iff_mem.1 h)

theorem length_write (s buffer : Bytes) : (write s buffer).length = buffer.length := by
  unfold write
  split
  · rfl
  · rename_i h
    have := List.length_pos_iff.2 h
    simp only [List.length_append, List.length_take, List.length_cons, List.length_drop]
    omega

end CString

end Groundwork
