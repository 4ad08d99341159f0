import Groundwork.Text.Ascii

/-!
# Byte queues

The bytes on their way through a pipe. They are kept in two lists, so that both ends are at hand.
-/

namespace Groundwork

/-- A queue of bytes; `back` holds the latest first. -/
structure Queue where
  front : Bytes
  back : Bytes
  size : Nat
deriving Inhabited, Repr

namespace Queue

def empty : Queue := ⟨[], [], 0⟩

/-- The bytes of the queue in order. -/
def toList (q : Queue) : Bytes := q.front ++ q.back.reverse

def push (q : Queue) (s : Bytes) : Queue :=
  { q with back := s.foldl (fun back b => b :: back) q.back, size := q.size + s.length }

/-- Takes up to `n` bytes off the front. -/
def pop (q : Queue) (n : Nat) : Bytes × Queue :=
  if n ≤ q.front.length then (q.front.take n, { q with front := q.front.drop n, size := q.size - n })
  else
    let all := q.toList
    (all.take n, ⟨all.drop n, [], q.size - n⟩)

theorem toList_push (q : Queue) (s : Bytes) : (q.push s).toList = q.toList ++ s := by
  have h : ∀ acc : Bytes, s.foldl (fun back b => b :: back) acc = s.reverse ++ acc := by
    induction s with
    | nil => intro acc; rfl
    | cons b s ih => intro acc; simp [ih]
  simp [push, toList, h]

theorem pop_append (q : Queue) (n : Nat) : (q.pop n).1 ++ (q.pop n).2.toList = q.toList := by
  unfold pop
  split
  · simp [toList, ← List.append_assoc]
  · simp [toList]

end Queue

end Groundwork
