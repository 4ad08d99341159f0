import Groundwork.Text.Ascii

/-!
# UTF-8 in byte strings

A byte string need not be UTF-8. `next?` takes the first character off a byte string that starts with
one. The shortest encoding of a code point is the only one, and surrogates have none.
-/

namespace Groundwork

namespace Utf8

/-- Whether a byte continues a character; the six bits it adds are its value modulo 64. -/
def isContinuation (b : UInt8) : Bool := 128 ≤ b && b < 192

/-- The character with the code point `n`, if there is one that takes more than `least` to write. -/
def char? (least n : Nat) : Option Char :=
  if h : n.isValidChar ∧ least ≤ n then some (Char.ofNatAux n h.1) else none

/-- The first character of a byte string and what follows it, if the string starts with one. -/
def next? : Bytes → Option (Char × Bytes)
  | [] => none
  | a :: s =>
    if a < 128 then (char? 0 a.toNat).map (·, s)
    else match s with
      | [] => none
      | b :: s =>
        if !isContinuation b then none
        else if 192 ≤ a && a < 224 then
          (char? 128 (a.toNat % 32 * 64 + b.toNat % 64)).map (·, s)
        else match s with
          | [] => none
          | c :: s =>
            if !isContinuation c then none
            else if 224 ≤ a && a < 240 then
              (char? 2048 ((a.toNat % 16 * 64 + b.toNat % 64) * 64 + c.toNat % 64)).map (·, s)
            else match s with
              | [] => none
              | d :: s =>
                if isContinuation d && 240 ≤ a && a < 248 then
                  (char? 65536 (((a.toNat % 8 * 64 + b.toNat % 64) * 64 + c.toNat % 64) * 64
                    + d.toNat % 64)).map (·, s)
                else none

theorem eq_of_map_eq {c? : Option Char} {c : Char} {s t : Bytes}
    (h : c?.map (·, s) = some (c, t)) : t = s := by
  obtain ⟨_, _, h⟩ := Option.map_eq_some_iff.1 h
  cases h; rfl

/-- A character takes at least one byte. -/
theorem length_next? {s rest : Bytes} {c : Char} (h : next? s = some (c, rest)) :
    rest.length < s.length := by
  unfold next? at h
  repeat' split at h
  any_goals contradiction
  all_goals
    cases eq_of_map_eq h
    simp only [List.length_cons]
    omega

end Utf8

end Groundwork
