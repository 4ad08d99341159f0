import Groundwork.Layout.Codec
import Mathlib.Tactic

/-!
# Values and their bytes

A value has as many bits as its bytes hold, so in each order the values of a type and the strings of its
size stand for each other, whatever the bits mean (`ofBytes_bytesOf`, `bytesOf_ofBytes`). An integer of a
type is its bit pattern's (`integer_pattern`).
-/

namespace Groundwork

-- Powers are those of the core library, whatever else is in scope.
attribute [local instance (high)] instPowNat

namespace Order

theorem ofLittleEndian_lt (s : Bytes) : ofLittleEndian s < 256 ^ s.length := by
  induction s with
  | nil => decide
  | cons b s ih =>
    have hb := b.toNat_lt
    rw [ofLittleEndian, List.length_cons, Nat.pow_succ]
    omega

end Order

namespace Scalar

variable (t : Scalar)

theorem two_pow_bits : 2 ^ t.bits = 256 ^ t.bytes := by
  unfold bits Width.bits
  rw [Nat.pow_mul]
  rfl

theorem integer_pattern (t : IntType) (i : ℤ) (h : t.Has i) : integer t ((Scalar.int t).pattern i) = i := by
  obtain ⟨signed, width⟩ := t
  unfold integer pattern
  unfold IntType.Has IntType.least IntType.greatest at h
  cases signed with
  | true =>
    cases width
    all_goals
      refine BitVec.toInt_ofInt_eq_self (by decide) ?_ ?_
      all_goals
        simp [IntType.bits, Scalar.bits, Scalar.width, Width.bits, Width.bytes] at h ⊢
        omega
  | false =>
    show (((BitVec.ofInt _ i).toNat : ℕ) : ℤ) = i
    rw [BitVec.toNat_ofInt]
    cases width
    all_goals
      simp [IntType.bits, Scalar.bits, Scalar.width, Width.bits, Width.bytes] at h ⊢
      omega

end Scalar

namespace Layout

variable (t : Scalar) (o : Order)

@[simp] theorem length_bytesOf (v : BitVec t.bits) : (bytesOf t o v).length = t.bytes := by
  rw [bytesOf, Order.length_arrange, Order.length_littleEndian]

theorem ofBytes_bytesOf (v : BitVec t.bits) : ofBytes t o (bytesOf t o v) = v := by
  rw [ofBytes, bytesOf, Order.arrange_arrange, Order.ofLittleEndian_littleEndian, ← t.two_pow_bits,
    Nat.mod_eq_of_lt v.isLt, BitVec.ofNat_toNat, BitVec.setWidth_eq]

theorem bytesOf_ofBytes {s : Bytes} (hs : s.length = t.bytes) : bytesOf t o (ofBytes t o s) = s := by
  have hlength : (o.arrange s).length = t.bytes := by rw [Order.length_arrange, hs]
  have hlt : Order.ofLittleEndian (o.arrange s) < 2 ^ t.bits := by
    rw [t.two_pow_bits, ← hlength]
    exact Order.ofLittleEndian_lt _
  rw [bytesOf, ofBytes, BitVec.toNat_ofNat, Nat.mod_eq_of_lt hlt, ← hlength,
    Order.littleEndian_ofLittleEndian, Order.arrange_arrange]

variable {t o} {v : BitVec t.bits} {buffer : Bytes}

theorem encode_of_lt (h : buffer.length < t.bytes) : encode t o v buffer = .error (.tooShort t.bytes buffer.length) :=
  if_pos h

theorem encode_of_le (h : t.bytes ≤ buffer.length) :
    encode t o v buffer = .ok (bytesOf t o v ++ buffer.drop t.bytes) :=
  if_neg (not_lt.2 h)

theorem decode_of_lt (h : buffer.length < t.bytes) : decode t o buffer = .error (.tooShort t.bytes buffer.length) :=
  if_pos h

theorem decode_of_le (h : t.bytes ≤ buffer.length) : decode t o buffer = .ok (ofBytes t o (buffer.take t.bytes)) :=
  if_neg (not_lt.2 h)

end Layout

end Groundwork
