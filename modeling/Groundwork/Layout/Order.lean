import Groundwork.Text.Ascii

/-!
# Byte order

A word of `w` bytes is written in base 256, least significant byte first or last. `littleEndian` and
`ofLittleEndian` are inverse to each other between the words below `256 ^ w` and the strings of `w`
bytes.
-/

namespace Groundwork

-- Powers are those of the core library, whatever else is in scope.
attribute [local instance (high)] instPowNat

/-- The order of a word's bytes in a buffer. -/
inductive Order
  /-- The order of the machine, which here is `little`. -/
  | native
  /-- Least significant byte first. -/
  | little
  /-- Most significant byte first. -/
  | big
deriving DecidableEq, Repr

namespace Order

/-- The `w` bytes of `n`, least significant first. -/
def littleEndian : Nat → Nat → Bytes
  | 0, _ => []
  | w + 1, n => UInt8.ofNat n :: littleEndian w (n / 256)

/-- The word with the given bytes, least significant first. -/
def ofLittleEndian : Bytes → Nat
  | [] => 0
  | b :: s => b.toNat + 256 * ofLittleEndian s

/-- Puts bytes that are in little-endian order into the order `o`, and back. -/
def arrange (o : Order) (s : Bytes) : Bytes :=
  match o with
  | .native => s
  | .little => s
  | .big => s.reverse

@[simp] theorem length_littleEndian (w n : Nat) : (littleEndian w n).length = w := by
  induction w generalizing n with
  | zero => rfl
  | succ w ih => simp [littleEndian, ih]

@[simp] theorem arrange_arrange (o : Order) (s : Bytes) : o.arrange (o.arrange s) = s := by
  cases o <;> simp [arrange]

@[simp] theorem length_arrange (o : Order) (s : Bytes) : (o.arrange s).length = s.length := by
  cases o <;> simp [arrange]

theorem ofLittleEndian_littleEndian (w n : Nat) :
    ofLittleEndian (littleEndian w n) = n % 256 ^ w := by
  induction w generalizing n with
  | zero => simp [littleEndian, ofLittleEndian, Nat.mod_one]
  | succ w ih =>
    have hb : (UInt8.ofNat n).toNat = n % 256 := UInt8.toNat_ofNat'
    rw [littleEndian, ofLittleEndian, ih, hb, Nat.pow_succ', Nat.mod_mul]

theorem littleEndian_ofLittleEndian (s : Bytes) :
    littleEndian s.length (ofLittleEndian s) = s := by
  induction s with
  | nil => rfl
  | cons b s ih =>
    have hb : b.toNat < 256 := b.toNat_lt
    have hd : (b.toNat + 256 * ofLittleEndian s) / 256 = ofLittleEndian s := by omega
    have hm : UInt8.ofNat (b.toNat + 256 * ofLittleEndian s) = b := by
      apply UInt8.toNat_inj.1
      simp only [UInt8.toNat_ofNat']
      omega
    simp [littleEndian, ofLittleEndian, hd, hm, ih]

end Order

end Groundwork
