import Groundwork.Proofs.Layout.Runs
import Mathlib.Algebra.BigOperators.Intervals

/-!
# The places of bytes

The bytes of a value are the digits of its bit pattern in base 256, the digit of `256 ^ i` at place `i`, and
the other order reverses them (`Order.ofLittleEndian_eq_sum`). Only the width of a type has a part in this, so
types of one width read the same bits from the same bytes, and a wider type adds zeros after the bytes of a
narrower one. Memory around a value has no part in it either.
-/

namespace Groundwork

-- Powers are those of the core library, whatever else is in scope.
attribute [local instance (high)] instPowNat

namespace Order

theorem ofLittleEndian_eq_sum (s : Bytes) :
    ofLittleEndian s = ∑ i ∈ Finset.range s.length, (s.getD i 0).toNat * 256 ^ i := by
  induction s with
  | nil => rfl
  | cons b s ih =>
    rw [ofLittleEndian, ih, List.length_cons, Finset.sum_range_succ', Finset.mul_sum]
    simp only [List.getD_cons_succ, List.getD_cons_zero, Nat.pow_zero, Nat.mul_one]
    rw [Nat.add_comm]
    congr 1
    refine Finset.sum_congr rfl fun i _ => ?_
    rw [Nat.pow_succ]
    ring

/-- The bytes that a number has no use for are zero. -/
theorem littleEndian_of_lt {w n : ℕ} (h : n < 256 ^ w) (k : ℕ) :
    littleEndian (w + k) n = littleEndian w n ++ List.replicate k 0 := by
  induction w generalizing n with
  | zero =>
    obtain rfl : n = 0 := Nat.lt_one_iff.1 h
    rw [Nat.zero_add]
    induction k with
    | zero => rfl
    | succ k ih => exact congrArg (List.cons 0) ih
  | succ w ih =>
    have hdiv : n / 256 < 256 ^ w := by
      rw [Nat.pow_succ] at h
      exact Nat.div_lt_of_lt_mul (by rwa [Nat.mul_comm])
    rw [Nat.succ_add]
    exact congrArg (List.cons _) (ih hdiv)

end Order

namespace Scalar

/-- Two's complement: a number below zero counts from the power of two that the bits do not hold. -/
theorem toNat_pattern {t : IntType} {i : ℤ} (h : t.Has i) :
    (((Scalar.int t).pattern i).toNat : ℤ) = if i < 0 then 2 ^ t.bits + i else i := by
  obtain ⟨signed, width⟩ := t
  unfold pattern
  unfold IntType.Has IntType.least IntType.greatest at h
  rw [BitVec.toNat_ofInt]
  cases signed <;> cases width
  all_goals
    simp [IntType.bits, Scalar.bits, Scalar.width, Width.bits, Width.bytes] at h ⊢
    split_ifs <;> omega

end Scalar

theorem Binary.toNat_word {f : Format} (x : Binary f) :
    x.word.toNat = (if x.negative then 2 ^ f.codeBits else 0) + x.code := by
  have hlt : x.word.toNat < 2 * 2 ^ f.codeBits := by
    rw [← Nat.pow_succ']
    exact x.word.isLt
  unfold negative code
  by_cases h : 2 ^ f.codeBits ≤ x.word.toNat
  · rw [if_pos (decide_eq_true h), Nat.mod_eq_sub_mod h, Nat.mod_eq_of_lt (by omega)]
    omega
  · rw [if_neg (by simpa using h), Nat.mod_eq_of_lt (not_le.1 h), Nat.zero_add]

namespace Layout

variable {t t' : Scalar} {o : Order} {v : BitVec t.bits} {v' : BitVec t'.bits} {s buffer : Bytes} {offset : ℕ}

/-! ### The bytes of a bit pattern -/

theorem toNat_eq_sum (v : BitVec t.bits) :
    ∑ i ∈ Finset.range t.bytes, ((bytesOf t .little v).getD i 0).toNat * 256 ^ i = v.toNat := by
  have hsum := Order.ofLittleEndian_eq_sum (bytesOf t .little v)
  rw [length_bytesOf] at hsum
  rw [← hsum]
  show Order.ofLittleEndian (Order.littleEndian t.bytes v.toNat) = v.toNat
  rw [Order.ofLittleEndian_littleEndian, ← t.two_pow_bits, Nat.mod_eq_of_lt v.isLt]

theorem bytesOf_congr (hwidth : t'.width = t.width) (hv : v'.toNat = v.toNat) : bytesOf t' o v' = bytesOf t o v := by
  unfold bytesOf Scalar.bytes
  rw [hwidth, hv]

theorem toNat_ofBytes (hs : s.length = t.bytes) : (ofBytes t o s).toNat = Order.ofLittleEndian (o.arrange s) := by
  have hlt := Order.ofLittleEndian_lt (o.arrange s)
  rw [Order.length_arrange, hs, ← t.two_pow_bits] at hlt
  rw [ofBytes, BitVec.toNat_ofNat, Nat.mod_eq_of_lt hlt]

theorem ofBytes_big (s : Bytes) : ofBytes t .big s = ofBytes t .little s.reverse := rfl

theorem toNat_setWidth (h : t'.bytes ≤ t.bytes) (v' : BitVec t'.bits) : (v'.setWidth t.bits).toNat = v'.toNat := by
  have hlt : v'.toNat < 2 ^ t.bits := by
    refine v'.isLt.trans_le ?_
    rw [t.two_pow_bits, t'.two_pow_bits]
    exact Nat.pow_le_pow_right (by norm_num) h
  rw [BitVec.toNat_setWidth, Nat.mod_eq_of_lt hlt]

/-- A wider type has zeros after the bytes of a narrower one. -/
theorem bytesOf_setWidth (h : t'.bytes ≤ t.bytes) (v' : BitVec t'.bits) :
    bytesOf t .little (v'.setWidth t.bits) = bytesOf t' .little v' ++ List.replicate (t.bytes - t'.bytes) 0 := by
  have hlt : v'.toNat < 256 ^ t'.bytes := t'.two_pow_bits ▸ v'.isLt
  have hextend := Order.littleEndian_of_lt hlt (t.bytes - t'.bytes)
  rw [Nat.add_sub_cancel' h] at hextend
  show Order.littleEndian t.bytes (v'.setWidth t.bits).toNat = _
  rw [toNat_setWidth h, hextend]
  rfl

/-! ### Buffers and memory -/

theorem decode_encode {buffer' : Bytes} (h : encode t o v buffer = .ok buffer') : decode t o buffer' = .ok v := by
  rcases lt_or_ge buffer.length t.bytes with hlt | hle
  · rw [encode_of_lt hlt] at h
    cases h
  · rw [encode_of_le hle] at h
    cases h
    have hlength : t.bytes ≤ (bytesOf t o v ++ buffer.drop t.bytes).length := by
      rw [List.length_append, length_bytesOf]
      exact Nat.le_add_right _ _
    have htake : (bytesOf t o v ++ buffer.drop t.bytes).take t.bytes = bytesOf t o v :=
      List.take_left' (length_bytesOf t o v)
    rw [decode_of_le hlength, htake, ofBytes_bytesOf]

theorem encode_decode (h : decode t o buffer = .ok v) : encode t o v buffer = .ok buffer := by
  rcases lt_or_ge buffer.length t.bytes with hlt | hle
  · rw [decode_of_lt hlt] at h
    cases h
  · rw [decode_of_le hle] at h
    cases h
    rw [encode_of_le hle, bytesOf_ofBytes t o (List.length_take_of_le hle), List.take_append_drop]

theorem decode_big (h : t.bytes ≤ buffer.length) :
    decode t .big buffer = decode t .little ((buffer.take t.bytes).reverse ++ buffer.drop t.bytes) := by
  have hlength : (buffer.take t.bytes).reverse.length = t.bytes := by
    rw [List.length_reverse, List.length_take_of_le h]
  have hle : t.bytes ≤ ((buffer.take t.bytes).reverse ++ buffer.drop t.bytes).length := by
    rw [List.length_append, hlength]
    exact Nat.le_add_right _ _
  rw [decode_of_le h, decode_of_le hle, ofBytes_big, List.take_left' hlength]

theorem exists_decode (hwidth : t'.width = t.width) (h : t.bytes ≤ buffer.length) (o : Order) :
    ∃ (v : BitVec t.bits) (v' : BitVec t'.bits), v'.toNat = v.toNat ∧ decode t o buffer = .ok v ∧
      decode t' o buffer = .ok v' ∧ encode t' o v' buffer = encode t o v buffer := by
  have hbytes : t'.bytes = t.bytes := congrArg Width.bytes hwidth
  have h' : t'.bytes ≤ buffer.length := hbytes ▸ h
  have hvalue : (ofBytes t' o (buffer.take t'.bytes)).toNat = (ofBytes t o (buffer.take t.bytes)).toNat := by
    rw [toNat_ofBytes (List.length_take_of_le h'), toNat_ofBytes (List.length_take_of_le h), hbytes]
  refine ⟨_, _, hvalue, decode_of_le h, decode_of_le h', ?_⟩
  rw [encode_of_le h', encode_of_le h, bytesOf_congr hwidth hvalue, hbytes]

theorem storeAt_spec (h : offset + t.bytes ≤ buffer.length) :
    storeAt t v offset buffer =
      buffer.take offset ++ (bytesOf t .native v ++ (buffer.drop offset).drop t.bytes) := by
  have hview : t.bytes ≤ (Window.view ⟨offset, t.bytes⟩ buffer).length :=
    (Window.length_view (w := ⟨offset, t.bytes⟩) h).ge
  have hrest : (Window.view ⟨offset, t.bytes⟩ buffer).drop t.bytes = [] :=
    List.drop_eq_nil_iff.2 (Window.length_view (w := ⟨offset, t.bytes⟩) h).le
  have hstore : store t v (Window.view ⟨offset, t.bytes⟩ buffer) = .ok (bytesOf t .native v ++ []) :=
    hrest ▸ encode_of_le hview
  simp only [storeAt, hstore, List.append_nil, List.drop_drop]
  exact List.append_assoc _ _ _

theorem loadAt_spec (h : offset + t.bytes ≤ buffer.length) :
    decode t .native (buffer.drop offset) = .ok (loadAt t offset buffer) := by
  have hview : t.bytes ≤ (Window.view ⟨offset, t.bytes⟩ buffer).length :=
    (Window.length_view (w := ⟨offset, t.bytes⟩) h).ge
  have hdrop : t.bytes ≤ (buffer.drop offset).length := by
    rw [List.length_drop]
    omega
  unfold loadAt load
  rw [decode_of_le hview, decode_of_le hdrop, Window.view, List.take_take, Nat.min_self]
  rfl

/-- In little-endian order the bytes of a value are the digits of its bit pattern from the least one up, in the other
order from the greatest one down, and loading undoes storing in each order. So the other order reverses the bytes, a
type of the same width reads the same bits, and a narrower value is the start of a wider one with zeros after it. In
memory a value is stored and loaded in the order of the machine at any offset, and what is around it stays. The bit
pattern of an integer is its two's complement, that of a floating-point number the sign bit above its code. -/
theorem bytes_positional (t : Scalar) (buffer : Bytes) (h : t.bytes ≤ buffer.length) :
    (∀ v : BitVec t.bits, ∃ bytes : Bytes, bytes.length = t.bytes ∧
      ∑ i ∈ Finset.range t.bytes, (bytes.getD i 0).toNat * 256 ^ i = v.toNat ∧
      encode t .little v buffer = .ok (bytes ++ buffer.drop t.bytes) ∧
      encode t .big v buffer = .ok (bytes.reverse ++ buffer.drop t.bytes) ∧
      encode t .native v buffer = encode t .little v buffer) ∧
    (∀ (o : Order) (v : BitVec t.bits) (after : Bytes), encode t o v buffer = .ok after → decode t o after = .ok v) ∧
    (∀ o : Order, ∃ v, decode t o buffer = .ok v ∧ encode t o v buffer = .ok buffer) ∧
    decode t .big buffer = decode t .little ((buffer.take t.bytes).reverse ++ buffer.drop t.bytes) ∧
    decode t .native buffer = decode t .little buffer ∧
    (∀ (t' : Scalar) (o : Order), t'.width = t.width →
      ∃ (v : BitVec t.bits) (v' : BitVec t'.bits), v'.toNat = v.toNat ∧ decode t o buffer = .ok v ∧
        decode t' o buffer = .ok v' ∧ encode t' o v' buffer = encode t o v buffer) ∧
    (∀ (t' : Scalar) (v' : BitVec t'.bits), t'.bytes ≤ t.bytes →
      (v'.setWidth t.bits).toNat = v'.toNat ∧ ∃ bytes : Bytes, bytes.length = t'.bytes ∧
        encode t' .little v' buffer = .ok (bytes ++ buffer.drop t'.bytes) ∧
        encode t .little (v'.setWidth t.bits) buffer =
          .ok (bytes ++ List.replicate (t.bytes - t'.bytes) 0 ++ buffer.drop t.bytes)) ∧
    (∀ v : BitVec t.bits, store t v buffer = encode t .native v buffer ∧ load t buffer = decode t .native buffer) ∧
    (∀ (v : BitVec t.bits) (memory : Bytes) (offset : ℕ), offset + t.bytes ≤ memory.length →
      (∃ after, encode t .native v (memory.drop offset) = .ok after ∧
        storeAt t v offset memory = memory.take offset ++ after) ∧
      decode t .native (memory.drop offset) = .ok (loadAt t offset memory)) ∧
    (∀ (u : IntType) (i : ℤ), u.Has i →
      (((Scalar.int u).pattern i).toNat : ℤ) = if i < 0 then 2 ^ u.bits + i else i) ∧
    (∀ x : Binary .single,
      (x.word : BitVec Scalar.single.bits).toNat = (if x.negative then 2 ^ 31 else 0) + x.code) ∧
    ∀ x : Binary .double, (x.word : BitVec Scalar.double.bits).toNat = (if x.negative then 2 ^ 63 else 0) + x.code := by
  refine ⟨fun v => ?_, fun o v after => decode_encode, fun o => ?_, decode_big h, rfl,
    fun t' o hwidth => exists_decode hwidth h o, fun t' v' hnarrow => ?_, fun v => ⟨rfl, rfl⟩,
    fun v memory offset hoffset => ⟨?_, loadAt_spec hoffset⟩, fun u i => Scalar.toNat_pattern,
    Binary.toNat_word, Binary.toNat_word⟩
  · exact ⟨bytesOf t .little v, length_bytesOf t .little v, toNat_eq_sum v, encode_of_le h, encode_of_le h, rfl⟩
  · exact ⟨_, decode_of_le h, encode_decode (decode_of_le h)⟩
  · refine ⟨toNat_setWidth hnarrow v', bytesOf t' .little v', length_bytesOf t' .little v',
      encode_of_le (hnarrow.trans h), ?_⟩
    rw [encode_of_le h, bytesOf_setWidth hnarrow]
  · have hdrop : t.bytes ≤ (memory.drop offset).length := by
      rw [List.length_drop]
      omega
    exact ⟨_, encode_of_le hdrop, storeAt_spec hoffset⟩

/-- A number below zero in two bytes, next to a byte that stays, read as an unsigned number and as a number of one
byte that is extended to two. -/
theorem bytes_positional_minus_two :
    let t : Scalar := .int ⟨true, .two⟩
    t.bytes ≤ [1, 2, 3].length ∧
    (∃ bytes : Bytes, bytes.length = 2 ∧ ∑ i ∈ Finset.range 2, (bytes.getD i 0).toNat * 256 ^ i = 65534 ∧
      encode t .big (t.pattern (-2)) [1, 2, 3] = .ok (bytes.reverse ++ [3])) ∧
    (∃ (v : BitVec t.bits) (v' : BitVec (Scalar.int ⟨false, .two⟩).bits), v'.toNat = v.toNat ∧
      decode t .big [1, 2, 3] = .ok v ∧ decode (.int ⟨false, .two⟩) .big [1, 2, 3] = .ok v') ∧
    ((254 : BitVec (Scalar.int ⟨false, .one⟩).bits).setWidth t.bits).toNat = 254 ∧
    decode t .native [2, 3, 4] = .ok (loadAt t 1 [1, 2, 3, 4]) ∧
    ((t.pattern (-2)).toNat : ℤ) = 2 ^ 16 + -2 := by
  intro t
  have h : t.bytes ≤ [1, 2, 3].length := by decide
  obtain ⟨hplaces, -, -, -, -, hwidth, hnarrow, -, hmemory, hpattern, -⟩ := bytes_positional t [1, 2, 3] h
  refine ⟨h, ?_, ?_, (hnarrow (.int ⟨false, .one⟩) 254 (by decide)).1, (hmemory 0 [1, 2, 3, 4] 1 (by decide)).2,
    hpattern ⟨true, .two⟩ (-2) (by decide)⟩
  · obtain ⟨bytes, hlength, hsum, -, hbig, -⟩ := hplaces (t.pattern (-2))
    exact ⟨bytes, hlength, hsum.trans (by decide), hbig⟩
  · obtain ⟨v, v', hvalue, hv, hv', -⟩ := hwidth (.int ⟨false, .two⟩) .big rfl
    exact ⟨v, v', hvalue, hv, hv'⟩

end Layout

end Groundwork
