import HyLisp.Support.Memory
import Mathlib.Data.List.Infix
import Mathlib.Data.Nat.Bitwise

/-!
# Addresses as bit strings

The bits of a byte sequence are numbered from the most significant bit of the
first byte, as address prefixes count them.  A prefix of length `n` is the list
of the first `n` bits, so that one prefix covers another exactly when it is an
initial segment of it.

Programs test this relation bytewise: the whole bytes are compared, then the
leftover bits of one more byte under a mask.  This module proves that the
bytewise test decides the relation on bits.
-/

namespace BitString

/-! ## Bits of one byte -/

/-- Bit `i` of a byte, counted from the most significant one. -/
def byteBit (x : UInt8) (i : ℕ) : Bool :=
  x.toNat.testBit (7 - i)

theorem byte_ext {x y : UInt8} (h : ∀ i < 8, byteBit x i = byteBit y i) :
    x = y := by
  apply UInt8.toNat_inj.mp
  apply Nat.eq_of_testBit_eq
  intro k
  by_cases hk : k < 8
  · have hbit := h (7 - k) (by omega)
    simpa [byteBit, show 7 - (7 - k) = k by omega] using hbit
  · have hpow : 2 ^ 8 ≤ 2 ^ k := Nat.pow_le_pow_right (by omega) (by omega)
    rw [Nat.testBit_lt_two_pow (lt_of_lt_of_le x.toNat_lt hpow),
      Nat.testBit_lt_two_pow (lt_of_lt_of_le y.toNat_lt hpow)]

@[simp] theorem byteBit_and (x y : UInt8) (i : ℕ) :
    byteBit (x &&& y) i = (byteBit x i && byteBit y i) := by
  simp [byteBit, Nat.testBit_and]

/-- `m` has ones in its first `k` bits and zeros in the others. -/
def IsLeadMask (k : ℕ) (m : UInt8) : Prop :=
  ∀ i < 8, byteBit m i = decide (i < k)

instance (k : ℕ) (m : UInt8) : Decidable (IsLeadMask k m) := by
  unfold IsLeadMask
  infer_instance

/-- Masking with `k` leading ones compares exactly the first `k` bits. -/
theorem and_leadMask_eq_iff {k : ℕ} {m x y : UInt8} (hm : IsLeadMask k m)
    (hk : k ≤ 8) :
    x &&& m = y &&& m ↔ ∀ i < k, byteBit x i = byteBit y i := by
  constructor
  · intro h i hi
    have hbit := congrArg (fun z => byteBit z i) h
    simpa [hm i (by omega), hi] using hbit
  · intro h
    apply byte_ext
    intro i hi
    by_cases hik : i < k
    · simp [hm i hi, hik, h i hik]
    · simp [hm i hi, hik]

/-! ## Bits of a byte sequence -/

/-- Bit `i` of a byte sequence. -/
def bit (m : Mem) (i : ℕ) : Bool :=
  byteBit (m (i / 8)) (i % 8)

/-- The bits before `n` agree exactly when the whole bytes before `n` agree
and the leftover bits of the next byte do. -/
theorem bits_agree_iff {a b : Mem} {n : ℕ} :
    (∀ i < n, bit a i = bit b i) ↔
      (∀ j < n / 8, a j = b j) ∧
        ∀ i < n % 8, byteBit (a (n / 8)) i = byteBit (b (n / 8)) i := by
  constructor
  · intro h
    constructor
    · intro j hj
      apply byte_ext
      intro i hi
      have hbit := h (8 * j + i) (by omega)
      simpa [bit, show (8 * j + i) / 8 = j by omega,
        show (8 * j + i) % 8 = i by omega] using hbit
    · intro i hi
      have hbit := h (8 * (n / 8) + i) (by omega)
      simpa [bit, show (8 * (n / 8) + i) / 8 = n / 8 by omega,
        show (8 * (n / 8) + i) % 8 = i by omega] using hbit
  · rintro ⟨hwhole, hleft⟩ i hi
    by_cases hin : i / 8 < n / 8
    · rw [bit, bit, hwhole _ hin]
    · have heq : i / 8 = n / 8 := by omega
      rw [bit, bit, heq]
      exact hleft _ (by omega)

/-- The first `n` bits of a byte sequence. -/
def leading (m : Mem) (n : ℕ) : List Bool :=
  (List.range n).map (bit m)

@[simp] theorem length_leading (m : Mem) (n : ℕ) :
    (leading m n).length = n := by
  simp [leading]

@[simp] theorem getElem_leading (m : Mem) (n : ℕ) {i : ℕ}
    (hi : i < (leading m n).length) :
    (leading m n)[i] = bit m i := by
  simp [leading]

theorem leading_isPrefix_iff {a b : Mem} {n k : ℕ} :
    leading a n <+: leading b k ↔ n ≤ k ∧ ∀ i < n, bit a i = bit b i := by
  rw [List.prefix_iff_getElem]
  simp only [length_leading, getElem_leading]
  constructor
  · rintro ⟨hnk, h⟩
    exact ⟨hnk, h⟩
  · rintro ⟨hnk, h⟩
    exact ⟨hnk, h⟩

/-- The bytewise prefix test: whole bytes, then leftover bits under a mask. -/
theorem leading_isPrefix_iff_bytes {a b : Mem} {n k : ℕ} {m : UInt8}
    (hm : IsLeadMask (n % 8) m) (hnk : n ≤ k) :
    leading a n <+: leading b k ↔
      (∀ j < n / 8, a j = b j) ∧ a (n / 8) &&& m = b (n / 8) &&& m := by
  rw [leading_isPrefix_iff, bits_agree_iff,
    and_leadMask_eq_iff hm (by omega)]
  simp [hnk]

/-! ## Leading ones -/

/-- The number of ones in front of the first zero. -/
def leadingOnes (bits : List Bool) : ℕ :=
  (bits.takeWhile id).length

theorem leadingOnes_append {bits rest : List Bool} :
    leadingOnes (bits ++ rest) =
      if bits.all id then bits.length + leadingOnes rest else leadingOnes bits := by
  induction bits with
  | nil => simp [leadingOnes]
  | cons b bits ih =>
      rw [leadingOnes, leadingOnes] at ih
      cases b with
      | false => simp [leadingOnes]
      | true =>
          simp only [leadingOnes, List.cons_append, List.takeWhile_cons, id_eq, if_true,
            List.length_cons, ih, List.all_cons, Bool.true_and]
          split
          · exact Nat.add_right_comm _ _ _
          · rfl

/-- The bits of a byte. -/
def byteBits (x : UInt8) : List Bool :=
  (List.range 8).map (byteBit x)

@[simp] theorem length_byteBits (x : UInt8) : (byteBits x).length = 8 := rfl

theorem all_byteBits {x : UInt8} : (byteBits x).all id = true ↔ x = 0xFF := by
  have hone : ∀ i < 8, byteBit 0xFF i = true := by decide
  simp only [byteBits, List.all_map, List.all_eq_true, List.mem_range]
  constructor
  · intro h
    exact byte_ext fun i hi => (h i hi).trans (hone i hi).symm
  · rintro rfl i hi
    exact hone i hi

/-- The bits of a byte sequence are those of its first byte and those of the rest. -/
theorem leading_succ_byte (m : Mem) (n : ℕ) :
    leading m (8 * (n + 1)) = byteBits (m 0) ++ leading (m.advance 1) (8 * n) := by
  apply List.ext_getElem
  · simp only [length_leading, List.length_append, length_byteBits]
    omega
  · intro i hi hi'
    rw [getElem_leading]
    by_cases hbyte : i < 8
    · rw [List.getElem_append_left hbyte]
      simp only [byteBits, List.getElem_map, List.getElem_range, bit]
      rw [Nat.div_eq_of_lt hbyte, Nat.mod_eq_of_lt hbyte]
    · rw [List.getElem_append_right (Nat.le_of_not_lt hbyte), getElem_leading, bit, bit,
        Mem.advance_apply, length_byteBits, show i / 8 = 1 + (i - 8) / 8 by omega,
        show i % 8 = (i - 8) % 8 by omega]

/-- Among its first `width` bits, the byte sequence has ones in the first `n`
and zeros in the others. -/
def IsMask (n width : ℕ) (m : Mem) : Prop :=
  ∀ i < width, bit m i = decide (i < n)

end BitString
