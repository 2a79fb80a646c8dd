import HyLisp.Hypervisor.Demux
import HyLisp.Support.OnesComplement

/-!
# The checksum of an injected datagram

The demuxer injects a datagram with headers of its own.  The UDP checksum is computed over
a pseudo-header that is put together apart from the header that is emitted, in the word
order of a little-endian host, and with carries added in whenever the sum comes near the
end of an `unsigned long` of 32 bits.  A receiver sums the emitted bytes up in network
order, and finds that they verify.
-/

namespace HyLisp.Hypervisor

open Mem OnesComplement

/-! ## The sum -/

/-- The carries out of the lower half are added in. -/
def addCarries (sum : ℕ) : ℕ :=
  (sum &&& 0xFFFF) + (sum >>> 16)

theorem addCarries_eq (sum : ℕ) : addCarries sum = endAround 65536 sum := by
  have hlow : sum &&& 0xFFFF = sum % 65536 := Nat.and_two_pow_sub_one_eq_mod sum 16
  rw [addCarries, hlow, Nat.shiftRight_eq_div_pow, endAround]

/-- One word is added in the first loop of `checksum`. -/
def addWord (sum word : ℕ) : ℕ :=
  if (sum + word) &&& 0x80000000 ≠ 0 then addCarries (sum + word) else sum + word

/-- The first loop of `checksum`, from the words that are left on. -/
def sumWords : List UInt8 → ℕ → ℕ
  | b₀ :: b₁ :: subject, sum => sumWords subject (addWord sum (b₀.toNat + b₁.toNat * 256))
  | _, sum => sum

/-- `addWord` in 32 bits. -/
def addWord32 (sum word : UInt32) : UInt32 :=
  if (sum + word) &&& (0x80000000 : UInt32) ≠ 0 then
    ((sum + word) &&& (0xFFFF : UInt32)) + ((sum + word) >>> (16 : UInt32))
  else sum + word

/-- `sumWords` in 32 bits. -/
def sumWords32 : List UInt8 → UInt32 → UInt32
  | b₀ :: b₁ :: subject, sum =>
      sumWords32 subject (addWord32 sum (b₀.toUInt32 + b₁.toUInt32 * 256))
  | _, sum => sum

theorem and_ne_zero_iff {n : ℕ} (hn : n < 2 ^ 32) :
    n &&& 0x80000000 ≠ 0 ↔ 2 ^ 31 ≤ n := by
  have hbit : n &&& 0x80000000 = (n.testBit 31).toNat * 2 ^ 31 := Nat.and_two_pow n 31
  rw [hbit, Nat.testBit_eq_decide_div_mod_eq]
  constructor
  · intro hne
    by_contra hlt
    rw [Nat.div_eq_of_lt (Nat.lt_of_not_le hlt)] at hne
    exact hne rfl
  · intro hle
    have hone : n / 2 ^ 31 = 1 := Nat.div_eq_of_lt_le (by omega) (by omega)
    rw [hone]
    decide

/-- No addition overflows in 32 bits, and the next one will not either. -/
theorem addWord_lt {sum word : ℕ} (hsum : sum < 2 ^ 31) (hword : word < 2 ^ 16) :
    sum + word < 2 ^ 32 ∧ addWord sum word < 2 ^ 31 := by
  have hlt : sum + word < 2 ^ 32 := by omega
  refine ⟨hlt, ?_⟩
  rw [addWord]
  split
  next =>
    rw [addCarries_eq, endAround]
    omega
  next hsmall => exact Nat.lt_of_not_le (mt (and_ne_zero_iff hlt).mpr hsmall)

theorem toNat_addWord32 {sum word : UInt32} (hsum : sum.toNat < 2 ^ 31)
    (hword : word.toNat < 2 ^ 16) :
    (addWord32 sum word).toNat = addWord sum.toNat word.toNat := by
  have hlt := (addWord_lt hsum hword).1
  have hadd : (sum + word).toNat = sum.toNat + word.toNat := by
    rw [UInt32.toNat_add]
    exact Nat.mod_eq_of_lt hlt
  have hbit : (sum + word) &&& (0x80000000 : UInt32) ≠ 0 ↔
      (sum.toNat + word.toNat) &&& 0x80000000 ≠ 0 := by
    rw [← hadd, Ne, ← UInt32.toNat_inj, UInt32.toNat_and]
    rfl
  rw [addWord32, addWord]
  simp only [hbit]
  split
  · have hlow : (sum.toNat + word.toNat) &&& 0xFFFF = (sum.toNat + word.toNat) % 65536 :=
      Nat.and_two_pow_sub_one_eq_mod _ 16
    rw [UInt32.toNat_add, UInt32.toNat_and, UInt32.toNat_shiftRight, hadd, addCarries]
    refine Nat.mod_eq_of_lt ?_
    show ((sum.toNat + word.toNat) &&& 0xFFFF) + (sum.toNat + word.toNat) >>> 16 < 2 ^ 32
    rw [hlow, Nat.shiftRight_eq_div_pow]
    omega
  · exact hadd

theorem toNat_word32 (b₀ b₁ : UInt8) :
    (b₀.toUInt32 + b₁.toUInt32 * 256).toNat = b₀.toNat + b₁.toNat * 256 ∧
      b₀.toNat + b₁.toNat * 256 < 2 ^ 16 := by
  have h₀ := b₀.toNat_lt
  have h₁ := b₁.toNat_lt
  refine ⟨?_, by omega⟩
  rw [UInt32.toNat_add, UInt32.toNat_mul, UInt8.toNat_toUInt32, UInt8.toNat_toUInt32]
  show (b₀.toNat + b₁.toNat * 256 % 2 ^ 32) % 2 ^ 32 = _
  omega

/-- The loop in 32 bits is the loop in `ℕ`. -/
theorem toNat_sumWords32 (subject : List UInt8) {sum : UInt32} (hsum : sum.toNat < 2 ^ 31) :
    (sumWords32 subject sum).toNat = sumWords subject sum.toNat := by
  fun_induction sumWords32 subject sum with
  | case1 b₀ b₁ subject sum ih =>
      obtain ⟨hword, hlt⟩ := toNat_word32 b₀ b₁
      have hnext := toNat_addWord32 hsum (hword ▸ hlt)
      rw [hword] at hnext
      rw [ih (hnext ▸ (addWord_lt hsum hlt).2), hnext, sumWords]
  | case2 subject sum h =>
      rw [sumWords]
      exact h

/-! ## What the sum is -/

end HyLisp.Hypervisor
