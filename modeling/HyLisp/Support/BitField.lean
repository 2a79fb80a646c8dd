import Mathlib.Data.Nat.Notation
import Mathlib.Tactic.Common

/-!
# Fields of a word

A field is a number of bits of a word from an offset on.  What was stored in a field is read
back from it, and other fields keep their values.
-/

namespace BitField

variable {w n k : ℕ} {lo i : ℕ}

/-- The value of a field. -/
def get (x : BitVec w) (lo n : ℕ) : BitVec n :=
  x.extractLsb' lo n

/-- A word with a value stored in a field. -/
def set (x : BitVec w) (lo : ℕ) (v : BitVec n) : BitVec w :=
  (x &&& ~~~((BitVec.allOnes n).setWidth w <<< lo)) ||| (v.setWidth w <<< lo)

theorem getLsbD_set (x : BitVec w) (v : BitVec n) (hi : i < w) :
    (set x lo v).getLsbD i = if lo ≤ i ∧ i < lo + n then v.getLsbD (i - lo) else x.getLsbD i := by
  rw [set, BitVec.getLsbD_or, BitVec.getLsbD_and, BitVec.getLsbD_not, BitVec.getLsbD_shiftLeft,
    BitVec.getLsbD_shiftLeft, BitVec.getLsbD_setWidth, BitVec.getLsbD_setWidth,
    BitVec.getLsbD_allOnes]
  by_cases hlo : lo ≤ i
  · have hlt : i - lo < w := by omega
    have habove : ¬i < lo := Nat.not_lt.mpr hlo
    by_cases hn : i < lo + n
    · have hin : i - lo < n := by omega
      simp [hi, hlo, hn, hlt, hin, habove]
    · have hout : ¬i - lo < n := by omega
      have hzero : v.getLsbD (i - lo) = false := BitVec.getLsbD_of_ge v _ (by omega)
      simp [hi, hn, hout, hzero]
  · have hbelow : i < lo := Nat.lt_of_not_le hlo
    simp [hi, hlo, hbelow]

/-- A field has the value that was stored. -/
theorem get_set (x : BitVec w) (v : BitVec n) (h : lo + n ≤ w) : get (set x lo v) lo n = v := by
  apply BitVec.eq_of_getLsbD_eq
  intro i hi
  rw [get, BitVec.getLsbD_extractLsb', getLsbD_set x v (by omega), if_pos (by omega),
    decide_eq_true hi, Bool.true_and, Nat.add_sub_cancel_left]

/-- A field keeps its value when another one is stored. -/
theorem get_set_of_disjoint (x : BitVec w) (v : BitVec n) {lo' : ℕ} (hw : lo' + k ≤ w)
    (h : lo + n ≤ lo' ∨ lo' + k ≤ lo) : get (set x lo v) lo' k = get x lo' k := by
  apply BitVec.eq_of_getLsbD_eq
  intro i hi
  rw [get, get, BitVec.getLsbD_extractLsb', BitVec.getLsbD_extractLsb',
    getLsbD_set x v (by omega), if_neg (by omega)]

/-- Two fields side by side are one. -/
theorem get_append (x : BitVec w) (lo n k : ℕ) :
    get x (lo + k) n ++ get x lo k = get x lo (n + k) := by
  apply BitVec.eq_of_getLsbD_eq
  intro i hi
  rw [get, get, get, BitVec.getLsbD_append, BitVec.getLsbD_extractLsb',
    BitVec.getLsbD_extractLsb', BitVec.getLsbD_extractLsb', decide_eq_true hi, Bool.true_and]
  by_cases hlow : i < k
  · rw [if_pos hlow, decide_eq_true hlow, Bool.true_and]
  · have hhigh : i - k < n := by omega
    have hindex : lo + k + (i - k) = lo + i := by omega
    rw [if_neg hlow, decide_eq_true hhigh, Bool.true_and, hindex]

@[simp] theorem get_zero : get (0 : BitVec w) lo n = 0 := by
  apply BitVec.eq_of_getLsbD_eq
  intro i _
  rw [get, BitVec.getLsbD_extractLsb']
  simp

end BitField
