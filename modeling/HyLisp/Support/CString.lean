import HyLisp.Support.Memory
import Mathlib.Data.Nat.Find

/-!
# Comparing memories as strings

`strncmp` compares up to a length, but stops at a zero byte that both memories
share.  On binary data it therefore answers two different questions at once:
whether the memories agree, and whether they differ only where it no longer
looks.
-/

namespace Mem

/-- `strncmp(a, b, n)` -/
def strncmp : ℕ → Mem → Mem → Int
  | 0, _, _ => 0
  | n + 1, a, b =>
      if a 0 ≠ b 0 then ((a 0).toNat : Int) - (b 0).toNat
      else if a 0 = 0 then 0
      else strncmp n (a.advance 1) (b.advance 1)

/-- The first difference within `n` bytes, with no zero byte before it. -/
def DiffersBeforeNul (n : ℕ) (a b : Mem) : Prop :=
  ∃ i < n, a i ≠ b i ∧ ∀ j < i, a j = b j ∧ a j ≠ 0

/-- The memories agree up to a zero byte, and differ behind it within `n`
bytes. -/
def DiffersBehindNul (n : ℕ) (a b : Mem) : Prop :=
  ∃ i < n, a i ≠ b i ∧ ∃ j < i, a j = 0 ∧ ∀ k < i, a k = b k

theorem differsBeforeNul_succ {n : ℕ} {a b : Mem} (h0 : a 0 = b 0) :
    DiffersBeforeNul (n + 1) a b ↔
      a 0 ≠ 0 ∧ DiffersBeforeNul n (a.advance 1) (b.advance 1) := by
  constructor
  · rintro ⟨i, hi, hne, hbefore⟩
    cases i with
    | zero => exact absurd h0 hne
    | succ i =>
        refine ⟨(hbefore 0 (by omega)).2, i, by omega, ?_, fun j hj => ?_⟩
        · rw [advance_apply, advance_apply, Nat.add_comm 1 i]
          exact hne
        · rw [advance_apply, advance_apply, Nat.add_comm 1 j]
          exact hbefore (j + 1) (by omega)
  · rintro ⟨hzero, i, hi, hne, hbefore⟩
    rw [advance_apply, advance_apply, Nat.add_comm 1 i] at hne
    refine ⟨i + 1, by omega, hne, fun j hj => ?_⟩
    cases j with
    | zero => exact ⟨h0, hzero⟩
    | succ j =>
        have hj' := hbefore j (by omega)
        rwa [advance_apply, advance_apply, Nat.add_comm 1 j] at hj'

/-- `strncmp` tells the memories apart exactly when they differ before a zero
byte. -/
theorem strncmp_ne_zero_iff {n : ℕ} {a b : Mem} :
    strncmp n a b ≠ 0 ↔ DiffersBeforeNul n a b := by
  induction n generalizing a b with
  | zero =>
      constructor
      · intro h
        exact absurd rfl h
      · rintro ⟨i, hi, -⟩
        cases hi
  | succ n ih =>
      rw [strncmp]
      by_cases h0 : a 0 = b 0
      · rw [if_neg (not_not.mpr h0), differsBeforeNul_succ h0]
        by_cases hzero : a 0 = 0
        · simp [hzero]
        · rw [if_neg hzero, ih]
          simp [hzero]
      · rw [if_pos h0]
        have hne : ((a 0).toNat : Int) - (b 0).toNat ≠ 0 := by
          intro hsub
          exact h0 (UInt8.toNat_inj.mp (by omega))
        have hfirst : DiffersBeforeNul (n + 1) a b :=
          ⟨0, by omega, h0, fun j hj => absurd hj (by omega)⟩
        exact iff_of_true hne hfirst

/-- `strncmp` takes the memories for equal exactly when they agree, or differ
behind a zero byte only. -/
theorem strncmp_eq_zero_iff {n : ℕ} {a b : Mem} :
    strncmp n a b = 0 ↔ Agree n a b ∨ DiffersBehindNul n a b := by
  rw [← not_iff_not, ← ne_eq, strncmp_ne_zero_iff, not_or]
  constructor
  · rintro ⟨i, hi, hne, hbefore⟩
    refine ⟨fun hagree => hne (hagree i hi), ?_⟩
    rintro ⟨i', hi', hne', j, hj, hzero, hsame⟩
    -- the two first differences are one place
    have hi'i : i' ≤ i := le_of_not_gt fun hlt => hne (hsame i hlt)
    exact (hbefore j (lt_of_lt_of_le hj hi'i)).2 hzero
  · rintro ⟨hagree, hbehind⟩
    have hex : ∃ i, i < n ∧ a i ≠ b i := by
      by_contra hnone
      refine hagree fun i hi => ?_
      by_contra hne
      exact hnone ⟨i, hi, hne⟩
    classical
    obtain ⟨hi, hne⟩ := Nat.find_spec hex
    have hsame : ∀ k < Nat.find hex, a k = b k := by
      intro k hk
      by_contra hdiff
      exact Nat.find_min hex hk ⟨Nat.lt_trans hk hi, hdiff⟩
    exact ⟨Nat.find hex, hi, hne, fun j hj =>
      ⟨hsame j hj, fun hzero => hbehind ⟨_, hi, hne, j, hj, hzero, hsame⟩⟩⟩

/-- Only the bytes compared matter. -/
theorem strncmp_congr {n : ℕ} {a b b' : Mem} (h : Agree n b b') :
    strncmp n a b = strncmp n a b' := by
  induction n generalizing a b b' with
  | zero => rfl
  | succ n ih =>
      rw [strncmp, strncmp, h 0 (Nat.succ_pos n), ih (h.advance 1)]

end Mem
