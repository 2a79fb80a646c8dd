import Mathlib

/-!
# Absorbing a stream block by block

A hash of this kind keeps a state and the units that do not fill a block yet.
Each full block goes through a compression function.  What it has absorbed does
not depend on the pieces in which the stream came.
-/

namespace BlockHash

variable {σ α : Type*} (compress : σ → List α → σ) (n : ℕ)

/-- The state behind the full blocks of a stream, and what is left of it. -/
def absorb [NeZero n] (s : σ) (xs : List α) : σ × List α :=
  if n ≤ xs.length then absorb (compress s (xs.take n)) (xs.drop n) else (s, xs)
termination_by xs.length
decreasing_by
  have hn := Nat.pos_of_neZero n
  rw [List.length_drop]
  omega

variable {compress} {n} [NeZero n] {s : σ} {xs ys : List α}

theorem absorb_short (h : xs.length < n) : absorb compress n s xs = (s, xs) := by
  rw [absorb, if_neg (Nat.not_le.mpr h)]

theorem absorb_step (h : n ≤ xs.length) :
    absorb compress n s xs = absorb compress n (compress s (xs.take n)) (xs.drop n) := by
  rw [absorb, if_pos h]

@[simp] theorem absorb_nil : absorb compress n s [] = (s, []) :=
  absorb_short (Nat.pos_of_neZero n)

/-- A block that the stream begins with goes through the compression. -/
theorem absorb_block_append (h : xs.length = n) :
    absorb compress n s (xs ++ ys) = absorb compress n (compress s xs) ys := by
  rw [absorb_step (by rw [List.length_append]; omega), List.take_left' h, List.drop_left' h]

/-- What is left is shorter than a block. -/
theorem length_absorb (s : σ) (xs : List α) :
    (absorb compress n s xs).2.length = xs.length % n := by
  fun_induction absorb compress n s xs with
  | case1 s xs h ih => rw [ih, List.length_drop, ← Nat.mod_eq_sub_mod h]
  | case2 s xs h => exact (Nat.mod_eq_of_lt (Nat.not_le.mp h)).symm

/-- The stream may come in two pieces. -/
theorem absorb_append (s : σ) (xs ys : List α) :
    absorb compress n s (xs ++ ys) =
      absorb compress n (absorb compress n s xs).1 ((absorb compress n s xs).2 ++ ys) := by
  fun_induction absorb compress n s xs with
  | case1 s xs h ih =>
      have hsplit : xs ++ ys = xs.take n ++ (xs.drop n ++ ys) := by
        rw [← List.append_assoc, List.take_append_drop]
      rw [hsplit, absorb_block_append (List.length_take_of_le h)]
      exact ih
  | case2 s xs h => rfl

end BlockHash
