import Mathlib.Order.Lattice
import Mathlib.Tactic.Common

/-!
# Running minima

A loop that keeps the best element seen so far, and takes another one only if its key is
strictly smaller, ends with the first element of the smallest key below the bound that it
started with.
-/

namespace RunningMinimum

variable {α β : Type*} [LinearOrder β] {key : α → β} {bound : β} {best : Option α} {x : α}
  {xs : List α}

/-- The element that the loop ends with: one whose key is below the bound is kept, and its
key is the bound from there on. -/
def smallest (key : α → β) : β → Option α → List α → Option α
  | _, best, [] => best
  | bound, best, x :: xs =>
      if key x < bound then smallest key (key x) (some x) xs else smallest key bound best xs

/-- The first element of the smallest key, which is below the bound. -/
structure IsFirst (key : α → β) (bound : β) (xs : List α) (x : α) : Prop where
  lt_bound : key x < bound
  exists_split : ∃ before after, xs = before ++ x :: after ∧ (∀ y ∈ before, key x < key y) ∧
    ∀ y ∈ after, key x ≤ key y

/-- An element of a key that is not smaller in front makes no difference. -/
theorem IsFirst.cons {y : α} (h : IsFirst key bound xs x) (hlt : key x < key y) :
    IsFirst key bound (y :: xs) x := by
  obtain ⟨before, after, rfl, hbefore, hafter⟩ := h.exists_split
  exact ⟨h.lt_bound, y :: before, after, rfl, List.forall_mem_cons.mpr ⟨hlt, hbefore⟩, hafter⟩

theorem smallest_cases (key : α → β) (bound : β) (best : Option α) (xs : List α) :
    ((∀ x ∈ xs, bound ≤ key x) ∧ smallest key bound best xs = best) ∨
      ∃ x, IsFirst key bound xs x ∧ smallest key bound best xs = some x := by
  induction xs generalizing bound best with
  | nil => exact Or.inl ⟨by simp, rfl⟩
  | cons y xs ih =>
      rw [smallest]
      by_cases hy : key y < bound
      · rw [if_pos hy]
        right
        rcases ih (key y) (some y) with ⟨hall, heq⟩ | ⟨x, hx, heq⟩
        · exact ⟨y, ⟨hy, [], xs, rfl, by simp, hall⟩, heq⟩
        · refine ⟨x, ?_, heq⟩
          have hcons := hx.cons hx.lt_bound
          exact ⟨hx.lt_bound.trans hy, hcons.exists_split⟩
      · rw [if_neg hy]
        have hle := not_lt.mp hy
        rcases ih bound best with ⟨hall, heq⟩ | ⟨x, hx, heq⟩
        · exact Or.inl ⟨List.forall_mem_cons.mpr ⟨hle, hall⟩, heq⟩
        · exact Or.inr ⟨x, hx.cons (hx.lt_bound.trans_le hle), heq⟩

end RunningMinimum
