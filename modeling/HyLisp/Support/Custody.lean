import Mathlib.Data.List.FinRange
import Mathlib.Data.List.Perm.Basic
import Mathlib.Logic.Function.Basic

/-!
# Custody in a table of slots

Each slot of a table holds an item or none.  When one slot is written, what the other
slots hold stays, so that the items of the table change by what the slot held before
and what it holds afterwards: an item is put into a slot, taken out of it, or kept.
-/

namespace Custody

variable {n : ℕ} {σ α : Type*} (holds : σ → Option α)

/-- The items that a table holds. -/
def held (t : Fin n → σ) : List α :=
  (List.finRange n).filterMap fun i => holds (t i)

/-- The items in the slots other than one. -/
def heldElsewhere (t : Fin n → σ) (i : Fin n) : List α :=
  ((List.finRange n).erase i).filterMap fun j => holds (t j)

/-- The items are that of one slot and those of the others. -/
theorem held_perm (t : Fin n → σ) (i : Fin n) :
    (held holds t).Perm ((holds (t i)).toList ++ heldElsewhere holds t i) := by
  have hsplit := (List.perm_cons_erase (List.mem_finRange i)).filterMap
    fun j => holds (t j)
  rw [List.filterMap_cons] at hsplit
  cases hi : holds (t i) with
  | none =>
      rw [hi] at hsplit
      exact hsplit
  | some a =>
      rw [hi] at hsplit
      exact hsplit

/-- A write changes nothing in the other slots. -/
theorem heldElsewhere_update (t : Fin n → σ) (i : Fin n) (s : σ) :
    heldElsewhere holds (Function.update t i s) i = heldElsewhere holds t i := by
  apply List.filterMap_congr
  intro j hj
  have hne : j ≠ i := ((List.nodup_finRange n).mem_erase_iff.mp hj).1
  rw [Function.update_of_ne hne]

theorem held_update_perm (t : Fin n → σ) (i : Fin n) (s : σ) :
    (held holds (Function.update t i s)).Perm
      ((holds s).toList ++ heldElsewhere holds t i) := by
  have hsplit := held_perm holds (Function.update t i s) i
  rwa [Function.update_self, heldElsewhere_update] at hsplit

variable {holds} {t : Fin n → σ} {i : Fin n} {s : σ}

/-- The slot keeps its item. -/
theorem held_update_same (h : holds s = holds (t i)) :
    held holds (Function.update t i s) = held holds t := by
  apply List.filterMap_congr
  intro j _
  by_cases hj : j = i
  · subst hj
    rw [Function.update_self, h]
  · rw [Function.update_of_ne hj]

/-- An item is put into an empty slot. -/
theorem held_update_put {a : α} (hempty : holds (t i) = none) (hs : holds s = some a) :
    (held holds (Function.update t i s)).Perm (a :: held holds t) := by
  have hafter := held_update_perm holds t i s
  have hbefore := held_perm holds t i
  rw [hs] at hafter
  rw [hempty] at hbefore
  exact hafter.trans (hbefore.symm.cons a)

/-- The item of a slot is taken out. -/
theorem held_update_take {a : α} (hfull : holds (t i) = some a) (hs : holds s = none) :
    (held holds t).Perm (a :: held holds (Function.update t i s)) := by
  have hafter := held_update_perm holds t i s
  have hbefore := held_perm holds t i
  rw [hs] at hafter
  rw [hfull] at hbefore
  exact hbefore.trans (hafter.symm.cons a)

/-- A table whose slots are all empty holds nothing. -/
theorem held_eq_nil (h : ∀ i, holds (t i) = none) : held holds t = [] := by
  apply List.filterMap_eq_nil_iff.mpr
  intro i _
  exact h i

end Custody
