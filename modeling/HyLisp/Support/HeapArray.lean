import Mathlib.Data.List.Basic
import Mathlib.Data.List.Infix
import Mathlib.Tactic.Common

/-!
# Allocated arrays

An array on the heap has a number of cells, of which some were never written.  It is used
through a counter: the cells below the counter hold the elements of a list, and the others
are spare.  Writing outside the cells is a failure.  The array may be allocated again with
another number of cells, and a part of it may be moved over another one.
-/

/-- The cells of an array; `none` marks one that was not written. -/
abbrev HeapArray (α : Type*) := List (Option α)

namespace HeapArray

variable {α : Type*} {a : HeapArray α} {xs : List α} {x : α} {i n : ℕ}

/-- `malloc` -/
def alloc (n : ℕ) : HeapArray α :=
  List.replicate n none

/-- `realloc` -/
def realloc (a : HeapArray α) (n : ℕ) : HeapArray α :=
  a.take n ++ alloc (n - a.length)

/-- `a[i] = x` -/
def write (a : HeapArray α) (i : ℕ) (x : α) : Option (HeapArray α) :=
  if i < a.length then some (a.set i (some x)) else none

/-- `memmove(&a[dst], &a[src], n)`, counted in cells. -/
def memmove (a : HeapArray α) (dst src n : ℕ) : Option (HeapArray α) :=
  if dst + n ≤ a.length ∧ src + n ≤ a.length then
    some (a.take dst ++ (a.drop src).take n ++ a.drop (dst + n))
  else none

/-- The first cells hold the elements of a list. -/
def Holds (a : HeapArray α) (xs : List α) : Prop :=
  xs.map some <+: a

theorem holds_append (xs : List α) (spare : HeapArray α) : Holds (xs.map some ++ spare) xs :=
  List.prefix_append _ _

theorem holds_nil (a : HeapArray α) : Holds a [] :=
  List.nil_prefix

theorem Holds.length_le (h : Holds a xs) : xs.length ≤ a.length := by
  simpa using List.IsPrefix.length_le h

theorem Holds.getElem? (h : Holds a xs) (hi : i < xs.length) : a[i]? = some (xs[i]?) := by
  obtain ⟨spare, rfl⟩ := h
  rw [List.getElem?_append_left (by simpa using hi), List.getElem?_map,
    List.getElem?_eq_getElem hi, Option.map_some]

@[simp] theorem length_alloc (n : ℕ) : (alloc n : HeapArray α).length = n :=
  List.length_replicate

@[simp] theorem length_realloc (a : HeapArray α) (n : ℕ) : (realloc a n).length = n := by
  simp only [realloc, List.length_append, List.length_take, length_alloc]
  omega

/-- What fits into the new cells is kept. -/
theorem Holds.realloc (h : Holds a xs) (hn : xs.length ≤ n) : Holds (realloc a n) xs := by
  obtain ⟨spare, rfl⟩ := h
  rw [HeapArray.realloc, List.take_append, List.take_of_length_le (by simpa using hn),
    List.append_assoc]
  exact List.prefix_append _ _

/-- The first spare cell takes one more element. -/
theorem Holds.write (h : Holds a xs) (hroom : xs.length < a.length) (x : α) :
    ∃ a', HeapArray.write a xs.length x = some a' ∧ Holds a' (xs ++ [x]) ∧
      a'.length = a.length := by
  refine ⟨_, if_pos hroom, ?_, List.length_set⟩
  obtain ⟨spare, rfl⟩ := h
  obtain ⟨cell, spare, rfl⟩ : ∃ cell rest, spare = cell :: rest := by
    apply List.exists_cons_of_ne_nil
    rintro rfl
    simp at hroom
  refine ⟨spare, ?_⟩
  have hset := List.set_append_right (s := xs.map some) (t := cell :: spare) (x := some x)
    xs.length (by simp)
  rw [hset]
  simp

/-- Moving the elements behind one down by a cell takes it out of the list. -/
theorem Holds.memmove (h : Holds a xs) (hi : i < xs.length) :
    ∃ a', HeapArray.memmove a i (i + 1) (xs.length - 1 - i) = some a' ∧
      Holds a' (xs.eraseIdx i) ∧ a'.length = a.length := by
  have hle := h.length_le
  have hroom : i + (xs.length - 1 - i) ≤ a.length ∧ i + 1 + (xs.length - 1 - i) ≤ a.length := by
    omega
  refine ⟨_, if_pos hroom, ?_, ?_⟩
  · obtain ⟨spare, rfl⟩ := h
    have hfront : (xs.map some ++ spare).take i = (xs.take i).map some := by
      rw [List.take_append_of_le_length (by simp; omega), List.map_take]
    have hmoved : ((xs.map some ++ spare).drop (i + 1)).take (xs.length - 1 - i) =
        (xs.drop (i + 1)).map some := by
      rw [List.drop_append_of_le_length (by simp; omega), List.take_append_of_le_length
        (by simp; omega), List.map_drop, List.take_of_length_le (by simp; omega)]
    rw [hfront, hmoved, ← List.map_append, ← List.eraseIdx_eq_take_drop_succ]
    exact List.prefix_append _ _
  · simp only [List.length_append, List.length_take, List.length_drop]
    omega

end HeapArray
