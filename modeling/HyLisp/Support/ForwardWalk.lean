import Mathlib.Data.List.Basic
import Mathlib.Data.Nat.Notation

/-!
# Reads of a walk that goes forward

A walk over the items of a message reads some fields of the item it is at, and goes on
behind the item or stops there.  As it only goes forward, its reads stay below a bound
exactly when its end does.  A read is an offset and a size.
-/

namespace ForwardWalk

/-- All reads end at or before a bound. -/
def Within (bound : ℕ) (reads : List (ℕ × ℕ)) : Prop :=
  ∀ r ∈ reads, r.1 + r.2 ≤ bound

@[simp] theorem within_nil (bound : ℕ) : Within bound [] :=
  fun _ hr => by cases hr

@[simp] theorem within_cons {bound k n : ℕ} {reads : List (ℕ × ℕ)} :
    Within bound ((k, n) :: reads) ↔ k + n ≤ bound ∧ Within bound reads :=
  List.forall_mem_cons

@[simp] theorem within_append {bound : ℕ} {reads reads' : List (ℕ × ℕ)} :
    Within bound (reads ++ reads') ↔ Within bound reads ∧ Within bound reads' :=
  List.forall_mem_append

/-- The items of a message: what is read of the item at an offset, where these reads
end, and whether the walk goes on from there. -/
structure Items where
  reads : ℕ → List (ℕ × ℕ)
  stop : ℕ → ℕ
  goesOn : ℕ → Bool
  le_stop : ∀ k, k ≤ stop k
  within_reads_iff : ∀ bound k, Within bound (reads k) ↔ stop k ≤ bound

namespace Items

variable (items : Items)

/-- The reads of a walk over a number of items from an offset on. -/
def walkReads : ℕ → ℕ → List (ℕ × ℕ)
  | 0, _ => []
  | n + 1, k =>
      items.reads k ++ if items.goesOn k then walkReads n (items.stop k) else []

/-- The end of the walk. -/
def walkEnd : ℕ → ℕ → ℕ
  | 0, k => k
  | n + 1, k => if items.goesOn k then walkEnd n (items.stop k) else items.stop k

/-- The walk goes on at all of the items. -/
def complete : ℕ → ℕ → Bool
  | 0, _ => true
  | n + 1, k => items.goesOn k && complete n (items.stop k)

theorem le_walkEnd (n k : ℕ) : k ≤ items.walkEnd n k := by
  induction n generalizing k with
  | zero => exact Nat.le_refl k
  | succ n ih =>
      have hstop := items.le_stop k
      rw [walkEnd]
      split
      · exact Nat.le_trans hstop (ih (items.stop k))
      · exact hstop

variable {items}

/-- The reads of a walk that starts below a bound stay there exactly when it ends
there. -/
theorem within_walkReads_iff {bound : ℕ} (n : ℕ) {k : ℕ} (hk : k ≤ bound) :
    Within bound (items.walkReads n k) ↔ items.walkEnd n k ≤ bound := by
  induction n generalizing k with
  | zero => exact iff_of_true (within_nil bound) hk
  | succ n ih =>
      rw [walkReads, walkEnd, within_append, items.within_reads_iff]
      split
      · constructor
        · rintro ⟨hstop, hrest⟩
          exact (ih hstop).mp hrest
        · intro hend
          have hstop := Nat.le_trans (items.le_walkEnd n (items.stop k)) hend
          exact ⟨hstop, (ih hstop).mpr hend⟩
      · exact and_iff_left (within_nil bound)

end Items

end ForwardWalk
