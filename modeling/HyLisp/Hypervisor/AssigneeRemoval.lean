import HyLisp.Hypervisor.Assignments
import HyLisp.Support.HeapArray

/-!
# Removing an assignee in place

`remove_assignee` deletes entries of the array while it walks over it: the rest of the
array moves down over the entry that goes, the counter shrinks, and the walk stays where
it is.  What is left is the list without the entries of the assignee, in its order.  The
number it returns is another matter.
-/

namespace HyLisp.Hypervisor

/-- What a call of `remove_assignee` leaves: the array, its counter, the entries that were
freed, and the result. -/
structure AssigneeRemoval where
  assignments : HeapArray Assignment
  assignmentsCtr : ℕ
  freed : List Assignment
  count : ℤ

/-- The loop of `remove_assignee`, with its locals `count` and `i`.  Reading a cell that
was not written is a failure. -/
def removeAssigneeFrom (assigneeIndex count : ℤ) (assignments : HeapArray Assignment)
    (assignmentsCtr i : ℕ) (freed : List Assignment) : Option AssigneeRemoval :=
  if i < assignmentsCtr then
    match assignments[i]? with
    | some (some entry) =>
        if (entry.assigneeIndex : ℤ) = assigneeIndex then
          (HeapArray.memmove assignments i (i + 1) (assignmentsCtr - 1 - i)).bind
            fun assignments =>
              removeAssigneeFrom assigneeIndex count assignments (assignmentsCtr - 1) i
                (freed ++ [entry])
        else
          removeAssigneeFrom assigneeIndex count assignments assignmentsCtr (i + 1) freed
    | _ => none
  else some ⟨assignments, assignmentsCtr, freed, count⟩
  termination_by assignmentsCtr - i

/-- `remove_assignee`, on the array; `count` starts at 0. -/
def removeAssigneeInPlace (assignments : HeapArray Assignment) (assignmentsCtr : ℕ)
    (assigneeIndex : ℤ) : Option AssigneeRemoval :=
  removeAssigneeFrom assigneeIndex 0 assignments assignmentsCtr 0 []

/-- The entries of an assignee. -/
def entriesOf (table : List Assignment) (assigneeIndex : ℤ) : List Assignment :=
  table.filter fun entry => (entry.assigneeIndex : ℤ) = assigneeIndex

/-- Behind the entries that are kept, the loop frees those of the assignee and keeps the
others. -/
theorem removeAssigneeFrom_eq (assigneeIndex count : ℤ) {assignments : HeapArray Assignment}
    {kept rest : List Assignment} (h : assignments.Holds (kept ++ rest))
    (freed : List Assignment) :
    ∃ assignments', removeAssigneeFrom assigneeIndex count assignments
        (kept ++ rest).length kept.length freed =
      some ⟨assignments', (kept ++ removeAssignee rest assigneeIndex).length,
        freed ++ entriesOf rest assigneeIndex, count⟩ ∧
      assignments'.Holds (kept ++ removeAssignee rest assigneeIndex) := by
  induction rest generalizing assignments kept freed with
  | nil =>
      rw [removeAssignee_eq, List.filter_nil]
      refine ⟨assignments, ?_, h⟩
      rw [removeAssigneeFrom, if_neg (by simp), entriesOf, List.filter_nil, List.append_nil,
        List.append_nil]
  | cons entry rest ih =>
      have hlt : kept.length < (kept ++ entry :: rest).length := by simp
      have hget : assignments[kept.length]? = some (some entry) := by
        rw [h.getElem? hlt]
        simp
      rw [removeAssigneeFrom, if_pos hlt, hget, removeAssignee_eq, entriesOf]
      dsimp only
      by_cases howned : (entry.assigneeIndex : ℤ) = assigneeIndex
      · obtain ⟨moved, hmove, hholds, -⟩ := h.memmove hlt
        rw [List.eraseIdx_append_of_length_le (le_refl _), Nat.sub_self,
          List.eraseIdx_cons_zero] at hholds
        have hctr : (kept ++ entry :: rest).length - 1 = (kept ++ rest).length := by
          simp
        obtain ⟨assignments', hrun, hheld⟩ := ih hholds (freed ++ [entry])
        refine ⟨assignments', ?_, ?_⟩
        · rw [if_pos howned, hmove, Option.bind_some, hctr, hrun, removeAssignee_eq, entriesOf,
            List.filter_cons_of_neg (by simp [howned]), List.filter_cons_of_pos (by simp [howned]),
            List.append_assoc, List.singleton_append]
        · rw [List.filter_cons_of_neg (by simp [howned]), ← removeAssignee_eq]
          exact hheld
      · have hsplit : kept ++ entry :: rest = (kept ++ [entry]) ++ rest := by simp
        obtain ⟨assignments', hrun, hheld⟩ := @ih assignments (kept ++ [entry]) (hsplit ▸ h) freed
        refine ⟨assignments', ?_, ?_⟩
        · have hlen : (kept ++ [entry]).length = kept.length + 1 := by simp
          rw [if_neg howned, hsplit, ← hlen, hrun, removeAssignee_eq, entriesOf,
            List.filter_cons_of_pos (by simp [howned]), List.filter_cons_of_neg (by simp [howned]),
            List.append_assoc, List.singleton_append]
        · rw [List.filter_cons_of_pos (by simp [howned]), ← removeAssignee_eq]
          simpa using hheld

/-- The call leaves the entries of the other assignees in their order, frees the others,
and returns how many these are. -/
def RemovesAssignee (table : List Assignment) (spare : HeapArray Assignment)
    (assigneeIndex : ℤ) : Prop :=
  ∃ removal, removeAssigneeInPlace (table.map some ++ spare) table.length assigneeIndex =
      some removal ∧
    removal.assignments.Holds
      (table.filter fun entry => (entry.assigneeIndex : ℤ) ≠ assigneeIndex) ∧
    removal.assignmentsCtr =
      (table.filter fun entry => (entry.assigneeIndex : ℤ) ≠ assigneeIndex).length ∧
    removal.freed = entriesOf table assigneeIndex ∧
    removal.count = (entriesOf table assigneeIndex).length

/-- The loop always ends, with the entries of the others and the result 0. -/
theorem removeAssigneeInPlace_eq (table : List Assignment) (spare : HeapArray Assignment)
    (assigneeIndex : ℤ) :
    ∃ assignments, removeAssigneeInPlace (table.map some ++ spare) table.length assigneeIndex =
        some ⟨assignments, (removeAssignee table assigneeIndex).length,
          entriesOf table assigneeIndex, 0⟩ ∧
      assignments.Holds (removeAssignee table assigneeIndex) := by
  have hholds : HeapArray.Holds (table.map some ++ spare) ([] ++ table) :=
    HeapArray.holds_append table spare
  exact removeAssigneeFrom_eq assigneeIndex 0 hholds []

/-- Nothing in the loop changes `count`. -/
theorem RemovesAssignee.entriesOf_eq_nil {table : List Assignment}
    {spare : HeapArray Assignment} {assigneeIndex : ℤ}
    (h : RemovesAssignee table spare assigneeIndex) : entriesOf table assigneeIndex = [] := by
  obtain ⟨assignments, hrun, -⟩ := removeAssigneeInPlace_eq table spare assigneeIndex
  obtain ⟨removal, hremoval, -, -, -, hlen⟩ := h
  obtain rfl := Option.some_inj.mp (hrun.symm.trans hremoval)
  exact List.length_eq_zero_iff.mp (Int.natCast_eq_zero.mp hlen.symm)

/-- The number returned is right if and only if there is no entry to remove. -/
theorem removesAssignee_iff (table : List Assignment) (spare : HeapArray Assignment)
    (assigneeIndex : ℤ) :
    RemovesAssignee table spare assigneeIndex ↔
      ∀ entry ∈ table, (entry.assigneeIndex : ℤ) ≠ assigneeIndex := by
  have hnone : entriesOf table assigneeIndex = [] ↔
      ∀ entry ∈ table, (entry.assigneeIndex : ℤ) ≠ assigneeIndex := by
    simp [entriesOf, List.filter_eq_nil_iff]
  constructor
  · intro h
    exact hnone.mp h.entriesOf_eq_nil
  · intro h
    obtain ⟨assignments, hrun, hholds⟩ := removeAssigneeInPlace_eq table spare assigneeIndex
    rw [removeAssignee_eq] at hrun hholds
    refine ⟨_, hrun, hholds, rfl, rfl, ?_⟩
    rw [hnone.mpr h]
    rfl

/-- The default route of plane 0 is removed, and the result is 0. -/
theorem not_removesAssignee_one :
    ¬ ∀ table spare assigneeIndex, RemovesAssignee table spare assigneeIndex := by
  intro h
  have hone := h [⟨⟨zeroAddr, 0, .prfxAsis⟩, 0⟩] [] 0
  exact absurd hone.entriesOf_eq_nil (List.cons_ne_nil _ _)

end HyLisp.Hypervisor
