import HyLisp.Support.ThreadTable
import Mathlib

/-!
# What the threads of a table hold

Each thread holds a multiset of things according to its place in the program.  What all
of them hold changes, when one thread is added, moved or removed, by what this thread
takes and gives back.
-/

namespace ThreadTable

variable {T W α : Type*} (held : W → Multiset α)

/-- What all the threads hold. -/
def holdings (s : AList fun _ : T => W) : Multiset α :=
  (s.entries.map fun e => held e.2).sum

variable {held} {s : AList fun _ : T => W} {t : T} {w w' : W}

@[simp] theorem holdings_empty : holdings held (∅ : AList fun _ : T => W) = 0 := rfl

variable [DecidableEq T]

theorem holdings_insert (held : W → Multiset α) (w : W) :
    holdings held (s.insert t w) = held w + holdings held (s.erase t) := by
  have hentries : (s.insert t w).entries = ⟨t, w⟩ :: (s.erase t).entries :=
    AList.entries_insert
  unfold holdings
  rw [hentries, List.map_cons, List.sum_cons]

/-- What a thread of the table holds is part of the whole. -/
theorem holdings_erase (held : W → Multiset α) (h : s.lookup t = some w) :
    holdings held s = held w + holdings held (s.erase t) := by
  unfold holdings
  rw [List.Perm.sum_eq ((perm_erase h).map _), List.map_cons, List.sum_cons]

/-- A new thread adds what it holds. -/
theorem holdings_insert_new (held : W → Multiset α) (w : W) (h : t ∉ s) :
    holdings held (s.insert t w) = held w + holdings held s := by
  rw [holdings_insert, erase_of_notMem h]

/-- A thread that moves gives back what it held. -/
theorem holdings_move (held : W → Multiset α) (w' : W) (h : s.lookup t = some w) :
    held w + holdings held (s.insert t w') = held w' + holdings held s := by
  rw [holdings_insert, holdings_erase held h, ← add_assoc, ← add_assoc, add_comm (held w)]

theorem mem_sum_map {β : Type*} {f : β → Multiset α} {l : List β} {a : α} :
    a ∈ (l.map f).sum ↔ ∃ x ∈ l, a ∈ f x := by
  induction l with
  | nil => simp
  | cons x l ih =>
      rw [List.map_cons, List.sum_cons, Multiset.mem_add, ih]
      simp

/-- A thing is held exactly when a thread holds it. -/
theorem mem_holdings {a : α} :
    a ∈ holdings held s ↔ ∃ t w, s.lookup t = some w ∧ a ∈ held w := by
  unfold holdings
  rw [mem_sum_map]
  constructor
  · rintro ⟨e, he, ha⟩
    exact ⟨e.1, e.2, mem_entries_iff.mp he, ha⟩
  · rintro ⟨t, w, ht, ha⟩
    exact ⟨⟨t, w⟩, mem_entries_iff.mpr ht, ha⟩

end ThreadTable
