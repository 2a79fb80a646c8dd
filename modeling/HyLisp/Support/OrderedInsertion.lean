import Mathlib.Data.List.Pairwise
import Mathlib.Data.List.Sort
import Mathlib.Tactic.Common

/-!
# Insertion in the order of a key

Elements are inserted one by one, each before the first one whose key is not smaller.
The list that is left is in the order of this key.  It is in the order of a second key
as well, and the two do not mix up elements, exactly when the first key follows the
second one on the elements inserted.
-/

namespace OrderedInsertion

/-- Lists with the same keys have the same values of what the key determines. -/
theorem map_eq_of_map_eq {α γ δ : Type*} {wanted : α → γ} {f : α → δ} {l l' : List α}
    (hf : ∀ a ∈ l, ∀ b ∈ l', wanted a = wanted b → f a = f b)
    (h : l.map wanted = l'.map wanted) : l.map f = l'.map f := by
  induction l generalizing l' with
  | nil =>
      rw [List.map_nil, eq_comm, List.map_eq_nil_iff] at h
      rw [h]
  | cons a l ih =>
      cases l' with
      | nil => cases h
      | cons b l' =>
          obtain ⟨hhead, htail⟩ := List.cons.inj h
          rw [List.map_cons, List.map_cons, hf a List.mem_cons_self b List.mem_cons_self hhead]
          rw [ih (fun x hx y hy => hf x (List.mem_cons_of_mem _ hx) y
            (List.mem_cons_of_mem _ hy)) htail]

variable {α β γ : Type*} [LinearOrder β] [LinearOrder γ]

/-- A sequence of insertions into the empty list. -/
def insertAll (key : α → β) (xs : List α) : List α :=
  xs.foldl (fun l x => l.orderedInsert (fun a b => key a ≤ key b) x) []

/-- The key puts two elements in the order in which the wanted one has them. -/
def Follows (key : α → β) (wanted : α → γ) (xs : List α) : Prop :=
  ∀ a ∈ xs, ∀ b ∈ xs, wanted a < wanted b → key a < key b

section Insert

variable {key : α → β} {wanted : α → γ} {xs ys : List α}

theorem insertAll_eq (key : α → β) (xs : List α) :
    insertAll key xs = xs.reverse.insertionSort fun a b => key a ≤ key b := by
  rw [insertAll, List.insertionSort, List.foldr_reverse]

theorem perm_insertAll (key : α → β) (xs : List α) : (insertAll key xs).Perm xs := by
  rw [insertAll_eq]
  exact (List.perm_insertionSort _ _).trans (List.reverse_perm xs)

theorem pairwise_insertAll (key : α → β) (xs : List α) :
    (insertAll key xs).Pairwise fun a b => key a ≤ key b := by
  have : Std.Total fun a b => key a ≤ key b := ⟨fun a b => le_total (key a) (key b)⟩
  have : IsTrans α fun a b => key a ≤ key b := ⟨fun a b c => le_trans⟩
  rw [insertAll_eq]
  exact List.pairwise_insertionSort _ _

theorem Follows.le {a b : α} (h : Follows key wanted xs) (ha : a ∈ xs) (hb : b ∈ xs)
    (hle : key a ≤ key b) : wanted a ≤ wanted b :=
  not_lt.mp fun hlt => hle.not_gt (h b hb a ha hlt)

theorem Follows.pairwise (h : Follows key wanted xs) :
    (insertAll key xs).Pairwise fun a b => wanted a ≤ wanted b := by
  have hperm := perm_insertAll key xs
  refine (pairwise_insertAll key xs).imp_of_mem fun ha hb hle => ?_
  exact h.le (hperm.mem_iff.mp ha) (hperm.mem_iff.mp hb) hle

/-- In order, what the wanted key determines does not depend on the order of the
insertions. -/
theorem map_insertAll_of_perm {δ : Type*} {f : α → δ} (hperm : ys.Perm xs)
    (h : Follows key wanted xs)
    (hf : ∀ a ∈ xs, ∀ b ∈ xs, wanted a = wanted b → f a = f b) :
    (insertAll key ys).map f = (insertAll key xs).map f := by
  have hxs := perm_insertAll key xs
  have hys := (perm_insertAll key ys).trans hperm
  have hfollows : Follows key wanted ys := fun a ha b hb =>
    h a (hperm.mem_iff.mp ha) b (hperm.mem_iff.mp hb)
  have hwanted : (insertAll key ys).map wanted = (insertAll key xs).map wanted := by
    refine List.Perm.eq_of_pairwise (fun a b _ _ => le_antisymm) ?_ ?_
      ((hys.trans hxs.symm).map wanted)
    · exact List.pairwise_map.mpr hfollows.pairwise
    · exact List.pairwise_map.mpr h.pairwise
  exact map_eq_of_map_eq
    (fun a ha b hb => hf a (hys.mem_iff.mp ha) b (hxs.mem_iff.mp hb)) hwanted

/-- Two elements of a list in the order of both keys. -/
def Agree (key : α → β) (wanted : α → γ) (a b : α) : Prop :=
  (wanted a < wanted b → key a ≤ key b) ∧ (wanted b < wanted a → key b ≤ key a)

/-- A list in the order of both keys has them agree, up to ties of the first one. -/
theorem le_of_pairwise {a b : α}
    (h : (insertAll key xs).Pairwise fun a b => wanted a ≤ wanted b)
    (ha : a ∈ xs) (hb : b ∈ xs) (hlt : wanted a < wanted b) : key a ≤ key b := by
  have hperm := perm_insertAll key xs
  have hagree : (insertAll key xs).Pairwise (Agree key wanted) := by
    refine ((pairwise_insertAll key xs).and h).imp fun ⟨hkey, hwanted⟩ => ?_
    exact ⟨fun _ => hkey, fun hlt => absurd hlt hwanted.not_gt⟩
  have : Std.Symm (Agree key wanted) := ⟨fun _ _ hxy => ⟨hxy.2, hxy.1⟩⟩
  have hall := hagree.forall_of_forall fun _ _ => ⟨fun _ => le_rfl, fun _ => le_rfl⟩
  exact (hall (hperm.mem_iff.mpr ha) (hperm.mem_iff.mpr hb)).1 hlt

/-- The list is in the order of the wanted key, and elements with one key have one
wanted key, exactly when the key follows the wanted one. -/
theorem pairwise_and_injOn_iff (key : α → β) (wanted : α → γ) (xs : List α) :
    ((insertAll key xs).Pairwise (fun a b => wanted a ≤ wanted b) ∧
      ∀ a ∈ xs, ∀ b ∈ xs, key a = key b → wanted a = wanted b) ↔
    Follows key wanted xs := by
  constructor
  · rintro ⟨hsorted, hties⟩ a ha b hb hlt
    refine lt_of_le_of_ne (le_of_pairwise hsorted ha hb hlt) fun heq => ?_
    exact hlt.ne (hties a ha b hb heq)
  · intro h
    refine ⟨h.pairwise, fun a ha b hb heq => ?_⟩
    exact le_antisymm (h.le ha hb heq.le) (h.le hb ha heq.ge)

end Insert

end OrderedInsertion
