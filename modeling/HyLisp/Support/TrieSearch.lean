import HyLisp.Support.BitTrie

/-!
# Searching a trie of bit strings

A search goes down from the top of a trie as long as the keys that it meets begin the key
searched for.  Where every node is in its place, it passes all entries with such keys, and
their keys get longer on the way.
-/

namespace BitTrie

variable {ν : Type*} {t : BitTrie ν} {k key : List Bool}

/-- The entries that a search passes. -/
def path (key : List Bool) : BitTrie ν → List (List Bool × ν)
  | nil => []
  | node k data left right =>
      if k <+: key then
        (k, data) :: if bitAt key k.length then right.path key else left.path key
      else []

theorem bitAt_of_append_isPrefix {b : Bool} (h : k ++ [b] <+: key) :
    bitAt key k.length = b := by
  obtain ⟨rest, rfl⟩ := h
  simp [bitAt]

/-- No key begins the one searched for where they all continue another one. -/
theorem Below.filter_eq_nil (h : Below k t) (hk : ¬k <+: key) :
    t.entries.filter (fun e => decide (e.1 <+: key)) = [] := by
  apply List.filter_eq_nil_iff.mpr
  intro e he hcover
  exact hk ((h.prefix_of_mem he).trans (of_decide_eq_true hcover))

/-- A search passes the entries whose keys begin the one searched for. -/
theorem Below.path_eq_filter (h : Below k t) :
    t.path key = t.entries.filter fun e => decide (e.1 <+: key) := by
  induction t generalizing k with
  | nil => rfl
  | node k' data left right ihleft ihright =>
      obtain ⟨-, hleft, hright⟩ := h
      rw [path, entries]
      by_cases hcover : k' <+: key
      · rw [if_pos hcover, List.filter_cons_of_pos (by simpa using hcover),
          List.filter_append]
        cases hbit : bitAt key k'.length with
        | false =>
            have hother : ¬k' ++ [true] <+: key := by
              intro hprefix
              rw [bitAt_of_append_isPrefix hprefix] at hbit
              cases hbit
            rw [hright.filter_eq_nil hother, List.append_nil, ← ihleft hleft]
            rfl
        | true =>
            have hother : ¬k' ++ [false] <+: key := by
              intro hprefix
              rw [bitAt_of_append_isPrefix hprefix] at hbit
              cases hbit
            rw [hleft.filter_eq_nil hother, List.nil_append, ← ihright hright]
            rfl
      · have hbelow : ∀ b : Bool, ¬k' ++ [b] <+: key := fun b hprefix =>
          hcover ((List.prefix_append _ _).trans hprefix)
        rw [if_neg hcover, List.filter_cons_of_neg (by simpa using hcover), List.filter_append,
          hleft.filter_eq_nil (hbelow false), hright.filter_eq_nil (hbelow true), List.nil_append]

theorem Below.mem_path_iff (h : Below k t) {e : List Bool × ν} :
    e ∈ t.path key ↔ e ∈ t.entries ∧ e.1 <+: key := by
  rw [h.path_eq_filter, List.mem_filter, decide_eq_true_iff]

/-- The keys get longer on the way down. -/
theorem Below.pairwise_path (h : Below k t) :
    (t.path key).Pairwise fun e e' => e.1.length < e'.1.length := by
  induction t generalizing k with
  | nil => exact List.Pairwise.nil
  | node k' data left right ihleft ihright =>
      obtain ⟨-, hleft, hright⟩ := h
      have hlonger : ∀ {b : Bool} {side : BitTrie ν}, Below (k' ++ [b]) side →
          ∀ e ∈ side.path key, k'.length < e.1.length := by
        intro b side hside e he
        have hle := (hside.prefix_of_mem (hside.mem_path_iff.mp he).1).length_le
        rw [List.length_append, List.length_singleton] at hle
        exact Nat.lt_of_succ_le hle
      rw [path]
      split
      · apply List.Pairwise.cons
        · split
          · exact hlonger hright
          · exact hlonger hleft
        · split
          · exact ihright hright
          · exact ihleft hleft
      · exact List.Pairwise.nil

end BitTrie
