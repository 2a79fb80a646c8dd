import Mathlib.Data.List.AList
import Mathlib.Tactic.Common

/-!
# Counting in a table of threads

A table gives each of its threads a place in the program.  Threads are added,
moved and removed one at a time, or all moved at once as a broadcast does.  The
number of threads at places of a kind changes by what each of these does to the
kind, and that is all that is said about it here.
-/

namespace ThreadTable

variable {T W : Type*}

/-- The number of threads at a place of the kind `p`. -/
def count (p : W → Bool) (s : AList fun _ : T => W) : ℕ :=
  s.entries.countP fun e => p e.2

/-- Every thread is moved. -/
def moveAll (f : T → W → W) (s : AList fun _ : T => W) : AList fun _ : T => W where
  entries := s.entries.map (Sigma.map id f)
  nodupKeys := s.nodupKeys.map₂ f s.entries

variable {p q : W → Bool} {f : T → W → W} {s : AList fun _ : T => W} {t t' : T} {w w' : W}

@[simp] theorem count_empty : count p (∅ : AList fun _ : T => W) = 0 := rfl

section Lookup

variable [DecidableEq T]

@[simp] theorem lookup_moveAll : (moveAll f s).lookup t = (s.lookup t).map (f t) :=
  List.dlookup_map₂ t

@[simp] theorem mem_moveAll : t ∈ moveAll f s ↔ t ∈ s := by
  rw [← AList.lookup_isSome, ← AList.lookup_isSome, lookup_moveAll, Option.isSome_map]

theorem mem_of_lookup (h : s.lookup t = some w) : t ∈ s := by
  rw [← AList.lookup_isSome, h]
  rfl

theorem lookup_insert_iff {u : T} {v : W} :
    (s.insert t w).lookup u = some v ↔
      (u = t ∧ w = v) ∨ (u ≠ t ∧ s.lookup u = some v) := by
  by_cases hu : u = t
  · subst hu
    simp
  · rw [AList.lookup_insert_ne hu]
    simp [hu]

theorem lookup_erase_iff {u : T} {v : W} :
    (s.erase t).lookup u = some v ↔ u ≠ t ∧ s.lookup u = some v := by
  by_cases hu : u = t
  · subst hu
    simp
  · rw [AList.lookup_erase_ne hu]
    simp [hu]

/-! ## One thread -/

/-- A thread of the table may as well be its first one. -/
theorem perm_erase (h : s.lookup t = some w) :
    s.entries.Perm (⟨t, w⟩ :: (s.erase t).entries) := by
  obtain ⟨v, l₁, l₂, hnot, hl, hk⟩ := List.exists_of_kerase (AList.mem_keys.mp (mem_of_lookup h))
  have hv : v = w := by
    have hmem : (⟨t, v⟩ : Sigma fun _ : T => W) ∈ s.entries := by
      rw [hl]
      exact List.mem_append_right _ List.mem_cons_self
    have hlook := List.mem_dlookup s.nodupKeys hmem
    rw [AList.lookup] at h
    rw [h] at hlook
    exact (Option.some_inj.mp hlook).symm
  have herase : (s.erase t).entries = l₁ ++ l₂ := hk
  subst hv
  rw [hl, herase]
  exact List.perm_middle

/-- Taking a thread out of the table takes its place out of the count. -/
theorem count_erase (p : W → Bool) (h : s.lookup t = some w) :
    count p s = count p (s.erase t) + (p w).toNat := by
  unfold count
  rw [(perm_erase h).countP_eq, List.countP_cons]
  cases p w <;> rfl

theorem count_insert : count p (s.insert t w) = count p (s.erase t) + (p w).toNat := by
  have hentries : (s.insert t w).entries = ⟨t, w⟩ :: (s.erase t).entries :=
    AList.entries_insert
  unfold count
  rw [hentries, List.countP_cons]
  cases p w <;> rfl

theorem erase_of_notMem (h : t ∉ s) : s.erase t = s :=
  AList.ext (List.kerase_of_notMem_keys h)

/-- A new thread adds its place to the count. -/
theorem count_insert_new (p : W → Bool) (w : W) (h : t ∉ s) :
    count p (s.insert t w) = count p s + (p w).toNat := by
  rw [count_insert, erase_of_notMem h]

/-- A thread that moves takes one place out of the count and puts another in. -/
theorem count_move (p : W → Bool) (w' : W) (h : s.lookup t = some w) :
    count p (s.insert t w') + (p w).toNat = count p s + (p w').toNat := by
  rw [count_insert, count_erase p h]
  omega

/-! ## All threads -/

omit [DecidableEq T] in
theorem count_moveAll : count p (moveAll f s) = s.entries.countP fun e => p (f e.1 e.2) := by
  unfold count moveAll
  rw [List.countP_map]
  rfl

theorem mem_entries_iff {e : Sigma fun _ : T => W} :
    e ∈ s.entries ↔ s.lookup e.1 = some e.2 :=
  (List.mem_dlookup_iff s.nodupKeys).symm

/-- A count is unchanged when no thread changes its kind. -/
theorem count_moveAll_eq (h : ∀ t w, s.lookup t = some w → p (f t w) = p w) :
    count p (moveAll f s) = count p s := by
  rw [count_moveAll]
  apply List.countP_congr
  intro e he
  rw [h e.1 e.2 (mem_entries_iff.mp he)]

theorem countP_lt_of_mem {α : Type*} {p q : α → Bool} {l : List α}
    (hle : ∀ x ∈ l, p x → q x) {x : α} (hx : x ∈ l) (hp : ¬p x) (hq : q x) :
    l.countP p < l.countP q := by
  obtain ⟨l₁, l₂, rfl⟩ := List.append_of_mem hx
  have h₁ : l₁.countP p ≤ l₁.countP q :=
    List.countP_mono_left fun y hy => hle y (List.mem_append_left _ hy)
  have h₂ : l₂.countP p ≤ l₂.countP q :=
    List.countP_mono_left fun y hy => hle y (List.mem_append_right _ (List.mem_cons_of_mem _ hy))
  rw [List.countP_append, List.countP_append, List.countP_cons_of_neg hp,
    List.countP_cons_of_pos hq]
  omega

theorem countP_concat {α : Type*} (q : α → Bool) (l : List α) (a : α) :
    (l ++ [a]).countP q = l.countP q + (q a).toNat := by
  rw [List.countP_append, List.countP_singleton]
  cases q a <;> rfl

/-- A count grows when threads of its kind stay in it and another one comes in. -/
theorem count_lt_moveAll (h : ∀ t w, s.lookup t = some w → p w → p (f t w))
    (ht : s.lookup t = some w) (hp : ¬p w) (hq : p (f t w)) :
    count p s < count p (moveAll f s) := by
  rw [count_moveAll]
  have hmem : (⟨t, w⟩ : Sigma fun _ : T => W) ∈ s.entries := mem_entries_iff.mpr ht
  exact countP_lt_of_mem (fun e he => h e.1 e.2 (mem_entries_iff.mp he)) hmem hp hq

/-- A count is positive exactly when a thread is at a place of its kind. -/
theorem count_pos_iff : 0 < count p s ↔ ∃ t w, s.lookup t = some w ∧ p w := by
  unfold count
  rw [List.countP_pos_iff]
  constructor
  · rintro ⟨e, he, hp⟩
    exact ⟨e.1, e.2, mem_entries_iff.mp he, hp⟩
  · rintro ⟨t, w, ht, hp⟩
    exact ⟨⟨t, w⟩, mem_entries_iff.mpr ht, hp⟩

theorem count_eq_zero_iff : count p s = 0 ↔ ∀ t w, s.lookup t = some w → p w = false := by
  rw [← Nat.le_zero, ← Nat.not_lt, count_pos_iff]
  constructor
  · intro h t w ht
    rw [Bool.eq_false_iff]
    intro hp
    exact h ⟨t, w, ht, hp⟩
  · rintro h ⟨t, w, ht, hp⟩
    rw [h t w ht] at hp
    cases hp

end Lookup

/-- A kind that implies another one is not counted more often. -/
theorem count_le_of_imp (h : ∀ w, p w → q w) : count p s ≤ count q s :=
  List.countP_mono_left fun e _ => h e.2

end ThreadTable
