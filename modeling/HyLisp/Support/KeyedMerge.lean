import Mathlib.Data.List.MinMax
import Mathlib.Tactic.Common

/-!
# Merging a sequence by key

Values are entered into a list one by one.  A value whose key is in the list
already replaces the one it finds there if it is better, and a new key goes to the
end.  What is left in the end is one value for each key, in the order in which the
keys came first: the best one, and the earliest of these.
-/

namespace KeyedMerge

variable {α κ ρ : Type*} [DecidableEq κ] [LinearOrder ρ]

/-- Enter a value; less rank is better. -/
def mergeBy (key : α → κ) (rank : α → ρ) : List α → α → List α
  | [], x => [x]
  | e :: rest, x =>
      if key x = key e then
        if rank x < rank e then x :: rest else e :: rest
      else e :: mergeBy key rank rest x

/-- The keys of a sequence in the order of their first occurrence. -/
def firstKeys (key : α → κ) (l : List α) : List κ :=
  (l.map key).eraseDups

/-- The first of the values with a key that have the least rank. -/
def firstBest (key : α → κ) (rank : α → ρ) (l : List α) (k : κ) : Option α :=
  (l.filter fun x => key x = k).argmin rank

/-- One value for each key. -/
def bestByKey (key : α → κ) (rank : α → ρ) (l : List α) : List α :=
  (firstKeys key l).filterMap (firstBest key rank l)

section Keys

variable {key : α → κ} {rank : α → ρ} {l : List α} {x : α}

theorem mem_firstKeys {k : κ} : k ∈ firstKeys key l ↔ ∃ x ∈ l, key x = k := by
  rw [firstKeys, List.mem_eraseDups, List.mem_map]

theorem firstKeys_concat_of_mem (h : ∃ e ∈ l, key e = key x) :
    firstKeys key (l ++ [x]) = firstKeys key l := by
  have hmem : key x ∈ l.map key := List.mem_map.mpr h
  have hrest : (([x] : List α).map key).removeAll (l.map key) = [] := by
    rw [List.removeAll, List.map_singleton, List.filter_cons_of_neg (by simpa using hmem),
      List.filter_nil]
  rw [firstKeys, List.map_append, List.eraseDups_append, hrest, List.eraseDups_nil,
    List.append_nil, firstKeys]

theorem firstKeys_concat_of_new (h : ∀ e ∈ l, key x ≠ key e) :
    firstKeys key (l ++ [x]) = firstKeys key l ++ [key x] := by
  have hnew : key x ∉ l.map key := by
    rintro hmem
    obtain ⟨e, he, hkey⟩ := List.mem_map.mp hmem
    exact h e he hkey.symm
  have hrest : (([x] : List α).map key).removeAll (l.map key) = [key x] := by
    rw [List.removeAll, List.map_singleton, List.filter_cons_of_pos (by simpa using hnew),
      List.filter_nil]
  rw [firstKeys, List.map_append, List.eraseDups_append, hrest, firstKeys]
  rfl

theorem nodup_firstKeys (key : α → κ) (l : List α) : (firstKeys key l).Nodup := by
  induction l using List.reverseRecOn with
  | nil => exact List.nodup_nil
  | append_singleton l x ih =>
      by_cases h : ∃ e ∈ l, key e = key x
      · rwa [firstKeys_concat_of_mem h]
      · have hnew : ∀ e ∈ l, key x ≠ key e := fun e he hkey => h ⟨e, he, hkey.symm⟩
        rw [firstKeys_concat_of_new hnew, List.nodup_append]
        refine ⟨ih, List.pairwise_singleton _ _, fun k hk k' hk' => ?_⟩
        obtain ⟨e, he, rfl⟩ := mem_firstKeys.mp hk
        rw [List.mem_singleton.mp hk']
        exact (hnew e he).symm

/-- The best value for a key has this key, and is one of the sequence. -/
theorem mem_of_firstBest {k : κ} {e : α} (h : firstBest key rank l k = some e) :
    e ∈ l ∧ key e = k := by
  have hmem := List.argmin_mem (Option.mem_def.mpr h)
  rw [List.mem_filter] at hmem
  exact ⟨hmem.1, of_decide_eq_true hmem.2⟩

theorem exists_firstBest (rank : α → ρ) {k : κ} (h : ∃ x ∈ l, key x = k) :
    ∃ e, firstBest key rank l k = some e := by
  obtain ⟨x, hx, hkey⟩ := h
  apply Option.ne_none_iff_exists'.mp
  rw [firstBest, Ne, List.argmin_eq_none]
  exact List.ne_nil_of_mem (List.mem_filter.mpr ⟨hx, decide_eq_true hkey⟩)

theorem firstBest_concat_of_ne {k : κ} (h : key x ≠ k) :
    firstBest key rank (l ++ [x]) k = firstBest key rank l k := by
  rw [firstBest, List.filter_append, List.filter_cons_of_neg (by simpa using h),
    List.filter_nil, List.append_nil, firstBest]

/-- A further value with the key is better only with a smaller rank. -/
theorem firstBest_concat_self {e : α} (h : firstBest key rank l (key x) = some e) :
    firstBest key rank (l ++ [x]) (key x) =
      some (if rank x < rank e then x else e) := by
  rw [firstBest] at h ⊢
  have hself : [x].filter (fun e => key e = key x) = [x] := by simp
  rw [List.filter_append, hself, List.argmin_concat, h]
  exact (apply_ite some _ _ _).symm

theorem firstBest_concat_new (h : ∀ e ∈ l, key x ≠ key e) :
    firstBest key rank (l ++ [x]) (key x) = some x := by
  have hnone : l.filter (fun e => key e = key x) = [] :=
    List.filter_eq_nil_iff.mpr fun e he hkey => h e he (of_decide_eq_true hkey).symm
  have hself : [x].filter (fun e => key e = key x) = [x] := by simp
  rw [firstBest, List.filter_append, hnone, hself]
  rfl

theorem map_key_bestByKey (key : α → κ) (rank : α → ρ) (l : List α) :
    (bestByKey key rank l).map key = firstKeys key l := by
  rw [bestByKey, List.map_filterMap]
  have hkeys : ∀ k ∈ firstKeys key l,
      (firstBest key rank l k).map key = some k := by
    intro k hk
    obtain ⟨e, he⟩ := exists_firstBest rank (mem_firstKeys.mp hk)
    rw [he, Option.map_some, (mem_of_firstBest he).2]
  rw [List.filterMap_congr hkeys, List.filterMap_some]

end Keys

/-! ## Entering one value -/

section Merge

variable {key : α → κ} {rank : α → ρ} {l : List α} {x : α}

theorem mergeBy_of_new (h : ∀ e ∈ l, key x ≠ key e) :
    mergeBy key rank l x = l ++ [x] := by
  induction l with
  | nil => rfl
  | cons e rest ih =>
      rw [mergeBy, if_neg (h e List.mem_cons_self),
        ih fun e' he' => h e' (List.mem_cons_of_mem _ he'), List.cons_append]

/-- With a known key, the value of this key is replaced in place. -/
theorem mergeBy_of_mem (hnodup : (l.map key).Nodup) (h : ∃ e ∈ l, key e = key x) :
    mergeBy key rank l x =
      l.map fun e => if key e = key x then if rank x < rank e then x else e else e := by
  induction l with
  | nil =>
      obtain ⟨e, he, -⟩ := h
      cases he
  | cons e rest ih =>
      rw [List.map_cons, List.nodup_cons] at hnodup
      rw [mergeBy, List.map_cons]
      by_cases hkey : key x = key e
      · have hrest : (rest.map fun e' => if key e' = key x then
            if rank x < rank e' then x else e' else e') = rest := by
          rw [List.map_congr_left (g := id), List.map_id]
          intro e' he'
          refine if_neg fun hkey' => hnodup.1 ?_
          rw [← hkey, ← hkey']
          exact List.mem_map_of_mem he'
        rw [if_pos hkey, if_pos hkey.symm, hrest]
        split <;> rfl
      · obtain ⟨e', he', hkey'⟩ := h
        rcases List.mem_cons.mp he' with rfl | hmem
        · exact absurd hkey'.symm hkey
        · rw [if_neg hkey, if_neg (Ne.symm hkey), ih hnodup.2 ⟨e', hmem, hkey'⟩]

/-- Entering a value into the best ones so far gives the best ones with it. -/
theorem mergeBy_bestByKey (l : List α) (x : α) :
    mergeBy key rank (bestByKey key rank l) x = bestByKey key rank (l ++ [x]) := by
  have hkeys := map_key_bestByKey key rank l
  by_cases h : ∃ e ∈ l, key e = key x
  · have hmem : ∃ e ∈ bestByKey key rank l, key e = key x := by
      rw [← List.mem_map, hkeys]
      exact mem_firstKeys.mpr h
    rw [mergeBy_of_mem (by rw [hkeys]; exact nodup_firstKeys key l) hmem, bestByKey,
      bestByKey, firstKeys_concat_of_mem h, List.map_filterMap]
    apply List.filterMap_congr
    intro k hk
    obtain ⟨e, he⟩ := exists_firstBest rank (mem_firstKeys.mp hk)
    have hkey := (mem_of_firstBest he).2
    by_cases hx : key x = k
    · subst hx
      rw [firstBest_concat_self he, he, Option.map_some, if_pos hkey]
    · rw [firstBest_concat_of_ne hx, he, Option.map_some, if_neg]
      rw [hkey]
      exact Ne.symm hx
  · have hnew : ∀ e ∈ l, key x ≠ key e := fun e he hkey => h ⟨e, he, hkey.symm⟩
    have hnew' : ∀ e ∈ bestByKey key rank l, key x ≠ key e := by
      intro e he hkey
      have hmem : key e ∈ firstKeys key l := by
        rw [← hkeys]
        exact List.mem_map_of_mem he
      obtain ⟨e', he', hkey'⟩ := mem_firstKeys.mp hmem
      exact hnew e' he' (hkey.trans hkey'.symm)
    rw [mergeBy_of_new hnew', bestByKey, bestByKey, firstKeys_concat_of_new hnew,
      List.filterMap_append, List.filterMap_cons_some (firstBest_concat_new hnew),
      List.filterMap_nil]
    congr 1
    apply List.filterMap_congr
    intro k hk
    obtain ⟨e, he, rfl⟩ := mem_firstKeys.mp hk
    exact (firstBest_concat_of_ne (hnew e he)).symm

/-- A whole sequence entered into the empty list. -/
theorem foldl_mergeBy (key : α → κ) (rank : α → ρ) (l : List α) :
    l.foldl (mergeBy key rank) [] = bestByKey key rank l := by
  induction l using List.reverseRecOn with
  | nil => rfl
  | append_singleton l x ih =>
      rw [List.foldl_append, ih, List.foldl_cons, List.foldl_nil, mergeBy_bestByKey]

end Merge

end KeyedMerge
