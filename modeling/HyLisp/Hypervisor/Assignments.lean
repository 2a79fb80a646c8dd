import HyLisp.Hypervisor.Sorting
import HyLisp.Support.Transition
import Mathlib.Logic.Function.Basic
import Mathlib.Data.List.Nodup

/-!
# The assignments array

`add_assignment` and `remove_assignment` look an entry up with `exact_sort` and
then use the index it reports as a position of the assignments array.  What
`exact_sort` reports is the `assignee_index` of the entry, not its position, so
the operations implement a finite map from prefixes to owners only where the
two agree.  The main result of this module says exactly where they do.

An access outside the stored entries is modelled as a failure.
-/

namespace HyLisp.Hypervisor

open Transition

/-- `add_assignment` -/
def addAssignment (controlPlanesCtr : ℕ) (assignments : List Assignment)
    (item : Assignment) : Option (List Assignment × ℤ) :=
  let sorting := exactSort controlPlanesCtr assignments item.eid
  match sorting.code with
  | .sortingOne =>
      -- overwriting in place
      sorting.controlPlaneIndex.bind fun presentIndex =>
        if presentIndex < assignments.length then
          some (assignments.modify presentIndex fun stored =>
            { stored with assigneeIndex := item.assigneeIndex }, presentIndex)
        else none
  | .sortingErr => some (assignments, -1)
  | .sortingAll | .sortingNon =>
      some (assignments ++ [{ item with eid := sorting.significantEid }],
        assignments.length)

/-- `remove_assignment` -/
def removeAssignment (controlPlanesCtr : ℕ) (assignments : List Assignment)
    (item : Assignment) : Option (List Assignment) :=
  let sorting := exactSort controlPlanesCtr assignments item.eid
  match sorting.code with
  | .sortingOne =>
      sorting.controlPlaneIndex.bind fun presentIndex =>
        assignments[presentIndex]?.bind fun present =>
          if item.assigneeIndex ≠ present.assigneeIndex then some assignments
          else some (assignments.eraseIdx presentIndex)
  | _ => some assignments

/-- The loop of `remove_assignee`, from position `i` on. -/
def removeAssigneeLoop (assigneeIndex : ℤ) (assignments : List Assignment)
    (i : ℕ) : List Assignment :=
  if h : i < assignments.length then
    if ((assignments.get ⟨i, h⟩).assigneeIndex : ℤ) = assigneeIndex then
      removeAssigneeLoop assigneeIndex (assignments.eraseIdx i) i
    else removeAssigneeLoop assigneeIndex assignments (i + 1)
  else assignments
  termination_by assignments.length - i
  decreasing_by
    · rw [List.length_eraseIdx_of_lt h]
      omega
    · omega

/-- `remove_assignee` -/
def removeAssignee (assignments : List Assignment) (assigneeIndex : ℤ) :
    List Assignment :=
  removeAssigneeLoop assigneeIndex assignments 0

theorem removeAssigneeLoop_eq (assigneeIndex : ℤ) (kept rest : List Assignment) :
    removeAssigneeLoop assigneeIndex (kept ++ rest) kept.length =
      kept ++ rest.filter fun entry =>
        (entry.assigneeIndex : ℤ) ≠ assigneeIndex := by
  induction rest generalizing kept with
  | nil =>
      rw [removeAssigneeLoop, dif_neg (by simp)]
      simp
  | cons entry rest ih =>
      rw [removeAssigneeLoop, dif_pos (by simp)]
      have hget : (kept ++ entry :: rest).get ⟨kept.length, by simp⟩ = entry := by
        simp
      rw [hget]
      by_cases heq : (entry.assigneeIndex : ℤ) = assigneeIndex
      · rw [if_pos heq, List.eraseIdx_append_of_length_le (le_refl _),
          Nat.sub_self, List.eraseIdx_cons_zero, ih,
          List.filter_cons_of_neg (by simp [heq])]
      · have hsplit : kept ++ entry :: rest = (kept ++ [entry]) ++ rest := by simp
        have hlen : kept.length + 1 = (kept ++ [entry]).length := by simp
        rw [if_neg heq, hsplit, hlen, ih,
          List.filter_cons_of_pos (by simp [heq]), List.append_assoc,
          List.singleton_append]

/-- The loop keeps the entries of the other assignees. -/
theorem removeAssignee_eq (assignments : List Assignment) (assigneeIndex : ℤ) :
    removeAssignee assignments assigneeIndex =
      assignments.filter fun entry =>
        (entry.assigneeIndex : ℤ) ≠ assigneeIndex :=
  removeAssigneeLoop_eq assigneeIndex [] assignments

/-! ## The map from prefixes to owners -/

/-- The stored prefixes. -/
def storedKeys (table : List Assignment) : List (List Bool) :=
  table.map fun entry => entry.eid.key

/-- The exact owner of a prefix. -/
def exactOwner (table : List Assignment) (key : List Bool) : Option ℕ :=
  (lastEntry table key).map Assignment.assigneeIndex

section Owners

variable {table : List Assignment} {key : List Bool} {entry : Assignment}

theorem lastEntry_eq_none_iff :
    lastEntry table key = none ↔ key ∉ storedKeys table := by
  simp [lastEntry, storedKeys]

theorem eq_of_key_eq (hnodup : (storedKeys table).Nodup) {e e' : Assignment}
    (he : e ∈ table) (he' : e' ∈ table) (hkey : e.eid.key = e'.eid.key) :
    e = e' :=
  List.inj_on_of_nodup_map hnodup he he' hkey

theorem lastEntry_eq_some_iff (hnodup : (storedKeys table).Nodup) :
    lastEntry table key = some entry ↔ entry ∈ table ∧ entry.eid.key = key := by
  constructor
  · intro h
    have hkey := List.find?_some h
    have hmem := List.mem_of_find?_eq_some h
    exact ⟨List.mem_reverse.mp hmem, by simpa using hkey⟩
  · rintro ⟨hmem, hkey⟩
    cases hlast : lastEntry table key with
    | none =>
        exact absurd (List.mem_map.mpr ⟨entry, hmem, hkey⟩)
          (lastEntry_eq_none_iff.mp hlast)
    | some entry' =>
        have hmem' := List.mem_reverse.mp (List.mem_of_find?_eq_some hlast)
        have hkey' : entry'.eid.key = key := by
          simpa using List.find?_some hlast
        rw [eq_of_key_eq hnodup hmem' hmem (hkey'.trans hkey.symm)]

theorem exactOwner_of_mem (hnodup : (storedKeys table).Nodup)
    (hmem : entry ∈ table) :
    exactOwner table entry.eid.key = some entry.assigneeIndex := by
  rw [exactOwner, (lastEntry_eq_some_iff hnodup).mpr ⟨hmem, rfl⟩, Option.map_some]

theorem exactOwner_append (item : Assignment) :
    exactOwner (table ++ [item]) =
      Function.update (exactOwner table) item.eid.key
        (some item.assigneeIndex) := by
  funext key
  by_cases hkey : key = item.eid.key
  · subst hkey
    simp [exactOwner, lastEntry]
  · rw [Function.update_of_ne hkey]
    simp [exactOwner, lastEntry, Ne.symm hkey]

theorem storedKeys_modify (a owner : ℕ) :
    storedKeys (table.modify a fun e => { e with assigneeIndex := owner }) =
      storedKeys table := by
  apply List.ext_getElem
  · simp [storedKeys]
  · intro i hi hi'
    simp only [storedKeys, List.getElem_map, List.getElem_modify]
    split <;> rfl

/-- The owner of a prefix in a table split at one of its entries. -/
theorem exactOwner_split {before after : List Assignment} (key : List Bool) :
    exactOwner (before ++ entry :: after) key =
      (exactOwner after key).or
        (if entry.eid.key = key then some entry.assigneeIndex
          else exactOwner before key) := by
  simp only [exactOwner, lastEntry, List.reverse_append, List.reverse_cons,
    List.append_assoc, List.find?_append, List.find?_singleton,
    decide_eq_true_eq]
  cases after.reverse.find? fun e => decide (e.eid.key = key) with
  | some e => simp
  | none => split <;> simp

theorem exactOwner_eq_none_of_notMem (h : key ∉ storedKeys table) :
    exactOwner table key = none := by
  rw [exactOwner, lastEntry_eq_none_iff.mpr h, Option.map_none]

theorem eq_split_of_getElem? {a : ℕ} (hentry : table[a]? = some entry) :
    table = table.take a ++ entry :: table.drop (a + 1) := by
  obtain ⟨ha, hget⟩ := List.getElem?_eq_some_iff.mp hentry
  rw [← hget, List.getElem_cons_drop, List.take_append_drop]

theorem notMem_rest_of_nodup {before after : List Assignment}
    (hnodup : (storedKeys (before ++ entry :: after)).Nodup) :
    entry.eid.key ∉ storedKeys before ∧ entry.eid.key ∉ storedKeys after := by
  simp only [storedKeys, List.map_append, List.map_cons] at hnodup ⊢
  obtain ⟨-, hafter, hdisjoint⟩ := List.nodup_append.mp hnodup
  refine ⟨fun hbefore => ?_, (List.nodup_cons.mp hafter).1⟩
  exact hdisjoint _ hbefore _ List.mem_cons_self rfl

/-- Overwriting the owner of a stored entry. -/
theorem exactOwner_modify (hnodup : (storedKeys table).Nodup) {a : ℕ}
    (hentry : table[a]? = some entry) (owner : ℕ) :
    exactOwner (table.modify a fun e => { e with assigneeIndex := owner }) =
      Function.update (exactOwner table) entry.eid.key (some owner) := by
  obtain ⟨ha, hget⟩ := List.getElem?_eq_some_iff.mp hentry
  have hsplit := eq_split_of_getElem? hentry
  obtain ⟨-, hafter⟩ := notMem_rest_of_nodup (hsplit ▸ hnodup)
  rw [List.modify_eq_take_cons_drop ha, hget]
  funext key
  rw [exactOwner_split]
  by_cases hkey : key = entry.eid.key
  · subst hkey
    rw [exactOwner_eq_none_of_notMem hafter]
    simp
  · rw [Function.update_of_ne hkey]
    conv_rhs => rw [hsplit, exactOwner_split]
    rw [if_neg (Ne.symm hkey), if_neg (Ne.symm hkey)]

/-- Erasing a stored entry. -/
theorem exactOwner_eraseIdx (hnodup : (storedKeys table).Nodup) {a : ℕ}
    (hentry : table[a]? = some entry) :
    exactOwner (table.eraseIdx a) =
      Function.update (exactOwner table) entry.eid.key none := by
  have hsplit := eq_split_of_getElem? hentry
  obtain ⟨hbefore, hafter⟩ := notMem_rest_of_nodup (hsplit ▸ hnodup)
  rw [List.eraseIdx_eq_take_drop_succ]
  funext key
  by_cases hkey : key = entry.eid.key
  · subst hkey
    rw [Function.update_self]
    apply exactOwner_eq_none_of_notMem
    rw [storedKeys, List.map_append, List.mem_append]
    exact not_or.mpr ⟨hbefore, hafter⟩
  · rw [Function.update_of_ne hkey]
    conv_rhs => rw [hsplit, exactOwner_split, if_neg (Ne.symm hkey)]
    simp only [exactOwner, lastEntry, List.reverse_append, List.find?_append]
    cases (table.drop (a + 1)).reverse.find? fun e => decide (e.eid.key = key) with
    | none => simp
    | some e => simp

/-- A stored prefix has one position. -/
theorem position_eq (hnodup : (storedKeys table).Nodup) {j k : ℕ}
    {e e' : Assignment} (he : table[j]? = some e) (he' : table[k]? = some e')
    (hkey : e.eid.key = e'.eid.key) : j = k := by
  have hj : (storedKeys table)[j]? = some e.eid.key := by
    rw [storedKeys, List.getElem?_map, he, Option.map_some]
  have hk : (storedKeys table)[k]? = some e.eid.key := by
    rw [storedKeys, List.getElem?_map, he', Option.map_some, hkey]
  have hlt : j < (storedKeys table).length :=
    (List.getElem?_eq_some_iff.mp hj).1
  exact (List.getElem?_inj hlt hnodup).mp (hj.trans hk.symm)

/-- The one place where a prefix is stored. -/
structure StoredAt (table : List Assignment) (key : List Bool) (k : ℕ)
    (entry : Assignment) : Prop where
  lastEntry_eq : lastEntry table key = some entry
  getElem?_eq : table[k]? = some entry
  key_eq : entry.eid.key = key

theorem exists_lastEntry (hmem : key ∈ storedKeys table) :
    ∃ entry, lastEntry table key = some entry := by
  rw [← Option.isSome_iff_exists, ← Option.ne_none_iff_isSome]
  exact fun hnone => lastEntry_eq_none_iff.mp hnone hmem

theorem exists_storedAt (hnodup : (storedKeys table).Nodup)
    (hmem : key ∈ storedKeys table) : ∃ k entry, StoredAt table key k entry := by
  obtain ⟨entry, hlast⟩ := exists_lastEntry hmem
  obtain ⟨hentry, hkey⟩ := (lastEntry_eq_some_iff hnodup).mp hlast
  obtain ⟨k, hk⟩ := List.mem_iff_getElem?.mp hentry
  exact ⟨k, entry, hlast, hk, hkey⟩

namespace StoredAt

variable {k : ℕ}

theorem exactOwner_eq (h : StoredAt table key k entry) :
    exactOwner table key = some entry.assigneeIndex := by
  rw [exactOwner, h.lastEntry_eq, Option.map_some]

theorem eq_of_key (h : StoredAt table key k entry)
    (hnodup : (storedKeys table).Nodup) {k' : ℕ} {entry' : Assignment}
    (hk' : table[k']? = some entry') (hkey' : entry'.eid.key = key) : k' = k :=
  position_eq hnodup hk' h.getElem?_eq (hkey'.trans h.key_eq.symm)

/-- What is asked of every entry for the prefix is asked of this one. -/
theorem forall_iff (h : StoredAt table key k entry)
    (hnodup : (storedKeys table).Nodup) {P : ℕ → Assignment → Prop} :
    (∀ k' (entry' : Assignment), table[k']? = some entry' →
      entry'.eid.key = key → P k' entry') ↔ P k entry := by
  constructor
  · intro hall
    exact hall k entry h.getElem?_eq h.key_eq
  · intro hP k' entry' hk' hkey'
    obtain rfl := h.eq_of_key hnodup hk' hkey'
    obtain rfl : entry' = entry :=
      Option.some_inj.mp (hk'.symm.trans h.getElem?_eq)
    exact hP

end StoredAt

end Owners

/-! ## The operations and the finite map -/

/-- A request on a prefix other than `::/0` and `::/128`, of length at most
128. -/
structure RegularItem where
  item : Assignment
  regular : item.eid.IsRegular
  length_le : item.eid.prefixLength.toNat ≤ 128

/-- A call of one of the two operations. -/
inductive AssignmentCall
  | add (request : RegularItem)
  | remove (request : RegularItem)

namespace AssignmentCall

/-- The table after a call; `none` when the call left the stored entries. -/
def perform (controlPlanesCtr : ℕ) (table : List Assignment) :
    AssignmentCall → Option (List Assignment)
  | add request =>
      (addAssignment controlPlanesCtr table request.item).map Prod.fst
  | remove request => removeAssignment controlPlanesCtr table request.item

/-- The finite map a call leaves behind. -/
def onOwners (owners : List Bool → Option ℕ) :
    AssignmentCall → List Bool → Option ℕ
  | add request =>
      Function.update owners request.item.eid.key
        (some request.item.assigneeIndex)
  | remove request =>
      if owners request.item.eid.key = some request.item.assigneeIndex then
        Function.update owners request.item.eid.key none
      else owners

/-- Wherever the requested prefix is stored, its owner is the position of the
entry, or the entry at the owner's position leads to the same decision. -/
def IndexAgrees (table : List Assignment) : AssignmentCall → Prop
  | add request =>
      ∀ k (entry : Assignment), table[k]? = some entry →
        entry.eid.key = request.item.eid.key →
        entry.assigneeIndex = k ∨
          entry.assigneeIndex = request.item.assigneeIndex ∧
            ∃ other : Assignment, table[entry.assigneeIndex]? = some other ∧
              other.assigneeIndex = request.item.assigneeIndex
  | remove request =>
      ∀ k (entry : Assignment), table[k]? = some entry →
        entry.eid.key = request.item.eid.key →
        entry.assigneeIndex = k ∨
          entry.assigneeIndex ≠ request.item.assigneeIndex ∧
            ∃ other : Assignment, table[entry.assigneeIndex]? = some other ∧
              other.assigneeIndex ≠ request.item.assigneeIndex

end AssignmentCall

section Calls

variable {controlPlanesCtr : ℕ} {table table' : List Assignment}
  {item : Assignment}

/-- The calls on a prefix that is not stored. -/
theorem addAssignment_of_notMem (hctr : controlPlanesCtr ≠ 0)
    (hregular : item.eid.IsRegular) (hlen : item.eid.prefixLength.toNat ≤ 128)
    (habsent : item.eid.key ∉ storedKeys table) :
    addAssignment controlPlanesCtr table item =
      some (table ++ [item], (table.length : ℤ)) := by
  rw [addAssignment, exactSort_of_isRegular hctr hregular hlen,
    lastEntry_eq_none_iff.mpr habsent]

theorem removeAssignment_of_notMem (hctr : controlPlanesCtr ≠ 0)
    (hregular : item.eid.IsRegular) (hlen : item.eid.prefixLength.toNat ≤ 128)
    (habsent : item.eid.key ∉ storedKeys table) :
    removeAssignment controlPlanesCtr table item = some table := by
  rw [removeAssignment, exactSort_of_isRegular hctr hregular hlen,
    lastEntry_eq_none_iff.mpr habsent]

/-- The calls on a stored prefix work at the position given by its owner. -/
theorem addAssignment_of_lastEntry (hctr : controlPlanesCtr ≠ 0)
    (hregular : item.eid.IsRegular) (hlen : item.eid.prefixLength.toNat ≤ 128)
    {entry : Assignment} (hlast : lastEntry table item.eid.key = some entry) :
    addAssignment controlPlanesCtr table item =
      if entry.assigneeIndex < table.length then
        some (table.modify entry.assigneeIndex fun stored =>
          { stored with assigneeIndex := item.assigneeIndex },
          (entry.assigneeIndex : ℤ))
      else none := by
  rw [addAssignment, exactSort_of_isRegular hctr hregular hlen, hlast]
  rfl

theorem removeAssignment_of_lastEntry (hctr : controlPlanesCtr ≠ 0)
    (hregular : item.eid.IsRegular) (hlen : item.eid.prefixLength.toNat ≤ 128)
    {entry : Assignment} (hlast : lastEntry table item.eid.key = some entry) :
    removeAssignment controlPlanesCtr table item =
      table[entry.assigneeIndex]?.bind fun present =>
        if item.assigneeIndex ≠ present.assigneeIndex then some table
        else some (table.eraseIdx entry.assigneeIndex) := by
  rw [removeAssignment, exactSort_of_isRegular hctr hregular hlen, hlast]
  rfl

/-- No call stores a prefix twice. -/
theorem storedKeys_nodup_addAssignment (hctr : controlPlanesCtr ≠ 0)
    (hregular : item.eid.IsRegular) (hlen : item.eid.prefixLength.toNat ≤ 128)
    {index : ℤ} (hnodup : (storedKeys table).Nodup)
    (hadd : addAssignment controlPlanesCtr table item = some (table', index)) :
    (storedKeys table').Nodup := by
  by_cases hmem : item.eid.key ∈ storedKeys table
  · obtain ⟨entry, hlast⟩ := exists_lastEntry hmem
    rw [addAssignment_of_lastEntry hctr hregular hlen hlast] at hadd
    split at hadd
    · obtain ⟨rfl, -⟩ := Prod.mk.inj (Option.some_inj.mp hadd)
      rw [storedKeys_modify]
      exact hnodup
    · cases hadd
  · rw [addAssignment_of_notMem hctr hregular hlen hmem] at hadd
    obtain ⟨rfl, -⟩ := Prod.mk.inj (Option.some_inj.mp hadd)
    simp only [storedKeys, List.map_append, List.map_cons, List.map_nil]
    exact List.Nodup.append hnodup (List.nodup_singleton _)
      (List.disjoint_singleton.mpr hmem)

theorem storedKeys_nodup_removeAssignment (hctr : controlPlanesCtr ≠ 0)
    (hregular : item.eid.IsRegular) (hlen : item.eid.prefixLength.toNat ≤ 128)
    (hnodup : (storedKeys table).Nodup)
    (hremove : removeAssignment controlPlanesCtr table item = some table') :
    (storedKeys table').Nodup := by
  by_cases hmem : item.eid.key ∈ storedKeys table
  · obtain ⟨entry, hlast⟩ := exists_lastEntry hmem
    rw [removeAssignment_of_lastEntry hctr hregular hlen hlast,
      Option.bind_eq_some_iff] at hremove
    obtain ⟨present, -, hremove⟩ := hremove
    split at hremove
    · rw [← Option.some_inj.mp hremove]
      exact hnodup
    · rw [← Option.some_inj.mp hremove]
      exact hnodup.sublist ((List.eraseIdx_sublist _ _).map _)
  · rw [removeAssignment_of_notMem hctr hregular hlen hmem,
      Option.some_inj] at hremove
    rw [← hremove]
    exact hnodup

theorem storedKeys_nodup_perform (hctr : controlPlanesCtr ≠ 0)
    {call : AssignmentCall} (hnodup : (storedKeys table).Nodup)
    (hstep : call.perform controlPlanesCtr table = some table') :
    (storedKeys table').Nodup := by
  cases call with
  | add request =>
      obtain ⟨⟨_, index⟩, hadd, rfl⟩ := Option.map_eq_some_iff.mp hstep
      exact storedKeys_nodup_addAssignment hctr request.regular
        request.length_le hnodup hadd
  | remove request =>
      exact storedKeys_nodup_removeAssignment hctr request.regular
        request.length_le hnodup hstep

/-- Two updates of a map with one value agree when they change the same key or
change nothing. -/
theorem update_some_eq_update_some_iff {owners : List Bool → Option ℕ}
    {p q : List Bool} {owner : ℕ} :
    Function.update owners q (some owner) =
        Function.update owners p (some owner) ↔
      q = p ∨ owners p = some owner ∧ owners q = some owner := by
  constructor
  · intro h
    by_cases hqp : q = p
    · exact Or.inl hqp
    · right
      have hp := congrFun h p
      have hq := congrFun h q
      rw [Function.update_self, Function.update_of_ne (Ne.symm hqp)] at hp
      rw [Function.update_self, Function.update_of_ne hqp] at hq
      exact ⟨hp, hq.symm⟩
  · rintro (rfl | ⟨hp, hq⟩)
    · rfl
    · rw [← hp, Function.update_eq_self, hp, ← hq, Function.update_eq_self]

end Calls

section MainResult

variable {controlPlanesCtr : ℕ} {table : List Assignment}

/-- Nothing is asked of a prefix that is not stored. -/
theorem indexAgrees_of_notMem {call : AssignmentCall} {request : RegularItem}
    (hcall : call = .add request ∨ call = .remove request)
    (habsent : request.item.eid.key ∉ storedKeys table) :
    call.IndexAgrees table := by
  have hnone : ∀ (k : ℕ) (entry : Assignment), table[k]? = some entry →
      entry.eid.key ≠ request.item.eid.key := by
    intro k entry hk hkey
    apply habsent
    rw [← hkey]
    exact List.mem_map_of_mem (List.mem_of_getElem? hk)
  rcases hcall with rfl | rfl
  · exact fun k entry hk hkey => absurd hkey (hnone k entry hk)
  · exact fun k entry hk hkey => absurd hkey (hnone k entry hk)

/-- Adding a stored prefix gives it the owner exactly when the entry written is
the one that stores it, or when nothing changes. -/
theorem implements_add_stored_iff (hctr : controlPlanesCtr ≠ 0)
    (hnodup : (storedKeys table).Nodup) (request : RegularItem) {k : ℕ}
    {entry : Assignment} (h : StoredAt table request.item.eid.key k entry) :
    Implements (AssignmentCall.perform controlPlanesCtr) exactOwner
        AssignmentCall.onOwners table (.add request) ↔
      entry.assigneeIndex = k ∨
        entry.assigneeIndex = request.item.assigneeIndex ∧
          ∃ other : Assignment, table[entry.assigneeIndex]? = some other ∧
            other.assigneeIndex = request.item.assigneeIndex := by
  obtain ⟨item, hregular, hlen⟩ := request
  have hadd := addAssignment_of_lastEntry hctr hregular hlen h.lastEntry_eq
  constructor
  · rintro ⟨table', hperform, howners⟩
    rw [AssignmentCall.perform, hadd] at hperform
    split at hperform
    next hlt =>
      rw [Option.map_some, Option.some_inj] at hperform
      obtain ⟨other, hother⟩ : ∃ other, table[entry.assigneeIndex]? = some other :=
        ⟨_, List.getElem?_eq_getElem hlt⟩
      rw [← hperform, exactOwner_modify hnodup hother, AssignmentCall.onOwners,
        update_some_eq_update_some_iff] at howners
      rcases howners with hsame | ⟨hp, hq⟩
      · exact Or.inl (h.eq_of_key hnodup hother hsame)
      · rw [h.exactOwner_eq, Option.some_inj] at hp
        rw [exactOwner_of_mem hnodup (List.mem_of_getElem? hother),
          Option.some_inj] at hq
        exact Or.inr ⟨hp, other, hother, hq⟩
    next => cases hperform
  · intro hagrees
    obtain ⟨other, hother, hsame⟩ : ∃ other,
        table[entry.assigneeIndex]? = some other ∧
          (other.eid.key = item.eid.key ∨
            entry.assigneeIndex = item.assigneeIndex ∧
              other.assigneeIndex = item.assigneeIndex) := by
      rcases hagrees with hpos | ⟨hsame, other, hother, heq⟩
      · exact ⟨entry, hpos ▸ h.getElem?_eq, Or.inl h.key_eq⟩
      · exact ⟨other, hother, Or.inr ⟨hsame, heq⟩⟩
    have hlt := (List.getElem?_eq_some_iff.mp hother).1
    refine ⟨table.modify entry.assigneeIndex fun stored =>
      { stored with assigneeIndex := item.assigneeIndex }, ?_, ?_⟩
    · rw [AssignmentCall.perform, hadd, if_pos hlt, Option.map_some]
    · rw [exactOwner_modify hnodup hother, AssignmentCall.onOwners,
        update_some_eq_update_some_iff, h.exactOwner_eq,
        exactOwner_of_mem hnodup (List.mem_of_getElem? hother)]
      simpa using hsame

theorem implements_add_iff (hctr : controlPlanesCtr ≠ 0)
    (hnodup : (storedKeys table).Nodup) (request : RegularItem) :
    Implements (AssignmentCall.perform controlPlanesCtr) exactOwner
        AssignmentCall.onOwners table (.add request) ↔
      (AssignmentCall.add request).IndexAgrees table := by
  by_cases hmem : request.item.eid.key ∈ storedKeys table
  · obtain ⟨k, entry, h⟩ := exists_storedAt hnodup hmem
    rw [AssignmentCall.IndexAgrees, h.forall_iff hnodup]
    exact implements_add_stored_iff hctr hnodup request h
  · refine iff_of_true ⟨table ++ [request.item], ?_, ?_⟩
      (indexAgrees_of_notMem (Or.inl rfl) hmem)
    · rw [AssignmentCall.perform, addAssignment_of_notMem hctr request.regular
        request.length_le hmem, Option.map_some]
    · rw [exactOwner_append, AssignmentCall.onOwners]

/-- A withdrawal looks at the entry at the index found for the prefix. -/
theorem perform_remove_stored (hctr : controlPlanesCtr ≠ 0) (request : RegularItem)
    {k : ℕ} {entry other : Assignment} (h : StoredAt table request.item.eid.key k entry)
    (hother : table[entry.assigneeIndex]? = some other) :
    AssignmentCall.perform controlPlanesCtr table (.remove request) =
      if request.item.assigneeIndex ≠ other.assigneeIndex then some table
      else some (table.eraseIdx entry.assigneeIndex) := by
  rw [AssignmentCall.perform, removeAssignment_of_lastEntry hctr request.regular
    request.length_le h.lastEntry_eq, hother, Option.bind_some]

/-- Where a withdrawal does what it should, it looked at the entry meant, or refused
what had to be refused. -/
theorem agrees_of_implements_remove (hctr : controlPlanesCtr ≠ 0)
    (hnodup : (storedKeys table).Nodup) (request : RegularItem) {k : ℕ}
    {entry : Assignment} (h : StoredAt table request.item.eid.key k entry)
    (himpl : Implements (AssignmentCall.perform controlPlanesCtr) exactOwner
      AssignmentCall.onOwners table (.remove request)) :
    entry.assigneeIndex = k ∨
      entry.assigneeIndex ≠ request.item.assigneeIndex ∧
        ∃ other : Assignment, table[entry.assigneeIndex]? = some other ∧
          other.assigneeIndex ≠ request.item.assigneeIndex := by
  obtain ⟨item, hregular, hlen⟩ := request
  have hremove := removeAssignment_of_lastEntry hctr hregular hlen h.lastEntry_eq
  obtain ⟨table', hperform, howners⟩ := himpl
  rw [AssignmentCall.perform, hremove, Option.bind_eq_some_iff] at hperform
  obtain ⟨other, hother, hperform⟩ := hperform
  by_cases hpos : entry.assigneeIndex = k
  · exact Or.inl hpos
  right
  have hne : other.eid.key ≠ item.eid.key := fun hkey =>
    hpos (h.eq_of_key hnodup hother hkey)
  have hother' := exactOwner_of_mem hnodup (List.mem_of_getElem? hother)
  rw [AssignmentCall.onOwners, h.exactOwner_eq] at howners
  split at hperform
  next hkeep =>
    -- nothing was erased, so the requester is not the owner
    obtain rfl := Option.some_inj.mp hperform
    refine ⟨fun heq => ?_, other, hother, Ne.symm hkeep⟩
    rw [if_pos (congrArg some heq)] at howners
    have hnone := congrFun howners item.eid.key
    rw [Function.update_self, h.exactOwner_eq] at hnone
    cases hnone
  next herase =>
    -- another prefix lost its owner
    obtain rfl := Option.some_inj.mp hperform
    rw [exactOwner_eraseIdx hnodup hother] at howners
    have hlost := congrFun howners other.eid.key
    rw [Function.update_self] at hlost
    split at hlost
    · rw [Function.update_of_ne hne, hother'] at hlost
      cases hlost
    · rw [hother'] at hlost
      cases hlost

/-- Withdrawing a stored prefix erases it exactly for its owner, provided that
the entry looked at is the one that stores it, or leads to a refusal as well. -/
theorem implements_remove_stored_iff (hctr : controlPlanesCtr ≠ 0)
    (hnodup : (storedKeys table).Nodup) (request : RegularItem) {k : ℕ}
    {entry : Assignment} (h : StoredAt table request.item.eid.key k entry) :
    Implements (AssignmentCall.perform controlPlanesCtr) exactOwner
        AssignmentCall.onOwners table (.remove request) ↔
      entry.assigneeIndex = k ∨
        entry.assigneeIndex ≠ request.item.assigneeIndex ∧
          ∃ other : Assignment, table[entry.assigneeIndex]? = some other ∧
            other.assigneeIndex ≠ request.item.assigneeIndex := by
  refine ⟨agrees_of_implements_remove hctr hnodup request h, ?_⟩
  rintro (hpos | ⟨hne, other, hother, hkeep⟩)
  · -- the entry found is the entry meant
    have hother : table[entry.assigneeIndex]? = some entry := hpos ▸ h.getElem?_eq
    rw [Implements, perform_remove_stored hctr request h hother,
      AssignmentCall.onOwners, h.exactOwner_eq]
    by_cases heq : request.item.assigneeIndex = entry.assigneeIndex
    · refine ⟨table.eraseIdx entry.assigneeIndex, ?_, ?_⟩
      · rw [if_neg (not_not_intro heq)]
      · rw [if_pos (congrArg some heq.symm), exactOwner_eraseIdx hnodup hother,
          h.key_eq]
    · refine ⟨table, ?_, ?_⟩
      · rw [if_pos heq]
      · rw [if_neg fun howner => heq (Option.some_inj.mp howner).symm]
  · rw [Implements, perform_remove_stored hctr request h hother,
      AssignmentCall.onOwners, h.exactOwner_eq]
    refine ⟨table, ?_, ?_⟩
    · rw [if_pos (Ne.symm hkeep)]
    · rw [if_neg fun howner => hne (Option.some_inj.mp howner)]

theorem implements_remove_iff (hctr : controlPlanesCtr ≠ 0)
    (hnodup : (storedKeys table).Nodup) (request : RegularItem) :
    Implements (AssignmentCall.perform controlPlanesCtr) exactOwner
        AssignmentCall.onOwners table (.remove request) ↔
      (AssignmentCall.remove request).IndexAgrees table := by
  by_cases hmem : request.item.eid.key ∈ storedKeys table
  · obtain ⟨k, entry, h⟩ := exists_storedAt hnodup hmem
    rw [AssignmentCall.IndexAgrees, h.forall_iff hnodup]
    exact implements_remove_stored_iff hctr hnodup request h
  · refine iff_of_true ⟨table, ?_, ?_⟩
      (indexAgrees_of_notMem (Or.inr rfl) hmem)
    · rw [AssignmentCall.perform, removeAssignment_of_notMem hctr request.regular
        request.length_le hmem]
    · rw [AssignmentCall.onOwners, exactOwner_eq_none_of_notMem hmem]
      rfl

/-- A sequence of calls keeps the array an implementation of the map from
prefixes to owners, without leaving the stored entries, exactly when each call
finds the index reported by the matcher to agree with the position meant. -/
theorem assignments_implement_owners_iff (hctr : controlPlanesCtr ≠ 0)
    (calls : List AssignmentCall) :
    (∀ done, done <+: calls → ∃ table,
        run (AssignmentCall.perform controlPlanesCtr) [] done = some table ∧
          (storedKeys table).Nodup ∧
          exactOwner table =
            done.foldl AssignmentCall.onOwners (fun _ => none)) ↔
      Along (AssignmentCall.perform controlPlanesCtr)
        (fun table call => call.IndexAgrees table) [] calls := by
  have hempty : (storedKeys []).Nodup := List.nodup_nil
  have howners : exactOwner [] = fun _ => none := rfl
  have hkeep : ∀ {table : List Assignment} {call : AssignmentCall} {table'},
      (storedKeys table).Nodup →
        call.perform controlPlanesCtr table = some table' →
        (storedKeys table').Nodup :=
    fun hnodup hstep => storedKeys_nodup_perform hctr hnodup hstep
  have hcall : ∀ {table : List Assignment} {call : AssignmentCall},
      (storedKeys table).Nodup →
        (Implements (AssignmentCall.perform controlPlanesCtr) exactOwner
            AssignmentCall.onOwners table call ↔ call.IndexAgrees table) := by
    intro table call hnodup
    cases call with
    | add request => exact implements_add_iff hctr hnodup request
    | remove request => exact implements_remove_iff hctr hnodup request
  rw [← along_iff_of_invariant (fun hnodup _ => hkeep hnodup) hcall hempty,
    ← forall_isPrefix_iff_along, howners]
  constructor
  · intro h done hdone
    obtain ⟨table, hrun, -, hmap⟩ := h done hdone
    exact ⟨table, hrun, hmap⟩
  · intro h done hdone
    obtain ⟨table, hrun, hmap⟩ := h done hdone
    refine ⟨table, hrun, ?_, hmap⟩
    exact run_invariant (fun hnodup (_ : True) => hkeep hnodup)
      hempty (along_true _ _) hrun

/-- `10.0.0.0/8`, v4-mapped. -/
def v4MappedTen : Ipv6Prefix :=
  ⟨v4Mapped #v[10, 0, 0, 0], 104, .prfxAsis⟩

theorem v4MappedTen_isRegular : v4MappedTen.IsRegular := by
  constructor <;> exact fun h => v4Mapped_ne_zeroAddr _ h.1

theorem v4MappedTen_length_le : v4MappedTen.prefixLength.toNat ≤ 128 := by
  decide

/-- A request for `10.0.0.0/8` by the plane at the given position. -/
def tenSlashEight (assigneeIndex : ℕ) : RegularItem where
  item := ⟨v4MappedTen, assigneeIndex⟩
  regular := v4MappedTen_isRegular
  length_le := v4MappedTen_length_le

/-- The plane at position 0 adds a prefix and withdraws it again. -/
theorem assignments_implement_owners_tenSlashEight :
    Along (AssignmentCall.perform 2) (fun table call => call.IndexAgrees table) []
        [.add (tenSlashEight 0), .remove (tenSlashEight 0)] ∧
      ∀ done, done <+: [.add (tenSlashEight 0), .remove (tenSlashEight 0)] →
        ∃ table, run (AssignmentCall.perform 2) [] done = some table ∧
          (storedKeys table).Nodup ∧
          exactOwner table =
            done.foldl AssignmentCall.onOwners (fun _ => none) := by
  have hagrees : Along (AssignmentCall.perform 2)
      (fun table call => call.IndexAgrees table) []
      [.add (tenSlashEight 0), .remove (tenSlashEight 0)] := by
    refine ⟨?_, fun table htable => ⟨?_, fun _ _ => trivial⟩⟩
    · intro k entry hk
      simp at hk
    · obtain rfl : [(tenSlashEight 0).item] = table := Option.some_inj.mp htable
      intro k entry hk _
      rcases k with - | k
      · obtain rfl : (tenSlashEight 0).item = entry := by simpa using hk
        exact Or.inl rfl
      · simp at hk
  exact ⟨hagrees, (assignments_implement_owners_iff (by decide) _).mpr hagrees⟩

/-- A prefix added by the plane at position 1 is stored at position 0; when the
plane at position 0 adds it again, the array is accessed past its end. -/
theorem assignments_not_implement_owners :
    ¬ ∀ controlPlanesCtr : ℕ, controlPlanesCtr ≠ 0 →
      ∀ calls done : List AssignmentCall, done <+: calls →
        ∃ table, run (AssignmentCall.perform controlPlanesCtr) [] done =
            some table ∧
          (storedKeys table).Nodup ∧
          exactOwner table =
            done.foldl AssignmentCall.onOwners (fun _ => none) := by
  intro h
  obtain ⟨table, hrun, -⟩ := h 2 (by decide)
    [.add (tenSlashEight 1), .add (tenSlashEight 0)] _ (List.prefix_refl _)
  have hnone : run (AssignmentCall.perform 2) []
      [.add (tenSlashEight 1), .add (tenSlashEight 0)] = none := by
    decide +kernel
  rw [hnone] at hrun
  cases hrun

end MainResult

end HyLisp.Hypervisor
