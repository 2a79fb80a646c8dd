import HyLisp.Hypervisor.ControlPlanes

/-!
# Who owns an assignment

An assignment names its owner by a position of the array of planes.  It is owned
when that position holds the very plane that last added the prefix.  Removing a
plane shifts the array and leaves the positions alone, and additions and
removals go through the index the matcher reports, so ownership survives only
the steps singled out here.
-/

namespace HyLisp.Hypervisor

open DataPlane Transition LongestMatch

/-- The id of the plane that last added a prefix. -/
def lastAdder (additions : List (List Bool × UInt32)) (key : List Bool) :
    Option UInt32 :=
  (additions.find? fun addition => addition.1 = key).map Prod.snd

/-- The assignment designates a registered plane, and this plane is the one that
last added the prefix. -/
def OwnedBy (controlPlanes : List ControlPlane)
    (additions : List (List Bool × UInt32)) (entry : Assignment) : Prop :=
  ∃ cp, controlPlanes[entry.assigneeIndex]? = some cp ∧
    lastAdder additions entry.eid.key = some cp.id

/-- The ownership invariant of the hypervisor. -/
structure Owned (s : State) : Prop where
  owned : ∀ entry ∈ s.assignments, OwnedBy s.controlPlanes s.additions entry
  length_le : ∀ entry ∈ s.assignments, entry.len ≤ 128

/-! ## The steps that keep ownership -/

/-- An addition that goes to the entry it means.  `::/0` is appended whatever is
stored; any other prefix that is stored is written at the position given by the
owner of its last entry. -/
def SafeAddition (table : List Assignment) (item : Assignment) : Prop :=
  (item.eid.IsBroadcast → ∀ entry ∈ table, entry.eid.key = item.eid.key →
    entry.assigneeIndex = item.assigneeIndex) ∧
  (item.eid.IsRegular → ∀ last, lastEntry table item.eid.key = some last →
    ∃ written, table[last.assigneeIndex]? = some written ∧
      (written.eid.key = item.eid.key ∨
        written.assigneeIndex = item.assigneeIndex) ∧
      ∀ k (entry : Assignment), table[k]? = some entry →
        entry.eid.key = item.eid.key →
        k = last.assigneeIndex ∨ entry.assigneeIndex = item.assigneeIndex)

/-- A removal that stays inside the table. -/
def SafeRemoval (table : List Assignment) (item : Assignment) : Prop :=
  item.eid.IsRegular → ∀ last, lastEntry table item.eid.key = some last →
    last.assigneeIndex < table.length

/-- The events that keep ownership. -/
def Event.Safe (s : State) : Event → Prop
  | .register _ => True
  | .deregisterFirst port =>
      s.deregistration = none →
        findPort s.controlPlanes port < s.controlPlanes.length →
        ∀ entry ∈ s.assignments,
          entry.assigneeIndex < findPort s.controlPlanes port
  | .deregisterSecond => True
  | .mapMessage socketDescriptor buf _ =>
      let i := findDescriptor s.controlPlanes socketDescriptor
      IsLocalUpdate buf → i < s.controlPlanes.length →
        if extractTypeMm buf = mapmAdd then
          SafeAddition s.assignments ⟨extractEidMm buf, i⟩
        else SafeRemoval s.assignments ⟨extractEidMm buf, i⟩

/-! ## Step lemmas -/

section Steps

variable {s : State} {table : List Assignment} {item : Assignment}

theorem lastAdder_cons_self (key : List Bool) (id : UInt32)
    (additions : List (List Bool × UInt32)) :
    lastAdder ((key, id) :: additions) key = some id := by
  simp [lastAdder]

theorem lastAdder_cons_of_ne {key key' : List Bool} (hne : key' ≠ key)
    (id : UInt32) (additions : List (List Bool × UInt32)) :
    lastAdder ((key', id) :: additions) key = lastAdder additions key := by
  simp [lastAdder, hne]

theorem Owned.index_lt (h : Owned s) {entry : Assignment}
    (hentry : entry ∈ s.assignments) :
    entry.assigneeIndex < s.controlPlanes.length := by
  obtain ⟨cp, hcp, -⟩ := h.owned entry hentry
  exact (List.getElem?_eq_some_iff.mp hcp).1

theorem Owned.register (h : Owned s) (port : UInt16) :
    Owned (registerControlPlane s port) := by
  refine ⟨fun entry hentry => ?_, h.length_le⟩
  obtain ⟨cp, hcp, hadder⟩ := h.owned entry hentry
  refine ⟨cp, ?_, hadder⟩
  simp only [registerControlPlane]
  rw [List.getElem?_append_left (h.index_lt hentry)]
  exact hcp

/-- Removing a plane keeps the positions before it. -/
theorem Owned.deregisterFirst (h : Owned s) {port : UInt16}
    (hsafe : findPort s.controlPlanes port < s.controlPlanes.length →
      ∀ entry ∈ s.assignments,
        entry.assigneeIndex < findPort s.controlPlanes port) :
    Owned (deregisterControlPlane s port) := by
  refine ⟨fun entry hentry => ?_, h.length_le⟩
  have hbefore : entry.assigneeIndex < findPort s.controlPlanes port := by
    rcases Nat.lt_or_ge (findPort s.controlPlanes port)
      s.controlPlanes.length with hlt | hge
    · exact hsafe hlt entry hentry
    · exact lt_of_lt_of_le (h.index_lt hentry) hge
  obtain ⟨cp, hcp, hadder⟩ := h.owned entry hentry
  refine ⟨cp, ?_, hadder⟩
  simp only [deregisterControlPlane]
  rw [List.getElem?_eraseIdx_of_lt hbefore]
  exact hcp

/-- Fewer assignments are owned as before. -/
theorem Owned.of_subset (h : Owned s) {pending : Option Deregistration}
    (hsub : table ⊆ s.assignments) :
    Owned { s with assignments := table, deregistration := pending } :=
  ⟨fun entry hentry => h.owned entry (hsub hentry),
    fun entry hentry => h.length_le entry (hsub hentry)⟩

theorem Owned.deregisterSecond (h : Owned s) (pending : Deregistration) :
    Owned (deregisterAssignments s pending) := by
  apply h.of_subset
  split
  · split
    · rw [removeAssignee_eq]
      exact List.filter_subset_self _
    · exact List.Subset.refl _
  · exact List.Subset.refl _

/-- The new table holds the added prefix with its new owner only, and otherwise
nothing but what the old one held. -/
def AddsOnly (table table' : List Assignment) (item : Assignment) : Prop :=
  ∀ entry ∈ table',
    (entry.eid.key = item.eid.key ∧
        entry.assigneeIndex = item.assigneeIndex) ∨
      (entry.eid.key ≠ item.eid.key ∧
        ∃ old ∈ table, old.eid.key = entry.eid.key ∧
          old.assigneeIndex = entry.assigneeIndex)

theorem Owned.addition (h : Owned s) (item : Assignment) {cp : ControlPlane}
    (hcp : s.controlPlanes[item.assigneeIndex]? = some cp)
    (hlen : item.eid.prefixLength.toNat ≤ 128)
    (htable : AddsOnly s.assignments table item) :
    Owned { s with
      assignments := table
      additions := (item.eid.key, cp.id) :: s.additions } := by
  refine ⟨fun entry hentry => ?_, fun entry hentry => ?_⟩
  · rcases htable entry hentry with ⟨hkey, hindex⟩ | ⟨hkey, old, hold, hsame, hindex⟩
    · refine ⟨cp, by rw [hindex, hcp], ?_⟩
      rw [hkey, lastAdder_cons_self]
    · obtain ⟨cp', hcp', hadder⟩ := h.owned old hold
      refine ⟨cp', by rw [← hindex, hcp'], ?_⟩
      rw [lastAdder_cons_of_ne (Ne.symm hkey), ← hsame, hadder]
  · rcases htable entry hentry with ⟨hkey, -⟩ | ⟨-, old, hold, hsame, -⟩
    · rw [Assignment.len, prefixLength_eq_of_key_eq hkey]
      exact hlen
    · rw [Assignment.len, ← prefixLength_eq_of_key_eq hsame]
      exact h.length_le old hold

/-- An old entry may stay when it does not store the prefix or has the owner
already. -/
theorem addsOnly_old {entry : Assignment} (hentry : entry ∈ table)
    (howner : entry.eid.key = item.eid.key →
      entry.assigneeIndex = item.assigneeIndex) :
    (entry.eid.key = item.eid.key ∧
        entry.assigneeIndex = item.assigneeIndex) ∨
      (entry.eid.key ≠ item.eid.key ∧
        ∃ old ∈ table, old.eid.key = entry.eid.key ∧
          old.assigneeIndex = entry.assigneeIndex) := by
  by_cases hkey : entry.eid.key = item.eid.key
  · exact Or.inl ⟨hkey, howner hkey⟩
  · exact Or.inr ⟨hkey, entry, hentry, rfl, rfl⟩

theorem addsOnly_append
    (howner : ∀ entry ∈ table, entry.eid.key = item.eid.key →
      entry.assigneeIndex = item.assigneeIndex) :
    AddsOnly table (table ++ [item]) item := by
  intro entry hentry
  rcases List.mem_append.mp hentry with hold | hnew
  · exact addsOnly_old hold (howner entry hold)
  · rw [List.mem_singleton.mp hnew]
    exact Or.inl ⟨rfl, rfl⟩

theorem addsOnly_modify {a : ℕ} {written : Assignment}
    (hwritten : table[a]? = some written)
    (hmeant : written.eid.key = item.eid.key ∨
      written.assigneeIndex = item.assigneeIndex)
    (hothers : ∀ k (entry : Assignment), table[k]? = some entry →
      entry.eid.key = item.eid.key →
      k = a ∨ entry.assigneeIndex = item.assigneeIndex) :
    AddsOnly table
      (table.modify a fun stored =>
        { stored with assigneeIndex := item.assigneeIndex }) item := by
  intro entry hentry
  obtain ⟨k, hk⟩ := List.mem_iff_getElem?.mp hentry
  rw [List.getElem?_modify] at hk
  obtain ⟨old, hold, hnew⟩ := Option.map_eq_some_iff.mp hk
  by_cases hak : a = k
  · -- the entry written: it stores the prefix, or its owner stays the same
    obtain rfl : old = written := by
      rw [← hak, hwritten] at hold
      exact (Option.some_inj.mp hold).symm
    rw [if_pos hak] at hnew
    subst hnew
    by_cases hkey : old.eid.key = item.eid.key
    · exact Or.inl ⟨hkey, rfl⟩
    · right
      refine ⟨hkey, old, List.mem_of_getElem? hold, rfl, ?_⟩
      exact hmeant.resolve_left hkey
  · rw [if_neg hak] at hnew
    subst hnew
    refine addsOnly_old (List.mem_of_getElem? hold) fun hkey => ?_
    exact (hothers k old hold hkey).resolve_left (Ne.symm hak)

/-- A safe addition of a prefix succeeds and adds only this prefix. -/
theorem addAssignment_of_safe {controlPlanesCtr : ℕ}
    (hctr : controlPlanesCtr ≠ 0) (hdefined : ¬ item.eid.IsUndefined)
    (hlen : item.eid.prefixLength.toNat ≤ 128) (hsafe : SafeAddition table item) :
    ∃ table' index,
      addAssignment controlPlanesCtr table item = some (table', index) ∧
        AddsOnly table table' item := by
  by_cases hbroadcast : item.eid.IsBroadcast
  · refine ⟨table ++ [item], table.length, ?_,
      addsOnly_append (hsafe.1 hbroadcast)⟩
    rw [addAssignment, exactSort, flexSort_of_isBroadcast hctr hbroadcast]
  · have hregular : item.eid.IsRegular := ⟨hbroadcast, hdefined⟩
    cases hlast : lastEntry table item.eid.key with
    | none =>
        have habsent := lastEntry_eq_none_iff.mp hlast
        refine ⟨_, _, addAssignment_of_notMem hctr hregular hlen habsent,
          addsOnly_append fun entry hentry hkey => absurd ?_ habsent⟩
        rw [← hkey]
        exact List.mem_map_of_mem hentry
    | some last =>
        obtain ⟨written, hwritten, hmeant, hothers⟩ :=
          hsafe.2 hregular last hlast
        have hlt := (List.getElem?_eq_some_iff.mp hwritten).1
        refine ⟨_, (last.assigneeIndex : ℤ), ?_,
          addsOnly_modify hwritten hmeant hothers⟩
        rw [addAssignment_of_lastEntry hctr hregular hlen hlast, if_pos hlt]

/-- An undefined EID is not added. -/
theorem addAssignment_of_isUndefined {controlPlanesCtr : ℕ}
    (hundefined : item.eid.IsUndefined) :
    addAssignment controlPlanesCtr table item = some (table, -1) := by
  rw [addAssignment, exactSort, flexSort_of_isUndefined hundefined]

/-- A safe removal succeeds and leaves nothing but what was stored. -/
theorem removeAssignment_of_safe {controlPlanesCtr : ℕ}
    (hctr : controlPlanesCtr ≠ 0) (hlen : item.eid.prefixLength.toNat ≤ 128)
    (hsafe : SafeRemoval table item) :
    ∃ table', removeAssignment controlPlanesCtr table item = some table' ∧
      table' ⊆ table := by
  by_cases hbroadcast : item.eid.IsBroadcast
  · refine ⟨table, ?_, List.Subset.refl _⟩
    rw [removeAssignment, exactSort, flexSort_of_isBroadcast hctr hbroadcast]
  by_cases hundefined : item.eid.IsUndefined
  · refine ⟨table, ?_, List.Subset.refl _⟩
    rw [removeAssignment, exactSort, flexSort_of_isUndefined hundefined]
  have hregular : item.eid.IsRegular := ⟨hbroadcast, hundefined⟩
  cases hlast : lastEntry table item.eid.key with
  | none =>
      exact ⟨table, removeAssignment_of_notMem hctr hregular hlen
        (lastEntry_eq_none_iff.mp hlast), List.Subset.refl _⟩
  | some last =>
      have hlt := hsafe hregular last hlast
      rw [removeAssignment_of_lastEntry hctr hregular hlen hlast,
        List.getElem?_eq_getElem hlt, Option.bind_some]
      split
      · exact ⟨table, rfl, List.Subset.refl _⟩
      · exact ⟨_, rfl, List.eraseIdx_subset⟩

theorem recordAddition_of_ne {socketDescriptor : ℕ} {buf : Mem}
    (hno : ¬ (IsLocalUpdate buf ∧ extractTypeMm buf = mapmAdd ∧
      ¬ (extractEidMm buf).IsUndefined)) :
    recordAddition s socketDescriptor buf = s.additions := by
  rw [recordAddition]
  split
  · rw [if_neg hno]
  · rfl

/-- A safe message of a registered plane that changes the assignments. -/
theorem Owned.localUpdate (h : Owned s) {socketDescriptor msgLen : ℕ} {buf : Mem}
    (hupdate : IsLocalUpdate buf) {cp : ControlPlane}
    (hcp : s.controlPlanes[findDescriptor s.controlPlanes socketDescriptor]? =
      some cp)
    (hsafe : if extractTypeMm buf = mapmAdd then
        SafeAddition s.assignments
          ⟨extractEidMm buf, findDescriptor s.controlPlanes socketDescriptor⟩
      else SafeRemoval s.assignments
        ⟨extractEidMm buf, findDescriptor s.controlPlanes socketDescriptor⟩) :
    ∃ s', step s (.mapMessage socketDescriptor buf msgLen) = some s' ∧
      Owned s' := by
  have hlt := (List.getElem?_eq_some_iff.mp hcp).1
  have hctr : s.controlPlanes.length ≠ 0 := by omega
  have hlen := extractEidMm_length_le buf
  rw [step_mapMessage s socketDescriptor msgLen hupdate, updateAssignments,
    if_pos hlt]
  by_cases hadd : extractTypeMm buf = mapmAdd
  · rw [if_pos hadd] at hsafe ⊢
    by_cases hundefined : (extractEidMm buf).IsUndefined
    · rw [addAssignment_of_isUndefined hundefined,
        recordAddition_of_ne fun hall => hall.2.2 hundefined]
      exact ⟨s, rfl, h⟩
    · have hrecord : recordAddition s socketDescriptor buf =
          ((extractEidMm buf).key, cp.id) :: s.additions := by
        rw [recordAddition, hcp]
        exact if_pos ⟨hupdate, hadd, hundefined⟩
      obtain ⟨table', index, hresult, honly⟩ :=
        addAssignment_of_safe hctr hundefined hlen hsafe
      rw [hresult, hrecord]
      exact ⟨_, rfl, h.addition ⟨extractEidMm buf, _⟩ hcp hlen honly⟩
  · have hdelete : extractTypeMm buf = mapmDelete := hupdate.2.resolve_left hadd
    rw [if_neg hadd] at hsafe
    rw [if_neg hadd, if_pos hdelete,
      recordAddition_of_ne fun hall => hadd hall.2.1]
    obtain ⟨table', hresult, hsub⟩ := removeAssignment_of_safe hctr hlen hsafe
    rw [hresult]
    exact ⟨_, rfl, h.of_subset hsub⟩

/-- A safe map message is processed and keeps ownership. -/
theorem Owned.mapMessage (h : Owned s) {socketDescriptor msgLen : ℕ} {buf : Mem}
    (hsafe : (Event.mapMessage socketDescriptor buf msgLen).Safe s) :
    ∃ s', step s (.mapMessage socketDescriptor buf msgLen) = some s' ∧
      Owned s' := by
  by_cases hupdate : IsLocalUpdate buf
  · cases hcp : s.controlPlanes[findDescriptor s.controlPlanes
      socketDescriptor]? with
    | some cp =>
        have hlt := (List.getElem?_eq_some_iff.mp hcp).1
        exact h.localUpdate hupdate hcp (hsafe hupdate hlt)
    | none =>
        -- the message comes from no registered plane
        have hge := List.getElem?_eq_none_iff.mp hcp
        refine ⟨s, ?_, h⟩
        rw [step_mapMessage s socketDescriptor msgLen hupdate,
          updateAssignments, if_neg (Nat.not_lt.mpr hge), recordAddition, hcp]
        rfl
  · have hmsg : ¬ (msgLen : ℤ) < 0 := by omega
    refine ⟨s, ?_, h⟩
    rw [step, processMessage, if_neg hmsg, if_neg hupdate,
      recordAddition_of_ne fun hall => hupdate hall.1]
    rfl

/-- A safe event succeeds and keeps ownership. -/
theorem Owned.step (h : Owned s) {event : Event} (hsafe : event.Safe s) :
    ∃ s', Hypervisor.step s event = some s' ∧ Owned s' := by
  cases event with
  | register port =>
      rw [Hypervisor.step]
      split
      · exact ⟨_, rfl, h.register port⟩
      · exact ⟨_, rfl, h⟩
  | deregisterFirst port =>
      rw [Hypervisor.step]
      split
      next hidle => exact ⟨_, rfl, h.deregisterFirst (hsafe hidle)⟩
      next => exact ⟨_, rfl, h⟩
  | deregisterSecond =>
      rw [Hypervisor.step]
      split
      · exact ⟨_, rfl, h⟩
      next pending _ => exact ⟨_, rfl, h.deregisterSecond pending⟩
  | mapMessage socketDescriptor buf msgLen => exact h.mapMessage hsafe

end Steps

/-! ## Runs -/

theorem owned_init : Owned State.init :=
  ⟨by simp [State.init], by simp [State.init]⟩

/-- Where assignments are owned, the matcher designates a registered plane that
is the last one to have added the matching prefix. -/
theorem Owned.flexSort {s : State} (h : Owned s) {eid : Ipv6Prefix} {exact : Bool}
    (hone : (flexSort s.controlPlanes.length s.assignments eid exact).code =
      .sortingOne) :
    ∃ entry ∈ s.assignments, matchesEid exact eid entry = true ∧
      (Hypervisor.flexSort s.controlPlanes.length s.assignments eid
        exact).controlPlaneIndex = some entry.assigneeIndex ∧
      OwnedBy s.controlPlanes s.additions entry := by
  obtain ⟨entry, hlongest, hindex⟩ := exists_of_sortingOne
    (fun entry hentry => Or.inr (h.length_le entry hentry)) hone
  exact ⟨entry, hlongest.mem, hlongest.matches_self, hindex,
    h.owned entry hlongest.mem⟩

/-- In a run of safe events every state reached is one where each assignment
designates the registered plane that last added its prefix, and so does every
positive answer of the matcher. -/
theorem owned_of_safe_run (events : List Event)
    (hsafe : Along step (fun s event => event.Safe s) State.init events) :
    ∃ s, run step State.init events = some s ∧
      (∀ entry ∈ s.assignments,
        entry.assigneeIndex < s.controlPlanes.length ∧
          OwnedBy s.controlPlanes s.additions entry) ∧
      ∀ eid exact, (flexSort s.controlPlanes.length s.assignments eid
          exact).code = .sortingOne →
        ∃ entry ∈ s.assignments, matchesEid exact eid entry = true ∧
          (flexSort s.controlPlanes.length s.assignments eid
            exact).controlPlaneIndex = some entry.assigneeIndex ∧
          OwnedBy s.controlPlanes s.additions entry := by
  obtain ⟨s, hrun, howned⟩ :=
    exists_run_of_along (fun h hsafe => h.step hsafe) owned_init hsafe
  exact ⟨s, hrun,
    fun entry hentry => ⟨howned.index_lt hentry, howned.owned entry hentry⟩,
    fun eid exact hone => howned.flexSort hone⟩

/-- A map message about `10.0.0.0/8` that concerns the database: the header, the
EID and its mask. -/
def tenMessage (type : UInt8) : Mem :=
  Mem.ofList
    [60, 1, type, 0, 0x19, 0, 0, 0, 3, 0, 0, 0, 0, 0, 0, 0,
      1, 0, 0, 0, 1, 0, 0, 0, 0, 0, 0, 0,
      16, 2, 0, 0, 10, 0, 0, 0, 0, 0, 0, 0, 0, 0, 0, 0,
      16, 2, 0, 0, 255, 0, 0, 0, 0, 0, 0, 0, 0, 0, 0, 0]
    fun _ => 0

/-- The first plane registers and adds a prefix. -/
theorem owned_of_safe_run_register_add :
    ∃ s, run step State.init [.register 4343, .mapMessage 0 (tenMessage 1) 60] =
        some s ∧
      (∀ entry ∈ s.assignments,
        entry.assigneeIndex < s.controlPlanes.length ∧
          OwnedBy s.controlPlanes s.additions entry) ∧
      ∀ eid exact, (flexSort s.controlPlanes.length s.assignments eid
          exact).code = .sortingOne →
        ∃ entry ∈ s.assignments, matchesEid exact eid entry = true ∧
          (flexSort s.controlPlanes.length s.assignments eid
            exact).controlPlaneIndex = some entry.assigneeIndex ∧
          OwnedBy s.controlPlanes s.additions entry := by
  apply owned_of_safe_run
  refine ⟨trivial, fun s hs => ⟨fun _ _ => ?_, fun _ _ => trivial⟩⟩
  obtain rfl : registerControlPlane State.init 4343 = s := Option.some_inj.mp hs
  have hadd : extractTypeMm (tenMessage 1) = mapmAdd := by decide +kernel
  rw [if_pos hadd]
  refine ⟨fun _ entry hentry => ?_, fun _ last hlast => ?_⟩
  · cases hentry
  · cases hlast

/-- The second of two planes adds a prefix; when the first one deregisters, the
assignment designates a plane that does not exist. -/
theorem not_owned_after_deregistration :
    ¬ ∀ events s, run step State.init events = some s →
      ∀ entry ∈ s.assignments,
        entry.assigneeIndex < s.controlPlanes.length ∧
          OwnedBy s.controlPlanes s.additions entry := by
  intro h
  have hrun : (run step State.init
      [.register 4343, .register 4344, .mapMessage 1 (tenMessage 1) 60,
        .deregisterFirst 4343]).map
        (fun s => (s.controlPlanes.length,
          s.assignments.map Assignment.assigneeIndex)) = some (1, [1]) := by
    decide +kernel
  obtain ⟨s, hs, hview⟩ := Option.map_eq_some_iff.mp hrun
  obtain ⟨hlength, hindices⟩ := Prod.mk.inj hview
  obtain ⟨entry, hentry, hindex⟩ : ∃ entry ∈ s.assignments,
      entry.assigneeIndex = 1 := by
    apply List.mem_map.mp
    rw [hindices]
    exact List.mem_singleton_self 1
  have hlt := (h _ s hs entry hentry).1
  omega

/-! ## Foreign withdrawals -/

/-- A deletion of a local EID comes from a registered plane, while the very
prefix is assigned to another one. -/
structure ForeignWithdrawal (controlPlanes : List ControlPlane)
    (assignments : List Assignment) (socketDescriptor : ℕ) (buf : Mem)
    (msgLen : ℤ) : Prop where
  received : 0 ≤ msgLen
  isLocal : extractFlagsMm buf &&& mapfDb ≠ 0
  isDelete : extractTypeMm buf = mapmDelete
  registered : findDescriptor controlPlanes socketDescriptor <
    controlPlanes.length
  foreign : ∃ owner, exactOwner assignments (extractEidMm buf).key = some owner ∧
    owner ≠ findDescriptor controlPlanes socketDescriptor

section Withdrawals

variable {controlPlanes : List ControlPlane} {assignments : List Assignment}
  {socketDescriptor : ℕ} {buf : Mem} {msgLen : ℤ}

/-- Whatever happens to the assignments, a message that was received is written
to the mapping socket. -/
theorem written_of_processMessage (hmsg : 0 ≤ msgLen)
    {result : List Assignment × Option ℤ}
    (hresult : processMessage controlPlanes assignments socketDescriptor buf
      msgLen = some result) : result.2 = some msgLen := by
  rw [processMessage, if_neg (by omega)] at hresult
  obtain ⟨table, -, rfl⟩ := Option.map_eq_some_iff.mp hresult
  rfl

/-- A foreign withdrawal is never stopped: no such message leaves the
assignments as they were and is kept from the data plane. -/
theorem foreignWithdrawal_not_stopped
    (h : ForeignWithdrawal controlPlanes assignments socketDescriptor buf msgLen) :
    ¬ processMessage controlPlanes assignments socketDescriptor buf msgLen =
      some (assignments, none) := by
  intro hstopped
  have hwritten := written_of_processMessage h.received hstopped
  cases hwritten

/-- The first of two planes owns `10.0.0.0/8`; the second one withdraws it. -/
theorem foreignWithdrawal_not_stopped_ten :
    ¬ processMessage [⟨0, 0, 4343⟩, ⟨1, 1, 4344⟩] [(tenSlashEight 0).item] 1
      (tenMessage 2) 60 = some ([(tenSlashEight 0).item], none) :=
  foreignWithdrawal_not_stopped
    { received := by decide
      isLocal := by decide +kernel
      isDelete := by decide +kernel
      registered := by decide
      foreign := ⟨0, by decide +kernel, by decide⟩ }

theorem foreignWithdrawal_written :
    ¬ ∀ (controlPlanes : List ControlPlane) (assignments : List Assignment)
      (socketDescriptor : ℕ) (buf : Mem) (msgLen : ℤ),
      ForeignWithdrawal controlPlanes assignments socketDescriptor buf msgLen →
        processMessage controlPlanes assignments socketDescriptor buf msgLen =
          some (assignments, none) := by
  intro h
  have hstopped := h [⟨0, 0, 4343⟩, ⟨1, 1, 4344⟩] [(tenSlashEight 0).item] 1
    (tenMessage 2) 60
    { received := by decide
      isLocal := by decide +kernel
      isDelete := by decide +kernel
      registered := by decide
      foreign := ⟨0, by decide +kernel, by decide⟩ }
  have hwritten := written_of_processMessage (by decide) hstopped
  cases hwritten

end Withdrawals

end HyLisp.Hypervisor
