import HyLisp.Hypervisor.Ownership

/-!
# One assignment for each prefix

A prefix is overwritten or appended by what the exact matcher answers for it.  The
matcher answers `::/0` with the broadcast code, whatever is stored, and the
addition falls through to the insertion: this is the one prefix that the table can
hold twice.
-/

namespace HyLisp.Hypervisor

open DataPlane Transition

/-- No two assignments denote the same prefix: the same length and the same leading
bits. -/
def Distinct (s : State) : Prop :=
  (storedKeys s.assignments).Nodup

/-- A registered plane adds `::/0` while an entry of length zero is stored. -/
structure ReaddsDefault (s : State) (socketDescriptor : ℕ) (buf : Mem) : Prop where
  isLocal : IsLocalUpdate buf
  isAdd : extractTypeMm buf = mapmAdd
  registered : findDescriptor s.controlPlanes socketDescriptor <
    s.controlPlanes.length
  isBroadcast : (extractEidMm buf).IsBroadcast
  stored : (extractEidMm buf).key ∈ storedKeys s.assignments

/-- The events that insert no prefix a second time. -/
def Event.AddsDistinct (s : State) : Event → Prop
  | .mapMessage socketDescriptor buf _ => ¬ ReaddsDefault s socketDescriptor buf
  | _ => True

/-! ## One call -/

section Calls

variable {controlPlanesCtr : ℕ} {table table' : List Assignment} {item : Assignment}

theorem storedKeys_append_singleton (table : List Assignment) (item : Assignment) :
    storedKeys (table ++ [item]) = storedKeys table ++ [item.eid.key] := by
  rw [storedKeys, List.map_append, List.map_singleton, storedKeys]

theorem storedKeys_nodup_append (hnodup : (storedKeys table).Nodup) :
    (storedKeys (table ++ [item])).Nodup ↔ item.eid.key ∉ storedKeys table := by
  rw [storedKeys_append_singleton, List.nodup_append_comm, List.singleton_append,
    List.nodup_cons]
  exact and_iff_left hnodup

theorem storedKeys_nodup_of_sublist (hsub : table'.Sublist table)
    (hnodup : (storedKeys table).Nodup) : (storedKeys table').Nodup := by
  rw [storedKeys] at hnodup ⊢
  exact hnodup.sublist (hsub.map _)

/-- `::/0` is appended, whatever is stored. -/
theorem addAssignment_of_isBroadcast (hctr : controlPlanesCtr ≠ 0)
    (hbroadcast : item.eid.IsBroadcast) :
    addAssignment controlPlanesCtr table item =
      some (table ++ [item], (table.length : ℤ)) := by
  rw [addAssignment, exactSort, flexSort_of_isBroadcast hctr hbroadcast]

/-- An addition keeps the prefixes distinct, unless it adds `::/0` again. -/
theorem storedKeys_nodup_addAssignment_iff (hctr : controlPlanesCtr ≠ 0)
    (hlen : item.eid.prefixLength.toNat ≤ 128) (hnodup : (storedKeys table).Nodup)
    {index : ℤ}
    (hadd : addAssignment controlPlanesCtr table item = some (table', index)) :
    (storedKeys table').Nodup ↔
      ¬ (item.eid.IsBroadcast ∧ item.eid.key ∈ storedKeys table) := by
  by_cases hbroadcast : item.eid.IsBroadcast
  · rw [addAssignment_of_isBroadcast hctr hbroadcast] at hadd
    obtain ⟨rfl, -⟩ := Prod.mk.inj (Option.some_inj.mp hadd)
    rw [storedKeys_nodup_append hnodup, not_and]
    exact ⟨fun habsent _ => habsent, fun habsent => habsent hbroadcast⟩
  · refine iff_of_true ?_ fun hboth => hbroadcast hboth.1
    by_cases hundefined : item.eid.IsUndefined
    · rw [addAssignment_of_isUndefined hundefined] at hadd
      obtain ⟨rfl, -⟩ := Prod.mk.inj (Option.some_inj.mp hadd)
      exact hnodup
    · exact storedKeys_nodup_addAssignment hctr ⟨hbroadcast, hundefined⟩ hlen hnodup
        hadd

/-- A removal keeps the prefixes distinct. -/
theorem storedKeys_nodup_of_removeAssignment (hctr : controlPlanesCtr ≠ 0)
    (hlen : item.eid.prefixLength.toNat ≤ 128) (hnodup : (storedKeys table).Nodup)
    (hremove : removeAssignment controlPlanesCtr table item = some table') :
    (storedKeys table').Nodup := by
  by_cases hbroadcast : item.eid.IsBroadcast
  · rw [removeAssignment, exactSort, flexSort_of_isBroadcast hctr hbroadcast]
      at hremove
    rw [← Option.some_inj.mp hremove]
    exact hnodup
  by_cases hundefined : item.eid.IsUndefined
  · rw [removeAssignment, exactSort, flexSort_of_isUndefined hundefined] at hremove
    rw [← Option.some_inj.mp hremove]
    exact hnodup
  exact storedKeys_nodup_removeAssignment hctr ⟨hbroadcast, hundefined⟩ hlen hnodup
    hremove

end Calls

/-! ## One event -/

namespace Distinct

variable {s s' : State}

/-- A map message keeps the prefixes distinct exactly when it does not add `::/0`
again. -/
theorem mapMessage_iff (h : Distinct s) {socketDescriptor msgLen : ℕ} {buf : Mem}
    (hstep : step s (.mapMessage socketDescriptor buf msgLen) = some s') :
    Distinct s' ↔ ¬ ReaddsDefault s socketDescriptor buf := by
  have hlen := extractEidMm_length_le buf
  rcases mapMessage_cases hstep with ⟨hnot, hsame⟩ | ⟨hupdate, hregistered, hchange⟩
  · refine iff_of_true ?_ fun hreadds => hnot ⟨hreadds.isLocal, hreadds.registered⟩
    rw [Distinct, hsame]
    exact h
  · have hctr : s.controlPlanes.length ≠ 0 := Nat.ne_zero_of_lt hregistered
    rcases hchange with ⟨hadd, index, hresult⟩ | ⟨hadd, hresult⟩
    · refine (storedKeys_nodup_addAssignment_iff hctr hlen h hresult).trans ?_
      rw [not_iff_not]
      exact ⟨fun hboth => ⟨hupdate, hadd, hregistered, hboth.1, hboth.2⟩,
        fun hreadds => ⟨hreadds.isBroadcast, hreadds.stored⟩⟩
    · exact iff_of_true (storedKeys_nodup_of_removeAssignment hctr hlen h hresult)
        fun hreadds => hadd hreadds.isAdd

/-- An event keeps the prefixes distinct exactly when it does not add `::/0`
again. -/
theorem step_iff (h : Distinct s) {event : Event} (hstep : step s event = some s') :
    Distinct s' ↔ event.AddsDistinct s := by
  cases event with
  | register port =>
      have hsub := assignments_sublist_of_step hstep fun _ _ _ => nofun
      exact iff_of_true (storedKeys_nodup_of_sublist hsub h) trivial
  | deregisterFirst port =>
      have hsub := assignments_sublist_of_step hstep fun _ _ _ => nofun
      exact iff_of_true (storedKeys_nodup_of_sublist hsub h) trivial
  | deregisterSecond =>
      have hsub := assignments_sublist_of_step hstep fun _ _ _ => nofun
      exact iff_of_true (storedKeys_nodup_of_sublist hsub h) trivial
  | mapMessage socketDescriptor buf msgLen => exact h.mapMessage_iff hstep

end Distinct

/-- The addition of `::/0` never fails. -/
theorem exists_step_of_readdsDefault {s : State} {socketDescriptor : ℕ} {buf : Mem}
    (h : ReaddsDefault s socketDescriptor buf) (msgLen : ℕ) :
    ∃ s', step s (.mapMessage socketDescriptor buf msgLen) = some s' := by
  have hctr : s.controlPlanes.length ≠ 0 := by
    have hregistered := h.registered
    omega
  rw [step_mapMessage s socketDescriptor msgLen h.isLocal, updateAssignments,
    if_pos h.registered, if_pos h.isAdd,
    addAssignment_of_isBroadcast hctr h.isBroadcast]
  exact ⟨_, rfl⟩

/-! ## Runs -/

/-- Every state of a run holds each prefix once exactly when none of its steps adds
`::/0` again. -/
theorem distinct_iff_addsDistinct (events : List Event) :
    (∀ done, done <+: events → ∀ s, run step State.init done = some s →
      Distinct s) ↔
      Along step (fun s event => event.AddsDistinct s) State.init events := by
  have hinit : Distinct State.init := List.nodup_nil
  have hkeep : ∀ {s : State} {event : Event} {s'}, Distinct s →
      event.AddsDistinct s → step s event = some s' → Distinct s' :=
    fun h hadds hstep => (h.step_iff hstep).mpr hadds
  have hone : ∀ {s : State} {event : Event}, Distinct s →
      (event.AddsDistinct s ↔ ∀ s', step s event = some s' → Distinct s') := by
    intro s event h
    refine ⟨fun hadds s' hstep => hkeep h hadds hstep, fun hall => ?_⟩
    cases event with
    | mapMessage socketDescriptor buf msgLen =>
        intro hreadds
        obtain ⟨s', hstep⟩ := exists_step_of_readdsDefault hreadds msgLen
        exact (h.mapMessage_iff hstep).mp (hall s' hstep) hreadds
    | register port => trivial
    | deregisterFirst port => trivial
    | deregisterSecond => trivial
  rw [forall_reached_iff_along, along_iff_of_invariant hkeep hone hinit]
  exact and_iff_right hinit

/-- A map message that adds `::/0`: the header, the EID and its mask. -/
def defaultMessage : Mem :=
  Mem.ofList
    [84, 1, 1, 0, 0x19, 0, 0, 0, 3, 0, 0, 0, 0, 0, 0, 0,
      1, 0, 0, 0, 1, 0, 0, 0, 0, 0, 0, 0,
      28, 28, 0, 0, 0, 0, 0, 0, 0, 0, 0, 0, 0, 0, 0, 0, 0, 0, 0, 0, 0, 0, 0, 0, 0, 0, 0, 0,
      28, 28, 0, 0, 0, 0, 0, 0, 0, 0, 0, 0, 0, 0, 0, 0, 0, 0, 0, 0, 0, 0, 0, 0, 0, 0, 0, 0]
    fun _ => 0

/-- A plane adds `::/0` twice. -/
theorem not_distinct_default_route :
    ¬ ∀ events s, run step State.init events = some s → Distinct s := by
  intro h
  have hrun : (run step State.init
      [.register 4343, .mapMessage 0 defaultMessage 84,
        .mapMessage 0 defaultMessage 84]).map (fun s => storedKeys s.assignments) =
        some [[], []] := by
    decide +kernel
  obtain ⟨s, hs, hkeys⟩ := Option.map_eq_some_iff.mp hrun
  have hdistinct := h _ s hs
  rw [Distinct, hkeys] at hdistinct
  revert hdistinct
  decide

end HyLisp.Hypervisor
