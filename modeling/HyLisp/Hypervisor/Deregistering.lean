import HyLisp.Hypervisor.Ownership

/-!
# Deregistering a plane

A deregistration is to take one plane out of the array, and with it the assignments of
this plane, and to leave every other assignment with its plane.  The array shifts, the
position found is tested again behind the shift, and the id of the plane is compared with
positions; this module says for which states it all comes out right.
-/

namespace HyLisp.Hypervisor

open Transition

/-- `deregister_control_plane`, both critical sections in turn. -/
def deregister (s : State) (port : UInt16) : State :=
  let first := deregisterControlPlane s port
  match first.deregistration with
  | some pending => deregisterAssignments first pending
  | none => first

/-- An assignment, by its prefix and the plane that it designates. -/
def designation (controlPlanes : List ControlPlane) (entry : Assignment) :
    Ipv6Prefix × Option ControlPlane :=
  (entry.eid, controlPlanes[entry.assigneeIndex]?)

/-- The first plane with the port is gone and its assignments are, and every other
assignment designates the plane that it did; without such a plane nothing changes. -/
structure Deregisters (s : State) (port : UInt16) (s' : State) : Prop where
  controlPlanes :
    s'.controlPlanes = s.controlPlanes.eraseIdx (findPort s.controlPlanes port)
  assignments : s'.assignments.map (designation s'.controlPlanes) =
    (s.assignments.filter fun entry =>
      entry.assigneeIndex ≠ findPort s.controlPlanes port).map
        (designation s.controlPlanes)
  unknown : findPort s.controlPlanes port = s.controlPlanes.length →
    s'.controlPlanes = s.controlPlanes ∧ s'.assignments = s.assignments

/-- If a plane has the port, it is the last one and has no assignments; or it is not
the last one, no plane behind it has any, and its id is its position, unless neither it
nor the plane at this position has any. -/
def DeregistersAlone (s : State) (port : UInt16) : Prop :=
  let i := findPort s.controlPlanes port
  ∀ cp, s.controlPlanes[i]? = some cp →
    if i + 1 = s.controlPlanes.length then
      ∀ entry ∈ s.assignments, entry.assigneeIndex ≠ i
    else
      ∀ entry ∈ s.assignments, entry.assigneeIndex ≤ i ∧
        ((entry.assigneeIndex : ℤ) = cp.id.toInt32.toInt ↔ entry.assigneeIndex = i)

/-! ## Planes have different ids -/

/-- The planes are numbered as their sockets are. -/
structure Numbered (s : State) : Prop where
  autoindex : s.controlPlanesAutoindex = .ofNat s.nextDescriptor
  id_eq : ∀ cp ∈ s.controlPlanes, cp.id = .ofNat cp.socketDescriptor
  descriptor_lt : ∀ cp ∈ s.controlPlanes, cp.socketDescriptor < s.nextDescriptor
  nodup : (s.controlPlanes.map ControlPlane.socketDescriptor).Nodup

section Numbers

variable {s s' : State} {event : Event}

theorem Numbered.register (h : Numbered s) (port : UInt16) :
    Numbered (registerControlPlane s port) where
  autoindex := by
    simp only [registerControlPlane]
    rw [h.autoindex, UInt32.ofNat_add]
    rfl
  id_eq := by
    intro cp hcp
    rcases List.mem_append.mp hcp with hold | hnew
    · exact h.id_eq cp hold
    · obtain rfl := List.mem_singleton.mp hnew
      exact h.autoindex
  descriptor_lt := by
    intro cp hcp
    rcases List.mem_append.mp hcp with hold | hnew
    · exact Nat.lt_succ_of_lt (h.descriptor_lt cp hold)
    · obtain rfl := List.mem_singleton.mp hnew
      exact Nat.lt_succ_self _
  nodup := by
    simp only [registerControlPlane, List.map_append, List.map_cons, List.map_nil]
    refine List.nodup_append.mpr ⟨h.nodup, List.nodup_singleton _, ?_⟩
    intro d hd d' hd' heq
    obtain ⟨cp, hcp, rfl⟩ := List.mem_map.mp hd
    obtain rfl := List.mem_singleton.mp hd'
    exact Nat.ne_of_lt (h.descriptor_lt cp hcp) heq

theorem Numbered.deregisterFirst (h : Numbered s) (port : UInt16) :
    Numbered (deregisterControlPlane s port) where
  autoindex := h.autoindex
  id_eq cp hcp := h.id_eq cp (List.mem_of_mem_eraseIdx hcp)
  descriptor_lt cp hcp := h.descriptor_lt cp (List.mem_of_mem_eraseIdx hcp)
  nodup := h.nodup.sublist ((List.eraseIdx_sublist _ _).map _)

theorem Numbered.step (h : Numbered s) (hstep : step s event = some s') :
    Numbered s' := by
  cases event with
  | register port =>
      rw [Hypervisor.step] at hstep
      split at hstep
      · obtain rfl := Option.some_inj.mp hstep
        exact h.register port
      · obtain rfl := Option.some_inj.mp hstep
        exact h
  | deregisterFirst port =>
      rw [Hypervisor.step] at hstep
      split at hstep
      · obtain rfl := Option.some_inj.mp hstep
        exact h.deregisterFirst port
      · obtain rfl := Option.some_inj.mp hstep
        exact h
  | deregisterSecond =>
      rw [Hypervisor.step] at hstep
      split at hstep
      · obtain rfl := Option.some_inj.mp hstep
        exact h
      · obtain rfl := Option.some_inj.mp hstep
        exact ⟨h.autoindex, h.id_eq, h.descriptor_lt, h.nodup⟩
  | mapMessage socketDescriptor buf msgLen =>
      obtain ⟨result, -, rfl⟩ := Option.map_eq_some_iff.mp hstep
      exact ⟨h.autoindex, h.id_eq, h.descriptor_lt, h.nodup⟩

/-- As long as the numbers of the planes are not used up, no two planes have one id. -/
theorem ids_nodup_of_run {events : List Event} (hrun : run step State.init events = some s)
    (hnext : s.nextDescriptor ≤ 2 ^ 32) : (s.controlPlanes.map ControlPlane.id).Nodup := by
  have hinit : Numbered State.init :=
    ⟨rfl, fun _ hcp => absurd hcp List.not_mem_nil,
      fun _ hcp => absurd hcp List.not_mem_nil, List.nodup_nil⟩
  have h : Numbered s :=
    run_invariant (fun h _ hstep => h.step hstep) hinit (along_true _ events) hrun
  have hids : s.controlPlanes.map ControlPlane.id =
      (s.controlPlanes.map ControlPlane.socketDescriptor).map UInt32.ofNat := by
    rw [List.map_map]
    exact List.map_congr_left h.id_eq
  rw [hids]
  refine h.nodup.map_on ?_
  intro d hd d' hd' heq
  obtain ⟨cp, hcp, rfl⟩ := List.mem_map.mp hd
  obtain ⟨cp', hcp', rfl⟩ := List.mem_map.mp hd'
  have hlt := h.descriptor_lt cp hcp
  have hlt' := h.descriptor_lt cp' hcp'
  have hnat := congrArg UInt32.toNat heq
  rw [UInt32.toNat_ofNat', UInt32.toNat_ofNat'] at hnat
  omega

end Numbers

/-! ## What a deregistration does -/

section Outcome

variable {s : State} {port : UInt16} {cp : ControlPlane} {entry other : Assignment}

theorem controlPlanes_deregister (s : State) (port : UInt16) :
    (deregister s port).controlPlanes =
      s.controlPlanes.eraseIdx (findPort s.controlPlanes port) := rfl

/-- Without a plane the tables stay as they are. -/
theorem deregister_of_unknown
    (hport : findPort s.controlPlanes port = s.controlPlanes.length) :
    (deregister s port).controlPlanes = s.controlPlanes ∧
      (deregister s port).assignments = s.assignments := by
  constructor
  · rw [controlPlanes_deregister, hport, List.eraseIdx_of_length_le le_rfl]
  · simp [deregister, deregisterControlPlane, deregisterAssignments, hport]

/-- With a plane that is not the last one, the entries with its id go. -/
theorem assignments_deregister
    (hcp : s.controlPlanes[findPort s.controlPlanes port]? = some cp) :
    (deregister s port).assignments =
      if findPort s.controlPlanes port + 1 = s.controlPlanes.length then s.assignments
      else s.assignments.filter fun entry =>
        (entry.assigneeIndex : ℤ) ≠ cp.id.toInt32.toInt := by
  have hlt := (List.getElem?_eq_some_iff.mp hcp).1
  simp only [deregister, deregisterControlPlane, deregisterAssignments, hcp,
    Option.map_some]
  rw [List.length_eraseIdx_of_lt hlt]
  by_cases hlast : findPort s.controlPlanes port + 1 = s.controlPlanes.length
  · rw [if_pos hlast, if_neg (by omega)]
  · rw [if_neg hlast, if_pos (by omega), removeAssignee_eq]

/-- With different ids, a prefix has entries of one plane only. -/
theorem Owned.index_eq (h : Owned s)
    (hids : (s.controlPlanes.map ControlPlane.id).Nodup) (hentry : entry ∈ s.assignments)
    (hother : other ∈ s.assignments) (heid : entry.eid = other.eid) :
    entry.assigneeIndex = other.assigneeIndex := by
  obtain ⟨cp, hcp, hadder⟩ := h.owned entry hentry
  obtain ⟨cp', hcp', hadder'⟩ := h.owned other hother
  rw [heid, hadder'] at hadder
  have hid : (s.controlPlanes.map ControlPlane.id)[entry.assigneeIndex]? =
      (s.controlPlanes.map ControlPlane.id)[other.assigneeIndex]? := by
    rw [List.getElem?_map, List.getElem?_map, hcp, hcp', Option.map_some, Option.map_some,
      Option.some_inj.mp hadder]
  have hlt : entry.assigneeIndex < (s.controlPlanes.map ControlPlane.id).length := by
    rw [List.length_map]
    exact h.index_lt hentry
  exact (List.getElem?_inj hlt hids).mp hid

/-- Behind the plane that is taken out, a position designates another plane. -/
theorem getElem?_eraseIdx_ne {controlPlanes : List ControlPlane} {i k : ℕ}
    (hids : (controlPlanes.map ControlPlane.id).Nodup) (hk : k < controlPlanes.length)
    (hik : i ≤ k) : (controlPlanes.eraseIdx i)[k]? ≠ controlPlanes[k]? := by
  rw [List.getElem?_eraseIdx_of_ge hik]
  intro heq
  have hplanes : controlPlanes.Nodup := hids.of_map
  have hindex := (List.getElem?_inj hk hplanes).mp heq.symm
  omega

end Outcome

section Exactly

variable {s : State} {port : UInt16} {cp : ControlPlane}

/-- Where the designations come out right, an entry stays exactly when it is not one of
the plane, and is one of a plane before it. -/
theorem kept_of_designations (h : Owned s)
    (hids : (s.controlPlanes.map ControlPlane.id).Nodup) {i : ℕ} {gone : Assignment → Bool}
    (hmap : (s.assignments.filter fun entry => !gone entry).map
        (designation (s.controlPlanes.eraseIdx i)) =
      (s.assignments.filter fun entry => entry.assigneeIndex ≠ i).map
        (designation s.controlPlanes))
    (hgone : ∀ entry ∈ s.assignments, ∀ other ∈ s.assignments,
      entry.assigneeIndex = other.assigneeIndex → gone entry = gone other)
    {entry : Assignment} (hentry : entry ∈ s.assignments) :
    (gone entry = true ↔ entry.assigneeIndex = i) ∧ entry.assigneeIndex ≤ i := by
  have hkept : gone entry = false → entry.assigneeIndex < i := by
    intro hstays
    have hmem : designation (s.controlPlanes.eraseIdx i) entry ∈
        (s.assignments.filter fun entry => entry.assigneeIndex ≠ i).map
          (designation s.controlPlanes) := by
      rw [← hmap]
      exact List.mem_map_of_mem (List.mem_filter.mpr ⟨hentry, by rw [hstays]; rfl⟩)
    obtain ⟨other, hother, hdesignation⟩ := List.mem_map.mp hmem
    obtain ⟨hotherMem, hne⟩ := List.mem_filter.mp hother
    obtain ⟨heid, hplane⟩ := Prod.mk.inj hdesignation
    have hindex := h.index_eq hids hotherMem hentry heid
    rw [hindex] at hplane hne
    by_contra hge
    exact getElem?_eraseIdx_ne hids (h.index_lt hentry) (Nat.not_lt.mp hge) hplane.symm
  have hremoved : gone entry = true → entry.assigneeIndex = i := by
    intro hgoes
    by_contra hne
    have hmem : designation s.controlPlanes entry ∈
        (s.assignments.filter fun entry => !gone entry).map
          (designation (s.controlPlanes.eraseIdx i)) := by
      rw [hmap]
      exact List.mem_map_of_mem (List.mem_filter.mpr ⟨hentry, by simpa using hne⟩)
    obtain ⟨other, hother, hdesignation⟩ := List.mem_map.mp hmem
    obtain ⟨hotherMem, hstays⟩ := List.mem_filter.mp hother
    obtain ⟨heid, -⟩ := Prod.mk.inj hdesignation
    have hindex := h.index_eq hids hotherMem hentry heid
    rw [hgone other hotherMem entry hentry hindex, hgoes] at hstays
    cases hstays
  cases hcase : gone entry with
  | true => exact ⟨iff_of_true rfl (hremoved hcase), (hremoved hcase).le⟩
  | false =>
      have hlt := hkept hcase
      exact ⟨iff_of_false Bool.false_ne_true (Nat.ne_of_lt hlt), hlt.le⟩

/-- Entries of planes before the one that is taken out keep their designations. -/
theorem designations_of_before {table : List Assignment}
    {controlPlanes : List ControlPlane} {i : ℕ}
    (hbefore : ∀ entry ∈ table, entry.assigneeIndex < i) :
    table.map (designation (controlPlanes.eraseIdx i)) =
      table.map (designation controlPlanes) := by
  refine List.map_congr_left fun entry hentry => ?_
  rw [designation, designation, List.getElem?_eraseIdx_of_lt (hbefore entry hentry)]

/-- Without the entries that go, the others designate what they did exactly when the
entries that go are those of the plane, and no entry is one of a plane behind it. -/
theorem designations_iff (h : Owned s)
    (hids : (s.controlPlanes.map ControlPlane.id).Nodup) (i : ℕ) (gone : Assignment → Bool)
    (hgone : ∀ entry ∈ s.assignments, ∀ other ∈ s.assignments,
      entry.assigneeIndex = other.assigneeIndex → gone entry = gone other) :
    (s.assignments.filter fun entry => !gone entry).map
        (designation (s.controlPlanes.eraseIdx i)) =
      (s.assignments.filter fun entry => entry.assigneeIndex ≠ i).map
        (designation s.controlPlanes) ↔
    ∀ entry ∈ s.assignments,
      entry.assigneeIndex ≤ i ∧ (gone entry = true ↔ entry.assigneeIndex = i) := by
  constructor
  · intro hmap entry hentry
    exact (kept_of_designations h hids hmap hgone hentry).symm
  · intro hentries
    have hfilter : (s.assignments.filter fun entry => !gone entry) =
        s.assignments.filter fun entry => entry.assigneeIndex ≠ i := by
      refine List.filter_congr fun entry hentry => ?_
      rw [Bool.eq_iff_iff, Bool.not_eq_true', decide_eq_true_iff, ← Bool.not_eq_true]
      exact not_congr (hentries entry hentry).2
    rw [hfilter]
    refine designations_of_before fun entry hentry => ?_
    obtain ⟨hmem, hne⟩ := List.mem_filter.mp hentry
    exact lt_of_le_of_ne (hentries entry hmem).1 (of_decide_eq_true hne)

/-- Without a plane that has the port, nothing is to be done and nothing is. -/
theorem deregisters_of_unknown (h : Owned s)
    (hport : findPort s.controlPlanes port = s.controlPlanes.length) :
    Deregisters s port (deregister s port) := by
  obtain ⟨hplanes, htable⟩ := deregister_of_unknown hport
  refine ⟨rfl, ?_, fun _ => ⟨hplanes, htable⟩⟩
  rw [hplanes, htable, List.filter_eq_self.mpr]
  intro entry hentry
  rw [hport]
  exact decide_eq_true (Nat.ne_of_lt (h.index_lt hentry))

/-- With a plane that has the port, it is the designations that have to come out right. -/
theorem deregisters_iff_designations
    (hcp : s.controlPlanes[findPort s.controlPlanes port]? = some cp) :
    Deregisters s port (deregister s port) ↔
      (deregister s port).assignments.map (designation
          (s.controlPlanes.eraseIdx (findPort s.controlPlanes port))) =
        (s.assignments.filter fun entry =>
          entry.assigneeIndex ≠ findPort s.controlPlanes port).map
            (designation s.controlPlanes) := by
  have hlt := (List.getElem?_eq_some_iff.mp hcp).1
  constructor
  · intro hall
    exact hall.assignments
  · intro hmap
    exact ⟨rfl, hmap, fun hport => absurd hport (Nat.ne_of_lt hlt)⟩

/-- For the last plane nothing is removed, which is right if it has no assignments. -/
theorem deregisters_iff_of_last (h : Owned s)
    (hids : (s.controlPlanes.map ControlPlane.id).Nodup)
    (hcp : s.controlPlanes[findPort s.controlPlanes port]? = some cp)
    (hlast : findPort s.controlPlanes port + 1 = s.controlPlanes.length) :
    Deregisters s port (deregister s port) ↔
      ∀ entry ∈ s.assignments, entry.assigneeIndex ≠ findPort s.controlPlanes port := by
  have hnone := designations_iff h hids (findPort s.controlPlanes port)
    (fun _ => false) fun _ _ _ _ _ => rfl
  have hall : (s.assignments.filter fun _ => !false) = s.assignments :=
    List.filter_eq_self.mpr fun _ _ => rfl
  rw [hall] at hnone
  rw [deregisters_iff_designations hcp, assignments_deregister hcp, if_pos hlast, hnone]
  constructor
  · intro hentries entry hentry hindex
    exact Bool.false_ne_true ((hentries entry hentry).2.mpr hindex)
  · intro hne entry hentry
    have hindex := h.index_lt hentry
    exact ⟨by omega, iff_of_false Bool.false_ne_true (hne entry hentry)⟩

/-- For another plane the assignments go that have its id as their position. -/
theorem deregisters_iff_of_not_last (h : Owned s)
    (hids : (s.controlPlanes.map ControlPlane.id).Nodup)
    (hcp : s.controlPlanes[findPort s.controlPlanes port]? = some cp)
    (hlast : findPort s.controlPlanes port + 1 ≠ s.controlPlanes.length) :
    Deregisters s port (deregister s port) ↔
      ∀ entry ∈ s.assignments, entry.assigneeIndex ≤ findPort s.controlPlanes port ∧
        ((entry.assigneeIndex : ℤ) = cp.id.toInt32.toInt ↔
          entry.assigneeIndex = findPort s.controlPlanes port) := by
  have hid := designations_iff h hids (findPort s.controlPlanes port)
    (fun entry => decide ((entry.assigneeIndex : ℤ) = cp.id.toInt32.toInt))
    fun entry _ other _ hindex => by rw [hindex]
  simp only [← decide_not, decide_eq_true_eq] at hid
  rw [deregisters_iff_designations hcp, assignments_deregister hcp, if_neg hlast, hid]

end Exactly

/-- With the ownership invariant and planes of different ids, a deregistration does what
it is to do exactly in the states that `DeregistersAlone` describes. -/
theorem deregisters_iff_deregistersAlone {s : State} (h : Owned s)
    (hids : (s.controlPlanes.map ControlPlane.id).Nodup) (port : UInt16) :
    Deregisters s port (deregister s port) ↔ DeregistersAlone s port := by
  cases hcp : s.controlPlanes[findPort s.controlPlanes port]? with
  | none =>
      have hport : findPort s.controlPlanes port = s.controlPlanes.length :=
        le_antisymm List.findIdx_le_length (List.getElem?_eq_none_iff.mp hcp)
      refine iff_of_true (deregisters_of_unknown h hport) fun cp hsome => ?_
      rw [hcp] at hsome
      cases hsome
  | some cp =>
      have halone : DeregistersAlone s port ↔
          if findPort s.controlPlanes port + 1 = s.controlPlanes.length then
            ∀ entry ∈ s.assignments, entry.assigneeIndex ≠ findPort s.controlPlanes port
          else
            ∀ entry ∈ s.assignments, entry.assigneeIndex ≤ findPort s.controlPlanes port ∧
              ((entry.assigneeIndex : ℤ) = cp.id.toInt32.toInt ↔
                entry.assigneeIndex = findPort s.controlPlanes port) := by
        refine ⟨fun hall => hall cp hcp, fun hthis cp' hcp' => ?_⟩
        obtain rfl := Option.some_inj.mp (hcp.symm.trans hcp')
        exact hthis
      rw [halone]
      split
      next hlast => exact deregisters_iff_of_last h hids hcp hlast
      next hlast => exact deregisters_iff_of_not_last h hids hcp hlast

/-- Two planes, of which one has added `10.0.0.0/8`. -/
def twoPlanes (owner : Fin 2) : State where
  controlPlanes := [⟨0, 0, 4343⟩, ⟨1, 1, 4344⟩]
  controlPlanesAutoindex := 2
  nextDescriptor := 2
  assignments := [⟨v4MappedTen, owner⟩]
  deregistration := none
  additions := [(v4MappedTen.key, .ofNat owner)]

theorem owned_twoPlanes (owner : Fin 2) : Owned (twoPlanes owner) where
  owned := by
    intro entry hentry
    obtain rfl := List.mem_singleton.mp hentry
    refine ⟨⟨.ofNat owner, owner, .ofNat (4343 + owner)⟩, ?_, ?_⟩
    · revert owner
      decide
    · exact lastAdder_cons_self _ _ _
  length_le := by
    intro entry hentry
    obtain rfl := List.mem_singleton.mp hentry
    exact Nat.le_of_ble_eq_true rfl

/-- The first of two planes takes its assignment with it. -/
theorem deregisters_iff_deregistersAlone_first :
    Deregisters (twoPlanes 0) 4343 (deregister (twoPlanes 0) 4343) ↔
      DeregistersAlone (twoPlanes 0) 4343 :=
  deregisters_iff_deregistersAlone (owned_twoPlanes 0) (by decide) 4343

/-- The assignment of the last plane stays behind. -/
theorem not_deregisters_last :
    ¬ ∀ s port, Owned s → (s.controlPlanes.map ControlPlane.id).Nodup →
      Deregisters s port (deregister s port) := by
  intro h
  have hmap := (h (twoPlanes 1) 4344 (owned_twoPlanes 1) (by decide)).assignments
  exact absurd (congrArg List.length hmap) (by decide)

end HyLisp.Hypervisor
