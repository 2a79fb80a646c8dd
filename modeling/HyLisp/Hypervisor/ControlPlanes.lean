import HyLisp.Hypervisor.Assignments
import HyLisp.Hypervisor.ParseMessage

/-!
# The hypervisor as a state machine

Two threads change the tables of the hypervisor.  The registering server adds
and removes control planes; a removal takes two critical sections, one for the
array of planes and one for the assignments.  The map message muxer serves the
messages of the planes and adds and removes assignments.  The events of the
model are the critical sections, in any interleaving the threads allow.

The kernel hands out socket descriptors, and no northbound socket is ever
closed, so the descriptors of the registrations are all different: here they are
numbered.  The state also records who added which prefix; no code reads this
record.
-/

namespace HyLisp.Hypervisor

open DataPlane

/-- `control_plane` -/
structure ControlPlane where
  id : UInt32
  socketDescriptor : ℕ
  port : UInt16
  deriving DecidableEq, Repr

/-- The locals `i` and `id` of a deregistration between its two critical
sections; `id` is not written when the port is not registered. -/
structure Deregistration where
  i : ℕ
  id : Option UInt32
  deriving DecidableEq, Repr

/-- The tables of the hypervisor.  `additions` records the prefixes added, the
last one first, with the id of the plane that added them. -/
structure State where
  controlPlanes : List ControlPlane
  controlPlanesAutoindex : UInt32
  nextDescriptor : ℕ
  assignments : List Assignment
  deregistration : Option Deregistration
  additions : List (List Bool × UInt32)

/-- The tables before the first registration. -/
def State.init : State where
  controlPlanes := []
  controlPlanesAutoindex := 0
  nextDescriptor := 0
  assignments := []
  deregistration := none
  additions := []

/-! ## The registering server -/

/-- `register_control_plane` -/
def registerControlPlane (s : State) (port : UInt16) : State :=
  { s with
    controlPlanes := s.controlPlanes ++
      [⟨s.controlPlanesAutoindex, s.nextDescriptor, port⟩]
    controlPlanesAutoindex := s.controlPlanesAutoindex + 1
    nextDescriptor := s.nextDescriptor + 1 }

/-- The search of `deregister_control_plane`: the position of the first plane
with the port, or the number of planes. -/
def findPort (controlPlanes : List ControlPlane) (port : UInt16) : ℕ :=
  controlPlanes.findIdx fun cp => cp.port == port

/-- The first critical section of `deregister_control_plane`. -/
def deregisterControlPlane (s : State) (port : UInt16) : State :=
  let i := findPort s.controlPlanes port
  { s with
    controlPlanes := s.controlPlanes.eraseIdx i
    deregistration := some ⟨i, s.controlPlanes[i]?.map ControlPlane.id⟩ }

/-- The second critical section.  The test is made again on the array the first
one has shortened, and the id of the plane stands where `remove_assignee` takes
an index. -/
def deregisterAssignments (s : State) (pending : Deregistration) : State :=
  let assignments :=
    match pending.id with
    | some id =>
        if pending.i < s.controlPlanes.length then
          removeAssignee s.assignments id.toInt32.toInt
        else s.assignments
    | none => s.assignments
  { s with assignments := assignments, deregistration := none }

/-! ## The map message muxer -/

/-- What `process_message` does to the assignments with a message of `type` from
the plane at position `i`. -/
def updateAssignments (controlPlanesCtr : ℕ) (assignments : List Assignment)
    (type : UInt16) (item : Assignment) : Option (List Assignment) :=
  if item.assigneeIndex < controlPlanesCtr then
    if type = mapmAdd then
      (addAssignment controlPlanesCtr assignments item).map Prod.fst
    else if type = mapmDelete then
      removeAssignment controlPlanesCtr assignments item
    else some assignments
  else some assignments

/-- The search of `process_message`: the position of the plane the message came
from, or the number of planes. -/
def findDescriptor (controlPlanes : List ControlPlane) (socketDescriptor : ℕ) :
    ℕ :=
  controlPlanes.findIdx fun cp => cp.socketDescriptor == socketDescriptor

/-- The messages that touch the assignments. -/
def IsLocalUpdate (buf : Mem) : Prop :=
  extractFlagsMm buf &&& mapfDb ≠ 0 ∧
    (extractTypeMm buf = mapmAdd ∨ extractTypeMm buf = mapmDelete)

instance (buf : Mem) : Decidable (IsLocalUpdate buf) :=
  inferInstanceAs (Decidable (_ ∧ _))

/-- `process_message` of the muxer: the assignments after the message, and how
many bytes of the buffer are written to the mapping socket, if any are.  `none`
stands for an access outside the assignments; a negative length for a failed
read. -/
def processMessage (controlPlanes : List ControlPlane)
    (assignments : List Assignment) (socketDescriptor : ℕ) (buf : Mem)
    (msgLen : ℤ) : Option (List Assignment × Option ℤ) :=
  if msgLen < 0 then some (assignments, none)
  else
    let updated :=
      if IsLocalUpdate buf then
        let significantEid := extractEidMm buf
        let i := findDescriptor controlPlanes socketDescriptor
        updateAssignments controlPlanes.length assignments (extractTypeMm buf)
          ⟨significantEid, i⟩
      else some assignments
    updated.map fun assignments => (assignments, some msgLen)

/-- The record of a message that adds a prefix: an EID that stands for
"undefined" is not one. -/
def recordAddition (s : State) (socketDescriptor : ℕ) (buf : Mem) :
    List (List Bool × UInt32) :=
  match s.controlPlanes[findDescriptor s.controlPlanes socketDescriptor]? with
  | some cp =>
      if IsLocalUpdate buf ∧ extractTypeMm buf = mapmAdd ∧
          ¬ (extractEidMm buf).IsUndefined then
        ((extractEidMm buf).key, cp.id) :: s.additions
      else s.additions
  | none => s.additions

/-! ## Runs -/

/-- A critical section of one of the two threads. -/
inductive Event
  | register (port : UInt16)
  | deregisterFirst (port : UInt16)
  | deregisterSecond
  | mapMessage (socketDescriptor : ℕ) (buf : Mem) (msgLen : ℕ)

/-- One critical section.  The registering server serves one request at a time:
a request that finds it between the two sections of a deregistration changes
nothing yet.  A failure is an access outside the assignments. -/
def step (s : State) : Event → Option State
  | .register port =>
      match s.deregistration with
      | none => some (registerControlPlane s port)
      | some _ => some s
  | .deregisterFirst port =>
      match s.deregistration with
      | none => some (deregisterControlPlane s port)
      | some _ => some s
  | .deregisterSecond =>
      match s.deregistration with
      | none => some s
      | some pending => some (deregisterAssignments s pending)
  | .mapMessage socketDescriptor buf msgLen =>
      (processMessage s.controlPlanes s.assignments socketDescriptor buf
        msgLen).map fun result =>
          { s with
            assignments := result.1
            additions := recordAddition s socketDescriptor buf }

/-! ## What a step does to the assignments -/

section Cases

variable {s s' : State} {event : Event}

theorem step_mapMessage (s : State) (socketDescriptor msgLen : ℕ) {buf : Mem}
    (hupdate : IsLocalUpdate buf) :
    step s (.mapMessage socketDescriptor buf msgLen) =
      (updateAssignments s.controlPlanes.length s.assignments
        (extractTypeMm buf) ⟨extractEidMm buf,
          findDescriptor s.controlPlanes socketDescriptor⟩).map fun table =>
        { s with
          assignments := table
          additions := recordAddition s socketDescriptor buf } := by
  have hmsg : ¬ (msgLen : ℤ) < 0 := by omega
  rw [step, processMessage, if_neg hmsg, if_pos hupdate, Option.map_map]
  rfl

/-- A map message changes the assignments if it is for them and comes from a registered
plane, by an addition or a removal. -/
theorem mapMessage_cases {socketDescriptor msgLen : ℕ} {buf : Mem}
    (hstep : step s (.mapMessage socketDescriptor buf msgLen) = some s') :
    let i := findDescriptor s.controlPlanes socketDescriptor
    (¬ (IsLocalUpdate buf ∧ i < s.controlPlanes.length) ∧
        s'.assignments = s.assignments) ∨
      (IsLocalUpdate buf ∧ i < s.controlPlanes.length ∧
        ((extractTypeMm buf = mapmAdd ∧ ∃ index, addAssignment s.controlPlanes.length
            s.assignments ⟨extractEidMm buf, i⟩ = some (s'.assignments, index)) ∨
          (extractTypeMm buf ≠ mapmAdd ∧ removeAssignment s.controlPlanes.length
            s.assignments ⟨extractEidMm buf, i⟩ = some s'.assignments))) := by
  intro i
  by_cases hupdate : IsLocalUpdate buf
  · rw [step_mapMessage s socketDescriptor msgLen hupdate] at hstep
    obtain ⟨table, htable, rfl⟩ := Option.map_eq_some_iff.mp hstep
    rw [updateAssignments] at htable
    by_cases hregistered : i < s.controlPlanes.length
    · refine Or.inr ⟨hupdate, hregistered, ?_⟩
      rw [if_pos hregistered] at htable
      by_cases hadd : extractTypeMm buf = mapmAdd
      · rw [if_pos hadd] at htable
        obtain ⟨⟨table', index⟩, hresult, rfl⟩ := Option.map_eq_some_iff.mp htable
        exact Or.inl ⟨hadd, index, hresult⟩
      · rw [if_neg hadd, if_pos (hupdate.2.resolve_left hadd)] at htable
        exact Or.inr ⟨hadd, htable⟩
    · rw [if_neg hregistered] at htable
      exact Or.inl ⟨fun hboth => hregistered hboth.2, (Option.some_inj.mp htable).symm⟩
  · have hmsg : ¬ (msgLen : ℤ) < 0 := by omega
    rw [step, processMessage, if_neg hmsg, if_neg hupdate] at hstep
    refine Or.inl ⟨fun hboth => hupdate hboth.1, ?_⟩
    rw [← Option.some_inj.mp hstep]

/-- The registering server only takes assignments away. -/
theorem assignments_sublist_of_step (hstep : step s event = some s')
    (hserver : ∀ socketDescriptor buf msgLen,
      event ≠ .mapMessage socketDescriptor buf msgLen) :
    s'.assignments.Sublist s.assignments := by
  cases event with
  | register port =>
      rw [step] at hstep
      split at hstep
      · obtain rfl := Option.some_inj.mp hstep
        exact List.Sublist.refl _
      · obtain rfl := Option.some_inj.mp hstep
        exact List.Sublist.refl _
  | deregisterFirst port =>
      rw [step] at hstep
      split at hstep
      · obtain rfl := Option.some_inj.mp hstep
        exact List.Sublist.refl _
      · obtain rfl := Option.some_inj.mp hstep
        exact List.Sublist.refl _
  | deregisterSecond =>
      rw [step] at hstep
      split at hstep
      · obtain rfl := Option.some_inj.mp hstep
        exact List.Sublist.refl _
      next pending _ =>
        obtain rfl := Option.some_inj.mp hstep
        rw [deregisterAssignments]
        dsimp only
        split
        · split
          · rw [removeAssignee_eq]
            exact List.filter_sublist
          · exact List.Sublist.refl _
        · exact List.Sublist.refl _
  | mapMessage socketDescriptor buf msgLen =>
      exact absurd rfl (hserver socketDescriptor buf msgLen)

end Cases

end HyLisp.Hypervisor
