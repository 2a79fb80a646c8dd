import HyLisp.Hypervisor.Distinct

/-!
# Messages that the data plane rejects

The muxer changes the assignments before it writes a message to the mapping socket, and
looks at the outcome of the write only to report it.  A rejected message leaves the table
that an accepted one leaves: the one before, as long as the message asks for nothing new.
-/

namespace HyLisp.Hypervisor

open DataPlane

/-- `errno` after a failed write, as far as `process_message` tells the values apart. -/
inductive Errno
  | einval
  | esrch
  | ebusy
  | enobufs
  | eexist
  | other (code : ℤ)
  deriving DecidableEq, Repr

/-- The values that are not expected, and make `process_message` warn. -/
def Errno.IsUnexpected : Errno → Bool
  | .other _ => true
  | _ => false

/-- What `write` on the mapping socket returns: a number of bytes, or -1. -/
inductive WriteResult
  | written
  | failed (errno : Errno)
  deriving DecidableEq, Repr

/-- What `process_message` leaves behind: the assignments, whether it warns of the
write, and the error that it reports. -/
structure MuxOutcome where
  assignments : List Assignment
  warning : Bool
  reported : Option Errno

/-- `process_message` of the muxer, with the result of the write. -/
def muxMessage (controlPlanes : List ControlPlane) (assignments : List Assignment)
    (socketDescriptor : ℕ) (buf : Mem) (msgLen : ℤ) (r : WriteResult) : Option MuxOutcome :=
  (processMessage controlPlanes assignments socketDescriptor buf msgLen).map
    fun (assignments, written) =>
      match written, r with
      | some _, .failed errno => ⟨assignments, errno.IsUnexpected, some errno⟩
      | _, _ => ⟨assignments, false, none⟩

/-- An addition that changes nothing: of an undefined EID, or of a stored prefix where
the entry that is overwritten has the owner already. -/
def KeptByAddition (table : List Assignment) (item : Assignment) : Prop :=
  ¬ item.eid.IsBroadcast ∧
    (item.eid.IsRegular → ∃ last written, lastEntry table item.eid.key = some last ∧
      table[last.assigneeIndex]? = some written ∧
      written.assigneeIndex = item.assigneeIndex)

/-- A removal that changes nothing: of an EID that is no prefix, of a prefix that is not
stored, or of one where the entry looked at has another owner. -/
def KeptByRemoval (table : List Assignment) (item : Assignment) : Prop :=
  item.eid.IsRegular → ∀ last, lastEntry table item.eid.key = some last →
    ∃ present, table[last.assigneeIndex]? = some present ∧
      item.assigneeIndex ≠ present.assigneeIndex

/-- The message is not for the assignments, or not from a registered plane, or asks for
an addition or a removal that changes nothing. -/
def KeepsTable (controlPlanes : List ControlPlane) (table : List Assignment)
    (socketDescriptor : ℕ) (buf : Mem) : Prop :=
  let i := findDescriptor controlPlanes socketDescriptor
  IsLocalUpdate buf → i < controlPlanes.length →
    if extractTypeMm buf = mapmAdd then KeptByAddition table ⟨extractEidMm buf, i⟩
    else KeptByRemoval table ⟨extractEidMm buf, i⟩

section Kept

variable {controlPlanesCtr : ℕ} {table : List Assignment} {item : Assignment}

/-- Overwriting an owner changes nothing exactly when the owner is the same. -/
theorem modify_eq_self_iff {k owner : ℕ} {entry : Assignment}
    (hentry : table[k]? = some entry) :
    (table.modify k fun stored => { stored with assigneeIndex := owner }) = table ↔
      entry.assigneeIndex = owner := by
  constructor
  · intro hsame
    have hget := congrArg (fun t : List Assignment => t[k]?) hsame
    rw [List.getElem?_modify_eq, hentry] at hget
    exact (congrArg Assignment.assigneeIndex (Option.some_inj.mp hget)).symm
  · rintro rfl
    apply List.ext_getElem?
    intro j
    rw [List.getElem?_modify]
    by_cases hj : k = j
    · subst hj
      simp [hentry]
    · simp [hj]

theorem addAssignment_keeps_iff (hctr : controlPlanesCtr ≠ 0)
    (hlen : item.eid.prefixLength.toNat ≤ 128) :
    (addAssignment controlPlanesCtr table item).map Prod.fst = some table ↔
      KeptByAddition table item := by
  by_cases hbroadcast : item.eid.IsBroadcast
  · rw [addAssignment_of_isBroadcast hctr hbroadcast]
    exact iff_of_false (by simp) fun hkept => hkept.1 hbroadcast
  by_cases hundefined : item.eid.IsUndefined
  · rw [addAssignment_of_isUndefined hundefined]
    exact iff_of_true rfl ⟨hbroadcast, fun hregular => absurd hundefined hregular.2⟩
  have hregular : item.eid.IsRegular := ⟨hbroadcast, hundefined⟩
  cases hlast : lastEntry table item.eid.key with
  | none =>
      rw [addAssignment_of_notMem hctr hregular hlen (lastEntry_eq_none_iff.mp hlast)]
      refine iff_of_false (by simp) fun hkept => ?_
      obtain ⟨last, -, hsome, -⟩ := hkept.2 hregular
      rw [hlast] at hsome
      cases hsome
  | some last =>
      rw [addAssignment_of_lastEntry hctr hregular hlen hlast]
      constructor
      · intro hkeeps
        refine ⟨hbroadcast, fun _ => ?_⟩
        split at hkeeps
        next hlt =>
          have hwritten := List.getElem?_eq_getElem hlt
          exact ⟨last, _, hlast, hwritten,
            (modify_eq_self_iff hwritten).mp (Option.some_inj.mp hkeeps)⟩
        · cases hkeeps
      · intro hkept
        obtain ⟨last', written, hlast', hwritten, howner⟩ := hkept.2 hregular
        obtain rfl := Option.some_inj.mp (hlast.symm.trans hlast')
        rw [if_pos (List.getElem?_eq_some_iff.mp hwritten).1, Option.map_some]
        exact congrArg some ((modify_eq_self_iff hwritten).mpr howner)

theorem removeAssignment_keeps_iff (hctr : controlPlanesCtr ≠ 0)
    (hlen : item.eid.prefixLength.toNat ≤ 128) :
    removeAssignment controlPlanesCtr table item = some table ↔
      KeptByRemoval table item := by
  by_cases hregular : item.eid.IsRegular
  · cases hlast : lastEntry table item.eid.key with
    | none =>
        rw [removeAssignment_of_notMem hctr hregular hlen (lastEntry_eq_none_iff.mp hlast)]
        refine iff_of_true rfl fun _ last hsome => ?_
        rw [hlast] at hsome
        cases hsome
    | some last =>
        rw [removeAssignment_of_lastEntry hctr hregular hlen hlast]
        constructor
        · intro hkeeps _ last' hlast'
          obtain rfl := Option.some_inj.mp (hlast.symm.trans hlast')
          obtain ⟨present, hpresent, hresult⟩ := Option.bind_eq_some_iff.mp hkeeps
          refine ⟨present, hpresent, fun howner => ?_⟩
          rw [if_neg (not_not_intro howner)] at hresult
          have hlt := (List.getElem?_eq_some_iff.mp hpresent).1
          have hshorter := List.length_eraseIdx_of_lt hlt
          rw [Option.some_inj.mp hresult] at hshorter
          omega
        · intro hkept
          obtain ⟨present, hpresent, howner⟩ := hkept hregular last hlast
          rw [hpresent, Option.bind_some, if_pos howner]
  · refine iff_of_true ?_ fun hreg => absurd hreg hregular
    by_cases hbroadcast : item.eid.IsBroadcast
    · rw [removeAssignment, exactSort, flexSort_of_isBroadcast hctr hbroadcast]
    · have hundefined : item.eid.IsUndefined := by
        by_contra hdefined
        exact hregular ⟨hbroadcast, hdefined⟩
      rw [removeAssignment, exactSort, flexSort_of_isUndefined hundefined]

theorem updateAssignments_keeps_iff {type : UInt16}
    (htype : type = mapmAdd ∨ type = mapmDelete)
    (hlen : item.eid.prefixLength.toNat ≤ 128) :
    updateAssignments controlPlanesCtr table type item = some table ↔
      (item.assigneeIndex < controlPlanesCtr →
        if type = mapmAdd then KeptByAddition table item else KeptByRemoval table item) := by
  rw [updateAssignments]
  by_cases hregistered : item.assigneeIndex < controlPlanesCtr
  · have hctr : controlPlanesCtr ≠ 0 := by omega
    rw [if_pos hregistered, imp_iff_right hregistered]
    by_cases hadd : type = mapmAdd
    · rw [if_pos hadd, if_pos hadd]
      exact addAssignment_keeps_iff hctr hlen
    · rw [if_neg hadd, if_neg hadd, if_pos (htype.resolve_left hadd)]
      exact removeAssignment_keeps_iff hctr hlen
  · rw [if_neg hregistered]
    exact iff_of_true rfl fun hlt => absurd hlt hregistered

end Kept

section Rejected

variable (controlPlanes : List ControlPlane) (table : List Assignment)
  (socketDescriptor : ℕ) (buf : Mem)

/-- The result of the write plays no part in what happens to the table. -/
theorem assignments_muxMessage (msgLen : ℤ) (r : WriteResult) :
    (muxMessage controlPlanes table socketDescriptor buf msgLen r).map
        MuxOutcome.assignments =
      (processMessage controlPlanes table socketDescriptor buf msgLen).map Prod.fst := by
  rw [muxMessage, Option.map_map]
  congr 1
  funext ⟨assignments, written⟩
  cases written <;> cases r <;> rfl

/-- A message that the data plane rejects leaves the same table as one that it accepts,
and the table before it exactly when the message asks for nothing new. -/
theorem rejected_iff_keepsTable (msgLen : ℕ) (errno : Errno) :
    (muxMessage controlPlanes table socketDescriptor buf msgLen (.failed errno)).map
        MuxOutcome.assignments =
      (muxMessage controlPlanes table socketDescriptor buf msgLen .written).map
        MuxOutcome.assignments ∧
    ((muxMessage controlPlanes table socketDescriptor buf msgLen (.failed errno)).map
        MuxOutcome.assignments = some table ↔
      KeepsTable controlPlanes table socketDescriptor buf) := by
  rw [assignments_muxMessage, assignments_muxMessage]
  refine ⟨rfl, ?_⟩
  rw [processMessage, if_neg (by omega)]
  dsimp only
  rw [Option.map_map]
  by_cases hlocal : IsLocalUpdate buf
  · rw [if_pos hlocal, KeepsTable, imp_iff_right hlocal]
    have hiff := @updateAssignments_keeps_iff controlPlanes.length table
      ⟨extractEidMm buf, findDescriptor controlPlanes socketDescriptor⟩ _ hlocal.2
      (extractEidMm_length_le buf)
    rw [← hiff]
    exact Eq.congr (Option.map_id' ..) rfl
  · rw [if_neg hlocal]
    exact iff_of_true rfl fun h => absurd h hlocal

end Rejected

/-- The data plane is busy when a plane adds `10.0.0.0/8`, and the table holds it. -/
theorem rejected_addition_stays :
    ¬ ∀ controlPlanes table socketDescriptor buf (msgLen : ℕ) errno,
      (muxMessage controlPlanes table socketDescriptor buf msgLen (.failed errno)).map
        MuxOutcome.assignments = some table := by
  intro h
  have hstays := h [⟨0, 0, 4343⟩] [] 0 (tenMessage 1) 60 .ebusy
  rw [assignments_muxMessage] at hstays
  have hadded : (processMessage [⟨0, 0, 4343⟩] [] 0 (tenMessage 1) (60 : ℕ)).map
      (fun result => result.1.length) = some 1 := by
    decide +kernel
  obtain ⟨result, hresult, hlength⟩ := Option.map_eq_some_iff.mp hadded
  rw [hresult] at hstays
  rw [Option.some_inj.mp hstays] at hlength
  cases hlength

end HyLisp.Hypervisor
