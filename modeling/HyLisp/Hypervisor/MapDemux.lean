import HyLisp.Hypervisor.Demux
import HyLisp.Hypervisor.ParseMessage

/-!
# The demuxer of map messages

A map message of the data plane is written to the socket of the plane its EID
belongs to, and to the sockets of all planes when there is no such plane.
-/

namespace HyLisp.Hypervisor

open LongestMatch

/-- `process_message` of the demuxer: the sockets the message is written to, with
no registration between its two looks at the array of planes.  `none` stands for
an access outside that array. -/
def demuxMessage (controlPlanes : List ControlPlane) (assignments : List Assignment)
    (buf : Mem) : Option (List ℕ) :=
  let r := sort controlPlanes.length assignments (extractEidMm buf)
  if r.code = .sortingOne then
    (r.controlPlaneIndex.bind fun i => controlPlanes[i]?).map fun cp =>
      [cp.socketDescriptor]
  else some (controlPlanes.map ControlPlane.socketDescriptor)

section Owner

variable {controlPlanes : List ControlPlane} {table : List Assignment}
  {eid : Ipv6Prefix} {owner owner' : ℕ}

/-- An EID has at most one owner. -/
theorem IsCoveringOwner.unique (h : IsCoveringOwner table eid owner)
    (h' : IsCoveringOwner table eid owner') : owner = owner' := by
  obtain ⟨key, hkey, howner, hlongest⟩ := h
  obtain ⟨key', hkey', howner', hlongest'⟩ := h'
  have hle : key.length ≤ key'.length :=
    hlongest' key hkey (Option.isSome_iff_exists.mpr ⟨owner, howner⟩)
  have hge : key'.length ≤ key.length :=
    hlongest key' hkey' (Option.isSome_iff_exists.mpr ⟨owner', howner'⟩)
  have hsame : key = key' :=
    (List.prefix_of_prefix_length_le hkey hkey' hle).eq_of_length (Nat.le_antisymm hle hge)
  rw [hsame, howner'] at howner
  exact (Option.some_inj.mp howner).symm

/-- The matcher designates the owner of the longest covering prefix. -/
theorem sort_of_isCoveringOwner (hplanes : controlPlanes ≠ []) (heid : eid.IsRegular)
    (hlen : eid.prefixLength.toNat ≤ 128) (howner : IsCoveringOwner table eid owner) :
    (sort controlPlanes.length table eid).code = .sortingOne ∧
      (sort controlPlanes.length table eid).controlPlaneIndex = some owner := by
  have hctr : controlPlanes.length ≠ 0 := mt List.length_eq_zero_iff.mp hplanes
  obtain ⟨hcode, hindex⟩ := @flexSort_of_isRegular _ table eid false hctr heid
    fun _ _ => Or.inl hlen
  cases hscan : scan (matchesEid false eid) Assignment.len table none with
  | none => exact absurd howner (not_covered_of_scan hlen hscan owner)
  | some entry =>
      rw [hscan] at hcode hindex
      have hentry := (isCoveringOwner_of_scan hlen hscan).unique howner
      exact ⟨hcode, hindex.trans (congrArg some hentry)⟩

/-- A map message goes to the plane that owns its EID, and to no other. -/
theorem demuxMessage_of_isCoveringOwner {buf : Mem} {cp : ControlPlane}
    (heid : (extractEidMm buf).IsRegular)
    (howner : IsCoveringOwner table (extractEidMm buf) owner)
    (hcp : controlPlanes[owner]? = some cp) :
    demuxMessage controlPlanes table buf = some [cp.socketDescriptor] := by
  have hplanes : controlPlanes ≠ [] := by
    rintro rfl
    cases hcp
  obtain ⟨hcode, hindex⟩ :=
    sort_of_isCoveringOwner hplanes heid (extractEidMm_length_le buf) howner
  unfold demuxMessage
  dsimp only
  rw [if_pos hcode, hindex, Option.bind_some, hcp, Option.map_some]

end Owner

end HyLisp.Hypervisor
