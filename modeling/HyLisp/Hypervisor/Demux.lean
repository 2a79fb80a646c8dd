import HyLisp.Hypervisor.ControlPlanes
import HyLisp.Hypervisor.ParseDatagram
import Mathlib.Logic.Relation

/-!
# The demuxer of control datagrams

A received datagram is injected again, towards the port of the control plane
its EID belongs to, of the default one, or of all of them.  The decision is made
on the EID alone; this module relates it to the type of the datagram behind its
encapsulations and to the prefixes that cover the EID.
-/

namespace HyLisp.Hypervisor

open LongestMatch

/-- `sockaddr_in`, with the fields an injection reads. -/
structure SockaddrIn where
  port : UInt16
  addr : Vector UInt8 4
  deriving DecidableEq, Repr

/-- `ipv4_datagram` -/
structure Ipv4Datagram where
  source : SockaddrIn
  destination : SockaddrIn
  payload : Mem
  payloadLen : ℕ

/-- The datagram towards another destination port. -/
def Ipv4Datagram.toPort (datagram : Ipv4Datagram) (port : UInt16) : Ipv4Datagram :=
  { datagram with destination := { datagram.destination with port := port } }

/-- `send_ipv4_datagram_to_all`: the datagrams injected. -/
def sendIpv4DatagramToAll (controlPlanes : List ControlPlane)
    (datagram : Ipv4Datagram) : List Ipv4Datagram :=
  controlPlanes.map fun cp => datagram.toPort cp.port

/-- `process_ipv4_datagram`: the datagrams injected, with no registration between
its two looks at the array of planes.  `none` stands for an access outside that
array. -/
def processIpv4Datagram (controlPlanes : List ControlPlane)
    (assignments : List Assignment) (datagram : Ipv4Datagram) :
    Option (List Ipv4Datagram) :=
  let significantEid := extractEidCp datagram.payload datagram.payloadLen
  let r := sort controlPlanes.length assignments significantEid
  let recipientPort := (r.controlPlaneIndex.bind fun i => controlPlanes[i]?).map
    ControlPlane.port
  match r.code with
  | .sortingOne => recipientPort.map fun port => [datagram.toPort port]
  | .sortingNon => recipientPort.map fun port => [datagram.toPort port]
  | .sortingAll => some (sendIpv4DatagramToAll controlPlanes datagram)
  | .sortingErr => some []

/-! ## Encapsulations -/

/-- A datagram carries another one behind the header of an encapsulation, an IP
header and a UDP header. -/
inductive Encapsulates : Mem × ℕ → Mem × ℕ → Prop
  | ipv4 {datagram : Mem} {len ihl : ℕ} (htype : packetType datagram = 8)
      (hversion : datagram 4 >>> 4 = 4) (hihl : (datagram 4 &&& 0x0F).toNat = ihl)
      (hlen : 4 + 4 * ihl + 8 < len) :
      Encapsulates (datagram, len)
        (datagram.advance (4 + 4 * ihl + 8), len - (4 + 4 * ihl + 8))
  | ipv6 {datagram : Mem} {len : ℕ} (htype : packetType datagram = 8)
      (hversion : datagram 4 >>> 4 = 6) (hlen : 4 + 40 + 8 < len) :
      Encapsulates (datagram, len)
        (datagram.advance (4 + 40 + 8), len - (4 + 40 + 8))

theorem ipVersion_eq (x : UInt8) : (x &&& 0xF0) >>> 4 = x >>> 4 := by
  have hall : ∀ n : Fin 256,
      (UInt8.ofFin n &&& 0xF0) >>> 4 = UInt8.ofFin n >>> 4 := by
    decide +kernel
  exact hall x.toFin

theorem innerOffset_ipv4 {datagram : Mem} (hversion : datagram 4 >>> 4 = 4) :
    innerOffset datagram = some (4 + 4 * (datagram 4 &&& 0x0F).toNat + 8) := by
  unfold innerOffset
  dsimp only
  rw [ipVersion_eq, if_pos hversion, Nat.mul_comm]

theorem innerOffset_ipv6 {datagram : Mem} (hversion : datagram 4 >>> 4 = 6) :
    innerOffset datagram = some (4 + 40 + 8) := by
  unfold innerOffset
  dsimp only
  rw [ipVersion_eq, hversion]
  rfl

theorem version_of_innerOffset {datagram : Mem} {offset : ℕ}
    (h : innerOffset datagram = some offset) :
    datagram 4 >>> 4 = 4 ∧ offset = 4 + 4 * (datagram 4 &&& 0x0F).toNat + 8 ∨
      datagram 4 >>> 4 = 6 ∧ offset = 4 + 40 + 8 := by
  by_cases h4 : datagram 4 >>> 4 = 4
  · rw [innerOffset_ipv4 h4, Option.some_inj] at h
    exact Or.inl ⟨h4, h.symm⟩
  by_cases h6 : datagram 4 >>> 4 = 6
  · rw [innerOffset_ipv6 h6, Option.some_inj] at h
    exact Or.inr ⟨h6, h.symm⟩
  · unfold innerOffset at h
    dsimp only at h
    rw [ipVersion_eq, if_neg h4, if_neg h6] at h
    cases h

/-- The EID of an encapsulation is the one of the datagram it carries. -/
theorem Encapsulates.extractEidCp_eq {outer inner : Mem × ℕ}
    (h : Encapsulates outer inner) :
    extractEidCp outer.1 outer.2 = extractEidCp inner.1 inner.2 := by
  cases h with
  | ipv4 htype hversion hihl hlen =>
      subst hihl
      rw [extractEidCp_encapsulated htype, innerOffset_ipv4 hversion]
      dsimp only
      rw [if_neg (by omega)]
  | ipv6 htype hversion hlen =>
      rw [extractEidCp_encapsulated htype, innerOffset_ipv6 hversion]
      dsimp only
      rw [if_neg (by omega)]

theorem extractEidCp_of_stripped {outer inner : Mem × ℕ}
    (h : Relation.ReflTransGen Encapsulates outer inner) :
    extractEidCp outer.1 outer.2 = extractEidCp inner.1 inner.2 := by
  induction h with
  | refl => rfl
  | tail _ hstep ih => rw [ih, hstep.extractEidCp_eq]

/-- What is neither a Map-Request, a Map-Reply nor a Map-Notify, and carries no
further datagram, has no EID. -/
theorem isUndefined_of_other {datagram : Mem} {len : ℕ}
    (h1 : packetType datagram ≠ 1) (h2 : packetType datagram ≠ 2)
    (h4 : packetType datagram ≠ 4)
    (hlast : ∀ inner, ¬ Encapsulates (datagram, len) inner) :
    (extractEidCp datagram len).IsUndefined := by
  by_cases h8 : packetType datagram = 8
  · rw [extractEidCp_encapsulated h8]
    cases hoffset : innerOffset datagram with
    | none => exact Ipv6Prefix.isUndefined_getUndefinedEid _
    | some offset =>
        have hlen : offset ≥ len := by
          by_contra hlt
          rcases version_of_innerOffset hoffset with ⟨hv4, rfl⟩ | ⟨hv6, rfl⟩
          · exact hlast _ (.ipv4 h8 hv4 rfl (by omega))
          · exact hlast _ (.ipv6 h8 hv6 (by omega))
        dsimp only
        rw [if_pos hlen]
        exact Ipv6Prefix.isUndefined_getUndefinedEid _
  · rw [extractEidCp_other h1 h2 h4 h8]
    exact Ipv6Prefix.isUndefined_getUndefinedEid _

/-! ## The owner of the longest covering prefix -/

/-- `owner` is the owner of the longest stored prefix that covers the EID. -/
def IsCoveringOwner (assignments : List Assignment) (eid : Ipv6Prefix)
    (owner : ℕ) : Prop :=
  ∃ key, key <+: eid.key ∧ exactOwner assignments key = some owner ∧
    ∀ key', key' <+: eid.key → (exactOwner assignments key').isSome →
      key'.length ≤ key.length

theorem exists_of_isSome_exactOwner {table : List Assignment} {key : List Bool}
    (h : (exactOwner table key).isSome) : ∃ e ∈ table, e.eid.key = key := by
  rw [exactOwner, Option.isSome_map, lastEntry, List.find?_isSome] at h
  obtain ⟨e, hmem, hkey⟩ := h
  exact ⟨e, List.mem_reverse.mp hmem, of_decide_eq_true hkey⟩

theorem matchesEid_sort {eid : Ipv6Prefix} (hlen : eid.prefixLength.toNat ≤ 128)
    (entry : Assignment) :
    matchesEid false eid entry = true ↔ entry.eid.key <+: eid.key := by
  rw [matchesEid, Ipv6Prefix.sanitize_of_le hlen]
  simp

theorem length_key_eq_len (entry : Assignment) :
    entry.eid.key.length = entry.len :=
  Ipv6Prefix.length_key entry.eid

section Covering

variable {table : List Assignment} {eid : Ipv6Prefix}

/-- The scan of the table finds the owner of the longest covering prefix. -/
theorem isCoveringOwner_of_scan (hlen : eid.prefixLength.toNat ≤ 128)
    {entry : Assignment}
    (hscan : scan (matchesEid false eid) Assignment.len table none = some entry) :
    IsCoveringOwner table eid entry.assigneeIndex := by
  have hlongest := scan_isLongest hscan
  have hcovers := (matchesEid_sort hlen entry).mp hlongest.matches_self
  refine ⟨entry.eid.key, hcovers, ?_, ?_⟩
  · -- entries of one length that cover one EID store one prefix
    have hsame : (fun a => matchesEid false eid a && a.len == entry.len) =
        fun a => decide (a.eid.key = entry.eid.key) := by
      funext a
      rw [Bool.eq_iff_iff, Bool.and_eq_true, matchesEid_sort hlen, beq_iff_eq,
        decide_eq_true_iff, ← length_key_eq_len, ← length_key_eq_len]
      constructor
      · rintro ⟨ha, hlength⟩
        exact (List.prefix_of_prefix_length_le ha hcovers hlength.le).eq_of_length
          hlength
      · intro hkey
        rw [hkey]
        exact ⟨hcovers, rfl⟩
    have hfind := find?_reverse_of_scan hscan
    rw [Option.or_none, hsame] at hfind
    rw [exactOwner, lastEntry, hfind, Option.map_some]
  · intro key' hkey' hsome
    obtain ⟨e, hmem, rfl⟩ := exists_of_isSome_exactOwner hsome
    rw [length_key_eq_len, length_key_eq_len]
    exact hlongest.longest e hmem ((matchesEid_sort hlen e).mpr hkey')

/-- When the scan finds nothing, no stored prefix covers the EID. -/
theorem not_covered_of_scan (hlen : eid.prefixLength.toNat ≤ 128)
    (hscan : scan (matchesEid false eid) Assignment.len table none = none)
    (owner : ℕ) : ¬ IsCoveringOwner table eid owner := by
  rintro ⟨key, hkey, howner, -⟩
  obtain ⟨e, hmem, rfl⟩ := exists_of_isSome_exactOwner
    (Option.isSome_iff_exists.mpr ⟨owner, howner⟩)
  have hmatch := (matchesEid_sort hlen e).mpr hkey
  rw [scan_eq_none_iff.mp hscan e hmem] at hmatch
  cases hmatch

end Covering

/-! ## Where a datagram goes -/

section Routes

variable {controlPlanes : List ControlPlane} {assignments : List Assignment}
  {datagram : Ipv4Datagram}

/-- A broadcast goes to every plane. -/
theorem processIpv4Datagram_of_isBroadcast (hplanes : controlPlanes ≠ [])
    (heid : (extractEidCp datagram.payload datagram.payloadLen).IsBroadcast) :
    processIpv4Datagram controlPlanes assignments datagram =
      some (sendIpv4DatagramToAll controlPlanes datagram) := by
  have hctr : controlPlanes.length ≠ 0 := mt List.length_eq_zero_iff.mp hplanes
  unfold processIpv4Datagram
  dsimp only
  rw [sort, flexSort_of_isBroadcast hctr heid]

/-- Without an EID a datagram goes nowhere. -/
theorem processIpv4Datagram_of_isUndefined
    (heid : (extractEidCp datagram.payload datagram.payloadLen).IsUndefined) :
    processIpv4Datagram controlPlanes assignments datagram = some [] := by
  unfold processIpv4Datagram
  dsimp only
  rw [sort, flexSort_of_isUndefined heid]

/-- A datagram with a regular EID goes to the plane that owns the longest
covering prefix, or to the first plane. -/
theorem processIpv4Datagram_of_isRegular (hplanes : controlPlanes ≠ [])
    (hindex : ∀ entry ∈ assignments,
      entry.assigneeIndex < controlPlanes.length)
    (heid : (extractEidCp datagram.payload datagram.payloadLen).IsRegular)
    (hlen : (extractEidCp datagram.payload
      datagram.payloadLen).prefixLength.toNat ≤ 128) :
    ∃ i cp, controlPlanes[i]? = some cp ∧
      processIpv4Datagram controlPlanes assignments datagram =
        some [datagram.toPort cp.port] ∧
      (IsCoveringOwner assignments
          (extractEidCp datagram.payload datagram.payloadLen) i ∨
        (∀ owner, ¬ IsCoveringOwner assignments
          (extractEidCp datagram.payload datagram.payloadLen) owner) ∧
          i = controlPlanesDef) := by
  have hctr : controlPlanes.length ≠ 0 := mt List.length_eq_zero_iff.mp hplanes
  obtain ⟨hcode, hsorted⟩ := @flexSort_of_isRegular _ assignments _ false hctr
    heid fun _ _ => Or.inl hlen
  unfold processIpv4Datagram
  dsimp only
  rw [sort, hcode, hsorted]
  cases hscan : scan (matchesEid false
      (extractEidCp datagram.payload datagram.payloadLen)) Assignment.len
      assignments none with
  | none =>
      have hdef : controlPlanesDef < controlPlanes.length :=
        Nat.pos_of_ne_zero hctr
      refine ⟨controlPlanesDef, controlPlanes[controlPlanesDef],
        List.getElem?_eq_getElem hdef, ?_,
        Or.inr ⟨not_covered_of_scan hlen hscan, rfl⟩⟩
      simp [hdef]
  | some entry =>
      have hlt := hindex entry (scan_isLongest hscan).mem
      refine ⟨entry.assigneeIndex, controlPlanes[entry.assigneeIndex],
        List.getElem?_eq_getElem hlt, ?_,
        Or.inl (isCoveringOwner_of_scan hlen hscan)⟩
      simp [hlt]

end Routes

end HyLisp.Hypervisor
