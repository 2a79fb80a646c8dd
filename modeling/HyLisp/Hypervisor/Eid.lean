import HyLisp.Support.BitString

/-!
# EID prefixes of the hypervisor

Every EID the hypervisor handles is an `ipv6_prefix`: sixteen address bytes, a
prefix length and the reason it was built for.  IPv4 EIDs are stored v4-mapped,
with 96 added to their length.  Two in-band values are reserved: `::/128` stands
for an undefined EID and `::/0` for a broadcast.
-/

namespace HyLisp.Hypervisor

open BitString

/-- The reason stored in a prefix. -/
inductive PrefixReason
  | prfxAsis
  | uprfxEmptyAfi
  | uprfxNoEid
  | uprfxUnknType
  | uprfxUnknVer
  | uprfxMalformed
  | uprfxUnknIp
  | bprfxMapReply
  | bprfxMapNotify
  deriving DecidableEq, Repr

/-- `ipv6_prefix` -/
structure Ipv6Prefix where
  addr : Vector UInt8 16
  prefixLength : UInt8
  reason : PrefixReason
  deriving DecidableEq, Repr

/-- The all-zero address. -/
def zeroAddr : Vector UInt8 16 :=
  Vector.replicate 16 0

/-- `get_undefined_eid` -/
def getUndefinedEid (reason : PrefixReason) : Ipv6Prefix :=
  ⟨zeroAddr, 128, reason⟩

/-- `get_broadcast_eid` -/
def getBroadcastEid (reason : PrefixReason) : Ipv6Prefix :=
  ⟨zeroAddr, 0, reason⟩

namespace Ipv6Prefix

/-- The prefix an EID denotes: its leading bits, as many as its length says. -/
def key (eid : Ipv6Prefix) : List Bool :=
  leading (Mem.ofVector eid.addr) eid.prefixLength.toNat

@[simp] theorem length_key (eid : Ipv6Prefix) :
    eid.key.length = eid.prefixLength.toNat := by
  simp [key]

/-- `::/0`, which the matcher takes for a broadcast. -/
def IsBroadcast (eid : Ipv6Prefix) : Prop :=
  eid.addr = zeroAddr ∧ eid.prefixLength = 0

/-- `::/128`, which the matcher takes for an undefined EID. -/
def IsUndefined (eid : Ipv6Prefix) : Prop :=
  eid.addr = zeroAddr ∧ eid.prefixLength = 128

instance (eid : Ipv6Prefix) : Decidable eid.IsBroadcast :=
  inferInstanceAs (Decidable (_ ∧ _))

instance (eid : Ipv6Prefix) : Decidable eid.IsUndefined :=
  inferInstanceAs (Decidable (_ ∧ _))

/-- An EID that is neither of the two in-band values. -/
def IsRegular (eid : Ipv6Prefix) : Prop :=
  ¬ eid.IsBroadcast ∧ ¬ eid.IsUndefined

instance (eid : Ipv6Prefix) : Decidable eid.IsRegular :=
  inferInstanceAs (Decidable (¬ _ ∧ ¬ _))

theorem isUndefined_getUndefinedEid (reason : PrefixReason) :
    (getUndefinedEid reason).IsUndefined :=
  ⟨rfl, rfl⟩

theorem isBroadcast_getBroadcastEid (reason : PrefixReason) :
    (getBroadcastEid reason).IsBroadcast :=
  ⟨rfl, rfl⟩

theorem not_isBroadcast_of_isUndefined {eid : Ipv6Prefix}
    (h : eid.IsUndefined) : ¬ eid.IsBroadcast := by
  intro hb
  have hlen : (128 : UInt8) = 0 := h.2.symm.trans hb.2
  exact absurd hlen (by decide)

end Ipv6Prefix

/-! ## IPv4 EIDs as v4-mapped prefixes -/

/-- An IPv4 address saved as an IPv4-mapped IPv6 address: ten zero bytes, two
bytes `0xFF`, then the four address bytes. -/
def v4Mapped (addr : Vector UInt8 4) : Vector UInt8 16 :=
  #v[0, 0, 0, 0, 0, 0, 0, 0, 0, 0, 0xFF, 0xFF,
    addr[0], addr[1], addr[2], addr[3]]

theorem v4Mapped_ne_zeroAddr (addr : Vector UInt8 4) :
    v4Mapped addr ≠ zeroAddr := by
  intro h
  have hbyte : (v4Mapped addr)[10] = zeroAddr[10] := by rw [h]
  exact absurd hbyte (by simp [v4Mapped, zeroAddr])

theorem v4Mapped_injective {a b : Vector UInt8 4}
    (h : v4Mapped a = v4Mapped b) : a = b := by
  have hbyte : ∀ i (hi : i < 16), (v4Mapped a)[i] = (v4Mapped b)[i] := by
    simp [h]
  have h0 := hbyte 12 (by omega)
  have h1 := hbyte 13 (by omega)
  have h2 := hbyte 14 (by omega)
  have h3 := hbyte 15 (by omega)
  simp only [v4Mapped, Vector.getElem_mk, List.getElem_toArray] at h0 h1 h2 h3
  ext i hi
  match i, hi with
  | 0, _ => exact congrArg UInt8.toNat h0
  | 1, _ => exact congrArg UInt8.toNat h1
  | 2, _ => exact congrArg UInt8.toNat h2
  | 3, _ => exact congrArg UInt8.toNat h3

end HyLisp.Hypervisor
