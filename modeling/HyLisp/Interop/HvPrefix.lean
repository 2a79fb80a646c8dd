import HyLisp.ControlPlane.Prefix
import HyLisp.Hypervisor.Eid

/-!
# EID prefixes of the control plane, as the hypervisor stores them

The control plane keeps an address of its family and a length counted in it; the
hypervisor keeps sixteen bytes and counts the length of a v4-mapped prefix from
the start of the mapping.
-/

namespace HyLisp.Interop

open ControlPlane DataPlane Hypervisor

/-- The address of an EID as the hypervisor stores it. -/
def hvAddress : Address → Vector UInt8 16
  | .inet addr => v4Mapped addr
  | .inet6 addr => addr

/-- What the hypervisor adds to a prefix length of the family. -/
def hvOffset : Address → UInt8
  | .inet _ => 96
  | .inet6 _ => 0

/-- A prefix of the control plane as the hypervisor stores it: IPv4 v4-mapped,
with 96 added to the length. -/
def hvPrefix (p : Prefix) : Ipv6Prefix where
  addr := hvAddress p.addr
  prefixLength := p.prefixlen + hvOffset p.addr
  reason := .prfxAsis

@[simp] theorem hvPrefix_reason (p : Prefix) : (hvPrefix p).reason = .prfxAsis := rfl

/-- A length inside the address width stays inside sixteen bytes. -/
theorem hvPrefix_length_le {p : Prefix} (h : p.prefixlen.toNat ≤ p.addr.width) :
    (hvPrefix p).prefixLength.toNat ≤ 128 := by
  obtain ⟨addr, prefixlen⟩ := p
  simp only [hvPrefix, UInt8.toNat_add]
  cases addr with
  | inet addr =>
      simp only [Address.width] at h
      simp only [hvOffset, UInt8.reduceToNat]
      omega
  | inet6 addr =>
      simp only [Address.width] at h
      simp only [hvOffset, UInt8.reduceToNat]
      omega

/-- The two values reserved by the hypervisor are the only irregular ones. -/
theorem hvPrefix_isRegular {p : Prefix} (h0 : p ≠ ⟨.inet6 zeroAddr, 0⟩)
    (h128 : p ≠ ⟨.inet6 zeroAddr, 128⟩) : (hvPrefix p).IsRegular := by
  obtain ⟨addr, prefixlen⟩ := p
  cases addr with
  | inet addr =>
      exact ⟨fun h => v4Mapped_ne_zeroAddr addr h.1,
        fun h => v4Mapped_ne_zeroAddr addr h.1⟩
  | inet6 addr =>
      have hlen : prefixlen + 0 = prefixlen := UInt8.add_zero prefixlen
      constructor
      · rintro ⟨haddr, hzero⟩
        simp only [hvPrefix, hvAddress, hvOffset, hlen] at haddr hzero
        exact h0 (by rw [haddr, hzero])
      · rintro ⟨haddr, hfull⟩
        simp only [hvPrefix, hvAddress, hvOffset, hlen] at haddr hfull
        exact h128 (by rw [haddr, hfull])

end HyLisp.Interop
