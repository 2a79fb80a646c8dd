import HyLisp.Hypervisor.LongestPrefixMatch
import HyLisp.Interop.RequestRouting

/-!
# Mask lengths of IPv4 requests

The hypervisor adds 96 to the mask length of an IPv4 EID when it parses a Map-Request,
and cuts lengths above 128 when it compares prefixes.  The sum is made in eight bits, so
that a mask length of 160 or more comes out as a short prefix before it can be cut.
-/

namespace HyLisp.Interop

open ControlPlane DataPlane Hypervisor LongestMatch

/-- The same result, and the same plane. -/
def SameAnswer (a b : SortOutcome) : Prop :=
  a.code = b.code ∧ a.controlPlaneIndex = b.controlPlaneIndex

/-- The v4-mapped prefix of an IPv4 address and a mask length, a host at most. -/
def clampedEid (addr : Vector UInt8 4) (mask : UInt8) : Ipv6Prefix :=
  ⟨v4Mapped addr, .ofNat (min (96 + mask.toNat) 128), .prfxAsis⟩

/-- However it is encapsulated, a Map-Request with the address and the mask length in
its first record is answered as the v4-mapped prefix is, by every table; and as a request
for the host if the mask is longer than the address. -/
def ClampsMask (r : MapRequest) (addr : Vector UInt8 4) (mask : UInt8) : Prop :=
  ∀ outer inner : Mem × ℕ, Relation.ReflTransGen Encapsulates outer inner →
    Mem.Holds inner.1 (r.toBytesFor ⟨.inet addr, mask⟩) →
    (r.toBytesFor ⟨.inet addr, mask⟩).length ≤ inner.2 →
    ∀ controlPlanesCtr table, LengthsBounded table →
      SameAnswer (sort controlPlanesCtr table (extractEidCp outer.1 outer.2))
        (sort controlPlanesCtr table (clampedEid addr mask)) ∧
      (32 ≤ mask.toNat →
        SameAnswer (sort controlPlanesCtr table (extractEidCp outer.1 outer.2))
          (sort controlPlanesCtr table (clampedEid addr 32)))

section Clamp

variable {addr : Vector UInt8 4} {mask : UInt8} {controlPlanesCtr : ℕ}
  {table : List Assignment}

theorem isRegular_of_v4Mapped {eid : Ipv6Prefix} (h : eid.addr = v4Mapped addr) :
    eid.IsRegular :=
  ⟨fun hzero => v4Mapped_ne_zeroAddr addr (h.symm.trans hzero.1),
    fun hzero => v4Mapped_ne_zeroAddr addr (h.symm.trans hzero.1)⟩

/-- EIDs that are cut to the same prefix are answered alike. -/
theorem sameAnswer_of_sanitize (hlen : LengthsBounded table) {eid eid' : Ipv6Prefix}
    (hregular : eid.IsRegular) (hregular' : eid'.IsRegular)
    (hsame : eid.sanitize.key = eid'.sanitize.key) :
    SameAnswer (sort controlPlanesCtr table eid) (sort controlPlanesCtr table eid') := by
  by_cases hctr : controlPlanesCtr = 0
  · rw [sort, sort, flexSort, flexSort, if_pos hctr, if_pos hctr]
    exact ⟨rfl, rfl⟩
  have hmatch : matchesEid false eid = matchesEid false eid' := by
    funext entry
    rw [matchesEid, matchesEid, hsame]
    rfl
  have hanswer : ∀ {e : Ipv6Prefix}, e.IsRegular → _ := fun {e} he =>
    @flexSort_of_isRegular _ table e false hctr he
      fun entry hentry => Or.inr (hlen entry hentry)
  obtain ⟨hcode, hindex⟩ := hanswer hregular
  obtain ⟨hcode', hindex'⟩ := hanswer hregular'
  rw [hmatch] at hcode hindex
  exact ⟨hcode.trans hcode'.symm, hindex.trans hindex'.symm⟩

/-- Below 160 the sum stays in its byte. -/
theorem key_sanitize_hvPrefix (hmask : mask.toNat < 160) :
    (hvPrefix ⟨.inet addr, mask⟩).sanitize.key = (clampedEid addr mask).sanitize.key := by
  have hsum : (mask + 96).toNat = mask.toNat + 96 := by
    rw [UInt8.toNat_add]
    simp only [UInt8.reduceToNat]
    omega
  have hclamped : (UInt8.ofNat (min (96 + mask.toNat) 128)).toNat =
      min (96 + mask.toNat) 128 := by
    rw [UInt8.toNat_ofNat']
    omega
  rw [Ipv6Prefix.key, Ipv6Prefix.key, Ipv6Prefix.toNat_sanitize,
    Ipv6Prefix.toNat_sanitize, Ipv6Prefix.sanitize_addr, Ipv6Prefix.sanitize_addr]
  simp only [hvPrefix, hvAddress, hvOffset, clampedEid, hsum, hclamped]
  congr 1
  omega

theorem clampedEid_of_le (hmask : 32 ≤ mask.toNat) :
    clampedEid addr mask = clampedEid addr 32 := by
  rw [clampedEid, clampedEid, Nat.min_eq_right (by omega), Nat.min_eq_right (by decide)]

theorem prefixLength_clampedEid (addr : Vector UInt8 4) (hmask : 32 ≤ mask.toNat) :
    (clampedEid addr mask).prefixLength = 128 := by
  rw [clampedEid_of_le hmask]
  rfl

theorem lengthsBounded_host (addr : Vector UInt8 4) (hmask : 32 ≤ mask.toNat) :
    LengthsBounded [⟨clampedEid addr mask, 0⟩] := by
  intro entry hentry
  obtain rfl := List.mem_singleton.mp hentry
  exact (congrArg UInt8.toNat (prefixLength_clampedEid addr hmask)).le

/-- From 160 on the host does not cover any more what is looked up. -/
theorem not_sameAnswer_of_le (hmask : 160 ≤ mask.toNat) :
    ¬ SameAnswer (sort 1 [⟨clampedEid addr mask, 0⟩] (hvPrefix ⟨.inet addr, mask⟩))
      (sort 1 [⟨clampedEid addr mask, 0⟩] (clampedEid addr mask)) := by
  have hhost := prefixLength_clampedEid addr (show 32 ≤ mask.toNat by omega)
  have hbounded := lengthsBounded_host addr (show 32 ≤ mask.toNat by omega)
  have hwrapped : (hvPrefix ⟨.inet addr, mask⟩).prefixLength.toNat < 96 := by
    have hlt := mask.toNat_lt
    simp only [hvPrefix, hvOffset, UInt8.toNat_add, UInt8.reduceToNat]
    omega
  have hregular : (hvPrefix ⟨.inet addr, mask⟩).IsRegular := isRegular_of_v4Mapped rfl
  have hregular' : (clampedEid addr mask).IsRegular := isRegular_of_v4Mapped rfl
  intro hsame
  rcases sort_cases one_ne_zero hbounded hregular with
    ⟨entry, hlongest, -⟩ | ⟨-, hdefault⟩
  · obtain rfl := List.mem_singleton.mp hlongest.mem
    have hcovers := (of_decide_eq_true hlongest.matches_self).1
    rw [Assignment.len, hhost] at hcovers
    simp only [UInt8.reduceToNat] at hcovers
    omega
  · rcases sort_cases one_ne_zero hbounded hregular' with
      ⟨entry, -, hdesignates⟩ | ⟨hnone, -⟩
    · have hcode := hsame.1
      rw [hdefault.1, hdesignates.1] at hcode
      cases hcode
    · refine hnone _ List.mem_cons_self ⟨?_, fun _ _ => rfl⟩
      rw [Assignment.len, hhost]
      decide

theorem not_clampsMask_of_le (r : MapRequest) (hmask : 160 ≤ mask.toNat) :
    ¬ ClampsMask r addr mask := by
  intro h
  have hholds := Mem.holds_ofList (r.toBytesFor ⟨.inet addr, mask⟩) fun _ => 0
  have hbounded := lengthsBounded_host addr (show 32 ≤ mask.toNat by omega)
  have hanswer := (h (Mem.ofList (r.toBytesFor ⟨.inet addr, mask⟩) fun _ => 0,
    (r.toBytesFor ⟨.inet addr, mask⟩).length) _ .refl hholds le_rfl 1 _ hbounded).1
  rw [extractEidCp_of_holdsFor hholds le_rfl] at hanswer
  exact not_sameAnswer_of_le hmask hanswer

end Clamp

/-- The mask length of an IPv4 request is cut as it should be exactly below 160. -/
theorem clampsMask_iff (r : MapRequest) (addr : Vector UInt8 4) (mask : UInt8) :
    ClampsMask r addr mask ↔ mask.toNat < 160 := by
  constructor
  · intro h
    by_contra hge
    exact not_clampsMask_of_le r (Nat.not_lt.mp hge) h
  · intro hmask outer inner hinner hholds hlen controlPlanesCtr table hbounded
    have heid : extractEidCp outer.1 outer.2 = hvPrefix ⟨.inet addr, mask⟩ :=
      (extractEidCp_of_stripped hinner).trans (extractEidCp_of_holdsFor hholds hlen)
    rw [heid]
    have hanswer : SameAnswer
        (sort controlPlanesCtr table (hvPrefix ⟨.inet addr, mask⟩))
        (sort controlPlanesCtr table (clampedEid addr mask)) :=
      sameAnswer_of_sanitize hbounded (isRegular_of_v4Mapped rfl)
        (isRegular_of_v4Mapped rfl) (key_sanitize_hvPrefix hmask)
    exact ⟨hanswer, fun hle => clampedEid_of_le hle ▸ hanswer⟩

/-- A mask length of 160 makes a request for `10.1.2.0` one for everything. -/
theorem not_clampsMask_wrapped : ¬ ∀ r addr mask, ClampsMask r addr mask :=
  fun h => not_clampsMask_of_le tenRequest (by decide) (h tenRequest #v[10, 1, 2, 0] 160)

end HyLisp.Interop
