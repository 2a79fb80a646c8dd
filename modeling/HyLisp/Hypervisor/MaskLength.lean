import HyLisp.Hypervisor.LongestPrefixMatch

/-!
# Masks as prefix lengths

`process_eid_ipv4` and `process_eid_ipv6` turn a mask into a prefix length.  A mask need
not be contiguous: the length counts the ones in front of its first zero.  It is at most
128, so that the matcher reads no byte behind the sixteen of a stored prefix.
-/

namespace HyLisp.Hypervisor

open BitString DataPlane Transition

/-! ## The loops over a mask -/

/-- The inner loop looks at seven bits, which is enough for a byte with a zero. -/
theorem countMaskBits_eq_leadingOnes {byte : UInt8} (hbyte : byte ≠ 0xFF) :
    countMaskBits byte 7 0x80 = leadingOnes (byteBits byte) := by
  have hall : ∀ b : BitVec 8, UInt8.ofBitVec b ≠ 0xFF →
      countMaskBits (UInt8.ofBitVec b) 7 0x80 = leadingOnes (byteBits (UInt8.ofBitVec b)) := by
    decide +kernel
  exact hall byte.toBitVec hbyte

/-- From byte `i` on, with `n` bytes left, the loop adds the leading ones of the rest. -/
theorem maskToLength_eq_leadingOnes (mask : Mem) {base i n : ℕ}
    (hroom : base + 8 * (i + n) = 128) :
    maskToLength mask base i n =
      base + 8 * i + leadingOnes (leading (mask.advance i) (8 * n)) := by
  induction n generalizing i with
  | zero => exact hroom.symm
  | succ n ih =>
      rw [maskToLength, leading_succ_byte, leadingOnes_append, Mem.advance_advance,
        show mask.advance i 0 = mask i from rfl]
      by_cases hfull : mask i = 0xFF
      · rw [if_pos hfull, if_pos (all_byteBits.mpr hfull), ih (by omega), length_byteBits]
        omega
      · rw [if_neg hfull, if_neg fun h => hfull (all_byteBits.mp h),
          countMaskBits_eq_leadingOnes hfull]

/-- The mask behind an IPv4 EID: `sin_addr` of the sockaddr that follows it. -/
def ipv4Mask (rawEid : Mem) : Mem :=
  (rawEid.advance (ssSize (rawEid 0))).advance 4

/-- The mask behind an IPv6 EID: `sin6_addr` of the sockaddr that follows it. -/
def ipv6Mask (rawEid : Mem) : Mem :=
  (rawEid.advance (ssSize (rawEid 0))).advance 8

theorem prefixLength_processEidIpv4 (rawEid : Mem) :
    (processEidIpv4 rawEid true).prefixLength.toNat =
      96 + leadingOnes (leading (ipv4Mask rawEid) 32) := by
  have hlen := maskToLength_eq_leadingOnes (ipv4Mask rawEid) (show 96 + 8 * (0 + 4) = 128 by rfl)
  have hle := maskToLength_le (ipv4Mask rawEid) (show 96 + 8 * (0 + 4) ≤ 128 by rfl)
  calc
    (processEidIpv4 rawEid true).prefixLength.toNat =
        (UInt8.ofNat (maskToLength (ipv4Mask rawEid) 96 0 4)).toNat := rfl
    _ = maskToLength (ipv4Mask rawEid) 96 0 4 := toNat_ofNat_of_le hle
    _ = 96 + leadingOnes (leading (ipv4Mask rawEid) 32) := by
      rw [hlen, Mem.advance_zero]

theorem prefixLength_processEidIpv6 (rawEid : Mem) :
    (processEidIpv6 rawEid true).prefixLength.toNat =
      leadingOnes (leading (ipv6Mask rawEid) 128) := by
  have hlen := maskToLength_eq_leadingOnes (ipv6Mask rawEid) (show 0 + 8 * (0 + 16) = 128 by rfl)
  have hle := maskToLength_le (ipv6Mask rawEid) (show 0 + 8 * (0 + 16) ≤ 128 by rfl)
  calc
    (processEidIpv6 rawEid true).prefixLength.toNat =
        (UInt8.ofNat (maskToLength (ipv6Mask rawEid) 0 0 16)).toNat := rfl
    _ = maskToLength (ipv6Mask rawEid) 0 0 16 := toNat_ofNat_of_le hle
    _ = leadingOnes (leading (ipv6Mask rawEid) 128) := by
      rw [hlen, Mem.advance_zero, Nat.mul_zero, Nat.add_zero, Nat.zero_add]

/-! ## The bytes that the matcher reads -/

/-- The offsets into the addresses that `flex_sort` reads for a stored prefix: the whole
bytes, and the byte of the leftover bits if there are any. -/
def matcherReads (stored : Ipv6Prefix) : List ℕ :=
  let wholeBytes := stored.prefixLength.toNat / 8
  let leftBits := stored.prefixLength.toNat % 8
  List.range wholeBytes ++ if leftBits = 0 then [] else [wholeBytes]

theorem matcherReads_lt {stored : Ipv6Prefix} (hlen : stored.prefixLength.toNat ≤ 128) :
    ∀ i ∈ matcherReads stored, i < 16 := by
  intro i hi
  rcases List.mem_append.mp hi with hwhole | hleft
  · have hlt := List.mem_range.mp hwhole
    omega
  · split at hleft
    · cases hleft
    · obtain rfl := List.mem_singleton.mp hleft
      omega

/-- The comparison depends on these bytes only. -/
theorem leadingBytesMatch_congr {significant significant' stored : Ipv6Prefix}
    (h : ∀ i ∈ matcherReads stored,
      Mem.ofVector significant.addr i = Mem.ofVector significant'.addr i) :
    leadingBytesMatch significant stored = leadingBytesMatch significant' stored := by
  have hwhole : ∀ i < stored.prefixLength.toNat / 8,
      Mem.ofVector significant.addr i = Mem.ofVector significant'.addr i :=
    fun i hi => h i (List.mem_append_left _ (List.mem_range.mpr hi))
  have hsame : Mem.sameBytes (Mem.ofVector significant.addr) (Mem.ofVector stored.addr)
        (stored.prefixLength.toNat / 8) =
      Mem.sameBytes (Mem.ofVector significant'.addr) (Mem.ofVector stored.addr)
        (stored.prefixLength.toNat / 8) := by
    rw [Bool.eq_iff_iff, Mem.sameBytes_iff, Mem.sameBytes_iff]
    exact forall₂_congr fun i hi => by rw [hwhole i hi]
  rw [leadingBytesMatch, leadingBytesMatch, hsame]
  by_cases hleft : stored.prefixLength.toNat % 8 = 0
  · rw [hleft]
    rfl
  · have hbyte : stored.prefixLength.toNat / 8 ∈ matcherReads stored := by
      rw [matcherReads, if_neg hleft]
      exact List.mem_append_right _ List.mem_cons_self
    rw [h _ hbyte]

/-- Of every mask, contiguous or not, the leading ones are counted, after the 96 bits of
the mapping for IPv4.  Such a length is at most 128, and in every state that is reached
the matcher stays inside of the stored prefixes: two addresses that agree in the bytes it
reads compare alike. -/
theorem processEid_leadingOnes :
    (∀ rawEid, (processEidIpv4 rawEid true).prefixLength.toNat =
        96 + leadingOnes (leading (ipv4Mask rawEid) 32) ∧
      (processEidIpv4 rawEid true).prefixLength.toNat ≤ 128) ∧
    (∀ rawEid, (processEidIpv6 rawEid true).prefixLength.toNat =
        leadingOnes (leading (ipv6Mask rawEid) 128) ∧
      (processEidIpv6 rawEid true).prefixLength.toNat ≤ 128) ∧
    ∀ events s, run step State.init events = some s →
      ∀ entry ∈ s.assignments, (∀ i ∈ matcherReads entry.eid, i < 16) ∧
        ∀ significant significant' : Ipv6Prefix, (∀ i ∈ matcherReads entry.eid,
            Mem.ofVector significant.addr i = Mem.ofVector significant'.addr i) →
          leadingBytesMatch significant entry.eid =
            leadingBytesMatch significant' entry.eid := by
  refine ⟨fun rawEid => ?_, fun rawEid => ?_, fun events s hrun entry hentry => ⟨?_, ?_⟩⟩
  · exact ⟨prefixLength_processEidIpv4 rawEid, processEidIpv4_length_le rawEid true⟩
  · exact ⟨prefixLength_processEidIpv6 rawEid, processEidIpv6_length_le rawEid true⟩
  · exact matcherReads_lt (lengthsBounded_of_run hrun entry hentry)
  · exact fun significant significant' hsame => leadingBytesMatch_congr hsame

/-- A mask with a hole. -/
example : leadingOnes (leading (Mem.ofVector #v[0xFF, 0xF0, 0xFF, 0]) 32) = 12 := by
  decide

end HyLisp.Hypervisor
