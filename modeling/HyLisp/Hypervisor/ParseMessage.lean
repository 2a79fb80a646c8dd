import HyLisp.Hypervisor.Eid
import HyLisp.DataPlane.MapTables

/-!
# Parsing map messages

The hypervisor reads a map message only to learn its type, its flags and the
EID prefix it is about.  The received length is passed along but never used:
the readers take whatever lies in the buffer.
-/

namespace HyLisp.Hypervisor

open DataPlane

/-- `extract_type_mm` -/
def extractTypeMm (buf : Mem) : UInt16 :=
  (MapMsghdr.ofMem buf).mapType

/-- `extract_flags_mm` -/
def extractFlagsMm (buf : Mem) : UInt32 :=
  (MapMsghdr.ofMem buf).mapFlags

/-- The inner loop over a mask byte: it counts the leading bits that are set,
starting at `bitWindow`, and looks at `n` bits at most. -/
def countMaskBits (byte : UInt8) : ℕ → UInt8 → ℕ
  | 0, _ => 0
  | n + 1, bitWindow =>
      if byte &&& bitWindow ≠ 0 then
        countMaskBits byte n (bitWindow >>> 1) + 1
      else 0

/-- The loop over the bytes of a mask, with `n` bytes left from byte `i` on.
`base` is the prefix length an empty mask stands for. -/
def maskToLength (mask : Mem) (base : ℕ) : ℕ → ℕ → ℕ
  | _, 0 => 128
  | i, n + 1 =>
      if mask i = 0xFF then maskToLength mask base (i + 1) n
      else base + 8 * i + countMaskBits (mask i) 7 0x80

/-- `process_eid_ipv4` -/
def processEidIpv4 (rawEid : Mem) (hasMask : Bool) : Ipv6Prefix where
  addr := v4Mapped (rawEid.bytes 4 4)
  prefixLength :=
    if hasMask then
      let rawMask := rawEid.advance (ssSize (rawEid 0))
      .ofNat (maskToLength (rawMask.advance 4) 96 0 4)
    else 128
  reason := .prfxAsis

/-- `process_eid_ipv6` -/
def processEidIpv6 (rawEid : Mem) (hasMask : Bool) : Ipv6Prefix where
  addr := rawEid.bytes 8 16
  prefixLength :=
    if hasMask then
      let rawMask := rawEid.advance (ssSize (rawEid 0))
      .ofNat (maskToLength (rawMask.advance 8) 0 0 16)
    else 128
  reason := .prfxAsis

/-- `extract_eid_mm_add_delete` -/
def extractEidMmAddDelete (buf : Mem) : Ipv6Prefix :=
  let header := MapMsghdr.ofMem buf
  if header.mapVersioning ≠ 0 then getUndefinedEid .uprfxUnknVer
  else if header.mapAddrs &&& mapaEid = 0 then getUndefinedEid .uprfxNoEid
  else
    let hasMask := header.mapAddrs &&& mapaEidmask ≠ 0
    let storageEid := buf.advance sizeofMapMsghdr
    if storageEid 1 = afInet then processEidIpv4 storageEid hasMask
    else if storageEid 1 = afInet6 then processEidIpv6 storageEid hasMask
    else getUndefinedEid .uprfxUnknIp

/-- `extract_eid_mm_missheader`: the source address of the packet that follows
the sockaddrs. -/
def extractEidMmMissheader (buf : Mem) : Ipv6Prefix :=
  let header := MapMsghdr.ofMem buf
  let offset := sizeofMapMsghdr
  let offset :=
    if header.mapAddrs &&& mapaEid ≠ 0 then offset + ssSize (buf offset)
    else offset
  let offset :=
    if header.mapAddrs &&& mapaEidmask ≠ 0 then offset + ssSize (buf offset)
    else offset
  let ipVer := buf offset >>> 4
  if ipVer = 4 then ⟨v4Mapped (buf.bytes (offset + 12) 4), 128, .prfxAsis⟩
  else if ipVer = 6 then ⟨buf.bytes (offset + 8) 16, 128, .prfxAsis⟩
  else getUndefinedEid .uprfxUnknIp

/-- `extract_eid_mm` -/
def extractEidMm (buf : Mem) : Ipv6Prefix :=
  let header := MapMsghdr.ofMem buf
  if header.mapVersioning ≠ 0 then getUndefinedEid .uprfxUnknVer
  else if header.mapType = mapmAdd ∨ header.mapType = mapmDelete then
    extractEidMmAddDelete buf
  else if header.mapType = mapmMissHeader then extractEidMmMissheader buf
  else getUndefinedEid .uprfxUnknType

/-! ## Prefix lengths -/

theorem countMaskBits_le (byte : UInt8) (n : ℕ) (bitWindow : UInt8) :
    countMaskBits byte n bitWindow ≤ n := by
  induction n generalizing bitWindow with
  | zero => exact le_refl 0
  | succ n ih =>
      rw [countMaskBits]
      split
      · exact Nat.succ_le_succ (ih _)
      · exact Nat.zero_le _

/-- A length read from a mask fits the address. -/
theorem maskToLength_le (mask : Mem) {base i n : ℕ}
    (hroom : base + 8 * (i + n) ≤ 128) : maskToLength mask base i n ≤ 128 := by
  induction n generalizing i with
  | zero => exact le_refl 128
  | succ n ih =>
      rw [maskToLength]
      split
      · exact ih (by omega)
      · have hbits := countMaskBits_le (mask i) 7 0x80
        omega

theorem toNat_ofNat_of_le {n : ℕ} (h : n ≤ 128) :
    (UInt8.ofNat n).toNat = n :=
  UInt8.toNat_ofNat_of_lt' (lt_of_le_of_lt h (by decide))

theorem toNat_128_le : (128 : UInt8).toNat ≤ 128 := by
  decide

theorem processEidIpv4_length_le (rawEid : Mem) (hasMask : Bool) :
    (processEidIpv4 rawEid hasMask).prefixLength.toNat ≤ 128 := by
  cases hasMask with
  | false => exact toNat_128_le
  | true =>
      have hle := maskToLength_le
        ((rawEid.advance (ssSize (rawEid 0))).advance 4)
        (show 96 + 8 * (0 + 4) ≤ 128 by omega)
      simpa only [processEidIpv4, if_true, toNat_ofNat_of_le hle] using hle

theorem processEidIpv6_length_le (rawEid : Mem) (hasMask : Bool) :
    (processEidIpv6 rawEid hasMask).prefixLength.toNat ≤ 128 := by
  cases hasMask with
  | false => exact toNat_128_le
  | true =>
      have hle := maskToLength_le
        ((rawEid.advance (ssSize (rawEid 0))).advance 8)
        (show 0 + 8 * (0 + 16) ≤ 128 by omega)
      simpa only [processEidIpv6, if_true, toNat_ofNat_of_le hle] using hle

theorem extractEidMmAddDelete_length_le (buf : Mem) :
    (extractEidMmAddDelete buf).prefixLength.toNat ≤ 128 := by
  unfold extractEidMmAddDelete
  dsimp only
  split
  · exact toNat_128_le
  split
  · exact toNat_128_le
  split
  · exact processEidIpv4_length_le _ _
  split
  · exact processEidIpv6_length_le _ _
  · exact toNat_128_le

theorem extractEidMmMissheader_length_le (buf : Mem) :
    (extractEidMmMissheader buf).prefixLength.toNat ≤ 128 := by
  unfold extractEidMmMissheader
  dsimp only
  generalize buf _ >>> 4 = ipVer
  split
  · exact toNat_128_le
  split
  · exact toNat_128_le
  · exact toNat_128_le

/-- Every EID read from a map message has a length of at most 128. -/
theorem extractEidMm_length_le (buf : Mem) :
    (extractEidMm buf).prefixLength.toNat ≤ 128 := by
  unfold extractEidMm
  dsimp only
  split
  · exact toNat_128_le
  split
  · exact extractEidMmAddDelete_length_le buf
  split
  · exact extractEidMmMissheader_length_le buf
  · exact toNat_128_le

/-- The byte of a mask that holds its last `r` bits. -/
def lastMaskByte (r : ℕ) : UInt8 :=
  if r = 0 then 0 else 0xFF <<< UInt8.ofNat (8 - r)

theorem countMaskBits_lastMaskByte {r : ℕ} (hr : r < 8) :
    lastMaskByte r ≠ 0xFF ∧ countMaskBits (lastMaskByte r) 7 0x80 = r := by
  have hall : ∀ r : Fin 8, lastMaskByte r ≠ 0xFF ∧
      countMaskBits (lastMaskByte r) 7 0x80 = r := by
    decide
  exact hall ⟨r, hr⟩

/-- A mask with `8 * q + r` leading bits set is read as that length. -/
theorem maskToLength_eq {mask : Mem} {base q r : ℕ} (hr : r < 8)
    (hwhole : ∀ i < q, mask i = 0xFF) (hleft : mask q = lastMaskByte r)
    {i n : ℕ} (hi : i ≤ q) (hq : q < i + n) :
    maskToLength mask base i n = base + 8 * q + r := by
  obtain ⟨hne, hbits⟩ := countMaskBits_lastMaskByte hr
  induction n generalizing i with
  | zero => omega
  | succ n ih =>
      rw [maskToLength]
      by_cases heq : i = q
      · subst heq
        rw [hleft, if_neg hne, hbits]
      · rw [if_pos (hwhole i (by omega)), ih (by omega) (by omega)]

end HyLisp.Hypervisor
