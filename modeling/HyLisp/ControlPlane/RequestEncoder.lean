import HyLisp.ControlPlane.Lookups
import HyLisp.ControlPlane.RecordRoundTrip

/-!
# Building a Map-Request

A lookup is answered by a Map-Request in an encapsulation.  The inner headers have the
family of the EID, with the EID itself as destination; the ITR-RLOC has the family of
the map resolver.  Both passes of the parser find what was put in.
-/

namespace HyLisp.ControlPlane

open DataPlane

/-! ## The datagram -/

/-- `ip_checksum` -/
def ipChecksum (buf : Mem) (nwords : ℕ) : UInt16 :=
  let sum := ((List.range nwords).map fun i => buf.le16 (2 * i)).sum
  let sum := sum / 65536 + sum % 65536
  let sum := sum + sum / 65536
  ~~~UInt16.ofNat sum

/-- The bytes of an IPv4 header with a checksum. -/
def ipBytes (ipLen ipSum : UInt16) (src dst : Vector UInt8 4) : List UInt8 :=
  [0x45, 0] ++ (Mem.be16Bytes ipLen ++ ([0, 0, 0, 0, 255, 17] ++
    (Mem.le16Bytes ipSum ++ (src.toList ++ dst.toList))))

/-- The bytes of an IPv6 header. -/
def ip6Bytes (ipLen : UInt16) (src dst : Vector UInt8 16) : List UInt8 :=
  [0x6E, 0, 0, 0] ++ (Mem.be16Bytes ipLen ++ ([17, 64] ++ (src.toList ++ dst.toList)))

/-- The address that a node sends from, in the family of another one. -/
def sourceFor (srcAddr : Vector UInt8 4) (srcAddr6 : Vector UInt8 16) : Address → Address
  | .inet _ => .inet srcAddr
  | .inet6 _ => .inet6 srcAddr6

/-- The header with the version of the EID, in front of a payload; the length is that of
header and payload in both. -/
def innerIpBytes (srcAddr : Vector UInt8 4) (srcAddr6 : Vector UInt8 16) (eid : Address)
    (payloadLen : ℕ) : List UInt8 :=
  match eid with
  | .inet dst =>
      let ipLen := .ofNat (sizeofIp + payloadLen)
      let ipSum := ipChecksum (Mem.ofList (ipBytes ipLen 0 srcAddr dst) fun _ => 0) 10
      ipBytes ipLen ipSum srcAddr dst
  | .inet6 dst => ip6Bytes (.ofNat (sizeofIp6Hdr + payloadLen)) srcAddr6 dst

/-- The bytes of the UDP header in front of a message. -/
def udpBytes (sport : UInt16) (len : ℕ) : List UInt8 :=
  Mem.be16Bytes sport ++ (Mem.be16Bytes lispCpPort ++
    (Mem.be16Bytes (.ofNat (sizeofUdphdr + len)) ++ [0, 0]))

/-- The EID of a lookup with the mask of a host. -/
def hostPrefix (eid : Address) : Prefix where
  addr := eid
  prefixlen := .ofNat eid.width

theorem prefixlen_hostPrefix (eid : Address) :
    (hostPrefix eid).prefixlen.toNat ≤ (hostPrefix eid).addr.width := by
  cases eid with
  | inet _ => exact Nat.le_refl 32
  | inet6 _ => exact Nat.le_refl 128

/-- The nonce of a Map-Request. -/
def nonceBytes (nonce : UInt32 × UInt32) : Vector UInt8 8 :=
  ⟨(Mem.be32Bytes nonce.1 ++ Mem.be32Bytes nonce.2).toArray, rfl⟩

theorem typeFlags_lookupRequest : (0x10 : UInt8) >>> 4 = 1 := rfl

/-- The Map-Request for an EID, with one ITR-RLOC. -/
def lookupRequest (eid itrRloc : Address) (nonce : UInt32 × UInt32) : MapRequest where
  typeFlags := 0x10
  reserved := 0
  irc := 0
  recordCount := 1
  nonce := nonceBytes nonce
  sourceEid := none
  itrRlocs := [some itrRloc]
  recordReserved := 0
  eid := hostPrefix eid
  rest := []
  lispType := typeFlags_lookupRequest
  ircCount := rfl
  maskInWidth := prefixlen_hostPrefix eid

/-- The headers in front of a Map-Request. -/
def lookupHeaders (srcAddr : Vector UInt8 4) (srcAddr6 : Vector UInt8 16) (sport : UInt16)
    (eid : Address) (len : ℕ) : List UInt8 :=
  [0x80, 0, 0, 0] ++
    (innerIpBytes srcAddr srcAddr6 eid (sizeofUdphdr + len) ++ udpBytes sport len)

/-- What `send_mr` sends for an EID to a map resolver. -/
def lookupBytes (srcAddr : Vector UInt8 4) (srcAddr6 : Vector UInt8 16) (sport : UInt16)
    (eid mr : Address) (nonce : UInt32 × UInt32) : List UInt8 :=
  let lcm := (lookupRequest eid (sourceFor srcAddr srcAddr6 mr) nonce).toBytes
  lookupHeaders srcAddr srcAddr6 sport eid lcm.length ++ lcm

/-- The address of the sockaddr of an EID. -/
def slotEid (eid : Mem) : Option Address :=
  if eid 1 = afInet then some (.inet (eid.bytes 4 4))
  else if eid 1 = afInet6 then some (.inet6 (eid.bytes 8 16))
  else none

/-- `send_mr` on a slot: the datagram it builds with a nonce. -/
def EidLookup.datagram (l : EidLookup) (srcAddr : Vector UInt8 4)
    (srcAddr6 : Vector UInt8 16) (nonce : UInt32 × UInt32) : Option (List UInt8) :=
  match slotEid l.eid, l.mr with
  | some eid, some mr => some (lookupBytes srcAddr srcAddr6 (l.words 6).toUInt16 eid mr nonce)
  | _, _ => none

/-! ## The first pass -/

section FirstPass

variable {srcAddr : Vector UInt8 4} {srcAddr6 : Vector UInt8 16} {sport : UInt16}
  {eid itrRloc : Address} {nonce : UInt32 × UInt32} {m : Mem} {len offset : ℕ}

/-- The size of the headers in front of a Map-Request. -/
def headersLen : Address → ℕ
  | .inet _ => sizeofLispControlHdr + sizeofIp + sizeofUdphdr
  | .inet6 _ => sizeofLispControlHdr + sizeofIp6Hdr + sizeofUdphdr

theorem length_lookupHeaders (srcAddr : Vector UInt8 4) (srcAddr6 : Vector UInt8 16)
    (sport : UInt16) (eid : Address) (len : ℕ) :
    (lookupHeaders srcAddr srcAddr6 sport eid len).length = headersLen eid := by
  cases eid with
  | inet dst =>
      simp [lookupHeaders, innerIpBytes, ipBytes, udpBytes, headersLen, sizeofLispControlHdr,
        sizeofIp, sizeofUdphdr]
  | inet6 dst =>
      simp [lookupHeaders, innerIpBytes, ip6Bytes, udpBytes, headersLen,
        sizeofLispControlHdr, sizeofIp6Hdr, sizeofUdphdr]

/-- The headers are those of IPv4 at least. -/
theorem le_headersLen (eid : Address) :
    sizeofLispControlHdr + sizeofIp + sizeofUdphdr ≤ headersLen eid := by
  cases eid with
  | inet _ => exact Nat.le_refl 32
  | inet6 _ => exact Nat.le_add_right 32 20

/-- The version in the first byte of the inner header. -/
def versionByte : Address → UInt8
  | .inet _ => 0x45
  | .inet6 _ => 0x6E

/-- The type of the outer message, and the version of the inner header. -/
theorem version_of_holds (h : m.Holds (lookupHeaders srcAddr srcAddr6 sport eid len)) :
    m 0 = 0x80 ∧ m 4 = versionByte eid := by
  have hfour : 4 < (lookupHeaders srcAddr srcAddr6 sport eid len).length := by
    rw [length_lookupHeaders]
    exact (Nat.lt_add_of_pos_right (Nat.zero_lt_succ 27)).trans_le (le_headersLen eid)
  refine ⟨h 0 (Nat.zero_lt_of_lt hfour), (h 4 hfour).trans ?_⟩
  cases eid with
  | inet dst => rfl
  | inet6 dst => rfl

/-- The first pass comes to the message behind the headers. -/
theorem udpPreparsePk_of_holds {bufLen : ℕ}
    (h : m.Holds (lookupHeaders srcAddr srcAddr6 sport eid len))
    (hlen : headersLen eid ≤ bufLen) :
    ∃ ecm, udpPreparsePk m bufLen = preparseLcm m bufLen (some ecm) (headersLen eid) := by
  obtain ⟨h0, h4⟩ := version_of_holds h
  have hecm : lispType m = lispTypeEcm := by
    rw [lispType, h0]
    rfl
  have hheaders : ¬sizeofLispControlHdr + sizeofIp + sizeofUdphdr > bufLen :=
    Nat.not_lt.mpr ((le_headersLen eid).trans hlen)
  have hshort : ¬bufLen < sizeofLispControlHdr :=
    fun hlt => hheaders (hlt.trans_le (Nat.le_add_right 4 28))
  cases eid with
  | inet dst =>
      have hversion : m sizeofLispControlHdr >>> 4 = 4 := by
        rw [sizeofLispControlHdr, h4, versionByte]
        rfl
      refine ⟨⟨m 0 &&& 0x04 ≠ 0, .inet (m.bytes (sizeofLispControlHdr + 12) 4),
        m.be16 (sizeofLispControlHdr + sizeofIp)⟩, ?_⟩
      rw [udpPreparsePk, if_neg hshort, if_pos hecm]
      dsimp only
      rw [if_neg hheaders, if_pos hversion, headersLen]
  | inet6 dst =>
      have hversion : m sizeofLispControlHdr >>> 4 = 6 := by
        rw [sizeofLispControlHdr, h4, versionByte]
        rfl
      have hother : ¬m sizeofLispControlHdr >>> 4 = 4 := by
        rw [hversion]
        decide
      refine ⟨⟨m 0 &&& 0x04 ≠ 0, .inet6 (m.bytes (sizeofLispControlHdr + 8) 16),
        m.be16 (sizeofLispControlHdr + sizeofIp6Hdr)⟩, ?_⟩
      rw [udpPreparsePk, if_neg hshort, if_pos hecm]
      dsimp only
      rw [if_neg hheaders, if_neg hother, if_pos hversion, headersLen]

/-- The nonce of a Map-Request behind the headers is read, word by word. -/
theorem preparseLcm_of_holds {bufLen : ℕ} (ecm : Option Ecm)
    (h : (m.advance offset).Holds (lookupRequest eid itrRloc nonce).toBytes)
    (hlen : offset + (lookupRequest eid itrRloc nonce).toBytes.length ≤ bufLen) :
    preparseLcm m bufLen ecm offset =
      some ⟨ecm, offset, lispTypeMapRequest, nonce.1.toNat, nonce.2.toNat⟩ := by
  have htype : lispType (m.advance offset) = lispTypeMapRequest := by
    have h0 := h 0 (by simp [MapRequest.toBytes])
    rw [lispType, h0]
    exact (lookupRequest eid itrRloc nonce).lispType
  have hnonce : (nonceBytes nonce).toList =
      Mem.be32Bytes nonce.1 ++ Mem.be32Bytes nonce.2 := rfl
  have hshort : ¬offset + sizeofLispControlHdr + nonesize > bufLen := by
    simp only [MapRequest.toBytes, List.length_append, Vector.length_toList, List.length_cons,
      List.length_nil] at hlen
    simp only [sizeofLispControlHdr, nonesize]
    omega
  simp only [MapRequest.toBytes, Mem.holds_append, lookupRequest, hnonce, List.length_cons,
    List.length_nil, Mem.length_be32Bytes] at h
  obtain ⟨-, ⟨hfirst, hsecond⟩, -⟩ := h
  rw [Mem.advance_advance (m.advance offset)] at hsecond
  rw [preparseLcm, if_neg hshort, htype, if_pos (Or.inl rfl),
    Mem.be32_of_holds_be32Bytes hfirst, Mem.be32_of_holds_be32Bytes hsecond]

end FirstPass

/-! ## The second pass -/

section SecondPass

variable {m : Mem} {k : ℕ} {addrs : List Address} {r : MapRequest}

/-- Addresses behind their AFIs are read in turn. -/
theorem readItrRlocs_of_holds
    (h : (m.advance k).Holds ((addrs.map some).flatMap afiAddress)) :
    readItrRlocs m addrs.length k =
      some (addrs, k + ((addrs.map some).flatMap afiAddress).length) := by
  induction addrs generalizing k with
  | nil => rfl
  | cons addr addrs ih =>
      rw [List.map_cons, List.flatMap_cons, Mem.holds_append, Mem.advance_advance] at h
      obtain ⟨hread, hsize, -⟩ := readAddress_of_holds h.1
      rw [List.length_cons, readItrRlocs, hread]
      dsimp only
      rw [hsize, ih h.2, Option.map_some, List.map_cons, List.flatMap_cons,
        List.length_append, Nat.add_assoc]

/-- A source EID is stepped over. -/
theorem eidSize_of_holds {addr : Option Address} (h : m.Holds (afiAddress addr)) :
    eidSize m = (afiAddress addr).length := by
  cases addr with
  | none =>
      have hread : readAddress m = none := by
        rw [readAddress, getAddressType, afi_none_of_holds h]
        rfl
      rw [eidSize, hread]
      rfl
  | some addr =>
      obtain ⟨hread, hsize, -⟩ := readAddress_of_holds h
      rw [eidSize, hread, Option.isSome_some, if_pos rfl, hsize]

/-- A record is read as its prefix. -/
theorem readRecords_of_holds {reserved : UInt8} {p : Prefix}
    (h : (m.advance k).Holds ([reserved, p.prefixlen] ++ afiAddress (some p.addr))) :
    readRecords m 1 k = some [p] := by
  rw [Mem.holds_append, Mem.advance_advance] at h
  have hmask : m (k + 1) = p.prefixlen := h.1 1 (by simp)
  have haddr : (m.advance (k + 2)).Holds (afiAddress (some p.addr)) := h.2
  obtain ⟨hread, -, hne⟩ := readAddress_of_holds haddr
  have hplain : ¬getAddressType (m.advance (k + 2)) = lcafAfi := hne
  rw [readRecords, if_neg hplain, hread, hmask]
  rfl

/-- A Map-Request with one record is read as its ITR-RLOCs and its EID. -/
theorem udpPrcRequest_of_holds (hitr : r.itrRlocs = addrs.map some)
    (hrecords : r.recordCount = 1) (h : m.Holds r.toBytes) :
    udpPrcRequest m = some (addrs, [r.eid]) := by
  have h0 : m 0 = r.typeFlags := h 0 (by simp [MapRequest.toBytes])
  have h2 : m 2 = r.irc := h 2 (by simp [MapRequest.toBytes])
  have h3 : m 3 = r.recordCount := h 3 (by simp [MapRequest.toBytes])
  have htype : ¬lispType m ≠ lispTypeMapRequest := by
    rw [lispType, h0, r.lispType]
    decide
  have hcount : (m 2 &&& 0x1F).toNat + 1 = addrs.length := by
    rw [h2, ← r.ircCount, hitr, List.length_map]
  simp only [MapRequest.toBytes, hitr, Mem.holds_append, Mem.advance_advance,
    List.length_cons, List.length_nil, Vector.length_toList] at h
  obtain ⟨-, -, hsource, hrlocs, hrecord, -⟩ := h
  rw [udpPrcRequest, if_neg htype]
  dsimp only
  rw [show sizeofMapRequestHdr = 12 from rfl, eidSize_of_holds hsource, hcount,
    readItrRlocs_of_holds hrlocs]
  dsimp only
  rw [h3, hrecords, UInt8.toNat_one, readRecords_of_holds hrecord, Option.map_some]

end SecondPass

/-! ## The nonce of a slot -/

section Recorded

variable {l l' : EidLookup} {memory memory' : ℤ → UInt32} {srcportRand : Bool}
  {attempt : Attempt} {nonce : UInt32 × UInt32}

/-- The words of a slot stand in memory, with their places counted from `nonce0` on. -/
def EidLookup.At (l : EidLookup) (memory : ℤ → UInt32) : Prop :=
  ∀ k : ℕ, k < EidLookup.sizeofWords → memory k = l.words k

/-- The assignments to `nonce0[cnt]` and `nonce1[cnt]` in memory. -/
def setNoncesAt (memory : ℤ → UInt32) (cnt : ℤ) (nonce : UInt32 × UInt32) : ℤ → UInt32 :=
  Function.update (Function.update memory cnt nonce.1) (cnt + maxCount) nonce.2

/-- `send_mr` in the memory that a slot stands in: the memory afterwards, and the nonce of
the Map-Request if one was sent.  `cnt` is an `int`, and its place may be anywhere. -/
def sendMrAt (srcportRand : Bool) (memory : ℤ → UInt32) (attempt : Attempt) :
    (ℤ → UInt32) × Option (UInt32 × UInt32) :=
  if countLimit ≤ (memory 11).toInt32 ∧ srcportRand = true then
    (Function.update (Function.update memory 13 0) 14 0, none)
  else if attempt.sent then
    let memory := setNoncesAt memory (memory 11).toInt32.toInt attempt.nonce
    (Function.update memory 11 (memory 11 + 1), some attempt.nonce)
  else (memory, none)

/-- The place that the next nonce of a slot is written to. -/
def EidLookup.cnt (l : EidLookup) : ℤ :=
  l.count.toInt32.toInt

/-- A place in the slot.  The EID and the socket stand before `nonce0`, and the pointer to the
map resolver behind the words up to `active`. -/
def InSlot (place : ℤ) : Prop :=
  -33 ≤ place ∧ place < 17

/-- The nonce stands in the slot, at the place that `count` said. -/
structure EidLookup.RecordedAt (l : EidLookup) (memory : ℤ → UInt32)
    (nonce : UInt32 × UInt32) : Prop where
  inSlot_fst : InSlot l.cnt
  inSlot_snd : InSlot (l.cnt + maxCount)
  fst_eq : memory l.cnt = nonce.1
  snd_eq : memory (l.cnt + maxCount) = nonce.2

/-- Both words of the next nonce have a place in the slot, and neither is written over
`count`. -/
def EidLookup.CountApart (l : EidLookup) : Prop :=
  -33 ≤ l.cnt ∧ l.cnt ≤ 13 ∧ l.cnt ≠ 8 ∧ l.cnt ≠ 11

instance (l : EidLookup) : Decidable l.CountApart :=
  inferInstanceAs (Decidable (_ ∧ _))

theorem EidLookup.cnt_eq (h : l.count.toNat < 2 ^ 31) : l.cnt = l.count.toNat := by
  rw [EidLookup.cnt, ← Int32.toInt_toBitVec, UInt32.toBitVec_toInt32,
    BitVec.toInt_eq_toNat_of_lt (by rw [UInt32.toNat_toBitVec]; omega), UInt32.toNat_toBitVec]

/-- Inside the arrays there is no `count`. -/
theorem EidLookup.countApart_of_lt (h : l.count.toNat < maxCount) : l.CountApart := by
  rw [maxCount_eq] at h
  rw [EidLookup.CountApart, EidLookup.cnt_eq (by omega)]
  omega

theorem setNoncesAt_fst (memory : ℤ → UInt32) (cnt : ℤ) (nonce : UInt32 × UInt32) :
    setNoncesAt memory cnt nonce cnt = nonce.1 := by
  have hne : cnt ≠ cnt + maxCount := by
    rw [maxCount_eq]
    omega
  rw [setNoncesAt, Function.update_of_ne hne, Function.update_self]

theorem setNoncesAt_snd (memory : ℤ → UInt32) (cnt : ℤ) (nonce : UInt32 × UInt32) :
    setNoncesAt memory cnt nonce (cnt + maxCount) = nonce.2 := by
  rw [setNoncesAt, Function.update_self]

namespace EidLookup.At

/-- A word of the slot is written in memory. -/
theorem update (h : l.At memory) (k : ℕ) (word : UInt32) :
    EidLookup.At { l with words := Function.update l.words k word }
      (Function.update memory k word) := by
  intro j hj
  by_cases hjk : j = k
  · subst hjk
    rw [Function.update_self]
    exact (Function.update_self j word l.words).symm
  · have hne : (j : ℤ) ≠ k := fun heq => hjk (Int.ofNat_inj.mp heq)
    rw [Function.update_of_ne hne, h j hj]
    exact (Function.update_of_ne hjk word l.words).symm

theorem count_eq (h : l.At memory) : memory 11 = l.count :=
  h 11 (by decide)

/-- As long as the places of a nonce are among the words, `send_mr` writes in memory what it
writes in the slot. -/
theorem sendMr (h : l.At memory) {sent : Option (UInt32 × UInt32)}
    (hsend : ControlPlane.sendMr srcportRand l attempt = some (l', sent)) :
    l'.At (sendMrAt srcportRand memory attempt).1 ∧
      (sendMrAt srcportRand memory attempt).2 = sent := by
  unfold ControlPlane.sendMr at hsend
  rw [sendMrAt, h.count_eq]
  split at hsend
  next hlimit =>
    obtain ⟨rfl, rfl⟩ := Prod.mk.inj (Option.some_inj.mp hsend)
    rw [if_pos hlimit]
    exact ⟨(h.update 13 0).update 14 0, rfl⟩
  next hlimit =>
    rw [if_neg hlimit]
    split at hsend
    next hsent =>
      dsimp only at hsend
      split at hsend
      next hroom =>
        obtain ⟨rfl, rfl⟩ := Prod.mk.inj (Option.some_inj.mp hsend)
        rw [maxCount_eq, EidLookup.sizeofWords] at hroom
        have hcnt : l.count.toInt32.toInt = l.count.toNat := EidLookup.cnt_eq (by omega)
        have hnonces : (l.setNonces l.count.toNat attempt.nonce).At
            (setNoncesAt memory l.count.toNat attempt.nonce) :=
          (h.update l.count.toNat attempt.nonce.1).update (l.count.toNat + maxCount)
            attempt.nonce.2
        rw [if_pos hsent]
        dsimp only
        rw [hcnt, hnonces.count_eq]
        exact ⟨hnonces.update 11 _, rfl⟩
      · cases hsend
    next hsent =>
      obtain ⟨rfl, rfl⟩ := Prod.mk.inj (Option.some_inj.mp hsend)
      rw [if_neg hsent]
      exact ⟨h, rfl⟩

/-- What a Map-Request that is sent leaves in memory. -/
theorem eq_of_sendMrAt (hat : l.At memory)
    (h : sendMrAt srcportRand memory attempt = (memory', some nonce)) :
    ¬(countLimit ≤ l.count.toInt32 ∧ srcportRand = true) ∧
      memory' = Function.update (setNoncesAt memory l.cnt nonce) 11
        (setNoncesAt memory l.cnt nonce 11 + 1) := by
  rw [sendMrAt, hat.count_eq] at h
  split at h
  · cases (Prod.mk.inj h).2
  next hlimit =>
    split at h
    · obtain ⟨rfl, hnonce⟩ := Prod.mk.inj h
      cases hnonce
      exact ⟨hlimit, rfl⟩
    · cases (Prod.mk.inj h).2

end EidLookup.At

/-- A Map-Request that is sent leaves its nonce in the slot, if and only if there is a place
for it apart from `count`, which is increased afterwards. -/
theorem recordedAt_iff_countApart (hat : l.At memory)
    (h : sendMrAt srcportRand memory attempt = (memory', some nonce)) :
    l.RecordedAt memory' nonce ↔ l.CountApart := by
  obtain ⟨-, rfl⟩ := hat.eq_of_sendMrAt h
  have hfst := setNoncesAt_fst memory l.cnt nonce
  have hsnd := setNoncesAt_snd memory l.cnt nonce
  have hthree : (maxCount : ℤ) = 3 := rfl
  have hne (n : UInt32) : n + 1 ≠ n := by
    rw [ne_eq, UInt32.add_eq_left]
    decide
  constructor
  · rintro ⟨⟨hlow, -⟩, ⟨-, hhigh⟩, hfst', hsnd'⟩
    refine ⟨hlow, by omega, fun hcnt => ?_, fun hcnt => ?_⟩
    · -- `nonce1[cnt]` is `count`
      have heq : l.cnt + maxCount = 11 := by omega
      rw [heq] at hsnd hsnd'
      rw [Function.update_self, hsnd] at hsnd'
      exact hne nonce.2 hsnd'
    · -- `nonce0[cnt]` is `count`
      rw [hcnt] at hfst hfst'
      rw [Function.update_self, hfst] at hfst'
      exact hne nonce.1 hfst'
  · rintro ⟨hlow, hhigh, height, heleven⟩
    refine ⟨⟨hlow, by omega⟩, ⟨by omega, by omega⟩, ?_, ?_⟩
    · rw [Function.update_of_ne heleven, hfst]
    · rw [Function.update_of_ne (by omega), hsnd]

/-- A lookup with a socket of its own is sent no Map-Request whose nonce reaches `count`. -/
theorem countApart_of_srcportRand (hat : l.At memory) (hpos : 0 ≤ l.cnt)
    (h : sendMrAt true memory attempt = (memory', some nonce)) : l.CountApart := by
  have hlimit : ¬countLimit ≤ l.count.toInt32 := by
    intro hle
    exact (hat.eq_of_sendMrAt h).1 ⟨hle, rfl⟩
  have hlt : l.cnt < 3 := Int.not_le.mp fun hle => hlimit (Int32.le_iff_toInt_le.mpr hle)
  rw [EidLookup.CountApart]
  omega

end Recorded

end HyLisp.ControlPlane
