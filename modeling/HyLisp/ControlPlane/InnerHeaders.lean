import HyLisp.ControlPlane.RequestEncoder
import HyLisp.Support.OnesComplement
import Mathlib.Algebra.Order.BigOperators.Group.List

/-!
# The inner headers of encapsulated Map-Requests

Two functions put a Map-Request into an encapsulation: `send_mr` for a cache miss of the
xTR, and `udp_request_add` for a request that is sent on towards a delegated prefix.  Both
write an inner header of the family of the EID.  The lengths and the checksum of these
headers agree with what follows them in one family of `send_mr` only; `udp_request_add`
stores the bytes of its IPv4 checksum in the other order, in which it verifies by chance.
-/

namespace HyLisp.ControlPlane

open DataPlane OnesComplement

/-! ## What a receiver checks -/

/-- A datagram, as it is read. -/
def datagramMem (datagram : List UInt8) : Mem :=
  Mem.ofList datagram fun _ => 0

/-- The UDP length at `udp` is that of header and message. -/
def UdpConsistent (datagram : List UInt8) (udp : ℕ) : Prop :=
  (datagramMem datagram).be16 (udp + 4) = datagram.length - udp

/-- The total length of the IPv4 header at `ih` is what is left of the datagram, and its
checksum verifies. -/
def IpConsistent (datagram : List UInt8) (ih : ℕ) : Prop :=
  (datagramMem datagram).be16 (ih + 2) = datagram.length - ih ∧
    onesSum 65536 (networkWords ((datagram.drop ih).take sizeofIp)) = 0xFFFF

/-- The payload length of the IPv6 header at `ih` is what follows the header. -/
def Ip6Consistent (datagram : List UInt8) (ih : ℕ) : Prop :=
  (datagramMem datagram).be16 (ih + 4) = datagram.length - (ih + sizeofIp6Hdr)

/-- The inner headers of an encapsulation agree with the datagram. -/
def InnerConsistent (datagram : List UInt8) : Prop :=
  if datagramMem datagram sizeofLispControlHdr >>> 4 = 4 then
    UdpConsistent datagram (sizeofLispControlHdr + sizeofIp) ∧
      IpConsistent datagram sizeofLispControlHdr
  else if datagramMem datagram sizeofLispControlHdr >>> 4 = 6 then
    UdpConsistent datagram (sizeofLispControlHdr + sizeofIp6Hdr) ∧
      Ip6Consistent datagram sizeofLispControlHdr
  else False

section Decidable

variable (datagram : List UInt8) (k : ℕ)

instance : Decidable (UdpConsistent datagram k) := inferInstanceAs (Decidable (_ = _))

instance : Decidable (IpConsistent datagram k) := inferInstanceAs (Decidable (_ ∧ _))

instance : Decidable (Ip6Consistent datagram k) := inferInstanceAs (Decidable (_ = _))

instance : Decidable (InnerConsistent datagram) :=
  inferInstanceAs (Decidable
    (if _ = (4 : UInt8) then _ ∧ _ else if _ = (6 : UInt8) then _ ∧ _ else False))

end Decidable

/-! ## The encoder of a delegated request -/

/-- The arguments of `udp_request_add`, with the ITR-RLOCs of the request it is about. -/
structure RequestArgs where
  security : Bool
  ddt : Bool
  authBit : Bool
  mapDataPresent : Bool
  rlocProbe : Bool
  smrBit : Bool
  pitrBit : Bool
  smrInvokeBit : Bool
  nonce : UInt32 × UInt32
  src : Address
  dst : Address
  sourcePort : UInt16
  eid : Prefix
  itr : List Address
  itr_le : itr.length ≤ 32

/-- As many ITR-RLOCs are read from a request as a field of five bits says. -/
theorem length_of_readItrRlocs {lcm : Mem} {n k stop : ℕ} {addrs : List Address}
    (h : readItrRlocs lcm n k = some (addrs, stop)) : addrs.length = n := by
  induction n generalizing k addrs stop with
  | zero =>
      obtain ⟨rfl, -⟩ := Prod.mk.inj (Option.some_inj.mp h)
      rfl
  | succ n ih =>
      rw [readItrRlocs] at h
      split at h
      · cases h
      · obtain ⟨⟨rest, stop'⟩, hrest, heq⟩ := Option.map_eq_some_iff.mp h
        obtain ⟨rfl, -⟩ := Prod.mk.inj heq
        rw [List.length_cons, ih hrest]

/-- There is one at least, and a request that is sent on can count them. -/
theorem length_of_udpPrcRequest {lcm : Mem} {itr : List Address} {eids : List Prefix}
    (h : udpPrcRequest lcm = some (itr, eids)) : 0 < itr.length ∧ itr.length ≤ 32 := by
  rw [udpPrcRequest] at h
  split at h
  · cases h
  · dsimp only at h
    split at h
    · cases h
    next itr' k hread =>
      obtain ⟨eids', -, heq⟩ := Option.map_eq_some_iff.mp h
      obtain ⟨rfl, -⟩ := Prod.mk.inj heq
      have hcount : (lcm 2 &&& 0x1F).toNat ≤ 31 := by
        rw [UInt8.toNat_and]
        exact Nat.and_le_right
      rw [length_of_readItrRlocs hread]
      exact ⟨Nat.succ_pos _, Nat.succ_le_succ hcount⟩

/-- The address in a union that `_sockunion_to_afi_address` clears and fills in. -/
def afiUnion : Address → Mem
  | .inet addr => Mem.ofList addr.toList fun _ => 0
  | .inet6 addr => Mem.ofList addr.toList fun _ => 0

namespace RequestArgs

variable (r : RequestArgs)

/-- The Map-Request, with the count of ITR-RLOCs in five bits. -/
def lcmBytes : List UInt8 :=
  [0x10 ||| (if r.authBit then 0x08 else 0) ||| (if r.mapDataPresent then 0x04 else 0) |||
      (if r.rlocProbe then 0x02 else 0) ||| (if r.smrBit then 0x01 else 0),
    (if r.pitrBit then 0x80 else 0) ||| (if r.smrInvokeBit then 0x40 else 0),
    (.ofNat r.itr.length - 1) &&& 0x1F, 1] ++
  (Mem.be32Bytes r.nonce.1 ++ Mem.be32Bytes r.nonce.2 ++ (afiAddress none ++
    ((r.itr.map some).flatMap afiAddress ++
      ([0, r.eid.prefixlen] ++ afiAddress (some r.eid.addr)))))

/-- The inner header, of the family of the EID. -/
def innerIpBytes : List UInt8 :=
  let payloadLen := sizeofUdphdr + r.lcmBytes.length
  match r.eid.addr with
  | .inet _ =>
      let src := (afiUnion r.src).bytes 0 4
      let dst := (afiUnion r.dst).bytes 0 4
      let ipLen := .ofNat (sizeofIp + payloadLen)
      let ipSum := ipChecksum (Mem.ofList (ipBytes ipLen 0 src dst) fun _ => 0) 10
      ipBytes ipLen (Mem.htons ipSum) src dst
  | .inet6 _ =>
      ip6Bytes (.ofNat payloadLen) ((afiUnion r.src).bytes 0 16) ((afiUnion r.dst).bytes 0 16)

end RequestArgs

/-- The layout of an encapsulation, behind its first four bytes. -/
def encapsulated (first ip : List UInt8) (sport : UInt16) (lcm : List UInt8) : List UInt8 :=
  first ++ (ip ++ (udpBytes sport lcm.length ++ lcm))

/-- `udp_request_add`: the datagram that is built. -/
def udpRequestAdd (r : RequestArgs) : List UInt8 :=
  encapsulated
    [0x80 ||| (if r.security then 0x08 else 0) ||| (if r.ddt then 0x04 else 0), 0, 0, 0]
    r.innerIpBytes r.sourcePort r.lcmBytes

/-- `send_mr` has the same layout. -/
theorem lookupBytes_eq (srcAddr : Vector UInt8 4) (srcAddr6 : Vector UInt8 16)
    (sport : UInt16) (eid mr : Address) (nonce : UInt32 × UInt32) :
    lookupBytes srcAddr srcAddr6 sport eid mr nonce =
      let lcm := (lookupRequest eid (sourceFor srcAddr srcAddr6 mr) nonce).toBytes
      encapsulated [0x80, 0, 0, 0]
        (innerIpBytes srcAddr srcAddr6 eid (sizeofUdphdr + lcm.length)) sport lcm := by
  rw [lookupBytes, lookupHeaders, List.append_assoc, List.append_assoc]
  rfl

/-! ## The ITR-RLOCs of a request that is sent on -/

namespace RequestArgs

/-- The count of ITR-RLOCs fits into its five bits, where there are some. -/
theorem toNat_irc {n : ℕ} (hpos : 0 < n) (hle : n ≤ 32) :
    n = ((UInt8.ofNat n - 1) &&& 0x1F &&& 0x1F).toNat + 1 := by
  obtain ⟨k, rfl⟩ := Nat.exists_eq_add_of_le' hpos
  have hk : k < 32 := hle
  have hsub : UInt8.ofNat (k + 1) - 1 = .ofNat k := by
    rw [UInt8.ofNat_add]
    exact UInt8.add_sub_cancel _ _
  have hlow : k &&& 0x1F = k := by
    rw [Nat.and_two_pow_sub_one_eq_mod k 5]
    exact Nat.mod_eq_of_lt hk
  rw [hsub, UInt8.and_assoc, UInt8.and_self, UInt8.toNat_and,
    UInt8.toNat_ofNat_of_lt' (hk.trans (by decide))]
  exact congrArg (· + 1) hlow.symm

theorem lispType_flags (a m p s : Bool) :
    (0x10 ||| (if a then 0x08 else 0) ||| (if m then 0x04 else 0) |||
      (if p then 0x02 else 0) ||| (if s then 0x01 else 0) : UInt8) >>> 4 = 1 := by
  revert a m p s
  decide

variable (r : RequestArgs)

/-- The Map-Request that is sent on, where there are ITR-RLOCs. -/
def mapRequest (hitr : 0 < r.itr.length) (hmask : r.eid.prefixlen.toNat ≤ r.eid.addr.width) :
    MapRequest where
  typeFlags := 0x10 ||| (if r.authBit then 0x08 else 0) |||
    (if r.mapDataPresent then 0x04 else 0) ||| (if r.rlocProbe then 0x02 else 0) |||
    (if r.smrBit then 0x01 else 0)
  reserved := (if r.pitrBit then 0x80 else 0) ||| (if r.smrInvokeBit then 0x40 else 0)
  irc := (.ofNat r.itr.length - 1) &&& 0x1F
  recordCount := 1
  nonce := nonceBytes r.nonce
  sourceEid := none
  itrRlocs := r.itr.map some
  recordReserved := 0
  eid := r.eid
  rest := []
  lispType := lispType_flags _ _ _ _
  ircCount := by
    rw [List.length_map]
    exact toNat_irc hitr r.itr_le
  maskInWidth := hmask

variable {r}

theorem toBytes_mapRequest (hitr : 0 < r.itr.length)
    (hmask : r.eid.prefixlen.toNat ≤ r.eid.addr.width) :
    (r.mapRequest hitr hmask).toBytes = r.lcmBytes := by
  have hnonce : (nonceBytes r.nonce).toList =
      Mem.be32Bytes r.nonce.1 ++ Mem.be32Bytes r.nonce.2 := rfl
  simp only [MapRequest.toBytes, MapRequest.recordBytes, mapRequest, lcmBytes, hnonce,
    List.append_assoc, List.append_nil]

/-- The ITR-RLOCs that were read from a request are read again where it is sent on, with
the EID alone. -/
theorem udpPrcRequest_lcmBytes {lcm m : Mem} {eids : List Prefix}
    (hread : udpPrcRequest lcm = some (r.itr, eids))
    (hmask : r.eid.prefixlen.toNat ≤ r.eid.addr.width) (h : m.Holds r.lcmBytes) :
    udpPrcRequest m = some (r.itr, [r.eid]) := by
  rw [← toBytes_mapRequest (length_of_udpPrcRequest hread).1 hmask] at h
  exact udpPrcRequest_of_holds rfl rfl h

end RequestArgs

/-! ## The headers in front of a message -/

section Headers

variable {first : List UInt8} (ip : List UInt8) (sport : UInt16) (lcm : List UInt8)

theorem length_encapsulated (hfirst : first.length = sizeofLispControlHdr) :
    (encapsulated first ip sport lcm).length =
      sizeofLispControlHdr + ip.length + (sizeofUdphdr + lcm.length) := by
  have hudp : (udpBytes sport lcm.length).length = sizeofUdphdr := rfl
  rw [encapsulated, List.length_append, List.length_append, List.length_append, hfirst, hudp,
    Nat.add_assoc]

/-- The headers lie one behind the other. -/
theorem holds_encapsulated (hfirst : first.length = sizeofLispControlHdr) :
    ((datagramMem (encapsulated first ip sport lcm)).advance sizeofLispControlHdr).Holds ip ∧
      ((datagramMem (encapsulated first ip sport lcm)).advance
        (sizeofLispControlHdr + ip.length)).Holds (udpBytes sport lcm.length) := by
  have hholds := Mem.holds_ofList (encapsulated first ip sport lcm) fun _ => 0
  rw [← datagramMem, encapsulated, Mem.holds_append, Mem.holds_append, Mem.holds_append,
    Mem.advance_advance, hfirst] at hholds
  exact ⟨hholds.2.1, hholds.2.2.1⟩

/-- Both encoders write the right UDP length. -/
theorem udpConsistent_encapsulated (hfirst : first.length = sizeofLispControlHdr)
    (hlen : sizeofUdphdr + lcm.length < 65536) :
    UdpConsistent (encapsulated first ip sport lcm) (sizeofLispControlHdr + ip.length) := by
  have hudp := (holds_encapsulated ip sport lcm hfirst).2
  simp only [udpBytes, Mem.holds_append, Mem.advance_advance, Mem.length_be16Bytes] at hudp
  rw [UdpConsistent, length_encapsulated ip sport lcm hfirst, Nat.add_sub_cancel_left,
    Mem.be16_of_holds_be16Bytes hudp.2.2.1, UInt16.toNat_ofNat_of_lt' hlen]

theorem length_ipBytes (ipLen ipSum : UInt16) (src dst : Vector UInt8 4) :
    (ipBytes ipLen ipSum src dst).length = sizeofIp := by
  simp [ipBytes, sizeofIp]

theorem length_ip6Bytes (ipLen : UInt16) (src dst : Vector UInt8 16) :
    (ip6Bytes ipLen src dst).length = sizeofIp6Hdr := by
  simp [ip6Bytes, sizeofIp6Hdr]

/-- With an IPv4 header of the right length the headers are consistent where its checksum
verifies. -/
theorem innerConsistent_ip_iff {ipLen : UInt16} (ipSum : UInt16) (src dst : Vector UInt8 4)
    (hfirst : first.length = sizeofLispControlHdr)
    (hlen : ipLen.toNat = sizeofIp + (sizeofUdphdr + lcm.length)) :
    InnerConsistent (encapsulated first (ipBytes ipLen ipSum src dst) sport lcm) ↔
      onesSum 65536 (networkWords (ipBytes ipLen ipSum src dst)) = 0xFFFF := by
  have hiplen := length_ipBytes ipLen ipSum src dst
  have hheader : ((encapsulated first (ipBytes ipLen ipSum src dst) sport lcm).drop
      sizeofLispControlHdr).take sizeofIp = ipBytes ipLen ipSum src dst := by
    rw [encapsulated, ← hfirst, List.drop_left, ← hiplen, List.take_left]
  have hsize := length_encapsulated (ipBytes ipLen ipSum src dst) sport lcm hfirst
  have hip := (holds_encapsulated (ipBytes ipLen ipSum src dst) sport lcm hfirst).1
  have hudp := udpConsistent_encapsulated (ipBytes ipLen ipSum src dst) sport lcm hfirst (by
    have hlt := ipLen.toNat_lt
    omega)
  generalize encapsulated first (ipBytes ipLen ipSum src dst) sport lcm = datagram at *
  have hversion : datagramMem datagram sizeofLispControlHdr >>> 4 = 4 := by
    have hfirst := hip 0 (by rw [hiplen]; decide)
    rw [Mem.advance_apply, Nat.add_zero] at hfirst
    rw [hfirst]
    exact (by decide : (0x45 : UInt8) >>> 4 = 4)
  have htotal : (datagramMem datagram).be16 (sizeofLispControlHdr + 2) =
      datagram.length - sizeofLispControlHdr := by
    simp only [ipBytes, Mem.holds_append, Mem.advance_advance] at hip
    rw [show sizeofLispControlHdr + 2 = sizeofLispControlHdr + [(0x45 : UInt8), 0].length from rfl,
      Mem.be16_of_holds_be16Bytes hip.2.1, hlen, hsize, hiplen, Nat.add_assoc,
      Nat.add_sub_cancel_left]
  rw [hiplen] at hudp
  rw [InnerConsistent, if_pos hversion, IpConsistent, hheader]
  exact ⟨fun h => h.2.2, fun h => ⟨hudp, htotal, h⟩⟩

/-- With an IPv6 header they are consistent where it has the right payload length. -/
theorem innerConsistent_ip6_iff (plen : UInt16) (src dst : Vector UInt8 16)
    (hfirst : first.length = sizeofLispControlHdr)
    (hlen : sizeofUdphdr + lcm.length < 65536) :
    InnerConsistent (encapsulated first (ip6Bytes plen src dst) sport lcm) ↔
      plen.toNat = sizeofUdphdr + lcm.length := by
  have hiplen := length_ip6Bytes plen src dst
  have hsize := length_encapsulated (ip6Bytes plen src dst) sport lcm hfirst
  have hip := (holds_encapsulated (ip6Bytes plen src dst) sport lcm hfirst).1
  have hudp := udpConsistent_encapsulated (ip6Bytes plen src dst) sport lcm hfirst hlen
  generalize encapsulated first (ip6Bytes plen src dst) sport lcm = datagram at *
  have hversion : datagramMem datagram sizeofLispControlHdr >>> 4 = 6 := by
    have hfirst := hip 0 (by rw [hiplen]; decide)
    rw [Mem.advance_apply, Nat.add_zero] at hfirst
    rw [hfirst]
    exact (by decide : (0x6E : UInt8) >>> 4 = 6)
  have hother : ¬datagramMem datagram sizeofLispControlHdr >>> 4 = 4 := by
    rw [hversion]
    decide
  have hplen : (datagramMem datagram).be16 (sizeofLispControlHdr + 4) = plen.toNat := by
    simp only [ip6Bytes, Mem.holds_append, Mem.advance_advance] at hip
    exact Mem.be16_of_holds_be16Bytes hip.2.1
  rw [hiplen] at hudp
  rw [InnerConsistent, if_neg hother, if_pos hversion, Ip6Consistent, hplen, hsize, hiplen,
    Nat.add_sub_cancel_left]
  exact ⟨fun h => h.2, fun h => ⟨hudp, h⟩⟩

end Headers

/-! ## The checksum of the IPv4 header -/

section Checksum

/-- The sum of the words of an IPv4 header, without the checksum. -/
def headerSum (totalLen : ℕ) (src dst : Vector UInt8 4) : ℕ :=
  0x4500 + totalLen + 0xFF11 + (networkWords src.toList).sum + (networkWords dst.toList).sum

/-- The words that are added up. -/
theorem sum_le16_of_holds {m : Mem} {k n : ℕ} {bytes : List UInt8}
    (hlen : bytes.length = 2 * n) (h : (m.advance k).Holds bytes) :
    ((List.range n).map fun i => m.le16 (k + 2 * i)).sum = (hostWords bytes).sum := by
  induction n generalizing k bytes with
  | zero =>
      rw [List.length_eq_zero_iff.mp hlen]
      rfl
  | succ n ih =>
      match bytes, hlen with
      | b₀ :: b₁ :: bytes, hlen =>
          have hsplit : b₀ :: b₁ :: bytes = [b₀, b₁] ++ bytes := rfl
          rw [hsplit, Mem.holds_append, Mem.advance_advance] at h
          have h₀ := h.1 0 (by simp)
          have h₁ := h.1 1 (by simp)
          have hword : m.le16 k = b₀.toNat + b₁.toNat * 256 := by
            rw [Mem.le16]
            exact congrArg₂ (fun lo hi : UInt8 => lo.toNat + hi.toNat * 256) h₀ h₁
          have hwords : hostWords (b₀ :: b₁ :: bytes) =
              (b₀.toNat + b₁.toNat * 256) :: hostWords bytes := rfl
          have hshift : (fun i => m.le16 (k + 2 * i)) ∘ Nat.succ =
              fun i => m.le16 (k + 2 + 2 * i) := by
            funext i
            exact congrArg m.le16 (by rw [Nat.succ_eq_add_one]; omega)
          have hrest := ih (k := k + 2) (by simpa [Nat.mul_succ] using hlen) h.2
          rw [List.range_succ_eq_map, List.map_cons, List.map_map, List.sum_cons, hwords,
            List.sum_cons, hshift, hrest, Nat.mul_zero, Nat.add_zero, hword]

theorem sum_le16_le (m : Mem) (n : ℕ) :
    ((List.range n).map fun i => m.le16 (2 * i)).sum ≤ n * 65535 := by
  have hle := List.sum_le_card_nsmul ((List.range n).map fun i => m.le16 (2 * i)) 65535 (by
    intro word hword
    obtain ⟨i, -, rfl⟩ := List.mem_map.mp hword
    have h₀ := (m (2 * i)).toNat_lt
    have h₁ := (m (2 * i + 1)).toNat_lt
    rw [Mem.le16]
    omega)
  rw [List.length_map, List.length_range] at hle
  exact hle

/-- The two additions of carries leave a word, if there are not too many words. -/
theorem toNat_ipChecksum {m : Mem} {nwords : ℕ} (hwords : nwords ≤ 65536) :
    ∃ word, word ≤ 65535 ∧
      word ≡ ((List.range nwords).map fun i => m.le16 (2 * i)).sum [MOD 65535] ∧
      (ipChecksum m nwords).toNat = 65535 - word := by
  have hle := sum_le16_le m nwords
  rw [ipChecksum]
  generalize ((List.range nwords).map fun i => m.le16 (2 * i)).sum = sum at hle ⊢
  have hfold : sum / 65536 + sum % 65536 = endAround 65536 sum := by
    rw [endAround, Nat.add_comm]
  rw [hfold]
  have hsmall : endAround 65536 sum ≤ 131070 := by
    rw [endAround]
    omega
  have hmod := endAround_modEq (b := 65536) (by decide) sum
  generalize endAround 65536 sum = once at *
  have hword : (once + once / 65536) % 65536 = endAround 65536 once := by
    rw [endAround]
    omega
  refine ⟨endAround 65536 once, ?_, ?_, ?_⟩
  · rw [endAround]
    omega
  · exact (endAround_modEq (by decide) once).trans hmod
  · rw [UInt16.toNat_not, UInt16.toNat_ofNat', hword]
    rfl

/-- `ip_checksum` completes the sum of the words. -/
theorem dvd_sum_ipChecksum {bytes : List UInt8} {nwords : ℕ} (hlen : bytes.length = 2 * nwords)
    (hwords : nwords ≤ 65536) :
    65535 ∣ (hostWords bytes).sum +
      (ipChecksum (Mem.ofList bytes fun _ => 0) nwords).toNat := by
  have hholds := Mem.holds_ofList bytes fun _ => 0
  rw [← Mem.advance_zero (Mem.ofList _ _)] at hholds
  have hsum := sum_le16_of_holds hlen hholds
  simp only [Nat.zero_add] at hsum
  obtain ⟨word, hle, hmod, hword⟩ :=
    toNat_ipChecksum (m := Mem.ofList bytes fun _ => 0) hwords
  rw [hsum] at hmod
  rw [hword]
  exact dvd_add_complement (b := 65536) hmod hle

variable (ipLen : UInt16) (src dst : Vector UInt8 4)

/-- The words in front of the checksum. -/
def ipBefore (ipLen : UInt16) : List UInt8 :=
  [0x45, 0] ++ (Mem.be16Bytes ipLen ++ [0, 0, 0, 0, 255, 17])

theorem even_ipBefore : (ipBefore ipLen).length % 2 = 0 := by
  simp [ipBefore]

theorem ipBytes_eq (ipSum : UInt16) :
    ipBytes ipLen ipSum src dst =
      ipBefore ipLen ++ (Mem.le16Bytes ipSum ++ (src.toList ++ dst.toList)) := by
  rw [ipBytes, ipBefore, List.append_assoc, List.append_assoc]

theorem sum_hostWords_ipBytes (ipSum : UInt16) :
    (hostWords (ipBytes ipLen ipSum src dst)).sum =
      (hostWords (ipBytes ipLen 0 src dst)).sum + ipSum.toNat := by
  rw [ipBytes_eq, ipBytes_eq]
  exact sum_hostWords_insert (even_ipBefore ipLen) ipSum

theorem sum_networkWords_ipBytes (ipSum : UInt16) :
    (networkWords (ipBytes ipLen (Mem.htons ipSum) src dst)).sum =
      (networkWords (ipBytes ipLen 0 src dst)).sum + ipSum.toNat := by
  rw [ipBytes_eq, ipBytes_eq, Mem.le16Bytes_htons]
  exact sum_networkWords_insert (even_ipBefore ipLen) ipSum

theorem sum_hostWords_pos (ipSum : UInt16) :
    0 < (hostWords (ipBytes ipLen ipSum src dst)).sum := by
  have hwords : hostWords (ipBytes ipLen ipSum src dst) = 0x45 ::
      hostWords (Mem.be16Bytes ipLen ++ ([0, 0, 0, 0, 255, 17] ++
        (Mem.le16Bytes ipSum ++ (src.toList ++ dst.toList)))) := rfl
  rw [hwords, List.sum_cons]
  exact Nat.add_pos_left (by decide) _

/-- The checksum verifies as it is stored by `send_mr`. -/
theorem onesSum_ipBytes :
    onesSum 65536 (networkWords (ipBytes ipLen
      (ipChecksum (Mem.ofList (ipBytes ipLen 0 src dst) fun _ => 0) 10) src dst)) = 0xFFFF := by
  refine (onesSum_networkWords_iff _).mpr ⟨sum_hostWords_pos _ _ _ _, ?_⟩
  rw [(sum_networkWords_modEq _).dvd_iff (Nat.dvd_refl _), sum_hostWords_ipBytes]
  exact (dvd_sum_ipChecksum (length_ipBytes _ _ _ _) (by decide)).mul_left 256

theorem sum_networkWords_eq :
    (networkWords (ipBytes ipLen 0 src dst)).sum = headerSum ipLen.toNat src dst := by
  have haddr : (networkWords (src.toList ++ dst.toList)).sum =
      (networkWords src.toList).sum + (networkWords dst.toList).sum := by
    rw [networkWords_append (by rw [Vector.length_toList]), List.sum_append]
  have hlen : (networkWords (Mem.be16Bytes ipLen)).sum = ipLen.toNat := by
    rw [networkWords_be16Bytes, List.sum_singleton]
  have hrest : networkWords ([0, 0, 0, 0, 255, 17] ++ (Mem.le16Bytes 0 ++
      (src.toList ++ dst.toList))) = 0 :: 0 :: 0xFF11 :: 0 ::
        networkWords (src.toList ++ dst.toList) := rfl
  rw [ipBytes, networkWords_append (by rfl),
    networkWords_append (by rw [Mem.length_be16Bytes]), hrest, headerSum]
  simp only [List.sum_append, List.sum_cons, hlen, haddr]
  have hfirst : (networkWords [0x45, 0]).sum = 0x4500 := rfl
  omega

/-- As it is stored by `udp_request_add` it verifies where 257 divides the sum of the
words. -/
theorem onesSum_ipBytes_htons :
    onesSum 65536 (networkWords (ipBytes ipLen (Mem.htons
      (ipChecksum (Mem.ofList (ipBytes ipLen 0 src dst) fun _ => 0) 10)) src dst)) = 0xFFFF ↔
      257 ∣ headerSum ipLen.toNat src dst := by
  have hsum := sum_networkWords_eq ipLen src dst
  have hlen : (ipBytes ipLen 0 src dst).length = 2 * 10 := length_ipBytes ipLen 0 src dst
  have hword := dvd_sum_ipChecksum hlen (by decide)
  rw [onesSum_networkWords_iff, sum_networkWords_ipBytes, and_iff_right (sum_hostWords_pos _ _ _ _),
    ← hsum]
  exact dvd_add_swapped_iff (r := 256) (by decide) (sum_networkWords_modEq _) hword

end Checksum

/-! ## Which headers are consistent -/

namespace RequestArgs

variable (r : RequestArgs)

/-- The size of the ITR-RLOCs. -/
def itrSize : ℕ :=
  (r.itr.map fun addr => 2 + addr.width / 8).sum

theorem length_lcmBytes :
    r.lcmBytes.length = 14 + r.itrSize + (4 + r.eid.addr.width / 8) := by
  have hitr : ((r.itr.map some).flatMap afiAddress).length = r.itrSize := by
    rw [itrSize]
    induction r.itr with
    | nil => rfl
    | cons addr addrs ih =>
        rw [List.map_cons, List.flatMap_cons, List.length_append, length_afiAddress, ih,
          List.map_cons, List.sum_cons]
  have hnone : (afiAddress none).length = 2 := rfl
  simp only [lcmBytes, List.length_append, List.length_cons, List.length_nil,
    Mem.length_be32Bytes, hnone, hitr, length_afiAddress]
  omega

theorem itrSize_le : r.itrSize ≤ 576 := by
  have hsum : r.itrSize ≤ r.itr.length * 18 := by
    rw [itrSize]
    induction r.itr with
    | nil => exact Nat.le_refl 0
    | cons addr addrs ih =>
        have hwidth := addr.width_le
        rw [List.map_cons, List.sum_cons, List.length_cons]
        omega
  have hcount := r.itr_le
  omega

/-- The bytes from an inner IPv4 header on: the headers, the fixed part of the Map-Request,
the ITR-RLOCs and the record. -/
def totalLen : ℕ :=
  sizeofIp + sizeofUdphdr + 14 + r.itrSize + 8

/-- The sum of the words of the IPv4 header, without the checksum. -/
def ipSum : ℕ :=
  headerSum r.totalLen ((afiUnion r.src).bytes 0 4) ((afiUnion r.dst).bytes 0 4)

theorem innerConsistent_udpRequestAdd :
    InnerConsistent (udpRequestAdd r) ↔
      (∃ dst, r.eid.addr = .inet6 dst) ∨ 257 ∣ r.ipSum := by
  have hlcm := r.length_lcmBytes
  have hitr := r.itrSize_le
  have hwidth := r.eid.addr.width_le
  rw [udpRequestAdd, innerIpBytes]
  cases heid : r.eid.addr with
  | inet dst =>
      have htotal : (UInt16.ofNat (sizeofIp + (sizeofUdphdr + r.lcmBytes.length))).toNat =
          r.totalLen := by
        rw [heid, Address.width] at hlcm
        rw [UInt16.toNat_ofNat_of_lt' (by rw [sizeofIp, sizeofUdphdr, UInt16.size]; omega),
          totalLen, hlcm]
        omega
      dsimp only
      rw [innerConsistent_ip_iff _ _ _ _ _ rfl
        (UInt16.toNat_ofNat_of_lt' (by rw [sizeofIp, sizeofUdphdr, UInt16.size]; omega)),
        onesSum_ipBytes_htons, htotal, ipSum]
      simp
  | inet6 dst =>
      dsimp only
      rw [innerConsistent_ip6_iff _ _ _ _ _ rfl (by rw [sizeofUdphdr]; omega)]
      refine iff_of_true ?_ (.inl ⟨dst, rfl⟩)
      exact UInt16.toNat_ofNat_of_lt' (by rw [sizeofUdphdr, UInt16.size]; omega)

end RequestArgs

theorem length_lookupRequest_le (eid itrRloc : Address) (nonce : UInt32 × UInt32) :
    (lookupRequest eid itrRloc nonce).toBytes.length ≤ 52 := by
  have heid := eid.width_le
  have hitr := itrRloc.width_le
  have hnone : (afiAddress none).length = 2 := rfl
  simp only [MapRequest.toBytes, MapRequest.recordBytes, lookupRequest, hostPrefix,
    List.flatMap_cons, List.flatMap_nil, List.length_append, List.length_cons,
    List.length_nil, Vector.length_toList, hnone, length_afiAddress]
  omega

theorem innerConsistent_lookupBytes (srcAddr : Vector UInt8 4) (srcAddr6 : Vector UInt8 16)
    (sport : UInt16) (eid mr : Address) (nonce : UInt32 × UInt32) :
    InnerConsistent (lookupBytes srcAddr srcAddr6 sport eid mr nonce) ↔
      ∃ dst, eid = .inet dst := by
  have hlcm := length_lookupRequest_le eid (sourceFor srcAddr srcAddr6 mr) nonce
  rw [lookupBytes_eq]
  generalize (lookupRequest eid (sourceFor srcAddr srcAddr6 mr) nonce).toBytes = lcm at hlcm
  cases eid with
  | inet dst =>
      have htotal : sizeofIp + (sizeofUdphdr + lcm.length) < UInt16.size := by
        rw [sizeofIp, sizeofUdphdr, UInt16.size]
        omega
      refine iff_of_true ?_ ⟨dst, rfl⟩
      exact (innerConsistent_ip_iff _ _ _ _ _ rfl (UInt16.toNat_ofNat_of_lt' htotal)).mpr
        (onesSum_ipBytes _ _ _)
  | inet6 dst =>
      have hplen : sizeofIp6Hdr + (sizeofUdphdr + lcm.length) < UInt16.size := by
        rw [sizeofIp6Hdr, sizeofUdphdr, UInt16.size]
        omega
      refine iff_of_false (fun hconsistent => ?_) (by simp)
      have heq := (innerConsistent_ip6_iff _ _ _ _ _ rfl
        (Nat.lt_of_le_of_lt (Nat.le_add_left _ _) hplen)).mp hconsistent
      -- the payload length counts the header itself, too
      rw [UInt16.toNat_ofNat_of_lt' hplen, sizeofIp6Hdr] at heq
      omega

/-- The headers of `send_mr` are consistent for an EID of IPv4, and those of
`udp_request_add` for an EID of IPv6 or where 257 divides the sum of the words of the IPv4
header. -/
theorem innerConsistent_iff (srcAddr : Vector UInt8 4) (srcAddr6 : Vector UInt8 16)
    (sport : UInt16) (eid mr : Address) (nonce : UInt32 × UInt32) (r : RequestArgs) :
    (InnerConsistent (lookupBytes srcAddr srcAddr6 sport eid mr nonce) ↔
        ∃ dst, eid = .inet dst) ∧
      (InnerConsistent (udpRequestAdd r) ↔
        (∃ dst, r.eid.addr = .inet6 dst) ∨ 257 ∣ r.ipSum) :=
  ⟨innerConsistent_lookupBytes srcAddr srcAddr6 sport eid mr nonce,
    r.innerConsistent_udpRequestAdd⟩

/-- A request for 10.0.0.1 with one ITR-RLOC. -/
def requestArgsOne : RequestArgs where
  security := false
  ddt := true
  authBit := true
  mapDataPresent := false
  rlocProbe := false
  smrBit := false
  pitrBit := false
  smrInvokeBit := false
  nonce := (1, 2)
  src := .inet #v[192, 0, 2, 7]
  dst := .inet #v[10, 0, 0, 1]
  sourcePort := 4342
  eid := ⟨.inet #v[10, 0, 0, 1], 32⟩
  itr := [.inet #v[192, 0, 2, 7]]
  itr_le := by decide

/-- Neither encoder is right for both families. -/
theorem not_innerConsistent_one :
    ¬InnerConsistent (lookupBytes #v[192, 0, 2, 1]
        #v[0x20, 0x01, 0x0d, 0xb8, 0, 0, 0, 0, 0, 0, 0, 0, 0, 0, 0, 1] 4342
        (.inet6 #v[0x20, 0x01, 0x0d, 0xb8, 0, 0, 0, 0, 0, 0, 0, 0, 0, 0, 0, 2])
        (.inet #v[198, 51, 100, 1]) (1, 2)) ∧
      ¬InnerConsistent (udpRequestAdd requestArgsOne) := by
  decide

end HyLisp.ControlPlane
