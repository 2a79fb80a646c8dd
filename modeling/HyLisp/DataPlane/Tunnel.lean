import HyLisp.DataPlane.MapVersions
import HyLisp.Support.OnesComplement

/-!
# A packet through the tunnel

A packet is encapsulated behind a UDP header with the checksum zero and a LISP header, and
taken out again by the site of its destination.  The TTL of the outer header is that of the
packet on the way in, and is copied back on the way out, where the checksum of the packet
is corrected for the difference.

What the patch uses of the kernel is a parameter.  `lisp_input` keeps a pointer to the inner
header while `lisp_check_ip_mappings` pulls the packet up once more: when this moves the
packet, the TTL and the checksum are written to where the header was.  Memory for the headers
that are prepended is there.
-/

namespace HyLisp.DataPlane.Tunnel

open LocatorChain MapVersions OnesComplement

/-- `LISPDATA` -/
def lispdata : UInt16 := 4341

/-- `IP_MAXPACKET` -/
def ipMaxpacket : ℕ := 65535

/-- `sizeof(struct udphdr)` -/
def sizeofUdphdr : ℕ := 8

/-- `sizeof(struct lispshimhdr)` -/
def sizeofLispshimhdr : ℕ := 8

/-! ## IPv4 packets -/

/-- An IPv4 packet.  `first` is what comes before the TTL, and `rest` the options and the
data. -/
structure IpPacket where
  first : Vector UInt8 8
  ipTtl : UInt8
  ipP : UInt8
  ipSum : UInt16
  ipSrc : Vector UInt8 4
  ipDst : Vector UInt8 4
  rest : List UInt8
  deriving DecidableEq

namespace IpPacket

/-- What comes behind the checksum. -/
def behindSum (ip : IpPacket) : List UInt8 :=
  ip.ipSrc.toList ++ (ip.ipDst.toList ++ ip.rest)

/-- The packet as it lies in memory. -/
def toBytes (ip : IpPacket) : List UInt8 :=
  ip.first.toList ++ ([ip.ipTtl, ip.ipP] ++ (Mem.le16Bytes ip.ipSum ++ ip.behindSum))

/-- The packet read at the start of a chain. -/
def ofBytes (m : List UInt8) : IpPacket :=
  let b := Mem.ofList m fun _ => 0
  ⟨b.bytes 0 8, b 8, b 9, .ofNat (b.le16 10), b.bytes 12 4, b.bytes 16 4, m.drop sizeofIp⟩

/-- `ip_v` -/
def ipV (ip : IpPacket) : UInt8 :=
  ip.first[0] >>> 4

/-- The first bytes of the packet. -/
def header (ip : IpPacket) (hlen : ℕ) : List UInt8 :=
  ip.toBytes.take hlen

/-- The checksum of the header verifies. -/
def Verifies (ip : IpPacket) (hlen : ℕ) : Prop :=
  onesSum 65536 (networkWords (ip.header hlen)) = 0xFFFF

instance (ip : IpPacket) (hlen : ℕ) : Decidable (ip.Verifies hlen) :=
  inferInstanceAs (Decidable (_ = _))

end IpPacket

/-! ## The kernel -/

/-- A chain of mbufs: its bytes, and the mbuf they start in. -/
structure Chain where
  bytes : List UInt8
  head : ℕ
  deriving DecidableEq

/-- `m_adj` with a positive length -/
def Chain.adj (m : Chain) (len : ℕ) : Chain :=
  { m with bytes := m.bytes.drop len }

/-- A change of the header through a pointer into the mbuf `ip`. -/
def Chain.through (m : Chain) (ip : ℕ) (change : List UInt8 → List UInt8) : Chain :=
  if m.head = ip then { m with bytes := change m.bytes } else m

/-- What the patch uses of the kernel.  `m_pullup` frees a chain that is too short, and one for
which there is no memory; other chains keep their bytes, but may start in another mbuf.
`in_delayed_cksum` writes a checksum into the data of a packet. -/
structure KernelCode where
  mPullup : Chain → ℕ → Option Chain
  inCksum : List UInt8 → UInt16
  inDelayedCksum : IpPacket → List UInt8
  bytes_mPullup : ∀ {m len m'}, mPullup m len = some m' → m'.bytes = m.bytes
  length_mPullup : ∀ {m len m'}, mPullup m len = some m' → len ≤ m.bytes.length
  toNat_inCksum : ∀ bytes, (inCksum bytes).toNat = 0xFFFF - onesSum 65536 (hostWords bytes)
  length_inDelayedCksum : ∀ ip, (inDelayedCksum ip).length = ip.rest.length

/-- There is memory for every `m_pullup`. -/
def KernelCode.HasMemory (kernel : KernelCode) : Prop :=
  ∀ m len, len ≤ m.bytes.length → (kernel.mPullup m len).isSome = true

/-- `m_pullup` of the size of a header moves the chain. -/
def KernelCode.Moves (kernel : KernelCode) (m : Chain) : Prop :=
  (kernel.mPullup m sizeofIp).map Chain.head ≠ some m.head

instance (kernel : KernelCode) (m : Chain) : Decidable (kernel.Moves m) :=
  inferInstanceAs (Decidable (_ ≠ _))

/-! ## Encapsulation -/

/-- The bytes of a LISP header. -/
def shimBytes (h : LispShimHdr) : List UInt8 :=
  Mem.le32Bytes (.ofBitVec h.fnv) ++ Mem.le32Bytes h.ils

/-- A LISP header read from its bytes. -/
def shimOfMem (m : Mem) : LispShimHdr :=
  ⟨BitVec.ofNat 32 (m.le32 0), .ofNat (m.le32 4)⟩

/-- What `lisp_output` is refused with here. -/
inductive OutputErrno
  | emsgsize
  deriving DecidableEq, Repr

/-- `lisp_ip_encap`.  `fresh` is what the new memory has where nothing is written. -/
def lispIpEncap (fresh : Vector UInt8 2) (m : List UInt8) (len : ℕ)
    (srlocaddr drlocaddr : Vector UInt8 4) (ttl : UInt8) (usport : UInt16) : List UInt8 :=
  [0x40, 0] ++ (Mem.be16Bytes (.ofNat (sizeofIp + sizeofUdphdr + len)) ++
    ([0, 0, 0x40, 0, ttl, 17] ++ (fresh.toList ++ (srlocaddr.toList ++ (drlocaddr.toList ++
      (Mem.be16Bytes usport ++ (Mem.be16Bytes lispdata ++
        (Mem.be16Bytes (.ofNat (len + sizeofUdphdr)) ++ ([0, 0] ++ m)))))))))

/-- The size of the packet exceeds an MTU that is set. -/
def tooLarge (len : ℕ) (mtu : UInt32) : Prop :=
  mtu ≠ 0 ∧ len + sizeofUdphdr + sizeofIp + sizeofLispshimhdr > mtu.toNat

instance (len : ℕ) (mtu : UInt32) : Decidable (tooLarge len mtu) :=
  inferInstanceAs (Decidable (_ ∧ _))

/-- The checksum of the data that was put off (`CSUM_DELAY_DATA`). -/
def delayedCksum (kernel : KernelCode) (delayed : Bool) (ip : IpPacket) : IpPacket :=
  if delayed then { ip with rest := kernel.inDelayedCksum ip } else ip

/-- `lisp_output` with the choice of two IPv4 locators. -/
def lispOutput (kernel : KernelCode) (fresh : Vector UInt8 2) (delayed : Bool) (ip : IpPacket)
    (hlen : ℕ) (localmap remotemap : Mapping) (dstrloc srcrloc : Vector UInt8 4 × RlocMtx)
    (usrcport : UInt16) : Except OutputErrno (List UInt8) :=
  let len := ip.toBytes.length
  let ip := delayedCksum kernel delayed ip
  let ip := { ip with ipSum := 0 }
  let ip := { ip with ipSum := kernel.inCksum (ip.header hlen) }
  if tooLarge len dstrloc.2.mtu ∨ tooLarge len srcrloc.2.mtu ∨
      len + sizeofUdphdr + sizeofIp + sizeofLispshimhdr > ipMaxpacket then
    .error .emsgsize
  else
    .ok (lispIpEncap fresh (shimBytes (mLisphdrprepend remotemap localmap dstrloc.2) ++ ip.toBytes)
      (len + sizeofLispshimhdr) srcrloc.1 dstrloc.1 ip.ipTtl usrcport)

/-! ## Decapsulation -/

/-- `net.lisp.etr` -/
inductive LispEtr
  | standard
  | notify
  | secure
  deriving DecidableEq, Repr

/-- What a lookup gives: the mapping with its locators. -/
abbrev View := Vector UInt8 4 → Option (Mapping × List (Address × RlocMtx))

/-- `map_findrloc` -/
def mapFindrloc (rlocs : List (Address × RlocMtx)) (addr : Address) : Option RlocMtx :=
  (rlocs.find? fun l => l.1 = addr).map Prod.snd

/-- What a check or an input comes to.  A null pointer stops the kernel. -/
inductive Outcome (α : Type)
  | accepted (a : α)
  | dropped
  | nullPointer
  deriving DecidableEq

namespace Outcome

variable {α β : Type}

/-- What follows is done if the packet is still there. -/
def andThen : Outcome α → (α → Outcome β) → Outcome β
  | .accepted a, next => next a
  | .dropped, _ => .dropped
  | .nullPointer, _ => .nullPointer

instance : Monad Outcome where
  pure := .accepted
  bind := andThen

@[simp] theorem accepted_bind (a : α) (next : α → Outcome β) :
    (accepted a >>= next) = next a := rfl

@[simp] theorem dropped_bind (next : α → Outcome β) : ((dropped : Outcome α) >>= next) = dropped :=
  rfl

@[simp] theorem nullPointer_bind (next : α → Outcome β) :
    ((nullPointer : Outcome α) >>= next) = nullPointer := rfl

theorem pure_ne_nullPointer (a : α) : (pure a : Outcome α) ≠ nullPointer := by
  intro h
  cases h

theorem bind_eq_accepted {x : Outcome α} {next : α → Outcome β} {b : β} :
    (x >>= next) = accepted b ↔ ∃ a, x = accepted a ∧ next a = accepted b := by
  cases x with
  | accepted a => simp
  | dropped => simp
  | nullPointer => simp

end Outcome

/-- `m_pullup` of a chain that is read at once. -/
def KernelCode.pullup (kernel : KernelCode) (m : Chain) (len : ℕ) : Outcome Chain :=
  match kernel.mPullup m len with
  | some m => .accepted m
  | none => .nullPointer

/-- What a site decides with: `net.lisp.etr`, what its `map_notifymsg` depends on, its database
and its cache, and `lisp_check_ip6_mappings`. -/
structure Site where
  lispetr : LispEtr
  notifier : Notifier
  db : View
  cache : View
  checkIp6Mappings : Chain → Address → Address → LispShimHdr → Outcome Chain

/-- `map_notifymsg` with `MAPM_MISS` for an IPv4 EID, in what it does to the packet.  Only a
message with the header pulls it up, in the end to the size of an IPv6 header. -/
def notifyMiss (kernel : KernelCode) (notifier : Notifier) (m : Chain) : Outcome Chain :=
  if notifier.anyCount = 0 then pure m
  else
    match notifier.lispmissmsg with
    | .header => do
        let m ← kernel.pullup m sizeofIp
        kernel.pullup m sizeofIp6Hdr
    | .eid | .packet => pure m

/-- `ip_len` and `ip_off` with their bytes swapped. -/
def swapHeader (bytes : List UInt8) : List UInt8 :=
  let b := Mem.ofList bytes fun _ => 0
  [b 0, b 1, b 3, b 2, b 4, b 5, b 7, b 6] ++ bytes.drop 8

/-- The header in the byte order of a message, or back in that of the network. -/
def fixHeader (notifier : Notifier) (ip : ℕ) (m : Chain) : Chain :=
  if notifier.lispmissmsg = .eid then m else m.through ip swapHeader

/-- The `switch` over `lispetr` for a packet whose source is not in the cache. -/
def missPolicy (kernel : KernelCode) (site : Site) (m : Chain) : Outcome Chain :=
  match site.lispetr with
  | .secure => do
      let _ ← notifyMiss kernel site.notifier (fixHeader site.notifier m.head m)
      .dropped
  | .notify => do
      let m' ← notifyMiss kernel site.notifier (fixHeader site.notifier m.head m)
      pure (fixHeader site.notifier m.head m')
  | .standard => pure m

/-- The end of `lisp_check_ip_mappings`. -/
def checkHeader (localMap : Mapping) (remoteMap : Option Mapping) (dstrloc : RlocMtx)
    (lisphdr : LispShimHdr) : Outcome Unit :=
  match checkLisphdr lisphdr localMap remoteMap dstrloc with
  | none => .nullPointer
  | some checked => if checked.err then .dropped else .accepted ()

/-- `lisp_check_ip_mappings` behind its `m_pullup`. -/
def checkMappings (kernel : KernelCode) (site : Site) (m : Chain) (drloc srloc : Address)
    (lisphdr : LispShimHdr) : Outcome Chain :=
  let ip := IpPacket.ofBytes m.bytes
  match site.db ip.ipDst with
  | none => .dropped
  | some (localMap, rlocs) =>
      match mapFindrloc rlocs drloc with
      | none => .dropped
      | some dstrloc =>
          match site.cache ip.ipSrc with
          | some (remoteMap, rlocs) =>
              if (mapFindrloc rlocs srloc).isNone then .dropped
              else do
                checkHeader localMap (some remoteMap) dstrloc lisphdr
                pure m
          | none => do
              let m ← missPolicy kernel site m
              checkHeader localMap none dstrloc lisphdr
              pure m

/-- `lisp_check_ip_mappings` -/
def lispCheckIpMappings (kernel : KernelCode) (site : Site) (m : Chain) (drloc srloc : Address)
    (lisphdr : LispShimHdr) : Outcome Chain := do
  let m ← kernel.pullup m sizeofIp
  checkMappings kernel site m drloc srloc lisphdr

/-- The TTL of the outer header in the packet, and the checksum brought up to date. -/
def copyTtl (ip : IpPacket) (savedTtl : UInt8) : IpPacket :=
  let deltaTtl : UInt16 := ip.ipTtl.toUInt16 - savedTtl.toUInt16
  let x := Mem.htons (deltaTtl <<< 8)
  { ip with
    ipTtl := savedTtl
    ipSum := if ip.ipSum ≥ ~~~x then ip.ipSum - ~~~x else ip.ipSum + x }

/-- Where a packet is dispatched to. -/
inductive Isr
  | ip
  | ipv6
  deriving DecidableEq, Repr

/-- What `lisp_input` keeps of the headers, and the chain behind them. -/
structure Stripped where
  savedTtl : UInt8
  drloc : Address
  srloc : Address
  rlisphdr : LispShimHdr
  m : Chain
  deriving DecidableEq

/-- `lisp_input` up to the inner packet, on a chain with `ipLen` bytes behind `off`. -/
def stripHeaders (kernel : KernelCode) (m : Chain) (off ipLen : ℕ) : Outcome Stripped :=
  match kernel.mPullup m (off + sizeofUdphdr) with
  | none => .dropped
  | some m =>
      let len := Mem.be16 (Mem.ofList m.bytes fun _ => 0) (off + 4)
      if ipLen ≠ len ∧ (len > ipLen ∨ len < sizeofUdphdr + sizeofLispshimhdr) then .dropped
      else
        let m := { m with bytes := m.bytes.take (m.bytes.length - (ipLen - len)) }
        if len ≤ sizeofUdphdr + sizeofLispshimhdr + sizeofIp then .dropped
        else do
          let ip := IpPacket.ofBytes m.bytes
          -- `m_copylisphdr`
          let m ← kernel.pullup (m.adj (off + sizeofUdphdr)) sizeofLispshimhdr
          let rlisphdr := shimOfMem (Mem.ofList m.bytes fun _ => 0)
          let m ← kernel.pullup (m.adj sizeofLispshimhdr) sizeofIp
          pure ⟨ip.ipTtl, .inet ip.ipDst, .inet ip.ipSrc, rlisphdr, m⟩

/-- `lisp_input` -/
def lispInput (kernel : KernelCode) (site : Site) (m : Chain) (off ipLen : ℕ) :
    Outcome (Isr × List UInt8) := do
  let s ← stripHeaders kernel m off ipLen
  let ip := IpPacket.ofBytes s.m.bytes
  if ip.ipV = 4 then do
    let m ← lispCheckIpMappings kernel site s.m s.drloc s.srloc s.rlisphdr
    -- written through the pointer from before the check
    let m := m.through s.m.head fun bytes => (copyTtl (.ofBytes bytes) s.savedTtl).toBytes
    pure (.ip, m.bytes)
  else if ip.ipV = 6 then do
    let m ← site.checkIp6Mappings s.m s.drloc s.srloc s.rlisphdr
    pure (.ipv6, m.bytes.set 7 s.savedTtl)
  else .dropped

/-! ## The checksum of a header -/

namespace IpPacket

variable (ip : IpPacket) {hlen : ℕ}

theorem length_toBytes : ip.toBytes.length = 20 + ip.rest.length := by
  simp only [toBytes, behindSum, List.length_append, Vector.length_toList,
    Mem.length_le16Bytes, List.length_cons, List.length_nil]
  omega

/-- A packet is read back from its bytes. -/
theorem ofBytes_toBytes : ofBytes ip.toBytes = ip := by
  have hholds := Mem.holds_ofList ip.toBytes fun _ => 0
  have hrest : ip.toBytes.drop sizeofIp = ip.rest := by
    have hsplit : ip.toBytes = (ip.first.toList ++ ([ip.ipTtl, ip.ipP] ++
        (Mem.le16Bytes ip.ipSum ++ (ip.ipSrc.toList ++ ip.ipDst.toList)))) ++ ip.rest := by
      simp only [toBytes, behindSum, List.append_assoc]
    rw [hsplit]
    apply List.drop_left'
    simp only [List.length_append, Vector.length_toList, Mem.length_le16Bytes,
      List.length_cons, List.length_nil, sizeofIp]
  rw [ofBytes, hrest]
  generalize Mem.ofList ip.toBytes (fun _ => 0) = b at hholds
  simp only [toBytes, behindSum, Mem.holds_append, Mem.advance_advance, Vector.length_toList,
    Mem.length_le16Bytes, List.length_cons, List.length_nil] at hholds
  obtain ⟨hfirst, hpair, hsum, hsrc, hdst, -⟩ := hholds
  rw [← Mem.advance_zero b] at hfirst
  have httl : b 8 = ip.ipTtl := hpair 0 (by simp)
  have hp : b 9 = ip.ipP := hpair 1 (by simp)
  rw [Mem.bytes_of_holds hfirst, httl, hp, Mem.le16_of_holds hsum, Mem.bytes_of_holds hsrc,
    Mem.bytes_of_holds hdst, UInt16.ofNat_toNat]

/-- The words of a header apart from the TTL and the checksum. -/
def others (hlen : ℕ) : ℕ :=
  (hostWords ip.first.toList).sum + 256 * ip.ipP.toNat +
    (hostWords (ip.behindSum.take (hlen - 12))).sum

theorem header_eq (h : 12 ≤ hlen) :
    ip.header hlen = ip.first.toList ++ ([ip.ipTtl, ip.ipP] ++
      (Mem.le16Bytes ip.ipSum ++ ip.behindSum.take (hlen - 12))) := by
  have hfirst : ip.first.toList.length = 8 := Vector.length_toList
  have hsum : (Mem.le16Bytes ip.ipSum).length = 2 := Mem.length_le16Bytes _
  rw [header, toBytes, List.take_append, List.take_append, List.take_append,
    List.take_of_length_le (by omega), List.take_of_length_le (by rw [hfirst]; simp; omega),
    List.take_of_length_le (by rw [hfirst, hsum]; simp; omega), hfirst, hsum]
  congr 4

theorem sum_header (h : 12 ≤ hlen) :
    (hostWords (ip.header hlen)).sum = ip.others hlen + ip.ipTtl.toNat + ip.ipSum.toNat := by
  have hword : hostWords [ip.ipTtl, ip.ipP] = [ip.ipTtl.toNat + ip.ipP.toNat * 256] := rfl
  rw [header_eq ip h, hostWords_append (by rw [Vector.length_toList]),
    hostWords_append (by rw [List.length_cons, List.length_singleton]),
    hostWords_append (by rw [Mem.length_le16Bytes]),
    hostWords_le16Bytes, hword]
  simp only [List.sum_append, List.sum_cons, List.sum_nil, others]
  omega

theorem sum_first_pos (hv : ip.ipV ≠ 0) : 0 < (hostWords ip.first.toList).sum := by
  have hlength : ip.first.toList.length = 8 := Vector.length_toList
  have hbyte : 0 < ip.first[0].toNat := by
    by_contra hzero
    have hnil : ip.first[0] = 0 := UInt8.toNat_inj.mp (Nat.le_zero.mp (Nat.not_lt.mp hzero))
    rw [ipV, hnil] at hv
    exact hv rfl
  have hhead : ip.first.toList[0] = ip.first[0] := Vector.getElem_toList _
  match hbytes : ip.first.toList with
  | [] => simp [hbytes] at hlength
  | [x] => simp [hbytes] at hlength
  | x :: y :: xs =>
      have hx : x = ip.first[0] := by
        rw [← hhead]
        simp [hbytes]
      have hwords : hostWords (x :: y :: xs) = (x.toNat + y.toNat * 256) :: hostWords xs := rfl
      rw [hwords, List.sum_cons, hx]
      omega

/-- A header of a packet with a version verifies where the largest word divides its sum. -/
theorem verifies_iff (h : 12 ≤ hlen) (hv : ip.ipV ≠ 0) :
    ip.Verifies hlen ↔ 65535 ∣ ip.others hlen + ip.ipTtl.toNat + ip.ipSum.toNat := by
  have hpos := ip.sum_first_pos hv
  have hcoprime : Nat.Coprime 65535 256 := by decide
  have hsum : 0 < (hostWords (ip.header hlen)).sum := by
    rw [sum_header ip h, others]
    omega
  rw [Verifies, onesSum_networkWords_iff, and_iff_right hsum,
    (sum_networkWords_modEq _).dvd_iff (Nat.dvd_refl _), hcoprime.dvd_mul_left, sum_header ip h]

/-- `lisp_output` stores a checksum that verifies. -/
theorem verifies_inCksum (kernel : KernelCode) (h : 12 ≤ hlen) (hv : ip.ipV ≠ 0) :
    Verifies { ip with ipSum := kernel.inCksum (header { ip with ipSum := 0 } hlen) } hlen := by
  have hzero := sum_header { ip with ipSum := 0 } h
  obtain ⟨hle, hmod⟩ := onesSum_hostWords (header { ip with ipSum := 0 } hlen)
  have hdvd := dvd_add_complement (b := 65536) hmod hle
  rw [hzero] at hdvd
  apply (verifies_iff
    { ip with ipSum := kernel.inCksum (header { ip with ipSum := 0 } hlen) } h hv).mpr
  dsimp only
  rw [kernel.toNat_inCksum]
  exact hdvd

end IpPacket

/-! ## The TTL on the way out -/

section CopyTtl

variable (ip : IpPacket) (savedTtl : UInt8) {hlen : ℕ}

/-- The difference of the TTLs, as the checksum takes it in. -/
def ttlDifference : ℕ :=
  (256 + ip.ipTtl.toNat - savedTtl.toNat) % 256

theorem toNat_deltaTtl :
    (Mem.htons ((ip.ipTtl.toUInt16 - savedTtl.toUInt16) <<< 8)).toNat =
      ttlDifference ip savedTtl := by
  have httl := ip.ipTtl.toNat_lt
  have hsaved := savedTtl.toNat_lt
  rw [Mem.toNat_htons, UInt16.toNat_shiftLeft, UInt16.toNat_sub, UInt8.toNat_toUInt16,
    UInt8.toNat_toUInt16, Nat.shiftLeft_eq, ttlDifference]
  simp only [UInt16.reduceToNat, Nat.reduceMod, Nat.reducePow] at httl hsaved ⊢
  omega

/-- The checksum is brought up to date with end-around carry. -/
theorem toNat_copyTtl :
    (copyTtl ip savedTtl).ipSum.toNat ≡
      ip.ipSum.toNat + ttlDifference ip savedTtl [MOD 65535] := by
  have hx := toNat_deltaTtl ip savedTtl
  have hsmall : ttlDifference ip savedTtl < 256 := Nat.mod_lt _ (by decide)
  unfold copyTtl
  dsimp only
  generalize Mem.htons ((ip.ipTtl.toUInt16 - savedTtl.toUInt16) <<< 8) = x at hx ⊢
  have hnot : (~~~x).toNat = 65535 - ttlDifference ip savedTtl := by
    rw [UInt16.toNat_not, hx]
    rfl
  by_cases hcarry : ip.ipSum ≥ ~~~x
  · have hle := UInt16.le_iff_toNat_le.mp hcarry
    rw [if_pos hcarry, UInt16.toNat_sub_of_le _ _ hcarry, hnot]
    have hsplit : ip.ipSum.toNat + ttlDifference ip savedTtl =
        ip.ipSum.toNat - (65535 - ttlDifference ip savedTtl) + 65535 := by omega
    rw [hsplit]
    exact (Nat.add_mod_right _ _).symm
  · have hlt : ip.ipSum.toNat < 65535 - ttlDifference ip savedTtl := by
      rw [← hnot]
      exact Nat.not_le.mp (mt UInt16.le_iff_toNat_le.mpr hcarry)
    rw [if_neg hcarry, UInt16.toNat_add, hx, Nat.mod_eq_of_lt (by omega)]

/-- With the TTL copied back, a header that verified still does exactly when the TTL has not
grown on the way. -/
theorem verifies_copyTtl_iff (h : 12 ≤ hlen) (hv : ip.ipV ≠ 0) (hverifies : ip.Verifies hlen) :
    (copyTtl ip savedTtl).Verifies hlen ↔ savedTtl ≤ ip.ipTtl := by
  have httl := ip.ipTtl.toNat_lt
  have hsaved := savedTtl.toNat_lt
  have hold := (IpPacket.verifies_iff ip h hv).mp hverifies
  have hmod := toNat_copyTtl ip savedTtl
  have hnew := IpPacket.verifies_iff (copyTtl ip savedTtl) h hv
  have hothers : (copyTtl ip savedTtl).others hlen = ip.others hlen := rfl
  have httl' : (copyTtl ip savedTtl).ipTtl = savedTtl := rfl
  rw [hnew, hothers, httl', UInt8.le_iff_toNat_le]
  rw [Nat.modEq_iff_dvd] at hmod
  rw [ttlDifference] at hmod
  omega

end CopyTtl

/-! ## Through the tunnel -/

theorem shimOfMem_of_holds {m : Mem} {h : LispShimHdr} (hm : Mem.Holds m (shimBytes h)) :
    shimOfMem m = h := by
  rw [shimBytes, Mem.holds_append, Mem.length_le32Bytes] at hm
  rw [← Mem.advance_zero m] at hm
  rw [shimOfMem, Mem.le32_of_holds hm.1]
  rw [Mem.advance_advance] at hm
  rw [Mem.le32_of_holds hm.2, UInt32.ofNat_toNat]
  obtain ⟨fnv, ils⟩ := h
  rw [LispShimHdr.mk.injEq]
  refine ⟨BitVec.eq_of_toNat_eq ?_, rfl⟩
  rw [BitVec.toNat_ofNat]
  exact Nat.mod_eq_of_lt fnv.isLt

/-- A chain behind the checksum of its outer header. -/
def behindOuter (srl drl : Vector UInt8 4) (ports : List UInt8) (ulen : UInt16)
    (h : LispShimHdr) (inner : List UInt8) : List UInt8 :=
  srl.toList ++ (drl.toList ++ (ports ++ (Mem.be16Bytes ulen ++ ([0, 0] ++
    (shimBytes h ++ inner)))))

section Outer

variable {srl drl : Vector UInt8 4} {ports inner hdr : List UInt8} {ulen : UInt16}
  {h : LispShimHdr}

theorem length_shimBytes (h : LispShimHdr) : (shimBytes h).length = 8 := rfl

theorem length_behindOuter (hports : ports.length = 4) :
    (behindOuter srl drl ports ulen h inner).length = 24 + inner.length := by
  simp only [behindOuter, List.length_append, Vector.length_toList, Mem.length_be16Bytes, hports,
    length_shimBytes, List.length_cons, List.length_nil]
  omega

/-- Behind the UDP header there is the LISP header with the packet. -/
theorem drop_behindOuter (hhdr : hdr.length = 12) (hports : ports.length = 4) :
    (hdr ++ behindOuter srl drl ports ulen h inner).drop 28 = shimBytes h ++ inner := by
  have hsplit : hdr ++ behindOuter srl drl ports ulen h inner =
      (hdr ++ (srl.toList ++ (drl.toList ++ (ports ++ (Mem.be16Bytes ulen ++ [0, 0]))))) ++
        (shimBytes h ++ inner) := by
    simp only [behindOuter, List.append_assoc]
  rw [hsplit]
  apply List.drop_left'
  simp only [List.length_append, Vector.length_toList, Mem.length_be16Bytes, hhdr, hports,
    List.length_cons, List.length_nil]

variable (srl drl inner ulen h)

/-- The UDP length, and what is kept of the outer header. -/
theorem reads_behindOuter (hhdr : hdr.length = 12) (hports : ports.length = 4) :
    let mem := Mem.ofList (hdr ++ behindOuter srl drl ports ulen h inner) fun _ => 0
    mem.be16 (20 + 4) = ulen.toNat ∧ mem 8 = hdr[8] ∧ mem.bytes 12 4 = srl ∧
      mem.bytes 16 4 = drl := by
  intro mem
  have hholds : mem.Holds (hdr ++ behindOuter srl drl ports ulen h inner) :=
    Mem.holds_ofList _ fun _ => 0
  simp only [behindOuter, Mem.holds_append, Mem.advance_advance, Vector.length_toList,
    Mem.length_be16Bytes, hhdr, hports] at hholds
  obtain ⟨hfirst, hsrc, hdst, -, hlen, -⟩ := hholds
  exact ⟨Mem.be16_of_holds_be16Bytes hlen, hfirst 8 (by omega), Mem.bytes_of_holds hsrc,
    Mem.bytes_of_holds hdst⟩

end Outer

section Kernel

variable {kernel : KernelCode} {site : Site} {m m' : Chain} {len : ℕ}

theorem KernelCode.pullup_eq_accepted :
    kernel.pullup m len = .accepted m' ↔ kernel.mPullup m len = some m' := by
  unfold pullup
  cases kernel.mPullup m len with
  | none => exact iff_of_false nofun nofun
  | some m => rw [Outcome.accepted.injEq, Option.some_inj]

theorem KernelCode.HasMemory.exists_mPullup (h : kernel.HasMemory) (len : ℕ)
    (hlen : len ≤ m.bytes.length) :
    ∃ m', kernel.mPullup m len = some m' ∧ m'.bytes = m.bytes := by
  obtain ⟨m', hm'⟩ := Option.isSome_iff_exists.mp (h m len hlen)
  exact ⟨m', hm', kernel.bytes_mPullup hm'⟩

theorem KernelCode.pullup_eq_nullPointer_iff (h : kernel.HasMemory) :
    kernel.pullup m len = .nullPointer ↔ m.bytes.length < len := by
  unfold pullup
  by_cases hlen : len ≤ m.bytes.length
  · obtain ⟨m', hm', -⟩ := h.exists_mPullup len hlen
    rw [hm']
    exact iff_of_false nofun (Nat.not_lt.mpr hlen)
  · have hnone : kernel.mPullup m len = none := by
      by_contra hsome
      obtain ⟨m', hm'⟩ := Option.ne_none_iff_exists'.mp hsome
      exact hlen (kernel.length_mPullup hm')
    rw [hnone]
    exact iff_of_true rfl (Nat.not_le.mp hlen)

theorem KernelCode.moves_iff (h : kernel.mPullup m sizeofIp = some m') :
    kernel.Moves m ↔ m'.head ≠ m.head := by
  rw [Moves, h, Option.map_some, Ne, Option.some_inj]

/-- The kernel stops in `map_notifymsg` where it would send no message either: a packet without
room for an IPv6 header is to be reported with its header. -/
theorem notifyMiss_eq_nullPointer_iff (h : kernel.HasMemory) (notifier : Notifier)
    (eid : Vector UInt8 4) (data : Mem) (flags error : UInt32) :
    notifyMiss kernel notifier m = .nullPointer ↔
      mapNotifymsg notifier mapmMiss (missAddrinfo (.inet eid))
        (some ⟨data, m.bytes.length⟩) flags error = none := by
  unfold notifyMiss mapNotifymsg
  by_cases hnone : notifier.anyCount = 0
  · rw [if_pos hnone, if_pos hnone]
    exact iff_of_false (Outcome.pure_ne_nullPointer m) (Option.some_ne_none _)
  · rw [if_neg hnone, if_neg hnone, if_pos rfl, mapNotifymsgMiss,
      if_neg (by simp only [Option.isNone_some, Bool.false_eq_true, and_false, not_false_iff]),
      Option.map_eq_none_iff]
    cases notifier.lispmissmsg with
    | eid => exact iff_of_false (Outcome.pure_ne_nullPointer m) (Option.some_ne_none _)
    | packet => exact iff_of_false (Outcome.pure_ne_nullPointer m) (Option.some_ne_none _)
    | header =>
        have hmessage : mapMsg1 Missmsg.header.type (missAddrinfo (.inet eid))
            (some ⟨data, m.bytes.length⟩) = none ↔ m.bytes.length < sizeofIp6Hdr := by
          change mapMsg1 mapmMissHeader _ _ = none ↔ _
          rw [mapMsg1_missHeader]
          split
          case isTrue hlen => exact iff_of_false (Option.some_ne_none _) (Nat.not_lt.mpr hlen)
          case isFalse hlen => exact iff_of_true rfl (Nat.not_le.mp hlen)
        rw [hmessage]
        dsimp only
        by_cases hip : sizeofIp ≤ m.bytes.length
        · obtain ⟨m', hm', hbytes⟩ := h.exists_mPullup sizeofIp hip
          rw [KernelCode.pullup_eq_accepted.mpr hm', Outcome.accepted_bind,
            KernelCode.pullup_eq_nullPointer_iff h, hbytes]
        · have hshort := Nat.not_le.mp hip
          rw [(KernelCode.pullup_eq_nullPointer_iff h).mpr hshort, Outcome.nullPointer_bind]
          exact iff_of_true rfl (hshort.trans (by decide))

/-- A packet whose source is not in the cache is not brought into host order for a message. -/
def Site.Quiet (site : Site) : Prop :=
  site.lispetr = .notify → site.notifier.lispmissmsg = .eid

theorem missPolicy_eq_accepted_iff (h : site.Quiet) :
    missPolicy kernel site m = .accepted m' ↔ site.lispetr ≠ .secure ∧ m' = m := by
  unfold missPolicy
  cases hetr : site.lispetr with
  | standard =>
      change Outcome.accepted m = .accepted m' ↔ _
      rw [Outcome.accepted.injEq, eq_comm, and_iff_right nofun]
  | notify =>
      have heid := h hetr
      have hnotify : notifyMiss kernel site.notifier m = .accepted m := by
        rw [notifyMiss, heid]
        exact ite_self _
      simp only [fixHeader, if_pos heid, hnotify, Outcome.accepted_bind]
      change Outcome.accepted m = .accepted m' ↔ _
      rw [Outcome.accepted.injEq, eq_comm, and_iff_right nofun]
  | secure =>
      rw [Outcome.bind_eq_accepted]
      refine iff_of_false ?_ fun h => h.1 rfl
      rintro ⟨m₁, -, hdropped⟩
      cases hdropped

/-- What the tables of a site and its policy make of two EIDs, two RLOCs and a LISP header. -/
def Site.Accepts (site : Site) (ipSrc ipDst : Vector UInt8 4) (drloc srloc : Address)
    (lisphdr : LispShimHdr) : Prop :=
  ∃ localMap rlocs dstrloc, site.db ipDst = some (localMap, rlocs) ∧
    mapFindrloc rlocs drloc = some dstrloc ∧
    match site.cache ipSrc with
    | some (remoteMap, rlocs) =>
        (mapFindrloc rlocs srloc).isSome = true ∧
          checkHeader localMap (some remoteMap) dstrloc lisphdr = .accepted ()
    | none =>
        site.lispetr ≠ .secure ∧ checkHeader localMap none dstrloc lisphdr = .accepted ()

theorem checkHeader_then_eq_accepted {localMap : Mapping} {remoteMap : Option Mapping}
    {dstrloc : RlocMtx} {lisphdr : LispShimHdr} :
    (do checkHeader localMap remoteMap dstrloc lisphdr; pure m : Outcome Chain) = .accepted m' ↔
      m' = m ∧ checkHeader localMap remoteMap dstrloc lisphdr = .accepted () := by
  rw [Outcome.bind_eq_accepted]
  constructor
  · rintro ⟨⟨⟩, hheader, hm⟩
    exact ⟨(Outcome.accepted.inj hm).symm, hheader⟩
  · rintro ⟨rfl, hheader⟩
    exact ⟨(), hheader, rfl⟩

/-- A site that reports no headers leaves the packets that it accepts as they are. -/
theorem checkMappings_eq_accepted_iff (h : site.Quiet) {drloc srloc : Address}
    {lisphdr : LispShimHdr} :
    checkMappings kernel site m drloc srloc lisphdr = .accepted m' ↔
      m' = m ∧ site.Accepts (IpPacket.ofBytes m.bytes).ipSrc (IpPacket.ofBytes m.bytes).ipDst
        drloc srloc lisphdr := by
  unfold checkMappings Site.Accepts
  dsimp only
  cases hdb : site.db (IpPacket.ofBytes m.bytes).ipDst with
  | none => exact iff_of_false nofun fun ⟨_, _, _, _, hsome, _⟩ => nomatch hsome
  | some found =>
      obtain ⟨localMap, rlocs⟩ := found
      dsimp only
      cases hdst : mapFindrloc rlocs drloc with
      | none =>
          refine iff_of_false nofun ?_
          rintro ⟨-, localMap', rlocs', dstrloc, hfound, hsome, -⟩
          rw [Option.some_inj, Prod.mk.injEq] at hfound
          rw [← hfound.2, hdst] at hsome
          cases hsome
      | some dstrloc =>
          have honly : ∀ Q : Mapping → RlocMtx → Prop,
              (∃ localMap' rlocs' dstrloc', some (localMap, rlocs) = some (localMap', rlocs') ∧
                mapFindrloc rlocs' drloc = some dstrloc' ∧ Q localMap' dstrloc') ↔
                Q localMap dstrloc := by
            intro Q
            constructor
            · rintro ⟨localMap', rlocs', dstrloc', hfound, hsome, hq⟩
              obtain ⟨rfl, rfl⟩ := Prod.mk.inj (Option.some_inj.mp hfound)
              rwa [Option.some_inj.mp (hdst.symm.trans hsome)]
            · intro hq
              exact ⟨localMap, rlocs, dstrloc, rfl, hdst, hq⟩
          refine Iff.trans ?_ (and_congr_right fun _ => (honly _).symm)
          dsimp only
          cases hcache : site.cache (IpPacket.ofBytes m.bytes).ipSrc with
          | none =>
              dsimp only
              rw [Outcome.bind_eq_accepted]
              simp only [missPolicy_eq_accepted_iff h, checkHeader_then_eq_accepted]
              constructor
              · rintro ⟨m₁, ⟨hsecure, rfl⟩, rfl, hheader⟩
                exact ⟨rfl, hsecure, hheader⟩
              · rintro ⟨rfl, hsecure, hheader⟩
                exact ⟨m', ⟨hsecure, rfl⟩, rfl, hheader⟩
          | some found =>
              obtain ⟨remoteMap, rlocs'⟩ := found
              dsimp only
              cases hsrc : mapFindrloc rlocs' srloc with
              | none => exact iff_of_false nofun fun hnone => nomatch hnone.2.1
              | some srcrloc =>
                  rw [if_neg (by simp), checkHeader_then_eq_accepted]
                  exact and_congr_right fun _ => (and_iff_right rfl).symm

theorem lispCheckIpMappings_eq_accepted_iff (h : site.Quiet) {drloc srloc : Address}
    {lisphdr : LispShimHdr} :
    lispCheckIpMappings kernel site m drloc srloc lisphdr = .accepted m' ↔
      kernel.mPullup m sizeofIp = some m' ∧
        site.Accepts (IpPacket.ofBytes m'.bytes).ipSrc (IpPacket.ofBytes m'.bytes).ipDst drloc
          srloc lisphdr := by
  unfold lispCheckIpMappings
  rw [Outcome.bind_eq_accepted]
  constructor
  · rintro ⟨m₁, hpull, hcheck⟩
    obtain ⟨rfl, haccepts⟩ := (checkMappings_eq_accepted_iff h).mp hcheck
    exact ⟨KernelCode.pullup_eq_accepted.mp hpull, haccepts⟩
  · rintro ⟨hpull, haccepts⟩
    exact ⟨m', KernelCode.pullup_eq_accepted.mpr hpull,
      (checkMappings_eq_accepted_iff h).mpr ⟨rfl, haccepts⟩⟩

/-- A packet is found behind its headers when it is more than a header itself. -/
theorem stripHeaders_eq (hmemory : kernel.HasMemory) {hdr ports inner : List UInt8}
    {ulen : UInt16} {srl drl : Vector UInt8 4} {h : LispShimHdr}
    (hm : m.bytes = hdr ++ behindOuter srl drl ports ulen h inner) (hhdr : hdr.length = 12)
    (hports : ports.length = 4) (hulen : ulen.toNat = 16 + inner.length) :
    if inner.length ≤ 20 then stripHeaders kernel m 20 ulen.toNat = .dropped
    else ∃ m', m'.bytes = inner ∧
      stripHeaders kernel m 20 ulen.toNat = .accepted ⟨hdr[8], .inet drl, .inet srl, h, m'⟩ := by
  obtain ⟨hbe, hsaved, hsrl, hdrl⟩ := reads_behindOuter srl drl inner ulen h hhdr hports
  have hlong : 20 + sizeofUdphdr ≤ m.bytes.length := by
    rw [hm, List.length_append, hhdr, length_behindOuter hports, sizeofUdphdr]
    omega
  have hshort : ulen.toNat ≤ sizeofUdphdr + sizeofLispshimhdr + sizeofIp ↔
      inner.length ≤ 20 := by
    rw [hulen]
    change 16 + inner.length ≤ 36 ↔ _
    omega
  have hfits : ¬(ulen.toNat ≠ ulen.toNat ∧ (ulen.toNat > ulen.toNat ∨
      ulen.toNat < sizeofUdphdr + sizeofLispshimhdr)) := fun hne => hne.1 rfl
  obtain ⟨m₀, hm₀, hbytes₀⟩ := hmemory.exists_mPullup (20 + sizeofUdphdr) hlong
  unfold stripHeaders
  rw [hm₀]
  dsimp only
  rw [hbytes₀, hm, hbe, if_neg hfits, Nat.sub_self, Nat.sub_zero, List.take_length]
  by_cases hle : inner.length ≤ 20
  · rw [if_pos hle, if_pos (hshort.mpr hle)]
  · rw [if_neg hle, if_neg (mt hshort.mp hle)]
    have hbehind : (Chain.adj ⟨hdr ++ behindOuter srl drl ports ulen h inner, m₀.head⟩
        (20 + sizeofUdphdr)).bytes = shimBytes h ++ inner := drop_behindOuter hhdr hports
    obtain ⟨m₁, hm₁, hbytes₁⟩ := hmemory.exists_mPullup sizeofLispshimhdr
      (show sizeofLispshimhdr ≤ (Chain.adj ⟨hdr ++ behindOuter srl drl ports ulen h inner,
        m₀.head⟩ (20 + sizeofUdphdr)).bytes.length by
          rw [hbehind, List.length_append, length_shimBytes]
          exact Nat.le_add_right _ _)
    rw [hbehind] at hbytes₁
    have hinner : (m₁.adj sizeofLispshimhdr).bytes = inner := by
      rw [Chain.adj, hbytes₁]
      exact List.drop_left' (length_shimBytes h)
    obtain ⟨m₂, hm₂, hbytes₂⟩ := hmemory.exists_mPullup sizeofIp
      (show sizeofIp ≤ (m₁.adj sizeofLispshimhdr).bytes.length by
        rw [hinner]
        exact (Nat.not_le.mp hle).le)
    have hlisp := Mem.holds_ofList (shimBytes h ++ inner) fun _ => 0
    rw [Mem.holds_append] at hlisp
    refine ⟨m₂, hbytes₂.trans hinner, ?_⟩
    rw [KernelCode.pullup_eq_accepted.mpr hm₁, Outcome.accepted_bind,
      KernelCode.pullup_eq_accepted.mpr hm₂, Outcome.accepted_bind, hbytes₁,
      shimOfMem_of_holds hlisp.1, IpPacket.ofBytes]
    dsimp only
    rw [hsaved, hdrl, hsrl]
    rfl

theorem length_swapHeader {bytes : List UInt8} (h : 8 ≤ bytes.length) :
    (swapHeader bytes).length = bytes.length := by
  rw [swapHeader, List.length_append, List.length_drop]
  change 8 + (bytes.length - 8) = bytes.length
  omega

theorem length_fixHeader (notifier : Notifier) {ip : ℕ} (h : 8 ≤ m.bytes.length) :
    (fixHeader notifier ip m).bytes.length = m.bytes.length := by
  unfold fixHeader Chain.through
  split
  · rfl
  split
  · exact length_swapHeader h
  · rfl

/-- A site that is to report headers, and has a listener, is stopped by a packet from an EID it
does not know that is shorter than an IPv6 header. -/
theorem lispInput_eq_nullPointer_of_short {off ipLen : ℕ} {s : Stripped} {localMap : Mapping}
    {rlocs : List (Address × RlocMtx)} {dstrloc : RlocMtx} (hmemory : kernel.HasMemory)
    (hstrip : stripHeaders kernel m off ipLen = .accepted s)
    (hv : (IpPacket.ofBytes s.m.bytes).ipV = 4)
    (hdb : site.db (IpPacket.ofBytes s.m.bytes).ipDst = some (localMap, rlocs))
    (hrloc : mapFindrloc rlocs s.drloc = some dstrloc)
    (hcache : site.cache (IpPacket.ofBytes s.m.bytes).ipSrc = none)
    (hetr : site.lispetr ≠ .standard) (hlistener : site.notifier.anyCount ≠ 0)
    (hheader : site.notifier.lispmissmsg = .header) (hip : sizeofIp ≤ s.m.bytes.length)
    (hshort : s.m.bytes.length < sizeofIp6Hdr) :
    lispInput kernel site m off ipLen = .nullPointer := by
  obtain ⟨m₁, hm₁, hbytes⟩ := hmemory.exists_mPullup sizeofIp hip
  have hlength : (fixHeader site.notifier m₁.head m₁).bytes.length = s.m.bytes.length := by
    rw [length_fixHeader _ (by rw [hbytes]; exact le_trans (by decide) hip), hbytes]
  have hnotify : notifyMiss kernel site.notifier (fixHeader site.notifier m₁.head m₁) =
      .nullPointer := by
    rw [notifyMiss_eq_nullPointer_iff hmemory site.notifier
      (IpPacket.ofBytes s.m.bytes).ipSrc (fun _ => 0) 0 0, mapNotifymsg, if_neg hlistener,
      if_pos rfl, mapNotifymsgMiss, hheader, if_neg (by simp), Option.map_eq_none_iff]
    change mapMsg1 mapmMissHeader _ _ = none
    rw [mapMsg1_missHeader, if_neg]
    rw [hlength]
    exact Nat.not_le.mpr hshort
  have hpolicy : missPolicy kernel site m₁ = .nullPointer := by
    unfold missPolicy
    cases hcase : site.lispetr with
    | standard => exact absurd hcase hetr
    | notify =>
        rw [hnotify]
        rfl
    | secure =>
        rw [hnotify]
        rfl
  have hcheck : lispCheckIpMappings kernel site s.m s.drloc s.srloc s.rlisphdr =
      .nullPointer := by
    rw [lispCheckIpMappings, KernelCode.pullup_eq_accepted.mpr hm₁, Outcome.accepted_bind,
      checkMappings, hbytes, hdb]
    dsimp only
    rw [hrloc]
    dsimp only
    rw [hcache]
    dsimp only
    rw [hpolicy, Outcome.nullPointer_bind]
  rw [lispInput, hstrip, Outcome.accepted_bind, if_pos hv, hcheck, Outcome.nullPointer_bind]

/-- What a site without reports makes of an IPv4 packet: it is handed on where the site accepts
it, with the TTL of the outer header unless it was moved. -/
theorem lispInput_eq_accepted_iff {isr : Isr} {r : List UInt8} {off ipLen : ℕ} {s : Stripped}
    (hquiet : site.Quiet) (hstrip : stripHeaders kernel m off ipLen = .accepted s)
    (hv : (IpPacket.ofBytes s.m.bytes).ipV = 4) :
    lispInput kernel site m off ipLen = .accepted (isr, r) ↔
      (kernel.mPullup s.m sizeofIp).isSome = true ∧
        site.Accepts (IpPacket.ofBytes s.m.bytes).ipSrc (IpPacket.ofBytes s.m.bytes).ipDst
          s.drloc s.srloc s.rlisphdr ∧
        isr = .ip ∧
        r = if kernel.Moves s.m then s.m.bytes
          else (copyTtl (.ofBytes s.m.bytes) s.savedTtl).toBytes := by
  have hthrough : ∀ m₁, kernel.mPullup s.m sizeofIp = some m₁ →
      (m₁.through s.m.head fun bytes => (copyTtl (.ofBytes bytes) s.savedTtl).toBytes).bytes =
        if kernel.Moves s.m then s.m.bytes
        else (copyTtl (.ofBytes s.m.bytes) s.savedTtl).toBytes := by
    intro m₁ hm₁
    rw [Chain.through, if_congr (KernelCode.moves_iff hm₁) rfl rfl, kernel.bytes_mPullup hm₁,
      ite_not]
    split
    · rfl
    · exact kernel.bytes_mPullup hm₁
  rw [lispInput, hstrip, Outcome.accepted_bind, if_pos hv, Outcome.bind_eq_accepted]
  simp only [lispCheckIpMappings_eq_accepted_iff hquiet]
  constructor
  · rintro ⟨m₁, ⟨hm₁, haccepts⟩, hr⟩
    rw [kernel.bytes_mPullup hm₁] at haccepts
    obtain ⟨hisr, hr⟩ := Prod.mk.inj (Outcome.accepted.inj hr)
    exact ⟨Option.isSome_of_eq_some hm₁, haccepts, hisr.symm, hr.symm.trans (hthrough m₁ hm₁)⟩
  · rintro ⟨hsome, haccepts, rfl, rfl⟩
    obtain ⟨m₁, hm₁⟩ := Option.isSome_iff_exists.mp hsome
    refine ⟨m₁, ⟨hm₁, ?_⟩, ?_⟩
    · rwa [kernel.bytes_mPullup hm₁]
    · rw [← hthrough m₁ hm₁]
      rfl

/-- A packet that comes out of the tunnel with a header that verified in it still has one
exactly when it was moved, and so kept its TTL, or the outer TTL is not above its own. -/
theorem decapsulated_verifies_iff {r : List UInt8} {off ipLen hlen : ℕ} {s : Stripped}
    (hquiet : site.Quiet) (hstrip : stripHeaders kernel m off ipLen = .accepted s)
    (h : 12 ≤ hlen) (hverifies : (IpPacket.ofBytes s.m.bytes).Verifies hlen)
    (hinput : lispInput kernel site m off ipLen = .accepted (.ip, r)) :
    (IpPacket.ofBytes r).Verifies hlen ↔
      kernel.Moves s.m ∨ s.savedTtl ≤ (IpPacket.ofBytes s.m.bytes).ipTtl := by
  by_cases hv : (IpPacket.ofBytes s.m.bytes).ipV = 4
  · have hne : (IpPacket.ofBytes s.m.bytes).ipV ≠ 0 := by
      rw [hv]
      decide
    obtain ⟨-, -, -, hr⟩ := (lispInput_eq_accepted_iff hquiet hstrip hv).mp hinput
    by_cases hmoves : kernel.Moves s.m
    · rw [hr, if_pos hmoves]
      exact iff_of_true hverifies (Or.inl hmoves)
    · rw [hr, if_neg hmoves, IpPacket.ofBytes_toBytes, verifies_copyTtl_iff _ _ h hne hverifies,
        or_iff_right hmoves]
  · rw [lispInput, hstrip, Outcome.accepted_bind, if_neg hv] at hinput
    split at hinput
    · obtain ⟨m₁, -, hr⟩ := Outcome.bind_eq_accepted.mp hinput
      cases hr
    · cases hinput

end Kernel

section Input

variable {kernel : KernelCode} {site : Site} {hlen : ℕ}

/-- What the way of an encapsulated packet may change: the part of its IP header with the
checksum, where it leaves the given TTL. -/
structure Carried (sent recv : List UInt8) (ttl : UInt8) : Prop where
  length : recv.length = sent.length
  ttl : recv[8]? = some ttl
  behind : recv.drop 12 = sent.drop 12

theorem lispIpEncap_eq (fresh : Vector UInt8 2) (h : LispShimHdr) (inner : List UInt8) (len : ℕ)
    (srl drl : Vector UInt8 4) (ttl : UInt8) (usport : UInt16) :
    ∃ hdr, hdr.length = 12 ∧
      lispIpEncap fresh (shimBytes h ++ inner) len srl drl ttl usport =
        hdr ++ behindOuter srl drl (Mem.be16Bytes usport ++ Mem.be16Bytes lispdata)
          (.ofNat (len + sizeofUdphdr)) h inner := by
  refine ⟨[0x40, 0] ++ (Mem.be16Bytes (.ofNat (sizeofIp + sizeofUdphdr + len)) ++
    ([0, 0, 0x40, 0, ttl, 17] ++ fresh.toList)), ?_, ?_⟩
  · simp only [List.length_append, Mem.length_be16Bytes, Vector.length_toList, List.length_cons,
      List.length_nil]
  · simp only [lispIpEncap, behindOuter, List.append_assoc]

theorem exists_delayedCksum (kernel : KernelCode) (delayed : Bool) (p : IpPacket) :
    ∃ rest, rest.length = p.rest.length ∧
      delayedCksum kernel delayed p = { p with rest := rest } := by
  cases delayed with
  | true => exact ⟨_, kernel.length_inDelayedCksum p, rfl⟩
  | false => exact ⟨_, rfl, rfl⟩

/-- What is sent of a packet: behind the first part of its IP header the addresses, the UDP and
LISP headers, and the packet with its checksum. -/
theorem lispOutput_eq_ok {p : IpPacket} {fresh : Vector UInt8 2} {delayed : Bool}
    {localmap remotemap : Mapping} {dstrloc srcrloc : Vector UInt8 4 × RlocMtx}
    {usrcport : UInt16} {sent : List UInt8}
    (hsend : lispOutput kernel fresh delayed p hlen localmap remotemap dstrloc srcrloc usrcport =
      .ok sent) :
    ∃ rest hdr ip, rest.length = p.rest.length ∧
      delayedCksum kernel delayed p = { p with rest := rest } ∧
      ip = { p with
        rest := rest
        ipSum := kernel.inCksum (IpPacket.header { p with rest := rest, ipSum := 0 } hlen) } ∧
      hdr.length = 12 ∧ ip.toBytes.length + 16 < 65536 ∧
      sent = hdr ++ behindOuter srcrloc.1 dstrloc.1
        (Mem.be16Bytes usrcport ++ Mem.be16Bytes lispdata) (.ofNat (16 + ip.toBytes.length))
        (mLisphdrprepend remotemap localmap dstrloc.2) ip.toBytes := by
  obtain ⟨rest, hrest, hdelayed⟩ := exists_delayedCksum kernel delayed p
  unfold lispOutput at hsend
  dsimp only at hsend
  rw [hdelayed] at hsend
  dsimp only at hsend
  set ip : IpPacket := { p with
    rest := rest
    ipSum := kernel.inCksum (IpPacket.header { p with rest := rest, ipSum := 0 } hlen) } with hip
  have hlength : p.toBytes.length = ip.toBytes.length := by
    rw [IpPacket.length_toBytes, IpPacket.length_toBytes, hrest]
  split at hsend
  case isTrue => cases hsend
  case isFalse hfits =>
    rw [Except.ok.injEq] at hsend
    obtain ⟨hdr, hhdr, hencap⟩ := lispIpEncap_eq fresh
      (mLisphdrprepend remotemap localmap dstrloc.2) ip.toBytes
      (p.toBytes.length + sizeofLispshimhdr) srcrloc.1 dstrloc.1 ip.ipTtl usrcport
    have hulen : p.toBytes.length + sizeofLispshimhdr + sizeofUdphdr =
        16 + ip.toBytes.length := by
      rw [hlength, sizeofLispshimhdr, sizeofUdphdr]
      omega
    have hmax : ip.toBytes.length + 16 < 65536 := by
      by_contra hgt
      refine hfits (Or.inr (Or.inr ?_))
      rw [hlength, sizeofUdphdr, sizeofIp, sizeofLispshimhdr, ipMaxpacket]
      omega
    rw [hulen] at hencap
    exact ⟨rest, hdr, ip, hrest, hdelayed, rfl, hhdr, hmax, hsend.symm.trans hencap⟩

/-- On the way the part behind the checksum of the outer header stays. -/
theorem Carried.bytes_eq {hdr behind recv : List UInt8} {ttl : UInt8}
    (h : Carried (hdr ++ behind) recv ttl) (hhdr : hdr.length = 12) :
    recv = recv.take 12 ++ behind ∧ recv.length = 12 + behind.length ∧
      ∃ hlen : (recv.take 12).length = 12, (recv.take 12)[8] = ttl := by
  have hdrop : recv.drop 12 = behind := h.behind.trans (List.drop_left' hhdr)
  have hlength : recv.length = 12 + behind.length := by
    rw [h.length, List.length_append, hhdr]
  refine ⟨?_, hlength, ?_, ?_⟩
  · rw [← hdrop, List.take_append_drop]
  · rw [List.length_take]
    omega
  · rw [List.getElem_take]
    exact (List.getElem?_eq_some_iff.mp h.ttl).2

/-- A packet that is carried to a site is found there behind its headers, with the TTL of the
outer one. -/
theorem stripHeaders_of_carried (hmemory : kernel.HasMemory) {hdr ports inner : List UInt8}
    {srl drl : Vector UInt8 4} {h : LispShimHdr} {recv : Chain} {ttl : UInt8}
    (hhdr : hdr.length = 12) (hports : ports.length = 4) (hmax : inner.length + 16 < 65536)
    (hcarried : Carried
      (hdr ++ behindOuter srl drl ports (.ofNat (16 + inner.length)) h inner) recv.bytes ttl) :
    if inner.length ≤ 20 then stripHeaders kernel recv 20 (recv.bytes.length - 20) = .dropped
    else ∃ m', m'.bytes = inner ∧ stripHeaders kernel recv 20 (recv.bytes.length - 20) =
      .accepted ⟨ttl, .inet drl, .inet srl, h, m'⟩ := by
  obtain ⟨hrecv, hlength, htake, hsaved⟩ := hcarried.bytes_eq hhdr
  rw [length_behindOuter hports] at hlength
  have hulen : (UInt16.ofNat (16 + inner.length)).toNat = 16 + inner.length := by
    rw [UInt16.toNat_ofNat']
    exact Nat.mod_eq_of_lt (by omega)
  have hstrip := stripHeaders_eq hmemory hrecv htake hports hulen
  have hiplen : 16 + inner.length = recv.bytes.length - 20 := by omega
  rwa [hulen, hiplen, hsaved] at hstrip

/-- A packet that is encapsulated and comes to a site that accepts its LISP header is taken out
again as it was, with a checksum that verifies; but one that is only a header is dropped.  It
has the TTL of the outer header unless it was moved meanwhile. -/
theorem tunnel_preserves {p : IpPacket} {fresh : Vector UInt8 2} {delayed : Bool}
    {localmap remotemap : Mapping} {dstrloc srcrloc : Vector UInt8 4 × RlocMtx}
    {usrcport : UInt16} {sent : List UInt8} {recv : Chain} {ttl : UInt8}
    (hv : p.ipV = 4) (h : 12 ≤ hlen) (hmemory : kernel.HasMemory) (hquiet : site.Quiet)
    (hsend : lispOutput kernel fresh delayed p hlen localmap remotemap dstrloc srcrloc usrcport =
      .ok sent)
    (hcarried : Carried sent recv.bytes ttl) (httl : ttl ≤ p.ipTtl)
    (haccepts : site.Accepts p.ipSrc p.ipDst (.inet dstrloc.1) (.inet srcrloc.1)
      (mLisphdrprepend remotemap localmap dstrloc.2)) :
    if p.rest = [] then
      lispInput kernel site recv 20 (recv.bytes.length - 20) = .dropped
    else
      ∃ s out sum, stripHeaders kernel recv 20 (recv.bytes.length - 20) = .accepted s ∧
        lispInput kernel site recv 20 (recv.bytes.length - 20) =
          .accepted (.ip, IpPacket.toBytes out) ∧
        out = { delayedCksum kernel delayed p with
          ipTtl := if kernel.Moves s.m then p.ipTtl else ttl
          ipSum := sum } ∧
        out.Verifies hlen := by
  obtain ⟨rest, hdr, ip, hrest, hdelayed, hip, hhdr, hmax, rfl⟩ := lispOutput_eq_ok hsend
  have hne : p.ipV ≠ 0 := by
    rw [hv]
    decide
  have hverifies : ip.Verifies hlen := by
    rw [hip]
    exact IpPacket.verifies_inCksum { p with rest := rest } kernel h hne
  have hstrip := stripHeaders_of_carried hmemory hhdr rfl hmax hcarried
  have hshort : ip.toBytes.length ≤ 20 ↔ p.rest = [] := by
    rw [IpPacket.length_toBytes, hip, ← List.length_eq_zero_iff, ← hrest]
    dsimp only
    omega
  by_cases hempty : p.rest = []
  · rw [if_pos (hshort.mpr hempty)] at hstrip
    rw [if_pos hempty, lispInput, hstrip, Outcome.dropped_bind]
  · rw [if_neg (mt hshort.mp hempty)] at hstrip
    obtain ⟨m', hm', hstrip⟩ := hstrip
    have hread : IpPacket.ofBytes m'.bytes = ip := by
      rw [hm', IpPacket.ofBytes_toBytes]
    have hvip : (IpPacket.ofBytes m'.bytes).ipV = 4 := by
      rw [hread, hip]
      exact hv
    have hlong : sizeofIp ≤ m'.bytes.length := by
      rw [hm']
      exact (Nat.not_le.mp (mt hshort.mp hempty)).le
    have haccepted : site.Accepts (IpPacket.ofBytes m'.bytes).ipSrc
        (IpPacket.ofBytes m'.bytes).ipDst (.inet dstrloc.1) (.inet srcrloc.1)
        (mLisphdrprepend remotemap localmap dstrloc.2) := by
      rw [hread, hip]
      exact haccepts
    have hinput := (lispInput_eq_accepted_iff hquiet hstrip hvip).mpr
      ⟨hmemory m' sizeofIp hlong, haccepted, rfl, rfl⟩
    dsimp only at hinput
    rw [if_neg hempty, hdelayed]
    by_cases hmoves : kernel.Moves m'
    · rw [if_pos hmoves, hm'] at hinput
      refine ⟨_, ip, ip.ipSum, hstrip, hinput, ?_, hverifies⟩
      rw [if_pos hmoves, hip]
    · rw [if_neg hmoves, hread] at hinput
      refine ⟨_, copyTtl ip ttl, (copyTtl ip ttl).ipSum, hstrip, hinput, ?_, ?_⟩
      · rw [if_neg hmoves, hip]
        rfl
      · exact (verifies_copyTtl_iff ip ttl h (hip ▸ hne) hverifies).mpr (hip ▸ httl)

end Input

/-! ## A packet of eight bytes -/

/-- The checksum of the kernel. -/
def plainCksum (bytes : List UInt8) : UInt16 :=
  .ofNat (0xFFFF - onesSum 65536 (hostWords bytes))

/-- A kernel in which a packet that has its header in one mbuf stays where it is.  No checksum
was put off. -/
def stillKernel : KernelCode where
  mPullup m len := if len ≤ m.bytes.length then some m else none
  inCksum := plainCksum
  inDelayedCksum ip := ip.rest
  bytes_mPullup := by
    intro m len m' h
    split at h
    · rw [Option.some_inj.mp h]
    · cases h
  length_mPullup := by
    intro m len m' h
    split at h
    case isTrue hlen => exact hlen
    case isFalse => cases h
  toNat_inCksum := fun bytes => by
    rw [plainCksum, UInt16.toNat_ofNat']
    exact Nat.mod_eq_of_lt (by omega)
  length_inDelayedCksum := fun _ => rfl

theorem hasMemory_stillKernel : stillKernel.HasMemory := by
  intro m len hlen
  change (if len ≤ m.bytes.length then some m else none).isSome = true
  rw [if_pos hlen]
  rfl

/-- A packet with eight bytes of data. -/
def shortPacket : IpPacket :=
  ⟨#v[0x45, 0, 0, 28, 0, 0, 0, 0], 64, 17, 0, #v[10, 3, 0, 1], #v[10, 4, 0, 1],
    List.replicate 8 0⟩

/-- The locator of a site, without an MTU. -/
def siteLocator (last : UInt8) : Vector UInt8 4 × RlocMtx :=
  (#v[172, 16, 9, last], upMetrics 0 0)

/-- A table in which every EID has the same locator. -/
def siteView (last : UInt8) : View := fun _ =>
  some (⟨0, 0, 0⟩, [(.inet (siteLocator last).1, (siteLocator last).2)])

/-- The site 2, which knows the site 1 and tells no one of what it does not know. -/
def siteTwo : Site :=
  ⟨.standard, ⟨0, .eid, (none, 0)⟩, siteView 2, siteView 1, fun _ _ _ _ => .dropped⟩

theorem quiet_siteTwo : siteTwo.Quiet := nofun

/-- What is sent of the packet from the site 1 to the site 2. -/
def sentPacket : Except OutputErrno (List UInt8) :=
  lispOutput stillKernel #v[0x5A, 0xA5] false shortPacket 20 ⟨0, 0, 0⟩ ⟨0, 0, 0⟩ (siteLocator 2)
    (siteLocator 1) 61000

/-- The packet with an outer TTL above the inner one. -/
def grownPacket : Chain :=
  match sentPacket with
  | .ok sent => ⟨sent.set 8 70, 0⟩
  | .error _ => ⟨[], 0⟩

/-- The packet as it is sent, with its checksum. -/
def summedPacket : IpPacket :=
  { shortPacket with ipSum := plainCksum (shortPacket.header 20) }

theorem decapsulated_verifies_iff_grown : ∃ s r,
    stripHeaders stillKernel grownPacket 20 44 = .accepted s ∧
      lispInput stillKernel siteTwo grownPacket 20 44 = .accepted (.ip, r) ∧
      ((IpPacket.ofBytes r).Verifies 20 ↔
        stillKernel.Moves s.m ∨ s.savedTtl ≤ (IpPacket.ofBytes s.m.bytes).ipTtl) := by
  have hstrip : stripHeaders stillKernel grownPacket 20 44 =
      .accepted ⟨70, .inet (siteLocator 2).1, .inet (siteLocator 1).1,
        mLisphdrprepend ⟨0, 0, 0⟩ ⟨0, 0, 0⟩ (siteLocator 2).2, ⟨summedPacket.toBytes, 0⟩⟩ := by
    decide +kernel
  have hinput : lispInput stillKernel siteTwo grownPacket 20 44 =
      .accepted (.ip, (copyTtl summedPacket 70).toBytes) := by
    decide +kernel
  have hverifies : (IpPacket.ofBytes summedPacket.toBytes).Verifies 20 := by decide +kernel
  exact ⟨_, _, hstrip, hinput,
    decapsulated_verifies_iff quiet_siteTwo hstrip (by decide) hverifies hinput⟩

theorem tunnel_preserves_short : ∃ sent, sentPacket = .ok sent ∧ ∃ s out sum,
    stripHeaders stillKernel ⟨sent.set 8 60, 0⟩ 20 ((sent.set 8 60).length - 20) = .accepted s ∧
      lispInput stillKernel siteTwo ⟨sent.set 8 60, 0⟩ 20 ((sent.set 8 60).length - 20) =
        .accepted (.ip, IpPacket.toBytes out) ∧
      out = { delayedCksum stillKernel false shortPacket with
        ipTtl := if stillKernel.Moves s.m then shortPacket.ipTtl else 60
        ipSum := sum } ∧
      out.Verifies 20 := by
  obtain ⟨sent, hsend⟩ : ∃ sent, sentPacket = .ok sent := ⟨_, rfl⟩
  have hlong : 8 < sent.length := by
    have hsize : (sentPacket.toOption.all fun m => 8 < m.length) = true := by decide +kernel
    rw [hsend] at hsize
    exact of_decide_eq_true hsize
  refine ⟨sent, hsend, ?_⟩
  have hcarried : Carried sent (Chain.mk (sent.set 8 60) 0).bytes 60 :=
    ⟨List.length_set, List.getElem?_set_self hlong, List.drop_set_of_lt (by decide)⟩
  have haccepts : siteTwo.Accepts shortPacket.ipSrc shortPacket.ipDst (.inet (siteLocator 2).1)
      (.inet (siteLocator 1).1) (mLisphdrprepend ⟨0, 0, 0⟩ ⟨0, 0, 0⟩ (siteLocator 2).2) :=
    ⟨⟨0, 0, 0⟩, [(.inet (siteLocator 2).1, (siteLocator 2).2)], (siteLocator 2).2, rfl,
      by decide +kernel, by decide +kernel, by decide +kernel⟩
  have hversion : shortPacket.ipV = 4 := by decide
  have httl : 60 ≤ shortPacket.ipTtl := by decide
  have hresult := tunnel_preserves hversion (by decide : 12 ≤ 20) hasMemory_stillKernel
    quiet_siteTwo hsend hcarried httl haccepts
  rw [if_neg (by decide : shortPacket.rest ≠ [])] at hresult
  exact hresult

end HyLisp.DataPlane.Tunnel
