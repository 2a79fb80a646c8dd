import HyLisp.ControlPlane.RequestParser
import HyLisp.Hypervisor.Demux
import HyLisp.Hypervisor.ReceiveBuffer
import HyLisp.Interop.HvPrefix

/-!
# The EID of a Map-Request, to the hypervisor and to the control plane

Both parse the same bytes: the hypervisor to choose a control plane, and the
chosen control plane to answer.  They walk over the same fields, but the control
plane takes every inner IPv4 header to be twenty bytes long and believes the
record count.  Behind headers without IPv4 options, the two agree on a datagram
exactly when a record that both come to is counted and complete.  Behind options
the control plane reads a message that is not the one of the hypervisor.
-/

namespace HyLisp.Interop

open ControlPlane DataPlane Hypervisor

/-! ## Datagrams -/

/-- What stands in front of a Map-Request when no IPv4 options do. -/
inductive Headers
  | none
  | ipv4
  | ipv6
  deriving DecidableEq, Repr

/-- The offset of the Map-Request. -/
def Headers.offset : Headers → ℕ
  | .none => 0
  | .ipv4 => 32
  | .ipv6 => 52

/-- The headers stand at the start of the datagram. -/
def Headers.Start (datagram : Mem) : Headers → Prop
  | .none => True
  | .ipv4 => packetType datagram = 8 ∧ datagram 4 = 0x45
  | .ipv6 => packetType datagram = 8 ∧ datagram 4 >>> 4 = 6

instance (datagram : Mem) (headers : Headers) :
    Decidable (headers.Start datagram) := by
  cases headers <;> unfold Headers.Start <;> infer_instance

/-- A Map-Request starts at the offset. -/
def RequestAt (datagram : Mem) (len offset : ℕ) : Prop :=
  offset < len ∧ packetType (datagram.advance offset) = 1

instance (datagram : Mem) (len offset : ℕ) :
    Decidable (RequestAt datagram len offset) :=
  inferInstanceAs (Decidable (_ ∧ _))

/-- The datagram holds a Map-Request, by itself or in an encapsulation with an IP
header of its full size. -/
def HoldsRequest (datagram : Mem) (len : ℕ) : Prop :=
  ∃ inner innerLen,
    ((datagram, len) = (inner, innerLen) ∧ 0 < len ∨
      Encapsulates (datagram, len) (inner, innerLen) ∧
        (datagram 4 >>> 4 = 4 → 5 ≤ (datagram 4 &&& 0x0F).toNat)) ∧
      packetType inner = 1

/-- A Map-Request without IPv4 options in front of it. -/
def Aligned (datagram : Mem) (len : ℕ) : Prop :=
  ∃ headers : Headers, headers.Start datagram ∧ RequestAt datagram len headers.offset

/-- A Map-Request behind an IPv4 header of more than five words. -/
def HasOptions (datagram : Mem) (len : ℕ) (ihl : Fin 10) : Prop :=
  packetType datagram = 8 ∧ datagram 4 = 0x46 + .ofNat ihl ∧
    RequestAt datagram len (36 + 4 * ihl)

instance (datagram : Mem) (len : ℕ) (ihl : Fin 10) :
    Decidable (HasOptions datagram len ihl) :=
  inferInstanceAs (Decidable (_ ∧ _ ∧ _))

theorem ipv4Header_cases {x : UInt8} (hversion : x >>> 4 = 4)
    (hihl : 5 ≤ (x &&& 0x0F).toNat) :
    x = 0x45 ∧ (x &&& 0x0F).toNat = 5 ∨
      ∃ ihl : Fin 10, x = 0x46 + .ofNat ihl ∧ (x &&& 0x0F).toNat = 6 + ihl := by
  have hall : ∀ n : Fin 256, UInt8.ofFin n >>> 4 = 4 →
      5 ≤ (UInt8.ofFin n &&& 0x0F).toNat →
      UInt8.ofFin n = 0x45 ∧ (UInt8.ofFin n &&& 0x0F).toNat = 5 ∨
        ∃ ihl : Fin 10, UInt8.ofFin n = 0x46 + .ofNat ihl ∧
          (UInt8.ofFin n &&& 0x0F).toNat = 6 + ihl := by
    decide +kernel
  exact hall x.toFin hversion hihl

theorem HoldsRequest.aligned_or_options {datagram : Mem} {len : ℕ}
    (h : HoldsRequest datagram len) :
    Aligned datagram len ∨ ∃ ihl, HasOptions datagram len ihl := by
  obtain ⟨inner, innerLen, hheld, htype⟩ := h
  rcases hheld with ⟨heq, hlen⟩ | ⟨hencap, hsize⟩
  · obtain ⟨rfl, rfl⟩ := Prod.mk.inj heq
    exact Or.inl ⟨.none, trivial, hlen, htype⟩
  · cases hencap with
    | ipv4 hecm hversion hihl hlen =>
        subst hihl
        rcases ipv4Header_cases hversion (hsize hversion) with
          ⟨hbyte, hfive⟩ | ⟨ihl, hbyte, hsix⟩
        · rw [hfive] at hlen htype
          exact Or.inl ⟨.ipv4, ⟨hecm, hbyte⟩, hlen, htype⟩
        · rw [hsix, show 4 + 4 * (6 + ihl.val) + 8 = 36 + 4 * ihl.val by omega]
            at hlen htype
          exact Or.inr ⟨ihl, hecm, hbyte, hlen, htype⟩
    | ipv6 hecm hversion hlen =>
        exact Or.inl ⟨.ipv6, ⟨hecm, hversion⟩, hlen, htype⟩

/-! ## Agreement -/

/-- The first EID prefix the control plane parses is the one the hypervisor
routes on, when it has one and the control plane accepts the datagram.  Of the
two buffers only the datagram is the same. -/
def AgreeOnEid (hvBuf cpBuf : Mem) (len : ℕ) : Prop :=
  ∀ p eids, p.prefixlen.toNat ≤ p.addr.width →
    extractEidCp hvBuf len = hvPrefix p → requestEids cpBuf len = some eids →
    eids.head?.map hvPrefix = some (hvPrefix p)

/-- The two agree on the datagram, whatever lies behind it in their buffers. -/
def AlwaysAgree (datagram : Mem) (len : ℕ) : Prop :=
  ∀ hvBuf cpBuf, Mem.Agree len datagram hvBuf → Mem.Agree len datagram cpBuf →
    AgreeOnEid hvBuf cpBuf len

/-- No ITR-RLOC is empty.  The control plane refuses one that is. -/
def RlocsNamed (request : Mem) : ℕ → ℕ → Prop
  | 0, _ => True
  | n + 1, offset =>
      request.be16 offset ≠ 0 ∧
        ∀ next, skipAfiAddressCouple request offset = some next →
          RlocsNamed request n next

/-- Both walk over the source EID and the ITR-RLOCs to a record. -/
def ReachesRecord (request : Mem) (len offset : ℕ) : Prop :=
  firstRecord request len = some offset ∧
    ∀ source, skipCouples request len 1 12 = some source →
      RlocsNamed request (rlocCount request) source

/-- A record names a prefix, of a length that fits the sixteen bytes of the
hypervisor. -/
def NamesPrefix (request : Mem) (offset : ℕ) : Prop :=
  request.be16 (offset + 2) = 1 ∧ (request (offset + 1) + 96).toNat ≤ 128 ∨
    request.be16 (offset + 2) = 2 ∧ (request (offset + 1)).toNat ≤ 128

/-- A record that both come to, and that may name a prefix by what follows the
datagram, is counted and lies inside the datagram. -/
def RecordShared (request : Mem) (len : ℕ) : Prop :=
  ∀ offset m, ReachesRecord request len offset → Mem.Agree len request m →
    NamesPrefix m offset → request 3 ≠ 0 ∧ RecordInside request len offset

instance (request : Mem) (len offset : ℕ) : Decidable (RecordInside request len offset) :=
  inferInstanceAs (Decidable (_ ∧ _ ∨ _))

/-- A Map-Request without IPv4 options in front of it, whose record is shared. -/
def Agreeable (datagram : Mem) (len : ℕ) : Prop :=
  ∃ headers : Headers, headers.Start datagram ∧ RequestAt datagram len headers.offset ∧
    RecordShared (datagram.advance headers.offset) (len - headers.offset)

/-! ## One walk, made twice -/

section Walk

variable {request request' m : Mem} {len offset : ℕ}

theorem skipAfiAddressCouple_cases {m : Mem} {offset next : ℕ}
    (h : skipAfiAddressCouple m offset = some next) :
    m.be16 offset = 0 ∧ next = offset + 2 ∨
      m.be16 offset = 1 ∧ next = offset + 6 ∨
      m.be16 offset = 2 ∧ next = offset + 18 := by
  unfold skipAfiAddressCouple at h
  dsimp only at h
  split at h
  next h0 => exact Or.inl ⟨h0, (Option.some_inj.mp h).symm⟩
  split at h
  next h1 => exact Or.inr (Or.inl ⟨h1, (Option.some_inj.mp h).symm⟩)
  split at h
  next h2 => exact Or.inr (Or.inr ⟨h2, (Option.some_inj.mp h).symm⟩)
  · cases h

theorem readAddress_cases {m : Mem} {addr : Address}
    (h : readAddress m = some addr) :
    m.be16 0 = 1 ∧ addr = .inet (m.bytes 2 4) ∧ getAddressSize m = 6 ∨
      m.be16 0 = 2 ∧ addr = .inet6 (m.bytes 2 16) ∧ getAddressSize m = 18 := by
  unfold readAddress at h
  unfold getAddressSize
  split at h
  next h1 =>
    exact Or.inl ⟨h1, (Option.some_inj.mp h).symm, if_pos h1⟩
  split at h
  next h1 h2 =>
    exact Or.inr ⟨h2, (Option.some_inj.mp h).symm, by rw [if_neg h1, if_pos h2]⟩
  · cases h

/-- An AFI the hypervisor reads inside the datagram is the one the control plane
reads. -/
theorem be16_of_agree (h : Mem.Agree len request request') {offset : ℕ}
    (hin : offset + 2 ≤ len) :
    (request'.advance offset).be16 0 = request.be16 offset := by
  rw [Mem.be16_advance, Nat.add_zero, h.be16 hin]

theorem readAddress_inet (h : m.be16 0 = 1) :
    readAddress m = some (.inet (m.bytes 2 4)) ∧ getAddressSize m = 6 :=
  ⟨if_pos h, if_pos h⟩

theorem readAddress_inet6 (h : m.be16 0 = 2) :
    readAddress m = some (.inet6 (m.bytes 2 16)) ∧ getAddressSize m = 18 := by
  have hne : ¬ getAddressType m = lispAfiIp := by
    rw [getAddressType, h]
    decide
  exact ⟨(if_neg hne).trans (if_pos h), (if_neg hne).trans (if_pos h)⟩

/-- Behind ITR-RLOCs with an address both stand at the same offset. -/
theorem readItrRlocs_of_named (h : Mem.Agree len request request') {n last : ℕ}
    (hskip : skipCouples request len n offset = some last)
    (hnamed : RlocsNamed request n offset) :
    ∃ addrs, readItrRlocs request' n offset = some (addrs, last) := by
  induction n generalizing offset with
  | zero =>
      obtain rfl := Option.some_inj.mp hskip
      exact ⟨[], rfl⟩
  | succ n ih =>
      rw [skipCouples] at hskip
      split at hskip
      · cases hskip
      next next hcouple =>
        split at hskip
        · cases hskip
        next hlt =>
          have hge := skipAfiAddressCouple_ge hcouple
          have hafi := be16_of_agree h (show offset + 2 ≤ len by omega)
          obtain ⟨addrs, hrest⟩ := ih hskip (hnamed.2 next hcouple)
          rw [readItrRlocs]
          rcases skipAfiAddressCouple_cases hcouple with ⟨h0, -⟩ | ⟨h1, rfl⟩ | ⟨h2, rfl⟩
          · exact absurd h0 hnamed.1
          · obtain ⟨haddr, hsize⟩ := readAddress_inet (hafi.trans h1)
            rw [haddr, hsize, hrest]
            exact ⟨_, rfl⟩
          · obtain ⟨haddr, hsize⟩ := readAddress_inet6 (hafi.trans h2)
            rw [haddr, hsize, hrest]
            exact ⟨_, rfl⟩

/-- Only these are read by the control plane. -/
theorem rlocsNamed_of_readItrRlocs (h : Mem.Agree len request request')
    {n last : ℕ} {result : List Address × ℕ}
    (hskip : skipCouples request len n offset = some last)
    (hread : readItrRlocs request' n offset = some result) :
    RlocsNamed request n offset := by
  induction n generalizing offset result with
  | zero => trivial
  | succ n ih =>
      rw [skipCouples] at hskip
      split at hskip
      · cases hskip
      next next hcouple =>
        split at hskip
        · cases hskip
        next hlt =>
          have hge := skipAfiAddressCouple_ge hcouple
          have hafi := be16_of_agree h (show offset + 2 ≤ len by omega)
          rw [readItrRlocs] at hread
          cases haddr : readAddress (request'.advance offset) with
          | none =>
              rw [haddr] at hread
              cases hread
          | some addr =>
              rw [haddr] at hread
              obtain ⟨result', hrest, -⟩ := Option.map_eq_some_iff.mp hread
              have hsize : offset + getAddressSize (request'.advance offset) = next ∧
                  request.be16 offset ≠ 0 := by
                have hcases := skipAfiAddressCouple_cases hcouple
                rcases readAddress_cases haddr with ⟨h1, -, hsize⟩ | ⟨h2, -, hsize⟩
                · omega
                · omega
              rw [hsize.1] at hrest
              refine ⟨hsize.2, fun next' hnext' => ?_⟩
              obtain rfl := Option.some_inj.mp (hcouple.symm.trans hnext')
              exact ih hskip hrest

/-- Behind the source EID both stand at the same offset. -/
theorem eidSize_offset (h : Mem.Agree len request request') {next : ℕ}
    (hskip : skipCouples request len 1 12 = some next) :
    12 + eidSize (request'.advance 12) = next := by
  rw [skipCouples] at hskip
  split at hskip
  · cases hskip
  next next' hcouple =>
    split at hskip
    · cases hskip
    next hlt =>
      rw [skipCouples, Option.some_inj] at hskip
      subst hskip
      have hge := skipAfiAddressCouple_ge hcouple
      have hafi := be16_of_agree h (show 12 + 2 ≤ len by omega)
      have hcouple := skipAfiAddressCouple_cases hcouple
      unfold eidSize
      cases haddr : readAddress (request'.advance 12) with
      | none =>
          have hnone : (request'.advance 12).be16 0 ≠ 1 ∧
              (request'.advance 12).be16 0 ≠ 2 := by
            constructor
            · intro h1
              rw [readAddress, getAddressType, h1] at haddr
              cases haddr
            · intro h2
              rw [readAddress, getAddressType, h2] at haddr
              cases haddr
          rw [Option.isSome_none, if_neg Bool.false_ne_true]
          omega
      | some addr =>
          rw [Option.isSome_some, if_pos rfl]
          rcases readAddress_cases haddr with ⟨h1, -, hsize⟩ | ⟨h2, -, hsize⟩
          · omega
          · omega

/-- An EID that is a prefix was read from a record of a known family. -/
theorem afi_of_eq_hvPrefix {m : Mem} {prefixLength : UInt8} {p : Prefix}
    (h : processAfiAddressCouple m prefixLength = hvPrefix p) :
    m.be16 0 = 1 ∨ m.be16 0 = 2 := by
  by_contra hafi
  have hreason := congrArg Ipv6Prefix.reason h
  rw [hvPrefix_reason] at hreason
  rcases Nat.eq_zero_or_pos (m.be16 0) with h0 | hpos
  · rw [processAfiAddressCouple_empty h0] at hreason
    cases hreason
  · rw [processAfiAddressCouple_unknown (by omega)] at hreason
    cases hreason

/-- The control plane goes on to the record that both come to. -/
theorem udpPrcRequest_of_reaches (h : Mem.Agree len request request')
    (htype : packetType request' = 1) (hreach : ReachesRecord request len offset) :
    (udpPrcRequest request').map Prod.snd =
      readRecords request' (request' 3).toNat offset := by
  obtain ⟨hfirst, hnamed⟩ := hreach
  have hbounds := firstRecord_bounds hfirst
  rw [firstRecord, Option.bind_eq_some_iff] at hfirst
  obtain ⟨source, hsource, hrlocs⟩ := hfirst
  obtain ⟨addrs, hitr⟩ := readItrRlocs_of_named h hrlocs (hnamed source hsource)
  have hcount : (request' 2 &&& 0x1F).toNat + 1 = rlocCount request := by
    rw [rlocCount, h 2 (by omega)]
  have htype : ¬ lispType request' ≠ lispTypeMapRequest := not_not.mpr htype
  rw [udpPrcRequest, if_neg htype]
  dsimp only
  rw [sizeofMapRequestHdr, eidSize_offset h hsource, hcount, hitr]
  dsimp only
  cases readRecords request' (request' 3).toNat offset with
  | none => rfl
  | some eids => rfl

/-- It accepts nothing else behind the walk of the hypervisor. -/
theorem reaches_of_udpPrcRequest (h : Mem.Agree len request request')
    {result : List Address × List Prefix} (hfirst : firstRecord request len = some offset)
    (haccepted : udpPrcRequest request' = some result) :
    ReachesRecord request len offset := by
  refine ⟨hfirst, fun source hsource => ?_⟩
  have hbounds := firstRecord_bounds hfirst
  rw [firstRecord, hsource, Option.bind_some] at hfirst
  have hcount : (request' 2 &&& 0x1F).toNat + 1 = rlocCount request := by
    rw [rlocCount, h 2 (by omega)]
  rw [udpPrcRequest] at haccepted
  split at haccepted
  · cases haccepted
  · dsimp only at haccepted
    rw [sizeofMapRequestHdr, eidSize_offset h hsource, hcount] at haccepted
    split at haccepted
    · cases haccepted
    next itr k hitr => exact rlocsNamed_of_readItrRlocs h hfirst hitr

/-! ## The first record -/

/-- The first EID of the control plane is what the hypervisor reads in the same
place. -/
theorem readRecords_head {rcount : ℕ} {eids : List Prefix}
    (hafi : m.be16 (offset + 2) = 1 ∨ m.be16 (offset + 2) = 2)
    (hread : readRecords m (rcount + 1) offset = some eids) :
    eids.head?.map hvPrefix =
      some (processAfiAddressCouple (m.advance (offset + 2)) (m (offset + 1))) := by
  rw [← Nat.add_zero (offset + 2), ← Mem.be16_advance] at hafi
  have hlcaf : ¬ getAddressType (m.advance (offset + 2)) = lcafAfi := by
    rw [getAddressType, lcafAfi]
    omega
  rw [readRecords] at hread
  simp only [if_neg hlcaf] at hread
  cases haddr : readAddress (m.advance (offset + 2)) with
  | none =>
      rw [haddr] at hread
      cases hread
  | some addr =>
      rw [haddr] at hread
      obtain ⟨rest, -, rfl⟩ := Option.map_eq_some_iff.mp hread
      rw [List.head?_cons, Option.map_some, Option.some_inj]
      rcases readAddress_cases haddr with ⟨h1, rfl, -⟩ | ⟨h2, rfl, -⟩
      · rw [processAfiAddressCouple_inet h1]
        rfl
      · rw [processAfiAddressCouple_inet6 h2]
        simp [hvPrefix, hvAddress, hvOffset]

/-- A prefix of the hypervisor comes from a record that names it. -/
theorem namesPrefix_of_eq_hvPrefix {p : Prefix} (hwidth : p.prefixlen.toNat ≤ p.addr.width)
    (h : processAfiAddressCouple (m.advance (offset + 2)) (m (offset + 1)) = hvPrefix p) :
    NamesPrefix m offset := by
  have hlength := hvPrefix_length_le hwidth
  rw [← h] at hlength
  have hafi := afi_of_eq_hvPrefix h
  rcases hafi with h1 | h2
  · rw [processAfiAddressCouple_inet h1] at hlength
    rw [Mem.be16_advance] at h1
    exact Or.inl ⟨h1, hlength⟩
  · rw [processAfiAddressCouple_inet6 h2] at hlength
    rw [Mem.be16_advance] at h2
    exact Or.inr ⟨h2, hlength⟩

/-- A record that names a prefix gives it to the hypervisor. -/
theorem NamesPrefix.exists_hvPrefix (h : NamesPrefix m offset) :
    ∃ p : Prefix, p.prefixlen.toNat ≤ p.addr.width ∧
      processAfiAddressCouple (m.advance (offset + 2)) (m (offset + 1)) = hvPrefix p := by
  rcases h with ⟨h1, hlength⟩ | ⟨h2, hlength⟩
  · rw [← Nat.add_zero (offset + 2), ← Mem.be16_advance] at h1
    rw [processAfiAddressCouple_inet h1]
    by_cases hmask : (m (offset + 1)).toNat ≤ 32
    · exact ⟨⟨.inet ((m.advance (offset + 2)).bytes 2 4), m (offset + 1)⟩, hmask, rfl⟩
    · -- the sum has wrapped around, and stands for an IPv6 prefix
      refine ⟨⟨.inet6 (v4Mapped ((m.advance (offset + 2)).bytes 2 4)),
        m (offset + 1) + 96⟩, hlength, ?_⟩
      rw [hvPrefix, hvAddress, hvOffset, UInt8.add_zero]
  · rw [← Nat.add_zero (offset + 2), ← Mem.be16_advance] at h2
    rw [processAfiAddressCouple_inet6 h2]
    refine ⟨⟨.inet6 ((m.advance (offset + 2)).bytes 2 16), m (offset + 1)⟩, hlength, ?_⟩
    rw [hvPrefix, hvAddress, hvOffset, UInt8.add_zero]

end Walk

/-! ## Where the two look for the request -/

section Locate

variable {datagram datagram' : Mem} {len : ℕ} {headers : Headers}

/-- The hypervisor strips the headers. -/
theorem extractEidCp_of_start (hstart : headers.Start datagram)
    (hrequest : RequestAt datagram len headers.offset) :
    extractEidCp datagram len =
      extractEidMaprequest (datagram.advance headers.offset)
        (len - headers.offset) := by
  obtain ⟨hlen, htype⟩ := hrequest
  rw [← extractEidCp_mapRequest htype]
  cases headers with
  | none =>
      rw [Headers.offset, Mem.advance_zero, Nat.sub_zero]
  | ipv4 =>
      have hversion : datagram 4 >>> 4 = 4 := by
        rw [hstart.2]
        decide
      have hihl : (datagram 4 &&& 0x0F).toNat = 5 := by
        rw [hstart.2]
        decide
      exact (Encapsulates.ipv4 hstart.1 hversion hihl hlen).extractEidCp_eq
  | ipv6 => exact (Encapsulates.ipv6 hstart.1 hstart.2 hlen).extractEidCp_eq

theorem Headers.Start.of_agree (hagree : Mem.Agree len datagram datagram')
    (hlen : headers.offset < len) (h : headers.Start datagram) :
    headers.Start datagram' := by
  cases headers with
  | none => trivial
  | ipv4 =>
      rw [Headers.offset] at hlen
      rw [Headers.Start, packetType, ← hagree 0 (by omega), ← hagree 4 (by omega)]
      exact h
  | ipv6 =>
      rw [Headers.offset] at hlen
      rw [Headers.Start, packetType, ← hagree 0 (by omega), ← hagree 4 (by omega)]
      exact h

theorem preparseLcm_eq {buf : Mem} {bufLen lcm : ℕ} (ecm : Option Ecm)
    (htype : packetType (buf.advance lcm) = 1) (hlen : lcm + 12 ≤ bufLen) :
    ∃ pke, preparseLcm buf bufLen ecm lcm = some pke ∧ pke.lcm = lcm := by
  have hroom : ¬ lcm + sizeofLispControlHdr + nonesize > bufLen := by
    rw [sizeofLispControlHdr, nonesize]
    omega
  have htype : lispType (buf.advance lcm) = lispTypeMapRequest := htype
  rw [preparseLcm, if_neg hroom, if_pos (Or.inl htype)]
  exact ⟨_, rfl, rfl⟩

/-- The control plane finds the request behind the same headers. -/
theorem udpPreparsePk_of_start (hstart : headers.Start datagram)
    (htype : packetType (datagram.advance headers.offset) = 1)
    (hlen : headers.offset + 12 ≤ len) :
    ∃ pke, udpPreparsePk datagram len = some pke ∧ pke.lcm = headers.offset := by
  have hshort : ¬ len < sizeofLispControlHdr := by
    rw [sizeofLispControlHdr]
    omega
  rw [udpPreparsePk, if_neg hshort]
  cases headers with
  | none =>
      have hplain : ¬ lispType datagram = lispTypeEcm := by
        rw [Headers.offset, Mem.advance_zero] at htype
        rw [show lispType datagram = 1 from htype]
        decide
      rw [if_neg hplain]
      exact preparseLcm_eq none htype hlen
  | ipv4 =>
      rw [Headers.offset] at hlen
      have hroom : ¬ sizeofLispControlHdr + ControlPlane.sizeofIp + sizeofUdphdr > len := by
        rw [sizeofLispControlHdr, ControlPlane.sizeofIp, sizeofUdphdr]
        omega
      rw [if_pos (show lispType datagram = lispTypeEcm from hstart.1)]
      dsimp only
      rw [if_neg hroom, if_pos (by rw [sizeofLispControlHdr, hstart.2]; rfl)]
      exact preparseLcm_eq _ htype hlen
  | ipv6 =>
      rw [Headers.offset] at hlen
      have hroom : ¬ sizeofLispControlHdr + ControlPlane.sizeofIp + sizeofUdphdr > len := by
        rw [sizeofLispControlHdr, ControlPlane.sizeofIp, sizeofUdphdr]
        omega
      rw [if_pos (show lispType datagram = lispTypeEcm from hstart.1)]
      dsimp only
      rw [if_neg hroom, sizeofLispControlHdr, if_neg (by rw [hstart.2]; decide),
        if_pos hstart.2]
      exact preparseLcm_eq _ htype hlen

theorem requestEids_of_start (hstart : headers.Start datagram)
    (htype : packetType (datagram.advance headers.offset) = 1)
    (hlen : headers.offset + 12 ≤ len) :
    requestEids datagram len =
      (udpPrcRequest (datagram.advance headers.offset)).map Prod.snd := by
  obtain ⟨pke, hpke, hlcm⟩ := udpPreparsePk_of_start hstart htype hlen
  rw [requestEids, hpke, Option.bind_some, hlcm]

/-- The request as it lies in another buffer with the same datagram. -/
theorem request_of_agree (hagree : Mem.Agree len datagram datagram')
    (hrequest : RequestAt datagram len headers.offset) :
    RequestAt datagram' len headers.offset ∧
      Mem.Agree (len - headers.offset) (datagram.advance headers.offset)
        (datagram'.advance headers.offset) := by
  have hinner := hagree.advance headers.offset
  obtain ⟨hlt, htype⟩ := hrequest
  refine ⟨⟨hlt, ?_⟩, hinner⟩
  rw [packetType, ← hinner 0 (by omega)]
  exact htype

end Locate

/-! ## Agreement on a shared record -/

theorem alwaysAgree_of_agreeable {datagram : Mem} {len : ℕ} (h : Agreeable datagram len) :
    AlwaysAgree datagram len := by
  obtain ⟨headers, hstart, hrequest, hshared⟩ := h
  intro hvBuf cpBuf hhv hcp p eids hwidth heid haccepted
  obtain ⟨hhvRequest, hhvInner⟩ := request_of_agree hhv hrequest
  obtain ⟨hcpRequest, hcpInner⟩ := request_of_agree hcp hrequest
  rw [extractEidCp_of_start (hstart.of_agree hhv hrequest.1) hhvRequest] at heid
  cases hfirst : firstRecord (hvBuf.advance headers.offset) (len - headers.offset) with
  | none =>
      rw [extractEidMaprequest, hfirst] at heid
      have hreason := congrArg Ipv6Prefix.reason heid
      cases hreason
  | some offset =>
      rw [extractEidMaprequest_of_firstRecord hfirst] at heid
      rw [firstRecord_congr hhvInner] at hfirst
      have hbounds := firstRecord_bounds hfirst
      rw [requestEids_of_start (hstart.of_agree hcp hrequest.1) hcpRequest.2 (by omega)]
        at haccepted
      obtain ⟨result, hresult, -⟩ := Option.map_eq_some_iff.mp haccepted
      have hreach := reaches_of_udpPrcRequest hcpInner hfirst hresult
      obtain ⟨hcount, hinside⟩ :=
        hshared offset _ hreach hhvInner (namesPrefix_of_eq_hvPrefix hwidth heid)
      have hsame := (processAfiAddressCouple_congr hcpInner hinside).trans
        ((processAfiAddressCouple_congr hhvInner hinside).symm.trans heid)
      have hafi := afi_of_eq_hvPrefix hsame
      rw [Mem.be16_advance, Nat.add_zero] at hafi
      rw [udpPrcRequest_of_reaches hcpInner hcpRequest.2 hreach,
        ← hcpInner 3 (by omega)] at haccepted
      have hpos : (datagram.advance headers.offset 3).toNat ≠ 0 :=
        fun hzero => hcount (UInt8.toNat_inj.mp hzero)
      obtain ⟨rcount, hrcount⟩ := Nat.exists_eq_succ_of_ne_zero hpos
      rw [hrcount] at haccepted
      rw [readRecords_head hafi haccepted, hsame]

/-! ## Disagreement on a record that is not shared -/

/-- The size of a record, by its AFI. -/
def recordSize (m : Mem) (offset : ℕ) : ℕ :=
  if m.be16 (offset + 2) = 1 then 8 else 20

/-- A record with another last byte, and records for IPv4 prefixes behind it. -/
def withLast (m : Mem) (last : ℕ) (x : UInt8) : Mem :=
  fun i => if i < last then m i else if i = last then x
    else if (i - (last + 1)) % 8 = 3 then 1 else 0

section Other

variable {request m : Mem} {len offset last : ℕ} {x : UInt8}

theorem withLast_of_lt {i : ℕ} (h : i < last) : withLast m last x i = m i :=
  if_pos h

theorem withLast_self : withLast m last x last = x := by
  rw [withLast, if_neg (lt_irrefl _), if_pos rfl]

theorem agree_withLast (h : Mem.Agree len request m) (hlast : len ≤ last) :
    Mem.Agree len request (withLast m last x) := by
  intro i hi
  rw [withLast_of_lt (by omega)]
  exact h i hi

theorem be16_withLast (h : offset + 2 ≤ last) :
    (withLast m last x).be16 offset = m.be16 offset := by
  rw [Mem.be16, Mem.be16, withLast_of_lt (by omega), withLast_of_lt (by omega)]

/-- The records behind the last byte are all accepted. -/
theorem exists_readRecords_behind (m : Mem) (last : ℕ) (x : UInt8) (rcount j : ℕ) :
    ∃ eids, readRecords (withLast m last x) rcount (last + 1 + 8 * j) = some eids := by
  induction rcount generalizing j with
  | zero => exact ⟨[], rfl⟩
  | succ rcount ih =>
      have hafi : ((withLast m last x).advance (last + 1 + 8 * j + 2)).be16 0 = 1 := by
        have hhigh : withLast m last x (last + 1 + 8 * j + 2) = 0 := by
          rw [withLast, if_neg (by omega), if_neg (by omega), if_neg (by omega)]
        have hlow : withLast m last x (last + 1 + 8 * j + 2 + 1) = 1 := by
          rw [withLast, if_neg (by omega), if_neg (by omega), if_pos (by omega)]
        rw [Mem.be16_advance, Nat.add_zero, Mem.be16, hhigh, hlow]
        rfl
      have hlcaf : ¬ getAddressType
          ((withLast m last x).advance (last + 1 + 8 * j + 2)) = lcafAfi := by
        rw [getAddressType, hafi]
        decide
      obtain ⟨haddr, hsize⟩ := readAddress_inet hafi
      obtain ⟨eids, heids⟩ := ih (j + 1)
      rw [readRecords]
      simp only [if_neg hlcaf, haddr, hsize]
      rw [show last + 1 + 8 * j + 2 + 6 = last + 1 + 8 * (j + 1) by omega, heids]
      exact ⟨_, rfl⟩

/-- And so is the record with the last byte. -/
theorem exists_readRecords_withLast (hafi : m.be16 (offset + 2) = 1 ∨ m.be16 (offset + 2) = 2)
    (rcount : ℕ) (x : UInt8) :
    ∃ eids, readRecords (withLast m (offset + recordSize m offset - 1) x) (rcount + 1) offset =
      some eids := by
  have hbound : offset + 4 ≤ offset + recordSize m offset - 1 := by
    unfold recordSize
    split <;> omega
  have hsame := @be16_withLast m (offset + 2) (offset + recordSize m offset - 1) x (by omega)
  rw [← hsame, ← Nat.add_zero (offset + 2), ← Mem.be16_advance] at hafi
  obtain ⟨eids, heids⟩ := exists_readRecords_behind m (offset + recordSize m offset - 1) x rcount 0
  have hlcaf : ¬ getAddressType ((withLast m (offset + recordSize m offset - 1) x).advance
      (offset + 2)) = lcafAfi := by
    rw [getAddressType, lcafAfi]
    omega
  have hread : ∃ addr, readAddress ((withLast m (offset + recordSize m offset - 1) x).advance
      (offset + 2)) = some addr ∧ offset + 2 + getAddressSize
        ((withLast m (offset + recordSize m offset - 1) x).advance (offset + 2)) =
          offset + recordSize m offset - 1 + 1 + 8 * 0 := by
    rw [Mem.be16_advance, Nat.add_zero, hsame] at hafi
    rcases hafi with h1 | h2
    · have hsize : recordSize m offset = 8 := if_pos h1
      rw [hsize] at hsame ⊢
      rw [h1, ← Nat.add_zero (offset + 2), ← Mem.be16_advance] at hsame
      obtain ⟨haddr, hroom⟩ := readAddress_inet hsame
      exact ⟨_, haddr, by omega⟩
    · have hsize : recordSize m offset = 20 := if_neg (by omega)
      rw [hsize] at hsame ⊢
      rw [h2, ← Nat.add_zero (offset + 2), ← Mem.be16_advance] at hsame
      obtain ⟨haddr, hroom⟩ := readAddress_inet6 hsame
      exact ⟨_, haddr, by omega⟩
  obtain ⟨addr, haddr, hnext⟩ := hread
  rw [readRecords]
  simp only [if_neg hlcaf, haddr, hnext, heids]
  exact ⟨_, rfl⟩

/-- Another last byte makes another prefix. -/
theorem processAfiAddressCouple_withLast_ne {x y : UInt8}
    (hafi : m.be16 (offset + 2) = 1 ∨ m.be16 (offset + 2) = 2) (hne : x ≠ y) :
    let last := offset + recordSize m offset - 1
    processAfiAddressCouple ((withLast m last x).advance (offset + 2))
        (withLast m last x (offset + 1)) ≠
      processAfiAddressCouple ((withLast m last y).advance (offset + 2))
        (withLast m last y (offset + 1)) := by
  intro last heq
  have hsame (z) (hbound : offset + 4 ≤ last) :
      ((withLast m last z).advance (offset + 2)).be16 0 = m.be16 (offset + 2) := by
    rw [Mem.be16_advance, Nat.add_zero]
    exact be16_withLast (by omega)
  have hbyte (z i) (hi : offset + 2 + i = last) :
      (withLast m last z).advance (offset + 2) i = z := by
    rw [Mem.advance_apply, hi]
    exact withLast_self
  rcases hafi with h1 | h2
  · have hlast : last = offset + 7 := by
      rw [show last = offset + recordSize m offset - 1 from rfl, recordSize, if_pos h1]
      omega
    rw [processAfiAddressCouple_inet ((hsame x (by omega)).trans h1),
      processAfiAddressCouple_inet ((hsame y (by omega)).trans h1)] at heq
    have hbytes := Mem.eq_of_bytes_eq (v4Mapped_injective (congrArg Ipv6Prefix.addr heq))
      (show 3 < 4 by omega)
    rw [hbyte x (2 + 3) (by omega), hbyte y (2 + 3) (by omega)] at hbytes
    exact hne hbytes
  · have hlast : last = offset + 19 := by
      rw [show last = offset + recordSize m offset - 1 from rfl, recordSize,
        if_neg (by omega)]
      omega
    rw [processAfiAddressCouple_inet6 ((hsame x (by omega)).trans h2),
      processAfiAddressCouple_inet6 ((hsame y (by omega)).trans h2)] at heq
    have hbytes := Mem.eq_of_bytes_eq (congrArg Ipv6Prefix.addr heq) (show 15 < 16 by omega)
    rw [hbyte x (2 + 15) (by omega), hbyte y (2 + 15) (by omega)] at hbytes
    exact hne hbytes

/-- A record that is not inside the datagram ends behind it. -/
theorem len_le_of_not_inside (h : Mem.Agree len request m)
    (hout : ¬ RecordInside request len offset) : len ≤ offset + recordSize m offset - 1 := by
  by_contra hlt
  have hfour : offset + 4 ≤ len := by
    unfold recordSize at hlt
    split at hlt <;> omega
  have hsame : request.be16 (offset + 2) = m.be16 (offset + 2) := h.be16 (by omega)
  refine hout (Or.inl ⟨hfour, fun h1 => ?_, fun h2 => ?_⟩)
  · rw [hsame] at h1
    rw [recordSize, if_pos h1] at hlt
    omega
  · rw [hsame] at h2
    rw [recordSize, if_neg (by omega)] at hlt
    omega

end Other

/-- Where the two always agree, a record that both come to is shared. -/
theorem recordShared_of_alwaysAgree {datagram : Mem} {len : ℕ} {headers : Headers}
    (hstart : headers.Start datagram) (hrequest : RequestAt datagram len headers.offset)
    (h : AlwaysAgree datagram len) :
    RecordShared (datagram.advance headers.offset) (len - headers.offset) := by
  intro offset m hreach hm hnames
  have hbounds := firstRecord_bounds hreach.1
  have hafi : m.be16 (offset + 2) = 1 ∨ m.be16 (offset + 2) = 2 :=
    hnames.imp And.left And.left
  -- both parsers, in a buffer with other bytes behind the datagram
  have hboth (request) (hagree : Mem.Agree (len - headers.offset)
      (datagram.advance headers.offset) request) :
      Mem.Agree len datagram (datagram.splice headers.offset request) ∧
        extractEidCp (datagram.splice headers.offset request) len =
          processAfiAddressCouple (request.advance (offset + 2)) (request (offset + 1)) ∧
        requestEids (datagram.splice headers.offset request) len =
          readRecords request (datagram.advance headers.offset 3).toNat offset := by
    have hbuf := Mem.Agree.splice hagree
    obtain ⟨hrequest', -⟩ := request_of_agree hbuf hrequest
    have hstart' := hstart.of_agree hbuf hrequest.1
    have htype := hrequest'.2
    have heid := extractEidCp_of_start hstart' hrequest'
    have hparsed := requestEids_of_start hstart' htype (by omega : headers.offset + 12 ≤ len)
    rw [Mem.advance_splice] at heid hparsed htype
    rw [extractEidMaprequest_of_firstRecord ((firstRecord_congr hagree).trans hreach.1)] at heid
    rw [udpPrcRequest_of_reaches hagree htype hreach, ← hagree 3 (by omega)] at hparsed
    exact ⟨hbuf, heid, hparsed⟩
  have hcount : datagram.advance headers.offset 3 ≠ 0 := by
    intro hzero
    obtain ⟨hbuf, heid, hparsed⟩ := hboth m hm
    obtain ⟨p, hwidth, hp⟩ := hnames.exists_hvPrefix
    rw [hzero] at hparsed
    cases h _ _ hbuf hbuf p [] hwidth (heid.trans hp) hparsed
  refine ⟨hcount, ?_⟩
  by_contra hout
  have hlast := len_le_of_not_inside hm hout
  have hbound : offset + 4 ≤ offset + recordSize m offset - 1 := by
    unfold recordSize
    split <;> omega
  obtain ⟨hbuf, heid, -⟩ := hboth _ (agree_withLast (x := 1) hm hlast)
  obtain ⟨hbuf', -, hparsed⟩ := hboth _ (agree_withLast (x := 2) hm hlast)
  have hnames' : NamesPrefix (withLast m (offset + recordSize m offset - 1) 1) offset := by
    rw [NamesPrefix, be16_withLast (by omega), withLast_of_lt (by omega)]
    exact hnames
  obtain ⟨p, hwidth, hp⟩ := hnames'.exists_hvPrefix
  have hpos : (datagram.advance headers.offset 3).toNat ≠ 0 :=
    fun hzero => hcount (UInt8.toNat_inj.mp hzero)
  obtain ⟨rcount, hrcount⟩ := Nat.exists_eq_succ_of_ne_zero hpos
  obtain ⟨eids, heids⟩ := exists_readRecords_withLast hafi rcount 2
  rw [hrcount, heids] at hparsed
  have hhead := h _ _ hbuf hbuf' p eids hwidth (heid.trans hp) hparsed
  have hafi' : (withLast m (offset + recordSize m offset - 1) 2).be16 (offset + 2) = 1 ∨
      (withLast m (offset + recordSize m offset - 1) 2).be16 (offset + 2) = 2 := by
    rw [be16_withLast (by omega)]
    exact hafi
  rw [readRecords_head hafi' heids, ← hp, Option.some_inj] at hhead
  exact processAfiAddressCouple_withLast_ne hafi (by decide) hhead

/-- The hypervisor and the control plane agree on a datagram without IPv4 options in
front of its Map-Request, whatever lies behind it in their buffers, if and only if a
record that both come to is counted and complete. -/
theorem agreeOnEid_iff_agreeable (datagram : Mem) (len : ℕ) :
    (Agreeable datagram len → AlwaysAgree datagram len) ∧
      (Aligned datagram len → AlwaysAgree datagram len → Agreeable datagram len) := by
  refine ⟨alwaysAgree_of_agreeable, ?_⟩
  rintro ⟨headers, hstart, hrequest⟩ hagree
  exact ⟨headers, hstart, hrequest, recordShared_of_alwaysAgree hstart hrequest hagree⟩

/-- A memory given by its non-zero bytes. -/
def sparse (fields : List (ℕ × UInt8)) : Mem :=
  fun i => (fields.lookup i).getD 0

/-- An encapsulated Map-Request for 0.0.0.1/8. -/
def requestOne : Mem :=
  sparse [(0, 0x80), (4, 0x45), (32, 0x10), (35, 1), (47, 1), (53, 8), (55, 1), (59, 1)]

theorem agreeOnEid_iff_agreeable_ipv4 :
    AlwaysAgree requestOne 60 ∧ Agreeable requestOne 60 := by
  have hstart : Headers.ipv4.Start requestOne := by decide
  have hrequest : RequestAt requestOne 60 Headers.ipv4.offset := by decide
  have hshared : RecordShared (requestOne.advance Headers.ipv4.offset) 28 := by
    rintro offset m ⟨hfirst, -⟩ - -
    obtain rfl : 20 = offset := Option.some_inj.mp ((by decide : _ = some 20).symm.trans hfirst)
    decide
  have halways := (agreeOnEid_iff_agreeable requestOne 60).1 ⟨.ipv4, hstart, hrequest, hshared⟩
  exact ⟨halways,
    (agreeOnEid_iff_agreeable requestOne 60).2 ⟨.ipv4, hstart, hrequest⟩ halways⟩

/-! ## Disagreement behind options -/

/-- The first EID the control plane parses, as the hypervisor stores it; the
outer option tells whether the datagram is accepted. -/
def parsedHead (datagram : Mem) (len : ℕ) : Option (Option Ipv6Prefix) :=
  (requestEids datagram len).map fun eids => eids.head?.map hvPrefix

theorem not_agreeOnEid {hvBuf cpBuf : Mem} {len : ℕ} {p : Prefix}
    (hwidth : p.prefixlen.toNat ≤ p.addr.width)
    (heid : extractEidCp hvBuf len = hvPrefix p)
    (haccepted : (parsedHead cpBuf len).isSome = true)
    (hother : parsedHead cpBuf len ≠ some (some (hvPrefix p))) :
    ¬ AgreeOnEid hvBuf cpBuf len := by
  intro hagree
  rw [parsedHead, Option.isSome_map] at haccepted
  obtain ⟨eids, heids⟩ := Option.isSome_iff_exists.mp haccepted
  apply hother
  rw [parsedHead, heids, Option.map_some, hagree p eids hwidth heid heids]

/-- Two Map-Requests in one datagram: for `0.0.0.0/2` behind an IPv4 header with
options, and for a prefix of length 1 behind its first twenty bytes. -/
def optionsDatagram (ihl : ℕ) : Mem :=
  let lcm := 36 + 4 * ihl
  sparse [(0, 0x80), (4, 0x46 + .ofNat ihl),
    (lcm, 0x10), (lcm + 3, 1), (lcm + 13, 1), (lcm + 19, 1), (lcm + 25, 2),
    (lcm + 27, 1),
    (32, 0x10), (35, 1), (47, 1), (53, 1), (55, 1)]

/-- The prefix the hypervisor reads there. -/
def optionsEid : Prefix :=
  ⟨.inet (Vector.replicate 4 0), 2⟩

theorem optionsDatagram_spec : ∀ ihl : Fin 10,
    HasOptions (optionsDatagram ihl) 128 ihl ∧
      optionsDatagram ihl 4 >>> 4 = 4 ∧
      (optionsDatagram ihl 4 &&& 0x0F).toNat = 6 + ihl ∧
      extractEidMaprequest ((optionsDatagram ihl).advance (4 + 4 * (6 + ihl) + 8))
        (128 - (4 + 4 * (6 + ihl) + 8)) = hvPrefix optionsEid ∧
      (parsedHead (optionsDatagram ihl) 128).isSome = true ∧
      parsedHead (optionsDatagram ihl) 128 ≠ some (some (hvPrefix optionsEid)) := by
  decide +kernel

/-- With options there is a datagram of every header length on which the two
disagree. -/
theorem not_agreeOnEid_options (ihl : Fin 10) :
    HasOptions (optionsDatagram ihl) 128 ihl ∧ HoldsRequest (optionsDatagram ihl) 128 ∧
      ¬ AgreeOnEid (optionsDatagram ihl) (optionsDatagram ihl) 128 := by
  obtain ⟨hkind, hversion, hihl, heid, haccepted, hother⟩ :=
    optionsDatagram_spec ihl
  have htype := hkind.1
  have hrequest := hkind.2.2
  have hoffset : 4 + 4 * (6 + ihl.val) + 8 = 36 + 4 * ihl.val := by omega
  have hroom : 4 + 4 * (6 + ihl.val) + 8 < 128 := by omega
  have hencap := Encapsulates.ipv4 htype hversion hihl hroom
  rw [hoffset] at hencap heid
  refine ⟨hkind, ⟨_, _, Or.inr ⟨hencap, fun _ => by omega⟩, hrequest.2⟩,
    not_agreeOnEid (p := optionsEid) (by decide) ?_ haccepted hother⟩
  rw [hencap.extractEidCp_eq, ← heid]
  exact extractEidCp_mapRequest hrequest.2

/-- An encapsulation with one word of options hides the Map-Request the
hypervisor routes on from the control plane. -/
theorem not_agreeOnEid_oneOption :
    ¬ ∀ datagram len, HoldsRequest datagram len → AlwaysAgree datagram len := by
  intro h
  obtain ⟨-, hholds, hnot⟩ := not_agreeOnEid_options 0
  exact hnot (h _ 128 hholds _ _ (Mem.Agree.refl _ _) (Mem.Agree.refl _ _))

end HyLisp.Interop
