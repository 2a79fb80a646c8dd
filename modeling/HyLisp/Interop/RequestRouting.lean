import HyLisp.ControlPlane.MapRequest
import HyLisp.Hypervisor.Demux
import HyLisp.Interop.HvPrefix

/-!
# Routing control datagrams

The hypervisor finds the EID of every well-formed Map-Request, and with it the
plane that is to answer.  Together with the two kinds of messages that concern
all planes, and those that concern none, this settles where a received datagram
goes, whatever it is encapsulated in.
-/

namespace HyLisp.Interop

open ControlPlane DataPlane Hypervisor

/-! ## Parsing a well-formed Map-Request -/

section Parse

variable {m : Mem} {offset len : ℕ}

theorem length_afiAddress_le (addr : Option Address) :
    2 ≤ (afiAddress addr).length := by
  match addr with
  | none => simp [afiAddress]
  | some addr =>
      rw [length_afiAddress]
      exact Nat.le_add_right 2 _

/-- A couple is skipped as a whole. -/
theorem skipAfiAddressCouple_of_holds {addr : Option Address}
    (h : Mem.Holds (m.advance offset) (afiAddress addr)) :
    skipAfiAddressCouple m offset = some (offset + (afiAddress addr).length) := by
  match addr with
  | none =>
      have hafi : m.be16 offset = 0 := by
        rw [← Nat.add_zero offset, ← Mem.be16_advance, afi_none_of_holds h]
      rw [skipAfiAddressCouple, hafi]
      rfl
  | some (.inet addr) =>
      have hafi : m.be16 offset = 1 := by
        rw [← Nat.add_zero offset, ← Mem.be16_advance, (afi_inet_of_holds h).1]
      rw [skipAfiAddressCouple, hafi]
      simp [afiAddress]
  | some (.inet6 addr) =>
      have hafi : m.be16 offset = 2 := by
        rw [← Nat.add_zero offset, ← Mem.be16_advance, (afi_inet6_of_holds h).1]
      rw [skipAfiAddressCouple, hafi]
      simp [afiAddress]

theorem skipCouples_of_holds {addrs : List (Option Address)}
    (h : Mem.Holds (m.advance offset) (addrs.flatMap afiAddress))
    (hlen : offset + (addrs.flatMap afiAddress).length < len) :
    skipCouples m len addrs.length offset =
      some (offset + (addrs.flatMap afiAddress).length) := by
  induction addrs generalizing offset with
  | nil => rfl
  | cons addr rest ih =>
      rw [List.flatMap_cons] at h hlen ⊢
      obtain ⟨hhead, hrest⟩ := Mem.holds_append.mp h
      rw [Mem.advance_advance] at hrest
      rw [List.length_append] at hlen ⊢
      rw [List.length_cons, skipCouples, skipAfiAddressCouple_of_holds hhead]
      dsimp only
      rw [if_neg (by omega), ih hrest (by omega), Nat.add_assoc]

/-- A record is read as the prefix it names. -/
theorem processAfiAddressCouple_of_holds {p : Prefix}
    (h : Mem.Holds m (afiAddress (some p.addr))) :
    processAfiAddressCouple m p.prefixlen = hvPrefix p := by
  obtain ⟨addr, prefixlen⟩ := p
  cases addr with
  | inet addr =>
      obtain ⟨hafi, hbytes⟩ := afi_inet_of_holds h
      rw [processAfiAddressCouple, hafi, hbytes]
      rfl
  | inet6 addr =>
      obtain ⟨hafi, hbytes⟩ := afi_inet6_of_holds h
      rw [processAfiAddressCouple, hafi, hbytes]
      simp [hvPrefix, hvAddress, hvOffset]

/-- The EID of a Map-Request is the one of its first record, whatever its length. -/
theorem extractEidCp_of_holdsFor {r : MapRequest} {eid : Prefix}
    (h : Mem.Holds m (r.toBytesFor eid)) (hlen : (r.toBytesFor eid).length ≤ len) :
    extractEidCp m len = hvPrefix eid := by
  have h0 : m 0 = r.typeFlags := h 0 (by simp [MapRequest.toBytesFor])
  have h2 : m 2 = r.irc := h 2 (by simp [MapRequest.toBytesFor])
  simp only [MapRequest.toBytesFor, List.length_append, List.length_cons,
    List.length_nil, Vector.length_toList] at hlen
  have haddr := length_afiAddress_le (some eid.addr)
  simp only [MapRequest.toBytesFor, Mem.holds_append, Mem.advance_advance,
    List.length_cons, List.length_nil, Vector.length_toList] at h
  obtain ⟨-, -, hsource, hrlocs, ⟨hrecord, heid⟩, -⟩ := h
  have hskip : skipCouples m len 1 12 =
      some (12 + (afiAddress r.sourceEid).length) := by
    rw [skipCouples, skipAfiAddressCouple_of_holds hsource]
    dsimp only
    rw [if_neg (by omega), skipCouples]
  have hfirst : firstRecord m len = some (12 + (afiAddress r.sourceEid).length +
      (r.itrRlocs.flatMap afiAddress).length) := by
    rw [firstRecord, hskip, Option.bind_some, rlocCount, h2, ← r.ircCount]
    exact skipCouples_of_holds hrlocs (by omega)
  have hmask : m (12 + (afiAddress r.sourceEid).length +
      (r.itrRlocs.flatMap afiAddress).length + 1) = eid.prefixlen :=
    hrecord 1 (by simp)
  rw [extractEidCp_mapRequest (by rw [packetType, h0, r.lispType]),
    extractEidMaprequest, hfirst]
  dsimp only
  rw [hmask]
  exact processAfiAddressCouple_of_holds heid

theorem extractEidCp_of_holds {r : MapRequest} (h : Mem.Holds m r.toBytes)
    (hlen : r.toBytes.length ≤ len) : extractEidCp m len = hvPrefix r.eid := by
  rw [MapRequest.toBytes_eq] at h hlen
  exact extractEidCp_of_holdsFor h hlen

/-- The EID of a Map-Request is the prefix of its first record as it stands: an
IPv4 one v4-mapped, with 96 added to its length, an IPv6 one unchanged. -/
theorem extractEidCp_firstPrefix (r : MapRequest) (m : Mem) (len : ℕ)
    (h : Mem.Holds m r.toBytes) (hlen : r.toBytes.length ≤ len) :
    (extractEidCp m len).reason = .prfxAsis ∧
    (∀ addr, r.eid.addr = .inet addr →
      (extractEidCp m len).addr = v4Mapped addr ∧
        (extractEidCp m len).prefixLength.toNat = r.eid.prefixlen.toNat + 96) ∧
    (∀ addr, r.eid.addr = .inet6 addr →
      (extractEidCp m len).addr = addr ∧
        (extractEidCp m len).prefixLength.toNat = r.eid.prefixlen.toNat) := by
  have hmask := r.maskInWidth
  rw [extractEidCp_of_holds h hlen]
  refine ⟨rfl, fun addr heid => ?_, fun addr heid => ?_⟩
  · rw [heid, Address.width] at hmask
    simp only [hvPrefix, heid, hvAddress, hvOffset, UInt8.toNat_add,
      UInt8.reduceToNat, true_and]
    -- a mask of an IPv4 prefix leaves room for the offset in its byte
    omega
  · simp only [hvPrefix, heid, hvAddress, hvOffset, UInt8.add_zero, and_self]

end Parse

/-! ## Routing -/

section Routing

variable {controlPlanes : List ControlPlane} {assignments : List Assignment}

/-- Where a received datagram goes, by what it carries behind its
encapsulations: a Map-Reply or a Map-Notify to every plane; a Map-Request to the
owner of the longest stored prefix that covers its EID, or to the default plane
when there is none; anything else to no plane. -/
theorem processIpv4Datagram_routes (hplanes : controlPlanes ≠ [])
    (hindex : ∀ entry ∈ assignments,
      entry.assigneeIndex < controlPlanes.length)
    (datagram : Ipv4Datagram) (inner : Mem) (len : ℕ)
    (hinner : Relation.ReflTransGen Encapsulates
      (datagram.payload, datagram.payloadLen) (inner, len)) :
    (packetType inner = 2 ∨ packetType inner = 4 →
      processIpv4Datagram controlPlanes assignments datagram =
        some (controlPlanes.map fun cp => datagram.toPort cp.port)) ∧
    (∀ r : MapRequest, Mem.Holds inner r.toBytes → r.toBytes.length ≤ len →
      r.eid ≠ ⟨.inet6 zeroAddr, 0⟩ → r.eid ≠ ⟨.inet6 zeroAddr, 128⟩ →
      ∃ i cp, controlPlanes[i]? = some cp ∧
        processIpv4Datagram controlPlanes assignments datagram =
          some [datagram.toPort cp.port] ∧
        (IsCoveringOwner assignments (hvPrefix r.eid) i ∨
          (∀ owner, ¬ IsCoveringOwner assignments (hvPrefix r.eid) owner) ∧
            i = controlPlanesDef)) ∧
    (packetType inner ≠ 1 → packetType inner ≠ 2 → packetType inner ≠ 4 →
      (∀ next, ¬ Encapsulates (inner, len) next) →
      processIpv4Datagram controlPlanes assignments datagram = some []) := by
  have heid := extractEidCp_of_stripped hinner
  refine ⟨?_, ?_, ?_⟩
  · intro htype
    apply processIpv4Datagram_of_isBroadcast hplanes
    rw [heid]
    rcases htype with htype | htype
    · rw [extractEidCp_mapReply htype]
      exact Ipv6Prefix.isBroadcast_getBroadcastEid _
    · rw [extractEidCp_mapNotify htype]
      exact Ipv6Prefix.isBroadcast_getBroadcastEid _
  · intro r hholds hlen h0 h128
    have hrequest := heid.trans (extractEidCp_of_holds hholds hlen)
    have hroute := @processIpv4Datagram_of_isRegular _ _ datagram hplanes hindex
      (hrequest ▸ hvPrefix_isRegular h0 h128)
      (hrequest ▸ hvPrefix_length_le r.maskInWidth)
    rwa [hrequest] at hroute
  · intro h1 h2 h4 hlast
    apply processIpv4Datagram_of_isUndefined
    rw [heid]
    exact isUndefined_of_other h1 h2 h4 hlast

end Routing

/-- A Map-Request for `10.1.2.0/24`, without a source EID and with one ITR-RLOC. -/
def tenRequest : MapRequest where
  typeFlags := 0x10
  reserved := 0
  irc := 0
  recordCount := 1
  nonce := Vector.replicate 8 7
  sourceEid := none
  itrRlocs := [some (.inet #v[192, 0, 2, 1])]
  recordReserved := 0
  eid := ⟨.inet #v[10, 1, 2, 0], 24⟩
  rest := []
  lispType := rfl
  ircCount := rfl
  maskInWidth := Nat.le_of_ble_eq_true rfl

/-- The first record of the request is read in its buffer. -/
theorem extractEidCp_firstPrefix_ten :
    (extractEidCp (Mem.ofList tenRequest.toBytes fun _ => 0) 28).addr =
        v4Mapped #v[10, 1, 2, 0] ∧
      (extractEidCp (Mem.ofList tenRequest.toBytes fun _ => 0)
        28).prefixLength.toNat = (24 : UInt8).toNat + 96 :=
  (extractEidCp_firstPrefix tenRequest _ _ (Mem.holds_ofList _ _)
    (by decide)).2.1 _ rfl

/-- The headers in front of an encapsulated message: LISP, IPv4 without options,
UDP. -/
def ecmHeaders : List UInt8 :=
  0x80 :: 0 :: 0 :: 0 :: 0x45 :: List.replicate 27 0

/-- The request in an encapsulation. -/
def tenDatagram : Ipv4Datagram where
  source := ⟨4342, #v[198, 51, 100, 1]⟩
  destination := ⟨0, #v[127, 0, 0, 1]⟩
  payload := Mem.ofList (ecmHeaders ++ tenRequest.toBytes) fun _ => 0
  payloadLen := 60

/-- With `10.0.0.0/8` assigned to the second of two planes, the request goes to
one plane: the owner of the longest covering prefix, or the default one. -/
theorem processIpv4Datagram_routes_ten :
    ∃ i cp, [(⟨0, 0, 4343⟩ : ControlPlane), ⟨1, 1, 4344⟩][i]? = some cp ∧
      processIpv4Datagram [⟨0, 0, 4343⟩, ⟨1, 1, 4344⟩]
          [⟨hvPrefix ⟨.inet #v[10, 0, 0, 0], 8⟩, 1⟩] tenDatagram =
        some [tenDatagram.toPort cp.port] ∧
      (IsCoveringOwner [⟨hvPrefix ⟨.inet #v[10, 0, 0, 0], 8⟩, 1⟩]
          (hvPrefix tenRequest.eid) i ∨
        (∀ owner, ¬ IsCoveringOwner
          [⟨hvPrefix ⟨.inet #v[10, 0, 0, 0], 8⟩, 1⟩]
          (hvPrefix tenRequest.eid) owner) ∧ i = controlPlanesDef) := by
  have hholds := Mem.holds_ofList (ecmHeaders ++ tenRequest.toBytes) fun _ => 0
  refine (processIpv4Datagram_routes (by decide) ?_ tenDatagram _ _
    (.single (.ipv4 (by decide) (by decide) rfl (by decide)))).2.1
      tenRequest (Mem.holds_append.mp hholds).2 (by decide) (by decide) (by decide)
  intro entry hentry
  rw [List.mem_singleton.mp hentry]
  decide

end HyLisp.Interop
