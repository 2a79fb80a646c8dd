import HyLisp.DataPlane.MissMessage
import HyLisp.Hypervisor.MapDemux
import HyLisp.Interop.HvPrefix

/-!
# A cache miss, from the data plane to a control plane

The data plane sends the header of a packet that missed the cache behind the EID
the packet is going to.  The hypervisor takes the source address out of that
header, and the map message goes to the plane that owns it.  The two agree on
every packet the message is built for; a packet shorter than an IPv6 header gets
none.
-/

namespace HyLisp.Interop

open DataPlane Hypervisor

/-! ## Packets -/

/-- A packet the data plane looks a mapping up for.  The input routines have
checked its version and that its header is there. -/
inductive IpPacket
  | inet (chain : Mbuf) (version : chain.data 0 >>> 4 = 4) (hasHeader : sizeofIp ≤ chain.len)
  | inet6 (chain : Mbuf) (version : chain.data 0 >>> 4 = 6)
      (hasHeader : sizeofIp6Hdr ≤ chain.len)

namespace IpPacket

/-- The mbufs of a packet. -/
def chain : IpPacket → Mbuf
  | .inet chain _ _ => chain
  | .inet6 chain _ _ => chain

/-- The size of the header of a packet, without options. -/
def headerSize : IpPacket → ℕ
  | .inet _ _ _ => sizeofIp
  | .inet6 _ _ _ => sizeofIp6Hdr

/-- `ip_src` or `ip6_src` -/
def src : IpPacket → Address
  | .inet chain _ _ => .inet (chain.data.bytes 12 4)
  | .inet6 chain _ _ => .inet6 (chain.data.bytes 8 16)

/-- `ip_dst` or `ip6_dst`, which is the EID of the lookup. -/
def dst : IpPacket → Address
  | .inet chain _ _ => .inet (chain.data.bytes 16 4)
  | .inet6 chain _ _ => .inet6 (chain.data.bytes 24 16)

/-- The source address as a host prefix of the hypervisor. -/
def srcPrefix (packet : IpPacket) : Ipv6Prefix :=
  ⟨hvAddress packet.src, 128, .prfxAsis⟩

end IpPacket

/-! ## Reading the message -/

/-- What the hypervisor takes out of the header behind the sockaddrs. -/
def ipHeaderSource (ip : Mem) : Ipv6Prefix :=
  if ip 0 >>> 4 = 4 then ⟨v4Mapped (ip.bytes 12 4), 128, .prfxAsis⟩
  else if ip 0 >>> 4 = 6 then ⟨ip.bytes 8 16, 128, .prfxAsis⟩
  else getUndefinedEid .uprfxUnknIp

section Read

variable {buf ss : Mem} {message : MissMessage} {rest : List UInt8}

/-- A message about a miss with an EID and no mask: the header follows the EID. -/
theorem extractEidMm_of_missHeader (hbuf : Mem.Holds buf message.toBytes)
    (htype : message.header.mapType = mapmMissHeader)
    (hversioning : message.header.mapVersioning = 0)
    (haddrs : message.header.mapAddrs = mapaEid)
    (hdata : message.data = ss.toList (ssSize (ss 0)) ++ rest)
    (hroom : 0 < ssSize (ss 0)) :
    extractEidMm buf = ipHeaderSource (buf.advance (sizeofMapMsghdr + ssSize (ss 0))) ∧
      Mem.Holds (buf.advance (sizeofMapMsghdr + ssSize (ss 0))) rest := by
  rw [MissMessage.toBytes, hdata] at hbuf
  obtain ⟨hheader, hbehind⟩ := Mem.holds_append.mp hbuf
  obtain ⟨hss, hrest⟩ := Mem.holds_append.mp hbehind
  rw [MapMsghdr.length_toBytes] at hss hrest
  rw [Mem.length_toList, Mem.advance_advance] at hrest
  have hread := MapMsghdr.ofMem_of_holds hheader
  have hlength : buf sizeofMapMsghdr = ss 0 := Mem.holds_toList.mp hss 0 hroom
  have heid : mapaEid &&& mapaEid ≠ 0 := by decide
  have hmask : ¬ mapaEid &&& mapaEidmask ≠ 0 := by decide
  have hother : ¬ (mapmMissHeader = mapmAdd ∨ mapmMissHeader = mapmDelete) := by decide
  refine ⟨?_, hrest⟩
  unfold extractEidMm extractEidMmMissheader
  dsimp only
  rw [hread, htype, hversioning, haddrs, if_neg (not_not_intro rfl), if_neg hother,
    if_pos rfl, if_pos heid, if_neg hmask, hlength]
  rfl

/-- The source of a packet, from a copy of its header. -/
theorem ipHeaderSource_of_agree {packet : IpPacket} {ip : Mem} {n : ℕ}
    (hagree : Mem.Agree n ip packet.chain.data) (hn : packet.headerSize ≤ n) :
    ipHeaderSource ip = packet.srcPrefix := by
  cases packet with
  | inet chain version hasHeader =>
      have hpos : 0 < n := Nat.lt_of_lt_of_le (by decide : 0 < sizeofIp) hn
      have hversion : ip 0 >>> 4 = 4 := (hagree 0 hpos).symm ▸ version
      have hsrc : ip.bytes 12 4 = chain.data.bytes 12 4 :=
        hagree.bytes (Nat.le_trans (by decide : 16 ≤ sizeofIp) hn)
      rw [ipHeaderSource, if_pos hversion, hsrc]
      rfl
  | inet6 chain version hasHeader =>
      have hpos : 0 < n := Nat.lt_of_lt_of_le (by decide : 0 < sizeofIp6Hdr) hn
      have hversion : ip 0 >>> 4 = 6 := (hagree 0 hpos).symm ▸ version
      have hother : ¬ ip 0 >>> 4 = 4 := by
        rw [hversion]
        decide
      have hsrc : ip.bytes 8 16 = chain.data.bytes 8 16 :=
        hagree.bytes (Nat.le_trans (by decide : 24 ≤ sizeofIp6Hdr) hn)
      rw [ipHeaderSource, if_neg hother, if_pos hversion, hsrc]
      rfl

/-- The bytes behind the EID start with the header of the packet. -/
theorem agree_of_holds_missBytes {packet : IpPacket} {ip : Mem}
    (hip : Mem.Holds ip (missBytes packet.dst packet.chain)) :
    Mem.Agree packet.headerSize ip packet.chain.data := by
  cases packet with
  | inet chain version hasHeader => exact Mem.holds_toList.mp (Mem.holds_append.mp hip).1
  | inet6 chain version hasHeader => exact Mem.holds_toList.mp hip

/-- Whatever flags and error it carries, a message about a miss is read as the
source of its packet. -/
theorem extractEidMm_of_missMessage {packet : IpPacket} {flags errno : UInt32}
    (hbuf : Mem.Holds buf
      { missMessage packet.dst packet.chain with
        header := { (missMessage packet.dst packet.chain).header with
          mapFlags := flags
          mapErrno := errno } : MissMessage }.toBytes) :
    extractEidMm buf = packet.srcPrefix := by
  have hroom : 0 < ssSize (packet.dst.storage 0) := by
    rw [ssSize_storage]
    cases packet with
    | inet chain version hasHeader => exact (by decide : 0 < 16)
    | inet6 chain version hasHeader => exact (by decide : 0 < 32)
  have hdata : (missMessage packet.dst packet.chain).data =
      packet.dst.storage.toList (ssSize (packet.dst.storage 0)) ++
        missBytes packet.dst packet.chain := by
    rw [ssSize_storage]
    rfl
  obtain ⟨hread, hip⟩ := extractEidMm_of_missHeader hbuf rfl rfl rfl hdata hroom
  exact hread.trans (ipHeaderSource_of_agree (agree_of_holds_missBytes hip) (le_refl _))

end Read

/-! ## Routing it -/

/-- The miss of a packet is routed by its source: the message `map_msg1` builds is
read as the source of the packet, a host prefix; and the message `map_notifymsg`
dispatches is written to the plane that owns the source, unless the source is the
unspecified address, which stands for no EID. -/
def RoutesMiss (packet : IpPacket) : Prop :=
  ∃ message mpkt,
    mapMsg1 mapmMissHeader (missAddrinfo packet.dst) (some packet.chain) =
      some (some message, mpkt) ∧
    (∀ buf, Mem.Holds buf message.toBytes → extractEidMm buf = packet.srcPrefix) ∧
    ∀ flags error,
      mapNotifymsgMiss .header (missAddrinfo packet.dst) (some packet.chain) flags error =
        some (some (message.stamp flags error), mpkt, error) ∧
      ∀ buf, Mem.Holds buf (message.stamp flags error).toBytes →
        packet.srcPrefix.IsRegular →
          ∀ (controlPlanes : List ControlPlane) (assignments : List Assignment)
            (owner : ℕ) (cp : ControlPlane),
            IsCoveringOwner assignments packet.srcPrefix owner →
              controlPlanes[owner]? = some cp →
                demuxMessage controlPlanes assignments buf = some [cp.socketDescriptor]

theorem routesMiss_of_le {packet : IpPacket} (hlen : sizeofIp6Hdr ≤ packet.chain.len) :
    RoutesMiss packet := by
  have hbuilt := mapMsg1_missHeader packet.dst packet.chain
  rw [if_pos hlen] at hbuilt
  refine ⟨_, _, hbuilt, fun buf hbuf => extractEidMm_of_missMessage hbuf, ?_⟩
  intro flags error
  refine ⟨mapNotifymsgMiss_header hlen flags error, ?_⟩
  intro buf hbuf hregular controlPlanes assignments owner cp howner hcp
  have hread : extractEidMm buf = packet.srcPrefix := extractEidMm_of_missMessage hbuf
  rw [← hread] at hregular howner
  exact demuxMessage_of_isCoveringOwner hregular howner hcp

/-- For a short packet the kernel stops instead. -/
theorem not_routesMiss_of_lt {packet : IpPacket} (hlen : packet.chain.len < sizeofIp6Hdr) :
    ¬ RoutesMiss packet := by
  rintro ⟨message, mpkt, hbuilt, -⟩
  rw [mapMsg1_missHeader, if_neg (Nat.not_le_of_lt hlen)] at hbuilt
  cases hbuilt

/-- The miss of a packet is routed by its source exactly when the packet is as long
as an IPv6 header, which only an IPv4 packet can fail to be. -/
theorem routesMiss_iff (packet : IpPacket) :
    RoutesMiss packet ↔ sizeofIp6Hdr ≤ packet.chain.len := by
  constructor
  · intro hroutes
    by_contra hshort
    exact not_routesMiss_of_lt (Nat.lt_of_not_le hshort) hroutes
  · exact routesMiss_of_le

/-- A UDP datagram of 28 bytes without payload, from 10.0.0.1 to 192.0.2.1. -/
def emptyDatagram : IpPacket :=
  .inet
    ⟨Mem.ofList [0x45, 0, 0, 28, 0, 0, 0, 0, 64, 17, 0, 0, 10, 0, 0, 1, 192, 0, 2, 1,
      0x30, 0x39, 0, 9, 0, 8, 0, 0] fun _ => 0, 28⟩
    (by decide) (by decide)

theorem not_routesMiss_emptyDatagram : ¬ ∀ packet, RoutesMiss packet :=
  fun h => not_routesMiss_of_lt (by decide) (h emptyDatagram)

end HyLisp.Interop
