import HyLisp.DataPlane.MapTables
import Mathlib.Data.List.TakeDrop

/-!
# The message about a cache miss

When the cache holds no mapping for the destination of a packet, the data plane
hands the packet to `map_notifymsg`, and `map_msg1` builds the message for the
mapping socket: a header, the sockaddrs of the request, and behind them what the
sysctl `net.lisp.missmsg` asks for.

A chain of mbufs is a memory with the length of its packet.  Allocations
succeed and the kernel is built with `INET6`.  Two failures are left: a chain
that is shorter than `m_pullup` is asked for is freed and becomes `NULL`, and
whoever reads through `NULL` stops the kernel, which a result `none` stands for.
-/

namespace HyLisp.DataPlane

/-! ## Constants -/

/-- `sizeof(struct ip)` -/
def sizeofIp : ℕ := 20

/-- `sizeof(struct ip6_hdr)` -/
def sizeofIp6Hdr : ℕ := 40

/-- `MAPM_MISS` -/
def mapmMiss : UInt16 := 0x05

/-- `MAPM_MISS_EID` -/
def mapmMissEid : UInt16 := 0x06

/-- `MAPM_MISS_PACKET` -/
def mapmMissPacket : UInt16 := 0x08

/-- `MAPF_DONE` -/
def mapfDone : UInt32 := 0x100

/-- `EINVAL` -/
def einval : UInt32 := 22

/-- `ENOATTR` -/
def enoattr : UInt32 := 87

/-! ## Chains of mbufs -/

/-- A chain of mbufs: its bytes, and `m_pkthdr.len`. -/
structure Mbuf where
  data : Mem
  len : ℕ

/-- `m_pullup`: `none` once the chain is too short for the bytes and was freed. -/
def mPullup (m : Mbuf) (len : ℕ) : Option Mbuf :=
  if len ≤ m.len then some m else none

/-- `m_copyback`: the bytes of a chain with a block written at an offset; a chain
that ends before it is extended. -/
def mCopyback (m : List UInt8) (off : ℕ) (cp : List UInt8) : List UInt8 :=
  m.takeD off 0 ++ (cp ++ m.drop (off + cp.length))

/-- At the end of a chain, `m_copyback` appends. -/
theorem mCopyback_length (m cp : List UInt8) : mCopyback m m.length cp = m ++ cp := by
  have htake : m.takeD m.length 0 = m := by
    rw [List.takeD_eq_take _ (Nat.le_refl _), List.take_length]
  have hdrop : m.drop (m.length + cp.length) = [] :=
    List.drop_eq_nil_of_le (Nat.le_add_right _ _)
  rw [mCopyback, htake, hdrop, List.append_nil]

/-! ## Building a message -/

/-- `map_addrinfo`, with the sockaddrs its pointers `mapi_info` lead to. -/
structure MissAddrinfo where
  mapiAddrs : UInt16
  mapiInfo : Vector (Option Mem) 3

/-- A message of the mapping socket: the header at its start, and the bytes
behind it. -/
structure MissMessage where
  header : MapMsghdr
  data : List UInt8
  deriving DecidableEq, Repr

/-- The bytes of a message. -/
def MissMessage.toBytes (message : MissMessage) : List UInt8 :=
  message.header.toBytes ++ message.data

/-- The locals of `map_msg1`: `mapi_addrs`, the bytes of the chain `m`, and
`len`. -/
structure Msg1State where
  mapiAddrs : UInt16
  m : List UInt8
  len : ℕ

/-- One round of the loop over `mapi_info`. -/
def mapMsg1Sockaddr (s : Msg1State) : Option Mem × ℕ → Msg1State
  | (none, _) => s
  | (some ss, i) =>
      let dlen := ssSize (ss 0)
      { mapiAddrs := s.mapiAddrs ||| .ofNat (1 <<< i)
        m := mCopyback s.m s.len (ss.toList dlen)
        len := s.len + dlen }

/-- An arm that appends the first `dlen` bytes of the packet. -/
def mapMsg1Header (s : Msg1State) (mpkt : Mbuf) (dlen : ℕ) :
    Option (Msg1State × Mbuf) :=
  (mPullup mpkt dlen).map fun mpkt =>
    ({ s with m := s.m ++ mpkt.data.toList dlen, len := s.len + dlen }, mpkt)

/-- The arm for `MAPM_MISS_HEADER`.  The `switch` over the family of the EID is
closed behind its arm for IPv4, and the arm for IPv6 is one of the `switch` over
the type: control falls into it whatever the family is. -/
def mapMsg1MissHeader (mapinfo : MissAddrinfo) (s : Msg1State) (mpkt : Mbuf) :
    Option (Msg1State × Mbuf) := do
  let eid ← mapinfo.mapiInfo[0]
  let (s, mpkt) ←
    if eid 1 = afInet then mapMsg1Header s mpkt sizeofIp else some (s, mpkt)
  mapMsg1Header s mpkt sizeofIp6Hdr

/-- The arm for `MAPM_MISS_PACKET`. -/
def mapMsg1MissPacket (s : Msg1State) (mpkt : Mbuf) : Msg1State :=
  { s with m := s.m ++ mpkt.data.toList mpkt.len, len := s.len + mpkt.len }

/-- The `switch` over the type.  The first component is `none` when the message
is given up. -/
def mapMsg1Append (type : UInt16) (mapinfo : MissAddrinfo) (s : Msg1State) :
    Option Mbuf → Option (Option Msg1State × Option Mbuf)
  | none =>
      if type = mapmMissHeader then some (none, none)
      else if type = afInet6.toUInt16 ∨ type = mapmMissPacket then none
      else some (some s, none)
  | some mpkt =>
      if type = mapmMissHeader then
        (mapMsg1MissHeader mapinfo s mpkt).map fun r => (some r.1, some r.2)
      else if type = afInet6.toUInt16 then
        (mapMsg1Header s mpkt sizeofIp6Hdr).map fun r => (some r.1, some r.2)
      else if type = mapmMissPacket then
        some (some (mapMsg1MissPacket s mpkt), some mpkt)
      else some (some s, some mpkt)

/-- The header `map_msg1` fills in; the rest of it stays zero. -/
def msg1Header (type : UInt16) (s : Msg1State) : MapMsghdr where
  mapMsglen := .ofNat s.len
  mapVersion := mapmVersion
  mapType := type
  mapFlags := 0
  mapAddrs := s.mapiAddrs
  mapVersioning := 0
  mapRlocCount := 0
  mapPid := 0
  mapSeq := 0
  mapErrno := 0

/-- The state behind the loop over `mapi_info`. -/
def mapMsg1Sockaddrs (mapinfo : MissAddrinfo) : Msg1State :=
  mapinfo.mapiInfo.toList.zipIdx.foldl mapMsg1Sockaddr
    { mapiAddrs := mapinfo.mapiAddrs
      m := List.replicate sizeofMapMsghdr 0
      len := sizeofMapMsghdr }

/-- `map_msg1`: the message, unless it is given up, and the packet. -/
def mapMsg1 (type : UInt16) (mapinfo : MissAddrinfo) (mpkt : Option Mbuf) :
    Option (Option MissMessage × Option Mbuf) := do
  let (s, mpkt) ← mapMsg1Append type mapinfo (mapMsg1Sockaddrs mapinfo) mpkt
  let message := s.bind fun s =>
    if s.m.length ≠ s.len then none
    else some ⟨msg1Header type s, s.m.drop sizeofMapMsghdr⟩
  some (message, mpkt)

/-! ## Dispatching it -/

/-- `lispmissmsg`, with `LISP_MISSMSG_EID` for every other value. -/
inductive Missmsg
  | eid
  | header
  | packet
  deriving DecidableEq, Repr

/-- The type of a message about a miss. -/
def Missmsg.type : Missmsg → UInt16
  | .eid => mapmMissEid
  | .header => mapmMissHeader
  | .packet => mapmMissPacket

/-- The flags and the error `map_notifymsg` adds to a message. -/
def MissMessage.stamp (message : MissMessage) (flags error : UInt32) : MissMessage :=
  { message with
    header := { message.header with
      mapFlags := message.header.mapFlags ||| (mapfDone ||| flags)
      mapErrno := error } }

/-- `map_notifymsg` for `MAPM_MISS`, with a socket that listens: the message it
dispatches, if any, the packet, and `*error`. -/
def mapNotifymsgMiss (lispmissmsg : Missmsg) (mapinfo : MissAddrinfo)
    (mpkt : Option Mbuf) (flags error : UInt32) :
    Option (Option MissMessage × Option Mbuf × UInt32) :=
  if lispmissmsg ≠ .eid ∧ mpkt.isNone then some (none, mpkt, enoattr)
  else
    (mapMsg1 lispmissmsg.type mapinfo mpkt).map fun (message, mpkt) =>
      (message.map fun message => message.stamp flags error, mpkt, error)

/-- What `map_notifymsg` depends on: `map_cb.any_count`, `lispmissmsg`, and what the arm for
`MAPM_DELETE` comes to, a message or none and the error. -/
structure Notifier where
  anyCount : ℕ
  lispmissmsg : Missmsg
  deleted : Option MissMessage × UInt32

/-- `map_notifymsg`: the message it dispatches, if any, the packet, and `*error`. -/
def mapNotifymsg (notifier : Notifier) (type : UInt16) (mapinfo : MissAddrinfo)
    (mpkt : Option Mbuf) (flags error : UInt32) :
    Option (Option MissMessage × Option Mbuf × UInt32) :=
  if notifier.anyCount = 0 then some (none, mpkt, error)
  else if type = mapmMiss then
    mapNotifymsgMiss notifier.lispmissmsg mapinfo mpkt flags error
  else if type = mapmDelete then
    let (message, error) := notifier.deleted
    some (message.map fun message => message.stamp flags error, mpkt, error)
  -- `m` is `NULL` for every other type
  else some (none, mpkt, error)

/-- For the other types nothing is sent, and the packet and the error stay. -/
theorem mapNotifymsg_other (notifier : Notifier) {type : UInt16} (mapinfo : MissAddrinfo)
    (mpkt : Option Mbuf) (flags error : UInt32) (hmiss : type ≠ mapmMiss)
    (hdelete : type ≠ mapmDelete) :
    mapNotifymsg notifier type mapinfo mpkt flags error = some (none, mpkt, error) := by
  rw [mapNotifymsg, if_neg hmiss, if_neg hdelete, ite_self]

/-! ## Messages with the EID alone -/

/-- The `sockaddr_storage` of an EID: zero but for its length, its family and its
address. -/
def Address.storage : Address → Mem
  | .inet addr => Mem.ofList ([16, afInet, 0, 0] ++ addr.toList) fun _ => 0
  | .inet6 addr =>
      Mem.ofList ([28, afInet6, 0, 0, 0, 0, 0, 0] ++ addr.toList) fun _ => 0

/-- The request about a miss: the EID, and no mask. -/
def missAddrinfo (eid : Address) : MissAddrinfo where
  mapiAddrs := mapaEid
  mapiInfo := #v[some eid.storage, none, none]

@[simp] theorem ssSize_storage (eid : Address) : ssSize (eid.storage 0) = eid.room := by
  cases eid with
  | inet addr => exact ssSize_sockaddrIn
  | inet6 addr => exact ssSize_sockaddrIn6

/-- What lies behind the header of a message before a packet is appended. -/
def eidState (eid : Address) : Msg1State where
  mapiAddrs := mapaEid
  m := List.replicate sizeofMapMsghdr 0 ++ eid.storage.toList eid.room
  len := sizeofMapMsghdr + eid.room

theorem mapMsg1Sockaddrs_missAddrinfo (eid : Address) :
    mapMsg1Sockaddrs (missAddrinfo eid) = eidState eid := by
  have hcopy := mCopyback_length (List.replicate sizeofMapMsghdr 0)
    (eid.storage.toList eid.room)
  rw [List.length_replicate] at hcopy
  have haddrs : (missAddrinfo eid).mapiAddrs ||| .ofNat (1 <<< 0) = mapaEid :=
    (by decide : mapaEid ||| .ofNat (1 <<< 0) = mapaEid)
  change mapMsg1Sockaddr _ (some eid.storage, 0) = eidState eid
  rw [mapMsg1Sockaddr, eidState]
  dsimp only
  rw [ssSize_storage, hcopy, haddrs]

/-- The bytes `MAPM_MISS_HEADER` appends for an EID: twice for IPv4. -/
def missBytes (eid : Address) (mpkt : Mbuf) : List UInt8 :=
  match eid with
  | .inet _ => mpkt.data.toList sizeofIp ++ mpkt.data.toList sizeofIp6Hdr
  | .inet6 _ => mpkt.data.toList sizeofIp6Hdr

/-- The state with more bytes at its end. -/
def Msg1State.append (s : Msg1State) (bytes : List UInt8) : Msg1State :=
  { s with m := s.m ++ bytes, len := s.len + bytes.length }

theorem mapMsg1Header_eq (s : Msg1State) (mpkt : Mbuf) (dlen : ℕ) :
    mapMsg1Header s mpkt dlen =
      if dlen ≤ mpkt.len then some (s.append (mpkt.data.toList dlen), mpkt) else none := by
  unfold mapMsg1Header mPullup
  split
  · rw [Option.map_some, Msg1State.append, Mem.length_toList]
  · rfl

theorem Msg1State.append_append (s : Msg1State) (xs ys : List UInt8) :
    (s.append xs).append ys = s.append (xs ++ ys) := by
  simp only [append, List.append_assoc, List.length_append, Nat.add_assoc]

/-- Whatever the family, the arm needs as many bytes as an IPv6 header has. -/
theorem mapMsg1MissHeader_eq (eid : Address) (s : Msg1State) (mpkt : Mbuf) :
    mapMsg1MissHeader (missAddrinfo eid) s mpkt =
      if sizeofIp6Hdr ≤ mpkt.len then some (s.append (missBytes eid mpkt), mpkt)
      else none := by
  have heid : (missAddrinfo eid).mapiInfo[0] = some eid.storage := rfl
  unfold mapMsg1MissHeader
  rw [heid, Option.bind_eq_bind, Option.bind_some]
  cases eid with
  | inet addr =>
      have hfamily : (Address.inet addr).storage 1 = afInet := rfl
      rw [if_pos hfamily, mapMsg1Header_eq]
      by_cases hshort : sizeofIp ≤ mpkt.len
      · rw [if_pos hshort, Option.bind_eq_bind, Option.bind_some]
        dsimp only
        rw [mapMsg1Header_eq, Msg1State.append_append]
        rfl
      · have hlong : ¬ sizeofIp6Hdr ≤ mpkt.len :=
          fun h => hshort (Nat.le_trans (by decide) h)
        rw [if_neg hshort, if_neg hlong]
        rfl
  | inet6 addr =>
      have hfamily : ¬ (Address.inet6 addr).storage 1 = afInet :=
        (by decide : ¬ afInet6 = afInet)
      rw [if_neg hfamily, Option.bind_eq_bind, Option.bind_some]
      exact mapMsg1Header_eq s mpkt sizeofIp6Hdr

/-- The message about a miss, when one is built. -/
def missMessage (eid : Address) (mpkt : Mbuf) : MissMessage where
  header := msg1Header mapmMissHeader ((eidState eid).append (missBytes eid mpkt))
  data := eid.storage.toList eid.room ++ missBytes eid mpkt

/-- `map_msg1` builds the message about a miss if the packet is as long as an IPv6
header; otherwise it reads through the `NULL` that `m_pullup` left. -/
theorem mapMsg1_missHeader (eid : Address) (mpkt : Mbuf) :
    mapMsg1 mapmMissHeader (missAddrinfo eid) (some mpkt) =
      if sizeofIp6Hdr ≤ mpkt.len then
        some (some (missMessage eid mpkt), some mpkt)
      else none := by
  rw [mapMsg1, mapMsg1Sockaddrs_missAddrinfo, mapMsg1Append, if_pos rfl,
    mapMsg1MissHeader_eq]
  split
  · rw [Option.map_some, Option.bind_eq_bind, Option.bind_some]
    dsimp only
    rw [Option.bind_some, if_neg]
    · simp only [Msg1State.append, eidState, missMessage, List.append_assoc]
      rfl
    · simp only [Msg1State.append, eidState, List.length_append, List.length_replicate,
        Mem.length_toList, ne_eq, not_true_eq_false, not_false_eq_true]
  · rfl

/-- The dispatched message differs in its flags and its error. -/
theorem mapNotifymsgMiss_header {eid : Address} {mpkt : Mbuf}
    (hlen : sizeofIp6Hdr ≤ mpkt.len) (flags error : UInt32) :
    mapNotifymsgMiss .header (missAddrinfo eid) (some mpkt) flags error =
      some (some ((missMessage eid mpkt).stamp flags error), some mpkt, error) := by
  have htype : Missmsg.header.type = mapmMissHeader := rfl
  rw [mapNotifymsgMiss, if_neg (by simp), htype, mapMsg1_missHeader, if_pos hlen]
  rfl

end HyLisp.DataPlane
