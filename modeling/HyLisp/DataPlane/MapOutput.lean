import HyLisp.DataPlane.MapTables

/-!
# Parsing map messages in the data plane

`map_output` checks a message written to the mapping socket and lets
`map_xaddrs` find the sockaddrs in it; the request it builds points into the
message.

Pointers into the message are offsets from its header.  A message is a memory
together with the length of the packet it arrived in.
-/

namespace HyLisp.DataPlane

/-- The errors of the modelled path. -/
inductive Errno
  | einval
  | eprotonosupport
  deriving DecidableEq, Repr

/-- `MAPM_GET` -/
def mapmGet : UInt16 := 0x04

/-- `RLOCF_TXNONCE` -/
def rlocfTxnonce : UInt16 := 0x04

/-- Where the mask of a request lies: in the message, or in one of the two
all-ones sockaddrs of the kernel. -/
inductive MaskPointer
  | inMessage (offset : ℕ)
  | ssOnesInet
  | ssOnesInet6
  deriving DecidableEq, Repr

/-- `map_addrinfo`, with the three pointers of `mapi_info` as fields. -/
structure MapAddrinfo where
  mapiAddrs : UInt16
  eid : Option ℕ
  eidmask : Option MaskPointer
  rloc : Option ℕ
  mapiRlocCount : UInt32
  mapiFlags : UInt32
  mapiVersioning : UInt16
  deriving DecidableEq, Repr

/-- The families `map_xaddrs` accepts. -/
def KnownFamily (ss : Mem) : Prop :=
  ss 1 = afInet ∨ ss 1 = afInet6

instance (ss : Mem) : Decidable (KnownFamily ss) :=
  inferInstanceAs (Decidable (_ ∨ _))

/-- `map_xaddrs` at an EID or a mask: the position behind the sockaddr. -/
def mapXaddrsSockaddr (mapmsg : Mem) (cplim cp : ℕ) : Except Errno ℕ :=
  let ss := mapmsg.advance cp
  if cp + (ss 0).toNat > cplim ∨ ¬ KnownFamily ss then .error .einval
  else if ss 0 = 0 then .error .einval
  else .ok (cp + ssSize (ss 0))

/-- `map_xaddrs` at the RLOCs, with `rlocnum` entries left. -/
def mapXaddrsRlocs (mapmsg : Mem) (cplim : ℕ) : ℕ → ℕ → Except Errno ℕ
  | 0, cp => .ok cp
  | rlocnum + 1, cp =>
      let ss := mapmsg.advance cp
      if cp + (ss 0).toNat + sizeofRlocMtx > cplim ∨ ¬ KnownFamily ss then
        .error .einval
      else if ss 0 = 0 then .error .einval
      else
        mapXaddrsRlocs mapmsg cplim rlocnum
          (cp + ssSize (ss 0) + sizeofRlocMtx)

/-- `map_xaddrs`: the three rounds of its loop, each of which is skipped when the
position has reached the end or the message does not announce the sockaddr. -/
def mapXaddrs (mapmsg : Mem) (cp cplim : ℕ) (mapinfo : MapAddrinfo) :
    Except Errno MapAddrinfo := do
  let (mapinfo, cp) ←
    if cp < cplim ∧ mapinfo.mapiAddrs &&& mapaEid ≠ 0 then do
      let next ← mapXaddrsSockaddr mapmsg cplim cp
      pure ({ mapinfo with eid := some cp }, next)
    else pure (mapinfo, cp)
  let (mapinfo, cp) ←
    if cp < cplim ∧ mapinfo.mapiAddrs &&& mapaEidmask ≠ 0 then do
      let next ← mapXaddrsSockaddr mapmsg cplim cp
      pure ({ mapinfo with eidmask := some (.inMessage cp) }, next)
    else pure (mapinfo, cp)
  if cp < cplim ∧ mapinfo.mapiAddrs &&& mapaRloc ≠ 0 then
    if mapinfo.mapiRlocCount ≠ 0 ∧ mapinfo.mapiFlags &&& mapfNegative ≠ 0 then
      .error .einval
    else do
      let _ ← mapXaddrsRlocs mapmsg cplim mapinfo.mapiRlocCount.toNat cp
      pure { mapinfo with rloc := some cp }
  else pure mapinfo

/-- Without a mask in the message, the EID is taken for a host. -/
def defaultMask (mapmsg : Mem) (header : MapMsghdr) (mapinfo : MapAddrinfo) :
    MapAddrinfo :=
  match mapinfo.eid, mapinfo.eidmask with
  | some eid, none =>
      if header.mapType ≠ mapmGet then
        let mapinfo :=
          { mapinfo with mapiAddrs := mapinfo.mapiAddrs ||| mapaEidmask }
        let family := mapmsg.advance eid 1
        if family = afInet then { mapinfo with eidmask := some .ssOnesInet }
        else if family = afInet6 then
          { mapinfo with eidmask := some .ssOnesInet6 }
        else mapinfo
      else mapinfo
  | _, _ => mapinfo

/-- `map_output`, up to the request it builds from a message of `len` bytes. -/
def mapOutput (mapmsg : Mem) (len : ℕ) : Except Errno MapAddrinfo := do
  let header := MapMsghdr.ofMem mapmsg
  if len < sizeofMapMsghdr ∨ len ≠ header.mapMsglen.toNat then .error .einval
  else if header.mapVersion ≠ mapmVersion then .error .eprotonosupport
  else do
    let mapinfo ← mapXaddrs mapmsg sizeofMapMsghdr len
      { mapiAddrs := header.mapAddrs
        eid := none
        eidmask := none
        rloc := none
        mapiRlocCount := header.mapRlocCount
        mapiFlags := header.mapFlags
        mapiVersioning := header.mapVersioning }
    let mapinfo := defaultMask mapmsg header mapinfo
    if (mapinfo.mapiRlocCount ≠ 0 ∧ mapinfo.rloc = none) ∨
        (mapinfo.mapiRlocCount = 0 ∧ mapinfo.rloc ≠ none) ∨
        (mapinfo.mapiFlags &&& mapfNegative ≠ 0 ∧
          (mapinfo.mapiRlocCount ≠ 0 ∨ mapinfo.rloc ≠ none)) then
      .error .einval
    else if mapinfo.eid = none then .error .einval
    else .ok mapinfo

end HyLisp.DataPlane
