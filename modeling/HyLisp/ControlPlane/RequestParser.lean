import HyLisp.DataPlane.MapTables
import HyLisp.ControlPlane.Prefix

/-!
# The Map-Request parser of the control plane

A control datagram is parsed in two passes.  The first one locates the LISP
message, behind the headers of at most one encapsulation; the second one walks
over the source EID and the ITR-RLOCs of a Map-Request and collects the EID
prefixes of its records.
-/

namespace HyLisp.ControlPlane

open DataPlane

/-! ## Constants -/

/-- `LISP_TYPE_MAP_REQUEST` -/
def lispTypeMapRequest : UInt8 := 1

/-- `LISP_TYPE_MAP_REPLY` -/
def lispTypeMapReply : UInt8 := 2

/-- `LISP_TYPE_MAP_REGISTER` -/
def lispTypeMapRegister : UInt8 := 3

/-- `LISP_TYPE_MAP_NOTIFY` -/
def lispTypeMapNotify : UInt8 := 4

/-- `LISP_TYPE_MAP_REFERRAL` -/
def lispTypeMapReferral : UInt8 := 6

/-- `LISP_TYPE_ENCAPSULATED_CONTROL_MESSAGE` -/
def lispTypeEcm : UInt8 := 8

/-- `LISP_AFI_IP` -/
def lispAfiIp : ℕ := 1

/-- `LISP_AFI_IPV6` -/
def lispAfiIpv6 : ℕ := 2

/-- `LCAF_AFI` -/
def lcafAfi : ℕ := 16387

/-- `sizeof(struct lisp_control_hdr)` -/
def sizeofLispControlHdr : ℕ := 4

/-- `sizeof(struct map_request_hdr)` -/
def sizeofMapRequestHdr : ℕ := 12

/-- `sizeof(struct ip)` -/
def sizeofIp : ℕ := 20

/-- `sizeof(struct ip6_hdr)` -/
def sizeofIp6Hdr : ℕ := 40

/-- `sizeof(struct udphdr)` -/
def sizeofUdphdr : ℕ := 8

/-- `_NONESIZE` -/
def nonesize : ℕ := 8

/-! ## Locating the message -/

/-- The type of the LISP header at `lh`. -/
def lispType (lh : Mem) : UInt8 :=
  lh 0 >>> 4

/-- What is kept of an encapsulation: the bit of a DDT node, and the source
address and port of the inner headers. -/
structure Ecm where
  ddt : Bool
  ihSi : Address
  ihPort : ℕ
  deriving DecidableEq, Repr

/-- The fields of `pk_req_entry` filled in by the first pass; `lcm` is the offset
of the LISP message. -/
structure Preparsed where
  ecm : Option Ecm
  lcm : ℕ
  type : UInt8
  nonce0 : ℕ
  nonce1 : ℕ
  deriving DecidableEq, Repr

/-- The end of `udp_preparse_pk`, with the message located. -/
def preparseLcm (buf : Mem) (bufLen : ℕ) (ecm : Option Ecm) (lcm : ℕ) :
    Option Preparsed :=
  let lh := buf.advance lcm
  if lcm + sizeofLispControlHdr + nonesize > bufLen then none
  else if lispType lh = lispTypeMapRequest ∨ lispType lh = lispTypeMapReply ∨
      lispType lh = lispTypeMapRegister ∨ lispType lh = lispTypeMapNotify ∨
      lispType lh = lispTypeMapReferral then
    some ⟨ecm, lcm, lispType lh, lh.be32 4, lh.be32 8⟩
  else none

/-- `udp_preparse_pk`.  The IPv4 header of an encapsulation is taken to be
twenty bytes long. -/
def udpPreparsePk (buf : Mem) (bufLen : ℕ) : Option Preparsed :=
  if bufLen < sizeofLispControlHdr then none
  else if lispType buf = lispTypeEcm then
    let ddt := buf 0 &&& 0x04 ≠ 0
    let ih := sizeofLispControlHdr
    if ih + sizeofIp + sizeofUdphdr > bufLen then none
    else if buf ih >>> 4 = 4 then
      let udp := ih + sizeofIp
      preparseLcm buf bufLen
        (some ⟨ddt, .inet (buf.bytes (ih + 12) 4), buf.be16 udp⟩)
        (udp + sizeofUdphdr)
    else if buf ih >>> 4 = 6 then
      let udp := ih + sizeofIp6Hdr
      preparseLcm buf bufLen
        (some ⟨ddt, .inet6 (buf.bytes (ih + 8) 16), buf.be16 udp⟩)
        (udp + sizeofUdphdr)
    else none
  else preparseLcm buf bufLen none 0

/-! ## Parsing the message -/

/-- `_get_address_type` -/
def getAddressType (addr : Mem) : ℕ :=
  addr.be16 0

/-- `_get_address_size`, of an AFI and the address behind it. -/
def getAddressSize (addr : Mem) : ℕ :=
  if getAddressType addr = lispAfiIp then 6
  else if getAddressType addr = lispAfiIpv6 then 18
  else 0

/-- The address behind an AFI, unless it is of another family. -/
def readAddress (addr : Mem) : Option Address :=
  if getAddressType addr = lispAfiIp then some (.inet (addr.bytes 2 4))
  else if getAddressType addr = lispAfiIpv6 then some (.inet6 (addr.bytes 2 16))
  else none

/-- The size of the source EID; of an address of another family only the AFI is
stepped over. -/
def eidSize (eidSource : Mem) : ℕ :=
  if (readAddress eidSource).isSome then getAddressSize eidSource else 2

/-- The loop over the ITR-RLOCs at offset `k`: the addresses and the offset
behind them. -/
def readItrRlocs (lcm : Mem) : ℕ → ℕ → Option (List Address × ℕ)
  | 0, k => some ([], k)
  | icount + 1, k =>
      match readAddress (lcm.advance k) with
      | none => none
      | some addr =>
          (readItrRlocs lcm icount (k + getAddressSize (lcm.advance k))).map
            fun (addrs, k) => (addr :: addrs, k)

/-- The loop over the records at offset `k`.  A record in LCAF form keeps its
mask in front and its address twelve bytes further. -/
def readRecords (lcm : Mem) : ℕ → ℕ → Option (List Prefix)
  | 0, _ => some []
  | rcount + 1, k =>
      let prefixlen := lcm (k + 1)
      let k := if getAddressType (lcm.advance (k + 2)) = lcafAfi then k + 12 else k
      match readAddress (lcm.advance (k + 2)) with
      | none => none
      | some addr =>
          (readRecords lcm rcount
            (k + 2 + getAddressSize (lcm.advance (k + 2)))).map
            fun eids => ⟨addr, prefixlen⟩ :: eids

/-- `udp_prc_request`: the ITR-RLOCs and the EID prefixes of a Map-Request, when
the call returns 1. -/
def udpPrcRequest (lcm : Mem) : Option (List Address × List Prefix) :=
  if lispType lcm ≠ lispTypeMapRequest then none
  else
    let itrRloc := sizeofMapRequestHdr + eidSize (lcm.advance sizeofMapRequestHdr)
    match readItrRlocs lcm ((lcm 2 &&& 0x1F).toNat + 1) itrRloc with
    | none => none
    | some (itr, k) =>
        (readRecords lcm (lcm 3).toNat k).map fun eid => (itr, eid)

/-- Both passes over a received datagram: the EID prefixes, when both accept
it. -/
def requestEids (buf : Mem) (bufLen : ℕ) : Option (List Prefix) :=
  (udpPreparsePk buf bufLen).bind fun pke =>
    (udpPrcRequest (buf.advance pke.lcm)).map Prod.snd

end HyLisp.ControlPlane
