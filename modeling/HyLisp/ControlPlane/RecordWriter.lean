import HyLisp.ControlPlane.MapRequest
import HyLisp.ControlPlane.RegisterRecord

/-!
# Writing the records of a message

Map-Replies and Map-Registers are built in a buffer of zeros, from the header on:
every record is followed by its locators.  A message under construction is what
its header counts and the bytes written behind the header.  A field no code
assigns keeps the zero it finds.
-/

namespace HyLisp.ControlPlane

open DataPlane

/-- `pk_rpl_entry`.  Of the header the record count and the probe bit change while
records are added; `requestProbe` is the probe bit of the request answered, if
there is one. -/
structure RplEntry where
  recordCount : UInt8
  rlocProbe : Bool
  requestProbe : Option Bool
  body : List UInt8

/-- `htonl` on a little-endian host. -/
def htonl (x : UInt32) : ℕ :=
  x.toNat % 256 * 16777216 + x.toNat / 256 % 256 * 65536 +
    x.toNat / 65536 % 256 * 256 + x.toNat / 16777216

/-- What the twelve bits of `version` hold after an assignment of `htonl(version)`. -/
def versionField (version : UInt32) : UInt16 :=
  .ofNat (htonl version % 4096)

/-- The byte of `act` and `a`; `act` is assigned to a negative record only. -/
def actByte (lcount : UInt8) (A act : UInt8) : UInt8 :=
  (if lcount = 0 then act <<< 5 else 0) ||| (A &&& 1) <<< 4

/-- The bytes of a record before its locators. -/
def recordBytes (p : Prefix) (ttl : UInt32) (lcount : UInt8) (version : UInt32)
    (A act : UInt8) : List UInt8 :=
  Mem.be32Bytes ttl ++ ([lcount, p.prefixlen, actByte lcount A act, 0] ++
    (Mem.le16Bytes (versionField version) ++ afiAddress (some p.addr)))

/-- `udp_reply_add_record`, which is also `udp_register_add_record`. -/
def udpReplyAddRecord (rpk : RplEntry) (p : Prefix) (ttl : UInt32) (lcount : UInt8)
    (version : UInt32) (A act : UInt8) : RplEntry :=
  { rpk with
    recordCount := rpk.recordCount + 1
    rlocProbe := rpk.rlocProbe || rpk.requestProbe.getD false
    body := rpk.body ++ recordBytes p ttl lcount version A act }

/-! ## Locators -/

/-- The byte of `L`, `p` and `R`. -/
def locatorFlags (L p r : Bool) : UInt8 :=
  (if L then 0x04 else 0) ||| (if p then 0x02 else 0) ||| (if r then 0x01 else 0)

/-- The bytes of a locator with an address. -/
def plainLocatorBytes (e : ReplyEntry) (addr : Address) : List UInt8 :=
  [e.priority, e.weight, e.mPriority, e.mWeight, 0, locatorFlags e.L e.p e.r] ++
    afiAddress (some addr)

/-- The bytes of a hop. -/
def hopBytes (L P S : Bool) (addr : Address) : List UInt8 :=
  let flags : UInt8 :=
    (if L then 0x20 else 0) ||| (if P then 0x40 else 0) ||| (if S then 0x80 else 0)
  match addr with
  | .inet addr => [0, 1, 0, flags] ++ addr.toList
  | .inet6 addr => [0, 2, 0, flags] ++ addr.toList

/-- The bytes of a path, whose last hop is the locator. -/
def pathLocatorBytes (e : ReplyEntry) (addr : Address) (pe : PeEntry) : List UInt8 :=
  let hops := pe.hop.flatMap (fun he => hopBytes he.L he.P he.S he.addr) ++
    hopBytes false false false addr
  [pe.priority, pe.weight, pe.mPriority, pe.mWeight, 0, locatorFlags e.L e.p e.r] ++
    (Mem.be16Bytes (.ofNat lcafAfi) ++ ([0, 0, lcafTe, 0] ++
      (Mem.be16Bytes (.ofNat hops.length) ++ hops)))

/-- The locators that `udp_register_add_locator` writes: one for each path where
paths are asked for, or a plain one. -/
def locatorEntries (lispTe fncXtr : Bool) (e : RegisterEntry) (addr : Address)
    (exInfo : Bool) : List (List UInt8) :=
  match e.pe with
  | some pes =>
      if fncXtr && lispTe && exInfo then pes.map (pathLocatorBytes e.toReplyEntry addr)
      else [plainLocatorBytes e.toReplyEntry addr]
  | none => [plainLocatorBytes e.toReplyEntry addr]

/-- Every path has a hop. -/
def pathsHaveHops (e : RegisterEntry) : Bool :=
  (e.pe.getD []).all fun pe => !pe.hop.isEmpty

/-- `udp_register_add_locator`; another family than IPv4 and IPv6 is a failed
assertion.  The list of hops is made with the first one, and that of a path without
hops is read through a null pointer. -/
def udpRegisterAddLocator (lispTe fncXtr : Bool) (rpk : RplEntry) (e : RegisterEntry)
    (exInfo : Bool) : Option RplEntry :=
  if (fncXtr && lispTe && exInfo) = true ∧ pathsHaveHops e = false then none
  else e.rloc.address.map fun addr =>
    { rpk with body := rpk.body ++ (locatorEntries lispTe fncXtr e addr exInfo).flatten }

/-- The locators of a record, one after the other. -/
def addLocators (lispTe fncXtr : Bool) (exInfo : Bool) :
    List RegisterEntry → RplEntry → Option RplEntry
  | [], rpk => some rpk
  | e :: rest, rpk =>
      (udpRegisterAddLocator lispTe fncXtr rpk e exInfo).bind
        (addLocators lispTe fncXtr exInfo rest)

end HyLisp.ControlPlane
