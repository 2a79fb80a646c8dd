import HyLisp.ControlPlane.MapMessages
import HyLisp.ControlPlane.RequestParser

/-!
# Records of a Map-Reply

A record carries an EID prefix and its locators.  `read_rec` turns it into a
mapping and hands the mapping to the data plane.  Of an explicit locator path it
keeps a single hop, chosen by the functions the node runs; locators with one
address are merged.
-/

namespace HyLisp.ControlPlane

open DataPlane

/-- The settings `read_rec` consults: `lisp_te`, the function bits of an xTR and
of an RTR, and `is_my_addr`. -/
structure ReplyConfig where
  lispTe : Bool
  fncXtr : Bool
  fncRtr : Bool
  isMyAddr : Address → Bool

/-- `map_entry`, with the fields a Map-Reply sets. -/
structure ReplyEntry extends MapEntry where
  mPriority : UInt8
  mWeight : UInt8
  p : Bool
  deriving DecidableEq, Repr

/-- `mapping_flags`, with the fields a Map-Reply sets. -/
structure MappingFlags where
  act : UInt8
  A : Bool
  version : ℕ
  ttl : ℕ
  deriving DecidableEq, Repr

/-- The mapping handed to `opl_add`. -/
structure ReplyMapping where
  eid : Prefix
  flags : MappingFlags
  info : List ReplyEntry
  deriving DecidableEq, Repr

/-- `LCAF_TE` -/
def lcafTe : UInt8 := 10

/-- `sizeof(struct lcaf_hdr)` -/
def sizeofLcafHdr : ℕ := 8

/-- `sizeof(struct rloc_te)` -/
def sizeofRlocTe : ℕ := 8

/-- `sizeof(struct rloc6_te)`, and of the union of the two. -/
def sizeofRloc6Te : ℕ := 20

/-! ## Explicit locator paths -/

/-- The size of a hop. -/
def hopSize : Address → ℕ
  | .inet _ => sizeofRlocTe
  | .inet6 _ => sizeofRloc6Te

/-- The hop at a position of a path, and its size. -/
def readHop (hop : Mem) : Option (Address × ℕ) :=
  if hop.be16 0 = lispAfiIp then some (.inet (hop.bytes 4 4), sizeofRlocTe)
  else if hop.be16 0 = lispAfiIpv6 then
    some (.inet6 (hop.bytes 4 16), sizeofRloc6Te)
  else none

/-- The hops from position `hop` up to `barr`, with their positions; `n` bounds
their number. -/
def readHops (lcaf : Mem) (barr : ℕ) : ℕ → ℕ → Option (List (ℕ × Address))
  | 0, _ => some []
  | n + 1, hop =>
      if hop < barr then
        match readHop (lcaf.advance hop) with
        | none => none
        | some (addr, size) =>
            (readHops lcaf barr n (hop + size)).map fun hops => (hop, addr) :: hops
      else some []

/-- The test for the last hop.  For IPv6 the size is counted in hops, and
`lisp_te` is not consulted. -/
def isLastHop (cfg : ReplyConfig) (barr hop : ℕ) : Address → Bool
  | .inet _ => !cfg.lispTe && decide (hop + sizeofRlocTe ≥ barr)
  | .inet6 _ => decide (hop + sizeofRloc6Te * sizeofRloc6Te > barr)

/-- The loop that chooses a hop: `first` stands for `!pec`. -/
def chooseHop (cfg : ReplyConfig) (barr : ℕ) :
    List (ℕ × Address) → Bool → Bool → Option Address
  | [], _, _ => none
  | (hop, addr) :: rest, first, rtr =>
      if first && cfg.lispTe && cfg.fncXtr then some addr
      else if cfg.lispTe && cfg.fncRtr && rtr then some addr
      else
        let rtr := cfg.lispTe && cfg.fncRtr && cfg.isMyAddr addr
        if isLastHop cfg barr hop addr then some addr
        else chooseHop cfg barr rest false rtr

/-! ## Locators -/

/-- A sockaddr with everything but family and address zero. -/
def addressSockUnion : Address → SockUnion
  | .inet addr => .inet (zeros 2) addr (zeros 8)
  | .inet6 addr => .inet6 (zeros 2) (zeros 4) addr (zeros 4)

/-- The entry of a locator with a given address. -/
def replyEntry (loc : Mem) (addr : Address) : ReplyEntry where
  rloc := addressSockUnion addr
  priority := loc 0
  weight := loc 1
  mPriority := loc 2
  mWeight := loc 3
  L := loc 5 &&& 0x04 ≠ 0
  r := loc 5 &&& 0x01 ≠ 0
  p := loc 5 &&& 0x02 ≠ 0

/-- One turn of the loop over the locators: the entry and the size of the
locator.  There is none for an unknown family, or when no hop of a path is
chosen. -/
def readLocator (cfg : ReplyConfig) (loc : Mem) : Option (ReplyEntry × ℕ) :=
  let lcaf := loc.advance 6
  if lcaf.be16 0 = lcafAfi ∧ lcaf 4 = lcafTe then
    let payloadLen := lcaf.be16 6
    let barr := sizeofLcafHdr + payloadLen
    match readHops lcaf barr payloadLen sizeofLcafHdr with
    | none => none
    | some hops =>
        (chooseHop cfg barr hops true false).map fun addr =>
          (replyEntry loc addr, 6 + barr)
  else
    (readAddress lcaf).map fun addr =>
      (replyEntry loc addr, 6 + getAddressSize lcaf)

/-- `list_search` and what follows: the first entry with the address is replaced
when its priority is greater; without one, the entry goes to the end. -/
def mergeEntry (info : List ReplyEntry) (entry : ReplyEntry) : List ReplyEntry :=
  match info with
  | [] => [entry]
  | e :: rest =>
      if entry.rloc.address = e.rloc.address then
        if e.priority > entry.priority then entry :: rest else e :: rest
      else e :: mergeEntry rest entry

/-- The loop over the locators from offset `loc` on, and the offset behind
them. -/
def readLocators (cfg : ReplyConfig) (rec : Mem) :
    ℕ → ℕ → List ReplyEntry → Option (List ReplyEntry × ℕ)
  | 0, loc, info => some (info, loc)
  | lcount + 1, loc, info =>
      match readLocator cfg (rec.advance loc) with
      | none => none
      | some (entry, size) =>
          readLocators cfg rec lcount (loc + size) (mergeEntry info entry)

/-! ## Records -/

/-- `read_rec`: the length it returns, and the mapping it hands to `opl_add`.  A
record that is not understood has length 0. -/
def readRec (cfg : ReplyConfig) (rec : Mem) : ℕ × Option ReplyMapping :=
  let afi := rec.advance 10
  match readAddress afi with
  | none => (0, none)
  | some addr =>
      match readLocators cfg rec (rec 4).toNat (10 + getAddressSize afi) [] with
      | none => (0, none)
      | some (info, rlen) =>
          (rlen, some
            { eid := ⟨addr, rec 5⟩
              flags :=
                { act := rec 6 >>> 5
                  A := rec 6 &&& 0x10 ≠ 0
                  version := rec.le16 8 % 4096
                  ttl := rec.be32 0 }
              info := info })

/-- The loop over the records of a Map-Reply, from offset `k` on: the mappings
handed to `opl_add`. -/
def readRecs (cfg : ReplyConfig) (buf : Mem) : ℕ → ℕ → List ReplyMapping
  | 0, _ => []
  | n + 1, k =>
      let (recLen, mapping) := readRec cfg (buf.advance k)
      mapping.toList ++ readRecs cfg buf n (k + recLen)

end HyLisp.ControlPlane
