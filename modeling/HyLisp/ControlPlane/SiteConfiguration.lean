import HyLisp.ControlPlane.MappingDatabase

/-!
# Configuration of the mapping database

The configuration fills the trees before any packet arrives.  Ranges are set aside,
prefixes are delegated to sites, which keep the list of their nodes, and mappings are
entered.  A prefix that is read from the configuration is never longer than its
address; `_valid_prefix` looks at what lies above it.

A run of the database starts with the two roots.  Entries of the configuration and
messages may follow in any order.
-/

namespace HyLisp.ControlPlane

open DataPlane

/-! ## Prefixes of the configuration -/

/-- A prefix as `str2prefix` reads it. -/
structure ConfigPrefix extends Prefix where
  fits : prefixlen.toNat ≤ addr.width

/-- `_MAPP_XTR` -/
def typeMappXtr : UInt8 := 2

/-- `_GREID` -/
def typeGreid : UInt8 := 16

/-- `_REID` -/
def typeReid : UInt8 := 64

/-- The last part of `_valid_prefix`: what the first node with flags above a prefix
allows, of which the top is none. -/
def rangeAllows (type : UInt8) (range : Option UInt8) : Bool :=
  if type = typeMappXtr then range.all fun range => range = typeMappXtr
  else if type = typeGeid ∨ type = typeGreid then range.isNone
  else if type = typeEid then range.all fun range => range &&& (typeGeid ||| typeEid) ≠ 0
  else if type = typeReid then range.all fun range => range = typeGreid
  else false

/-- The data of the node that `db_node_get` finds, unless it makes one. -/
def DbTree.found {ν : Type} : DbTree ν → Prefix → Option ν
  | .nil, _ => none
  | .node n data left right, p =>
      if n.prefixlen ≤ p.prefixlen ∧ prefixMatch n p then
        if n.prefixlen = p.prefixlen then some data
        else if checkBit p.addr.toMem n.prefixlen.toNat then right.found p
        else left.found p
      else none

namespace MapServer

/-- `_valid_prefix` -/
def validPrefix (s : MapServer) (p : Prefix) (type : UInt8) : Bool :=
  let path := (s.tree p.addr).matchPath p
  match path.getLast? with
  | none => true
  | some rn =>
      if rn.1.prefixlen = p.prefixlen then true
      else rangeAllows type
        ((path.tail.reverse.findSome? fun node => node.2.flags).map fun flags => flags.range)

/-! ## Filling the trees -/

/-- `ms_new_node_ex` -/
def msNewNodeEx (type : UInt8) : DbFlags where
  act := 0
  A := false
  version := 0
  ttl := 0
  range := type
  rsvd := none
  proxy := false
  referral := 0
  incomplete := false
  active := true

/-- `ms_init_db`, with the sites of the configuration. -/
def msInitDb (sites : ℕ → SiteInfo) : MapServer where
  lispDb4 := .node ⟨.inet (Vector.replicate 4 0), 0⟩
    ⟨0, some (msNewNodeEx typeRoot), none⟩ .nil .nil
  lispDb6 := .node ⟨.inet6 (Vector.replicate 16 0), 0⟩
    ⟨1, some (msNewNodeEx typeRoot), none⟩ .nil .nil
  next := 2
  eids := fun _ => []
  sites := sites

/-- The address of the node that `db_node_get` returns for a prefix. -/
def nodeFor (s : MapServer) (p : Prefix) : ℕ :=
  match (s.tree p.addr).found p with
  | some nd => nd.id
  | none => s.next + 1

/-- `ms_node_update_type` -/
def msNodeUpdateType (type : UInt8) (nd : DbNode) : DbNode :=
  let flags :=
    match nd.flags with
    | none => msNewNodeEx type
    | some flags => { flags with range := flags.range ||| type }
  { nd with flags := some flags }

/-- An `eid_prefix` of the configuration: a range is set aside, if it may be. -/
def assign (s : MapServer) (type : UInt8) (p : Prefix) : MapServer :=
  if s.validPrefix p type then s.dbNodeGet p (msNodeUpdateType type) else s

/-- The flags of a delegation. -/
def delegationFlags (site : ℕ) (active : Bool) : DbFlags :=
  { msNewNodeEx typeEid with rsvd := some site, active := active }

/-- A `delegated_eid_prefix` of a site: its node goes to the end of the list of the
site. -/
def delegate (s : MapServer) (site : ℕ) (p : Prefix) (active : Bool) : Option MapServer :=
  if s.validPrefix p typeEid then
    some
      { s.dbNodeGet p fun nd =>
          { nd with flags := some (setFlags nd.flags (delegationFlags site active)) } with
        eids := Function.update s.eids site (s.eids site ++ [s.nodeFor p]) }
  else none

/-- An EID prefix of the configuration with its mapping, whose flags name no site. -/
def enterConfigured (s : MapServer) (type : UInt8) (p : Prefix) (mflags : DbFlags)
    (info : List RegisterEntry) : Option MapServer :=
  if s.validPrefix p type then
    some (s.enterMapping p { mflags with rsvd := none } info)
  else none

end MapServer

/-! ## Runs of the database -/

/-- What changes the database or searches it: an entry of the configuration, a
datagram with a Map-Request, a Map-Register, or a record of a Map-Referral. -/
inductive DbEvent
  | assign (type : UInt8) (p : ConfigPrefix)
  | delegate (site : ℕ) (p : ConfigPrefix) (active : Bool)
  | enter (type : UInt8) (p : ConfigPrefix) (mflags : DbFlags) (info : List RegisterEntry)
  | request (buf : Mem) (bufLen : ℕ)
  | register (r : RegisterPacket)
  | refer (rec : Mem)

/-- One event; a configuration that is refused ends the program. -/
def dbStep (hmac : Hmac) (lispTe : Bool) (s : MapServer) : DbEvent → Option MapServer
  | .assign type p => some (s.assign type p.toPrefix)
  | .delegate site p active => s.delegate site p.toPrefix active
  | .enter type p mflags info => s.enterConfigured type p.toPrefix mflags info
  | .request _ _ => some s
  | .register r => some (s.register hmac lispTe r)
  | .refer rec => some (s.refer rec)

end HyLisp.ControlPlane
