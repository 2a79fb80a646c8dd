import HyLisp.ControlPlane.MapRegister
import HyLisp.ControlPlane.PrefixInsertion
import HyLisp.ControlPlane.RegisterRecord

/-!
# The mapping database

The nodes of the two trees carry the flags of their prefixes and, where there is a
mapping, its locators.  Nodes and lists of locators are kept by the number of their
allocation, which stands for their address: the list of a site points to the nodes
delegated to it, whether they are still in a tree or not.

Mappings come from Map-Registers, which first erase those of the site, and from the
records of Map-Referrals.
-/

namespace HyLisp.ControlPlane

open DataPlane

/-! ## Nodes -/

/-- `_MAPP` -/
def typeMapp : UInt8 := 1

/-- `_GEID` -/
def typeGeid : UInt8 := 8

/-- `_ROOT` -/
def typeRoot : UInt8 := 0

/-- `mapping_flags`, as it is kept at a node. -/
structure DbFlags extends MappingFlags, NodeFlags where
  proxy : Bool
  referral : UInt8
  incomplete : Bool
  active : Bool

/-- `db_node`, without prefix and links: its address, the flags, and the list of
locators with its address. -/
structure DbNode where
  id : ℕ
  flags : Option DbFlags
  info : Option (ℕ × List RegisterEntry)

/-- The trees, the next address to be allocated, and for each site the list of the
nodes delegated to it. -/
structure MapServer where
  lispDb4 : DbTree DbNode
  lispDb6 : DbTree DbNode
  next : ℕ
  eids : ℕ → List ℕ
  sites : ℕ → SiteInfo

/-- Another kind of data at the nodes. -/
def DbTree.map {ν μ : Type} (f : ν → μ) : DbTree ν → DbTree μ
  | .nil => .nil
  | .node p data left right => .node p (f data) (left.map f) (right.map f)

namespace MapServer

/-- The state as the authentication of Map-Registers sees it. -/
def toMsState (s : MapServer) : MsState where
  db :=
    let flags (nd : DbNode) : Option NodeFlags := nd.flags.map (·.toNodeFlags)
    ⟨s.lispDb4.map flags, s.lispDb6.map flags⟩
  sites := s.sites

/-- The tree for an address. -/
def tree (s : MapServer) (addr : Address) : DbTree DbNode :=
  match addr with
  | .inet _ => s.lispDb4
  | .inet6 _ => s.lispDb6

/-- The nodes of both trees. -/
def nodes (s : MapServer) : List (Prefix × DbNode) :=
  s.lispDb4.nodes ++ s.lispDb6.nodes

/-! ## Entering mappings -/

/-- `generic_mapping_set_flags`: the type is added, and the site stays. -/
def setFlags (old : Option DbFlags) (mflags : DbFlags) : DbFlags :=
  match old with
  | none => mflags
  | some old =>
      { mflags with
        range := mflags.range ||| old.range
        rsvd := if mflags.rsvd.isSome then mflags.rsvd else old.rsvd }

/-- `db_node_get` for a prefix, with the change of the node that it returns.  Two
addresses are taken for the nodes it may make, and one for what the caller
allocates. -/
def dbNodeGet (s : MapServer) (p : Prefix) (f : DbNode → DbNode) : MapServer :=
  let glue : DbNode := ⟨s.next, none, none⟩
  let fresh : DbNode := ⟨s.next + 1, none, none⟩
  match p.addr with
  | .inet _ =>
      { s with lispDb4 := s.lispDb4.dbNodeGet glue fresh f p, next := s.next + 3 }
  | .inet6 _ =>
      { s with lispDb6 := s.lispDb6.dbNodeGet glue fresh f p, next := s.next + 3 }

/-- `generic_mapping_new`, `generic_mapping_set_flags` and the locators of the new
list. -/
def enterMapping (s : MapServer) (p : Prefix) (mflags : DbFlags)
    (info : List RegisterEntry) : MapServer :=
  s.dbNodeGet p fun nd =>
    { nd with flags := some (setFlags nd.flags mflags), info := some (s.next + 2, info) }

/-- The flags of the mapping of a Map-Register. -/
def registerFlags (m : RegisterMapping) : DbFlags where
  toMappingFlags := m.flags
  range := typeMapp
  rsvd := none
  proxy := m.proxy
  referral := 0
  incomplete := false
  active := false

/-! ## Erasing the mappings of a site -/

/-- What cleaning leaves of the flags: the type without `_MAPP`, unless it is nothing
but that, and the site. -/
def cleanFlags (flags : DbFlags) : DbFlags where
  act := 0
  A := false
  version := 0
  ttl := 0
  range := if flags.range > typeMapp then flags.range &&& ~~~typeMapp else flags.range
  rsvd := flags.rsvd
  proxy := false
  referral := 0
  incomplete := false
  active := false

/-- What cleaning leaves of a node. -/
def cleanNode (nd : DbNode) : DbNode :=
  { nd with flags := nd.flags.map cleanFlags, info := none }

end MapServer

/-- One turn of the loop of `_ms_clean_site_mapping`: the subtrees below the node at
an address are freed. -/
def DbTree.clean (id : ℕ) : DbTree DbNode → DbTree DbNode
  | .nil => .nil
  | .node p nd left right =>
      if nd.id = id then .node p (MapServer.cleanNode nd) .nil .nil
      else .node p nd (left.clean id) (right.clean id)

namespace MapServer

/-- `_ms_clean_site_mapping`.  Where an element of the list points to a node that was
freed, nothing is said about the trees. -/
def cleanSite (s : MapServer) (site : ℕ) : MapServer :=
  (s.eids site).foldl
    (fun s id => { s with lispDb4 := s.lispDb4.clean id, lispDb6 := s.lispDb6.clean id }) s

/-- The mappings of a message, one after the other. -/
def enterMappings (s : MapServer) (mappings : List RegisterMapping) : MapServer :=
  mappings.foldl (fun s m => s.enterMapping m.eid (registerFlags m) m.info) s

end MapServer

/-! ## Trees after cleaning -/

section Clean

variable {t : DbTree DbNode} {id : ℕ}

theorem below_clean {k : List Bool} (h : BitTrie.Below k t.toTrie) :
    BitTrie.Below k (t.clean id).toTrie := by
  induction t generalizing k with
  | nil => exact h
  | node p nd left right ihleft ihright =>
      obtain ⟨hk, hleft, hright⟩ := h
      rw [DbTree.clean]
      split
      · exact ⟨hk, trivial, trivial⟩
      · exact ⟨hk, ihleft hleft, ihright hright⟩

theorem DbTree.InPlace.clean (h : t.InPlace) : (t.clean id).InPlace :=
  below_clean h

/-- Nothing is added to a tree, and only the node at the address is changed. -/
theorem mem_nodes_clean {e : Prefix × DbNode} (he : e ∈ (t.clean id).nodes) :
    ∃ nd, (e.1, nd) ∈ t.nodes ∧
      (e.2 = nd ∨ nd.id = id ∧ e.2 = MapServer.cleanNode nd) := by
  induction t with
  | nil => cases he
  | node p nd left right ihleft ihright =>
      rw [DbTree.clean] at he
      split at he
      next hid =>
        obtain rfl := List.mem_singleton.mp he
        exact ⟨nd, List.mem_cons_self, Or.inr ⟨hid, rfl⟩⟩
      · rcases List.mem_cons.mp he with rfl | hrest
        · exact ⟨nd, List.mem_cons_self, Or.inl rfl⟩
        · rcases List.mem_append.mp hrest with hl | hr
          · obtain ⟨nd', hmem, hcases⟩ := ihleft hl
            exact ⟨nd', List.mem_cons_of_mem _ (List.mem_append_left _ hmem), hcases⟩
          · obtain ⟨nd', hmem, hcases⟩ := ihright hr
            exact ⟨nd', List.mem_cons_of_mem _ (List.mem_append_right _ hmem), hcases⟩

end Clean

/-! ## Map-Registers -/

/-- The settings for the records of a message. -/
def registerConfig (lispTe : Bool) (packet : Mem) : RegisterConfig where
  lispTe := lispTe
  proxyMapRepl := packet 0 &&& 0x08 ≠ 0

/-- The records of a Map-Register. -/
def recordsOf (packet : Mem) : Mem :=
  packet.advance (sizeofMapRegisterHdr + packet.be16 14)

/-- The mappings that the loop of `_register` enters. -/
def registerMappings (lispTe : Bool) (packet : Mem) : List RegisterMapping :=
  (registerRecords (registerConfig lispTe packet) (packet 3).toNat
    (recordsOf packet)).filterMap Prod.snd

/-- A Map-Register, and what `_ms_validate_register` finds in memory that was not
written. -/
structure RegisterPacket where
  packet : Mem
  pkgLen : ℕ
  uninit : RegisterUninit

/-- `_register`, on the database. -/
def MapServer.register (hmac : Hmac) (lispTe : Bool) (s : MapServer)
    (r : RegisterPacket) : MapServer :=
  let validation := msValidateRegister hmac r.uninit s.toMsState r.packet r.pkgLen
  match validation.site with
  | some site =>
      if validation.rt > 0 then
        ({ s with sites := validation.state.sites }.cleanSite site).enterMappings
          (registerMappings lispTe r.packet)
      else s
  | none => s

/-! ## Map-Referrals -/

/-- The bytes that `_insert_ip_ordered` compares; those of an IPv6 address are taken
from `sin_addr` on, four bytes before the address. -/
def orderBytes (e : ReplyEntry) : List UInt8 :=
  match e.rloc.address with
  | some (.inet addr) => 0 :: addr.toList
  | some (.inet6 addr) => 1 :: (List.replicate 4 0 ++ addr.toList.take 12)
  | none => []

/-- `list_insert` with `_insert_ip_ordered`: before the first element that is not
smaller. -/
def insertIpOrdered (info : List RegisterEntry) (e : RegisterEntry) :
    List RegisterEntry :=
  let (smaller, rest) :=
    info.span fun e' => decide (orderBytes e'.toReplyEntry < orderBytes e.toReplyEntry)
  smaller ++ e :: rest

/-- The entry of a locator of a Map-Referral, of which only the last flag is read. -/
def referralEntry (loc : Mem) (addr : Address) : RegisterEntry :=
  ⟨{ replyEntry loc addr with L := false, p := false }, none⟩

/-- The loop over the locators of a record; a locator of another family ends it. -/
def referralLocators : ℕ → Mem → List RegisterEntry → List RegisterEntry
  | 0, _, info => info
  | lcount + 1, loc, info =>
      match readAddress (loc.advance 6) with
      | none => info
      | some addr =>
          referralLocators lcount (loc.advance (6 + getAddressSize (loc.advance 6)))
            (insertIpOrdered info (referralEntry loc addr))

/-- The mapping that `_process_referral_record` enters, if it enters one: the prefix,
the flags and the locators. -/
def processReferralRecord (rec : Mem) : Option (Prefix × DbFlags × List RegisterEntry) :=
  let afi := rec.advance 22
  if rec.be16 10 = lcafAfi ∧ rec 14 ≠ 2 then none
  else
    match readAddress afi with
    | none => none
    | some addr =>
        if rec 6 &&& 0x08 ≠ 0 then none
        else some
          (⟨addr, rec 5⟩,
            { act := rec 6 >>> 5
              A := false
              version := rec.le16 8 % 4096
              ttl := rec.be32 0
              range := typeMapp
              rsvd := none
              proxy := false
              referral := (rec 6 >>> 5) + 1
              incomplete := false
              active := false },
            referralLocators (rec 4).toNat (rec.advance (22 + getAddressSize afi)) [])

/-- `_process_referral_record`, on the database. -/
def MapServer.refer (s : MapServer) (rec : Mem) : MapServer :=
  match processReferralRecord rec with
  | none => s
  | some (p, mflags, info) => s.enterMapping p mflags info

end HyLisp.ControlPlane
