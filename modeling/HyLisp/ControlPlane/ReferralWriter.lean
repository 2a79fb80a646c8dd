import HyLisp.ControlPlane.RecordRoundTrip
import HyLisp.ControlPlane.ReferralRecords

/-!
# Map-Referrals, written and read

A record of a Map-Referral is written into a buffer of zeros with an LCAF header for the
instance id in front of the EID, and its locators behind it.  Reading it returns its
length, enters a mapping, and reports the address of the best locator.  The tables here
keep the instance id of a node; without it they are those of the mapping database.
-/

namespace HyLisp.ControlPlane

open DataPlane

/-! ## Writing -/

/-- The bits of `version` and `sig_cnt`. -/
def versionWord (version : UInt32) (sigcnt : UInt8) : UInt16 :=
  .ofNat (htonl version % 4096 + sigcnt.toNat % 16 * 4096)

/-- The byte of `act`, `a` and `i`. -/
def referralByte (A act i : UInt8) : UInt8 :=
  act <<< 5 ||| (A &&& 1) <<< 4 ||| (i &&& 1) <<< 3

/-- The length in the LCAF header. -/
def lcafLength : Address → UInt16
  | .inet _ => 4 + 2 + 4
  | .inet6 _ => 4 + 2 + 16

/-- The bytes of a record before its locators; the instance id is in host order. -/
def referralRecordBytes (iid : UInt32) (p : Prefix) (ttl : UInt32) (lcount : UInt8)
    (version : UInt32) (A act i sigcnt : UInt8) : List UInt8 :=
  Mem.be32Bytes ttl ++
    ([lcount, p.prefixlen, referralByte A act i, 0] ++
      (Mem.le16Bytes (versionWord version sigcnt) ++ (Mem.be16Bytes (.ofNat lcafAfi) ++
        ([0, 0, 2, 0] ++ (Mem.be16Bytes (lcafLength p.addr) ++
          (Mem.le32Bytes iid ++ afiAddress (some p.addr)))))))

/-- `udp_referral_add_record` -/
def udpReferralAddRecord (rpk : RplEntry) (iid : UInt32) (p : Prefix) (ttl : UInt32)
    (lcount : UInt8) (version : UInt32) (A act i sigcnt : UInt8) : RplEntry :=
  { rpk with
    recordCount := rpk.recordCount + 1
    body := rpk.body ++ referralRecordBytes iid p ttl lcount version A act i sigcnt }

/-- The bytes of a locator, of whose flags only `R` is assigned. -/
def referralLocatorBytes (e : ReplyEntry) (addr : Address) : List UInt8 :=
  [e.priority, e.weight, e.mPriority, e.mWeight, 0, if e.r then 1 else 0] ++
    afiAddress (some addr)

/-- `udp_referral_add_locator`; another family than IPv4 and IPv6 is a failed assertion. -/
def udpReferralAddLocator (rpk : RplEntry) (e : RegisterEntry) : Option RplEntry :=
  e.rloc.address.map fun addr =>
    { rpk with body := rpk.body ++ referralLocatorBytes e.toReplyEntry addr }

/-- The locators of a record, one after the other. -/
def addReferralLocators : List RegisterEntry → RplEntry → Option RplEntry
  | [], rpk => some rpk
  | e :: rest, rpk => (udpReferralAddLocator rpk e).bind (addReferralLocators rest)

/-! ## Reading -/

/-- `mapping_flags`, with the instance id. -/
structure ReferralFlags extends DbFlags where
  iid : UInt32

/-- The choice of the best locator in the loop, by the priority of the best one so far;
the address is written over the one before. -/
def bestLocator : ℕ → Mem → UInt8 → Option Address → Option Address
  | 0, _, _, bestRloc => bestRloc
  | lcount + 1, loc, bestPriority, bestRloc =>
      match readAddress (loc.advance 6) with
      | none => bestRloc
      | some addr =>
          let next := loc.advance (6 + getAddressSize (loc.advance 6))
          if loc 0 < bestPriority then bestLocator lcount next (loc 0) (some addr)
          else bestLocator lcount next bestPriority bestRloc

/-- What comes of a record: the length returned, the best locator, if one was written, and
the mapping that is entered, if there is one. -/
structure ReferralResult where
  rlen : UInt64
  bestRloc : Option Address
  mapping : Option (Prefix × ReferralFlags × List RegisterEntry)

/-- `_process_referral_record`, with a place for the best locator. -/
def readReferralRecord (rec : Mem) : ReferralResult where
  rlen := processReferralRecordLen rec
  bestRloc :=
    if HasOtherLcaf rec ∨ (readAddress (rec.advance 22)).isNone then none
    else bestLocator (rec 4).toNat (rec.advance (getReferralRecordSize rec)) 0xff none
  mapping := (processReferralRecord rec).map fun (p, mflags, info) =>
    (p, { mflags with iid := .ofNat (rec.le32 18) }, info)

/-! ## Tables with instance ids -/

/-- `db_node`, with flags that have an instance id. -/
structure ReferralNode where
  id : ℕ
  flags : Option ReferralFlags
  info : Option (ℕ × List RegisterEntry)

/-- The node without the instance id. -/
def ReferralNode.toDbNode (nd : ReferralNode) : DbNode :=
  ⟨nd.id, nd.flags.map ReferralFlags.toDbFlags, nd.info⟩

/-- `lisp_db`, whose nodes lie below those that cover them, and the next address to be
allocated. -/
structure ReferralDb where
  lispDb4 : DbTree ReferralNode
  lispDb6 : DbTree ReferralNode
  next : ℕ
  inPlace4 : lispDb4.InPlace
  inPlace6 : lispDb6.InPlace

namespace ReferralDb

/-- The database without instance ids. -/
def toMapServer (db : ReferralDb) (eids : ℕ → List ℕ) (sites : ℕ → SiteInfo) : MapServer where
  lispDb4 := db.lispDb4.map ReferralNode.toDbNode
  lispDb6 := db.lispDb6.map ReferralNode.toDbNode
  next := db.next
  eids := eids
  sites := sites

/-- `ms_get_db_table` -/
def tree (db : ReferralDb) (addr : Address) : DbTree ReferralNode :=
  match addr with
  | .inet _ => db.lispDb4
  | .inet6 _ => db.lispDb6

/-- `generic_mapping_set_flags`: all fields are copied, and the type and the site of before
are kept. -/
def setFlags (old : Option ReferralFlags) (mflags : ReferralFlags) : ReferralFlags :=
  { MapServer.setFlags (old.map ReferralFlags.toDbFlags) mflags.toDbFlags with
    iid := mflags.iid }

/-- What `generic_mapping_new`, `generic_mapping_set_flags` and the locators make of a
node. -/
def enterNode (next : ℕ) (mflags : ReferralFlags) (info : List RegisterEntry)
    (nd : ReferralNode) : ReferralNode :=
  { nd with flags := some (setFlags nd.flags mflags), info := some (next + 2, info) }

/-- The tree with a mapping. -/
def enterTree (db : ReferralDb) (t : DbTree ReferralNode) (p : Prefix)
    (mflags : ReferralFlags) (info : List RegisterEntry) : DbTree ReferralNode :=
  t.dbNodeGet ⟨db.next, none, none⟩ ⟨db.next + 1, none, none⟩
    (enterNode db.next mflags info) p

/-- The database with a mapping, in the table of its family. -/
def enterMapping (db : ReferralDb) (p : Prefix) (mflags : ReferralFlags)
    (info : List RegisterEntry) : ReferralDb :=
  match p.addr with
  | .inet _ =>
      { db with
        lispDb4 := db.enterTree db.lispDb4 p mflags info
        next := db.next + 3
        inPlace4 := db.inPlace4.dbNodeGet }
  | .inet6 _ =>
      { db with
        lispDb6 := db.enterTree db.lispDb6 p mflags info
        next := db.next + 3
        inPlace6 := db.inPlace6.dbNodeGet }

/-- `_process_referral_record`, on the tables. -/
def refer (db : ReferralDb) (rec : Mem) : ReferralDb :=
  match (readReferralRecord rec).mapping with
  | none => db
  | some (p, mflags, info) => db.enterMapping p mflags info

/-- `ms_init_db`: every table has its top. -/
def msInitDb : ReferralDb where
  lispDb4 := .node ⟨.inet (Vector.replicate 4 0), 0⟩
    ⟨0, some { MapServer.msNewNodeEx typeRoot with iid := 0 }, none⟩ .nil .nil
  lispDb6 := .node ⟨.inet6 (Vector.replicate 16 0), 0⟩
    ⟨1, some { MapServer.msNewNodeEx typeRoot with iid := 0 }, none⟩ .nil .nil
  next := 2
  inPlace4 := ⟨List.nil_prefix, trivial, trivial⟩
  inPlace6 := ⟨List.nil_prefix, trivial, trivial⟩

end ReferralDb

/-! ## Without instance ids -/

theorem ReferralDb.toMapServer_msInitDb (sites : ℕ → SiteInfo) :
    ReferralDb.msInitDb.toMapServer (fun _ => []) sites = MapServer.msInitDb sites :=
  rfl

section Forget

theorem DbTree.map_setLink {ν μ : Type} (g : ν → μ) (t child : DbTree ν) :
    (t.setLink child).map g = (t.map g).setLink (child.map g) := by
  cases t with
  | nil => rfl
  | node p data left right =>
      cases child with
      | nil => rfl
      | node n data' left' right' =>
          rw [DbTree.map, DbTree.map, DbTree.setLink, DbTree.setLink]
          split
          · rfl
          · rfl

/-- A view of the data that the change respects may be taken before or behind
`db_node_get`. -/
theorem DbTree.map_dbNodeGet {ν μ : Type} {g : ν → μ} {f : ν → ν} {f' : μ → μ}
    (hf : ∀ d, g (f d) = f' (g d)) (glue fresh : ν) (t : DbTree ν) (p : Prefix) :
    (t.dbNodeGet glue fresh f p).map g = (t.map g).dbNodeGet (g glue) (g fresh) f' p := by
  have hleaf (q : Prefix) : (DbTree.node q (f fresh) .nil .nil).map g =
      .node q (f' (g fresh)) .nil .nil :=
    congrArg (DbTree.node q · .nil .nil) (hf fresh)
  induction t with
  | nil => exact hleaf p
  | node n data left right ihleft ihright =>
      rw [DbTree.dbNodeGet, DbTree.map, DbTree.dbNodeGet]
      by_cases hcover : n.prefixlen ≤ p.prefixlen ∧ prefixMatch n p
      · rw [if_pos hcover, if_pos hcover]
        by_cases heq : n.prefixlen = p.prefixlen
        · rw [if_pos heq, if_pos heq, DbTree.map, hf]
        · rw [if_neg heq, if_neg heq]
          split
          · rw [DbTree.map, ihright]
          · rw [DbTree.map, ihleft]
      · rw [if_neg hcover, if_neg hcover]
        dsimp only
        split
        · rw [DbTree.map_setLink, DbTree.map_setLink, hleaf]
          rfl
        · rw [DbTree.map_setLink, hleaf]
          rfl

variable (db : ReferralDb) (eids : ℕ → List ℕ) (sites : ℕ → SiteInfo)

theorem ReferralDb.toMapServer_enterMapping (p : Prefix) (mflags : ReferralFlags)
    (info : List RegisterEntry) :
    (db.enterMapping p mflags info).toMapServer eids sites =
      (db.toMapServer eids sites).enterMapping p mflags.toDbFlags info := by
  have htree (t : DbTree ReferralNode) :
      (db.enterTree t p mflags info).map ReferralNode.toDbNode =
        (t.map ReferralNode.toDbNode).dbNodeGet ⟨db.next, none, none⟩
          ⟨db.next + 1, none, none⟩ (fun nd =>
            { nd with
              flags := some (MapServer.setFlags nd.flags mflags.toDbFlags)
              info := some (db.next + 2, info) }) p := by
    rw [enterTree]
    exact DbTree.map_dbNodeGet (g := ReferralNode.toDbNode) (fun _ => rfl) _ _ _ _
  obtain ⟨addr, prefixlen⟩ := p
  cases addr with
  | inet addr =>
      rw [enterMapping, toMapServer]
      dsimp only
      rw [htree]
      rfl
  | inet6 addr =>
      rw [enterMapping, toMapServer]
      dsimp only
      rw [htree]
      rfl

/-- Without instance ids a record does to the tables what it does to those of the mapping
database. -/
theorem ReferralDb.toMapServer_refer (rec : Mem) :
    (db.refer rec).toMapServer eids sites = (db.toMapServer eids sites).refer rec := by
  rw [refer, MapServer.refer, readReferralRecord]
  cases processReferralRecord rec with
  | none => rfl
  | some entered => exact db.toMapServer_enterMapping eids sites _ _ _

end Forget

end HyLisp.ControlPlane
