import HyLisp.ControlPlane.ReferralWriter
import HyLisp.Support.RunningMinimum

/-!
# Map-Referrals read back

A complete record of a Map-Referral whose action is not that of an acknowledgement is read
back as it was written: the length returned is that of the record, the mapping entered has
its prefix, TTL, action, instance id and locators, and the locator reported is the first one
of the smallest priority.
-/

namespace HyLisp.ControlPlane

open DataPlane RunningMinimum

/-- A complete record that is no acknowledgement, with an action of three bits and at most
255 locators, each with an address. -/
structure WrittenReferral where
  iid : UInt32
  eid : Prefix
  ttl : UInt32
  version : UInt32
  A : UInt8
  act : UInt8
  sigcnt : UInt8
  info : List RegisterEntry
  act_lt : act < 8
  act_ne : act ≠ lispReferralMsAck
  length_le : info.length ≤ 255
  address_isSome : ∀ e ∈ info, e.rloc.address.isSome = true

/-- The record and its locators. -/
def writeReferral (rpk : RplEntry) (r : WrittenReferral) : Option RplEntry :=
  addReferralLocators r.info
    (udpReferralAddRecord rpk r.iid r.eid r.ttl (.ofNat r.info.length) r.version r.A r.act 0
      r.sigcnt)

/-- What a locator keeps of an entry. -/
def RegisterEntry.referred (e : RegisterEntry) : RegisterEntry :=
  ⟨{ e.toReplyEntry.bare with L := false, p := false }, none⟩

/-- The order in which locators are preferred. -/
def referralKey (e : RegisterEntry) : ℕ :=
  e.priority.toNat

/-- The address is that of the first locator of the smallest priority below 255, and there
is none where no priority is below 255. -/
def IsBestRloc (info : List RegisterEntry) : Option Address → Prop
  | none => ∀ e ∈ info, 255 ≤ referralKey e
  | some addr => ∃ e, IsFirst referralKey 255 info e ∧ e.rloc.address = some addr

/-- The table of the family has one node of the prefix, with the mapping that was written. -/
def ReferralDb.Stores (db : ReferralDb) (r : WrittenReferral) : Prop :=
  ∃ e ∈ (db.tree r.eid.addr).nodes, e.1.bits = r.eid.bits ∧
    (∀ e' ∈ (db.tree r.eid.addr).nodes, e'.1.bits = r.eid.bits → e' = e) ∧
    (∃ flags, e.2.flags = some flags ∧ flags.ttl = r.ttl.toNat ∧ flags.act = r.act ∧
      flags.referral = r.act + 1 ∧ flags.incomplete = false ∧ flags.iid = r.iid) ∧
    ∃ id info, e.2.info = some (id, info) ∧ info.Perm (r.info.map RegisterEntry.referred)

/-! ## Locators -/

/-- The bytes of the locator of an entry. -/
def referralEntryBytes (e : RegisterEntry) : List UInt8 :=
  match e.rloc.address with
  | some addr => referralLocatorBytes e.toReplyEntry addr
  | none => []

theorem referralEntryBytes_eq {e : RegisterEntry} {addr : Address}
    (h : e.rloc.address = some addr) :
    referralEntryBytes e = referralLocatorBytes e.toReplyEntry addr := by
  rw [referralEntryBytes, h]

theorem addReferralLocators_eq {info : List RegisterEntry}
    (haddr : ∀ e ∈ info, e.rloc.address.isSome = true) (rpk : RplEntry) :
    addReferralLocators info rpk =
      some { rpk with body := rpk.body ++ info.flatMap referralEntryBytes } := by
  induction info generalizing rpk with
  | nil => simp [addReferralLocators]
  | cons e info ih =>
      obtain ⟨addr, hsome⟩ := Option.isSome_iff_exists.mp (haddr e List.mem_cons_self)
      have hlocator : udpReferralAddLocator rpk e =
          some { rpk with body := rpk.body ++ referralEntryBytes e } := by
        rw [udpReferralAddLocator, hsome, Option.map_some, referralEntryBytes_eq hsome]
      have hrest := ih fun e' he' => haddr e' (List.mem_cons_of_mem _ he')
      rw [addReferralLocators, hlocator, Option.bind_some, hrest]
      simp

theorem perm_insertIpOrdered (info : List RegisterEntry) (e : RegisterEntry) :
    (insertIpOrdered info e).Perm (e :: info) := by
  rw [insertIpOrdered, List.span_eq_takeWhile_dropWhile]
  refine List.perm_middle.trans ?_
  rw [List.takeWhile_append_dropWhile]

section Locators

variable {loc : Mem} {e : RegisterEntry} {es info : List RegisterEntry} {addr : Address}

/-- The bytes of a locator are read as its entry. -/
theorem referralLocator_of_holds (haddr : e.rloc.address = some addr)
    (h : loc.Holds (referralEntryBytes e)) :
    readAddress (loc.advance 6) = some addr ∧
      6 + getAddressSize (loc.advance 6) = (referralEntryBytes e).length ∧
      loc 0 = e.priority ∧ referralEntry loc addr = e.referred := by
  rw [referralEntryBytes_eq haddr, referralLocatorBytes, Mem.holds_append] at h
  obtain ⟨hhead, haddress⟩ := h
  obtain ⟨hread, hsize, -⟩ := readAddress_of_holds haddress
  have h0 : loc 0 = e.priority := hhead 0 (by simp)
  have h1 : loc 1 = e.weight := hhead 1 (by simp)
  have h2 : loc 2 = e.mPriority := hhead 2 (by simp)
  have h3 : loc 3 = e.mWeight := hhead 3 (by simp)
  have h5 : loc 5 = if e.r then 1 else 0 := hhead 5 (by simp)
  have hr : decide ((if e.r then (1 : UInt8) else 0) &&& 0x01 ≠ 0) = e.r := by
    cases e.r with
    | false => rfl
    | true => rfl
  refine ⟨hread, ?_, h0, ?_⟩
  · have hsize' : getAddressSize (loc.advance 6) = (afiAddress (some addr)).length := hsize
    rw [referralEntryBytes_eq haddr, referralLocatorBytes, List.length_append, hsize']
    rfl
  · rw [referralEntry, replyEntry, RegisterEntry.referred, ReplyEntry.bare, haddr, h0, h1, h2,
      h3, h5, hr]

/-- The first locator, and those behind it. -/
theorem holds_cons_of_holds (haddr : e.rloc.address = some addr)
    (h : loc.Holds ((e :: es).flatMap referralEntryBytes)) :
    readAddress (loc.advance 6) = some addr ∧
      6 + getAddressSize (loc.advance 6) = (referralEntryBytes e).length ∧
      loc 0 = e.priority ∧ referralEntry loc addr = e.referred ∧
      (loc.advance (6 + getAddressSize (loc.advance 6))).Holds
        (es.flatMap referralEntryBytes) := by
  rw [List.flatMap_cons, Mem.holds_append] at h
  obtain ⟨hread, hsize, hpriority, hentry⟩ := referralLocator_of_holds haddr h.1
  refine ⟨hread, hsize, hpriority, hentry, ?_⟩
  rw [hsize]
  exact h.2

theorem referralLocatorsLen_of_holds
    (haddr : ∀ e ∈ es, e.rloc.address.isSome = true)
    (h : loc.Holds (es.flatMap referralEntryBytes)) :
    referralLocatorsLen es.length loc = some (es.flatMap referralEntryBytes).length := by
  induction es generalizing loc with
  | nil => rfl
  | cons e es ih =>
      obtain ⟨addr, hsome⟩ := Option.isSome_iff_exists.mp (haddr e List.mem_cons_self)
      obtain ⟨hread, hsize, -, -, hrest⟩ := holds_cons_of_holds hsome h
      have hnext := ih (fun e' he' => haddr e' (List.mem_cons_of_mem _ he')) hrest
      rw [List.length_cons, referralLocatorsLen, hread]
      dsimp only
      rw [hnext, Option.map_some, hsize, List.flatMap_cons, List.length_append]

/-- The entries are those that were written, in another order. -/
theorem referralLocators_of_holds (info : List RegisterEntry)
    (haddr : ∀ e ∈ es, e.rloc.address.isSome = true)
    (h : loc.Holds (es.flatMap referralEntryBytes)) :
    (referralLocators es.length loc info).Perm (es.map RegisterEntry.referred ++ info) := by
  induction es generalizing loc info with
  | nil => exact List.Perm.refl _
  | cons e es ih =>
      obtain ⟨addr, hsome⟩ := Option.isSome_iff_exists.mp (haddr e List.mem_cons_self)
      obtain ⟨hread, -, -, hentry, hrest⟩ := holds_cons_of_holds hsome h
      have hnext := ih (insertIpOrdered info e.referred)
        (fun e' he' => haddr e' (List.mem_cons_of_mem _ he')) hrest
      rw [List.length_cons, referralLocators, hread]
      dsimp only
      rw [hentry, List.map_cons, List.cons_append]
      refine hnext.trans (((perm_insertIpOrdered info _).append_left _).trans ?_)
      exact List.perm_middle

/-- The loop chooses by the priorities of the entries. -/
theorem bestLocator_of_holds {bestPriority : UInt8} {best : Option RegisterEntry}
    (haddr : ∀ e ∈ es, e.rloc.address.isSome = true)
    (h : loc.Holds (es.flatMap referralEntryBytes)) :
    bestLocator es.length loc bestPriority (best.bind fun e => e.rloc.address) =
      (smallest referralKey bestPriority.toNat best es).bind fun e => e.rloc.address := by
  induction es generalizing loc bestPriority best with
  | nil => rfl
  | cons e es ih =>
      obtain ⟨addr, hsome⟩ := Option.isSome_iff_exists.mp (haddr e List.mem_cons_self)
      obtain ⟨hread, -, hpriority, -, hrest⟩ := holds_cons_of_holds hsome h
      have haddr' : ∀ e ∈ es, e.rloc.address.isSome = true :=
        fun e' he' => haddr e' (List.mem_cons_of_mem _ he')
      rw [List.length_cons, bestLocator, hread, smallest, hpriority]
      dsimp only
      by_cases hlt : e.priority < bestPriority
      · have hkey : referralKey e < bestPriority.toNat := UInt8.lt_iff_toNat_lt.mp hlt
        rw [if_pos hlt, if_pos hkey, ← hsome]
        exact @ih _ _ (some e) haddr' hrest
      · have hkey : ¬referralKey e < bestPriority.toNat :=
          fun hnat => hlt (UInt8.lt_iff_toNat_lt.mpr hnat)
        rw [if_neg hlt, if_neg hkey]
        exact ih haddr' hrest

/-- The address reported is that of the best locator. -/
theorem isBestRloc_of_holds (haddr : ∀ e ∈ es, e.rloc.address.isSome = true)
    (h : loc.Holds (es.flatMap referralEntryBytes)) :
    IsBestRloc es (bestLocator es.length loc 0xff none) := by
  have hbest : bestLocator es.length loc 0xff
      (Option.bind none fun e : RegisterEntry => e.rloc.address) = _ :=
    bestLocator_of_holds haddr h
  rw [Option.bind_none] at hbest
  rw [hbest]
  rcases smallest_cases referralKey (0xff : UInt8).toNat none es with
    ⟨hall, hnone⟩ | ⟨e, hfirst, hsome⟩
  · rw [hnone]
    exact hall
  · rw [hsome, Option.bind_some]
    obtain ⟨before, after, hsplit, -, -⟩ := hfirst.exists_split
    obtain ⟨addr, heq⟩ := Option.isSome_iff_exists.mp (haddr e (by simp [hsplit]))
    rw [heq]
    exact ⟨e, hfirst, heq⟩

end Locators

/-! ## Records -/

/-- The action of a complete record, and its bit for incomplete ones. -/
theorem referralByte_bits {act : UInt8} (hact : act < 8) (A : UInt8) :
    referralByte A act 0 >>> 5 = act ∧ referralByte A act 0 &&& 0x08 = 0 := by
  have hall : ∀ a : Fin 2, ∀ n : Fin 8,
      (UInt8.ofNat n <<< 5 ||| UInt8.ofNat a <<< 4 ||| ((0 : UInt8) &&& 1) <<< 3) >>> 5 =
          UInt8.ofNat n ∧
        (UInt8.ofNat n <<< 5 ||| UInt8.ofNat a <<< 4 ||| ((0 : UInt8) &&& 1) <<< 3) &&& 0x08 =
          0 := by
    decide
  have hbit : (A &&& 1).toNat < 2 := by
    rw [UInt8.toNat_and]
    exact Nat.and_lt_two_pow (n := 1) _ (by decide)
  have h := hall ⟨(A &&& 1).toNat, hbit⟩ ⟨act.toNat, UInt8.lt_iff_toNat_lt.mp hact⟩
  rwa [UInt8.ofNat_toNat, UInt8.ofNat_toNat] at h

section Record

variable {rec : Mem} {r : WrittenReferral}

/-- The bytes of the record and its locators. -/
def WrittenReferral.toBytes (r : WrittenReferral) : List UInt8 :=
  referralRecordBytes r.iid r.eid r.ttl (.ofNat r.info.length) r.version r.A r.act 0 r.sigcnt ++
    r.info.flatMap referralEntryBytes

theorem writeReferral_eq (rpk : RplEntry) (r : WrittenReferral) :
    (writeReferral rpk r).map RplEntry.body = some (rpk.body ++ r.toBytes) := by
  rw [writeReferral, addReferralLocators_eq r.address_isSome]
  simp [udpReferralAddRecord, WrittenReferral.toBytes]

/-- What is read from a record. -/
structure ReadsAs (rec : Mem) (r : WrittenReferral) : Prop where
  lcaf : ¬HasOtherLcaf rec
  addr : readAddress (rec.advance 22) = some r.eid.addr
  prefixlen : rec 5 = r.eid.prefixlen
  lcount : (rec 4).toNat = r.info.length
  act : referralAct rec = r.act
  complete : rec 6 &&& 0x08 = 0
  ttl : rec.be32 0 = r.ttl.toNat
  iid : rec.le32 18 = r.iid.toNat
  locators : (rec.advance (getReferralRecordSize rec)).Holds (r.info.flatMap referralEntryBytes)
  size : getReferralRecordSize rec + (r.info.flatMap referralEntryBytes).length =
    r.toBytes.length

theorem readsAs_of_holds (h : rec.Holds r.toBytes) : ReadsAs rec r := by
  rw [WrittenReferral.toBytes, Mem.holds_append] at h
  obtain ⟨hrecord, hlocators⟩ := h
  have hlength := hrecord
  simp only [referralRecordBytes, Mem.holds_append, Mem.advance_advance, Mem.length_be32Bytes,
    Mem.length_le16Bytes, Mem.length_be16Bytes, Mem.length_le32Bytes, List.length_cons,
    List.length_nil] at hrecord
  obtain ⟨httl, hbytes, -, hafi, hlcaf, -, hiid, haddress⟩ := hrecord
  obtain ⟨hread, hsize, -⟩ := readAddress_of_holds haddress
  have h6 : rec 6 = referralByte r.A r.act 0 := hbytes 2 (by simp)
  have h14 : rec 14 = 2 := hlcaf 2 (by simp)
  obtain ⟨hact, hcomplete⟩ := referralByte_bits r.act_lt r.A
  have hrecordSize : getReferralRecordSize rec =
      (referralRecordBytes r.iid r.eid r.ttl (.ofNat r.info.length) r.version r.A r.act 0
        r.sigcnt).length := by
    have hsize' : getAddressSize (rec.advance 22) =
        (afiAddress (some r.eid.addr)).length := hsize
    rw [getReferralRecordSize, hsize']
    simp [referralRecordBytes]
    omega
  constructor
  · exact fun hother => hother.2 h14
  · exact hread
  · exact hbytes 1 (by simp)
  · have h4 : rec 4 = .ofNat r.info.length := hbytes 0 (by simp)
    rw [h4, UInt8.toNat_ofNat']
    exact Nat.mod_eq_of_lt (Nat.lt_succ_of_le r.length_le)
  · rw [referralAct, h6, hact]
  · rw [h6, hcomplete]
  · exact Mem.be32_of_holds_be32Bytes (by rwa [Mem.advance_zero])
  · exact Mem.le32_of_holds hiid
  · rw [hrecordSize]
    exact hlocators
  · rw [hrecordSize, WrittenReferral.toBytes, List.length_append]

/-- The flags of the mapping that is entered. -/
def WrittenReferral.flags (r : WrittenReferral) (rec : Mem) : ReferralFlags where
  act := r.act
  A := false
  version := rec.le16 8 % 4096
  ttl := r.ttl.toNat
  range := typeMapp
  rsvd := none
  proxy := false
  referral := r.act + 1
  incomplete := false
  active := false
  iid := r.iid

theorem readReferralRecord_of_readsAs (h : ReadsAs rec r) :
    ∃ info, (readReferralRecord rec).mapping = some (r.eid, r.flags rec, info) ∧
      info.Perm (r.info.map RegisterEntry.referred) := by
  have hother : ¬(rec.be16 10 = lcafAfi ∧ rec 14 ≠ 2) := h.lcaf
  have hcomplete : ¬rec 6 &&& 0x08 ≠ 0 := not_not_intro h.complete
  have hact : rec 6 >>> 5 = r.act := h.act
  have hinfo := referralLocators_of_holds [] r.address_isSome h.locators
  rw [List.append_nil] at hinfo
  refine ⟨_, ?_, hinfo⟩
  rw [readReferralRecord, processReferralRecord]
  dsimp only
  rw [if_neg hother, h.addr]
  dsimp only
  rw [if_neg hcomplete, Option.map_some, h.prefixlen, h.lcount, h.ttl, h.iid, hact,
    UInt32.ofNat_toNat]
  rfl

theorem length_toBytes_le (r : WrittenReferral) : r.toBytes.length ≤ 6160 := by
  have haddr (addr : Address) : (afiAddress (some addr)).length ≤ 18 := by
    have hwidth := addr.width_le
    rw [length_afiAddress]
    omega
  have hentry (e : RegisterEntry) : (referralEntryBytes e).length ≤ 24 := by
    rw [referralEntryBytes]
    split
    next addr _ =>
      rw [referralLocatorBytes, List.length_append]
      exact Nat.add_le_add_left (haddr addr) 6
    next => exact Nat.zero_le _
  have hentries : (r.info.flatMap referralEntryBytes).length ≤ r.info.length * 24 := by
    induction r.info with
    | nil => exact Nat.le_refl 0
    | cons e info ih =>
        have hone := hentry e
        rw [List.flatMap_cons, List.length_append, List.length_cons]
        omega
  have heid := haddr r.eid.addr
  have hcount := r.length_le
  rw [WrittenReferral.toBytes, List.length_append]
  simp only [referralRecordBytes, List.length_append, List.length_cons, List.length_nil,
    Mem.length_be32Bytes, Mem.length_le16Bytes, Mem.length_be16Bytes, Mem.length_le32Bytes]
  omega

/-- The length that is returned is that of the record. -/
theorem rlen_of_readsAs (h : ReadsAs rec r) :
    (readReferralRecord rec).rlen.toNat = r.toBytes.length := by
  have hact : ¬referralAct rec = lispReferralMsAck := by
    rw [h.act]
    exact r.act_ne
  have haddr : ¬(readAddress (rec.advance 22)).isNone = true := by
    rw [h.addr]
    simp
  rw [readReferralRecord, processReferralRecordLen, if_neg h.lcaf, if_neg haddr, h.lcount,
    referralLocatorsLen_of_holds r.address_isSome h.locators]
  dsimp only
  rw [if_neg hact, h.size]
  exact UInt64.toNat_ofNat_of_lt' (lt_of_le_of_lt (length_toBytes_le r) (by decide))

theorem bestRloc_of_readsAs (h : ReadsAs rec r) :
    IsBestRloc r.info (readReferralRecord rec).bestRloc := by
  have hread : ¬(HasOtherLcaf rec ∨ (readAddress (rec.advance 22)).isNone = true) := by
    rw [h.addr]
    simpa using h.lcaf
  rw [readReferralRecord]
  dsimp only
  rw [if_neg hread, h.lcount]
  exact isBestRloc_of_holds r.address_isSome h.locators

/-- The mapping is at the node of the prefix. -/
theorem stores_of_readsAs (h : ReadsAs rec r) (db : ReferralDb) : (db.refer rec).Stores r := by
  obtain ⟨info, hmapping, hperm⟩ := readReferralRecord_of_readsAs h
  have htree : ∃ t : DbTree ReferralNode, t.InPlace ∧
      (db.refer rec).tree r.eid.addr = db.enterTree t r.eid (r.flags rec) info := by
    rw [ReferralDb.refer, hmapping]
    dsimp only
    rw [ReferralDb.enterMapping]
    cases r.eid.addr with
    | inet addr => exact ⟨db.lispDb4, db.inPlace4, rfl⟩
    | inet6 addr => exact ⟨db.lispDb6, db.inPlace6, rfl⟩
  obtain ⟨t, hplace, hentered⟩ := htree
  obtain ⟨e, hmem, hbits, ⟨nd, hnode⟩, hunique⟩ := exists_mem_nodes_dbNodeGet hplace
    ⟨db.next, none, none⟩ ⟨db.next + 1, none, none⟩
    (ReferralDb.enterNode db.next (r.flags rec) info) r.eid
  rw [ReferralDb.Stores, hentered]
  refine ⟨e, hmem, hbits, hunique, ?_, ?_⟩
  · refine ⟨ReferralDb.setFlags nd.flags (r.flags rec), by rw [hnode]; rfl, ?_⟩
    rw [ReferralDb.setFlags]
    cases nd.flags with
    | none => exact ⟨rfl, rfl, rfl, rfl, rfl⟩
    | some old => exact ⟨rfl, rfl, rfl, rfl, rfl⟩
  · refine ⟨db.next + 2, info, ?_, hperm⟩
    rw [hnode]
    rfl

end Record

/-- A record of a Map-Referral survives being written and read, whatever follows it and
whatever the tables hold. -/
theorem referral_roundTrips (r : WrittenReferral) (rpk : RplEntry) :
    ∃ bytes, (writeReferral rpk r).map RplEntry.body = some (rpk.body ++ bytes) ∧
      ∀ rec : Mem, rec.Holds bytes →
        (readReferralRecord rec).rlen.toNat = bytes.length ∧
        IsBestRloc r.info (readReferralRecord rec).bestRloc ∧
        ∀ db : ReferralDb, (db.refer rec).Stores r := by
  refine ⟨r.toBytes, writeReferral_eq rpk r, fun rec hrec => ?_⟩
  have h := readsAs_of_holds hrec
  exact ⟨rlen_of_readsAs h, bestRloc_of_readsAs h, stores_of_readsAs h⟩

/-- A referral for 192.0.2.0/24 in instance 7, to 2001:db8::77 and 198.51.100.7. -/
def referralBothFamilies : WrittenReferral where
  iid := 7
  eid := eidTestNet
  ttl := 1440
  version := 0
  A := 1
  act := 1
  sigcnt := 0
  info :=
    [⟨⟨⟨addressSockUnion (.inet6 #v[0x20, 1, 0x0D, 0xB8, 0, 0, 0, 0, 0, 0, 0, 0, 0, 0, 0, 0x77]),
        2, 100, false, true⟩, 255, 0, false⟩, none⟩,
      ⟨rlocTestNet, none⟩]
  act_lt := by decide
  act_ne := by decide
  length_le := by decide
  address_isSome := by decide

/-- It is read back into tables without entries, and the IPv4 locator is the best one. -/
theorem referral_roundTrips_bothFamilies :
    ∃ bytes, (writeReferral ⟨0, false, none, []⟩ referralBothFamilies).map RplEntry.body =
        some bytes ∧
      (readReferralRecord (Mem.ofList bytes fun _ => 0)).rlen.toNat = bytes.length ∧
      (readReferralRecord (Mem.ofList bytes fun _ => 0)).bestRloc =
        some (.inet #v[198, 51, 100, 7]) ∧
      (ReferralDb.msInitDb.refer (Mem.ofList bytes fun _ => 0)).Stores referralBothFamilies := by
  obtain ⟨bytes, hbytes, hread⟩ := referral_roundTrips referralBothFamilies ⟨0, false, none, []⟩
  obtain ⟨hlen, -, hstores⟩ := hread _ (Mem.holds_ofList bytes fun _ => 0)
  refine ⟨bytes, hbytes, hlen, ?_, hstores _⟩
  obtain rfl : [] ++ referralBothFamilies.toBytes = bytes :=
    Option.some_inj.mp ((writeReferral_eq _ _).symm.trans hbytes)
  decide +kernel

end HyLisp.ControlPlane
