import HyLisp.ControlPlane.RecordWriter

/-!
# Records read back

A record is read by an xTR from a Map-Reply and by a Map-Server from a
Map-Register.  Both get back what was written, but for the map version: it is
twelve bits wide and assigned in network byte order, which leaves nothing of it.
-/

namespace HyLisp.ControlPlane

open DataPlane

/-- The mapping that a record is written for. -/
structure WrittenMapping where
  eid : Prefix
  ttl : UInt32
  version : UInt32
  A : Bool
  info : List RegisterEntry

/-- A mapping with a version of twelve bits and at most 255 locators, each with an
address of its own and without paths. -/
structure WrittenMapping.IsPlain (m : WrittenMapping) : Prop where
  version_lt : m.version.toNat < 4096
  length_le : m.info.length ≤ 255
  address_isSome : ∀ e ∈ m.info, e.rloc.address.isSome = true
  pe_eq_none : ∀ e ∈ m.info, e.pe = none
  distinct : (m.info.map fun e => e.rloc.address).Nodup

/-- An entry of which the sockaddr holds no more than the address. -/
def ReplyEntry.bare (e : ReplyEntry) : ReplyEntry :=
  match e.rloc.address with
  | some addr => { e with rloc := addressSockUnion addr }
  | none => e

/-- The record of a mapping and its locators, with LISP-TE off. -/
def writeRecord (fncXtr exInfo : Bool) (act : UInt8) (rpk : RplEntry)
    (m : WrittenMapping) : Option RplEntry :=
  addLocators false fncXtr exInfo m.info
    (udpReplyAddRecord rpk m.eid m.ttl (.ofNat m.info.length) m.version
      (if m.A then 1 else 0) act)

/-- What is read has the fields of the mapping that was written. -/
def SameFields (m : WrittenMapping) (eid : Prefix) (flags : MappingFlags) : Prop :=
  eid = m.eid ∧ flags.ttl = m.ttl.toNat ∧ flags.version = m.version.toNat ∧
    flags.A = m.A

/-- A record written for the mapping is read back as this mapping: by `read_rec`
and by `_ms_process_register_record`, whatever follows it. -/
def RoundTrips (m : WrittenMapping) : Prop :=
  ∀ (fncXtr exInfo : Bool) (act : UInt8) (rpk : RplEntry),
    ∃ bytes, (writeRecord fncXtr exInfo act rpk m).map RplEntry.body =
        some (rpk.body ++ bytes) ∧
      ∀ buf : Mem, buf.Holds bytes →
        (∀ cfg : ReplyConfig, cfg.lispTe = false →
          ∃ found, readRec cfg buf = (bytes.length, some found) ∧
            SameFields m found.eid found.flags ∧
            found.info = m.info.map fun e => e.toReplyEntry.bare) ∧
        ∀ cfg : RegisterConfig, cfg.lispTe = false →
          ∃ found, msProcessRegisterRecord cfg buf = (bytes.length, some found) ∧
            SameFields m found.eid found.flags ∧
            found.info = m.info.map fun e => ⟨e.toReplyEntry.bare, none⟩

/-! ## Addresses and locators -/

@[simp] theorem address_addressSockUnion (addr : Address) :
    (addressSockUnion addr).address = some addr := by
  cases addr with
  | inet _ => rfl
  | inet6 _ => rfl

section Read

variable {m : Mem} {addr : Address}

/-- An address behind its AFI is read back. -/
theorem readAddress_of_holds (h : m.Holds (afiAddress (some addr))) :
    readAddress m = some addr ∧
      getAddressSize m = (afiAddress (some addr)).length ∧ m.be16 0 ≠ lcafAfi := by
  cases addr with
  | inet addr =>
      obtain ⟨hafi, hbytes⟩ := afi_inet_of_holds h
      rw [readAddress, getAddressSize, getAddressType, hafi, hbytes]
      exact ⟨rfl, by simp [lispAfiIp, afiAddress], by decide⟩
  | inet6 addr =>
      obtain ⟨hafi, hbytes⟩ := afi_inet6_of_holds h
      rw [readAddress, getAddressSize, getAddressType, hafi, hbytes]
      exact ⟨rfl, by simp [lispAfiIp, lispAfiIpv6, afiAddress], by decide⟩

theorem length_hopBytes (L P S : Bool) (addr : Address) :
    (hopBytes L P S addr).length = hopSize addr := by
  cases addr <;> simp [hopBytes, hopSize, sizeofRlocTe, sizeofRloc6Te]

theorem locatorFlags_bits (L p r : Bool) :
    (decide (locatorFlags L p r &&& 0x04 ≠ 0) = L) ∧
      (decide (locatorFlags L p r &&& 0x02 ≠ 0) = p) ∧
      (decide (locatorFlags L p r &&& 0x01 ≠ 0) = r) := by
  revert L p r
  decide

/-- The bytes of a plain locator are read as its entry. -/
theorem replyEntry_of_holds {e : ReplyEntry} (haddr : e.rloc.address = some addr)
    (h : m.Holds (plainLocatorBytes e addr)) :
    replyEntry m addr = e.bare ∧
      (m.advance 6).Holds (afiAddress (some addr)) := by
  rw [plainLocatorBytes, Mem.holds_append] at h
  obtain ⟨hhead, haddress⟩ := h
  have h0 : m 0 = e.priority := hhead 0 (by simp)
  have h1 : m 1 = e.weight := hhead 1 (by simp)
  have h2 : m 2 = e.mPriority := hhead 2 (by simp)
  have h3 : m 3 = e.mWeight := hhead 3 (by simp)
  have h5 : m 5 = locatorFlags e.L e.p e.r := hhead 5 (by simp)
  obtain ⟨hL, hp, hr⟩ := locatorFlags_bits e.L e.p e.r
  refine ⟨?_, haddress⟩
  rw [replyEntry, ReplyEntry.bare, haddr, h0, h1, h2, h3, h5]
  simp only [hL, hp, hr]

/-- The address and the size of a plain locator. -/
theorem locator_of_holds {e : ReplyEntry} (haddr : e.rloc.address = some addr)
    (h : m.Holds (plainLocatorBytes e addr)) :
    readAddress (m.advance 6) = some addr ∧
      6 + getAddressSize (m.advance 6) = (plainLocatorBytes e addr).length ∧
      (m.advance 6).be16 0 ≠ lcafAfi ∧ replyEntry m addr = e.bare := by
  obtain ⟨hentry, haddress⟩ := replyEntry_of_holds haddr h
  obtain ⟨hread, hsize, hafi⟩ := readAddress_of_holds haddress
  refine ⟨hread, ?_, hafi, hentry⟩
  rw [hsize, plainLocatorBytes, List.length_append]
  rfl

theorem readLocator_of_holds {cfg : ReplyConfig} {e : ReplyEntry}
    (haddr : e.rloc.address = some addr) (h : m.Holds (plainLocatorBytes e addr)) :
    readLocator cfg m = some (e.bare, (plainLocatorBytes e addr).length) := by
  obtain ⟨hread, hsize, hafi, hentry⟩ := locator_of_holds haddr h
  rw [readLocator]
  simp only [hafi, false_and, ↓reduceIte, hread, Option.map_some, hentry, hsize]

theorem registerLocator_of_holds {cfg : RegisterConfig} {e : ReplyEntry}
    (haddr : e.rloc.address = some addr) (h : m.Holds (plainLocatorBytes e addr)) :
    registerLocator cfg m =
      some (⟨e.bare, none⟩, (plainLocatorBytes e addr).length) := by
  obtain ⟨hread, hsize, hafi, hentry⟩ := locator_of_holds haddr h
  rw [registerLocator]
  simp only [hafi, false_and, ↓reduceIte, hread, Option.map_some, hentry, hsize]

end Read

/-! ## Lists of locators -/

/-- The bytes of the locator of an entry. -/
def entryBytes (e : ReplyEntry) : List UInt8 :=
  match e.rloc.address with
  | some addr => plainLocatorBytes e addr
  | none => []

@[simp] theorem address_bare (e : ReplyEntry) :
    e.bare.rloc.address = e.rloc.address := by
  unfold ReplyEntry.bare
  cases h : e.rloc.address with
  | none => exact h
  | some addr => cases addr <;> rfl

theorem entryBytes_eq {e : ReplyEntry} {addr : Address}
    (h : e.rloc.address = some addr) : entryBytes e = plainLocatorBytes e addr := by
  rw [entryBytes, h]

/-- Without paths every entry is written as a plain locator. -/
theorem addLocators_eq {lispTe fncXtr exInfo : Bool} {info : List RegisterEntry}
    (hplain : (fncXtr && lispTe && exInfo) = false)
    (haddr : ∀ e ∈ info, e.rloc.address.isSome = true) (rpk : RplEntry) :
    addLocators lispTe fncXtr exInfo info rpk =
      some { rpk with
        body := rpk.body ++ (info.map (·.toReplyEntry)).flatMap entryBytes } := by
  induction info generalizing rpk with
  | nil => simp [addLocators]
  | cons e info ih =>
      obtain ⟨addr, hsome⟩ := Option.isSome_iff_exists.mp (haddr e List.mem_cons_self)
      have hlocator : udpRegisterAddLocator lispTe fncXtr rpk e exInfo =
          some { rpk with body := rpk.body ++ entryBytes e.toReplyEntry } := by
        rw [udpRegisterAddLocator, if_neg (by simp [hplain]), hsome, Option.map_some,
          entryBytes_eq hsome, locatorEntries, hplain]
        cases e.pe <;> simp
      have hrest := ih fun e' he' => haddr e' (List.mem_cons_of_mem _ he')
      rw [addLocators, hlocator, Option.bind_some, hrest]
      simp

/-- An entry with a new address goes to the end. -/
theorem mergeEntry_eq_append {info : List ReplyEntry} {entry : ReplyEntry}
    (h : ∀ e ∈ info, entry.rloc.address ≠ e.rloc.address) :
    mergeEntry info entry = info ++ [entry] := by
  induction info with
  | nil => rfl
  | cons e info ih =>
      rw [mergeEntry, if_neg (h e List.mem_cons_self),
        ih fun e' he' => h e' (List.mem_cons_of_mem _ he'), List.cons_append]

theorem registerEntry_eq_append {info : List RegisterEntry} {entry : RegisterEntry}
    (h : ∀ e ∈ info, entry.rloc.address ≠ e.rloc.address) :
    registerEntry info entry = info ++ [entry] := by
  induction info with
  | nil => rfl
  | cons e info ih =>
      rw [registerEntry, if_neg (h e List.mem_cons_self),
        ih fun e' he' => h e' (List.mem_cons_of_mem _ he'), List.cons_append]

section Locators

variable {rec : Mem} {es : List ReplyEntry} {loc : ℕ}

/-- The locators behind those read so far, of which none has the address of one of
them or of another one. -/
theorem readLocators_of_holds {cfg : ReplyConfig} {info : List ReplyEntry}
    (haddr : ∀ e ∈ es, e.rloc.address.isSome = true)
    (hdistinct : ((info ++ es).map fun e => e.rloc.address).Nodup)
    (h : (rec.advance loc).Holds (es.flatMap entryBytes)) :
    readLocators cfg rec es.length loc info =
      some (info ++ es.map ReplyEntry.bare, loc + (es.flatMap entryBytes).length) := by
  induction es generalizing info loc with
  | nil => simp [readLocators]
  | cons e es ih =>
      obtain ⟨addr, hsome⟩ := Option.isSome_iff_exists.mp (haddr e List.mem_cons_self)
      have hbytes := entryBytes_eq hsome
      rw [List.flatMap_cons, hbytes, Mem.holds_append, Mem.advance_advance] at h
      have hnew : ∀ e' ∈ info, e.bare.rloc.address ≠ e'.rloc.address := by
        intro e' he' heq
        rw [address_bare] at heq
        rw [List.map_append, List.nodup_append] at hdistinct
        exact hdistinct.2.2 _ (List.mem_map_of_mem he') _
          (List.mem_map_of_mem List.mem_cons_self) heq.symm
      have hdistinct' : (((info ++ [e.bare]) ++ es).map
          fun e => e.rloc.address).Nodup := by
        simpa using hdistinct
      have hrest := ih (fun e' he' => haddr e' (List.mem_cons_of_mem _ he')) hdistinct' h.2
      rw [List.length_cons, readLocators, readLocator_of_holds hsome h.1]
      dsimp only
      rw [mergeEntry_eq_append hnew, hrest]
      simp [hbytes, Nat.add_assoc]

theorem registerLocators_of_holds {cfg : RegisterConfig} {info : List RegisterEntry}
    (haddr : ∀ e ∈ es, e.rloc.address.isSome = true)
    (hdistinct : (info.map (fun e => e.rloc.address) ++
      es.map fun e => e.rloc.address).Nodup)
    (h : (rec.advance loc).Holds (es.flatMap entryBytes)) :
    registerLocators cfg rec es.length loc info =
      (info ++ es.map fun e => ⟨e.bare, none⟩,
        some (loc + (es.flatMap entryBytes).length)) := by
  induction es generalizing info loc with
  | nil => simp [registerLocators]
  | cons e es ih =>
      obtain ⟨addr, hsome⟩ := Option.isSome_iff_exists.mp (haddr e List.mem_cons_self)
      have hbytes := entryBytes_eq hsome
      rw [List.flatMap_cons, hbytes, Mem.holds_append, Mem.advance_advance] at h
      have hnew : ∀ e' ∈ info, e.bare.rloc.address ≠ e'.rloc.address := by
        intro e' he' heq
        rw [address_bare] at heq
        rw [List.nodup_append] at hdistinct
        exact hdistinct.2.2 _ (List.mem_map_of_mem he') _
          (List.mem_map_of_mem List.mem_cons_self) heq.symm
      have hdistinct' : ((info ++ [(⟨e.bare, none⟩ : RegisterEntry)]).map
          (fun e => e.rloc.address) ++ es.map fun e => e.rloc.address).Nodup := by
        simpa using hdistinct
      have hrest := ih (fun e' he' => haddr e' (List.mem_cons_of_mem _ he')) hdistinct' h.2
      rw [List.length_cons, registerLocators, registerLocator_of_holds hsome h.1]
      dsimp only
      rw [registerEntry_eq_append hnew, hrest]
      simp [hbytes, Nat.add_assoc]

end Locators

/-! ## Records -/

/-- Twelve bits in network byte order leave nothing in the field. -/
theorem versionField_eq_zero {version : UInt32} (h : version.toNat < 4096) :
    versionField version = 0 := by
  have hthird : version.toNat / 65536 = 0 := Nat.div_eq_of_lt (by omega)
  have hfourth : version.toNat / 16777216 = 0 := Nat.div_eq_of_lt (by omega)
  have hmod : htonl version % 4096 = 0 := by
    rw [htonl, hthird, hfourth]
    omega
  rw [versionField, hmod]
  rfl

theorem actByte_bit (lcount act : UInt8) (A : Bool) :
    decide (actByte lcount (if A then 1 else 0) act &&& 0x10 ≠ 0) = A := by
  have hbits : ∀ A : Bool, ∀ b : BitVec 8,
      decide ((UInt8.ofBitVec b <<< 5 ||| ((if A then 1 else 0 : UInt8) &&& 1) <<< 4)
        &&& 0x10 ≠ 0) = A := by
    decide +kernel
  rw [actByte]
  split
  · exact hbits A act.toBitVec
  · exact hbits A 0

/-- The fields of a record before its locators. -/
theorem recordBytes_of_holds {rec : Mem} {p : Prefix} {ttl version : UInt32}
    {lcount A act : UInt8} (h : rec.Holds (recordBytes p ttl lcount version A act)) :
    readAddress (rec.advance 10) = some p.addr ∧
      10 + getAddressSize (rec.advance 10) =
        (recordBytes p ttl lcount version A act).length ∧
      rec 4 = lcount ∧ rec 5 = p.prefixlen ∧ rec 6 = actByte lcount A act ∧
      rec.le16 8 = (versionField version).toNat ∧ rec.be32 0 = ttl.toNat := by
  rw [recordBytes] at h ⊢
  simp only [Mem.holds_append, Mem.advance_advance, Mem.length_be32Bytes,
    Mem.length_le16Bytes, List.length_cons, List.length_nil] at h
  obtain ⟨httl, hbytes, hversion, haddress⟩ := h
  obtain ⟨hread, hsize, -⟩ := readAddress_of_holds haddress
  refine ⟨hread, ?_, hbytes 0 (by simp), hbytes 1 (by simp), hbytes 2 (by simp),
    Mem.le16_of_holds hversion, Mem.be32_of_holds_be32Bytes (by rwa [Mem.advance_zero])⟩
  rw [hsize]
  simp
  omega

/-- What is left of the fields of a mapping. -/
def writtenFlags (m : WrittenMapping) (rec : Mem) : MappingFlags where
  act := rec 6 >>> 5
  A := m.A
  version := 0
  ttl := m.ttl.toNat

/-- The bytes of the record of a mapping. -/
def WrittenMapping.toBytes (m : WrittenMapping) (act : UInt8) : List UInt8 :=
  recordBytes m.eid m.ttl (.ofNat m.info.length) m.version (if m.A then 1 else 0) act ++
    (m.info.map (·.toReplyEntry)).flatMap entryBytes

section Record

variable {m : WrittenMapping} {act : UInt8} {rec : Mem}

theorem writeRecord_eq (h : m.IsPlain) (fncXtr exInfo : Bool) (rpk : RplEntry) :
    (writeRecord fncXtr exInfo act rpk m).map RplEntry.body =
      some (rpk.body ++ m.toBytes act) := by
  rw [writeRecord, addLocators_eq (by simp) h.address_isSome]
  simp [udpReplyAddRecord, WrittenMapping.toBytes]

/-- The header of the record, and the locators behind it. -/
theorem header_of_holds (h : m.IsPlain) (hrec : rec.Holds (m.toBytes act)) :
    readAddress (rec.advance 10) = some m.eid.addr ∧
      (rec 4).toNat = (m.info.map (·.toReplyEntry)).length ∧
      (⟨m.eid.addr, rec 5⟩ : Prefix) = m.eid ∧
      (⟨rec 6 >>> 5, rec 6 &&& 0x10 ≠ 0, rec.le16 8 % 4096, rec.be32 0⟩ :
        MappingFlags) = writtenFlags m rec ∧
      (rec.advance (10 + getAddressSize (rec.advance 10))).Holds
        ((m.info.map (·.toReplyEntry)).flatMap entryBytes) ∧
      10 + getAddressSize (rec.advance 10) +
          ((m.info.map (·.toReplyEntry)).flatMap entryBytes).length =
        (m.toBytes act).length := by
  rw [WrittenMapping.toBytes, Mem.holds_append] at hrec
  obtain ⟨hread, hsize, h4, h5, h6, hversion, httl⟩ := recordBytes_of_holds hrec.1
  have hcount : (rec 4).toNat = m.info.length := by
    rw [h4, UInt8.toNat_ofNat']
    exact Nat.mod_eq_of_lt (Nat.lt_succ_of_le h.length_le)
  have hA : decide (rec 6 &&& 0x10 ≠ 0) = m.A := by
    rw [h6]
    exact actByte_bit _ _ _
  have hzero : rec.le16 8 = 0 := by
    rw [hversion, versionField_eq_zero h.version_lt]
    rfl
  refine ⟨hread, ?_, ?_, ?_, ?_, ?_⟩
  · rw [hcount, List.length_map]
  · rw [h5]
  · rw [writtenFlags, hA, hzero, httl]
  · rw [hsize]
    exact hrec.2
  · rw [hsize, WrittenMapping.toBytes, List.length_append]

/-- A record of a plain mapping as `read_rec` reads it. -/
theorem readRec_of_holds (h : m.IsPlain) (hrec : rec.Holds (m.toBytes act))
    (cfg : ReplyConfig) :
    readRec cfg rec =
      ((m.toBytes act).length, some
        { eid := m.eid
          flags := writtenFlags m rec
          info := (m.info.map (·.toReplyEntry)).map ReplyEntry.bare }) := by
  obtain ⟨hread, hcount, heid, hflags, hlocators, hlength⟩ := header_of_holds h hrec
  have haddr : ∀ e ∈ m.info.map (·.toReplyEntry), e.rloc.address.isSome = true := by
    simpa using h.address_isSome
  have hdistinct : ((([] : List ReplyEntry) ++ m.info.map (·.toReplyEntry)).map
      fun e => e.rloc.address).Nodup := by
    simpa [Function.comp_def] using h.distinct
  rw [readRec, hread]
  dsimp only
  rw [hcount, readLocators_of_holds haddr hdistinct hlocators]
  dsimp only
  rw [heid, hflags, hlength]
  rfl

/-- A record of a plain mapping as `_ms_process_register_record` reads it. -/
theorem msProcessRegisterRecord_of_holds (h : m.IsPlain)
    (hrec : rec.Holds (m.toBytes act)) (cfg : RegisterConfig) :
    msProcessRegisterRecord cfg rec =
      ((m.toBytes act).length, some
        { eid := m.eid
          flags := writtenFlags m rec
          proxy := cfg.proxyMapRepl
          info := (m.info.map (·.toReplyEntry)).map fun e => ⟨e.bare, none⟩ }) := by
  obtain ⟨hread, hcount, heid, hflags, hlocators, hlength⟩ := header_of_holds h hrec
  have haddr : ∀ e ∈ m.info.map (·.toReplyEntry), e.rloc.address.isSome = true := by
    simpa using h.address_isSome
  have hdistinct : (([] : List RegisterEntry).map (fun e => e.rloc.address) ++
      (m.info.map (·.toReplyEntry)).map fun e => e.rloc.address).Nodup := by
    simpa [Function.comp_def] using h.distinct
  rw [msProcessRegisterRecord, hread]
  dsimp only
  rw [hcount, registerLocators_of_holds haddr hdistinct hlocators]
  dsimp only
  rw [heid, hflags, hlength]
  rfl

/-- Whatever the version was, zero is read. -/
theorem version_eq_zero_of_roundTrips (h : m.IsPlain) (hround : RoundTrips m) :
    m.version = 0 := by
  obtain ⟨bytes, hbody, hread⟩ := hround false false 0 ⟨0, false, none, []⟩
  rw [writeRecord_eq h, Option.some_inj] at hbody
  obtain rfl : m.toBytes 0 = bytes := hbody
  have hholds := Mem.holds_ofList (m.toBytes 0) fun _ => 0
  obtain ⟨found, hfound, hfields, -⟩ :=
    (hread _ hholds).1 ⟨false, false, false, fun _ => false⟩ rfl
  rw [readRec_of_holds h hholds, Prod.mk.injEq, Option.some_inj] at hfound
  obtain ⟨-, rfl⟩ := hfound
  exact UInt32.toNat_inj.mp hfields.2.2.1.symm

end Record

/-- A plain mapping survives being written and read exactly when its version is
zero. -/
theorem roundTrips_iff (m : WrittenMapping) (h : m.IsPlain) :
    RoundTrips m ↔ m.version = 0 := by
  constructor
  · exact version_eq_zero_of_roundTrips h
  · intro hversion fncXtr exInfo act rpk
    have hfields : ∀ rec, SameFields m m.eid (writtenFlags m rec) :=
      fun rec => ⟨rfl, rfl, by rw [hversion]; rfl, rfl⟩
    refine ⟨m.toBytes act, writeRecord_eq h fncXtr exInfo rpk, fun buf hbuf => ⟨?_, ?_⟩⟩
    · intro cfg _
      exact ⟨_, readRec_of_holds h hbuf cfg, hfields buf, List.map_map⟩
    · intro cfg _
      exact ⟨_, msProcessRegisterRecord_of_holds h hbuf cfg, hfields buf, List.map_map⟩

/-- 192.0.2.0/24 -/
def eidTestNet : Prefix :=
  ⟨.inet #v[192, 0, 2, 0], 24⟩

/-- 198.51.100.7, with priority 1 and weight 100. -/
def rlocTestNet : ReplyEntry :=
  ⟨⟨addressSockUnion (.inet #v[198, 51, 100, 7]), 1, 100, true, true⟩, 255, 0, false⟩

/-- A mapping with one locator. -/
def mappingTestNet (version : UInt32) : WrittenMapping where
  eid := eidTestNet
  ttl := 60
  version := version
  A := true
  info := [⟨rlocTestNet, none⟩]

theorem mappingTestNet_isPlain {version : UInt32} (h : version.toNat < 4096) :
    (mappingTestNet version).IsPlain where
  version_lt := h
  length_le := by simp [mappingTestNet]
  address_isSome := by simp [mappingTestNet, rlocTestNet, addressSockUnion, SockUnion.address]
  pe_eq_none := by simp [mappingTestNet]
  distinct := by simp [mappingTestNet]

theorem roundTrips_mappingTestNet : RoundTrips (mappingTestNet 0) :=
  (roundTrips_iff (mappingTestNet 0) (mappingTestNet_isPlain (by decide))).mpr rfl

/-- Version 1 is lost. -/
theorem not_roundTrips_version : ¬ ∀ m : WrittenMapping, m.IsPlain → RoundTrips m := by
  intro h
  have hplain : (mappingTestNet 1).IsPlain := mappingTestNet_isPlain (by decide)
  exact absurd (version_eq_zero_of_roundTrips hplain (h _ hplain)) (by decide)

end HyLisp.ControlPlane
