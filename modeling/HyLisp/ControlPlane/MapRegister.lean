import HyLisp.ControlPlane.MapReply
import HyLisp.ControlPlane.PrefixTree
import HyLisp.Support.CString

/-!
# Map-Registers at the Map-Server

A site registers its mappings with a Map-Server.  The message is accepted when all
its EID prefixes are delegated to one site and its authentication field is the
hash of the message under the key of the site.  A message with the hash that is
stored for the site changes nothing.

The hash itself is a parameter.  `_ms_recal_hashing` works on copies: what lies
behind the copy of the packet, and what a local buffer holds before it is written,
are parameters as well.
-/

namespace HyLisp.ControlPlane

open DataPlane

/-! ## The mapping database -/

/-- `_EID` -/
def typeEid : UInt8 := 4

/-- `mapping_flags`, with the type of a node and the site it is delegated to. -/
structure NodeFlags where
  range : UInt8
  rsvd : Option ℕ

/-- `ms_node_is_type` -/
def msNodeIsType (flags : Option NodeFlags) (nType : UInt8) : Bool :=
  match flags with
  | none => false
  | some flags => flags.range &&& nType ≠ 0

/-- `lisp_db` -/
structure LispDb where
  lispDb4 : DbTree (Option NodeFlags)
  lispDb6 : DbTree (Option NodeFlags)

/-- `ms_get_db_table` -/
def msGetDbTable (db : LispDb) (pf : Prefix) : DbTree (Option NodeFlags) :=
  match pf.addr with
  | .inet _ => db.lispDb4
  | .inet6 _ => db.lispDb6

/-- The walk of `_ms_validate_eid` from the node that matches an EID up to the
first one of type `_EID`; the top is not looked at. -/
def siteOf (db : LispDb) (eid : Prefix) : Option ℕ :=
  let path := (msGetDbTable db eid).matchPath eid
  (path.tail.reverse.find? fun node => msNodeIsType node.2 typeEid).bind fun node =>
    node.2.bind NodeFlags.rsvd

/-- `site_info`, with what authenticates a site; the key ends before its zero
byte. -/
structure SiteInfo where
  key : List UInt8
  hashing : Option Mem

/-- The database and the sites, by their position in the list of sites. -/
structure MsState where
  db : LispDb
  sites : ℕ → SiteInfo

/-! ## The records of a Map-Register -/

/-- The loop over the hops of a path: the offset behind them. -/
def hopsEnd (lcaf : Mem) (barr : ℕ) : ℕ → ℕ → Option ℕ
  | 0, hop => some hop
  | n + 1, hop =>
      if hop < barr then
        match readHop (lcaf.advance hop) with
        | none => none
        | some (_, size) => hopsEnd lcaf barr n (hop + size)
      else some hop

/-- The length of a locator. -/
def locatorLen (loc : Mem) : Option ℕ :=
  let lcaf := loc.advance 6
  if lcaf.be16 0 = lcafAfi then
    if lcaf 4 ≠ lcafTe then none
    else
      let payloadLen := lcaf.be16 6
      let barr := sizeofLcafHdr + payloadLen
      (hopsEnd lcaf barr payloadLen sizeofLcafHdr).map fun hop => 6 + hop
  else (readAddress lcaf).map fun _ => 6 + getAddressSize lcaf

/-- The loop over the locators: their length. -/
def locatorsLen : ℕ → Mem → Option ℕ
  | 0, _ => some 0
  | lcount + 1, loc =>
      match locatorLen loc with
      | none => none
      | some len => (locatorsLen lcount (loc.advance len)).map fun rest => len + rest

/-- `_ms_validate_eid`: the site that the EID prefix of a record is delegated to,
and the length of the record. -/
def msValidateEid (db : LispDb) (rec : Mem) : Option (ℕ × ℕ) :=
  let afi := rec.advance 10
  match readAddress afi with
  | none => none
  | some addr =>
      let rhdrLen := 10 + getAddressSize afi
      match locatorsLen (rec 4).toNat (rec.advance rhdrLen) with
      | none => none
      | some len =>
          (siteOf db ⟨addr, rec 5⟩).map fun site => (site, rhdrLen + len)

/-- The loop of `_ms_validate_register` over the records: the site of them all. -/
def validateRecords (db : LispDb) : ℕ → Mem → Option ℕ → Option ℕ
  | 0, _, site => site
  | rcount + 1, rec, site =>
      match msValidateEid db rec with
      | none => none
      | some (pt, rlen) =>
          if site ≠ none ∧ site ≠ some pt then none
          else validateRecords db rcount (rec.advance rlen) (some pt)

/-! ## Authentication -/

/-- HMAC-SHA1, of a key and a message. -/
abbrev Hmac := List UInt8 → List UInt8 → Vector UInt8 20

/-- What a call of `_ms_recal_hashing` finds behind its copy of the packet and
behind the hash in its buffer. -/
structure Uninit where
  heap : Mem
  stack : Mem

/-- `_ms_recal_hashing`, into the buffer `rt`.  The length of the authentication
field is kept in a single byte. -/
def msRecalHashing (hmac : Hmac) (uninit : Uninit) (packet : Mem) (pkLen : ℕ)
    (key : List UInt8) (rt : Mem) (noNonce : Bool) : Mem :=
  let packet2 := Mem.splice packet pkLen uninit.heap
  let authLen := packet2.be16 14 % 256
  let packet2 := packet2.zero 16 authLen
  let packet2 := if noNonce then (packet2.zero 4 4).zero 8 4 else packet2
  let buf := Mem.splice (Mem.ofVector (hmac key (packet2.toList pkLen))) 20
    uninit.stack
  Mem.splice buf authLen (rt.advance authLen)

/-- `sizeof(struct map_register_hdr)` -/
def sizeofMapRegisterHdr : ℕ := 16

/-- The hash stored for a site is the one given, as `strncmp` sees it. -/
def isStored (info : SiteInfo) (sHashing : Mem) (authLen : ℕ) : Bool :=
  info.hashing.any fun hashing => Mem.strncmp authLen hashing sHashing = 0

/-- The result of `_ms_validate_register`, the site it passes back, and the state
it leaves. -/
structure Validation where
  rt : Int
  site : Option ℕ
  state : MsState

/-- What the calls made for one Map-Register find in memory that was not written:
the two calls of `_ms_recal_hashing`, and what lies behind a new stored hash. -/
structure RegisterUninit where
  hashing : Uninit
  hmac : Uninit
  stored : Mem

section Register

variable (hmac : Hmac) (uninit : RegisterUninit) (s : MsState) (packet : Mem)
  (pkgLen : ℕ)

/-- `_ms_validate_register` -/
def msValidateRegister : Validation :=
  let rcount := (packet 3).toNat
  let authLen := packet.be16 14
  let infoHmac := packet.advance sizeofMapRegisterHdr
  let recs := packet.advance (sizeofMapRegisterHdr + authLen)
  if rcount = 0 then ⟨-1, none, s⟩
  else
    match validateRecords s.db rcount recs none with
    | none => ⟨-1, none, s⟩
    | some site =>
        let info := s.sites site
        let sHashing := msRecalHashing hmac uninit.hashing packet pkgLen info.key
          (fun _ => 0) true
        if isStored info sHashing authLen then ⟨0, some site, s⟩
        else
          let sHmac := msRecalHashing hmac uninit.hmac packet pkgLen info.key
            (fun _ => 0) false
          if Mem.strncmp authLen infoHmac sHmac ≠ 0 then ⟨-1, some site, s⟩
          else
            let hashing := Mem.splice sHashing authLen uninit.stored
            let info := { info with hashing := some hashing }
            ⟨1, some site, { s with sites := Function.update s.sites site info }⟩

/-- The result of `_register`: what it returns, the state it leaves, and the site
that gets a Map-Notify. -/
structure Registration where
  rt : UInt32
  state : MsState
  notify : Option ℕ

/-- `_register`; `rewrite` clears the mappings of a site and enters those of the
message. -/
def register (rewrite : MsState → ℕ → MsState) : Registration :=
  let validation := msValidateRegister hmac uninit s packet pkgLen
  if validation.rt ≥ 0 then
    let state :=
      match validation.site with
      | some site =>
          if validation.rt ≠ 0 then rewrite validation.state site
          else validation.state
      | none => validation.state
    ⟨1, state, if packet 2 &&& 1 ≠ 0 then validation.site else none⟩
  else ⟨0, validation.state, none⟩

end Register

/-! ## Authenticated registrations -/

/-- All records are of prefixes delegated to the site. -/
def RecordsOwned (db : LispDb) : ℕ → Mem → ℕ → Prop
  | 0, _, _ => True
  | rcount + 1, rec, site =>
      ∃ rlen, msValidateEid db rec = some (site, rlen) ∧
        RecordsOwned db rcount (rec.advance rlen) site

/-- The site owns all EID prefixes of a Map-Register, which has some. -/
def OwnsAll (db : LispDb) (packet : Mem) (site : ℕ) : Prop :=
  packet 3 ≠ 0 ∧
    RecordsOwned db (packet 3).toNat
      (packet.advance (sizeofMapRegisterHdr + packet.be16 14)) site

/-- The hash of a packet with the first `n` bytes of its authentication field
zero. -/
def fieldHash (hmac : Hmac) (packet : Mem) (pkgLen n : ℕ) (key : List UInt8) :
    Vector UInt8 20 :=
  hmac key ((packet.zero sizeofMapRegisterHdr n).toList pkgLen)

/-- The authentication field lies inside the packet and has the size of a hash. -/
def HasHashField (packet : Mem) (pkgLen : ℕ) : Prop :=
  packet.be16 14 = 20 ∧ sizeofMapRegisterHdr + 20 ≤ pkgLen

instance (packet : Mem) (pkgLen : ℕ) : Decidable (HasHashField packet pkgLen) :=
  inferInstanceAs (Decidable (_ ∧ _))

/-- The field is the hash of the packet under the key of the site that owns all
its EID prefixes. -/
structure Authenticated (hmac : Hmac) (s : MsState) (packet : Mem) (pkgLen : ℕ)
    (site : ℕ) : Prop where
  owns : OwnsAll s.db packet site
  hasHashField : HasHashField packet pkgLen
  field_eq : packet.bytes sizeofMapRegisterHdr 20 =
    fieldHash hmac packet pkgLen 20 (s.sites site).key

section Register

variable (hmac : Hmac) (uninit : RegisterUninit) (s : MsState) (packet : Mem)
  (pkgLen : ℕ)

/-- Only authenticated messages are accepted, and all others leave the database
and the stored hashes as they are. -/
structure AcceptsAuthenticated : Prop where
  authenticated : (msValidateRegister hmac uninit s packet pkgLen).rt = 1 →
    ∃ site, (msValidateRegister hmac uninit s packet pkgLen).site = some site ∧
      Authenticated hmac s packet pkgLen site
  unchanged : (msValidateRegister hmac uninit s packet pkgLen).rt ≠ 1 →
    (msValidateRegister hmac uninit s packet pkgLen).state = s ∧
      ∀ rewrite, (register hmac uninit s packet pkgLen rewrite).state = s

/-- The stored hash of the site says that the message is registered already. -/
def isRegistered (site : ℕ) : Bool :=
  isStored (s.sites site)
    (msRecalHashing hmac uninit.hashing packet pkgLen (s.sites site).key
      (fun _ => 0) true)
    (packet.be16 14)

/-- The comparison of the authentication field under a key. -/
def compareField (key : List UInt8) : Int :=
  Mem.strncmp (packet.be16 14) (packet.advance sizeofMapRegisterHdr)
    (msRecalHashing hmac uninit.hmac packet pkgLen key (fun _ => 0) false)

/-- The length of the authentication field as `_ms_recal_hashing` keeps it. -/
def keptLen : ℕ :=
  (Mem.splice packet pkgLen uninit.hmac.heap).be16 14 % 256

/-- What `_ms_recal_hashing` makes of a hash: `n` bytes of its buffer, and zeros
behind them. -/
def paddedHash (hash : Vector UInt8 20) (stack : Mem) (n : ℕ) : Mem :=
  Mem.splice (Mem.splice (Mem.ofVector hash) 20 stack) n fun _ => 0

/-- A field with the size of a hash does not differ from the hash behind a common
zero byte only; any other field differs, before a common zero byte, from what the
hash is padded to. -/
def Comparable (key : List UInt8) : Prop :=
  let field := packet.advance sizeofMapRegisterHdr
  if HasHashField packet pkgLen then
    ¬ Mem.DiffersBehindNul 20 field
      (Mem.ofVector (fieldHash hmac packet pkgLen 20 key))
  else
    let n := keptLen uninit packet pkgLen
    Mem.DiffersBeforeNul (packet.be16 14) field
      (paddedHash (fieldHash hmac packet pkgLen n key) uninit.hmac.stack n)

end Register

/-! ## The site of a message -/

/-- The site found for an EID prefix has a delegation that covers it. -/
theorem exists_delegation_of_siteOf {db : LispDb} {eid : Prefix} {site : ℕ}
    (h : siteOf db eid = some site) :
    ∃ node ∈ (msGetDbTable db eid).matchPath eid,
      msNodeIsType node.2 typeEid = true ∧
        node.2.bind NodeFlags.rsvd = some site ∧ node.1.bits <+: eid.bits := by
  obtain ⟨node, hfind, hsite⟩ := Option.bind_eq_some_iff.mp h
  have hpath : node ∈ (msGetDbTable db eid).matchPath eid :=
    List.mem_of_mem_tail (List.mem_reverse.mp (List.mem_of_find?_eq_some hfind))
  have htype := List.find?_some hfind
  exact ⟨node, hpath, htype, hsite, DbTree.isPrefix_of_mem_matchPath hpath⟩

theorem validateRecords_some_iff {db : LispDb} {rcount : ℕ} {rec : Mem}
    {site site' : ℕ} :
    validateRecords db rcount rec (some site') = some site ↔
      site' = site ∧ RecordsOwned db rcount rec site := by
  induction rcount generalizing rec with
  | zero => simp [validateRecords, RecordsOwned]
  | succ rcount ih =>
      rw [validateRecords, RecordsOwned]
      cases hrec : msValidateEid db rec with
      | none => simp
      | some found =>
          obtain ⟨pt, rlen⟩ := found
          by_cases hpt : site' = pt
          · subst hpt
            simp only [ne_eq, not_true_eq_false, and_false, ↓reduceIte, ih,
              Option.some.injEq, Prod.mk.injEq]
            constructor
            · rintro ⟨rfl, hrest⟩
              exact ⟨rfl, rlen, ⟨rfl, rfl⟩, hrest⟩
            · rintro ⟨rfl, _, ⟨-, rfl⟩, hrest⟩
              exact ⟨rfl, hrest⟩
          · have hne : some site' ≠ none ∧ some site' ≠ some pt :=
              ⟨Option.some_ne_none _, fun h => hpt (Option.some_inj.mp h)⟩
            simp only [if_pos hne, reduceCtorEq, false_iff]
            rintro ⟨rfl, _, hfound, -⟩
            exact hpt (Prod.mk.inj (Option.some_inj.mp hfound)).1.symm

/-- The loop over the records finds the one site that owns them all. -/
theorem validateRecords_none_iff {db : LispDb} {rcount : ℕ} {rec : Mem}
    {site : ℕ} :
    validateRecords db rcount rec none = some site ↔
      rcount ≠ 0 ∧ RecordsOwned db rcount rec site := by
  cases rcount with
  | zero => simp [validateRecords]
  | succ rcount =>
      rw [validateRecords, RecordsOwned]
      cases hrec : msValidateEid db rec with
      | none => simp
      | some found =>
          obtain ⟨pt, rlen⟩ := found
          simp only [ne_eq, not_true_eq_false, false_and, ↓reduceIte,
            validateRecords_some_iff, Option.some.injEq, Prod.mk.injEq]
          constructor
          · rintro ⟨rfl, hrest⟩
            exact ⟨Nat.succ_ne_zero _, rlen, ⟨rfl, rfl⟩, hrest⟩
          · rintro ⟨-, _, ⟨rfl, rfl⟩, hrest⟩
            exact ⟨rfl, hrest⟩

/-! ## The check of the field -/

section Check

variable {hmac : Hmac} {uninit : RegisterUninit} {s : MsState} {packet : Mem}
  {pkgLen : ℕ} {key : List UInt8} {site : ℕ}

/-- The hash compared with the field. -/
theorem msRecalHashing_eq :
    msRecalHashing hmac uninit.hmac packet pkgLen key (fun _ => 0) false =
      paddedHash (fieldHash hmac packet pkgLen (keptLen uninit packet pkgLen) key)
        uninit.hmac.stack (keptLen uninit packet pkgLen) := by
  have hcopy : Mem.Agree pkgLen (Mem.splice packet pkgLen uninit.hmac.heap) packet :=
    fun i hi => Mem.splice_apply_of_lt packet _ hi
  have hzero := (hcopy.zero 16 (keptLen uninit packet pkgLen)).toList
  rw [fieldHash, sizeofMapRegisterHdr, ← hzero]
  rfl

theorem keptLen_of_hasHashField (h : HasHashField packet pkgLen) :
    keptLen uninit packet pkgLen = 20 := by
  have hlen := h.2
  rw [sizeofMapRegisterHdr] at hlen
  have hcopy : Mem.Agree 16 (Mem.splice packet pkgLen uninit.hmac.heap) packet :=
    fun i hi => Mem.splice_apply_of_lt packet _ (by omega)
  rw [keptLen, hcopy.be16 (by omega), h.1]

/-- A field with the size of a hash is compared with the hash. -/
theorem compareField_of_hasHashField (h : HasHashField packet pkgLen) :
    compareField hmac uninit packet pkgLen key =
      Mem.strncmp 20 (packet.advance sizeofMapRegisterHdr)
        (Mem.ofVector (fieldHash hmac packet pkgLen 20 key)) := by
  rw [compareField, msRecalHashing_eq, keptLen_of_hasHashField h, h.1]
  refine Mem.strncmp_congr fun i hi => ?_
  rw [paddedHash, Mem.splice_apply_of_lt _ _ hi, Mem.splice_apply_of_lt _ _ hi]

theorem agree_hash_iff {hash : Vector UInt8 20} :
    Mem.Agree 20 (packet.advance sizeofMapRegisterHdr) (Mem.ofVector hash) ↔
      packet.bytes sizeofMapRegisterHdr 20 = hash := by
  constructor
  · intro h
    refine Mem.ofVector_injective fun i hi => ?_
    rw [Mem.ofVector_bytes packet _ hi]
    exact h i hi
  · rintro rfl i hi
    rw [Mem.ofVector_bytes packet _ hi]
    rfl

/-- The comparison is decisive exactly when it rejects the field, or the field is
the hash. -/
theorem comparable_iff :
    Comparable hmac uninit packet pkgLen key ↔
      compareField hmac uninit packet pkgLen key ≠ 0 ∨
        HasHashField packet pkgLen ∧
          packet.bytes sizeofMapRegisterHdr 20 =
            fieldHash hmac packet pkgLen 20 key := by
  unfold Comparable
  by_cases hsize : HasHashField packet pkgLen
  · rw [if_pos hsize, compareField_of_hasHashField hsize, ← agree_hash_iff, ne_eq,
      Mem.strncmp_eq_zero_iff]
    constructor
    · intro hbehind
      by_cases hagree : Mem.Agree 20 (packet.advance sizeofMapRegisterHdr)
          (Mem.ofVector (fieldHash hmac packet pkgLen 20 key))
      · exact Or.inr ⟨hsize, hagree⟩
      · exact Or.inl (not_or.mpr ⟨hagree, hbehind⟩)
    · rintro (hdiffer | ⟨-, hagree⟩)
      · exact (not_or.mp hdiffer).2
      · rintro ⟨i, hi, hne, -⟩
        exact hne (hagree i hi)
  · rw [if_neg hsize, compareField, msRecalHashing_eq, Mem.strncmp_ne_zero_iff]
    constructor
    · exact Or.inl
    · rintro (hdiffer | ⟨h, -⟩)
      · exact hdiffer
      · exact absurd h hsize

/-- `_ms_validate_register` by its outcomes: no site owns all EID prefixes; the
message is registered already; the field is rejected; the field is accepted. -/
theorem msValidateRegister_cases (hmac : Hmac) (uninit : RegisterUninit)
    (s : MsState) (packet : Mem) (pkgLen : ℕ) :
    (∀ site, ¬ OwnsAll s.db packet site) ∧
        msValidateRegister hmac uninit s packet pkgLen = ⟨-1, none, s⟩ ∨
      ∃ site, OwnsAll s.db packet site ∧
        (isRegistered hmac uninit s packet pkgLen site = true ∧
            msValidateRegister hmac uninit s packet pkgLen = ⟨0, some site, s⟩ ∨
          isRegistered hmac uninit s packet pkgLen site = false ∧
            compareField hmac uninit packet pkgLen (s.sites site).key ≠ 0 ∧
            msValidateRegister hmac uninit s packet pkgLen =
              ⟨-1, some site, s⟩ ∨
          isRegistered hmac uninit s packet pkgLen site = false ∧
            compareField hmac uninit packet pkgLen (s.sites site).key = 0 ∧
            ∃ s', msValidateRegister hmac uninit s packet pkgLen =
              ⟨1, some site, s'⟩) := by
  unfold msValidateRegister
  by_cases hcount : packet 3 = 0
  · refine Or.inl ⟨fun site hown => hown.1 hcount, ?_⟩
    rw [hcount]
    rfl
  · have hne : (packet 3).toNat ≠ 0 := fun h => hcount (UInt8.toNat_inj.mp h)
    simp only [if_neg hne]
    cases hsite : validateRecords s.db (packet 3).toNat
        (packet.advance (sizeofMapRegisterHdr + packet.be16 14)) none with
    | none =>
        refine Or.inl ⟨fun site hown => ?_, rfl⟩
        rw [validateRecords_none_iff.mpr ⟨hne, hown.2⟩] at hsite
        cases hsite
    | some site =>
        refine Or.inr ⟨site, ⟨hcount, (validateRecords_none_iff.mp hsite).2⟩, ?_⟩
        dsimp only
        by_cases hstored : isRegistered hmac uninit s packet pkgLen site = true
        · exact Or.inl ⟨hstored, if_pos hstored⟩
        · have hnew := Bool.eq_false_of_not_eq_true hstored
          by_cases hdiffer :
              compareField hmac uninit packet pkgLen (s.sites site).key ≠ 0
          · exact Or.inr (Or.inl
              ⟨hnew, hdiffer, (if_neg hstored).trans (if_pos hdiffer)⟩)
          · exact Or.inr (Or.inr
              ⟨hnew, not_not.mp hdiffer, _, (if_neg hstored).trans (if_neg hdiffer)⟩)

theorem OwnsAll.unique {db : LispDb} {site' : ℕ} (h : OwnsAll db packet site)
    (h' : OwnsAll db packet site') : site = site' := by
  have hne : (packet 3).toNat ≠ 0 := fun hzero => h.1 (UInt8.toNat_inj.mp hzero)
  have hsite := validateRecords_none_iff.mpr ⟨hne, h.2⟩
  rw [validateRecords_none_iff.mpr ⟨hne, h'.2⟩] at hsite
  exact (Option.some_inj.mp hsite).symm

/-- `_register` touches nothing when the message is rejected or registered
already. -/
theorem register_state {rewrite : MsState → ℕ → MsState}
    (h : (msValidateRegister hmac uninit s packet pkgLen).rt ≤ 0) :
    (register hmac uninit s packet pkgLen rewrite).state =
      (msValidateRegister hmac uninit s packet pkgLen).state := by
  unfold register
  dsimp only
  split
  next hge =>
    have hzero := Int.le_antisymm h hge
    cases (msValidateRegister hmac uninit s packet pkgLen).site with
    | none => rfl
    | some site => exact if_neg (not_not.mpr hzero)
  · rfl

end Check

/-- A Map-Server accepts authenticated messages only exactly when, for the site
that owns all EID prefixes of a message not registered already, the comparison of
the authentication field is decisive. -/
theorem acceptsAuthenticated_iff (hmac : Hmac) (uninit : RegisterUninit)
    (s : MsState) (packet : Mem) (pkgLen : ℕ) :
    AcceptsAuthenticated hmac uninit s packet pkgLen ↔
      ∀ site, OwnsAll s.db packet site →
        isRegistered hmac uninit s packet pkgLen site = false →
        Comparable hmac uninit packet pkgLen (s.sites site).key := by
  have hunchanged : ∀ {rt site}, rt ≤ 0 →
      msValidateRegister hmac uninit s packet pkgLen = ⟨rt, site, s⟩ →
      AcceptsAuthenticated hmac uninit s packet pkgLen := by
    intro rt site hrt heq
    refine ⟨fun hone => ?_, fun _ => ⟨by rw [heq], fun rewrite => ?_⟩⟩
    · rw [heq] at hone
      exact absurd hone (by dsimp only; omega)
    · rw [register_state (by rw [heq]; exact hrt), heq]
  rcases msValidateRegister_cases hmac uninit s packet pkgLen with
    ⟨hnone, heq⟩ | ⟨site, hown, hcases⟩
  · exact iff_of_true (hunchanged (by decide) heq)
      fun site hown => absurd hown (hnone site)
  · rcases hcases with ⟨hregistered, heq⟩ | ⟨-, hdiffer, heq⟩ | ⟨hnew, hsame, s', heq⟩
    · refine iff_of_true (hunchanged (by decide) heq) fun site' hown' hnew => ?_
      rw [hown'.unique hown, hregistered] at hnew
      cases hnew
    · refine iff_of_true (hunchanged (by decide) heq) fun site' hown' _ => ?_
      rw [hown'.unique hown]
      exact comparable_iff.mpr (Or.inl hdiffer)
    · constructor
      · intro h site' hown' _
        obtain ⟨site'', -, hauth⟩ := h.authenticated (by rw [heq])
        rw [hown'.unique hauth.owns]
        exact comparable_iff.mpr (Or.inr ⟨hauth.hasHashField, hauth.field_eq⟩)
      · intro h
        refine ⟨fun _ => ?_, fun hne => absurd (by rw [heq]) hne⟩
        rcases comparable_iff.mp (h site hown hnew) with hdiffer | ⟨hsize, hfield⟩
        · exact absurd hsame hdiffer
        · exact ⟨site, by rw [heq], hown, hsize, hfield⟩

/-- A database that delegates 198.51.100.0/24 to site 0, which has registered
nothing yet. -/
def delegatedTestNet : MsState where
  db :=
    { lispDb4 := .node ⟨.inet #v[0, 0, 0, 0], 0⟩ none .nil
        (.node ⟨.inet #v[198, 51, 100, 0], 24⟩ (some ⟨typeEid, some 0⟩) .nil .nil)
      lispDb6 := .nil }
  sites := fun _ => ⟨[0x6b, 0x65, 0x79], none⟩

/-- A Map-Register for 198.51.100.0/24 with an empty authentication field. -/
def registerTestNet : List UInt8 :=
  [0x30, 0, 0, 1, 0, 0, 0, 1, 0, 0, 0, 2, 0, 1, 0, 0,
    0, 0, 0, 60, 0, 24, 0, 0, 0, 0, 0, 1, 198, 51, 100, 0]

/-- An empty authentication field is accepted. -/
theorem not_acceptsAuthenticated_empty_field :
    ¬ ∀ hmac uninit s packet pkgLen,
      AcceptsAuthenticated hmac uninit s packet pkgLen := by
  intro h
  have hnet := h (fun _ _ => Vector.replicate 20 0)
    ⟨⟨fun _ => 0, fun _ => 0⟩, ⟨fun _ => 0, fun _ => 0⟩, fun _ => 0⟩
    delegatedTestNet (Mem.ofList registerTestNet fun _ => 0) 32
  obtain ⟨site, -, hauth⟩ := hnet.authenticated (by decide)
  have hlength := hauth.hasHashField.1
  revert hlength
  decide

end HyLisp.ControlPlane
