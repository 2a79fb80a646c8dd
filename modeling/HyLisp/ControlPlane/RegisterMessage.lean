import HyLisp.ControlPlane.MapRegister
import HyLisp.ControlPlane.RecordRoundTrip
import Mathlib.Algebra.GroupWithZero.Nat

/-!
# The Map-Register of an xTR

An xTR registers its EIDs at every Map-Server it is configured with, each with its
RLOCs.  The locator count of a record is made for explicit locator paths when the
Map-Server is to send proxy replies; the locators are always written without
paths.
-/

namespace HyLisp.ControlPlane

open DataPlane

/-! ## The configuration -/

/-- An EID of the list `eids`: the prefix, the flags of its mapping and the
RLOCs, which have addresses.  A path may be configured without hops. -/
structure RegisterEid where
  p : Prefix
  ttl : UInt32
  version : UInt32
  A : UInt8
  act : UInt8
  info : List RegisterEntry
  address_isSome : ∀ e ∈ info, e.rloc.address.isSome = true

/-- `ms_entry` -/
structure MsEntry where
  key : List UInt8
  proxy : Bool
  eids : List RegisterEid

/-- `PKMSIZE` -/
def pkmsize : ℕ := 4096

/-- `PKBUFLEN` -/
def pkbuflen : ℕ := 65527

/-! ## The message -/

/-- `udp_register_add` -/
def udpRegisterAdd : RplEntry where
  recordCount := 0
  rlocProbe := false
  requestProbe := none
  body := []

/-- The sum of the numbers of paths. -/
def countPaths : List RegisterEntry → ℕ
  | [] => 0
  | e :: rest =>
      (match e.pe with
        | some pes => pes.length
        | none => 1) + countPaths rest

section Process

variable (lispTe fncXtr : Bool)

/-- The locator count of a record, before it is cut to a byte. -/
def declaredCount (proxy : Bool) (eid : RegisterEid) : ℕ :=
  if proxy && lispTe && fncXtr then countPaths eid.info else eid.info.length

/-- The loop over the EIDs. -/
def registerEids (proxy : Bool) : List RegisterEid → RplEntry → Option RplEntry
  | [], rpk => some rpk
  | eid :: eids, rpk =>
      let rpk := udpReplyAddRecord rpk eid.p eid.ttl
        (.ofNat (declaredCount lispTe fncXtr proxy eid)) eid.version eid.A eid.act
      (addLocators lispTe fncXtr false eid.info rpk).bind (registerEids proxy eids)

/-- The second message, which holds locators with their paths and is not sent. -/
def registerPaths (eids : List RegisterEid) : Option RplEntry :=
  if lispTe && fncXtr then
    addLocators lispTe fncXtr true (eids.flatMap fun eid => eid.info) udpRegisterAdd
  else some udpRegisterAdd

/-- The length of the authentication field. -/
def authDataLength : ℕ := 20

/-- `buf_len` of a Map-Register. -/
def registerLen (rpk : RplEntry) : ℕ :=
  sizeofMapRegisterHdr + authDataLength + rpk.body.length

/-- The header before the authentication field. -/
def registerHdr (proxy wantMapNotify : Bool) (recordCount : UInt8) (nonce : UInt64) :
    List UInt8 :=
  [if proxy then 0x38 else 0x30, 0, if wantMapNotify then 1 else 0, recordCount] ++
    (Mem.be32Bytes nonce.toUInt32 ++ (Mem.be32Bytes (nonce >>> 32).toUInt32 ++
      [0, 1, 0, 20]))

/-- A Map-Register, with the hash of the same message without a hash. -/
def registerBytes (hmac : Hmac) (ms : MsEntry) (wantMapNotify : Bool) (nonce : UInt64)
    (rpk : RplEntry) : List UInt8 :=
  let hdr := registerHdr ms.proxy wantMapNotify rpk.recordCount nonce
  let hash := hmac ms.key (hdr ++ (List.replicate authDataLength 0 ++ rpk.body))
  hdr ++ (hash.toList ++ rpk.body)

/-- `general_register_process`, for one Map-Server.  A message that does not fit
the array it is copied to, or the buffer it is written to, is not a message that
can be relied on, and none is sent where a path without hops stops the process. -/
def generalRegisterProcess (hmac : Hmac) (wantMapNotify : Bool) (nonce : UInt64)
    (ms : MsEntry) : Option (List UInt8) :=
  match registerEids lispTe fncXtr ms.proxy ms.eids udpRegisterAdd,
      registerPaths lispTe fncXtr ms.eids with
  | some rpk, some rpkEx =>
      if registerLen rpk ≤ pkmsize ∧ registerLen rpkEx ≤ pkbuflen then
        some (registerBytes hmac ms wantMapNotify nonce rpk)
      else none
  | _, _ => none

/-! ## Records that are walked over -/

/-- The size of a record before its locators. -/
def recordSize (p : Prefix) : ℕ :=
  10 + (afiAddress (some p.addr)).length

/-- The locators written for a record. -/
def recordLocators (info : List RegisterEntry) : List (List UInt8) :=
  info.flatMap fun e =>
    (e.rloc.address.map fun addr => locatorEntries lispTe fncXtr e addr false).getD []

/-- Every record has the count of the locators written behind it. -/
def CountsAgree : List RegisterEid → Mem → Prop
  | [], _ => True
  | eid :: eids, rec =>
      let locators := recordLocators lispTe fncXtr eid.info
      (rec 4).toNat = locators.length ∧
        CountsAgree eids (rec.advance (recordSize eid.p + locators.flatten.length))

/-- The length of `rcount` records, as `_ms_validate_eid` walks over them. -/
def walkLen (db : LispDb) : ℕ → Mem → Option ℕ
  | 0, _ => some 0
  | rcount + 1, rec =>
      match msValidateEid db rec with
      | none => none
      | some (_, rlen) => (walkLen db rcount (rec.advance rlen)).map fun len => rlen + len

/-- The message that is sent has the right locator counts, and its records end
where the message does. -/
def SendsWalkable (ms : MsEntry) : Prop :=
  ∀ hmac wantMapNotify nonce,
    ∃ msg, generalRegisterProcess lispTe fncXtr hmac wantMapNotify nonce ms = some msg ∧
      ∀ buf : Mem, buf.Holds msg →
        let recs := sizeofMapRegisterHdr + buf.be16 14
        CountsAgree lispTe fncXtr ms.eids (buf.advance recs) ∧
          ∀ db : LispDb, (∀ eid ∈ ms.eids, (siteOf db eid.p).isSome = true) →
            (walkLen db (buf 3).toNat (buf.advance recs)).map (recs + ·) =
              some msg.length

/-! ## Sizes -/

/-- The size of a plain locator. -/
def locatorSize (e : RegisterEntry) : ℕ :=
  match e.rloc.address with
  | some addr => 6 + (afiAddress (some addr)).length
  | none => 0

/-- The size of the locators with the paths of an entry. -/
def pathsSize (e : RegisterEntry) : ℕ :=
  match e.rloc.address, e.pe with
  | some addr, some pes =>
      (pes.map fun pe =>
        14 + ((pe.hop.map fun he => hopSize he.addr).sum + hopSize addr)).sum
  | _, _ => locatorSize e

/-- Both messages fit their arrays, paths that are written have hops, no EID has more
RLOCs than a byte counts, and where paths are counted an EID has as many of them as
RLOCs, modulo 256. -/
structure Countable (ms : MsEntry) : Prop where
  message_le : sizeofMapRegisterHdr + authDataLength +
    (ms.eids.map fun eid => recordSize eid.p + (eid.info.map locatorSize).sum).sum ≤
      pkmsize
  paths_le : (lispTe && fncXtr) = true →
    sizeofMapRegisterHdr + authDataLength +
      ((ms.eids.flatMap fun eid => eid.info).map pathsSize).sum ≤ pkbuflen
  haveHops : (lispTe && fncXtr) = true →
    ∀ eid ∈ ms.eids, ∀ e ∈ eid.info, pathsHaveHops e = true
  length_lt : ∀ eid ∈ ms.eids, eid.info.length < 256
  countPaths_eq : (ms.proxy && lispTe && fncXtr) = true →
    ∀ eid ∈ ms.eids, countPaths eid.info % 256 = eid.info.length

end Process

theorem length_entryBytes (e : RegisterEntry) :
    (entryBytes e.toReplyEntry).length = locatorSize e := by
  rw [entryBytes, locatorSize]
  cases e.rloc.address with
  | none => rfl
  | some addr => simp [plainLocatorBytes]; omega

theorem length_pathLocatorBytes (e : ReplyEntry) (addr : Address) (pe : PeEntry) :
    (pathLocatorBytes e addr pe).length =
      14 + ((pe.hop.map fun he => hopSize he.addr).sum + hopSize addr) := by
  simp only [pathLocatorBytes, List.length_append, List.length_cons, List.length_nil,
    Mem.length_be16Bytes, List.length_flatMap, length_hopBytes]
  omega

/-- The locators with their paths. -/
theorem length_locatorEntries {lispTe fncXtr : Bool} (h : (lispTe && fncXtr) = true)
    {e : RegisterEntry} {addr : Address} (haddr : e.rloc.address = some addr) :
    (locatorEntries lispTe fncXtr e addr true).flatten.length = pathsSize e := by
  have hpaths : (fncXtr && lispTe && true) = true := by
    rw [Bool.and_true, Bool.and_comm]
    exact h
  rw [locatorEntries, pathsSize, haddr]
  cases e.pe with
  | none =>
      dsimp only
      rw [List.flatten_singleton, ← entryBytes_eq haddr, length_entryBytes]
  | some pes =>
      simp only [hpaths, ↓reduceIte, List.length_flatten, List.map_map]
      congr 1
      exact List.map_congr_left fun pe _ => length_pathLocatorBytes _ _ pe

theorem addLocators_paths {lispTe fncXtr : Bool} (h : (lispTe && fncXtr) = true)
    {info : List RegisterEntry} (haddr : ∀ e ∈ info, e.rloc.address.isSome = true)
    (hhops : ∀ e ∈ info, pathsHaveHops e = true) (rpk : RplEntry) :
    ∃ rpk', addLocators lispTe fncXtr true info rpk = some rpk' ∧
      rpk'.body.length = rpk.body.length + (info.map pathsSize).sum := by
  induction info generalizing rpk with
  | nil => exact ⟨rpk, rfl, rfl⟩
  | cons e info ih =>
      obtain ⟨addr, hsome⟩ := Option.isSome_iff_exists.mp (haddr e List.mem_cons_self)
      have hread : ¬((fncXtr && lispTe && true) = true ∧ pathsHaveHops e = false) := by
        rw [hhops e List.mem_cons_self]
        exact fun hnull => Bool.noConfusion hnull.2
      obtain ⟨rpk', hrest, hlength⟩ :=
        ih (fun e' he' => haddr e' (List.mem_cons_of_mem _ he'))
          (fun e' he' => hhops e' (List.mem_cons_of_mem _ he'))
          { rpk with body :=
              rpk.body ++ (locatorEntries lispTe fncXtr e addr true).flatten }
      refine ⟨rpk', ?_, ?_⟩
      · rw [addLocators, udpRegisterAddLocator, if_neg hread, hsome, Option.map_some,
          Option.bind_some, hrest]
      · rw [hlength, List.length_append, length_locatorEntries h hsome, List.map_cons,
          List.sum_cons, Nat.add_assoc]

/-- A path without hops ends the loop. -/
theorem addLocators_eq_none {lispTe fncXtr : Bool} (h : (lispTe && fncXtr) = true)
    {info : List RegisterEntry} {e : RegisterEntry} (he : e ∈ info)
    (hhops : pathsHaveHops e = false) (rpk : RplEntry) :
    addLocators lispTe fncXtr true info rpk = none := by
  induction info generalizing rpk with
  | nil => exact absurd he List.not_mem_nil
  | cons e' info ih =>
      rw [addLocators, Option.bind_eq_none_iff]
      intro rpk' hrpk'
      rcases List.mem_cons.mp he with rfl | hmem
      · rw [Bool.and_comm] at h
        rw [udpRegisterAddLocator, if_pos ⟨by rw [h, Bool.and_true], hhops⟩] at hrpk'
        cases hrpk'
      · exact ih hmem rpk'

/-! ## What is written -/

section Written

variable {lispTe fncXtr proxy : Bool}

/-- The record of an EID and its locators. -/
def eidBytes (lispTe fncXtr proxy : Bool) (eid : RegisterEid) : List UInt8 :=
  recordBytes eid.p eid.ttl (.ofNat (declaredCount lispTe fncXtr proxy eid)) eid.version
      eid.A eid.act ++
    (eid.info.map (·.toReplyEntry)).flatMap entryBytes

theorem length_recordBytes (p : Prefix) (ttl version : UInt32) (lcount A act : UInt8) :
    (recordBytes p ttl lcount version A act).length = recordSize p := by
  simp [recordBytes, recordSize]
  omega

theorem length_eidBytes (eid : RegisterEid) :
    (eidBytes lispTe fncXtr proxy eid).length =
      recordSize eid.p + (eid.info.map locatorSize).sum := by
  simp only [eidBytes, List.length_append, length_recordBytes, List.length_flatMap,
    List.map_map, Function.comp_def, length_entryBytes]

/-- The locators written for a record are plain ones. -/
theorem recordLocators_eq (eid : RegisterEid) :
    recordLocators lispTe fncXtr eid.info =
      eid.info.map fun e => entryBytes e.toReplyEntry := by
  have hplain : ∀ info : List RegisterEntry,
      (∀ e ∈ info, e.rloc.address.isSome = true) →
      recordLocators lispTe fncXtr info =
        info.map fun e => entryBytes e.toReplyEntry := by
    intro info haddr
    induction info with
    | nil => rfl
    | cons e info ih =>
        obtain ⟨addr, hsome⟩ := Option.isSome_iff_exists.mp (haddr e List.mem_cons_self)
        have hentries : locatorEntries lispTe fncXtr e addr false =
            [entryBytes e.toReplyEntry] := by
          rw [locatorEntries, entryBytes_eq hsome, Bool.and_false]
          cases e.pe <;> simp
        have hrest := ih fun e' he' => haddr e' (List.mem_cons_of_mem _ he')
        rw [recordLocators] at hrest ⊢
        rw [List.flatMap_cons, hrest, hsome, Option.map_some, Option.getD_some, hentries]
        rfl
  exact hplain eid.info eid.address_isSome

theorem registerEids_eq (eids : List RegisterEid) {rpk : RplEntry}
    (h : rpk.requestProbe = none) :
    registerEids lispTe fncXtr proxy eids rpk =
      some { rpk with
        recordCount := rpk.recordCount + .ofNat eids.length
        body := rpk.body ++ eids.flatMap (eidBytes lispTe fncXtr proxy) } := by
  induction eids generalizing rpk with
  | nil => simp [registerEids]
  | cons eid eids ih =>
      rw [registerEids, addLocators_eq (by simp) eid.address_isSome, Option.bind_some,
        ih (by exact h)]
      simp [udpReplyAddRecord, eidBytes, h, Nat.add_comm eids.length, UInt8.add_assoc]

/-- The second message is made when all paths have hops. -/
theorem registerPaths_eq {lispTe fncXtr : Bool} {eids : List RegisterEid}
    (hhops : (lispTe && fncXtr) = true →
      ∀ eid ∈ eids, ∀ e ∈ eid.info, pathsHaveHops e = true) :
    ∃ rpkEx, registerPaths lispTe fncXtr eids = some rpkEx ∧
      rpkEx.body.length =
        if lispTe && fncXtr then
          ((eids.flatMap fun eid => eid.info).map pathsSize).sum
        else 0 := by
  rw [registerPaths]
  cases hpaths : lispTe && fncXtr with
  | false => exact ⟨udpRegisterAdd, rfl, rfl⟩
  | true =>
      have haddr : ∀ e ∈ eids.flatMap fun eid => eid.info,
          e.rloc.address.isSome = true := by
        intro e he
        obtain ⟨eid, -, hmem⟩ := List.mem_flatMap.mp he
        exact eid.address_isSome e hmem
      have hall : ∀ e ∈ eids.flatMap fun eid => eid.info, pathsHaveHops e = true := by
        intro e he
        obtain ⟨eid, heid, hmem⟩ := List.mem_flatMap.mp he
        exact hhops hpaths eid heid e hmem
      obtain ⟨rpkEx, hrpk, hlength⟩ := addLocators_paths hpaths haddr hall udpRegisterAdd
      refine ⟨rpkEx, hrpk, ?_⟩
      rw [hlength]
      simp [udpRegisterAdd]

theorem registerPaths_eq_none {lispTe fncXtr : Bool} {eids : List RegisterEid}
    (hhops : ¬((lispTe && fncXtr) = true →
      ∀ eid ∈ eids, ∀ e ∈ eid.info, pathsHaveHops e = true)) :
    registerPaths lispTe fncXtr eids = none := by
  push Not at hhops
  obtain ⟨hpaths, eid, heid, e, he, hnone⟩ := hhops
  rw [registerPaths, if_pos hpaths]
  exact addLocators_eq_none hpaths (List.mem_flatMap.mpr ⟨eid, heid, he⟩)
    (Bool.eq_false_iff.mpr hnone) udpRegisterAdd

end Written

/-! ## What is walked over -/

section Walk

variable {lispTe fncXtr proxy : Bool} {db : LispDb} {m : Mem}

theorem locatorLen_of_holds {e : ReplyEntry} {addr : Address}
    (haddr : e.rloc.address = some addr) (h : m.Holds (plainLocatorBytes e addr)) :
    locatorLen m = some (plainLocatorBytes e addr).length := by
  obtain ⟨hread, hsize, hafi, -⟩ := locator_of_holds haddr h
  rw [locatorLen]
  simp only [hafi, ↓reduceIte, hread, Option.map_some, hsize]

theorem locatorsLen_of_holds {es : List ReplyEntry}
    (haddr : ∀ e ∈ es, e.rloc.address.isSome = true)
    (h : m.Holds (es.flatMap entryBytes)) :
    locatorsLen es.length m = some (es.flatMap entryBytes).length := by
  induction es generalizing m with
  | nil => rfl
  | cons e es ih =>
      obtain ⟨addr, hsome⟩ := Option.isSome_iff_exists.mp (haddr e List.mem_cons_self)
      have hbytes := entryBytes_eq hsome
      rw [List.flatMap_cons, hbytes, Mem.holds_append] at h
      have hrest := ih (fun e' he' => haddr e' (List.mem_cons_of_mem _ he')) h.2
      rw [List.length_cons, locatorsLen, locatorLen_of_holds hsome h.1]
      dsimp only
      rw [hrest, Option.map_some, List.flatMap_cons, hbytes, List.length_append]

/-- A record with the right count is walked over. -/
theorem msValidateEid_of_holds {eid : RegisterEid} {site : ℕ}
    (hcount : declaredCount lispTe fncXtr proxy eid % 256 = eid.info.length)
    (hsite : siteOf db eid.p = some site)
    (h : m.Holds (eidBytes lispTe fncXtr proxy eid)) :
    msValidateEid db m = some (site, (eidBytes lispTe fncXtr proxy eid).length) := by
  rw [eidBytes, Mem.holds_append] at h
  obtain ⟨hread, hsize, h4, h5, -⟩ := recordBytes_of_holds h.1
  have hlcount : (m 4).toNat = (eid.info.map (·.toReplyEntry)).length := by
    rw [h4, UInt8.toNat_ofNat', List.length_map]
    exact hcount
  have haddr : ∀ e ∈ eid.info.map (·.toReplyEntry), e.rloc.address.isSome = true := by
    simpa using eid.address_isSome
  rw [msValidateEid, hread]
  dsimp only
  rw [hsize, hlcount, locatorsLen_of_holds haddr h.2, h5]
  dsimp only
  rw [hsite, Option.map_some, eidBytes, List.length_append]

/-- The walk over records with the right counts. -/
theorem walkLen_of_holds {eids : List RegisterEid}
    (hcount : ∀ eid ∈ eids,
      declaredCount lispTe fncXtr proxy eid % 256 = eid.info.length)
    (hsite : ∀ eid ∈ eids, (siteOf db eid.p).isSome = true)
    (h : m.Holds (eids.flatMap (eidBytes lispTe fncXtr proxy))) :
    walkLen db eids.length m =
      some (eids.flatMap (eidBytes lispTe fncXtr proxy)).length := by
  induction eids generalizing m with
  | nil => rfl
  | cons eid eids ih =>
      rw [List.flatMap_cons, Mem.holds_append] at h
      obtain ⟨site, hsome⟩ := Option.isSome_iff_exists.mp (hsite eid List.mem_cons_self)
      have hvalid := msValidateEid_of_holds (hcount eid List.mem_cons_self) hsome h.1
      have hrest := ih (fun eid' he' => hcount eid' (List.mem_cons_of_mem _ he'))
        (fun eid' he' => hsite eid' (List.mem_cons_of_mem _ he')) h.2
      rw [List.length_cons, walkLen, hvalid]
      dsimp only
      rw [hrest, Option.map_some, List.flatMap_cons, List.length_append]

/-- The counts in the message are those of the locators exactly when the numbers
made for them are. -/
theorem countsAgree_iff {eids : List RegisterEid}
    (h : m.Holds (eids.flatMap (eidBytes lispTe fncXtr proxy))) :
    CountsAgree lispTe fncXtr eids m ↔
      ∀ eid ∈ eids, declaredCount lispTe fncXtr proxy eid % 256 = eid.info.length := by
  induction eids generalizing m with
  | nil => simp [CountsAgree]
  | cons eid eids ih =>
      rw [List.flatMap_cons, Mem.holds_append] at h
      obtain ⟨heid, hrest⟩ := h
      rw [eidBytes, Mem.holds_append] at heid
      obtain ⟨-, -, h4, -⟩ := recordBytes_of_holds heid.1
      have hsize : recordSize eid.p +
          (recordLocators lispTe fncXtr eid.info).flatten.length =
            (eidBytes lispTe fncXtr proxy eid).length := by
        rw [recordLocators_eq, length_eidBytes, List.length_flatten, List.map_map]
        simp [Function.comp_def, length_entryBytes]
      rw [CountsAgree, hsize, ih hrest, h4, UInt8.toNat_ofNat', recordLocators_eq,
        List.length_map, List.forall_mem_cons]

end Walk

/-! ## The message that is sent -/

section Sent

variable {lispTe fncXtr : Bool} {ms : MsEntry}

/-- The records of all EIDs. -/
def messageBody (lispTe fncXtr : Bool) (ms : MsEntry) : List UInt8 :=
  ms.eids.flatMap (eidBytes lispTe fncXtr ms.proxy)

theorem length_messageBody (lispTe fncXtr : Bool) (ms : MsEntry) :
    (messageBody lispTe fncXtr ms).length =
      (ms.eids.map fun eid => recordSize eid.p + (eid.info.map locatorSize).sum).sum := by
  simp only [messageBody, List.length_flatMap, length_eidBytes]

/-- Every record takes sixteen bytes at least. -/
theorem length_eids_le (lispTe fncXtr : Bool) (ms : MsEntry) :
    ms.eids.length * 16 ≤ (messageBody lispTe fncXtr ms).length := by
  have hrecord : ∀ eid : RegisterEid, 16 ≤ (eidBytes lispTe fncXtr ms.proxy eid).length := by
    intro eid
    rw [length_eidBytes, recordSize]
    cases eid.p.addr with
    | inet addr => simp [afiAddress]
    | inet6 addr => simp [afiAddress]; omega
  rw [messageBody]
  induction ms.eids with
  | nil => simp
  | cons eid eids ih =>
      rw [List.flatMap_cons, List.length_append, List.length_cons]
      have heid := hrecord eid
      omega

/-- A message that fits has no more records than its header counts. -/
theorem toNat_length_eids (h : sizeofMapRegisterHdr + authDataLength +
    (messageBody lispTe fncXtr ms).length ≤ pkmsize) :
    (UInt8.ofNat ms.eids.length).toNat = ms.eids.length := by
  have hsixteen := length_eids_le lispTe fncXtr ms
  rw [sizeofMapRegisterHdr, authDataLength, pkmsize] at h
  rw [UInt8.toNat_ofNat']
  exact Nat.mod_eq_of_lt (by omega)

/-- The process sends the message exactly when both messages fit, and paths that are
written have hops. -/
theorem generalRegisterProcess_eq (hmac : Hmac) (wantMapNotify : Bool) (nonce : UInt64) :
    generalRegisterProcess lispTe fncXtr hmac wantMapNotify nonce ms =
      if sizeofMapRegisterHdr + authDataLength +
            (messageBody lispTe fncXtr ms).length ≤ pkmsize ∧
          ((lispTe && fncXtr) = true → sizeofMapRegisterHdr + authDataLength +
            ((ms.eids.flatMap fun eid => eid.info).map pathsSize).sum ≤ pkbuflen) ∧
          ((lispTe && fncXtr) = true →
            ∀ eid ∈ ms.eids, ∀ e ∈ eid.info, pathsHaveHops e = true) then
        some (registerBytes hmac ms wantMapNotify nonce
          ⟨.ofNat ms.eids.length, false, none, messageBody lispTe fncXtr ms⟩)
      else none := by
  have heids : registerEids lispTe fncXtr ms.proxy ms.eids udpRegisterAdd =
      some ⟨.ofNat ms.eids.length, false, none, messageBody lispTe fncXtr ms⟩ := by
    rw [registerEids_eq ms.eids rfl]
    simp [udpRegisterAdd, messageBody]
  rw [generalRegisterProcess, heids]
  by_cases hhops : (lispTe && fncXtr) = true →
      ∀ eid ∈ ms.eids, ∀ e ∈ eid.info, pathsHaveHops e = true
  · obtain ⟨rpkEx, hpaths, hlength⟩ := registerPaths_eq hhops
    rw [hpaths]
    dsimp only
    refine if_congr ?_ rfl rfl
    rw [registerLen, registerLen, hlength, and_iff_left hhops]
    cases hte : lispTe && fncXtr with
    | false => simp [sizeofMapRegisterHdr, authDataLength, pkbuflen]
    | true => simp
  · rw [registerPaths_eq_none hhops, if_neg fun h => hhops h.2.2]

theorem length_registerBytes (hmac : Hmac) (wantMapNotify : Bool) (nonce : UInt64)
    (rpk : RplEntry) :
    (registerBytes hmac ms wantMapNotify nonce rpk).length =
      sizeofMapRegisterHdr + authDataLength + rpk.body.length := by
  simp [registerBytes, registerHdr, sizeofMapRegisterHdr, authDataLength]
  omega

/-- The header of a Map-Register, and its records. -/
theorem registerBytes_of_holds {hmac : Hmac} {wantMapNotify : Bool} {nonce : UInt64}
    {rpk : RplEntry} {buf : Mem}
    (h : buf.Holds (registerBytes hmac ms wantMapNotify nonce rpk)) :
    buf 3 = rpk.recordCount ∧ buf.be16 14 = authDataLength ∧
      (buf.advance (sizeofMapRegisterHdr + authDataLength)).Holds rpk.body := by
  rw [registerBytes, registerHdr] at h
  simp only [Mem.holds_append, Mem.advance_advance, List.length_append, List.length_cons,
    List.length_nil, Mem.length_be32Bytes, Vector.length_toList] at h
  obtain ⟨⟨hhead, -, -, hlengths⟩, -, hbody⟩ := h
  refine ⟨hhead 3 (by simp), ?_, hbody⟩
  have h14 : buf 14 = 0 := hlengths 2 (by simp)
  have h15 : buf 15 = 20 := hlengths 3 (by simp)
  rw [Mem.be16, h14, h15]
  rfl

/-- The numbers made for the locator counts, by the configuration. -/
theorem declaredCounts_iff (lispTe fncXtr proxy : Bool) (eids : List RegisterEid) :
    (∀ eid ∈ eids, declaredCount lispTe fncXtr proxy eid % 256 = eid.info.length) ↔
      (∀ eid ∈ eids, eid.info.length < 256) ∧
        ((proxy && lispTe && fncXtr) = true →
          ∀ eid ∈ eids, countPaths eid.info % 256 = eid.info.length) := by
  simp only [declaredCount]
  cases hpaths : proxy && lispTe && fncXtr with
  | false =>
      constructor
      · intro h
        refine ⟨fun eid heid => ?_, nofun⟩
        have hcount := h eid heid
        simp only [Bool.false_eq_true, ↓reduceIte] at hcount
        omega
      · intro h eid heid
        simpa using Nat.mod_eq_of_lt (h.1 eid heid)
  | true =>
      simp only [↓reduceIte, true_imp_iff]
      refine ⟨fun h => ⟨fun eid heid => ?_, h⟩, fun h => h.2⟩
      have hcount := h eid heid
      omega

/-- A message that can be walked over fits, and its counts are right. -/
theorem SendsWalkable.countable (h : SendsWalkable lispTe fncXtr ms) :
    Countable lispTe fncXtr ms := by
  obtain ⟨msg, hsent, hwalk⟩ := h (fun _ _ => Vector.replicate 20 0) false 0
  rw [generalRegisterProcess_eq] at hsent
  split at hsent
  next hfits =>
    obtain rfl := Option.some_inj.mp hsent
    have hholds := Mem.holds_ofList (registerBytes (fun _ _ => Vector.replicate 20 0) ms
      false 0 ⟨.ofNat ms.eids.length, false, none, messageBody lispTe fncXtr ms⟩)
      fun _ => 0
    obtain ⟨-, hauth, hbody⟩ := registerBytes_of_holds hholds
    have hcounts := (hwalk _ hholds).1
    rw [hauth, countsAgree_iff hbody] at hcounts
    have hmessage := hfits.1
    rw [length_messageBody] at hmessage
    obtain ⟨hlength, hpaths⟩ := (declaredCounts_iff ..).mp hcounts
    exact ⟨hmessage, hfits.2.1, hfits.2.2, hlength, hpaths⟩
  · cases hsent

end Sent

/-- The Map-Register of an xTR can be walked over to its end exactly when it fits,
the RLOCs of an EID can be counted, and its paths, where they are counted, are as many. -/
theorem sendsWalkable_iff_countable (lispTe fncXtr : Bool) (ms : MsEntry) :
    SendsWalkable lispTe fncXtr ms ↔ Countable lispTe fncXtr ms := by
  constructor
  · exact SendsWalkable.countable
  · intro h hmac wantMapNotify nonce
    have hmessage := h.message_le
    rw [← length_messageBody lispTe fncXtr] at hmessage
    refine ⟨_, by rw [generalRegisterProcess_eq, if_pos ⟨hmessage, h.paths_le, h.haveHops⟩],
      fun buf hholds => ?_⟩
    obtain ⟨hcount, hauth, hbody⟩ := registerBytes_of_holds hholds
    have hdeclared := (declaredCounts_iff ..).mpr ⟨h.length_lt, h.countPaths_eq⟩
    dsimp only
    rw [hauth]
    refine ⟨(countsAgree_iff hbody).mpr hdeclared, fun db hsite => ?_⟩
    have hrecords : (buf 3).toNat = ms.eids.length := by
      rw [hcount]
      exact toNat_length_eids hmessage
    rw [hrecords, walkLen_of_holds hdeclared hsite hbody, Option.map_some,
      length_registerBytes]
    rfl

/-- A hop to 198.51.100.8 or one of its neighbours. -/
def pathTestNet (last : UInt8) : PeEntry :=
  ⟨1, 50, 255, 0, false, false, false, [⟨false, false, true, .inet #v[198, 51, 100, last]⟩]⟩

/-- 192.0.2.0/24, with an RLOC that is reached over the given paths. -/
def pathsEid (pes : List PeEntry) : RegisterEid where
  p := eidTestNet
  ttl := 60
  version := 0
  A := 1
  act := 0
  info := [⟨rlocTestNet, some pes⟩]
  address_isSome := by simp [rlocTestNet, addressSockUnion, SockUnion.address]

/-- 192.0.2.0/24, with an RLOC that is reached over two paths. -/
def twoPathsEid : RegisterEid :=
  pathsEid [pathTestNet 8, pathTestNet 9]

/-- With proxy replies the record of one RLOC with two paths announces two
locators. -/
theorem not_sendsWalkable_two_paths :
    ¬ ∀ lispTe fncXtr ms, SendsWalkable lispTe fncXtr ms := by
  intro h
  have hcountable := (h true true ⟨[], true, [twoPathsEid]⟩).countable
  exact absurd (hcountable.countPaths_eq rfl twoPathsEid List.mem_cons_self) (by decide)

-- A path without hops stops the process, with or without proxy replies.
example : generalRegisterProcess true true (fun _ _ => Vector.replicate 20 0) false 0
    ⟨[], false, [pathsEid [{ pathTestNet 8 with hop := [] }]]⟩ = none := by
  rfl

end HyLisp.ControlPlane
