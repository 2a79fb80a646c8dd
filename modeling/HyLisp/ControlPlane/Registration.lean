import HyLisp.ControlPlane.RegisteredAnswers
import HyLisp.ControlPlane.SubtreeReply

/-!
# Registration of an xTR

The Map-Register of an xTR that shares the key of a site, and whose EIDs are delegated to
this site, is accepted by the Map-Server, which then holds the mappings that the xTR is
configured with, apart from their versions and paths.
-/

namespace HyLisp.ControlPlane

open DataPlane Transition

/-! ## Mappings of a configuration -/

/-- The fields of a mapping fit theirs in a record, and its RLOCs have addresses of their
own. -/
structure RegisterEid.Fits (eid : RegisterEid) : Prop where
  version_lt : eid.version.toNat < 4096
  A_eq : eid.A = 0 ∨ eid.A = 1
  act_lt : eid.act < 8
  distinct : (eid.info.map fun e => e.rloc.address).Nodup

/-- The mapping of an EID as it is written to a Map-Register. -/
def RegisterEid.written (eid : RegisterEid) : WrittenMapping where
  eid := eid.p
  ttl := eid.ttl
  version := eid.version
  A := eid.A ≠ 0
  info := eid.info.map fun e => ⟨e.toReplyEntry, none⟩

/-- What a Map-Server gets of it: the version is lost, and so are the paths, and the
action where there are RLOCs. -/
def RegisterEid.registered (proxy : Bool) (eid : RegisterEid) : RegisterMapping where
  eid := eid.p
  flags := ⟨if eid.info.length = 0 then eid.act else 0, eid.A ≠ 0, 0, eid.ttl.toNat⟩
  proxy := proxy
  info := eid.info.map fun e => ⟨e.toReplyEntry.bare, none⟩

section Records

variable {lispTe fncXtr proxy : Bool} {eid : RegisterEid} {cfg : RegisterConfig} {m : Mem}

theorem RegisterEid.Fits.isPlain (h : eid.Fits) (hlength : eid.info.length < 256) :
    eid.written.IsPlain where
  version_lt := h.version_lt
  length_le := by
    rw [RegisterEid.written, List.length_map]
    exact Nat.le_of_lt_succ hlength
  address_isSome := by
    intro e he
    obtain ⟨e', he', rfl⟩ := List.mem_map.mp he
    exact eid.address_isSome e' he'
  pe_eq_none := by
    intro e he
    obtain ⟨e', -, rfl⟩ := List.mem_map.mp he
    rfl
  distinct := by
    rw [RegisterEid.written, List.map_map]
    exact h.distinct

/-- With the right count, the record of an EID is that of a plain mapping. -/
theorem RegisterEid.Fits.eidBytes_eq (h : eid.Fits)
    (hcount : declaredCount lispTe fncXtr proxy eid % 256 = eid.info.length) :
    eidBytes lispTe fncXtr proxy eid = eid.written.toBytes eid.act := by
  have hlcount : UInt8.ofNat (declaredCount lispTe fncXtr proxy eid) =
      UInt8.ofNat eid.info.length := by
    rw [← UInt8.toNat_inj, UInt8.toNat_ofNat', UInt8.toNat_ofNat', ← hcount]
    exact (Nat.mod_mod _ _).symm
  have hA : (if eid.written.A = true then 1 else 0) = eid.A := by
    change (if decide (eid.A ≠ 0) = true then 1 else 0) = eid.A
    rcases h.A_eq with hzero | hone
    · rw [hzero]
      rfl
    · rw [hone]
      rfl
  rw [eidBytes, WrittenMapping.toBytes, hlcount, hA]
  simp only [RegisterEid.written, List.length_map, List.map_map]
  rfl

/-- A record of the Map-Register is processed as the mapping of its EID. -/
theorem RegisterEid.Fits.msProcessRegisterRecord_eq (h : eid.Fits)
    (hcount : declaredCount lispTe fncXtr proxy eid % 256 = eid.info.length)
    (hrec : m.Holds (eidBytes lispTe fncXtr proxy eid)) :
    msProcessRegisterRecord cfg m =
      ((eidBytes lispTe fncXtr proxy eid).length,
        some (eid.registered cfg.proxyMapRepl)) := by
  have hlength : eid.info.length < 256 := by
    rw [← hcount]
    exact Nat.mod_lt _ (by decide)
  rw [h.eidBytes_eq hcount] at hrec ⊢
  rw [msProcessRegisterRecord_of_holds (h.isPlain hlength) hrec cfg]
  rw [WrittenMapping.toBytes, Mem.holds_append] at hrec
  obtain ⟨-, -, -, -, h6, -, -⟩ := recordBytes_of_holds hrec.1
  have hzero : UInt8.ofNat eid.written.info.length = 0 ↔ eid.info.length = 0 := by
    rw [RegisterEid.written, List.length_map, ← UInt8.toNat_inj, UInt8.toNat_ofNat',
      Nat.mod_eq_of_lt hlength]
    rfl
  have hact : m 6 >>> 5 = if eid.info.length = 0 then eid.act else 0 := by
    rw [h6, actByte_act h.act_lt]
    exact if_congr hzero rfl rfl
  rw [writtenFlags, hact]
  simp only [RegisterEid.written, RegisterEid.registered, List.map_map]
  rfl

/-- The loop of `_register` over the records of an xTR. -/
theorem registerRecords_of_holds {eids : List RegisterEid} (hfits : ∀ eid ∈ eids, eid.Fits)
    (hcount : ∀ eid ∈ eids, declaredCount lispTe fncXtr proxy eid % 256 = eid.info.length)
    (h : m.Holds (eids.flatMap (eidBytes lispTe fncXtr proxy))) :
    (registerRecords cfg eids.length m).filterMap Prod.snd =
      eids.map (RegisterEid.registered cfg.proxyMapRepl) := by
  induction eids generalizing m with
  | nil => rfl
  | cons eid eids ih =>
      rw [List.flatMap_cons, Mem.holds_append] at h
      have heid : msProcessRegisterRecord cfg m = _ :=
        (hfits eid List.mem_cons_self).msProcessRegisterRecord_eq
          (hcount eid List.mem_cons_self) h.1
      have hrest := ih (fun eid' he' => hfits eid' (List.mem_cons_of_mem _ he'))
        (fun eid' he' => hcount eid' (List.mem_cons_of_mem _ he')) h.2
      rw [List.length_cons, registerRecords, heid]
      exact congrArg (List.cons _) hrest

end Records

/-! ## The message at the Map-Server -/

section Message

variable {lispTe fncXtr : Bool} {hmac : Hmac} {ms : MsEntry} {wantMapNotify : Bool}
  {nonce : UInt64} {rpk : RplEntry} {buf : Mem} {db : LispDb} {site : ℕ}

/-- All records are of the site that owns all EIDs. -/
theorem recordsOwned_of_holds {proxy : Bool} {eids : List RegisterEid} {m : Mem}
    (hcount : ∀ eid ∈ eids, declaredCount lispTe fncXtr proxy eid % 256 = eid.info.length)
    (howned : ∀ eid ∈ eids, siteOf db eid.p = some site)
    (h : m.Holds (eids.flatMap (eidBytes lispTe fncXtr proxy))) :
    RecordsOwned db eids.length m site := by
  induction eids generalizing m with
  | nil => trivial
  | cons eid eids ih =>
      rw [List.flatMap_cons, Mem.holds_append] at h
      exact ⟨_, msValidateEid_of_holds (hcount eid List.mem_cons_self)
          (howned eid List.mem_cons_self) h.1,
        ih (fun eid' he' => hcount eid' (List.mem_cons_of_mem _ he'))
          (fun eid' he' => howned eid' (List.mem_cons_of_mem _ he')) h.2⟩

/-- The authentication field is the hash of the message without it. -/
theorem hash_of_holds (h : buf.Holds (registerBytes hmac ms wantMapNotify nonce rpk)) :
    HasHashField buf (registerBytes hmac ms wantMapNotify nonce rpk).length ∧
      buf.bytes sizeofMapRegisterHdr 20 =
        fieldHash hmac buf (registerBytes hmac ms wantMapNotify nonce rpk).length 20
          ms.key := by
  obtain ⟨-, hauth, -⟩ := registerBytes_of_holds h
  refine ⟨⟨hauth, ?_⟩, ?_⟩
  · rw [length_registerBytes]
    exact Nat.le_add_right _ _
  · rw [registerBytes] at h ⊢
    have hhdr : (registerHdr ms.proxy wantMapNotify rpk.recordCount nonce).length =
        sizeofMapRegisterHdr := rfl
    have hzero := Mem.toList_of_holds h.zero
    obtain ⟨-, hrest⟩ := Mem.holds_append.mp h
    rw [hhdr, Vector.length_toList] at hzero
    rw [hhdr] at hrest
    rw [Mem.bytes_of_holds (Mem.holds_append.mp hrest).1, fieldHash]
    congr 1
    rw [authDataLength, ← hzero]
    simp only [List.length_append, List.length_replicate, Vector.length_toList]

/-- A Map-Server asks for proxy replies if the configuration does. -/
theorem proxyMapRepl_of_holds {lispTe' : Bool}
    (h : buf.Holds (registerBytes hmac ms wantMapNotify nonce rpk)) :
    (registerConfig lispTe' buf).proxyMapRepl = ms.proxy := by
  have h0 : buf 0 = if ms.proxy then 0x38 else 0x30 := h 0 (by simp [registerBytes, registerHdr])
  rw [registerConfig, h0]
  cases ms.proxy with
  | false => rfl
  | true => rfl

/-- An authenticated message is accepted, or stored already. -/
theorem Authenticated.accepted {s : MsState} {packet : Mem} {pkgLen : ℕ}
    (h : Authenticated hmac s packet pkgLen site) (uninit : RegisterUninit) :
    let validation := msValidateRegister hmac uninit s packet pkgLen
    validation.site = some site ∧
      validation.rt = if isRegistered hmac uninit s packet pkgLen site then 0 else 1 := by
  have hsame : compareField hmac uninit packet pkgLen (s.sites site).key = 0 := by
    rw [compareField_of_hasHashField h.hasHashField]
    exact Mem.strncmp_eq_zero_iff.mpr (Or.inl (agree_hash_iff.mpr h.field_eq))
  rcases msValidateRegister_cases hmac uninit s packet pkgLen with
    ⟨hnone, -⟩ | ⟨site', howns, ⟨hstored, heq⟩ | ⟨-, hdiffer, -⟩ | ⟨hnew, -, s', heq⟩⟩
  · exact absurd h.owns (hnone site)
  · obtain rfl := howns.unique h.owns
    rw [heq, hstored]
    exact ⟨rfl, rfl⟩
  · obtain rfl := howns.unique h.owns
    exact absurd hsame hdiffer
  · obtain rfl := howns.unique h.owns
    rw [heq, hnew]
    exact ⟨rfl, rfl⟩

end Message

/-! ## Registrations of an xTR -/

/-- An xTR has EIDs, all of which are delegated to the site, and the key of the site; they
can be counted, and fit their records. -/
structure MsEntry.IsSite (lispTe fncXtr : Bool) (ms : MsEntry) (s : MsState) (site : ℕ) :
    Prop where
  eids_ne_nil : ms.eids ≠ []
  countable : Countable lispTe fncXtr ms
  fits : ∀ eid ∈ ms.eids, eid.Fits
  owned : ∀ eid ∈ ms.eids, siteOf s.db eid.p = some site
  key_eq : (s.sites site).key = ms.key

section Registration

variable {lispTe fncXtr lispTe' : Bool} {ms : MsEntry} {s : MsState} {site : ℕ} {hmac : Hmac}
  {wantMapNotify : Bool} {nonce : UInt64} {msg : List UInt8} {buf : Mem}

/-- The message is sent. -/
theorem MsEntry.IsSite.sends (h : ms.IsSite lispTe fncXtr s site) (hmac : Hmac)
    (wantMapNotify : Bool) (nonce : UInt64) :
    generalRegisterProcess lispTe fncXtr hmac wantMapNotify nonce ms =
      some (registerBytes hmac ms wantMapNotify nonce
        ⟨.ofNat ms.eids.length, false, none, messageBody lispTe fncXtr ms⟩) := by
  have hmessage := h.countable.message_le
  rw [← length_messageBody lispTe fncXtr] at hmessage
  rw [generalRegisterProcess_eq, if_pos ⟨hmessage, h.countable.paths_le, h.countable.haveHops⟩]

/-- The records are those of the EIDs. -/
theorem MsEntry.IsSite.records (h : ms.IsSite lispTe fncXtr s site)
    (hsent : generalRegisterProcess lispTe fncXtr hmac wantMapNotify nonce ms = some msg)
    (hholds : buf.Holds msg) :
    (buf 3).toNat = ms.eids.length ∧ buf.be16 14 = authDataLength ∧
      (recordsOf buf).Holds (messageBody lispTe fncXtr ms) := by
  rw [h.sends, Option.some_inj] at hsent
  rw [← hsent] at hholds
  obtain ⟨hcount, hauth, hbody⟩ := registerBytes_of_holds hholds
  rw [recordsOf, hauth]
  refine ⟨?_, rfl, hbody⟩
  have hmessage := h.countable.message_le
  rw [← length_messageBody lispTe fncXtr] at hmessage
  rw [hcount]
  exact toNat_length_eids hmessage

theorem MsEntry.IsSite.declared (h : ms.IsSite lispTe fncXtr s site) :
    ∀ eid ∈ ms.eids, declaredCount lispTe fncXtr ms.proxy eid % 256 = eid.info.length :=
  (declaredCounts_iff ..).mpr ⟨h.countable.length_lt, h.countable.countPaths_eq⟩

/-- The message is authenticated for the site. -/
theorem MsEntry.IsSite.authenticated (h : ms.IsSite lispTe fncXtr s site)
    (hsent : generalRegisterProcess lispTe fncXtr hmac wantMapNotify nonce ms = some msg)
    (hholds : buf.Holds msg) : Authenticated hmac s buf msg.length site := by
  obtain ⟨hcount, hauth, hrecords⟩ := h.records hsent hholds
  rw [h.sends, Option.some_inj] at hsent
  obtain ⟨hsize, hfield⟩ := hash_of_holds (hsent ▸ hholds)
  rw [hsent] at hsize hfield
  refine ⟨⟨fun hzero => h.eids_ne_nil (List.length_eq_zero_iff.mp ?_), ?_⟩, hsize, ?_⟩
  · rw [← hcount, hzero]
    rfl
  · rw [hcount]
    exact recordsOwned_of_holds h.declared h.owned hrecords
  · rw [h.key_eq]
    exact hfield

/-- The mappings entered are those of the configuration. -/
theorem MsEntry.IsSite.registerMappings_eq (h : ms.IsSite lispTe fncXtr s site)
    (hsent : generalRegisterProcess lispTe fncXtr hmac wantMapNotify nonce ms = some msg)
    (hholds : buf.Holds msg) :
    registerMappings lispTe' buf = ms.eids.map (RegisterEid.registered ms.proxy) := by
  obtain ⟨hcount, -, hrecords⟩ := h.records hsent hholds
  rw [h.sends, Option.some_inj] at hsent
  rw [registerMappings, hcount, registerRecords_of_holds h.fits h.declared hrecords,
    proxyMapRepl_of_holds (hsent ▸ hholds)]

end Registration

/-- The Map-Register of an xTR of a site is accepted by the Map-Server, unless it is stored
already, and its mappings are those of the configuration. -/
theorem register_is_accepted {lispTe fncXtr : Bool} {ms : MsEntry} {s : MsState} {site : ℕ}
    (h : ms.IsSite lispTe fncXtr s site) (hmac : Hmac) (wantMapNotify : Bool) (nonce : UInt64) :
    ∃ msg, generalRegisterProcess lispTe fncXtr hmac wantMapNotify nonce ms = some msg ∧
      ∀ buf : Mem, buf.Holds msg →
        (∀ uninit : RegisterUninit,
          let validation := msValidateRegister hmac uninit s buf msg.length
          validation.site = some site ∧
            validation.rt = if isRegistered hmac uninit s buf msg.length site then 0 else 1) ∧
        ∀ lispTe' : Bool,
          registerMappings lispTe' buf = ms.eids.map (RegisterEid.registered ms.proxy) := by
  have hsent := h.sends hmac wantMapNotify nonce
  refine ⟨_, hsent, fun buf hholds => ⟨?_, ?_⟩⟩
  · exact (h.authenticated hsent hholds).accepted
  · exact fun lispTe' => h.registerMappings_eq hsent hholds

/-! ## Requests that reach an xTR -/

section Answers

variable {eid : RegisterEid} {proxy : Bool} {nd : DbNode}

end Answers

section Configured

variable {hmac : Hmac} {lispTe lispTe' fncXtr wantMapNotify : Bool} {sites : ℕ → SiteInfo}
  {events : List DbEvent} {s : MapServer} {nonce : UInt64} {ms : MsEntry} {site : ℕ}
  {msg : List UInt8} {buf : Mem} {uninit : RegisterUninit} {before behind : List RegisterEid}
  {eid : RegisterEid}

/-- Once the Map-Register of an xTR is applied, a node stands for the last mapping of each
of its EID prefixes. -/
theorem exists_standsFor_configured
    (hiso : Along (dbStep hmac lispTe) (Isolates hmac lispTe) (MapServer.msInitDb sites) events)
    (hrun : run (dbStep hmac lispTe) (MapServer.msInitDb sites) events = some s)
    (hsite : ms.IsSite lispTe' fncXtr s.toMsState site)
    (hsent : generalRegisterProcess lispTe' fncXtr hmac wantMapNotify nonce ms = some msg)
    (hholds : buf.Holds msg)
    (hnew : isRegistered hmac uninit s.toMsState buf msg.length site = false)
    (hisolates : Isolates hmac lispTe s (.register ⟨buf, msg.length, uninit⟩))
    (heids : ms.eids = before ++ eid :: behind)
    (hlast : ∀ eid' ∈ behind, ¬SamePrefix eid.p eid'.p) :
    ∃ e, StandsFor (s.register hmac lispTe ⟨buf, msg.length, uninit⟩)
      (eid.registered ms.proxy) e := by
  obtain ⟨hsound, hroot⟩ := sound_rooted_of_run hiso hrun
  have haccepted := (hsite.authenticated hsent hholds).accepted uninit
  rw [hnew] at haccepted
  have hmappings : registerMappings lispTe buf =
      before.map (RegisterEid.registered ms.proxy) ++
        eid.registered ms.proxy :: behind.map (RegisterEid.registered ms.proxy) := by
    rw [hsite.registerMappings_eq hsent hholds, heids, List.map_append, List.map_cons]
  have hlast' : ∀ m ∈ behind.map (RegisterEid.registered ms.proxy),
      ¬SamePrefix (eid.registered ms.proxy).eid m.eid := by
    intro m hm
    obtain ⟨eid', heid', rfl⟩ := List.mem_map.mp hm
    exact hlast eid' heid'
  exact hsound.exists_standsFor hroot hisolates (by rw [haccepted.2]; decide) hmappings hlast'

end Configured

/-- 198.51.100.0/24, with one RLOC. -/
def siteEid : RegisterEid where
  p := outerTestNet.toPrefix
  ttl := 60
  version := 0
  A := 1
  act := 0
  info := [⟨rlocTestNet, none⟩]
  address_isSome := by simp [rlocTestNet, addressSockUnion, SockUnion.address]

theorem siteEid_fits : siteEid.Fits :=
  ⟨by decide, Or.inr rfl, by decide, by simp [siteEid]⟩

/-- A site with an empty key. -/
def siteEntry : MsEntry :=
  ⟨[], false, [siteEid]⟩

theorem isSite_siteEntry {s : MapServer}
    (hrun : run (dbStep (fun _ _ => Vector.replicate 20 0) false)
      (MapServer.msInitDb fun _ => ⟨[], none⟩) [.delegate 0 outerTestNet true] = some s) :
    siteEntry.IsSite false false s.toMsState 0 := by
  obtain rfl := Option.some_inj.mp hrun
  refine ⟨List.cons_ne_nil _ _, ⟨by decide, nofun, nofun, ?_, nofun⟩, ?_, ?_, rfl⟩
  · exact List.forall_mem_singleton.mpr (by decide)
  · exact List.forall_mem_singleton.mpr siteEid_fits
  · exact List.forall_mem_singleton.mpr rfl

/-- The Map-Register of the site is accepted. -/
theorem register_is_accepted_siteEntry :
    ∃ msg, generalRegisterProcess false false (fun _ _ => Vector.replicate 20 0) false 0
        siteEntry = some msg ∧
      registerMappings false (Mem.ofList msg fun _ => 0) = [siteEid.registered false] := by
  have hrun : run (dbStep (fun _ _ => Vector.replicate 20 0) false)
      (MapServer.msInitDb fun _ => ⟨[], none⟩) [.delegate 0 outerTestNet true] = some _ := rfl
  obtain ⟨msg, hsent, haccepted⟩ := register_is_accepted (isSite_siteEntry hrun)
    (fun _ _ => Vector.replicate 20 0) false 0
  exact ⟨msg, hsent, (haccepted _ (Mem.holds_ofList msg _)).2 false⟩

end HyLisp.ControlPlane
