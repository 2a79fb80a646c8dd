import HyLisp.ControlPlane.Registration

/-!
# Replies from registered mappings

A site that asks for it has the Map-Server reply in its place.  Such a Map-Reply starts
with the record of the node that was found, which an xTR reads as the mapping that was
registered.
-/

namespace HyLisp.ControlPlane

open DataPlane Transition

/-! ## Plain mappings in a Map-Reply -/

section Replies

variable {fncs : Functions} {lispTe rlocProbe : Bool} {di : SockUnion} {es : List ReplyEntry}

theorem bare_probedEntry_bare (rlocProbe : Bool) (di : SockUnion) (e : ReplyEntry) :
    (probedEntry rlocProbe di e.bare).bare = probedEntry rlocProbe di e.bare := by
  have haddr : (probedEntry rlocProbe di e.bare).rloc.address = e.rloc.address := address_bare e
  rw [ReplyEntry.bare, haddr]
  cases hrloc : e.rloc.address with
  | none => rfl
  | some addr =>
      dsimp only
      rw [ReplyEntry.bare, hrloc]
      rfl

/-- Entries without paths are counted once each. -/
theorem replyCount_plain (es : List ReplyEntry) :
    replyCount fncs lispTe (es.map fun e => ⟨e, none⟩) = es.length := by
  have hpaths : countPaths (es.map fun e => ⟨e, none⟩) = es.length := by
    induction es with
    | nil => rfl
    | cons e es ih =>
        rw [List.map_cons, countPaths, ih, List.length_cons, Nat.add_comm]
  rw [replyCount, hpaths, List.length_map, ite_self]

/-- And they are written as plain locators. -/
theorem infoLocators_plain (haddr : ∀ e ∈ es, e.rloc.address.isSome = true) :
    infoLocators fncs lispTe di rlocProbe (es.map fun e => ⟨e, none⟩) =
      some (es.map fun e => entryBytes (probedEntry rlocProbe di e)) := by
  induction es with
  | nil => rfl
  | cons e es ih =>
      obtain ⟨he, hes⟩ := List.forall_mem_cons.mp haddr
      obtain ⟨addr, hsome⟩ := Option.isSome_iff_exists.mp he
      have hbytes : entryBytes (probedEntry rlocProbe di e) =
          plainLocatorBytes (probedEntry rlocProbe di e) addr := entryBytes_eq hsome
      rw [List.map_cons, infoLocators, replyLocators_of_plain fun _ => rfl, replyPlain, hsome,
        ih hes, List.map_cons, hbytes]
      rfl

/-- The record of a node with plain entries is that of a plain mapping. -/
theorem nodeBytes_plain (mflags : DbFlags) (n : Prefix) :
    nodeBytes fncs lispTe mflags n (es.map fun e => ⟨e, none⟩)
        (es.map fun e => entryBytes (probedEntry rlocProbe di e)) =
      WrittenMapping.toBytes
        ⟨n, .ofNat mflags.ttl, .ofNat mflags.version, mflags.A,
          es.map fun e => ⟨probedEntry rlocProbe di e, none⟩⟩ mflags.act := by
  rw [nodeBytes, replyCount_plain, WrittenMapping.toBytes]
  simp only [List.length_map, List.map_map, Function.comp_def, List.flatMap_def]

theorem isType_of_mapp {nd : DbNode} (h : nd.isType typeMapp = true) :
    nd.isType (typeMapp ||| typeMappXtr) = true := by
  have hbits : ∀ b : BitVec 8, UInt8.ofBitVec b &&& typeMapp ≠ 0 →
      UInt8.ofBitVec b &&& (typeMapp ||| typeMappXtr) ≠ 0 := by
    decide +kernel
  exact decide_eq_true (hbits nd.range.toBitVec (of_decide_eq_true h))

/-- The mapping that a Map-Reply is written for. -/
def RegisterEid.replied (rlocProbe : Bool) (di : SockUnion) (n : Prefix) (eid : RegisterEid) :
    WrittenMapping where
  eid := n
  ttl := eid.ttl
  version := 0
  A := eid.A ≠ 0
  info := (eid.info.map fun e => e.toReplyEntry.bare).map fun e =>
    ⟨probedEntry rlocProbe di e, none⟩

variable {eid : RegisterEid} {n : Prefix} {m : Mem}

theorem RegisterEid.Fits.replied_isPlain (h : eid.Fits) (hlength : eid.info.length < 256) :
    (eid.replied rlocProbe di n).IsPlain where
  version_lt := show (0 : UInt32).toNat < 4096 by decide
  length_le := by
    rw [RegisterEid.replied, List.length_map, List.length_map]
    exact Nat.le_of_lt_succ hlength
  address_isSome := by
    rw [RegisterEid.replied, List.map_map]
    intro e he
    obtain ⟨e', he', rfl⟩ := List.mem_map.mp he
    exact (address_bare e'.toReplyEntry).symm ▸ eid.address_isSome e' he'
  pe_eq_none := by
    intro e he
    obtain ⟨e', -, rfl⟩ := List.mem_map.mp he
    rfl
  distinct := by
    have haddrs : (eid.info.map fun e => e.toReplyEntry.bare.rloc.address) =
        eid.info.map fun e => e.rloc.address :=
      List.map_congr_left fun e _ => address_bare e.toReplyEntry
    rw [RegisterEid.replied, List.map_map, List.map_map]
    exact haddrs ▸ h.distinct

/-- The fields that are read of a reply are those that were registered. -/
theorem RegisterEid.Fits.writtenFlags_replied (h : eid.Fits) (hlength : eid.info.length < 256)
    (proxy : Bool) (hm : m.Holds ((eid.replied rlocProbe di n).toBytes
      (eid.registered proxy).flags.act)) :
    writtenFlags (eid.replied rlocProbe di n) m = (eid.registered proxy).flags := by
  rw [WrittenMapping.toBytes, Mem.holds_append] at hm
  obtain ⟨-, -, -, -, h6, -⟩ := recordBytes_of_holds hm.1
  have hzero : UInt8.ofNat (eid.replied rlocProbe di n).info.length = 0 ↔
      eid.info.length = 0 := by
    rw [RegisterEid.replied, List.length_map, List.length_map, ← UInt8.toNat_inj,
      UInt8.toNat_ofNat', Nat.mod_eq_of_lt hlength]
    rfl
  have hlt : (eid.registered proxy).flags.act < 8 := by
    change (if eid.info.length = 0 then eid.act else 0) < 8
    split
    · exact h.act_lt
    · decide
  have hact : m 6 >>> 5 = (eid.registered proxy).flags.act := by
    rw [h6, actByte_act hlt]
    by_cases hnil : eid.info.length = 0
    · rw [if_pos (hzero.mpr hnil)]
    · rw [if_neg fun hcount => hnil (hzero.mp hcount)]
      exact (if_neg hnil).symm
  rw [writtenFlags, hact]
  rfl

/-- The body of a Map-Reply starts with the record of the node, if this is a mapping. -/
theorem exists_nodesBytes_of_requestReply {requestProbe : Option Bool} {nd : DbNode}
    {left right : DbTree DbNode} {rpk : RplEntry} {mflags : DbFlags}
    (hflags : nd.flags = some mflags) (hmapp : nd.isType typeMapp = true)
    (hsent : requestReply fncs lispTe di requestProbe (.node n nd left right) = some rpk) :
    ∃ rest, nodesBytes fncs lispTe di (requestProbe.getD false) mflags ((n, nd) :: rest) =
      some rpk.body := by
  have hfirst : mappings (.node n nd left right) = (n, nd) :: _ :=
    List.filter_cons_of_pos (isType_of_mapp hmapp)
  rw [requestReply_eq hflags, hfirst] at hsent
  have hnodes := congrArg (Option.map fun rpk : RplEntry => (rpk.recordCount, rpk.body))
    (Option.filter_eq_some_iff.mp hsent).1
  rw [replyNodes_udpReplyAdd] at hnodes
  obtain ⟨bytes, hbytes, hbody⟩ := Option.map_eq_some_iff.mp hnodes
  obtain ⟨-, rfl⟩ := Prod.mk.inj hbody
  exact ⟨_, hbytes⟩

/-- The record of a node with the mapping that an xTR registered is read as this mapping. -/
theorem HoldsMapping.readRec_eq {proxy : Bool} {nd : DbNode} {mflags : DbFlags}
    {rest : List (Prefix × DbNode)} {bytes : List UInt8}
    (h : HoldsMapping (eid.registered proxy) nd) (hfits : eid.Fits)
    (hlength : eid.info.length < 256) (hflags : nd.flags = some mflags)
    (hbytes : nodesBytes fncs lispTe di rlocProbe mflags ((n, nd) :: rest) = some bytes)
    (hm : m.Holds bytes) (cfg : ReplyConfig) :
    (readRec cfg m).2 = some
      { eid := n
        flags := (eid.registered proxy).flags
        info := eid.info.map fun e => probedEntry rlocProbe di e.toReplyEntry.bare } := by
  obtain ⟨mflags', hmem, hfields, -⟩ := h.flags
  obtain rfl := Option.some_inj.mp (hflags.symm.trans hmem)
  obtain ⟨⟨id, info⟩, hinfo, hmapping⟩ := Option.map_eq_some_iff.mp h.info
  set es := eid.info.map fun e => e.toReplyEntry.bare with hes
  obtain rfl : info = es.map fun e => ⟨e, none⟩ := by
    rw [hes, List.map_map]
    exact hmapping
  have haddr : ∀ e ∈ es, e.rloc.address.isSome = true := by
    intro e he
    obtain ⟨e', he', rfl⟩ := List.mem_map.mp he
    rw [address_bare]
    exact eid.address_isSome e' he'
  rw [nodesBytes, hinfo] at hbytes
  dsimp only at hbytes
  rw [infoLocators_plain haddr, Option.bind_some, nodeBytes_plain] at hbytes
  obtain ⟨more, -, rfl⟩ := Option.map_eq_some_iff.mp hbytes
  rw [Mem.holds_append] at hm
  have httl : UInt32.ofNat mflags.ttl = eid.ttl := by
    rw [show mflags.ttl = eid.ttl.toNat from congrArg MappingFlags.ttl hfields]
    exact UInt32.ofNat_toNat
  have hversion : UInt32.ofNat mflags.version = 0 := by
    rw [show mflags.version = 0 from congrArg MappingFlags.version hfields]
    rfl
  have hA : mflags.A = decide (eid.A ≠ 0) := congrArg MappingFlags.A hfields
  have hact : mflags.act = (eid.registered proxy).flags.act := congrArg MappingFlags.act hfields
  rw [httl, hversion, hA, hact] at hm
  have hfirst : m.Holds ((eid.replied rlocProbe di n).toBytes
      (eid.registered proxy).flags.act) := hm.1
  rw [readRec_of_holds (hfits.replied_isPlain hlength) hfirst,
    hfits.writtenFlags_replied hlength proxy hfirst]
  simp only [RegisterEid.replied, List.map_map, Function.comp_def, bare_probedEntry_bare]

end Replies

/-- The first record of a Map-Reply for a node with the mapping that an xTR registered is
read as this mapping, with the probe bit of the RLOC asked, whatever lies below the
node. -/
theorem reply_reads_as_registered {fncs : Functions} {lispTe proxy : Bool} {di : SockUnion}
    {requestProbe : Option Bool} {eid : RegisterEid} {n : Prefix} {nd : DbNode}
    {left right : DbTree DbNode} {rpk : RplEntry} {m : Mem}
    (h : HoldsMapping (eid.registered proxy) nd) (hfits : eid.Fits)
    (hlength : eid.info.length < 256)
    (hsent : requestReply fncs lispTe di requestProbe (.node n nd left right) = some rpk)
    (hm : m.Holds rpk.body) (cfg : ReplyConfig) :
    (readRec cfg m).2 = some
      { eid := n
        flags := (eid.registered proxy).flags
        info := eid.info.map fun e =>
          probedEntry (requestProbe.getD false) di e.toReplyEntry.bare } := by
  obtain ⟨mflags, hflags, -⟩ := h.flags
  obtain ⟨rest, hbytes⟩ := exists_nodesBytes_of_requestReply hflags h.isMapp hsent
  exact h.readRec_eq hfits hlength hflags hbytes hm cfg

/-- The node of a site that asked for proxy replies. -/
def siteNode : DbNode :=
  ⟨3, some (MapServer.registerFlags (siteEid.registered true)),
    some (5, (siteEid.registered true).info)⟩

/-- A Map-Reply for the node is read as what the site registered. -/
theorem reply_reads_as_registered_siteNode :
    ∃ rpk, requestReply ⟨false, true, false, false⟩ false (.other 0) (some false)
        (.node outerTestNet.toPrefix siteNode .nil .nil) = some rpk ∧
      (readRec ⟨false, false, false, fun _ => false⟩ (Mem.ofList rpk.body fun _ => 0)).2 = some
        { eid := outerTestNet.toPrefix
          flags := (siteEid.registered true).flags
          info := siteEid.info.map fun e =>
            probedEntry ((some false).getD false) (.other 0) e.toReplyEntry.bare } := by
  have hsent : requestReply ⟨false, true, false, false⟩ false (.other 0) (some false)
      (.node outerTestNet.toPrefix siteNode .nil .nil) = some _ := rfl
  have hholds : HoldsMapping (siteEid.registered true) siteNode :=
    holdsMapping_enter (siteEid.registered true) 5 ⟨3, none, none⟩
  exact ⟨_, hsent, reply_reads_as_registered hholds siteEid_fits (by decide) hsent
    (Mem.holds_ofList _ fun _ => 0) _⟩

/-! ## Requests that are replied to -/

/-- The subtrees below the nodes that `db_node_match_prefix` passes. -/
def DbTree.matchTrees {ν : Type} : DbTree ν → Prefix → List (DbTree ν)
  | .nil, _ => []
  | .node n data left right, p =>
      if n.prefixlen ≤ p.prefixlen ∧ prefixMatch n p then
        .node n data left right ::
          if checkBit p.addr.toMem n.prefixlen.toNat then right.matchTrees p
          else left.matchTrees p
      else []

theorem DbTree.exists_mem_matchTrees {ν : Type} {t : DbTree ν} {p : Prefix} {e : Prefix × ν}
    (h : e ∈ t.matchPath p) : ∃ left right, .node e.1 e.2 left right ∈ t.matchTrees p := by
  induction t with
  | nil => cases h
  | node n data left right ihleft ihright =>
      rw [matchPath] at h
      rw [matchTrees]
      split at h
      next hmatch =>
        rw [if_pos hmatch]
        rcases List.mem_cons.mp h with rfl | hrest
        · exact ⟨left, right, List.mem_cons_self⟩
        · split at hrest
          next hbit =>
            obtain ⟨l, r, hmem⟩ := ihright hrest
            exact ⟨l, r, List.mem_cons_of_mem _ (by rwa [if_pos hbit])⟩
          next hbit =>
            obtain ⟨l, r, hmem⟩ := ihleft hrest
            exact ⟨l, r, List.mem_cons_of_mem _ (by rwa [if_neg hbit])⟩
      · cases h

/-- A climb leaves the end of the path. -/
theorem climb_isSuffix (stop : DbNode → Bool) (path : List DbNode) :
    climb stop path <:+ path := by
  induction path with
  | nil => exact List.suffix_rfl
  | cons nd above ih =>
      cases above with
      | nil => exact List.suffix_rfl
      | cons parent above =>
          rw [climb]
          split
          · exact List.suffix_rfl
          · exact ih.trans (List.suffix_cons nd _)

/-- The target of a request is the top of a subtree that the search passes. -/
theorem exists_mem_matchTrees_of_target {s : MapServer} {p : Prefix} {nd : DbNode}
    (h : (msGetTarget (dbNodeMatchPrefix s p)).head? = some nd) :
    ∃ n left right, (n, nd) ∈ (s.tree p.addr).nodes ∧
      .node n nd left right ∈ (s.tree p.addr).matchTrees p := by
  have hpath := (climb_isSuffix _ _).subset (List.mem_of_head? h)
  rw [dbNodeMatchPrefix, List.mem_reverse] at hpath
  obtain ⟨⟨n, _⟩, hmem, rfl⟩ := List.mem_map.mp hpath
  obtain ⟨left, right, htree⟩ := DbTree.exists_mem_matchTrees hmem
  exact ⟨n, left, right, matchPath_subset_nodes hmem, htree⟩

/-- In every run in which sites are isolated, once the Map-Register of an xTR that asks for
proxy replies is applied, a request below one of its EID prefixes that no longer node with a
type covers has the Map-Server send the Map-Reply of the node for this prefix, with the
subtree below it.  Its first record is read as the mapping of the configuration. -/
theorem configured_is_read {hmac : Hmac} {lispTe : Bool} {sites : ℕ → SiteInfo}
    {events : List DbEvent} {s : MapServer} {lispTe' fncXtr wantMapNotify : Bool}
    {nonce : UInt64} {ms : MsEntry} {site : ℕ} {msg : List UInt8} {buf : Mem}
    {uninit : RegisterUninit} {before behind : List RegisterEid} {eid : RegisterEid}
    (hiso : Along (dbStep hmac lispTe) (Isolates hmac lispTe) (MapServer.msInitDb sites) events)
    (hrun : run (dbStep hmac lispTe) (MapServer.msInitDb sites) events = some s)
    (hsite : ms.IsSite lispTe' fncXtr s.toMsState site)
    (hsent : generalRegisterProcess lispTe' fncXtr hmac wantMapNotify nonce ms = some msg)
    (hholds : buf.Holds msg)
    (hnew : isRegistered hmac uninit s.toMsState buf msg.length site = false)
    (hisolates : Isolates hmac lispTe s (.register ⟨buf, msg.length, uninit⟩))
    (heids : ms.eids = before ++ eid :: behind)
    (hlast : ∀ eid' ∈ behind, ¬SamePrefix eid.p eid'.p) (hproxy : ms.proxy = true)
    (p : Prefix) (hwidth : p.addr.width = eid.p.addr.width) (hcover : eid.p.bits <+: p.bits)
    (hnone : NoneLonger
      ((s.register hmac lispTe ⟨buf, msg.length, uninit⟩).tree p.addr) p eid.p) :
    let s' := s.register hmac lispTe ⟨buf, msg.length, uninit⟩
    ∃ n nd left right, .node n nd left right ∈ (s'.tree p.addr).matchTrees p ∧
      SamePrefix n eid.p ∧
      (∀ fncs : Functions, fncs.ms = true → ∀ sent,
        processPlainRequest fncs (dbNodeMatchPrefix s' p) sent = some (.replied nd)) ∧
      ∀ fncs di requestProbe rpk,
        requestReply fncs lispTe di requestProbe (.node n nd left right) = some rpk →
        ∀ m : Mem, m.Holds rpk.body → ∀ cfg, (readRec cfg m).2 = some
          { eid := n
            flags := (eid.registered true).flags
            info := eid.info.map fun e =>
              probedEntry (requestProbe.getD false) di e.toReplyEntry.bare } := by
  intro s'
  obtain ⟨e, he⟩ := exists_standsFor_configured hiso hrun hsite hsent hholds hnew hisolates
    heids hlast
  rw [hproxy] at he
  have htarget := (he.target p hwidth hcover).mpr hnone
  obtain ⟨n, left, right, hmem, htree⟩ := exists_mem_matchTrees_of_target htarget
  have hmem' : eid ∈ ms.eids := by
    rw [heids]
    exact List.mem_append_right _ List.mem_cons_self
  have hsound : Sound s' := (sound_rooted_of_run hiso hrun).1.step hisolates rfl
  have hentry : (n, e.2) = e := hsound.eq_of_id (hsound.mem_tree_iff.mp hmem).1 he.mem rfl
  have hn : n = e.1 := congrArg Prod.fst hentry
  refine ⟨n, e.2, left, right, htree, ?_, fun fncs hms sent => ?_, ?_⟩
  · rw [hn]
    exact he.samePrefix
  · rw [he.holds.processPlainRequest_eq htarget hms]
    rfl
  · intro fncs di requestProbe rpk hreply m hm cfg
    obtain ⟨mflags, hflags, -⟩ := he.holds.flags
    obtain ⟨rest, hbytes⟩ := exists_nodesBytes_of_requestReply hflags he.holds.isMapp hreply
    exact he.holds.readRec_eq (hsite.fits eid hmem') (hsite.countable.length_lt eid hmem') hflags
      hbytes hm cfg

/-- The site, which asks for proxy replies. -/
def proxyEntry : MsEntry :=
  ⟨[], true, [siteEid]⟩

theorem isSite_proxyEntry {s : MapServer}
    (hrun : run (dbStep (fun _ _ => Vector.replicate 20 0) false)
      (MapServer.msInitDb fun _ => ⟨[], none⟩) [.delegate 0 outerTestNet true] = some s) :
    proxyEntry.IsSite false false s.toMsState 0 := by
  obtain rfl := Option.some_inj.mp hrun
  refine ⟨List.cons_ne_nil _ _, ⟨by decide, nofun, nofun, ?_, nofun⟩, ?_, ?_, rfl⟩
  · exact List.forall_mem_singleton.mpr (by decide)
  · exact List.forall_mem_singleton.mpr siteEid_fits
  · exact List.forall_mem_singleton.mpr rfl

/-- A request for 198.51.100.0/25 is replied to, and the reply is read as what the site
configured. -/
theorem configured_is_read_proxyEntry :
    ∃ s msg nd rpk, run (dbStep (fun _ _ => Vector.replicate 20 0) false)
        (MapServer.msInitDb fun _ => ⟨[], none⟩) [.delegate 0 outerTestNet true] = some s ∧
      generalRegisterProcess false false (fun _ _ => Vector.replicate 20 0) false 0
        proxyEntry = some msg ∧
      processPlainRequest ⟨false, true, false, false⟩
        (dbNodeMatchPrefix (s.register (fun _ _ => Vector.replicate 20 0) false
          ⟨Mem.ofList msg fun _ => 0, msg.length, zeroUninit⟩) innerTestNet.toPrefix) true =
        some (.replied nd) ∧
      requestReply ⟨false, true, false, false⟩ false (.other 0) none
        (.node outerTestNet.toPrefix nd .nil .nil) = some rpk ∧
      (readRec ⟨false, false, false, fun _ => false⟩ (Mem.ofList rpk.body fun _ => 0)).2 = some
        { eid := outerTestNet.toPrefix
          flags := (siteEid.registered true).flags
          info := siteEid.info.map fun e =>
            probedEntry false (.other 0) e.toReplyEntry.bare } := by
  have hrun : run (dbStep (fun _ _ => Vector.replicate 20 0) false)
      (MapServer.msInitDb fun _ => ⟨[], none⟩) [.delegate 0 outerTestNet true] = some _ := rfl
  have hsite := isSite_proxyEntry hrun
  have hsent := hsite.sends (fun _ _ => Vector.replicate 20 0) false 0
  have heids : proxyEntry.eids = [] ++ siteEid :: [] := rfl
  obtain ⟨n, nd, left, right, hmem, hsame, hreplied, hread⟩ := configured_is_read
    along_isolates_delegated hrun hsite hsent
    (Mem.holds_ofList _ fun _ => 0) (by rfl)
    (isolates_delegated (r := ⟨_, _, zeroUninit⟩) hrun rfl (by decide)) heids
    (fun _ heid => absurd heid List.not_mem_nil) rfl innerTestNet.toPrefix rfl (by decide)
    (by unfold NoneLonger; decide)
  rcases List.mem_cons.mp hmem with hroot | hbelow
  · injection hroot with hn
    rw [hn] at hsame
    exact absurd hsame.2 (by decide)
  · have htree := List.mem_singleton.mp hbelow
    injection htree with hn hnd hleft hright
    subst hn hnd hleft hright
    have hreply := hread ⟨false, true, false, false⟩ (.other 0) none _ rfl
    exact ⟨_, _, _, _, hrun, hsent, hreplied _ rfl true, rfl,
      hreply _ (Mem.holds_ofList _ fun _ => 0) _⟩

end HyLisp.ControlPlane
