import HyLisp.ControlPlane.SearchPath

/-!
# Answers from registered mappings

A Map-Register that is applied leaves a node for each of its EID prefixes.  Requests below
such a prefix end at this node, unless a longer node with a type covers them, and are
answered from the mapping that was registered last.
-/

namespace HyLisp.ControlPlane

open DataPlane LongestMatch Transition
open MapServer (registerFlags)

/-! ## Requests for what was registered -/

/-- The node holds the mapping of a record: its locators, its flags, and the type. -/
structure HoldsMapping (m : RegisterMapping) (nd : DbNode) : Prop where
  info : nd.info.map Prod.snd = some m.info
  flags : ∃ flags ∈ nd.flags, flags.toMappingFlags = m.flags ∧ flags.proxy = m.proxy ∧
    flags.referral = 0
  isMapp : nd.isType typeMapp = true

section Registered

variable {s : MapServer} {m : RegisterMapping} {p : Prefix} {e : Prefix × DbNode}

theorem holdsMapping_enter (m : RegisterMapping) (next : ℕ) (nd : DbNode) :
    HoldsMapping m
      { nd with flags := some (MapServer.setFlags nd.flags (registerFlags m)),
                info := some (next, m.info) } where
  info := rfl
  flags := by
    refine ⟨_, rfl, ?_⟩
    cases nd.flags with
    | none => exact ⟨rfl, rfl, rfl⟩
    | some old => exact ⟨rfl, rfl, rfl⟩
  isMapp := by
    have hmapp : ∀ b : BitVec 8, (typeMapp ||| UInt8.ofBitVec b) &&& typeMapp ≠ 0 := by
      decide +kernel
    cases hold : nd.flags with
    | none => exact decide_eq_true (show typeMapp &&& typeMapp ≠ 0 by decide)
    | some old => exact decide_eq_true (hmapp old.range.toBitVec)

theorem SamePrefix.symm {n p : Prefix} (h : SamePrefix n p) : SamePrefix p n :=
  ⟨h.1.symm, h.2.symm⟩

theorem SamePrefix.trans {n p q : Prefix} (h : SamePrefix n p) (h' : SamePrefix p q) :
    SamePrefix n q :=
  ⟨h.1.trans h'.1, h.2.trans h'.2⟩

/-- There is a node of the prefix, changed or made. -/
theorem Grown.exists_mem_dbNodeGet (h : Grown s) (p : Prefix) (f : DbNode → DbNode) :
    ∃ e ∈ (s.dbNodeGet p f).nodes, SamePrefix e.1 p ∧ ∃ nd, e.2 = f nd := by
  have hmade : ∀ {t : DbTree DbNode}, t.InPlace →
      (∀ e ∈ t.nodes, e.1.addr.width = p.addr.width) →
      ∃ e ∈ (t.dbNodeGet ⟨s.next, none, none⟩ ⟨s.next + 1, none, none⟩ f p).nodes,
        SamePrefix e.1 p ∧ ∃ nd, e.2 = f nd := by
    intro t hplace hwidth
    obtain ⟨e, he, hbits, hnd, -⟩ := exists_mem_nodes_dbNodeGet hplace
      ⟨s.next, none, none⟩ ⟨s.next + 1, none, none⟩ f p
    exact ⟨e, he, ⟨width_dbNodeGet hwidth rfl e he, hbits⟩, hnd⟩
  obtain ⟨addr, prefixlen⟩ := p
  cases addr with
  | inet addr =>
      obtain ⟨e, he, hsame⟩ := hmade h.inPlace4 h.width4
      exact ⟨e, List.mem_append_left _ he, hsame⟩
  | inet6 addr =>
      obtain ⟨e, he, hsame⟩ := hmade h.inPlace6 h.width6
      exact ⟨e, List.mem_append_right _ he, hsame⟩

/-- There is a node for a mapping that is entered. -/
theorem Grown.exists_mem_enterMapping (h : Grown s) (m : RegisterMapping) :
    ∃ e ∈ (s.enterMapping m.eid (registerFlags m) m.info).nodes,
      SamePrefix e.1 m.eid ∧ HoldsMapping m e.2 := by
  obtain ⟨e, he, hsame, nd, hnd⟩ := h.exists_mem_dbNodeGet m.eid _
  exact ⟨e, he, hsame, hnd ▸ holdsMapping_enter m (s.next + 2) nd⟩

/-- The last mapping of a prefix stays. -/
theorem Grown.exists_mem_enterMappings (h : Grown s) {before behind : List RegisterMapping}
    (hlast : ∀ m' ∈ behind, ¬SamePrefix m.eid m'.eid) :
    ∃ e ∈ (s.enterMappings (before ++ m :: behind)).nodes,
      SamePrefix e.1 m.eid ∧ HoldsMapping m e.2 := by
  rw [MapServer.enterMappings, List.foldl_append, List.foldl_cons]
  obtain ⟨e, he, hsame, hholds⟩ := (h.enterMappings before).exists_mem_enterMapping m
  refine ⟨e, ?_, hsame, hholds⟩
  exact ((h.enterMappings before).enterMapping m.eid _ _).mem_enterMappings he
    fun m' hm' hsame' => hlast m' hm' (hsame.symm.trans hsame')

/-- Of the nodes with a type that cover a prefix, none is longer than this one. -/
def NoneLonger (t : DbTree DbNode) (p n : Prefix) : Prop :=
  ∀ e ∈ t.nodes, e.1.bits <+: p.bits → e.2.range ≠ 0 → e.1.bits.length ≤ n.bits.length

/-- A node with a type is the target of the requests below it that no longer one
covers. -/
theorem Grown.head?_msGetTarget_iff (h : Grown s) (hroot : s.Rooted)
    (he : e ∈ (s.tree p.addr).nodes) (hcover : e.1.bits <+: p.bits) (htype : e.2.range ≠ 0) :
    (msGetTarget (dbNodeMatchPrefix s p)).head? = some e.2 ↔
      NoneLonger (s.tree p.addr) p e.1 := by
  rw [msGetTarget, h.head?_climb_iff hroot]
  constructor
  · rintro ⟨n, hmem, hmatch, hlongest⟩ e' he' hcover' htype'
    have heq : (n, e.2) = e :=
      h.eq_of_id (h.mem_tree_iff.mp hmem).1 (h.mem_tree_iff.mp he).1 rfl
    rw [← congrArg Prod.fst heq]
    exact hlongest e' he' (by simp [hcover', htype'])
  · intro hlongest
    refine ⟨e.1, he, by simp [hcover, htype], fun e' he' hmatch' => ?_⟩
    obtain ⟨hcover', htype'⟩ := Bool.and_eq_true_iff.mp hmatch'
    rcases Bool.or_eq_true_iff.mp htype' with htype' | htop
    · exact hlongest e' he' (of_decide_eq_true hcover') (of_decide_eq_true htype')
    · dsimp only
      rw [List.isEmpty_iff.mp htop]
      exact Nat.zero_le _

/-- A map server answers from a mapping that was registered: itself for a site that asks
for it, and otherwise by forwarding to the ETR. -/
theorem HoldsMapping.processPlainRequest_eq {nd : DbNode} {fncs : Functions}
    {path : List DbNode} {sent : Bool} (h : HoldsMapping m nd)
    (htarget : (msGetTarget path).head? = some nd) (hms : fncs.ms = true) :
    processPlainRequest fncs path sent =
      if m.proxy then some (.replied nd) else (forwardToEtr nd sent).map .returned := by
  obtain ⟨flags, hflags, -, hproxy, hreferral⟩ := h.flags
  rw [Option.mem_def] at hflags
  have hnot : nd.isReferral = false := by
    rw [DbNode.isReferral, hflags, Option.any_some, hreferral]
    rfl
  have hasks : nd.isProxyReply = m.proxy := by
    rw [DbNode.isProxyReply, hflags, Option.any_some, hproxy]
  rw [processPlainRequest]
  cases hpath : msGetTarget path with
  | nil =>
      rw [hpath] at htarget
      cases htarget
  | cons nd' above =>
      rw [hpath, List.head?_cons, Option.some_inj] at htarget
      dsimp only
      rw [htarget, if_pos h.isMapp, processMapping, hnot, hms, hasks]
      rfl

/-- A node stands for a mapping: it has its prefix and holds it, and requests below this
prefix end at the node, as long as no longer one with a type covers them. -/
structure StandsFor (s : MapServer) (m : RegisterMapping) (e : Prefix × DbNode) : Prop where
  mem : e ∈ s.nodes
  samePrefix : SamePrefix e.1 m.eid
  holds : HoldsMapping m e.2
  target : ∀ p : Prefix, p.addr.width = m.eid.addr.width → m.eid.bits <+: p.bits →
    ((msGetTarget (dbNodeMatchPrefix s p)).head? = some e.2 ↔
      NoneLonger (s.tree p.addr) p m.eid)

/-- A Map-Register that is applied leaves a node that stands for the last mapping of a
prefix. -/
theorem Sound.exists_standsFor (h : Sound s) (hroot : s.Rooted) {hmac : Hmac} {lispTe : Bool}
    {r : RegisterPacket} {before behind : List RegisterMapping}
    (hisolates : Isolates hmac lispTe s (.register r))
    (hvalid : (msValidateRegister hmac r.uninit s.toMsState r.packet r.pkgLen).rt > 0)
    (hmappings : registerMappings lispTe r.packet = before ++ m :: behind)
    (hlast : ∀ m' ∈ behind, ¬SamePrefix m.eid m'.eid) :
    ∃ e, StandsFor (s.register hmac lispTe r) m e := by
  have hsound : Sound (s.register hmac lispTe r) := h.step hisolates rfl
  obtain ⟨e, he, hsame, hholds⟩ : ∃ e ∈ (s.register hmac lispTe r).nodes,
      SamePrefix e.1 m.eid ∧ HoldsMapping m e.2 := by
    rcases register_cases hmac lispTe s r with ⟨hrt, -⟩ | ⟨-, site, sites, -, heq⟩
    · exact absurd hrt (Int.not_le.mpr hvalid)
    · rw [heq, MapServer.rewrite, hmappings]
      exact ((h.with_sites sites).cleanSite site).exists_mem_enterMappings hlast
  refine ⟨e, he, hsame, hholds, fun p hwidth hcover => ?_⟩
  have htree : e ∈ ((s.register hmac lispTe r).tree p.addr).nodes :=
    hsound.mem_tree_iff.mpr ⟨he, hsame.1.trans hwidth.symm⟩
  have htarget := hsound.head?_msGetTarget_iff hroot.register htree (hsame.2 ▸ hcover)
    (range_ne_zero_of_isType hholds.isMapp)
  rwa [NoneLonger, hsame.2] at htarget

end Registered

/-- In every run in which sites are isolated, a Map-Register that is applied leaves a node
for each of its EID prefixes, with the last mapping that the message has for it.  A
request for a prefix below it ends at this node exactly when no longer one with a type
covers the prefix, and is then answered from this mapping. -/
theorem answers_from_registered {hmac : Hmac} {lispTe : Bool} {sites : ℕ → SiteInfo}
    {events : List DbEvent} {s : MapServer} {r : RegisterPacket}
    {before behind : List RegisterMapping} {m : RegisterMapping}
    (hiso : Along (dbStep hmac lispTe) (Isolates hmac lispTe) (MapServer.msInitDb sites) events)
    (hrun : run (dbStep hmac lispTe) (MapServer.msInitDb sites) events = some s)
    (hisolates : Isolates hmac lispTe s (.register r))
    (hvalid : (msValidateRegister hmac r.uninit s.toMsState r.packet r.pkgLen).rt > 0)
    (hmappings : registerMappings lispTe r.packet = before ++ m :: behind)
    (hlast : ∀ m' ∈ behind, ¬SamePrefix m.eid m'.eid) :
    let s' := s.register hmac lispTe r
    ∃ e ∈ s'.nodes, SamePrefix e.1 m.eid ∧ HoldsMapping m e.2 ∧
      ∀ p : Prefix, p.addr.width = m.eid.addr.width → m.eid.bits <+: p.bits →
        ((msGetTarget (dbNodeMatchPrefix s' p)).head? = some e.2 ↔
          NoneLonger (s'.tree p.addr) p m.eid) ∧
        (NoneLonger (s'.tree p.addr) p m.eid → ∀ fncs : Functions, fncs.ms = true →
          ∀ sent, processPlainRequest fncs (dbNodeMatchPrefix s' p) sent =
            if m.proxy then some (.replied e.2)
            else (forwardToEtr e.2 sent).map .returned) := by
  intro s'
  obtain ⟨hsound, hroot⟩ := sound_rooted_of_run hiso hrun
  obtain ⟨e, he⟩ := hsound.exists_standsFor hroot hisolates hvalid hmappings hlast
  refine ⟨e, he.mem, he.samePrefix, he.holds, fun p hwidth hcover => ?_⟩
  have htarget := he.target p hwidth hcover
  exact ⟨htarget, fun hnone fncs hms sent =>
    he.holds.processPlainRequest_eq (htarget.mpr hnone) hms⟩

/-- The Map-Register of a site that has one delegation leaves its node in the tree. -/
theorem isolates_delegated {lispTe : Bool} {s : MapServer} {r : RegisterPacket}
    (hrun : run (dbStep (fun _ _ => Vector.replicate 20 0) lispTe)
      (MapServer.msInitDb fun _ => ⟨[], none⟩) [.delegate 0 outerTestNet true] = some s)
    (hsite : (msValidateRegister (fun _ _ => Vector.replicate 20 0) r.uninit s.toMsState
      r.packet r.pkgLen).site = some 0)
    (hkept : 3 ∈ (s.register (fun _ _ => Vector.replicate 20 0) lispTe r).ids) :
    Isolates (fun _ _ => Vector.replicate 20 0) lispTe s (.register r) := by
  intro _ site hmem
  obtain rfl : 0 = site := Option.some_inj.mp (hsite.symm.trans hmem)
  obtain rfl := Option.some_inj.mp hrun
  constructor
  · intro other hne e _ hid
    have hnone : e.2.id ∈ Function.update (fun _ : ℕ => ([] : List ℕ)) 0 [3] other := hid
    rw [Function.update_of_ne hne] at hnone
    cases hnone
  · intro id hid
    have hid : id ∈ [3] := hid
    obtain rfl := List.mem_singleton.mp hid
    exact hkept

/-- 203.0.113.41, and 203.0.113.42 over 192.0.2.43. -/
def pathTestNetInfo : List RegisterEntry :=
  [⟨⟨⟨addressSockUnion (.inet #v[203, 0, 113, 41]), 1, 100, true, true⟩, 255, 0, false⟩, none⟩,
    ⟨⟨⟨addressSockUnion (.inet #v[203, 0, 113, 42]), 2, 100, true, true⟩, 255, 0, false⟩,
      some [⟨2, 100, 255, 0, true, false, true,
        [⟨false, false, true, .inet #v[192, 0, 2, 43]⟩]⟩]⟩]

/-- After the registration, a request for 198.51.100.0/25 ends at its mapping, with the
plain RLOC and the path, and is answered by the Map-Server. -/
theorem answers_from_registered_testNet :
    ∃ s, run (dbStep (fun _ _ => Vector.replicate 20 0) true)
        (MapServer.msInitDb fun _ => ⟨[], none⟩) [.delegate 0 outerTestNet true] = some s ∧
      let path := dbNodeMatchPrefix (s.register (fun _ _ => Vector.replicate 20 0) true
        ⟨Mem.ofList registerPathTestNet fun _ => 0, 74, zeroUninit⟩) innerTestNet.toPrefix
      ∃ nd, nd.info.map Prod.snd = some pathTestNetInfo ∧
        (msGetTarget path).head? = some nd ∧
          processPlainRequest ⟨false, true, false, false⟩ path true = some (.replied nd) := by
  have hrun : run (dbStep (fun _ _ => Vector.replicate 20 0) true)
      (MapServer.msInitDb fun _ => ⟨[], none⟩) [.delegate 0 outerTestNet true] = some _ := rfl
  have hmappings : registerMappings true (Mem.ofList registerPathTestNet fun _ => 0) =
      [] ++ ⟨outerTestNet.toPrefix, ⟨0, false, 0, 60⟩, true, pathTestNetInfo⟩ :: [] := by
    decide +kernel
  have hisolates := isolates_delegated
    (r := ⟨Mem.ofList registerPathTestNet fun _ => 0, 74, zeroUninit⟩) hrun rfl
      (by decide +kernel)
  obtain ⟨e, -, -, hholds, htarget⟩ := answers_from_registered along_isolates_delegated hrun
    hisolates (by decide +kernel) hmappings fun _ hm => absurd hm List.not_mem_nil
  obtain ⟨hends, hanswer⟩ := htarget innerTestNet.toPrefix rfl (by decide)
  have htarget' := hends.mpr (by unfold NoneLonger; decide +kernel)
  exact ⟨_, hrun, e.2, hholds.info, htarget', hanswer (hends.mp htarget') _ rfl true⟩

end HyLisp.ControlPlane
