import HyLisp.ControlPlane.DatabaseGrowth
import HyLisp.ControlPlane.RegisterApplication
import HyLisp.ControlPlane.SiteConfiguration
import HyLisp.Support.Transition

/-!
# Isolation of sites

A Map-Register erases what a site registered before: the nodes of the list of the site
lose their mappings, and the subtrees below them are freed with all their nodes.  The
nodes of other sites are out of reach of this, and the lists of sites never point to a
node that was freed, as long as no node that is delegated to a site lies below one of
the registering site.
-/

namespace HyLisp.ControlPlane

open DataPlane Transition
open MapServer (registerFlags cleanNode)

/-! ## Isolation -/

/-- Between two states: the nodes of all other sites are in the trees as they were, with
the same flags and the same mapping, and all nodes of the list of the site are still in
the trees. -/
structure Isolated (s s' : MapServer) (site : ℕ) : Prop where
  others : ∀ other ≠ site, ∀ e ∈ s.nodes, e.2.id ∈ s.eids other → e ∈ s'.nodes
  own : ∀ id ∈ s.eids site, id ∈ s'.ids

/-- No node of any site lies below one of the site; a node that it shares with another
site has nothing that cleaning erases; and the EID prefixes entered are not those of
nodes of other sites. -/
structure Apart (s : MapServer) (site : ℕ) (eids : List Prefix) : Prop where
  nested : ∀ e ∈ s.freed (s.eids site), ∀ other, e.2.id ∉ s.eids other
  shared : ∀ e ∈ s.nodes, e.2.id ∈ s.eids site → ∀ other ≠ site,
    e.2.id ∈ s.eids other → cleanNode e.2 = e.2
  named : ∀ eid ∈ eids, ∀ other ≠ site, ∀ e ∈ s.nodes, e.2.id ∈ s.eids other →
    ¬ SamePrefix e.1 eid

/-- Nothing was freed that a list points to. -/
structure Sound (s : MapServer) : Prop extends Grown s where
  listed : ∀ site, ∀ id ∈ s.eids site, id ∈ s.ids

section Isolation

variable {s s' : MapServer} {site : ℕ} {mappings : List RegisterMapping}

/-- What happens to the database when a site registers. -/
def MapServer.rewrite (s : MapServer) (site : ℕ) (mappings : List RegisterMapping) :
    MapServer :=
  (s.cleanSite site).enterMappings mappings

theorem exists_of_mem_ids {id : ℕ} (h : id ∈ s.ids) : ∃ e ∈ s.nodes, e.2.id = id :=
  List.mem_map.mp h

theorem Isolated.mem_ids (h : Isolated s s' site) {other id : ℕ} (hne : other ≠ site)
    (hid : id ∈ s.eids other) (hmem : id ∈ s.ids) : id ∈ s'.ids := by
  obtain ⟨e, he, rfl⟩ := exists_of_mem_ids hmem
  exact mem_ids_of_mem (h.others other hne e he hid)

theorem Grown.rewrite (h : Grown s) (site : ℕ) (mappings : List RegisterMapping) :
    Grown (s.rewrite site mappings) :=
  (h.cleanSite site).enterMappings mappings

theorem next_cleanSite (s : MapServer) (site : ℕ) : (s.cleanSite site).next = s.next := by
  rw [cleanSite_eq]

/-- The nodes freed are out of the trees. -/
theorem Grown.freed_notMem (h : Grown s) (mappings : List RegisterMapping)
    {e : Prefix × DbNode} (he : e ∈ s.freed (s.eids site)) :
    e.2.id ∉ (s.rewrite site mappings).ids := by
  intro hmem
  have hclean := ids_cleanSite s site
  have hfreed : e.2.id ∈ (s.freed (s.eids site)).map fun e => e.2.id :=
    List.mem_map_of_mem he
  obtain ⟨new, hnew, hperm⟩ := ids_enterMappings (s.cleanSite site) mappings
  rcases List.mem_append.mp (hperm.mem_iff.mp hmem) with hkept | hmade
  · have hdisjoint := (List.nodup_append.mp (hclean.nodup_iff.mp h.nodup)).2.2
    exact hdisjoint _ hkept _ hfreed rfl
  · have hlt := h.ids_lt _ (hclean.mem_iff.mpr (List.mem_append_right _ hfreed))
    have hge := hnew _ hmade
    rw [next_cleanSite] at hge
    omega

/-- A registration leaves a node as it is, up to cleaning, unless the node is freed or
a mapping has its prefix; then it gets new locators. -/
theorem Grown.rewrite_cases (h : Grown s) (mappings : List RegisterMapping)
    {e : Prefix × DbNode} (he : e ∈ s.nodes) (hkept : e ∉ s.freed (s.eids site)) :
    (∀ m ∈ mappings, ¬ SamePrefix e.1 m.eid) ∧
        (e.1, cleanedBy (s.eids site) e.2) ∈ (s.rewrite site mappings).nodes ∨
      (∃ m ∈ mappings, SamePrefix e.1 m.eid) ∧
        ∃ nd, (e.1, nd) ∈ (s.rewrite site mappings).nodes ∧ nd.id = e.2.id ∧
          ∃ i ∈ nd.info, s.next ≤ i.1 := by
  have hclean := (freed_or_mem_cleanSite site he).resolve_left hkept
  by_cases hnamed : ∃ m ∈ mappings, SamePrefix e.1 m.eid
  · obtain ⟨nd, hnd, hid, i, hi, hle⟩ :=
      (h.cleanSite site).mem_enterMappings_named hclean hnamed
    refine Or.inr ⟨hnamed, nd, hnd, hid.trans ?_, i, hi, ?_⟩
    · rw [cleanedBy]
      split <;> rfl
    · rwa [next_cleanSite] at hle
  · refine Or.inl ⟨fun m hm hsame => hnamed ⟨m, hm, hsame⟩, ?_⟩
    exact (h.cleanSite site).mem_enterMappings hclean fun m hm hsame =>
      hnamed ⟨m, hm, hsame⟩

theorem freed_subset (s : MapServer) (ids : List ℕ) {e : Prefix × DbNode}
    (he : e ∈ s.freed ids) : e ∈ s.nodes := by
  have hfreed : ∀ {t : DbTree DbNode}, e ∈ t.freed ids → e ∈ t.nodes := by
    intro t ht
    induction t with
    | nil => cases ht
    | node p nd left right ihleft ihright =>
        rw [DbTree.freed] at ht
        refine List.mem_cons_of_mem _ ?_
        split at ht
        · exact ht
        · exact List.mem_append.mpr ((List.mem_append.mp ht).imp ihleft ihright)
  exact List.mem_append.mpr ((List.mem_append.mp he).imp hfreed hfreed)

/-- A node that is found as it was had nothing to clean, and no mapping has its
prefix. -/
theorem Sound.kept_as_is (h : Sound s) {e : Prefix × DbNode} (he : e ∈ s.nodes)
    (hkept : e ∉ s.freed (s.eids site)) (hafter : e ∈ (s.rewrite site mappings).nodes) :
    cleanedBy (s.eids site) e.2 = e.2 ∧ ∀ m ∈ mappings, ¬ SamePrefix e.1 m.eid := by
  have hgrown := h.toGrown.rewrite site mappings
  rcases h.toGrown.rewrite_cases mappings he hkept with
    ⟨hnone, hcleaned⟩ | ⟨-, nd, hnd, hid, i, hi, hle⟩
  · have hcleanedId : e.2.id = (cleanedBy (s.eids site) e.2).id := by
      rw [cleanedBy]
      split
      · rfl
      · rfl
    exact ⟨(congrArg Prod.snd (hgrown.eq_of_id hafter hcleaned hcleanedId)).symm, hnone⟩
  · -- the locators of the node were there before, and cannot be new ones
    obtain rfl := congrArg Prod.snd (hgrown.eq_of_id hafter hnd hid.symm)
    have hlt := h.info_lt e he i hi
    omega

/-- A site that registers in isolation is apart from the others. -/
theorem Sound.apart_of_isolated (h : Sound s)
    (hiso : Isolated s (s.rewrite site mappings) site) :
    Apart s site (mappings.map fun m => m.eid) := by
  have hnested : ∀ e ∈ s.freed (s.eids site), ∀ other, e.2.id ∉ s.eids other := by
    intro e he other hother
    apply h.toGrown.freed_notMem mappings he
    by_cases heq : other = site
    · exact hiso.own _ (heq ▸ hother)
    · exact mem_ids_of_mem (hiso.others other heq e (freed_subset s _ he) hother)
  have hkept : ∀ other ≠ site, ∀ e ∈ s.nodes, e.2.id ∈ s.eids other →
      cleanedBy (s.eids site) e.2 = e.2 ∧ ∀ m ∈ mappings, ¬ SamePrefix e.1 m.eid := by
    intro other hne e he hother
    exact h.kept_as_is he (fun hfreed => hnested e hfreed other hother)
      (hiso.others other hne e he hother)
  refine ⟨hnested, ?_, ?_⟩
  · intro e he hsite other hne hother
    have hclean := (hkept other hne e he hother).1
    rw [cleanedBy, if_pos hsite] at hclean
    exact hclean
  · intro eid heid other hne e he hother
    obtain ⟨m, hm, rfl⟩ := List.mem_map.mp heid
    exact (hkept other hne e he hother).2 m hm

/-- A site that is apart from the others registers in isolation. -/
theorem Sound.isolated_of_apart (h : Sound s)
    (hapart : Apart s site (mappings.map fun m => m.eid)) :
    Isolated s (s.rewrite site mappings) site := by
  refine ⟨?_, ?_⟩
  · intro other hne e he hother
    rcases h.toGrown.rewrite_cases mappings he
      (fun hfreed => hapart.nested e hfreed other hother) with
      ⟨-, hcleaned⟩ | ⟨⟨m, hm, hsame⟩, -⟩
    · rw [cleanedBy] at hcleaned
      split at hcleaned
      next hsite =>
        rw [hapart.shared e he hsite other hne hother] at hcleaned
        exact hcleaned
      · exact hcleaned
    · exact absurd hsame
        (hapart.named m.eid (List.mem_map_of_mem hm) other hne e he hother)
  · intro id hid
    obtain ⟨e, he, rfl⟩ := exists_of_mem_ids (h.listed site id hid)
    rcases h.toGrown.rewrite_cases mappings he
      (fun hfreed => hapart.nested e hfreed site hid) with
      ⟨-, hcleaned⟩ | ⟨-, nd, hnd, hndid, -⟩
    · have hmem := mem_ids_of_mem hcleaned
      rw [cleanedBy, if_pos hid] at hmem
      exact hmem
    · exact hndid ▸ mem_ids_of_mem hnd

/-- A site registers in isolation exactly when it is apart from the others. -/
theorem Sound.isolated_iff (h : Sound s) (site : ℕ) (mappings : List RegisterMapping) :
    Isolated s (s.rewrite site mappings) site ↔
      Apart s site (mappings.map fun m => m.eid) :=
  ⟨fun hiso => h.apart_of_isolated hiso, fun hapart => h.isolated_of_apart hapart⟩

end Isolation

/-! ## Steps and runs -/

/-- A Map-Register that is accepted leaves the other sites alone. -/
def Isolates (hmac : Hmac) (lispTe : Bool) (s : MapServer) : DbEvent → Prop
  | .register r =>
      let validation := msValidateRegister hmac r.uninit s.toMsState r.packet r.pkgLen
      validation.rt ≥ 0 → ∀ site ∈ validation.site,
        Isolated s (s.register hmac lispTe r) site
  | _ => True

/-- The site of a Map-Register that is applied is apart from the other sites, and so are
the EID prefixes of its records, as they are entered. -/
def RegistersApart (hmac : Hmac) (lispTe : Bool) (s : MapServer) : DbEvent → Prop
  | .register r =>
      let validation := msValidateRegister hmac r.uninit s.toMsState r.packet r.pkgLen
      validation.rt > 0 → ∀ site ∈ validation.site,
        Apart s site ((registerMappings lispTe r.packet).map fun m => m.eid)
  | _ => True

section Steps

variable {hmac : Hmac} {lispTe : Bool} {s s' : MapServer} {p : Prefix}
  {f : DbNode → DbNode} {site : ℕ} {e : DbEvent}

theorem eids_dbNodeGet : (s.dbNodeGet p f).eids = s.eids := by
  obtain ⟨addr, prefixlen⟩ := p
  cases addr with
  | inet addr => rfl
  | inet6 addr => rfl

theorem eids_rewrite (s : MapServer) (site : ℕ) (mappings : List RegisterMapping) :
    (s.rewrite site mappings).eids = s.eids := by
  have henter : ∀ s : MapServer, (s.enterMappings mappings).eids = s.eids := by
    induction mappings with
    | nil => exact fun _ => rfl
    | cons m mappings ih => exact fun s => (ih _).trans eids_dbNodeGet
  rw [MapServer.rewrite, henter, cleanSite_eq]

theorem Sound.dbNodeGet (h : Sound s) (hf : Keeps s.next f) : Sound (s.dbNodeGet p f) where
  toGrown := h.toGrown.dbNodeGet hf
  listed := by
    intro site id hid
    rw [eids_dbNodeGet] at hid
    obtain ⟨new, -, hperm⟩ := ids_dbNodeGet (s := s) (p := p) hf.id_eq
    exact hperm.mem_iff.mpr (List.mem_append_left _ (h.listed site id hid))

/-- A link leads to the nodes of the subtree. -/
theorem mem_setLink {ν : Type} {n m : Prefix} {data data' : ν}
    {left right left' right' : DbTree ν} {e : Prefix × ν}
    (he : e ∈ (DbTree.node m data' left' right').nodes) :
    e ∈ ((DbTree.node n data left right).setLink (.node m data' left' right')).nodes := by
  rw [DbTree.setLink]
  split
  · exact List.mem_cons_of_mem _ (List.mem_append_right _ he)
  · exact List.mem_cons_of_mem _ (List.mem_append_left _ he)

/-- What is found is a node, and otherwise one is made. -/
theorem found_cases {ν : Type} (glue fresh : ν) (f : ν → ν) (t : DbTree ν) (p : Prefix) :
    (∃ n data, t.found p = some data ∧ (n, data) ∈ t.nodes) ∨
      t.found p = none ∧ ∃ n, (n, f fresh) ∈ (t.dbNodeGet glue fresh f p).nodes := by
  induction t with
  | nil => exact Or.inr ⟨rfl, p, List.mem_singleton_self _⟩
  | node n data left right ihleft ihright =>
      rw [DbTree.found, DbTree.dbNodeGet]
      split
      · split
        · exact Or.inl ⟨n, data, rfl, List.mem_cons_self⟩
        · split
          · refine ihright.imp ?_ ?_
            · rintro ⟨n', data', heq, hmem⟩
              exact ⟨n', data', heq, List.mem_cons_of_mem _ (List.mem_append_right _ hmem)⟩
            · rintro ⟨heq, n', hmem⟩
              exact ⟨heq, n', List.mem_cons_of_mem _ (List.mem_append_right _ hmem)⟩
          · refine ihleft.imp ?_ ?_
            · rintro ⟨n', data', heq, hmem⟩
              exact ⟨n', data', heq, List.mem_cons_of_mem _ (List.mem_append_left _ hmem)⟩
            · rintro ⟨heq, n', hmem⟩
              exact ⟨heq, n', List.mem_cons_of_mem _ (List.mem_append_left _ hmem)⟩
      · refine Or.inr ⟨rfl, ?_⟩
        dsimp only
        split
        · refine ⟨p, ?_⟩
          rw [DbTree.setLink]
          split
          · exact mem_setLink List.mem_cons_self
          · exact mem_setLink List.mem_cons_self
        · rw [DbTree.setLink]
          split
          · exact ⟨_, List.mem_cons_self⟩
          · exact ⟨_, List.mem_cons_self⟩

/-- The node of a delegation is in the trees. -/
theorem nodeFor_mem (hf : ∀ nd, (f nd).id = nd.id) : s.nodeFor p ∈ (s.dbNodeGet p f).ids := by
  obtain ⟨new, -, hperm⟩ := ids_dbNodeGet (s := s) (p := p) hf
  have hfound : ∀ {t t' : DbTree DbNode}, s.tree p.addr = t → t.nodes ⊆ s.nodes →
      t' = t.dbNodeGet ⟨s.next, none, none⟩ ⟨s.next + 1, none, none⟩ f p →
      t'.nodes ⊆ (s.dbNodeGet p f).nodes → s.nodeFor p ∈ (s.dbNodeGet p f).ids := by
    intro t t' htree ht ht' hsubset
    rw [MapServer.nodeFor, htree]
    rcases found_cases ⟨s.next, none, none⟩ ⟨s.next + 1, none, none⟩ f t p with
      ⟨n, nd, hnd, hmem⟩ | ⟨hnone, n, hmem⟩
    · rw [hnd]
      exact hperm.mem_iff.mpr (List.mem_append_left _ (mem_ids_of_mem (ht hmem)))
    · rw [hnone, ← ht'] at *
      have hid := mem_ids_of_mem (hsubset hmem)
      rwa [hf] at hid
  obtain ⟨addr, prefixlen⟩ := p
  cases addr with
  | inet addr =>
      exact hfound rfl (List.subset_append_left _ _) rfl (List.subset_append_left _ _)
  | inet6 addr =>
      exact hfound rfl (List.subset_append_right _ _) rfl (List.subset_append_right _ _)

theorem Sound.delegate {active : Bool} (h : Sound s)
    (hstep : s.delegate site p active = some s') : Sound s' := by
  rw [MapServer.delegate] at hstep
  split at hstep
  · obtain rfl := Option.some_inj.mp hstep
    have hkeeps : Keeps s.next fun nd =>
        { nd with flags := some (MapServer.setFlags nd.flags
          (MapServer.delegationFlags site active)) } :=
      ⟨fun _ => rfl, fun _ _ hi => Or.inl hi⟩
    have hget := h.dbNodeGet (p := p) hkeeps
    refine ⟨⟨hget.inPlace4, hget.inPlace6, hget.width4, hget.width6, hget.nodup,
      hget.ids_lt, hget.info_lt⟩, ?_⟩
    have hlisted := hget.listed
    rw [eids_dbNodeGet] at hlisted
    intro other id hid
    dsimp only at hid
    by_cases heq : other = site
    · rw [heq, Function.update_self, List.mem_append, List.mem_singleton] at hid
      rcases hid with hold | rfl
      · exact hlisted site id hold
      · exact nodeFor_mem hkeeps.id_eq
    · rw [Function.update_of_ne heq] at hid
      exact hlisted other id hid
  · cases hstep

theorem Sound.enterMapping (h : Sound s) (p : Prefix) (mflags : DbFlags)
    (info : List RegisterEntry) : Sound (s.enterMapping p mflags info) :=
  h.dbNodeGet (keeps_enter s.next mflags info)

/-- A Map-Register that is not applied changes nothing; one that is applied rewrites the
site. -/
theorem register_cases (hmac : Hmac) (lispTe : Bool) (s : MapServer) (r : RegisterPacket) :
    let validation := msValidateRegister hmac r.uninit s.toMsState r.packet r.pkgLen
    validation.rt ≤ 0 ∧ s.register hmac lispTe r = s ∨
      validation.rt = 1 ∧ ∃ site sites, validation.site = some site ∧
        s.register hmac lispTe r =
          { s with sites := sites }.rewrite site (registerMappings lispTe r.packet) := by
  rw [MapServer.register]
  dsimp only
  rcases msValidateRegister_cases hmac r.uninit s.toMsState r.packet r.pkgLen with
    ⟨-, heq⟩ | ⟨site, -, ⟨-, heq⟩ | ⟨-, -, heq⟩ | ⟨-, -, s', heq⟩⟩
  · rw [heq]
    exact Or.inl ⟨show (-1 : ℤ) ≤ 0 by decide, rfl⟩
  · rw [heq]
    exact Or.inl ⟨Int.le_refl 0, rfl⟩
  · rw [heq]
    exact Or.inl ⟨show (-1 : ℤ) ≤ 0 by decide, rfl⟩
  · rw [heq]
    exact Or.inr ⟨rfl, site, s'.sites, rfl, rfl⟩

theorem isolated_sites_iff {sites : ℕ → SiteInfo} :
    Isolated { s with sites := sites } s' site ↔ Isolated s s' site :=
  ⟨fun h => ⟨h.others, h.own⟩, fun h => ⟨h.others, h.own⟩⟩

theorem Sound.with_sites (h : Sound s) (sites : ℕ → SiteInfo) :
    Sound { s with sites := sites } :=
  ⟨⟨h.inPlace4, h.inPlace6, h.width4, h.width6, h.nodup, h.ids_lt, h.info_lt⟩, h.listed⟩

/-- A step isolates sites exactly when it registers a site that is apart. -/
theorem Sound.isolates_iff (h : Sound s) :
    Isolates hmac lispTe s e ↔ RegistersApart hmac lispTe s e := by
  cases e with
  | assign type p => exact Iff.rfl
  | delegate site p active => exact Iff.rfl
  | enter type p mflags info => exact Iff.rfl
  | request buf bufLen => exact Iff.rfl
  | refer rec => exact Iff.rfl
  | register r =>
      rw [Isolates, RegistersApart]
      rcases register_cases hmac lispTe s r with ⟨hrt, heq⟩ | ⟨hrt, site, sites, hsite, heq⟩
      · rw [heq]
        refine iff_of_true (fun _ site _ => ?_) fun hpos => absurd hrt (Int.not_le.mpr hpos)
        exact ⟨fun _ _ _ he _ => he, h.listed site⟩
      · rw [heq, hrt, hsite]
        simp only [Option.mem_def, Option.some.injEq, forall_eq']
        have hiff := (h.with_sites sites).isolated_iff site (registerMappings lispTe r.packet)
        rw [isolated_sites_iff] at hiff
        rw [forall_prop_of_true (show (1 : ℤ) ≥ 0 by decide),
          forall_prop_of_true (show (1 : ℤ) > 0 by decide), hiff]
        exact ⟨fun h => ⟨h.nested, h.shared, h.named⟩,
          fun h => ⟨h.nested, h.shared, h.named⟩⟩

/-- Steps that isolate sites free nothing that a list points to. -/
theorem Sound.step (h : Sound s) (hiso : Isolates hmac lispTe s e)
    (hstep : dbStep hmac lispTe s e = some s') : Sound s' := by
  cases e with
  | assign type p =>
      obtain rfl := Option.some_inj.mp hstep
      rw [MapServer.assign]
      split
      · exact h.dbNodeGet ⟨fun _ => rfl, fun _ _ hi => Or.inl hi⟩
      · exact h
  | delegate site p active => exact h.delegate hstep
  | enter type p mflags info =>
      rw [dbStep, MapServer.enterConfigured] at hstep
      split at hstep
      · obtain rfl := Option.some_inj.mp hstep
        exact h.enterMapping p.toPrefix _ info
      · cases hstep
  | request buf bufLen =>
      obtain rfl := Option.some_inj.mp hstep
      exact h
  | refer rec =>
      obtain rfl := Option.some_inj.mp hstep
      rw [MapServer.refer]
      split
      · exact h
      next p mflags info hentered => exact h.enterMapping p mflags info
  | register r =>
      obtain rfl := Option.some_inj.mp hstep
      rcases register_cases hmac lispTe s r with ⟨-, heq⟩ | ⟨hrt, site, sites, hsite, heq⟩
      · rw [heq]
        exact h
      · have hisolated := hiso (by rw [hrt]; decide) site hsite
        rw [heq] at hisolated ⊢
        refine ⟨(h.with_sites sites).toGrown.rewrite site _, ?_⟩
        rw [eids_rewrite]
        intro other id hid
        by_cases hother : other = site
        · exact hisolated.own id (hother ▸ hid)
        · exact hisolated.mem_ids hother hid (h.listed other id hid)

theorem sound_msInitDb (sites : ℕ → SiteInfo) : Sound (MapServer.msInitDb sites) where
  inPlace4 := ⟨List.nil_prefix, trivial, trivial⟩
  inPlace6 := ⟨List.nil_prefix, trivial, trivial⟩
  width4 := List.forall_mem_singleton.mpr rfl
  width6 := List.forall_mem_singleton.mpr rfl
  nodup := show [0, 1].Nodup by decide
  ids_lt := show ∀ id ∈ [0, 1], id < 2 by decide
  info_lt := by
    rintro e he i hi
    rcases List.mem_append.mp he with h4 | h6
    · obtain rfl := List.mem_singleton.mp h4
      cases hi
    · obtain rfl := List.mem_singleton.mp h6
      cases hi
  listed := fun _ _ hid => absurd hid List.not_mem_nil

end Steps

/-- In every run from a database without entries, the Map-Registers of sites leave the
nodes of other sites alone and free no node that a list points to, exactly as long as
the sites that register are apart from the others. -/
theorem along_isolates_iff_registersApart (hmac : Hmac) (lispTe : Bool)
    (sites : ℕ → SiteInfo) (events : List DbEvent) :
    Along (dbStep hmac lispTe) (Isolates hmac lispTe) (MapServer.msInitDb sites) events ↔
      Along (dbStep hmac lispTe) (RegistersApart hmac lispTe) (MapServer.msInitDb sites)
        events :=
  along_iff_of_invariant (fun h hiso hstep => h.step hiso hstep)
    (fun h => h.isolates_iff) (sound_msInitDb sites)

/-- 198.51.100.0/24 and, inside of it, 198.51.100.0/25. -/
def outerTestNet : ConfigPrefix :=
  ⟨⟨.inet (Mem.bytes (Mem.ofList [198, 51, 100, 0] fun _ => 0) 0 4), 24⟩, by decide⟩

def innerTestNet : ConfigPrefix :=
  ⟨⟨outerTestNet.addr, 25⟩, by decide⟩

/-- A site that registers frees the nodes that are delegated inside of its own. -/
theorem not_along_isolates_nested :
    ¬ ∀ hmac lispTe sites events,
      Along (dbStep hmac lispTe) (Isolates hmac lispTe) (MapServer.msInitDb sites)
        events := by
  intro h
  have hrun := h (fun _ _ => Vector.replicate 20 0) false (fun _ => ⟨[], none⟩)
    [.delegate 0 outerTestNet true, .delegate 1 innerTestNet true,
      .register ⟨Mem.ofList registerTestNet fun _ => 0, 32, zeroUninit⟩]
  have hregister := ((hrun.2 _ rfl).2 _ rfl).1 (by decide) 0 (by decide)
  have hkept : 6 ∈ _ := hregister.mem_ids (show 1 ≠ 0 by decide) (by decide) (by decide)
  exact absurd hkept (by decide)

end HyLisp.ControlPlane
