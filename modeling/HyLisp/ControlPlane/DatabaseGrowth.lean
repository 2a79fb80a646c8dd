import HyLisp.ControlPlane.MappingDatabase
import Mathlib.Data.List.Nodup

/-!
# Growth of the mapping database

The nodes of a list are cleaned one after the other, with the same result as if it were
done at once.  The nodes below them are freed; all others stay, and the list of nodes
grows by those that are made for a prefix, with addresses of their own.
-/

namespace HyLisp.ControlPlane

open DataPlane
open MapServer (registerFlags cleanNode)

/-! ## Cleaning the nodes of a list -/

/-- All nodes of a list are cleaned. -/
def DbTree.cleanAll (ids : List ℕ) : DbTree DbNode → DbTree DbNode
  | .nil => .nil
  | .node p nd left right =>
      if nd.id ∈ ids then .node p (cleanNode nd) .nil .nil
      else .node p nd (left.cleanAll ids) (right.cleanAll ids)

/-- The nodes below those of a list. -/
def DbTree.freed (ids : List ℕ) : DbTree DbNode → List (Prefix × DbNode)
  | .nil => []
  | .node _ nd left right =>
      if nd.id ∈ ids then left.nodes ++ right.nodes
      else left.freed ids ++ right.freed ids

/-- The addresses of the nodes. -/
def DbTree.ids (t : DbTree DbNode) : List ℕ :=
  t.nodes.map fun e => e.2.id

/-- What cleaning makes of a node that is not freed. -/
def cleanedBy (ids : List ℕ) (nd : DbNode) : DbNode :=
  if nd.id ∈ ids then cleanNode nd else nd

section Trees

variable {t : DbTree DbNode} {ids : List ℕ} {e : Prefix × DbNode}

theorem cleanFlags_cleanFlags (flags : DbFlags) :
    MapServer.cleanFlags (MapServer.cleanFlags flags) = MapServer.cleanFlags flags := by
  have hrange : ∀ b : BitVec 8,
      let clean (range : UInt8) : UInt8 :=
        if range > typeMapp then range &&& ~~~typeMapp else range
      clean (clean (UInt8.ofBitVec b)) = clean (UInt8.ofBitVec b) := by
    decide +kernel
  have hclean : (MapServer.cleanFlags (MapServer.cleanFlags flags)).range =
      (MapServer.cleanFlags flags).range := hrange flags.range.toBitVec
  exact congrArg (fun range => { MapServer.cleanFlags flags with range := range }) hclean

theorem cleanNode_cleanNode (nd : DbNode) :
    cleanNode (cleanNode nd) = cleanNode nd := by
  obtain ⟨id, flags, info⟩ := nd
  cases flags with
  | none => rfl
  | some flags =>
      simp only [cleanNode, Option.map_some, cleanFlags_cleanFlags]

theorem cleanAll_nil (t : DbTree DbNode) : t.cleanAll [] = t := by
  induction t with
  | nil => rfl
  | node p nd left right ihleft ihright =>
      rw [DbTree.cleanAll, if_neg List.not_mem_nil, ihleft, ihright]

theorem cleanAll_clean (id : ℕ) (t : DbTree DbNode) :
    (t.clean id).cleanAll ids = t.cleanAll (id :: ids) := by
  induction t with
  | nil => rfl
  | node p nd left right ihleft ihright =>
      rw [DbTree.clean, DbTree.cleanAll]
      by_cases hid : nd.id = id
      · rw [if_pos hid, if_pos (List.mem_cons.mpr (Or.inl hid)), DbTree.cleanAll]
        split
        · rw [cleanNode_cleanNode]
        · rfl
      · rw [if_neg hid, DbTree.cleanAll, ihleft, ihright]
        by_cases hmem : nd.id ∈ ids
        · rw [if_pos hmem, if_pos (List.mem_cons_of_mem _ hmem)]
        · rw [if_neg hmem, if_neg fun h => (List.mem_cons.mp h).elim hid hmem]

theorem foldl_clean (t : DbTree DbNode) :
    ids.foldl (fun t id => t.clean id) t = t.cleanAll ids := by
  induction ids generalizing t with
  | nil => exact (cleanAll_nil t).symm
  | cons id ids ih => rw [List.foldl_cons, ih, cleanAll_clean]

theorem inPlace_cleanAll (h : t.InPlace) : (t.cleanAll ids).InPlace := by
  rw [← foldl_clean]
  induction ids generalizing t with
  | nil => exact h
  | cons id ids ih => exact ih h.clean

/-- A node is freed, or cleaned if it is one of the list. -/
theorem freed_or_mem_cleanAll (he : e ∈ t.nodes) :
    e ∈ t.freed ids ∨ (e.1, cleanedBy ids e.2) ∈ (t.cleanAll ids).nodes := by
  induction t with
  | nil => cases he
  | node p nd left right ihleft ihright =>
      rw [DbTree.freed, DbTree.cleanAll]
      by_cases hmem : nd.id ∈ ids
      · rw [if_pos hmem, if_pos hmem]
        rcases List.mem_cons.mp he with rfl | hrest
        · refine Or.inr (List.mem_singleton.mpr ?_)
          rw [cleanedBy, if_pos hmem]
        · exact Or.inl hrest
      · rw [if_neg hmem, if_neg hmem, List.mem_append, DbTree.nodes, List.mem_cons,
          List.mem_append]
        rcases List.mem_cons.mp he with rfl | hrest
        · refine Or.inr (Or.inl ?_)
          rw [cleanedBy, if_neg hmem]
        · rcases List.mem_append.mp hrest with hl | hr
          · exact (ihleft hl).imp Or.inl fun h => Or.inr (Or.inl h)
          · exact (ihright hr).imp Or.inr fun h => Or.inr (Or.inr h)

theorem mem_of_mem_cleanAll (he : e ∈ (t.cleanAll ids).nodes) :
    ∃ nd, (e.1, nd) ∈ t.nodes ∧ e.2 = cleanedBy ids nd := by
  induction t with
  | nil => cases he
  | node p nd left right ihleft ihright =>
      rw [DbTree.cleanAll] at he
      split at he
      next hmem =>
        obtain rfl := List.mem_singleton.mp he
        exact ⟨nd, List.mem_cons_self, (if_pos hmem).symm⟩
      next hmem =>
        rcases List.mem_cons.mp he with rfl | hrest
        · exact ⟨nd, List.mem_cons_self, (if_neg hmem).symm⟩
        · rcases List.mem_append.mp hrest with hl | hr
          · obtain ⟨nd', hnd, heq⟩ := ihleft hl
            exact ⟨nd', List.mem_cons_of_mem _ (List.mem_append_left _ hnd), heq⟩
          · obtain ⟨nd', hnd, heq⟩ := ihright hr
            exact ⟨nd', List.mem_cons_of_mem _ (List.mem_append_right _ hnd), heq⟩

/-- The nodes that stay and those that are freed are all the nodes. -/
theorem ids_perm (t : DbTree DbNode) (ids : List ℕ) :
    t.ids.Perm ((t.cleanAll ids).ids ++ (t.freed ids).map fun e => e.2.id) := by
  induction t with
  | nil => exact List.Perm.refl _
  | node p nd left right ihleft ihright =>
      rw [DbTree.cleanAll, DbTree.freed]
      by_cases hmem : nd.id ∈ ids
      · rw [if_pos hmem, if_pos hmem]
        exact List.Perm.refl _
      · rw [if_neg hmem, if_neg hmem]
        simp only [DbTree.ids, DbTree.nodes, List.map_cons, List.map_append,
          List.cons_append, List.append_assoc] at ihleft ihright ⊢
        refine List.Perm.cons _ ((ihleft.append ihright).trans ?_)
        simp only [List.append_assoc]
        refine List.Perm.append_left _ ?_
        rw [← List.append_assoc, ← List.append_assoc]
        exact List.perm_append_comm.append_right _

end Trees

/-! ## Databases as they grow -/

/-- The prefixes are of one family and have the same bits. -/
def SamePrefix (n p : Prefix) : Prop :=
  n.addr.width = p.addr.width ∧ n.bits = p.bits

namespace MapServer

/-- The addresses of all nodes. -/
def ids (s : MapServer) : List ℕ :=
  s.nodes.map fun e => e.2.id

/-- The nodes below those of a list. -/
def freed (s : MapServer) (ids : List ℕ) : List (Prefix × DbNode) :=
  s.lispDb4.freed ids ++ s.lispDb6.freed ids

end MapServer

/-- The nodes are in their places in the tree of their family, and what was allocated
for them has addresses of its own. -/
structure Grown (s : MapServer) : Prop where
  inPlace4 : s.lispDb4.InPlace
  inPlace6 : s.lispDb6.InPlace
  width4 : ∀ e ∈ s.lispDb4.nodes, e.1.addr.width = 32
  width6 : ∀ e ∈ s.lispDb6.nodes, e.1.addr.width = 128
  nodup : s.ids.Nodup
  ids_lt : ∀ id ∈ s.ids, id < s.next
  info_lt : ∀ e ∈ s.nodes, ∀ i ∈ e.2.info, i.1 < s.next

/-- A change of a node keeps its address, and points to locators that the node had or
that are new. -/
structure Keeps (next : ℕ) (f : DbNode → DbNode) : Prop where
  id_eq : ∀ nd, (f nd).id = nd.id
  info : ∀ nd, ∀ i ∈ (f nd).info, i ∈ nd.info ∨ i.1 < next + 3

section Growth

variable {s : MapServer} {p : Prefix} {f : DbNode → DbNode} {e e' : Prefix × DbNode}

theorem mem_ids_of_mem (he : e ∈ s.nodes) : e.2.id ∈ s.ids :=
  List.mem_map_of_mem he

/-- An address belongs to one node. -/
theorem Grown.eq_of_id (h : Grown s) (he : e ∈ s.nodes) (he' : e' ∈ s.nodes)
    (hid : e.2.id = e'.2.id) : e = e' :=
  List.inj_on_of_nodup_map h.nodup he he' hid

theorem ids_dbNodeGet (hf : ∀ nd, (f nd).id = nd.id) :
    ∃ new, new.Sublist [s.next + 1, s.next] ∧
      (s.dbNodeGet p f).ids.Perm (s.ids ++ new) := by
  obtain ⟨addr, prefixlen⟩ := p
  cases addr with
  | inet addr =>
      obtain ⟨new, hnew, hperm⟩ := map_nodes_dbNodeGet (g := DbNode.id) hf
        ⟨s.next, none, none⟩ ⟨s.next + 1, none, none⟩ s.lispDb4 ⟨.inet addr, prefixlen⟩
      refine ⟨new, hnew, ?_⟩
      simp only [MapServer.ids, MapServer.nodes, MapServer.dbNodeGet, List.map_append]
      refine (hperm.append_right _).trans ?_
      rw [List.append_assoc, List.append_assoc]
      exact List.perm_append_comm.append_left _
  | inet6 addr =>
      obtain ⟨new, hnew, hperm⟩ := map_nodes_dbNodeGet (g := DbNode.id) hf
        ⟨s.next, none, none⟩ ⟨s.next + 1, none, none⟩ s.lispDb6 ⟨.inet6 addr, prefixlen⟩
      refine ⟨new, hnew, ?_⟩
      simp only [MapServer.ids, MapServer.nodes, MapServer.dbNodeGet, List.map_append]
      rw [List.append_assoc]
      exact hperm.append_left _

/-- The nodes of other prefixes stay as they are. -/
theorem Grown.mem_dbNodeGet (h : Grown s) (he : e ∈ s.nodes) (hne : ¬ SamePrefix e.1 p) :
    e ∈ (s.dbNodeGet p f).nodes := by
  obtain ⟨addr, prefixlen⟩ := p
  cases addr with
  | inet addr =>
      rcases List.mem_append.mp he with h4 | h6
      · refine List.mem_append_left _ (mem_nodes_dbNodeGet h4 fun hbits => ?_)
        exact hne ⟨h.width4 e h4, hbits⟩
      · exact List.mem_append_right _ h6
  | inet6 addr =>
      rcases List.mem_append.mp he with h4 | h6
      · exact List.mem_append_left _ h4
      · refine List.mem_append_right _ (mem_nodes_dbNodeGet h6 fun hbits => ?_)
        exact hne ⟨h.width6 e h6, hbits⟩

/-- The node of the prefix is changed. -/
theorem Grown.mem_dbNodeGet_self (h : Grown s) (he : e ∈ s.nodes)
    (hsame : SamePrefix e.1 p) : (e.1, f e.2) ∈ (s.dbNodeGet p f).nodes := by
  obtain ⟨addr, prefixlen⟩ := p
  obtain ⟨hwidth, hbits⟩ := hsame
  cases addr with
  | inet addr =>
      rcases List.mem_append.mp he with h4 | h6
      · exact List.mem_append_left _ (mem_nodes_dbNodeGet_self h.inPlace4 h4 hbits)
      · rw [h.width6 e h6] at hwidth
        cases hwidth
  | inet6 addr =>
      rcases List.mem_append.mp he with h4 | h6
      · rw [h.width4 e h4] at hwidth
        cases hwidth
      · exact List.mem_append_right _ (mem_nodes_dbNodeGet_self h.inPlace6 h6 hbits)

/-- A node that is made or changed. -/
theorem mem_dbNodeGet_cases (he : e ∈ (s.dbNodeGet p f).nodes) :
    e ∈ s.nodes ∨ e.2 = ⟨s.next, none, none⟩ ∨ e.2 = f ⟨s.next + 1, none, none⟩ ∨
      ∃ nd, (e.1, nd) ∈ s.nodes ∧ e.2 = f nd := by
  have hcases : ∀ {t : DbTree DbNode}, t.nodes ⊆ s.nodes →
      e ∈ (t.dbNodeGet ⟨s.next, none, none⟩ ⟨s.next + 1, none, none⟩ f p).nodes →
      e ∈ s.nodes ∨ e.2 = ⟨s.next, none, none⟩ ∨ e.2 = f ⟨s.next + 1, none, none⟩ ∨
        ∃ nd, (e.1, nd) ∈ s.nodes ∧ e.2 = f nd := by
    intro t ht hmem
    rcases mem_nodes_dbNodeGet_cases hmem with hold | ⟨-, hglue⟩ | ⟨-, hfresh | ⟨nd, hnd, hf⟩⟩
    · exact Or.inl (ht hold)
    · exact Or.inr (Or.inl hglue)
    · exact Or.inr (Or.inr (Or.inl hfresh))
    · exact Or.inr (Or.inr (Or.inr ⟨nd, ht hnd, hf⟩))
  have h4 : s.lispDb4.nodes ⊆ s.nodes := List.subset_append_left _ _
  have h6 : s.lispDb6.nodes ⊆ s.nodes := List.subset_append_right _ _
  obtain ⟨addr, prefixlen⟩ := p
  cases addr with
  | inet addr =>
      rcases List.mem_append.mp he with hget | hother
      · exact hcases h4 hget
      · exact Or.inl (h6 hother)
  | inet6 addr =>
      rcases List.mem_append.mp he with hother | hget
      · exact Or.inl (h4 hother)
      · exact hcases h6 hget

theorem next_dbNodeGet : (s.dbNodeGet p f).next = s.next + 3 := by
  obtain ⟨addr, prefixlen⟩ := p
  cases addr with
  | inet addr => rfl
  | inet6 addr => rfl

theorem Grown.dbNodeGet (h : Grown s) (hf : Keeps s.next f) :
    Grown (s.dbNodeGet p f) := by
  obtain ⟨new, hnew, hperm⟩ := ids_dbNodeGet (s := s) (p := p) hf.id_eq
  have hnewIds : ∀ id ∈ new, s.next ≤ id ∧ id < s.next + 3 := by
    intro id hid
    have hmem := hnew.subset hid
    rw [List.mem_cons, List.mem_singleton] at hmem
    omega
  have hplaces : (s.dbNodeGet p f).lispDb4.InPlace ∧ (s.dbNodeGet p f).lispDb6.InPlace ∧
      (∀ e ∈ (s.dbNodeGet p f).lispDb4.nodes, e.1.addr.width = 32) ∧
      ∀ e ∈ (s.dbNodeGet p f).lispDb6.nodes, e.1.addr.width = 128 := by
    obtain ⟨addr, prefixlen⟩ := p
    cases addr with
    | inet addr =>
        exact ⟨h.inPlace4.dbNodeGet, h.inPlace6, width_dbNodeGet h.width4 rfl, h.width6⟩
    | inet6 addr =>
        exact ⟨h.inPlace4, h.inPlace6.dbNodeGet, h.width4, width_dbNodeGet h.width6 rfl⟩
  refine ⟨hplaces.1, hplaces.2.1, hplaces.2.2.1, hplaces.2.2.2, ?_, ?_, ?_⟩
  · rw [hperm.nodup_iff, List.nodup_append]
    refine ⟨h.nodup, hnew.nodup (by simp), ?_⟩
    intro id hid id' hid' heq
    have hlt := h.ids_lt id hid
    have hge := (hnewIds id' hid').1
    omega
  · intro id hid
    rw [next_dbNodeGet]
    rcases List.mem_append.mp (hperm.mem_iff.mp hid) with hold | hmade
    · exact (h.ids_lt id hold).trans (by omega)
    · exact (hnewIds id hmade).2
  · intro e he i hi
    rw [next_dbNodeGet]
    have hchanged : ∀ nd, (∀ i ∈ nd.info, i.1 < s.next) → e.2 = f nd → i.1 < s.next + 3 := by
      intro nd hnd heq
      rw [heq] at hi
      rcases hf.info nd i hi with hold | hnew
      · exact (hnd i hold).trans (by omega)
      · exact hnew
    have hmade : ∀ i ∈ (none : Option (ℕ × List RegisterEntry)), i.1 < s.next :=
      fun _ hi => absurd hi (Option.not_mem_none _)
    rcases mem_dbNodeGet_cases he with hold | hglue | hfresh | ⟨nd, hnd, heq⟩
    · exact (h.info_lt e hold i hi).trans (by omega)
    · rw [hglue] at hi
      exact absurd hi (Option.not_mem_none _)
    · exact hchanged _ hmade hfresh
    · exact hchanged nd (h.info_lt _ hnd) heq

/-! ### Mappings -/

theorem keeps_enter (next : ℕ) (mflags : DbFlags) (info : List RegisterEntry) :
    Keeps next fun nd =>
      { nd with flags := some (MapServer.setFlags nd.flags mflags),
                info := some (next + 2, info) } where
  id_eq := fun _ => rfl
  info := by
    rintro nd i ⟨⟩
    exact Or.inr (Nat.lt_succ_self _)

theorem Grown.enterMapping (h : Grown s) (p : Prefix) (mflags : DbFlags)
    (info : List RegisterEntry) : Grown (s.enterMapping p mflags info) :=
  h.dbNodeGet (keeps_enter s.next mflags info)

theorem Grown.enterMappings (h : Grown s) (mappings : List RegisterMapping) :
    Grown (s.enterMappings mappings) := by
  induction mappings generalizing s with
  | nil => exact h
  | cons m mappings ih => exact ih (h.enterMapping m.eid (registerFlags m) m.info)

/-- No node is freed, and the nodes that are made have new addresses. -/
theorem ids_enterMappings (s : MapServer) (mappings : List RegisterMapping) :
    ∃ new, (∀ id ∈ new, s.next ≤ id) ∧
      (s.enterMappings mappings).ids.Perm (s.ids ++ new) := by
  induction mappings generalizing s with
  | nil => exact ⟨[], by simp, by simp [MapServer.enterMappings]⟩
  | cons m mappings ih =>
      obtain ⟨first, hfirst, hperm⟩ := ids_dbNodeGet (s := s) (p := m.eid)
        (keeps_enter s.next (registerFlags m) m.info).id_eq
      obtain ⟨rest, hrest, hperm'⟩ :=
        ih (s.enterMapping m.eid (registerFlags m) m.info)
      refine ⟨first ++ rest, ?_, ?_⟩
      · intro id hid
        rcases List.mem_append.mp hid with hf | hr
        · have hmem := hfirst.subset hf
          rw [List.mem_cons, List.mem_singleton] at hmem
          omega
        · have hle := hrest id hr
          rw [MapServer.enterMapping, next_dbNodeGet] at hle
          omega
      · rw [← List.append_assoc]
        exact hperm'.trans (hperm.append_right rest)

/-- A node whose prefix no mapping has stays as it is. -/
theorem Grown.mem_enterMappings {mappings : List RegisterMapping} (h : Grown s)
    (he : e ∈ s.nodes) (hne : ∀ m ∈ mappings, ¬ SamePrefix e.1 m.eid) :
    e ∈ (s.enterMappings mappings).nodes := by
  induction mappings generalizing s with
  | nil => exact he
  | cons m mappings ih =>
      obtain ⟨hm, hrest⟩ := List.forall_mem_cons.mp hne
      exact ih (h.enterMapping m.eid (registerFlags m) m.info) (h.mem_dbNodeGet he hm) hrest

/-- A node whose prefix a mapping has gets new locators. -/
theorem Grown.mem_enterMappings_named {mappings : List RegisterMapping} (h : Grown s)
    (he : e ∈ s.nodes) (hnamed : ∃ m ∈ mappings, SamePrefix e.1 m.eid) :
    ∃ nd, (e.1, nd) ∈ (s.enterMappings mappings).nodes ∧ nd.id = e.2.id ∧
      ∃ i ∈ nd.info, s.next ≤ i.1 := by
  induction mappings generalizing s e with
  | nil =>
      obtain ⟨m, hm, -⟩ := hnamed
      cases hm
  | cons m mappings ih =>
      have hgrown := h.enterMapping m.eid (registerFlags m) m.info
      have hnext : s.next ≤ (s.enterMapping m.eid (registerFlags m) m.info).next := by
        rw [MapServer.enterMapping, next_dbNodeGet]
        omega
      -- the rest of the mappings may name the node again
      have hrest : ∀ {e' : Prefix × DbNode},
          e' ∈ (s.enterMapping m.eid (registerFlags m) m.info).nodes →
          e'.1 = e.1 → e'.2.id = e.2.id →
          (∃ m' ∈ mappings, SamePrefix e'.1 m'.eid) →
          ∃ nd, (e.1, nd) ∈ (s.enterMappings (m :: mappings)).nodes ∧ nd.id = e.2.id ∧
            ∃ i ∈ nd.info, s.next ≤ i.1 := by
        intro e' he' hprefixes hid hnamed'
        obtain ⟨nd, hnd, hndid, i, hi, hle⟩ := ih hgrown he' hnamed'
        exact ⟨nd, hprefixes ▸ hnd, hndid.trans hid, i, hi, hnext.trans hle⟩
      by_cases hm : SamePrefix e.1 m.eid
      · have hself := h.mem_dbNodeGet_self (f := fun nd =>
          { nd with flags := some (MapServer.setFlags nd.flags (registerFlags m)),
                    info := some (s.next + 2, m.info) }) he hm
        by_cases hlater : ∃ m' ∈ mappings, SamePrefix e.1 m'.eid
        · exact hrest hself rfl rfl hlater
        · have hstays := hgrown.mem_enterMappings hself fun m' hm' hsame =>
            hlater ⟨m', hm', hsame⟩
          exact ⟨_, hstays, rfl, (s.next + 2, m.info), rfl, Nat.le_add_right _ _⟩
      · obtain ⟨m', hm', hsame⟩ := hnamed
        rcases List.mem_cons.mp hm' with rfl | hlater
        · exact absurd hsame hm
        · exact hrest (h.mem_dbNodeGet he hm) rfl rfl ⟨m', hlater, hsame⟩

/-! ### Cleaning -/

theorem cleanSite_eq (s : MapServer) (site : ℕ) :
    s.cleanSite site =
      { s with lispDb4 := s.lispDb4.cleanAll (s.eids site),
               lispDb6 := s.lispDb6.cleanAll (s.eids site) } := by
  rw [MapServer.cleanSite]
  generalize s.eids site = ids
  rw [← foldl_clean, ← foldl_clean]
  induction ids generalizing s with
  | nil => rfl
  | cons id ids ih => exact ih { s with lispDb4 := _, lispDb6 := _ }

theorem ids_cleanSite (s : MapServer) (site : ℕ) :
    s.ids.Perm ((s.cleanSite site).ids ++
      (s.freed (s.eids site)).map fun e => e.2.id) := by
  rw [cleanSite_eq]
  simp only [MapServer.ids, MapServer.nodes, MapServer.freed, List.map_append]
  refine ((ids_perm s.lispDb4 (s.eids site)).append
    (ids_perm s.lispDb6 (s.eids site))).trans ?_
  simp only [DbTree.ids, List.append_assoc]
  refine List.Perm.append_left _ ?_
  rw [← List.append_assoc, ← List.append_assoc]
  exact List.perm_append_comm.append_right _

/-- A node is freed, or cleaned if it is one of the site. -/
theorem freed_or_mem_cleanSite (site : ℕ) (he : e ∈ s.nodes) :
    e ∈ s.freed (s.eids site) ∨
      (e.1, cleanedBy (s.eids site) e.2) ∈ (s.cleanSite site).nodes := by
  rw [cleanSite_eq]
  rcases List.mem_append.mp he with h4 | h6
  · exact (freed_or_mem_cleanAll h4).imp (List.mem_append_left _) (List.mem_append_left _)
  · exact (freed_or_mem_cleanAll h6).imp (List.mem_append_right _) (List.mem_append_right _)

theorem Grown.cleanSite (h : Grown s) (site : ℕ) : Grown (s.cleanSite site) := by
  have hperm := ids_cleanSite s site
  have hnodup := (List.nodup_append.mp (hperm.nodup_iff.mp h.nodup)).1
  have hids : ∀ id ∈ (s.cleanSite site).ids, id < s.next := fun id hid =>
    h.ids_lt id (hperm.mem_iff.mpr (List.mem_append_left _ hid))
  have hinfo : ∀ {t : DbTree DbNode}, t.nodes ⊆ s.nodes →
      ∀ e ∈ (t.cleanAll (s.eids site)).nodes, ∀ i ∈ e.2.info, i.1 < s.next := by
    intro t ht e he i hi
    obtain ⟨nd, hnd, heq⟩ := mem_of_mem_cleanAll he
    rw [heq, cleanedBy] at hi
    split at hi
    · cases hi
    · exact h.info_lt _ (ht hnd) i hi
  rw [cleanSite_eq] at hnodup hids ⊢
  refine ⟨inPlace_cleanAll h.inPlace4, inPlace_cleanAll h.inPlace6, ?_, ?_, hnodup, hids, ?_⟩
  · intro e he
    obtain ⟨nd, hnd, -⟩ := mem_of_mem_cleanAll he
    exact h.width4 (e.1, nd) hnd
  · intro e he
    obtain ⟨nd, hnd, -⟩ := mem_of_mem_cleanAll he
    exact h.width6 (e.1, nd) hnd
  · intro e he
    rcases List.mem_append.mp he with h4 | h6
    · exact hinfo (List.subset_append_left _ _) e h4
    · exact hinfo (List.subset_append_right _ _) e h6

end Growth

end HyLisp.ControlPlane
