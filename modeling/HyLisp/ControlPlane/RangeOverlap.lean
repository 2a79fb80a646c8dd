import HyLisp.ControlPlane.DatabaseGrowth
import HyLisp.ControlPlane.SiteConfiguration

/-!
# Overlapping ranges

The ranges that the configuration sets aside for EIDs and for referrals are not to
overlap.  A prefix is checked against what lies above it in the tree: a range that
contains it is found there, one that it contains lies below, and the node of the same
prefix counts as valid.
-/

namespace HyLisp.ControlPlane

open DataPlane

/-- An `eid_prefix` of the configuration of a map server or of a DDT node. -/
structure RangeOffer where
  type : UInt8
  p : ConfigPrefix
  isRange : type = typeGeid ∨ type = typeGreid

/-- One of the prefixes contains or equals the other one. -/
def Overlap (p q : Prefix) : Prop :=
  p.addr.width = q.addr.width ∧ (p.bits <+: q.bits ∨ q.bits <+: p.bits)

/-- The prefixes that are accepted and set aside, one after the other. -/
def accepted : MapServer → List RangeOffer → List RangeOffer
  | _, [] => []
  | s, offer :: rest =>
      let accepted := accepted (s.assign offer.type offer.p.toPrefix) rest
      if s.validPrefix offer.p.toPrefix offer.type then offer :: accepted else accepted

/-- The prefixes accepted do not overlap, and they are the same in whatever order they
are offered. -/
structure RangesDisjoint (sites : ℕ → SiteInfo) (offers : List RangeOffer) : Prop where
  disjoint : (accepted (MapServer.msInitDb sites) offers).Pairwise fun o o' =>
    ¬Overlap o.p.toPrefix o'.p.toPrefix
  independent : ∀ offers', offers'.Perm offers →
    (accepted (MapServer.msInitDb sites) offers').Perm
      (accepted (MapServer.msInitDb sites) offers)

/-! ## Trees of ranges -/

/-- Below its top, the flags in a tree are those of ranges. -/
def HoldsRanges (w : ℕ) (offers : List RangeOffer) (t : DbTree DbNode) : Prop :=
  ∃ top nd left right, t = .node top nd left right ∧ top.bits = [] ∧ t.InPlace ∧
    (∀ e ∈ t.nodes, e.1.addr.width = w) ∧
    ∀ e ∈ left.nodes ++ right.nodes, e.2.flags ≠ none →
      ∃ o ∈ offers, SamePrefix e.1 o.p.toPrefix

section Trees

variable {t : DbTree DbNode} {p : Prefix} {w : ℕ} {offers : List RangeOffer}

/-- A search ends at the longest of the nodes that it passes. -/
theorem length_bits_le_getLast {k : List Bool} (h : BitTrie.Below k t.toTrie)
    {rn node : Prefix × DbNode} (hlast : (t.matchPath p).getLast? = some rn)
    (hnode : node ∈ t.matchPath p) : node.1.bits.length ≤ rn.1.bits.length := by
  induction t generalizing k with
  | nil => cases hnode
  | node n data left right ihleft ihright =>
      obtain ⟨-, hleft, hright⟩ := h
      have hside : ∀ {b : Bool} {side : DbTree DbNode},
          BitTrie.Below (n.bits ++ [b]) side.toTrie →
          ((side.matchPath p).getLast? = some rn → node ∈ side.matchPath p →
            node.1.bits.length ≤ rn.1.bits.length) →
          ((n, data) :: side.matchPath p).getLast? = some rn →
          node ∈ (n, data) :: side.matchPath p →
          node.1.bits.length ≤ rn.1.bits.length := by
        intro b side hbelow hrest hlast hnode
        rw [List.getLast?_cons] at hlast
        cases hend : (side.matchPath p).getLast? with
        | none =>
            rw [hend] at hlast
            rw [List.getLast?_eq_none_iff.mp hend, List.mem_singleton] at hnode
            rw [hnode, ← Option.some_inj.mp hlast]
            rfl
        | some last =>
            rw [hend] at hlast hrest
            obtain rfl : last = rn := Option.some_inj.mp hlast
            rcases List.mem_cons.mp hnode with rfl | hmem
            · -- below a node, prefixes are longer
              have hlast := matchPath_subset_nodes (List.mem_of_getLast? hend)
              have hle := (hbelow.prefix_of_mem (mem_nodes_iff.mp hlast)).length_le
              rw [List.length_append, List.length_singleton] at hle
              exact Nat.le_of_succ_le hle
            · exact hrest rfl hmem
      rw [DbTree.matchPath] at hlast hnode
      split at hlast
      next hcover =>
        rw [if_pos hcover] at hnode
        split at hlast
        next hbit =>
          rw [if_pos hbit] at hnode
          exact hside hright (ihright hright) hlast hnode
        next hbit =>
          rw [if_neg hbit] at hnode
          exact hside hleft (ihleft hleft) hlast hnode
      · cases hlast

/-- The nodes with flags after a range was set aside. -/
theorem flags_dbNodeGet {o : RangeOffer} {id : ℕ} {fresh : DbNode} {f : DbNode → DbNode}
    (hwidth : ∀ e ∈ t.nodes, e.1.addr.width = w) (hw : o.p.addr.width = w)
    (hflags : ∀ e ∈ t.nodes, e.2.flags ≠ none →
      ∃ o ∈ offers, SamePrefix e.1 o.p.toPrefix) :
    ∀ e ∈ (t.dbNodeGet ⟨id, none, none⟩ fresh f o.p.toPrefix).nodes, e.2.flags ≠ none →
      ∃ o' ∈ o :: offers, SamePrefix e.1 o'.p.toPrefix := by
  intro e he hflag
  rcases mem_nodes_dbNodeGet_cases he with hold | ⟨-, hglue⟩ | ⟨hbits, -⟩
  · obtain ⟨o', ho', hsame⟩ := hflags e hold hflag
    exact ⟨o', List.mem_cons_of_mem _ ho', hsame⟩
  · rw [hglue] at hflag
    exact absurd rfl hflag
  · refine ⟨o, List.mem_cons_self, ?_, hbits⟩
    exact (width_dbNodeGet hwidth hw e he).trans hw.symm

/-- Behind its top a search passes nodes below it. -/
theorem mem_sides_of_mem_tail {top : Prefix} {nd : DbNode} {left right : DbTree DbNode}
    {e : Prefix × DbNode} (he : e ∈ ((DbTree.node top nd left right).matchPath p).tail) :
    e ∈ left.nodes ++ right.nodes := by
  rw [DbTree.matchPath] at he
  split at he
  · rw [List.tail_cons] at he
    split at he
    · exact List.mem_append_right _ (matchPath_subset_nodes he)
    · exact List.mem_append_left _ (matchPath_subset_nodes he)
  · cases he

/-- A new range, or one that is there already, is set aside. -/
theorem HoldsRanges.dbNodeGet {o : RangeOffer} {id : ℕ} {fresh : DbNode}
    {f : DbNode → DbNode} (h : HoldsRanges w offers t) (hw : o.p.addr.width = w) :
    HoldsRanges w (o :: offers)
      (t.dbNodeGet ⟨id, none, none⟩ fresh f o.p.toPrefix) := by
  obtain ⟨top, nd, left, right, rfl, htop, hplace, hwidth, hflags⟩ := h
  have hplace' : ((DbTree.node top nd left right).dbNodeGet ⟨id, none, none⟩ fresh f
      o.p.toPrefix).InPlace := hplace.dbNodeGet
  have hwidth' : ∀ e ∈ ((DbTree.node top nd left right).dbNodeGet ⟨id, none, none⟩ fresh f
      o.p.toPrefix).nodes, e.1.addr.width = w := width_dbNodeGet hwidth hw
  have hcover : top.prefixlen ≤ o.p.prefixlen ∧ prefixMatch top o.p.toPrefix = true :=
    covers_iff.mpr (htop ▸ List.nil_prefix)
  rw [DbTree.dbNodeGet, if_pos hcover] at hplace' hwidth' ⊢
  have hmono : ∀ e ∈ left.nodes ++ right.nodes, e.2.flags ≠ none →
      ∃ o' ∈ o :: offers, SamePrefix e.1 o'.p.toPrefix := by
    intro e he hflag
    obtain ⟨o', ho', hsame⟩ := hflags e he hflag
    exact ⟨o', List.mem_cons_of_mem _ ho', hsame⟩
  have hsides : ∀ e ∈ left.nodes ++ right.nodes, e.1.addr.width = w :=
    fun e he => hwidth e (List.mem_cons_of_mem _ he)
  rw [List.forall_mem_append] at hflags hmono hsides
  split at hplace'
  next hlen =>
    rw [if_pos hlen] at hwidth' ⊢
    exact ⟨top, f nd, left, right, rfl, htop, hplace', hwidth',
      List.forall_mem_append.mpr hmono⟩
  next hlen =>
    rw [if_neg hlen] at hwidth' ⊢
    split at hplace'
    next hbit =>
      rw [if_pos hbit] at hwidth' ⊢
      exact ⟨top, nd, left, _, rfl, htop, hplace', hwidth', List.forall_mem_append.mpr
        ⟨hmono.1, flags_dbNodeGet hsides.2 hw hflags.2⟩⟩
    next hbit =>
      rw [if_neg hbit] at hwidth' ⊢
      exact ⟨top, nd, _, right, rfl, htop, hplace', hwidth', List.forall_mem_append.mpr
        ⟨flags_dbNodeGet hsides.1 hw hflags.1, hmono.2⟩⟩

end Trees

/-! ## What is accepted -/

section Accepted

variable {s : MapServer} {offers : List RangeOffer} {o : RangeOffer}

/-- The flags in both trees are those of ranges. -/
def RangesOnly (s : MapServer) (offers : List RangeOffer) : Prop :=
  ∀ addr : Address, HoldsRanges addr.width offers (s.tree addr)

theorem rangesOnly_msInitDb (sites : ℕ → SiteInfo) :
    RangesOnly (MapServer.msInitDb sites) [] := by
  intro addr
  cases addr with
  | inet addr =>
      refine ⟨_, _, .nil, .nil, rfl, rfl, ⟨List.nil_prefix, trivial, trivial⟩, ?_, ?_⟩
      · intro e he
        rw [List.mem_singleton.mp he]
        rfl
      · intro e he
        cases he
  | inet6 addr =>
      refine ⟨_, _, .nil, .nil, rfl, rfl, ⟨List.nil_prefix, trivial, trivial⟩, ?_, ?_⟩
      · intro e he
        rw [List.mem_singleton.mp he]
        rfl
      · intro e he
        cases he

theorem HoldsRanges.mono {w : ℕ} {t : DbTree DbNode} (h : HoldsRanges w offers t) :
    HoldsRanges w (o :: offers) t := by
  obtain ⟨top, nd, left, right, heq, htop, hplace, hwidth, hflags⟩ := h
  refine ⟨top, nd, left, right, heq, htop, hplace, hwidth, fun e he hflag => ?_⟩
  obtain ⟨o', ho', hsame⟩ := hflags e he hflag
  exact ⟨o', List.mem_cons_of_mem _ ho', hsame⟩

/-- Whether it is accepted or not, an offer leaves ranges only. -/
theorem RangesOnly.assign (h : RangesOnly s offers) :
    RangesOnly (s.assign o.type o.p.toPrefix) (o :: offers) := by
  intro addr
  rw [MapServer.assign]
  split
  · have haddr := h addr
    have hget : o.p.addr.width = addr.width → HoldsRanges addr.width (o :: offers)
        ((s.tree addr).dbNodeGet ⟨s.next, none, none⟩ ⟨s.next + 1, none, none⟩
          (MapServer.msNodeUpdateType o.type) o.p.toPrefix) := fun hw => haddr.dbNodeGet hw
    rw [MapServer.dbNodeGet]
    cases hoffer : o.p.addr with
    | inet a =>
        cases addr with
        | inet b => exact hget (by rw [hoffer]; rfl)
        | inet6 b => exact haddr.mono
    | inet6 a =>
        cases addr with
        | inet b => exact haddr.mono
        | inet6 b => exact hget (by rw [hoffer]; rfl)
  · exact (h addr).mono

theorem rangeAllows_none (o : RangeOffer) : rangeAllows o.type none = true := by
  rcases o.isRange with htype | htype
  · rw [htype]
    rfl
  · rw [htype]
    rfl

/-- A prefix that no range properly contains is accepted. -/
theorem validPrefix_of_not_covered (h : RangesOnly s offers)
    (hcover : ∀ o' ∈ offers, o'.p.addr.width = o.p.addr.width →
      o'.p.bits <+: o.p.bits → o'.p.bits = o.p.bits) :
    s.validPrefix o.p.toPrefix o.type = true := by
  obtain ⟨top, nd, left, right, htree, htop, hplace, hwidth, hflags⟩ := h o.p.addr
  rw [htree] at hplace hwidth
  rw [MapServer.validPrefix, htree]
  cases hlast : ((DbTree.node top nd left right).matchPath o.p.toPrefix).getLast? with
  | none => rfl
  | some rn =>
      by_cases hlen : rn.1.prefixlen = o.p.prefixlen
      · exact if_pos hlen
      · dsimp only
        rw [if_neg hlen]
        have hrn := (DbTree.isPrefix_of_mem_matchPath (List.mem_of_getLast? hlast))
        have hnone : ((DbTree.node top nd left right).matchPath
            o.p.toPrefix).tail.reverse.findSome? (fun node => node.2.flags) = none := by
          rw [List.findSome?_eq_none_iff]
          intro e he
          by_contra hflag
          have htail := List.mem_reverse.mp he
          have hpath := List.mem_of_mem_tail htail
          have hcovered := DbTree.isPrefix_of_mem_matchPath hpath
          obtain ⟨o', ho', hsame⟩ := hflags e (mem_sides_of_mem_tail htail) hflag
          have hbits := hcover o' ho'
            (hsame.1.symm.trans (hwidth e (matchPath_subset_nodes hpath)))
            (hsame.2 ▸ hcovered)
          -- then the search ends at a node of the same prefix
          have hle := length_bits_le_getLast hplace hlast hpath
          rw [hsame.2, hbits] at hle
          exact hlen ((bits_eq_iff hrn).mpr (hrn.eq_of_length_le hle))
        rw [hnone, Option.map_none]
        exact rangeAllows_none o

/-- Offers that do not overlap are all accepted. -/
theorem accepted_of_disjoint {rest : List RangeOffer} (h : RangesOnly s offers)
    (hrest : rest.Pairwise fun o o' => ¬Overlap o.p.toPrefix o'.p.toPrefix)
    (hnew : ∀ o ∈ rest, ∀ o' ∈ offers, ¬Overlap o.p.toPrefix o'.p.toPrefix) :
    accepted s rest = rest := by
  induction rest generalizing s offers with
  | nil => rfl
  | cons o rest ih =>
      obtain ⟨hhead, htail⟩ := List.pairwise_cons.mp hrest
      have hvalid : s.validPrefix o.p.toPrefix o.type = true := by
        refine validPrefix_of_not_covered h fun o' ho' hwidth hbits => ?_
        exact absurd ⟨hwidth.symm, Or.inr hbits⟩ (hnew o List.mem_cons_self o' ho')
      rw [accepted, if_pos hvalid, ih h.assign htail]
      intro o₁ ho₁ o' ho'
      rcases List.mem_cons.mp ho' with rfl | hold
      · exact fun hoverlap =>
          hhead o₁ ho₁ ⟨hoverlap.1.symm, hoverlap.2.symm⟩
      · exact hnew o₁ (List.mem_cons_of_mem _ ho₁) o' hold

/-- Of two offers that overlap both are accepted when the one that is contained comes
first. -/
theorem accepted_longer_first (sites : ℕ → SiteInfo) {inner outer : RangeOffer}
    (hbits : outer.p.bits <+: inner.p.bits) (rest : List RangeOffer) :
    ∃ more, accepted (MapServer.msInitDb sites) (inner :: outer :: rest) =
      inner :: outer :: more := by
  have hinit := rangesOnly_msInitDb sites
  have hinner : (MapServer.msInitDb sites).validPrefix inner.p.toPrefix inner.type = true :=
    validPrefix_of_not_covered hinit fun o' ho' => absurd ho' List.not_mem_nil
  have houter : ((MapServer.msInitDb sites).assign inner.type
      inner.p.toPrefix).validPrefix outer.p.toPrefix outer.type = true := by
    refine validPrefix_of_not_covered (hinit.assign (o := inner))
      fun o' ho' _ hcovered => ?_
    obtain rfl := List.mem_singleton.mp ho'
    exact hcovered.eq_of_length_le hbits.length_le
  rw [accepted, accepted, if_pos hinner, if_pos houter]
  exact ⟨_, rfl⟩

end Accepted

/-- The ranges that are accepted are disjoint, and acceptance does not depend on the
order, exactly when no two of the prefixes offered overlap. -/
theorem rangesDisjoint_iff (sites : ℕ → SiteInfo) (offers : List RangeOffer) :
    RangesDisjoint sites offers ↔
      offers.Pairwise fun o o' => ¬Overlap o.p.toPrefix o'.p.toPrefix := by
  have hsymm : ∀ {o o' : RangeOffer}, ¬Overlap o.p.toPrefix o'.p.toPrefix →
      ¬Overlap o'.p.toPrefix o.p.toPrefix :=
    fun h hoverlap => h ⟨hoverlap.1.symm, hoverlap.2.symm⟩
  constructor
  · intro h
    rw [List.pairwise_iff_forall_sublist]
    intro a b hsublist hoverlap
    obtain ⟨rest, hperm⟩ := hsublist.exists_perm_append
    -- the contained one of the two is offered first
    have hboth : ∀ inner outer : RangeOffer, outer.p.bits <+: inner.p.bits →
        (inner :: outer :: rest).Perm offers →
        ¬Overlap inner.p.toPrefix outer.p.toPrefix := by
      intro inner outer hbits hperm'
      obtain ⟨more, hmore⟩ := accepted_longer_first sites hbits rest
      have haccepted := h.independent _ hperm'
      rw [hmore] at haccepted
      have hdisjoint := (haccepted.pairwise_iff hsymm).mpr h.disjoint
      exact (List.pairwise_cons.mp hdisjoint).1 outer List.mem_cons_self
    rcases hoverlap.2 with hbits | hbits
    · exact hboth b a hbits ((List.Perm.swap a b rest).trans hperm.symm)
        ⟨hoverlap.1.symm, Or.inr hbits⟩
    · exact hboth a b hbits hperm.symm hoverlap
  · intro h
    have hall : ∀ offers' : List RangeOffer, offers'.Perm offers →
        accepted (MapServer.msInitDb sites) offers' = offers' := by
      intro offers' hperm
      refine accepted_of_disjoint (rangesOnly_msInitDb sites)
        ((hperm.pairwise_iff hsymm).mpr h) ?_
      exact fun _ _ o' ho' => absurd ho' List.not_mem_nil
    refine ⟨?_, fun offers' hperm => ?_⟩
    · rw [hall offers (List.Perm.refl offers)]
      exact h
    · rw [hall offers' hperm, hall offers (List.Perm.refl offers)]
      exact hperm

/-- A range of 10.0.0.0/`len` for EIDs. -/
def tenRange (len : UInt8) (h : len.toNat ≤ 32) : RangeOffer :=
  ⟨typeGeid, ⟨⟨.inet (Vector.ofFn fun i => if i.val = 0 then 10 else 0), len⟩, h⟩,
    Or.inl rfl⟩

/-- 10.0.0.0/8 is accepted although 10.0.0.0/16 is set aside already. -/
theorem not_rangesDisjoint_ten :
    ¬ ∀ sites offers, RangesDisjoint sites offers := by
  intro h
  have hbits : (tenRange 8 (by decide)).p.bits <+: (tenRange 16 (by decide)).p.bits := by
    decide
  obtain ⟨more, hmore⟩ := accepted_longer_first (fun _ => ⟨[], none⟩) hbits []
  have hdisjoint := (h (fun _ => ⟨[], none⟩)
    [tenRange 16 (by decide), tenRange 8 (by decide)]).disjoint
  rw [hmore] at hdisjoint
  exact (List.pairwise_cons.mp hdisjoint).1 _ List.mem_cons_self ⟨rfl, Or.inr hbits⟩

end HyLisp.ControlPlane
