import HyLisp.ControlPlane.DelegationHoles
import HyLisp.ControlPlane.SiteIsolation
import HyLisp.Support.LongestMatch
import HyLisp.Support.TrieSearch
import Mathlib.Data.List.Find

/-!
# Targets of requests

A search passes all nodes that cover a prefix, the shorter ones first.  So a climb from
the node where it ends stops at the longest of these that is of the types looked for, or
at the top of the tree, whatever was configured, registered or learned before.
-/

namespace HyLisp.ControlPlane

open DataPlane LongestMatch Transition

/-! ## The path of a search -/

section Path

variable {ν : Type} {t : DbTree ν} {p : Prefix}

/-- A search is a search in the trie. -/
theorem map_matchPath {k : List Bool} (h : BitTrie.Below k t.toTrie) :
    (t.matchPath p).map (fun e => (e.1.bits, e)) = t.toTrie.path p.bits := by
  induction t generalizing k with
  | nil => rfl
  | node n data left right ihleft ihright =>
      obtain ⟨-, hleft, hright⟩ := h
      rw [DbTree.matchPath, DbTree.toTrie, BitTrie.path]
      by_cases hcover : n.bits <+: p.bits
      · rw [if_pos (covers_iff.mpr hcover), if_pos hcover, List.map_cons,
          apply_ite (List.map _), ihleft hleft, ihright hright]
        by_cases heq : n.bits = p.bits
        · -- nothing below the node of the prefix covers it
          have hlonger : ∀ b : Bool, ¬n.bits ++ [b] <+: p.bits := by
            intro b hprefix
            have hle := hprefix.length_le
            rw [heq, List.length_append, List.length_singleton] at hle
            omega
          rw [hleft.path_eq_filter, hright.path_eq_filter, hleft.filter_eq_nil (hlonger false),
            hright.filter_eq_nil (hlonger true), ite_self, ite_self]
        · have hlt := BitTrie.length_lt_of_prefix_of_ne hcover heq
          rw [length_bits, length_bits] at hlt
          rw [checkBit_eq_bitAt hlt, length_bits]
      · rw [if_neg fun hc => hcover (covers_iff.mp hc), if_neg hcover]
        rfl

theorem DbTree.InPlace.matchPath_eq_filter (h : t.InPlace) :
    t.matchPath p = t.nodes.filter fun e => decide (e.1.bits <+: p.bits) := by
  have hpath := map_matchPath (p := p) h
  rw [h.path_eq_filter, entries_toTrie, List.filter_map] at hpath
  apply List.map_injective_iff.mpr _ hpath
  intro e e' heq
  exact (Prod.mk.inj heq).2

theorem DbTree.InPlace.pairwise_matchPath (h : t.InPlace) :
    (t.matchPath p).Pairwise fun e e' => e.1.bits.length < e'.1.bits.length := by
  have hpath : (t.toTrie.path p.bits).Pairwise fun e e' => e.1.length < e'.1.length :=
    BitTrie.Below.pairwise_path h
  rw [← map_matchPath h, List.pairwise_map] at hpath
  exact hpath

/-- Behind the top a search passes the nodes with bits that cover the prefix. -/
theorem DbTree.InPlace.mem_tail_matchPath_iff (h : t.InPlace) (hroot : t.Rooted)
    {e : Prefix × ν} :
    e ∈ (t.matchPath p).tail ↔ e ∈ t.nodes ∧ e.1.bits ≠ [] ∧ e.1.bits <+: p.bits := by
  obtain ⟨top, data, left, right, rfl, htop⟩ := hroot
  have hcover : top.bits <+: p.bits := htop ▸ List.nil_prefix
  have hpath := h.matchPath_eq_filter (p := p)
  rw [DbTree.nodes, List.filter_cons_of_pos (by simpa using hcover)] at hpath
  have hbits : ∀ e ∈ left.nodes ++ right.nodes, e.1.bits ≠ [] := by
    have hside : ∀ {b : Bool} {side : DbTree ν}, BitTrie.Below (top.bits ++ [b]) side.toTrie →
        ∀ e ∈ side.nodes, e.1.bits ≠ [] := by
      intro b side hside e he hnil
      have hprefix := hside.prefix_of_mem (mem_nodes_iff.mp he)
      rw [hnil, List.prefix_nil] at hprefix
      simp at hprefix
    intro e he
    obtain ⟨-, hleft, hright⟩ := h
    rcases List.mem_append.mp he with hl | hr
    · exact hside hleft e hl
    · exact hside hright e hr
  rw [hpath, List.tail_cons, List.mem_filter, decide_eq_true_iff, DbTree.nodes, List.mem_cons]
  constructor
  · rintro ⟨he, hprefix⟩
    exact ⟨Or.inr he, hbits e he, hprefix⟩
  · rintro ⟨rfl | he, hne, hprefix⟩
    · exact absurd htop hne
    · exact ⟨he, hprefix⟩

end Path

/-! ## Where a climb ends -/

/-- A climb ends at the first node that satisfies the condition, and otherwise at the
last one. -/
theorem head?_climb (stop : DbNode → Bool) (below : List DbNode) (top : DbNode) :
    (climb stop (below ++ [top])).head? = some ((below.find? stop).getD top) := by
  induction below with
  | nil => rfl
  | cons nd below ih =>
      cases hrest : below ++ [top] with
      | nil => exact absurd hrest (List.append_ne_nil_of_right_ne_nil _ (List.cons_ne_nil _ _))
      | cons parent above =>
          rw [hrest] at ih
          rw [List.cons_append, hrest, climb]
          by_cases hstop : stop nd = true
          · rw [if_pos hstop, List.find?_cons_of_pos hstop]
            rfl
          · rw [if_neg hstop, List.find?_cons_of_neg hstop]
            exact ih

/-- The node at which a climb for a prefix ends: the longest one that covers the prefix
and satisfies the condition or is the top. -/
def EndsAt (stop : DbNode → Bool) (t : DbTree DbNode) (p : Prefix) : Prefix × DbNode → Prop :=
  IsLongest (fun e => decide (e.1.bits <+: p.bits) && (stop e.2 || e.1.bits.isEmpty))
    (fun e => e.1.bits.length) t.nodes

section Climb

variable {stop : DbNode → Bool} {t : DbTree DbNode} {p : Prefix} {e : Prefix × DbNode}
  {nd : DbNode}

/-- On the path of a search the last node that satisfies a condition is the longest. -/
theorem find?_reverse_matchPath_iff (h : t.InPlace) (isMatch : Prefix × DbNode → Bool) :
    (t.matchPath p).reverse.find? isMatch = some e ↔
      IsLongest (fun e => decide (e.1.bits <+: p.bits) && isMatch e)
        (fun e => e.1.bits.length) t.nodes e := by
  rw [find?_reverse_iff_isLongest h.pairwise_matchPath, h.matchPath_eq_filter,
    isLongest_filter_iff]

/-- In a tree with a top, a climb ends where it should. -/
theorem DbTree.InPlace.head?_climb_iff (h : t.InPlace) (hroot : t.Rooted) :
    (climb stop ((t.matchPath p).map Prod.snd).reverse).head? = some nd ↔
      ∃ n, EndsAt stop t p (n, nd) := by
  have htail : ∀ e ∈ (t.matchPath p).tail, e.1.bits ≠ [] :=
    fun e he => ((h.mem_tail_matchPath_iff hroot).mp he).2.1
  obtain ⟨top, data, below, hpath, htop⟩ : ∃ top data below,
      t.matchPath p = (top, data) :: below ∧ top.bits = [] := by
    obtain ⟨top, data, left, right, rfl, htop⟩ := hroot
    exact ⟨top, data, _, if_pos (covers_iff.mpr (htop ▸ List.nil_prefix)), htop⟩
  rw [hpath, List.tail_cons] at htail
  have hfind : below.reverse.find? (fun e => stop e.2 || e.1.bits.isEmpty) =
      below.reverse.find? (stop ∘ Prod.snd) := by
    apply List.find?_congr
    intro e he
    have hne := htail e (List.mem_reverse.mp he)
    rw [List.isEmpty_eq_false_iff.mpr hne, Bool.or_false, Function.comp_apply]
  have hends : ∀ e, EndsAt stop t p e ↔
      (below.reverse.find? (stop ∘ Prod.snd)).getD (top, data) = e := by
    intro e
    rw [EndsAt, ← find?_reverse_matchPath_iff h, hpath, List.reverse_cons, List.find?_append,
      hfind, List.find?_singleton, htop, List.isEmpty_nil, Bool.or_true, if_pos rfl]
    cases below.reverse.find? (stop ∘ Prod.snd) with
    | none => exact Option.some_inj
    | some e' => exact Option.some_inj
  simp only [hends]
  rw [hpath, List.map_cons, List.reverse_cons, head?_climb, ← List.map_reverse, List.find?_map,
    Option.some_inj]
  cases below.reverse.find? (stop ∘ Prod.snd) with
  | none => exact ⟨fun heq => ⟨top, heq ▸ rfl⟩, fun ⟨n, heq⟩ => congrArg Prod.snd heq⟩
  | some e => exact ⟨fun heq => ⟨e.1, heq ▸ rfl⟩, fun ⟨n, heq⟩ => congrArg Prod.snd heq⟩

end Climb

/-! ## Targets of requests -/

/-- A second climb, for some of the nodes at which the first one may end, ends where it
would without the first. -/
theorem climb_climb {stop stop' : DbNode → Bool} (hstop : ∀ nd, stop' nd = true → stop nd = true)
    (path : List DbNode) : climb stop' (climb stop path) = climb stop' path := by
  induction path with
  | nil => rfl
  | cons nd path ih =>
      cases path with
      | nil => rfl
      | cons parent above =>
          rw [climb]
          split
          · rfl
          next hnot =>
            rw [ih, climb, if_neg fun h => hnot (hstop nd h)]

theorem range_ne_zero_of_isType {nd : DbNode} {types : UInt8} (h : nd.isType types = true) :
    nd.range ≠ 0 := by
  intro hzero
  rw [DbNode.isType, hzero] at h
  exact absurd h (by simp)

section Targets

variable {s s' : MapServer} {p : Prefix} {nd : DbNode} {e : Prefix × DbNode}

/-- The entries of one family are those of its tree. -/
theorem Grown.mem_tree_iff (h : Grown s) {addr : Address} :
    e ∈ (s.tree addr).nodes ↔ e ∈ s.nodes ∧ e.1.addr.width = addr.width := by
  rw [MapServer.nodes, List.mem_append]
  cases addr with
  | inet addr =>
      constructor
      · exact fun he => ⟨Or.inl he, h.width4 e he⟩
      · rintro ⟨h4 | h6, hwidth⟩
        · exact h4
        · rw [h.width6 e h6] at hwidth
          cases hwidth
  | inet6 addr =>
      constructor
      · exact fun he => ⟨Or.inr he, h.width6 e he⟩
      · rintro ⟨h4 | h6, hwidth⟩
        · rw [h.width4 e h4] at hwidth
          cases hwidth
        · exact h6

/-- A climb in the database ends where it should. -/
theorem Grown.head?_climb_iff (h : Grown s) (hroot : s.Rooted) {stop : DbNode → Bool} :
    (climb stop (dbNodeMatchPrefix s p)).head? = some nd ↔
      ∃ n, EndsAt stop (s.tree p.addr) p (n, nd) := by
  rw [dbNodeMatchPrefix]
  cases p.addr with
  | inet addr => exact h.inPlace4.head?_climb_iff hroot.1
  | inet6 addr => exact h.inPlace6.head?_climb_iff hroot.2

/-- A run that isolates the sites frees nothing that is used later, and leaves the
tops. -/
theorem sound_rooted_of_run {hmac : Hmac} {lispTe : Bool} {sites : ℕ → SiteInfo}
    {events : List DbEvent}
    (hiso : Along (dbStep hmac lispTe) (Isolates hmac lispTe) (MapServer.msInitDb sites) events)
    (hrun : run (dbStep hmac lispTe) (MapServer.msInitDb sites) events = some s) :
    Sound s ∧ s.Rooted := by
  have hstep : ∀ {s e s'}, Sound s ∧ s.Rooted → Isolates hmac lispTe s e →
      dbStep hmac lispTe s e = some s' → Sound s' ∧ s'.Rooted :=
    fun h hiso hstep => ⟨h.1.step hiso hstep, h.2.step hstep⟩
  exact run_invariant hstep ⟨sound_msInitDb sites, rooted_msInitDb sites⟩ hiso hrun

end Targets

/-- In every run in which sites are isolated, the target of a request is the longest node
that covers its prefix and has a type or is the top, and from there the climb to a node
of some types ends at the longest one of these, or at the top. -/
theorem targets_are_longest {hmac : Hmac} {lispTe : Bool} {sites : ℕ → SiteInfo}
    {events : List DbEvent} {s : MapServer}
    (hiso : Along (dbStep hmac lispTe) (Isolates hmac lispTe) (MapServer.msInitDb sites) events)
    (hrun : run (dbStep hmac lispTe) (MapServer.msInitDb sites) events = some s)
    (p : Prefix) (nd : DbNode) :
    ((msGetTarget (dbNodeMatchPrefix s p)).head? = some nd ↔
        ∃ n, EndsAt (fun nd => nd.range ≠ 0) (s.tree p.addr) p (n, nd)) ∧
      ∀ types : UInt8,
        (climb (fun nd => nd.isType types) (msGetTarget (dbNodeMatchPrefix s p))).head? =
            some nd ↔
          ∃ n, EndsAt (fun nd => nd.isType types) (s.tree p.addr) p (n, nd) := by
  obtain ⟨hsound, hroot⟩ := sound_rooted_of_run hiso hrun
  refine ⟨hsound.head?_climb_iff hroot, fun types => ?_⟩
  have hstop : ∀ nd : DbNode, nd.isType types = true → decide (nd.range ≠ 0) = true :=
    fun nd htype => decide_eq_true (range_ne_zero_of_isType htype)
  rw [msGetTarget, climb_climb hstop]
  exact hsound.head?_climb_iff hroot

/-- 198.51.100.0/24 is delegated to a site. -/
theorem along_isolates_delegated {hmac : Hmac} {lispTe : Bool} {sites : ℕ → SiteInfo} :
    Along (dbStep hmac lispTe) (Isolates hmac lispTe) (MapServer.msInitDb sites)
      [.delegate 0 outerTestNet true] :=
  ⟨trivial, fun _ _ => trivial⟩

/-- The node of the delegation is the longest one for 198.51.100.0/25. -/
theorem targets_are_longest_outer :
    ∃ s, run (dbStep (fun _ _ => Vector.replicate 20 0) false)
        (MapServer.msInitDb fun _ => ⟨[], none⟩) [.delegate 0 outerTestNet true] = some s ∧
      ∃ n, EndsAt (fun nd => nd.range ≠ 0) (s.tree innerTestNet.addr) innerTestNet.toPrefix
        (n, ⟨3, some (MapServer.delegationFlags 0 true), none⟩) := by
  have hrun : run (dbStep (fun _ _ => Vector.replicate 20 0) false)
      (MapServer.msInitDb fun _ => ⟨[], none⟩) [.delegate 0 outerTestNet true] = some _ := rfl
  exact ⟨_, hrun, (targets_are_longest along_isolates_delegated hrun _ _).1.mp rfl⟩

end HyLisp.ControlPlane
