import HyLisp.DataPlane.LocatorChain

/-!
# The locator of a packet

`map_select_dstrloc` takes the first locator of the chain that is up or has priority 255.
As the chain is in the order of the priorities, this is the best usable locator when there
is a usable one; otherwise it may be one that must not be used.  The choice does not
depend on the weights, and all packets go to one locator.
-/

namespace HyLisp.DataPlane.LocatorChain

/-- `MAX_RLOC_PRI` -/
def maxRlocPri : UInt8 := 255

/-- `map_select_dstrloc`: the locator, and the chain with its hit counted.  Without a
locator the result is `ENOATTR`. -/
def mapSelectDstrloc : List Locator → Option (Locator × List Locator)
  | [] => none
  | lc :: next =>
      if ¬lc.rloc.rlocmtx.flags &&& rlocfUp ≠ 0 ∧ lc.rloc.rlocmtx.priority < maxRlocPri then
        (mapSelectDstrloc next).map fun (drloc, next) => (drloc, lc :: next)
      else
        let lc := { lc with rlocHit := lc.rlocHit + 1 }
        some (lc, lc :: next)

/-- The RLOCs that a number of packets go to, and the chain behind them. -/
def selectAll : ℕ → List Locator → Option (List Rloc × List Locator)
  | 0, chain => some ([], chain)
  | n + 1, chain => do
      let (drloc, chain) ← mapSelectDstrloc chain
      let (rlocs, chain) ← selectAll n chain
      return (drloc.rloc :: rlocs, chain)

/-- An RLOC that is up and whose priority allows its use. -/
def Rloc.usable (r : Rloc) : Prop :=
  r.up = true ∧ r.rlocmtx.priority < maxRlocPri

/-- The loop stops at the RLOC. -/
def Rloc.stops (r : Rloc) : Bool :=
  r.up || r.rlocmtx.priority = maxRlocPri

theorem priority_lt_iff (p : UInt8) : p < maxRlocPri ↔ p ≠ maxRlocPri := by
  have hlt := p.toNat_lt
  rw [UInt8.lt_iff_toNat_lt, Ne, ← UInt8.toNat_inj]
  change p.toNat < 255 ↔ ¬p.toNat = 255
  omega

section Choice

variable {chain : List Locator} {l : Locator}

theorem stops_iff (l : Locator) :
    l.rloc.stops = true ↔ ¬(¬l.rloc.rlocmtx.flags &&& rlocfUp ≠ 0 ∧
      l.rloc.rlocmtx.priority < maxRlocPri) := by
  rw [Rloc.stops, Rloc.up, Bool.or_eq_true, decide_eq_true_eq, decide_eq_true_eq,
    priority_lt_iff, not_and_or, not_not, not_not]

/-- The choice is the first locator that the loop stops at. -/
theorem mapSelectDstrloc_eq (chain : List Locator) :
    ((mapSelectDstrloc chain).map fun result => result.1.rloc) =
      (chain.map Locator.rloc).find? Rloc.stops := by
  induction chain with
  | nil => rfl
  | cons l chain ih =>
      rw [mapSelectDstrloc, List.map_cons, List.find?_cons]
      by_cases hstops : l.rloc.stops = true
      · rw [if_neg ((stops_iff l).mp hstops), hstops]
        rfl
      · rw [if_pos (not_not.mp (mt (stops_iff l).mpr hstops)), Bool.not_eq_true _ |>.mp hstops,
          Option.map_map, ← ih]
        rfl

/-- Only the hits change. -/
theorem map_rloc_of_select {drloc : Locator} {chain' : List Locator}
    (h : mapSelectDstrloc chain = some (drloc, chain')) :
    chain'.map Locator.rloc = chain.map Locator.rloc := by
  induction chain generalizing chain' with
  | nil => cases h
  | cons l chain ih =>
      rw [mapSelectDstrloc] at h
      split at h
      · obtain ⟨⟨drloc', next⟩, hnext, hpair⟩ := Option.map_eq_some_iff.mp h
        obtain ⟨rfl, rfl⟩ := Prod.mk.inj hpair
        rw [List.map_cons, List.map_cons, ih hnext]
      · obtain ⟨rfl, rfl⟩ := Prod.mk.inj (Option.some.inj h)
        rfl

/-- All packets go to the locator of the first one. -/
theorem selectAll_eq {r : Rloc} (h : (chain.map Locator.rloc).find? Rloc.stops = some r)
    (n : ℕ) : ∃ chain', selectAll n chain = some (List.replicate n r, chain') := by
  induction n generalizing chain with
  | zero => exact ⟨chain, rfl⟩
  | succ n ih =>
      rw [← mapSelectDstrloc_eq] at h
      obtain ⟨⟨drloc, next⟩, hselect, rfl⟩ := Option.map_eq_some_iff.mp h
      have hsame := map_rloc_of_select hselect
      rw [mapSelectDstrloc_eq, ← hsame] at h
      obtain ⟨last, hlast⟩ := ih h
      refine ⟨last, ?_⟩
      simp only [selectAll, hselect, hlast, Option.bind_eq_bind, Option.bind_some,
        Option.pure_def, List.replicate_succ]

end Choice

section Sorted

variable {rs : List Rloc} {r : Rloc}

theorem priority_le_of_key_le {a b : Rloc} (h : a.key ≤ b.key) :
    a.rlocmtx.priority.toNat ≤ b.rlocmtx.priority.toNat := by
  rw [Rloc.key, Rloc.key] at h
  rcases lt_or_eq_of_le h with hlt | heq
  · rcases List.cons_lt_cons_iff.mp hlt with hlt | ⟨heq, -⟩
    · exact hlt.le
    · exact heq.le
  · exact (List.cons.inj heq).1.le

/-- In a sorted chain a usable locator keeps the loop from those with priority 255, and the
choice is the first one. -/
theorem find_usable (hsorted : rs.Pairwise fun a b => a.key ≤ b.key)
    (husable : ∃ r ∈ rs, r.usable) :
    ∃ best ∈ rs, rs.find? Rloc.stops = some best ∧ best.usable ∧
      ∀ r ∈ rs, r.usable → best.key ≤ r.key := by
  induction rs with
  | nil =>
      obtain ⟨r, hr, -⟩ := husable
      cases hr
  | cons r rs ih =>
      obtain ⟨hhead, htail⟩ := List.pairwise_cons.mp hsorted
      obtain ⟨u, hu, husable⟩ := husable
      by_cases hstops : r.stops = true
      · refine ⟨r, List.mem_cons_self, ?_, ?_, ?_⟩
        · rw [List.find?_cons, hstops]
        · -- a priority of 255 would be that of all locators
          have hpriority : r.rlocmtx.priority < maxRlocPri := by
            rcases List.mem_cons.mp hu with rfl | hmem
            · exact husable.2
            · have hle := priority_le_of_key_le (hhead u hmem)
              exact UInt8.lt_iff_toNat_lt.mpr
                (hle.trans_lt (UInt8.lt_iff_toNat_lt.mp husable.2))
          rw [Rloc.stops, Bool.or_eq_true, decide_eq_true_eq] at hstops
          exact ⟨hstops.resolve_right ((priority_lt_iff _).mp hpriority), hpriority⟩
        · intro r' hr' _
          rcases List.mem_cons.mp hr' with rfl | hmem
          · exact le_refl _
          · exact hhead r' hmem
      · have hnot : ¬r.usable := by
          intro h
          exact hstops (by rw [Rloc.stops, h.1, Bool.true_or])
        have hrest : ∃ r' ∈ rs, r'.usable := by
          rcases List.mem_cons.mp hu with rfl | hmem
          · exact absurd husable hnot
          · exact ⟨u, hmem, husable⟩
        obtain ⟨best, hbest, hfind, hok, hleast⟩ := ih htail hrest
        refine ⟨best, List.mem_cons_of_mem _ hbest, ?_, hok, fun r' hr' h' => ?_⟩
        · rw [List.find?_cons, Bool.eq_false_iff.mpr hstops]
          exact hfind
        · rcases List.mem_cons.mp hr' with rfl | hmem
          · exact absurd h' hnot
          · exact hleast r' hmem h'

/-- Without a usable locator the choice is one with priority 255, if there is one. -/
theorem find_unusable (hnone : ∀ r ∈ rs, ¬r.usable) :
    (∀ r, rs.find? Rloc.stops = some r → r.rlocmtx.priority = maxRlocPri) ∧
      (rs.find? Rloc.stops = none ↔ ∀ r ∈ rs, r.rlocmtx.priority ≠ maxRlocPri) := by
  have hstops : ∀ r ∈ rs, r.stops = true ↔ r.rlocmtx.priority = maxRlocPri := by
    intro r hr
    rw [Rloc.stops, Bool.or_eq_true, decide_eq_true_eq]
    refine or_iff_right_of_imp fun hup => ?_
    by_contra hne
    exact hnone r hr ⟨hup, (priority_lt_iff _).mpr hne⟩
  refine ⟨fun r hfind => ?_, ?_⟩
  · exact (hstops r (List.mem_of_find?_eq_some hfind)).mp (List.find?_some hfind)
  · rw [List.find?_eq_none]
    exact forall₂_congr fun r hr => not_congr (hstops r hr)

end Sorted

/-- All packets to a mapping go to one RLOC: the usable one that comes first by priority and
address.  Where no RLOC is usable they go to one that must not be used, or there is none. -/
theorem packets_go_to_best {mapmsg : Mem} {db : Bool} {n cp : ℕ} (behind : ℕ → Mem)
    (hrs : ∀ r ∈ rlocsOf mapmsg db n cp, ∃ addr, r.Holds addr)
    (hok : firstRefused db [] (rlocsOf mapmsg db n cp) = none) (lsbits : UInt32) :
    ∃ chain bits, mapSetrlocs behind mapmsg db n cp lsbits = .ok (chain, bits) ∧
      ((∃ r ∈ rlocsOf mapmsg db n cp, r.usable) →
        ∃ best ∈ rlocsOf mapmsg db n cp, best.usable ∧
          (∀ r ∈ rlocsOf mapmsg db n cp, r.usable → best.key ≤ r.key) ∧
          ∀ packets, ∃ chain',
            selectAll packets chain = some (List.replicate packets best, chain')) ∧
      ((∀ r ∈ rlocsOf mapmsg db n cp, ¬r.usable) →
        (∀ drloc chain', mapSelectDstrloc chain = some (drloc, chain') →
          drloc.rloc.rlocmtx.priority = maxRlocPri) ∧
        (mapSelectDstrloc chain = none ↔
          ∀ r ∈ rlocsOf mapmsg db n cp, r.rlocmtx.priority ≠ maxRlocPri)) := by
  obtain ⟨chain, hchain, hperm, hsorted⟩ := (mapSetrlocs_cases behind lsbits hrs).1 hok
  have hsorted' : (chain.map Locator.rloc).Pairwise fun a b => a.key ≤ b.key :=
    List.pairwise_map.mpr hsorted
  refine ⟨chain, _, hchain, fun husable => ?_, fun hnone => ?_⟩
  · obtain ⟨u, hu, husable⟩ := husable
    obtain ⟨best, hbest, hfind, hok', hleast⟩ :=
      find_usable hsorted' ⟨u, hperm.mem_iff.mpr hu, husable⟩
    exact ⟨best, hperm.mem_iff.mp hbest, hok',
      fun r hr => hleast r (hperm.mem_iff.mpr hr), selectAll_eq hfind⟩
  · obtain ⟨hunusable, hnothing⟩ :=
      find_unusable fun r hr => hnone r (hperm.mem_iff.mp hr)
    refine ⟨fun drloc chain' hselect => hunusable drloc.rloc ?_, ?_⟩
    · rw [← mapSelectDstrloc_eq, hselect, Option.map_some]
    · rw [← Option.map_eq_none_iff, mapSelectDstrloc_eq, hnothing]
      exact forall_congr' fun r => imp_congr_left hperm.mem_iff

theorem packets_go_to_best_two :
    ∃ chain bits, mapSetrlocs (fun _ _ => 0) (twoRlocs 2 1) true 2 0 0 = .ok (chain, bits) ∧
      ∃ best ∈ rlocsOf (twoRlocs 2 1) true 2 0, ∀ packets, ∃ chain',
        selectAll packets chain = some (List.replicate packets best, chain') := by
  obtain ⟨chain, bits, hchain, husable, -⟩ :=
    packets_go_to_best (fun _ _ => 0) (holds_twoRlocs 2 1) (by decide) 0
  obtain ⟨best, hbest, -, -, hpackets⟩ :=
    husable ⟨_, List.mem_cons_self, by decide, by decide⟩
  exact ⟨chain, bits, hchain, best, hbest, hpackets⟩

end HyLisp.DataPlane.LocatorChain
