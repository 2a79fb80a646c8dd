import HyLisp.Hypervisor.Distinct

/-!
# The matcher as a longest-prefix match

What `sort` and `exact_sort` report, said bit by bit and without their loop: the owner
of the longest stored prefix that covers an EID, and the owner of the stored prefix that
is the EID itself.  No stored prefix is longer than an address, whatever the planes send.
-/

namespace HyLisp.Hypervisor

open BitString LongestMatch Transition

/-- The stored prefix is no longer than the EID, whose length counts up to 128, and
agrees with it on all its bits. -/
def Covers (eid : Ipv6Prefix) (entry : Assignment) : Prop :=
  entry.len ≤ min eid.prefixLength.toNat 128 ∧
    ∀ i < entry.len, bit (Mem.ofVector entry.eid.addr) i = bit (Mem.ofVector eid.addr) i

/-- The stored prefix has the length of the EID and its leading bits. -/
def Stores (eid : Ipv6Prefix) (entry : Assignment) : Prop :=
  entry.len = eid.prefixLength.toNat ∧
    ∀ i < entry.len, bit (Mem.ofVector entry.eid.addr) i = bit (Mem.ofVector eid.addr) i

instance (eid : Ipv6Prefix) : DecidablePred (Covers eid) :=
  fun _ => inferInstanceAs (Decidable (_ ∧ _))

instance (eid : Ipv6Prefix) : DecidablePred (Stores eid) :=
  fun _ => inferInstanceAs (Decidable (_ ∧ _))

/-- The matcher designates the owner of an entry. -/
def SortOutcome.Designates (outcome : SortOutcome) (entry : Assignment) : Prop :=
  outcome.code = .sortingOne ∧ outcome.controlPlaneIndex = some entry.assigneeIndex

/-- The matcher finds nothing, and designates the default plane. -/
def SortOutcome.DesignatesDefault (outcome : SortOutcome) : Prop :=
  outcome.code = .sortingNon ∧ outcome.controlPlaneIndex = some controlPlanesDef

section Match

variable {eid : Ipv6Prefix} {entry : Assignment} {table : List Assignment}
  {controlPlanesCtr : ℕ}

theorem covers_iff_key : Covers eid entry ↔ entry.eid.key <+: eid.sanitize.key := by
  rw [Covers, Ipv6Prefix.key, Ipv6Prefix.key, leading_isPrefix_iff,
    Ipv6Prefix.toNat_sanitize, Ipv6Prefix.sanitize_addr, Assignment.len]

theorem stores_iff_key : Stores eid entry ↔ entry.eid.key = eid.key := by
  constructor
  · rintro ⟨hlen, hbits⟩
    have hpre : entry.eid.key <+: eid.key :=
      leading_isPrefix_iff.mpr ⟨hlen.le, hbits⟩
    apply hpre.eq_of_length
    rw [Ipv6Prefix.length_key, Ipv6Prefix.length_key]
    exact hlen
  · intro hkey
    have hlen := congrArg List.length hkey
    rw [Ipv6Prefix.length_key, Ipv6Prefix.length_key] at hlen
    have hpre : entry.eid.key <+: eid.key := hkey ▸ List.prefix_refl _
    exact ⟨hlen, (leading_isPrefix_iff.mp hpre).2⟩

theorem matchesEid_false (eid : Ipv6Prefix) :
    matchesEid false eid = fun entry => decide (Covers eid entry) := by
  funext entry
  rw [matchesEid, Bool.not_false, Bool.true_or, Bool.true_and, Bool.eq_iff_iff,
    decide_eq_true_iff, decide_eq_true_iff, covers_iff_key]

/-- Two longest prefixes that cover one EID are the same prefix. -/
theorem eq_of_isLongest (hnodup : (storedKeys table).Nodup) {other : Assignment}
    (h : IsLongest (fun e => decide (Covers eid e)) Assignment.len table entry)
    (hother : IsLongest (fun e => decide (Covers eid e)) Assignment.len table other) :
    entry = other := by
  have hcovers := covers_iff_key.mp (of_decide_eq_true h.matches_self)
  have hcovers' := covers_iff_key.mp (of_decide_eq_true hother.matches_self)
  have hlen : entry.eid.key.length = other.eid.key.length := by
    rw [Ipv6Prefix.length_key, Ipv6Prefix.length_key]
    exact le_antisymm (hother.longest entry h.mem h.matches_self)
      (h.longest other hother.mem hother.matches_self)
  have hkey : entry.eid.key = other.eid.key :=
    (List.prefix_of_prefix_length_le hcovers hcovers' hlen.le).eq_of_length hlen
  exact eq_of_key_eq hnodup h.mem hother.mem hkey

/-- `sort` finds a longest covering prefix, if any prefix covers the EID. -/
theorem sort_cases (hctr : controlPlanesCtr ≠ 0)
    (hlen : ∀ entry ∈ table, entry.len ≤ 128) (heid : eid.IsRegular) :
    (∃ entry, IsLongest (fun e => decide (Covers eid e)) Assignment.len table entry ∧
        (sort controlPlanesCtr table eid).Designates entry) ∨
      (∀ entry ∈ table, ¬ Covers eid entry) ∧
        (sort controlPlanesCtr table eid).DesignatesDefault := by
  obtain ⟨hcode, hindex⟩ := @flexSort_of_isRegular _ table eid false hctr heid
    fun entry hentry => Or.inr (hlen entry hentry)
  rw [matchesEid_false] at hcode hindex
  cases hscan : scan (fun e => decide (Covers eid e)) Assignment.len table none with
  | none =>
      rw [hscan] at hcode hindex
      refine Or.inr ⟨fun entry hentry => ?_, hcode, hindex⟩
      exact of_decide_eq_false (scan_eq_none_iff.mp hscan entry hentry)
  | some entry =>
      rw [hscan] at hcode hindex
      exact Or.inl ⟨entry, scan_isLongest hscan, hcode, hindex⟩

end Match

/-! ## Stored lengths -/

/-- The stored prefixes are not longer than an address. -/
def LengthsBounded (table : List Assignment) : Prop :=
  ∀ entry ∈ table, entry.len ≤ 128

instance : DecidablePred LengthsBounded :=
  fun table => inferInstanceAs (Decidable (∀ entry ∈ table, entry.len ≤ 128))

section Lengths

variable {controlPlanesCtr : ℕ} {table table' : List Assignment} {item : Assignment}

theorem LengthsBounded.append (h : LengthsBounded table)
    (hlen : item.eid.prefixLength.toNat ≤ 128) : LengthsBounded (table ++ [item]) := by
  intro entry hentry
  rcases List.mem_append.mp hentry with hold | hnew
  · exact h entry hold
  · obtain rfl := List.mem_singleton.mp hnew
    exact hlen

theorem LengthsBounded.modify (h : LengthsBounded table) (k owner : ℕ) :
    LengthsBounded (table.modify k fun stored =>
      { stored with assigneeIndex := owner }) := by
  intro entry hentry
  obtain ⟨j, hj⟩ := List.mem_iff_getElem?.mp hentry
  rw [List.getElem?_modify] at hj
  obtain ⟨old, hold, rfl⟩ := Option.map_eq_some_iff.mp hj
  have hbound := h old (List.mem_of_getElem? hold)
  split
  · exact hbound
  · exact hbound

theorem LengthsBounded.addAssignment (h : LengthsBounded table)
    (hctr : controlPlanesCtr ≠ 0) (hlen : item.eid.prefixLength.toNat ≤ 128) {index : ℤ}
    (hadd : Hypervisor.addAssignment controlPlanesCtr table item = some (table', index)) :
    LengthsBounded table' := by
  by_cases hbroadcast : item.eid.IsBroadcast
  · rw [addAssignment_of_isBroadcast hctr hbroadcast] at hadd
    obtain ⟨rfl, -⟩ := Prod.mk.inj (Option.some_inj.mp hadd)
    exact h.append hlen
  by_cases hundefined : item.eid.IsUndefined
  · rw [addAssignment_of_isUndefined hundefined] at hadd
    obtain ⟨rfl, -⟩ := Prod.mk.inj (Option.some_inj.mp hadd)
    exact h
  cases hlast : lastEntry table item.eid.key with
  | none =>
      rw [addAssignment_of_notMem hctr ⟨hbroadcast, hundefined⟩ hlen
        (lastEntry_eq_none_iff.mp hlast)] at hadd
      obtain ⟨rfl, -⟩ := Prod.mk.inj (Option.some_inj.mp hadd)
      exact h.append hlen
  | some last =>
      rw [addAssignment_of_lastEntry hctr ⟨hbroadcast, hundefined⟩ hlen hlast] at hadd
      split at hadd
      · obtain ⟨rfl, -⟩ := Prod.mk.inj (Option.some_inj.mp hadd)
        exact h.modify _ _
      · cases hadd

/-- A removal leaves nothing but what was stored. -/
theorem subset_of_removeAssignment
    (hremove : Hypervisor.removeAssignment controlPlanesCtr table item = some table') :
    table' ⊆ table := by
  rw [Hypervisor.removeAssignment] at hremove
  split at hremove
  · obtain ⟨presentIndex, -, hindex⟩ := Option.bind_eq_some_iff.mp hremove
    obtain ⟨present, -, hpresent⟩ := Option.bind_eq_some_iff.mp hindex
    split at hpresent
    · rw [Option.some_inj.mp hpresent]
      exact List.Subset.refl _
    · rw [← Option.some_inj.mp hpresent]
      exact List.eraseIdx_subset
  · rw [Option.some_inj.mp hremove]
    exact List.Subset.refl _

theorem LengthsBounded.of_subset (h : LengthsBounded table) (hsub : table' ⊆ table) :
    LengthsBounded table' :=
  fun entry hentry => h entry (hsub hentry)

/-- A map message keeps the bound, whatever it says. -/
theorem LengthsBounded.mapMessage {s s' : State} (h : LengthsBounded s.assignments)
    {socketDescriptor msgLen : ℕ} {buf : Mem}
    (hstep : Hypervisor.step s (.mapMessage socketDescriptor buf msgLen) = some s') :
    LengthsBounded s'.assignments := by
  rcases mapMessage_cases hstep with ⟨-, hsame⟩ | ⟨-, hregistered, hchange⟩
  · exact hsame ▸ h
  · rcases hchange with ⟨-, index, hresult⟩ | ⟨-, hresult⟩
    · exact h.addAssignment (Nat.ne_zero_of_lt hregistered) (extractEidMm_length_le buf)
        hresult
    · exact h.of_subset (subset_of_removeAssignment hresult)

theorem LengthsBounded.step {s s' : State} {event : Event}
    (h : LengthsBounded s.assignments) (hstep : Hypervisor.step s event = some s') :
    LengthsBounded s'.assignments := by
  cases event with
  | register port =>
      exact h.of_subset (assignments_sublist_of_step hstep fun _ _ _ => nofun).subset
  | deregisterFirst port =>
      exact h.of_subset (assignments_sublist_of_step hstep fun _ _ _ => nofun).subset
  | deregisterSecond =>
      exact h.of_subset (assignments_sublist_of_step hstep fun _ _ _ => nofun).subset
  | mapMessage socketDescriptor buf msgLen => exact h.mapMessage hstep

/-- In no run a prefix longer than an address is stored. -/
theorem lengthsBounded_of_run {events : List Event} {s : State}
    (hrun : run Hypervisor.step State.init events = some s) :
    LengthsBounded s.assignments := by
  have hkeep : ∀ {s : State} {event : Event} {s' : State}, LengthsBounded s.assignments →
      True → Hypervisor.step s event = some s' → LengthsBounded s'.assignments :=
    fun h _ hstep => h.step hstep
  have hinit : LengthsBounded State.init.assignments :=
    fun _ hentry => absurd hentry List.not_mem_nil
  exact run_invariant hkeep hinit (along_true _ events) hrun

end Lengths

/-! ## The longest match -/

section Longest

variable {controlPlanesCtr : ℕ} {table : List Assignment} {eid : Ipv6Prefix}
  {entry : Assignment}

/-- One of the prefixes that cover an EID is the longest. -/
theorem existsUnique_isLongest (hctr : controlPlanesCtr ≠ 0) (hlen : LengthsBounded table)
    (hnodup : (storedKeys table).Nodup) (heid : eid.IsRegular) (hmem : entry ∈ table)
    (hcovers : Covers eid entry) :
    ∃! longest, IsLongest (fun e => decide (Covers eid e)) Assignment.len table longest := by
  rcases sort_cases hctr hlen heid with ⟨longest, hlongest, -⟩ | ⟨hnone, -⟩
  · exact ⟨longest, hlongest, fun other hother => eq_of_isLongest hnodup hother hlongest⟩
  · exact absurd hcovers (hnone entry hmem)

theorem sort_of_isLongest (hctr : controlPlanesCtr ≠ 0) (hlen : LengthsBounded table)
    (hnodup : (storedKeys table).Nodup) (heid : eid.IsRegular)
    (hentry : IsLongest (fun e => decide (Covers eid e)) Assignment.len table entry) :
    (sort controlPlanesCtr table eid).Designates entry := by
  rcases sort_cases hctr hlen heid with ⟨longest, hlongest, hdesignates⟩ | ⟨hnone, -⟩
  · rwa [eq_of_isLongest hnodup hentry hlongest]
  · exact absurd (of_decide_eq_true hentry.matches_self) (hnone entry hentry.mem)

theorem sort_of_not_covers (hctr : controlPlanesCtr ≠ 0) (hlen : LengthsBounded table)
    (heid : eid.IsRegular) (hnone : ∀ entry ∈ table, ¬ Covers eid entry) :
    (sort controlPlanesCtr table eid).DesignatesDefault := by
  rcases sort_cases hctr hlen heid with ⟨longest, hlongest, -⟩ | ⟨-, hdefault⟩
  · exact absurd (of_decide_eq_true hlongest.matches_self) (hnone longest hlongest.mem)
  · exact hdefault

theorem exactSort_of_stores (hctr : controlPlanesCtr ≠ 0)
    (hnodup : (storedKeys table).Nodup) (heid : eid.IsRegular)
    (heidLen : eid.prefixLength.toNat ≤ 128) (hmem : entry ∈ table)
    (hstores : Stores eid entry) :
    (exactSort controlPlanesCtr table eid).Designates entry := by
  have hlast := (lastEntry_eq_some_iff hnodup).mpr ⟨hmem, stores_iff_key.mp hstores⟩
  have hexact := @exactSort_of_isRegular _ table eid hctr heid heidLen
  rw [hlast] at hexact
  rw [hexact]
  exact ⟨rfl, rfl⟩

theorem exactSort_of_not_stores (hctr : controlPlanesCtr ≠ 0) (heid : eid.IsRegular)
    (heidLen : eid.prefixLength.toNat ≤ 128)
    (hnone : ∀ entry ∈ table, ¬ Stores eid entry) :
    (exactSort controlPlanesCtr table eid).code = .sortingNon := by
  have hlast : lastEntry table eid.key = none := by
    apply lastEntry_eq_none_iff.mpr
    intro hkey
    obtain ⟨entry, hmem, hentry⟩ := List.mem_map.mp hkey
    exact hnone entry hmem (stores_iff_key.mpr hentry)
  have hexact := @exactSort_of_isRegular _ table eid hctr heid heidLen
  rw [hlast] at hexact
  rw [hexact]

end Longest

/-- For every EID other than the two in-band values, `sort` designates the owner of the
longest stored prefix that covers it, and the default plane when there is none;
`exact_sort` designates the owner of the entry that stores it, and finds nothing when
there is none. -/
theorem sort_longest {controlPlanesCtr : ℕ} {table : List Assignment}
    (hctr : 0 < controlPlanesCtr) (hlen : LengthsBounded table)
    (hnodup : (storedKeys table).Nodup) {eid : Ipv6Prefix} (heid : eid.IsRegular) :
    ((∃ entry ∈ table, Covers eid entry) →
      ∃! entry, IsLongest (fun e => decide (Covers eid e)) Assignment.len table entry) ∧
    (∀ entry, IsLongest (fun e => decide (Covers eid e)) Assignment.len table entry →
      (sort controlPlanesCtr table eid).Designates entry) ∧
    ((∀ entry ∈ table, ¬ Covers eid entry) →
      (sort controlPlanesCtr table eid).DesignatesDefault) ∧
    (eid.prefixLength.toNat ≤ 128 →
      (∀ entry ∈ table, Stores eid entry →
        (exactSort controlPlanesCtr table eid).Designates entry) ∧
      ((∀ entry ∈ table, ¬ Stores eid entry) →
        (exactSort controlPlanesCtr table eid).code = .sortingNon)) := by
  have hctr : controlPlanesCtr ≠ 0 := Nat.ne_of_gt hctr
  refine ⟨?_, ?_, ?_, ?_⟩
  · rintro ⟨entry, hmem, hcovers⟩
    exact existsUnique_isLongest hctr hlen hnodup heid hmem hcovers
  · intro entry hentry
    exact sort_of_isLongest hctr hlen hnodup heid hentry
  · intro hnone
    exact sort_of_not_covers hctr hlen heid hnone
  · intro heidLen
    constructor
    · intro entry hmem hstores
      exact exactSort_of_stores hctr hnodup heid heidLen hmem hstores
    · intro hnone
      exact exactSort_of_not_stores hctr heid heidLen hnone

/-- `10.9.0.0/16` and `10.0.0.0/8`, v4-mapped. -/
def tenTable : List Assignment :=
  [⟨⟨v4Mapped #v[10, 9, 0, 0], 112, .prfxAsis⟩, 1⟩, ⟨v4MappedTen, 0⟩]

/-- An EID of length 255 in the longer one belongs to its owner. -/
theorem sort_longest_ten :
    (sort 2 tenTable ⟨v4Mapped #v[10, 9, 2, 0], 255, .prfxAsis⟩).Designates
      ⟨⟨v4Mapped #v[10, 9, 0, 0], 112, .prfxAsis⟩, 1⟩ :=
  (sort_longest (by decide) (by decide) (by decide) (by decide)).2.1 _
    ⟨by decide, by decide, by decide⟩

end HyLisp.Hypervisor
