import HyLisp.Hypervisor.Eid
import HyLisp.Support.LongestMatch

/-!
# The prefix matcher

`flex_sort` walks the assignments array with a running maximum of the prefix
length.  It serves two callers: `sort`, a longest-prefix match, and
`exact_sort`, which only considers entries of the same length as the requested
EID.  Both report a result code and, through an output parameter, the
`assignee_index` of the entry found.

The main result of this module reads the loop as a scan for the longest
matching entry: an entry matches when its prefix is an initial segment of the
requested one.
-/

namespace HyLisp.Hypervisor

open BitString LongestMatch

/-- `assignment` -/
structure Assignment where
  eid : Ipv6Prefix
  assigneeIndex : ℕ
  deriving DecidableEq, Repr

/-- The result codes of the matcher. -/
inductive SortingCode
  | sortingErr
  | sortingOne
  | sortingAll
  | sortingNon
  deriving DecidableEq, Repr

/-- What a call of the matcher leaves behind: the returned code, the output
parameter `control_plane_index` (`none` when the call did not write it), and
the requested EID, whose length the loop may clamp. -/
structure SortOutcome where
  code : SortingCode
  controlPlaneIndex : Option ℕ
  significantEid : Ipv6Prefix
  deriving DecidableEq, Repr

/-- `control_planes_def`, which no code changes. -/
def controlPlanesDef : ℕ := 0

/-- `precomputed_masks` -/
def precomputedMasks : Vector UInt8 8 :=
  #v[0x00, 0x80, 0xC0, 0xE0, 0xF0, 0xF8, 0xFC, 0xFE]

/-- The mask of a number of leftover bits. -/
def precomputedMask (n : ℕ) : UInt8 :=
  precomputedMasks.get ⟨n % 8, Nat.mod_lt n (by decide)⟩

theorem isLeadMask_precomputedMask (n : ℕ) :
    IsLeadMask (n % 8) (precomputedMask n) := by
  have hall : ∀ k : Fin 8, IsLeadMask k (precomputedMasks.get k) := by decide
  exact hall ⟨n % 8, Nat.mod_lt n (by decide)⟩

theorem precomputedMask_eq_zero {n : ℕ} (h : n % 8 = 0) :
    precomputedMask n = 0 := by
  have hfin : (⟨n % 8, Nat.mod_lt n (by decide)⟩ : Fin 8) = 0 := Fin.ext h
  rw [precomputedMask, hfin]
  rfl

/-- The bytewise comparison inside the loop of `flex_sort`. -/
def leadingBytesMatch (significant stored : Ipv6Prefix) : Bool :=
  let wholeBytes := stored.prefixLength.toNat / 8
  let leftBits := stored.prefixLength.toNat % 8
  Mem.sameBytes (Mem.ofVector significant.addr) (Mem.ofVector stored.addr)
      wholeBytes &&
    (leftBits == 0 ||
      Mem.ofVector significant.addr wholeBytes &&& precomputedMask leftBits ==
        Mem.ofVector stored.addr wholeBytes &&& precomputedMask leftBits)

/-- The clamp the loop applies to the requested EID. -/
def Ipv6Prefix.sanitize (eid : Ipv6Prefix) : Ipv6Prefix :=
  if eid.prefixLength > 128 then { eid with prefixLength := 128 } else eid

/-- The variables of the loop of `flex_sort`. -/
structure FlexSortState where
  significantEid : Ipv6Prefix
  maxPrefixLength : ℤ
  controlPlaneIndex : Option ℕ

/-- One iteration of the loop of `flex_sort`. -/
def flexSortStep (exact : Bool) (s : FlexSortState) (entry : Assignment) :
    FlexSortState :=
  if exact && s.significantEid.prefixLength != entry.eid.prefixLength then s
  else if s.significantEid.prefixLength ≥ entry.eid.prefixLength then
    let eid := s.significantEid.sanitize
    if leadingBytesMatch eid entry.eid &&
        decide ((entry.eid.prefixLength.toNat : ℤ) ≥ s.maxPrefixLength) then
      ⟨eid, entry.eid.prefixLength.toNat, some entry.assigneeIndex⟩
    else { s with significantEid := eid }
  else s

/-- `flex_sort` -/
def flexSort (controlPlanesCtr : ℕ) (assignments : List Assignment)
    (significantEid : Ipv6Prefix) (exact : Bool) : SortOutcome :=
  if controlPlanesCtr = 0 then ⟨.sortingErr, none, significantEid⟩
  else if significantEid.IsBroadcast then ⟨.sortingAll, none, significantEid⟩
  else if significantEid.IsUndefined then ⟨.sortingErr, none, significantEid⟩
  else
    let s := assignments.foldl (flexSortStep exact) ⟨significantEid, -1, none⟩
    if s.maxPrefixLength > -1 then
      ⟨.sortingOne, s.controlPlaneIndex, s.significantEid⟩
    else ⟨.sortingNon, some controlPlanesDef, s.significantEid⟩

/-- `sort` -/
def sort (controlPlanesCtr : ℕ) (assignments : List Assignment)
    (significantEid : Ipv6Prefix) : SortOutcome :=
  flexSort controlPlanesCtr assignments significantEid false

/-- `exact_sort` -/
def exactSort (controlPlanesCtr : ℕ) (assignments : List Assignment)
    (significantEid : Ipv6Prefix) : SortOutcome :=
  flexSort controlPlanesCtr assignments significantEid true

/-! ## The bytewise comparison decides prefix coverage -/

theorem leadingBytesMatch_iff {significant stored : Ipv6Prefix}
    (hlen : stored.prefixLength.toNat ≤ significant.prefixLength.toNat) :
    leadingBytesMatch significant stored = true ↔
      stored.key <+: significant.key := by
  rw [Ipv6Prefix.key, Ipv6Prefix.key,
    leading_isPrefix_iff_bytes (m := precomputedMask stored.prefixLength.toNat)
      (isLeadMask_precomputedMask _) hlen]
  simp only [leadingBytesMatch, Bool.and_eq_true, Mem.sameBytes_iff,
    Bool.or_eq_true, beq_iff_eq]
  have hmod : precomputedMask (stored.prefixLength.toNat % 8) =
      precomputedMask stored.prefixLength.toNat := by
    simp [precomputedMask]
  rw [hmod]
  constructor
  · rintro ⟨hwhole, hleft⟩
    refine ⟨fun j hj => (hwhole j hj).symm, ?_⟩
    rcases hleft with hzero | hleft
    · rw [precomputedMask_eq_zero hzero]
      simp
    · exact hleft.symm
  · rintro ⟨hwhole, hleft⟩
    exact ⟨fun j hj => (hwhole j hj).symm, Or.inr hleft.symm⟩

@[simp] theorem Ipv6Prefix.sanitize_addr (eid : Ipv6Prefix) :
    eid.sanitize.addr = eid.addr := by
  unfold sanitize
  split <;> rfl

theorem Ipv6Prefix.toNat_sanitize (eid : Ipv6Prefix) :
    eid.sanitize.prefixLength.toNat = min eid.prefixLength.toNat 128 := by
  unfold sanitize
  split
  next h =>
    have hlt : 128 < eid.prefixLength.toNat := UInt8.lt_iff_toNat_lt.mp h
    simp only [UInt8.reduceToNat]
    omega
  next h =>
    have hle : eid.prefixLength.toNat ≤ 128 := by
      by_contra hgt
      exact h (UInt8.lt_iff_toNat_lt.mpr (by simp only [UInt8.reduceToNat]; omega))
    omega

theorem Ipv6Prefix.sanitize_of_le {eid : Ipv6Prefix}
    (h : eid.prefixLength.toNat ≤ 128) : eid.sanitize = eid := by
  unfold sanitize
  rw [if_neg]
  intro hgt
  have hlt : 128 < eid.prefixLength.toNat := UInt8.lt_iff_toNat_lt.mp hgt
  omega

/-! ## The loop as a scan for the longest match -/

/-- The length of a stored prefix. -/
def Assignment.len (entry : Assignment) : ℕ :=
  entry.eid.prefixLength.toNat

/-- The entries the matcher accepts for a requested EID. -/
def matchesEid (exact : Bool) (eid : Ipv6Prefix) (entry : Assignment) : Bool :=
  (!exact || eid.prefixLength == entry.eid.prefixLength) &&
    decide (entry.eid.key <+: eid.sanitize.key)

/-- The loop variables hold the running best entry. -/
def FlexSortState.Tracks (exact : Bool) (eid : Ipv6Prefix)
    (best : Option Assignment) (s : FlexSortState) : Prop :=
  (s.significantEid = eid ∨ exact = false ∧ s.significantEid = eid.sanitize) ∧
    s.maxPrefixLength = best.elim (-1) (fun entry => (entry.len : ℤ)) ∧
    s.controlPlaneIndex = best.map Assignment.assigneeIndex

theorem sanitize_sanitize (eid : Ipv6Prefix) :
    eid.sanitize.sanitize = eid.sanitize := by
  apply Ipv6Prefix.sanitize_of_le
  rw [Ipv6Prefix.toNat_sanitize]
  omega

theorem maxPrefixLength_le_iff (best : Option Assignment) (entry : Assignment) :
    decide ((entry.eid.prefixLength.toNat : ℤ) ≥
        best.elim (-1) fun b => (b.len : ℤ)) =
      best.all fun b => b.len ≤ entry.len := by
  cases best with
  | none =>
      rw [Option.all_none, decide_eq_true_iff, Option.elim_none]
      omega
  | some b =>
      rw [Option.all_some, Option.elim_some, decide_eq_decide]
      exact Int.ofNat_le

/-- Updating the loop variables with a matching decision. -/
theorem FlexSortState.Tracks.update {exact : Bool} {eid cur : Ipv6Prefix}
    {best : Option Assignment} {s : FlexSortState} {entry : Assignment}
    {isMatch : Bool} (h : s.Tracks exact eid best)
    (hcur : cur = eid ∨ exact = false ∧ cur = eid.sanitize) :
    FlexSortState.Tracks exact eid
      (if isMatch && best.all fun b => b.len ≤ entry.len then some entry
        else best)
      (if isMatch && decide ((entry.eid.prefixLength.toNat : ℤ) ≥
          s.maxPrefixLength) then
        ⟨cur, entry.eid.prefixLength.toNat, some entry.assigneeIndex⟩
      else { s with significantEid := cur }) := by
  obtain ⟨-, hmax, hindex⟩ := h
  have hcond : decide ((entry.eid.prefixLength.toNat : ℤ) ≥
      s.maxPrefixLength) = best.all fun b => b.len ≤ entry.len := by
    rw [hmax, maxPrefixLength_le_iff]
  rw [hcond]
  by_cases htake : (isMatch && best.all fun b => b.len ≤ entry.len) = true
  · rw [if_pos htake, if_pos htake]
    exact ⟨hcur, rfl, rfl⟩
  · rw [if_neg htake, if_neg htake]
    exact ⟨hcur, hmax, hindex⟩

namespace FlexSortState.Tracks

variable {exact : Bool} {eid : Ipv6Prefix} {best : Option Assignment}
  {s : FlexSortState} {entry : Assignment}

theorem sanitize_eq (h : s.Tracks exact eid best) :
    s.significantEid.sanitize = eid.sanitize := by
  rcases h.1 with hcur | ⟨-, hcur⟩
  · rw [hcur]
  · rw [hcur, sanitize_sanitize]

/-- In exact mode the requested EID is never clamped. -/
theorem significantEid_eq (h : s.Tracks true eid best) : s.significantEid = eid := by
  rcases h.1 with hcur | ⟨hexact, -⟩
  · exact hcur
  · cases hexact

/-- An entry that does not match changes nothing. -/
theorem skip (h : s.Tracks exact eid best) (hno : matchesEid exact eid entry = false) :
    FlexSortState.Tracks exact eid
      (if matchesEid exact eid entry && best.all fun b => b.len ≤ entry.len
        then some entry else best) s := by
  rw [hno, Bool.false_and, if_neg Bool.false_ne_true]
  exact h

/-- A stored prefix that is compared is not longer than an address. -/
theorem len_le (h : s.Tracks exact eid best)
    (hlen : eid.prefixLength.toNat ≤ 128 ∨ entry.len ≤ 128)
    (hge : entry.len ≤ s.significantEid.prefixLength.toNat) : entry.len ≤ 128 := by
  rcases hlen with hlen | hlen
  · rcases h.1 with hcur | ⟨-, hcur⟩
    · rw [hcur] at hge
      exact le_trans hge hlen
    · rw [hcur, Ipv6Prefix.toNat_sanitize] at hge
      omega
  · exact hlen

/-- What is left of an entry's test, once the lengths were compared. -/
theorem leadingBytesMatch_eq (h : s.Tracks exact eid best)
    (hlength : exact = true → eid.prefixLength = entry.eid.prefixLength)
    (hge : entry.len ≤ s.significantEid.prefixLength.toNat) (h128 : entry.len ≤ 128) :
    leadingBytesMatch s.significantEid.sanitize entry.eid =
      matchesEid exact eid entry := by
  have hallowed : (!exact || eid.prefixLength == entry.eid.prefixLength) = true := by
    cases exact with
    | false => rfl
    | true => exact beq_iff_eq.mpr (hlength rfl)
  have hle : entry.len ≤ eid.sanitize.prefixLength.toNat := by
    rw [← h.sanitize_eq, Ipv6Prefix.toNat_sanitize]
    exact le_min hge h128
  rw [matchesEid, hallowed, Bool.true_and, h.sanitize_eq, Bool.eq_iff_iff,
    decide_eq_true_iff]
  exact leadingBytesMatch_iff hle

/-- A stored prefix longer than the requested one does not match. -/
theorem matchesEid_of_longer (h : s.Tracks exact eid best)
    (hlt : ¬ entry.len ≤ s.significantEid.prefixLength.toNat) :
    matchesEid exact eid entry = false := by
  have hnot : ¬ entry.eid.key <+: eid.sanitize.key := by
    intro hpre
    have hle := hpre.length_le
    rw [Ipv6Prefix.length_key, Ipv6Prefix.length_key, ← h.sanitize_eq,
      Ipv6Prefix.toNat_sanitize] at hle
    exact hlt (le_trans hle (min_le_left _ _))
  rw [matchesEid, decide_eq_false hnot, Bool.and_false]

/-- An iteration moves the running best entry as the scan does. -/
theorem step (h : s.Tracks exact eid best)
    (hlen : eid.prefixLength.toNat ≤ 128 ∨ entry.len ≤ 128) :
    FlexSortState.Tracks exact eid
      (if matchesEid exact eid entry && best.all fun b => b.len ≤ entry.len
        then some entry else best)
      (flexSortStep exact s entry) := by
  rw [flexSortStep]
  by_cases hexact : (exact &&
      s.significantEid.prefixLength != entry.eid.prefixLength) = true
  · -- another length, in exact mode
    rw [if_pos hexact]
    rw [Bool.and_eq_true, bne_iff_ne] at hexact
    obtain ⟨rfl, hne⟩ := hexact
    rw [h.significantEid_eq] at hne
    apply h.skip
    simp [matchesEid, hne]
  · have hlength : exact = true → eid.prefixLength = entry.eid.prefixLength := by
      rintro rfl
      rw [h.significantEid_eq] at hexact
      simpa using hexact
    rw [if_neg hexact]
    by_cases hge : s.significantEid.prefixLength ≥ entry.eid.prefixLength
    · have hle : entry.len ≤ s.significantEid.prefixLength.toNat :=
        UInt8.le_iff_toNat_le.mp hge
      have h128 := h.len_le hlen hle
      rw [if_pos hge]
      dsimp only
      rw [h.leadingBytesMatch_eq hlength hle h128, h.sanitize_eq]
      apply h.update
      cases exact with
      | false => exact Or.inr ⟨rfl, rfl⟩
      | true =>
          -- equal lengths, one of them at most 128: nothing is clamped
          left
          apply Ipv6Prefix.sanitize_of_le
          rw [hlength rfl]
          exact h128
    · rw [if_neg hge]
      apply h.skip
      apply h.matchesEid_of_longer
      intro hle
      exact hge (UInt8.le_iff_toNat_le.mpr hle)

end FlexSortState.Tracks

theorem FlexSortState.Tracks.foldl {exact : Bool} {eid : Ipv6Prefix}
    (table : List Assignment)
    (hlen : ∀ entry ∈ table, eid.prefixLength.toNat ≤ 128 ∨ entry.len ≤ 128)
    {best : Option Assignment} {s : FlexSortState}
    (h : s.Tracks exact eid best) :
    FlexSortState.Tracks exact eid
      (scan (matchesEid exact eid) Assignment.len table best)
      (table.foldl (flexSortStep exact) s) := by
  induction table generalizing best s with
  | nil => exact h
  | cons entry rest ih =>
      rw [scan, List.foldl_cons]
      apply ih (fun e he => hlen e (List.mem_cons_of_mem _ he))
      exact h.step (hlen entry List.mem_cons_self)

/-! ## What the matcher reports -/

section Report

variable {controlPlanesCtr : ℕ} {table : List Assignment} {eid : Ipv6Prefix}
  {exact : Bool}

theorem flexSort_of_isBroadcast (hctr : controlPlanesCtr ≠ 0)
    (heid : eid.IsBroadcast) :
    flexSort controlPlanesCtr table eid exact = ⟨.sortingAll, none, eid⟩ := by
  rw [flexSort, if_neg hctr, if_pos heid]

theorem flexSort_of_isUndefined (heid : eid.IsUndefined) :
    flexSort controlPlanesCtr table eid exact = ⟨.sortingErr, none, eid⟩ := by
  rw [flexSort, if_neg (Ipv6Prefix.not_isBroadcast_of_isUndefined heid),
    if_pos heid]
  split <;> rfl

/-- For a regular EID the matcher reports the scan's result. -/
theorem flexSort_of_isRegular (hctr : controlPlanesCtr ≠ 0)
    (heid : eid.IsRegular)
    (hlen : ∀ entry ∈ table, eid.prefixLength.toNat ≤ 128 ∨ entry.len ≤ 128) :
    (flexSort controlPlanesCtr table eid exact).code =
        (if (scan (matchesEid exact eid) Assignment.len table none).isSome
          then .sortingOne else .sortingNon) ∧
      (flexSort controlPlanesCtr table eid exact).controlPlaneIndex =
        some ((scan (matchesEid exact eid) Assignment.len table none).elim
          controlPlanesDef Assignment.assigneeIndex) := by
  have hinit : FlexSortState.Tracks exact eid none ⟨eid, -1, none⟩ :=
    ⟨Or.inl rfl, rfl, rfl⟩
  obtain ⟨-, hmax, hindex⟩ := hinit.foldl table hlen
  rw [flexSort, if_neg hctr, if_neg heid.1, if_neg heid.2]
  dsimp only
  rw [hmax]
  cases hscan : scan (matchesEid exact eid) Assignment.len table none with
  | none => simp
  | some entry =>
      rw [hscan] at hindex
      have hpos : (entry.len : ℤ) > -1 := by omega
      simp [hpos, hindex]

theorem isRegular_of_sortingOne
    (hone : (flexSort controlPlanesCtr table eid exact).code = .sortingOne) :
    controlPlanesCtr ≠ 0 ∧ eid.IsRegular := by
  by_cases hctr : controlPlanesCtr = 0
  · rw [flexSort, if_pos hctr] at hone
    cases hone
  by_cases hbroadcast : eid.IsBroadcast
  · rw [flexSort_of_isBroadcast hctr hbroadcast] at hone
    cases hone
  by_cases hundefined : eid.IsUndefined
  · rw [flexSort_of_isUndefined hundefined] at hone
    cases hone
  exact ⟨hctr, hbroadcast, hundefined⟩

/-- A positive answer designates the owner of a longest matching entry. -/
theorem exists_of_sortingOne
    (hlen : ∀ entry ∈ table, eid.prefixLength.toNat ≤ 128 ∨ entry.len ≤ 128)
    (hone : (flexSort controlPlanesCtr table eid exact).code = .sortingOne) :
    ∃ entry, IsLongest (matchesEid exact eid) Assignment.len table entry ∧
      (flexSort controlPlanesCtr table eid exact).controlPlaneIndex =
        some entry.assigneeIndex := by
  obtain ⟨hctr, heid⟩ := isRegular_of_sortingOne hone
  obtain ⟨hcode, hindex⟩ := @flexSort_of_isRegular _ _ _ exact hctr heid hlen
  cases hscan : scan (matchesEid exact eid) Assignment.len table none with
  | none =>
      rw [hcode, hscan] at hone
      cases hone
  | some entry =>
      rw [hscan] at hindex
      exact ⟨entry, scan_isLongest hscan, hindex⟩

end Report

/-! ## The exact match -/

/-- The last stored entry for a prefix. -/
def lastEntry (table : List Assignment) (key : List Bool) : Option Assignment :=
  table.reverse.find? fun entry => entry.eid.key = key

theorem key_eq_iff {a b : Ipv6Prefix} (h : a.prefixLength = b.prefixLength) :
    a.key = b.key ↔ a.key <+: b.key := by
  constructor
  · intro heq
    rw [heq]
  · intro hpre
    apply hpre.eq_of_length
    rw [Ipv6Prefix.length_key, Ipv6Prefix.length_key, h]

theorem prefixLength_eq_of_key_eq {a b : Ipv6Prefix} (h : a.key = b.key) :
    a.prefixLength = b.prefixLength := by
  apply UInt8.toNat_inj.mp
  rw [← Ipv6Prefix.length_key a, h, Ipv6Prefix.length_key]

/-- In exact mode an entry matches when it stores the very prefix. -/
theorem matchesEid_exact {eid : Ipv6Prefix} (hlen : eid.prefixLength.toNat ≤ 128)
    (entry : Assignment) :
    matchesEid true eid entry = decide (entry.eid.key = eid.key) := by
  rw [Bool.eq_iff_iff, decide_eq_true_iff, matchesEid,
    Ipv6Prefix.sanitize_of_le hlen, Bool.and_eq_true, decide_eq_true_iff,
    Bool.not_true, Bool.false_or, beq_iff_eq]
  constructor
  · rintro ⟨hlength, hpre⟩
    exact (key_eq_iff hlength.symm).mpr hpre
  · intro hkey
    exact ⟨(prefixLength_eq_of_key_eq hkey).symm, by rw [hkey]⟩

/-- What `exact_sort` reports for a regular EID: the index field of the last
entry that stores the prefix. -/
theorem exactSort_of_isRegular {controlPlanesCtr : ℕ} {table : List Assignment}
    {eid : Ipv6Prefix} (hctr : controlPlanesCtr ≠ 0) (heid : eid.IsRegular)
    (hlen : eid.prefixLength.toNat ≤ 128) :
    exactSort controlPlanesCtr table eid =
      match lastEntry table eid.key with
      | none => ⟨.sortingNon, some controlPlanesDef, eid⟩
      | some entry => ⟨.sortingOne, some entry.assigneeIndex, eid⟩ := by
  have hinit : FlexSortState.Tracks true eid none ⟨eid, -1, none⟩ :=
    ⟨Or.inl rfl, rfl, rfl⟩
  obtain ⟨hcur, hmax, hindex⟩ :=
    hinit.foldl table fun _ _ => Or.inl hlen
  have hlast : scan (matchesEid true eid) Assignment.len table none =
      lastEntry table eid.key := by
    have hmatch : ∀ entry, matchesEid true eid entry = true →
        Assignment.len entry = eid.prefixLength.toNat := by
      intro entry hentry
      rw [matchesEid_exact hlen, decide_eq_true_iff] at hentry
      rw [Assignment.len, prefixLength_eq_of_key_eq hentry]
    rw [scan_eq_last hmatch table (by simp), Option.or_none, lastEntry]
    congr 1
    funext entry
    exact matchesEid_exact hlen entry
  have hcur : (table.foldl (flexSortStep true) ⟨eid, -1, none⟩).significantEid =
      eid := by simpa using hcur
  rw [hlast] at hmax hindex
  rw [exactSort, flexSort, if_neg hctr, if_neg heid.1, if_neg heid.2]
  dsimp only
  rw [hmax, hindex, hcur]
  cases lastEntry table eid.key with
  | none => rfl
  | some entry =>
      have hpos : (entry.len : ℤ) > -1 := by omega
      simp [hpos]

end HyLisp.Hypervisor
