import HyLisp.ControlPlane.PrefixInsertion

/-!
# Negative prefixes

A request for an EID that no mapping covers is answered with a prefix around it that
covers no mapping either.  `get_hole_eid` compares the request bit by bit with the
children of the node that it ended in, until it has told all of them apart, and cuts the
request there.  The request is read from its first byte on and the children from the
byte in which the node ends; this module says when the cut comes out right all the same.
-/

namespace HyLisp.ControlPlane

open DataPlane BitString

/-! ## The code -/

/-- `upbit` -/
def upbit : Vector UInt8 8 :=
  #v[0x1, 0x80, 0x40, 0x20, 0x10, 0x8, 0x4, 0x2]

/-- The test of `get_hole_eid` at place `c`. -/
def upbitDiffers (c : ℕ) (res child : UInt8) : Bool :=
  upbit.get (Fin.ofNat 8 c) &&& (res ^^^ child) ≠ 0

/-- The loop of `get_hole_eid` over at most `n` places from `c` on, after `k` advances:
the place at which it breaks.  `left` and `right` are the addresses that are left. -/
def holeLoop (res : Mem) (start offset : ℕ) :
    ℕ → ℕ → ℕ → Option Mem → Option Mem → Option ℕ
  | 0, _, _, _, _ => none
  | n + 1, c, k, left, right =>
      let left := left.filter fun addr => !upbitDiffers c (res k) (addr (offset + k))
      let right := right.filter fun addr => !upbitDiffers c (res k) (addr (offset + k))
      if left.isNone && right.isNone then some c
      else
        holeLoop res start offset n (c + 1)
          (if c > start + 1 ∧ c % 8 = 0 then k + 1 else k) left right

/-- The request cut at place `c`.  The number of bytes to clear is kept in a `uint8_t`. -/
def cutPrefix (pf : Prefix) (c : ℕ) : Prefix :=
  let offset := UInt8.ofInt (((pf.prefixlen.toNat : ℤ) - c).tdiv 8)
  let addr : Mem := fun j =>
    if j = c / 8 then pf.addr.toMem j &&& maskbit.get ⟨c % 8, by omega⟩
    else if c / 8 < j ∧ j ≤ c / 8 + offset.toNat then 0
    else pf.addr.toMem j
  ⟨withBytes pf.addr addr, .ofNat c⟩

/-- The last place that is compared. -/
def holeEnd (left right : Option Prefix) (pf : Prefix) : ℕ :=
  let longer : ℕ → Option Prefix → ℕ := fun len child =>
    match child with
    | some child => if child.prefixlen.toNat > len then child.prefixlen.toNat else len
    | none => len
  longer (longer pf.prefixlen.toNat left) right

/-- `get_hole_eid`: what `rs` holds afterwards, and the value returned. -/
def getHoleEid (rs nega : Prefix) (left right : Option Prefix) (pf : Prefix) :
    Prefix × ℤ :=
  if left.isSome || right.isSome then
    let start := nega.prefixlen.toNat
    match holeLoop pf.addr.toMem start (start / 8) (holeEnd left right pf - start)
        (start + 1) 0 (left.map fun child => child.addr.toMem)
        (right.map fun child => child.addr.toMem) with
    | some c => (cutPrefix pf c, 0)
    | none => (rs, 1)
  else (nega, 0)

/-! ## What it is called with, and what for -/

/-- The prefixes of the children. -/
def IsChild (left right : Option Prefix) (child : Prefix) : Prop :=
  child ∈ left ∨ child ∈ right

/-- A node with its children, each on its side, and a request in the node that neither
covers a child nor is covered by one. -/
structure HoleQuery (nega : Prefix) (left right : Option Prefix) (pf : Prefix) :
    Prop where
  valid : pf.prefixlen.toNat ≤ pf.addr.width
  inside : nega.bits <+: pf.bits
  child_width : ∀ child, IsChild left right child → child.addr.width = pf.addr.width
  child_valid : ∀ child, IsChild left right child →
    child.prefixlen.toNat ≤ child.addr.width
  child_inside : ∀ child, IsChild left right child →
    nega.bits <+: child.bits ∧ nega.prefixlen < child.prefixlen
  left_side : ∀ child ∈ left, checkBit child.addr.toMem nega.prefixlen.toNat = false
  right_side : ∀ child ∈ right, checkBit child.addr.toMem nega.prefixlen.toNat = true
  apart : ∀ child, IsChild left right child →
    ¬ child.bits <+: pf.bits ∧ ¬ pf.bits <+: child.bits
  width : nega.addr.width = pf.addr.width

/-- A prefix around the request, in the node and disjoint from its children. -/
structure IsHole (nega : Prefix) (left right : Option Prefix) (pf rs : Prefix) :
    Prop where
  width : rs.addr.width = pf.addr.width
  covers : rs.bits <+: pf.bits
  inside : nega.bits <+: rs.bits
  disjoint : ∀ child, IsChild left right child →
    ¬ child.bits <+: rs.bits ∧ ¬ rs.bits <+: child.bits

/-! ## What the loop compares -/

/-- How often the pointers have advanced when place `c` is compared. -/
def advances (start c : ℕ) : ℕ :=
  (c - 1) / 8 - (start + 1) / 8

/-- The bits that are compared at place `c` differ. -/
def Differs (start : ℕ) (res child : Mem) (c : ℕ) : Prop :=
  byteBit (res (advances start c)) ((c - 1) % 8) ≠
    byteBit (child (start / 8 + advances start c)) ((c - 1) % 8)

/-- Every child has been told apart at a place from `c` to `c'`. -/
def ToldApart (start : ℕ) (res : Mem) (left right : Option Mem) (c c' : ℕ) : Prop :=
  ∀ child, child ∈ left ∨ child ∈ right →
    ∃ d, c ≤ d ∧ d ≤ c' ∧ Differs start res child d

/-- Places count from one. -/
theorem upbit_eq_maskAt (t : Fin 8) :
    upbit.get ⟨(t.val + 1) % 8, Nat.mod_lt _ (by decide)⟩ = maskAt t := by
  decide +revert

theorem upbitDiffers_iff {start : ℕ} {res child : Mem} {c : ℕ} (hc : 0 < c) :
    upbitDiffers c (res (advances start c)) (child (start / 8 + advances start c)) ↔
      Differs start res child c := by
  have hmask : upbit.get (Fin.ofNat 8 c) = maskAt ((c - 1) % 8) := by
    have hplace : ((c - 1) % 8 + 1) % 8 = c % 8 := by omega
    have hget := upbit_eq_maskAt ⟨(c - 1) % 8, by omega⟩
    simp only [hplace] at hget
    exact hget
  rw [upbitDiffers, hmask, decide_eq_true_iff, maskAt_and_iff (by omega), byteBit_xor,
    Differs]
  simp

theorem advances_first (start : ℕ) : advances start (start + 1) = 0 := by
  rw [advances]
  omega

theorem advances_succ {start c : ℕ} (hc : start < c) :
    advances start (c + 1) =
      if c > start + 1 ∧ c % 8 = 0 then advances start c + 1 else advances start c := by
  rw [advances, advances]
  split <;> omega

section Loop

variable {start : ℕ} {res : Mem} {left right : Option Mem} {c c' n : ℕ}

/-- The address of a child that is left behind place `c`. -/
def stillAlike (start : ℕ) (res : Mem) (c : ℕ) (addrs : Option Mem) : Option Mem :=
  addrs.filter fun addr =>
    !upbitDiffers c (res (advances start c)) (addr (start / 8 + advances start c))

/-- A child that is left has not been told apart at this place. -/
theorem mem_stillAlike_iff {child : Mem} {addrs : Option Mem} (hc : 0 < c) :
    child ∈ stillAlike start res c addrs ↔
      child ∈ addrs ∧ ¬ Differs start res child c := by
  rw [stillAlike, Option.mem_def, Option.filter_eq_some_iff, Option.mem_def,
    Bool.not_eq_true', ← Bool.not_eq_true, upbitDiffers_iff hc]

/-- The children that are left after a place decide about the later ones. -/
theorem toldApart_stillAlike_iff (hc : 0 < c) (hle : c ≤ c') :
    ToldApart start res (stillAlike start res c left) (stillAlike start res c right)
      (c + 1) c' ↔ ToldApart start res left right c c' := by
  constructor
  · intro h child hchild
    by_cases hdiffers : Differs start res child c
    · exact ⟨c, le_rfl, hle, hdiffers⟩
    · have hleft : child ∈ stillAlike start res c left ∨
          child ∈ stillAlike start res c right :=
        hchild.imp (fun hmem => (mem_stillAlike_iff hc).mpr ⟨hmem, hdiffers⟩)
          (fun hmem => (mem_stillAlike_iff hc).mpr ⟨hmem, hdiffers⟩)
      obtain ⟨d, hd, hd', hdiff⟩ := h child hleft
      exact ⟨d, by omega, hd', hdiff⟩
  · intro h child hchild
    have hmem : (child ∈ left ∨ child ∈ right) ∧ ¬ Differs start res child c := by
      rcases hchild with hl | hr
      · have halike := (mem_stillAlike_iff hc).mp hl
        exact ⟨Or.inl halike.1, halike.2⟩
      · have halike := (mem_stillAlike_iff hc).mp hr
        exact ⟨Or.inr halike.1, halike.2⟩
    obtain ⟨d, hd, hd', hdiff⟩ := h child hmem.1
    have hne : d ≠ c := fun heq => hmem.2 (heq ▸ hdiff)
    exact ⟨d, by omega, hd', hdiff⟩

/-- No child is left exactly when all are told apart at the place itself. -/
theorem isNone_stillAlike_iff (hc : 0 < c) :
    ((stillAlike start res c left).isNone && (stillAlike start res c right).isNone) =
      true ↔ ToldApart start res left right c c := by
  rw [Bool.and_eq_true, Option.isNone_iff_eq_none, Option.isNone_iff_eq_none,
    ← toldApart_stillAlike_iff hc le_rfl]
  constructor
  · rintro ⟨hl, hr⟩ child hchild
    rw [hl, hr] at hchild
    exact absurd hchild (by simp)
  · intro h
    -- there is no place behind it for a child that is left
    have hno : ∀ child, ¬ (child ∈ stillAlike start res c left ∨
        child ∈ stillAlike start res c right) := by
      intro child hchild
      obtain ⟨d, hd, hd', -⟩ := h child hchild
      omega
    exact ⟨Option.eq_none_iff_forall_not_mem.mpr fun child hl => hno child (Or.inl hl),
      Option.eq_none_iff_forall_not_mem.mpr fun child hr => hno child (Or.inr hr)⟩

theorem holeLoop_succ (res : Mem) (left right : Option Mem) (n : ℕ) (hc : start < c) :
    holeLoop res start (start / 8) (n + 1) c (advances start c) left right =
      if (stillAlike start res c left).isNone && (stillAlike start res c right).isNone then
        some c
      else
        holeLoop res start (start / 8) n (c + 1) (advances start (c + 1))
          (stillAlike start res c left) (stillAlike start res c right) := by
  rw [advances_succ hc]
  rfl

/-- The loop breaks at the first place at which every child has been told apart. -/
theorem holeLoop_spec (res : Mem) (left right : Option Mem) (n : ℕ) (hc : start < c) :
    (∃ c', holeLoop res start (start / 8) n c (advances start c) left right = some c' ∧
      c ≤ c' ∧ c' < c + n ∧ ToldApart start res left right c c' ∧
      ∀ d, c ≤ d → d < c' → ¬ ToldApart start res left right c d) ∨
    holeLoop res start (start / 8) n c (advances start c) left right = none ∧
      ∀ d, c ≤ d → d < c + n → ¬ ToldApart start res left right c d := by
  induction n generalizing c left right with
  | zero => exact Or.inr ⟨rfl, fun d hd hlt => by omega⟩
  | succ n ih =>
      have hpos : 0 < c := by omega
      have hself : _ ↔ ToldApart start res left right c c := isNone_stillAlike_iff hpos
      rw [holeLoop_succ res left right n hc]
      split
      next hnone =>
        exact Or.inl ⟨c, rfl, le_rfl, by omega, hself.mp hnone, fun d hd hlt => by omega⟩
      next hsome =>
        -- a child is left, so that the place itself is not the one
        have hbefore : ∀ d, c ≤ d →
            (c + 1 ≤ d → ¬ ToldApart start res (stillAlike start res c left)
              (stillAlike start res c right) (c + 1) d) →
            ¬ ToldApart start res left right c d := by
          intro d hd hlater
          rcases Nat.eq_or_lt_of_le hd with rfl | hlt
          · exact fun htold => hsome (hself.mpr htold)
          · rw [← toldApart_stillAlike_iff hpos hd]
            exact hlater hlt
        rcases ih _ _ (Nat.lt_succ_of_lt hc) with ⟨c', heq, hle, hlt, htold, hfirst⟩ |
          ⟨heq, hnever⟩
        · refine Or.inl ⟨c', heq, by omega, by omega, ?_, ?_⟩
          · exact (toldApart_stillAlike_iff hpos (by omega)).mp htold
          · intro d hd hlt'
            exact hbefore d hd fun hd' => hfirst d hd' hlt'
        · refine Or.inr ⟨heq, ?_⟩
          intro d hd hlt'
          exact hbefore d hd fun hd' => hnever d hd' (by omega)

end Loop

/-! ## The cut -/

section Cut

variable {nega pf rs : Prefix} {left right : Option Prefix} {c : ℕ}

theorem length_cutPrefix (hc : c < 256) : (cutPrefix pf c).bits.length = c := by
  rw [length_bits]
  change (UInt8.ofNat c).toNat = c
  rw [UInt8.toNat_ofNat']
  exact Nat.mod_eq_of_lt hc

/-- Cut inside the request, it is the first bits of the request that are left. -/
theorem bits_cutPrefix (hc : c ≤ pf.prefixlen.toNat) :
    (cutPrefix pf c).bits = leading pf.addr.toMem c := by
  have hlt := pf.prefixlen.toNat_lt
  have hlen : (cutPrefix pf c).prefixlen.toNat = c := by
    rw [← length_bits]
    exact length_cutPrefix (by omega)
  rw [Prefix.bits, hlen, leading, leading]
  refine List.map_congr_left fun j hj => ?_
  have hj' := List.mem_range.mp hj
  rw [bit, bit, cutPrefix, toMem_withBytes]
  split
  · split
    next hbyte =>
      -- the byte with the cut, under the mask
      have hmask := maskbit_isLeadMask ⟨c % 8, by omega⟩
      have hlead : byteBit (maskbit.get ⟨c % 8, by omega⟩) (j % 8) = true := by
        rw [hmask (j % 8) (by omega)]
        exact decide_eq_true (by dsimp only; omega)
      rw [byteBit_and]
      exact (congrArg _ hlead).trans (Bool.and_true _)
    next hbyte => rw [if_neg (by omega)]
  next hbehind => rw [toMem_of_le pf.addr (Nat.not_lt.mp hbehind)]

theorem width_cutPrefix (pf : Prefix) (c : ℕ) :
    (cutPrefix pf c).addr.width = pf.addr.width :=
  width_withBytes _ _

theorem HoleQuery.agree_of_inside (h : HoleQuery nega left right pf) {child : Prefix}
    (hchild : IsChild left right child) :
    ∀ i < nega.prefixlen.toNat, bit pf.addr.toMem i = bit child.addr.toMem i := by
  intro i hi
  have hpf := (leading_isPrefix_iff.mp h.inside).2 i hi
  have hch := (leading_isPrefix_iff.mp (h.child_inside child hchild).1).2 i hi
  rw [← hpf, hch]

/-- A child and the request have another bit somewhere in both. -/
theorem HoleQuery.exists_bit_ne (h : HoleQuery nega left right pf) {child : Prefix}
    (hchild : IsChild left right child) :
    ∃ i < pf.prefixlen.toNat, i < child.prefixlen.toNat ∧
      bit pf.addr.toMem i ≠ bit child.addr.toMem i := by
  by_contra hnone
  push Not at hnone
  rcases Nat.le_total pf.prefixlen.toNat child.prefixlen.toNat with hle | hle
  · exact (h.apart child hchild).2
      (leading_isPrefix_iff.mpr ⟨hle, fun i hi => hnone i hi (by omega)⟩)
  · exact (h.apart child hchild).1
      (leading_isPrefix_iff.mpr ⟨hle, fun i hi => (hnone i (by omega) hi).symm⟩)

/-- The request itself is such a prefix. -/
theorem HoleQuery.isHole_self (h : HoleQuery nega left right pf) :
    IsHole nega left right pf pf where
  width := rfl
  covers := List.prefix_rfl
  inside := h.inside
  disjoint := h.apart

/-- The cut comes out right exactly inside the request, behind a bit in which it is not
the same as the child, for each of them. -/
theorem HoleQuery.isHole_cutPrefix_iff (h : HoleQuery nega left right pf)
    (hstart : nega.prefixlen.toNat < c) (hc : c < 256) :
    IsHole nega left right pf (cutPrefix pf c) ↔
      c ≤ pf.prefixlen.toNat ∧ ∀ child, IsChild left right child →
        ∃ i < c, bit pf.addr.toMem i ≠ bit child.addr.toMem i := by
  constructor
  · intro hhole
    have hle : c ≤ pf.prefixlen.toNat := by
      have hlen := hhole.covers.length_le
      rw [length_cutPrefix hc, length_bits] at hlen
      exact hlen
    refine ⟨hle, ?_⟩
    intro child hchild
    by_contra hnone
    push Not at hnone
    obtain ⟨hover, hunder⟩ := hhole.disjoint child hchild
    rw [bits_cutPrefix hle] at hover hunder
    rcases Nat.le_total c child.prefixlen.toNat with hshort | hlong
    · exact hunder (leading_isPrefix_iff.mpr ⟨hshort, hnone⟩)
    · exact hover (leading_isPrefix_iff.mpr
        ⟨hlong, fun i hi => (hnone i (by omega)).symm⟩)
  · rintro ⟨hle, hbits⟩
    have hcovers : (cutPrefix pf c).bits <+: pf.bits := by
      rw [bits_cutPrefix hle]
      exact leading_isPrefix_iff.mpr ⟨hle, fun i _ => rfl⟩
    refine ⟨width_cutPrefix pf c, hcovers, ?_, ?_⟩
    · rw [bits_cutPrefix hle]
      exact leading_isPrefix_iff.mpr ⟨hstart.le, (leading_isPrefix_iff.mp h.inside).2⟩
    · intro child hchild
      refine ⟨fun hover => (h.apart child hchild).1 (hover.trans hcovers), ?_⟩
      intro hunder
      rw [bits_cutPrefix hle] at hunder
      obtain ⟨i, hi, hne⟩ := hbits child hchild
      exact hne ((leading_isPrefix_iff.mp hunder).2 i hi)

end Cut

/-! ## When it comes out right -/

/-- The comparisons have told every child apart by place `c`. -/
def ToldApartBy (nega : Prefix) (left right : Option Prefix) (pf : Prefix) (c : ℕ) :
    Prop :=
  ∀ child, IsChild left right child → ∃ d, nega.prefixlen.toNat < d ∧ d ≤ c ∧
    Differs nega.prefixlen.toNat pf.addr.toMem child.addr.toMem d

/-- If the comparisons tell all children apart, they do so inside the request, and not
as long as the bits of the request are those of a child.  If they do not, what `rs` held
before is such a prefix. -/
structure CutsRight (rs nega : Prefix) (left right : Option Prefix) (pf : Prefix) :
    Prop where
  cut : ToldApartBy nega left right pf (holeEnd left right pf) →
    ToldApartBy nega left right pf pf.prefixlen.toNat ∧
      ∀ child, IsChild left right child → ∀ c,
        (∀ i < c, bit pf.addr.toMem i = bit child.addr.toMem i) →
          ¬ ToldApartBy nega left right pf c
  uncut : ¬ ToldApartBy nega left right pf (holeEnd left right pf) →
    IsHole nega left right pf rs

section Search

variable {rs nega pf : Prefix} {left right : Option Prefix} {c : ℕ}

theorem ToldApartBy.mono {c' : ℕ} (h : ToldApartBy nega left right pf c)
    (hle : c ≤ c') : ToldApartBy nega left right pf c' := by
  intro child hchild
  obtain ⟨d, hstart, hd, hdiffers⟩ := h child hchild
  exact ⟨d, hstart, hd.trans hle, hdiffers⟩

theorem toldApart_map_iff :
    ToldApart nega.prefixlen.toNat pf.addr.toMem
      (left.map fun child => child.addr.toMem) (right.map fun child => child.addr.toMem)
      (nega.prefixlen.toNat + 1) c ↔ ToldApartBy nega left right pf c := by
  constructor
  · intro h child hchild
    refine h child.addr.toMem (hchild.imp ?_ ?_)
    · exact fun hmem => Option.mem_map_of_mem _ hmem
    · exact fun hmem => Option.mem_map_of_mem _ hmem
  · rintro h addr (hmem | hmem)
    · obtain ⟨child, hchild, rfl⟩ := Option.mem_map.mp hmem
      exact h child (Or.inl hchild)
    · obtain ⟨child, hchild, rfl⟩ := Option.mem_map.mp hmem
      exact h child (Or.inr hchild)

theorem isSome_iff_exists_child :
    (left.isSome || right.isSome) = true ↔ ∃ child, IsChild left right child := by
  rw [Bool.or_eq_true, Option.isSome_iff_exists, Option.isSome_iff_exists]
  exact exists_or.symm

theorem le_holeEnd {child : Prefix} (hchild : IsChild left right child) :
    child.prefixlen.toNat ≤ holeEnd left right pf ∧
      pf.prefixlen.toNat ≤ holeEnd left right pf := by
  rw [holeEnd]
  rcases hchild with hl | hr
  · obtain rfl := Option.mem_def.mp hl
    cases right <;> dsimp only <;> split_ifs <;> omega
  · obtain rfl := Option.mem_def.mp hr
    cases left <;> dsimp only <;> split_ifs <;> omega

theorem holeEnd_lt (left right : Option Prefix) (pf : Prefix) :
    holeEnd left right pf < 256 := by
  have hpf := pf.prefixlen.toNat_lt
  rw [holeEnd]
  cases left with
  | none =>
      cases right with
      | none => exact hpf
      | some child =>
          have hlt := child.prefixlen.toNat_lt
          dsimp only
          split_ifs <;> omega
  | some child =>
      have hlt := child.prefixlen.toNat_lt
      cases right with
      | none =>
          dsimp only
          split_ifs <;> omega
      | some child' =>
          have hlt' := child'.prefixlen.toNat_lt
          dsimp only
          split_ifs <;> omega

/-- With a child, `get_hole_eid` cuts at the first place by which all are told apart,
or leaves `rs` as it was. -/
theorem HoleQuery.getHoleEid_cases (h : HoleQuery nega left right pf) {child : Prefix}
    (hchild : IsChild left right child) (rs : Prefix) :
    (∃ c, getHoleEid rs nega left right pf = (cutPrefix pf c, 0) ∧
      nega.prefixlen.toNat < c ∧ c ≤ holeEnd left right pf ∧
      ToldApartBy nega left right pf c ∧
      ∀ d < c, ¬ ToldApartBy nega left right pf d) ∨
    getHoleEid rs nega left right pf = (rs, 1) ∧
      ¬ ToldApartBy nega left right pf (holeEnd left right pf) := by
  have hsome := isSome_iff_exists_child.mpr ⟨child, hchild⟩
  have hlong : nega.prefixlen.toNat < holeEnd left right pf :=
    lt_of_lt_of_le (UInt8.lt_iff_toNat_lt.mp (h.child_inside child hchild).2)
      (le_holeEnd hchild).1
  -- up to the end of the node, nothing is compared
  have hearly : ∀ d ≤ nega.prefixlen.toNat, ¬ ToldApartBy nega left right pf d := by
    intro d hd htold
    obtain ⟨e, hstart, he, -⟩ := htold child hchild
    omega
  rw [getHoleEid, if_pos hsome]
  have hspec := holeLoop_spec pf.addr.toMem (left.map fun child => child.addr.toMem)
    (right.map fun child => child.addr.toMem)
    (holeEnd left right pf - nega.prefixlen.toNat) (Nat.lt_succ_self nega.prefixlen.toNat)
  simp only [Nat.succ_eq_add_one, advances_first, toldApart_map_iff] at hspec
  rcases hspec with ⟨c, heq, hle, hlt, htold, hfirst⟩ | ⟨heq, hnever⟩
  · refine Or.inl ⟨c, by simp only [heq], by omega, by omega, htold, ?_⟩
    intro d hd
    rcases Nat.lt_or_ge nega.prefixlen.toNat d with hstart | hstart
    · exact hfirst d hstart hd
    · exact hearly d hstart
  · exact Or.inr ⟨by simp only [heq], hnever _ hlong (by omega)⟩

/-- `get_hole_eid` finds a prefix around the request, in the node and disjoint from its
children, exactly if its comparisons tell the children apart where they part. -/
theorem getHoleEid_isHole_iff (h : HoleQuery nega left right pf) (rs : Prefix) :
    IsHole nega left right pf (getHoleEid rs nega left right pf).1 ↔
      CutsRight rs nega left right pf := by
  by_cases hsome : (left.isSome || right.isSome) = true
  · obtain ⟨child, hchild⟩ := isSome_iff_exists_child.mp hsome
    rcases h.getHoleEid_cases hchild rs with ⟨c, heq, hstart, hend, htold, hfirst⟩ |
      ⟨heq, hnever⟩
    · have hlt := holeEnd_lt left right pf
      rw [heq, h.isHole_cutPrefix_iff hstart (by omega)]
      constructor
      · rintro ⟨hle, hbits⟩
        refine ⟨fun _ => ⟨htold.mono hle, ?_⟩,
          fun hnot => absurd (htold.mono hend) hnot⟩
        intro child hchild d hagree hd
        obtain ⟨i, hi, hne⟩ := hbits child hchild
        have hdi : d ≤ i := Nat.not_lt.mp fun hlt => hne (hagree i hlt)
        exact hfirst d (by omega) hd
      · rintro ⟨hcut, -⟩
        obtain ⟨hinside, hparts⟩ := hcut (htold.mono hend)
        refine ⟨Nat.not_lt.mp fun hlt => hfirst _ hlt hinside, ?_⟩
        intro child hchild
        by_contra hnone
        push Not at hnone
        exact hparts child hchild c hnone htold
    · rw [heq]
      exact ⟨fun hrs => ⟨fun htold => absurd htold hnever, fun _ => hrs⟩,
        fun hcuts => hcuts.uncut hnever⟩
  · -- without children it is the prefix of the node
    have hno : ∀ child, ¬ IsChild left right child :=
      fun child hchild => hsome (isSome_iff_exists_child.mpr ⟨child, hchild⟩)
    rw [getHoleEid, if_neg hsome]
    constructor
    · intro _
      refine ⟨fun _ => ⟨fun child hchild => absurd hchild (hno child),
        fun child hchild => absurd hchild (hno child)⟩, fun hnot => ?_⟩
      exact absurd (fun child hchild => absurd hchild (hno child)) hnot
    · intro _
      exact ⟨h.width, h.inside, List.prefix_rfl,
        fun child hchild => absurd hchild (hno child)⟩

/-- In every call `rs` is the request, and then only the cut can come out wrong. -/
theorem HoleQuery.cutsRight_self_iff (h : HoleQuery nega left right pf) :
    CutsRight pf nega left right pf ↔
      (ToldApartBy nega left right pf (holeEnd left right pf) →
        ToldApartBy nega left right pf pf.prefixlen.toNat ∧
          ∀ child, IsChild left right child → ∀ c,
            (∀ i < c, bit pf.addr.toMem i = bit child.addr.toMem i) →
              ¬ ToldApartBy nega left right pf c) :=
  ⟨fun hcuts => hcuts.cut, fun hcut => ⟨hcut, fun _ => h.isHole_self⟩⟩

/-- Under a node of at most six bits the bytes compared are those of the same place. -/
theorem differs_iff_of_short (hshort : nega.prefixlen.toNat ≤ 6) {child : Prefix}
    (hc : nega.prefixlen.toNat < c) :
    Differs nega.prefixlen.toNat pf.addr.toMem child.addr.toMem c ↔
      bit pf.addr.toMem (c - 1) ≠ bit child.addr.toMem (c - 1) := by
  have hzero : nega.prefixlen.toNat / 8 = 0 := by omega
  have hadvances : advances nega.prefixlen.toNat c = (c - 1) / 8 := by
    rw [advances]
    omega
  rw [Differs, hzero, hadvances, Nat.zero_add, bit, bit]

/-- There the comparisons tell the children apart where they part. -/
theorem HoleQuery.cutsRight_of_short (h : HoleQuery nega left right pf)
    (hshort : nega.prefixlen.toNat ≤ 6) (rs : Prefix) :
    CutsRight rs nega left right pf := by
  have htold : ToldApartBy nega left right pf pf.prefixlen.toNat := by
    intro child hchild
    obtain ⟨i, hi, -, hne⟩ := h.exists_bit_ne hchild
    have hstart : nega.prefixlen.toNat < i + 1 :=
      Nat.lt_succ_of_le (Nat.not_lt.mp fun hlt => hne (h.agree_of_inside hchild i hlt))
    exact ⟨i + 1, hstart, hi, (differs_iff_of_short hshort hstart).mpr hne⟩
  refine ⟨fun _ => ⟨htold, ?_⟩, fun hnot => absurd ?_ hnot⟩
  · intro child hchild c hagree hc
    obtain ⟨d, hstart, hd, hdiffers⟩ := hc child hchild
    exact (differs_iff_of_short hshort hstart).mp hdiffers (hagree (d - 1) (by omega))
  · intro child hchild
    exact htold.mono (le_holeEnd hchild).2 child hchild

end Search

/-! ## A node of eight bits -/

/-- `10.0.0.0/8`, with the child `10.1.0.0/16` to its left. -/
theorem holeQuery_eight :
    HoleQuery ⟨.inet #v[10, 0, 0, 0], 8⟩ (some ⟨.inet #v[10, 1, 0, 0], 16⟩) none
      ⟨.inet #v[10, 2, 0, 0], 16⟩ where
  valid := by decide
  inside := by decide
  child_width := by
    rintro child (hl | hr)
    · obtain rfl := Option.some_inj.mp hl
      rfl
    · cases hr
  child_valid := by
    rintro child (hl | hr)
    · obtain rfl := Option.some_inj.mp hl
      decide
    · cases hr
  child_inside := by
    rintro child (hl | hr)
    · obtain rfl := Option.some_inj.mp hl
      decide
    · cases hr
  left_side := by
    intro child hl
    obtain rfl := Option.some_inj.mp hl
    decide
  right_side := by
    intro child hr
    cases hr
  apart := by
    rintro child (hl | hr)
    · obtain rfl := Option.some_inj.mp hl
      decide
    · cases hr
  width := rfl

theorem getHoleEid_isHole_iff_eight :
    IsHole ⟨.inet #v[10, 0, 0, 0], 8⟩ (some ⟨.inet #v[10, 1, 0, 0], 16⟩) none
      ⟨.inet #v[10, 2, 0, 0], 16⟩
      (getHoleEid ⟨.inet #v[10, 2, 0, 0], 16⟩ ⟨.inet #v[10, 0, 0, 0], 8⟩
        (some ⟨.inet #v[10, 1, 0, 0], 16⟩) none ⟨.inet #v[10, 2, 0, 0], 16⟩).1 ↔
      CutsRight ⟨.inet #v[10, 2, 0, 0], 16⟩ ⟨.inet #v[10, 0, 0, 0], 8⟩
        (some ⟨.inet #v[10, 1, 0, 0], 16⟩) none ⟨.inet #v[10, 2, 0, 0], 16⟩ :=
  getHoleEid_isHole_iff holeQuery_eight _

/-- The request for `10.2.0.0/16` is answered with `10.0.0.0/13`, in which the child
lies. -/
theorem not_isHole_eight :
    HoleQuery ⟨.inet #v[10, 0, 0, 0], 8⟩ (some ⟨.inet #v[10, 1, 0, 0], 16⟩) none
        ⟨.inet #v[10, 2, 0, 0], 16⟩ ∧
      getHoleEid ⟨.inet #v[10, 2, 0, 0], 16⟩ ⟨.inet #v[10, 0, 0, 0], 8⟩
          (some ⟨.inet #v[10, 1, 0, 0], 16⟩) none ⟨.inet #v[10, 2, 0, 0], 16⟩ =
        (⟨.inet #v[10, 0, 0, 0], 13⟩, 0) ∧
      ¬ IsHole ⟨.inet #v[10, 0, 0, 0], 8⟩ (some ⟨.inet #v[10, 1, 0, 0], 16⟩) none
        ⟨.inet #v[10, 2, 0, 0], 16⟩ ⟨.inet #v[10, 0, 0, 0], 13⟩ := by
  refine ⟨holeQuery_eight, by decide +kernel, ?_⟩
  intro hhole
  have hdisjoint := (hhole.disjoint ⟨.inet #v[10, 1, 0, 0], 16⟩ (Or.inl rfl)).2
  exact hdisjoint (by decide)

end HyLisp.ControlPlane
