import HyLisp.ControlPlane.Prefix
import HyLisp.Support.BitString

/-!
# The prefix trees of the mapping database

The database keeps a tree of prefixes for each address family.  A search descends
from the top as long as the node covers the prefix searched for, and turns left
or right by the next bit of it.  The nodes passed on the way, from the top down,
are the path of the search; the code climbs back along it by `parent`.
-/

namespace HyLisp.ControlPlane

open DataPlane BitString

/-! ## Prefixes in a tree -/

/-- `maskbit` -/
def maskbit : Vector UInt8 9 :=
  #v[0x00, 0x80, 0xc0, 0xe0, 0xf0, 0xf8, 0xfc, 0xfe, 0xff]

/-- `prefix_match` -/
def prefixMatch (n p : Prefix) : Bool :=
  let np := n.addr.toMem
  let pp := p.addr.toMem
  let offset := n.prefixlen.toNat / 8
  let shift := n.prefixlen.toNat % 8
  if n.prefixlen > p.prefixlen then false
  else if shift ≠ 0 ∧
      maskbit.get ⟨shift, by omega⟩ &&& (np offset ^^^ pp offset) ≠ 0 then false
  else Mem.sameBytes np pp offset

/-- `check_bit` -/
def checkBit (p : Mem) (prefixlen : ℕ) : Bool :=
  let offset := prefixlen / 8
  let shift := 7 - prefixlen % 8
  p offset >>> .ofNat shift &&& 1 ≠ 0

/-- The bits of a prefix. -/
def Prefix.bits (p : Prefix) : List Bool :=
  leading p.addr.toMem p.prefixlen.toNat

theorem maskbit_isLeadMask : ∀ k : Fin 9, IsLeadMask k (maskbit.get k) := by
  decide

theorem and_xor_eq_zero_iff {m x y : UInt8} :
    m &&& (x ^^^ y) = 0 ↔ x &&& m = y &&& m := by
  have hdistrib : m &&& (x ^^^ y) = x &&& m ^^^ y &&& m := by
    apply byte_ext
    intro i _
    simp [byteBit, Nat.testBit_and, Nat.testBit_xor, Bool.and_xor_distrib_left,
      Bool.and_comm]
  rw [hdistrib, UInt8.xor_eq_zero_iff]

/-- `prefix_match` holds exactly when the bits of the one prefix start those of
the other. -/
theorem prefixMatch_iff {n p : Prefix} :
    prefixMatch n p = true ↔ n.bits <+: p.bits := by
  unfold prefixMatch
  by_cases hlen : n.prefixlen > p.prefixlen
  · have hnot : ¬ n.bits <+: p.bits := by
      intro h
      have hle := h.length_le
      rw [Prefix.bits, Prefix.bits, length_leading, length_leading] at hle
      exact absurd (UInt8.lt_iff_toNat_lt.mp hlen) (Nat.not_lt.mpr hle)
    simp [hlen, hnot]
  · have hle : n.prefixlen.toNat ≤ p.prefixlen.toNat :=
      Nat.not_lt.mp fun h => hlen (UInt8.lt_iff_toNat_lt.mpr h)
    have hmask := maskbit_isLeadMask ⟨n.prefixlen.toNat % 8, by omega⟩
    rw [Prefix.bits, Prefix.bits, leading_isPrefix_iff_bytes hmask hle,
      ← and_xor_eq_zero_iff]
    rw [if_neg hlen]
    by_cases hbits : maskbit.get ⟨n.prefixlen.toNat % 8, by omega⟩ &&&
        (n.addr.toMem (n.prefixlen.toNat / 8) ^^^
          p.addr.toMem (n.prefixlen.toNat / 8)) = 0
    · rw [if_neg fun h => h.2 hbits, Mem.sameBytes_iff]
      exact (and_iff_left hbits).symm
    · -- no bits are left over when the length is a number of bytes
      have hshift : n.prefixlen.toNat % 8 ≠ 0 := by
        intro hzero
        have hget : maskbit.get ⟨n.prefixlen.toNat % 8, by omega⟩ = 0 := by
          simp only [hzero]
          rfl
        rw [hget, UInt8.zero_and] at hbits
        exact hbits rfl
      rw [if_pos ⟨hshift, hbits⟩]
      simp [hbits]

/-! ## Trees -/

/-- `db_table`, from `top` on: the prefix of a node, what else is kept there, and
the two links. -/
inductive DbTree (ν : Type)
  | nil
  | node (p : Prefix) (data : ν) (left right : DbTree ν)

/-- The nodes passed by `db_node_match_prefix`; the one it returns is the last
one. -/
def DbTree.matchPath {ν : Type} : DbTree ν → Prefix → List (Prefix × ν)
  | .nil, _ => []
  | .node n data left right, p =>
      if n.prefixlen ≤ p.prefixlen ∧ prefixMatch n p then
        (n, data) ::
          if checkBit p.addr.toMem n.prefixlen.toNat then right.matchPath p
          else left.matchPath p
      else []

/-- Every node on the path covers the prefix. -/
theorem DbTree.isPrefix_of_mem_matchPath {ν : Type} {t : DbTree ν} {p : Prefix}
    {node : Prefix × ν} (h : node ∈ t.matchPath p) : node.1.bits <+: p.bits := by
  induction t with
  | nil => cases h
  | node n data left right ihleft ihright =>
      rw [matchPath] at h
      split at h
      next hmatch =>
        rcases List.mem_cons.mp h with rfl | hrest
        · exact prefixMatch_iff.mp hmatch.2
        · split at hrest
          · exact ihright hrest
          · exact ihleft hrest
      · cases h

end HyLisp.ControlPlane
