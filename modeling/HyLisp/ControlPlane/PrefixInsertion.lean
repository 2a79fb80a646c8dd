import HyLisp.ControlPlane.PrefixTree
import HyLisp.Support.BitTrie
import Mathlib.Data.List.Nodup

/-!
# Insertion into the mapping database

`db_node_get` finds the node of a prefix, or makes it: below the last node that
covers the prefix, or above a node that is not covered by it, with another node
where the two part.  The bits that two prefixes have in common are found bytewise.
As tries of bit strings the trees are what insertion into a trie makes of them.
-/

namespace HyLisp.ControlPlane

open DataPlane BitString

/-! ## The common part of two prefixes -/

/-- The first loop of `route_common`, over at most `k` bytes: the first one, from byte
`i` on, that is not the same. -/
def equalBytes (np pp : Mem) : ℕ → ℕ → ℕ
  | 0, i => i
  | k + 1, i => if np i = pp i then equalBytes np pp k (i + 1) else i

/-- The second loop: the length moves on to the first bit of `diff` that is set, from
the one in `mask` on, by at most `n`. -/
def commonLen (diff : UInt8) : ℕ → UInt8 → ℕ → ℕ
  | 0, _, len => len
  | n + 1, mask, len =>
      if mask &&& diff ≠ 0 then len else commonLen diff n (mask >>> 1) (len + 1)

/-- The length that `route_common` arrives at, from byte `i` on. -/
def commonLength (np pp : Mem) (plen i : ℕ) : ℕ :=
  commonLen (np i ^^^ pp i) (plen - i * 8) 0x80 (i * 8)

/-- An address of the same family, read at the start of a memory. -/
def withBytes (addr : Address) (m : Mem) : Address :=
  match addr with
  | .inet _ => .inet (m.bytes 0 4)
  | .inet6 _ => .inet6 (m.bytes 0 16)

/-- `route_common` -/
def routeCommon (n p : Prefix) : Prefix :=
  let np := n.addr.toMem
  let pp := p.addr.toMem
  let i := equalBytes np pp (p.prefixlen.toNat / 8) 0
  let len := commonLength np pp p.prefixlen.toNat i
  let newp : Mem := fun j =>
    if j < i then np j
    else if j = i ∧ i * 8 ≠ p.prefixlen.toNat then
      np i &&& maskbit.get ⟨len % 8, by omega⟩
    else 0
  ⟨withBytes p.addr newp, .ofNat len⟩

section Common

variable {np pp : Mem} {n p : Prefix}

/-- The bytes passed are the same, and the next one is not. -/
theorem equalBytes_spec (np pp : Mem) (k i : ℕ) :
    ∃ t ≤ k, equalBytes np pp k i = i + t ∧ (∀ s < t, np (i + s) = pp (i + s)) ∧
      (t < k → np (i + t) ≠ pp (i + t)) := by
  induction k generalizing i with
  | zero => exact ⟨0, le_rfl, rfl, by simp, by simp⟩
  | succ k ih =>
      rw [equalBytes]
      by_cases hsame : np i = pp i
      · obtain ⟨t, ht, heq, hpassed, hnext⟩ := ih (i + 1)
        refine ⟨t + 1, by omega, by rw [if_pos hsame, heq]; omega, ?_, ?_⟩
        · intro s hs
          cases s with
          | zero => exact hsame
          | succ s =>
              rw [show i + (s + 1) = i + 1 + s by omega]
              exact hpassed s (by omega)
        · intro hlt
          rw [show i + (t + 1) = i + 1 + t by omega]
          exact hnext (by omega)
      · exact ⟨0, by omega, if_neg hsame, by simp, fun _ => hsame⟩

/-- The mask of `route_common` that tests bit `j`. -/
def maskAt (j : ℕ) : UInt8 :=
  if j < 8 then 0x80 >>> UInt8.ofNat j else 0

theorem maskAt_succ (j : ℕ) : maskAt j >>> 1 = maskAt (j + 1) := by
  have hsmall : ∀ j : Fin 8, maskAt j >>> 1 = maskAt (j + 1) := by decide
  by_cases hj : j < 8
  · exact hsmall ⟨j, hj⟩
  · rw [maskAt, maskAt, if_neg hj, if_neg (by omega)]
    rfl

theorem maskAt_and_iff {j : ℕ} (hj : j < 8) (x : UInt8) :
    maskAt j &&& x ≠ 0 ↔ byteBit x j = true := by
  have hbits : ∀ j : Fin 8, ∀ b : BitVec 8,
      maskAt j &&& UInt8.ofBitVec b ≠ 0 ↔ byteBit (UInt8.ofBitVec b) j = true := by
    decide +kernel
  exact hbits ⟨j, hj⟩ x.toBitVec

/-- The bits passed are not set, and the next one is. -/
theorem commonLen_spec (diff : UInt8) (n j len : ℕ) :
    ∃ t ≤ n, commonLen diff n (maskAt j) len = len + t ∧
      (∀ s < t, j + s < 8 → byteBit diff (j + s) = false) ∧
      (t < n → j + t < 8 ∧ byteBit diff (j + t) = true) := by
  induction n generalizing j len with
  | zero => exact ⟨0, le_rfl, rfl, by simp, by simp⟩
  | succ n ih =>
      rw [commonLen]
      by_cases hset : maskAt j &&& diff ≠ 0
      · have hj : j < 8 := by
          by_contra hge
          rw [maskAt, if_neg hge, UInt8.zero_and] at hset
          exact hset rfl
        exact ⟨0, by omega, if_pos hset, by simp,
          fun _ => ⟨hj, (maskAt_and_iff hj diff).mp hset⟩⟩
      · obtain ⟨t, ht, heq, hpassed, hnext⟩ := ih (j + 1) (len + 1)
        refine ⟨t + 1, by omega, ?_, ?_, ?_⟩
        · rw [if_neg hset, maskAt_succ, heq]
          omega
        · intro s hs hlt
          cases s with
          | zero =>
              rw [Nat.add_zero] at hlt ⊢
              rw [maskAt_and_iff hlt] at hset
              exact Bool.eq_false_of_not_eq_true hset
          | succ s =>
              rw [show j + (s + 1) = j + 1 + s by omega] at hlt ⊢
              exact hpassed s (by omega) hlt
        · intro hlt
          rw [show j + (t + 1) = j + 1 + t by omega]
          exact hnext (by omega)

theorem bit_eq_byteBit (m : Mem) (i : ℕ) {t : ℕ} (ht : t < 8) :
    bit m (i * 8 + t) = byteBit (m i) t := by
  rw [bit, show (i * 8 + t) / 8 = i by omega, show (i * 8 + t) % 8 = t by omega]

theorem byteBit_xor (x y : UInt8) (i : ℕ) :
    byteBit (x ^^^ y) i = (byteBit x i ^^ byteBit y i) := by
  simp [byteBit, Nat.testBit_xor]

/-- The length arrived at, from the first byte that is not the same. -/
theorem commonLength_spec (np pp : Mem) (plen : ℕ) :
    ∃ t < 8, commonLength np pp plen (equalBytes np pp (plen / 8) 0) =
        equalBytes np pp (plen / 8) 0 * 8 + t ∧
      equalBytes np pp (plen / 8) 0 * 8 + t ≤ plen ∧
      (∀ i < equalBytes np pp (plen / 8) 0 * 8 + t, bit np i = bit pp i) ∧
      (equalBytes np pp (plen / 8) 0 * 8 + t < plen →
        bit np (equalBytes np pp (plen / 8) 0 * 8 + t) ≠
          bit pp (equalBytes np pp (plen / 8) 0 * 8 + t)) := by
  obtain ⟨i, hi, heq, hbytes, hnext⟩ := equalBytes_spec np pp (plen / 8) 0
  simp only [Nat.zero_add] at heq hbytes hnext
  rw [heq]
  obtain ⟨t, ht, hlen, hpassed, hset⟩ :=
    commonLen_spec (np i ^^^ pp i) (plen - i * 8) 0 (i * 8)
  simp only [Nat.zero_add, byteBit_xor] at hpassed hset
  have hsame : ∀ s < t, s < 8 → byteBit (np i) s = byteBit (pp i) s := by
    intro s hs hs8
    simpa using hpassed s hs hs8
  have ht8 : t < 8 := by
    by_contra hge
    rcases Nat.lt_or_ge i (plen / 8) with hlt | hwhole
    · exact hnext hlt (byte_ext fun s hs => hsame s (by omega) hs)
    · omega
  refine ⟨t, ht8, hlen, by omega, ?_, ?_⟩
  · intro j hj
    rcases Nat.lt_or_ge j (i * 8) with hlt | hge
    · rw [bit, bit, hbytes (j / 8) (by omega)]
    · obtain ⟨s, rfl⟩ := Nat.exists_eq_add_of_le hge
      rw [bit_eq_byteBit _ _ (by omega), bit_eq_byteBit _ _ (by omega)]
      exact hsame s (by omega) (by omega)
  · intro hlt
    rw [bit_eq_byteBit _ _ ht8, bit_eq_byteBit _ _ ht8]
    simpa using (hset (by omega)).2

theorem ofVector_bytes_eq (m : Mem) (n j : ℕ) :
    Mem.ofVector (m.bytes 0 n) j = if j < n then m j else 0 := by
  by_cases hj : j < n
  · rw [Mem.ofVector_bytes m 0 hj, if_pos hj, Nat.zero_add]
  · simp [Mem.ofVector, hj]

theorem toMem_withBytes (addr : Address) (m : Mem) (j : ℕ) :
    (withBytes addr m).toMem j = if j < addr.width / 8 then m j else 0 := by
  cases addr with
  | inet addr =>
      have hwidth : (Address.inet addr).width / 8 = 4 := by rw [Address.width]
      rw [hwidth]
      exact ofVector_bytes_eq m 4 j
  | inet6 addr =>
      have hwidth : (Address.inet6 addr).width / 8 = 16 := by rw [Address.width]
      rw [hwidth]
      exact ofVector_bytes_eq m 16 j

theorem width_withBytes (addr : Address) (m : Mem) :
    (withBytes addr m).width = addr.width := by
  cases addr with
  | inet addr => rfl
  | inet6 addr => rfl

/-- Behind an address there are zeros. -/
theorem toMem_of_le (addr : Address) {j : ℕ} (hj : addr.width / 8 ≤ j) :
    addr.toMem j = 0 := by
  cases addr with
  | inet addr =>
      have hlen : addr.toList.length ≤ j := by simpa [Address.width] using hj
      rw [Address.toMem, Mem.ofVector, List.getD_eq_default _ _ hlen]
  | inet6 addr =>
      have hlen : addr.toList.length ≤ j := by simpa [Address.width] using hj
      rw [Address.toMem, Mem.ofVector, List.getD_eq_default _ _ hlen]

theorem bitAt_leading {m : Mem} {len i : ℕ} (hi : i < len) :
    BitTrie.bitAt (leading m len) i = bit m i := by
  simp [BitTrie.bitAt, leading, hi]

/-- The length arrived at for two prefixes. -/
def commonLengthOf (n p : Prefix) : ℕ :=
  commonLength n.addr.toMem p.addr.toMem p.prefixlen.toNat
    (equalBytes n.addr.toMem p.addr.toMem (p.prefixlen.toNat / 8) 0)

theorem commonLengthOf_le (n p : Prefix) : commonLengthOf n p ≤ p.prefixlen.toNat := by
  obtain ⟨t, -, hlen, hle, -⟩ :=
    commonLength_spec n.addr.toMem p.addr.toMem p.prefixlen.toNat
  rw [commonLengthOf, hlen]
  exact hle

theorem prefixlen_routeCommon (n p : Prefix) :
    (routeCommon n p).prefixlen.toNat = commonLengthOf n p := by
  have hle := commonLengthOf_le n p
  have hlt := p.prefixlen.toNat_lt
  change (UInt8.ofNat (commonLengthOf n p)).toNat = _
  rw [UInt8.toNat_ofNat']
  exact Nat.mod_eq_of_lt (by omega)

/-- The bits up to the length are those of both prefixes. -/
theorem bits_routeCommon_eq_take (n p : Prefix) :
    (routeCommon n p).bits = p.bits.take (commonLengthOf n p) := by
  obtain ⟨t, ht, hlen, hle, hagree, -⟩ :=
    commonLength_spec n.addr.toMem p.addr.toMem p.prefixlen.toNat
  rw [← commonLengthOf] at hlen
  rw [← hlen] at hle hagree
  rw [Prefix.bits, prefixlen_routeCommon, Prefix.bits, leading, leading,
    ← List.map_take, List.take_range, Nat.min_eq_left hle]
  refine List.map_congr_left fun j hj => ?_
  have hj' := List.mem_range.mp hj
  have hbit := hagree j hj'
  rw [bit, bit] at hbit ⊢
  rw [routeCommon, toMem_withBytes]
  split
  · split
    · exact hbit
    · -- the byte with the first difference, under the mask
      have hbyte : j / 8 = equalBytes n.addr.toMem p.addr.toMem
          (p.prefixlen.toNat / 8) 0 := by omega
      have hmask := maskbit_isLeadMask ⟨commonLengthOf n p % 8, by omega⟩
      have hsame : byteBit (n.addr.toMem (equalBytes n.addr.toMem p.addr.toMem
          (p.prefixlen.toNat / 8) 0)) (j % 8) = byteBit (p.addr.toMem (j / 8)) (j % 8) := by
        rw [← hbyte]
        exact hbit
      rw [if_pos ⟨hbyte, by omega⟩, byteBit_and, hsame]
      have hlead : byteBit (maskbit.get ⟨commonLengthOf n p % 8, by omega⟩) (j % 8) =
          true := by
        rw [hmask (j % 8) (by omega)]
        exact decide_eq_true (by dsimp only; omega)
      exact (congrArg _ hlead).trans (Bool.and_true _)
  next hbehind => rw [toMem_of_le p.addr (Nat.not_lt.mp hbehind)]

/-- The common part of two prefixes of which the first does not cover the second. -/
theorem commonPrefix_bits (h : ¬ n.bits <+: p.bits) :
    BitTrie.commonPrefix n.bits p.bits = (routeCommon n p).bits ∧
      commonLengthOf n p < n.prefixlen.toNat ∧
      (commonLengthOf n p < p.prefixlen.toNat →
        bit n.addr.toMem (commonLengthOf n p) ≠ bit p.addr.toMem (commonLengthOf n p)) := by
  obtain ⟨t, -, hlen, hle, hagree, hnext⟩ :=
    commonLength_spec n.addr.toMem p.addr.toMem p.prefixlen.toNat
  rw [← commonLengthOf] at hlen
  rw [← hlen] at hle hagree hnext
  have hlt : commonLengthOf n p < n.prefixlen.toNat := by
    by_contra hge
    refine h (leading_isPrefix_iff.mpr ⟨by omega, fun i hi => hagree i (by omega)⟩)
  refine ⟨?_, hlt, hnext⟩
  rw [bits_routeCommon_eq_take]
  refine BitTrie.commonPrefix_eq_take ?_ ?_ ?_ ?_
  · rw [Prefix.bits, length_leading]
    exact hlt.le
  · rw [Prefix.bits, length_leading]
    exact hle
  · intro i hi
    rw [Prefix.bits, Prefix.bits, bitAt_leading (by omega), bitAt_leading (by omega)]
    exact hagree i hi
  · rcases Nat.lt_or_ge (commonLengthOf n p) p.prefixlen.toNat with hp | hp
    · refine Or.inr (Or.inr ?_)
      rw [Prefix.bits, Prefix.bits, bitAt_leading hlt, bitAt_leading hp]
      exact hnext hp
    · refine Or.inr (Or.inl ?_)
      rw [Prefix.bits, length_leading]
      omega

end Common

/-! ## Nodes -/

/-- `set_link`, to a node without a subtree on that side. -/
def DbTree.setLink {ν : Type} : DbTree ν → DbTree ν → DbTree ν
  | .node p data left right, .node n data' left' right' =>
      let new := .node n data' left' right'
      if checkBit n.addr.toMem p.prefixlen.toNat then .node p data left new
      else .node p data new right
  | t, _ => t

/-- `db_node_get`, and a change `f` of the data of the node that it returns.  Nodes are
made with `fresh` for the prefix, and with `glue` where two others part. -/
def DbTree.dbNodeGet {ν : Type} (glue fresh : ν) (f : ν → ν) :
    DbTree ν → Prefix → DbTree ν
  | .nil, p => .node p (f fresh) .nil .nil
  | .node n data left right, p =>
      if n.prefixlen ≤ p.prefixlen ∧ prefixMatch n p then
        if n.prefixlen = p.prefixlen then .node n (f data) left right
        else if checkBit p.addr.toMem n.prefixlen.toNat then
          .node n data left (right.dbNodeGet glue fresh f p)
        else .node n data (left.dbNodeGet glue fresh f p) right
      else
        let new := routeCommon n p
        let node := .node n data left right
        if new.prefixlen ≠ p.prefixlen then
          ((DbTree.node new glue .nil .nil).setLink node).setLink
            (.node p (f fresh) .nil .nil)
        else (DbTree.node new (f fresh) .nil .nil).setLink node

/-- The nodes of a tree. -/
def DbTree.nodes {ν : Type} : DbTree ν → List (Prefix × ν)
  | .nil => []
  | .node p data left right => (p, data) :: (left.nodes ++ right.nodes)

/-! ## Trees as tries -/

/-- The trie of the bits of the prefixes. -/
def DbTree.toTrie {ν : Type} : DbTree ν → BitTrie (Prefix × ν)
  | .nil => .nil
  | .node p data left right => .node p.bits (p, data) left.toTrie right.toTrie

/-- Insertion, on tries. -/
def nodeUpdate {ν : Type} (glue fresh : ν) (f : ν → ν) (p : Prefix) :
    BitTrie.Update (Prefix × ν) where
  fresh := (p, f fresh)
  covering := fun e => (routeCommon e.1 p, f fresh)
  glue := fun e => (routeCommon e.1 p, glue)
  change := fun e => (e.1, f e.2)

theorem checkBit_eq_bit (m : Mem) (i : ℕ) : checkBit m i = bit m i := by
  have hbits : ∀ k : Fin 8, ∀ b : BitVec 8,
      decide (UInt8.ofBitVec b >>> UInt8.ofNat (7 - k) &&& 1 ≠ 0) =
        byteBit (UInt8.ofBitVec b) k := by
    decide +kernel
  exact hbits ⟨i % 8, by omega⟩ (m (i / 8)).toBitVec

section Trie

variable {ν : Type} {glue fresh : ν} {f : ν → ν} {t : DbTree ν} {p : Prefix}

theorem entries_toTrie (t : DbTree ν) :
    t.toTrie.entries = t.nodes.map fun e => (e.1.bits, e) := by
  induction t with
  | nil => rfl
  | node p data left right ihleft ihright =>
      simp [DbTree.toTrie, BitTrie.entries, DbTree.nodes, ihleft, ihright]

theorem covers_iff {n p : Prefix} :
    n.prefixlen ≤ p.prefixlen ∧ prefixMatch n p = true ↔ n.bits <+: p.bits := by
  rw [prefixMatch_iff, and_iff_right_iff_imp]
  intro h
  have hle := h.length_le
  rw [Prefix.bits, Prefix.bits, length_leading, length_leading] at hle
  exact UInt8.le_iff_toNat_le.mpr hle

theorem bits_eq_iff {n p : Prefix} (h : n.bits <+: p.bits) :
    n.prefixlen = p.prefixlen ↔ n.bits = p.bits := by
  constructor
  · intro hlen
    refine h.eq_of_length ?_
    rw [Prefix.bits, Prefix.bits, length_leading, length_leading, hlen]
  · intro hbits
    have hlen := congrArg List.length hbits
    rw [Prefix.bits, Prefix.bits, length_leading, length_leading] at hlen
    exact UInt8.toNat_inj.mp hlen

theorem checkBit_eq_bitAt {p : Prefix} {i : ℕ} (hi : i < p.prefixlen.toNat) :
    checkBit p.addr.toMem i = BitTrie.bitAt p.bits i := by
  rw [checkBit_eq_bit, Prefix.bits, bitAt_leading hi]

@[simp] theorem length_bits (p : Prefix) : p.bits.length = p.prefixlen.toNat :=
  length_leading _ _

/-- A node that is not covered, above which the node of a prefix is made. -/
theorem toTrie_link {n p : Prefix} {data : ν} {left right : DbTree ν}
    (hcover : ¬ n.bits <+: p.bits) :
    let node := DbTree.node n data left right
    let new := routeCommon n p
    DbTree.toTrie
        (if new.prefixlen ≠ p.prefixlen then
          ((DbTree.node new glue .nil .nil).setLink node).setLink
            (.node p (f fresh) .nil .nil)
        else (DbTree.node new (f fresh) .nil .nil).setLink node) =
      node.toTrie.insert (nodeUpdate glue fresh f p) p.bits := by
  obtain ⟨hcommon, hltn, hdiffer⟩ := commonPrefix_bits hcover
  have hinitial : (routeCommon n p).bits <+: p.bits :=
    hcommon ▸ BitTrie.commonPrefix_right n.bits p.bits
  have hbitn := checkBit_eq_bitAt hltn
  dsimp only
  rw [DbTree.toTrie, BitTrie.insert, if_neg hcover]
  dsimp only
  rw [hcommon]
  by_cases heq : (routeCommon n p).prefixlen = p.prefixlen
  · have hbits := (bits_eq_iff hinitial).mp heq
    rw [if_neg (not_not.mpr heq), if_pos hbits, DbTree.setLink, BitTrie.above, ← hbits,
      length_bits, prefixlen_routeCommon, hbitn]
    split <;> rfl
  · have hbits : (routeCommon n p).bits ≠ p.bits := fun hbits =>
      heq ((bits_eq_iff hinitial).mpr hbits)
    have hltp : commonLengthOf n p < p.prefixlen.toNat := by
      have hlength := BitTrie.length_lt_of_prefix_of_ne hinitial hbits
      rwa [length_bits, length_bits, prefixlen_routeCommon] at hlength
    have hdiffer := hdiffer hltp
    rw [← checkBit_eq_bit, ← checkBit_eq_bit] at hdiffer
    rw [if_pos heq, if_neg hbits, length_bits, prefixlen_routeCommon,
      ← checkBit_eq_bitAt hltp, DbTree.setLink, prefixlen_routeCommon]
    -- the two nodes go to different sides
    cases hp : checkBit p.addr.toMem (commonLengthOf n p) with
    | false =>
        rw [hp] at hdiffer
        rw [if_pos (Bool.eq_true_of_not_eq_false hdiffer), DbTree.setLink,
          prefixlen_routeCommon, hp]
        rfl
    | true =>
        rw [hp] at hdiffer
        rw [if_neg hdiffer, DbTree.setLink, prefixlen_routeCommon, hp]
        rfl

/-- `db_node_get` is insertion into the trie. -/
theorem toTrie_dbNodeGet (t : DbTree ν) (p : Prefix) :
    (t.dbNodeGet glue fresh f p).toTrie =
      t.toTrie.insert (nodeUpdate glue fresh f p) p.bits := by
  induction t with
  | nil => rfl
  | node n data left right ihleft ihright =>
      rw [DbTree.dbNodeGet]
      by_cases hcover : n.bits <+: p.bits
      · rw [if_pos (covers_iff.mpr hcover), DbTree.toTrie, BitTrie.insert, if_pos hcover]
        by_cases heq : n.prefixlen = p.prefixlen
        · rw [if_pos heq, if_pos ((bits_eq_iff hcover).mp heq)]
          rfl
        · have hne : n.bits ≠ p.bits := fun hbits => heq ((bits_eq_iff hcover).mpr hbits)
          have hlt := BitTrie.length_lt_of_prefix_of_ne hcover hne
          rw [length_bits, length_bits] at hlt
          rw [if_neg heq, if_neg hne, length_bits, checkBit_eq_bitAt hlt]
          split
          · rw [DbTree.toTrie, ihright]
          · rw [DbTree.toTrie, ihleft]
      · rw [if_neg fun hc => hcover (covers_iff.mp hc)]
        exact toTrie_link hcover

/-- A search passes nodes of the tree. -/
theorem matchPath_subset_nodes : t.matchPath p ⊆ t.nodes := by
  induction t with
  | nil => exact List.nil_subset _
  | node n data left right ihleft ihright =>
      rw [DbTree.matchPath]
      split
      · refine List.cons_subset_cons _ ?_
        split
        · exact List.Subset.trans ihright (List.subset_append_right _ _)
        · exact List.Subset.trans ihleft (List.subset_append_left _ _)
      · exact List.nil_subset _

/-! ## Nodes after an insertion -/

/-- Every node lies below prefixes that cover it, on the side of its next bit. -/
def DbTree.InPlace (t : DbTree ν) : Prop :=
  BitTrie.Below [] t.toTrie

theorem DbTree.InPlace.dbNodeGet (h : t.InPlace) :
    (t.dbNodeGet glue fresh f p).InPlace := by
  unfold DbTree.InPlace at h ⊢
  rw [toTrie_dbNodeGet]
  exact h.insert List.nil_prefix

theorem mem_nodes_iff {e : Prefix × ν} :
    e ∈ t.nodes ↔ (e.1.bits, e) ∈ t.toTrie.entries := by
  rw [entries_toTrie, List.mem_map]
  constructor
  · intro h
    exact ⟨e, h, rfl⟩
  · rintro ⟨e', h, heq⟩
    obtain ⟨-, rfl⟩ := Prod.mk.inj heq
    exact h

/-- The nodes of other prefixes stay as they are. -/
theorem mem_nodes_dbNodeGet {e : Prefix × ν} (he : e ∈ t.nodes)
    (hne : e.1.bits ≠ p.bits) : e ∈ (t.dbNodeGet glue fresh f p).nodes := by
  rw [mem_nodes_iff] at he ⊢
  rw [toTrie_dbNodeGet]
  exact BitTrie.mem_entries_insert he hne

/-- The node of the prefix is changed. -/
theorem mem_nodes_dbNodeGet_self (h : t.InPlace) {e : Prefix × ν} (he : e ∈ t.nodes)
    (heq : e.1.bits = p.bits) : (e.1, f e.2) ∈ (t.dbNodeGet glue fresh f p).nodes := by
  rw [mem_nodes_iff, heq] at he
  rw [mem_nodes_iff, toTrie_dbNodeGet, heq]
  exact BitTrie.mem_entries_insert_self h he

/-- A node was there, or has no mapping and is made where prefixes part, or is the one
of the prefix. -/
theorem mem_nodes_dbNodeGet_cases {e : Prefix × ν}
    (he : e ∈ (t.dbNodeGet glue fresh f p).nodes) :
    e ∈ t.nodes ∨ (e.1.bits <+: p.bits ∧ e.2 = glue) ∨
      e.1.bits = p.bits ∧ (e.2 = f fresh ∨ ∃ d, (e.1, d) ∈ t.nodes ∧ e.2 = f d) := by
  rw [mem_nodes_iff, toTrie_dbNodeGet] at he
  rcases BitTrie.mem_entries_insert_cases he with
    hold | ⟨hinitial, d, hglue⟩ | ⟨hbits, hmade⟩
  · exact Or.inl (mem_nodes_iff.mpr hold)
  · exact Or.inr (Or.inl ⟨hinitial, congrArg Prod.snd hglue⟩)
  · refine Or.inr (Or.inr ⟨hbits, ?_⟩)
    rcases hmade with hfresh | ⟨d, hover⟩ | ⟨⟨n, d⟩, hmem, hchange⟩
    · exact Or.inl (congrArg Prod.snd hfresh)
    · exact Or.inl (congrArg Prod.snd hover)
    · refine Or.inr ⟨d, ?_, congrArg Prod.snd hchange⟩
      have hn : e.1 = n := congrArg Prod.fst hchange
      rw [mem_nodes_iff, hn]
      rw [entries_toTrie, List.mem_map] at hmem ⊢
      obtain ⟨e', hmem, heq⟩ := hmem
      obtain ⟨-, rfl⟩ := Prod.mk.inj heq
      exact ⟨_, hmem, rfl⟩

theorem DbTree.InPlace.eq_of_bits (h : t.InPlace) {e e' : Prefix × ν} (he : e ∈ t.nodes)
    (he' : e' ∈ t.nodes) (hbits : e.1.bits = e'.1.bits) : e = e' := by
  have hkeys := BitTrie.Below.nodup_keys h
  have heq := List.inj_on_of_nodup_map hkeys (mem_nodes_iff.mp he) (mem_nodes_iff.mp he') hbits
  exact congrArg Prod.snd heq

/-- There is one node of the prefix, with changed data. -/
theorem exists_mem_nodes_dbNodeGet (h : t.InPlace) (glue fresh : ν) (f : ν → ν) (p : Prefix) :
    ∃ e ∈ (t.dbNodeGet glue fresh f p).nodes, e.1.bits = p.bits ∧ (∃ d, e.2 = f d) ∧
      ∀ e' ∈ (t.dbNodeGet glue fresh f p).nodes, e'.1.bits = p.bits → e' = e := by
  obtain ⟨e, hmem, hmade⟩ := BitTrie.exists_made (nodeUpdate glue fresh f p) t.toTrie p.bits
  rw [← toTrie_dbNodeGet, entries_toTrie, List.mem_map] at hmem
  obtain ⟨e', hnode, heq⟩ := hmem
  obtain ⟨hbits, rfl⟩ := Prod.mk.inj heq
  refine ⟨e', hnode, hbits, ?_, fun e'' hmem'' hbits'' =>
    (h.dbNodeGet).eq_of_bits hmem'' hnode (hbits''.trans hbits.symm)⟩
  rcases hmade with hfresh | ⟨d, hover⟩ | ⟨d, -, hchange⟩
  · exact ⟨fresh, congrArg Prod.snd hfresh⟩
  · exact ⟨fresh, congrArg Prod.snd hover⟩
  · exact ⟨d.2, congrArg Prod.snd hchange⟩

/-- All nodes of a tree stay of one address family. -/
theorem width_dbNodeGet {w : ℕ} (h : ∀ e ∈ t.nodes, e.1.addr.width = w)
    (hp : p.addr.width = w) :
    ∀ e ∈ (t.dbNodeGet glue fresh f p).nodes, e.1.addr.width = w := by
  have hcommon : ∀ n, (routeCommon n p).addr.width = w := fun n =>
    (width_withBytes p.addr _).trans hp
  intro e he
  rw [mem_nodes_iff, toTrie_dbNodeGet] at he
  rcases BitTrie.mem_entries_insert_cases he with hold | ⟨-, n, hglue⟩ | ⟨-, hmade⟩
  · exact h e (mem_nodes_iff.mpr hold)
  · rw [show e.1 = routeCommon n.1 p from congrArg Prod.fst hglue]
    exact hcommon n.1
  · rcases hmade with hfresh | ⟨n, hover⟩ | ⟨⟨n, d⟩, hmem, hchange⟩
    · rw [show e.1 = p from congrArg Prod.fst hfresh]
      exact hp
    · rw [show e.1 = routeCommon n.1 p from congrArg Prod.fst hover]
      exact hcommon n.1
    · have hn : e.1 = n := congrArg Prod.fst hchange
      rw [hn]
      rw [entries_toTrie, List.mem_map] at hmem
      obtain ⟨n', hmem, heq⟩ := hmem
      obtain ⟨-, rfl⟩ := Prod.mk.inj heq
      exact h (n, d) hmem

/-- What the change keeps of the data is kept, besides that of the nodes made. -/
theorem map_nodes_dbNodeGet {ι : Type} {g : ν → ι} (hf : ∀ d, g (f d) = g d)
    (glue fresh : ν) (t : DbTree ν) (p : Prefix) :
    ∃ new, new.Sublist [g fresh, g glue] ∧
      ((t.dbNodeGet glue fresh f p).nodes.map fun e => g e.2).Perm
        ((t.nodes.map fun e => g e.2) ++ new) := by
  have hentries : ∀ t : DbTree ν,
      (t.toTrie.entries.map fun e => g e.2.2) = t.nodes.map fun e => g e.2 := by
    intro t
    rw [entries_toTrie, List.map_map]
    rfl
  obtain ⟨new, hnew, hperm⟩ := BitTrie.map_entries_insert
    (u := nodeUpdate glue fresh f p) (g := fun e => g e.2) (c := g glue)
    (fun d => hf d.2) (fun _ => rfl) (fun _ => rfl) t.toTrie p.bits
  rw [← toTrie_dbNodeGet, hentries, hentries] at hperm
  refine ⟨new, ?_, hperm⟩
  rw [← hf fresh]
  exact hnew

/-- The prefixes of the nodes with the numbers of nodes above them. -/
def DbTree.depths {ν : Type} (d : ℕ) : DbTree ν → List (ℕ × Prefix)
  | .nil => []
  | .node p _ left right => (d, p) :: (left.depths (d + 1) ++ right.depths (d + 1))

theorem depths_toTrie (t : DbTree ν) (d : ℕ) :
    t.toTrie.depths d = (t.depths d).map fun e => (e.1, e.2.bits) := by
  induction t generalizing d with
  | nil => rfl
  | node p data left right ihleft ihright =>
      simp [DbTree.toTrie, BitTrie.depths, DbTree.depths, ihleft, ihright]

theorem exists_mem_nodes_of_mem_depths {d : ℕ} {e : ℕ × Prefix} (he : e ∈ t.depths d) :
    ∃ data, (e.2, data) ∈ t.nodes := by
  induction t generalizing d with
  | nil => cases he
  | node p data left right ihleft ihright =>
      rcases List.mem_cons.mp he with rfl | hrest
      · exact ⟨data, List.mem_cons_self⟩
      · rcases List.mem_append.mp hrest with hl | hr
        · obtain ⟨data', hmem⟩ := ihleft hl
          exact ⟨data', List.mem_cons_of_mem _ (List.mem_append_left _ hmem)⟩
        · obtain ⟨data', hmem⟩ := ihright hr
          exact ⟨data', List.mem_cons_of_mem _ (List.mem_append_right _ hmem)⟩

/-- No node lies deeper than its prefix is long. -/
theorem DbTree.InPlace.depth_le (h : t.InPlace) {e : ℕ × Prefix} (he : e ∈ t.depths 0) :
    e.1 ≤ e.2.prefixlen.toNat := by
  have hmem : (e.1, e.2.bits) ∈ t.toTrie.depths 0 := by
    rw [depths_toTrie]
    exact List.mem_map_of_mem he
  have hle := BitTrie.Below.depth_le h (Nat.zero_le _) hmem
  rwa [length_bits] at hle

end Trie

end HyLisp.ControlPlane
