import HyLisp.Support.Memory
import Mathlib.Data.Nat.ModEq
import Mathlib.Tactic.Common
import Mathlib.Tactic.Ring

/-!
# One's complement sums

A checksum adds words up with end-around carry: a carry out of the word is added in
again.  Modulo the largest word this is a plain sum, which the complement of the
checksum brings to zero.  A word of two digits whose digits are exchanged is the word
times the radix, modulo the same number: the sum may be taken in either order of the
digits.
-/

namespace OnesComplement

/-! ## Carries -/

section Carries

variable {b s t : ℕ}

/-- The part of a sum above a word of base `b` is added in again. -/
def endAround (b s : ℕ) : ℕ :=
  s % b + s / b

theorem endAround_modEq (hb : 0 < b) (s : ℕ) : endAround b s ≡ s [MOD b - 1] := by
  have hone : 1 ≡ b [MOD b - 1] := (Nat.modEq_iff_dvd' hb).mpr (Nat.dvd_refl _)
  calc
    endAround b s = s % b + 1 * (s / b) := by rw [endAround, Nat.one_mul]
    _ ≡ s % b + b * (s / b) [MOD b - 1] := (hone.mul_right _).add_left _
    _ = s := Nat.mod_add_div s b

@[simp] theorem endAround_pos : 0 < endAround b s ↔ 0 < s := by
  constructor
  · intro hpos
    refine Nat.pos_of_ne_zero fun hzero => ?_
    rw [hzero, endAround, Nat.zero_mod, Nat.zero_div] at hpos
    exact Nat.lt_irrefl 0 hpos
  · intro hs
    rw [endAround]
    rcases Nat.eq_zero_or_pos (s / b) with hdiv | hdiv
    · have hsplit := Nat.mod_add_div s b
      rw [hdiv, Nat.mul_zero, Nat.add_zero] at hsplit
      rw [hsplit]
      exact Nat.add_pos_left hs _
    · exact Nat.add_pos_right _ hdiv

/-- The carry out of a sum of two words fits. -/
theorem endAround_add_lt (hs : s < b) (ht : t < b) : endAround b (s + t) < b := by
  rw [endAround]
  by_cases hlt : s + t < b
  · rw [Nat.mod_eq_of_lt hlt, Nat.div_eq_of_lt hlt]
    exact hlt
  · have hle : b ≤ s + t := Nat.le_of_not_lt hlt
    have hone : (s + t) / b = 1 := Nat.div_eq_of_lt_le (by omega) (by omega)
    have hmod : (s + t) % b = s + t - b := by
      rw [Nat.mod_eq_sub_mod hle, Nat.mod_eq_of_lt (by omega)]
    rw [hone, hmod]
    omega

end Carries

/-! ## Sums of words -/

section Sums

variable {b : ℕ} {ws : List ℕ}

/-- The one's complement sum of words of base `b`. -/
def onesSum (b : ℕ) (ws : List ℕ) : ℕ :=
  ws.foldl (fun sum w => endAround b (sum + w)) 0

/-- Summing on from a word: it stays a word, congruent to the plain sum, and is zero only
where that is. -/
theorem foldl_endAround (hws : ∀ w ∈ ws, w < b) {s : ℕ} (hs : s < b) :
    ws.foldl (fun sum w => endAround b (sum + w)) s < b ∧
      ws.foldl (fun sum w => endAround b (sum + w)) s ≡ s + ws.sum [MOD b - 1] ∧
      (0 < ws.foldl (fun sum w => endAround b (sum + w)) s ↔ 0 < s + ws.sum) := by
  induction ws generalizing s with
  | nil => exact ⟨hs, rfl, Iff.rfl⟩
  | cons w ws ih =>
      have hw : w < b := hws w List.mem_cons_self
      obtain ⟨hlt, hmod, hpos⟩ := ih (fun w' hmem => hws w' (List.mem_cons_of_mem w hmem))
        (endAround_add_lt hs hw)
      have hb : 0 < b := Nat.zero_lt_of_lt hw
      rw [List.foldl_cons, List.sum_cons, ← Nat.add_assoc]
      refine ⟨hlt, hmod.trans ((endAround_modEq hb _).add_right _), hpos.trans ?_⟩
      rw [Nat.add_pos_iff_pos_or_pos, endAround_pos, ← Nat.add_pos_iff_pos_or_pos]

/-- The sum is the largest word where that word divides the plain sum, which is not zero. -/
theorem onesSum_eq_iff (hb : 1 < b) (hws : ∀ w ∈ ws, w < b) :
    onesSum b ws = b - 1 ↔ 0 < ws.sum ∧ b - 1 ∣ ws.sum := by
  obtain ⟨hlt, hmod, hpos⟩ := foldl_endAround hws (Nat.zero_lt_of_lt hb)
  rw [Nat.zero_add] at hmod hpos
  rw [onesSum, ← hpos, ← hmod.dvd_iff (Nat.dvd_refl _)]
  constructor
  · intro htop
    rw [htop]
    exact ⟨Nat.sub_pos_of_lt hb, Nat.dvd_refl _⟩
  · rintro ⟨hword, hdvd⟩
    have hle := Nat.le_of_dvd hword hdvd
    omega

/-- The complement of a word congruent to a sum completes the sum. -/
theorem dvd_add_complement {sum word : ℕ} (hmod : word ≡ sum [MOD b - 1])
    (hle : word ≤ b - 1) : b - 1 ∣ sum + (b - 1 - word) := by
  have htotal : sum + (b - 1 - word) ≡ word + (b - 1 - word) [MOD b - 1] :=
    hmod.symm.add_right _
  rw [Nat.add_sub_cancel' hle] at htotal
  exact (htotal.dvd_iff (Nat.dvd_refl _)).mpr (Nat.dvd_refl _)

end Sums

/-! ## The order of the digits -/

section Digits

variable {r : ℕ}

/-- The words of two digits, the more significant one first. -/
def bigEndian (r : ℕ) : List ℕ → List ℕ
  | d₀ :: d₁ :: ds => (d₀ * r + d₁) :: bigEndian r ds
  | _ => []

/-- The words of two digits, the less significant one first. -/
def littleEndian (r : ℕ) : List ℕ → List ℕ
  | d₀ :: d₁ :: ds => (d₀ + d₁ * r) :: littleEndian r ds
  | _ => []

theorem bigEndian_lt {ds : List ℕ} (hds : ∀ d ∈ ds, d < r) :
    ∀ w ∈ bigEndian r ds, w < r * r := by
  fun_induction bigEndian r ds with
  | case1 d₀ d₁ ds ih =>
      simp only [List.mem_cons, forall_eq_or_imp] at hds ⊢
      obtain ⟨h₀, h₁, hds⟩ := hds
      refine ⟨?_, ih hds⟩
      calc
        d₀ * r + d₁ < d₀ * r + r := Nat.add_lt_add_left h₁ _
        _ = (d₀ + 1) * r := by ring
        _ ≤ r * r := Nat.mul_le_mul_right r h₀
  | case2 ds _ => simp

theorem littleEndian_lt {ds : List ℕ} (hds : ∀ d ∈ ds, d < r) :
    ∀ w ∈ littleEndian r ds, w < r * r := by
  fun_induction littleEndian r ds with
  | case1 d₀ d₁ ds ih =>
      simp only [List.mem_cons, forall_eq_or_imp] at hds ⊢
      obtain ⟨h₀, h₁, hds⟩ := hds
      refine ⟨?_, ih hds⟩
      calc
        d₀ + d₁ * r < r + d₁ * r := Nat.add_lt_add_right h₀ _
        _ = (d₁ + 1) * r := by ring
        _ ≤ r * r := Nat.mul_le_mul_right r h₁
  | case2 ds _ => simp

/-- Exchanging the digits of every word multiplies the sum by the radix. -/
theorem sum_bigEndian_modEq (hr : 0 < r) (ds : List ℕ) :
    (bigEndian r ds).sum ≡ r * (littleEndian r ds).sum [MOD r * r - 1] := by
  fun_induction bigEndian r ds with
  | case1 d₀ d₁ ds ih =>
      have hone : 1 ≡ r * r [MOD r * r - 1] :=
        (Nat.modEq_iff_dvd' (Nat.mul_pos hr hr)).mpr (Nat.dvd_refl _)
      have hword : d₀ * r + d₁ ≡ r * (d₀ + d₁ * r) [MOD r * r - 1] := by
        calc
          d₀ * r + d₁ = d₀ * r + 1 * d₁ := by ring
          _ ≡ d₀ * r + r * r * d₁ [MOD r * r - 1] := (hone.mul_right _).add_left _
          _ = r * (d₀ + d₁ * r) := by ring
      rw [littleEndian, List.sum_cons, List.sum_cons, Nat.mul_add]
      exact hword.add ih
  | case2 ds h =>
      rw [littleEndian.eq_2 r ds h]
      rfl

theorem sum_bigEndian_pos (hr : 0 < r) (ds : List ℕ) :
    0 < (bigEndian r ds).sum ↔ 0 < (littleEndian r ds).sum := by
  fun_induction bigEndian r ds with
  | case1 d₀ d₁ ds ih =>
      rw [littleEndian, List.sum_cons, List.sum_cons]
      simp only [Nat.add_pos_iff_pos_or_pos, ih, Nat.mul_pos_iff_of_pos_right hr]
  | case2 ds h => rw [littleEndian.eq_2 r ds h]

/-- A complement that is stored with its digits exchanged completes the sum in the other
order only if one more than the radix divides that sum. -/
theorem dvd_add_swapped_iff (hr : 1 < r) {sum swapped word : ℕ}
    (hsum : sum ≡ r * swapped [MOD r * r - 1]) (hword : r * r - 1 ∣ swapped + word) :
    r * r - 1 ∣ sum + word ↔ r + 1 ∣ sum := by
  have hfactor : r * r - 1 = (r - 1) * (r + 1) := by
    obtain ⟨k, rfl⟩ : ∃ k, r = k + 1 := ⟨r - 1, by omega⟩
    rw [Nat.add_sub_cancel, Nat.sub_eq_of_eq_add]
    ring
  have htotal : sum + word ≡ (r - 1) * swapped [MOD r * r - 1] := by
    calc
      sum + word ≡ r * swapped + word [MOD r * r - 1] := hsum.add_right _
      _ = (r - 1) * swapped + (swapped + word) := by
        obtain ⟨k, rfl⟩ : ∃ k, r = k + 1 := ⟨r - 1, by omega⟩
        rw [Nat.add_sub_cancel]
        ring
      _ ≡ (r - 1) * swapped + 0 [MOD r * r - 1] :=
        ((Nat.modEq_zero_iff_dvd).mpr hword).add_left _
  have hcoprime : Nat.Coprime (r + 1) r := by simp
  have hsmall : sum ≡ r * swapped [MOD r + 1] :=
    hsum.of_dvd (hfactor ▸ Nat.dvd_mul_left (r + 1) (r - 1))
  rw [htotal.dvd_iff (Nat.dvd_refl _), hsmall.dvd_iff (Nat.dvd_refl _), hfactor,
    Nat.mul_dvd_mul_iff_left (Nat.sub_pos_of_lt hr), hcoprime.dvd_mul_left]

theorem littleEndian_append (r : ℕ) (ds es : List ℕ) (heven : ds.length % 2 = 0) :
    littleEndian r (ds ++ es) = littleEndian r ds ++ littleEndian r es := by
  fun_induction littleEndian r ds with
  | case1 d₀ d₁ ds ih =>
      rw [List.length_cons, List.length_cons] at heven
      rw [List.cons_append, List.cons_append, littleEndian, ih (by omega), List.cons_append]
  | case2 ds h =>
      match ds, h, heven with
      | [], _, _ => rfl
      | d₀ :: d₁ :: ds, h, _ => exact absurd rfl (h d₀ d₁ ds)

theorem bigEndian_append (r : ℕ) (ds es : List ℕ) (heven : ds.length % 2 = 0) :
    bigEndian r (ds ++ es) = bigEndian r ds ++ bigEndian r es := by
  fun_induction bigEndian r ds with
  | case1 d₀ d₁ ds ih =>
      rw [List.length_cons, List.length_cons] at heven
      rw [List.cons_append, List.cons_append, bigEndian, ih (by omega), List.cons_append]
  | case2 ds h =>
      match ds, h, heven with
      | [], _, _ => rfl
      | d₀ :: d₁ :: ds, h, _ => exact absurd rfl (h d₀ d₁ ds)

end Digits

/-! ## Words of bytes -/

section Bytes

/-- The words of a byte sequence, in network order. -/
def networkWords (bytes : List UInt8) : List ℕ :=
  bigEndian 256 (bytes.map UInt8.toNat)

/-- The words of a byte sequence, in the order of a little-endian host. -/
def hostWords (bytes : List UInt8) : List ℕ :=
  littleEndian 256 (bytes.map UInt8.toNat)

theorem sum_networkWords_modEq (bytes : List UInt8) :
    (networkWords bytes).sum ≡ 256 * (hostWords bytes).sum [MOD 65535] :=
  sum_bigEndian_modEq (r := 256) (by decide) _

/-- In network order the words add up to the largest word where they do in host order. -/
theorem onesSum_networkWords_iff (bytes : List UInt8) :
    onesSum 65536 (networkWords bytes) = 0xFFFF ↔
      0 < (hostWords bytes).sum ∧ 65535 ∣ (networkWords bytes).sum := by
  have hlt : ∀ word ∈ networkWords bytes, word < 65536 := by
    refine bigEndian_lt fun digit hdigit => ?_
    obtain ⟨byte, -, rfl⟩ := List.mem_map.mp hdigit
    exact byte.toNat_lt
  exact (onesSum_eq_iff (by decide) hlt).trans
    (and_congr_left fun _ => sum_bigEndian_pos (by decide) _)

/-- The sum of the words is congruent to their one's complement sum, which is a word. -/
theorem onesSum_hostWords (bytes : List UInt8) :
    onesSum 65536 (hostWords bytes) ≤ 65535 ∧
      onesSum 65536 (hostWords bytes) ≡ (hostWords bytes).sum [MOD 65535] := by
  have hlt : ∀ word ∈ hostWords bytes, word < 65536 := by
    refine littleEndian_lt fun digit hdigit => ?_
    obtain ⟨byte, -, rfl⟩ := List.mem_map.mp hdigit
    exact byte.toNat_lt
  obtain ⟨hle, hmod, -⟩ := foldl_endAround hlt (by decide : 0 < 65536)
  rw [Nat.zero_add] at hmod
  exact ⟨Nat.le_of_lt_succ hle, hmod⟩

theorem networkWords_append {xs ys : List UInt8} (heven : xs.length % 2 = 0) :
    networkWords (xs ++ ys) = networkWords xs ++ networkWords ys := by
  rw [networkWords, List.map_append, bigEndian_append 256 _ _ (by rwa [List.length_map])]
  rfl

theorem hostWords_append {xs ys : List UInt8} (heven : xs.length % 2 = 0) :
    hostWords (xs ++ ys) = hostWords xs ++ hostWords ys := by
  rw [hostWords, List.map_append, littleEndian_append 256 _ _ (by rwa [List.length_map])]
  rfl

theorem hostWords_le16Bytes (word : UInt16) : hostWords (Mem.le16Bytes word) = [word.toNat] := by
  have hholds := Mem.holds_ofList (Mem.le16Bytes word) fun _ => 0
  rw [← Mem.advance_zero (Mem.ofList _ _)] at hholds
  have hword := Mem.le16_of_holds hholds
  rw [← hword]
  rfl

theorem networkWords_be16Bytes (word : UInt16) :
    networkWords (Mem.be16Bytes word) = [word.toNat] := by
  have hholds := Mem.holds_ofList (Mem.be16Bytes word) fun _ => 0
  rw [← Mem.advance_zero (Mem.ofList _ _)] at hholds
  have hword := Mem.be16_of_holds_be16Bytes hholds
  rw [← hword]
  rfl

/-- A word in the place of a zero is added to the sum. -/
theorem sum_hostWords_insert {before after : List UInt8} (heven : before.length % 2 = 0)
    (word : UInt16) :
    (hostWords (before ++ (Mem.le16Bytes word ++ after))).sum =
      (hostWords (before ++ (Mem.le16Bytes 0 ++ after))).sum + word.toNat := by
  have hone (word : UInt16) : (Mem.le16Bytes word).length % 2 = 0 := by
    rw [Mem.length_le16Bytes]
  rw [hostWords_append heven, hostWords_append heven, hostWords_append (hone _),
    hostWords_append (hone _), hostWords_le16Bytes, hostWords_le16Bytes]
  simp only [List.sum_append, List.sum_cons, List.sum_nil, UInt16.toNat_zero]
  omega

theorem sum_networkWords_insert {before after : List UInt8} (heven : before.length % 2 = 0)
    (word : UInt16) :
    (networkWords (before ++ (Mem.be16Bytes word ++ after))).sum =
      (networkWords (before ++ (Mem.be16Bytes 0 ++ after))).sum + word.toNat := by
  have hone (word : UInt16) : (Mem.be16Bytes word).length % 2 = 0 := by
    rw [Mem.length_be16Bytes]
  rw [networkWords_append heven, networkWords_append heven, networkWords_append (hone _),
    networkWords_append (hone _), networkWords_be16Bytes, networkWords_be16Bytes]
  simp only [List.sum_append, List.sum_cons, List.sum_nil, UInt16.toNat_zero]
  omega

end Bytes

end OnesComplement
