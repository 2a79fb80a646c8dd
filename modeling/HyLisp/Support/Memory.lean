import Mathlib.Data.List.Basic
import Mathlib.Data.Nat.Notation
import Mathlib.Logic.Function.Basic
import Mathlib.Tactic.Common

/-!
# Byte memories

A C function that receives a pointer may read anything behind it.  A memory is
therefore a total function from offsets to bytes: the bytes of a message fill
a finite part of it, and whatever lies beyond is left arbitrary.  Statements
about a message quantify over the memories that hold it.
-/

/-- The bytes behind a pointer, by offset. -/
abbrev Mem := ℕ → UInt8

namespace Mem

/-! ## Pointer arithmetic and fields -/

/-- The memory behind the pointer moved `k` bytes further. -/
def advance (m : Mem) (k : ℕ) : Mem :=
  fun i => m (k + i)

@[simp] theorem advance_apply (m : Mem) (k i : ℕ) :
    advance m k i = m (k + i) := rfl

@[simp] theorem advance_zero (m : Mem) : advance m 0 = m := by
  funext i
  simp

@[simp] theorem advance_advance (m : Mem) (j k : ℕ) :
    advance (advance m j) k = advance m (j + k) := by
  funext i
  simp [Nat.add_assoc]

/-- A 16-bit field in network byte order. -/
def be16 (m : Mem) (k : ℕ) : ℕ :=
  (m k).toNat * 256 + (m (k + 1)).toNat

theorem be16_advance (m : Mem) (j k : ℕ) :
    be16 (advance m j) k = be16 m (j + k) := rfl

theorem be16_lt (m : Mem) (k : ℕ) : be16 m k < 65536 := by
  have hhi := (m k).toNat_lt
  have hlo := (m (k + 1)).toNat_lt
  rw [be16]
  omega

/-- A 32-bit field in network byte order. -/
def be32 (m : Mem) (k : ℕ) : ℕ :=
  be16 m k * 65536 + be16 m (k + 2)

/-- A 16-bit field in little-endian host order. -/
def le16 (m : Mem) (k : ℕ) : ℕ :=
  (m k).toNat + (m (k + 1)).toNat * 256

/-- A 32-bit field in little-endian host order. -/
def le32 (m : Mem) (k : ℕ) : ℕ :=
  le16 m k + le16 m (k + 2) * 65536

/-- The `n` bytes from offset `k` on, as a fixed-width array. -/
def bytes (m : Mem) (k n : ℕ) : Vector UInt8 n :=
  Vector.ofFn fun i => m (k + i)

@[simp] theorem getElem_bytes (m : Mem) (k n : ℕ) {i : ℕ} (hi : i < n) :
    (bytes m k n)[i] = m (k + i) := by
  simp [bytes]

theorem eq_of_bytes_eq {m m' : Mem} {k n : ℕ} (h : bytes m k n = bytes m' k n)
    {i : ℕ} (hi : i < n) : m (k + i) = m' (k + i) := by
  rw [← getElem_bytes m k n hi, h, getElem_bytes]

/-- `memcmp(a, b, n) == 0`. -/
def sameBytes (a b : Mem) (n : ℕ) : Bool :=
  (List.range n).all fun i => a i == b i

theorem sameBytes_iff {a b : Mem} {n : ℕ} :
    sameBytes a b n = true ↔ ∀ i < n, a i = b i := by
  simp [sameBytes]

/-- A fixed-width array seen from its address.  Bytes past its end are not the
array's; they read as zero here, and no result depends on them. -/
def ofVector {n : ℕ} (v : Vector UInt8 n) : Mem :=
  fun i => v.toList.getD i 0

@[simp] theorem ofVector_apply {n : ℕ} (v : Vector UInt8 n) {i : ℕ} (hi : i < n) :
    ofVector v i = v[i] := by
  simp [ofVector, hi]

theorem ofVector_bytes (m : Mem) (k : ℕ) {n i : ℕ} (hi : i < n) :
    ofVector (bytes m k n) i = m (k + i) := by
  simp [hi]

theorem ofVector_injective {n : ℕ} {v w : Vector UInt8 n}
    (h : ∀ i < n, ofVector v i = ofVector w i) : v = w := by
  ext i hi
  simpa [hi] using congrArg UInt8.toNat (h i hi)

/-! ## Memories that agree on a message -/

/-- The two memories agree on the first `n` bytes. -/
def Agree (n : ℕ) (m m' : Mem) : Prop :=
  ∀ i < n, m i = m' i

theorem Agree.refl (n : ℕ) (m : Mem) : Agree n m m :=
  fun _ _ => rfl

theorem Agree.advance {n : ℕ} {m m' : Mem} (h : Agree n m m') (k : ℕ) :
    Agree (n - k) (advance m k) (advance m' k) := by
  intro i hi
  exact h (k + i) (by omega)

theorem Agree.be16 {n k : ℕ} {m m' : Mem} (h : Agree n m m') (hk : k + 2 ≤ n) :
    Mem.be16 m k = Mem.be16 m' k := by
  rw [Mem.be16, Mem.be16, h k (by omega), h (k + 1) (by omega)]

theorem Agree.bytes {n k w : ℕ} {m m' : Mem} (h : Agree n m m') (hk : k + w ≤ n) :
    Mem.bytes m k w = Mem.bytes m' k w := by
  ext i hi
  simp [h (k + i) (by omega)]

/-- A memory with one byte replaced. -/
theorem Agree.update {n k : ℕ} (m : Mem) (hk : n ≤ k) (b : UInt8) :
    Agree n m (Function.update m k b) := by
  intro i hi
  rw [Function.update_of_ne (by omega)]

/-- The first `k` bytes of one memory, followed by another one. -/
def splice (m : Mem) (k : ℕ) (m' : Mem) : Mem :=
  fun i => if i < k then m i else m' (i - k)

theorem splice_apply_of_lt (m m' : Mem) {k i : ℕ} (hi : i < k) :
    splice m k m' i = m i := by
  rw [splice, if_pos hi]

@[simp] theorem advance_splice (m : Mem) (k : ℕ) (m' : Mem) :
    advance (splice m k m') k = m' := by
  funext i
  rw [advance_apply, splice, if_neg (by omega), Nat.add_sub_cancel_left]

theorem Agree.splice {n k : ℕ} {m m' : Mem}
    (h : Agree (n - k) (Mem.advance m k) m') :
    Agree n m (Mem.splice m k m') := by
  intro i hi
  by_cases hik : i < k
  · rw [splice_apply_of_lt m m' hik]
  · have hbyte := h (i - k) (by omega)
    rw [advance_apply, Nat.add_sub_cancel' (Nat.le_of_not_lt hik)] at hbyte
    rw [Mem.splice, if_neg hik, hbyte]

/-! ## Blocks of a memory -/

/-- `memset(m + k, 0, n)` -/
def zero (m : Mem) (k n : ℕ) : Mem :=
  fun i => if k ≤ i ∧ i < k + n then 0 else m i

theorem Agree.zero {n : ℕ} {m m' : Mem} (h : Agree n m m') (k w : ℕ) :
    Agree n (Mem.zero m k w) (Mem.zero m' k w) := by
  intro i hi
  rw [Mem.zero, Mem.zero, h i hi]

/-- The first `n` bytes. -/
def toList (m : Mem) (n : ℕ) : List UInt8 :=
  (List.range n).map m

@[simp] theorem length_toList (m : Mem) (n : ℕ) : (toList m n).length = n := by
  rw [toList, List.length_map, List.length_range]

theorem toList_add (m : Mem) (j k : ℕ) :
    toList m (j + k) = toList m j ++ toList (advance m j) k := by
  rw [toList, List.range_add, List.map_append, List.map_map]
  rfl

theorem Agree.toList {n : ℕ} {m m' : Mem} (h : Agree n m m') :
    Mem.toList m n = Mem.toList m' n :=
  List.map_congr_left fun i hi => h i (List.mem_range.mp hi)

/-! ## Memories that hold a message -/

/-- The memory starts with the given bytes. -/
def Holds (m : Mem) (data : List UInt8) : Prop :=
  ∀ i (hi : i < data.length), m i = data[i]

/-- The given bytes, followed by an arbitrary rest. -/
def ofList (data : List UInt8) (rest : Mem) : Mem :=
  fun i => if h : i < data.length then data[i] else rest (i - data.length)

theorem holds_ofList (data : List UInt8) (rest : Mem) :
    Holds (ofList data rest) data := by
  intro i hi
  simp [ofList, hi]

@[simp] theorem advance_ofList (data : List UInt8) (rest : Mem) :
    advance (ofList data rest) data.length = rest := by
  funext i
  rw [advance_apply, ofList, dif_neg (by omega), Nat.add_sub_cancel_left]

@[simp] theorem holds_nil (m : Mem) : Holds m [] := by
  intro i hi
  simp at hi

theorem holds_append {m : Mem} {xs ys : List UInt8} :
    Holds m (xs ++ ys) ↔ Holds m xs ∧ Holds (advance m xs.length) ys := by
  constructor
  · intro h
    refine ⟨fun i hi => ?_, fun i hi => ?_⟩
    · rw [h i (by simp; omega), List.getElem_append_left hi]
    · have := h (xs.length + i) (by simp; omega)
      rw [List.getElem_append_right (by omega)] at this
      simpa using this
  · rintro ⟨hx, hy⟩ i hi
    by_cases hix : i < xs.length
    · rw [List.getElem_append_left hix]
      exact hx i hix
    · rw [List.getElem_append_right (by omega)]
      have := hy (i - xs.length) (by simp at hi; omega)
      simpa [Nat.add_sub_cancel' (Nat.le_of_not_lt hix)] using this

/-- To hold the first bytes of a memory is to agree with it on them. -/
theorem holds_toList {m data : Mem} {n : ℕ} :
    Holds m (toList data n) ↔ Agree n m data := by
  constructor
  · intro h i hi
    simpa [toList] using h i (by simpa using hi)
  · intro h i hi
    simpa [toList] using h i (by simpa using hi)

theorem bytes_of_holds {m : Mem} {k n : ℕ} {v : Vector UInt8 n}
    (h : Holds (advance m k) v.toList) : bytes m k n = v := by
  ext i hi
  have hbyte := h i (by simpa using hi)
  rw [advance_apply] at hbyte
  rw [getElem_bytes, hbyte, Vector.getElem_toList]

theorem Holds.take {m : Mem} {data : List UInt8} (h : Holds m data) (n : ℕ) :
    Holds m (data.take n) := by
  intro i hi
  rw [List.getElem_take]
  exact h i (Nat.lt_of_lt_of_le hi (List.length_take_le' _ _))

theorem toList_of_holds {m : Mem} {data : List UInt8} (h : m.Holds data) :
    m.toList data.length = data := by
  apply List.ext_getElem (length_toList m _)
  intro i hi hi'
  simpa [toList] using h i hi'

/-- Zeroing a part of a message. -/
theorem Holds.zero {m : Mem} {xs ys zs : List UInt8} (h : m.Holds (xs ++ (ys ++ zs))) :
    (m.zero xs.length ys.length).Holds (xs ++ (List.replicate ys.length 0 ++ zs)) := by
  rw [holds_append, holds_append] at h ⊢
  obtain ⟨hx, -, hz⟩ := h
  refine ⟨fun i hi => ?_, fun i hi => ?_, fun i hi => ?_⟩
  · rw [Mem.zero, if_neg (by omega)]
    exact hx i hi
  · rw [List.length_replicate] at hi
    rw [advance_apply, Mem.zero, if_pos (by omega), List.getElem_replicate]
  · rw [List.length_replicate, advance_apply, advance_apply, Mem.zero, if_neg (by omega)]
    exact hz i hi

/-! ## Host-order fields of a message -/

/-- The bytes of a 16-bit field in little-endian host order. -/
def le16Bytes (x : UInt16) : List UInt8 :=
  [x.toUInt8, (x >>> 8).toUInt8]

/-- The bytes of a 32-bit field in little-endian host order. -/
def le32Bytes (x : UInt32) : List UInt8 :=
  [x.toUInt8, (x >>> 8).toUInt8, (x >>> 16).toUInt8, (x >>> 24).toUInt8]

@[simp] theorem length_le16Bytes (x : UInt16) : (le16Bytes x).length = 2 := rfl

@[simp] theorem length_le32Bytes (x : UInt32) : (le32Bytes x).length = 4 := rfl

theorem le16_of_holds {m : Mem} {k : ℕ} {x : UInt16}
    (h : Holds (advance m k) (le16Bytes x)) : le16 m k = x.toNat := by
  have h0 := h 0 (by simp)
  have h1 := h 1 (by simp)
  simp only [advance_apply, Nat.add_zero] at h0 h1
  rw [le16, h0, h1]
  simp only [le16Bytes, List.getElem_cons_zero, List.getElem_cons_succ,
    UInt16.toNat_toUInt8, UInt16.toNat_shiftRight, Nat.shiftRight_eq_div_pow]
  have hx := x.toNat_lt
  simp only [UInt16.reduceToNat, Nat.reduceMod, Nat.reducePow] at hx ⊢
  omega

theorem le32_of_holds {m : Mem} {k : ℕ} {x : UInt32}
    (h : Holds (advance m k) (le32Bytes x)) : le32 m k = x.toNat := by
  have h0 := h 0 (by simp)
  have h1 := h 1 (by simp)
  have h2 := h 2 (by simp)
  have h3 := h 3 (by simp)
  simp only [advance_apply, Nat.add_zero] at h0 h1 h2 h3
  rw [le32, le16, le16, h0, h1, h2, h3]
  simp only [le32Bytes, List.getElem_cons_zero, List.getElem_cons_succ,
    UInt32.toNat_toUInt8, UInt32.toNat_shiftRight, Nat.shiftRight_eq_div_pow]
  have hx := x.toNat_lt
  simp only [UInt32.reduceToNat, Nat.reduceMod, Nat.reducePow] at hx ⊢
  omega

/-! ## Network-order fields of a message -/

/-- The bytes of a 16-bit field in network byte order. -/
def be16Bytes (x : UInt16) : List UInt8 :=
  [(x >>> 8).toUInt8, x.toUInt8]

/-- The bytes of a 32-bit field in network byte order. -/
def be32Bytes (x : UInt32) : List UInt8 :=
  [(x >>> 24).toUInt8, (x >>> 16).toUInt8, (x >>> 8).toUInt8, x.toUInt8]

@[simp] theorem length_be16Bytes (x : UInt16) : (be16Bytes x).length = 2 := rfl

@[simp] theorem length_be32Bytes (x : UInt32) : (be32Bytes x).length = 4 := rfl

/-- `htons` on a little-endian host: the two bytes are exchanged. -/
def htons (x : UInt16) : UInt16 :=
  x <<< 8 + x >>> 8

theorem toNat_htons (x : UInt16) :
    (htons x).toNat = x.toNat % 256 * 256 + x.toNat / 256 := by
  have hx := x.toNat_lt
  have hhigh : x.toNat * 256 % 65536 = x.toNat % 256 * 256 := Nat.mul_mod_mul_right 256 _ 256
  rw [htons, UInt16.toNat_add, UInt16.toNat_shiftLeft, UInt16.toNat_shiftRight,
    Nat.shiftLeft_eq, Nat.shiftRight_eq_div_pow]
  simp only [UInt16.reduceToNat, Nat.reduceMod, Nat.reducePow] at hx hhigh ⊢
  omega

/-- In memory the host then has the network order. -/
theorem le16Bytes_htons (x : UInt16) : le16Bytes (htons x) = be16Bytes x := by
  have hx := x.toNat_lt
  have hlow : (htons x).toUInt8 = (x >>> 8).toUInt8 := by
    rw [← UInt8.toNat_inj, UInt16.toNat_toUInt8, UInt16.toNat_toUInt8, toNat_htons,
      UInt16.toNat_shiftRight, Nat.shiftRight_eq_div_pow]
    simp only [UInt16.reduceToNat, Nat.reduceMod, Nat.reducePow] at hx ⊢
    omega
  have hhigh : (htons x >>> 8).toUInt8 = x.toUInt8 := by
    rw [← UInt8.toNat_inj, UInt16.toNat_toUInt8, UInt16.toNat_toUInt8,
      UInt16.toNat_shiftRight, toNat_htons, Nat.shiftRight_eq_div_pow]
    simp only [UInt16.reduceToNat, Nat.reduceMod, Nat.reducePow] at hx ⊢
    rw [Nat.mul_comm, Nat.mul_add_div (by decide), Nat.div_div_eq_div_mul,
      Nat.div_eq_of_lt hx, Nat.add_zero, Nat.mod_mod]
  rw [le16Bytes, be16Bytes, hlow, hhigh]

theorem be16_of_holds_be16Bytes {m : Mem} {k : ℕ} {x : UInt16}
    (h : Holds (advance m k) (be16Bytes x)) : be16 m k = x.toNat := by
  have h0 := h 0 (by simp)
  have h1 := h 1 (by simp)
  simp only [advance_apply, Nat.add_zero] at h0 h1
  rw [be16, h0, h1]
  simp only [be16Bytes, List.getElem_cons_zero, List.getElem_cons_succ,
    UInt16.toNat_toUInt8, UInt16.toNat_shiftRight, Nat.shiftRight_eq_div_pow]
  have hx := x.toNat_lt
  simp only [UInt16.reduceToNat, Nat.reduceMod, Nat.reducePow] at hx ⊢
  omega

theorem be32_of_holds_be32Bytes {m : Mem} {k : ℕ} {x : UInt32}
    (h : Holds (advance m k) (be32Bytes x)) : be32 m k = x.toNat := by
  have h0 := h 0 (by simp)
  have h1 := h 1 (by simp)
  have h2 := h 2 (by simp)
  have h3 := h 3 (by simp)
  simp only [advance_apply, Nat.add_zero] at h0 h1 h2 h3
  rw [be32, be16, be16, h0, h1, h2, h3]
  simp only [be32Bytes, List.getElem_cons_zero, List.getElem_cons_succ,
    UInt32.toNat_toUInt8, UInt32.toNat_shiftRight, Nat.shiftRight_eq_div_pow]
  have hx := x.toNat_lt
  simp only [UInt32.reduceToNat, Nat.reduceMod, Nat.reducePow] at hx ⊢
  omega

end Mem
