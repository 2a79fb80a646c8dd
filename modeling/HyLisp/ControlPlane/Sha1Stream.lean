import HyLisp.ControlPlane.Sha1

/-!
# SHA-1 of a stream

`SHA1_Update` takes a message piece by piece, `SHA1_Final` pads it.  The digest is that of
the standard, however the message was cut.  Where a piece holds whole blocks besides those
that go through the buffer of the context, `SHA1_Transform` works in the caller's memory,
and leaves the end of the message schedule there.
-/

namespace HyLisp.ControlPlane

open BlockHash

namespace Sha1Standard

/-- The initial hash value. -/
def initial : ShaWords :=
  ⟨0x67452301, 0xefcdab89, 0x98badcfe, 0x10325476, 0xc3d2e1f0⟩

/-- A number of 64 bits, the most significant byte first. -/
def be64Bytes (n : ℕ) : List UInt8 :=
  (List.range 8).map fun i => UInt8.ofNat (n / 256 ^ (7 - i))

/-- The message, a bit, zeros up to the end of a block, and the length in bits. -/
def pad (message : List UInt8) : List UInt8 :=
  message ++ [0x80] ++ List.replicate ((119 - message.length % 64) % 64) 0 ++
    be64Bytes (8 * message.length)

/-- The bytes of a hash value. -/
def digest (h : ShaWords) : Vector UInt8 20 :=
  .ofFn fun i => ([h.a, h.b, h.c, h.d, h.e].getD (i / 4) 0 >>>
    UInt32.ofNat ((3 - i % 4) * 8)).toUInt8

/-- The digest of a message. -/
def sha1 (message : List UInt8) : Vector UInt8 20 :=
  digest (absorb compress 64 initial (pad message)).1

end Sha1Standard

/-! ## The source -/

/-- `SHA_CTX` -/
structure ShaCtx where
  state : ShaWords
  count0 : UInt32
  count1 : UInt32
  buffer : Mem

/-- `memcpy(m + k, data, n)` -/
def memcpy (m : Mem) (k : ℕ) (data : Mem) (n : ℕ) : Mem := fun i =>
  if k ≤ i ∧ i < k + n then data (i - k) else m i

/-- `SHA1_Init` -/
def sha1Init (context : ShaCtx) : ShaCtx :=
  { context with
    state := ⟨0x67452301, 0xEFCDAB89, 0x98BADCFE, 0x10325476, 0xC3D2E1F0⟩
    count0 := 0
    count1 := 0 }

/-- The loop of `SHA1_Update` over the blocks in `data`, for a number of iterations. -/
def updateBlocks (len : UInt32) :
    ℕ → UInt32 → ShaWords → Mem → Option (UInt32 × ShaWords × Mem)
  | 0, _, _, _ => none
  | n + 1, i, state, data =>
      if i + 63 < len then
        let result := sha1Transform state (data.advance i.toNat)
        updateBlocks len n (i + 64) result.1 (data.splice i.toNat result.2)
      else some (i, state, data)

/-- `SHA1_Update`: the new context, and `data` as it is left.  There is no result when the
loop does not end, as `i + 63` may wrap around. -/
def sha1Update (context : ShaCtx) (data : Mem) (len : UInt32) : Option (ShaCtx × Mem) :=
  let j := (context.count0 >>> 3) &&& 63
  let count0 := context.count0 + len <<< 3
  let count1 := if count0 < len <<< 3 then context.count1 + 1 else context.count1
  let count1 := count1 + len >>> 29
  if j + len > 63 then
    let i := 64 - j
    let result := sha1Transform context.state (memcpy context.buffer j.toNat data i.toNat)
    (updateBlocks len (2 ^ 26 + 1) i result.1 data).map fun (i, state, data) =>
      (⟨state, count0, count1,
        memcpy result.2 0 (data.advance i.toNat) (len - i).toNat⟩, data)
  else
    some (⟨context.state, count0, count1, memcpy context.buffer j.toNat data len.toNat⟩, data)

/-- `finalcount` -/
def finalCount (context : ShaCtx) : Mem := fun i =>
  ((if i ≥ 4 then context.count0 else context.count1) >>>
    UInt32.ofNat ((3 - i % 4) * 8)).toUInt8

/-- The loop of `SHA1_Final`, for a number of iterations. -/
def padZeros : ℕ → ShaCtx → Option ShaCtx
  | 0, _ => none
  | n + 1, context =>
      if context.count0 &&& 504 ≠ 448 then
        (sha1Update context (fun _ => 0) 1).bind fun result => padZeros n result.1
      else some context

/-- `SHA1_Final`: the digest, and the context with its members wiped. -/
def sha1Final (context : ShaCtx) : Option (Vector UInt8 20 × ShaCtx) := do
  let finalcount := finalCount context
  let (context, _) ← sha1Update context (fun _ => 0x80) 1
  let context ← padZeros 64 context
  let (context, _) ← sha1Update context finalcount 8
  let state := context.state
  let digest := Vector.ofFn fun i : Fin 20 =>
    ([state.a, state.b, state.c, state.d, state.e].getD (i / 4) 0 >>>
      UInt32.ofNat ((3 - i % 4) * 8)).toUInt8
  return (digest, ⟨⟨0, 0, 0, 0, 0⟩, 0, 0, context.buffer.zero 0 64⟩)

/-! ## Bytes -/

/-- Bytes put behind others follow them. -/
theorem toList_memcpy (m : Mem) (k : ℕ) (data : Mem) (n : ℕ) :
    (memcpy m k data n).toList (k + n) = m.toList k ++ data.toList n := by
  rw [Mem.toList_add]
  congr 1
  · apply List.map_congr_left
    intro i hi
    rw [List.mem_range] at hi
    exact if_neg (by omega)
  · apply List.map_congr_left
    intro i hi
    rw [List.mem_range] at hi
    rw [Mem.advance_apply, memcpy, if_pos (by omega), Nat.add_sub_cancel_left]

theorem storeWords_of_le (buffer : Mem) (l : Fin 16 → UInt32) {k : ℕ} (hk : 64 ≤ k) :
    storeWords buffer l k = buffer k :=
  if_neg (Nat.not_lt.mpr hk)

/-! ## The loop over the blocks -/

open Sha1Standard

/-- What `SHA1_Transform` leaves where it found a block. -/
def blockTail (block : List UInt8) : Mem :=
  storeWords (fun _ => 0) fun i => schedule (blockWord block) (64 + i)

/-- The caller's bytes after the blocks from offset `i` up to offset `e` were hashed in
place. -/
def hashedInPlace (data : Mem) (i e : ℕ) : Mem := fun k =>
  if i ≤ k ∧ k < e then
    blockTail ((data.advance (i + 64 * ((k - i) / 64))).toList 64) ((k - i) % 64)
  else data k

theorem hashedInPlace_self (data : Mem) (i : ℕ) : hashedInPlace data i i = data := by
  funext k
  exact if_neg (by omega)

theorem storeWords_of_lt (buffer buffer' : Mem) (l : Fin 16 → UInt32) {k : ℕ} (hk : k < 64) :
    storeWords buffer l k = storeWords buffer' l k := by
  rw [storeWords, storeWords, if_pos hk, if_pos hk]

theorem sha1Transform_fst (state : ShaWords) (buffer : Mem) :
    (sha1Transform state buffer).1 = compress state (buffer.toList 64) := by
  rw [sha1Transform_eq]

theorem sha1Transform_snd (state : ShaWords) (buffer : Mem) :
    (sha1Transform state buffer).2 =
      storeWords buffer fun i => schedule (blockWord (buffer.toList 64)) (64 + i) := by
  rw [sha1Transform_eq]

/-- What lies behind a block is left alone. -/
theorem splice_transform_of_le (state : ShaWords) (data : Mem) (i : ℕ) {k : ℕ}
    (hk : i + 64 ≤ k) :
    data.splice i (sha1Transform state (data.advance i)).2 k = data k := by
  rw [sha1Transform_snd, Mem.splice, if_neg (by omega), storeWords_of_le _ _ (by omega),
    Mem.advance_apply]
  congr 1
  omega

theorem advance_splice_transform (state : ShaWords) (data : Mem) {i j : ℕ} (h : i + 64 ≤ j) :
    (data.splice i (sha1Transform state (data.advance i)).2).advance j = data.advance j := by
  funext k
  exact splice_transform_of_le state data i (by omega)

/-- The first of the blocks is hashed, and then the others. -/
theorem hashedInPlace_step (state : ShaWords) (data : Mem) {i e : ℕ} (h : i + 64 ≤ e) :
    hashedInPlace (data.splice i (sha1Transform state (data.advance i)).2) (i + 64) e =
      hashedInPlace data i e := by
  funext k
  unfold hashedInPlace
  by_cases hlow : k < i
  · rw [if_neg (by omega), if_neg (by omega), Mem.splice_apply_of_lt _ _ hlow]
  · by_cases hfirst : k < i + 64
    · have hdiv : (k - i) / 64 = 0 := by omega
      have hmod : (k - i) % 64 = k - i := by omega
      rw [if_neg (by omega), if_pos (by omega), hdiv, hmod, sha1Transform_snd, Mem.splice,
        if_neg hlow]
      exact storeWords_of_lt _ _ _ (by omega)
    · by_cases hlater : k < e
      · have hdiv : i + 64 + 64 * ((k - (i + 64)) / 64) = i + 64 * ((k - i) / 64) := by omega
        have hmod : (k - (i + 64)) % 64 = (k - i) % 64 := by omega
        rw [if_pos (by omega), if_pos (by omega), hdiv, hmod,
          advance_splice_transform state data (by omega)]
      · rw [if_neg (by omega), if_neg (by omega)]
        exact splice_transform_of_le state data i (by omega)

/-- The blocks of `data` from `i` on are absorbed, and hashed in place. -/
theorem updateBlocks_eq {len : UInt32} (hlen : len.toNat + 63 < 2 ^ 32) (n : ℕ) (i : UInt32)
    (state : ShaWords) (data : Mem) (hi : i.toNat ≤ len.toNat)
    (hn : (len.toNat - i.toNat) / 64 < n) :
    ∃ e : UInt32, e.toNat = i.toNat + 64 * ((len.toNat - i.toNat) / 64) ∧
      (absorb compress 64 state
        ((data.advance i.toNat).toList (len.toNat - i.toNat))).2 =
          (data.advance e.toNat).toList (len.toNat - e.toNat) ∧
      updateBlocks len n i state data =
        some (e, (absorb compress 64 state
          ((data.advance i.toNat).toList (len.toNat - i.toNat))).1,
          hashedInPlace data i.toNat e.toNat) := by
  induction n generalizing i state data with
  | zero => exact absurd hn (Nat.not_lt_zero _)
  | succ n ih =>
      have hadd : (i + 63).toNat = i.toNat + 63 := by
        rw [UInt32.toNat_add]
        exact Nat.mod_eq_of_lt (by change i.toNat + 63 < _; omega)
      have hiff : i + 63 < len ↔ i.toNat + 63 < len.toNat := by
        rw [UInt32.lt_iff_toNat_lt, hadd]
      by_cases hmore : i.toNat + 63 < len.toNat
      · have hnext : (i + 64).toNat = i.toNat + 64 := by
          rw [UInt32.toNat_add]
          exact Nat.mod_eq_of_lt (by change i.toNat + 64 < _; omega)
        have hsplit : (data.advance i.toNat).toList (len.toNat - i.toNat) =
            (data.advance i.toNat).toList 64 ++
              (data.advance (i.toNat + 64)).toList (len.toNat - (i.toNat + 64)) := by
          rw [show len.toNat - i.toNat = 64 + (len.toNat - (i.toNat + 64)) by omega,
            Mem.toList_add, Mem.advance_advance]
        have hcount : (len.toNat - (i.toNat + 64)) / 64 + 1 = (len.toNat - i.toNat) / 64 := by
          omega
        obtain ⟨e, he, hrest, hloop⟩ := ih (i + 64)
          (sha1Transform state (data.advance i.toNat)).1
          (data.splice i.toNat (sha1Transform state (data.advance i.toNat)).2)
          (by rw [hnext]; omega) (by rw [hnext]; omega)
        rw [hnext, advance_splice_transform state data (Nat.le_refl _)] at hrest hloop
        rw [hnext] at he
        rw [hsplit, absorb_block_append (Mem.length_toList _ _), ← sha1Transform_fst]
        have hle : i.toNat + 64 ≤ e.toNat := by omega
        rw [advance_splice_transform state data hle] at hrest
        refine ⟨e, by omega, hrest, ?_⟩
        rw [← hashedInPlace_step state data hle, ← hloop]
        exact if_pos (hiff.mpr hmore)
      · have hend : (len.toNat - i.toNat) / 64 = 0 := by omega
        have hshort : ((data.advance i.toNat).toList (len.toNat - i.toNat)).length < 64 := by
          rw [Mem.length_toList]
          omega
        refine ⟨i, by omega, ?_, ?_⟩
        · rw [absorb_short hshort]
        · rw [absorb_short hshort, hashedInPlace_self]
          exact if_neg (mt hiff.mp hmore)

/-! ## Contexts -/

/-- The context has taken in the bytes `xs`: it keeps the hash value behind their blocks,
the bytes after those, and the number of bits. -/
structure Represents (context : ShaCtx) (xs : List UInt8) : Prop where
  state : context.state = (absorb compress 64 initial xs).1
  rest : context.buffer.toList (xs.length % 64) = (absorb compress 64 initial xs).2
  count : context.count0.toNat + 2 ^ 32 * context.count1.toNat = 8 * xs.length % 2 ^ 64

theorem represents_init (context : ShaCtx) : Represents (sha1Init context) [] where
  state := by
    rw [absorb_nil]
    rfl
  rest := by
    rw [absorb_nil]
    rfl
  count := rfl

/-- The fill of the buffer. -/
theorem Represents.fill {context : ShaCtx} {xs : List UInt8} (h : Represents context xs) :
    ((context.count0 >>> 3) &&& 63).toNat = xs.length % 64 := by
  have hcount := h.count
  have hlt := context.count0.toNat_lt
  have hmask : ((context.count0 >>> 3) &&& 63).toNat = context.count0.toNat / 8 % 64 := by
    rw [UInt32.toNat_and, UInt32.toNat_shiftRight]
    change context.count0.toNat >>> 3 &&& 2 ^ 6 - 1 = _
    rw [Nat.and_two_pow_sub_one_eq_mod, Nat.shiftRight_eq_div_pow]
  rw [hmask]
  omega

/-- The number of bits goes up by those of the new bytes. -/
theorem count_add {c0 c1 len : UInt32} {n : ℕ}
    (h : c0.toNat + 2 ^ 32 * c1.toNat = 8 * n % 2 ^ 64) :
    (c0 + len <<< 3).toNat + 2 ^ 32 *
        ((if c0 + len <<< 3 < len <<< 3 then c1 + 1 else c1) + len >>> 29).toNat =
      8 * (n + len.toNat) % 2 ^ 64 := by
  have h0 := c0.toNat_lt
  have h1 := c1.toNat_lt
  have hlen := len.toNat_lt
  have hshift : (len <<< 3).toNat = 8 * len.toNat % 2 ^ 32 := by
    rw [UInt32.toNat_shiftLeft, Nat.shiftLeft_eq, Nat.mul_comm]
    rfl
  have hhigh : (len >>> 29).toNat = len.toNat / 2 ^ 29 := by
    rw [UInt32.toNat_shiftRight, Nat.shiftRight_eq_div_pow]
    rfl
  have hlow : (c0 + len <<< 3).toNat = (c0.toNat + 8 * len.toNat % 2 ^ 32) % 2 ^ 32 := by
    rw [UInt32.toNat_add, hshift]
  by_cases hcarry : c0 + len <<< 3 < len <<< 3
  · rw [if_pos hcarry, hlow, UInt32.toNat_add, UInt32.toNat_add, hhigh]
    rw [UInt32.lt_iff_toNat_lt, hlow, hshift] at hcarry
    change _ + 2 ^ 32 * (((c1.toNat + 1) % 2 ^ 32 + _) % 2 ^ 32) = _
    omega
  · rw [if_neg hcarry, hlow, UInt32.toNat_add, hhigh]
    rw [UInt32.lt_iff_toNat_lt, hlow, hshift] at hcarry
    omega

/-- Where the blocks that are hashed in place end. -/
def inPlaceEnd (fill len : ℕ) : ℕ :=
  if fill + len < 64 then 64 - fill else 64 - fill + 64 * ((len - (64 - fill)) / 64)

theorem hashedInPlace_advance (data : Mem) (i e : ℕ) :
    (hashedInPlace data i e).advance e = data.advance e := by
  funext k
  exact if_neg (by omega)

section Update

variable {context : ShaCtx} {xs : List UInt8} {data : Mem} {len : UInt32}

/-- The bytes fit into the buffer. -/
theorem sha1Update_short (h : Represents context xs) (hfit : xs.length % 64 + len.toNat < 64) :
    ∃ context', Represents context' (xs ++ data.toList len.toNat) ∧
      sha1Update context data len = some (context', data) := by
  have hrestlen : (absorb compress 64 initial xs).2.length = xs.length % 64 :=
    length_absorb _ _
  have hsum : (((context.count0 >>> 3) &&& 63) + len).toNat = xs.length % 64 + len.toNat := by
    rw [UInt32.toNat_add, h.fill]
    exact Nat.mod_eq_of_lt (by omega)
  have hnot : ¬((context.count0 >>> 3) &&& 63) + len > 63 := by
    rw [gt_iff_lt, UInt32.lt_iff_toNat_lt, hsum]
    exact Nat.not_lt.mpr (Nat.le_of_lt_succ hfit)
  refine ⟨_, ?_, if_neg hnot⟩
  have hshort : ((absorb compress 64 initial xs).2 ++ data.toList len.toNat).length < 64 := by
    rw [List.length_append, hrestlen, Mem.length_toList]
    exact hfit
  have hmod : (xs ++ data.toList len.toNat).length % 64 = xs.length % 64 + len.toNat := by
    rw [List.length_append, Mem.length_toList]
    omega
  refine ⟨?_, ?_, ?_⟩
  · rw [absorb_append, absorb_short hshort]
    exact h.state
  · rw [absorb_append, absorb_short hshort, hmod, h.fill, toList_memcpy, h.rest]
  · rw [List.length_append, Mem.length_toList]
    exact count_add h.count

/-- The bytes fill the buffer. -/
theorem sha1Update_full (h : Represents context xs) (hlen : len.toNat + 63 < 2 ^ 32)
    (hfull : 64 ≤ xs.length % 64 + len.toNat) :
    ∃ context', Represents context' (xs ++ data.toList len.toNat) ∧
      sha1Update context data len =
        some (context', hashedInPlace data (64 - xs.length % 64)
          (inPlaceEnd (xs.length % 64) len.toNat)) := by
  have hfill := h.fill
  have hlt : xs.length % 64 < 64 := Nat.mod_lt _ (by decide)
  have hsum : (((context.count0 >>> 3) &&& 63) + len).toNat = xs.length % 64 + len.toNat := by
    rw [UInt32.toNat_add, hfill]
    exact Nat.mod_eq_of_lt (by omega)
  have hmore : ((context.count0 >>> 3) &&& 63) + len > 63 := by
    rw [gt_iff_lt, UInt32.lt_iff_toNat_lt, hsum]
    exact hfull
  have hi : ((64 : UInt32) - ((context.count0 >>> 3) &&& 63)).toNat = 64 - xs.length % 64 := by
    rw [UInt32.toNat_sub_of_le _ _ (by rw [UInt32.le_iff_toNat_le, hfill]; exact hlt.le), hfill]
    rfl
  -- the buffer is filled up and hashed, then the blocks of `data` are
  have hbuffer : (memcpy context.buffer (xs.length % 64) data (64 - xs.length % 64)).toList 64 =
      (absorb compress 64 initial xs).2 ++ data.toList (64 - xs.length % 64) := by
    have hcopy := toList_memcpy context.buffer (xs.length % 64) data (64 - xs.length % 64)
    rw [Nat.add_sub_cancel' hlt.le, h.rest] at hcopy
    exact hcopy
  have hsplit : (absorb compress 64 initial xs).2 ++ data.toList len.toNat =
      (memcpy context.buffer (xs.length % 64) data (64 - xs.length % 64)).toList 64 ++
        (data.advance (64 - xs.length % 64)).toList (len.toNat - (64 - xs.length % 64)) := by
    rw [hbuffer, List.append_assoc, ← Mem.toList_add]
    congr 3
    omega
  obtain ⟨e, he, hrest, hloop⟩ := updateBlocks_eq hlen (2 ^ 26 + 1)
    ((64 : UInt32) - ((context.count0 >>> 3) &&& 63))
    (sha1Transform context.state
      (memcpy context.buffer (xs.length % 64) data (64 - xs.length % 64))).1 data
    (by rw [hi]; omega) (by omega)
  rw [hi] at he hrest hloop
  have habsorb : absorb compress 64 initial (xs ++ data.toList len.toNat) =
      absorb compress 64 (sha1Transform context.state
        (memcpy context.buffer (xs.length % 64) data (64 - xs.length % 64))).1
        ((data.advance (64 - xs.length % 64)).toList (len.toNat - (64 - xs.length % 64))) := by
    rw [absorb_append, hsplit, absorb_block_append (Mem.length_toList _ _), sha1Transform_fst,
      h.state]
  have hend : inPlaceEnd (xs.length % 64) len.toNat = e.toNat := by
    rw [inPlaceEnd, if_neg (by omega), he]
  have hleft : ((len - e : UInt32)).toNat = len.toNat - e.toNat :=
    UInt32.toNat_sub_of_le _ _ (by rw [UInt32.le_iff_toNat_le]; omega)
  rw [hend]
  refine ⟨?after, ?represents, ?update⟩
  case update =>
    unfold sha1Update
    rw [if_pos hmore]
    dsimp only
    rw [hi, hfill, hloop]
    rfl
  case represents =>
    have hlength : (xs ++ data.toList len.toNat).length % 64 = len.toNat - e.toNat := by
      rw [List.length_append, Mem.length_toList]
      omega
    refine ⟨?_, ?_, ?_⟩
    · rw [habsorb]
    · rw [habsorb, hlength, hrest]
      have hcopy := toList_memcpy (sha1Transform context.state
        (memcpy context.buffer (xs.length % 64) data (64 - xs.length % 64))).2 0
        ((hashedInPlace data (64 - xs.length % 64) e.toNat).advance e.toNat)
        (len.toNat - e.toNat)
      rw [Nat.zero_add, hashedInPlace_advance] at hcopy
      rw [hleft, hashedInPlace_advance, hcopy]
      rfl
    · rw [List.length_append, Mem.length_toList]
      exact count_add h.count

end Update

/-- `SHA1_Update` takes in the bytes of `data`, and hashes those blocks in place that do not
go through the buffer. -/
theorem sha1Update_eq {context : ShaCtx} {xs : List UInt8} (h : Represents context xs)
    (data : Mem) (len : UInt32) (hlen : len.toNat + 63 < 2 ^ 32) :
    ∃ context', Represents context' (xs ++ data.toList len.toNat) ∧
      sha1Update context data len =
        some (context', hashedInPlace data (64 - xs.length % 64)
          (inPlaceEnd (xs.length % 64) len.toNat)) := by
  by_cases hfit : xs.length % 64 + len.toNat < 64
  · rw [inPlaceEnd, if_pos hfit, hashedInPlace_self]
    exact sha1Update_short h hfit
  · exact sha1Update_full h hlen (Nat.not_lt.mp hfit)

/-! ## Padding -/

/-- `count[0] & 504` is 448 when all but eight bytes of a block are there. -/
theorem Represents.and_eq_iff {context : ShaCtx} {xs : List UInt8}
    (h : Represents context xs) :
    (context.count0 &&& 504 : UInt32) = 448 ↔ xs.length % 64 = 56 := by
  have hmask : (context.count0 &&& 504 : UInt32) = ((context.count0 >>> 3) &&& 63) <<< 3 := by
    apply UInt32.toBitVec_inj.mp
    ext i hi
    interval_cases i <;> simp
  have hfill := h.fill
  have hlt : xs.length % 64 < 64 := Nat.mod_lt _ (by decide)
  have hshift : (((context.count0 >>> 3) &&& 63) <<< 3).toNat = 8 * (xs.length % 64) := by
    rw [UInt32.toNat_shiftLeft, hfill, Nat.shiftLeft_eq]
    exact (Nat.mod_eq_of_lt (by change _ * 8 < _; omega)).trans (Nat.mul_comm _ _)
  rw [hmask, ← UInt32.toNat_inj, hshift]
  change 8 * (xs.length % 64) = 448 ↔ _
  omega

/-- The zeros that `SHA1_Final` still has to put behind `n` bytes. -/
def zerosLeft (n : ℕ) : ℕ :=
  (120 - n % 64) % 64

theorem padZeros_eq {context : ShaCtx} {xs : List UInt8} (h : Represents context xs) {n : ℕ}
    (hn : zerosLeft xs.length < n) :
    ∃ context', padZeros n context = some context' ∧
      Represents context' (xs ++ List.replicate (zerosLeft xs.length) 0) := by
  induction n generalizing context xs with
  | zero => exact absurd hn (Nat.not_lt_zero _)
  | succ n ih =>
      by_cases hend : xs.length % 64 = 56
      · refine ⟨context, if_neg (not_not_intro (h.and_eq_iff.mpr hend)), ?_⟩
        rw [zerosLeft, hend, List.replicate_zero, List.append_nil]
        exact h
      · obtain ⟨next, hnext, hupdate⟩ := sha1Update_eq h (fun _ => 0) 1 (by decide)
        have hleft : zerosLeft xs.length = zerosLeft (xs ++ [0]).length + 1 := by
          rw [List.length_append, zerosLeft, zerosLeft, List.length_singleton]
          omega
        obtain ⟨last, hlast, hrep⟩ := ih hnext (by
          rw [hleft] at hn
          exact Nat.lt_of_succ_lt_succ hn)
        refine ⟨last, ?_, ?_⟩
        · rw [padZeros, if_pos (mt h.and_eq_iff.mp hend), hupdate]
          exact hlast
        · rw [hleft, List.replicate_succ, ← List.singleton_append, ← List.append_assoc]
          exact hrep

theorem toUInt8_shiftRight {c : UInt32} {k n : ℕ} (hk : k < 32)
    (h : c.toNat / 2 ^ k % 256 = n % 256) : (c >>> UInt32.ofNat k).toUInt8 = UInt8.ofNat n := by
  rw [← UInt8.toNat_inj, UInt32.toNat_toUInt8, UInt32.toNat_shiftRight, UInt8.toNat_ofNat',
    Nat.shiftRight_eq_div_pow, UInt32.toNat_ofNat', Nat.mod_eq_of_lt (by omega : k < 2 ^ 32),
    Nat.mod_eq_of_lt hk]
  exact h

/-- `finalcount` holds the number of bits. -/
theorem Represents.finalCount_eq {context : ShaCtx} {xs : List UInt8}
    (h : Represents context xs) :
    (finalCount context).toList 8 = be64Bytes (8 * xs.length) := by
  have hcount := h.count
  have h0 := context.count0.toNat_lt
  have h1 := context.count1.toNat_lt
  apply List.map_congr_left
  intro i hi
  rw [List.mem_range] at hi
  interval_cases i
  all_goals
    apply toUInt8_shiftRight
    · decide
    · simp only [Nat.reducePow, Nat.reduceSub, Nat.reduceMod, Nat.reduceMul] at *
      simp
      omega

/-- `SHA1_Final` gives the digest of what the context has taken in. -/
theorem sha1Final_eq {context : ShaCtx} {xs : List UInt8} (h : Represents context xs) :
    ∃ wiped, sha1Final context = some (sha1 xs, wiped) := by
  obtain ⟨c1, h1, hu1⟩ := sha1Update_eq h (fun _ => 0x80) 1 (by decide)
  have hleft : zerosLeft (xs ++ [0x80]).length = (119 - xs.length % 64) % 64 := by
    rw [zerosLeft, List.length_append, List.length_singleton]
    omega
  obtain ⟨c2, hpad, h2⟩ := padZeros_eq h1 (n := 64) (Nat.mod_lt _ (by decide))
  obtain ⟨c3, h3, hu3⟩ := sha1Update_eq h2 (finalCount context) 8 (by decide)
  have hmessage : xs ++ [0x80] ++ List.replicate (zerosLeft (xs ++ [0x80]).length) 0 ++
      (finalCount context).toList 8 = pad xs := by
    rw [hleft, h.finalCount_eq, pad]
  have hstate : c3.state = (absorb compress 64 initial (pad xs)).1 := by
    rw [← hmessage]
    exact h3.state
  refine ⟨⟨⟨0, 0, 0, 0, 0⟩, 0, 0, c3.buffer.zero 0 64⟩, ?_⟩
  simp only [sha1Final, Option.bind_eq_bind, Option.pure_def, hu1, hpad, hu3, Option.bind_some]
  rw [hstate]
  rfl

/-- The pieces of a message, each with the memory it lies in and its length. -/
def sha1UpdateAll : List (Mem × UInt32) → ShaCtx → Option ShaCtx
  | [], context => some context
  | (data, len) :: pieces, context =>
      (sha1Update context data len).bind fun result => sha1UpdateAll pieces result.1

/-- The bytes of the pieces. -/
def bytesOf (pieces : List (Mem × UInt32)) : List UInt8 :=
  pieces.flatMap fun piece => piece.1.toList piece.2.toNat

theorem sha1UpdateAll_eq {pieces : List (Mem × UInt32)}
    (hpieces : ∀ piece ∈ pieces, piece.2.toNat + 63 < 2 ^ 32) {context : ShaCtx}
    {xs : List UInt8} (h : Represents context xs) :
    ∃ context', sha1UpdateAll pieces context = some context' ∧
      Represents context' (xs ++ bytesOf pieces) := by
  induction pieces generalizing context xs with
  | nil => exact ⟨context, rfl, by rwa [bytesOf, List.flatMap_nil, List.append_nil]⟩
  | cons piece pieces ih =>
      obtain ⟨data, len⟩ := piece
      rw [List.forall_mem_cons] at hpieces
      obtain ⟨next, hnext, hupdate⟩ := sha1Update_eq h data _ hpieces.1
      obtain ⟨last, hlast, hrep⟩ := ih hpieces.2 hnext
      refine ⟨last, ?_, ?_⟩
      · rw [sha1UpdateAll, hupdate]
        exact hlast
      · rw [bytesOf, List.flatMap_cons, ← List.append_assoc]
        exact hrep

/-- `SHA1_Init`, `SHA1_Update` for each piece of a message and `SHA1_Final` give the digest
of the message. -/
theorem sha1_of_pieces (context : ShaCtx) {pieces : List (Mem × UInt32)}
    (hpieces : ∀ piece ∈ pieces, piece.2.toNat + 63 < 2 ^ 32) :
    ((sha1UpdateAll pieces (sha1Init context)).bind sha1Final).map Prod.fst =
      some (sha1 (bytesOf pieces)) := by
  obtain ⟨last, hlast, hrep⟩ := sha1UpdateAll_eq hpieces (represents_init context)
  rw [List.nil_append] at hrep
  obtain ⟨wiped, hfinal⟩ := sha1Final_eq hrep
  rw [hlast, Option.bind_some, hfinal, Option.map_some]

/-- The context before its first call, when its members are zero. -/
def zeroShaCtx : ShaCtx :=
  ⟨⟨0, 0, 0, 0, 0⟩, 0, 0, fun _ => 0⟩

theorem sha1_of_pieces_abc :
    ((sha1UpdateAll [(Mem.ofVector #v[0x61], 1), (Mem.ofVector #v[0x62, 0x63], 2)]
        (sha1Init zeroShaCtx)).bind sha1Final).map Prod.fst =
      some (sha1 [0x61, 0x62, 0x63]) :=
  sha1_of_pieces zeroShaCtx (by decide)

end HyLisp.ControlPlane
