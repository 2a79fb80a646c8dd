import HyLisp.ControlPlane.Sha1Stream

/-!
# The authentication code

The authentication data of a Map-Register or Map-Notify is an HMAC-SHA1 with the key of the
site.  The code is that of the standard for keys and messages of any length.  A key is
handed to `SHA1_Update` where it lies, so a long one does not survive its use.
-/

namespace HyLisp.ControlPlane

open Sha1Standard

namespace Sha1Standard

/-- The key of a block: a longer one is hashed, a shorter one filled up with zeros. -/
def blockKey (key : List UInt8) : List UInt8 :=
  if key.length ≤ 64 then key ++ List.replicate (64 - key.length) 0
  else (sha1 key).toList ++ List.replicate 44 0

/-- The code of a message under a key. -/
def hmac (key message : List UInt8) : Vector UInt8 20 :=
  sha1 ((blockKey key).map (· ^^^ 0x5c) ++
    (sha1 ((blockKey key).map (· ^^^ 0x36) ++ message)).toList)

end Sha1Standard

/-! ## The source -/

/-- `HMAC_SHA1_CTX` -/
structure HmacCtx where
  ipad : Mem
  opad : Mem
  shactx : ShaCtx
  key : Mem
  keylen : UInt32
  hashkey : UInt32

/-- `memset(m + k, c, n)` -/
def memset (m : Mem) (k : ℕ) (c : UInt8) (n : ℕ) : Mem := fun i =>
  if k ≤ i ∧ i < k + n then c else m i

/-- `HMAC_SHA1_Init` -/
def hmacSha1Init (ctx : HmacCtx) : HmacCtx :=
  { ctx with
    key := memset ctx.key 0 0x00 64
    ipad := memset ctx.ipad 0 0x36 64
    opad := memset ctx.opad 0 0x5c 64
    keylen := 0
    hashkey := 0 }

/-- The start of the hash of a key that is longer than a block. -/
def startKeyHash (ctx : HmacCtx) : Option HmacCtx :=
  let ctx := { ctx with hashkey := 1, shactx := sha1Init ctx.shactx }
  let hashed :=
    if ctx.keylen > 0 then
      (sha1Update ctx.shactx ctx.key ctx.keylen).map fun (shactx, key) =>
        { ctx with shactx := shactx, key := key }
    else some ctx
  hashed.map fun ctx => { ctx with keylen := 20 }

/-- `HMAC_SHA1_UpdateKey`: the context, and the memory of the key as it is left. -/
def hmacSha1UpdateKey (ctx : HmacCtx) (key : Mem) (keylen : UInt32) :
    Option (HmacCtx × Mem) :=
  if keylen < 1 then some (ctx, key)
  else if ctx.hashkey ≠ 0 ∨ keylen + ctx.keylen > 64 then do
    let ctx ← if ctx.hashkey = 0 then startKeyHash ctx else some ctx
    let (shactx, key) ← sha1Update ctx.shactx key keylen
    return ({ ctx with shactx := shactx }, key)
  else
    some ({ ctx with
      key := memcpy ctx.key ctx.keylen.toNat key keylen.toNat
      keylen := ctx.keylen + keylen }, key)

/-- The bytes of the pad with those of the key, which are `n`. -/
def xorPad (pad key : Mem) (n : ℕ) : Mem := fun i =>
  if i < n then pad i ^^^ key i else pad i

/-- The end of `HMAC_SHA1_EndKey`: zeros behind the key, and its pads. -/
def xorPads (ctx : HmacCtx) : HmacCtx :=
  let i := (64 - ctx.keylen).toInt32
  let ctx := if i > 0 then
      { ctx with key := memset ctx.key ctx.keylen.toNat 0x00 i.toInt.toNat }
    else ctx
  { ctx with
    ipad := xorPad ctx.ipad ctx.key ctx.keylen.toNat
    opad := xorPad ctx.opad ctx.key ctx.keylen.toNat }

/-- `HMAC_SHA1_EndKey` -/
def hmacSha1EndKey (ctx : HmacCtx) : Option HmacCtx :=
  if ctx.hashkey ≠ 0 then
    (sha1Final ctx.shactx).map fun (digest, shactx) =>
      xorPads { ctx with
        key := memcpy (memset ctx.key 0 0x00 64) 0 (Mem.ofVector digest) 20
        shactx := shactx }
  else some (xorPads ctx)

/-- `HMAC_SHA1_StartMessage` -/
def hmacSha1StartMessage (ctx : HmacCtx) : Option HmacCtx :=
  (sha1Update (sha1Init ctx.shactx) ctx.ipad 64).map fun (shactx, ipad) =>
    { ctx with shactx := shactx, ipad := ipad }

/-- `HMAC_SHA1_UpdateMessage` -/
def hmacSha1UpdateMessage (ctx : HmacCtx) (data : Mem) (datalen : UInt32) :
    Option (HmacCtx × Mem) :=
  (sha1Update ctx.shactx data datalen).map fun (shactx, data) =>
    ({ ctx with shactx := shactx }, data)

/-- `HMAC_SHA1_EndMessage` -/
def hmacSha1EndMessage (ctx : HmacCtx) : Option (Vector UInt8 20) := do
  let (buf, c) ← sha1Final ctx.shactx
  let (c, _) ← sha1Update (sha1Init c) ctx.opad 64
  let (c, _) ← sha1Update c (Mem.ofVector buf) 20
  let (out, _) ← sha1Final c
  return out

/-- The calls that make the code of a packet: the code, and the memories of the key and of
the packet as they are left. -/
def hmacSha1 (ctx : HmacCtx) (key : Mem) (keylen : UInt32) (packet : Mem) (pkLen : UInt32) :
    Option (Vector UInt8 20 × Mem × Mem) := do
  let (ctx, key) ← hmacSha1UpdateKey (hmacSha1Init ctx) key keylen
  let ctx ← hmacSha1EndKey ctx
  let ctx ← hmacSha1StartMessage ctx
  let (ctx, packet) ← hmacSha1UpdateMessage ctx packet pkLen
  let out ← hmacSha1EndMessage ctx
  return (out, key, packet)

/-! ## Keys -/

/-- The context has taken in the bytes `ks` of a key: up to a block it keeps them, and from
there on hashes them. -/
structure KeyTaken (ctx : HmacCtx) (ks : List UInt8) : Prop where
  ipad : ∀ i < 64, ctx.ipad i = 0x36
  opad : ∀ i < 64, ctx.opad i = 0x5c
  short : ks.length ≤ 64 → ctx.hashkey = 0 ∧ ctx.keylen.toNat = ks.length ∧
    ctx.key.toList ks.length = ks
  long : 64 < ks.length → ctx.hashkey ≠ 0 ∧ ctx.keylen = 20 ∧ Represents ctx.shactx ks

theorem memset_apply (m : Mem) (c : UInt8) {n i : ℕ} (hi : i < n) : memset m 0 c n i = c :=
  if_pos ⟨Nat.zero_le i, by omega⟩

theorem keyTaken_init (ctx : HmacCtx) : KeyTaken (hmacSha1Init ctx) [] where
  ipad := fun _ hi => memset_apply _ _ hi
  opad := fun _ hi => memset_apply _ _ hi
  short := fun _ => ⟨rfl, rfl, rfl⟩
  long := fun h => absurd h (Nat.not_lt_zero _)

/-- The memory of `n` bytes after its blocks but the first were hashed in place. -/
def wornOut (data : Mem) (n : ℕ) : Mem :=
  hashedInPlace data 64 (64 * (n / 64))

theorem wornOut_of_lt (data : Mem) {n : ℕ} (hn : n < 128) : wornOut data n = data := by
  funext k
  exact if_neg (by omega)

/-- At the start of a block only the first one goes through the buffer. -/
theorem hashedInPlace_inPlaceEnd (data : Mem) (n : ℕ) :
    hashedInPlace data 64 (inPlaceEnd 0 n) = wornOut data n := by
  by_cases hshort : n < 64
  · rw [inPlaceEnd, if_pos (by omega), hashedInPlace_self, wornOut_of_lt data (by omega)]
  · have hend : inPlaceEnd 0 n = 64 * (n / 64) := by
      rw [inPlaceEnd, if_neg (by omega)]
      omega
    rw [hend, wornOut]

/-- `SHA1_Update` of a context that stands at the start of a block. -/
theorem sha1Update_aligned {context : ShaCtx} {xs : List UInt8} (h : Represents context xs)
    (hxs : xs.length % 64 = 0) (data : Mem) (len : UInt32) (hlen : len.toNat + 63 < 2 ^ 32) :
    ∃ context', Represents context' (xs ++ data.toList len.toNat) ∧
      sha1Update context data len = some (context', wornOut data len.toNat) := by
  obtain ⟨context', hnext, hupdate⟩ := sha1Update_eq h data len hlen
  rw [hxs, Nat.sub_zero, hashedInPlace_inPlaceEnd] at hupdate
  exact ⟨context', hnext, hupdate⟩

/-- The bytes kept so far go into the hash. -/
theorem startKeyHash_eq {ctx : HmacCtx} {ks : List UInt8} (hlen : ctx.keylen.toNat = ks.length)
    (hks : ks.length ≤ 64) (hkey : ctx.key.toList ks.length = ks) :
    ∃ shactx key, Represents shactx ks ∧ startKeyHash ctx = some
      { ctx with hashkey := 1, shactx := shactx, key := key, keylen := 20 } := by
  have hinit := represents_init ctx.shactx
  by_cases hsome : ctx.keylen > 0
  · obtain ⟨shactx, hnext, hupdate⟩ := sha1Update_aligned hinit rfl ctx.key
      ctx.keylen (by omega)
    rw [List.nil_append, hlen, hkey] at hnext
    refine ⟨shactx, wornOut ctx.key ctx.keylen.toNat, hnext, ?_⟩
    unfold startKeyHash
    dsimp only
    rw [if_pos hsome, hupdate]
    rfl
  · have hnil : ks = [] := by
      rw [gt_iff_lt, UInt32.lt_iff_toNat_lt, hlen] at hsome
      exact List.eq_nil_of_length_eq_zero (Nat.le_zero.mp (Nat.not_lt.mp hsome))
    subst hnil
    refine ⟨_, ctx.key, hinit, ?_⟩
    unfold startKeyHash
    dsimp only
    rw [if_neg hsome]
    rfl

theorem toNat_add_keylen {ctx : HmacCtx} {ks : List UInt8} (keylen : UInt32)
    (hlen : ctx.keylen.toNat = ks.length) (hks : ks.length ≤ 64)
    (hkeylen : keylen.toNat + 64 < 2 ^ 32) :
    (keylen + ctx.keylen).toNat = ks.length + keylen.toNat := by
  rw [UInt32.toNat_add, hlen, Nat.add_comm]
  exact Nat.mod_eq_of_lt (by omega)

section UpdateKey

variable {ctx : HmacCtx} {ks : List UInt8} {keylen : UInt32}

/-- More of a key that fits into a block. -/
theorem updateKey_short (h : KeyTaken ctx ks) (key : Mem) (keylen : UInt32)
    (hfit : ks.length + keylen.toNat ≤ 64) :
    ∃ ctx', KeyTaken ctx' (ks ++ key.toList keylen.toNat) ∧
      hmacSha1UpdateKey ctx key keylen = some (ctx', key) := by
  obtain ⟨hhash, hlen, hkey⟩ := h.short (by omega)
  by_cases hnone : keylen < 1
  · have hzero : keylen.toNat = 0 := by
      rw [UInt32.lt_iff_toNat_lt] at hnone
      exact Nat.lt_one_iff.mp hnone
    refine ⟨ctx, ?_, if_pos hnone⟩
    rw [hzero]
    exact (List.append_nil ks).symm ▸ h
  · have hsum := toNat_add_keylen keylen hlen (by omega) (by omega)
    have hle : ¬keylen + ctx.keylen > 64 := by
      rw [gt_iff_lt, UInt32.lt_iff_toNat_lt, hsum]
      exact Nat.not_lt.mpr hfit
    have hstay : ¬(ctx.hashkey ≠ 0 ∨ keylen + ctx.keylen > 64) := by
      rintro (hne | hgt)
      · exact hne hhash
      · exact hle hgt
    refine ⟨{ ctx with
      key := memcpy ctx.key ctx.keylen.toNat key keylen.toNat
      keylen := ctx.keylen + keylen }, ?_, ?_⟩
    · refine ⟨h.ipad, h.opad, fun _ => ⟨hhash, ?_, ?_⟩, fun hlong => ?_⟩
      · rw [List.length_append, Mem.length_toList, ← hsum, UInt32.add_comm]
      · rw [List.length_append, Mem.length_toList]
        change (memcpy ctx.key ctx.keylen.toNat key keylen.toNat).toList _ = _
        rw [hlen, toList_memcpy, hkey]
      · rw [List.length_append, Mem.length_toList] at hlong
        exact absurd hfit (Nat.not_le.mpr hlong)
    · unfold hmacSha1UpdateKey
      rw [if_neg hnone, if_neg hstay]

/-- More of a key that is longer than a block. -/
theorem updateKey_long (h : KeyTaken ctx ks) (key : Mem) (hkeylen : keylen.toNat + 64 < 2 ^ 32)
    (hlong : 64 < ks.length + keylen.toNat) (hsome : 0 < keylen.toNat) :
    ∃ ctx', KeyTaken ctx' (ks ++ key.toList keylen.toNat) ∧
      hmacSha1UpdateKey ctx key keylen =
        some (ctx', hashedInPlace key (64 - ks.length % 64)
          (inPlaceEnd (ks.length % 64) keylen.toNat)) := by
  have hnone : ¬keylen < 1 := by
    rw [UInt32.lt_iff_toNat_lt]
    exact Nat.not_lt.mpr hsome
  have hlength : (ks ++ key.toList keylen.toNat).length = ks.length + keylen.toNat := by
    rw [List.length_append, Mem.length_toList]
  by_cases hks : ks.length ≤ 64
  · obtain ⟨hhash, hlen, hkey⟩ := h.short hks
    have hsum := toNat_add_keylen keylen hlen hks hkeylen
    have hgt : keylen + ctx.keylen > 64 := by
      rw [gt_iff_lt, UInt32.lt_iff_toNat_lt, hsum]
      exact hlong
    obtain ⟨shactx, kept, hrep, hstart⟩ := startKeyHash_eq hlen hks hkey
    obtain ⟨next, hnext, hupdate⟩ := sha1Update_eq hrep key keylen (by omega)
    refine ⟨{ ctx with hashkey := 1, shactx := next, key := kept, keylen := 20 }, ?_, ?_⟩
    · refine ⟨h.ipad, h.opad, fun hshort => ?_, fun _ => ⟨?_, rfl, hnext⟩⟩
      · rw [hlength] at hshort
        exact absurd hshort (Nat.not_le.mpr hlong)
      · exact (by decide : (1 : UInt32) ≠ 0)
    · unfold hmacSha1UpdateKey
      rw [if_neg hnone, if_pos (Or.inr hgt), if_pos hhash, hstart]
      simp only [Option.bind_eq_bind, Option.bind_some, Option.pure_def]
      rw [hupdate, Option.bind_some]
  · obtain ⟨hhash, hlen, hrep⟩ := h.long (Nat.not_le.mp hks)
    obtain ⟨next, hnext, hupdate⟩ := sha1Update_eq hrep key keylen (by omega)
    refine ⟨{ ctx with shactx := next }, ?_, ?_⟩
    · refine ⟨h.ipad, h.opad, fun hshort => ?_, fun _ => ⟨hhash, hlen, hnext⟩⟩
      rw [hlength] at hshort
      exact absurd hshort (Nat.not_le.mpr hlong)
    · unfold hmacSha1UpdateKey
      rw [if_neg hnone, if_pos (Or.inl hhash), if_neg hhash]
      simp only [Option.bind_eq_bind, Option.bind_some, Option.pure_def]
      rw [hupdate, Option.bind_some]

end UpdateKey

/-- A key that is handed over in one piece. -/
theorem updateKey_init (ctx : HmacCtx) (key : Mem) {keylen : UInt32}
    (hkeylen : keylen.toNat + 64 < 2 ^ 32) :
    ∃ ctx', KeyTaken ctx' (key.toList keylen.toNat) ∧
      hmacSha1UpdateKey (hmacSha1Init ctx) key keylen =
        some (ctx', wornOut key keylen.toNat) := by
  have hinit := keyTaken_init ctx
  by_cases hfit : keylen.toNat ≤ 64
  · have hshort := updateKey_short hinit key keylen
      (by rw [List.length_nil]; omega)
    rw [wornOut_of_lt key (by omega)]
    exact hshort
  · have hlong := updateKey_long hinit key hkeylen (by rw [List.length_nil]; omega) (by omega)
    rwa [List.nil_append, List.length_nil, Nat.zero_mod, Nat.sub_zero,
      hashedInPlace_inPlaceEnd] at hlong

/-! ## Pads -/

theorem toList_congr {m m' : Mem} {n : ℕ} (h : ∀ i < n, m i = m' i) :
    m.toList n = m'.toList n :=
  Mem.Agree.toList h

theorem toList_ofVector {n : ℕ} (v : Vector UInt8 n) : (Mem.ofVector v).toList n = v.toList := by
  apply List.ext_getElem
  · rw [Mem.length_toList, Vector.length_toList]
  · intro i hi hi'
    rw [Mem.length_toList] at hi
    simp [Mem.toList, hi]

/-- The pad of a key is that of its block. -/
theorem toList_xorPad {pad key : Mem} {c : UInt8} {ks : List UInt8}
    (hpad : ∀ i < 64, pad i = c) (hkey : key.toList ks.length = ks) (hks : ks.length ≤ 64) :
    (xorPad pad key ks.length).toList 64 =
      (ks ++ List.replicate (64 - ks.length) 0).map (· ^^^ c) := by
  have hfirst : (xorPad pad key ks.length).toList ks.length = ks.map (· ^^^ c) := by
    conv_rhs => rw [← hkey]
    rw [Mem.toList, Mem.toList, List.map_map]
    apply List.map_congr_left
    intro i hi
    rw [List.mem_range] at hi
    rw [xorPad, if_pos hi, hpad i (by omega), UInt8.xor_comm]
    rfl
  have hrest : ((xorPad pad key ks.length).advance ks.length).toList (64 - ks.length) =
      List.replicate (64 - ks.length) c := by
    rw [List.eq_replicate_iff]
    refine ⟨Mem.length_toList _ _, fun b hb => ?_⟩
    obtain ⟨i, hi, rfl⟩ := List.mem_map.mp hb
    rw [List.mem_range] at hi
    rw [Mem.advance_apply, xorPad, if_neg (by omega)]
    exact hpad _ (by omega)
  rw [List.map_append, List.map_replicate, UInt8.zero_xor, ← hfirst, ← hrest, ← Mem.toList_add]
  congr 1
  omega

/-- The zeros behind a key do not count. -/
theorem toList_padded (key : Mem) (n k : ℕ) (p : Prop) [Decidable p] :
    (if p then memset key n 0 k else key).toList n = key.toList n := by
  apply toList_congr
  intro i hi
  split
  · exact if_neg (by omega)
  · rfl

/-- The pads of a key of up to a block that the context keeps. -/
theorem xorPads_eq (ctx : HmacCtx) {ks : List UInt8} (hipad : ∀ i < 64, ctx.ipad i = 0x36)
    (hopad : ∀ i < 64, ctx.opad i = 0x5c) (hlen : ctx.keylen.toNat = ks.length)
    (hkey : ctx.key.toList ks.length = ks) (hks : ks.length ≤ 64) :
    (xorPads ctx).ipad.toList 64 =
        (ks ++ List.replicate (64 - ks.length) 0).map (· ^^^ 0x36) ∧
      (xorPads ctx).opad.toList 64 =
        (ks ++ List.replicate (64 - ks.length) 0).map (· ^^^ 0x5c) := by
  have hpadded := (toList_padded ctx.key ks.length (64 - ctx.keylen).toInt32.toInt.toNat
    ((64 - ctx.keylen).toInt32 > 0)).trans hkey
  by_cases hi : (64 - ctx.keylen).toInt32 > 0
  · rw [if_pos hi, ← hlen] at hpadded
    simp only [xorPads, if_pos hi, hlen]
    rw [hlen] at hpadded
    exact ⟨toList_xorPad hipad hpadded hks, toList_xorPad hopad hpadded hks⟩
  · rw [if_neg hi] at hpadded
    simp only [xorPads, if_neg hi, hlen]
    exact ⟨toList_xorPad hipad hpadded hks, toList_xorPad hopad hpadded hks⟩

/-- `HMAC_SHA1_EndKey` makes the pads of the block of the key. -/
theorem hmacSha1EndKey_eq {ctx : HmacCtx} {ks : List UInt8} (h : KeyTaken ctx ks) :
    ∃ ctx', hmacSha1EndKey ctx = some ctx' ∧
      ctx'.ipad.toList 64 = (blockKey ks).map (· ^^^ 0x36) ∧
      ctx'.opad.toList 64 = (blockKey ks).map (· ^^^ 0x5c) := by
  by_cases hks : ks.length ≤ 64
  · obtain ⟨hhash, hlen, hkey⟩ := h.short hks
    rw [blockKey, if_pos hks]
    exact ⟨xorPads ctx, if_neg (not_not_intro hhash),
      xorPads_eq ctx h.ipad h.opad hlen hkey hks⟩
  · obtain ⟨hhash, hlen, hrep⟩ := h.long (Nat.not_le.mp hks)
    obtain ⟨wiped, hfinal⟩ := sha1Final_eq hrep
    rw [blockKey, if_neg hks]
    generalize sha1 ks = digest at hfinal ⊢
    have hdigest : digest.toList.length = 20 := Vector.length_toList
    have hkey : (memcpy (memset ctx.key 0 0x00 64) 0 (Mem.ofVector digest) 20).toList
        digest.toList.length = digest.toList := by
      have hcopy := toList_memcpy (memset ctx.key 0 0x00 64) 0 (Mem.ofVector digest) 20
      rw [Nat.zero_add, toList_ofVector] at hcopy
      rw [hdigest]
      exact hcopy
    have hpads := xorPads_eq
      { ctx with
        key := memcpy (memset ctx.key 0 0x00 64) 0 (Mem.ofVector digest) 20
        shactx := wiped } h.ipad h.opad (by rw [hlen, hdigest]; rfl) hkey
      (by rw [hdigest]; decide)
    rw [hdigest] at hpads
    refine ⟨_, ?_, hpads⟩
    rw [hmacSha1EndKey, if_pos hhash, hfinal, Option.map_some]

/-! ## Messages -/

theorem hmacSha1StartMessage_eq (ctx : HmacCtx) :
    ∃ ctx', hmacSha1StartMessage ctx = some ctx' ∧
      Represents ctx'.shactx (ctx.ipad.toList 64) ∧ ctx'.opad = ctx.opad := by
  obtain ⟨shactx, hnext, hupdate⟩ := sha1Update_aligned (represents_init ctx.shactx) rfl
    ctx.ipad 64 (by decide)
  rw [List.nil_append] at hnext
  refine ⟨{ ctx with shactx := shactx, ipad := wornOut ctx.ipad 64 }, ?_, hnext, rfl⟩
  rw [hmacSha1StartMessage, hupdate, Option.map_some]
  rfl

theorem hmacSha1UpdateMessage_eq {ctx : HmacCtx} {xs : List UInt8}
    (h : Represents ctx.shactx xs) (hxs : xs.length % 64 = 0) (data : Mem) {datalen : UInt32}
    (hlen : datalen.toNat + 63 < 2 ^ 32) :
    ∃ ctx', hmacSha1UpdateMessage ctx data datalen = some (ctx', wornOut data datalen.toNat) ∧
      Represents ctx'.shactx (xs ++ data.toList datalen.toNat) ∧ ctx'.opad = ctx.opad := by
  obtain ⟨shactx, hnext, hupdate⟩ := sha1Update_aligned h hxs data datalen hlen
  refine ⟨{ ctx with shactx := shactx }, ?_, hnext, rfl⟩
  rw [hmacSha1UpdateMessage, hupdate, Option.map_some]

/-- `HMAC_SHA1_EndMessage` hashes the digest behind the outer pad. -/
theorem hmacSha1EndMessage_eq {ctx : HmacCtx} {xs : List UInt8} (h : Represents ctx.shactx xs) :
    hmacSha1EndMessage ctx = some (sha1 (ctx.opad.toList 64 ++ (sha1 xs).toList)) := by
  obtain ⟨wiped, hinner⟩ := sha1Final_eq h
  obtain ⟨c1, h1, hu1⟩ := sha1Update_aligned (represents_init wiped) rfl ctx.opad 64
    (by decide)
  rw [List.nil_append] at h1
  obtain ⟨c2, h2, hu2⟩ := sha1Update_eq h1 (Mem.ofVector (sha1 xs)) 20 (by decide)
  obtain ⟨wiped2, houter⟩ := sha1Final_eq h2
  simp only [hmacSha1EndMessage, Option.bind_eq_bind, Option.pure_def, hinner, hu1, hu2, houter,
    Option.bind_some]
  change some (sha1 (_ ++ (Mem.ofVector (sha1 xs)).toList 20)) = _
  rw [toList_ofVector]
  rfl

/-- The calls give the code of the standard.  The key and the packet are left with their
blocks from the second one on hashed in place. -/
theorem hmacSha1_eq (ctx : HmacCtx) (key : Mem) (keylen : UInt32) (packet : Mem)
    (pkLen : UInt32) (hkeylen : keylen.toNat + 64 < 2 ^ 32) (hpkLen : pkLen.toNat + 63 < 2 ^ 32) :
    hmacSha1 ctx key keylen packet pkLen =
      some (hmac (key.toList keylen.toNat) (packet.toList pkLen.toNat),
        wornOut key keylen.toNat, wornOut packet pkLen.toNat) := by
  obtain ⟨c1, htaken, h1⟩ := updateKey_init ctx key hkeylen
  obtain ⟨c2, h2, hipad, hopad⟩ := hmacSha1EndKey_eq htaken
  obtain ⟨c3, h3, hrep3, hopad3⟩ := hmacSha1StartMessage_eq c2
  have halign : (c2.ipad.toList 64).length % 64 = 0 := by rw [Mem.length_toList]
  obtain ⟨c4, h4, hrep4, hopad4⟩ := hmacSha1UpdateMessage_eq hrep3 halign packet hpkLen
  have h5 := hmacSha1EndMessage_eq hrep4
  rw [hopad4, hopad3, hopad, hipad] at h5
  unfold hmacSha1 hmac
  simp only [Option.bind_eq_bind, Option.pure_def]
  rw [h1, Option.bind_some, h2, Option.bind_some, h3, Option.bind_some, h4, Option.bind_some,
    h5, Option.bind_some]

/-- The context before its first call, when its members are zero. -/
def zeroHmacCtx : HmacCtx :=
  ⟨fun _ => 0, fun _ => 0, zeroShaCtx, fun _ => 0, 0, 0⟩

/-! ## A key in use -/

/-- `strlen` of a string in `size` bytes. -/
def strlen (m : Mem) (size : ℕ) : ℕ :=
  ((m.toList size).takeWhile (· ≠ 0)).length

theorem strlen_le (m : Mem) (size : ℕ) : strlen m size ≤ size := by
  have h := (List.takeWhile_prefix (· ≠ 0) (l := m.toList size)).length_le
  rwa [Mem.length_toList] at h

/-- The packets that are coded under the key of a site, one after the other: each with the
context of the call, its memory and its length. -/
def codeAll (size : ℕ) : Mem → List (HmacCtx × Mem × UInt32) → Option (List (Vector UInt8 20))
  | _, [] => some []
  | key, (ctx, packet, pkLen) :: packets => do
      let (out, key, _) ← hmacSha1 ctx key (UInt32.ofNat (strlen key size)) packet pkLen
      let codes ← codeAll size key packets
      return out :: codes

/-- The memory of a key after a number of uses. -/
def keyAfter (size : ℕ) (key : Mem) : ℕ → Mem
  | 0 => key
  | n + 1 => keyAfter size (wornOut key (strlen key size)) n

/-- The code of a packet under a key. -/
def codeOf (size : ℕ) (key : Mem) (packet : HmacCtx × Mem × UInt32) : Vector UInt8 20 :=
  hmac (key.toList (strlen key size)) (packet.2.1.toList packet.2.2.toNat)

theorem keyAfter_of_lt {size : ℕ} {key : Mem} (h : strlen key size < 128) (n : ℕ) :
    keyAfter size key n = key := by
  induction n with
  | zero => rfl
  | succ n ih => rw [keyAfter, wornOut_of_lt key h, ih]

theorem codeAll_eq {size : ℕ} (hsize : size + 64 < 2 ^ 32)
    {packets : List (HmacCtx × Mem × UInt32)}
    (hpackets : ∀ packet ∈ packets, packet.2.2.toNat + 63 < 2 ^ 32) (key : Mem) :
    codeAll size key packets =
      some (packets.mapIdx fun i packet => codeOf size (keyAfter size key i) packet) := by
  induction packets generalizing key with
  | nil => rfl
  | cons first packets ih =>
      obtain ⟨ctx, packet, pkLen⟩ := first
      rw [List.forall_mem_cons] at hpackets
      have hlen : (UInt32.ofNat (strlen key size)).toNat = strlen key size := by
        have hle := strlen_le key size
        rw [UInt32.toNat_ofNat']
        exact Nat.mod_eq_of_lt (by omega)
      have hfirst := hmacSha1_eq ctx key (UInt32.ofNat (strlen key size)) packet
        pkLen (by rw [hlen]; have := strlen_le key size; omega) hpackets.1
      rw [hlen] at hfirst
      have hrest := ih hpackets.2 (wornOut key (strlen key size))
      rw [codeAll]
      simp only [Option.bind_eq_bind, Option.pure_def]
      rw [hfirst, Option.bind_some, hrest, Option.bind_some, List.mapIdx_cons]
      rfl

/-- Each packet of a run is coded under the string that the packets before it left of the
key; a key of fewer than 128 characters is left as it is. -/
theorem codeAll_under_key {size : ℕ} (hsize : size + 64 < 2 ^ 32)
    {packets : List (HmacCtx × Mem × UInt32)}
    (hpackets : ∀ packet ∈ packets, packet.2.2.toNat + 63 < 2 ^ 32) (key : Mem) :
    codeAll size key packets =
        some (packets.mapIdx fun i packet => codeOf size (keyAfter size key i) packet) ∧
      (strlen key size < 128 → codeAll size key packets =
        some (packets.map (codeOf size key))) := by
  have hcodes := codeAll_eq hsize hpackets key
  refine ⟨hcodes, fun hshort => ?_⟩
  rw [hcodes]
  simp only [keyAfter_of_lt hshort]
  congr 1
  apply List.ext_getElem
  · rw [List.length_mapIdx, List.length_map]
  · intro i _ _
    rw [List.getElem_mapIdx, List.getElem_map]

theorem codeAll_under_key_three :
    codeAll 4 (Mem.ofVector #v[0x6b, 0x65, 0x79, 0])
        (List.replicate 3 (zeroHmacCtx, (fun _ => 0), 200)) =
      some ((List.replicate 3 (zeroHmacCtx, (fun _ => 0), 200)).map
        (codeOf 4 (Mem.ofVector #v[0x6b, 0x65, 0x79, 0]))) :=
  (codeAll_under_key (by decide) (by decide) _).2 (by decide)

end HyLisp.ControlPlane
