import HyLisp.Support.BlockHash
import HyLisp.Support.Memory
import Mathlib.Data.Fin.Basic
import Mathlib.Tactic.IntervalCases

/-!
# The SHA-1 compression function

`SHA1_Transform` runs eighty rounds on five variables that change their roles from round
to round, and expands the block in place: the sixteen words of the block are a ring that
holds the last sixteen words of the message schedule.  It computes the compression
function of the standard, and leaves the end of the schedule where the block was.
-/

namespace HyLisp.ControlPlane

/-! ## The standard -/

/-- The five words of a hash value, or the working variables. -/
@[ext]
structure ShaWords where
  a : UInt32
  b : UInt32
  c : UInt32
  d : UInt32
  e : UInt32
  deriving DecidableEq, Repr

namespace Sha1Standard

/-- A word rotated to the left. -/
def rotl (n : ℕ) (x : UInt32) : UInt32 :=
  (x <<< UInt32.ofNat n) ||| (x >>> UInt32.ofNat (32 - n))

def ch (x y z : UInt32) : UInt32 :=
  (x &&& y) ^^^ (~~~x &&& z)

def parity (x y z : UInt32) : UInt32 :=
  x ^^^ y ^^^ z

def maj (x y z : UInt32) : UInt32 :=
  (x &&& y) ^^^ (x &&& z) ^^^ (y &&& z)

/-- The function of a round. -/
def f (t : ℕ) : UInt32 → UInt32 → UInt32 → UInt32 :=
  if t < 20 then ch else if t < 40 then parity else if t < 60 then maj else parity

/-- The constant of a round. -/
def k (t : ℕ) : UInt32 :=
  if t < 20 then 0x5a827999 else if t < 40 then 0x6ed9eba1
  else if t < 60 then 0x8f1bbcdc else 0xca62c1d6

/-- The message schedule of a block. -/
def schedule (m : ℕ → UInt32) (t : ℕ) : UInt32 :=
  if t < 16 then m t
  else rotl 1 (schedule m (t - 3) ^^^ schedule m (t - 8) ^^^ schedule m (t - 14) ^^^
    schedule m (t - 16))

def round (m : ℕ → UInt32) (x : ShaWords) (t : ℕ) : ShaWords where
  a := rotl 5 x.a + f t x.b x.c x.d + x.e + k t + schedule m t
  b := x.a
  c := rotl 30 x.b
  d := x.c
  e := x.d

/-- The words of a block, the first byte of each the most significant one. -/
def blockWord (block : List UInt8) (t : ℕ) : UInt32 :=
  ((block.getD (4 * t) 0).toUInt32 <<< 24) ||| ((block.getD (4 * t + 1) 0).toUInt32 <<< 16) |||
    ((block.getD (4 * t + 2) 0).toUInt32 <<< 8) ||| (block.getD (4 * t + 3) 0).toUInt32

/-- The rounds before the `t`-th. -/
def rounds (m : ℕ → UInt32) (h : ShaWords) (t : ℕ) : ShaWords :=
  (List.range t).foldl (round m) h

/-- A block enters the hash value. -/
def compress (h : ShaWords) (block : List UInt8) : ShaWords :=
  let x := rounds (blockWord block) h 80
  ⟨h.a + x.a, h.b + x.b, h.c + x.c, h.d + x.d, h.e + x.e⟩

end Sha1Standard

/-! ## The source -/

/-- The macro `rol`. -/
def rol (value bits : UInt32) : UInt32 :=
  (value <<< bits) ||| (value >>> (32 - bits))

/-- The variables `a` to `e`, and `block->l`. -/
structure Sha1Work where
  vars : Fin 5 → UInt32
  l : Fin 16 → UInt32

namespace Sha1Work

/-- The new value of `block->l[i & 15]`: the macro `blk0` on a little-endian machine for
the first sixteen rounds, and `blk` for the others. -/
def blk (x : Sha1Work) (i : ℕ) : UInt32 :=
  if i < 16 then
    (rol (x.l (.ofNat 16 i)) 24 &&& 0xFF00FF00) ||| (rol (x.l (.ofNat 16 i)) 8 &&& 0x00FF00FF)
  else
    rol (x.l (.ofNat 16 (i + 13)) ^^^ x.l (.ofNat 16 (i + 8)) ^^^ x.l (.ofNat 16 (i + 2)) ^^^
      x.l (.ofNat 16 i)) 1

/-- What the macros `R0` to `R4` compute from `w`, `x` and `y`. -/
def mix (i : ℕ) (w x y : UInt32) : UInt32 :=
  if i < 20 then (w &&& (x ^^^ y)) ^^^ y
  else if i < 40 then w ^^^ x ^^^ y
  else if i < 60 then ((w ||| x) &&& y) ||| (w &&& x)
  else w ^^^ x ^^^ y

/-- The constant in the macros. -/
def addend (i : ℕ) : UInt32 :=
  if i < 20 then 0x5A827999 else if i < 40 then 0x6ED9EBA1
  else if i < 60 then 0x8F1BBCDC else 0xCA62C1D6

/-- The variable in the place `r` of the `i`-th call of a macro.  The calls are
`(a,b,c,d,e)`, `(e,a,b,c,d)`, `(d,e,a,b,c)`, `(c,d,e,a,b)` and `(b,c,d,e,a)`, over and
over. -/
def arg (i r : ℕ) : Fin 5 :=
  .ofNat 5 (r + 4 * i)

/-- The `i`-th call of a macro. -/
def call (s : Sha1Work) (i : ℕ) : Sha1Work :=
  let v := s.vars (arg i 0)
  let w := s.vars (arg i 1)
  let x := s.vars (arg i 2)
  let y := s.vars (arg i 3)
  let z := s.vars (arg i 4)
  let word := s.blk i
  { vars := Function.update
      (Function.update s.vars (arg i 4) (z + (mix i w x y + word + addend i + rol v 5)))
      (arg i 1) (rol w 30)
    l := Function.update s.l (.ofNat 16 i) word }

end Sha1Work

/-- The word `block->l[i]` of a little-endian machine. -/
def loadWord (buffer : Mem) (i : ℕ) : UInt32 :=
  (buffer (4 * i)).toUInt32 ||| ((buffer (4 * i + 1)).toUInt32 <<< 8) |||
    ((buffer (4 * i + 2)).toUInt32 <<< 16) ||| ((buffer (4 * i + 3)).toUInt32 <<< 24)

/-- The words `block->l` as the bytes of the buffer. -/
def storeWords (buffer : Mem) (l : Fin 16 → UInt32) : Mem := fun k =>
  if k < 64 then (l (.ofNat 16 (k / 4)) >>> UInt32.ofNat (8 * (k % 4))).toUInt8
  else buffer k

/-- The variables and the block before the first round. -/
def sha1Start (state : ShaWords) (buffer : Mem) : Sha1Work where
  vars := fun r => [state.a, state.b, state.c, state.d, state.e].getD r 0
  l := fun i => loadWord buffer i

/-- `SHA1_Transform`: the new `state`, and the buffer that it worked in. -/
def sha1Transform (state : ShaWords) (buffer : Mem) : ShaWords × Mem :=
  let x := (List.range 80).foldl Sha1Work.call (sha1Start state buffer)
  (⟨state.a + x.vars 0, state.b + x.vars 1, state.c + x.vars 2, state.d + x.vars 3,
    state.e + x.vars 4⟩, storeWords buffer x.l)

/-! ## The words -/

open Sha1Standard

/-- The macros choose as the standard does. -/
theorem ch_eq (w x y : UInt32) : (w &&& (x ^^^ y)) ^^^ y = ch w x y := by
  apply UInt32.toBitVec_inj.mp
  ext i hi
  simp only [ch, UInt32.toBitVec_xor, UInt32.toBitVec_and, UInt32.toBitVec_not,
    BitVec.getElem_xor, BitVec.getElem_and, BitVec.getElem_not]
  cases w.toBitVec[i] <;> cases x.toBitVec[i] <;> cases y.toBitVec[i] <;> rfl

theorem maj_eq (w x y : UInt32) : ((w ||| x) &&& y) ||| (w &&& x) = maj w x y := by
  apply UInt32.toBitVec_inj.mp
  ext i hi
  simp only [maj, UInt32.toBitVec_xor, UInt32.toBitVec_and, UInt32.toBitVec_or,
    BitVec.getElem_xor, BitVec.getElem_and, BitVec.getElem_or]
  cases w.toBitVec[i] <;> cases x.toBitVec[i] <;> cases y.toBitVec[i] <;> rfl

theorem mix_eq (i : ℕ) (w x y : UInt32) : Sha1Work.mix i w x y = f i w x y := by
  unfold Sha1Work.mix f
  rw [ch_eq, maj_eq]
  split
  · rfl
  · split
    · rfl
    · split <;> rfl

/-- `blk0` exchanges the bytes of a word. -/
theorem exchange_bytes (a b c d : UInt8) :
    let x : UInt32 :=
      a.toUInt32 ||| (b.toUInt32 <<< 8) ||| (c.toUInt32 <<< 16) ||| (d.toUInt32 <<< 24)
    ((rol x 24 &&& 0xFF00FF00) ||| (rol x 8 &&& 0x00FF00FF) : UInt32) =
      (a.toUInt32 <<< 24) ||| (b.toUInt32 <<< 16) ||| (c.toUInt32 <<< 8) ||| d.toUInt32 := by
  intro x
  apply UInt32.toBitVec_inj.mp
  have h8 : (8 : UInt32).toBitVec % 32 = 8#32 := rfl
  have h16 : (16 : UInt32).toBitVec % 32 = 16#32 := rfl
  have h24 : (24 : UInt32).toBitVec % 32 = 24#32 := rfl
  ext i hi
  simp only [x, rol]
  interval_cases i <;> simp

theorem getD_toList (buffer : Mem) {n i : ℕ} (hi : i < n) :
    (buffer.toList n).getD i 0 = buffer i := by
  rw [Mem.toList, List.getD_eq_getElem?_getD, List.getElem?_map, List.getElem?_range hi]
  rfl

theorem exchange_loadWord (buffer : Mem) {i : ℕ} (hi : i < 16) :
    ((rol (loadWord buffer i) 24 &&& 0xFF00FF00) |||
      (rol (loadWord buffer i) 8 &&& 0x00FF00FF) : UInt32) =
      blockWord (buffer.toList 64) i := by
  rw [blockWord, getD_toList buffer (by omega), getD_toList buffer (by omega),
    getD_toList buffer (by omega), getD_toList buffer (by omega)]
  exact exchange_bytes _ _ _ _

/-! ## The rounds -/

/-- The ring before round `t`: the words of the schedule up to there, and the words of the
block that are still to be read. -/
structure Ring (m : ℕ → UInt32) (raw : Fin 16 → UInt32) (t : ℕ) (l : Fin 16 → UInt32) :
    Prop where
  recent : ∀ s < t, t ≤ s + 16 → l (.ofNat 16 s) = schedule m s
  unread : ∀ s < 16, t ≤ s → l (.ofNat 16 s) = raw (.ofNat 16 s)

theorem ofNat_congr {n a b : ℕ} [NeZero n] (h : a % n = b % n) :
    Fin.ofNat n a = Fin.ofNat n b :=
  Fin.ext h

theorem ofNat_ne {n a b : ℕ} [NeZero n] (h : a % n ≠ b % n) : Fin.ofNat n a ≠ Fin.ofNat n b :=
  fun heq => h (congrArg Fin.val heq)

variable {m : ℕ → UInt32} {raw : Fin 16 → UInt32} {t : ℕ} {s : Sha1Work}

/-- The new word is the next one of the schedule. -/
theorem Ring.blk_eq (h : Ring m raw t s.l)
    (hraw : ∀ i < 16, ((rol (raw (.ofNat 16 i)) 24 &&& 0xFF00FF00) |||
      (rol (raw (.ofNat 16 i)) 8 &&& 0x00FF00FF) : UInt32) = m i) :
    s.blk t = schedule m t := by
  unfold Sha1Work.blk
  rw [schedule]
  by_cases ht : t < 16
  · rw [if_pos ht, if_pos ht, h.unread t ht (Nat.le_refl t), hraw t ht]
  · rw [if_neg ht, if_neg ht]
    have hback : ∀ j k, j + k = 16 → 0 < k →
        s.l (.ofNat 16 (t + j)) = schedule m (t - k) := by
      intro j k hsum hk
      rw [← h.recent (t - k) (by omega) (by omega)]
      exact congrArg s.l (ofNat_congr (by omega))
    have hfirst : s.l (.ofNat 16 t) = schedule m (t - 16) := hback 0 16 rfl (by decide)
    rw [hback 13 3 rfl (by decide), hback 8 8 rfl (by decide), hback 2 14 rfl (by decide),
      hfirst]
    rfl

theorem Ring.update (h : Ring m raw t s.l) :
    Ring m raw (t + 1) (Function.update s.l (.ofNat 16 t) (schedule m t)) where
  recent := by
    intro i hi hle
    by_cases heq : i = t
    · rw [heq, Function.update_self]
    · rw [Function.update_of_ne (ofNat_ne (by omega))]
      exact h.recent i (by omega) (by omega)
  unread := by
    intro i hi hle
    rw [Function.update_of_ne (ofNat_ne (by omega))]
    exact h.unread i hi (by omega)

/-- The variables in the places of round `t` are the working variables. -/
structure Aligned (t : ℕ) (vars : Fin 5 → UInt32) (x : ShaWords) : Prop where
  a : vars (Sha1Work.arg t 0) = x.a
  b : vars (Sha1Work.arg t 1) = x.b
  c : vars (Sha1Work.arg t 2) = x.c
  d : vars (Sha1Work.arg t 3) = x.d
  e : vars (Sha1Work.arg t 4) = x.e

theorem arg_ne {r r' : ℕ} (hr : r < 5) (hr' : r' < 5) (h : r ≠ r') :
    Sha1Work.arg t r ≠ Sha1Work.arg t r' :=
  ofNat_ne (by omega)

/-- Each place of the next round is the one before it. -/
theorem arg_succ (r : ℕ) : Sha1Work.arg (t + 1) (r + 1) = Sha1Work.arg t r :=
  ofNat_congr (by omega)

theorem arg_succ_zero : Sha1Work.arg (t + 1) 0 = Sha1Work.arg t 4 :=
  ofNat_congr (by omega)

/-- A call of a macro is a round. -/
theorem Aligned.call {x : ShaWords} (h : Aligned t s.vars x) (hblk : s.blk t = schedule m t) :
    Aligned (t + 1) (s.call t).vars (round m x t) := by
  have hvars : (s.call t).vars = Function.update (Function.update s.vars (Sha1Work.arg t 4)
      (x.e + (f t x.b x.c x.d + schedule m t + k t + rotl 5 x.a)))
      (Sha1Work.arg t 1) (rotl 30 x.b) := by
    simp only [Sha1Work.call, h.a, h.b, h.c, h.d, h.e, hblk, mix_eq]
    rfl
  rw [hvars]
  refine ⟨?_, ?_, ?_, ?_, ?_⟩
  · rw [arg_succ_zero, Function.update_of_ne (arg_ne (by decide) (by decide) (by decide)),
      Function.update_self]
    change _ = rotl 5 x.a + f t x.b x.c x.d + x.e + k t + schedule m t
    ac_rfl
  · rw [arg_succ 0, Function.update_of_ne (arg_ne (by decide) (by decide) (by decide)),
      Function.update_of_ne (arg_ne (by decide) (by decide) (by decide))]
    exact h.a
  · rw [arg_succ 1, Function.update_self]
    rfl
  · rw [arg_succ 2, Function.update_of_ne (arg_ne (by decide) (by decide) (by decide)),
      Function.update_of_ne (arg_ne (by decide) (by decide) (by decide))]
    exact h.c
  · rw [arg_succ 3, Function.update_of_ne (arg_ne (by decide) (by decide) (by decide)),
      Function.update_of_ne (arg_ne (by decide) (by decide) (by decide))]
    exact h.d

/-- After `t` calls the variables are those of the standard after `t` rounds, and the ring
holds the end of the schedule. -/
theorem call_run {start : Sha1Work} {x : ShaWords} (hvars : Aligned 0 start.vars x)
    (hraw : ∀ i < 16, ((rol (start.l (.ofNat 16 i)) 24 &&& 0xFF00FF00) |||
      (rol (start.l (.ofNat 16 i)) 8 &&& 0x00FF00FF) : UInt32) = m i) (t : ℕ) :
    Aligned t ((List.range t).foldl Sha1Work.call start).vars (rounds m x t) ∧
      Ring m start.l t ((List.range t).foldl Sha1Work.call start).l := by
  induction t with
  | zero =>
      refine ⟨hvars, ⟨fun s hs => absurd hs (Nat.not_lt_zero s), fun s _ _ => rfl⟩⟩
  | succ t ih =>
      obtain ⟨haligned, hring⟩ := ih
      have hblk := hring.blk_eq hraw
      rw [List.range_succ, List.foldl_append, List.foldl_cons, List.foldl_nil, rounds,
        List.range_succ, List.foldl_append, List.foldl_cons, List.foldl_nil]
      refine ⟨haligned.call hblk, ?_⟩
      have hupdate := hring.update
      rw [← hblk] at hupdate
      exact hupdate

/-- `SHA1_Transform` is the compression function of the standard, and leaves the last
sixteen words of the schedule in the buffer. -/
theorem sha1Transform_eq (state : ShaWords) (buffer : Mem) :
    sha1Transform state buffer =
      (compress state (buffer.toList 64),
        storeWords buffer fun i => schedule (blockWord (buffer.toList 64)) (64 + i)) := by
  have hraw : ∀ i < 16,
      ((rol ((sha1Start state buffer).l (.ofNat 16 i)) 24 &&& 0xFF00FF00) |||
        (rol ((sha1Start state buffer).l (.ofNat 16 i)) 8 &&& 0x00FF00FF) : UInt32) =
      blockWord (buffer.toList 64) i := by
    intro i hi
    have hval : ((Fin.ofNat 16 i : Fin 16) : ℕ) = i := Nat.mod_eq_of_lt hi
    simp only [sha1Start, hval]
    exact exchange_loadWord buffer hi
  obtain ⟨haligned, hring⟩ := call_run (x := state) ⟨rfl, rfl, rfl, rfl, rfl⟩ hraw 80
  have hl : ((List.range 80).foldl Sha1Work.call (sha1Start state buffer)).l =
      fun i : Fin 16 => schedule (blockWord (buffer.toList 64)) (64 + i) := by
    funext i
    have hi := i.isLt
    rw [← hring.recent (64 + i) (by omega) (by omega)]
    exact congrArg _ (Fin.ext (by rw [Fin.val_ofNat]; omega))
  unfold sha1Transform compress
  rw [← hl]
  exact Prod.ext (ShaWords.ext (congrArg (state.a + ·) haligned.a)
    (congrArg (state.b + ·) haligned.b) (congrArg (state.c + ·) haligned.c)
    (congrArg (state.d + ·) haligned.d) (congrArg (state.e + ·) haligned.e)) rfl

end HyLisp.ControlPlane
