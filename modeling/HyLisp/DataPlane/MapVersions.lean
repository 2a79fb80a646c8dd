import HyLisp.DataPlane.LocatorChain
import HyLisp.DataPlane.MissMessage
import HyLisp.Support.BitField

/-!
# Map versions in the LISP header

An encapsulated packet carries the versions of both mappings, or a nonce, or the status bits
of the source.  The receiver compares them with its own mappings.  A version is kept in
network order in 16 bits, and only twelve of these go into the header: a version with a
nonzero fifth to eighth bit does not come back as it was.  What the receiver then hands to
`map_notifymsg` is of a type for which no message is sent.
-/

namespace HyLisp.DataPlane.MapVersions

open LocatorChain

/-- `MAPF_VERSIONING` -/
def mapfVersioning : UInt32 := 0x002

/-- `MAPF_LOCBITS` -/
def mapfLocbits : UInt32 := 0x004

/-- `RLOCF_RXNONCE` -/
def rlocfRxnonce : UInt16 := 0x08

/-! ## The order of versions -/

/-- `MASKVNUM` -/
def maskvnum (z : ℕ) : ℕ :=
  0x00000FFF &&& z

/-- `NEWERVNUM` -/
def newervnum (x y : ℕ) : Bool :=
  if maskvnum x < 2047 ∧ maskvnum x < maskvnum y ∧ maskvnum y < maskvnum (x + 2047) then true
  else maskvnum x > 2047 ∧ (maskvnum x < maskvnum y ∨ maskvnum y < maskvnum (x + 2047))

theorem maskvnum_eq (z : ℕ) : maskvnum z = z % 4096 := by
  rw [maskvnum, Nat.and_comm]
  exact Nat.and_two_pow_sub_one_eq_mod z 12

/-- How far a version is ahead of another one, around the circle. -/
def ahead (x y : ℕ) : ℕ :=
  (maskvnum y + 4096 - maskvnum x) % 4096

/-- A version is newer when it is less than 2047 ahead.  To version 2048 all versions are
newer, and to version 2047 none is. -/
theorem newervnum_iff (x y : ℕ) :
    newervnum x y = true ↔
      maskvnum x = 2048 ∨ (maskvnum x ≠ 2047 ∧ 0 < ahead x y ∧ ahead x y < 2047) := by
  have hx : x % 4096 < 4096 := Nat.mod_lt _ (by decide)
  have hy : y % 4096 < 4096 := Nat.mod_lt _ (by decide)
  rw [newervnum, ahead]
  simp only [maskvnum_eq]
  by_cases hlow : x % 4096 < 2047
  · have hsum : (x + 2047) % 4096 = x % 4096 + 2047 := by omega
    rw [hsum]
    by_cases hbetween : x % 4096 < y % 4096 ∧ y % 4096 < x % 4096 + 2047
    · rw [if_pos ⟨hlow, hbetween⟩]
      exact iff_of_true rfl (Or.inr (by omega))
    · rw [if_neg fun h => hbetween h.2, decide_eq_true_eq]
      exact iff_of_false (by omega) (by omega)
  · rw [if_neg fun h => hlow h.1, decide_eq_true_eq]
    omega

/-! ## The header -/

/-- `lispshimhdr`: the flags with the nonce or the versions, and the status bits. -/
structure LispShimHdr where
  fnv : BitVec 32
  ils : UInt32
  deriving DecidableEq, Repr

namespace LispShimHdr

variable (h : LispShimHdr)

/-- `Vbit` -/
def vbit : Bool := BitField.get h.fnv 4 1 = 1

/-- `Lbit` -/
def lbit : Bool := BitField.get h.fnv 6 1 = 1

/-- `Nbit` -/
def nbit : Bool := BitField.get h.fnv 7 1 = 1

/-- `Nonce` -/
def nonce : UInt32 := .ofNat (BitField.get h.fnv 8 24).toNat

/-- `Svnum` -/
def svnum : UInt16 := .ofNat (BitField.get h.fnv 8 12).toNat

/-- `Dvnum` -/
def dvnum : UInt16 := .ofNat (BitField.get h.fnv 20 12).toNat

end LispShimHdr

/-- What is read of a `mapentry`. -/
structure Mapping where
  mapFlags : UInt32
  vnum : UInt16
  rlocsStatusbits : UInt32
  deriving DecidableEq, Repr

/-- The mapping uses versions. -/
def Mapping.versioning (m : Mapping) : Bool :=
  m.mapFlags &&& mapfVersioning ≠ 0

/-- The nonce of the locator in a header, and its flag. -/
def storeNonce (fnv : BitVec 32) (drloc : RlocMtx) : BitVec 32 :=
  BitField.set (BitField.set fnv 7 (1 : BitVec 1)) 8 (BitVec.ofNat 24 drloc.txNonce.toNat)

/-- The versions of two mappings in a header, and their flag. -/
def storeVersions (fnv : BitVec 32) (remotemap localmap : Mapping) : BitVec 32 :=
  BitField.set
    (BitField.set (BitField.set fnv 4 (1 : BitVec 1)) 20
      (BitVec.ofNat 12 remotemap.vnum.toNat)) 8 (BitVec.ofNat 12 localmap.vnum.toNat)

/-- `m_lisphdrprepend`: the header. -/
def mLisphdrprepend (remotemap localmap : Mapping) (drloc : RlocMtx) : LispShimHdr :=
  let fnv := if drloc.flags &&& rlocfTxnonce ≠ 0 then storeNonce 0 drloc else 0
  if localmap.versioning ∧ remotemap.versioning then
    ⟨storeVersions fnv remotemap localmap, 0⟩
  else if localmap.mapFlags &&& mapfLocbits ≠ 0 then
    ⟨BitField.set fnv 6 (1 : BitVec 1), localmap.rlocsStatusbits⟩
  else ⟨fnv, 0⟩

/-- The reasons of an error. -/
inductive Why
  | zero
  | srcvnuminval
  | dstvnuminval
  deriving DecidableEq, Repr

/-- The types handed to `map_notifymsg`. -/
inductive MsgType
  | lsbits
  | localstale
  | remotestale
  deriving DecidableEq, Repr

/-- `MAPM_LSBITS`, `MAPM_LOCALSTALE` and `MAPM_REMOTESTALE` -/
def MsgType.toUInt16 : MsgType → UInt16
  | .lsbits => 0x09
  | .localstale => 0x0A
  | .remotestale => 0x0B

/-- What `check_lisphdr` returns and stores: whether `err` is `EINVAL`, `why`, the type handed
to `map_notifymsg`, and the metrics of the locator. -/
structure Checked where
  err : Bool
  why : Why
  msgtype : Option MsgType
  drloc : RlocMtx
  deriving DecidableEq, Repr

/-- The arm of `check_lisphdr` for a header with a nonce. -/
def checkNonce (lisphdr : LispShimHdr) (remotemap : Option Mapping) (drloc : RlocMtx) :
    Checked :=
  match remotemap with
  | some _ =>
      ⟨false, .zero, none,
        { drloc with flags := drloc.flags ||| rlocfRxnonce, rxNonce := lisphdr.nonce }⟩
  | none => ⟨false, .zero, none, drloc⟩

/-- The version `Dvnum` differs from that of the local mapping. -/
def destinationDiffers (lisphdr : LispShimHdr) (localmap : Mapping) : Prop :=
  maskvnum (Mem.htons lisphdr.dvnum).toNat ≠ 0 ∧ localmap.versioning ∧
    lisphdr.dvnum ≠ localmap.vnum

instance (lisphdr : LispShimHdr) (localmap : Mapping) :
    Decidable (destinationDiffers lisphdr localmap) :=
  inferInstanceAs (Decidable (_ ∧ _))

/-- The version `Svnum` differs from that of the remote mapping. -/
def sourceDiffers (lisphdr : LispShimHdr) (remotemap : Mapping) : Prop :=
  remotemap.versioning ∧ maskvnum (Mem.htons lisphdr.svnum).toNat ≠ 0 ∧
    lisphdr.svnum ≠ remotemap.vnum

instance (lisphdr : LispShimHdr) (remotemap : Mapping) :
    Decidable (sourceDiffers lisphdr remotemap) :=
  inferInstanceAs (Decidable (_ ∧ _))

/-- The arm of `check_lisphdr` for a header with versions. -/
def checkVersions (lisphdr : LispShimHdr) (localmap : Mapping) (remotemap : Option Mapping)
    (drloc : RlocMtx) : Checked :=
  if destinationDiffers lisphdr localmap then
    if newervnum (Mem.htons localmap.vnum).toNat (Mem.htons lisphdr.dvnum).toNat then
      ⟨true, .dstvnuminval, none, drloc⟩
    else ⟨false, .zero, some .remotestale, drloc⟩
  else
    match remotemap with
    | some remotemap =>
        if sourceDiffers lisphdr remotemap then
          if newervnum (Mem.htons remotemap.vnum).toNat (Mem.htons lisphdr.svnum).toNat then
            ⟨false, .zero, some .localstale, drloc⟩
          else ⟨true, .srcvnuminval, none, drloc⟩
        else ⟨false, .zero, none, drloc⟩
    | none => ⟨false, .zero, none, drloc⟩

/-- `check_lisphdr`.  The key of the remote mapping goes into a message; where there is no such
mapping a null pointer is read, and there is no result. -/
def checkLisphdr (lisphdr : LispShimHdr) (localmap : Mapping) (remotemap : Option Mapping)
    (drloc : RlocMtx) : Option Checked :=
  let checked :=
    if lisphdr.nbit then checkNonce lisphdr remotemap drloc
    else if lisphdr.vbit then checkVersions lisphdr localmap remotemap drloc
    else ⟨false, .zero, none, drloc⟩
  let checked :=
    match checked.msgtype, remotemap with
    | none, some remotemap =>
        if lisphdr.lbit ∧ lisphdr.ils ≠ remotemap.rlocsStatusbits then
          { checked with msgtype := some .lsbits }
        else checked
    | _, _ => checked
  match checked.msgtype, remotemap with
  | some _, none => none
  | _, _ => some checked

/-- The message that the call of `map_notifymsg` at the end of `check_lisphdr` dispatches.
`eid` is the key of the remote mapping. -/
def Checked.message (checked : Checked) (notifier : Notifier) (eid : Address) :
    Option MissMessage :=
  checked.msgtype.bind fun msgtype =>
    (mapNotifymsg notifier msgtype.toUInt16 (missAddrinfo eid) none 0
      (if checked.err then einval else 0)).bind Prod.fst

/-- `check_lisphdr` never sends a message. -/
theorem Checked.message_eq_none (checked : Checked) (notifier : Notifier) (eid : Address) :
    checked.message notifier eid = none := by
  unfold message
  cases checked.msgtype with
  | none => rfl
  | some msgtype =>
      have hmiss : msgtype.toUInt16 ≠ mapmMiss := by cases msgtype <;> decide
      have hdelete : msgtype.toUInt16 ≠ mapmDelete := by cases msgtype <;> decide
      rw [Option.bind_some, mapNotifymsg_other notifier _ none 0 _ hmiss hdelete]
      rfl

/-! ## The header of a packet -/

section Header

variable (fnv : BitVec 32) (remotemap localmap : Mapping) (drloc : RlocMtx)

theorem get_storeNonce :
    BitField.get (storeNonce fnv drloc) 7 1 = 1 ∧
      BitField.get (storeNonce fnv drloc) 4 1 = BitField.get fnv 4 1 ∧
      BitField.get (storeNonce fnv drloc) 6 1 = BitField.get fnv 6 1 ∧
      BitField.get (storeNonce fnv drloc) 8 24 = BitVec.ofNat 24 drloc.txNonce.toNat := by
  simp (disch := decide) only [storeNonce, BitField.get_set, BitField.get_set_of_disjoint,
    and_self]

theorem get_storeVersions :
    BitField.get (storeVersions fnv remotemap localmap) 4 1 = 1 ∧
      BitField.get (storeVersions fnv remotemap localmap) 6 1 = BitField.get fnv 6 1 ∧
      BitField.get (storeVersions fnv remotemap localmap) 7 1 = BitField.get fnv 7 1 ∧
      BitField.get (storeVersions fnv remotemap localmap) 8 12 =
        BitVec.ofNat 12 localmap.vnum.toNat ∧
      BitField.get (storeVersions fnv remotemap localmap) 20 12 =
        BitVec.ofNat 12 remotemap.vnum.toNat := by
  simp (disch := decide) only [storeVersions, BitField.get_set, BitField.get_set_of_disjoint,
    and_self]

/-- The flags of a header before the versions. -/
theorem get_nonceOrZero :
    (BitField.get (if drloc.flags &&& rlocfTxnonce ≠ 0 then storeNonce 0 drloc else 0) 7 1 = 1 ↔
        drloc.flags &&& rlocfTxnonce ≠ 0) ∧
      BitField.get (if drloc.flags &&& rlocfTxnonce ≠ 0 then storeNonce 0 drloc else 0) 4 1 = 0 ∧
      BitField.get (if drloc.flags &&& rlocfTxnonce ≠ 0 then storeNonce 0 drloc else 0) 6 1 =
        0 := by
  by_cases hnonce : drloc.flags &&& rlocfTxnonce ≠ 0
  · obtain ⟨h7, h4, h6, -⟩ := get_storeNonce 0 drloc
    rw [if_pos hnonce, h7, h4, h6, BitField.get_zero, BitField.get_zero]
    exact ⟨iff_of_true rfl hnonce, rfl, rfl⟩
  · rw [if_neg hnonce, BitField.get_zero, BitField.get_zero, BitField.get_zero]
    exact ⟨iff_of_false (by decide) hnonce, rfl, rfl⟩

/-- The flags of the header of a packet. -/
theorem flags_prepend :
    ((mLisphdrprepend remotemap localmap drloc).nbit = true ↔
        drloc.flags &&& rlocfTxnonce ≠ 0) ∧
      ((mLisphdrprepend remotemap localmap drloc).vbit = true ↔
        localmap.versioning = true ∧ remotemap.versioning = true) ∧
      ((mLisphdrprepend remotemap localmap drloc).lbit = true ↔
        ¬(localmap.versioning = true ∧ remotemap.versioning = true) ∧
          localmap.mapFlags &&& mapfLocbits ≠ 0) := by
  obtain ⟨h7, h4, h6⟩ := get_nonceOrZero drloc
  rw [mLisphdrprepend, LispShimHdr.nbit, LispShimHdr.vbit, LispShimHdr.lbit]
  generalize (if drloc.flags &&& rlocfTxnonce ≠ 0 then storeNonce 0 drloc else 0) = fnv
    at h7 h4 h6 ⊢
  by_cases hversions : localmap.versioning = true ∧ remotemap.versioning = true
  · obtain ⟨g4, g6, g7, -, -⟩ := get_storeVersions fnv remotemap localmap
    rw [if_pos hversions, g4, g6, g7, h6, decide_eq_true_eq, h7]
    exact ⟨Iff.rfl, iff_of_true rfl hversions, iff_of_false (by decide) fun h => h.1 hversions⟩
  · rw [if_neg hversions]
    by_cases hbits : localmap.mapFlags &&& mapfLocbits ≠ 0
    · rw [if_pos hbits]
      simp (disch := decide) only [BitField.get_set, BitField.get_set_of_disjoint]
      rw [h4, decide_eq_true_eq, h7]
      exact ⟨Iff.rfl, iff_of_false (by decide) hversions,
        iff_of_true rfl ⟨hversions, hbits⟩⟩
    · rw [if_neg hbits, h4, h6, decide_eq_true_eq, h7]
      exact ⟨Iff.rfl, iff_of_false (by decide) hversions,
        iff_of_false (by decide) fun h => hbits h.2⟩

end Header

/-! ## Versions that come back -/

/-- What the twelve bits of the header keep of a version in network order. -/
def throughHeader (vnum : UInt16) : UInt16 :=
  .ofNat (BitVec.ofNat 12 vnum.toNat).toNat

/-- The version, in host order, loses its fifth to eighth bit in the header, and is not the
null version there. -/
def Clipped (version : ℕ) : Prop :=
  version / 16 % 16 ≠ 0 ∧ (version % 16 ≠ 0 ∨ version / 256 % 16 ≠ 0)

instance (version : ℕ) : Decidable (Clipped version) :=
  inferInstanceAs (Decidable (_ ∧ _))

theorem toNat_throughHeader (vnum : UInt16) :
    (throughHeader vnum).toNat = vnum.toNat % 4096 := by
  have hlt : vnum.toNat % 4096 < 4096 := Nat.mod_lt _ (by decide)
  rw [throughHeader, UInt16.toNat_ofNat', BitVec.toNat_ofNat]
  change vnum.toNat % 4096 % 65536 = _
  omega

/-- The four digits of a version in network order, and what they are in host order. -/
theorem exists_digits (vnum : UInt16) : ∃ a < 16, ∃ b < 16, ∃ c < 16, ∃ e < 16,
    vnum.toNat = 4096 * a + 256 * b + 16 * c + e ∧
      (Mem.htons vnum).toNat = 4096 * c + 256 * e + 16 * a + b ∧
      (Mem.htons (throughHeader vnum)).toNat = 4096 * c + 256 * e + b := by
  have hlt : vnum.toNat < 65536 := vnum.toNat_lt
  have hv : vnum.toNat = 4096 * (vnum.toNat / 4096) + 256 * (vnum.toNat / 256 % 16) +
      16 * (vnum.toNat / 16 % 16) + vnum.toNat % 16 := by omega
  have ha : vnum.toNat / 4096 < 16 := by omega
  have hb : vnum.toNat / 256 % 16 < 16 := Nat.mod_lt _ (by decide)
  have hc : vnum.toNat / 16 % 16 < 16 := Nat.mod_lt _ (by decide)
  have he : vnum.toNat % 16 < 16 := Nat.mod_lt _ (by decide)
  refine ⟨_, ha, _, hb, _, hc, _, he, hv, ?_, ?_⟩
  · rw [Mem.toNat_htons]
    generalize vnum.toNat / 4096 = a at *
    generalize vnum.toNat / 256 % 16 = b at *
    generalize vnum.toNat / 16 % 16 = c at *
    generalize vnum.toNat % 16 = e at *
    rw [hv]
    omega
  · rw [Mem.toNat_htons, toNat_throughHeader]
    generalize vnum.toNat / 4096 = a at *
    generalize vnum.toNat / 256 % 16 = b at *
    generalize vnum.toNat / 16 % 16 = c at *
    generalize vnum.toNat % 16 = e at *
    have hkept : (4096 * a + 256 * b + 16 * c + e) % 4096 = 256 * b + 16 * c + e := by omega
    rw [hv, hkept]
    omega

/-- The digits of a version in host order. -/
theorem digits_eq {a b c e : ℕ} (ha : a < 16) (hb : b < 16) (he : e < 16) :
    (4096 * c + 256 * e + 16 * a + b) / 16 % 16 = a ∧
      (4096 * c + 256 * e + 16 * a + b) % 16 = b ∧
      (4096 * c + 256 * e + 16 * a + b) / 256 % 16 = e ∧
      (4096 * c + 256 * e + 16 * a + b) % 4096 = 256 * e + 16 * a + b := by
  refine ⟨?_, ?_, ?_, ?_⟩ <;> omega

theorem differs_iff (vnum : UInt16) :
    maskvnum (Mem.htons (throughHeader vnum)).toNat ≠ 0 ∧ throughHeader vnum ≠ vnum ↔
      Clipped (Mem.htons vnum).toNat := by
  obtain ⟨a, ha, b, hb, c, hc, e, he, hv, hhost, hkept⟩ := exists_digits vnum
  have hne : throughHeader vnum ≠ vnum ↔ a ≠ 0 := by
    rw [Ne, ← UInt16.toNat_inj, toNat_throughHeader, hv]
    omega
  have hmask : (4096 * c + 256 * e + b) % 4096 = 256 * e + b := by omega
  obtain ⟨hclip, hlow, hhigh, -⟩ := digits_eq (c := c) ha hb he
  rw [hne, Clipped, maskvnum_eq, hhost, hkept, hmask, hclip, hlow, hhigh]
  omega

/-- A version that was clipped does not look newer than before. -/
theorem newervnum_clipped {vnum : UInt16} (h : Clipped (Mem.htons vnum).toNat) :
    newervnum (Mem.htons vnum).toNat (Mem.htons (throughHeader vnum)).toNat = false := by
  obtain ⟨a, ha, b, hb, c, hc, e, he, -, hhost, hkept⟩ := exists_digits vnum
  obtain ⟨hclip, -, -, hold⟩ := digits_eq (c := c) ha hb he
  have hlost := h.1
  rw [hhost, hclip] at hlost
  have hnew : (4096 * c + 256 * e + b) % 4096 = 256 * e + b := by omega
  have hahead : (256 * e + b + 4096 - (256 * e + 16 * a + b)) % 4096 = 4096 - 16 * a := by
    omega
  rw [Bool.eq_false_iff, Ne, newervnum_iff, ahead, maskvnum_eq, maskvnum_eq, hhost, hkept, hold,
    hnew, hahead]
  omega

section Check

variable {localmap remotemap localmap' remotemap' : Mapping} {drloc drloc' : RlocMtx}

/-- A packet between two sites that agree on the versions of both mappings is dropped where the
version of its source is clipped and that of its destination is not.  A clipped version of the
destination is taken for an old one; the packet is accepted, and no one is told. -/
theorem check_agreed_versions
    (hnonce : drloc.flags &&& rlocfTxnonce = 0)
    (hlocal : localmap.versioning = true) (hremote : remotemap.versioning = true)
    (hlocal' : localmap'.versioning = true) (hremote' : remotemap'.versioning = true)
    (hsource : remotemap'.vnum = localmap.vnum)
    (hdestination : localmap'.vnum = remotemap.vnum) :
    ∃ checked,
      checkLisphdr (mLisphdrprepend remotemap localmap drloc) localmap' (some remotemap')
        drloc' = some checked ∧
      (checked = if Clipped (Mem.htons remotemap.vnum).toNat then
          ⟨false, .zero, some .remotestale, drloc'⟩
        else if Clipped (Mem.htons localmap.vnum).toNat then ⟨true, .srcvnuminval, none, drloc'⟩
        else ⟨false, .zero, none, drloc'⟩) ∧
      ∀ notifier eid, checked.message notifier eid = none := by
  refine ⟨_, ?_, rfl, fun notifier eid => Checked.message_eq_none _ notifier eid⟩
  obtain ⟨hn, hv, hl⟩ := flags_prepend remotemap localmap drloc
  have hboth : localmap.versioning = true ∧ remotemap.versioning = true := ⟨hlocal, hremote⟩
  have hnbit := mt hn.mp (not_not_intro hnonce)
  have hvbit := hv.mpr hboth
  have hlbit := mt hl.mp fun h => h.1 hboth
  obtain ⟨-, -, -, hsrc, hdst⟩ := get_storeVersions
    (if drloc.flags &&& rlocfTxnonce ≠ 0 then storeNonce 0 drloc else 0) remotemap localmap
  have hdvnum : (mLisphdrprepend remotemap localmap drloc).dvnum =
      throughHeader remotemap.vnum := by
    rw [mLisphdrprepend, if_pos hboth, LispShimHdr.dvnum, hdst]
    rfl
  have hsvnum : (mLisphdrprepend remotemap localmap drloc).svnum =
      throughHeader localmap.vnum := by
    rw [mLisphdrprepend, if_pos hboth, LispShimHdr.svnum, hsrc]
    rfl
  have hd : destinationDiffers (mLisphdrprepend remotemap localmap drloc) localmap' ↔
      Clipped (Mem.htons remotemap.vnum).toNat := by
    rw [destinationDiffers, hdvnum, hdestination, ← differs_iff]
    exact and_congr_right fun _ => and_iff_right hlocal'
  have hs : sourceDiffers (mLisphdrprepend remotemap localmap drloc) remotemap' ↔
      Clipped (Mem.htons localmap.vnum).toNat := by
    rw [sourceDiffers, hsvnum, hsource, ← differs_iff]
    exact and_iff_right hremote'
  unfold checkLisphdr
  rw [if_neg hnbit, if_pos hvbit, checkVersions]
  by_cases hdclip : Clipped (Mem.htons remotemap.vnum).toNat
  · rw [if_pos (hd.mpr hdclip), hdestination, hdvnum, newervnum_clipped hdclip, if_pos hdclip]
    rfl
  · rw [if_neg (mt hd.mp hdclip), if_neg hdclip]
    dsimp only
    by_cases hsclip : Clipped (Mem.htons localmap.vnum).toNat
    · rw [if_pos (hs.mpr hsclip), hsource, hsvnum, newervnum_clipped hsclip, if_pos hsclip]
      simp only [hlbit, Bool.false_eq_true, false_and, if_false]
    · rw [if_neg (mt hs.mp hsclip), if_neg hsclip]
      simp only [hlbit, Bool.false_eq_true, false_and, if_false]

/-- The versions lie where the nonce does. -/
theorem nonce_prepend (remotemap localmap : Mapping) (drloc : RlocMtx)
    (hnonce : drloc.flags &&& rlocfTxnonce ≠ 0) :
    (mLisphdrprepend remotemap localmap drloc).nonce.toNat =
      if localmap.versioning ∧ remotemap.versioning then
        remotemap.vnum.toNat % 4096 * 4096 + localmap.vnum.toNat % 4096
      else drloc.txNonce.toNat % 2 ^ 24 := by
  have hsmall : ∀ x : BitVec 24, (UInt32.ofNat x.toNat).toNat = x.toNat := by
    intro x
    rw [UInt32.toNat_ofNat']
    exact Nat.mod_eq_of_lt (x.isLt.trans (by decide))
  obtain ⟨-, -, -, h24⟩ := get_storeNonce 0 drloc
  rw [mLisphdrprepend, if_pos hnonce, LispShimHdr.nonce]
  by_cases hversions : localmap.versioning = true ∧ remotemap.versioning = true
  · obtain ⟨-, -, -, hsrc, hdst⟩ := get_storeVersions (storeNonce 0 drloc) remotemap localmap
    have hfield := BitField.get_append
      (storeVersions (storeNonce 0 drloc) remotemap localmap) 8 12 12
    rw [hsrc, hdst] at hfield
    have hlow : localmap.vnum.toNat % 2 ^ 12 < 2 ^ 12 := Nat.mod_lt _ (by decide)
    rw [if_pos hversions, if_pos hversions, hsmall, ← hfield, BitVec.toNat_append,
      BitVec.toNat_ofNat, BitVec.toNat_ofNat, Nat.shiftLeft_eq, Nat.mul_comm _ (2 ^ 12),
      ← Nat.two_pow_add_eq_or_of_lt hlow]
    rfl
  · rw [if_neg hversions, if_neg hversions]
    by_cases hbits : localmap.mapFlags &&& mapfLocbits ≠ 0
    · rw [if_pos hbits, BitField.get_set_of_disjoint _ _ (by decide) (by decide), h24, hsmall,
        BitVec.toNat_ofNat]
    · rw [if_neg hbits, h24, hsmall, BitVec.toNat_ofNat]

/-- A nonce arrives as it was sent unless both mappings have versions, which then take its
place. -/
theorem nonce_arrives_iff (hnonce : drloc.flags &&& rlocfTxnonce ≠ 0) :
    ∃ checked,
      checkLisphdr (mLisphdrprepend remotemap localmap drloc) localmap' (some remotemap')
        drloc' = some checked ∧ checked.err = false ∧
      (checked.drloc.rxNonce.toNat = drloc.txNonce.toNat % 2 ^ 24 ↔
        ¬(localmap.versioning = true ∧ remotemap.versioning = true) ∨
          remotemap.vnum.toNat % 4096 * 4096 + localmap.vnum.toNat % 4096 =
            drloc.txNonce.toNat % 2 ^ 24) := by
  have hnbit := (flags_prepend remotemap localmap drloc).1.mpr hnonce
  have hvalue := nonce_prepend remotemap localmap drloc hnonce
  have hiff : (mLisphdrprepend remotemap localmap drloc).nonce.toNat =
        drloc.txNonce.toNat % 2 ^ 24 ↔
      ¬(localmap.versioning = true ∧ remotemap.versioning = true) ∨
        remotemap.vnum.toNat % 4096 * 4096 + localmap.vnum.toNat % 4096 =
          drloc.txNonce.toNat % 2 ^ 24 := by
    rw [hvalue]
    by_cases hversions : localmap.versioning = true ∧ remotemap.versioning = true
    · rw [if_pos hversions]
      exact (or_iff_right (not_not_intro hversions)).symm
    · rw [if_neg hversions]
      exact iff_of_true rfl (Or.inl hversions)
  unfold checkLisphdr
  rw [if_pos hnbit, checkNonce]
  dsimp only
  by_cases hbits : (mLisphdrprepend remotemap localmap drloc).lbit = true ∧
      (mLisphdrprepend remotemap localmap drloc).ils ≠ remotemap'.rlocsStatusbits
  · rw [if_pos hbits]
    refine ⟨_, rfl, rfl, ?_⟩
    exact hiff
  · rw [if_neg hbits]
    refine ⟨_, rfl, rfl, ?_⟩
    exact hiff

/-- Without a remote mapping a null pointer is read exactly when the header has versions and no
nonce, and the version of the destination differs without being newer. -/
theorem checkLisphdr_eq_none_iff (lisphdr : LispShimHdr) (localmap : Mapping)
    (drloc : RlocMtx) :
    checkLisphdr lisphdr localmap none drloc = none ↔
      lisphdr.nbit = false ∧ lisphdr.vbit = true ∧ destinationDiffers lisphdr localmap ∧
        newervnum (Mem.htons localmap.vnum).toNat (Mem.htons lisphdr.dvnum).toNat = false := by
  unfold checkLisphdr
  by_cases hn : lisphdr.nbit = true
  · rw [if_pos hn, checkNonce]
    refine iff_of_false (fun h => by cases h) fun h => ?_
    cases hn.symm.trans h.1
  · rw [if_neg hn]
    have hn' : lisphdr.nbit = false := Bool.eq_false_iff.mpr hn
    by_cases hv : lisphdr.vbit = true
    · rw [if_pos hv, checkVersions]
      by_cases hd : destinationDiffers lisphdr localmap
      · rw [if_pos hd]
        cases hnewer :
            newervnum (Mem.htons localmap.vnum).toNat (Mem.htons lisphdr.dvnum).toNat with
        | true =>
            refine iff_of_false (fun h => by cases h) fun h => ?_
            cases h.2.2.2
        | false => exact iff_of_true rfl ⟨hn', hv, hd, rfl⟩
      · rw [if_neg hd]
        exact iff_of_false (fun h => by cases h) fun h => hd h.2.2.1
    · rw [if_neg hv]
      exact iff_of_false (fun h => by cases h) fun h => hv h.2.1

end Check

/-- The header of a packet with the versions that are given. -/
def versionsHeader (dvnum svnum : UInt16) : LispShimHdr :=
  ⟨storeVersions 0 ⟨0, dvnum, 0⟩ ⟨0, svnum, 0⟩, 0⟩

/-- A version that is behind the given one by about a quarter of the circle, and that the
header keeps. -/
def staleVersion (version : ℕ) : UInt16 :=
  .ofNat ((version + 3000) % 4096 / 256 + 256)

theorem versionsHeader_spec (dvnum svnum : UInt16) :
    (versionsHeader dvnum svnum).nbit = false ∧ (versionsHeader dvnum svnum).vbit = true ∧
      (versionsHeader dvnum svnum).dvnum = throughHeader dvnum := by
  obtain ⟨h4, -, h7, -, h20⟩ := get_storeVersions 0 ⟨0, dvnum, 0⟩ ⟨0, svnum, 0⟩
  rw [BitField.get_zero] at h7
  rw [LispShimHdr.nbit, LispShimHdr.vbit, LispShimHdr.dvnum, versionsHeader, h4, h7, h20]
  exact ⟨rfl, rfl, rfl⟩

/-- The stale version is in the header what it is outside. -/
theorem htons_staleVersion (version : ℕ) :
    (Mem.htons (throughHeader (staleVersion version))).toNat =
      (version + 3000) % 4096 / 256 * 256 + 1 := by
  have hp : (version + 3000) % 4096 / 256 < 16 := by omega
  rw [Mem.toNat_htons, toNat_throughHeader, staleVersion, UInt16.toNat_ofNat']
  generalize (version + 3000) % 4096 / 256 = p at *
  omega

/-- The stale version is neither the given one nor newer. -/
theorem staleVersion_spec {version : ℕ} (hne : maskvnum version ≠ 2048) :
    version ≠ (maskvnum version + 3000) % 4096 / 256 * 256 + 1 ∧
      newervnum version ((maskvnum version + 3000) % 4096 / 256 * 256 + 1) = false := by
  have hlt : version % 4096 < 4096 := Nat.mod_lt _ (by decide)
  have hmask : ((version % 4096 + 3000) % 4096 / 256 * 256 + 1) % 4096 =
      (version % 4096 + 3000) % 4096 / 256 * 256 + 1 := by omega
  rw [maskvnum_eq] at hne ⊢
  constructor
  · intro heq
    rw [← heq] at hmask
    omega
  · rw [Bool.eq_false_iff, Ne, newervnum_iff, ahead, maskvnum_eq, maskvnum_eq, hmask]
    omega

/-- Whoever sends packets from an EID without a mapping in the cache can stop the kernel,
unless the mapping of the destination has no version or the version 2048. -/
theorem exists_fatal_header_iff (localmap : Mapping) (drloc : RlocMtx) :
    (∃ lisphdr, checkLisphdr lisphdr localmap none drloc = none) ↔
      localmap.versioning = true ∧ maskvnum (Mem.htons localmap.vnum).toNat ≠ 2048 := by
  constructor
  · rintro ⟨lisphdr, hnone⟩
    obtain ⟨-, -, hdiffers, hnewer⟩ := (checkLisphdr_eq_none_iff lisphdr localmap drloc).mp hnone
    refine ⟨hdiffers.2.1, fun h2048 => ?_⟩
    rw [Bool.eq_false_iff, Ne, newervnum_iff] at hnewer
    exact hnewer (Or.inl h2048)
  · rintro ⟨hversioning, hne⟩
    obtain ⟨hstale, hnewer⟩ := staleVersion_spec hne
    obtain ⟨hn, hv, hd⟩ :=
      versionsHeader_spec (staleVersion (maskvnum (Mem.htons localmap.vnum).toNat)) 0
    have hhost := htons_staleVersion (maskvnum (Mem.htons localmap.vnum).toNat)
    refine ⟨versionsHeader (staleVersion (maskvnum (Mem.htons localmap.vnum).toNat)) 0, ?_⟩
    rw [checkLisphdr_eq_none_iff, destinationDiffers, hd, hhost]
    refine ⟨hn, hv, ⟨?_, hversioning, fun heq => hstale ?_⟩, hnewer⟩
    · rw [maskvnum_eq]
      omega
    · rw [← hhost, heq]

/-- A mapping with a version in host order. -/
def versioned (version : UInt16) : Mapping :=
  ⟨mapfVersioning, Mem.htons version, 0⟩

/-- The metrics of a locator that is up. -/
def upMetrics (flags : UInt16) (txNonce : UInt32) : RlocMtx :=
  ⟨1, 100, rlocfUp ||| flags, 0, txNonce, 0⟩

theorem check_agreed_versions_sixteen :
    ∃ checked,
      checkLisphdr (mLisphdrprepend (versioned 1) (versioned 17) (upMetrics 0 0)) (versioned 1)
        (some (versioned 17)) (upMetrics 0 0) = some checked ∧
      (checked = if Clipped (Mem.htons (versioned 1).vnum).toNat then
          ⟨false, .zero, some .remotestale, upMetrics 0 0⟩
        else if Clipped (Mem.htons (versioned 17).vnum).toNat then
          ⟨true, .srcvnuminval, none, upMetrics 0 0⟩
        else ⟨false, .zero, none, upMetrics 0 0⟩) ∧
      ∀ notifier eid, checked.message notifier eid = none :=
  check_agreed_versions (by decide) (by decide) (by decide) (by decide) (by decide) rfl rfl

theorem nonce_arrives_iff_seven :
    ∃ checked,
      checkLisphdr (mLisphdrprepend (versioned 1) ⟨0, 0, 0⟩ (upMetrics rlocfTxnonce 7))
        (versioned 1) (some ⟨0, 0, 0⟩) (upMetrics 0 0) = some checked ∧ checked.err = false ∧
      (checked.drloc.rxNonce.toNat = (7 : UInt32).toNat % 2 ^ 24 ↔
        ¬((⟨0, 0, 0⟩ : Mapping).versioning = true ∧ (versioned 1).versioning = true) ∨
          (versioned 1).vnum.toNat % 4096 * 4096 + (⟨0, 0, 0⟩ : Mapping).vnum.toNat % 4096 =
            (7 : UInt32).toNat % 2 ^ 24) :=
  nonce_arrives_iff (by decide)

end HyLisp.DataPlane.MapVersions
