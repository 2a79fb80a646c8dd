import HyLisp.Hypervisor.ParseDatagram

/-!
# What the parser reads of the receive buffer

The bytes behind a datagram were left there by earlier ones.  The offsets the
parser walks through are tested, so the walk to the first record never depends
on them; the type, the inner IP header and the first record itself are read
without a test.  The EID is therefore a function of the datagram exactly when
these fields lie inside it.
-/

namespace HyLisp.Hypervisor

/-! ## The walk to the first record -/

section Walk

variable {datagram datagram' : Mem} {len : ℕ}

theorem skipAfiAddressCouple_ge {offset next : ℕ}
    (h : skipAfiAddressCouple datagram offset = some next) :
    offset + 2 ≤ next := by
  unfold skipAfiAddressCouple at h
  dsimp only at h
  split at h
  · rw [← Option.some_inj.mp h]
  split at h
  · rw [← Option.some_inj.mp h]
    omega
  split at h
  · rw [← Option.some_inj.mp h]
    omega
  · cases h

/-- Skipping couples moves forward, and stays inside the datagram. -/
theorem skipCouples_bounds {n offset last : ℕ}
    (h : skipCouples datagram len n offset = some last) :
    offset ≤ last ∧ (n ≠ 0 → last < len) := by
  induction n generalizing offset with
  | zero =>
      rw [skipCouples, Option.some_inj] at h
      exact ⟨h.le, fun hne => absurd rfl hne⟩
  | succ n ih =>
      rw [skipCouples] at h
      split at h
      · cases h
      next next hskip =>
        split at h
        · cases h
        next hlt =>
          have hge := skipAfiAddressCouple_ge hskip
          obtain ⟨hle, hlast⟩ := ih h
          refine ⟨by omega, fun _ => ?_⟩
          cases n with
          | zero =>
              rw [skipCouples, Option.some_inj] at h
              omega
          | succ n => exact hlast (Nat.succ_ne_zero n)

theorem skipAfiAddressCouple_congr (h : Mem.Agree len datagram datagram')
    {offset : ℕ} (hin : offset + 2 ≤ len) :
    skipAfiAddressCouple datagram' offset =
      skipAfiAddressCouple datagram offset := by
  rw [skipAfiAddressCouple, skipAfiAddressCouple, h.be16 hin]

/-- A couple whose AFI is not inside the datagram is never stepped over. -/
theorem skipCouples_of_afi_outside {n offset : ℕ} (hout : len < offset + 2) :
    skipCouples datagram len (n + 1) offset = none := by
  rw [skipCouples]
  split
  · rfl
  next next hskip =>
    have hge := skipAfiAddressCouple_ge hskip
    rw [if_pos (by omega)]

theorem skipCouples_congr (h : Mem.Agree len datagram datagram') (n offset : ℕ) :
    skipCouples datagram' len n offset = skipCouples datagram len n offset := by
  induction n generalizing offset with
  | zero => rfl
  | succ n ih =>
      by_cases hin : offset + 2 ≤ len
      · rw [skipCouples, skipCouples, skipAfiAddressCouple_congr h hin]
        simp only [ih]
      · rw [skipCouples_of_afi_outside (by omega),
          skipCouples_of_afi_outside (by omega)]

theorem firstRecord_bounds {offset : ℕ}
    (h : firstRecord datagram len = some offset) : 12 ≤ offset ∧ offset < len := by
  rw [firstRecord, Option.bind_eq_some_iff] at h
  obtain ⟨source, hsource, hrlocs⟩ := h
  have hge := (skipCouples_bounds hsource).1
  obtain ⟨hle, hlt⟩ := skipCouples_bounds hrlocs
  exact ⟨by omega, hlt (Nat.succ_ne_zero _)⟩

/-- Where the first record starts does not depend on the rest of the buffer. -/
theorem firstRecord_congr (h : Mem.Agree len datagram datagram') :
    firstRecord datagram' len = firstRecord datagram len := by
  rw [firstRecord, firstRecord, skipCouples_congr h]
  cases hsource : skipCouples datagram len 1 12 with
  | none => rw [Option.bind_none, Option.bind_none]
  | some source =>
      obtain ⟨hle, hlt⟩ := skipCouples_bounds hsource
      have hcount : rlocCount datagram' = rlocCount datagram := by
        rw [rlocCount, rlocCount, h 2 (by have := hlt one_ne_zero; omega)]
      rw [Option.bind_some, Option.bind_some, hcount, skipCouples_congr h]

end Walk

/-! ## The first record -/

section Record

variable {afiPtr : Mem} {prefixLength : UInt8}

theorem processAfiAddressCouple_inet (h : afiPtr.be16 0 = 1) :
    processAfiAddressCouple afiPtr prefixLength =
      ⟨v4Mapped (afiPtr.bytes 2 4), prefixLength + 96, .prfxAsis⟩ := by
  rw [processAfiAddressCouple, h]
  rfl

theorem processAfiAddressCouple_inet6 (h : afiPtr.be16 0 = 2) :
    processAfiAddressCouple afiPtr prefixLength =
      ⟨afiPtr.bytes 2 16, prefixLength, .prfxAsis⟩ := by
  rw [processAfiAddressCouple, h]
  rfl

theorem processAfiAddressCouple_empty (h : afiPtr.be16 0 = 0) :
    processAfiAddressCouple afiPtr prefixLength =
      getUndefinedEid .uprfxEmptyAfi := by
  rw [processAfiAddressCouple, h]
  rfl

theorem processAfiAddressCouple_unknown (h : 2 < afiPtr.be16 0) :
    processAfiAddressCouple afiPtr prefixLength =
      getUndefinedEid .uprfxUnknIp := by
  unfold processAfiAddressCouple
  dsimp only
  rw [if_neg (by omega), if_neg (by omega), if_neg (by omega)]

theorem extractEidMaprequest_of_firstRecord {datagram : Mem} {len offset : ℕ}
    (h : firstRecord datagram len = some offset) :
    extractEidMaprequest datagram len =
      processAfiAddressCouple (datagram.advance (offset + 2))
        (datagram (offset + 1)) := by
  rw [extractEidMaprequest, h]

end Record

/-- What is read of the first record lies inside the datagram: its mask and AFI
and, where the AFI is that of an address, the address.  A high byte other than
zero already tells an AFI that is unknown. -/
def RecordInside (datagram : Mem) (len offset : ℕ) : Prop :=
  offset + 4 ≤ len ∧
      (datagram.be16 (offset + 2) = 1 → offset + 8 ≤ len) ∧
      (datagram.be16 (offset + 2) = 2 → offset + 20 ≤ len) ∨
    offset + 3 = len ∧ datagram (offset + 2) ≠ 0

/-- All fields the parser reads lie inside the datagram. -/
inductive StaysInside : Mem → ℕ → Prop
  | mapRequest {datagram : Mem} {len : ℕ} (hlen : 0 < len)
      (htype : packetType datagram = 1)
      (hrecord : ∀ offset, firstRecord datagram len = some offset →
        RecordInside datagram len offset) :
      StaysInside datagram len
  | notStripped {datagram : Mem} {len : ℕ} (hlen : 5 ≤ len)
      (htype : packetType datagram = 8)
      (hinner : ∀ offset, innerOffset datagram = some offset → len ≤ offset) :
      StaysInside datagram len
  | encapsulated {datagram : Mem} {len offset : ℕ}
      (htype : packetType datagram = 8)
      (hinner : innerOffset datagram = some offset) (hlen : offset < len)
      (hinside : StaysInside (datagram.advance offset) (len - offset)) :
      StaysInside datagram len
  | other {datagram : Mem} {len : ℕ} (hlen : 0 < len)
      (htype : packetType datagram ≠ 1 ∧ packetType datagram ≠ 8) :
      StaysInside datagram len

/-! ## Fields inside the datagram decide the EID -/

section Inside

variable {datagram datagram' : Mem} {len : ℕ}

theorem packetType_congr (h : Mem.Agree len datagram datagram') (hlen : 0 < len) :
    packetType datagram' = packetType datagram := by
  rw [packetType, packetType, h 0 hlen]

theorem innerOffset_congr (h : Mem.Agree len datagram datagram') (hlen : 5 ≤ len) :
    innerOffset datagram' = innerOffset datagram := by
  rw [innerOffset, innerOffset, h 4 hlen]

theorem lt_be16_of_ne_zero {m : Mem} {k : ℕ} (h : m k ≠ 0) : 2 < m.be16 k := by
  have hpos : (m k).toNat ≠ 0 := fun h0 => h (UInt8.toNat_inj.mp h0)
  rw [Mem.be16]
  omega

theorem processAfiAddressCouple_congr (h : Mem.Agree len datagram datagram')
    {offset : ℕ} (hin : RecordInside datagram len offset) :
    processAfiAddressCouple (datagram'.advance (offset + 2))
        (datagram' (offset + 1)) =
      processAfiAddressCouple (datagram.advance (offset + 2))
        (datagram (offset + 1)) := by
  rcases hin with ⟨hafi, hinet, hinet6⟩ | ⟨hlast, hhigh⟩
  · have hmask : datagram' (offset + 1) = datagram (offset + 1) :=
      (h _ (by omega)).symm
    have heq : (datagram'.advance (offset + 2)).be16 0 =
        (datagram.advance (offset + 2)).be16 0 :=
      ((h.advance (offset + 2)).be16 (by omega)).symm
    rw [hmask]
    rcases lt_or_ge 2 ((datagram.advance (offset + 2)).be16 0) with hgt | hle
    · rw [processAfiAddressCouple_unknown hgt,
        processAfiAddressCouple_unknown (by rwa [heq])]
    · obtain hafi | hafi | hafi :
          (datagram.advance (offset + 2)).be16 0 = 0 ∨
            (datagram.advance (offset + 2)).be16 0 = 1 ∨
            (datagram.advance (offset + 2)).be16 0 = 2 := by omega
      · rw [processAfiAddressCouple_empty hafi,
          processAfiAddressCouple_empty (heq.trans hafi)]
      · have hroom := hinet hafi
        rw [processAfiAddressCouple_inet hafi,
          processAfiAddressCouple_inet (heq.trans hafi),
          (h.advance (offset + 2)).bytes (by omega)]
      · have hroom := hinet6 hafi
        rw [processAfiAddressCouple_inet6 hafi,
          processAfiAddressCouple_inet6 (heq.trans hafi),
          (h.advance (offset + 2)).bytes (by omega)]
  · -- half of the AFI is inside, and it is enough
    have hhigh' : datagram' (offset + 2) ≠ 0 := by
      rwa [← h (offset + 2) (by omega)]
    rw [processAfiAddressCouple_unknown (lt_be16_of_ne_zero hhigh'),
      processAfiAddressCouple_unknown (lt_be16_of_ne_zero hhigh)]

theorem extractEidMaprequest_congr (h : Mem.Agree len datagram datagram')
    (hin : ∀ offset, firstRecord datagram len = some offset →
      RecordInside datagram len offset) :
    extractEidMaprequest datagram' len = extractEidMaprequest datagram len := by
  rw [extractEidMaprequest, extractEidMaprequest, firstRecord_congr h]
  cases hfirst : firstRecord datagram len with
  | none => rfl
  | some offset => exact processAfiAddressCouple_congr h (hin offset hfirst)

theorem extractEidCp_notStripped (htype : packetType datagram = 8)
    (hinner : ∀ offset, innerOffset datagram = some offset → len ≤ offset) :
    extractEidCp datagram len =
      getUndefinedEid
        (if innerOffset datagram = none then .uprfxUnknIp else .uprfxMalformed) := by
  rw [extractEidCp_encapsulated htype]
  cases hoffset : innerOffset datagram with
  | none => rfl
  | some offset =>
      dsimp only
      rw [if_pos (hinner offset hoffset)]
      rfl

theorem extractEidCp_stripped {offset : ℕ} (htype : packetType datagram = 8)
    (hinner : innerOffset datagram = some offset) (hlen : offset < len) :
    extractEidCp datagram len =
      extractEidCp (datagram.advance offset) (len - offset) := by
  rw [extractEidCp_encapsulated htype, hinner]
  dsimp only
  rw [if_neg (by omega)]

/-- The EID of a datagram whose fields lie inside it is the same in every
receive buffer. -/
theorem extractEidCp_congr (hin : StaysInside datagram len)
    (h : Mem.Agree len datagram datagram') :
    extractEidCp datagram' len = extractEidCp datagram len := by
  induction hin generalizing datagram' with
  | mapRequest hlen htype hrecord =>
      rw [extractEidCp_mapRequest htype,
        extractEidCp_mapRequest ((packetType_congr h hlen).trans htype),
        extractEidMaprequest_congr h hrecord]
  | notStripped hlen htype hinner =>
      have heq := innerOffset_congr h hlen
      rw [extractEidCp_notStripped htype hinner,
        extractEidCp_notStripped
          ((packetType_congr h (by omega)).trans htype) (heq ▸ hinner), heq]
  | encapsulated htype hinner hlen _ ih =>
      have hge := innerOffset_ge hinner
      rw [extractEidCp_stripped htype hinner hlen,
        extractEidCp_stripped ((packetType_congr h (by omega)).trans htype)
          ((innerOffset_congr h (by omega)).trans hinner) hlen]
      exact ih (h.advance _)
  | @other datagram _ hlen htype =>
      have heq := packetType_congr h hlen
      by_cases h2 : packetType datagram = 2
      · rw [extractEidCp_mapReply h2, extractEidCp_mapReply (heq.trans h2)]
      by_cases h4 : packetType datagram = 4
      · rw [extractEidCp_mapNotify h4, extractEidCp_mapNotify (heq.trans h4)]
      rw [extractEidCp_other htype.1 h2 h4 htype.2,
        extractEidCp_other (heq ▸ htype.1) (heq ▸ h2) (heq ▸ h4)
          (heq ▸ htype.2)]

end Inside

/-! ## A field outside the datagram can change the EID -/

/-- The EID is a function of the first `len` bytes of the buffer. -/
def Independent (datagram : Mem) (len : ℕ) : Prop :=
  ∀ datagram', Mem.Agree len datagram datagram' →
    extractEidCp datagram' len = extractEidCp datagram len

/-- A datagram with an AFI below 256 at offset `k`. -/
def withAfi (datagram : Mem) (k : ℕ) (afi : UInt8) : Mem :=
  Function.update (Function.update datagram k 0) (k + 1) afi

theorem be16_withAfi (datagram : Mem) (k : ℕ) (afi : UInt8) :
    (withAfi datagram k afi).be16 k = afi.toNat := by
  rw [Mem.be16, withAfi, Function.update_self, Function.update_of_ne (by omega),
    Function.update_self, UInt8.toNat_zero, Nat.zero_mul, Nat.zero_add]

namespace Independent

variable {datagram : Mem} {len : ℕ}

theorem eq_of_agree (h : Independent datagram len) {a b : Mem}
    (ha : Mem.Agree len datagram a) (hb : Mem.Agree len datagram b) :
    extractEidCp a len = extractEidCp b len :=
  (h a ha).trans (h b hb).symm

/-- Two values of one byte outside the datagram. -/
theorem update (h : Independent datagram len) {k : ℕ} (hk : len ≤ k)
    (x y : UInt8) :
    extractEidCp (Function.update datagram k x) len =
      extractEidCp (Function.update datagram k y) len :=
  h.eq_of_agree (Mem.Agree.update datagram hk x) (Mem.Agree.update datagram hk y)

/-- An empty datagram has the type an earlier one had. -/
theorem pos (h : Independent datagram len) : 0 < len := by
  by_contra hlen
  have heq := h.update (k := 0) (by omega) 0x20 0x40
  rw [extractEidCp_mapReply (by rw [packetType, Function.update_self]; rfl),
    extractEidCp_mapNotify (by rw [packetType, Function.update_self]; rfl)] at heq
  exact absurd (congrArg Ipv6Prefix.reason heq) (by decide)

/-- The version of the inner IP header is read even when it is missing. -/
theorem five_le (h : Independent datagram len) (htype : packetType datagram = 8) :
    5 ≤ len := by
  by_contra hlen
  have htype' : ∀ x, packetType (Function.update datagram 4 x) = 8 := by
    intro x
    rw [packetType, Function.update_of_ne (by decide)]
    exact htype
  have hv4 : innerOffset (Function.update datagram 4 0x40) = some 12 := by
    rw [innerOffset, Function.update_self]
    rfl
  have hv0 : innerOffset (Function.update datagram 4 0x00) = none := by
    rw [innerOffset, Function.update_self]
    rfl
  have heq := h.update (k := 4) (by omega) 0x40 0x00
  rw [extractEidCp_notStripped (htype' _) (by rw [hv4]; intro k hk; cases hk; omega),
    extractEidCp_notStripped (htype' _) (by rw [hv0]; intro k hk; cases hk),
    hv4, hv0] at heq
  exact absurd (congrArg Ipv6Prefix.reason heq) (by decide)

/-- Stripping an encapsulation keeps the independence. -/
theorem stripped (h : Independent datagram len) {offset : ℕ}
    (htype : packetType datagram = 8)
    (hinner : innerOffset datagram = some offset) (hlen : offset < len) :
    Independent (datagram.advance offset) (len - offset) := by
  intro inner hagree
  have hge := innerOffset_ge hinner
  have hsplice : ∀ i < offset, Mem.splice datagram offset inner i = datagram i :=
    fun i hi => Mem.splice_apply_of_lt datagram inner hi
  have htype' : packetType (Mem.splice datagram offset inner) = 8 := by
    rw [packetType, hsplice 0 (by omega)]
    exact htype
  have hinner' : innerOffset (Mem.splice datagram offset inner) = some offset := by
    rw [innerOffset, hsplice 4 (by omega)]
    exact hinner
  have heq := h _ (Mem.Agree.splice hagree)
  rwa [extractEidCp_stripped htype' hinner' hlen, Mem.advance_splice,
    extractEidCp_stripped htype hinner hlen] at heq

/-- The EID of a Map-Request whose record is changed outside the datagram. -/
theorem extractEid_of_agree {m : Mem} {offset : ℕ}
    (htype : packetType datagram = 1) (hlen : 0 < len)
    (hfirst : firstRecord datagram len = some offset)
    (hm : Mem.Agree len datagram m) :
    extractEidCp m len =
      processAfiAddressCouple (m.advance (offset + 2)) (m (offset + 1)) := by
  rw [extractEidCp_mapRequest ((packetType_congr hm hlen).trans htype),
    extractEidMaprequest_of_firstRecord ((firstRecord_congr hm).trans hfirst)]

/-- An address of which a byte is missing. -/
theorem address_inside (h : Independent datagram len) {offset room : ℕ}
    (htype : packetType datagram = 1)
    (hfirst : firstRecord datagram len = some offset)
    (hafi : datagram.be16 (offset + 2) = 1 ∧ room = 8 ∨
      datagram.be16 (offset + 2) = 2 ∧ room = 20) : offset + room ≤ len := by
  by_contra hroom
  have hmask : ∀ x, Function.update datagram (offset + room - 1) x (offset + 1) =
      datagram (offset + 1) := by
    intro x
    rw [Function.update_of_ne (by omega)]
  have hafi' : ∀ x, Mem.be16 (Mem.advance
      (Function.update datagram (offset + room - 1) x) (offset + 2)) 0 =
      datagram.be16 (offset + 2) := by
    intro x
    rw [Mem.be16_advance, Nat.add_zero, Mem.be16, Mem.be16,
      Function.update_of_ne (by omega), Function.update_of_ne (by omega)]
  have hbyte : ∀ x i, offset + 2 + i = offset + room - 1 →
      Mem.advance (Function.update datagram (offset + room - 1) x)
        (offset + 2) i = x := by
    intro x i hi
    rw [Mem.advance_apply, hi, Function.update_self]
  have heq := h.update (k := offset + room - 1) (by omega) 0 1
  have hagree := fun x => Mem.Agree.update datagram
    (show len ≤ offset + room - 1 by omega) x
  rw [extractEid_of_agree htype h.pos hfirst (hagree 0),
    extractEid_of_agree htype h.pos hfirst (hagree 1), hmask, hmask] at heq
  rcases hafi with ⟨hafi, rfl⟩ | ⟨hafi, rfl⟩
  · rw [processAfiAddressCouple_inet ((hafi' 0).trans hafi),
      processAfiAddressCouple_inet ((hafi' 1).trans hafi)] at heq
    have hbytes := v4Mapped_injective (congrArg Ipv6Prefix.addr heq)
    have hlast := Mem.eq_of_bytes_eq hbytes (show 3 < 4 by omega)
    rw [hbyte 0 (2 + 3) (by omega), hbyte 1 (2 + 3) (by omega)] at hlast
    exact absurd hlast (by decide)
  · rw [processAfiAddressCouple_inet6 ((hafi' 0).trans hafi),
      processAfiAddressCouple_inet6 ((hafi' 1).trans hafi)] at heq
    have hlast := Mem.eq_of_bytes_eq (congrArg Ipv6Prefix.addr heq)
      (show 15 < 16 by omega)
    rw [hbyte 0 (2 + 15) (by omega), hbyte 1 (2 + 15) (by omega)] at hlast
    exact absurd hlast (by decide)

/-- An AFI of which the byte that decides is missing. -/
theorem afi_inside (h : Independent datagram len) {offset : ℕ}
    (htype : packetType datagram = 1)
    (hfirst : firstRecord datagram len = some offset) :
    offset + 4 ≤ len ∨ offset + 3 = len ∧ datagram (offset + 2) ≠ 0 := by
  by_contra hout
  have hagree : ∀ x, Mem.Agree len datagram (withAfi datagram (offset + 2) x) := by
    intro x i hi
    rw [withAfi, Function.update_of_ne (by omega)]
    by_cases hhigh : i = offset + 2
    · subst hhigh
      rw [Function.update_self]
      by_contra hne
      exact hout (Or.inr ⟨by omega, hne⟩)
    · rw [Function.update_of_ne hhigh]
  have hafi : ∀ x, ((withAfi datagram (offset + 2) x).advance
      (offset + 2)).be16 0 = x.toNat :=
    fun x => be16_withAfi datagram (offset + 2) x
  have heq := h.eq_of_agree (hagree 0) (hagree 3)
  rw [extractEid_of_agree htype h.pos hfirst (hagree 0),
    extractEid_of_agree htype h.pos hfirst (hagree 3),
    processAfiAddressCouple_empty (hafi 0),
    processAfiAddressCouple_unknown (by rw [hafi 3]; decide)] at heq
  exact absurd (congrArg Ipv6Prefix.reason heq) (by decide)

theorem recordInside (h : Independent datagram len) {offset : ℕ}
    (htype : packetType datagram = 1)
    (hfirst : firstRecord datagram len = some offset) :
    RecordInside datagram len offset := by
  rcases h.afi_inside htype hfirst with hafi | hafi
  · exact Or.inl ⟨hafi,
      fun hinet => h.address_inside htype hfirst (Or.inl ⟨hinet, rfl⟩),
      fun hinet6 => h.address_inside htype hfirst (Or.inr ⟨hinet6, rfl⟩)⟩
  · exact Or.inr hafi

/-- Only a datagram that holds all its fields has an EID of its own. -/
theorem staysInside (h : Independent datagram len) : StaysInside datagram len := by
  induction len using Nat.strong_induction_on generalizing datagram with
  | _ len ih =>
      by_cases h1 : packetType datagram = 1
      · exact .mapRequest h.pos h1 fun offset hfirst => h.recordInside h1 hfirst
      by_cases h8 : packetType datagram = 8
      · by_cases hinner : ∃ offset, innerOffset datagram = some offset ∧
            offset < len
        · obtain ⟨offset, hinner, hlen⟩ := hinner
          have hge := innerOffset_ge hinner
          exact .encapsulated h8 hinner hlen
            (ih (len - offset) (by omega) (h.stripped h8 hinner hlen))
        · refine .notStripped (h.five_le h8) h8 fun offset hoffset => ?_
          by_contra hlt
          exact hinner ⟨offset, hoffset, by omega⟩
      · exact .other h.pos ⟨h1, h8⟩

end Independent

/-- The EID extracted from a datagram is independent of what earlier datagrams
left in the receive buffer exactly when every field the parser reads lies inside
the datagram. -/
theorem extractEidCp_independent_iff (datagram : Mem) (len : ℕ) :
    (∀ datagram', Mem.Agree len datagram datagram' →
      extractEidCp datagram' len = extractEidCp datagram len) ↔
      StaysInside datagram len :=
  ⟨Independent.staysInside, fun hin _ h => extractEidCp_congr hin h⟩

/-- Seventeen bytes of a Map-Request with an empty source EID and one empty
ITR-RLOC: the datagram ends before the mask of its record. -/
def truncatedMapRequest (afi : UInt8) : Mem :=
  fun i => if i = 0 then 0x10 else if i = 19 then afi else 0

/-- The EID of a truncated Map-Request is made of bytes behind it. -/
theorem extractEidCp_not_independent :
    ¬ ∀ (datagram datagram' : Mem) (len : ℕ), Mem.Agree len datagram datagram' →
      extractEidCp datagram' len = extractEidCp datagram len := by
  intro h
  have hagree : Mem.Agree 17 (truncatedMapRequest 0) (truncatedMapRequest 1) := by
    unfold Mem.Agree
    decide
  have heq := h _ _ 17 hagree
  rw [extractEidCp_mapRequest (by decide), extractEidCp_mapRequest (by decide)] at heq
  exact absurd heq (by decide)

end HyLisp.Hypervisor
