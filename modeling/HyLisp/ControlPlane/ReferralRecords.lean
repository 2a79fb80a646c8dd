import HyLisp.ControlPlane.PacketCustody

/-!
# The records of a Map-Referral

`get_mr_ddt` and `read_mr_ddt` walk over the records of a Map-Referral for a pending
request.  Referrals to a node or a map server move the request on; other records finish
it, or are passed over.  The walk goes on by the length that `_process_referral_record`
has returned last, in a `size_t`; this module says when this is the size of the record.
-/

namespace HyLisp.ControlPlane

open DataPlane

/-! ## Actions -/

/-- `LISP_REFERRAL_NODE_REFERRAL` -/
def lispReferralNodeReferral : UInt8 := 0x0

/-- `LISP_REFERRAL_MS_REFERRAL` -/
def lispReferralMsReferral : UInt8 := 0x1

/-- `LISP_REFERRAL_MS_ACK` -/
def lispReferralMsAck : UInt8 := 0x2

/-- `LISP_REFERRAL_DELEGATION_HOLE` -/
def lispReferralDelegationHole : UInt8 := 0x4

/-- `LISP_REFERRAL_NOT_AUTHORITATIVE` -/
def lispReferralNotAuthoritative : UInt8 := 0x5

/-- `act` -/
def referralAct (rec : Mem) : UInt8 :=
  rec 6 >>> 5

/-- The record is a referral to a node or to a map server. -/
def IsReferral (rec : Mem) : Prop :=
  referralAct rec = lispReferralNodeReferral ∨ referralAct rec = lispReferralMsReferral

instance (rec : Mem) : Decidable (IsReferral rec) :=
  inferInstanceAs (Decidable (_ ∨ _))

/-- The record finishes the request: the map server was reached, there is a hole, or the
answer is not authoritative. -/
def IsFinal (rec : Mem) : Prop :=
  referralAct rec = lispReferralMsAck ∨ referralAct rec = lispReferralDelegationHole ∨
    referralAct rec = lispReferralNotAuthoritative

instance (rec : Mem) : Decidable (IsFinal rec) :=
  inferInstanceAs (Decidable (_ ∨ _))

/-! ## Sizes -/

/-- `_get_referral_record_size`, of a record with an EID of a known family. -/
def getReferralRecordSize (rec : Mem) : ℕ :=
  22 + getAddressSize (rec.advance 22)

/-- The sizes of the locators; there is none for a locator of another family. -/
def referralLocatorsLen : ℕ → Mem → Option ℕ
  | 0, _ => some 0
  | lcount + 1, loc =>
      match readAddress (loc.advance 6) with
      | none => none
      | some _ =>
          let len := 6 + getAddressSize (loc.advance 6)
          (referralLocatorsLen lcount (loc.advance len)).map fun rest => len + rest

/-- An LCAF address that is not of type 2. -/
def HasOtherLcaf (rec : Mem) : Prop :=
  rec.be16 10 = lcafAfi ∧ rec 14 ≠ 2

instance (rec : Mem) : Decidable (HasOtherLcaf rec) :=
  inferInstanceAs (Decidable (_ ∧ _))

/-- The length that `_process_referral_record` returns. -/
def processReferralRecordLen (rec : Mem) : UInt64 :=
  if HasOtherLcaf rec then 0
  else if (readAddress (rec.advance 22)).isNone then -1
  else
    match referralLocatorsLen (rec 4).toNat (rec.advance (getReferralRecordSize rec)) with
    | none => -1
    | some len =>
        if referralAct rec = lispReferralMsAck then 0
        else .ofNat (getReferralRecordSize rec + len)

/-! ## The walk -/

/-- `prefix`, with all bytes of the address. -/
structure EidBuffer where
  family : UInt8
  prefixlen : UInt8
  u : Vector UInt8 16
  deriving DecidableEq, Repr

/-- The bytes that `prefix_match` compares; it does not look at the family.  Only masks
above 128 would reach behind the address. -/
def EidBuffer.raw (pf : EidBuffer) : Prefix :=
  ⟨.inet6 pf.u, pf.prefixlen⟩

/-- `SIN_LEN` -/
def sinLen (family : UInt8) : ℕ :=
  if family = afInet then 4 else 16

/-- The EID of a record is copied to the prefix, over what is there from the record
before it. -/
def EidBuffer.copy (pf : EidBuffer) (family : UInt8) (rec : Mem) : EidBuffer where
  family := family
  prefixlen := rec 5
  u := Vector.ofFn fun i => if i < sinLen family then rec (24 + i) else pf.u[i]

/-- `eid_pending`, with `last_eid`. -/
structure DdtLookup extends EidPending where
  lastEid : Option EidBuffer

/-- `last_eid` moves on to a longer prefix, and the locators of the referral are added to
those of the request. -/
def DdtLookup.moveOn (l : DdtLookup) (pf : EidBuffer) (info : List RegisterEntry) :
    DdtLookup :=
  if l.lastEid.all fun last => decide (pf.prefixlen > last.prefixlen) then
    { l with lastEid := some pf, rlocs := l.rlocs ++ info }
  else l

/-- What the walk keeps from record to record: the pointer, the length returned last,
the prefix, the request and the database. -/
structure RecordWalk where
  cursor : UInt64
  rlen : UInt64
  pf : EidBuffer
  lookup : DdtLookup
  db : MapServer

/-- What comes after a record: the next one; the end of the request; or the end of the
message. -/
inductive RecordEnd
  | next (w : RecordWalk)
  | finished (w : RecordWalk)
  | unread (w : RecordWalk)

/-- The locators that `_process_referral_record` leaves at the node, if there is one. -/
def referralInfo (rec : Mem) : List RegisterEntry :=
  ((processReferralRecord rec).map fun entered => entered.2.2).getD []

section Walk

/- The loops differ in the family that they store for a record; without one, the loop
returns. -/
variable (family : Mem → Option UInt8) (mem : Mem)

/-- The turn of the loop for one record. -/
def recordTurn (w : RecordWalk) : RecordEnd :=
  let record := mem.advance w.cursor.toNat
  match family record with
  | none => .unread w
  | some fam =>
      let pf := w.pf.copy fam record
      if referralAct record = lispReferralMsAck then
        .finished { w with pf := pf, db := w.db.refer record }
      else if IsReferral record then
        let rlen := processReferralRecordLen record
        let db := w.db.refer record
        if w.lookup.lastEid.any fun last => !prefixMatch last.raw pf.raw then
          .finished { w with rlen := rlen, pf := pf, db := db }
        else
          .next
            { cursor := w.cursor + rlen
              rlen := rlen
              pf := pf
              lookup := w.lookup.moveOn pf (referralInfo record)
              db := db }
      else if IsFinal record then .finished { w with pf := pf }
      else .next { w with cursor := w.cursor + w.rlen, pf := pf }

/-- The loop over the records. -/
def recordWalk : ℕ → RecordWalk → RecordEnd
  | 0, w => .next w
  | rcount + 1, w =>
      match recordTurn family mem w with
      | .next w' => recordWalk rcount w'
      | finish => finish

end Walk

/-- The family that `get_mr_ddt` stores. -/
def getFamily (rec : Mem) : Option UInt8 :=
  let afi := getAddressType (rec.advance 22)
  if afi = lispAfiIp then some afInet
  else if afi = lispAfiIpv6 then some afInet6
  else none

/-- The family that `read_mr_ddt` stores: the AFI in network byte order, cut to a
byte. -/
def readFamily (rec : Mem) : Option UInt8 :=
  some (rec 22)

/-- The two loops over records. -/
inductive ReferralReader
  | getMrDdt
  | readMrDdt
  deriving DecidableEq, Repr

/-- The family that the loop stores. -/
def ReferralReader.family : ReferralReader → Mem → Option UInt8
  | .getMrDdt => getFamily
  | .readMrDdt => readFamily

/-- The walk at the first record of a message at `buf`. -/
def RecordWalk.start (buf : UInt64) (lookup : DdtLookup) (db : MapServer) : RecordWalk where
  cursor := buf + 12
  rlen := 0
  pf := ⟨0, 0, Vector.replicate 16 0⟩
  lookup := lookup
  db := db

/-- `record_count` of a message at `buf`. -/
def recordCount (mem : Mem) (buf : UInt64) : ℕ :=
  (mem (buf.toNat + 3)).toNat

/-- The records of a message, in `get_mr_ddt`, which returns if there are none. -/
def getMrDdtRecords (mem : Mem) (buf : UInt64) (lookup : DdtLookup) (db : MapServer) :
    RecordEnd :=
  if recordCount mem buf = 0 then .unread (.start buf lookup db)
  else recordWalk getFamily mem (recordCount mem buf) (.start buf lookup db)

/-! ## What a record can do -/

section Turn

variable {family : Mem → Option UInt8} {mem : Mem} {w w' : RecordWalk}

theorem not_msAck_of_isReferral {rec : Mem} (h : IsReferral rec) :
    referralAct rec ≠ lispReferralMsAck := by
  rcases h with h | h
  · rw [h]
    decide
  · rw [h]
    decide

/-- A record that is followed by the next one is a referral inside the last prefix, or it
neither refers to anything nor finishes the request. -/
theorem recordTurn_next (h : recordTurn family mem w = .next w') :
    let record := mem.advance w.cursor.toNat
    ∃ fam, family record = some fam ∧
      ((IsReferral record ∧
          (∀ last, w.lookup.lastEid = some last →
            prefixMatch last.raw (w.pf.copy fam record).raw = true) ∧
          w' =
            { cursor := w.cursor + processReferralRecordLen record
              rlen := processReferralRecordLen record
              pf := w.pf.copy fam record
              lookup := w.lookup.moveOn (w.pf.copy fam record) (referralInfo record)
              db := w.db.refer record }) ∨
        (¬ IsReferral record ∧
          w' = { w with cursor := w.cursor + w.rlen, pf := w.pf.copy fam record })) := by
  intro record
  rw [recordTurn] at h
  cases hfam : family (mem.advance w.cursor.toNat) with
  | none =>
      rw [hfam] at h
      cases h
  | some fam =>
      rw [hfam] at h
      dsimp only at h
      refine ⟨fam, rfl, ?_⟩
      split at h
      · cases h
      · split at h
        next hreferral =>
          split at h
          · cases h
          next hmatch =>
            refine Or.inl ⟨hreferral, ?_, (RecordEnd.next.inj h).symm⟩
            intro last hlast
            rw [hlast, Option.any_some, Bool.not_eq_true', Bool.not_eq_false] at hmatch
            exact hmatch
        next hreferral =>
          split at h
          · cases h
          · exact Or.inr ⟨hreferral, (RecordEnd.next.inj h).symm⟩

/-- A referral inside the last prefix is followed by the next record, and another one
finishes the request. -/
theorem recordTurn_of_isReferral {fam : UInt8}
    (hfam : family (mem.advance w.cursor.toNat) = some fam)
    (hreferral : IsReferral (mem.advance w.cursor.toNat)) :
    let record := mem.advance w.cursor.toNat
    (∃ w', recordTurn family mem w = .next w' ∧
        ∀ last, w.lookup.lastEid = some last →
          prefixMatch last.raw (w.pf.copy fam record).raw = true) ∨
      ∃ w', recordTurn family mem w = .finished w' ∧
        ∃ last, w.lookup.lastEid = some last ∧
          prefixMatch last.raw (w.pf.copy fam record).raw = false := by
  intro record
  rw [recordTurn, hfam]
  dsimp only
  rw [if_neg (not_msAck_of_isReferral hreferral), if_pos hreferral]
  cases hlast : w.lookup.lastEid with
  | none =>
      rw [Option.any_none, if_neg Bool.false_ne_true]
      exact Or.inl ⟨_, rfl, fun last hnone => by cases hnone⟩
  | some last =>
      rw [Option.any_some]
      cases hmatch : prefixMatch last.raw (w.pf.copy fam record).raw with
      | false =>
          exact Or.inr ⟨_, if_pos rfl, last, rfl, hmatch⟩
      | true =>
          refine Or.inl ⟨_, if_neg Bool.false_ne_true, fun last' hlast' => ?_⟩
          obtain rfl := Option.some_inj.mp hlast'
          exact hmatch

/-- Another record that does not finish the request is passed by the length of before. -/
theorem recordTurn_of_passed (family : Mem → Option UInt8) (mem : Mem) (w : RecordWalk)
    {fam : UInt8}
    (hfam : family (mem.advance w.cursor.toNat) = some fam)
    (hreferral : ¬ IsReferral (mem.advance w.cursor.toNat))
    (hfinal : ¬ IsFinal (mem.advance w.cursor.toNat)) :
    recordTurn family mem w = .next
      { w with
        cursor := w.cursor + w.rlen
        pf := w.pf.copy fam (mem.advance w.cursor.toNat) } := by
  rw [recordTurn, hfam]
  dsimp only
  rw [if_neg fun hack => hfinal (Or.inl hack), if_neg hreferral, if_neg hfinal]

end Turn

/-! ## Pending requests -/

/-- The request as a record leaves it. -/
def RecordEnd.lookup : RecordEnd → DdtLookup
  | .next w => w.lookup
  | .finished w => w.lookup
  | .unread w => w.lookup

/-- What the end of the walk means for the slot. -/
def RecordEnd.last (sent : Bool) : RecordEnd → ReferralEnd
  | .next _ => .passed sent
  | .finished _ => .finished
  | .unread _ => .unread

/-- `send_mr_ddt` -/
def DdtLookup.send (l : DdtLookup) (sent : Bool) : DdtLookup :=
  { l with toEidPending := sendMrDdt l.toEidPending sent }

/-- `free_lookups`, on the slot. -/
def DdtLookup.free (l : DdtLookup) : DdtLookup :=
  if l.active then { l with active := false, lastEid := none } else l

/-- What is done to the request behind the walk: a Map-Request is sent, or it is
released. -/
def RecordEnd.settle (sent : Bool) : RecordEnd → DdtLookup
  | .next w => w.lookup.send sent
  | .finished w => w.lookup.free
  | .unread w => w.lookup

/-- A record behind which the processing ends leaves the request as it is. -/
theorem recordTurn_next_or_same (family : Mem → Option UInt8) (mem : Mem)
    (w : RecordWalk) :
    (∃ w', recordTurn family mem w = .next w') ∨
      (recordTurn family mem w).lookup = w.lookup := by
  rw [recordTurn]
  dsimp only
  split
  · exact Or.inr rfl
  · split
    · exact Or.inr rfl
    · split
      · split
        · exact Or.inr rfl
        · exact Or.inl ⟨_, rfl⟩
      · split
        · exact Or.inr rfl
        · exact Or.inl ⟨_, rfl⟩

section Pending

variable {family : Mem → Option UInt8} {mem : Mem} {w w' : RecordWalk}

theorem toEidPending_moveOn (l : DdtLookup) (pf : EidBuffer)
    (info : List RegisterEntry) :
    ∃ added, (l.moveOn pf info).toEidPending =
      { l.toEidPending with rlocs := l.rlocs ++ added } := by
  rw [DdtLookup.moveOn]
  split
  · exact ⟨info, rfl⟩
  · exact ⟨[], by rw [List.append_nil]⟩

/-- A record only adds locators. -/
theorem toEidPending_recordTurn (family : Mem → Option UInt8) (mem : Mem)
    (w : RecordWalk) :
    ∃ added, (recordTurn family mem w).lookup.toEidPending =
      { w.lookup.toEidPending with rlocs := w.lookup.rlocs ++ added } := by
  rcases recordTurn_next_or_same family mem w with ⟨w', hturn⟩ | hsame
  · obtain ⟨fam, -, ⟨-, -, rfl⟩ | ⟨-, rfl⟩⟩ := recordTurn_next hturn
    · rw [hturn]
      exact toEidPending_moveOn _ _ _
    · rw [hturn]
      exact ⟨[], by rw [List.append_nil]; rfl⟩
  · rw [hsame]
    exact ⟨[], by rw [List.append_nil]⟩

theorem toEidPending_recordWalk (family : Mem → Option UInt8) (mem : Mem) (rcount : ℕ)
    (w : RecordWalk) :
    ∃ added, (recordWalk family mem rcount w).lookup.toEidPending =
      { w.lookup.toEidPending with rlocs := w.lookup.rlocs ++ added } := by
  induction rcount generalizing w with
  | zero => exact ⟨[], by rw [List.append_nil]; rfl⟩
  | succ rcount ih =>
      obtain ⟨added, hadded⟩ := toEidPending_recordTurn family mem w
      rw [recordWalk]
      split
      next w' hturn =>
        obtain ⟨more, hmore⟩ := ih w'
        rw [hturn] at hadded
        refine ⟨added ++ more, ?_⟩
        rw [hmore, show w'.lookup.toEidPending = _ from hadded, List.append_assoc]
      next => exact ⟨added, hadded⟩

theorem lookups_setSlot (s : CpState) (idx : Fin maxLookups) (l : EidPending) :
    (s.setSlot idx l).lookups idx = l := by
  simp [CpState.setSlot]

theorem lookups_freeLookups (s : CpState) (idx : Fin maxLookups) :
    (freeLookups s idx).lookups idx =
      if (s.lookups idx).active then { s.lookups idx with active := false }
      else s.lookups idx := by
  rw [freeLookups]
  dsimp only
  split
  · exact lookups_setSlot _ _ _
  · rfl

/-- The walk over the records is one of those that the slot of a pending request may go
through. -/
theorem exists_applyWalk (s : CpState) (idx : Fin maxLookups) (rcount : ℕ) (sent : Bool)
    (hslot : s.lookups idx = w.lookup.toEidPending) :
    ∃ walk, (applyWalk s idx walk).lookups idx =
      ((recordWalk family mem rcount w).settle sent).toEidPending := by
  obtain ⟨added, hadded⟩ := toEidPending_recordWalk family mem rcount w
  rw [← hslot] at hadded
  refine ⟨⟨added, (recordWalk family mem rcount w).last sent⟩, ?_⟩
  cases hend : recordWalk family mem rcount w with
  | next w' =>
      rw [hend] at hadded
      refine (lookups_setSlot _ _ _).trans ?_
      exact congrArg (sendMrDdt · sent) hadded.symm
  | finished w' =>
      rw [hend] at hadded
      have hlookup : w'.lookup.toEidPending =
        { s.lookups idx with rlocs := (s.lookups idx).rlocs ++ added } := hadded
      refine (lookups_freeLookups _ _).trans ?_
      rw [lookups_setSlot, ← hlookup, RecordEnd.settle, DdtLookup.free]
      split <;> rfl
  | unread w' =>
      rw [hend] at hadded
      exact (lookups_setSlot _ _ _).trans hadded.symm

end Pending

end HyLisp.ControlPlane
