import HyLisp.ControlPlane.ReferralRecords

/-!
# Where the records of a Map-Referral are read

Behind a record that finishes nothing, the loops go on by the length that
`_process_referral_record` has returned last.  It is not called for a record that says
that the EID is not registered; and it returns 0 or -1 for a record that it does not
understand.  This module says for which messages all records are read where they begin.
-/

namespace HyLisp.ControlPlane

open DataPlane

/-- The size of a record, with its locators, if all its addresses are of a known
family. -/
def referralRecordSize (rec : Mem) : Option ℕ :=
  if (readAddress (rec.advance 22)).isNone then none
  else
    (referralLocatorsLen (rec 4).toNat (rec.advance (getReferralRecordSize rec))).map
      fun len => getReferralRecordSize rec + len

section Offsets

/-- Behind each record that does not end the processing, the cursor moves on by the size
of the record. -/
def RecordsAtOffsets (family : Mem → Option UInt8) (mem : Mem) : ℕ → RecordWalk → Prop
  | 0, _ => True
  | rcount + 1, w => ∀ w', recordTurn family mem w = .next w' →
      (∃ size, referralRecordSize (mem.advance w.cursor.toNat) = some size ∧
        w'.cursor = w.cursor + .ofNat size) ∧
      RecordsAtOffsets family mem rcount w'

/-- A record that does not end the processing is a referral without an LCAF address of
another type than 2, and all its addresses are of a known family; or it is no referral,
and has the size `last` of the last referral before it. -/
def RecordSized (last : Option ℕ) (rec : Mem) : Prop :=
  if IsReferral rec then ¬ HasOtherLcaf rec ∧ (referralRecordSize rec).isSome
  else (referralRecordSize rec).isSome ∧ referralRecordSize rec = last

/-- All records that do not end the processing are sized so. -/
def RecordsSized (family : Mem → Option UInt8) (mem : Mem) :
    ℕ → Option ℕ → RecordWalk → Prop
  | 0, _, _ => True
  | rcount + 1, last, w => ∀ w', recordTurn family mem w = .next w' →
      let record := mem.advance w.cursor.toNat
      RecordSized last record ∧
        RecordsSized family mem rcount
          (if IsReferral record then referralRecordSize record else last) w'

variable {family : Mem → Option UInt8} {mem rec : Mem} {w w' : RecordWalk}

theorem referralLocatorsLen_le {lcount len : ℕ} {loc : Mem}
    (h : referralLocatorsLen lcount loc = some len) : len ≤ lcount * 24 := by
  induction lcount generalizing loc len with
  | zero =>
      obtain rfl := Option.some_inj.mp h
      exact Nat.zero_le _
  | succ lcount ih =>
      rw [referralLocatorsLen] at h
      split at h
      · cases h
      · obtain ⟨rest, hrest, rfl⟩ := Option.map_eq_some_iff.mp h
        have hle := ih hrest
        have haddr : getAddressSize (loc.advance 6) ≤ 18 := by
          rw [getAddressSize]
          split_ifs <;> omega
        omega

/-- A record is neither empty nor does it wrap around. -/
theorem referralRecordSize_bounds {size : ℕ} (h : referralRecordSize rec = some size) :
    0 < size ∧ size < 2 ^ 64 := by
  rw [referralRecordSize] at h
  split at h
  · cases h
  · obtain ⟨len, hlen, rfl⟩ := Option.map_eq_some_iff.mp h
    have hle := referralLocatorsLen_le hlen
    have hcount := (rec 4).toNat_lt
    have haddr : getAddressSize (rec.advance 22) ≤ 18 := by
      rw [getAddressSize]
      split_ifs <;> omega
    rw [getReferralRecordSize]
    omega

theorem ofNat_size_ne_zero {size : ℕ} (h : referralRecordSize rec = some size) :
    UInt64.ofNat size ≠ 0 := by
  obtain ⟨hpos, hlt⟩ := referralRecordSize_bounds h
  intro hzero
  have htoNat := congrArg UInt64.toNat hzero
  rw [UInt64.toNat_ofNat', Nat.mod_eq_of_lt hlt] at htoNat
  exact hpos.ne' htoNat

theorem ofNat_eq_iff {rec' : Mem} {size size' : ℕ} (h : referralRecordSize rec = some size)
    (h' : referralRecordSize rec' = some size') :
    UInt64.ofNat size = UInt64.ofNat size' ↔ size = size' := by
  have hlt := (referralRecordSize_bounds h).2
  have hlt' := (referralRecordSize_bounds h').2
  rw [← UInt64.toNat_inj, UInt64.toNat_ofNat', UInt64.toNat_ofNat', Nat.mod_eq_of_lt hlt,
    Nat.mod_eq_of_lt hlt']

/-- `_process_referral_record` returns the size of a referral that it understands. -/
theorem processReferralRecordLen_of_size {size : ℕ} (hreferral : IsReferral rec)
    (hlcaf : ¬ HasOtherLcaf rec) (h : referralRecordSize rec = some size) :
    processReferralRecordLen rec = .ofNat size := by
  rw [referralRecordSize] at h
  rw [processReferralRecordLen, if_neg hlcaf]
  split at h
  · cases h
  next haddr =>
    obtain ⟨len, hlen, rfl⟩ := Option.map_eq_some_iff.mp h
    rw [if_neg haddr, hlen]
    exact if_neg (not_msAck_of_isReferral hreferral)

/-- A referral is passed by its size exactly when it is understood. -/
theorem exists_size_iff (hreferral : IsReferral rec) :
    (∃ size, referralRecordSize rec = some size ∧
        processReferralRecordLen rec = .ofNat size) ↔
      ¬ HasOtherLcaf rec ∧ (referralRecordSize rec).isSome := by
  constructor
  · rintro ⟨size, hsize, hlen⟩
    refine ⟨fun hlcaf => ?_, by rw [hsize]; rfl⟩
    rw [processReferralRecordLen, if_pos hlcaf] at hlen
    exact ofNat_size_ne_zero hsize hlen.symm
  · rintro ⟨hlcaf, hsome⟩
    obtain ⟨size, hsize⟩ := Option.isSome_iff_exists.mp hsome
    exact ⟨size, hsize, processReferralRecordLen_of_size hreferral hlcaf hsize⟩

/-- The length that the loop goes on by is that of the last referral. -/
def KeepsSize (last : Option ℕ) (w : RecordWalk) : Prop :=
  match last with
  | none => w.rlen = 0
  | some size => w.rlen = .ofNat size ∧ ∃ rec, referralRecordSize rec = some size

/-- A record that is no referral is passed by its size exactly when it has that of the
last referral. -/
theorem exists_size_iff_last {last : Option ℕ} (hkeeps : KeepsSize last w) :
    (∃ size, referralRecordSize rec = some size ∧ w.rlen = .ofNat size) ↔
      (referralRecordSize rec).isSome ∧ referralRecordSize rec = last := by
  constructor
  · rintro ⟨size, hsize, hrlen⟩
    refine ⟨by rw [hsize]; rfl, ?_⟩
    cases last with
    | none => exact absurd (hrlen.symm.trans hkeeps) (ofNat_size_ne_zero hsize)
    | some before =>
        obtain ⟨hbefore, rec', hrec'⟩ := hkeeps
        rw [hsize, (ofNat_eq_iff hsize hrec').mp (hrlen.symm.trans hbefore)]
  · rintro ⟨hsome, hlast⟩
    obtain ⟨size, hsize⟩ := Option.isSome_iff_exists.mp hsome
    rw [hsize] at hlast
    subst hlast
    exact ⟨size, hsize, hkeeps.1⟩

/-- The step of the walk: the cursor moves on by the size of the record exactly when the
record is sized, and then the length kept is again that of the last referral. -/
theorem recordSized_iff {last : Option ℕ} (hkeeps : KeepsSize last w)
    (h : recordTurn family mem w = .next w') :
    let record := mem.advance w.cursor.toNat
    ((∃ size, referralRecordSize record = some size ∧
        w'.cursor = w.cursor + .ofNat size) ↔ RecordSized last record) ∧
      (RecordSized last record →
        KeepsSize (if IsReferral record then referralRecordSize record else last) w') := by
  intro record
  obtain ⟨fam, -, ⟨hreferral, -, rfl⟩ | ⟨hreferral, rfl⟩⟩ := recordTurn_next h
  · rw [RecordSized, if_pos hreferral, if_pos hreferral]
    simp only [UInt64.add_right_inj]
    refine ⟨exists_size_iff hreferral, ?_⟩
    rintro ⟨hlcaf, hsome⟩
    obtain ⟨size, hsize⟩ := Option.isSome_iff_exists.mp hsome
    rw [hsize]
    exact ⟨processReferralRecordLen_of_size hreferral hlcaf hsize, _, hsize⟩
  · rw [RecordSized, if_neg hreferral, if_neg hreferral]
    simp only [UInt64.add_right_inj]
    exact ⟨exists_size_iff_last hkeeps, fun _ => hkeeps⟩

theorem recordsAtOffsets_iff (rcount : ℕ) {last : Option ℕ} (hkeeps : KeepsSize last w) :
    RecordsAtOffsets family mem rcount w ↔ RecordsSized family mem rcount last w := by
  induction rcount generalizing w last with
  | zero => exact Iff.rfl
  | succ rcount ih =>
      rw [RecordsAtOffsets, RecordsSized]
      refine forall_congr' fun w' => forall_congr' fun hturn => ?_
      obtain ⟨hsized, hkeeps'⟩ := recordSized_iff hkeeps hturn
      constructor
      · rintro ⟨hsize, hrest⟩
        exact ⟨hsized.mp hsize, (ih (hkeeps' (hsized.mp hsize))).mp hrest⟩
      · rintro ⟨hsize, hrest⟩
        exact ⟨hsized.mpr hsize, (ih (hkeeps' hsize)).mpr hrest⟩

end Offsets

/-- In `get_mr_ddt` and in `read_mr_ddt`, the records of a message are read where they
begin exactly if all of them that do not end the processing are sized. -/
theorem recordsAtOffsets_iff_recordsSized (reader : ReferralReader) (mem : Mem)
    (buf : UInt64) (lookup : DdtLookup) (db : MapServer) :
    RecordsAtOffsets reader.family mem (recordCount mem buf) (.start buf lookup db) ↔
      RecordsSized reader.family mem (recordCount mem buf) none (.start buf lookup db) :=
  recordsAtOffsets_iff _ rfl

/-- A message at 4096, with two records for 10.0.0.0/8 that say that the EID is not
registered. -/
def referralNotRegistered : Mem :=
  let record : List UInt8 :=
    [0, 0, 0, 60, 0, 8, 0x60, 0, 0, 0, 0, 0, 0, 0, 0, 0, 0, 0, 0, 0, 0, 0, 0, 1, 10, 0, 0, 0]
  fun address => Mem.ofList ([0x60, 0, 0, 2, 0, 0, 0, 7, 0, 0, 0, 9] ++ record ++ record)
    (fun _ => 0) (address - 4096)

/-- The cursor stays at the first record. -/
theorem not_recordsAtOffsets_notRegistered :
    ¬ ∀ (reader : ReferralReader) mem buf lookup db,
      RecordsAtOffsets reader.family mem (recordCount mem buf) (.start buf lookup db) := by
  intro h
  have hat := h .getMrDdt referralNotRegistered 4096 ⟨emptyPending, none⟩
    (MapServer.msInitDb fun _ => ⟨[], none⟩)
  have hcount : recordCount referralNotRegistered 4096 = 2 := by decide +kernel
  rw [hcount] at hat
  have hturn := recordTurn_of_passed getFamily referralNotRegistered
    (.start 4096 ⟨emptyPending, none⟩ (MapServer.msInitDb fun _ => ⟨[], none⟩))
    (show _ = some afInet by decide +kernel) (by decide +kernel) (by decide +kernel)
  obtain ⟨⟨size, hsize, hcursor⟩, -⟩ := hat _ hturn
  exact ofNat_size_ne_zero hsize ((UInt64.add_right_inj _).mp hcursor.symm)

end HyLisp.ControlPlane
