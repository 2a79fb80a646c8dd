import HyLisp.ControlPlane.RegisterApplication

/-!
# Boundaries of records

The walk that validates a record adds up the hops of an explicit locator path, and the
walk that enters it goes on where the header of the path says.  Both report the length
of the record, and this is the same one if the hops of every path end where announced.  A
path whose hops run past the announced end makes the second walk read the locators that
follow from another place, and only by chance do these make up for it.
-/

namespace HyLisp.ControlPlane

open DataPlane

/-! ## Announced sizes -/

/-- The size of a locator, with the announced size of a path. -/
def announcedLen (loc : Mem) : ℕ :=
  let lcaf := loc.advance 6
  if lcaf.be16 0 = lcafAfi then 6 + (sizeofLcafHdr + lcaf.be16 6)
  else 6 + getAddressSize lcaf

/-- The sizes of several locators, each read where the one before it is announced to
end. -/
def announcedLens : ℕ → Mem → ℕ
  | 0, _ => 0
  | lcount + 1, loc =>
      announcedLen loc + announcedLens lcount (loc.advance (announcedLen loc))

/-- The locators of a record begin behind its EID. -/
def locatorsOf (rec : Mem) : Mem :=
  rec.advance (10 + getAddressSize (rec.advance 10))

section Walks

variable {cfg : RegisterConfig} {db : LispDb} {loc rec lcaf : Mem} {lcount : ℕ}

/-- An address of a known family is no LCAF address. -/
theorem ne_lcafAfi_of_readAddress {addr : Address} (h : readAddress lcaf = some addr) :
    lcaf.be16 0 ≠ lcafAfi := by
  intro hlcaf
  rw [readAddress, getAddressType, hlcaf] at h
  cases h

/-- A locator is entered with the announced size. -/
theorem size_registerLocator {entry : RegisterEntry} {size : ℕ}
    (h : registerLocator cfg loc = some (entry, size)) : size = announcedLen loc := by
  unfold registerLocator at h
  rw [announcedLen]
  dsimp only at h ⊢
  by_cases hte : (loc.advance 6).be16 0 = lcafAfi ∧ (loc.advance 6) 4 = lcafTe
  · rw [if_pos hte] at h
    rw [if_pos hte.1]
    split at h
    · exact (Prod.mk.inj (Option.some_inj.mp h)).2.symm
    · cases h
  · rw [if_neg hte] at h
    obtain ⟨addr, haddr, heq⟩ := Option.map_eq_some_iff.mp h
    rw [if_neg (ne_lcafAfi_of_readAddress haddr)]
    exact (Prod.mk.inj heq).2.symm

/-- Locators that are all entered end where they are announced to. -/
theorem stop_registerLocators {start stop : ℕ} {info info' : List RegisterEntry}
    (h : registerLocators cfg rec lcount start info = (info', some stop)) :
    stop = start + announcedLens lcount (rec.advance start) := by
  induction lcount generalizing start info with
  | zero =>
      obtain ⟨-, hstop⟩ := Prod.mk.inj h
      exact (Option.some_inj.mp hstop).symm
  | succ lcount ih =>
      rw [registerLocators] at h
      cases hread : registerLocator cfg (rec.advance start) with
      | none =>
          rw [hread] at h
          cases (Prod.mk.inj h).2
      | some found =>
          obtain ⟨entry, size⟩ := found
          rw [hread] at h
          dsimp only at h
          obtain rfl := size_registerLocator hread
          rw [ih h, announcedLens, Mem.advance_advance]
          omega

/-- An exact path, or a locator without one, has its announced size. -/
theorem announcedLen_of_pathExact {len : ℕ} (h : locatorLen loc = some len)
    (hexact : PathExact True loc) : announcedLen loc = len := by
  rw [announcedLen]
  split
  next hlcaf => exact Option.some_inj.mp (((hexact hlcaf).2 trivial).symm.trans h)
  next hlcaf =>
    rw [locatorLen, if_neg hlcaf] at h
    obtain ⟨addr, -, rfl⟩ := Option.map_eq_some_iff.mp h
    rfl

/-- A path with its announced size is exact. -/
theorem pathExact_of_announcedLen {len : ℕ} (h : locatorLen loc = some len)
    (hhops : PathExact False loc) (heq : announcedLen loc = len) : PathExact True loc := by
  intro hlcaf
  refine ⟨(hhops hlcaf).1, fun _ => ?_⟩
  rw [announcedLen, if_pos hlcaf] at heq
  rw [h, ← heq]

/-- Where all paths but the one of the last locator are exact, the announced sizes make up
the validated one in sum exactly when the last one is exact too. -/
theorem announcedLens_eq_iff {len : ℕ} (h : locatorsLen lcount loc = some len)
    (hbefore : PathsExact False lcount loc) :
    announcedLens lcount loc = len ↔ PathsExact True lcount loc := by
  induction lcount generalizing loc len with
  | zero =>
      obtain rfl := Option.some_inj.mp h
      exact iff_of_true rfl trivial
  | succ lcount ih =>
      rw [locatorsLen] at h
      cases hlen : locatorLen loc with
      | none =>
          rw [hlen] at h
          cases h
      | some here =>
          rw [hlen] at h
          obtain ⟨rest, hrest, rfl⟩ := Option.map_eq_some_iff.mp h
          obtain ⟨hpath, hpaths⟩ := hbefore
          rw [announcedLens, PathsExact, hlen]
          simp only [Option.some.injEq, forall_eq', or_true]
          cases lcount with
          | zero =>
              obtain rfl := Option.some_inj.mp hrest
              rw [announcedLens, Nat.add_left_inj, PathsExact, and_true]
              simp only [ne_eq, not_true_eq_false, or_false] at hpath
              exact ⟨pathExact_of_announcedLen hlen hpath, announcedLen_of_pathExact hlen⟩
          | succ lcount =>
              have hexact : PathExact True loc := by
                rwa [eq_true (Or.inl (Nat.succ_ne_zero lcount))] at hpath
              rw [announcedLen_of_pathExact hlen hexact, Nat.add_right_inj,
                ih hrest (hpaths here hlen), and_iff_right hexact]

/-! ## Records -/

/-- The length that `_ms_process_register_record` reports for a record it processes. -/
theorem length_msProcessRegisterRecord
    (h : (msProcessRegisterRecord cfg rec).1 ≠ 0) :
    (msProcessRegisterRecord cfg rec).1 =
      10 + getAddressSize (rec.advance 10) +
        announcedLens (rec 4).toNat (locatorsOf rec) := by
  rw [msProcessRegisterRecord] at h ⊢
  dsimp only at h ⊢
  cases haddr : readAddress (rec.advance 10) with
  | none =>
      rw [haddr] at h
      exact absurd rfl h
  | some addr =>
      rw [haddr] at h
      dsimp only at h ⊢
      cases hlocators : registerLocators cfg rec (rec 4).toNat
          (10 + getAddressSize (rec.advance 10)) [] with
      | mk info stop =>
          rw [hlocators] at h
          cases stop with
          | none => exact absurd rfl h
          | some stop => exact stop_registerLocators hlocators

theorem length_of_pathsExact {site rlen : ℕ} (hvalid : msValidateEid db rec = some (site, rlen))
    (hexact : PathsExact True (rec 4).toNat (locatorsOf rec)) :
    (msProcessRegisterRecord cfg rec).1 = rlen := by
  obtain ⟨addr, len, -, hlen, -, -⟩ := msValidateEid_cases hvalid
  have happlied := (locatorsApplied_iff cfg hlen).mpr hexact
  exact (msProcessRegisterRecord_of_applied hvalid happlied).2 trivial

end Walks

/-- The lengths that the validation reports for the records of a message. -/
def validatedLengths (db : LispDb) : ℕ → Mem → List ℕ
  | 0, _ => []
  | rcount + 1, rec =>
      match msValidateEid db rec with
      | none => []
      | some (_, rlen) => rlen :: validatedLengths db rcount (rec.advance rlen)

/-- The paths of all records of a message are exact. -/
def RecordsTiled (db : LispDb) : ℕ → Mem → Prop
  | 0, _ => True
  | rcount + 1, rec =>
      PathsExact True (rec 4).toNat (locatorsOf rec) ∧
        ∀ site rlen, msValidateEid db rec = some (site, rlen) →
          RecordsTiled db rcount (rec.advance rlen)

/-- Then both walks see the same boundaries throughout the message. -/
theorem lengths_registerRecords {cfg : RegisterConfig} {db : LispDb} {rcount site : ℕ}
    {rec : Mem} (hown : RecordsOwned db rcount rec site) (h : RecordsTiled db rcount rec) :
    (registerRecords cfg rcount rec).map Prod.fst = validatedLengths db rcount rec := by
  induction rcount generalizing rec with
  | zero => rfl
  | succ rcount ih =>
      obtain ⟨rlen, hvalid, hrest⟩ := hown
      obtain ⟨hexact, hrecords⟩ := h
      have hlength : (msProcessRegisterRecord cfg rec).1 = rlen :=
        length_of_pathsExact hvalid hexact
      rw [registerRecords, validatedLengths, hvalid]
      simp only [List.map_cons, hlength, ih hrest (hrecords site rlen hvalid)]

/-- A record that is accepted, and processed successfully, has one length in both walks if
all its paths are exact, and only then if no path but that of the last locator can be
inexact. -/
theorem sameLength_of_pathsExact (cfg : RegisterConfig) (db : LispDb) (rec : Mem)
    {site rlen : ℕ} (hvalid : msValidateEid db rec = some (site, rlen))
    (hprocessed : (msProcessRegisterRecord cfg rec).1 ≠ 0) :
    (PathsExact True (rec 4).toNat (locatorsOf rec) →
      (msProcessRegisterRecord cfg rec).1 = rlen) ∧
      (PathsExact False (rec 4).toNat (locatorsOf rec) →
        (msProcessRegisterRecord cfg rec).1 = rlen →
          PathsExact True (rec 4).toNat (locatorsOf rec)) := by
  refine ⟨length_of_pathsExact hvalid, fun hbefore hlength => ?_⟩
  obtain ⟨addr, len, -, hlen, -, rfl⟩ := msValidateEid_cases hvalid
  rw [length_msProcessRegisterRecord hprocessed] at hlength
  exact (announcedLens_eq_iff hlen hbefore).mp (Nat.add_left_cancel hlength)

/-- A record for 198.51.100.0/24 with one path, of a hop that runs past the announced
end by `d` bytes. -/
def overrunRecord (d : UInt8) : Mem :=
  Mem.ofList [0, 0, 0, 60, 1, 24, 0, 0, 0, 0, 0, 1, 198, 51, 100, 0,
    1, 100, 255, 0, 0, 5, 0x40, 3, 0, 0, 10, 0, 0, 8 - d,
    0, 1, 0, 0, 10, 0, 0, 1] fun _ => 0

theorem pathsExact_overrunRecord : PathsExact True 1 (locatorsOf (overrunRecord 0)) :=
  ⟨fun _ => ⟨by decide, fun _ => by decide⟩, fun _ _ => trivial⟩

theorem sameLength_of_pathsExact_path :
    (msProcessRegisterRecord ⟨true, true⟩ (overrunRecord 0)).1 = 38 :=
  (sameLength_of_pathsExact ⟨true, true⟩ delegatedTestNet.db (overrunRecord 0)
    (show msValidateEid delegatedTestNet.db (overrunRecord 0) = some (0, 38) by decide)
    (by decide)).1 pathsExact_overrunRecord

/-- A record whose second locator is longer in the second walk by as much as the hops of the
first one run past the announced end. -/
example :
    let record := Mem.ofList [0, 0, 0, 60, 2, 24, 0, 0, 0, 0, 0, 1, 198, 51, 100, 0,
      1, 100, 255, 0, 0, 5, 0x40, 3, 0, 0, 10, 0, 0, 8,
      0, 2, 0, 0, 32, 1, 13, 184, 1, 100, 255, 0, 0, 5, 0, 2, 32, 1, 13, 184,
      1, 100, 255, 0, 0, 5, 0, 1, 192, 0, 2, 1] fun _ => 0
    msValidateEid delegatedTestNet.db record = some (0, 62) ∧
      (msProcessRegisterRecord ⟨true, true⟩ record).1 = 62 := by
  decide

/-- A hop that runs past the announced end gives a record two lengths. -/
theorem not_sameLength_overrun :
    ¬ ∀ cfg db rec site rlen, msValidateEid db rec = some (site, rlen) →
      (msProcessRegisterRecord cfg rec).1 ≠ 0 →
        (msProcessRegisterRecord cfg rec).1 = rlen := by
  intro h
  have hsame := h ⟨true, true⟩ delegatedTestNet.db (overrunRecord 7) 0 38 (by decide)
    (by decide)
  exact absurd hsame (by decide)

end HyLisp.ControlPlane
