import HyLisp.ControlPlane.MappingDatabase

/-!
# Applying a validated Map-Register

The records of a Map-Register are walked over twice: once to find the site they
belong to, and, when the message is new and authentic, once more to enter the
mappings of the site, which were erased in between.  The two walks agree on the
locators with an address.  They part at explicit locator paths that have no hops,
or whose hops do not end where the header of the path says.
-/

namespace HyLisp.ControlPlane

open DataPlane

/-! ## The second walk -/

/-- The locators are entered where they were validated: each one is understood, and
where something follows it, it ends where its validation did. -/
def LocatorsApplied (cfg : RegisterConfig) (more : Prop) : ℕ → Mem → Prop
  | 0, _ => True
  | lcount + 1, loc =>
      ∃ entry size len, registerLocator cfg loc = some (entry, size) ∧
        locatorLen loc = some len ∧ (lcount ≠ 0 ∨ more → size = len) ∧
          LocatorsApplied cfg more lcount (loc.advance len)

/-- The records are entered where they were validated, each with a length other than
zero and with all its locators. -/
def RecordsApplied (cfg : RegisterConfig) (db : LispDb) : ℕ → Mem → Prop
  | 0, _ => True
  | rcount + 1, rec =>
      let rlen := (msProcessRegisterRecord cfg rec).1
      rlen ≠ 0 ∧
        LocatorsApplied cfg (rcount ≠ 0) (rec 4).toNat
          (rec.advance (10 + getAddressSize (rec.advance 10))) ∧
          (rcount ≠ 0 → ∃ site, msValidateEid db rec = some (site, rlen)) ∧
            RecordsApplied cfg db rcount (rec.advance rlen)

/-! ## Explicit locator paths -/

/-- A path has hops, and where something follows it, they end where its header
says. -/
def PathExact (follows : Prop) (loc : Mem) : Prop :=
  let lcaf := loc.advance 6
  lcaf.be16 0 = lcafAfi →
    lcaf.be16 6 ≠ 0 ∧
      (follows → locatorLen loc = some (6 + (sizeofLcafHdr + lcaf.be16 6)))

/-- All paths among the locators are exact. -/
def PathsExact (more : Prop) : ℕ → Mem → Prop
  | 0, _ => True
  | lcount + 1, loc =>
      PathExact (lcount ≠ 0 ∨ more) loc ∧
        ∀ len, locatorLen loc = some len → PathsExact more lcount (loc.advance len)

/-- All paths of a message are exact. -/
def RecordsExact (db : LispDb) : ℕ → Mem → Prop
  | 0, _ => True
  | rcount + 1, rec =>
      PathsExact (rcount ≠ 0) (rec 4).toNat
          (rec.advance (10 + getAddressSize (rec.advance 10))) ∧
        ∀ site rlen, msValidateEid db rec = some (site, rlen) →
          RecordsExact db rcount (rec.advance rlen)

/-! ## One locator -/

section Locator

variable {lcaf loc : Mem} {barr : ℕ}

theorem readHop_size_pos {hop : Mem} {addr : Address} {size : ℕ}
    (h : readHop hop = some (addr, size)) : 0 < size := by
  unfold readHop at h
  split at h
  · simp only [Option.some.injEq, Prod.mk.injEq] at h
    rw [← h.2, sizeofRlocTe]
    decide
  · split at h
    · simp only [Option.some.injEq, Prod.mk.injEq] at h
      rw [← h.2, sizeofRloc6Te]
      decide
    · cases h

/-- Hops that were validated are entered, and there is a last one unless there are
none. -/
theorem registerHops_of_hopsEnd (cfg : RegisterConfig) {n hop stop : ℕ}
    (hn : barr - hop ≤ n) (h : hopsEnd lcaf barr n hop = some stop) :
    ∃ hops rloc, registerHops cfg lcaf barr n hop = some (hops, rloc) ∧
      (rloc.isSome = true ↔ hop < barr) := by
  induction n generalizing hop with
  | zero =>
      refine ⟨[], none, rfl, ?_⟩
      simp only [Option.isSome_none, Bool.false_eq_true, false_iff]
      omega
  | succ n ih =>
      rw [hopsEnd] at h
      rw [registerHops]
      by_cases hlt : hop < barr
      · rw [if_pos hlt] at h ⊢
        cases hhop : readHop (lcaf.advance hop) with
        | none =>
            rw [hhop] at h
            cases h
        | some found =>
            obtain ⟨addr, size⟩ := found
            rw [hhop] at h
            have hpos := readHop_size_pos hhop
            obtain ⟨hops, rloc, hrest, hlast⟩ := ih (by omega) h
            dsimp only
            rw [hrest, Option.map_some]
            by_cases hmore : hop + size < barr
            · exact ⟨_, rloc, by rw [if_pos hmore], iff_of_true (hlast.mpr hmore) hlt⟩
            · exact ⟨hops, some addr, by rw [if_neg hmore], iff_of_true rfl hlt⟩
      · rw [if_neg hlt]
        exact ⟨[], none, rfl, iff_of_false (by simp) hlt⟩

/-- A validated locator is entered, with the length it was validated with where
something follows it, exactly when it is not an inexact path. -/
theorem registerLocator_iff {cfg : RegisterConfig} {len : ℕ} {follows : Prop}
    (h : locatorLen loc = some len) :
    (∃ entry size, registerLocator cfg loc = some (entry, size) ∧
        (follows → size = len)) ↔ PathExact follows loc := by
  unfold PathExact
  rw [h]
  rw [locatorLen] at h
  unfold registerLocator
  dsimp only at h ⊢
  by_cases hlcaf : (loc.advance 6).be16 0 = lcafAfi
  · rw [if_pos hlcaf] at h
    by_cases hte : (loc.advance 6) 4 = lcafTe
    · rw [if_neg (not_not.mpr hte)] at h
      obtain ⟨stop, hstop, rfl⟩ := Option.map_eq_some_iff.mp h
      obtain ⟨hops, rloc, hhops, hlast⟩ := registerHops_of_hopsEnd cfg (by omega) hstop
      rw [if_pos ⟨hlcaf, hte⟩, hhops]
      cases rloc with
      | none =>
          have hzero : (loc.advance 6).be16 6 = 0 := by
            by_contra hne
            cases hlast.mpr (by omega)
          refine iff_of_false ?_ fun hexact => (hexact hlcaf).1 hzero
          rintro ⟨entry, size, hread, -⟩
          cases hread
      | some addr =>
          have hlt := hlast.mp rfl
          constructor
          · rintro ⟨entry, size, hread, hsize⟩ _
            obtain ⟨-, rfl⟩ := Prod.mk.inj (Option.some_inj.mp hread)
            exact ⟨by omega, fun hfollows => by rw [hsize hfollows]⟩
          · intro hexact
            refine ⟨_, _, rfl, fun hfollows => ?_⟩
            exact Option.some_inj.mp ((hexact hlcaf).2 hfollows).symm
    · rw [if_pos hte] at h
      cases h
  · rw [if_neg hlcaf] at h
    obtain ⟨addr, haddr, rfl⟩ := Option.map_eq_some_iff.mp h
    rw [if_neg fun h => hlcaf h.1, haddr]
    exact iff_of_true ⟨_, _, rfl, fun _ => rfl⟩ fun h => absurd h hlcaf

end Locator

/-! ## Locators and records -/

section Records

variable {cfg : RegisterConfig} {db : LispDb} {loc rec : Mem}

theorem locatorsApplied_iff (cfg : RegisterConfig) {more : Prop} {lcount len : ℕ}
    (h : locatorsLen lcount loc = some len) :
    LocatorsApplied cfg more lcount loc ↔ PathsExact more lcount loc := by
  induction lcount generalizing loc len with
  | zero => exact Iff.rfl
  | succ lcount ih =>
      rw [locatorsLen] at h
      cases hlen : locatorLen loc with
      | none =>
          rw [hlen] at h
          cases h
      | some here =>
          rw [hlen] at h
          obtain ⟨rest, hrest, -⟩ := Option.map_eq_some_iff.mp h
          rw [LocatorsApplied, PathsExact, hlen, ← registerLocator_iff hlen]
          simp only [Option.some.injEq, forall_eq', ← ih hrest]
          constructor
          · rintro ⟨entry, size, _, hread, rfl, hsize, happlied⟩
            exact ⟨⟨entry, size, hread, hsize⟩, happlied⟩
          · rintro ⟨⟨entry, size, hread, hsize⟩, happlied⟩
            exact ⟨entry, size, _, hread, rfl, hsize, happlied⟩

/-- Where the locators are entered as validated, so is what follows them. -/
theorem registerLocators_of_applied {more : Prop} {lcount start len : ℕ}
    {info : List RegisterEntry} (hlen : locatorsLen lcount (rec.advance start) = some len)
    (h : LocatorsApplied cfg more lcount (rec.advance start)) :
    ∃ info' stop, registerLocators cfg rec lcount start info = (info', some stop) ∧
      start ≤ stop ∧ (more → stop = start + len) := by
  induction lcount generalizing start len info with
  | zero =>
      obtain rfl := Option.some_inj.mp hlen
      exact ⟨info, start, rfl, le_rfl, fun _ => rfl⟩
  | succ lcount ih =>
      obtain ⟨entry, size, here, hread, hhere, hsize, happlied⟩ := h
      rw [locatorsLen, hhere] at hlen
      obtain ⟨rest, hrest, rfl⟩ := Option.map_eq_some_iff.mp hlen
      rw [Mem.advance_advance] at hrest happlied
      rw [registerLocators, hread]
      dsimp only
      by_cases hlast : lcount ≠ 0 ∨ more
      · obtain rfl := hsize hlast
        obtain ⟨info', stop, hlocators, hle, hstop⟩ := ih hrest happlied
        exact ⟨info', stop, hlocators, by omega, fun hmore => by rw [hstop hmore]; omega⟩
      · -- the last locator of the message may end elsewhere
        obtain ⟨hzero, hmore⟩ := not_or.mp hlast
        obtain rfl := not_not.mp hzero
        exact ⟨_, start + size, rfl, by omega, fun h => absurd h hmore⟩

/-- What `_ms_validate_eid` found when it accepts a record. -/
theorem msValidateEid_cases {site rlen : ℕ} (h : msValidateEid db rec = some (site, rlen)) :
    ∃ addr len, readAddress (rec.advance 10) = some addr ∧
      locatorsLen (rec 4).toNat
        (rec.advance (10 + getAddressSize (rec.advance 10))) = some len ∧
      siteOf db ⟨addr, rec 5⟩ = some site ∧
      rlen = 10 + getAddressSize (rec.advance 10) + len := by
  rw [msValidateEid] at h
  dsimp only at h
  cases haddr : readAddress (rec.advance 10) with
  | none =>
      rw [haddr] at h
      cases h
  | some addr =>
      rw [haddr] at h
      dsimp only at h
      cases hlen : locatorsLen (rec 4).toNat
          (rec.advance (10 + getAddressSize (rec.advance 10))) with
      | none =>
          rw [hlen] at h
          cases h
      | some len =>
          rw [hlen] at h
          obtain ⟨found, hfound, heq⟩ := Option.map_eq_some_iff.mp h
          obtain ⟨rfl, rfl⟩ := Prod.mk.inj heq
          exact ⟨addr, len, rfl, rfl, hfound, rfl⟩

/-- A validated record, as the second walk reads it. -/
theorem msProcessRegisterRecord_of_applied {site rlen : ℕ} {more : Prop}
    (hvalid : msValidateEid db rec = some (site, rlen))
    (happlied : LocatorsApplied cfg more (rec 4).toNat
      (rec.advance (10 + getAddressSize (rec.advance 10)))) :
    (msProcessRegisterRecord cfg rec).1 ≠ 0 ∧
      (more → (msProcessRegisterRecord cfg rec).1 = rlen) := by
  obtain ⟨addr, len, haddr, hlen, -, rfl⟩ := msValidateEid_cases hvalid
  obtain ⟨info, stop, hlocators, hle, hstop⟩ :
      ∃ info stop, registerLocators cfg rec (rec 4).toNat
        (10 + getAddressSize (rec.advance 10)) [] = (info, some stop) ∧
          10 + getAddressSize (rec.advance 10) ≤ stop ∧
            (more → stop = 10 + getAddressSize (rec.advance 10) + len) :=
    registerLocators_of_applied hlen happlied
  rw [msProcessRegisterRecord, haddr]
  dsimp only
  rw [hlocators]
  dsimp only [Option.getD_some]
  exact ⟨by omega, hstop⟩

theorem recordsExact_succ_iff {rcount site rlen : ℕ}
    (h : msValidateEid db rec = some (site, rlen)) :
    RecordsExact db (rcount + 1) rec ↔
      PathsExact (rcount ≠ 0) (rec 4).toNat
          (rec.advance (10 + getAddressSize (rec.advance 10))) ∧
        RecordsExact db rcount (rec.advance rlen) := by
  rw [RecordsExact, h]
  refine and_congr_right' ⟨fun hrest => hrest site rlen rfl, fun hrest => ?_⟩
  rintro _ _ ⟨⟩
  exact hrest

/-- The records of one site are entered where they were validated exactly when all
their paths are exact. -/
theorem recordsApplied_iff {rcount site : ℕ} (h : RecordsOwned db rcount rec site) :
    RecordsApplied cfg db rcount rec ↔ RecordsExact db rcount rec := by
  induction rcount generalizing rec with
  | zero => exact Iff.rfl
  | succ rcount ih =>
      obtain ⟨rlen, hvalid, hrest⟩ := h
      obtain ⟨-, len, -, hlen, -⟩ := msValidateEid_cases hvalid
      rw [RecordsApplied, recordsExact_succ_iff hvalid,
        ← locatorsApplied_iff cfg hlen, hvalid]
      constructor
      · rintro ⟨-, happlied, hsame, hrecords⟩
        refine ⟨happlied, ?_⟩
        rcases Nat.eq_zero_or_pos rcount with rfl | hpos
        · exact trivial
        · obtain ⟨_, hlength⟩ := hsame hpos.ne'
          obtain ⟨-, hlength⟩ := Prod.mk.inj (Option.some_inj.mp hlength)
          rw [← hlength] at hrecords
          exact (ih hrest).mp hrecords
      · rintro ⟨happlied, hrecords⟩
        obtain ⟨hne, hlength⟩ := msProcessRegisterRecord_of_applied hvalid happlied
        refine ⟨hne, happlied, fun hmore => ⟨site, by rw [hlength hmore]⟩, ?_⟩
        rcases Nat.eq_zero_or_pos rcount with rfl | hpos
        · exact trivial
        · rw [hlength hpos.ne']
          exact (ih hrest).mpr hrecords

end Records

/-! ## Messages -/

theorem recordsOwned_of_validated {hmac : Hmac} {uninit : RegisterUninit} {s : MsState}
    {packet : Mem} {pkgLen : ℕ}
    (h : (msValidateRegister hmac uninit s packet pkgLen).rt = 1) :
    ∃ site, RecordsOwned s.db (packet 3).toNat (recordsOf packet) site := by
  rcases msValidateRegister_cases hmac uninit s packet pkgLen with
    ⟨-, heq⟩ | ⟨site, hown, -⟩
  · rw [heq] at h
    cases h
  · exact ⟨site, hown.2⟩

/-- The records of a validated Map-Register are entered in full exactly when all
explicit locator paths are exact. -/
theorem recordsApplied_iff_recordsExact (hmac : Hmac) (uninit : RegisterUninit)
    (s : MsState) (packet : Mem) (pkgLen : ℕ) (lispTe : Bool)
    (h : (msValidateRegister hmac uninit s packet pkgLen).rt = 1) :
    RecordsApplied (registerConfig lispTe packet) s.db (packet 3).toNat
        (recordsOf packet) ↔
      RecordsExact s.db (packet 3).toNat (recordsOf packet) := by
  obtain ⟨site, hown⟩ := recordsOwned_of_validated h
  exact recordsApplied_iff hown

/-- Memory that was not written reads as zero. -/
def zeroUninit : RegisterUninit :=
  ⟨⟨fun _ => 0, fun _ => 0⟩, ⟨fun _ => 0, fun _ => 0⟩, fun _ => 0⟩

/-- A Map-Register for 198.51.100.0/24 with proxy replies, which has the RLOC 203.0.113.41,
and 203.0.113.42 over 192.0.2.43. -/
def registerPathTestNet : List UInt8 :=
  [0x38, 0, 0, 1, 0, 0, 0, 1, 0, 0, 0, 2, 0, 1, 0, 0,
    0, 0, 0, 60, 2, 24, 0, 0, 0, 0, 0, 1, 198, 51, 100, 0,
    1, 100, 255, 0, 0, 5, 0, 1, 203, 0, 113, 41,
    2, 100, 255, 0, 0, 5, 0x40, 3, 0, 0, 10, 0, 0, 16,
    0, 1, 0, 0x80, 192, 0, 2, 43, 0, 1, 0, 0, 203, 0, 113, 42]

/-- The plain locator and the path are both entered. -/
theorem recordsApplied_testNet :
    RecordsApplied (registerConfig true (Mem.ofList registerPathTestNet fun _ => 0))
      delegatedTestNet.db 1 (recordsOf (Mem.ofList registerPathTestNet fun _ => 0)) := by
  refine (recordsApplied_iff_recordsExact (fun _ _ => Vector.replicate 20 0) zeroUninit
    delegatedTestNet (Mem.ofList registerPathTestNet fun _ => 0) 74 true (by decide)).mpr
    ⟨⟨fun h => absurd h (by decide), fun len hlen => ?_⟩, fun _ _ _ => trivial⟩
  have hplain : locatorLen ((recordsOf (Mem.ofList registerPathTestNet fun _ => 0)).advance 16) =
      some 12 := by
    decide
  obtain rfl : 12 = len := Option.some_inj.mp (hplain.symm.trans hlen)
  exact ⟨fun _ => ⟨by decide, fun hfollows => absurd hfollows (by decide)⟩, fun _ _ => trivial⟩

/-- A Map-Register for 198.51.100.0/24 with a path that has no hops. -/
def registerNoHops : List UInt8 :=
  [0x30, 0, 0, 1, 0, 0, 0, 1, 0, 0, 0, 2, 0, 1, 0, 0,
    0, 0, 0, 60, 1, 24, 0, 0, 0, 0, 0, 1, 198, 51, 100, 0,
    1, 100, 255, 0, 0, 5, 0x40, 3, 0, 0, 10, 0, 0, 0]

/-- A path without hops is validated, but not entered. -/
theorem not_recordsApplied_no_hops :
    ¬ ∀ hmac uninit s packet pkgLen lispTe,
      (msValidateRegister hmac uninit s packet pkgLen).rt = 1 →
        RecordsApplied (registerConfig lispTe packet) s.db (packet 3).toNat
          (recordsOf packet) := by
  intro h
  have happlied := h (fun _ _ => Vector.replicate 20 0) zeroUninit delegatedTestNet
    (Mem.ofList registerNoHops fun _ => 0) 46 false (by decide)
  exact absurd happlied.1 (by decide)

end HyLisp.ControlPlane
