import HyLisp.ControlPlane.RecordBoundaries
import HyLisp.Support.KeyedMerge

/-!
# Locators with one address

A record can list one address several times.  An xTR that reads the record from a
Map-Reply and a Map-Server that reads it from a Map-Register merge its locators in two
loops of their own; for locators without paths both leave the same list.
-/

namespace HyLisp.ControlPlane

open DataPlane KeyedMerge

/-- The plain locators at the start of a memory, as they are listed: each with an IPv4
or IPv6 address. -/
def plainLocators : ℕ → Mem → Option (List ReplyEntry)
  | 0, _ => some []
  | lcount + 1, loc =>
      let lcaf := loc.advance 6
      if lcaf.be16 0 = lcafAfi ∧ lcaf 4 = lcafTe then none
      else
        (readAddress lcaf).bind fun addr =>
          (plainLocators lcount (loc.advance (6 + getAddressSize lcaf))).map fun rest =>
            replyEntry loc addr :: rest

/-- One entry for each distinct address, in the order in which the addresses are
listed first: the first entry with the smallest priority. -/
def mergedLocators (listed : List ReplyEntry) : List ReplyEntry :=
  bestByKey (fun e => e.rloc.address) (fun e => e.priority.toNat) listed

/-- An entry without paths. -/
def withoutPaths (entry : ReplyEntry) : RegisterEntry :=
  ⟨entry, none⟩

@[simp] theorem address_withoutPaths (entry : ReplyEntry) :
    (withoutPaths entry).rloc.address = entry.rloc.address := rfl

section Entries

theorem mergeEntry_eq (info : List ReplyEntry) (entry : ReplyEntry) :
    mergeEntry info entry =
      mergeBy (fun e => e.rloc.address) (fun e => e.priority.toNat) info entry := by
  induction info with
  | nil => rfl
  | cons e rest ih =>
      rw [mergeEntry, mergeBy, ih]
      simp only [gt_iff_lt, UInt8.lt_iff_toNat_lt]

/-- Without paths, the two ways to enter a locator agree. -/
theorem registerEntry_withoutPaths (info : List ReplyEntry) (entry : ReplyEntry) :
    registerEntry (info.map withoutPaths) (withoutPaths entry) =
      (mergeEntry info entry).map withoutPaths := by
  induction info with
  | nil => rfl
  | cons e rest ih =>
      rw [List.map_cons, registerEntry, mergeEntry, ih]
      by_cases haddr : entry.rloc.address = e.rloc.address
      · have hupdate : updateEntry (withoutPaths e) (withoutPaths entry) =
            if e.priority > entry.priority then withoutPaths entry
            else withoutPaths e := rfl
        rw [address_withoutPaths, address_withoutPaths, if_pos haddr, if_pos haddr,
          hupdate]
        split <;> rfl
      · rw [address_withoutPaths, address_withoutPaths, if_neg haddr, if_neg haddr]
        rfl

end Entries

section Walks

variable {rec loc : Mem} {lcount start : ℕ} {listed : List ReplyEntry}

theorem announcedLen_of_readAddress {addr : Address}
    (h : readAddress (loc.advance 6) = some addr) :
    announcedLen loc = 6 + getAddressSize (loc.advance 6) := by
  rw [announcedLen]
  exact if_neg (ne_lcafAfi_of_readAddress h)

/-- The first of several plain locators. -/
theorem plainLocators_succ
    (h : plainLocators (lcount + 1) loc = some listed) :
    ∃ addr rest, ¬((loc.advance 6).be16 0 = lcafAfi ∧ (loc.advance 6) 4 = lcafTe) ∧
      readAddress (loc.advance 6) = some addr ∧
      plainLocators lcount (loc.advance (6 + getAddressSize (loc.advance 6))) =
        some rest ∧
      listed = replyEntry loc addr :: rest := by
  rw [plainLocators] at h
  by_cases hte : (loc.advance 6).be16 0 = lcafAfi ∧ (loc.advance 6) 4 = lcafTe
  · rw [if_pos hte] at h
    cases h
  · rw [if_neg hte, Option.bind_eq_some_iff] at h
    obtain ⟨addr, haddr, hrest⟩ := h
    obtain ⟨rest, hplain, hlisted⟩ := Option.map_eq_some_iff.mp hrest
    exact ⟨addr, rest, hte, haddr, hplain, hlisted.symm⟩

/-- `read_rec` enters the locators listed one by one. -/
theorem readLocators_of_plain (cfg : ReplyConfig) (info : List ReplyEntry)
    (h : plainLocators lcount (rec.advance start) = some listed) :
    readLocators cfg rec lcount start info =
      some (listed.foldl mergeEntry info,
        start + announcedLens lcount (rec.advance start)) := by
  induction lcount generalizing start info listed with
  | zero =>
      obtain rfl := Option.some_inj.mp h
      rfl
  | succ lcount ih =>
      obtain ⟨addr, rest, hte, haddr, hplain, rfl⟩ := plainLocators_succ h
      have hsize := announcedLen_of_readAddress haddr
      rw [Mem.advance_advance] at hplain
      rw [readLocators, readLocator]
      dsimp only
      rw [if_neg hte, haddr, Option.map_some]
      dsimp only
      rw [ih _ hplain, announcedLens, hsize, List.foldl_cons]
      simp only [Mem.advance_advance, Nat.add_assoc]

/-- `_ms_process_register_record` enters them as well, without paths. -/
theorem registerLocators_of_plain (cfg : RegisterConfig) (info : List ReplyEntry)
    (h : plainLocators lcount (rec.advance start) = some listed) :
    registerLocators cfg rec lcount start (info.map withoutPaths) =
      ((listed.foldl mergeEntry info).map withoutPaths,
        some (start + announcedLens lcount (rec.advance start))) := by
  induction lcount generalizing start info listed with
  | zero =>
      obtain rfl := Option.some_inj.mp h
      rfl
  | succ lcount ih =>
      obtain ⟨addr, rest, hte, haddr, hplain, rfl⟩ := plainLocators_succ h
      have hsize := announcedLen_of_readAddress haddr
      have hentry := registerEntry_withoutPaths info (replyEntry (rec.advance start) addr)
      rw [withoutPaths] at hentry
      rw [Mem.advance_advance] at hplain
      rw [registerLocators, registerLocator]
      dsimp only
      rw [if_neg hte, haddr, Option.map_some]
      dsimp only
      rw [hentry, ih _ hplain, announcedLens, hsize, List.foldl_cons]
      simp only [Mem.advance_advance, Nat.add_assoc]

end Walks

theorem foldl_mergeEntry (listed : List ReplyEntry) :
    listed.foldl mergeEntry [] = mergedLocators listed := by
  have hmerge : mergeEntry =
      mergeBy (fun e => e.rloc.address) fun e => e.priority.toNat := by
    funext info entry
    exact mergeEntry_eq info entry
  rw [hmerge, foldl_mergeBy, mergedLocators]

/-- A record with plain locators only leaves the same list at an xTR and at a
Map-Server, whatever their settings: its locators merged by address. -/
theorem sameLocators_of_plain (cfg : ReplyConfig) (cfg' : RegisterConfig) (rec : Mem)
    {addr : Address} {listed : List ReplyEntry}
    (heid : readAddress (rec.advance 10) = some addr)
    (hplain : plainLocators (rec 4).toNat (locatorsOf rec) = some listed) :
    (readRec cfg rec).2.map ReplyMapping.info = some (mergedLocators listed) ∧
      (msProcessRegisterRecord cfg' rec).2.map RegisterMapping.info =
        some ((mergedLocators listed).map withoutPaths) ∧
      (readRec cfg rec).1 = (msProcessRegisterRecord cfg' rec).1 := by
  have hread := readLocators_of_plain cfg [] hplain
  have hregister := registerLocators_of_plain cfg' [] hplain
  rw [foldl_mergeEntry] at hread hregister
  rw [List.map_nil] at hregister
  rw [readRec, msProcessRegisterRecord, heid]
  dsimp only
  rw [hread, hregister]
  exact ⟨rfl, rfl, rfl⟩

/-- 203.0.113.1 or 203.0.113.2, with a priority and a weight. -/
def listedEntry (host priority weight : UInt8) : ReplyEntry where
  rloc := addressSockUnion (.inet #v[203, 0, 113, host])
  priority := priority
  weight := weight
  mPriority := 255
  mWeight := 0
  L := false
  r := true
  p := false

/-- A record for 198.51.100.0/24 that lists one address with priorities 3, 1 and 1, and
another one in between. -/
def repeatedRecord : Mem :=
  Mem.ofList [0, 0, 0, 60, 4, 24, 0, 0, 0, 0, 0, 1, 198, 51, 100, 0,
    3, 10, 255, 0, 0, 1, 0, 1, 203, 0, 113, 1,
    2, 20, 255, 0, 0, 1, 0, 1, 203, 0, 113, 2,
    1, 30, 255, 0, 0, 1, 0, 1, 203, 0, 113, 1,
    1, 40, 255, 0, 0, 1, 0, 1, 203, 0, 113, 1] fun _ => 0

theorem sameLocators_of_plain_repeated :
    (readRec ⟨true, true, false, fun _ => false⟩ repeatedRecord).2.map
        ReplyMapping.info =
      some (mergedLocators [listedEntry 1 3 10, listedEntry 2 2 20, listedEntry 1 1 30,
        listedEntry 1 1 40]) :=
  (sameLocators_of_plain ⟨true, true, false, fun _ => false⟩ ⟨true, true⟩ repeatedRecord
    (show readAddress (repeatedRecord.advance 10) = some (.inet #v[198, 51, 100, 0]) by
      decide)
    (by decide +kernel)).1

/-- The first entry with the smaller priority keeps the place of the first one. -/
example : mergedLocators [listedEntry 1 3 10, listedEntry 2 2 20, listedEntry 1 1 30,
    listedEntry 1 1 40] = [listedEntry 1 1 30, listedEntry 2 2 20] := by
  decide +kernel

end HyLisp.ControlPlane
