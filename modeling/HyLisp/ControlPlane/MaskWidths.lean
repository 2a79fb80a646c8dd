import HyLisp.ControlPlane.RequestParser
import HyLisp.ControlPlane.RegisterApplication
import HyLisp.ControlPlane.SiteConfiguration
import HyLisp.Support.Transition

/-!
# Mask lengths from the network

The mask length of an EID prefix in a control message is a byte of the message, which
the parsers copy as it is.  The trees are searched with these prefixes, and nodes are
made for those of Map-Registers and Map-Referrals.  As long as no mask is longer than
its address, no node of the trees is, and every bit that a search tests is one of an
address.
-/

namespace HyLisp.ControlPlane

open DataPlane Transition

/-! ## Prefixes that are handed over -/

/-- The EID prefix that `_ms_validate_eid` looks up, unless it gives up before. -/
def lookedUpEid (rec : Mem) : Option Prefix :=
  let afi := rec.advance 10
  match readAddress afi with
  | none => none
  | some addr =>
      (locatorsLen (rec 4).toNat (rec.advance (10 + getAddressSize afi))).map
        fun _ => ⟨addr, rec 5⟩

/-- The EID prefixes that the loop of `_ms_validate_register` looks up. -/
def validatedEids (db : LispDb) : ℕ → Mem → Option ℕ → List Prefix
  | 0, _, _ => []
  | rcount + 1, rec, site =>
      match lookedUpEid rec with
      | none => []
      | some eid =>
          eid ::
            match msValidateEid db rec with
            | none => []
            | some (pt, rlen) =>
                if site ≠ none ∧ site ≠ some pt then []
                else validatedEids db rcount (rec.advance rlen) (some pt)

section Handed

variable (hmac : Hmac) (lispTe : Bool) (s : MapServer)

/-- The EID prefixes of a Map-Register that are looked up. -/
def registerLookups (r : RegisterPacket) : List Prefix :=
  validatedEids s.toMsState.db (r.packet 3).toNat (recordsOf r.packet) none

/-- The prefixes of a message that is not rejected, as they are handed to a search or
to the database.  Of a Map-Request only the first one is. -/
def handed : DbEvent → List Prefix
  | .request buf bufLen => ((requestEids buf bufLen).getD []).take 1
  | .register r =>
      let validation := msValidateRegister hmac r.uninit s.toMsState r.packet r.pkgLen
      if validation.rt < 0 then []
      else
        registerLookups s r ++
          if validation.rt > 0 then (registerMappings lispTe r.packet).map fun m => m.eid
          else []
  | .refer rec => (processReferralRecord rec).toList.map Prod.fst
  | _ => []

end Handed

/-! ## Bits that are tested -/

/-- The lengths that a search gives to `check_bit`. -/
def DbTree.lookupChecks {ν : Type} (t : DbTree ν) (p : Prefix) : List ℕ :=
  (t.matchPath p).map fun node => node.1.prefixlen.toNat

/-- The lengths that `db_node_get` gives to `check_bit`; where a node is linked below
another one, that one was passed. -/
def DbTree.insertChecks {ν : Type} : DbTree ν → Prefix → List ℕ
  | .nil, _ => []
  | .node n _ left right, p =>
      if n.prefixlen ≤ p.prefixlen ∧ prefixMatch n p then
        if n.prefixlen = p.prefixlen then []
        else
          n.prefixlen.toNat ::
            if checkBit p.addr.toMem n.prefixlen.toNat then right.insertChecks p
            else left.insertChecks p
      else [(routeCommon n p).prefixlen.toNat]

namespace MapServer

def lookupChecks (s : MapServer) (p : Prefix) : List ℕ :=
  (s.tree p.addr).lookupChecks p

def insertChecks (s : MapServer) (p : Prefix) : List ℕ :=
  (s.tree p.addr).insertChecks p

/-- The mappings of a message, one after the other. -/
def enterChecks : MapServer → List RegisterMapping → List ℕ
  | _, [] => []
  | s, m :: mappings =>
      s.insertChecks m.eid ++
        (s.enterMapping m.eid (registerFlags m) m.info).enterChecks mappings

end MapServer

section Checked

variable (hmac : Hmac) (lispTe : Bool) (s : MapServer)

/-- All lengths given to `check_bit`. -/
def checked : DbEvent → List ℕ
  | .assign _ p => s.lookupChecks p.toPrefix ++ s.insertChecks p.toPrefix
  | .delegate _ p _ => s.lookupChecks p.toPrefix ++ s.insertChecks p.toPrefix
  | .enter _ p _ _ => s.lookupChecks p.toPrefix ++ s.insertChecks p.toPrefix
  | .request buf bufLen =>
      (((requestEids buf bufLen).getD []).take 1).flatMap s.lookupChecks
  | .register r =>
      let validation := msValidateRegister hmac r.uninit s.toMsState r.packet r.pkgLen
      (registerLookups s r).flatMap s.lookupChecks ++
        match validation.site with
        | some site =>
            if validation.rt > 0 then
              ({ s with sites := validation.state.sites }.cleanSite site).enterChecks
                (registerMappings lispTe r.packet)
            else []
        | none => []
  | .refer rec => (processReferralRecord rec).toList.flatMap fun e => s.insertChecks e.1

end Checked

/-- No node lies deeper than the addresses of its tree are long. -/
def MapServer.DepthsBounded (s : MapServer) : Prop :=
  (∀ e ∈ s.lispDb4.depths 0, e.1 ≤ 32) ∧ ∀ e ∈ s.lispDb6.depths 0, e.1 ≤ 128

/-- The prefixes handed over are not longer than their addresses, the assertion of
`check_bit` holds, and no node lies too deep afterwards. -/
structure StepSafe (hmac : Hmac) (lispTe : Bool) (s : MapServer) (e : DbEvent) : Prop where
  inWidth : ∀ p ∈ handed hmac lispTe s e, p.prefixlen.toNat ≤ p.addr.width
  asserted : ∀ n ∈ checked hmac lispTe s e, n ≤ 128
  depths : ∀ s', dbStep hmac lispTe s e = some s' → s'.DepthsBounded

/-! ## Masks in messages -/

/-- A mask byte is not longer than the address behind an AFI. -/
def MaskFits (mask : UInt8) (afi : Mem) : Prop :=
  (getAddressType afi = lispAfiIp → mask.toNat ≤ 32) ∧
    (getAddressType afi = lispAfiIpv6 → mask.toNat ≤ 128)

/-- The offset behind `n` addresses. -/
def addressesEnd (lcm : Mem) : ℕ → ℕ → ℕ
  | 0, k => k
  | n + 1, k => addressesEnd lcm n (k + getAddressSize (lcm.advance k))

/-- The offset of the first record of a Map-Request. -/
def firstRecordOffset (lcm : Mem) : ℕ :=
  addressesEnd lcm ((lcm 2 &&& 0x1F).toNat + 1)
    (sizeofMapRequestHdr + eidSize (lcm.advance sizeofMapRequestHdr))

/-- The AFI of the record of a Map-Request at offset `k`. -/
def recordAfi (lcm : Mem) (k : ℕ) : Mem :=
  lcm.advance ((if getAddressType (lcm.advance (k + 2)) = lcafAfi then k + 12 else k) + 2)

/-- The first record of a Map-Request that is accepted. -/
def RequestMaskFits (buf : Mem) (bufLen : ℕ) : Prop :=
  ∀ pke, udpPreparsePk buf bufLen = some pke →
    let lcm := buf.advance pke.lcm
    udpPrcRequest lcm ≠ none → lcm 3 ≠ 0 →
      MaskFits (lcm (firstRecordOffset lcm + 1)) (recordAfi lcm (firstRecordOffset lcm))

/-- The records of a Map-Register, as they are validated. -/
def ValidatedMasksFit (db : LispDb) : ℕ → Mem → Prop
  | 0, _ => True
  | rcount + 1, rec =>
      MaskFits (rec 5) (rec.advance 10) ∧
        ∀ site rlen, msValidateEid db rec = some (site, rlen) →
          ValidatedMasksFit db rcount (rec.advance rlen)

/-- The records of a Map-Register, as their mappings are entered. -/
def EnteredMasksFit (cfg : RegisterConfig) : ℕ → Mem → Prop
  | 0, _ => True
  | rcount + 1, rec =>
      MaskFits (rec 5) (rec.advance 10) ∧
        EnteredMasksFit cfg rcount (rec.advance (msProcessRegisterRecord cfg rec).1)

/-- A record of a Map-Referral that is entered. -/
def ReferralMaskFits (rec : Mem) : Prop :=
  ¬ (rec.be16 10 = lcafAfi ∧ rec 14 ≠ 2) → rec 6 &&& 0x08 = 0 →
    MaskFits (rec 5) (rec.advance 22)

/-- The masks in a message that is not rejected fit their addresses. -/
def MasksFit (hmac : Hmac) (lispTe : Bool) (s : MapServer) : DbEvent → Prop
  | .request buf bufLen => RequestMaskFits buf bufLen
  | .register r =>
      let validation := msValidateRegister hmac r.uninit s.toMsState r.packet r.pkgLen
      (0 ≤ validation.rt →
        ValidatedMasksFit s.toMsState.db (r.packet 3).toNat (recordsOf r.packet)) ∧
      (0 < validation.rt →
        EnteredMasksFit (registerConfig lispTe r.packet) (r.packet 3).toNat
          (recordsOf r.packet))
  | .refer rec => ReferralMaskFits rec
  | _ => True

/-! ## The parsers -/

section Parsers

variable {buf lcm rec : Mem} {addr : Address}

theorem maskFits_iff {mask : UInt8} {afi : Mem} (h : readAddress afi = some addr) :
    MaskFits mask afi ↔ mask.toNat ≤ addr.width := by
  rw [MaskFits]
  unfold readAddress at h
  split at h
  next hip =>
    obtain rfl := Option.some_inj.mp h
    rw [hip]
    refine ⟨fun hfits => hfits.1 rfl, fun hle => ⟨fun _ => hle, fun hv6 => ?_⟩⟩
    cases hv6
  next hip =>
    split at h
    next hv6 =>
      obtain rfl := Option.some_inj.mp h
      rw [hv6]
      refine ⟨fun hfits => hfits.2 rfl, fun hle => ⟨fun hv4 => ?_, fun _ => hle⟩⟩
      cases hv4
    · cases h

theorem maskFits_of_unread {mask : UInt8} {afi : Mem} (h : readAddress afi = none) :
    MaskFits mask afi := by
  unfold readAddress at h
  split at h
  · cases h
  next hip =>
    split at h
    · cases h
    next hv6 => exact ⟨fun heq => absurd heq hip, fun heq => absurd heq hv6⟩

theorem offset_of_readItrRlocs {n k stop : ℕ} {addrs : List Address}
    (h : readItrRlocs lcm n k = some (addrs, stop)) : stop = addressesEnd lcm n k := by
  induction n generalizing k addrs stop with
  | zero =>
      obtain ⟨-, rfl⟩ := Prod.mk.inj (Option.some_inj.mp h)
      rfl
  | succ n ih =>
      rw [readItrRlocs] at h
      cases haddr : readAddress (lcm.advance k) with
      | none =>
          rw [haddr] at h
          cases h
      | some addr =>
          rw [haddr] at h
          obtain ⟨⟨rest, stop'⟩, hrest, heq⟩ := Option.map_eq_some_iff.mp h
          obtain ⟨-, rfl⟩ := Prod.mk.inj heq
          exact ih hrest

/-- The first record that is read. -/
theorem readRecords_succ {rcount k : ℕ} {eids : List Prefix}
    (h : readRecords lcm (rcount + 1) k = some eids) :
    ∃ addr rest, readAddress (recordAfi lcm k) = some addr ∧
      eids = ⟨addr, lcm (k + 1)⟩ :: rest := by
  rw [readRecords] at h
  split at h
  · cases h
  next addr haddr =>
    obtain ⟨rest, -, heq⟩ := Option.map_eq_some_iff.mp h
    exact ⟨addr, rest, haddr, heq.symm⟩

/-- `udp_prc_request` on a message without records, and on one with some. -/
theorem udpPrcRequest_head {itr : List Address} {eids : List Prefix}
    (h : udpPrcRequest lcm = some (itr, eids)) :
    (lcm 3 = 0 → eids = []) ∧
      (lcm 3 ≠ 0 → ∃ addr rest,
        readAddress (recordAfi lcm (firstRecordOffset lcm)) = some addr ∧
        eids = ⟨addr, lcm (firstRecordOffset lcm + 1)⟩ :: rest) := by
  rw [udpPrcRequest] at h
  split at h
  · cases h
  · dsimp only at h
    split at h
    · cases h
    next addrs stop hitr =>
      obtain ⟨eids', hrecords, heq⟩ := Option.map_eq_some_iff.mp h
      obtain ⟨-, rfl⟩ := Prod.mk.inj heq
      rw [offset_of_readItrRlocs hitr] at hrecords
      constructor
      · intro hzero
        rw [hzero] at hrecords
        exact (Option.some_inj.mp hrecords).symm
      · intro hne
        have hcount : (lcm 3).toNat ≠ 0 := fun hzero => hne (UInt8.toNat_inj.mp hzero)
        obtain ⟨rcount, hsucc⟩ := Nat.exists_eq_succ_of_ne_zero hcount
        rw [hsucc] at hrecords
        exact readRecords_succ hrecords

/-- The first EID prefix of a Map-Request fits exactly when its mask does. -/
theorem request_inWidth_iff {bufLen : ℕ} :
    (∀ p ∈ ((requestEids buf bufLen).getD []).take 1, p.prefixlen.toNat ≤ p.addr.width) ↔
      RequestMaskFits buf bufLen := by
  unfold RequestMaskFits requestEids
  cases udpPreparsePk buf bufLen with
  | none => simp
  | some pke =>
      simp only [Option.bind_some, Option.some.injEq, forall_eq']
      cases hprc : udpPrcRequest (buf.advance pke.lcm) with
      | none => simp
      | some result =>
          obtain ⟨itr, eids⟩ := result
          obtain ⟨hempty, hhead⟩ := udpPrcRequest_head hprc
          rw [forall_prop_of_true (Option.some_ne_none _)]
          by_cases hzero : (buf.advance pke.lcm) 3 = 0
          · rw [hempty hzero]
            exact iff_of_true (by simp) fun hne => absurd hzero hne
          · obtain ⟨addr, rest, haddr, rfl⟩ := hhead hzero
            rw [forall_prop_of_true hzero, maskFits_iff haddr]
            simp

theorem lookedUpEid_of_valid {db : LispDb} {site rlen : ℕ}
    (h : msValidateEid db rec = some (site, rlen)) :
    ∃ addr, readAddress (rec.advance 10) = some addr ∧
      lookedUpEid rec = some ⟨addr, rec 5⟩ := by
  obtain ⟨addr, len, haddr, hlen, -, -⟩ := msValidateEid_cases h
  rw [lookedUpEid, haddr]
  dsimp only
  rw [hlen]
  exact ⟨addr, rfl, rfl⟩

/-- The EID prefixes of the records of one site fit exactly when their masks do. -/
theorem validated_inWidth_iff {db : LispDb} {rcount site : ℕ} {before : Option ℕ}
    (hbefore : before = none ∨ before = some site) (h : RecordsOwned db rcount rec site) :
    (∀ p ∈ validatedEids db rcount rec before, p.prefixlen.toNat ≤ p.addr.width) ↔
      ValidatedMasksFit db rcount rec := by
  induction rcount generalizing rec before with
  | zero => exact iff_of_true (fun _ hp => absurd hp List.not_mem_nil) trivial
  | succ rcount ih =>
      obtain ⟨rlen, hvalid, hrest⟩ := h
      obtain ⟨addr, haddr, hlooked⟩ := lookedUpEid_of_valid hvalid
      have hsite : ¬ (before ≠ none ∧ before ≠ some site) := by
        rintro ⟨hnone, hsome⟩
        exact hbefore.elim hnone hsome
      rw [validatedEids, hlooked, hvalid, ValidatedMasksFit, maskFits_iff haddr, hvalid]
      dsimp only
      rw [if_neg hsite, List.forall_mem_cons]
      refine and_congr_right' ((ih (Or.inr rfl) hrest).trans ?_)
      constructor
      · rintro hfit _ _ ⟨⟩
        exact hfit
      · intro hfit
        exact hfit site rlen rfl

theorem entered_inWidth_iff {cfg : RegisterConfig} {rcount : ℕ} :
    (∀ m ∈ (registerRecords cfg rcount rec).filterMap Prod.snd,
        m.eid.prefixlen.toNat ≤ m.eid.addr.width) ↔
      EnteredMasksFit cfg rcount rec := by
  induction rcount generalizing rec with
  | zero => exact iff_of_true (fun _ hm => absurd hm List.not_mem_nil) trivial
  | succ rcount ih =>
      rw [registerRecords, EnteredMasksFit, ← ih]
      cases haddr : readAddress (rec.advance 10) with
      | none =>
          have hprocess : msProcessRegisterRecord cfg rec = (0, none) := by
            rw [msProcessRegisterRecord, haddr]
          rw [hprocess, List.filterMap_cons_none rfl]
          exact (and_iff_right (maskFits_of_unread haddr)).symm
      | some addr =>
          obtain ⟨m, hmapping, heid⟩ : ∃ m, (msProcessRegisterRecord cfg rec).2 = some m ∧
              m.eid = ⟨addr, rec 5⟩ := by
            rw [msProcessRegisterRecord, haddr]
            exact ⟨_, rfl, rfl⟩
          rw [List.filterMap_cons_some hmapping, List.forall_mem_cons, heid,
            maskFits_iff haddr]

theorem refer_inWidth_iff :
    (∀ e ∈ processReferralRecord rec, e.1.prefixlen.toNat ≤ e.1.addr.width) ↔
      ReferralMaskFits rec := by
  unfold ReferralMaskFits processReferralRecord
  dsimp only
  by_cases hlcaf : rec.be16 10 = lcafAfi ∧ rec 14 ≠ 2
  · rw [if_pos hlcaf]
    exact iff_of_true (fun _ he => absurd he (Option.not_mem_none _))
      fun hnot => absurd hlcaf hnot
  · rw [if_neg hlcaf, forall_prop_of_true hlcaf]
    cases haddr : readAddress (rec.advance 22) with
    | none =>
        exact iff_of_true (fun _ he => absurd he (Option.not_mem_none _))
          fun _ => maskFits_of_unread haddr
    | some addr =>
        dsimp only
        by_cases hincomplete : rec 6 &&& 0x08 = 0
        · rw [if_neg (not_not.mpr hincomplete), forall_prop_of_true hincomplete,
            maskFits_iff haddr]
          simp
        · rw [if_pos hincomplete]
          exact iff_of_true (fun _ he => absurd he (Option.not_mem_none _))
            fun hzero => absurd hzero hincomplete

end Parsers

/-- The prefixes handed over fit exactly when the masks in the message do. -/
theorem handed_inWidth_iff {hmac : Hmac} {lispTe : Bool} {s : MapServer} {e : DbEvent} :
    (∀ p ∈ handed hmac lispTe s e, p.prefixlen.toNat ≤ p.addr.width) ↔
      MasksFit hmac lispTe s e := by
  cases e with
  | assign type p => exact iff_of_true (fun _ hp => absurd hp List.not_mem_nil) trivial
  | delegate site p active =>
      exact iff_of_true (fun _ hp => absurd hp List.not_mem_nil) trivial
  | enter type p mflags info =>
      exact iff_of_true (fun _ hp => absurd hp List.not_mem_nil) trivial
  | request buf bufLen => exact request_inWidth_iff
  | refer rec =>
      rw [handed, List.forall_mem_map]
      simp only [Option.mem_toList]
      exact refer_inWidth_iff
  | register r =>
      rw [handed, MasksFit]
      have hrejected : ∀ {P Q : Prop}, ((0 : ℤ) ≤ -1 → P) ∧ ((0 : ℤ) < -1 → Q) :=
        ⟨fun h => absurd h (by decide), fun h => absurd h (by decide)⟩
      rcases msValidateRegister_cases hmac r.uninit s.toMsState r.packet r.pkgLen with
        ⟨-, heq⟩ | ⟨site, hown, hcases⟩
      · rw [heq]
        exact iff_of_true (fun _ hp => absurd hp List.not_mem_nil) hrejected
      · have hvalidated := validated_inWidth_iff (Or.inl rfl) hown.2
        rcases hcases with ⟨-, heq⟩ | ⟨-, -, heq⟩ | ⟨-, -, s', heq⟩
        · rw [heq]
          dsimp only
          rw [if_neg (by decide), if_neg (by decide), List.append_nil]
          exact hvalidated.trans
            ⟨fun h => ⟨fun _ => h, fun hpos => absurd hpos (by decide)⟩,
              fun h => h.1 (Int.le_refl 0)⟩
        · rw [heq]
          exact iff_of_true (fun _ hp => absurd hp List.not_mem_nil) hrejected
        · rw [heq]
          dsimp only
          rw [if_neg (by decide), if_pos (by decide), List.forall_mem_append,
            List.forall_mem_map]
          rw [forall_prop_of_true (show (0 : ℤ) ≤ 1 by decide),
            forall_prop_of_true (show (0 : ℤ) < 1 by decide)]
          exact and_congr hvalidated entered_inWidth_iff

/-! ## Trees without long prefixes -/

/-- The nodes are in their places, and no prefix is longer than `w`. -/
structure TreeFits {ν : Type} (w : ℕ) (t : DbTree ν) : Prop where
  inPlace : t.InPlace
  length_le : ∀ e ∈ t.nodes, e.1.prefixlen.toNat ≤ w

section Trees

variable {ν : Type} {w : ℕ} {t : DbTree ν} {p : Prefix}

theorem length_le_of_isPrefix {n p : Prefix} (h : n.bits <+: p.bits) :
    n.prefixlen.toNat ≤ p.prefixlen.toNat := by
  have hle := h.length_le
  rwa [length_bits, length_bits] at hle

theorem TreeFits.dbNodeGet (h : TreeFits w t) (hp : p.prefixlen.toNat ≤ w)
    (glue fresh : ν) (f : ν → ν) : TreeFits w (t.dbNodeGet glue fresh f p) where
  inPlace := h.inPlace.dbNodeGet
  length_le := by
    intro e he
    rcases mem_nodes_dbNodeGet_cases he with hold | ⟨hinitial, -⟩ | ⟨hbits, -⟩
    · exact h.length_le e hold
    · exact (length_le_of_isPrefix hinitial).trans hp
    · exact (length_le_of_isPrefix (hbits ▸ List.prefix_rfl)).trans hp

theorem TreeFits.clean {t : DbTree DbNode} (h : TreeFits w t) (id : ℕ) :
    TreeFits w (t.clean id) where
  inPlace := h.inPlace.clean
  length_le := by
    intro e he
    obtain ⟨nd, hmem, -⟩ := mem_nodes_clean he
    exact h.length_le (e.1, nd) hmem

theorem TreeFits.depths_le (h : TreeFits w t) : ∀ e ∈ t.depths 0, e.1 ≤ w := by
  intro e he
  obtain ⟨nd, hmem⟩ := exists_mem_nodes_of_mem_depths he
  exact (h.inPlace.depth_le he).trans (h.length_le _ hmem)

theorem TreeFits.lookupChecks_le (h : TreeFits w t) : ∀ n ∈ t.lookupChecks p, n ≤ w := by
  intro n hn
  obtain ⟨node, hmem, rfl⟩ := List.mem_map.mp hn
  exact h.length_le node (matchPath_subset_nodes hmem)

/-- A node where two others part is no longer than the prefix that is inserted. -/
theorem insertChecks_le (hlength : ∀ e ∈ t.nodes, e.1.prefixlen.toNat ≤ w)
    (hp : p.prefixlen.toNat ≤ w) : ∀ n ∈ t.insertChecks p, n ≤ w := by
  induction t with
  | nil => exact fun _ hn => absurd hn List.not_mem_nil
  | node n data left right ihleft ihright =>
      have hleft : ∀ e ∈ left.nodes, e.1.prefixlen.toNat ≤ w := fun e he =>
        hlength e (List.mem_cons_of_mem _ (List.mem_append_left _ he))
      have hright : ∀ e ∈ right.nodes, e.1.prefixlen.toNat ≤ w := fun e he =>
        hlength e (List.mem_cons_of_mem _ (List.mem_append_right _ he))
      rw [DbTree.insertChecks]
      split
      · split
        · exact fun _ hm => absurd hm List.not_mem_nil
        · refine List.forall_mem_cons.mpr ⟨hlength _ List.mem_cons_self, ?_⟩
          split
          · exact ihright hright
          · exact ihleft hleft
      · rw [List.forall_mem_singleton, prefixlen_routeCommon]
        exact (commonLengthOf_le n p).trans hp

end Trees

/-! ## Databases without long prefixes -/

/-- Both trees hold no prefix that is longer than an address. -/
structure Fits (s : MapServer) : Prop where
  fits4 : TreeFits 32 s.lispDb4
  fits6 : TreeFits 128 s.lispDb6

section Databases

variable {s : MapServer} {p : Prefix}

theorem Fits.tree (h : Fits s) (addr : Address) : TreeFits addr.width (s.tree addr) := by
  cases addr with
  | inet addr => exact h.fits4
  | inet6 addr => exact h.fits6

theorem Fits.dbNodeGet (h : Fits s) (hp : p.prefixlen.toNat ≤ p.addr.width)
    (f : DbNode → DbNode) : Fits (s.dbNodeGet p f) := by
  obtain ⟨addr, prefixlen⟩ := p
  cases addr with
  | inet addr => exact ⟨h.fits4.dbNodeGet hp _ _ f, h.fits6⟩
  | inet6 addr => exact ⟨h.fits4, h.fits6.dbNodeGet hp _ _ f⟩

theorem Fits.cleanSite (h : Fits s) (site : ℕ) : Fits (s.cleanSite site) := by
  rw [MapServer.cleanSite]
  generalize s.eids site = ids
  induction ids generalizing s with
  | nil => exact h
  | cons id ids ih => exact ih ⟨h.fits4.clean id, h.fits6.clean id⟩

theorem Fits.enterMappings {mappings : List RegisterMapping} (h : Fits s)
    (hfit : ∀ m ∈ mappings, m.eid.prefixlen.toNat ≤ m.eid.addr.width) :
    Fits (s.enterMappings mappings) := by
  induction mappings generalizing s with
  | nil => exact h
  | cons m mappings ih =>
      obtain ⟨hm, hrest⟩ := List.forall_mem_cons.mp hfit
      exact ih (h.dbNodeGet hm _) hrest

theorem Fits.lookupChecks_le (h : Fits s) : ∀ n ∈ s.lookupChecks p, n ≤ 128 := by
  intro n hn
  exact ((h.tree p.addr).lookupChecks_le n hn).trans p.addr.width_le

theorem Fits.insertChecks_le (h : Fits s) (hp : p.prefixlen.toNat ≤ p.addr.width) :
    ∀ n ∈ s.insertChecks p, n ≤ 128 := by
  intro n hn
  exact (ControlPlane.insertChecks_le (h.tree p.addr).length_le hp n hn).trans
    p.addr.width_le

theorem Fits.enterChecks_le {mappings : List RegisterMapping} (h : Fits s)
    (hfit : ∀ m ∈ mappings, m.eid.prefixlen.toNat ≤ m.eid.addr.width) :
    ∀ n ∈ s.enterChecks mappings, n ≤ 128 := by
  induction mappings generalizing s with
  | nil => exact fun _ hn => absurd hn List.not_mem_nil
  | cons m mappings ih =>
      obtain ⟨hm, hrest⟩ := List.forall_mem_cons.mp hfit
      rw [MapServer.enterChecks, List.forall_mem_append]
      exact ⟨h.insertChecks_le hm, ih (h.dbNodeGet hm _) hrest⟩

theorem fits_msInitDb (sites : ℕ → SiteInfo) : Fits (MapServer.msInitDb sites) where
  fits4 := ⟨⟨List.nil_prefix, trivial, trivial⟩,
    List.forall_mem_singleton.mpr (Nat.zero_le _)⟩
  fits6 := ⟨⟨List.nil_prefix, trivial, trivial⟩,
    List.forall_mem_singleton.mpr (Nat.zero_le _)⟩

end Databases

/-! ## Steps and runs -/

section Steps

variable {hmac : Hmac} {lispTe : Bool} {s s' : MapServer} {e : DbEvent}

/-- The mappings of a Map-Register that is applied. -/
theorem registerMappings_fit {r : RegisterPacket}
    (hin : ∀ p ∈ handed hmac lispTe s (.register r), p.prefixlen.toNat ≤ p.addr.width)
    (hrt : (msValidateRegister hmac r.uninit s.toMsState r.packet r.pkgLen).rt > 0) :
    ∀ m ∈ registerMappings lispTe r.packet, m.eid.prefixlen.toNat ≤ m.eid.addr.width := by
  intro m hm
  refine hin m.eid ?_
  rw [handed]
  rw [if_neg (Int.not_lt.mpr (Int.le_of_lt hrt)), if_pos hrt]
  exact List.mem_append_right _ (List.mem_map_of_mem hm)

/-- Prefixes that fit leave the trees without long ones. -/
theorem Fits.step (h : Fits s)
    (hin : ∀ p ∈ handed hmac lispTe s e, p.prefixlen.toNat ≤ p.addr.width)
    (hstep : dbStep hmac lispTe s e = some s') : Fits s' := by
  cases e with
  | assign type p =>
      obtain rfl := Option.some_inj.mp hstep
      rw [MapServer.assign]
      split
      · exact h.dbNodeGet p.fits _
      · exact h
  | delegate site p active =>
      rw [dbStep, MapServer.delegate] at hstep
      split at hstep
      · obtain rfl := Option.some_inj.mp hstep
        have hget := h.dbNodeGet p.fits fun nd =>
          { nd with flags := some (MapServer.setFlags nd.flags
            (MapServer.delegationFlags site active)) }
        exact ⟨hget.fits4, hget.fits6⟩
      · cases hstep
  | enter type p mflags info =>
      rw [dbStep, MapServer.enterConfigured] at hstep
      split at hstep
      · obtain rfl := Option.some_inj.mp hstep
        exact h.dbNodeGet p.fits _
      · cases hstep
  | request buf bufLen =>
      obtain rfl := Option.some_inj.mp hstep
      exact h
  | register r =>
      obtain rfl := Option.some_inj.mp hstep
      rw [MapServer.register]
      split
      · split
        next hrt =>
          have hsites : ∀ sites, Fits { s with sites := sites } :=
            fun _ => ⟨h.fits4, h.fits6⟩
          exact ((hsites _).cleanSite _).enterMappings (registerMappings_fit hin hrt)
        · exact h
      · exact h
  | refer rec =>
      obtain rfl := Option.some_inj.mp hstep
      rw [MapServer.refer]
      split
      · exact h
      next p mflags info hentered =>
        refine h.dbNodeGet (hin p ?_) _
        rw [handed, hentered]
        exact List.mem_singleton_self p

/-- With prefixes that fit, the assertion of `check_bit` holds. -/
theorem Fits.checked_le (h : Fits s)
    (hin : ∀ p ∈ handed hmac lispTe s e, p.prefixlen.toNat ≤ p.addr.width) :
    ∀ n ∈ checked hmac lispTe s e, n ≤ 128 := by
  cases e with
  | assign type p =>
      exact List.forall_mem_append.mpr ⟨h.lookupChecks_le, h.insertChecks_le p.fits⟩
  | delegate site p active =>
      exact List.forall_mem_append.mpr ⟨h.lookupChecks_le, h.insertChecks_le p.fits⟩
  | enter type p mflags info =>
      exact List.forall_mem_append.mpr ⟨h.lookupChecks_le, h.insertChecks_le p.fits⟩
  | request buf bufLen =>
      exact List.forall_mem_flatMap.mpr fun _ _ => h.lookupChecks_le
  | register r =>
      refine List.forall_mem_append.mpr
        ⟨List.forall_mem_flatMap.mpr fun _ _ => h.lookupChecks_le, ?_⟩
      split
      · split
        next hrt =>
          have hsites : ∀ sites, Fits { s with sites := sites } :=
            fun _ => ⟨h.fits4, h.fits6⟩
          exact ((hsites _).cleanSite _).enterChecks_le (registerMappings_fit hin hrt)
        · exact fun _ hn => absurd hn List.not_mem_nil
      · exact fun _ hn => absurd hn List.not_mem_nil
  | refer rec =>
      refine List.forall_mem_flatMap.mpr fun entered hentered => h.insertChecks_le ?_
      exact hin entered.1 (List.mem_map_of_mem hentered)

/-- A step is safe exactly when the masks fit. -/
theorem stepSafe_iff (h : Fits s) :
    StepSafe hmac lispTe s e ↔ MasksFit hmac lispTe s e := by
  rw [← handed_inWidth_iff]
  constructor
  · exact fun hsafe => hsafe.inWidth
  · intro hin
    refine ⟨hin, h.checked_le hin, fun s' hstep => ?_⟩
    have hfits := h.step hin hstep
    exact ⟨hfits.fits4.depths_le, hfits.fits6.depths_le⟩

end Steps

/-- In every run from a database without entries, all EID prefixes that are handed over
fit their addresses, `check_bit` never fails and no node lies too deep, exactly as long
as the masks in the messages fit. -/
theorem along_stepSafe_iff_masksFit (hmac : Hmac) (lispTe : Bool) (sites : ℕ → SiteInfo)
    (events : List DbEvent) :
    Along (dbStep hmac lispTe) (StepSafe hmac lispTe) (MapServer.msInitDb sites) events ↔
      Along (dbStep hmac lispTe) (MasksFit hmac lispTe) (MapServer.msInitDb sites)
        events :=
  along_iff_of_invariant (fun h hsafe hstep => h.step hsafe.inWidth hstep)
    stepSafe_iff (fits_msInitDb sites)

/-- The record of a Map-Referral for 10.0.0.0/200 without locators. -/
def referralLongMask : List UInt8 :=
  [0, 0, 0, 60, 0, 200, 0, 0, 0, 0, 0x40, 3, 0, 0, 2, 0, 0, 10, 0, 0, 0, 0,
    0, 1, 10, 0, 0, 0]

/-- A Map-Request for 10.0.0.0/255. -/
def requestLongMask : List UInt8 :=
  [0x10, 0, 0, 1, 0, 0, 0, 1, 0, 0, 0, 2, 0, 0, 0, 1, 127, 0, 0, 1, 0, 255, 0, 1,
    10, 0, 0, 0]

/-- A node for 10.0.0.0/200 makes the assertion fail. -/
theorem not_along_stepSafe_long_mask :
    ¬ ∀ hmac lispTe sites events,
      Along (dbStep hmac lispTe) (StepSafe hmac lispTe) (MapServer.msInitDb sites)
        events := by
  intro h
  have hrun := h (fun _ _ => Vector.replicate 20 0) false (fun _ => ⟨[], none⟩)
    [.refer (Mem.ofList referralLongMask fun _ => 0),
      .request (Mem.ofList requestLongMask fun _ => 0) 28]
  have hrequest := (hrun.2 _ rfl).1.asserted
  exact absurd (hrequest 200 (by decide)) (by decide)

end HyLisp.ControlPlane
