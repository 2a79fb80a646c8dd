import HyLisp.ControlPlane.MaskWidths
import HyLisp.ControlPlane.PendingRequests
import HyLisp.Support.ForwardWalk

/-!
# Bounds of the request path

`udp_preparse_pk` compares the headers with the length of the packet, but its result is
not looked at; `udp_prc_request` starts from the message pointer, which is null after a
rejection, and walks over the addresses and records without a comparison.  The prefix
that is looked up is the first one in the list, or what lay in memory when the list is
empty.

Here the reads of this path are collected, by offset and size.  It stays within the
packet exactly when the message lies in it with all the fields that are visited.
-/

namespace HyLisp.ControlPlane

open DataPlane ForwardWalk

/-! ## Reads of the first pass -/

/-- The types of a message that `udp_preparse_pk` accepts. -/
def IsMessageType (type : UInt8) : Prop :=
  type = lispTypeMapRequest ∨ type = lispTypeMapReply ∨ type = lispTypeMapRegister ∨
    type = lispTypeMapNotify ∨ type = lispTypeMapReferral

instance (type : UInt8) : Decidable (IsMessageType type) :=
  inferInstanceAs (Decidable (_ ∨ _))

/-- The reads at the end of `udp_preparse_pk`, of the type and the nonce. -/
def lcmReads (buf : Mem) (bufLen lcm : ℕ) : List (ℕ × ℕ) :=
  if lcm + sizeofLispControlHdr + nonesize > bufLen then []
  else if IsMessageType (lispType (buf.advance lcm)) then
    [(lcm, 1), (lcm + 4, 4), (lcm + 8, 4)]
  else [(lcm, 1)]

/-- The reads of `udp_preparse_pk`: of an encapsulation the type and the bit of a DDT
node, the IP version, the source port and the source address. -/
def preparseReads (buf : Mem) (bufLen : ℕ) : List (ℕ × ℕ) :=
  if bufLen < sizeofLispControlHdr then []
  else if lispType buf = lispTypeEcm then
    let ih := sizeofLispControlHdr
    (0, 1) ::
      if ih + sizeofIp + sizeofUdphdr > bufLen then []
      else (ih, 1) ::
        if buf ih >>> 4 = 4 then
          let udp := ih + sizeofIp
          (udp, 2) :: (ih + 12, 4) :: lcmReads buf bufLen (udp + sizeofUdphdr)
        else if buf ih >>> 4 = 6 then
          let udp := ih + sizeofIp6Hdr
          (udp, 2) :: (ih + 8, 16) :: lcmReads buf bufLen (udp + sizeofUdphdr)
        else []
  else (0, 1) :: lcmReads buf bufLen 0

/-! ## Reads of the second pass -/

/-- The reads of an AFI and of the address behind it. -/
def addressReads (lcm : Mem) (k : ℕ) : List (ℕ × ℕ) :=
  (k, 2) ::
    if getAddressType (lcm.advance k) = lispAfiIp then [(k + 2, 4)]
    else if getAddressType (lcm.advance k) = lispAfiIpv6 then [(k + 2, 16)]
    else []

/-- The end of an address, or of the AFI alone. -/
def addressEnd (lcm : Mem) (k : ℕ) : ℕ :=
  k + eidSize (lcm.advance k)

section Sizes

variable {e : Mem}

theorem eidSize_ip (h : getAddressType e = lispAfiIp) : eidSize e = 6 := by
  have haddr : readAddress e = some (.inet (e.bytes 2 4)) := if_pos h
  rw [eidSize, haddr, Option.isSome_some, if_pos rfl]
  exact if_pos h

theorem eidSize_ipv6 (hip : getAddressType e ≠ lispAfiIp)
    (h : getAddressType e = lispAfiIpv6) : eidSize e = 18 := by
  have haddr : readAddress e = some (.inet6 (e.bytes 2 16)) := by
    rw [readAddress, if_neg hip, if_pos h]
  rw [eidSize, haddr, Option.isSome_some, if_pos rfl, getAddressSize, if_neg hip, if_pos h]

theorem eidSize_other (hip : getAddressType e ≠ lispAfiIp)
    (hv6 : getAddressType e ≠ lispAfiIpv6) : eidSize e = 2 := by
  have haddr : readAddress e = none := by
    rw [readAddress, if_neg hip, if_neg hv6]
  rw [eidSize, haddr]
  rfl

end Sizes

theorem within_addressReads_iff (lcm : Mem) (bound k : ℕ) :
    Within bound (addressReads lcm k) ↔ addressEnd lcm k ≤ bound := by
  unfold addressReads addressEnd
  by_cases hip : getAddressType (lcm.advance k) = lispAfiIp
  · rw [if_pos hip, eidSize_ip hip]
    simp only [within_cons, within_nil, and_true]
    omega
  · rw [if_neg hip]
    by_cases hv6 : getAddressType (lcm.advance k) = lispAfiIpv6
    · rw [if_pos hv6, eidSize_ipv6 hip hv6]
      simp only [within_cons, within_nil, and_true]
      omega
    · rw [if_neg hv6, eidSize_other hip hv6, within_cons]
      exact and_iff_left (within_nil bound)

/-- The ITR-RLOCs, which are read up to the first one of another family. -/
def itrRlocs (lcm : Mem) : Items where
  reads := addressReads lcm
  stop := addressEnd lcm
  goesOn k := (readAddress (lcm.advance k)).isSome
  le_stop k := Nat.le_add_right k _
  within_reads_iff := within_addressReads_iff lcm

/-- The offset of the AFI in front of the address of a record. -/
def recordAfiOffset (lcm : Mem) (k : ℕ) : ℕ :=
  (if getAddressType (lcm.advance (k + 2)) = lcafAfi then k + 12 else k) + 2

theorem le_recordAfiOffset (lcm : Mem) (k : ℕ) : k + 2 ≤ recordAfiOffset lcm k := by
  unfold recordAfiOffset
  split
  · omega
  · exact Nat.le_refl _

theorem add_two_le_addressEnd (lcm : Mem) (k : ℕ) : k + 2 ≤ addressEnd lcm k := by
  have hend := (within_addressReads_iff lcm (addressEnd lcm k) k).mpr (Nat.le_refl _)
  exact (within_cons.mp hend).1

/-- The records: the mask, the AFI, and the address, which in LCAF form has an AFI of its
own. -/
def requestRecords (lcm : Mem) : Items where
  reads k := (k + 1, 1) :: (k + 2, 2) :: addressReads lcm (recordAfiOffset lcm k)
  stop k := addressEnd lcm (recordAfiOffset lcm k)
  goesOn k := (readAddress (lcm.advance (recordAfiOffset lcm k))).isSome
  le_stop k := by
    have hafi := le_recordAfiOffset lcm k
    have hend := add_two_le_addressEnd lcm (recordAfiOffset lcm k)
    omega
  within_reads_iff bound k := by
    have hafi := le_recordAfiOffset lcm k
    have hend := add_two_le_addressEnd lcm (recordAfiOffset lcm k)
    rw [within_cons, within_cons, within_addressReads_iff]
    omega

/-- The number of ITR-RLOCs. -/
def itrCount (lcm : Mem) : ℕ :=
  (lcm 2 &&& 0x1F).toNat + 1

/-- The offset of the first ITR-RLOC. -/
def firstItrRloc (lcm : Mem) : ℕ :=
  addressEnd lcm sizeofMapRequestHdr

/-- The reads of `udp_prc_request`, from the message on; those for the log at the level
of debugging are made by `_lisp_process` already. -/
def requestReads (lcm : Mem) : List (ℕ × ℕ) :=
  (0, 1) ::
    if lispType lcm ≠ lispTypeMapRequest then []
    else
      [(1, 1), (2, 1), (3, 1), (4, 4), (8, 4)] ++ addressReads lcm sizeofMapRequestHdr ++
        (itrRlocs lcm).walkReads (itrCount lcm) (firstItrRloc lcm) ++
        if (itrRlocs lcm).complete (itrCount lcm) (firstItrRloc lcm) then
          (requestRecords lcm).walkReads (lcm 3).toNat
            ((itrRlocs lcm).walkEnd (itrCount lcm) (firstItrRloc lcm))
        else []

/-- The end of the fields of a Map-Request that are visited. -/
def requestEnd (lcm : Mem) : ℕ :=
  let k := (itrRlocs lcm).walkEnd (itrCount lcm) (firstItrRloc lcm)
  if (itrRlocs lcm).complete (itrCount lcm) (firstItrRloc lcm) then
    (requestRecords lcm).walkEnd (lcm 3).toNat k
  else k

/-! ## The request path -/

/-- What the request path does with the packet: it reads some bytes, it uses the message
pointer when it is null, and it looks up the first EID prefix, if one was parsed. -/
inductive Access
  | read (k n : ℕ)
  | nullMessage
  | lookUp (eid : Option Prefix)
  deriving DecidableEq, Repr

/-- The access stays within the packet and what was parsed from it. -/
def Access.Safe (bufLen : ℕ) : Access → Prop
  | .read k n => k + n ≤ bufLen
  | .nullMessage => False
  | .lookUp eid => eid.isSome = true

/-- `_lisp_process` hands the packet to `udp_prc_request`. -/
def IsRequestPath (fncs : Functions) (buf : Mem) : Prop :=
  lispType buf = lispTypeEcm ∨ lispType buf = lispTypeMapRequest ∧ fncs.xtr = true

instance (fncs : Functions) (buf : Mem) : Decidable (IsRequestPath fncs buf) :=
  inferInstanceAs (Decidable (_ ∨ _))

/-- `udp_prc_request` behind `udp_preparse_pk`, and `request_get_eid` when it succeeds. -/
def requestAccesses (buf : Mem) (bufLen : ℕ) : List Access :=
  match udpPreparsePk buf bufLen with
  | none => [.nullMessage]
  | some pke =>
      let lcm := buf.advance pke.lcm
      ((requestReads lcm).map fun (k, n) => Access.read (pke.lcm + k) n) ++
        match udpPrcRequest lcm with
        | none => []
        | some (_, eids) => [.lookUp eids.head?]

/-- The request path of `_lisp_process`, on a received datagram. -/
def requestPath (fncs : Functions) (buf : Mem) (bufLen : ℕ) : List Access :=
  if isQueued buf bufLen then
    ((preparseReads buf bufLen ++ [(0, 1)]).map fun (k, n) => Access.read k n) ++
      if IsRequestPath fncs buf then requestAccesses buf bufLen else []
  else []

/-! ## When it is safe -/

/-- Where the message of a datagram lies: behind the headers of an encapsulation, if the
IP version is known. -/
def messageOffset (buf : Mem) : Option ℕ :=
  let ih := sizeofLispControlHdr
  if lispType buf = lispTypeEcm then
    if buf ih >>> 4 = 4 then some (ih + sizeofIp + sizeofUdphdr)
    else if buf ih >>> 4 = 6 then some (ih + sizeofIp6Hdr + sizeofUdphdr)
    else none
  else some 0

/-- The message at an offset lies in the datagram: its header, with a type that is known,
and of a Map-Request every field that is visited; and unless an ITR-RLOC of another
family ends the walk, a Map-Request has a record. -/
structure MessageFits (buf : Mem) (bufLen lcm : ℕ) : Prop where
  header : lcm + 12 ≤ bufLen
  type : IsMessageType (lispType (buf.advance lcm))
  fields : lispType (buf.advance lcm) = lispTypeMapRequest →
    lcm + requestEnd (buf.advance lcm) ≤ bufLen
  record : lispType (buf.advance lcm) = lispTypeMapRequest →
    (itrRlocs (buf.advance lcm)).complete (itrCount (buf.advance lcm))
      (firstItrRloc (buf.advance lcm)) = true → buf (lcm + 3) ≠ 0

/-- A datagram that is handed to `udp_prc_request` has a message that fits. -/
def RequestFits (fncs : Functions) (buf : Mem) (bufLen : ℕ) : Prop :=
  isQueued buf bufLen = true → IsRequestPath fncs buf →
    ∃ lcm, messageOffset buf = some lcm ∧ MessageFits buf bufLen lcm

/-! ## The first pass -/

section FirstPass

variable {buf : Mem} {bufLen lcm : ℕ} {pke : Preparsed}

theorem preparseLcm_eq_some {ecm : Option Ecm}
    (h : preparseLcm buf bufLen ecm lcm = some pke) :
    pke.lcm = lcm ∧ lcm + 12 ≤ bufLen ∧ IsMessageType (lispType (buf.advance lcm)) := by
  rw [preparseLcm] at h
  split at h
  · cases h
  next hheader =>
    split at h
    next htype =>
      rw [← Option.some_inj.mp h]
      exact ⟨rfl, Nat.not_lt.mp hheader, htype⟩
    · cases h

theorem exists_preparseLcm (hheader : lcm + 12 ≤ bufLen)
    (htype : IsMessageType (lispType (buf.advance lcm))) (ecm : Option Ecm) :
    ∃ pke, preparseLcm buf bufLen ecm lcm = some pke := by
  have hroom : ¬ lcm + sizeofLispControlHdr + nonesize > bufLen := Nat.not_lt.mpr hheader
  rw [preparseLcm, if_neg hroom]
  exact ⟨_, if_pos htype⟩

/-- The message pointer after the first pass. -/
theorem udpPreparsePk_eq_some (h : udpPreparsePk buf bufLen = some pke) :
    messageOffset buf = some pke.lcm ∧ pke.lcm + 12 ≤ bufLen ∧
      IsMessageType (lispType (buf.advance pke.lcm)) := by
  rw [udpPreparsePk] at h
  rw [messageOffset]
  split at h
  · cases h
  · split at h
    next hecm =>
      rw [if_pos hecm]
      dsimp only at h
      split at h
      · cases h
      · split at h
        next hv4 =>
          obtain ⟨hlcm, hrest⟩ := preparseLcm_eq_some h
          rw [hlcm]
          exact ⟨if_pos hv4, hrest⟩
        next hv4 =>
          split at h
          next hv6 =>
            obtain ⟨hlcm, hrest⟩ := preparseLcm_eq_some h
            rw [hlcm, if_neg hv4]
            exact ⟨if_pos hv6, hrest⟩
          · cases h
    next hecm =>
      obtain ⟨hlcm, hrest⟩ := preparseLcm_eq_some h
      rw [hlcm, if_neg hecm]
      exact ⟨rfl, hrest⟩

/-- The first pass accepts a message that it can locate, whose header lies in the packet
and has a type that is known. -/
theorem exists_udpPreparsePk (hlcm : messageOffset buf = some lcm)
    (hheader : lcm + 12 ≤ bufLen) (htype : IsMessageType (lispType (buf.advance lcm))) :
    ∃ pke, udpPreparsePk buf bufLen = some pke ∧ pke.lcm = lcm := by
  have hsome : ∃ pke, udpPreparsePk buf bufLen = some pke := by
    rw [messageOffset] at hlcm
    have hfour : ¬ bufLen < sizeofLispControlHdr := by
      change ¬ bufLen < 4
      omega
    rw [udpPreparsePk, if_neg hfour]
    split at hlcm
    next hecm =>
      have hheaders (hle : 32 ≤ bufLen) :
          ¬ sizeofLispControlHdr + sizeofIp + sizeofUdphdr > bufLen := Nat.not_lt.mpr hle
      rw [if_pos hecm]
      dsimp only
      split at hlcm
      next hv4 =>
        obtain rfl := Option.some_inj.mp hlcm
        rw [if_neg (hheaders (le_trans (Nat.le_add_right 32 12) hheader)), if_pos hv4]
        exact exists_preparseLcm hheader htype _
      next hv4 =>
        split at hlcm
        next hv6 =>
          obtain rfl := Option.some_inj.mp hlcm
          rw [if_neg (hheaders (le_trans (Nat.le_add_right 32 32) hheader)), if_neg hv4,
            if_pos hv6]
          exact exists_preparseLcm hheader htype _
        · cases hlcm
    next hecm =>
      obtain rfl := Option.some_inj.mp hlcm
      rw [if_neg hecm]
      exact exists_preparseLcm hheader htype none
  obtain ⟨pke, hpke⟩ := hsome
  have hsame := (udpPreparsePk_eq_some hpke).1
  rw [hlcm] at hsame
  exact ⟨pke, hpke, (Option.some_inj.mp hsame).symm⟩

theorem within_lcmReads (buf : Mem) (bufLen lcm : ℕ) :
    Within bufLen (lcmReads buf bufLen lcm) := by
  rw [lcmReads]
  split
  · exact within_nil bufLen
  next hheader =>
    have hle : lcm + 12 ≤ bufLen := Nat.not_lt.mp hheader
    split
    all_goals
      simp only [within_cons, within_nil, and_true]
      omega

/-- The first pass stays within the packet, unless it takes the header of an IPv6
encapsulation for one that is there. -/
theorem within_preparseReads (h : lispType buf = lispTypeEcm → buf 4 >>> 4 = 6 →
    52 ≤ bufLen) : Within bufLen (preparseReads buf bufLen) := by
  have hlcm := within_lcmReads buf bufLen
  rw [preparseReads]
  split
  · exact within_nil bufLen
  next hfour =>
    have hle : 4 ≤ bufLen := Nat.not_lt.mp hfour
    split
    next hecm =>
      dsimp only
      rw [within_cons]
      refine ⟨by omega, ?_⟩
      split
      · exact within_nil bufLen
      next hheaders =>
        have hle' : 32 ≤ bufLen := Nat.not_lt.mp hheaders
        rw [within_cons]
        refine ⟨show 4 + 1 ≤ bufLen by omega, ?_⟩
        split
        · simp only [within_cons]
          exact ⟨show 24 + 2 ≤ bufLen by omega, show 16 + 4 ≤ bufLen by omega, hlcm _⟩
        · split
          next hv6 =>
            have hv6' := h hecm hv6
            simp only [within_cons]
            exact ⟨show 44 + 2 ≤ bufLen by omega, show 12 + 16 ≤ bufLen by omega, hlcm _⟩
          · exact within_nil bufLen
    · rw [within_cons]
      exact ⟨by omega, hlcm 0⟩

end FirstPass

/-! ## The second pass -/

section SecondPass

variable {lcm : Mem} {bound : ℕ}

theorem readItrRlocs_isSome (n k : ℕ) :
    (readItrRlocs lcm n k).isSome = (itrRlocs lcm).complete n k := by
  induction n generalizing k with
  | zero => rfl
  | succ n ih =>
      change _ = ((readAddress (lcm.advance k)).isSome &&
        (itrRlocs lcm).complete n (k + eidSize (lcm.advance k)))
      rw [readItrRlocs]
      cases haddr : readAddress (lcm.advance k) with
      | none => rfl
      | some addr =>
          have hsize : eidSize (lcm.advance k) = getAddressSize (lcm.advance k) :=
            if_pos (by rw [haddr]; rfl)
          rw [Option.isSome_map, ih, hsize, Option.isSome_some, Bool.true_and]

/-- A Map-Request without records is accepted when its ITR-RLOCs are. -/
theorem udpPrcRequest_of_zero (htype : lispType lcm = lispTypeMapRequest)
    (hcomplete : (itrRlocs lcm).complete (itrCount lcm) (firstItrRloc lcm) = true)
    (hzero : lcm 3 = 0) : ∃ itr, udpPrcRequest lcm = some (itr, []) := by
  rw [← readItrRlocs_isSome] at hcomplete
  obtain ⟨⟨itr, k⟩, hitr⟩ := Option.isSome_iff_exists.mp hcomplete
  have hitr' : readItrRlocs lcm ((lcm 2 &&& 0x1F).toNat + 1)
      (sizeofMapRequestHdr + eidSize (lcm.advance sizeofMapRequestHdr)) = some (itr, k) :=
    hitr
  refine ⟨itr, ?_⟩
  rw [udpPrcRequest, if_neg (not_not_intro htype)]
  dsimp only
  rw [hitr', hzero]
  rfl

/-- One that is accepted has accepted ITR-RLOCs. -/
theorem complete_of_udpPrcRequest {itr : List Address} {eids : List Prefix}
    (h : udpPrcRequest lcm = some (itr, eids)) :
    lispType lcm = lispTypeMapRequest ∧
      (itrRlocs lcm).complete (itrCount lcm) (firstItrRloc lcm) = true := by
  rw [udpPrcRequest] at h
  split at h
  · cases h
  next htype =>
    refine ⟨not_not.mp htype, ?_⟩
    rw [← readItrRlocs_isSome]
    dsimp only at h
    split at h
    · cases h
    next hitr => exact Option.isSome_iff_exists.mpr ⟨_, hitr⟩

/-- The second pass stays below a bound behind the header exactly when its end does. -/
theorem within_requestReads_iff (htype : lispType lcm = lispTypeMapRequest)
    (hheader : 12 ≤ bound) : Within bound (requestReads lcm) ↔ requestEnd lcm ≤ bound := by
  have hfields : Within bound [(1, 1), (2, 1), (3, 1), (4, 4), (8, 4)] := by
    simp only [within_cons, within_nil, and_true]
    omega
  have hsource : Within bound (addressReads lcm sizeofMapRequestHdr) ↔
      firstItrRloc lcm ≤ bound := within_addressReads_iff lcm bound sizeofMapRequestHdr
  have hstart := (itrRlocs lcm).le_walkEnd (itrCount lcm) (firstItrRloc lcm)
  rw [requestReads, if_neg (not_not_intro htype), within_cons, within_append, within_append,
    within_append, hsource, and_iff_right (show 0 + 1 ≤ bound by omega),
    and_iff_right hfields, requestEnd]
  split
  · constructor
    · rintro ⟨⟨hfirst, hitr⟩, hrecords⟩
      rw [Items.within_walkReads_iff _ hfirst] at hitr
      exact (Items.within_walkReads_iff _ hitr).mp hrecords
    · intro hend
      have hitr := le_trans ((requestRecords lcm).le_walkEnd _ _) hend
      have hfirst := le_trans hstart hitr
      exact ⟨⟨hfirst, (Items.within_walkReads_iff _ hfirst).mpr hitr⟩,
        (Items.within_walkReads_iff _ hitr).mpr hend⟩
  · rw [and_iff_left (within_nil bound)]
    constructor
    · rintro ⟨hfirst, hitr⟩
      exact (Items.within_walkReads_iff _ hfirst).mp hitr
    · intro hend
      have hfirst := le_trans hstart hend
      exact ⟨hfirst, (Items.within_walkReads_iff _ hfirst).mpr hend⟩

end SecondPass

/-! ## The whole path -/

section Path

variable {fncs : Functions} {buf : Mem} {bufLen : ℕ}

/-- Reads of a message at an offset that lies in the packet. -/
theorem safe_reads_iff {lcm : ℕ} (hlcm : lcm ≤ bufLen) (reads : List (ℕ × ℕ)) :
    (∀ a ∈ reads.map fun (k, n) => Access.read (lcm + k) n, a.Safe bufLen) ↔
      Within (bufLen - lcm) reads := by
  rw [List.forall_mem_map]
  apply forall₂_congr
  intro r _
  change lcm + r.1 + r.2 ≤ bufLen ↔ r.1 + r.2 ≤ bufLen - lcm
  omega

/-- What is handed to `udp_prc_request` is safe exactly when its message fits. -/
theorem requestAccesses_safe_iff :
    (∀ a ∈ requestAccesses buf bufLen, a.Safe bufLen) ↔
      ∃ lcm, messageOffset buf = some lcm ∧ MessageFits buf bufLen lcm := by
  constructor
  · intro hsafe
    rw [requestAccesses] at hsafe
    cases hpre : udpPreparsePk buf bufLen with
    | none =>
        rw [hpre] at hsafe
        exact (hsafe .nullMessage List.mem_cons_self).elim
    | some pke =>
        rw [hpre] at hsafe
        obtain ⟨hlcm, hheader, htype⟩ := udpPreparsePk_eq_some hpre
        obtain ⟨hreads, hlookup⟩ := List.forall_mem_append.mp hsafe
        rw [safe_reads_iff (by omega)] at hreads
        refine ⟨pke.lcm, hlcm, hheader, htype, fun hrequest => ?_,
          fun hrequest hcomplete hzero => ?_⟩
        · have hend := (within_requestReads_iff hrequest (by omega)).mp hreads
          omega
        · obtain ⟨itr, hprc⟩ := udpPrcRequest_of_zero hrequest hcomplete hzero
          rw [hprc] at hlookup
          exact absurd (hlookup _ List.mem_cons_self) Bool.false_ne_true
  · rintro ⟨lcm, hlcm, hfits⟩
    have hheader := hfits.header
    obtain ⟨pke, hpre, rfl⟩ := exists_udpPreparsePk hlcm hheader hfits.type
    rw [requestAccesses, hpre]
    dsimp only
    rw [List.forall_mem_append]
    constructor
    · rw [safe_reads_iff (by omega)]
      by_cases hrequest : lispType (buf.advance pke.lcm) = lispTypeMapRequest
      · apply (within_requestReads_iff hrequest (by omega)).mpr
        have hend := hfits.fields hrequest
        omega
      · rw [requestReads, if_pos hrequest, within_cons]
        exact ⟨by omega, within_nil _⟩
    · cases hprc : udpPrcRequest (buf.advance pke.lcm) with
      | none =>
          intro a ha
          cases ha
      | some result =>
          obtain ⟨itr, eids⟩ := result
          obtain ⟨hrequest, hcomplete⟩ := complete_of_udpPrcRequest hprc
          obtain ⟨addr, rest, -, rfl⟩ :=
            (udpPrcRequest_head hprc).2 (hfits.record hrequest hcomplete)
          intro a ha
          rw [List.mem_singleton.mp ha]
          exact rfl

/-- The request path reads no byte behind the packet, does not use the message pointer
of a rejected one, and looks up only prefixes that were parsed, exactly when a datagram
that is handed to `udp_prc_request` has a message that fits. -/
theorem requestPath_safe_iff (fncs : Functions) (buf : Mem) (bufLen : ℕ) :
    (∀ a ∈ requestPath fncs buf bufLen, a.Safe bufLen) ↔ RequestFits fncs buf bufLen := by
  rw [requestPath, RequestFits]
  by_cases hqueued : isQueued buf bufLen = true
  · rw [if_pos hqueued, forall_prop_of_true hqueued, List.forall_mem_append]
    have hpos : bufLen ≠ 0 := by
      intro hzero
      rw [isQueued, hzero] at hqueued
      cases hqueued
    have hfirst : (∀ a ∈ (preparseReads buf bufLen ++ [(0, 1)]).map
        fun (k, n) => Access.read k n, a.Safe bufLen) ↔
          Within bufLen (preparseReads buf bufLen) := by
      rw [List.forall_mem_map]
      change Within bufLen (preparseReads buf bufLen ++ [(0, 1)]) ↔ _
      rw [within_append, within_cons]
      exact and_iff_left ⟨by omega, within_nil bufLen⟩
    rw [hfirst]
    by_cases hpath : IsRequestPath fncs buf
    · rw [if_pos hpath, forall_prop_of_true hpath, requestAccesses_safe_iff]
      apply and_iff_right_of_imp
      rintro ⟨lcm, hlcm, hfits⟩
      apply within_preparseReads
      intro hecm hv6
      have hnot : ¬ buf sizeofLispControlHdr >>> 4 = 4 := by
        change ¬ buf 4 >>> 4 = 4
        rw [hv6]
        decide
      have hheader := hfits.header
      rw [messageOffset, if_pos hecm, if_neg hnot] at hlcm
      have hoffset : 52 = lcm := Option.some_inj.mp ((if_pos hv6).symm.trans hlcm)
      omega
    · rw [if_neg hpath]
      refine iff_of_true ⟨?_, fun a ha => by cases ha⟩ fun hpath' => absurd hpath' hpath
      apply within_preparseReads
      intro hecm
      exact absurd (Or.inl hecm) hpath
  · rw [if_neg hqueued]
    exact iff_of_true (fun a ha => by cases ha) fun hqueued' => absurd hqueued' hqueued

/-- Of an encapsulated message nothing but its first byte came in. -/
theorem not_requestPath_safe_truncated :
    ¬ ∀ fncs buf bufLen, ∀ a ∈ requestPath fncs buf bufLen, a.Safe bufLen := by
  intro h
  have hnull := h ⟨false, false, true, false⟩ (Mem.ofList [0x80] fun _ => 0) 1 .nullMessage
  exact hnull (by decide)

end Path

end HyLisp.ControlPlane
