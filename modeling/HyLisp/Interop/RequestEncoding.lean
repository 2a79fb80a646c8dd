import HyLisp.ControlPlane.RequestEncoder
import HyLisp.Interop.RequestRouting

/-!
# Map-Requests of an xTR, as they are parsed

A Map-Request that an xTR sends for a cache miss reaches a map resolver, and may pass a
hypervisor on the way.  The parser of the control plane finds the nonce, the ITR-RLOC and
the EID, and the one of the hypervisor the same EID.

The nonce is also written into the slot, at the place that `count` says.  Where lookups
share the control port no retransmission is the last one, and this place leaves the
arrays: the second word of the ninth nonce is written over `count` itself, and a later one
may stand outside the slot.
-/

namespace HyLisp.Interop

open ControlPlane DataPlane Hypervisor

/-- Both parsers take the datagram for a Map-Request with the nonce, the ITR-RLOC and the
EID, and nothing else. -/
structure ParsedAs (datagram : Mem) (len : ℕ) (nonce : UInt32 × UInt32) (itrRloc : Address)
    (eid : Prefix) : Prop where
  request : ∃ pke, udpPreparsePk datagram len = some pke ∧
    pke.type = lispTypeMapRequest ∧ pke.nonce0 = nonce.1.toNat ∧
    pke.nonce1 = nonce.2.toNat ∧
    udpPrcRequest (datagram.advance pke.lcm) = some ([itrRloc], [eid])
  extracted : extractEidCp datagram len = hvPrefix eid

section Parsed

variable {srcAddr : Vector UInt8 4} {srcAddr6 : Vector UInt8 16} {sport : UInt16}
  {eid mr : Address} {nonce : UInt32 × UInt32} {m : Mem} {len : ℕ}

/-- The headers are those of an encapsulation. -/
theorem encapsulates_of_holds
    (h : m.Holds (lookupHeaders srcAddr srcAddr6 sport eid len)) (hlen : 0 < len) :
    Encapsulates (m, headersLen eid + len) (m.advance (headersLen eid), len) := by
  obtain ⟨h0, h4⟩ := version_of_holds h
  have htype : packetType m = 8 := by
    rw [packetType, h0]
    rfl
  cases eid with
  | inet dst =>
      have hsub : headersLen (.inet dst) + len - (4 + 4 * 5 + 8) = len :=
        Nat.add_sub_cancel_left _ _
      have hstep := @Encapsulates.ipv4 m (headersLen (.inet dst) + len) 5 htype
        (by rw [h4, versionByte]; rfl) (by rw [h4, versionByte]; rfl)
        (Nat.lt_add_of_pos_right hlen)
      rwa [hsub] at hstep
  | inet6 dst =>
      have hsub : headersLen (.inet6 dst) + len - (4 + 40 + 8) = len :=
        Nat.add_sub_cancel_left _ _
      have hstep := @Encapsulates.ipv6 m (headersLen (.inet6 dst) + len) htype
        (by rw [h4, versionByte]; rfl) (Nat.lt_add_of_pos_right hlen)
      rwa [hsub] at hstep

/-- Both parsers find what the Map-Request was built from. -/
theorem parsedAs_of_holds (h : m.Holds (lookupBytes srcAddr srcAddr6 sport eid mr nonce)) :
    ParsedAs m (lookupBytes srcAddr srcAddr6 sport eid mr nonce).length nonce
      (sourceFor srcAddr srcAddr6 mr) (hostPrefix eid) := by
  rw [lookupBytes, Mem.holds_append, length_lookupHeaders] at h
  obtain ⟨hheaders, hlcm⟩ := h
  have hlen : (lookupBytes srcAddr srcAddr6 sport eid mr nonce).length = headersLen eid +
      (lookupRequest eid (sourceFor srcAddr srcAddr6 mr) nonce).toBytes.length := by
    rw [lookupBytes, List.length_append, length_lookupHeaders]
  have hpos : 0 < (lookupRequest eid (sourceFor srcAddr srcAddr6 mr) nonce).toBytes.length :=
    Nat.zero_lt_succ _
  rw [hlen]
  constructor
  · obtain ⟨ecm, hecm⟩ := udpPreparsePk_of_holds hheaders (Nat.le_add_right _ _)
    refine ⟨_, hecm.trans (preparseLcm_of_holds (some ecm) hlcm (Nat.le_refl _)), rfl, rfl,
      rfl, ?_⟩
    exact udpPrcRequest_of_holds rfl rfl hlcm
  · have hstripped := extractEidCp_of_stripped
      (Relation.ReflTransGen.single (encapsulates_of_holds hheaders hpos))
    exact hstripped.trans (extractEidCp_of_holds hlcm (Nat.le_refl _))

end Parsed

/-- The first pass finds one nonce. -/
theorem ParsedAs.nonce_unique {m : Mem} {len : ℕ} {nonce nonce' : UInt32 × UInt32}
    {itrRloc itrRloc' : Address} {eid eid' : Prefix} (h : ParsedAs m len nonce itrRloc eid)
    (h' : ParsedAs m len nonce' itrRloc' eid') : nonce = nonce' := by
  obtain ⟨pke, hpke, -, hfst, hsnd, -⟩ := h.request
  obtain ⟨pke', hpke', -, hfst', hsnd', -⟩ := h'.request
  obtain rfl : pke = pke' := Option.some_inj.mp (hpke.symm.trans hpke')
  exact Prod.ext (UInt32.toNat_inj.mp (hfst.symm.trans hfst'))
    (UInt32.toNat_inj.mp (hsnd.symm.trans hsnd'))

/-- The Map-Request with a nonce that is sent for a slot is parsed as one with the nonce
that is recorded in the slot afterwards, with the source address of the map resolver's
family as the only ITR-RLOC, and with the EID as the only record, its mask that of a host;
the hypervisor finds the same EID. -/
structure SentAsRecorded (srcAddr : Vector UInt8 4) (srcAddr6 : Vector UInt8 16)
    (l : EidLookup) (memory : ℤ → UInt32) (nonce : UInt32 × UInt32) (eid mr : Address) :
    Prop where
  inSlot_fst : InSlot l.cnt
  inSlot_snd : InSlot (l.cnt + maxCount)
  parsed : ∃ datagram, l.datagram srcAddr srcAddr6 nonce = some datagram ∧
    ∀ m : Mem, m.Holds datagram → ParsedAs m datagram.length
      (memory l.cnt, memory (l.cnt + maxCount))
      (sourceFor srcAddr srcAddr6 mr) (hostPrefix eid)

section Slot

variable {srcportRand : Bool} {l : EidLookup} {memory memory' : ℤ → UInt32}
  {attempt : Attempt} {nonce : UInt32 × UInt32} {eid mr : Address}
  {srcAddr : Vector UInt8 4} {srcAddr6 : Vector UInt8 16}

theorem datagram_eq (heid : slotEid l.eid = some eid) (hmr : l.mr = some mr) :
    l.datagram srcAddr srcAddr6 nonce =
      some (lookupBytes srcAddr srcAddr6 (l.words 6).toUInt16 eid mr nonce) := by
  rw [EidLookup.datagram, heid, hmr]

/-- The parsers find the nonce that was sent, so this is the one recorded in the slot. -/
theorem SentAsRecorded.recordedAt (h : SentAsRecorded srcAddr srcAddr6 l memory nonce eid mr)
    (heid : slotEid l.eid = some eid) (hmr : l.mr = some mr) : l.RecordedAt memory nonce := by
  obtain ⟨datagram, hsome, hparsed⟩ := h.parsed
  obtain rfl := Option.some_inj.mp ((datagram_eq heid hmr).symm.trans hsome)
  have hholds := Mem.holds_ofList
    (lookupBytes srcAddr srcAddr6 (l.words 6).toUInt16 eid mr nonce) fun _ => 0
  obtain ⟨hfst, hsnd⟩ := Prod.ext_iff.mp
    ((hparsed _ hholds).nonce_unique (parsedAs_of_holds hholds))
  exact ⟨h.inSlot_fst, h.inSlot_snd, hfst, hsnd⟩

theorem sentAsRecorded_of_recordedAt (h : l.RecordedAt memory nonce)
    (heid : slotEid l.eid = some eid) (hmr : l.mr = some mr) :
    SentAsRecorded srcAddr srcAddr6 l memory nonce eid mr := by
  refine ⟨h.inSlot_fst, h.inSlot_snd, _, datagram_eq heid hmr, fun m hm => ?_⟩
  rw [h.fst_eq, h.snd_eq]
  exact parsedAs_of_holds hm

/-- What is sent for a slot is parsed as what the slot records, if and only if the nonce has
a place in the slot and is not written over `count`. -/
theorem sentAsRecorded_iff (srcAddr : Vector UInt8 4) (srcAddr6 : Vector UInt8 16)
    (hat : l.At memory) (heid : slotEid l.eid = some eid) (hmr : l.mr = some mr)
    (hsend : sendMrAt srcportRand memory attempt = (memory', some nonce)) :
    SentAsRecorded srcAddr srcAddr6 l memory' nonce eid mr ↔ l.CountApart := by
  rw [← recordedAt_iff_countApart hat hsend]
  exact ⟨fun h => h.recordedAt heid hmr, fun h => sentAsRecorded_of_recordedAt h heid hmr⟩

end Slot

/-- The slot of a miss for 10.0.0.1, after its Map-Request was sent a number of times
without `srcport_rand`. -/
def retriedLookup : ℕ → EidLookup
  | 0 => emptyLookup.renew (Mem.ofList [16, 2, 0, 0, 10, 0, 0, 1] fun _ => 0) 16 5 lispCpPort
      (Vector.replicate 4 0) (.inet6 (Vector.replicate 16 1))
  | n + 1 =>
      match sendMr false (retriedLookup n) ⟨(7, 9), true⟩ with
      | some (l, _) => l
      | none => retriedLookup n

/-- The words of a slot in a memory with nothing before them. -/
def wordsFrom (l : EidLookup) (place : ℤ) : UInt32 :=
  l.words place.toNat

theorem at_wordsFrom (l : EidLookup) : l.At (wordsFrom l) :=
  fun _ _ => rfl

/-- The first Map-Request of the lookup. -/
theorem sentAsRecorded_iff_first :
    SentAsRecorded (Vector.replicate 4 2) (Vector.replicate 16 2) (retriedLookup 0)
      (sendMrAt false (wordsFrom (retriedLookup 0)) ⟨(7, 9), true⟩).1 (7, 9)
      (.inet #v[10, 0, 0, 1]) (.inet6 (Vector.replicate 16 1)) :=
  (sentAsRecorded_iff _ _ (at_wordsFrom (retriedLookup 0)) rfl rfl
    (rfl : sendMrAt false (wordsFrom (retriedLookup 0)) ⟨(7, 9), true⟩ = _)).mpr (by decide)

set_option maxRecDepth 4000 in
/-- The second word of the ninth nonce is written over the count, which is then
increased. -/
theorem not_sentAsRecorded_ninth :
    ¬ ∀ (srcportRand : Bool) (l : EidLookup) (memory memory' : ℤ → UInt32)
        (attempt : Attempt) (nonce : UInt32 × UInt32) (eid mr : Address)
        (srcAddr : Vector UInt8 4) (srcAddr6 : Vector UInt8 16),
      l.At memory → slotEid l.eid = some eid → l.mr = some mr →
        sendMrAt srcportRand memory attempt = (memory', some nonce) →
          SentAsRecorded srcAddr srcAddr6 l memory' nonce eid mr := by
  intro h
  have hat := at_wordsFrom (retriedLookup 8)
  have hsend : sendMrAt false (wordsFrom (retriedLookup 8)) ⟨(7, 9), true⟩ =
      (_, some (7, 9)) := rfl
  have heid : slotEid (retriedLookup 8).eid = some (.inet #v[10, 0, 0, 1]) := rfl
  have hmr : (retriedLookup 8).mr = some (.inet6 (Vector.replicate 16 1)) := rfl
  have hrecorded := (h false _ _ _ _ _ _ _ (Vector.replicate 4 2) (Vector.replicate 16 2)
    hat heid hmr hsend).recordedAt heid hmr
  revert hrecorded
  rw [recordedAt_iff_countApart hat hsend]
  decide

end HyLisp.Interop
