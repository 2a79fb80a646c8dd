import HyLisp.ControlPlane.MapReply
import HyLisp.Support.Transition
import Mathlib.Data.List.FinRange

/-!
# Pending lookups of an xTR

A cache miss opens a lookup: a Map-Request is sent with a fresh nonce, and sent
again with another one as long as no reply comes.  A Map-Reply is accepted by its
nonce.  With `srcport_rand` every lookup has a socket of its own, read by
`read_mr`; without it the replies come in on the control port, and `get_mr`
searches the whole table.

Both searches look at four nonces where a slot has three, and neither looks at
`count` or `active`.  What the fourth one is depends on the layout of the slot,
so a slot is modelled by its words from the nonces on.  The state also records
which nonces were sent for the lookup of a slot; no code reads this record.
-/

namespace HyLisp.ControlPlane

open DataPlane Transition

/-- `MAX_LOOKUPS` -/
def maxLookups : ℕ := 100

/-- `MAX_COUNT` -/
def maxCount : ℕ := 3

/-- `COUNT` -/
def countLimit : Int32 := 3

/-- `LISP_CP_PORT` -/
def lispCpPort : UInt16 := 4342

/-! ## Slots -/

/-- `eid_lookup`.  The words start at `nonce0`: three of it, three of `nonce1`,
`sport` with two bytes of padding, four of `start`, `count`, one of padding, and
two of `active`. -/
structure EidLookup where
  eid : Mem
  rx : ℕ
  words : ℕ → UInt32
  mr : Option Address

namespace EidLookup

/-- The words of a slot before `mr`. -/
def sizeofWords : ℕ := 15

/-- `count` -/
def count (l : EidLookup) : UInt32 :=
  l.words 11

/-- `active` is not zero. -/
def isActive (l : EidLookup) : Bool :=
  l.words 13 != 0 || l.words 14 != 0

/-- An assignment to `active`. -/
def setActive (l : EidLookup) (active : UInt32) : EidLookup :=
  { l with words := Function.update (Function.update l.words 13 active) 14 0 }

/-- An assignment to `count`. -/
def setCount (l : EidLookup) (count : UInt32) : EidLookup :=
  { l with words := Function.update l.words 11 count }

/-- The assignments to `nonce0[cnt]` and `nonce1[cnt]`. -/
def setNonces (l : EidLookup) (cnt : ℕ) (nonce : UInt32 × UInt32) : EidLookup :=
  { l with
    words := Function.update (Function.update l.words cnt nonce.1) (cnt + maxCount)
      nonce.2 }

/-- The search for a nonce in a slot, with its inclusive bound. -/
def findNonce (l : EidLookup) (nonce : UInt32 × UInt32) : Option ℕ :=
  (List.range (maxCount + 1)).find? fun i =>
    l.words i == nonce.1 && l.words (i + maxCount) == nonce.2

end EidLookup

/-- A slot before its first use. -/
def emptyLookup : EidLookup where
  eid := fun _ => 0
  rx := 0
  words := fun _ => 0
  mr := none

/-! ## Sending -/

/-- What the system contributes to a Map-Request: the nonce drawn, and whether
the datagram could be sent. -/
structure Attempt where
  nonce : UInt32 × UInt32
  sent : Bool

/-- `send_mr` on a slot: the slot afterwards, and the nonce of the Map-Request if
one was sent.  A write behind the words of the slot is a failure. -/
def sendMr (srcportRand : Bool) (l : EidLookup) (attempt : Attempt) :
    Option (EidLookup × Option (UInt32 × UInt32)) :=
  if countLimit ≤ l.count.toInt32 ∧ srcportRand = true then
    some (l.setActive 0, none)
  else if attempt.sent then
    let cnt := l.count.toNat
    if cnt + maxCount < EidLookup.sizeofWords then
      let l := l.setNonces cnt attempt.nonce
      some (l.setCount (l.count + 1), some attempt.nonce)
    else none
  else some (l, none)

/-- `_get_sock_size`, by the family of a sockaddr. -/
def getSockSize (ss : Mem) : Option ℕ :=
  if ss 1 = afInet then some sizeofSockaddrIn
  else if ss 1 = afInet6 then some sizeofSockaddrIn6
  else none

/-- The slot of the mapping socket. -/
def mappingSlot : Fin maxLookups :=
  ⟨0, by decide⟩

/-- The slots of lookups: all but the first one. -/
def slots : List (Fin maxLookups) :=
  (List.finRange maxLookups).tail

/-- `check_eid`: no active lookup is for the EID. -/
def checkEid (lookups : Fin maxLookups → EidLookup) (eid : Mem) (len : ℕ) : Bool :=
  slots.all fun i =>
    !((lookups i).isActive && Mem.sameBytes eid (lookups i).eid len)

/-- The two halves of a `time_t` and of the nanoseconds. -/
abbrev Timespec := Vector UInt32 4

/-- A slot taken into use by `new_lookup`, before the Map-Request is sent.  Of the
nonces nothing is cleared. -/
def EidLookup.renew (l : EidLookup) (eid : Mem) (len : ℕ) (rx : ℕ) (sport : UInt16)
    (start : Timespec) (mr : Address) : EidLookup :=
  let words := fun k =>
    if k = 6 then l.words 6 &&& 0xFFFF0000 ||| sport.toUInt32
    else if h : 7 ≤ k ∧ k < 11 then start.get ⟨k - 7, by omega⟩
    else l.words k
  EidLookup.setActive
    (EidLookup.setCount ⟨Mem.splice eid len l.eid, rx, words, some mr⟩ 0) 1

/-! ## Replies -/

/-- The nonce of a Map-Reply. -/
def replyNonce (buf : Mem) : UInt32 × UInt32 :=
  (.ofNat (buf.be32 4), .ofNat (buf.be32 8))

/-- A Map-Reply that counts a record. -/
def IsReply (buf : Mem) : Prop :=
  lispType buf = lispTypeMapReply ∧ buf 3 ≠ 0

instance (buf : Mem) : Decidable (IsReply buf) :=
  inferInstanceAs (Decidable (_ ∧ _))

/-- The mappings a Map-Reply hands to the data plane once it is accepted. -/
def replyMappings (cfg : ReplyConfig) (buf : Mem) : List ReplyMapping :=
  readRecs cfg buf (buf 3).toNat 12

/-- `read_mr` on the slot whose socket is read: the slot afterwards, and the
mappings handed to the data plane. -/
def readMr (cfg : ReplyConfig) (l : EidLookup) (buf : Mem) :
    EidLookup × List ReplyMapping :=
  if IsReply buf ∧ (l.findNonce (replyNonce buf)).isSome then
    (l.setActive 0, replyMappings cfg buf)
  else (l, [])

/-- The search of `get_mr` over the slots. -/
def findSlot (lookups : Fin maxLookups → EidLookup) (nonce : UInt32 × UInt32) :
    Option (Fin maxLookups) :=
  slots.find? fun idx => ((lookups idx).findNonce nonce).isSome

/-- `get_mr`.  When no slot is found the index is `MAX_LOOKUPS`, which the test
behind the search lets pass: the mappings are handed over all the same, and the
word set to zero lies behind the table. -/
def getMr (cfg : ReplyConfig) (lookups : Fin maxLookups → EidLookup) (buf : Mem) :
    (Fin maxLookups → EidLookup) × List ReplyMapping :=
  if IsReply buf then
    (match findSlot lookups (replyNonce buf) with
      | some idx => Function.update lookups idx ((lookups idx).setActive 0)
      | none => lookups,
      replyMappings cfg buf)
  else (lookups, [])

/-! ## Runs -/

/-- The table of lookups and the mappings handed to the data plane; `sent` records
the nonces sent for the lookup of a slot. -/
structure LookupState where
  lookups : Fin maxLookups → EidLookup
  cache : List ReplyMapping
  sent : Fin maxLookups → List (UInt32 × UInt32)

/-- The table before the first miss. -/
def LookupState.init : LookupState where
  lookups := fun _ => emptyLookup
  cache := []
  sent := fun _ => []

/-- What happens to the table: a cache miss, with the map resolver chosen for it,
the socket and port a new lookup gets, and the time; the timeout of a slot; a
datagram on the socket of a slot; a datagram on the control port. -/
inductive LookupEvent
  | miss (eid : Mem) (mr : Address) (socket : Option ℕ) (sport : UInt16)
      (start : Timespec) (attempt : Attempt)
  | timeout (idx : Fin maxLookups) (attempt : Attempt)
  | datagram (idx : Fin maxLookups) (buf : Mem)
  | control (buf : Mem)

section Step

variable (cfg : ReplyConfig) (srcportRand : Bool)

/-- `send_mr` on a slot of the table. -/
def sendSlot (s : LookupState) (idx : Fin maxLookups) (attempt : Attempt) :
    Option LookupState :=
  (sendMr srcportRand (s.lookups idx) attempt).map fun (l, nonce) =>
    { s with
      lookups := Function.update s.lookups idx l
      sent := Function.update s.sent idx (s.sent idx ++ nonce.toList) }

/-- `new_lookup` -/
def newLookup (s : LookupState) (eid : Mem) (len : ℕ) (mr : Address)
    (socket : Option ℕ) (sport : UInt16) (start : Timespec) (attempt : Attempt) :
    Option LookupState :=
  match slots.find? fun i => !(s.lookups i).isActive, socket with
  | some i, some r =>
      let sport := if srcportRand then sport else lispCpPort
      let l := (s.lookups i).renew eid len r sport start mr
      sendSlot srcportRand
        { s with
          lookups := Function.update s.lookups i l
          sent := Function.update s.sent i [] } i attempt
  | _, _ => some s

/-- One event.  The poll set holds the sockets of the active lookups, and only
with `srcport_rand`; the control port serves replies only without it.  A timeout
is for a slot that was active when the poll set was built. -/
def lookupStep (s : LookupState) : LookupEvent → Option LookupState
  | .miss eid mr socket sport start attempt =>
      match getSockSize eid with
      | none => none
      | some len =>
          if checkEid s.lookups eid len then
            newLookup srcportRand s eid len mr socket sport start attempt
          else some s
  | .timeout idx attempt => sendSlot srcportRand s idx attempt
  | .datagram idx buf =>
      if srcportRand && (s.lookups idx).isActive then
        let read := readMr cfg (s.lookups idx) buf
        some { s with
          lookups := Function.update s.lookups idx read.1
          cache := s.cache ++ read.2 }
      else some s
  | .control buf =>
      if srcportRand then some s
      else
        let read := getMr cfg s.lookups buf
        some { s with lookups := read.1, cache := s.cache ++ read.2 }

end Step

/-! ## Authentic replies -/

section Authentic

variable (cfg : ReplyConfig) (srcportRand : Bool)

/-- The nonce is one of the `count` nonces sent for the active lookup of the
slot. -/
def SentFor (s : LookupState) (idx : Fin maxLookups) (nonce : UInt32 × UInt32) :
    Prop :=
  (s.lookups idx).isActive = true ∧
    (s.sent idx).length = (s.lookups idx).count.toNat ∧ nonce ∈ s.sent idx

/-- The reply changed nothing, or it answers the lookup of a slot, which is the
one it deactivates. -/
def Answers (s s' : LookupState) (buf : Mem) (idx : Fin maxLookups) : Prop :=
  s'.lookups = s.lookups ∧ s'.cache = s.cache ∨
    SentFor s idx (replyNonce buf) ∧
      s'.lookups = Function.update s.lookups idx ((s.lookups idx).setActive 0) ∧
      s'.cache = s.cache ++ replyMappings cfg buf

/-- Replies are authentic: a datagram on the socket of a lookup answers this
lookup, and one on the control port answers some lookup; any other one changes
nothing. -/
def Authentic (s : LookupState) : LookupEvent → Prop
  | .datagram idx buf => ∀ s', lookupStep cfg srcportRand s (.datagram idx buf) =
      some s' → Answers cfg s s' buf idx
  | .control buf => ∀ s', lookupStep cfg srcportRand s (.control buf) = some s' →
      ∃ idx, Answers cfg s s' buf idx
  | _ => True

/-- The nonce stands at place `i` of a slot. -/
def EidLookup.HasNonce (l : EidLookup) (nonce : UInt32 × UInt32) (i : ℕ) : Prop :=
  l.words i = nonce.1 ∧ l.words (i + maxCount) = nonce.2

/-- The nonce stands at a place that was written for the lookup of the slot. -/
def EidLookup.HasBelowCount (l : EidLookup) (nonce : UInt32 × UInt32) : Prop :=
  ∃ i, i < l.count.toNat ∧ l.HasNonce nonce i

/-- The steps that stay clear of the inclusive bounds: without `srcport_rand` no
Map-Request is sent for a lookup that has three already; the nonce of a reply read
from a lookup's socket stands below `count` if it stands at one of the four places
at all; on the control port, the first slot that has the nonce of a reply at one
of the four places is active and has it below `count`. -/
def Safe (s : LookupState) : LookupEvent → Prop
  | .miss .. => True
  | .timeout idx attempt =>
      srcportRand = true ∨ (s.lookups idx).count.toNat < maxCount ∨ attempt.sent = false
  | .datagram idx buf =>
      srcportRand = true → (s.lookups idx).isActive = true → IsReply buf →
        (∃ i ≤ maxCount, (s.lookups idx).HasNonce (replyNonce buf) i) →
          (s.lookups idx).HasBelowCount (replyNonce buf)
  | .control buf =>
      srcportRand = false → IsReply buf →
        ∃ idx ∈ slots, (s.lookups idx).isActive = true ∧
          (s.lookups idx).HasBelowCount (replyNonce buf) ∧
          ∀ idx' ∈ slots, idx' < idx → ∀ i ≤ maxCount,
            ¬ (s.lookups idx').HasNonce (replyNonce buf) i

end Authentic

/-! ## What a slot records -/

/-- The nonces below `count` are those sent for the lookup of the slot. -/
structure EidLookup.Records (l : EidLookup) (sent : List (UInt32 × UInt32)) :
    Prop where
  length_eq : sent.length = l.count.toNat
  count_le : l.count.toNat ≤ maxCount
  nonces : ∀ i (hi : i < sent.length),
    sent[i] = (l.words i, l.words (i + maxCount))

section Records

variable {l l' : EidLookup} {sent : List (UInt32 × UInt32)}

theorem maxCount_eq : maxCount = 3 := rfl

theorem words_setActive (l : EidLookup) (active : UInt32) {k : ℕ} (hk : k < 13) :
    (l.setActive active).words k = l.words k := by
  change Function.update (Function.update l.words 13 active) 14 0 k = l.words k
  rw [Function.update_of_ne (by omega), Function.update_of_ne (by omega)]

theorem count_setCount (l : EidLookup) (count : UInt32) :
    (l.setCount count).count = count := by
  change Function.update l.words 11 count 11 = count
  rw [Function.update_self]

theorem words_setCount (l : EidLookup) (count : UInt32) {k : ℕ} (hk : k ≠ 11) :
    (l.setCount count).words k = l.words k := by
  change Function.update l.words 11 count k = l.words k
  rw [Function.update_of_ne hk]

theorem words_setNonces (l : EidLookup) (cnt : ℕ) (nonce : UInt32 × UInt32)
    {k : ℕ} (hk : k ≠ cnt) (hk' : k ≠ cnt + maxCount) :
    (l.setNonces cnt nonce).words k = l.words k := by
  change Function.update (Function.update l.words cnt nonce.1) (cnt + maxCount)
    nonce.2 k = l.words k
  rw [Function.update_of_ne hk', Function.update_of_ne hk]

theorem words_setNonces_fst (l : EidLookup) (cnt : ℕ) (nonce : UInt32 × UInt32) :
    (l.setNonces cnt nonce).words cnt = nonce.1 := by
  change Function.update (Function.update l.words cnt nonce.1) (cnt + maxCount)
    nonce.2 cnt = nonce.1
  rw [Function.update_of_ne (by rw [maxCount_eq]; omega), Function.update_self]

theorem words_setNonces_snd (l : EidLookup) (cnt : ℕ) (nonce : UInt32 × UInt32) :
    (l.setNonces cnt nonce).words (cnt + maxCount) = nonce.2 := by
  change Function.update (Function.update l.words cnt nonce.1) (cnt + maxCount)
    nonce.2 (cnt + maxCount) = nonce.2
  rw [Function.update_self]

/-- Only `count` and the nonces below it are recorded. -/
theorem EidLookup.Records.setActive (h : l.Records sent) (active : UInt32) :
    (l.setActive active).Records sent := by
  have hlength := h.length_eq
  have hle := h.count_le
  have hcount : (l.setActive active).count = l.count :=
    words_setActive l active (by omega)
  rw [maxCount_eq] at hle
  refine ⟨by rw [hcount, hlength], by rw [hcount]; exact hle, fun i hi => ?_⟩
  rw [h.nonces i hi, words_setActive l active (by omega),
    words_setActive l active (by rw [maxCount_eq]; omega)]

/-- A lookup just opened has nothing recorded. -/
theorem EidLookup.records_renew (l : EidLookup) (eid : Mem) (len rx : ℕ)
    (sport : UInt16) (start : Timespec) (mr : Address) :
    (l.renew eid len rx sport start mr).Records [] := by
  have hcount : (l.renew eid len rx sport start mr).count = 0 := by
    rw [EidLookup.renew, EidLookup.count, words_setActive _ _ (by omega)]
    exact count_setCount _ 0
  refine ⟨?_, ?_, fun i hi => ?_⟩
  · rw [hcount]
    rfl
  · rw [hcount]
    exact Nat.zero_le _
  · cases hi

theorem count_lt_of_not_limit (hle : l.count.toNat ≤ maxCount)
    (hlimit : ¬ countLimit ≤ l.count.toInt32) : l.count.toNat < maxCount := by
  rw [maxCount_eq] at hle ⊢
  by_contra hge
  have hthree : l.count = 3 :=
    UInt32.toNat_inj.mp (show l.count.toNat = 3 by omega)
  exact hlimit (by rw [hthree]; decide)

/-- Sending a Map-Request records its nonce, as long as there is room for it. -/
theorem EidLookup.Records.append (h : l.Records sent)
    (hroom : l.count.toNat < maxCount) (nonce : UInt32 × UInt32) :
    EidLookup.Records
      ((l.setNonces l.count.toNat nonce).setCount
        ((l.setNonces l.count.toNat nonce).count + 1)) (sent ++ [nonce]) := by
  have hlength := h.length_eq
  rw [maxCount_eq] at hroom
  have hsame : (l.setNonces l.count.toNat nonce).count = l.count :=
    words_setNonces l _ nonce (by omega) (by rw [maxCount_eq]; omega)
  have hnext : (l.count + 1).toNat = l.count.toNat + 1 := by
    have hone : (1 : UInt32).toNat = 1 := rfl
    rw [UInt32.toNat_add, hone]
    omega
  rw [hsame]
  refine ⟨?_, ?_, fun i hi => ?_⟩
  · rw [count_setCount, hnext, List.length_append, hlength, List.length_singleton]
  · rw [count_setCount, hnext, maxCount_eq]
    omega
  · rw [List.length_append, List.length_singleton] at hi
    rw [words_setCount _ _ (by omega),
      words_setCount _ _ (by rw [maxCount_eq]; omega)]
    by_cases hold : i < sent.length
    · rw [List.getElem_append_left hold, h.nonces i hold,
        words_setNonces _ _ _ (by omega) (by rw [maxCount_eq]; omega),
        words_setNonces _ _ _ (by rw [maxCount_eq]; omega)
          (by rw [maxCount_eq]; omega)]
    · obtain rfl : i = l.count.toNat := by omega
      rw [List.getElem_append_right (by omega), words_setNonces_fst,
        words_setNonces_snd]
      simp [hlength]

/-- What `send_mr` leaves behind, by the three ways it ends. -/
theorem sendMr_cases {srcportRand : Bool} {attempt : Attempt}
    {nonce : Option (UInt32 × UInt32)}
    (h : sendMr srcportRand l attempt = some (l', nonce)) :
    l' = l.setActive 0 ∧ nonce = none ∨
      l' = l ∧ nonce = none ∨
      (srcportRand = true → ¬ countLimit ≤ l.count.toInt32) ∧
        attempt.sent = true ∧
        l' = (l.setNonces l.count.toNat attempt.nonce).setCount
          ((l.setNonces l.count.toNat attempt.nonce).count + 1) ∧
        nonce = some attempt.nonce := by
  unfold sendMr at h
  split at h
  · obtain ⟨rfl, rfl⟩ := Prod.mk.inj (Option.some_inj.mp h)
    exact Or.inl ⟨rfl, rfl⟩
  next hlimit =>
    split at h
    next hsent =>
      dsimp only at h
      split at h
      · obtain ⟨rfl, rfl⟩ := Prod.mk.inj (Option.some_inj.mp h)
        exact Or.inr (Or.inr
          ⟨fun hrand hge => hlimit ⟨hge, hrand⟩, hsent, rfl, rfl⟩)
      · cases h
    · obtain ⟨rfl, rfl⟩ := Prod.mk.inj (Option.some_inj.mp h)
      exact Or.inr (Or.inl ⟨rfl, rfl⟩)

theorem EidLookup.Records.sendMr (h : l.Records sent) {srcportRand : Bool}
    {attempt : Attempt} {nonce : Option (UInt32 × UInt32)}
    (hroom : srcportRand = true ∨ l.count.toNat < maxCount ∨ attempt.sent = false)
    (hsend : ControlPlane.sendMr srcportRand l attempt = some (l', nonce)) :
    l'.Records (sent ++ nonce.toList) := by
  rcases sendMr_cases hsend with
    ⟨rfl, rfl⟩ | ⟨rfl, rfl⟩ | ⟨hlimit, hsent, rfl, rfl⟩
  · rw [Option.toList_none, List.append_nil]
    exact h.setActive 0
  · rw [Option.toList_none, List.append_nil]
    exact h
  · refine h.append ?_ attempt.nonce
    rcases hroom with hrand | hlt | hunsent
    · exact count_lt_of_not_limit h.count_le (hlimit hrand)
    · exact hlt
    · rw [hunsent] at hsent
      cases hsent

/-- The search in a slot looks at one place too many. -/
theorem findNonce_isSome {nonce : UInt32 × UInt32} :
    (l.findNonce nonce).isSome = true ↔ ∃ i ≤ maxCount, l.HasNonce nonce i := by
  rw [EidLookup.findNonce, List.find?_isSome]
  simp only [List.mem_range, Nat.lt_succ_iff, Bool.and_eq_true, beq_iff_eq,
    EidLookup.HasNonce]

/-- A nonce that stands below `count` was sent. -/
theorem EidLookup.Records.mem_of_hasBelowCount (h : l.Records sent)
    {nonce : UInt32 × UInt32} (hnonce : l.HasBelowCount nonce) : nonce ∈ sent := by
  obtain ⟨i, hlt, hfst, hsnd⟩ := hnonce
  rw [← h.length_eq] at hlt
  have hget := h.nonces i hlt
  rw [hfst, hsnd] at hget
  exact List.mem_of_getElem hget

/-- A nonce that stands below `count` is found. -/
theorem EidLookup.Records.findNonce_isSome (h : l.Records sent)
    {nonce : UInt32 × UInt32} (hnonce : l.HasBelowCount nonce) :
    (l.findNonce nonce).isSome = true := by
  obtain ⟨i, hlt, hi⟩ := hnonce
  exact ControlPlane.findNonce_isSome.mpr
    ⟨i, le_of_lt (lt_of_lt_of_le hlt h.count_le), hi⟩

end Records

/-! ## Runs of authentic replies -/

/-- Every slot records the nonces sent for its lookup. -/
def LookupState.Recorded (s : LookupState) : Prop :=
  ∀ idx, (s.lookups idx).Records (s.sent idx)

theorem recorded_init : LookupState.init.Recorded := by
  intro idx
  refine ⟨rfl, Nat.zero_le _, fun i hi => ?_⟩
  cases hi

namespace LookupState.Recorded

variable {cfg : ReplyConfig} {srcportRand : Bool} {s s' : LookupState}
  {idx : Fin maxLookups}

theorem update (h : s.Recorded) (idx : Fin maxLookups) {l : EidLookup}
    {sent : List (UInt32 × UInt32)} (hl : l.Records sent)
    (cache : List ReplyMapping) :
    Recorded ⟨Function.update s.lookups idx l, cache,
      Function.update s.sent idx sent⟩ := by
  intro j
  change (Function.update s.lookups idx l j).Records
    (Function.update s.sent idx sent j)
  by_cases hj : j = idx
  · subst hj
    rw [Function.update_self, Function.update_self]
    exact hl
  · rw [Function.update_of_ne hj, Function.update_of_ne hj]
    exact h j

theorem setActive (h : s.Recorded) (idx : Fin maxLookups)
    (cache : List ReplyMapping) :
    Recorded ⟨Function.update s.lookups idx ((s.lookups idx).setActive 0), cache,
      s.sent⟩ := by
  have hupdate := h.update idx ((h idx).setActive 0) cache
  rwa [Function.update_eq_self] at hupdate

theorem sendSlot (h : s.Recorded) {attempt : Attempt}
    (hroom : srcportRand = true ∨ (s.lookups idx).count.toNat < maxCount ∨
      attempt.sent = false)
    (hstep : ControlPlane.sendSlot srcportRand s idx attempt = some s') :
    s'.Recorded := by
  obtain ⟨⟨l, nonce⟩, hsend, rfl⟩ := Option.map_eq_some_iff.mp hstep
  exact h.update idx ((h idx).sendMr hroom hsend) s.cache

theorem newLookup (h : s.Recorded) {eid : Mem} {len : ℕ} {mr : Address}
    {socket : Option ℕ} {sport : UInt16} {start : Timespec} {attempt : Attempt}
    (hstep : ControlPlane.newLookup srcportRand s eid len mr socket sport start
      attempt = some s') : s'.Recorded := by
  unfold ControlPlane.newLookup at hstep
  cases hslot : slots.find? fun i => !(s.lookups i).isActive with
  | none =>
      rw [hslot] at hstep
      rw [← Option.some_inj.mp hstep]
      exact h
  | some i =>
      rw [hslot] at hstep
      cases socket with
      | none =>
          rw [← Option.some_inj.mp hstep]
          exact h
      | some r =>
          have hrenew := (s.lookups i).records_renew eid len r
            (if srcportRand then sport else lispCpPort) start mr
          refine (h.update i hrenew s.cache).sendSlot (Or.inr (Or.inl ?_)) hstep
          -- a new lookup has sent nothing
          dsimp only
          rw [Function.update_self, ← hrenew.length_eq]
          decide

/-- A step keeps the record, unless a timeout sends a Map-Request too many. -/
theorem step (h : s.Recorded) {e : LookupEvent}
    (hroom : ∀ idx attempt, e = .timeout idx attempt →
      srcportRand = true ∨ (s.lookups idx).count.toNat < maxCount ∨
        attempt.sent = false)
    (hstep : lookupStep cfg srcportRand s e = some s') : s'.Recorded := by
  cases e with
  | miss eid mr socket sport start attempt =>
      rw [lookupStep] at hstep
      split at hstep
      · cases hstep
      · split at hstep
        · exact h.newLookup hstep
        · rw [← Option.some_inj.mp hstep]
          exact h
  | timeout idx attempt => exact h.sendSlot (hroom idx attempt rfl) hstep
  | datagram idx buf =>
      rw [lookupStep] at hstep
      split at hstep
      · rw [← Option.some_inj.mp hstep, readMr]
        split
        · exact h.setActive idx _
        · dsimp only
          rw [Function.update_eq_self]
          exact h
      · rw [← Option.some_inj.mp hstep]
        exact h
  | control buf =>
      rw [lookupStep] at hstep
      split at hstep
      · rw [← Option.some_inj.mp hstep]
        exact h
      · rw [← Option.some_inj.mp hstep, getMr]
        by_cases hreply : IsReply buf
        · rw [if_pos hreply]
          cases findSlot s.lookups (replyNonce buf) with
          | none => exact h
          | some idx => exact h.setActive idx _
        · rw [if_neg hreply]
          exact h

theorem step_of_safe (h : s.Recorded) {e : LookupEvent}
    (hsafe : Safe srcportRand s e) (hstep : lookupStep cfg srcportRand s e = some s') :
    s'.Recorded := by
  refine h.step (fun idx attempt he => ?_) hstep
  subst he
  exact hsafe

theorem sentFor (h : s.Recorded) {nonce : UInt32 × UInt32}
    (hactive : (s.lookups idx).isActive = true)
    (hnonce : (s.lookups idx).HasBelowCount nonce) : SentFor s idx nonce :=
  ⟨hactive, (h idx).length_eq, (h idx).mem_of_hasBelowCount hnonce⟩

/-- The first slot that has a nonce is the one found. -/
theorem findSlot (h : s.Recorded) {nonce : UInt32 × UInt32} (hidx : idx ∈ slots)
    (hnonce : (s.lookups idx).HasBelowCount nonce)
    (hfirst : ∀ idx' ∈ slots, idx' < idx → ∀ i ≤ maxCount,
      ¬ (s.lookups idx').HasNonce nonce i) :
    ControlPlane.findSlot s.lookups nonce = some idx := by
  obtain ⟨before, after, hslots⟩ := List.append_of_mem hidx
  have hsorted : slots.Pairwise (· < ·) := (List.pairwise_lt_finRange _).tail
  rw [hslots] at hsorted
  refine List.find?_eq_some_iff_append.mpr
    ⟨(h idx).findNonce_isSome hnonce, before, after, hslots, fun idx' hmem => ?_⟩
  have hlt : idx' < idx :=
    (List.pairwise_append.mp hsorted).2.2 idx' hmem idx List.mem_cons_self
  rw [Bool.not_eq_true', Bool.eq_false_iff, ne_eq, ControlPlane.findNonce_isSome]
  rintro ⟨i, hi, hhas⟩
  refine hfirst idx' ?_ hlt i hi hhas
  rw [hslots]
  exact List.mem_append_left _ hmem

/-- A safe step takes authentic replies only. -/
theorem authentic (h : s.Recorded) {e : LookupEvent}
    (hsafe : Safe srcportRand s e) : Authentic cfg srcportRand s e := by
  cases e with
  | miss eid mr socket sport start attempt => trivial
  | timeout idx attempt => trivial
  | datagram idx buf =>
      intro s' hstep
      rw [lookupStep] at hstep
      split at hstep
      next hread =>
        rw [Bool.and_eq_true] at hread
        rw [← Option.some_inj.mp hstep, readMr]
        split
        next hreply =>
          refine Or.inr ⟨?_, rfl, rfl⟩
          exact h.sentFor hread.2
            (hsafe hread.1 hread.2 hreply.1 (findNonce_isSome.mp hreply.2))
        · exact Or.inl ⟨Function.update_eq_self _ _, List.append_nil _⟩
      · rw [← Option.some_inj.mp hstep]
        exact Or.inl ⟨rfl, rfl⟩
  | control buf =>
      intro s' hstep
      rw [lookupStep] at hstep
      split at hstep
      · rw [← Option.some_inj.mp hstep]
        exact ⟨mappingSlot, Or.inl ⟨rfl, rfl⟩⟩
      next hport =>
        rw [← Option.some_inj.mp hstep, getMr]
        by_cases hreply : IsReply buf
        · obtain ⟨idx, hidx, hactive, hnonce, hfirst⟩ :=
            hsafe (Bool.eq_false_of_not_eq_true hport) hreply
          rw [if_pos hreply, h.findSlot hidx hnonce hfirst]
          exact ⟨idx, Or.inr ⟨h.sentFor hactive hnonce, rfl, rfl⟩⟩
        · rw [if_neg hreply]
          exact ⟨mappingSlot, Or.inl ⟨rfl, List.append_nil _⟩⟩

end LookupState.Recorded

/-- In every run whose steps are safe, every Map-Reply that installs a mapping or
deactivates a lookup carries a nonce sent for this lookup while it is active. -/
theorem authentic_of_safe_run (cfg : ReplyConfig) (srcportRand : Bool)
    (events : List LookupEvent)
    (hsafe : Along (lookupStep cfg srcportRand) (Safe srcportRand)
      LookupState.init events) :
    Along (lookupStep cfg srcportRand) (Authentic cfg srcportRand)
      LookupState.init events :=
  Along.of_invariant (fun h hs hstep => h.step_of_safe hs hstep) (fun h hs => h.authentic hs)
    recorded_init hsafe

/-- An xTR that runs no traffic engineering. -/
def plainXtr : ReplyConfig where
  lispTe := false
  fncXtr := true
  fncRtr := false
  isMyAddr := fun _ => false

/-- A miss for 10.0.0.1, whose Map-Request carries the nonce 7, 9. -/
def missTen : LookupEvent :=
  .miss (fun k => [16, 2, 0, 0, 10, 0, 0, 1].getD k 0)
    (.inet #v[203, 0, 113, 1]) (some 5) 61000 (Vector.replicate 4 0) ⟨(7, 9), true⟩

/-- A Map-Reply with the nonce `nonce0`, `nonce1` and a record for 10.0.0.0/8 that
has no locator. -/
def replyTen (nonce0 nonce1 : UInt8) : Mem :=
  Mem.ofList [0x20, 0, 0, 1, 0, 0, 0, nonce0, 0, 0, 0, nonce1,
    0, 0, 0, 60, 0, 8, 0, 0, 0, 0, 0, 1, 10, 0, 0, 0] fun _ => 0

/-- The slot after that of the mapping socket. -/
def firstSlot : Fin maxLookups :=
  ⟨1, by decide⟩

set_option maxRecDepth 4000 in
theorem authentic_of_safe_run_replyTen :
    Along (lookupStep plainXtr true) (Safe true) LookupState.init
        [missTen, .datagram firstSlot (replyTen 7 9)] ∧
      Along (lookupStep plainXtr true) (Authentic plainXtr true) LookupState.init
        [missTen, .datagram firstSlot (replyTen 7 9)] := by
  have hsafe : Along (lookupStep plainXtr true) (Safe true) LookupState.init
      [missTen, .datagram firstSlot (replyTen 7 9)] := by
    refine ⟨trivial, fun s hs => ⟨fun _ _ _ _ => ?_, fun _ _ => trivial⟩⟩
    obtain rfl := Option.some_inj.mp hs
    exact ⟨0, by decide, rfl, rfl⟩
  exact ⟨hsafe, authentic_of_safe_run plainXtr true _ hsafe⟩

set_option maxRecDepth 4000 in
/-- The second nonce of a lookup was never sent; zero is taken for it. -/
theorem not_authentic_unsent_nonce :
    ¬ ∀ cfg srcportRand events,
      Along (lookupStep cfg srcportRand) (Authentic cfg srcportRand)
        LookupState.init events := by
  intro h
  have hrun := h plainXtr true [missTen, .datagram firstSlot (replyTen 0 0)]
  obtain ⟨hreply, -⟩ := hrun.2 _ rfl
  rcases hreply _ rfl with ⟨-, hcache⟩ | ⟨⟨-, -, hsent⟩, -⟩
  · revert hcache
    decide
  · revert hsent
    decide

end HyLisp.ControlPlane
