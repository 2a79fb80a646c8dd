import HyLisp.ControlPlane.RequestProcessing
import HyLisp.Support.Custody

/-!
# Packets in process and pending requests

The receive loop queues a packet for a worker and counts it in `ipq_no`; once there are
`PK_POOL_MAX` of them it waits for one to be released.  A worker releases the packet it
has processed, or leaves it in the slot of a pending request, which releases it when the
request is answered or given up.

Packets are numbered as they are queued, and the numbers of those released are recorded;
no code reads this record.
-/

namespace HyLisp.ControlPlane

open DataPlane Transition Custody

/-- `MR_MAX_LOOKUP` -/
def mrMaxLookup : ℕ := 10

/-- A queued packet: its number, the bytes received, and their number. -/
structure PkReq where
  id : ℕ
  buf : Mem
  bufLen : ℕ

/-- `eid_pending`.  `rloc_cur` is the last element of `rlocs`, or null when there is
none. -/
structure EidPending where
  active : Bool
  count : ℕ
  nonce : ℕ × ℕ
  pke : PkReq
  rlocs : List RegisterEntry

/-- The packet that an active slot holds. -/
def EidPending.holds (l : EidPending) : Option ℕ :=
  if l.active then some l.pke.id else none

/-- A slot before its first use. -/
def emptyPending : EidPending where
  active := false
  count := 0
  nonce := (0, 0)
  pke := ⟨0, fun _ => 0, 0⟩
  rlocs := []

/-- Where the receive loop is: at the next packet, behind `udp_get_pk`, in
`pthread_cond_wait`, or woken up from there. -/
inductive Receiver
  | polling
  | queued
  | waiting
  | signalled
  deriving DecidableEq, Repr

/-- The packets in process, the pending requests, `ipq_no` and `mr_nfds`; `next` is the
number of packets queued so far. -/
structure CpState where
  inProcess : List PkReq
  lookups : Fin maxLookups → EidPending
  ipqNo : UInt32
  receiver : Receiver
  mrNfds : ℕ
  next : ℕ
  released : List ℕ

/-- Before the first packet. -/
def CpState.init : CpState where
  inProcess := []
  lookups := fun _ => emptyPending
  ipqNo := 0
  receiver := .polling
  mrNfds := 0
  next := 0
  released := []

/-! ## Releasing a packet -/

/-- `udp_free_pk` -/
def udpFreePk (s : CpState) (pke : PkReq) : CpState :=
  { s with
    ipqNo := s.ipqNo - 1
    receiver := if s.receiver = .waiting then .signalled else s.receiver
    released := s.released ++ [pke.id] }

/-- A slot is written. -/
def CpState.setSlot (s : CpState) (idx : Fin maxLookups) (l : EidPending) : CpState :=
  { s with lookups := Function.update s.lookups idx l }

/-- `free_lookups` -/
def freeLookups (s : CpState) (idx : Fin maxLookups) : CpState :=
  let l := s.lookups idx
  if l.active then (udpFreePk s l.pke).setSlot idx { l with active := false } else s

/-! ## Pending requests -/

/-- `send_mr_ddt` on a slot, by whether the Map-Request can be sent. -/
def sendMrDdt (l : EidPending) (sent : Bool) : EidPending :=
  if l.active then
    match l.rlocs.getLast? with
    | none => { l with count := mrMaxLookup + 1 }
    | some e =>
        if e.rloc.address.isNone then { l with count := l.count + 1 }
        else if sent then { l with count := l.count + 1, rlocs := l.rlocs.dropLast }
        else { l with count := l.count + 1 }
  else l

/-- The slot that `mr_new_lookup` fills for a packet and a node. -/
def newPending (pke : PkReq) (nonce : ℕ × ℕ) (rn : DbNode) : EidPending where
  active := true
  count := 0
  nonce := nonce
  pke := pke
  rlocs := (rn.info.map Prod.snd).getD []

/-- `mr_new_lookup` -/
def mrNewLookup (s : CpState) (pke : PkReq) (nonce : ℕ × ℕ) (rn : DbNode) (sent : Bool) :
    CpState :=
  match (List.finRange maxLookups).find? fun i => !(s.lookups i).active with
  | none => s
  | some i => s.setSlot i (sendMrDdt (newPending pke nonce rn) sent)

/-- `pending_request` -/
def pendingRequest (s : CpState) (pke : PkReq) (nonce : ℕ × ℕ) (rn : DbNode)
    (sent : Bool) : CpState :=
  match (List.finRange maxLookups).find? fun i =>
      (s.lookups i).active && (s.lookups i).nonce == nonce with
  | some l => s.setSlot l (sendMrDdt { s.lookups l with count := 0 } sent)
  | none => mrNewLookup s pke nonce rn sent

/-! ## Map-Referrals -/

/-- How the walk over the records of a Map-Referral ends: at a record that finishes the
request, at one that is not read, or behind the last one, with a Map-Request. -/
inductive ReferralEnd
  | finished
  | unread
  | passed (sent : Bool)

/-- What the walk does to the request: the locators it adds, and its end. -/
structure ReferralWalk where
  rlocs : List RegisterEntry
  last : ReferralEnd

/-- The walk over the records, for a slot. -/
def applyWalk (s : CpState) (idx : Fin maxLookups) (walk : ReferralWalk) : CpState :=
  let l := s.lookups idx
  let l := { l with rlocs := l.rlocs ++ walk.rlocs }
  match walk.last with
  | .finished => freeLookups (s.setSlot idx l) idx
  | .unread => s.setSlot idx l
  | .passed sent => s.setSlot idx (sendMrDdt l sent)

/-- The nonce of a Map-Referral. -/
def referralNonce (buf : Mem) : ℕ × ℕ :=
  (buf.be32 4, buf.be32 8)

/-- `get_mr_ddt`.  The search ends before `mr_nfds - 1`, which is the greatest number of
its type when there are no descriptors; what lies behind the table is taken not to
match. -/
def getMrDdt (s : CpState) (buf : Mem) (walk : ReferralWalk) : CpState :=
  match (List.finRange maxLookups).find? fun idx =>
      (s.mrNfds == 0 || idx.val + 1 < s.mrNfds) &&
        (s.lookups idx).nonce == referralNonce buf with
  | none => s
  | some idx => if buf 3 = 0 then s else applyWalk s idx walk

/-- `read_mr_ddt`, on the socket of a slot. -/
def readMrDdt (s : CpState) (idx : Fin maxLookups) (buf : Mem) (walk : ReferralWalk) :
    CpState :=
  if lispType buf = lispTypeMapReferral ∧ (s.lookups idx).nonce = referralNonce buf ∧
      buf 3 ≠ 0 then
    applyWalk s idx walk
  else s

/-- The loop of `mr_event_loop` over the slots: requests that were sent too often are
given up, and the others get their descriptors. -/
def scanLookups (s : CpState) : CpState :=
  (List.finRange maxLookups).foldl
    (fun s i =>
      if (s.lookups i).active then
        if (s.lookups i).count > mrMaxLookup then freeLookups s i
        else { s with mrNfds := s.mrNfds + 2 }
      else s)
    { s with mrNfds := 0 }

/-- What the number of descriptors does not matter to, and a release keeps, the pass
over the slots keeps. -/
theorem scanLookups_rule {P : CpState → Prop}
    (hnfds : ∀ {s : CpState} (n : ℕ), P s → P { s with mrNfds := n })
    (hfree : ∀ {s : CpState} (i : Fin maxLookups), P s → P (freeLookups s i))
    {s : CpState} (h : P s) : P (scanLookups s) := by
  have hzero : P { s with mrNfds := 0 } := hnfds 0 h
  rw [scanLookups]
  generalize ({ s with mrNfds := 0 } : CpState) = t at hzero
  induction List.finRange maxLookups generalizing t with
  | nil => exact hzero
  | cons i slots ih =>
      rw [List.foldl_cons]
      apply ih
      split
      · split
        · exact hfree i hzero
        · exact hnfds _ hzero
      · exact hzero

/-! ## Processing a packet -/

/-- What a packet finds when it is processed: the database, the prefix in memory that
was not written, whether what goes out can be sent, and what the walk over the records
of a Map-Referral does. -/
structure Surroundings where
  db : MapServer
  uninit : Option Prefix
  sent : Bool
  walk : ReferralWalk

/-- `request_get_eid`: without a record the prefix is what lay in memory. -/
def requestGetEid (env : Surroundings) (eids : List Prefix) : Option Prefix :=
  match eids with
  | [] => env.uninit
  | eid :: _ => some eid

/-- `generic_process_request`; of an EID of another family there is no tree. -/
def genericProcessRequest (fncs : Functions) (env : Surroundings) (ddt : Bool)
    (eids : List Prefix) : Option RequestEnd :=
  match requestGetEid env eids with
  | none => none
  | some p =>
      let path := dbNodeMatchPrefix env.db p
      if ddt then (processDdtRequest fncs path env.sent).map .returned
      else processPlainRequest fncs path env.sent

/-- What `_lisp_process` does with an encapsulated packet that both passes accept. -/
def processEncapsulated (fncs : Functions) (env : Surroundings) (s : CpState)
    (pke : PkReq) (pre : Preparsed) (ecm : Ecm) (eids : List Prefix) : Option CpState :=
  if fncs.xtr then some (udpFreePk s pke)
  else
    match genericProcessRequest fncs env ecm.ddt eids with
    | none => none
    | some (.pending rn) =>
        some (pendingRequest s pke (pre.nonce0, pre.nonce1) rn env.sent)
    | some finish => some (if finish.value < 2 then udpFreePk s pke else s)

/-- `_lisp_process`, on a packet taken from the queue.  The message is not there when the
first pass rejected the packet. -/
def lispProcess (fncs : Functions) (env : Surroundings) (s : CpState) (pke : PkReq) :
    Option CpState :=
  let preparsed := udpPreparsePk pke.buf pke.bufLen
  let type := lispType pke.buf
  if type = lispTypeMapNotify then some (udpFreePk s pke)
  else if type = lispTypeMapRequest then
    if fncs.xtr && preparsed.isNone then none else some (udpFreePk s pke)
  else if type = lispTypeEcm then
    match preparsed with
    | none => none
    | some pre =>
        match udpPrcRequest (pke.buf.advance pre.lcm), pre.ecm with
        | some (_, eids), some ecm => processEncapsulated fncs env s pke pre ecm eids
        | _, _ => some (udpFreePk s pke)
  else if type = lispTypeMapReferral then
    some (udpFreePk (getMrDdt s pke.buf env.walk) pke)
  else some (udpFreePk s pke)

/-! ## Runs -/

/-- The types of the packets that `udp_get_pk` queues; no bytes are a packet of no
type. -/
def isQueued (buf : Mem) (bufLen : ℕ) : Bool :=
  bufLen ≠ 0 &&
    [lispTypeEcm, lispTypeMapRequest, lispTypeMapReply, lispTypeMapRegister,
      lispTypeMapNotify, lispTypeMapReferral].contains (lispType buf)

/-- What happens: a packet is received; it is counted; a worker processes one of the
packets; the pending requests are looked through; one is sent again; a Map-Referral is
read from the socket of one. -/
inductive CpEvent
  | receive (buf : Mem) (bufLen : ℕ)
  | count
  | process (k : ℕ) (env : Surroundings)
  | scan
  | retry (idx : Fin maxLookups) (sent : Bool)
  | referral (idx : Fin maxLookups) (buf : Mem) (walk : ReferralWalk)

section Step

variable (fncs : Functions) (pkPoolMax : UInt32)

/-- `udp_get_pk`, when the loop is ready for a packet. -/
def udpGetPk (s : CpState) (buf : Mem) (bufLen : ℕ) : CpState :=
  if s.receiver = .polling ∧ isQueued buf bufLen = true then
    { s with
      inProcess := s.inProcess ++ [⟨s.next, buf, bufLen⟩]
      receiver := .queued
      next := s.next + 1 }
  else s

/-- The rest of a turn of the receive loop. -/
def countPk (s : CpState) : CpState :=
  match s.receiver with
  | .polling => s
  | .queued =>
      if s.ipqNo + 1 ≥ pkPoolMax then { s with receiver := .waiting }
      else { s with ipqNo := s.ipqNo + 1, receiver := .polling }
  | .waiting => s
  | .signalled => { s with ipqNo := s.ipqNo + 1, receiver := .polling }

/-- One event. -/
def cpStep (s : CpState) : CpEvent → Option CpState
  | .receive buf bufLen => some (udpGetPk s buf bufLen)
  | .count => some (countPk pkPoolMax s)
  | .process k env =>
      match s.inProcess[k]? with
      | none => some s
      | some pke => lispProcess fncs env { s with inProcess := s.inProcess.eraseIdx k } pke
  | .scan => some (scanLookups s)
  | .retry idx sent => some (s.setSlot idx (sendMrDdt (s.lookups idx) sent))
  | .referral idx buf walk => some (readMrDdt s idx buf walk)

end Step

end HyLisp.ControlPlane
