import HyLisp.ControlPlane.LoopFreedom
import HyLisp.Support.LinkedList

/-!
# The cursor into the locators of a request

A pending request keeps the locators it can be sent to in a linked list, `rlocs`, and
points with `rloc_cur` to the one that is tried next.  `send_mr_ddt` moves the cursor
back and then unlinks the locator it has sent to; `mr_new_lookup` and `get_mr_ddt` append
locators and aim the cursor at the last one.

This module follows the pointers.  The copies of the locators, the candidates, are
numbered as they are made, and the numbers of those that a Map-Request was sent to are
recorded; no code reads the numbers.  An access through a null pointer, or to an entry
that was freed, fails.
-/

namespace HyLisp.ControlPlane

open DataPlane Transition

/-- A copy of a locator, and its number. -/
structure Candidate where
  id : ℕ
  entry : RegisterEntry

/-- `calloc` for list entries: what it returns may depend on the number of calls before
and on what is allocated.  It can fail, and returns no address that is in use. -/
structure Calloc where
  address : ℕ → LinkedList Candidate → Option ℕ
  fresh : ∀ {time l a}, address time l = some a → l.allocated (.entry a) = false

/-- `eid_pending`, with the list that `rlocs` points to and the pointer `rloc_cur`;
`next` is the number of candidates made so far, and `sentTo` has the numbers of those
that a Map-Request was sent to. -/
structure CursorLookup where
  active : Bool
  count : ℕ
  nonce : ℕ × ℕ
  pke : PkReq
  lastEid : Option EidBuffer
  rlocs : LinkedList Candidate
  rlocCur : Option ListPtr
  next : ℕ
  sentTo : List ℕ

namespace CursorLookup

/-- A slot before its first use. -/
def init : CursorLookup where
  active := false
  count := 0
  nonce := (0, 0)
  pke := ⟨0, fun _ => 0, 0⟩
  lastEid := none
  rlocs := .empty
  rlocCur := none
  next := 0
  sentTo := []

/-! ## Sending -/

/-- `send_mr_ddt`, by whether the Map-Request can be sent. -/
def send (l : CursorLookup) (sent : Bool) : Option CursorLookup :=
  if l.active then
    match l.rlocCur with
    | none => some { l with count := mrMaxLookup + 1 }
    | some cur => do
        let e ← l.rlocs.data cur
        if e.entry.rloc.address.isNone || !sent then some { l with count := l.count + 1 }
        else do
          let l := { l with count := l.count + 1, sentTo := l.sentTo ++ [e.id] }
          if l.rlocs.count ≥ 1 then do
            -- the cursor leaves the entry before the entry is unlinked
            let n ← l.rlocs.node cur
            let lr := if l.rlocs.count > 1 then n.previous else none
            let rlocs ← l.rlocs.remove cur
            some { l with rlocs := rlocs, rlocCur := lr }
          else some { l with rlocCur := none }
  else some l

/-! ## Adding candidates -/

section Calloc

variable (calloc : Calloc)

/-- A locator is copied, and `list_insert` appends the copy. -/
def insert (l : CursorLookup) (entry : RegisterEntry) : Option CursorLookup :=
  match calloc.address l.next l.rlocs with
  | none => some { l with next := l.next + 1 }
  | some address => do
      let rlocs ← l.rlocs.insertBefore .tail address ⟨l.next, entry⟩
      some { l with rlocs := rlocs, next := l.next + 1 }

/-- The loop over the locators of a node. -/
def insertAll (l : CursorLookup) : List RegisterEntry → Option CursorLookup
  | [] => some l
  | entry :: info => do
      let l ← l.insert calloc entry
      l.insertAll info

/-- The cursor is aimed at the last entry. -/
def aim (l : CursorLookup) : Option CursorLookup :=
  if l.rlocs.count > 0 then do
    let tail ← l.rlocs.node .tail
    some { l with rlocCur := tail.previous }
  else some { l with rlocCur := none }

/-- `mr_new_lookup`, on the slot it takes. -/
def newLookup (l : CursorLookup) (pke : PkReq) (nonce : ℕ × ℕ) (rn : DbNode)
    (sent : Bool) : Option CursorLookup := do
  let l :=
    { l with
      active := true
      count := 0
      nonce := nonce
      pke := pke
      lastEid := none
      rlocs := .empty }
  let l ← l.insertAll calloc ((rn.info.map Prod.snd).getD [])
  let l ← l.aim
  l.send sent

/-- The part of `get_mr_ddt` that follows a referral: `last_eid` moves on, and the
locators of the node, if it has any list of them, are added. -/
def moveOn (l : CursorLookup) (pf : EidBuffer) (lr : Option (List RegisterEntry)) :
    Option CursorLookup :=
  if l.lastEid.all fun last => decide (pf.prefixlen > last.prefixlen) then
    let l := { l with lastEid := some pf }
    match lr with
    | none => some l
    | some info => do
        let l ← l.insertAll calloc info
        l.aim
  else some l

/-- `free_lookups`, on the slot; `rloc_cur` is left as it is. -/
def free (l : CursorLookup) : CursorLookup :=
  if l.active then
    { l with active := false, lastEid := none, rlocs := ⟨fun _ => none, 0⟩ }
  else l

end Calloc

end CursorLookup

/-! ## Map-Referrals -/

/-- What the walk over the records keeps, with the request as it lies in memory. -/
structure CursorWalk where
  cursor : UInt64
  rlen : UInt64
  pf : EidBuffer
  lookup : CursorLookup
  db : MapServer

/-- What comes after a record. -/
inductive CursorEnd
  | next (w : CursorWalk)
  | finished (w : CursorWalk)
  | unread (w : CursorWalk)

section Walk

variable (calloc : Calloc) (mem : Mem)

/-- The turn of the loop of `get_mr_ddt` for one record. -/
def cursorTurn (w : CursorWalk) : Option CursorEnd :=
  let record := mem.advance w.cursor.toNat
  match getFamily record with
  | none => some (.unread w)
  | some fam =>
      let pf := w.pf.copy fam record
      if referralAct record = lispReferralMsAck then
        some (.finished { w with pf := pf, db := w.db.refer record })
      else if IsReferral record then
        let rlen := processReferralRecordLen record
        let db := w.db.refer record
        if w.lookup.lastEid.any fun last => !prefixMatch last.raw pf.raw then
          some (.finished { w with rlen := rlen, pf := pf, db := db })
        else do
          let lr := (processReferralRecord record).map fun entered => entered.2.2
          let lookup ← w.lookup.moveOn calloc pf lr
          some (.next
            { cursor := w.cursor + rlen, rlen := rlen, pf := pf, lookup := lookup, db := db })
      else if IsFinal record then some (.finished { w with pf := pf })
      else some (.next { w with cursor := w.cursor + w.rlen, pf := pf })

/-- The loop over the records. -/
def cursorWalk : ℕ → CursorWalk → Option CursorEnd
  | 0, w => some (.next w)
  | rcount + 1, w => do
      match ← cursorTurn calloc mem w with
      | .next w' => cursorWalk rcount w'
      | finish => some finish

/-- What is done to the request behind the walk. -/
def CursorEnd.settle (sent : Bool) : CursorEnd → Option CursorLookup
  | .next w => w.lookup.send sent
  | .finished w => some w.lookup.free
  | .unread w => some w.lookup

/-- The walk at the first record of a message. -/
def CursorWalk.start (m : Referral) (lookup : CursorLookup) : CursorWalk where
  cursor := m.buf + 12
  rlen := 0
  pf := ⟨0, 0, Vector.replicate 16 0⟩
  lookup := lookup
  db := m.db

/-- `get_mr_ddt`, on the slot that the nonce of the message leads to.  It returns if there
are no records. -/
def CursorLookup.getMrDdt (l : CursorLookup) (m : Referral) : Option CursorLookup :=
  if recordCount m.mem m.buf = 0 then some l
  else do
    let finish ← cursorWalk calloc m.mem (recordCount m.mem m.buf) (.start m l)
    finish.settle m.sent

/-- One event at a slot. -/
def cursorStep (l : CursorLookup) : DdtEvent → Option CursorLookup
  | .lookup pke nonce rn sent =>
      if l.active then some l else l.newLookup calloc pke nonce rn sent
  | .referral m => if l.active then l.getMrDdt calloc m else some l
  | .retry sent => l.send sent
  | .giveUp => some l.free

end Walk

/-! ## A request and its list -/

/-- The allocator fails only when no address is free. -/
def Calloc.Total (calloc : Calloc) : Prop :=
  ∀ time l, (∃ a, l.allocated (.entry a) = false) → (calloc.address time l).isSome

namespace CursorLookup

/-- The entries as a list of locators. -/
def toDdt (l : CursorLookup) (es : List (ℕ × Candidate)) : DdtLookup where
  active := l.active
  count := l.count
  nonce := l.nonce
  pke := l.pke
  rlocs := es.map fun e => e.2.entry
  lastEid := l.lastEid

/-- The numbers of candidates that were sent to and of others are distinct, and were
given out. -/
structure Numbered (l : CursorLookup) (ids : List ℕ) : Prop where
  nodup : (l.sentTo ++ ids).Nodup
  below : ∀ id ∈ l.sentTo ++ ids, id < l.next

/-- The list of the request has the entries. -/
structure Holds (l : CursorLookup) (es : List (ℕ × Candidate)) : Prop where
  represents : l.rlocs.Represents es
  numbered : l.Numbered (es.map fun e => e.2.id)

/-- The pointer to the last entry, null when there is none. -/
def lastEntry (es : List (ℕ × Candidate)) : Option ListPtr :=
  es.getLast?.map fun e => .entry e.1

/-- The cursor of the request is at the last entry. -/
structure Pending (l : CursorLookup) (es : List (ℕ × Candidate)) : Prop where
  holds : l.Holds es
  cursor : l.rlocCur = lastEntry es

section Requests

variable (calloc : Calloc) {l : CursorLookup} {es : List (ℕ × Candidate)}

theorem Numbered.mono {ids ids' : List ℕ} (h : l.Numbered ids) (hids : List.Sublist ids' ids) :
    l.Numbered ids' where
  nodup := h.nodup.sublist ((List.Sublist.refl _).append hids)
  below := fun id hid => h.below id (((List.Sublist.refl _).append hids).subset hid)

/-- What the list has does not depend on the other fields. -/
theorem Holds.congr {l' : CursorLookup} (h : l.Holds es) (hrlocs : l'.rlocs = l.rlocs)
    (hsent : l'.sentTo = l.sentTo) (hnext : l'.next = l.next) : l'.Holds es where
  represents := hrlocs ▸ h.represents
  numbered := ⟨hsent ▸ h.numbered.nodup, hsent ▸ hnext ▸ h.numbered.below⟩

/-- A copied locator is the last entry, unless no memory is left for it. -/
theorem insert_spec (h : l.Holds es) (entry : RegisterEntry) :
    ∃ l' new, l.insert calloc entry = some l' ∧ l'.Holds (es ++ new) ∧
      l'.toDdt [] = l.toDdt [] ∧
      (calloc.Total → new.map (fun e => e.2.entry) = [entry]) := by
  rw [insert]
  cases haddress : calloc.address l.next l.rlocs with
  | none =>
      refine ⟨_, [], rfl, ?_, rfl, fun htotal => ?_⟩
      · rw [List.append_nil]
        exact ⟨h.represents, h.numbered.nodup,
          fun id hid => Nat.lt_succ_of_lt (h.numbered.below id hid)⟩
      · have hsome := htotal l.next l.rlocs h.represents.exists_free
        rw [haddress] at hsome
        cases hsome
  | some address =>
      obtain ⟨rlocs, hinsert, hrlocs⟩ :=
        h.represents.insertLast (calloc.fresh haddress) ⟨l.next, entry⟩
      refine ⟨{ l with rlocs := rlocs, next := l.next + 1 }, [(address, ⟨l.next, entry⟩)],
        ?_, ⟨hrlocs, ?_, ?_⟩, rfl, fun _ => rfl⟩
      · dsimp only
        rw [hinsert]
        rfl
      · rw [List.map_append, ← List.append_assoc]
        refine List.nodup_append.mpr ⟨h.numbered.nodup, List.nodup_singleton _, ?_⟩
        rintro id hid id' hid' rfl
        obtain rfl := List.mem_singleton.mp hid'
        exact lt_irrefl _ (h.numbered.below _ hid)
      · intro id hid
        rw [List.map_append, ← List.append_assoc] at hid
        rcases List.mem_append.mp hid with hold | hnew
        · exact Nat.lt_succ_of_lt (h.numbered.below id hold)
        · obtain rfl := List.mem_singleton.mp hnew
          exact Nat.lt_succ_self _

theorem insertAll_spec (h : l.Holds es) (info : List RegisterEntry) :
    ∃ l' new, l.insertAll calloc info = some l' ∧ l'.Holds (es ++ new) ∧
      l'.toDdt [] = l.toDdt [] ∧
      (calloc.Total → new.map (fun e => e.2.entry) = info) := by
  induction info generalizing l es with
  | nil => exact ⟨l, [], rfl, by rwa [List.append_nil], rfl, fun _ => rfl⟩
  | cons entry info ih =>
      obtain ⟨l₁, new₁, hinsert, hholds₁, hsame₁, hall₁⟩ := insert_spec calloc h entry
      obtain ⟨l₂, new₂, hrest, hholds₂, hsame₂, hall₂⟩ := ih hholds₁
      refine ⟨l₂, new₁ ++ new₂, ?_, by rwa [← List.append_assoc], hsame₂.trans hsame₁,
        fun htotal => ?_⟩
      · rw [insertAll, Option.bind_eq_bind, hinsert, Option.bind_some, hrest]
      · rw [List.map_append, hall₁ htotal, hall₂ htotal, List.singleton_append]

/-- The cursor is aimed at the last entry. -/
theorem aim_eq (h : l.Holds es) : l.aim = some { l with rlocCur := lastEntry es } := by
  rcases List.eq_nil_or_concat' es with rfl | ⟨xs, e, rfl⟩
  · have hcount : ¬ l.rlocs.count > 0 := by
      rw [h.represents.count]
      exact Nat.lt_irrefl 0
    rw [aim, if_neg hcount]
    rfl
  · have hcount : l.rlocs.count > 0 := by
      rw [h.represents.count, List.length_append, List.length_singleton]
      exact Nat.succ_pos _
    have hprevious := h.represents.previous_tail
    obtain ⟨tail, htail⟩ := LinkedList.exists_node_of_previous hprevious
    rw [LinkedList.previous_eq htail] at hprevious
    rw [aim, if_pos hcount, Option.bind_eq_bind, htail, Option.bind_some, hprevious,
      lastEntry, List.getLast?_concat, Option.map_some]

/-- The list-level request with a last locator: that locator is taken away when it is
sent to. -/
theorem send_toDdt_concat (hactive : l.active = true) (xs : List (ℕ × Candidate))
    (e : ℕ × Candidate) (sent : Bool) :
    (l.toDdt (xs ++ [e])).send sent =
      { l.toDdt (if e.2.entry.rloc.address.isNone || !sent then xs ++ [e] else xs) with
        count := l.count + 1 } := by
  have hrlocs : (l.toDdt (xs ++ [e])).rlocs =
      xs.map (fun e => e.2.entry) ++ [e.2.entry] := by
    rw [toDdt, List.map_append, List.map_singleton]
  have hlast : (l.toDdt (xs ++ [e])).rlocs.getLast? = some e.2.entry := by
    rw [hrlocs, List.getLast?_concat]
  have hdrop : (l.toDdt (xs ++ [e])).rlocs.dropLast = (l.toDdt xs).rlocs := by
    rw [hrlocs, List.dropLast_concat, toDdt]
  have hslot : (l.toDdt (xs ++ [e])).active = true := hactive
  rw [DdtLookup.send, sendMrDdt, if_pos hslot, hlast, hdrop]
  dsimp only
  cases haddr : e.2.entry.rloc.address.isNone with
  | true => rfl
  | false =>
      cases sent with
      | true => rfl
      | false => rfl

/-- The entry before the last one is the last one of the others. -/
theorem previous_lastEntry {xs : List (ℕ × Candidate)} {e : ℕ × Candidate}
    (h : l.rlocs.Represents (xs ++ [e])) :
    (if l.rlocs.count > 1 then l.rlocs.previous (.entry e.1) else none) = lastEntry xs := by
  rcases List.eq_nil_or_concat' xs with rfl | ⟨ys, f, rfl⟩
  · have hcount : ¬ l.rlocs.count > 1 := by
      rw [h.count]
      exact Nat.lt_irrefl 1
    rw [if_neg hcount]
    rfl
  · have hcount : l.rlocs.count > 1 := by
      rw [h.count]
      simp
    rw [List.append_assoc] at h
    rw [if_pos hcount, h.previous_entry, lastEntry, List.getLast?_concat, Option.map_some]

/-- A candidate that was sent to leaves the list, and its number is recorded. -/
theorem Numbered.sent {ids : List ℕ} {id : ℕ} (h : l.Numbered (ids ++ [id])) (l' : CursorLookup)
    (hsent : l'.sentTo = l.sentTo ++ [id]) (hnext : l'.next = l.next) : l'.Numbered ids := by
  have hperm : (l'.sentTo ++ ids).Perm (l.sentTo ++ (ids ++ [id])) := by
    rw [hsent, List.append_assoc]
    exact (List.perm_append_comm).append_left _
  refine ⟨hperm.nodup_iff.mpr h.nodup, fun i hi => ?_⟩
  rw [hnext]
  exact h.below i (hperm.mem_iff.mp hi)

/-- `send_mr_ddt` keeps the cursor at the last entry. -/
theorem exists_send (h : l.Pending es) (sent : Bool) :
    ∃ l' es', l.send sent = some l' ∧ l'.Pending es' ∧
      l'.toDdt es' = (l.toDdt es).send sent := by
  by_cases hactive : l.active = true
  · rw [send, if_pos hactive, h.cursor]
    rcases List.eq_nil_or_concat' es with rfl | ⟨xs, e, rfl⟩
    · refine ⟨_, [], rfl, ⟨h.holds.congr rfl rfl rfl, rfl⟩, ?_⟩
      have hslot : (l.toDdt []).active = true := hactive
      rw [DdtLookup.send, sendMrDdt, if_pos hslot]
      rfl
    · have hrep := h.holds.represents
      have hcur : lastEntry (xs ++ [e]) = some (.entry e.1) := by
        rw [lastEntry, List.getLast?_concat, Option.map_some]
      have hdata : l.rlocs.data (.entry e.1) = some e.2 :=
        hrep.data e (List.mem_append_right _ List.mem_cons_self)
      rw [hcur, send_toDdt_concat hactive]
      dsimp only
      rw [Option.bind_eq_bind, hdata, Option.bind_some]
      by_cases hfail : (e.2.entry.rloc.address.isNone || !sent) = true
      · rw [if_pos hfail, if_pos hfail]
        exact ⟨_, _, rfl, ⟨h.holds.congr rfl rfl rfl, hcur.symm⟩, rfl⟩
      · rw [if_neg hfail, if_neg hfail]
        have hcount : l.rlocs.count ≥ 1 := by
          rw [hrep.count, List.length_append, List.length_singleton]
          exact Nat.succ_pos _
        have hprevious := previous_lastEntry hrep
        have hrep' : l.rlocs.Represents (xs ++ e :: []) := hrep
        obtain ⟨rlocs, hremove, hrlocs⟩ := hrep'.remove
        rw [List.append_nil] at hrlocs
        obtain ⟨n, hn⟩ : ∃ n, l.rlocs.node (.entry e.1) = some n :=
          Option.isSome_iff_exists.mp ((hrep.allocated e.1).mpr (by simp))
        rw [LinkedList.previous_eq hn] at hprevious
        refine ⟨{ l with
          count := l.count + 1
          sentTo := l.sentTo ++ [e.2.id]
          rlocs := rlocs
          rlocCur := lastEntry xs }, xs, ?_, ⟨⟨hrlocs, ?_⟩, rfl⟩, rfl⟩
        · rw [if_pos hcount, Option.bind_eq_bind, hn, Option.bind_some, hprevious,
            Option.bind_eq_bind, hremove, Option.bind_some]
        · have hnumbered := h.holds.numbered
          rw [List.map_append, List.map_singleton] at hnumbered
          exact hnumbered.sent _ rfl rfl
  · have hslot : ¬ (l.toDdt es).active = true := hactive
    refine ⟨l, es, by rw [send, if_neg hactive], h, ?_⟩
    rw [DdtLookup.send, sendMrDdt, if_neg hslot]

/-- `get_mr_ddt` aims the cursor again when it has added candidates. -/
theorem exists_moveOn (h : l.Pending es) (pf : EidBuffer)
    (lr : Option (List RegisterEntry)) :
    ∃ l' es', l.moveOn calloc pf lr = some l' ∧ l'.Pending es' ∧
      (calloc.Total → l'.toDdt es' = (l.toDdt es).moveOn pf (lr.getD [])) := by
  rw [moveOn, DdtLookup.moveOn]
  by_cases hlonger : (l.lastEid.all fun last =>
      decide (pf.prefixlen > last.prefixlen)) = true
  · have hlonger' : ((l.toDdt es).lastEid.all fun last =>
        decide (pf.prefixlen > last.prefixlen)) = true := hlonger
    rw [if_pos hlonger, if_pos hlonger']
    cases lr with
    | none =>
        refine ⟨_, es, rfl, ⟨h.holds.congr rfl rfl rfl, h.cursor⟩, fun _ => ?_⟩
        rw [Option.getD_none, List.append_nil]
        rfl
    | some info =>
        have hholds : Holds { l with lastEid := some pf } es := h.holds.congr rfl rfl rfl
        obtain ⟨l', new, hinsert, hholds', hsame, hall⟩ :=
          insertAll_spec calloc hholds info
        refine ⟨{ l' with rlocCur := lastEntry (es ++ new) }, es ++ new, ?_,
          ⟨hholds'.congr rfl rfl rfl, rfl⟩, fun htotal => ?_⟩
        · dsimp only
          rw [hinsert, Option.bind_eq_bind, Option.bind_some, aim_eq hholds']
        · change { l'.toDdt [] with
            rlocs := (es ++ new).map fun e : ℕ × Candidate => e.2.entry } = _
          rw [hsame, List.map_append, hall htotal]
          rfl
  · have hlonger' : ¬ ((l.toDdt es).lastEid.all fun last =>
        decide (pf.prefixlen > last.prefixlen)) = true := hlonger
    rw [if_neg hlonger, if_neg hlonger']
    exact ⟨l, es, rfl, h, fun _ => rfl⟩

/-- `mr_new_lookup` aims the cursor of a list of its own. -/
theorem exists_newLookup (h : l.Numbered []) (pke : PkReq) (nonce : ℕ × ℕ) (rn : DbNode)
    (sent : Bool) :
    ∃ l' es', l.newLookup calloc pke nonce rn sent = some l' ∧ l'.Pending es' ∧
      (calloc.Total →
        l'.toDdt es' = DdtLookup.send ⟨newPending pke nonce rn, none⟩ sent) := by
  have hholds : Holds
      { l with
        active := true
        count := 0
        nonce := nonce
        pke := pke
        lastEid := none
        rlocs := .empty } [] :=
    ⟨LinkedList.represents_empty, h.nodup, h.below⟩
  obtain ⟨l₁, es, hinsert, hholds₁, hsame, hall⟩ :=
    insertAll_spec calloc hholds ((rn.info.map Prod.snd).getD [])
  rw [List.nil_append] at hholds₁
  have hpending : Pending { l₁ with rlocCur := lastEntry es } es :=
    ⟨hholds₁.congr rfl rfl rfl, rfl⟩
  obtain ⟨l₂, es₂, hsend, hpending₂, hddt⟩ := exists_send hpending sent
  refine ⟨l₂, es₂, ?_, hpending₂, fun htotal => ?_⟩
  · rw [newLookup, hinsert, Option.bind_eq_bind, Option.bind_some, aim_eq hholds₁, Option.bind_some,
      hsend]
  · rw [hddt]
    congr 1
    change { l₁.toDdt [] with rlocs := es.map fun e : ℕ × Candidate => e.2.entry } = _
    rw [hsame, hall htotal]
    rfl

end Requests

end CursorLookup

/-! ## Map-Referrals and lists -/

/-- The walk over the records of a request as a list. -/
def CursorWalk.toRecord (w : CursorWalk) (es : List (ℕ × Candidate)) : RecordWalk where
  cursor := w.cursor
  rlen := w.rlen
  pf := w.pf
  lookup := w.lookup.toDdt es
  db := w.db

/-- The request as a record leaves it. -/
def CursorEnd.lookup : CursorEnd → CursorLookup
  | .next w => w.lookup
  | .finished w => w.lookup
  | .unread w => w.lookup

/-- What comes after a record, for a request as a list. -/
def CursorEnd.toRecord (es : List (ℕ × Candidate)) : CursorEnd → RecordEnd
  | .next w => .next (w.toRecord es)
  | .finished w => .finished (w.toRecord es)
  | .unread w => .unread (w.toRecord es)

section Referrals

variable (calloc : Calloc) (mem : Mem) {w : CursorWalk} {es : List (ℕ × Candidate)}

/-- A record keeps the cursor at the last entry. -/
theorem exists_cursorTurn (h : w.lookup.Pending es) :
    ∃ finish es', cursorTurn calloc mem w = some finish ∧ finish.lookup.Pending es' ∧
      (calloc.Total →
        recordTurn getFamily mem (w.toRecord es) = finish.toRecord es') := by
  rw [cursorTurn, recordTurn]
  have hcursor : (w.toRecord es).cursor = w.cursor := rfl
  have hlast : (w.toRecord es).lookup.lastEid = w.lookup.lastEid := rfl
  rw [hcursor, hlast]
  dsimp only
  cases hfamily : getFamily (mem.advance w.cursor.toNat) with
  | none => exact ⟨_, es, rfl, h, fun _ => rfl⟩
  | some fam =>
      dsimp only
      split
      · exact ⟨_, es, rfl, h, fun _ => rfl⟩
      split
      · have hpf : (w.toRecord es).pf = w.pf := rfl
        rw [hpf]
        split
        · exact ⟨_, es, rfl, h, fun _ => rfl⟩
        · obtain ⟨l', es', hmove, hpending, hddt⟩ := CursorLookup.exists_moveOn calloc h
            (w.pf.copy fam (mem.advance w.cursor.toNat))
            ((processReferralRecord (mem.advance w.cursor.toNat)).map
              fun entered => entered.2.2)
          rw [hmove, Option.bind_eq_bind, Option.bind_some]
          refine ⟨_, es', rfl, hpending, fun htotal => ?_⟩
          change RecordEnd.next { cursor := _, rlen := _, pf := _, lookup :=
            (w.lookup.toDdt es).moveOn _ (referralInfo _), db := _ } = _
          rw [referralInfo, ← hddt htotal]
          rfl
      split
      · exact ⟨_, es, rfl, h, fun _ => rfl⟩
      · exact ⟨_, es, rfl, h, fun _ => rfl⟩

/-- So do all records of a message. -/
theorem exists_cursorWalk (h : w.lookup.Pending es) (rcount : ℕ) :
    ∃ finish es', cursorWalk calloc mem rcount w = some finish ∧
      finish.lookup.Pending es' ∧
      (calloc.Total →
        recordWalk getFamily mem rcount (w.toRecord es) = finish.toRecord es') := by
  induction rcount generalizing w es with
  | zero => exact ⟨_, es, rfl, h, fun _ => rfl⟩
  | succ rcount ih =>
      obtain ⟨finish, es', hturn, hpending, hrecord⟩ :=
        exists_cursorTurn calloc mem h
      rw [cursorWalk, hturn, Option.bind_eq_bind, Option.bind_some, recordWalk]
      cases finish with
      | next w' =>
          obtain ⟨finish', es'', hwalk, hpending', hrecord'⟩ := ih hpending
          refine ⟨finish', es'', hwalk, hpending', fun htotal => ?_⟩
          rw [hrecord htotal]
          exact hrecord' htotal
      | finished w' =>
          refine ⟨_, es', rfl, hpending, fun htotal => ?_⟩
          rw [hrecord htotal]
          rfl
      | unread w' =>
          refine ⟨_, es', rfl, hpending, fun htotal => ?_⟩
          rw [hrecord htotal]
          rfl

end Referrals

/-! ## Runs -/

/-- The slot in memory and the slot with a list: candidates are numbered, the cursor of a
pending request is at the last entry, and if no allocation fails the two agree. -/
structure Refines (calloc : Calloc) (l : CursorLookup) (d : DdtLookup) : Prop where
  numbered : l.Numbered []
  active : calloc.Total → d.active = l.active
  pending : l.active = true → ∃ es, l.Pending es ∧ (calloc.Total → d = l.toDdt es)

section Runs

variable {calloc : Calloc} {l : CursorLookup} {d d' : DdtLookup}
  {es : List (ℕ × Candidate)}

theorem Refines.congr (h : Refines calloc l d) (hd : calloc.Total → d' = d) :
    Refines calloc l d' where
  numbered := h.numbered
  active := fun htotal => (congrArg (·.active) (hd htotal)).trans (h.active htotal)
  pending := fun hactive =>
    let ⟨es, hpending, hddt⟩ := h.pending hactive
    ⟨es, hpending, fun htotal => (hd htotal).trans (hddt htotal)⟩

theorem refines_of_pending (h : l.Pending es) : Refines calloc l (l.toDdt es) where
  numbered := h.holds.numbered.mono (List.nil_sublist _)
  active := fun _ => rfl
  pending := fun _ => ⟨es, h, fun _ => rfl⟩

/-- A request that is given up leaves a slot for another one. -/
theorem refines_free (h : l.Pending es) : Refines calloc l.free (l.toDdt es).free := by
  have hnumbered : l.Numbered [] := h.holds.numbered.mono (List.nil_sublist _)
  by_cases hactive : l.active = true
  · have hslot : (l.toDdt es).active = true := hactive
    rw [CursorLookup.free, if_pos hactive, DdtLookup.free, if_pos hslot]
    exact ⟨⟨hnumbered.nodup, hnumbered.below⟩, fun _ => rfl, fun h => absurd h Bool.false_ne_true⟩
  · have hslot : ¬ (l.toDdt es).active = true := hactive
    rw [CursorLookup.free, if_neg hactive, DdtLookup.free, if_neg hslot]
    exact refines_of_pending h

/-- What is done behind the walk over the records of a message. -/
theorem exists_settle (calloc : Calloc) {finish : CursorEnd}
    (h : finish.lookup.Pending es) (sent : Bool) :
    ∃ l', finish.settle sent = some l' ∧
      Refines calloc l' ((finish.toRecord es).settle sent) := by
  cases finish with
  | next w =>
      obtain ⟨l', es', hsend, hpending, hddt⟩ := CursorLookup.exists_send h sent
      refine ⟨l', hsend, (refines_of_pending hpending).congr fun _ => ?_⟩
      exact hddt.symm
  | finished w => exact ⟨_, rfl, refines_free h⟩
  | unread w => exact ⟨_, rfl, refines_of_pending h⟩

/-- `get_mr_ddt` on a pending request. -/
theorem exists_getMrDdt (calloc : Calloc) (h : l.Pending es) (m : Referral) :
    ∃ l', l.getMrDdt calloc m = some l' ∧
      Refines calloc l'
        ((getMrDdtRecords m.mem m.buf (l.toDdt es) m.db).settle m.sent) := by
  rw [CursorLookup.getMrDdt, getMrDdtRecords]
  by_cases hnone : recordCount m.mem m.buf = 0
  · rw [if_pos hnone, if_pos hnone]
    exact ⟨l, rfl, refines_of_pending h⟩
  · rw [if_neg hnone, if_neg hnone]
    have hstart : (CursorWalk.start m l).lookup.Pending es := h
    obtain ⟨finish, es', hwalk, hpending, hrecords⟩ := exists_cursorWalk calloc m.mem hstart
      (recordCount m.mem m.buf)
    obtain ⟨l', hsettle, hrefines⟩ := exists_settle calloc hpending m.sent
    refine ⟨l', ?_, hrefines.congr fun htotal => ?_⟩
    · rw [hwalk, Option.bind_eq_bind, Option.bind_some, hsettle]
    · rw [← hrecords htotal]
      rfl

/-- Every event at a slot succeeds, and the slot in memory follows the one with a
list. -/
theorem exists_cursorStep (e : DdtEvent) (h : Refines calloc l d) :
    ∃ l' d', cursorStep calloc l e = some l' ∧ ddtStep d e = some d' ∧
      Refines calloc l' d' := by
  by_cases hactive : l.active = true
  · obtain ⟨es, hpending, hd⟩ := h.pending hactive
    have hslot : calloc.Total → d.active = true :=
      fun htotal => (h.active htotal).trans hactive
    cases e with
    | lookup pke nonce rn sent =>
        refine ⟨l, _, by rw [cursorStep, if_pos hactive], rfl, h.congr fun htotal => ?_⟩
        rw [if_pos (hslot htotal)]
    | referral m =>
        obtain ⟨l', hget, hrefines⟩ := exists_getMrDdt calloc hpending m
        refine ⟨l', _, by rw [cursorStep, if_pos hactive, hget], rfl,
          hrefines.congr fun htotal => ?_⟩
        rw [if_pos (hslot htotal), hd htotal]
    | retry sent =>
        obtain ⟨l', es', hsend, hpending', hddt⟩ := CursorLookup.exists_send hpending sent
        refine ⟨l', _, hsend, rfl, (refines_of_pending hpending').congr fun htotal => ?_⟩
        rw [hddt, hd htotal]
    | giveUp =>
        refine ⟨l.free, _, rfl, rfl, (refines_free hpending).congr fun htotal => ?_⟩
        rw [hd htotal]
  · have hslot : calloc.Total → ¬ d.active = true :=
      fun htotal hd => hactive ((h.active htotal).symm.trans hd)
    cases e with
    | lookup pke nonce rn sent =>
        obtain ⟨l', es', hnew, hpending, hddt⟩ :=
          CursorLookup.exists_newLookup calloc h.numbered pke nonce rn sent
        refine ⟨l', _, by rw [cursorStep, if_neg hactive, hnew], rfl,
          (refines_of_pending hpending).congr fun htotal => ?_⟩
        rw [if_neg (hslot htotal), hddt htotal]
    | referral m =>
        refine ⟨l, _, by rw [cursorStep, if_neg hactive], rfl, h.congr fun htotal => ?_⟩
        rw [if_neg (hslot htotal)]
    | retry sent =>
        refine ⟨l, _, ?_, rfl, h.congr fun htotal => ?_⟩
        · rw [cursorStep, CursorLookup.send, if_neg hactive]
        · rw [DdtLookup.send, sendMrDdt, if_neg (hslot htotal)]
    | giveUp =>
        refine ⟨l, _, ?_, rfl, h.congr fun htotal => ?_⟩
        · rw [cursorStep, CursorLookup.free, if_neg hactive]
        · rw [DdtLookup.free, if_neg (hslot htotal)]

theorem refines_init : Refines calloc .init ⟨emptyPending, none⟩ where
  numbered := ⟨List.nodup_nil, fun _ h => absurd h List.not_mem_nil⟩
  active := fun _ => rfl
  pending := fun h => absurd h Bool.false_ne_true

end Runs

/-- The slot in memory follows the slot with a list, over every run. -/
theorem refines_of_run (calloc : Calloc) (events : List DdtEvent) :
    ∃ l d, run (cursorStep calloc) .init events = some l ∧
      run ddtStep ⟨emptyPending, none⟩ events = some d ∧ Refines calloc l d :=
  exists_run_of_rel exists_cursorStep refines_init events

/-- `rloc_cur` is null exactly when the list of locators is empty, and otherwise points
to its last entry, which is no sentinel.  The candidates in the list have numbers of
their own, and none of them was sent to. -/
def CursorLookup.WellAimed (l : CursorLookup) : Prop :=
  ∃ es, l.rlocs.Represents es ∧
    (l.rlocCur = none ↔ es = []) ∧
    (∀ cur, l.rlocCur = some cur → ∃ xs e, es = xs ++ [e] ∧ cur = .entry e.1) ∧
    (es.map fun e => e.2.id).Nodup ∧ ∀ e ∈ es, e.2.id ∉ l.sentTo

theorem CursorLookup.Pending.wellAimed {l : CursorLookup} {es : List (ℕ × Candidate)}
    (h : l.Pending es) : l.WellAimed := by
  obtain ⟨-, hnodup, hdisjoint⟩ := List.nodup_append.mp h.holds.numbered.nodup
  refine ⟨es, h.holds.represents, ?_, fun cur hcur => ?_, hnodup, fun e he hsent => ?_⟩
  · rw [h.cursor, lastEntry, Option.map_eq_none_iff, List.getLast?_eq_none_iff]
  · rw [h.cursor, lastEntry, Option.map_eq_some_iff] at hcur
    obtain ⟨e, hlast, rfl⟩ := hcur
    obtain ⟨xs, rfl⟩ := List.getLast?_eq_some_iff.mp hlast
    exact ⟨xs, e, rfl, rfl⟩
  · exact hdisjoint _ hsent _ (List.mem_map_of_mem he) rfl

/-- Over every run of lookups, Map-Requests that are sent or not, and Map-Referrals at a
slot, no pointer is followed that leads nowhere; the cursor of a pending request is at
the last locator of its list, or null when the list is empty; and no candidate is sent to
twice. -/
theorem wellAimed_of_run (calloc : Calloc) (events : List DdtEvent) :
    ∃ l, run (cursorStep calloc) .init events = some l ∧
      (l.active = true → l.WellAimed) ∧ l.sentTo.Nodup := by
  obtain ⟨l, d, hrun, _, hrefines⟩ := refines_of_run calloc events
  refine ⟨l, hrun, fun hactive => ?_, (List.append_nil l.sentTo) ▸ hrefines.numbered.nodup⟩
  obtain ⟨es, hpending, -⟩ := hrefines.pending hactive
  exact hpending.wellAimed

end HyLisp.ControlPlane
