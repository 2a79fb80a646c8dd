import HyLisp.ControlPlane.ReferralRecords

/-!
# Referral loops

A pending request keeps the prefix of the last referral that it followed in `last_eid`.
A referral to a prefix that is not inside this one ends the request, so that the prefixes
followed get longer and longer.  The test compares bits and does not look at the family
of the prefix; this module says that nothing else is missing.
-/

namespace HyLisp.ControlPlane

open DataPlane Transition

/-! ## Prefixes inside each other -/

/-- The prefix is of the same family as the other one and covered by it. -/
def EidBuffer.Inside (p q : EidBuffer) : Prop :=
  p.family = q.family ∧ q.raw.bits <+: p.raw.bits

/-- It is longer, too. -/
def EidBuffer.StrictlyInside (p q : EidBuffer) : Prop :=
  p.Inside q ∧ q.prefixlen < p.prefixlen

theorem EidBuffer.StrictlyInside.trans {p q r : EidBuffer} (hpq : p.StrictlyInside q)
    (hqr : q.StrictlyInside r) : p.StrictlyInside r :=
  ⟨⟨hpq.1.1.trans hqr.1.1, hqr.1.2.trans hpq.1.2⟩,
    UInt8.lt_iff_toNat_lt.mpr
      ((UInt8.lt_iff_toNat_lt.mp hqr.2).trans (UInt8.lt_iff_toNat_lt.mp hpq.2))⟩

/-! ## One record -/

/-- The request stays as it is, or `last_eid` moves on, strictly inside what it was; only
then locators are added. -/
def MovesOn (l l' : DdtLookup) : Prop :=
  (l'.lastEid = l.lastEid ∧ l'.rlocs = l.rlocs) ∨
    ∃ p, l'.lastEid = some p ∧ ∀ q, l.lastEid = some q → p.StrictlyInside q

/-- The record moves the request on, or leaves it; and a referral outside `last_eid`
finishes it. -/
structure RecordDescends (mem : Mem) (w : RecordWalk) : Prop where
  movesOn : ∀ w', recordTurn getFamily mem w = .next w' → MovesOn w.lookup w'.lookup
  outside : ∀ fam last, getFamily (mem.advance w.cursor.toNat) = some fam →
    IsReferral (mem.advance w.cursor.toNat) → w.lookup.lastEid = some last →
      ¬ (w.pf.copy fam (mem.advance w.cursor.toNat)).Inside last →
        ∃ w', recordTurn getFamily mem w = .finished w'

/-- A referral whose bits begin with those of `last_eid` is of its family. -/
def RecordKeepsFamily (mem : Mem) (w : RecordWalk) : Prop :=
  ∀ fam last, getFamily (mem.advance w.cursor.toNat) = some fam →
    IsReferral (mem.advance w.cursor.toNat) → w.lookup.lastEid = some last →
      last.raw.bits <+: (w.pf.copy fam (mem.advance w.cursor.toNat)).raw.bits →
        fam = last.family

section Record

variable {mem : Mem} {w : RecordWalk}

/-- A prefix that `last_eid` covers, of its family, moves the request on. -/
theorem movesOn_moveOn {l : DdtLookup} {pf : EidBuffer}
    (hinside : ∀ last, l.lastEid = some last → pf.Inside last)
    (info : List RegisterEntry) : MovesOn l (l.moveOn pf info) := by
  rw [DdtLookup.moveOn]
  split
  next hlonger =>
    refine Or.inr ⟨pf, rfl, fun last hlast => ⟨hinside last hlast, ?_⟩⟩
    rw [hlast, Option.all_some, decide_eq_true_iff] at hlonger
    exact hlonger
  · exact Or.inl ⟨rfl, rfl⟩

/-- A record descends exactly if it keeps the family. -/
theorem recordDescends_iff : RecordDescends mem w ↔ RecordKeepsFamily mem w := by
  constructor
  · rintro ⟨-, houtside⟩ fam last hfam hreferral hlast hbits
    by_contra hfamily
    have hnot : ¬ (w.pf.copy fam (mem.advance w.cursor.toNat)).Inside last :=
      fun hinside => hfamily hinside.1
    obtain ⟨w', hfinished⟩ := houtside fam last hfam hreferral hlast hnot
    rcases recordTurn_of_isReferral hfam hreferral with ⟨w'', hnext, -⟩ |
      ⟨w'', -, last', hlast', hmatch⟩
    · cases hnext.symm.trans hfinished
    · obtain rfl := Option.some_inj.mp (hlast.symm.trans hlast')
      cases (prefixMatch_iff.mpr hbits).symm.trans hmatch
  · intro hkeeps
    refine ⟨?_, ?_⟩
    · intro w' hnext
      obtain ⟨fam, hfam, ⟨hreferral, hmatch, rfl⟩ | ⟨-, rfl⟩⟩ := recordTurn_next hnext
      · refine movesOn_moveOn (fun last hlast => ?_) _
        have hbits := prefixMatch_iff.mp (hmatch last hlast)
        exact ⟨hkeeps fam last hfam hreferral hlast hbits, hbits⟩
      · exact Or.inl ⟨rfl, rfl⟩
    · intro fam last hfam hreferral hlast hnot
      rcases recordTurn_of_isReferral hfam hreferral with ⟨w', -, hmatch⟩ |
        ⟨w', hfinished, -⟩
      · have hbits := prefixMatch_iff.mp (hmatch last hlast)
        exact absurd ⟨hkeeps fam last hfam hreferral hlast hbits, hbits⟩ hnot
      · exact ⟨w', hfinished⟩

end Record

/-! ## Messages and requests -/

/-- The walk as a partial step, which fails where the processing ends. -/
def recordStep (mem : Mem) (w : RecordWalk) (_ : Unit) : Option RecordWalk :=
  match recordTurn getFamily mem w with
  | .next w' => some w'
  | _ => none

/-- A Map-Referral at `buf`, the database it meets, and whether what goes out can be
sent. -/
structure Referral where
  mem : Mem
  buf : UInt64
  db : MapServer
  sent : Bool

/-- What happens to a slot: `mr_new_lookup` takes it, `get_mr_ddt` applies a Map-Referral
to its request, the Map-Request is sent again, and the request is given up. -/
inductive DdtEvent
  | lookup (pke : PkReq) (nonce : ℕ × ℕ) (rn : DbNode) (sent : Bool)
  | referral (m : Referral)
  | retry (sent : Bool)
  | giveUp

/-- One event. -/
def ddtStep (l : DdtLookup) : DdtEvent → Option DdtLookup
  | .lookup pke nonce rn sent =>
      some (if l.active then l else DdtLookup.send ⟨newPending pke nonce rn, none⟩ sent)
  | .referral m =>
      some (if l.active then (getMrDdtRecords m.mem m.buf l m.db).settle m.sent else l)
  | .retry sent => some (l.send sent)
  | .giveUp => some l.free

/-- All records of a message that are examined for a request satisfy `P`. -/
def Referral.AllRecords (P : Mem → RecordWalk → Prop) (m : Referral) (l : DdtLookup) :
    Prop :=
  Along (recordStep m.mem) (fun w _ => P m.mem w) (.start m.buf l m.db)
    (List.replicate (recordCount m.mem m.buf) ())

/-- The records of a message for a request descend; when the Map-Request is sent again,
`last_eid` stays and no locators are added. -/
def Descends (l : DdtLookup) : DdtEvent → Prop
  | .referral m => l.active = true → m.AllRecords RecordDescends l
  | .retry sent => (l.send sent).lastEid = l.lastEid ∧ (l.send sent).rlocs <+: l.rlocs
  | _ => True

/-- The records of a message for a request keep the family of `last_eid`. -/
def KeepsFamily (l : DdtLookup) : DdtEvent → Prop
  | .referral m => l.active = true → m.AllRecords RecordKeepsFamily l
  | _ => True

section Requests

variable {l l' : DdtLookup} {m : Referral}

theorem allRecords_iff {P Q : Mem → RecordWalk → Prop} (h : ∀ mem w, P mem w ↔ Q mem w) :
    m.AllRecords P l ↔ m.AllRecords Q l :=
  along_congr fun w _ => h m.mem w

/-- A Map-Request that is sent takes locators away. -/
theorem rlocs_send_isPrefix (l : DdtLookup) (sent : Bool) :
    (l.send sent).rlocs <+: l.rlocs := by
  change (sendMrDdt l.toEidPending sent).rlocs <+: l.rlocs
  rw [sendMrDdt]
  split
  · split
    · exact List.prefix_rfl
    · split
      · exact List.prefix_rfl
      · split
        · exact List.dropLast_prefix _
        · exact List.prefix_rfl
  · exact List.prefix_rfl

theorem descends_iff {e : DdtEvent} : Descends l e ↔ KeepsFamily l e := by
  cases e with
  | referral m =>
      exact forall_congr' fun _ => allRecords_iff fun _ _ => recordDescends_iff
  | retry sent => exact iff_of_true ⟨rfl, rlocs_send_isPrefix l sent⟩ trivial
  | lookup pke nonce rn sent => exact Iff.rfl
  | giveUp => exact Iff.rfl

/-- Every value of `last_eid` behind a walk is the one before it, or strictly inside. -/
def StaysInside (l l' : DdtLookup) : Prop :=
  ∀ q, l.lastEid = some q →
    ∃ p, l'.lastEid = some p ∧ (p = q ∨ p.StrictlyInside q)

theorem MovesOn.staysInside (h : MovesOn l l') : StaysInside l l' := by
  intro q hq
  rcases h with ⟨hsame, -⟩ | ⟨p, hp, hinside⟩
  · exact ⟨q, hsame.trans hq, Or.inl rfl⟩
  · exact ⟨p, hp, Or.inr (hinside q hq)⟩

theorem StaysInside.trans {l'' : DdtLookup} (h : StaysInside l l')
    (h' : StaysInside l' l'') : StaysInside l l'' := by
  intro r hr
  obtain ⟨q, hq, hqr⟩ := h r hr
  obtain ⟨p, hp, hpq⟩ := h' q hq
  refine ⟨p, hp, ?_⟩
  rcases hpq with rfl | hpq
  · exact hqr
  · rcases hqr with rfl | hqr
    · exact Or.inr hpq
    · exact Or.inr (hpq.trans hqr)

theorem StaysInside.of_lastEid_eq (h : l'.lastEid = l.lastEid) : StaysInside l l' :=
  fun q hq => ⟨q, h.trans hq, Or.inl rfl⟩

/-- Over the records of a message `last_eid` stays inside what it was. -/
theorem staysInside_recordWalk {mem : Mem} {rcount : ℕ} {w : RecordWalk}
    (h : Along (recordStep mem) (fun w _ => RecordDescends mem w) w
      (List.replicate rcount ())) :
    StaysInside w.lookup (recordWalk getFamily mem rcount w).lookup := by
  induction rcount generalizing w with
  | zero => exact .of_lastEid_eq rfl
  | succ rcount ih =>
      obtain ⟨hdescends, hrest⟩ := h
      rw [recordWalk]
      split
      next w' hturn =>
        have hstep : recordStep mem w () = some w' := by rw [recordStep, hturn]
        exact (hdescends.movesOn w' hturn).staysInside.trans (ih (hrest w' hstep))
      next hend =>
        rcases recordTurn_next_or_same getFamily mem w with ⟨w', hturn⟩ | hsame
        · exact absurd hturn (hend w')
        · exact .of_lastEid_eq (congrArg DdtLookup.lastEid hsame)

theorem staysInside_getMrDdtRecords (h : m.AllRecords RecordDescends l) :
    StaysInside l (getMrDdtRecords m.mem m.buf l m.db).lookup := by
  rw [getMrDdtRecords]
  split
  · exact .of_lastEid_eq rfl
  · exact staysInside_recordWalk h

/-- An event that does not begin a request. -/
def DdtEvent.IsFollowUp : DdtEvent → Prop
  | .referral _ => True
  | .retry _ => True
  | _ => False

theorem active_send (l : DdtLookup) (sent : Bool) : (l.send sent).active = l.active := by
  obtain ⟨count, rlocs, heq⟩ := sendMrDdt_eq l.toEidPending sent
  change (sendMrDdt l.toEidPending sent).active = l.active
  rw [heq]

theorem not_active_free (l : DdtLookup) : ¬ l.free.active = true := by
  rw [DdtLookup.free]
  split
  · exact Bool.false_ne_true
  next h => exact h

/-- A request that is pending behind an event was so before it, and follows a prefix
inside the one of before. -/
theorem staysInside_ddtStep {e : DdtEvent} (he : e.IsFollowUp)
    (hstep : ddtStep l e = some l') (hactive : l'.active = true) :
    l.active = true ∧ (Descends l e → StaysInside l l') := by
  cases e with
  | lookup pke nonce rn sent => exact he.elim
  | giveUp => exact he.elim
  | retry sent =>
      obtain rfl := Option.some_inj.mp hstep
      rw [active_send] at hactive
      exact ⟨hactive, fun hdescends => .of_lastEid_eq hdescends.1⟩
  | referral m =>
      have hl' := Option.some_inj.mp hstep
      by_cases hl : l.active = true
      · refine ⟨hl, fun hdescends => ?_⟩
        rw [if_pos hl] at hl'
        have hinside := staysInside_getMrDdtRecords (hdescends hl)
        cases hend : getMrDdtRecords m.mem m.buf l m.db with
        | next w =>
            rw [hend] at hl' hinside
            obtain rfl := hl'
            exact hinside.trans (.of_lastEid_eq rfl)
        | finished w =>
            rw [hend] at hl'
            obtain rfl := hl'
            exact absurd hactive (not_active_free _)
        | unread w =>
            rw [hend] at hl' hinside
            obtain rfl := hl'
            exact hinside
      · rw [if_neg hl] at hl'
        exact absurd (hl' ▸ hactive) hl

/-- Over all messages for one request `last_eid` stays inside what it was. -/
theorem staysInside_of_run {events : List DdtEvent} (hevents : ∀ e ∈ events, e.IsFollowUp)
    (hdescends : Along ddtStep Descends l events) (hrun : run ddtStep l events = some l')
    (hactive : l'.active = true) : l.active = true ∧ StaysInside l l' := by
  induction events generalizing l with
  | nil =>
      obtain rfl := Option.some_inj.mp hrun
      exact ⟨hactive, .of_lastEid_eq rfl⟩
  | cons e events ih =>
      obtain ⟨l'', hstep, hrest⟩ := run_cons_eq_some.mp hrun
      obtain ⟨hfirst, hlater⟩ := hdescends
      obtain ⟨hactive', hinside'⟩ :=
        ih (fun e he => hevents e (List.mem_cons_of_mem _ he)) (hlater l'' hstep) hrest
      obtain ⟨hl, hinside⟩ := staysInside_ddtStep (hevents e List.mem_cons_self) hstep hactive'
      exact ⟨hl, (hinside hfirst).trans hinside'⟩

end Requests

/-- For every sequence of events at a slot, the prefixes that a request follows descend,
locators are added only when they do, and referrals outside finish the request, exactly
if every referral whose bits begin with those of `last_eid` is of its family. -/
theorem along_descends_iff_keepsFamily (l : DdtLookup) (events : List DdtEvent) :
    Along ddtStep Descends l events ↔ Along ddtStep KeepsFamily l events :=
  along_congr fun _ _ => descends_iff

/-- A message at 4096 with one record. -/
def referralOf (record : List UInt8) : Referral where
  mem := fun address => Mem.ofList ([0x60, 0, 0, 1, 0, 0, 0, 7, 0, 0, 0, 9] ++ record)
    (fun _ => 0) (address - 4096)
  buf := 4096
  db := MapServer.msInitDb fun _ => ⟨[], none⟩
  sent := true

/-- A referral for 10.0.0.0/8 to the node 192.0.2.1. -/
def referralTen : Referral :=
  referralOf ([0, 0, 0, 60, 1, 8, 0, 0, 0, 0] ++ List.replicate 12 0 ++
    [0, 1, 10, 0, 0, 0] ++ [1, 100, 255, 0, 0, 1, 0, 1, 192, 0, 2, 1])

/-- A referral for a00::/16. -/
def referralOther : Referral :=
  referralOf ([0, 0, 0, 60, 0, 16, 0, 0, 0, 0] ++ List.replicate 12 0 ++
    [0, 2] ++ (10 :: List.replicate 15 0))

/-- A referral for a00::/16 is followed after one for 10.0.0.0/8. -/
theorem not_along_descends_other :
    ¬ ∀ l events, Along ddtStep Descends l events := by
  intro h
  have hafter := (h ⟨{ emptyPending with active := true }, none⟩
    [.referral referralTen, .referral referralOther]).2 _ rfl
  have hkeeps := recordDescends_iff.mp (hafter.1 (by decide +kernel)).1
  have hfamily := hkeeps afInet6 ⟨afInet, 8, #v[10, 0, 0, 0, 0, 0, 0, 0, 0, 0, 0, 0, 0, 0, 0, 0]⟩
    (by decide +kernel) (by decide +kernel) (by decide +kernel) (by decide +kernel)
  cases hfamily

end HyLisp.ControlPlane
