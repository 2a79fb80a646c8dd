import HyLisp.ControlPlane.PendingRequests

/-!
# Custody of packets

Every packet that was queued is in process, was released once, or is held by one pending
request; `ipq_no` counts those in process and the pending requests, so that the receive
loop waits only while there are as many of them as it allows.

There are two ways to lose a packet, both in `pending_request`: the nonce of the request
is pending already, or every slot is taken.  A run keeps account of its packets exactly
when no request meets either.
-/

namespace HyLisp.ControlPlane

open DataPlane Transition Custody

namespace CpState

/-- The packets held by pending requests. -/
def held (s : CpState) : List ℕ :=
  Custody.held EidPending.holds s.lookups

/-- The packet behind `udp_get_pk` is not yet counted. -/
def uncounted (s : CpState) : UInt32 :=
  if s.receiver = .polling then 0 else 1

/-- The packets that are not released: those in the hands of a worker, those in process,
and those held by pending requests. -/
def unreleased (hand : List ℕ) (s : CpState) : List ℕ :=
  hand ++ (s.inProcess.map PkReq.id ++ s.held)

/-- Each packet queued so far was released or is in one of the other places, once in all;
`ipq_no` counts those that are not released; and the receive loop does not wait for
packets that nobody has. -/
structure Accounted (pkPoolMax : UInt32) (hand : List ℕ) (s : CpState) : Prop where
  places : (s.released ++ s.unreleased hand).Perm (List.range s.next)
  ipqNo_eq : s.ipqNo + s.uncounted = UInt32.ofNat (s.unreleased hand).length
  waits : s.receiver = .waiting → pkPoolMax.toNat ≤ (s.unreleased hand).length

end CpState

/-- A packet is a request that goes to the pending ones, with its nonce: an encapsulated
Map-Request, not on DDT, that both passes accept, and that is for the map resolver. -/
def Pends (fncs : Functions) (env : Surroundings) (pke : PkReq) (nonce : ℕ × ℕ) : Prop :=
  lispType pke.buf = lispTypeEcm ∧ fncs.xtr = false ∧
    ∃ pre ecm itr eids p, udpPreparsePk pke.buf pke.bufLen = some pre ∧
      pre.ecm = some ecm ∧ ecm.ddt = false ∧
      udpPrcRequest (pke.buf.advance pre.lcm) = some (itr, eids) ∧
      requestGetEid env eids = some p ∧ ForResolver fncs (dbNodeMatchPrefix env.db p) ∧
      nonce = (pre.nonce0, pre.nonce1)

/-- A nonce is not pending, and there is a slot that is not active. -/
def CpState.HasRoomFor (s : CpState) (nonce : ℕ × ℕ) : Prop :=
  (∀ i, (s.lookups i).active = true → (s.lookups i).nonce ≠ nonce) ∧
    ∃ i, (s.lookups i).active = false

/-- There is room for a request that goes to the pending ones. -/
def PendsInRoom (fncs : Functions) (s : CpState) : CpEvent → Prop
  | .process k env => ∀ pke, s.inProcess[k]? = some pke → ∀ nonce,
      Pends fncs env pke nonce → s.HasRoomFor nonce
  | _ => True

/-! ## Slots -/

section Slots

variable {l : EidPending}

theorem holds_of_active (h : l.active = true) : l.holds = some l.pke.id := by
  rw [EidPending.holds, if_pos h]

theorem holds_of_inactive (h : l.active = false) : l.holds = none := by
  rw [EidPending.holds, h]
  rfl

/-- A Map-Request sent again leaves the packet where it is. -/
theorem sendMrDdt_eq (l : EidPending) (sent : Bool) :
    ∃ count rlocs, sendMrDdt l sent = { l with count := count, rlocs := rlocs } := by
  unfold sendMrDdt
  split
  · split
    · exact ⟨_, _, rfl⟩
    · split
      · exact ⟨_, _, rfl⟩
      · split
        · exact ⟨_, _, rfl⟩
        · exact ⟨_, _, rfl⟩
  · exact ⟨_, _, rfl⟩

theorem holds_sendMrDdt (l : EidPending) (sent : Bool) :
    (sendMrDdt l sent).holds = l.holds := by
  obtain ⟨count, rlocs, heq⟩ := sendMrDdt_eq l sent
  rw [heq]
  rfl

end Slots

/-! ## Moving a packet -/

namespace CpState.Accounted

variable {pkPoolMax : UInt32} {hand : List ℕ} {s : CpState} {pke : PkReq}
  {idx : Fin maxLookups} {l : EidPending}

theorem init (pkPoolMax : UInt32) : CpState.init.Accounted pkPoolMax [] := by
  have hnone : CpState.init.unreleased [] = [] := held_eq_nil fun i => rfl
  refine ⟨?_, ?_, fun hwait => by cases hwait⟩
  · rw [hnone]
    exact List.Perm.refl []
  · rw [hnone]
    rfl

/-- A packet that moves between the places where it is not released stays accounted
for. -/
theorem move {hand' : List ℕ} {inProcess : List PkReq}
    {lookups : Fin maxLookups → EidPending} {mrNfds : ℕ} (h : s.Accounted pkPoolMax hand)
    (hperm : (hand' ++ (inProcess.map PkReq.id ++ Custody.held EidPending.holds lookups)).Perm
      (s.unreleased hand)) :
    CpState.Accounted pkPoolMax hand'
      { s with inProcess := inProcess, lookups := lookups, mrNfds := mrNfds } := by
  refine ⟨(hperm.append_left s.released).trans h.places, ?_, fun hwait => ?_⟩
  · have hcount := h.ipqNo_eq
    rw [← hperm.length_eq] at hcount
    exact hcount
  · have hwaits := h.waits hwait
    rw [← hperm.length_eq] at hwaits
    exact hwaits

/-- A worker takes one of the packets in process. -/
theorem take_inProcess {k : ℕ} (h : s.Accounted pkPoolMax [])
    (hk : s.inProcess[k]? = some pke) :
    CpState.Accounted pkPoolMax [pke.id]
      { s with inProcess := s.inProcess.eraseIdx k } := by
  obtain ⟨hlt, hget⟩ := List.getElem?_eq_some_iff.mp hk
  have hperm : (pke :: s.inProcess.eraseIdx k).Perm s.inProcess := by
    rw [← hget]
    exact List.getElem_cons_eraseIdx_perm hlt
  exact h.move ((hperm.map PkReq.id).append_right s.held)

/-- A slot is written and keeps what it holds. -/
theorem setSlot_same (h : s.Accounted pkPoolMax hand)
    (hl : l.holds = (s.lookups idx).holds) :
    (s.setSlot idx l).Accounted pkPoolMax hand := by
  apply h.move
  rw [held_update_same hl]
  exact List.Perm.refl _

/-- The packet in the hands of a worker is put into a slot. -/
theorem setSlot_put {id : ℕ} (h : s.Accounted pkPoolMax (id :: hand))
    (hempty : (s.lookups idx).holds = none) (hl : l.holds = some id) :
    (s.setSlot idx l).Accounted pkPoolMax hand := by
  apply h.move
  apply List.perm_iff_count.mpr
  intro n
  rw [unreleased, CpState.held]
  simp only [List.count_append, (held_update_put hempty hl).count_eq, List.count_cons]
  omega

/-- A worker takes the packet out of a slot. -/
theorem setSlot_take {id : ℕ} (h : s.Accounted pkPoolMax hand)
    (hfull : (s.lookups idx).holds = some id) (hl : l.holds = none) :
    (s.setSlot idx l).Accounted pkPoolMax (id :: hand) := by
  apply h.move
  apply List.perm_iff_count.mpr
  intro n
  rw [unreleased, CpState.held]
  simp only [List.count_append, (held_update_take hfull hl).count_eq, List.count_cons]
  omega

/-- A worker releases the packet in its hands. -/
theorem udpFreePk (h : s.Accounted pkPoolMax (pke.id :: hand)) :
    (ControlPlane.udpFreePk s pke).Accounted pkPoolMax hand := by
  have hwoken : (ControlPlane.udpFreePk s pke).receiver ≠ .waiting := by
    change (if s.receiver = .waiting then Receiver.signalled else s.receiver) ≠ .waiting
    split
    · decide
    next hnot => exact hnot
  have huncounted : (ControlPlane.udpFreePk s pke).uncounted = s.uncounted := by
    change (if (if s.receiver = .waiting then Receiver.signalled else s.receiver) =
      .polling then (0 : UInt32) else 1) = if s.receiver = .polling then 0 else 1
    cases s.receiver
    all_goals rfl
  refine ⟨?_, ?_, fun hwait => absurd hwait hwoken⟩
  · refine List.Perm.trans ?_ h.places
    change ((s.released ++ [pke.id]) ++ s.unreleased hand).Perm
      (s.released ++ pke.id :: s.unreleased hand)
    rw [List.append_assoc]
    exact List.Perm.refl _
  · have hcount : s.ipqNo + s.uncounted = UInt32.ofNat ((s.unreleased hand).length + 1) :=
      h.ipqNo_eq
    have hone : UInt32.ofNat 1 = 1 := rfl
    rw [UInt32.ofNat_add, hone] at hcount
    rw [huncounted]
    change s.ipqNo - 1 + s.uncounted = UInt32.ofNat (s.unreleased hand).length
    grind

/-! ## The steps -/

theorem freeLookups (h : s.Accounted pkPoolMax hand) :
    (ControlPlane.freeLookups s idx).Accounted pkPoolMax hand := by
  unfold ControlPlane.freeLookups
  dsimp only
  split
  next hactive =>
    exact (h.setSlot_take (holds_of_active hactive) (holds_of_inactive rfl)).udpFreePk
  · exact h

theorem sendMrDdt (h : s.Accounted pkPoolMax hand) (sent : Bool)
    (hl : l.holds = (s.lookups idx).holds) :
    (s.setSlot idx (ControlPlane.sendMrDdt l sent)).Accounted pkPoolMax hand := by
  apply h.setSlot_same
  rw [holds_sendMrDdt]
  exact hl

theorem applyWalk (h : s.Accounted pkPoolMax hand) (walk : ReferralWalk) :
    (ControlPlane.applyWalk s idx walk).Accounted pkPoolMax hand := by
  unfold ControlPlane.applyWalk
  dsimp only
  split
  · apply freeLookups
    exact h.setSlot_same rfl
  · exact h.setSlot_same rfl
  · exact h.sendMrDdt _ rfl

theorem getMrDdt (h : s.Accounted pkPoolMax hand) (buf : Mem) (walk : ReferralWalk) :
    (ControlPlane.getMrDdt s buf walk).Accounted pkPoolMax hand := by
  unfold ControlPlane.getMrDdt
  split
  · exact h
  · split
    · exact h
    · exact h.applyWalk walk

theorem readMrDdt (h : s.Accounted pkPoolMax hand) (buf : Mem) (walk : ReferralWalk) :
    (ControlPlane.readMrDdt s idx buf walk).Accounted pkPoolMax hand := by
  unfold ControlPlane.readMrDdt
  split
  · exact h.applyWalk walk
  · exact h

/-- Requests that are given up release their packets, one slot after the other. -/
theorem scanLookups (h : s.Accounted pkPoolMax hand) :
    (ControlPlane.scanLookups s).Accounted pkPoolMax hand := by
  apply scanLookups_rule _ _ h
  · intro t n ht
    exact ht.move (List.Perm.refl _)
  · intro t i ht
    exact ht.freeLookups

/-- A packet that is queued gets the next number, and is not yet counted. -/
theorem udpGetPk (h : s.Accounted pkPoolMax []) (buf : Mem) (bufLen : ℕ) :
    (ControlPlane.udpGetPk s buf bufLen).Accounted pkPoolMax [] := by
  unfold ControlPlane.udpGetPk
  split
  next hqueued =>
    let s' : CpState :=
      { s with
        inProcess := s.inProcess ++ [⟨s.next, buf, bufLen⟩]
        receiver := .queued
        next := s.next + 1 }
    have hnew : (s'.unreleased []).Perm (s.unreleased [] ++ [s.next]) := by
      apply List.perm_iff_count.mpr
      intro n
      change List.count n
          ((s.inProcess ++ [(⟨s.next, buf, bufLen⟩ : PkReq)]).map PkReq.id ++ s.held) =
        List.count n ((s.inProcess.map PkReq.id ++ s.held) ++ [s.next])
      simp only [List.map_append, List.map_cons, List.map_nil, List.count_append]
      omega
    have hcounted : s.uncounted = 0 := if_pos hqueued.1
    refine ⟨?_, ?_, fun hwait => by cases hwait⟩
    · have hplaces : (s.released ++ (s.unreleased [] ++ [s.next])).Perm
          (List.range s.next ++ [s.next]) := by
        rw [← List.append_assoc]
        exact h.places.append_right [s.next]
      rw [← List.range_succ] at hplaces
      exact (hnew.append_left s.released).trans hplaces
    · have hcount := h.ipqNo_eq
      have hone : UInt32.ofNat 1 = 1 := rfl
      rw [hcounted, UInt32.add_zero] at hcount
      rw [hnew.length_eq, List.length_append, List.length_singleton, UInt32.ofNat_add,
        ← hcount, hone]
      rfl
  · exact h

/-- The packet queued last is counted, or the loop waits. -/
theorem countPk (h : s.Accounted pkPoolMax []) :
    (ControlPlane.countPk pkPoolMax s).Accounted pkPoolMax [] := by
  unfold ControlPlane.countPk
  have hcount := h.ipqNo_eq
  split
  · exact h
  next hqueued =>
    have hone : s.uncounted = 1 := if_neg (by rw [hqueued]; decide)
    rw [hone] at hcount
    split
    next hfull =>
      refine ⟨h.places, hcount, fun _ => ?_⟩
      have hle := UInt32.le_iff_toNat_le.mp hfull
      rw [hcount, UInt32.toNat_ofNat'] at hle
      exact le_trans hle (Nat.mod_le _ _)
    · refine ⟨h.places, ?_, fun hwait => by cases hwait⟩
      change s.ipqNo + 1 + 0 = _
      rw [UInt32.add_zero]
      exact hcount
  · exact h
  next hsignalled =>
    have hone : s.uncounted = 1 := if_neg (by rw [hsignalled]; decide)
    rw [hone] at hcount
    refine ⟨h.places, ?_, fun hwait => by cases hwait⟩
    change s.ipqNo + 1 + 0 = _
    rw [UInt32.add_zero]
    exact hcount

/-- All packets are counted, wherever they are. -/
theorem length_eq (h : s.Accounted pkPoolMax hand) :
    s.released.length + (s.unreleased hand).length = s.next := by
  rw [← List.length_append, h.places.length_eq, List.length_range]

end CpState.Accounted

/-! ## Processing a packet -/

section Process

variable {fncs : Functions} {env : Surroundings} {s s' : CpState} {pke : PkReq}

/-- What becomes of a request: it is for the map resolver, or less than 2 is
returned. -/
theorem genericProcessRequest_cases {ddt : Bool} {eids : List Prefix} {result : RequestEnd}
    (h : genericProcessRequest fncs env ddt eids = some result) :
    (∃ rn p, result = .pending rn ∧ ddt = false ∧ requestGetEid env eids = some p ∧
        ForResolver fncs (dbNodeMatchPrefix env.db p)) ∨
      result.value < 2 := by
  unfold genericProcessRequest at h
  split at h
  · cases h
  next p heid =>
    dsimp only at h
    split at h
    · obtain ⟨rt, hrt, rfl⟩ := Option.map_eq_some_iff.mp h
      exact Or.inr (processDdtRequest_lt_two hrt)
    next hddt =>
      rcases processPlainRequest_cases h with ⟨⟨rn, rfl⟩, hfor⟩ | hreturned
      · exact Or.inl ⟨rn, p, rfl, Bool.eq_false_of_not_eq_true hddt, heid, hfor⟩
      · exact Or.inr hreturned

/-- An encapsulated request is released when it is processed, unless it is for the map
resolver. -/
theorem processEncapsulated_cases {pre : Preparsed} {ecm : Ecm} {eids : List Prefix}
    (h : processEncapsulated fncs env s pke pre ecm eids = some s') :
    (∃ rn p, fncs.xtr = false ∧ ecm.ddt = false ∧ requestGetEid env eids = some p ∧
        ForResolver fncs (dbNodeMatchPrefix env.db p) ∧
        s' = pendingRequest s pke (pre.nonce0, pre.nonce1) rn env.sent) ∨
      s' = udpFreePk s pke := by
  unfold processEncapsulated at h
  split at h
  · exact Or.inr (Option.some_inj.mp h).symm
  next hxtr =>
    split at h
    · cases h
    next rn hend =>
      rcases genericProcessRequest_cases hend with ⟨rn', p, -, hddt, heid, hfor⟩ | hlt
      · exact Or.inl ⟨rn, p, Bool.eq_false_of_not_eq_true hxtr, hddt, heid, hfor,
          (Option.some_inj.mp h).symm⟩
      · exact absurd hlt (lt_irrefl 2)
    next finish hnot hend =>
      rcases genericProcessRequest_cases hend with ⟨rn, p, heq, -⟩ | hlt
      · exact absurd heq (hnot rn)
      · rw [if_pos hlt] at h
        exact Or.inr (Option.some_inj.mp h).symm

/-- A packet is released when it is processed, unless it goes to the pending ones. -/
theorem lispProcess_cases (h : lispProcess fncs env s pke = some s') :
    (∃ nonce rn, Pends fncs env pke nonce ∧
        s' = pendingRequest s pke nonce rn env.sent) ∨
      s' = udpFreePk s pke ∨ s' = udpFreePk (getMrDdt s pke.buf env.walk) pke := by
  unfold lispProcess at h
  dsimp only at h
  split at h
  · exact Or.inr (Or.inl (Option.some_inj.mp h).symm)
  · split at h
    · split at h
      · cases h
      · exact Or.inr (Or.inl (Option.some_inj.mp h).symm)
    · split at h
      next htype =>
        split at h
        · cases h
        next pre hpre =>
          split at h
          next itr eids ecm hprc hecm =>
            rcases processEncapsulated_cases h with
              ⟨rn, p, hxtr, hddt, heid, hfor, hs⟩ | hs
            · exact Or.inl ⟨_, rn, ⟨htype, hxtr, pre, ecm, itr, eids, p, hpre, hecm, hddt,
                hprc, heid, hfor, rfl⟩, hs⟩
            · exact Or.inr (Or.inl hs)
          · exact Or.inr (Or.inl (Option.some_inj.mp h).symm)
      · split at h
        · exact Or.inr (Or.inr (Option.some_inj.mp h).symm)
        · exact Or.inr (Or.inl (Option.some_inj.mp h).symm)

/-- A request that is for the map resolver goes to the pending ones. -/
theorem lispProcess_of_pends {nonce : ℕ × ℕ} (h : Pends fncs env pke nonce) :
    ∃ rn, lispProcess fncs env s pke =
      some (pendingRequest s pke nonce rn env.sent) := by
  obtain ⟨htype, hxtr, pre, ecm, itr, eids, p, hpre, hecm, hddt, hprc, heid, hfor, rfl⟩ := h
  obtain ⟨rn, hrn⟩ := exists_pending hfor env.sent
  have hgeneric : genericProcessRequest fncs env ecm.ddt eids = some (.pending rn) := by
    rw [genericProcessRequest, heid, hddt]
    exact hrn
  have hencapsulated : processEncapsulated fncs env s pke pre ecm eids =
      some (pendingRequest s pke (pre.nonce0, pre.nonce1) rn env.sent) := by
    rw [processEncapsulated, hxtr, if_neg Bool.false_ne_true, hgeneric]
  refine ⟨rn, ?_⟩
  unfold lispProcess
  dsimp only
  rw [htype, if_neg (by decide), if_neg (by decide), if_pos rfl, hpre]
  dsimp only
  rw [hprc, hecm]
  exact hencapsulated

end Process

/-! ## Runs -/

namespace CpState.Accounted

variable {fncs : Functions} {pkPoolMax : UInt32} {s s' : CpState} {pke : PkReq}
  {nonce : ℕ × ℕ}

/-- Where there is room for a request, a slot takes its packet over. -/
theorem pendingRequest (h : s.Accounted pkPoolMax [pke.id]) (hroom : s.HasRoomFor nonce)
    (rn : DbNode) (sent : Bool) :
    (ControlPlane.pendingRequest s pke nonce rn sent).Accounted pkPoolMax [] := by
  obtain ⟨hnew, i, hi⟩ := hroom
  unfold ControlPlane.pendingRequest
  split
  next l hl =>
    have hfound := List.find?_some hl
    rw [Bool.and_eq_true, beq_iff_eq] at hfound
    exact absurd hfound.2 (hnew l hfound.1)
  · unfold mrNewLookup
    split
    next hnone =>
      have hi' := List.find?_eq_none.mp hnone i (List.mem_finRange i)
      rw [hi] at hi'
      exact absurd rfl hi'
    next l hl =>
      have hfree := List.find?_some hl
      rw [Bool.not_eq_true'] at hfree
      apply h.setSlot_put (holds_of_inactive hfree)
      rw [holds_sendMrDdt]
      exact holds_of_active rfl

/-- Where there is none, it stays in the hands of the worker. -/
theorem pendingRequest_lost (h : s.Accounted pkPoolMax [pke.id])
    (hroom : ¬ s.HasRoomFor nonce) (rn : DbNode) (sent : Bool) :
    (ControlPlane.pendingRequest s pke nonce rn sent).Accounted pkPoolMax [pke.id] := by
  unfold ControlPlane.pendingRequest
  split
  next l hl => exact h.sendMrDdt sent rfl
  next hnone =>
    unfold mrNewLookup
    split
    · exact h
    next i hi =>
      have hfree := List.find?_some hi
      rw [Bool.not_eq_true'] at hfree
      refine absurd ⟨fun l hactive hnonce => ?_, i, hfree⟩ hroom
      have hl := List.find?_eq_none.mp hnone l (List.mem_finRange l)
      rw [hactive, hnonce, beq_self_eq_true] at hl
      exact hl rfl

/-- A packet in the hands of a worker that has returned is lost. -/
theorem not_accounted_of_hand {id : ℕ} (h : s.Accounted pkPoolMax [id]) :
    ¬ s.Accounted pkPoolMax [] := by
  intro hnone
  have hlength := h.length_eq
  have hlength' := hnone.length_eq
  have hhand : (s.unreleased [id]).length = (s.unreleased []).length + 1 := rfl
  omega

/-- A step in which requests find room keeps account of the packets. -/
theorem step (h : s.Accounted pkPoolMax []) {e : CpEvent} (hroom : PendsInRoom fncs s e)
    (hstep : cpStep fncs pkPoolMax s e = some s') : s'.Accounted pkPoolMax [] := by
  cases e with
  | receive buf bufLen =>
      rw [← Option.some_inj.mp hstep]
      exact h.udpGetPk buf bufLen
  | count =>
      rw [← Option.some_inj.mp hstep]
      exact h.countPk
  | process k env =>
      rw [cpStep] at hstep
      split at hstep
      · rw [← Option.some_inj.mp hstep]
        exact h
      next pke hk =>
        have htaken := h.take_inProcess hk
        rcases lispProcess_cases hstep with ⟨nonce, rn, hpends, rfl⟩ | rfl | rfl
        · exact htaken.pendingRequest (hroom pke hk nonce hpends) rn env.sent
        · exact htaken.udpFreePk
        · exact (htaken.getMrDdt pke.buf env.walk).udpFreePk
  | scan =>
      rw [← Option.some_inj.mp hstep]
      exact h.scanLookups
  | retry idx sent =>
      rw [← Option.some_inj.mp hstep]
      exact h.sendMrDdt sent rfl
  | referral idx buf walk =>
      rw [← Option.some_inj.mp hstep]
      exact h.readMrDdt buf walk

/-- Account is kept in a step exactly when its request finds room. -/
theorem step_iff (h : s.Accounted pkPoolMax []) {e : CpEvent} :
    (∀ s', cpStep fncs pkPoolMax s e = some s' → s'.Accounted pkPoolMax []) ↔
      PendsInRoom fncs s e := by
  constructor
  · intro hkeeps
    cases e with
    | process k env =>
        intro pke hk nonce hpends
        by_contra hroom
        obtain ⟨rn, hlisp⟩ := lispProcess_of_pends
          (s := { s with inProcess := s.inProcess.eraseIdx k }) hpends
        have hstep : cpStep fncs pkPoolMax s (.process k env) = some
            (ControlPlane.pendingRequest { s with inProcess := s.inProcess.eraseIdx k }
              pke nonce rn env.sent) := by
          rw [cpStep, hk]
          exact hlisp
        exact ((h.take_inProcess hk).pendingRequest_lost hroom rn
          env.sent).not_accounted_of_hand (hkeeps _ hstep)
    | receive buf bufLen => trivial
    | count => trivial
    | scan => trivial
    | retry idx sent => trivial
    | referral idx buf walk => trivial
  · intro hroom s' hstep
    exact h.step hroom hstep

end CpState.Accounted

/-- Account of the packets is kept in every state that a run reaches exactly when every
request in it finds room. -/
theorem accounted_iff_pendsInRoom (fncs : Functions) (pkPoolMax : UInt32)
    (events : List CpEvent) :
    (∀ before, before <+: events → ∀ s,
        run (cpStep fncs pkPoolMax) CpState.init before = some s →
          s.Accounted pkPoolMax []) ↔
      Along (cpStep fncs pkPoolMax) (PendsInRoom fncs) CpState.init events := by
  have hinit := CpState.Accounted.init pkPoolMax
  rw [forall_reached_iff_along, and_iff_right hinit]
  exact (along_iff_of_invariant (fun h hroom hstep => h.step hroom hstep)
    (fun h => h.step_iff.symm) hinit).symm

/-- A map resolver that does nothing else. -/
def resolverOnly : Functions where
  xtr := false
  ms := false
  mr := true
  node := false

/-- An encapsulated Map-Request for 10.0.0.1/32. -/
def encapsulatedTen : List UInt8 :=
  [0x80, 0, 0, 0] ++ (0x45 :: List.replicate 27 0) ++
    [0x10, 0, 0, 1, 0, 0, 0, 7, 0, 0, 0, 9, 0, 0, 0, 1, 127, 0, 0, 1, 0, 32, 0, 1,
      10, 0, 0, 1]

/-- A database without entries, and Map-Requests that are sent. -/
def emptySurroundings : Surroundings where
  db := MapServer.msInitDb fun _ => ⟨[], none⟩
  uninit := none
  sent := true
  walk := ⟨[], .passed true⟩

/-- A packet is received, counted and processed. -/
def receiveEncapsulatedTen : List CpEvent :=
  [.receive (Mem.ofList encapsulatedTen fun _ => 0) 60, .count,
    .process 0 emptySurroundings]

set_option maxRecDepth 4000 in
/-- The second time that a Map-Request comes in, its packet is lost. -/
theorem not_accounted_retransmitted :
    ¬ ∀ fncs pkPoolMax events before, before <+: events → ∀ s,
      run (cpStep fncs pkPoolMax) CpState.init before = some s →
        s.Accounted pkPoolMax [] := by
  intro h
  have hafter := h resolverOnly 1000 (receiveEncapsulatedTen ++ receiveEncapsulatedTen) _
    (List.prefix_refl _) _ rfl
  have hlength := hafter.length_eq
  revert hlength
  decide

end HyLisp.ControlPlane
