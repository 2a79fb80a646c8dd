import HyLisp.ControlPlane.PacketCustody

/-!
# The request of a Map-Referral

A Map-Referral on the control port is for the pending request with its nonce.
`get_mr_ddt` looks for it in `mr_lookups`, but not up to the end of the table: it stops
before `mr_nfds - 1`, where `mr_nfds` counts two descriptors for each request that was
active when `mr_event_loop` last passed.  Neither does it ask whether a slot is active.
This module says for which requests and messages it finds the right slot all the same.
-/

namespace HyLisp.ControlPlane

open DataPlane Transition

/-! ## The search -/

/-- The greatest value of `nfds_t`. -/
def nfdsMax : ℕ := 2 ^ 32 - 1

/-- `mr_nfds - 1` -/
def searchEnd (s : CpState) : ℕ :=
  if s.mrNfds = 0 then nfdsMax else s.mrNfds - 1

/-- The search of `get_mr_ddt` over at most `n` slots from `idx` on.  A read behind the
table is a failure. -/
def searchLookups (s : CpState) (nonce : ℕ × ℕ) :
    ℕ → ℕ → Option (Option (Fin maxLookups))
  | 0, _ => some none
  | n + 1, idx =>
      if h : idx < maxLookups then
        if (s.lookups ⟨idx, h⟩).nonce = nonce then some (some ⟨idx, h⟩)
        else searchLookups s nonce n (idx + 1)
      else none

/-- The slot to which `get_mr_ddt` applies the records of a message. -/
def mrDdtSlot (s : CpState) (buf : Mem) : Option (Option (Fin maxLookups)) :=
  (searchLookups s (referralNonce buf) (searchEnd s) 0).map fun found =>
    if buf 3 = 0 then none else found

/-- No read behind the table, and the records go to the active slot with the nonce of
the message, if there is one. -/
def FindsLookup (s : CpState) (buf : Mem) : Prop :=
  ∃ found, mrDdtSlot s buf = some found ∧ ∀ idx, found = some idx ↔
    buf 3 ≠ 0 ∧ (s.lookups idx).active = true ∧
      (s.lookups idx).nonce = referralNonce buf

/-- An active slot with the nonce lies before the end of the search, and no slot before
it has the nonce, unless there are no records.  Without such a slot the search ends in
the table, and no slot has the nonce before this end; without records, a slot with the
nonce may end it as well. -/
structure SearchReaches (s : CpState) (buf : Mem) : Prop where
  active : ∀ idx, (s.lookups idx).active = true →
    (s.lookups idx).nonce = referralNonce buf → buf 3 ≠ 0 →
      idx.val < searchEnd s ∧ ∀ j < idx, (s.lookups j).nonce ≠ referralNonce buf
  inactive : (∀ idx, (s.lookups idx).active = true →
      (s.lookups idx).nonce ≠ referralNonce buf) →
    if buf 3 = 0 then
      searchEnd s ≤ maxLookups ∨ ∃ idx, (s.lookups idx).nonce = referralNonce buf
    else
      searchEnd s ≤ maxLookups ∧ ∀ idx : Fin maxLookups, idx.val < searchEnd s →
        (s.lookups idx).nonce ≠ referralNonce buf

section Search

variable {s : CpState} {nonce : ℕ × ℕ} {buf : Mem}

/-- The search ends at the first slot with the nonce, or before its end without one, or
behind the table. -/
theorem searchLookups_cases (s : CpState) (nonce : ℕ × ℕ) (n : ℕ) {idx : ℕ}
    (hidx : idx ≤ maxLookups) :
    (∃ i, searchLookups s nonce n idx = some (some i) ∧ idx ≤ i.val ∧ i.val < idx + n ∧
      (s.lookups i).nonce = nonce ∧
      ∀ j < i, idx ≤ j.val → (s.lookups j).nonce ≠ nonce) ∨
    (searchLookups s nonce n idx = some none ∧ idx + n ≤ maxLookups ∧
      ∀ j : Fin maxLookups, idx ≤ j.val → j.val < idx + n →
        (s.lookups j).nonce ≠ nonce) ∨
    (searchLookups s nonce n idx = none ∧ maxLookups < idx + n ∧
      ∀ j : Fin maxLookups, idx ≤ j.val → (s.lookups j).nonce ≠ nonce) := by
  induction n generalizing idx with
  | zero => exact Or.inr (Or.inl ⟨rfl, hidx, fun j hj hlt => by omega⟩)
  | succ n ih =>
      rw [searchLookups]
      by_cases hin : idx < maxLookups
      · rw [dif_pos hin]
        by_cases hnonce : (s.lookups ⟨idx, hin⟩).nonce = nonce
        · rw [if_pos hnonce]
          refine Or.inl ⟨⟨idx, hin⟩, rfl, le_rfl, by dsimp only; omega, hnonce, ?_⟩
          intro j hj hle
          exact absurd (Fin.lt_def.mp hj) (Nat.not_lt.mpr hle)
        · rw [if_neg hnonce]
          -- from the next slot on nothing is added but this one
          have hhere : ∀ j : Fin maxLookups, idx ≤ j.val →
              (idx + 1 ≤ j.val → (s.lookups j).nonce ≠ nonce) →
                (s.lookups j).nonce ≠ nonce := by
            intro j hj hlater
            rcases Nat.eq_or_lt_of_le hj with heq | hlt
            · obtain rfl : j = ⟨idx, hin⟩ := Fin.ext heq.symm
              exact hnonce
            · exact hlater hlt
          have hnext : idx + 1 ≤ maxLookups := hin
          rcases ih hnext with ⟨i, heq, hle, hlt, hfound, hbefore⟩ |
            ⟨heq, hend, hnever⟩ | ⟨heq, hend, hnever⟩
          · refine Or.inl ⟨i, heq, by omega, by omega, hfound, fun j hj hle' => ?_⟩
            exact hhere j hle' (hbefore j hj)
          · refine Or.inr (Or.inl ⟨heq, by omega, fun j hj hlt => ?_⟩)
            exact hhere j hj fun hj' => hnever j hj' (by omega)
          · refine Or.inr (Or.inr ⟨heq, by omega, fun j hj => ?_⟩)
            exact hhere j hj (hnever j)
      · rw [dif_neg hin]
        refine Or.inr (Or.inr ⟨rfl, by omega, fun j hj => ?_⟩)
        exact absurd j.isLt (by omega)

/-- What the search of a message does, from the first slot on. -/
theorem mrDdtSlot_cases (s : CpState) (buf : Mem) :
    (∃ i, mrDdtSlot s buf = some (if buf 3 = 0 then none else some i) ∧
      i.val < searchEnd s ∧ (s.lookups i).nonce = referralNonce buf ∧
      ∀ j < i, (s.lookups j).nonce ≠ referralNonce buf) ∨
    (mrDdtSlot s buf = some none ∧ searchEnd s ≤ maxLookups ∧
      ∀ j : Fin maxLookups, j.val < searchEnd s →
        (s.lookups j).nonce ≠ referralNonce buf) ∨
    (mrDdtSlot s buf = none ∧ maxLookups < searchEnd s ∧
      ∀ j, (s.lookups j).nonce ≠ referralNonce buf) := by
  rw [mrDdtSlot]
  rcases searchLookups_cases s (referralNonce buf) (searchEnd s) (Nat.zero_le _) with
    ⟨i, heq, -, hlt, hnonce, hbefore⟩ | ⟨heq, hend, hnever⟩ | ⟨heq, hend, hnever⟩
  · rw [heq]
    exact Or.inl ⟨i, rfl, by omega, hnonce, fun j hj => hbefore j hj (Nat.zero_le _)⟩
  · rw [heq]
    refine Or.inr (Or.inl ⟨?_, by omega, fun j hj => hnever j (Nat.zero_le _) (by omega)⟩)
    rw [Option.map_some, ite_self]
  · rw [heq]
    exact Or.inr (Or.inr ⟨rfl, by omega, fun j => hnever j (Nat.zero_le _)⟩)

theorem lt_searchEnd_iff (s : CpState) (j : Fin maxLookups) :
    j.val < searchEnd s ↔ (s.mrNfds == 0 || j.val + 1 < s.mrNfds) = true := by
  have hj := j.isLt
  have hmax : maxLookups ≤ nfdsMax := by decide
  rw [Bool.or_eq_true, beq_iff_eq, decide_eq_true_iff, searchEnd]
  split <;> omega

/-- The first slot with the nonce is found if it lies before the end of the search. -/
theorem find_slot_eq_some {i : Fin maxLookups} (hlt : i.val < searchEnd s)
    (hnonce : (s.lookups i).nonce = nonce)
    (hbefore : ∀ j < i, (s.lookups j).nonce ≠ nonce) :
    (List.finRange maxLookups).find? (fun idx =>
      (s.mrNfds == 0 || idx.val + 1 < s.mrNfds) && (s.lookups idx).nonce == nonce) =
        some i := by
  rw [List.find?_eq_some_iff_getElem]
  refine ⟨?_, i.val, by rw [List.length_finRange]; exact i.isLt, ?_, ?_⟩
  · rw [(lt_searchEnd_iff s i).mp hlt, hnonce, beq_self_eq_true]
    rfl
  · rw [List.getElem_finRange]
    rfl
  · intro j hj
    rw [List.getElem_finRange, Bool.not_eq_true', Bool.and_eq_false_iff]
    exact Or.inr (beq_eq_false_iff_ne.mpr (hbefore _ (Fin.lt_def.mpr hj)))

/-- Without the nonce before the end of the search, no slot is found. -/
theorem find_slot_eq_none
    (hnever : ∀ j : Fin maxLookups, j.val < searchEnd s → (s.lookups j).nonce ≠ nonce) :
    (List.finRange maxLookups).find? (fun idx =>
      (s.mrNfds == 0 || idx.val + 1 < s.mrNfds) && (s.lookups idx).nonce == nonce) =
        none := by
  rw [List.find?_eq_none]
  intro j _ hmatch
  rw [Bool.and_eq_true, beq_iff_eq, ← lt_searchEnd_iff] at hmatch
  exact hnever j hmatch.1 hmatch.2

/-- The message is applied to the slot found, as long as nothing behind the table is
read. -/
theorem getMrDdt_of_slot {found : Option (Fin maxLookups)}
    (h : mrDdtSlot s buf = some found) (walk : ReferralWalk) :
    getMrDdt s buf walk = found.elim s fun idx => applyWalk s idx walk := by
  rcases mrDdtSlot_cases s buf with ⟨i, heq, hlt, hnonce, hbefore⟩ |
    ⟨heq, -, hnever⟩ | ⟨heq, -⟩
  · rw [heq] at h
    rw [getMrDdt, find_slot_eq_some hlt hnonce hbefore, ← Option.some_inj.mp h]
    dsimp only
    by_cases hrecords : buf 3 = 0
    · rw [if_pos hrecords, if_pos hrecords, Option.elim_none]
    · rw [if_neg hrecords, if_neg hrecords, Option.elim_some]
  · rw [heq] at h
    rw [getMrDdt, find_slot_eq_none hnever, ← Option.some_inj.mp h, Option.elim_none]
  · rw [heq] at h
    cases h

end Search

/-! ## Active requests have different nonces -/

/-- No two active slots have one nonce. -/
def NoncesApart (s : CpState) : Prop :=
  ∀ i j, (s.lookups i).active = true → (s.lookups j).active = true →
    (s.lookups i).nonce = (s.lookups j).nonce → i = j

namespace NoncesApart

variable {fncs : Functions} {pkPoolMax : UInt32} {s s' : CpState} {pke : PkReq}
  {idx : Fin maxLookups} {l : EidPending}

theorem init : NoncesApart CpState.init := by
  intro i j hi
  cases hi

/-- A slot that is written keeps its nonce, or has one that no other active slot has. -/
theorem setSlot (h : NoncesApart s)
    (hl : l.active = true → ∀ j, j ≠ idx → (s.lookups j).active = true →
      (s.lookups j).nonce ≠ l.nonce) : NoncesApart (s.setSlot idx l) := by
  intro i j hi hj hnonce
  simp only [CpState.setSlot, Function.update_apply] at hi hj hnonce
  by_cases hii : i = idx
  · by_cases hjj : j = idx
    · rw [hii, hjj]
    · rw [if_pos hii] at hi hnonce
      rw [if_neg hjj] at hj hnonce
      exact absurd hnonce.symm (hl hi j hjj hj)
  · rw [if_neg hii] at hi hnonce
    by_cases hjj : j = idx
    · rw [if_pos hjj] at hj hnonce
      exact absurd hnonce (hl hj i hii hi)
    · rw [if_neg hjj] at hj hnonce
      exact h i j hi hj hnonce

/-- A change of a slot that leaves the nonce, and does not activate it. -/
theorem setSlot_same (h : NoncesApart s)
    (hactive : l.active = true → (s.lookups idx).active = true)
    (hnonce : l.nonce = (s.lookups idx).nonce) : NoncesApart (s.setSlot idx l) := by
  apply h.setSlot
  intro hl j hj hactive' heq
  exact hj (h j idx hactive' (hactive hl) (heq.trans hnonce))

theorem freeLookups (h : NoncesApart s) :
    NoncesApart (ControlPlane.freeLookups s idx) := by
  unfold ControlPlane.freeLookups
  dsimp only
  split
  · have hfreed : NoncesApart (udpFreePk s (s.lookups idx).pke) := h
    apply hfreed.setSlot
    intro hl
    cases hl
  · exact h

theorem sendMrDdt (h : NoncesApart s) (sent : Bool)
    (hactive : l.active = true → (s.lookups idx).active = true)
    (hnonce : l.nonce = (s.lookups idx).nonce) :
    NoncesApart (s.setSlot idx (ControlPlane.sendMrDdt l sent)) := by
  obtain ⟨count, rlocs, heq⟩ := sendMrDdt_eq l sent
  rw [heq]
  exact h.setSlot_same hactive hnonce

theorem applyWalk (h : NoncesApart s) (walk : ReferralWalk) :
    NoncesApart (ControlPlane.applyWalk s idx walk) := by
  unfold ControlPlane.applyWalk
  dsimp only
  split
  · apply freeLookups
    exact h.setSlot_same id rfl
  · exact h.setSlot_same id rfl
  · exact h.sendMrDdt _ id rfl

theorem getMrDdt (h : NoncesApart s) (buf : Mem) (walk : ReferralWalk) :
    NoncesApart (ControlPlane.getMrDdt s buf walk) := by
  unfold ControlPlane.getMrDdt
  split
  · exact h
  · split
    · exact h
    · exact h.applyWalk walk

theorem scanLookups (h : NoncesApart s) : NoncesApart (ControlPlane.scanLookups s) := by
  apply scanLookups_rule _ _ h
  · intro t n ht
    exact ht
  · intro t i ht
    exact ht.freeLookups

/-- A new request has a nonce that no active slot has. -/
theorem pendingRequest (h : NoncesApart s) (nonce : ℕ × ℕ) (rn : DbNode) (sent : Bool) :
    NoncesApart (ControlPlane.pendingRequest s pke nonce rn sent) := by
  unfold ControlPlane.pendingRequest
  split
  · exact h.sendMrDdt sent id rfl
  next hnone =>
    unfold mrNewLookup
    split
    · exact h
    next i hi =>
      obtain ⟨count, rlocs, heq⟩ := sendMrDdt_eq (newPending pke nonce rn) sent
      rw [heq]
      apply h.setSlot
      intro _ j _ hactive hnonce
      have hj := List.find?_eq_none.mp hnone j (List.mem_finRange j)
      rw [hactive, hnonce] at hj
      exact hj (beq_self_eq_true nonce)

theorem udpGetPk (h : NoncesApart s) (buf : Mem) (bufLen : ℕ) :
    NoncesApart (ControlPlane.udpGetPk s buf bufLen) := by
  unfold ControlPlane.udpGetPk
  split <;> exact h

theorem countPk (h : NoncesApart s) : NoncesApart (ControlPlane.countPk pkPoolMax s) := by
  unfold ControlPlane.countPk
  split
  · exact h
  · split <;> exact h
  · exact h
  · exact h

theorem step (h : NoncesApart s) {e : CpEvent}
    (hstep : cpStep fncs pkPoolMax s e = some s') : NoncesApart s' := by
  cases e with
  | receive buf bufLen =>
      rw [← Option.some_inj.mp hstep]
      exact h.udpGetPk buf bufLen
  | count =>
      rw [← Option.some_inj.mp hstep]
      exact h.countPk
  | process k env =>
      rw [cpStep] at hstep
      split at hstep
      · rw [← Option.some_inj.mp hstep]
        exact h
      next pke hk =>
        have htaken : NoncesApart { s with inProcess := s.inProcess.eraseIdx k } := h
        rcases lispProcess_cases hstep with ⟨nonce, rn, -, rfl⟩ | rfl | rfl
        · exact htaken.pendingRequest nonce rn env.sent
        · exact htaken
        · exact htaken.getMrDdt pke.buf env.walk
  | scan =>
      rw [← Option.some_inj.mp hstep]
      exact h.scanLookups
  | retry idx sent =>
      rw [← Option.some_inj.mp hstep]
      exact h.sendMrDdt sent id rfl
  | referral idx buf walk =>
      rw [← Option.some_inj.mp hstep]
      unfold readMrDdt
      split
      · exact h.applyWalk walk
      · exact h

theorem of_run {events : List CpEvent}
    (hrun : run (cpStep fncs pkPoolMax) CpState.init events = some s) : NoncesApart s :=
  run_invariant (fun h _ hstep => h.step hstep) init (along_true _ events) hrun

section First

variable {buf : Mem} {i : Fin maxLookups}

/-- Where the search ends at a slot, it is the right one exactly if it is active. -/
theorem findsLookup_of_first (h : NoncesApart s)
    (hslot : mrDdtSlot s buf = some (if buf 3 = 0 then none else some i))
    (hnonce : (s.lookups i).nonce = referralNonce buf) :
    FindsLookup s buf ↔ (buf 3 ≠ 0 → (s.lookups i).active = true) := by
  by_cases hrecords : buf 3 = 0
  · rw [if_pos hrecords] at hslot
    refine iff_of_true ⟨none, hslot, fun idx => ?_⟩ fun hne => absurd hrecords hne
    exact iff_of_false (by simp) fun hidx => hidx.1 hrecords
  · rw [if_neg hrecords] at hslot
    constructor
    · rintro ⟨found, hfound, hiff⟩ _
      obtain rfl := Option.some_inj.mp (hslot.symm.trans hfound)
      exact ((hiff i).mp rfl).2.1
    · intro hactive
      refine ⟨some i, hslot, fun idx => ?_⟩
      rw [Option.some_inj]
      constructor
      · rintro rfl
        exact ⟨hrecords, hactive hrecords, hnonce⟩
      · rintro ⟨-, hidx, hidx'⟩
        exact h i idx (hactive hrecords) hidx (hnonce.trans hidx'.symm)

/-- The search reaches the right slot exactly if the first one with the nonce is
active. -/
theorem searchReaches_of_first (h : NoncesApart s) (hlt : i.val < searchEnd s)
    (hnonce : (s.lookups i).nonce = referralNonce buf)
    (hbefore : ∀ j < i, (s.lookups j).nonce ≠ referralNonce buf) :
    SearchReaches s buf ↔ (buf 3 ≠ 0 → (s.lookups i).active = true) := by
  constructor
  · rintro ⟨hactive, hinactive⟩ hrecords
    by_cases hother : ∃ idx, (s.lookups idx).active = true ∧
        (s.lookups idx).nonce = referralNonce buf
    · obtain ⟨idx, hidx, hidx'⟩ := hother
      obtain ⟨-, hfirst⟩ := hactive idx hidx hidx' hrecords
      rcases lt_trichotomy i idx with hlt' | rfl | hlt'
      · exact absurd hnonce (hfirst i hlt')
      · exact hidx
      · exact absurd hidx' (hbefore idx hlt')
    · push Not at hother
      have hno := hinactive hother
      rw [if_neg hrecords] at hno
      exact absurd hnonce (hno.2 i hlt)
  · intro hi
    refine ⟨?_, ?_⟩
    · intro idx hidx hidx' hrecords
      rw [h idx i hidx (hi hrecords) (hidx'.trans hnonce.symm)]
      exact ⟨hlt, hbefore⟩
    · intro hinactive
      split
      · exact Or.inr ⟨i, hnonce⟩
      next hrecords => exact absurd hnonce (hinactive i (hi hrecords))

end First

/-- With different nonces, the slot is found exactly if the search reaches it. -/
theorem findsLookup_iff (h : NoncesApart s) {buf : Mem} :
    FindsLookup s buf ↔ SearchReaches s buf := by
  rcases mrDdtSlot_cases s buf with ⟨i, heq, hlt, hnonce, hbefore⟩ |
    ⟨heq, hend, hnever⟩ | ⟨heq, hend, hnever⟩
  · rw [h.findsLookup_of_first heq hnonce, h.searchReaches_of_first hlt hnonce hbefore]
  · constructor
    · rintro ⟨found, hfound, hiff⟩
      obtain rfl := Option.some_inj.mp (heq.symm.trans hfound)
      refine ⟨?_, ?_⟩
      · intro idx hactive hidx hrecords
        cases (hiff idx).mpr ⟨hrecords, hactive, hidx⟩
      · intro _
        split
        · exact Or.inl hend
        · exact ⟨hend, hnever⟩
    · rintro ⟨hactive, -⟩
      refine ⟨none, heq, fun idx => iff_of_false (by simp) ?_⟩
      rintro ⟨hrecords, hidx, hidx'⟩
      exact hnever idx (hactive idx hidx hidx' hrecords).1 hidx'
  · -- a read behind the table is not made up for by anything
    constructor
    · rintro ⟨found, hfound, -⟩
      cases heq.symm.trans hfound
    · rintro ⟨-, hinactive⟩
      have hno := hinactive fun idx _ => hnever idx
      split at hno
      · rcases hno with hle | ⟨idx, hidx⟩
        · exact absurd hle (Nat.not_le.mpr hend)
        · exact absurd hidx (hnever idx)
      · exact absurd hno.1 (Nat.not_le.mpr hend)

end NoncesApart

/-- In every reachable state, `get_mr_ddt` finds the request of a Map-Referral exactly
if its search reaches it. -/
theorem findsLookup_iff_searchReaches (fncs : Functions) (pkPoolMax : UInt32)
    (events : List CpEvent) {s : CpState}
    (hrun : run (cpStep fncs pkPoolMax) CpState.init events = some s) (buf : Mem) :
    FindsLookup s buf ↔ SearchReaches s buf :=
  (NoncesApart.of_run hrun).findsLookup_iff

/-- A Map-Referral with one record and the nonce 7, 9. -/
def referralSevenNine : Mem :=
  Mem.ofList [0x60, 0, 0, 1, 0, 0, 0, 7, 0, 0, 0, 9] fun _ => 0

/-- A referral for 10.0.0.0/8 to the nodes 192.0.2.1 and 192.0.2.2. -/
def referredTen : List UInt8 :=
  [0, 0, 0, 60, 2, 8, 0, 0, 0, 0] ++ List.replicate 12 0 ++ [0, 1, 10, 0, 0, 0] ++
    [1, 100, 255, 0, 0, 1, 0, 1, 192, 0, 2, 1] ++ [1, 100, 255, 0, 0, 1, 0, 1, 192, 0, 2, 2]

/-- A request for 10.0.0.1 is pending, and the slots were looked through. -/
def pendEncapsulatedTen : List CpEvent :=
  [.receive (Mem.ofList encapsulatedTen fun _ => 0) 60, .count,
    .process 0 { emptySurroundings with
      db := emptySurroundings.db.refer (Mem.ofList referredTen fun _ => 0) }, .scan]

set_option maxRecDepth 4000 in
/-- A Map-Referral then finds the request in the first slot, where the search ends. -/
theorem findsLookup_iff_searchReaches_scanned :
    ∃ s, run (cpStep resolverOnly 1000) CpState.init pendEncapsulatedTen = some s ∧
      searchEnd s = 1 ∧ (s.lookups ⟨0, by decide⟩).active = true ∧
      FindsLookup s referralSevenNine := by
  obtain ⟨s, hrun, hend, honly, hnonce⟩ :
      ∃ s, run (cpStep resolverOnly 1000) CpState.init pendEncapsulatedTen = some s ∧
        searchEnd s = 1 ∧ (∀ idx, (s.lookups idx).active = true ↔ idx = ⟨0, by decide⟩) ∧
        (s.lookups ⟨0, by decide⟩).nonce = referralNonce referralSevenNine :=
    ⟨_, rfl, by decide +kernel, by decide +kernel, by decide +kernel⟩
  have hpending := (honly _).mpr rfl
  refine ⟨s, hrun, hend, hpending, (findsLookup_iff_searchReaches _ _ _ hrun _).mpr ⟨?_, ?_⟩⟩
  · intro idx hactive _ _
    obtain rfl := (honly idx).mp hactive
    rw [hend]
    exact ⟨Nat.zero_lt_one, fun j hj => absurd (Fin.lt_def.mp hj) (Nat.not_lt_zero _)⟩
  · exact fun hnone => absurd hnonce (hnone _ hpending)

/-- Before any request is pending, a Map-Referral makes the search run behind the
table. -/
theorem not_findsLookup_init :
    ¬ ∀ fncs pkPoolMax events s, run (cpStep fncs pkPoolMax) CpState.init events = some s →
      ∀ buf, FindsLookup s buf := by
  intro h
  obtain ⟨found, hfound, -⟩ := h resolverOnly 1000 [] CpState.init rfl referralSevenNine
  have hnone : mrDdtSlot CpState.init referralSevenNine = none := by decide +kernel
  cases hnone.symm.trans hfound

end HyLisp.ControlPlane
