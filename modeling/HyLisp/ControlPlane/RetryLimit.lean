import HyLisp.ControlPlane.Lookups

/-!
# The retry limit of a lookup

A slot has room for `MAX_COUNT` nonces, and a lookup is given up once `COUNT`
Map-Requests went out for it.  `send_mr` makes this test together with the one for
`srcport_rand`: where all lookups share the control port, a lookup without a reply
is never given up, and its next nonce is written behind the array.
-/

namespace HyLisp.ControlPlane

open DataPlane Transition

/-- No slot counts more than `MAX_COUNT` Map-Requests, and the nonce of each one
stands at its own place of the arrays. -/
structure LookupState.WithinArrays (s : LookupState) : Prop where
  count_le : ∀ idx, (s.lookups idx).count.toNat ≤ maxCount
  stored : ∀ idx i (hi : i < (s.sent idx).length),
    i < maxCount ∧ (s.lookups idx).HasNonce (s.sent idx)[i] i

/-- The retransmission for a slot that was sent `COUNT` Map-Requests closes its
lookup. -/
def GivesUp (s s' : LookupState) : LookupEvent → Prop
  | .timeout idx _ =>
      ((s.sent idx).length : ℤ) = countLimit.toInt →
        (s'.lookups idx).isActive = false
  | _ => True

section Limit

variable (cfg : ReplyConfig) (srcportRand : Bool)

/-- The step stays within the arrays and gives up what it has to. -/
def KeepsLimit (s : LookupState) (e : LookupEvent) : Prop :=
  ∀ s', lookupStep cfg srcportRand s e = some s' → s'.WithinArrays ∧ GivesUp s s' e

/-- With `srcport_rand` off, a timeout finds its slot with fewer than `MAX_COUNT`
Map-Requests sent, or closed and with no way to send. -/
def RetriesBelowLimit (s : LookupState) : LookupEvent → Prop
  | .timeout idx attempt =>
      srcportRand = true ∨ (s.lookups idx).count.toNat < maxCount ∨
        (s.lookups idx).isActive = false ∧ attempt.sent = false
  | _ => True

end Limit

/-! ## What a retransmission does at the limit -/

section AtLimit

variable {l : EidLookup} {attempt : Attempt}

theorem countLimit_toInt : countLimit.toInt = (maxCount : ℤ) := rfl

/-- A count that has reached `MAX_COUNT` has reached `COUNT`. -/
theorem count_eq_three (hcount : l.count.toNat = maxCount) : l.count = 3 :=
  UInt32.toNat_inj.mp hcount

theorem isActive_setActive_zero (l : EidLookup) :
    (l.setActive 0).isActive = false := by
  have hlow : (l.setActive 0).words 13 = 0 := by
    change Function.update (Function.update l.words 13 0) 14 0 13 = 0
    rw [Function.update_of_ne (by omega), Function.update_self]
  have hhigh : (l.setActive 0).words 14 = 0 := by
    change Function.update (Function.update l.words 13 0) 14 0 14 = 0
    rw [Function.update_self]
  rw [EidLookup.isActive, hlow, hhigh]
  rfl

/-- With `srcport_rand` the lookup is closed. -/
theorem sendMr_of_limit (hcount : l.count.toNat = maxCount) :
    sendMr true l attempt = some (l.setActive 0, none) := by
  rw [sendMr, if_pos]
  rw [count_eq_three hcount]
  exact ⟨by decide, rfl⟩

/-- Without it a Map-Request that cannot be sent changes nothing. -/
theorem sendMr_of_unsent (hunsent : attempt.sent = false) :
    sendMr false l attempt = some (l, none) := by
  rw [sendMr, if_neg (by rintro ⟨-, hrand⟩; cases hrand), hunsent]
  rfl

/-- Without it one Map-Request more is sent, and counted. -/
theorem sendMr_over_limit (hcount : l.count.toNat = maxCount)
    (hsent : attempt.sent = true) :
    ∃ l', sendMr false l attempt = some (l', some attempt.nonce) ∧ l'.count = 4 := by
  let stored := l.setNonces l.count.toNat attempt.nonce
  have hsame : stored.count = l.count :=
    words_setNonces l _ attempt.nonce (by rw [hcount]; decide)
      (by rw [hcount]; decide)
  refine ⟨stored.setCount (stored.count + 1), ?_, ?_⟩
  · rw [sendMr, if_neg (by rintro ⟨-, hrand⟩; cases hrand), if_pos hsent]
    exact if_pos (by rw [hcount]; decide)
  · rw [count_setCount, hsame, count_eq_three hcount]
    rfl

/-- The timeout of a slot, by what `send_mr` makes of the slot. -/
theorem lookupStep_timeout (cfg : ReplyConfig) {srcportRand : Bool} {s : LookupState}
    {idx : Fin maxLookups} {l' : EidLookup} {nonce : Option (UInt32 × UInt32)}
    (hsend : sendMr srcportRand (s.lookups idx) attempt = some (l', nonce)) :
    lookupStep cfg srcportRand s (.timeout idx attempt) =
      some { s with
        lookups := Function.update s.lookups idx l'
        sent := Function.update s.sent idx (s.sent idx ++ nonce.toList) } := by
  rw [lookupStep, sendSlot, hsend, Option.map_some]

end AtLimit

namespace LookupState.Recorded

variable {cfg : ReplyConfig} {srcportRand : Bool} {s s' : LookupState}

theorem withinArrays (h : s.Recorded) : s.WithinArrays := by
  refine ⟨fun idx => (h idx).count_le, fun idx i hi => ?_⟩
  have hlength := (h idx).length_eq
  have hle := (h idx).count_le
  refine ⟨by omega, ?_⟩
  rw [(h idx).nonces i hi]
  exact ⟨rfl, rfl⟩

/-- The record counts `COUNT` Map-Requests when the slot does. -/
theorem count_eq_of_sent (h : s.Recorded) {idx : Fin maxLookups}
    (hsent : ((s.sent idx).length : ℤ) = countLimit.toInt) :
    (s.lookups idx).count.toNat = maxCount := by
  rw [countLimit_toInt, (h idx).length_eq] at hsent
  exact_mod_cast hsent

/-- A retransmission for a slot below the limit keeps the record. -/
theorem step_of_below (h : s.Recorded) {e : LookupEvent}
    (hbelow : RetriesBelowLimit srcportRand s e)
    (hstep : lookupStep cfg srcportRand s e = some s') : s'.Recorded := by
  refine h.step (fun idx attempt he => ?_) hstep
  subst he
  rcases hbelow with hrand | hlt | ⟨-, hunsent⟩
  · exact Or.inl hrand
  · exact Or.inr (Or.inl hlt)
  · exact Or.inr (Or.inr hunsent)

/-- Where retransmissions stay below the limit, a lookup at the limit is closed
by the next one. -/
theorem givesUp (h : s.Recorded) {e : LookupEvent}
    (hbelow : RetriesBelowLimit srcportRand s e)
    (hstep : lookupStep cfg srcportRand s e = some s') : GivesUp s s' e := by
  cases e with
  | timeout idx attempt =>
      intro hsent
      have hcount := h.count_eq_of_sent hsent
      obtain ⟨⟨l, nonce⟩, hsend, rfl⟩ := Option.map_eq_some_iff.mp hstep
      dsimp only
      rw [Function.update_self]
      rcases hbelow with rfl | hlt | ⟨hclosed, hunsent⟩
      · rw [sendMr_of_limit hcount] at hsend
        obtain ⟨rfl, -⟩ := Prod.mk.inj (Option.some_inj.mp hsend)
        exact isActive_setActive_zero _
      · omega
      · cases srcportRand with
        | true =>
            rw [sendMr_of_limit hcount] at hsend
            obtain ⟨rfl, -⟩ := Prod.mk.inj (Option.some_inj.mp hsend)
            exact isActive_setActive_zero _
        | false =>
            rw [sendMr_of_unsent hunsent] at hsend
            obtain ⟨rfl, -⟩ := Prod.mk.inj (Option.some_inj.mp hsend)
            exact hclosed
  | miss eid mr socket sport start attempt => trivial
  | datagram idx buf => trivial
  | control buf => trivial

/-- A timeout beyond the limit counts too many Map-Requests or leaves the lookup
open. -/
theorem not_keepsLimit (h : s.Recorded) {idx : Fin maxLookups} {attempt : Attempt}
    (hcount : (s.lookups idx).count.toNat = maxCount)
    (hopen : ¬ ((s.lookups idx).isActive = false ∧ attempt.sent = false)) :
    ¬ KeepsLimit cfg false s (.timeout idx attempt) := by
  intro hkeeps
  cases hsent : attempt.sent with
  | true =>
      obtain ⟨l', hsend, hfour⟩ := sendMr_over_limit hcount hsent
      have hle := (hkeeps _ (lookupStep_timeout cfg hsend)).1.count_le idx
      dsimp only at hle
      rw [Function.update_self, hfour] at hle
      revert hle
      decide
  | false =>
      have hclosed := (hkeeps _ (lookupStep_timeout cfg (sendMr_of_unsent hsent))).2
        (by rw [countLimit_toInt, (h idx).length_eq, hcount])
      dsimp only at hclosed
      rw [Function.update_self] at hclosed
      exact hopen ⟨hclosed, hsent⟩

/-- A step keeps the limit exactly when a timeout does not go beyond it. -/
theorem keepsLimit_iff (h : s.Recorded) {e : LookupEvent} :
    KeepsLimit cfg srcportRand s e ↔ RetriesBelowLimit srcportRand s e := by
  constructor
  · intro hkeeps
    cases e with
    | timeout idx attempt =>
        by_contra hbeyond
        rw [RetriesBelowLimit, not_or, not_or] at hbeyond
        obtain ⟨hrand, hge, hopen⟩ := hbeyond
        obtain rfl := Bool.eq_false_of_not_eq_true hrand
        have hcount := le_antisymm (h idx).count_le (not_lt.mp hge)
        exact h.not_keepsLimit hcount hopen hkeeps
    | miss eid mr socket sport start attempt => trivial
    | datagram idx buf => trivial
    | control buf => trivial
  · intro hbelow s' hstep
    exact ⟨(h.step_of_below hbelow hstep).withinArrays, h.givesUp hbelow hstep⟩

end LookupState.Recorded

/-- A run keeps the limit in all its steps exactly when none of its timeouts goes
beyond it. -/
theorem keepsLimit_iff_retriesBelowLimit (cfg : ReplyConfig) (srcportRand : Bool)
    (events : List LookupEvent) :
    Along (lookupStep cfg srcportRand) (KeepsLimit cfg srcportRand)
        LookupState.init events ↔
      Along (lookupStep cfg srcportRand) (RetriesBelowLimit srcportRand)
        LookupState.init events :=
  (along_iff_of_invariant (fun h hbelow hstep => h.step_of_below hbelow hstep)
    (fun h => h.keepsLimit_iff.symm) recorded_init).symm

set_option maxRecDepth 4000 in
/-- Without `srcport_rand` a fourth Map-Request goes out for the same lookup. -/
theorem not_keepsLimit_control_port :
    ¬ ∀ cfg srcportRand events,
      Along (lookupStep cfg srcportRand) (KeepsLimit cfg srcportRand)
        LookupState.init events := by
  intro h
  have hrun := h plainXtr false [missTen, .timeout firstSlot ⟨(1, 1), true⟩,
    .timeout firstSlot ⟨(2, 2), true⟩, .timeout firstSlot ⟨(3, 3), true⟩]
  obtain ⟨-, hone⟩ := hrun
  obtain ⟨-, htwo⟩ := hone _ rfl
  obtain ⟨-, hthree⟩ := htwo _ rfl
  obtain ⟨hfour, -⟩ := hthree _ rfl
  have hle := (hfour _ rfl).1.count_le firstSlot
  revert hle
  decide

end HyLisp.ControlPlane
