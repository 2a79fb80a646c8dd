import HyLisp.ControlPlane.NegativePrefix
import HyLisp.ControlPlane.RangeOverlap
import HyLisp.ControlPlane.RequestProcessing
import HyLisp.Support.Transition

/-!
# Negative answers to DDT requests

A DDT request for an EID without a mapping is answered with a negative Map-Referral.
What it says depends on the type of the nearest node above that belongs to a site, to a
range of EIDs or to one of referrals.  The types of a node are bits that several entries
of the configuration can set, but they are told apart by equality.
-/

namespace HyLisp.ControlPlane

open DataPlane Transition

/-! ## The answers -/

/-- `LISP_REFERRAL_MS_NOT_REGISTERED` -/
def referralMsNotRegistered : UInt8 := 3

/-- `LISP_REFERRAL_DELEGATION_HOLE` -/
def referralDelegationHole : UInt8 := 4

/-- `LISP_REFERRAL_NOT_AUTHORITATIVE` -/
def referralNotAuthoritative : UInt8 := 5

/-- The arguments of `_request_referral_negative`; the version is 0, and the referral
is incomplete. -/
structure NegativeReferral where
  pf : Prefix
  ttl : UInt32
  A : Bool
  act : UInt8

/-- The prefix of a node. -/
def DbTree.top? {ν : Type} : DbTree ν → Option Prefix
  | .nil => none
  | .node p _ _ _ => some p

/-- `db_node_match_prefix`: the prefix of the node and those of its children. -/
def DbTree.matchNode {ν : Type} :
    DbTree ν → Prefix → Option (Prefix × Option Prefix × Option Prefix)
  | .nil, _ => none
  | .node n _ left right, p =>
      if n.prefixlen ≤ p.prefixlen ∧ prefixMatch n p then
        (if checkBit p.addr.toMem n.prefixlen.toNat then right.matchNode p
          else left.matchNode p).or (some (n, left.top?, right.top?))
      else none

namespace MapServer

/-- `get_hole_eid(&p, rn, &p)`, for the node `rn` that a request ends in. -/
def holeEid (s : MapServer) (p : Prefix) : Prefix :=
  match (s.tree p.addr).matchNode p with
  | none => p
  | some (rn, left, right) => (getHoleEid p rn left right p).1

/-- The climb from the target to a node of a site or of a range. -/
def rangePath (path : List DbNode) : List DbNode :=
  climb (fun nd => nd.isType (typeEid ||| typeGeid ||| typeGreid)) path

/-- `generic_process_request` on a DDT request: the negative referrals sent. -/
def negativeReferrals (fncs : Functions) (s : MapServer) (p : Prefix) :
    List NegativeReferral :=
  match msGetTarget (dbNodeMatchPrefix s p) with
  | [] => []
  | nd :: above =>
      if nd.isType typeMapp then
        if nd.isReferral && fncs.node && !nd.flags.any (fun flags => flags.A) then
          [⟨s.holeEid p, 0, false, referralNotAuthoritative⟩]
        else []
      else if fncs.ms || fncs.node then
        match rangePath (nd :: above) with
        | nd :: _ :: _ =>
            if nd.range = typeEid then
              if fncs.ms then [⟨s.holeEid p, 1, true, referralMsNotRegistered⟩] else []
            else if nd.range = typeGeid then
              if fncs.ms then [⟨s.holeEid p, 15, true, referralDelegationHole⟩] else []
            else if nd.range = typeGreid then
              if fncs.node then [⟨s.holeEid p, 15, false, referralDelegationHole⟩] else []
            else []
        | top =>
            if top.any fun nd => nd.isType (typeGeid ||| typeGreid) then
              [⟨s.holeEid p, 15, false, referralDelegationHole⟩]
            else [⟨s.holeEid p, 0, false, referralNotAuthoritative⟩]
      else []

/-- The target of a request is no mapping. -/
def Unmapped (s : MapServer) (p : Prefix) : Prop :=
  ∀ nd ∈ (msGetTarget (dbNodeMatchPrefix s p)).head?, nd.isType typeMapp = false

/-- One negative referral is sent, and `TRUE` returned. -/
def AnswersOnce (fncs : Functions) (s : MapServer) (p : Prefix) (sent : Bool) : Prop :=
  (∃ referral, s.negativeReferrals fncs p = [referral]) ∧
    processDdtRequest fncs (dbNodeMatchPrefix s p) sent = some 1

/-- The node of a site or of a range above the target is the top, or is of one type. -/
def OneType (s : MapServer) (p : Prefix) : Prop :=
  ∀ nd parent above,
    rangePath (msGetTarget (dbNodeMatchPrefix s p)) = nd :: parent :: above →
    nd.range = typeEid ∨ nd.range = typeGeid ∨ nd.range = typeGreid

end MapServer

/-! ## Databases of a configuration -/

/-- The entries that the sections of a configuration make: ranges of a map server and of
a DDT node, delegations to sites, static referrals, and mappings of an xTR. -/
def IsEntry : DbEvent → Prop
  | .assign type _ => type = typeGeid ∨ type = typeGreid
  | .delegate _ _ _ => True
  | .enter type _ mflags _ =>
      type = typeReid ∧ mflags.range = typeMapp ∨
        type = typeMappXtr ∧ mflags.range = typeMappXtr
  | _ => False

/-- The top of a tree covers every prefix. -/
def DbTree.Rooted {ν : Type} (t : DbTree ν) : Prop :=
  ∃ top data left right, t = .node top data left right ∧ top.bits = []

/-- Both trees have their tops. -/
def MapServer.Rooted (s : MapServer) : Prop :=
  s.lispDb4.Rooted ∧ s.lispDb6.Rooted

section Rooted

variable {s s' : MapServer} {p : Prefix}

theorem DbTree.Rooted.dbNodeGet {ν : Type} {t : DbTree ν} {glue fresh : ν} {f : ν → ν}
    (h : t.Rooted) : (t.dbNodeGet glue fresh f p).Rooted := by
  obtain ⟨top, data, left, right, rfl, htop⟩ := h
  have hcover : top.prefixlen ≤ p.prefixlen ∧ prefixMatch top p = true :=
    covers_iff.mpr (htop ▸ List.nil_prefix)
  rw [DbTree.dbNodeGet, if_pos hcover]
  split
  · exact ⟨top, f data, left, right, rfl, htop⟩
  · split
    · exact ⟨top, data, left, _, rfl, htop⟩
    · exact ⟨top, data, _, right, rfl, htop⟩

theorem MapServer.Rooted.dbNodeGet (h : s.Rooted) {f : DbNode → DbNode} :
    (s.dbNodeGet p f).Rooted := by
  rw [MapServer.dbNodeGet]
  cases p.addr with
  | inet addr => exact ⟨h.1.dbNodeGet, h.2⟩
  | inet6 addr => exact ⟨h.1, h.2.dbNodeGet⟩

theorem rooted_msInitDb (sites : ℕ → SiteInfo) : (MapServer.msInitDb sites).Rooted :=
  ⟨⟨_, _, _, _, rfl, rfl⟩, ⟨_, _, _, _, rfl, rfl⟩⟩

theorem DbTree.Rooted.clean {t : DbTree DbNode} {id : ℕ} (h : t.Rooted) :
    (t.clean id).Rooted := by
  obtain ⟨top, nd, left, right, rfl, htop⟩ := h
  rw [DbTree.clean]
  split
  · exact ⟨top, _, _, _, rfl, htop⟩
  · exact ⟨top, _, _, _, rfl, htop⟩

theorem MapServer.Rooted.cleanSite (h : s.Rooted) (site : ℕ) : (s.cleanSite site).Rooted := by
  rw [MapServer.cleanSite]
  generalize s.eids site = ids
  induction ids generalizing s with
  | nil => exact h
  | cons id ids ih => exact ih ⟨h.1.clean, h.2.clean⟩

theorem MapServer.Rooted.enterMappings (h : s.Rooted) (mappings : List RegisterMapping) :
    (s.enterMappings mappings).Rooted := by
  induction mappings generalizing s with
  | nil => exact h
  | cons m mappings ih => exact ih h.dbNodeGet

/-- A Map-Register leaves the tops. -/
theorem MapServer.Rooted.register {hmac : Hmac} {lispTe : Bool} {r : RegisterPacket}
    (h : s.Rooted) : (s.register hmac lispTe r).Rooted := by
  rw [MapServer.register]
  split
  next site _ =>
    split
    · have hsites : ∀ sites, MapServer.Rooted { s with sites := sites } := fun _ => ⟨h.1, h.2⟩
      exact ((hsites _).cleanSite site).enterMappings _
    · exact h
  · exact h

/-- Nothing that happens to the database takes away the tops. -/
theorem MapServer.Rooted.step {hmac : Hmac} {lispTe : Bool} {e : DbEvent} (h : s.Rooted)
    (hstep : dbStep hmac lispTe s e = some s') : s'.Rooted := by
  cases e with
  | assign type p =>
      rw [dbStep, Option.some_inj] at hstep
      rw [← hstep, MapServer.assign]
      split
      · exact h.dbNodeGet
      · exact h
  | delegate site p active =>
      rw [dbStep, MapServer.delegate] at hstep
      split at hstep
      · rw [← Option.some_inj.mp hstep]
        exact h.dbNodeGet
      · cases hstep
  | enter type p mflags info =>
      rw [dbStep, MapServer.enterConfigured] at hstep
      split at hstep
      · rw [← Option.some_inj.mp hstep]
        exact h.dbNodeGet
      · cases hstep
  | request buf bufLen =>
      rw [← Option.some_inj.mp hstep]
      exact h
  | register r =>
      rw [← Option.some_inj.mp hstep]
      exact h.register
  | refer rec =>
      rw [← Option.some_inj.mp hstep, MapServer.refer]
      split
      · exact h
      · exact h.dbNodeGet

/-- Every request matches a node. -/
theorem MapServer.Rooted.dbNodeMatchPrefix_ne_nil (h : s.Rooted) (p : Prefix) :
    dbNodeMatchPrefix s p ≠ [] := by
  have htree : (s.tree p.addr).Rooted := by
    cases p.addr with
    | inet addr => exact h.1
    | inet6 addr => exact h.2
  obtain ⟨top, data, left, right, heq, htop⟩ := htree
  rw [dbNodeMatchPrefix, heq, DbTree.matchPath,
    if_pos (covers_iff.mpr (htop ▸ List.nil_prefix))]
  simp

end Rooted

/-! ## Which requests are answered -/

section Answered

variable {s : MapServer} {p : Prefix} {fncs : Functions} {sent : Bool}

section Range

variable {α : Type} {range : UInt8} {eid geid greid other : α} {P : α → Prop}

/-- A range of one type takes the branch of this type. -/
theorem ite_range_of_one (h : range = typeEid ∨ range = typeGeid ∨ range = typeGreid)
    (heid : P eid) (hgeid : P geid) (hgreid : P greid) :
    P (if range = typeEid then eid else if range = typeGeid then geid
      else if range = typeGreid then greid else other) := by
  split_ifs with hne hne' hne''
  · exact heid
  · exact hgeid
  · exact hgreid
  · exact absurd h (not_or.mpr ⟨hne, not_or.mpr ⟨hne', hne''⟩⟩)

/-- A range of several types, or of none, takes no branch. -/
theorem ite_range_of_other
    (h : ¬(range = typeEid ∨ range = typeGeid ∨ range = typeGreid)) :
    (if range = typeEid then eid else if range = typeGeid then geid
      else if range = typeGreid then greid else other) = other := by
  rw [if_neg (not_or.mp h).1, if_neg (not_or.mp (not_or.mp h).2).1,
    if_neg (not_or.mp (not_or.mp h).2).2]

end Range

/-- A referral is sent, and `TRUE` returned, exactly when the node at which the second
climb ends is the top or is of one type. -/
theorem MapServer.Rooted.answersOnce_iff (h : s.Rooted) (hms : fncs.ms = true)
    (hnode : fncs.node = true) (hunmapped : s.Unmapped p) :
    s.AnswersOnce fncs p sent ↔ s.OneType p := by
  unfold MapServer.AnswersOnce MapServer.OneType MapServer.negativeReferrals
    processDdtRequest
  unfold MapServer.Unmapped at hunmapped
  have htarget : msGetTarget (dbNodeMatchPrefix s p) ≠ [] := by
    cases hpath : dbNodeMatchPrefix s p with
    | nil => exact absurd hpath (h.dbNodeMatchPrefix_ne_nil p)
    | cons rn above => exact climb_ne_nil _ rn above
  cases hmatch : msGetTarget (dbNodeMatchPrefix s p) with
  | nil => exact absurd hmatch htarget
  | cons target above =>
      rw [hmatch] at hunmapped
      have hmapp : target.isType typeMapp = false := hunmapped target rfl
      have hclimb : climb (fun nd => nd.isType (typeEid ||| typeGeid ||| typeGreid))
          (target :: above) = MapServer.rangePath (target :: above) := rfl
      dsimp only
      rw [hmapp, hms, hnode, hclimb]
      simp only [Bool.false_eq_true, if_false, Bool.true_or, if_true]
      cases hrange : MapServer.rangePath (target :: above) with
      | nil => exact absurd hrange (climb_ne_nil _ target above)
      | cons nd rest =>
      cases rest with
      | nil =>
          dsimp only
          constructor
          · rintro - nd parent above' heq
            cases heq
          · intro _
            refine ⟨?_, rfl⟩
            split
            · exact ⟨_, rfl⟩
            · exact ⟨_, rfl⟩
      | cons parent above' =>
          dsimp only
          constructor
          · rintro ⟨⟨referral, hsent⟩, -⟩ nd' parent' above'' heq
            obtain ⟨rfl, -⟩ := List.cons.inj heq
            by_contra htype
            rw [ite_range_of_other htype] at hsent
            cases hsent
          · intro htype
            have hone := htype nd parent above' rfl
            constructor
            · exact ite_range_of_one (P := fun sent => ∃ referral, sent = [referral]) hone
                ⟨_, rfl⟩ ⟨_, rfl⟩ ⟨_, rfl⟩
            · exact ite_range_of_one (P := (· = some 1)) hone rfl rfl rfl

end Answered

/-- On a map server that is a DDT node as well, with any configuration, a DDT request
whose target is no mapping is answered by one negative referral exactly when the node of
a site or of a range above the target is the top, or has one of the types alone. -/
theorem answersOnce_iff_oneType {hmac : Hmac} {lispTe : Bool} {sites : ℕ → SiteInfo}
    {config : List DbEvent} {s : MapServer} {fncs : Functions} {p : Prefix} {sent : Bool}
    (hconfig : ∀ entry ∈ config, IsEntry entry)
    (hrun : run (dbStep hmac lispTe) (MapServer.msInitDb sites) config = some s)
    (hms : fncs.ms = true) (hnode : fncs.node = true) (hunmapped : s.Unmapped p) :
    s.AnswersOnce fncs p sent ↔ s.OneType p := by
  have hrooted : s.Rooted := by
    have halong : Along (dbStep hmac lispTe) (fun _ entry => IsEntry entry)
        (MapServer.msInitDb sites) config := along_of_forall hconfig _
    exact run_invariant (fun h _ hstep => MapServer.Rooted.step h hstep) (rooted_msInitDb sites)
      halong hrun
  exact hrooted.answersOnce_iff hms hnode hunmapped

/-- 10.0.0.0/8 is set aside for EIDs, and for referrals if `too` holds. -/
def tenAssigned (offer : RangeOffer) (too : Bool) : List DbEvent :=
  .assign typeGeid offer.p :: if too then [.assign typeGreid offer.p] else []

theorem isEntry_tenAssigned (offer : RangeOffer) (too : Bool) :
    ∀ entry ∈ tenAssigned offer too, IsEntry entry := by
  intro entry hentry
  rcases List.mem_cons.mp hentry with rfl | hentry
  · exact Or.inl rfl
  · cases too with
    | false => cases hentry
    | true =>
        obtain rfl := List.mem_singleton.mp hentry
        exact Or.inr rfl

/-- A request in a range of EIDs is answered. -/
theorem answersOnce_iff_oneType_ten :
    ∃ s, run (dbStep (fun _ _ => Vector.replicate 20 0) false)
        (MapServer.msInitDb fun _ => ⟨[], none⟩)
        (tenAssigned (tenRange 8 (by decide)) false) = some s ∧
      (s.AnswersOnce ⟨false, true, false, true⟩ (tenRange 24 (by decide)).p.toPrefix true ↔
        s.OneType (tenRange 24 (by decide)).p.toPrefix) := by
  have hrun : run (dbStep (fun _ _ => Vector.replicate 20 0) false)
      (MapServer.msInitDb fun _ => ⟨[], none⟩)
      (tenAssigned (tenRange 8 (by decide)) false) = some _ := rfl
  refine ⟨_, hrun, answersOnce_iff_oneType
    (isEntry_tenAssigned (tenRange 8 (by decide)) false) hrun rfl rfl ?_⟩
  unfold MapServer.Unmapped
  decide

/-- A range that is set aside for EIDs and for referrals gives no answer. -/
theorem not_answersOnce_ten :
    ¬ ∀ hmac lispTe sites (config : List DbEvent) (s : MapServer)
      (fncs : Functions) p sent,
      (∀ entry ∈ config, IsEntry entry) →
      run (dbStep hmac lispTe) (MapServer.msInitDb sites) config = some s →
      fncs.ms = true → fncs.node = true → s.Unmapped p → s.AnswersOnce fncs p sent := by
  intro h
  have hanswer := h (fun _ _ => Vector.replicate 20 0) false (fun _ => ⟨[], none⟩)
    (tenAssigned (tenRange 8 (by decide)) true) _ ⟨false, true, false, true⟩
    (tenRange 24 (by decide)).p.toPrefix true (isEntry_tenAssigned _ true) rfl rfl rfl
    (by unfold MapServer.Unmapped; decide)
  exact absurd hanswer.2 (by decide)

end HyLisp.ControlPlane
