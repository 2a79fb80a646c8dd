import HyLisp.ControlPlane.Lookups
import HyLisp.ControlPlane.SiteConfiguration

/-!
# Processing of requests by a map server and a map resolver

An encapsulated Map-Request is looked up in the database.  From the node that covers
its EID the code climbs towards the top, to a node that can answer for it.  A map
server answers for its own mappings and for those missing below its prefixes; what only
another server knows is left to the map resolver, which keeps the packet and asks
further.
-/

namespace HyLisp.ControlPlane

open DataPlane

/-- `_fncs`, without the bit of an RTR. -/
structure Functions where
  xtr : Bool
  ms : Bool
  mr : Bool
  node : Bool

namespace DbNode

/-- `range`, zero without flags. -/
def range (nd : DbNode) : UInt8 :=
  match nd.flags with
  | none => 0
  | some flags => flags.range

/-- `ms_node_is_type` -/
def isType (nd : DbNode) (nType : UInt8) : Bool :=
  nd.range &&& nType ≠ 0

/-- `ms_node_is_referral` -/
def isReferral (nd : DbNode) : Bool :=
  nd.flags.any fun flags => flags.referral ≠ 0

/-- `ms_node_is_proxy_reply` -/
def isProxyReply (nd : DbNode) : Bool :=
  nd.flags.any fun flags => flags.proxy

end DbNode

/-! ## Climbing -/

/-- The climb from the first node of a list, which ends in the top of the table, to the
first node that satisfies the condition; the top is taken in any case. -/
def climb (stop : DbNode → Bool) : List DbNode → List DbNode
  | [] => []
  | [top] => [top]
  | nd :: parent :: above =>
      if stop nd then nd :: parent :: above else climb stop (parent :: above)

/-- `db_node_match_prefix`: the node and those above it. -/
def dbNodeMatchPrefix (s : MapServer) (p : Prefix) : List DbNode :=
  (((s.tree p.addr).matchPath p).map Prod.snd).reverse

/-- `ms_get_target`, where the node itself has no type: the target and the nodes above
it. -/
def msGetTarget (path : List DbNode) : List DbNode :=
  climb (fun nd => nd.range ≠ 0) path

/-! ## Answers -/

/-- `_forward_to_etr`, on an encapsulated packet, by whether the packet can be sent.
Without a list of locators, and for a locator of another family, an assertion fails. -/
def forwardToEtr (nd : DbNode) (sent : Bool) : Option ℤ :=
  match nd.info with
  | none => none
  | some (_, info) =>
      match info.find? fun e => e.r with
      | none => some 0
      | some e =>
          if e.rloc.address.isNone then none
          else if sent then some 1
          else some (-1)

/-- `generic_process_request` on a DDT request: the value returned. -/
def processDdtRequest (fncs : Functions) (path : List DbNode) (sent : Bool) : Option ℤ :=
  match msGetTarget path with
  | [] => some 1
  | nd :: above =>
      if nd.isType typeMapp then
        if !nd.isReferral then
          if fncs.ms then
            if nd.isProxyReply then some 1
            else (forwardToEtr nd sent).map fun _ => 1
          else some 0
        else if fncs.node then some 1
        else some 0
      else if fncs.ms || fncs.node then
        let types := typeEid ||| typeGeid ||| typeGreid
        match climb (fun nd => nd.isType types) (nd :: above) with
        | nd :: _ :: _ =>
            if nd.range = typeEid then some (if fncs.ms then 1 else 0)
            else if nd.range = typeGeid then some (if fncs.ms then 1 else 0)
            else if nd.range = typeGreid then some (if fncs.node then 1 else 0)
            else some 0
        | _ => some 1
      else some 0

/-- How `generic_process_request` ends: with a value, with that of `_request_reply` for a
node, or with 2 after the call of `pending_request` for a node. -/
inductive RequestEnd
  | returned (rt : ℤ)
  | replied (nd : DbNode)
  | pending (rn : DbNode)

/-- The value returned; `_request_reply` returns 1. -/
def RequestEnd.value : RequestEnd → ℤ
  | .returned rt => rt
  | .replied _ => 1
  | .pending _ => 2

/-- `generic_process_request` on another request, whose target is a mapping. -/
def processMapping (fncs : Functions) (nd : DbNode) (sent : Bool) : Option RequestEnd :=
  if nd.isReferral then
    if fncs.mr then some (.pending nd) else some (.returned 0)
  else if fncs.ms then
    if nd.isProxyReply then some (.replied nd)
    else (forwardToEtr nd sent).map .returned
  else some (.returned 0)

/-- The same for a target that is no mapping. -/
def processUnmapped (fncs : Functions) (path : List DbNode) : Option RequestEnd :=
  match climb (fun nd => nd.isType (typeEid ||| typeGeid)) path with
  | [] => none
  | nd :: above =>
      if fncs.ms then some (.returned (if above.isEmpty then 0 else 1))
      else if fncs.mr then some (.pending nd)
      else some (.returned 0)

/-- `generic_process_request`, without the bit of a DDT node. -/
def processPlainRequest (fncs : Functions) (path : List DbNode) (sent : Bool) :
    Option RequestEnd :=
  match msGetTarget path with
  | [] => none
  | nd :: above =>
      if nd.isType typeMapp then processMapping fncs nd sent
      else processUnmapped fncs (nd :: above)

/-- The request is one for the map resolver: its target is a mapping that was learned
from a referral, or is no mapping, and there is no map server to answer for it. -/
def ForResolver (fncs : Functions) (path : List DbNode) : Prop :=
  fncs.mr = true ∧ ∃ nd above, msGetTarget path = nd :: above ∧
    if nd.isType typeMapp then nd.isReferral = true else fncs.ms = false

/-! ## When a request is kept -/

section Kept

variable {fncs : Functions} {path : List DbNode} {sent : Bool}

/-- A climb that starts ends at a node. -/
theorem climb_ne_nil (stop : DbNode → Bool) (nd : DbNode) (above : List DbNode) :
    climb stop (nd :: above) ≠ [] := by
  induction above generalizing nd with
  | nil => exact List.cons_ne_nil nd []
  | cons parent above ih =>
      rw [climb]
      split
      · exact List.cons_ne_nil nd _
      · exact ih parent

theorem lt_two_of_some {n rt : ℤ} (hn : n < 2) (h : some n = some rt) : rt < 2 := by
  rw [← Option.some_inj.mp h]
  exact hn

theorem ite_lt_two (c : Prop) [Decidable c] : (if c then (1 : ℤ) else 0) < 2 := by
  split
  · decide
  · decide

/-- Forwarding returns at most 1. -/
theorem forwardToEtr_lt_two {nd : DbNode} {rt : ℤ} (h : forwardToEtr nd sent = some rt) :
    rt < 2 := by
  unfold forwardToEtr at h
  split at h
  · cases h
  · split at h
    · exact lt_two_of_some (by decide) h
    · split at h
      · cases h
      · split at h
        · exact lt_two_of_some (by decide) h
        · exact lt_two_of_some (by decide) h

/-- A request on DDT is answered or dropped. -/
theorem processDdtRequest_lt_two {rt : ℤ} (h : processDdtRequest fncs path sent = some rt) :
    rt < 2 := by
  unfold processDdtRequest at h
  split at h
  · exact lt_two_of_some (by decide) h
  next nd above _ =>
    by_cases hmapp : nd.isType typeMapp = true
    · rw [if_pos hmapp] at h
      split at h
      · split at h
        · split at h
          · exact lt_two_of_some (by decide) h
          · obtain ⟨_, -, rfl⟩ := Option.map_eq_some_iff.mp h
            decide
        · exact lt_two_of_some (by decide) h
      · split at h
        · exact lt_two_of_some (by decide) h
        · exact lt_two_of_some (by decide) h
    · rw [if_neg hmapp] at h
      split at h
      · dsimp only at h
        split at h
        · split at h
          · exact lt_two_of_some (ite_lt_two _) h
          · split at h
            · exact lt_two_of_some (ite_lt_two _) h
            · split at h
              · exact lt_two_of_some (ite_lt_two _) h
              · exact lt_two_of_some (by decide) h
        · exact lt_two_of_some (by decide) h
      · exact lt_two_of_some (by decide) h

/-- At a mapping, only what was learned from a referral goes to the pending ones. -/
theorem processMapping_cases {nd : DbNode} {result : RequestEnd}
    (h : processMapping fncs nd sent = some result) :
    ((∃ rn, result = .pending rn) ∧ fncs.mr = true ∧ nd.isReferral = true) ∨
      result.value < 2 := by
  unfold processMapping at h
  split at h
  next href =>
    split at h
    next hmr => exact Or.inl ⟨⟨nd, (Option.some_inj.mp h).symm⟩, hmr, href⟩
    · rw [← Option.some_inj.mp h]
      exact Or.inr (by decide)
  · split at h
    · split at h
      · rw [← Option.some_inj.mp h]
        exact Or.inr (show (1 : ℤ) < 2 by decide)
      · obtain ⟨rt, hrt, rfl⟩ := Option.map_eq_some_iff.mp h
        exact Or.inr (forwardToEtr_lt_two hrt)
    · rw [← Option.some_inj.mp h]
      exact Or.inr (by decide)

/-- Elsewhere, what no map server answers for goes there. -/
theorem processUnmapped_cases {result : RequestEnd}
    (h : processUnmapped fncs path = some result) :
    ((∃ rn, result = .pending rn) ∧ fncs.mr = true ∧ fncs.ms = false) ∨
      result.value < 2 := by
  unfold processUnmapped at h
  split at h
  · cases h
  next nd above _ =>
    split at h
    · rw [← Option.some_inj.mp h]
      refine Or.inr ?_
      rw [RequestEnd.value]
      split
      · decide
      · decide
    next hms =>
      split at h
      next hmr =>
        exact Or.inl ⟨⟨nd, (Option.some_inj.mp h).symm⟩, hmr,
          Bool.eq_false_of_not_eq_true hms⟩
      · rw [← Option.some_inj.mp h]
        exact Or.inr (by decide)

/-- Whether a request is for the map resolver is seen at its target. -/
theorem forResolver_iff {nd : DbNode} {above : List DbNode}
    (h : msGetTarget path = nd :: above) :
    ForResolver fncs path ↔ fncs.mr = true ∧
      if nd.isType typeMapp then nd.isReferral = true else fncs.ms = false := by
  unfold ForResolver
  rw [h]
  constructor
  · rintro ⟨hmr, nd', above', heq, hnd⟩
    obtain ⟨rfl, -⟩ := List.cons.inj heq
    exact ⟨hmr, hnd⟩
  · rintro ⟨hmr, hnd⟩
    exact ⟨hmr, nd, above, rfl, hnd⟩

/-- A request that goes to the pending ones is for the map resolver; for another one
less than 2 is returned. -/
theorem processPlainRequest_cases {result : RequestEnd}
    (h : processPlainRequest fncs path sent = some result) :
    ((∃ rn, result = .pending rn) ∧ ForResolver fncs path) ∨ result.value < 2 := by
  unfold processPlainRequest at h
  split at h
  · cases h
  next nd above htarget =>
    rw [forResolver_iff htarget]
    by_cases hmapp : nd.isType typeMapp = true
    · rw [if_pos hmapp] at h ⊢
      exact processMapping_cases h
    · rw [if_neg hmapp] at h ⊢
      exact processUnmapped_cases h

/-- A request for the map resolver always goes to the pending ones. -/
theorem exists_pending (h : ForResolver fncs path) (sent : Bool) :
    ∃ rn, processPlainRequest fncs path sent = some (.pending rn) := by
  obtain ⟨hmr, nd, above, htarget, hnd⟩ := h
  rw [processPlainRequest, htarget]
  dsimp only
  by_cases hmapp : nd.isType typeMapp = true
  · rw [if_pos hmapp] at hnd ⊢
    rw [processMapping, if_pos hnd, if_pos hmr]
    exact ⟨nd, rfl⟩
  · rw [if_neg hmapp] at hnd ⊢
    rw [processUnmapped]
    split
    next hnil => exact absurd hnil (climb_ne_nil _ nd above)
    next nd' above' _ =>
      rw [if_neg (by rw [hnd]; exact Bool.false_ne_true), if_pos hmr]
      exact ⟨nd', rfl⟩

end Kept

end HyLisp.ControlPlane
