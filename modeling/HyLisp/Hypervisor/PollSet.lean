import HyLisp.Hypervisor.ControlPlanes
import HyLisp.Support.HeapArray
import Mathlib.Data.Rat.Floor

/-!
# The poll set of the muxer

The map message muxer polls the sockets of the registered planes, and a socket of its own
on which the registering server wakes it up.  The array of the planes changes with every
registration; the poll set follows it only when the muxer is woken up, and there may be
any number of changes in between.

A write outside of an allocated array, and a read of a cell that was not written, are
failures: every run of this module succeeds.
-/

namespace HyLisp.Hypervisor

open Transition

/-- `struct pollfd` -/
structure Pollfd where
  fd : ℕ
  events : UInt16
  revents : UInt16
  deriving DecidableEq, Repr

/-- `POLLIN` -/
def pollin : UInt16 := 0x0001

/-- The arrays of the planes and of the poll set, with their counters and capacities. -/
structure MuxState where
  controlPlanes : HeapArray ControlPlane
  controlPlanesCtr : ℕ
  controlPlanesMax : ℕ
  mmmPoll : HeapArray Pollfd
  mmmPollCtr : ℕ
  mmmPollMax : ℕ

/-! ## The planes -/

/-- `DYN_ARRAY_INIT`, of both arrays. -/
def dynArrayInit : ℕ := 16

/-- `expand_control_planes` -/
def expandControlPlanes (s : MuxState) : MuxState :=
  { s with
    controlPlanesMax := 2 * s.controlPlanesMax
    controlPlanes := s.controlPlanes.realloc (2 * s.controlPlanesMax) }

/-- `add_control_plane` -/
def addControlPlane (s : MuxState) (cp : ControlPlane) : Option MuxState :=
  if s.controlPlanesCtr > s.controlPlanesMax then none
  else
    let s := if s.controlPlanesCtr = s.controlPlanesMax then expandControlPlanes s else s
    (s.controlPlanes.write s.controlPlanesCtr cp).map fun controlPlanes =>
      { s with controlPlanes := controlPlanes, controlPlanesCtr := s.controlPlanesCtr + 1 }

/-- `remove_control_plane` -/
def removeControlPlane (s : MuxState) (ind : ℕ) : Option MuxState :=
  (s.controlPlanes.memmove ind (ind + 1) (s.controlPlanesCtr - 1 - ind)).map
    fun controlPlanes =>
      { s with controlPlanes := controlPlanes, controlPlanesCtr := s.controlPlanesCtr - 1 }

/-- The search of `deregister_control_plane`, from position `i` on with `n` planes left. -/
def searchPort (controlPlanes : HeapArray ControlPlane) (port : UInt16) :
    ℕ → ℕ → Option ℕ
  | 0, i => some i
  | n + 1, i =>
      match controlPlanes[i]? with
      | some (some cp) =>
          if cp.port == port then some i else searchPort controlPlanes port n (i + 1)
      | _ => none

/-- `deregister_control_plane`, on the array of the planes. -/
def deregisterPort (s : MuxState) (port : UInt16) : Option MuxState :=
  (searchPort s.controlPlanes port s.controlPlanesCtr 0).bind fun i =>
    if i < s.controlPlanesCtr then removeControlPlane s i else some s

/-! ## The poll set -/

/-- `DYN_ARRAY_INCR` of the poll set. -/
def mmmPollIncr : ℚ := 3 / 2

/-- `expand_mmm_poll` -/
def expandMmmPoll (s : MuxState) (guaranteedCapacity : ℕ) : MuxState :=
  let grown := ⌈mmmPollIncr * s.mmmPollMax⌉₊
  let mmmPollMax :=
    if guaranteedCapacity > 0 ∧ grown < guaranteedCapacity then guaranteedCapacity else grown
  { s with mmmPollMax := mmmPollMax, mmmPoll := s.mmmPoll.realloc mmmPollMax }

/-- The entry of a plane. -/
def pollEntry (cp : ControlPlane) : Pollfd :=
  ⟨cp.socketDescriptor, pollin, 0⟩

/-- The loop of `update_mmm_poll`, from plane `i` on with `n` planes left. -/
def fillMmmPoll (controlPlanes : HeapArray ControlPlane) :
    ℕ → ℕ → HeapArray Pollfd → Option (HeapArray Pollfd)
  | 0, _, mmmPoll => some mmmPoll
  | n + 1, i, mmmPoll =>
      match controlPlanes[i]? with
      | some (some cp) =>
          (mmmPoll.write (i + 1) (pollEntry cp)).bind
            fun mmmPoll => fillMmmPoll controlPlanes n (i + 1) mmmPoll
      | _ => none

/-- `update_mmm_poll` -/
def updateMmmPoll (s : MuxState) : Option MuxState :=
  let s :=
    if s.controlPlanesCtr > s.mmmPollMax - 1 then expandMmmPoll s (s.controlPlanesCtr + 1)
    else s
  (fillMmmPoll s.controlPlanes s.controlPlanesCtr 0 s.mmmPoll).map fun mmmPoll =>
    { s with mmmPoll := mmmPoll, mmmPollCtr := s.controlPlanesCtr + 1 }

/-- `poll`: the kernel fills in what is ready. -/
def pollReady (s : MuxState) (revents : ℕ → UInt16) : MuxState :=
  { s with
    mmmPoll := s.mmmPoll.mapIdx fun i cell =>
      if i < s.mmmPollCtr then cell.map fun entry => { entry with revents := revents i }
      else cell }

/-- `init_control_planes` and `init_mmm_poll`, with the socket that wakes the muxer up. -/
def MuxState.init (wakeup : ℕ) : MuxState where
  controlPlanes := HeapArray.alloc dynArrayInit
  controlPlanesCtr := 0
  controlPlanesMax := dynArrayInit
  mmmPoll := some ⟨wakeup, pollin, 0⟩ :: HeapArray.alloc (dynArrayInit - 1)
  mmmPollCtr := 1
  mmmPollMax := dynArrayInit

/-- What happens to the two arrays. -/
inductive MuxEvent
  | register (cp : ControlPlane)
  | deregister (port : UInt16)
  | poll (revents : ℕ → UInt16)
  | update

/-- One event. -/
def muxStep (s : MuxState) : MuxEvent → Option MuxState
  | .register cp => addControlPlane s cp
  | .deregister port => deregisterPort s port
  | .poll revents => some (pollReady s revents)
  | .update => updateMmmPoll s

/-! ## The registered planes -/

/-- What an event does to the list of the planes. -/
def registered (planes : List ControlPlane) : MuxEvent → List ControlPlane
  | .register cp => planes ++ [cp]
  | .deregister port => planes.eraseIdx (findPort planes port)
  | .poll _ => planes
  | .update => planes

/-- The registering server of the state machine changes its planes in this way. -/
theorem controlPlanes_registerControlPlane (s : State) (port : UInt16) :
    (registerControlPlane s port).controlPlanes =
      registered s.controlPlanes
        (.register ⟨s.controlPlanesAutoindex, s.nextDescriptor, port⟩) := rfl

theorem controlPlanes_deregisterControlPlane (s : State) (port : UInt16) :
    (deregisterControlPlane s port).controlPlanes =
      registered s.controlPlanes (.deregister port) := rfl

/-- The arrays are allocated as their capacities say, the first one holds the planes, and
the second one begins with the socket that wakes the muxer up. -/
structure MuxState.Sound (wakeup : ℕ) (planes : List ControlPlane) (s : MuxState) : Prop where
  planes_holds : s.controlPlanes.Holds planes
  planes_ctr : s.controlPlanesCtr = planes.length
  planes_length : s.controlPlanes.length = s.controlPlanesMax
  planes_max_pos : 0 < s.controlPlanesMax
  poll_first : ∃ revents, s.mmmPoll.Holds [⟨wakeup, pollin, revents⟩]
  poll_length : s.mmmPoll.length = s.mmmPollMax
  poll_ctr_le : s.mmmPollCtr ≤ s.mmmPollMax

theorem sound_init (wakeup : ℕ) : (MuxState.init wakeup).Sound wakeup [] where
  planes_holds := HeapArray.holds_nil _
  planes_ctr := rfl
  planes_length := HeapArray.length_alloc _
  planes_max_pos := (by decide : 0 < dynArrayInit)
  poll_first := ⟨0, HeapArray.holds_append [_] _⟩
  poll_length := rfl
  poll_ctr_le := (by decide : 1 ≤ dynArrayInit)

section Planes

variable {wakeup : ℕ} {planes : List ControlPlane} {s : MuxState}

theorem sound_expandControlPlanes (h : s.Sound wakeup planes) :
    (expandControlPlanes s).Sound wakeup planes where
  planes_holds := by
    have hle := h.planes_holds.length_le
    rw [h.planes_length] at hle
    exact h.planes_holds.realloc (by omega)
  planes_ctr := h.planes_ctr
  planes_length := HeapArray.length_realloc _ _
  planes_max_pos := Nat.mul_pos two_pos h.planes_max_pos
  poll_first := h.poll_first
  poll_length := h.poll_length
  poll_ctr_le := h.poll_ctr_le

/-- A registration finds a free cell, and fills it. -/
theorem sound_addControlPlane (h : s.Sound wakeup planes) (cp : ControlPlane) :
    ∃ s', addControlPlane s cp = some s' ∧ s'.Sound wakeup (planes ++ [cp]) := by
  have hle := h.planes_holds.length_le
  rw [h.planes_length, ← h.planes_ctr] at hle
  rw [addControlPlane, if_neg (Nat.not_lt.mpr hle)]
  dsimp only
  generalize hgrown : (if s.controlPlanesCtr = s.controlPlanesMax then expandControlPlanes s
    else s) = t
  obtain ⟨ht, hroom⟩ : t.Sound wakeup planes ∧ planes.length < t.controlPlanesMax := by
    rw [← hgrown, ← h.planes_ctr]
    split
    next heq =>
      have hpos := h.planes_max_pos
      refine ⟨sound_expandControlPlanes h, ?_⟩
      show s.controlPlanesCtr < 2 * s.controlPlanesMax
      omega
    next hne => exact ⟨h, lt_of_le_of_ne hle hne⟩
  rw [← ht.planes_length] at hroom
  obtain ⟨cells, hwrite, hholds, hlen⟩ := ht.planes_holds.write hroom cp
  rw [ht.planes_ctr, hwrite, Option.map_some]
  refine ⟨_, rfl, ?_⟩
  exact
    { ht with
      planes_holds := hholds
      planes_ctr := by simp
      planes_length := hlen.trans ht.planes_length }

theorem sound_removeControlPlane (h : s.Sound wakeup planes) {ind : ℕ}
    (hind : ind < planes.length) :
    ∃ s', removeControlPlane s ind = some s' ∧ s'.Sound wakeup (planes.eraseIdx ind) := by
  obtain ⟨cells, hmove, hholds, hlen⟩ := h.planes_holds.memmove hind
  rw [removeControlPlane, h.planes_ctr, hmove, Option.map_some]
  refine ⟨_, rfl, ?_⟩
  exact
    { h with
      planes_holds := hholds
      planes_ctr := (List.length_eraseIdx_of_lt hind).symm
      planes_length := hlen.trans h.planes_length }

/-- The search reads the registered planes only, and finds what a search of the list
finds. -/
theorem searchPort_of_holds {cells : HeapArray ControlPlane} {passed rest : List ControlPlane}
    (h : cells.Holds (passed ++ rest)) (port : UInt16) :
    searchPort cells port rest.length passed.length =
      some (passed.length + findPort rest port) := by
  induction rest generalizing passed with
  | nil => rfl
  | cons cp rest ih =>
      have hlt : passed.length < (passed ++ cp :: rest).length := by simp
      have hget : cells[passed.length]? = some (some cp) := by
        rw [h.getElem? hlt]
        simp
      rw [List.length_cons, searchPort, hget, findPort, List.findIdx_cons]
      dsimp only
      cases hport : cp.port == port with
      | true => simp
      | false =>
          have hsplit : passed ++ cp :: rest = (passed ++ [cp]) ++ rest := by simp
          have hnext := ih (hsplit ▸ h)
          rw [List.length_append, List.length_singleton] at hnext
          rw [if_neg Bool.false_ne_true, hnext, cond_false, findPort]
          congr 1
          omega

theorem sound_deregisterPort (h : s.Sound wakeup planes) (port : UInt16) :
    ∃ s', deregisterPort s port = some s' ∧
      s'.Sound wakeup (planes.eraseIdx (findPort planes port)) := by
  have hplanes : s.controlPlanes.Holds ([] ++ planes) := h.planes_holds
  have hsearch := searchPort_of_holds hplanes port
  rw [List.length_nil, Nat.zero_add] at hsearch
  rw [deregisterPort, h.planes_ctr, hsearch, Option.bind_some]
  by_cases hfound : findPort planes port < planes.length
  · rw [if_pos hfound]
    exact sound_removeControlPlane h hfound
  · rw [if_neg hfound, List.eraseIdx_of_length_le (Nat.le_of_not_lt hfound)]
    exact ⟨s, rfl, h⟩

end Planes

section Poll

variable {wakeup : ℕ} {planes : List ControlPlane} {s : MuxState}

/-- The capacity does not shrink, and is the guaranteed one at least. -/
theorem le_mmmPollMax_expandMmmPoll (s : MuxState) (guaranteedCapacity : ℕ) :
    s.mmmPollMax ≤ (expandMmmPoll s guaranteedCapacity).mmmPollMax ∧
      guaranteedCapacity ≤ (expandMmmPoll s guaranteedCapacity).mmmPollMax := by
  have hgrown : s.mmmPollMax ≤ ⌈mmmPollIncr * s.mmmPollMax⌉₊ := by
    have hincr : (s.mmmPollMax : ℚ) ≤ mmmPollIncr * s.mmmPollMax :=
      le_mul_of_one_le_left (Nat.cast_nonneg _) (by norm_num [mmmPollIncr])
    exact_mod_cast hincr.trans (Nat.le_ceil _)
  rw [expandMmmPoll]
  dsimp only
  split
  · omega
  · omega

theorem sound_expandMmmPoll (h : s.Sound wakeup planes) (guaranteedCapacity : ℕ) :
    (expandMmmPoll s guaranteedCapacity).Sound wakeup planes := by
  have hle := (le_mmmPollMax_expandMmmPoll s guaranteedCapacity).1
  obtain ⟨revents, hfirst⟩ := h.poll_first
  have hone := hfirst.length_le
  rw [h.poll_length] at hone
  exact
    { h with
      poll_first := ⟨revents, hfirst.realloc (hone.trans hle)⟩
      poll_length := HeapArray.length_realloc _ _
      poll_ctr_le := h.poll_ctr_le.trans hle }

/-- The loop writes the entries of the planes, one behind the other. -/
theorem fillMmmPoll_of_holds {cells : HeapArray ControlPlane} {entries : HeapArray Pollfd}
    {first : Pollfd} {done rest : List ControlPlane} (h : cells.Holds (done ++ rest))
    (hpoll : entries.Holds (first :: done.map pollEntry))
    (hroom : (done ++ rest).length + 1 ≤ entries.length) :
    ∃ entries', fillMmmPoll cells rest.length done.length entries = some entries' ∧
      entries'.Holds (first :: (done ++ rest).map pollEntry) ∧
      entries'.length = entries.length := by
  induction rest generalizing done entries with
  | nil => exact ⟨entries, rfl, by rwa [List.append_nil], rfl⟩
  | cons cp rest ih =>
      have hlt : done.length < (done ++ cp :: rest).length := by simp
      have hget : cells[done.length]? = some (some cp) := by
        rw [h.getElem? hlt]
        simp
      have hlen : (first :: done.map pollEntry).length = done.length + 1 := by simp
      obtain ⟨written, hwrite, hheld, hsize⟩ := hpoll.write (by omega) (pollEntry cp)
      rw [hlen] at hwrite
      have hsplit : done ++ cp :: rest = (done ++ [cp]) ++ rest := by simp
      rw [hsplit] at h hroom ⊢
      obtain ⟨entries', hfill, hholds, hsize'⟩ :=
        ih h (by simpa using hheld) (hsize ▸ hroom)
      refine ⟨entries', ?_, hholds, hsize'.trans hsize⟩
      rw [List.length_append, List.length_singleton] at hfill
      rw [List.length_cons, fillMmmPoll, hget]
      dsimp only
      rw [hwrite, Option.bind_some, hfill]

/-- An update makes room for the planes, and enters them behind the first socket. -/
theorem sound_updateMmmPoll (h : s.Sound wakeup planes) :
    ∃ s', updateMmmPoll s = some s' ∧ s'.Sound wakeup planes ∧
      s'.mmmPollCtr = planes.length + 1 ∧
      ∃ revents, s'.mmmPoll.Holds (⟨wakeup, pollin, revents⟩ :: planes.map pollEntry) := by
  rw [updateMmmPoll]
  generalize hgrown : (if s.controlPlanesCtr > s.mmmPollMax - 1 then
    expandMmmPoll s (s.controlPlanesCtr + 1) else s) = t
  obtain ⟨ht, hroom⟩ : t.Sound wakeup planes ∧ planes.length + 1 ≤ t.mmmPollMax := by
    rw [← hgrown, ← h.planes_ctr]
    split
    next hfull =>
      exact ⟨sound_expandMmmPoll h _, (le_mmmPollMax_expandMmmPoll s _).2⟩
    next hfits =>
      obtain ⟨_, hfirst⟩ := h.poll_first
      have hone := hfirst.length_le
      rw [h.poll_length, List.length_singleton] at hone
      exact ⟨h, by omega⟩
  obtain ⟨revents, hfirst⟩ := ht.poll_first
  have hplanes : t.controlPlanes.Holds ([] ++ planes) := ht.planes_holds
  obtain ⟨entries, hfill, hholds, hsize⟩ := fillMmmPoll_of_holds hplanes hfirst
    (by rw [ht.poll_length]; exact hroom)
  rw [List.length_nil] at hfill
  rw [ht.planes_ctr, hfill, Option.map_some]
  refine ⟨_, rfl, ?_, rfl, revents, hholds⟩
  exact
    { ht with
      planes_ctr := rfl
      poll_first := ⟨revents, (List.prefix_append [some _] _).trans hholds⟩
      poll_length := hsize.trans ht.poll_length
      poll_ctr_le := hroom }

theorem sound_pollReady (h : s.Sound wakeup planes) (revents : ℕ → UInt16) :
    (pollReady s revents).Sound wakeup planes := by
  obtain ⟨old, cells, hcells⟩ := h.poll_first
  refine { h with poll_first := ?_, poll_length := ?_ }
  · rw [pollReady, ← hcells]
    dsimp only
    by_cases hpolled : 0 < s.mmmPollCtr
    · refine ⟨revents 0, ?_⟩
      simp [HeapArray.Holds, List.mapIdx_cons, hpolled]
    · refine ⟨old, ?_⟩
      simp [HeapArray.Holds, List.mapIdx_cons, hpolled]
  · rw [pollReady, List.length_mapIdx]
    exact h.poll_length

end Poll

/-- Every event succeeds, and keeps the arrays sound. -/
theorem sound_muxStep {wakeup : ℕ} {planes : List ControlPlane} {s : MuxState}
    (h : s.Sound wakeup planes) (event : MuxEvent) :
    ∃ s', muxStep s event = some s' ∧ s'.Sound wakeup (registered planes event) := by
  cases event with
  | register cp => exact sound_addControlPlane h cp
  | deregister port => exact sound_deregisterPort h port
  | poll revents => exact ⟨_, rfl, sound_pollReady h revents⟩
  | update =>
      obtain ⟨s', hupdate, hsound, -⟩ := sound_updateMmmPoll h
      exact ⟨s', hupdate, hsound⟩

theorem sound_run {wakeup : ℕ} {planes : List ControlPlane} {s : MuxState}
    (h : s.Sound wakeup planes) (events : List MuxEvent) :
    ∃ t, run muxStep s events = some t ∧ t.Sound wakeup (events.foldl registered planes) := by
  induction events generalizing s planes with
  | nil => exact ⟨s, rfl, h⟩
  | cons event events ih =>
      obtain ⟨s', hstep, hs'⟩ := sound_muxStep h event
      obtain ⟨t, hrun, ht⟩ := ih hs'
      exact ⟨t, run_cons_eq_some.mpr ⟨s', hstep, hrun⟩, ht⟩

/-! ## The threads of the hypervisor -/

/-- What a critical section does to the array of the planes. -/
def muxEvents (s : State) : Event → List MuxEvent
  | .register port =>
      match s.deregistration with
      | none => [.register ⟨s.controlPlanesAutoindex, s.nextDescriptor, port⟩]
      | some _ => []
  | .deregisterFirst port =>
      match s.deregistration with
      | none => [.deregister port]
      | some _ => []
  | _ => []

theorem controlPlanes_step {s s' : State} {event : Event} (h : step s event = some s') :
    s'.controlPlanes = (muxEvents s event).foldl registered s.controlPlanes := by
  cases event with
  | register port =>
      cases hd : s.deregistration with
      | none =>
          simp only [step, hd] at h
          simp only [muxEvents, hd, ← Option.some_inj.mp h]
          exact controlPlanes_registerControlPlane s port
      | some d =>
          simp only [step, hd] at h
          simp only [muxEvents, hd, ← Option.some_inj.mp h, List.foldl_nil]
  | deregisterFirst port =>
      cases hd : s.deregistration with
      | none =>
          simp only [step, hd] at h
          simp only [muxEvents, hd, ← Option.some_inj.mp h]
          exact controlPlanes_deregisterControlPlane s port
      | some d =>
          simp only [step, hd] at h
          simp only [muxEvents, hd, ← Option.some_inj.mp h, List.foldl_nil]
  | deregisterSecond =>
      cases hd : s.deregistration with
      | none =>
          simp only [step, hd] at h
          rw [← Option.some_inj.mp h]
          rfl
      | some d =>
          simp only [step, hd] at h
          rw [← Option.some_inj.mp h]
          rfl
  | mapMessage socketDescriptor buf msgLen =>
      obtain ⟨result, -, rfl⟩ := Option.map_eq_some_iff.mp h
      rfl

/-- The arrays of the muxer can follow the threads: after every run of these, there is one
of the arrays that leaves the registered planes in them. -/
theorem exists_muxRun (wakeup : ℕ) {events : List Event} {s : State}
    (hrun : run step State.init events = some s) :
    ∃ changes t, run muxStep (.init wakeup) changes = some t ∧
      t.Sound wakeup s.controlPlanes := by
  have hstep : ∀ {s event s'}, (∃ changes, s.controlPlanes = List.foldl registered [] changes) →
      True → step s event = some s' →
        ∃ changes, s'.controlPlanes = List.foldl registered [] changes := by
    rintro s event s' ⟨changes, hchanges⟩ - hs
    refine ⟨changes ++ muxEvents s event, ?_⟩
    rw [List.foldl_append, ← hchanges]
    exact controlPlanes_step hs
  obtain ⟨changes, hchanges⟩ := run_invariant hstep ⟨[], rfl⟩ (along_true _ events) hrun
  obtain ⟨t, ht, hsound⟩ := sound_run (sound_init wakeup) changes
  rw [hchanges]
  exact ⟨changes, t, ht, hsound⟩

/-- Whatever is registered and deregistered between the updates, nothing is written outside
of the arrays, the counter of the poll set stays within its capacity, which is what is
allocated, and its first entry is the socket that wakes the muxer up.  An update that
follows leaves the sockets of the registered planes behind it, in their order, with
`revents` cleared. -/
theorem pollSet_of_run (wakeup : ℕ) (events : List MuxEvent) :
    ∃ s, run muxStep (.init wakeup) events = some s ∧
      s.mmmPollCtr ≤ s.mmmPollMax ∧ s.mmmPoll.length = s.mmmPollMax ∧
      (∃ revents, s.mmmPoll.Holds [⟨wakeup, pollin, revents⟩]) ∧
      ∃ s', updateMmmPoll s = some s' ∧
        s'.mmmPollCtr = (events.foldl registered []).length + 1 ∧
        ∃ revents, s'.mmmPoll.Holds
          (⟨wakeup, pollin, revents⟩ :: (events.foldl registered []).map pollEntry) := by
  obtain ⟨s, hrun, hsound⟩ := sound_run (sound_init wakeup) events
  obtain ⟨s', hupdate, -, hctr, hentries⟩ := sound_updateMmmPoll hsound
  exact ⟨s, hrun, hsound.poll_ctr_le, hsound.poll_length, hsound.poll_first, s', hupdate, hctr,
    hentries⟩

end HyLisp.Hypervisor
