import HyLisp.ControlPlane.PacketCustody

/-!
# The descriptors that are polled

Each pass of `mr_event_loop` fills `mr_fds` for `poll`: two entries for each pending
request, its IPv4 socket at an even position and its IPv6 socket at the odd one behind
it, with the slot of the request in `mr_fds_idx`.  The arrays have `MAX_LOOKUPS + 1`
entries, and the IPv6 socket is written to `mr_fds6`, which is not polled.
-/

namespace HyLisp.ControlPlane

open Transition

/-! ## The arrays -/

/-- The entries of `mr_fds`, `mr_fds6` and `mr_fds_idx`. -/
def fdsSize : ℕ := maxLookups + 1

/-- `POLLIN` -/
def pollin : UInt16 := 0x0001

/-- `pollfd`, without the events returned. -/
structure PollFd where
  fd : Int32
  events : UInt16
  deriving DecidableEq, Repr

/-- `rx` and `rx6` of a slot. -/
structure Sockets where
  rx : Int32
  rx6 : Int32
  deriving DecidableEq, Repr

/-- `mr_fds`, `mr_fds6`, `mr_fds_idx` and `mr_nfds`. -/
structure PollSet where
  mrFds : ℕ → PollFd
  mrFds6 : ℕ → PollFd
  mrFdsIdx : ℕ → Fin maxLookups
  mrNfds : ℕ

/-- Before the first pass the arrays are zero. -/
def PollSet.init : PollSet where
  mrFds := fun _ => ⟨0, 0⟩
  mrFds6 := fun _ => ⟨0, 0⟩
  mrFdsIdx := fun _ => firstSlot
  mrNfds := 0

/-- The two entries of a slot; a write behind the arrays is a failure. -/
def pollSlot (p : PollSet) (i : Fin maxLookups) (sockets : Sockets) : Option PollSet :=
  let n := p.mrNfds
  if n + 1 < fdsSize then
    some
      { mrFds := Function.update (Function.update p.mrFds n ⟨sockets.rx, pollin⟩) (n + 1)
          { p.mrFds (n + 1) with events := pollin }
        mrFds6 := Function.update p.mrFds6 (n + 1)
          { p.mrFds6 (n + 1) with fd := sockets.rx6 }
        mrFdsIdx := Function.update (Function.update p.mrFdsIdx n i) (n + 1) i
        mrNfds := n + 2 }
  else none

/-- What a pass finds in the slots. -/
structure PollPass where
  lookups : Fin maxLookups → EidPending
  sockets : Fin maxLookups → Sockets

/-- The turn of the loop of `mr_event_loop` for one slot, as far as it fills the
arrays. -/
def pollTurn (pass : PollPass) (p : PollSet) (i : Fin maxLookups) : Option PollSet :=
  if (pass.lookups i).active then
    if (pass.lookups i).count > mrMaxLookup then some p
    else pollSlot p i (pass.sockets i)
  else some p

/-- One pass. -/
def pollStep (p : PollSet) (pass : PollPass) : Option PollSet :=
  (List.finRange maxLookups).foldlM (pollTurn pass) { p with mrNfds := 0 }

/-! ## What the poll set is for -/

/-- A request is active behind a pass: it is, and it is not given up. -/
def EidPending.isPolled (l : EidPending) : Bool :=
  l.active && decide (l.count ≤ mrMaxLookup)

/-- The request of a slot is active behind the pass. -/
def PollPass.isPolled (pass : PollPass) (i : Fin maxLookups) : Bool :=
  (pass.lookups i).isPolled

/-- The socket that the parity of a position stands for. -/
def Sockets.ofParity (sockets : Sockets) (k : ℕ) : Int32 :=
  if k % 2 = 0 then sockets.rx else sockets.rx6

/-- The entries are in the arrays; each one polls the socket that its position stands
for, of an active slot; and each active slot has one entry of either parity. -/
structure PollSet.Complete (pass : PollPass) (p : PollSet) : Prop where
  within : p.mrNfds ≤ fdsSize
  polled : ∀ k < p.mrNfds, pass.isPolled (p.mrFdsIdx k) = true ∧
    p.mrFds k = ⟨(pass.sockets (p.mrFdsIdx k)).ofParity k, pollin⟩
  once : ∀ i, pass.isPolled i = true → ∀ parity < 2,
    ∃! k, k < p.mrNfds ∧ k % 2 = parity ∧ p.mrFdsIdx k = i

/-- A pass stays in the arrays and leaves a complete poll set. -/
def PollsAll (p : PollSet) (pass : PollPass) : Prop :=
  ∃ p', pollStep p pass = some p' ∧ p'.Complete pass

/-- The slots that are active behind a pass. -/
def PollPass.polled (pass : PollPass) : List (Fin maxLookups) :=
  (List.finRange maxLookups).filter pass.isPolled

/-- There are entries for all active slots, and their IPv6 sockets have the descriptor
that is never written. -/
def PollPass.Fits (pass : PollPass) : Prop :=
  2 * pass.polled.length ≤ fdsSize ∧ ∀ i ∈ pass.polled, (pass.sockets i).rx6 = 0

section Pass

variable {p p' : PollSet} {pass : PollPass} {done : List (Fin maxLookups)}
  {i : Fin maxLookups}

/-- The descriptors at odd positions are never written. -/
def PollSet.OddUnwritten (p : PollSet) : Prop :=
  ∀ k, k % 2 = 1 → (p.mrFds k).fd = 0

/-- The entries for some slots, in turn. -/
structure PollSet.Lists (sockets : Fin maxLookups → Sockets) (p : PollSet)
    (done : List (Fin maxLookups)) : Prop where
  nfds_eq : p.mrNfds = 2 * done.length
  odd : p.OddUnwritten
  entry : ∀ k i, done[k / 2]? = some i → p.mrFdsIdx k = i ∧
    p.mrFds k = ⟨if k % 2 = 0 then (sockets i).rx else 0, pollin⟩

/-- Another slot gets the next two entries, if they are in the arrays. -/
theorem PollSet.Lists.pollSlot (h : p.Lists pass.sockets done)
    (hroom : 2 * (done.length + 1) ≤ fdsSize) :
    ∃ p', ControlPlane.pollSlot p i (pass.sockets i) = some p' ∧
      p'.Lists pass.sockets (done ++ [i]) := by
  have hnfds := h.nfds_eq
  rw [ControlPlane.pollSlot, if_pos (by omega)]
  refine ⟨_, rfl, ?_, ?_, ?_⟩
  · rw [List.length_append, List.length_singleton]
    dsimp only
    omega
  · intro k hk
    have hne : k ≠ p.mrNfds := by omega
    simp only [Function.update_apply, if_neg hne]
    split
    next heq =>
      rw [← heq]
      exact h.odd k hk
    · exact h.odd k hk
  · intro k j hj
    simp only [Function.update_apply]
    rcases Nat.lt_trichotomy (k / 2) done.length with hlt | heq | hgt
    · -- an entry of before
      rw [List.getElem?_append_left hlt] at hj
      rw [if_neg (by omega), if_neg (by omega), if_neg (by omega), if_neg (by omega)]
      exact h.entry k j hj
    · rw [List.getElem?_append_right heq.ge, heq, Nat.sub_self] at hj
      obtain rfl : i = j := Option.some_inj.mp hj
      rcases Nat.mod_two_eq_zero_or_one k with hk | hk
      · obtain rfl : k = p.mrNfds := by omega
        rw [if_neg (by omega), if_pos rfl, if_neg (by omega), if_pos rfl, if_pos hk]
        exact ⟨rfl, rfl⟩
      · obtain rfl : k = p.mrNfds + 1 := by omega
        rw [if_pos rfl, if_pos rfl, if_neg (by omega), h.odd _ hk]
        exact ⟨rfl, rfl⟩
    · rw [List.getElem?_eq_none (by simp; omega)] at hj
      cases hj

/-- Without room there is a write behind the arrays. -/
theorem PollSet.Lists.pollSlot_eq_none (h : p.Lists pass.sockets done)
    (hroom : fdsSize < 2 * (done.length + 1)) :
    ControlPlane.pollSlot p i (pass.sockets i) = none := by
  have hnfds := h.nfds_eq
  rw [ControlPlane.pollSlot, if_neg (by omega)]

theorem pollTurn_of_polled (h : pass.isPolled i = true) :
    pollTurn pass p i = ControlPlane.pollSlot p i (pass.sockets i) := by
  rw [PollPass.isPolled, EidPending.isPolled, Bool.and_eq_true, decide_eq_true_iff] at h
  rw [pollTurn, if_pos h.1, if_neg (Nat.not_lt.mpr h.2)]

theorem pollTurn_of_not_polled (h : ¬ pass.isPolled i = true) :
    pollTurn pass p i = some p := by
  rw [PollPass.isPolled, EidPending.isPolled, Bool.and_eq_true, decide_eq_true_iff] at h
  rw [pollTurn]
  split
  next hactive => rw [if_pos (Nat.not_le.mp fun hcount => h ⟨hactive, hcount⟩)]
  · rfl

/-- The loop lists the active ones of the slots that are left, if there is room for
them, and otherwise fails. -/
theorem PollSet.Lists.loop (h : p.Lists pass.sockets done)
    (hdone : 2 * done.length ≤ fdsSize) (slots : List (Fin maxLookups)) :
    (2 * (done ++ slots.filter pass.isPolled).length ≤ fdsSize ∧
        ∃ p', slots.foldlM (pollTurn pass) p = some p' ∧
          p'.Lists pass.sockets (done ++ slots.filter pass.isPolled)) ∨
      (fdsSize < 2 * (done ++ slots.filter pass.isPolled).length ∧
        slots.foldlM (pollTurn pass) p = none) := by
  induction slots generalizing p done with
  | nil =>
      rw [List.filter_nil, List.append_nil]
      exact Or.inl ⟨hdone, p, rfl, h⟩
  | cons i slots ih =>
      rw [List.foldlM_cons]
      by_cases hpolled : pass.isPolled i = true
      · have hassoc : done ++ i :: slots.filter pass.isPolled =
            (done ++ [i]) ++ slots.filter pass.isPolled := by
          rw [List.append_assoc, List.singleton_append]
        have hlength : (done ++ [i]).length = done.length + 1 := by
          rw [List.length_append, List.length_singleton]
        rw [List.filter_cons_of_pos hpolled, pollTurn_of_polled hpolled, hassoc]
        by_cases hroom : 2 * (done.length + 1) ≤ fdsSize
        · obtain ⟨p', heq, hlists⟩ := h.pollSlot hroom
          rw [heq]
          exact ih hlists (by omega)
        · rw [h.pollSlot_eq_none (Nat.not_le.mp hroom)]
          refine Or.inr ⟨?_, rfl⟩
          rw [List.length_append, hlength]
          omega
      · rw [List.filter_cons_of_neg hpolled, pollTurn_of_not_polled hpolled]
        exact ih h hdone

/-- A pass begins with no entries. -/
theorem PollSet.lists_nil {sockets : Fin maxLookups → Sockets}
    (h : p.OddUnwritten) : PollSet.Lists sockets { p with mrNfds := 0 } [] := by
  refine ⟨rfl, h, fun k i hk => ?_⟩
  rw [List.getElem?_nil] at hk
  cases hk

/-- A pass lists the active slots, if there is room for them, and fails otherwise. -/
theorem pollStep_cases (h : p.OddUnwritten) (pass : PollPass) :
    (2 * pass.polled.length ≤ fdsSize ∧
        ∃ p', pollStep p pass = some p' ∧ p'.Lists pass.sockets pass.polled) ∨
      (fdsSize < 2 * pass.polled.length ∧ pollStep p pass = none) :=
  (PollSet.lists_nil h).loop (Nat.zero_le _) (List.finRange maxLookups)

theorem OddUnwritten.step (h : p.OddUnwritten) (hstep : pollStep p pass = some p') :
    p'.OddUnwritten := by
  rcases pollStep_cases h pass with ⟨-, p'', heq, hlists⟩ | ⟨-, heq⟩
  · obtain rfl := Option.some_inj.mp (heq.symm.trans hstep)
    exact hlists.odd
  · cases heq.symm.trans hstep

theorem oddUnwritten_of_run {passes : List PollPass}
    (hrun : run pollStep PollSet.init passes = some p) : p.OddUnwritten :=
  run_invariant (fun h _ hstep => OddUnwritten.step h hstep) (fun _ _ => rfl)
    (along_true _ passes) hrun

theorem mem_polled : i ∈ pass.polled ↔ pass.isPolled i = true := by
  rw [PollPass.polled, List.mem_filter, and_iff_right (List.mem_finRange i)]

/-- Entries for the active slots, with the descriptor zero for IPv6, are complete exactly
when this is the descriptor of the IPv6 sockets. -/
theorem PollSet.Lists.complete_iff (h : p.Lists pass.sockets pass.polled)
    (hfits : 2 * pass.polled.length ≤ fdsSize) :
    p.Complete pass ↔ ∀ i ∈ pass.polled, (pass.sockets i).rx6 = 0 := by
  have hnfds := h.nfds_eq
  constructor
  · intro hcomplete i hi
    obtain ⟨k, ⟨hk, hodd, hidx⟩, -⟩ := hcomplete.once i (mem_polled.mp hi) 1 (by decide)
    have hfd := congrArg PollFd.fd (hcomplete.polled k hk).2
    rw [hidx, h.odd k hodd, Sockets.ofParity, if_neg (by omega)] at hfd
    exact hfd.symm
  · intro hzero
    refine ⟨hnfds ▸ hfits, ?_, ?_⟩
    · intro k hk
      obtain ⟨i, hi⟩ : ∃ i, pass.polled[k / 2]? = some i :=
        ⟨_, List.getElem?_eq_getElem (by omega)⟩
      have hmem := List.mem_of_getElem? hi
      obtain ⟨hidx, hfds⟩ := h.entry k i hi
      rw [hidx, hfds, Sockets.ofParity, hzero i hmem]
      exact ⟨mem_polled.mp hmem, rfl⟩
    · intro i hi parity hparity
      obtain ⟨t, ht, hget⟩ := List.getElem_of_mem (mem_polled.mpr hi)
      have hget? : pass.polled[t]? = some i := by rw [List.getElem?_eq_getElem ht, hget]
      have hhalf : (2 * t + parity) / 2 = t := by omega
      have hentry : pass.polled[(2 * t + parity) / 2]? = some i := by rw [hhalf, hget?]
      refine ⟨2 * t + parity, ⟨by omega, by omega, (h.entry _ i hentry).1⟩, ?_⟩
      rintro k ⟨hk, hkparity, hidx⟩
      -- a slot stands in the list only once
      have hlt : k / 2 < pass.polled.length := by omega
      have hsame : pass.polled[k / 2]? = some i := by
        rw [List.getElem?_eq_getElem hlt, ← hidx]
        exact congrArg some (h.entry k _ (List.getElem?_eq_getElem hlt)).1.symm
      have hnodup : pass.polled.Nodup := (List.nodup_finRange _).filter _
      have heq : k / 2 = t :=
        (List.getElem?_inj hlt hnodup).mp (hsame.trans hget?.symm)
      omega

end Pass

/-! ## The passes over the pending requests -/

section Scan

variable {s : CpState} {i : Fin maxLookups}

/-- The turn of the loop for one slot, as far as it counts the descriptors. -/
def scanTurn (s : CpState) (i : Fin maxLookups) : CpState :=
  if (s.lookups i).active then
    if (s.lookups i).count > mrMaxLookup then freeLookups s i
    else { s with mrNfds := s.mrNfds + 2 }
  else s

theorem scanTurn_of_polled (h : (s.lookups i).isPolled = true) :
    scanTurn s i = { s with mrNfds := s.mrNfds + 2 } := by
  rw [EidPending.isPolled, Bool.and_eq_true, decide_eq_true_iff] at h
  rw [scanTurn, if_pos h.1, if_neg (Nat.not_lt.mpr h.2)]

/-- A slot that gets no entries is not active, or is released. -/
theorem scanTurn_of_not_polled (h : ¬ (s.lookups i).isPolled = true) :
    (scanTurn s i).mrNfds = s.mrNfds ∧ ((scanTurn s i).lookups i).active = false ∧
      ∀ j, j ≠ i → (scanTurn s i).lookups j = s.lookups j := by
  rw [EidPending.isPolled, Bool.and_eq_true, decide_eq_true_iff] at h
  rw [scanTurn]
  split
  next hactive =>
    rw [if_pos (Nat.not_le.mp fun hcount => h ⟨hactive, hcount⟩), freeLookups]
    simp only [hactive, if_true]
    refine ⟨rfl, ?_, fun j hj => Function.update_of_ne hj _ _⟩
    change (Function.update (udpFreePk s (s.lookups i).pke).lookups i
      { s.lookups i with active := false } i).active = false
    rw [Function.update_self]
  next hactive => exact ⟨rfl, Bool.eq_false_of_not_eq_true hactive, fun j _ => rfl⟩

/-- The turn for a slot leaves the others as they are. -/
theorem lookups_scanTurn_of_ne (s : CpState) {i j : Fin maxLookups} (hj : j ≠ i) :
    (scanTurn s i).lookups j = s.lookups j := by
  by_cases hpolled : (s.lookups i).isPolled = true
  · rw [scanTurn_of_polled hpolled]
  · exact (scanTurn_of_not_polled hpolled).2.2 j hj

theorem active_scanTurn (s : CpState) (i : Fin maxLookups) :
    ((scanTurn s i).lookups i).active = (s.lookups i).isPolled := by
  by_cases hpolled : (s.lookups i).isPolled = true
  · rw [scanTurn_of_polled hpolled, hpolled]
    exact (Bool.and_eq_true_iff.mp hpolled).1
  · rw [(scanTurn_of_not_polled hpolled).2.1, Bool.eq_false_of_not_eq_true hpolled]

theorem lookups_foldl_scanTurn {slots : List (Fin maxLookups)} (hi : i ∉ slots)
    (s : CpState) : (slots.foldl scanTurn s).lookups i = s.lookups i := by
  induction slots generalizing s with
  | nil => rfl
  | cons j slots ih =>
      obtain ⟨hne, hrest⟩ := not_or.mp (mt List.mem_cons.mpr hi)
      rw [List.foldl_cons, ih hrest, lookups_scanTurn_of_ne s hne]

/-- Behind the turns for all slots, those are active that get entries. -/
theorem active_foldl_scanTurn {slots : List (Fin maxLookups)} (hnodup : slots.Nodup)
    (hi : i ∈ slots) (s : CpState) :
    ((slots.foldl scanTurn s).lookups i).active = (s.lookups i).isPolled := by
  induction slots generalizing s with
  | nil => exact absurd hi List.not_mem_nil
  | cons j slots ih =>
      obtain ⟨hj, hrest⟩ := List.nodup_cons.mp hnodup
      rw [List.foldl_cons]
      rcases List.mem_cons.mp hi with rfl | hi'
      · rw [lookups_foldl_scanTurn hj, active_scanTurn]
      · have hne : i ≠ j := fun heq => hj (heq ▸ hi')
        rw [ih hrest hi', lookups_scanTurn_of_ne s hne]

/-- There are two descriptors for each slot that gets entries. -/
theorem mrNfds_foldl_scanTurn {slots : List (Fin maxLookups)} (hnodup : slots.Nodup)
    (s : CpState) : (slots.foldl scanTurn s).mrNfds =
      s.mrNfds + 2 * (slots.filter fun i => (s.lookups i).isPolled).length := by
  induction slots generalizing s with
  | nil => rfl
  | cons i slots ih =>
      obtain ⟨hi, hrest⟩ := List.nodup_cons.mp hnodup
      -- the slots that are left are as they were
      have hfilter : (slots.filter fun j => ((scanTurn s i).lookups j).isPolled) =
          slots.filter fun j => (s.lookups j).isPolled := by
        refine List.filter_congr fun j hj => ?_
        have hne : j ≠ i := fun heq => hi (heq ▸ hj)
        rw [lookups_scanTurn_of_ne s hne]
      rw [List.foldl_cons, ih hrest, hfilter, List.filter_cons]
      split
      next hpolled =>
        rw [scanTurn_of_polled hpolled, List.length_cons]
        dsimp only
        omega
      next hpolled => rw [(scanTurn_of_not_polled hpolled).1]

/-- `scanLookups` counts the descriptors of the poll set, and leaves those slots active
that have entries in it. -/
theorem scanLookups_spec (s : CpState) (sockets : Fin maxLookups → Sockets) :
    (scanLookups s).mrNfds = 2 * (PollPass.mk s.lookups sockets).polled.length ∧
      ∀ i, ((scanLookups s).lookups i).active =
        (PollPass.mk s.lookups sockets).isPolled i := by
  have hscan : scanLookups s =
      (List.finRange maxLookups).foldl scanTurn { s with mrNfds := 0 } := rfl
  rw [hscan]
  constructor
  · exact (mrNfds_foldl_scanTurn (List.nodup_finRange _) _).trans (Nat.zero_add _)
  · intro i
    exact active_foldl_scanTurn (List.nodup_finRange _) (List.mem_finRange i) _

end Scan

/-- After any number of passes, the next one leaves a complete poll set exactly if there
is room for the active slots and their IPv6 sockets have the descriptor zero. -/
theorem pollsAll_iff_fits (passes : List PollPass) {p : PollSet}
    (hrun : run pollStep PollSet.init passes = some p) (pass : PollPass) :
    PollsAll p pass ↔ pass.Fits := by
  rcases pollStep_cases (oddUnwritten_of_run hrun) pass with ⟨hfits, p', heq, hlists⟩ |
    ⟨hover, heq⟩
  · rw [PollPass.Fits, and_iff_right hfits, ← hlists.complete_iff hfits]
    constructor
    · rintro ⟨p'', heq', hcomplete⟩
      obtain rfl := Option.some_inj.mp (heq.symm.trans heq')
      exact hcomplete
    · intro hcomplete
      exact ⟨p', heq, hcomplete⟩
  · refine iff_of_false ?_ fun hfits => absurd hfits.1 (Nat.not_le.mpr hover)
    rintro ⟨p', heq', -⟩
    cases heq.symm.trans heq'

/-- A pass that finds one active request, in the first slot. -/
def passFive (rx6 : Int32) : PollPass where
  lookups i := { emptyPending with active := i == firstSlot }
  sockets _ := ⟨5, rx6⟩

theorem pollsAll_iff_fits_zero :
    PollsAll PollSet.init (passFive 0) ↔ (passFive 0).Fits :=
  pollsAll_iff_fits [] rfl (passFive 0)

/-- With an IPv6 socket of descriptor 6, the second entry polls the descriptor zero. -/
theorem not_pollsAll_six :
    ¬ ∀ passes p, run pollStep PollSet.init passes = some p → ∀ pass, PollsAll p pass := by
  intro h
  obtain ⟨p, hstep, hcomplete⟩ := h [] PollSet.init rfl (passFive 6)
  obtain ⟨k, ⟨hk, hodd, hidx⟩, -⟩ := hcomplete.once firstSlot (by decide) 1 (by decide)
  have hfd := congrArg PollFd.fd (hcomplete.polled k hk).2
  have hunwritten : p.OddUnwritten := OddUnwritten.step (fun _ _ => rfl) hstep
  rw [hunwritten k hodd, Sockets.ofParity, if_neg (by omega)] at hfd
  cases hfd

end HyLisp.ControlPlane
