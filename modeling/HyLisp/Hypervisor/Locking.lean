import HyLisp.Support.RwLock
import Mathlib.Data.Fintype.Basic

/-!
# The locks of the hypervisor

Four threads share the array of planes and the assignments, each behind a lock of
its own.  The functions that change the assignments ask for a write lock in their
contracts.  The registering server takes one; the muxer takes a read lock, which
the two demuxers may hold at the same time.

Of the bodies of the threads the steps on the two locks are kept, and those that
enter and leave the calls between them.  A branch that depends on data is a body
of its own.
-/

namespace HyLisp.Hypervisor

open RwLock Transition

/-- The threads of the hypervisor. -/
inductive ThreadName
  | registeringServer
  | mapMessagesMuxer
  | mapMessagesDemuxer
  | controlPacketsDemuxer
  deriving DecidableEq

instance : Fintype ThreadName where
  elems := {.registeringServer, .mapMessagesMuxer, .mapMessagesDemuxer,
    .controlPacketsDemuxer}
  complete := by rintro (_ | _) <;> decide

/-- The two locks. -/
inductive LockName
  | controlPlanesLock
  | assignmentsLock
  deriving DecidableEq

instance : Fintype LockName where
  elems := {.controlPlanesLock, .assignmentsLock}
  complete := by rintro (_ | _) <;> decide

/-- The calls made under them. -/
inductive Call
  | addControlPlane
  | removeControlPlane
  | addAssignment
  | removeAssignment
  | removeAssignee
  | sort
  deriving DecidableEq

instance : Fintype Call where
  elems := {.addControlPlane, .removeControlPlane, .addAssignment, .removeAssignment,
    .removeAssignee, .sort}
  complete := by rintro (_ | _) <;> decide

/-- A body of a thread. -/
abbrev Body := List (Op LockName Call)

namespace Body

/-- The steps of a call. -/
def call (c : Call) : Body :=
  [.enter c, .leave c]

/-- `register_control_plane` -/
def registerControlPlane : Body :=
  .lock .controlPlanesLock .wr :: call .addControlPlane ++
    [.unlock .controlPlanesLock]

/-- `deregister_control_plane`, by the outcomes of its two tests. -/
def deregisterControlPlane (found foundAgain : Bool) : Body :=
  .lock .controlPlanesLock .wr ::
      (if found then call .removeControlPlane else []) ++
    [.unlock .controlPlanesLock, .lock .assignmentsLock .wr] ++
      (if foundAgain then call .removeAssignee else []) ++
    [.unlock .assignmentsLock]

/-- `update_mmm_poll`, and the broadcasts of the demuxers: the planes are read. -/
def readControlPlanes : Body :=
  [.lock .controlPlanesLock .rd, .unlock .controlPlanesLock]

/-- What the muxer and the demuxers do under both locks. -/
def underReadLocks (calls : Body) : Body :=
  .lock .controlPlanesLock .rd :: .lock .assignmentsLock .rd :: calls ++
    [.unlock .assignmentsLock, .unlock .controlPlanesLock]

/-- `process_message` of the muxer on an addition or a deletion of a local EID;
a message from no registered plane makes no call. -/
def updateAssignments (change : Option Call) : Body :=
  underReadLocks (change.elim [] call)

/-- `process_message` of the map message demuxer and `process_ipv4_datagram` of
the control packet demuxer. -/
def demux (broadcast : Bool) : Body :=
  underReadLocks (call .sort) ++ if broadcast then readControlPlanes else []

end Body

/-- The bodies each thread runs. -/
def bodies : ThreadName → List Body
  | .registeringServer =>
      [Body.registerControlPlane, Body.deregisterControlPlane false false,
        Body.deregisterControlPlane false true, Body.deregisterControlPlane true false,
        Body.deregisterControlPlane true true]
  | .mapMessagesMuxer =>
      [Body.readControlPlanes, Body.updateAssignments none,
        Body.updateAssignments (some .addAssignment),
        Body.updateAssignments (some .removeAssignment)]
  | .mapMessagesDemuxer => [Body.demux false, Body.demux true]
  | .controlPacketsDemuxer => [Body.demux false, Body.demux true]

/-- The threads with what they hold and where they are. -/
abbrev Threads := RwLock.State ThreadName LockName Call

/-- A thread begins a body or takes a step. -/
abbrev ThreadEvent := RwLock.Event ThreadName LockName Call

/-- The calls whose contracts ask for a write lock on the assignments. -/
def Call.ChangesAssignments (c : Call) : Prop :=
  c = .addAssignment ∨ c = .removeAssignment ∨ c = .removeAssignee

/-- No thread is inside `sort` while another one changes the assignments. -/
def SortUndisturbed (s : Threads) : Prop :=
  ∀ t u c, t ≠ u → (s.threads t).inside = some .sort →
    (s.threads u).inside = some c → ¬ c.ChangesAssignments

/-- The muxer has an addition or a removal of an assignment before it. -/
def MuxerUpdates (s : Threads) : Prop :=
  .leave .addAssignment ∈ s.code .mapMessagesMuxer ∨
    .leave .removeAssignment ∈ s.code .mapMessagesMuxer

/-- The read lock that the muxer takes for an addition or a removal is as good as
a write lock: it takes it while no other thread holds the lock, and as long as it
holds it no other thread takes it. -/
def LocksAlone (s : Threads) : ThreadEvent → Prop
  | .advance t =>
      ∀ m rest, s.code t = .lock .assignmentsLock m :: rest → MuxerUpdates s →
        ∀ u, u ≠ t → t = .mapMessagesMuxer ∨ u = .mapMessagesMuxer →
          (s.threads u).held .assignmentsLock = none
  | .start _ _ => True

/-! ## What the locks guarantee -/

/-- What a thread holds inside a call. -/
def Protects (t : ThreadName) (c : Call) (held : LockName → Option Mode) : Prop :=
  match c with
  | .addControlPlane | .removeControlPlane => held .controlPlanesLock = some .wr
  | .addAssignment | .removeAssignment =>
      t = .mapMessagesMuxer ∧ held .assignmentsLock = some .rd
  | .removeAssignee => held .assignmentsLock = some .wr
  | .sort => held .assignmentsLock = some .rd

instance (t : ThreadName) : ∀ c held, Decidable (Protects t c held)
  | .addControlPlane, held =>
      inferInstanceAs (Decidable (held .controlPlanesLock = some .wr))
  | .removeControlPlane, held =>
      inferInstanceAs (Decidable (held .controlPlanesLock = some .wr))
  | .addAssignment, held | .removeAssignment, held =>
      inferInstanceAs (Decidable (t = .mapMessagesMuxer ∧
        held .assignmentsLock = some .rd))
  | .removeAssignee, held =>
      inferInstanceAs (Decidable (held .assignmentsLock = some .wr))
  | .sort, held =>
      inferInstanceAs (Decidable (held .assignmentsLock = some .rd))

theorem bodies_guarded : ∀ t, ∀ body ∈ bodies t, Guarded (Protects t) .idle body := by
  decide

/-- No thread is inside `sort` while another one removes the assignments of a
plane, in any interleaving. -/
theorem sort_excludes_removeAssignee {events : List ThreadEvent} {s : Threads}
    (hrun : run (RwLock.step bodies) RwLock.State.init events = some s) {t u : ThreadName}
    (htu : t ≠ u) (hsort : (s.threads t).inside = some .sort) :
    (s.threads u).inside ≠ some .removeAssignee := by
  intro hremove
  have hguarded : s.AllGuarded Protects :=
    run_invariant (fun h _ hstep => RwLock.State.AllGuarded.step bodies_guarded h hstep)
      allGuarded_init (along_true _ _) hrun
  have hexclusive : s.Exclusive :=
    run_invariant (fun h _ hstep => RwLock.State.Exclusive.step h hstep) exclusive_init
      (along_true _ _) hrun
  have hread : (s.threads t).held .assignmentsLock = some .rd :=
    (hguarded t).holds hsort
  have hwrite : (s.threads u).held .assignmentsLock = some .wr :=
    (hguarded u).holds hremove
  rw [hexclusive u t _ htu.symm hwrite] at hread
  cases hread

/-! ## When the muxer locks alone -/

/-- What holds of every state when the muxer locks alone. -/
structure MuxerAlone (s : Threads) : Prop where
  guarded : s.AllGuarded Protects
  exclusive : s.Exclusive
  alone : (s.threads .mapMessagesMuxer).held .assignmentsLock ≠ none →
    MuxerUpdates s → ∀ u, u ≠ .mapMessagesMuxer →
      (s.threads u).held .assignmentsLock = none

namespace MuxerAlone

variable {s s' : Threads}

theorem init : MuxerAlone RwLock.State.init :=
  ⟨allGuarded_init, exclusive_init, fun hheld => absurd rfl hheld⟩

/-- A thread that begins a body holds nothing. -/
theorem alone_of_start (h : MuxerAlone s) {t : ThreadName} {body : Body}
    (hfree : s.code t = [])
    (hheld : (s.threads .mapMessagesMuxer).held .assignmentsLock ≠ none)
    (hupdates : MuxerUpdates { s with code := Function.update s.code t body }) :
    ∀ u, u ≠ .mapMessagesMuxer → (s.threads u).held .assignmentsLock = none := by
  have ht : .mapMessagesMuxer ≠ t := by
    rintro rfl
    exact hheld (h.guarded.held_eq_none hfree _)
  rw [MuxerUpdates] at hupdates
  dsimp only at hupdates
  rw [Function.update_of_ne ht] at hupdates
  exact h.alone hheld hupdates

/-- The step of the muxer that takes the lock finds it free; no other step makes
another thread hold it. -/
theorem alone_of_advance (h : MuxerAlone s) {t : ThreadName}
    {op : Op LockName Call} {rest : Body} (hcode : s.code t = op :: rest)
    (halone : LocksAlone s (.advance t)) {after : Threads}
    (hafter : after =
      { threads := Function.update s.threads t ((s.threads t).after op)
        code := Function.update s.code t rest })
    (hheld : (after.threads .mapMessagesMuxer).held .assignmentsLock ≠ none)
    (hupdates : MuxerUpdates after) {u : ThreadName} (hu : u ≠ .mapMessagesMuxer) :
    (after.threads u).held .assignmentsLock = none := by
  subst hafter
  rw [MuxerUpdates] at hupdates
  dsimp only at hheld hupdates ⊢
  by_cases ht : t = .mapMessagesMuxer
  · subst ht
    rw [Function.update_of_ne hu]
    rw [Function.update_self] at hheld hupdates
    have hbefore : MuxerUpdates s := by
      rw [MuxerUpdates, hcode]
      exact hupdates.imp (List.mem_cons_of_mem _) (List.mem_cons_of_mem _)
    obtain ⟨m, hm⟩ := Option.ne_none_iff_exists'.mp hheld
    rcases held_after hm with hold | rfl
    · exact h.alone (by rw [hold]; exact Option.some_ne_none m) hbefore u hu
    · exact halone m rest hcode hbefore u hu (Or.inl rfl)
  · rw [Function.update_of_ne (Ne.symm ht)] at hheld hupdates
    have hnone := h.alone hheld hupdates
    by_cases hut : u = t
    · subst hut
      rw [Function.update_self]
      by_contra hsome
      obtain ⟨m, hm⟩ := Option.ne_none_iff_exists'.mp hsome
      rcases held_after hm with hold | rfl
      · rw [hnone u hu] at hold
        cases hold
      · exact hheld (halone m rest hcode hupdates _ (Ne.symm ht) (Or.inr rfl))
    · rw [Function.update_of_ne hut]
      exact hnone u hu

theorem step (h : MuxerAlone s) {e : ThreadEvent} (halone : LocksAlone s e)
    (hstep : RwLock.step bodies s e = some s') : MuxerAlone s' := by
  refine ⟨h.guarded.step bodies_guarded hstep, h.exclusive.step hstep, ?_⟩
  cases e with
  | start t body =>
      obtain ⟨hfree, -, rfl⟩ := step_start_cases hstep
      exact fun hheld hupdates => h.alone_of_start hfree hheld hupdates
  | advance t =>
      obtain ⟨op, rest, hcode, -, hs'⟩ := step_advance_cases hstep
      exact fun hheld hupdates u hu =>
        h.alone_of_advance hcode halone hs' hheld hupdates hu

/-- Inside an addition or a removal the muxer holds the lock alone. -/
theorem held_eq_none (h : MuxerAlone s) {t u : ThreadName} {c : Call}
    (hc : c = .addAssignment ∨ c = .removeAssignment)
    (hinside : (s.threads u).inside = some c) (htu : t ≠ u) :
    (s.threads t).held .assignmentsLock = none := by
  have hprotects : u = .mapMessagesMuxer ∧
      (s.threads u).held .assignmentsLock = some .rd := by
    have hholds := (h.guarded u).holds hinside
    rcases hc with rfl | rfl
    · exact hholds
    · exact hholds
  have hleave := (h.guarded u).leave_mem hinside
  obtain ⟨rfl, hheld⟩ := hprotects
  refine h.alone (by rw [hheld]; exact Option.some_ne_none _) ?_ t htu
  rcases hc with rfl | rfl
  · exact Or.inl hleave
  · exact Or.inr hleave

theorem sortUndisturbed (h : MuxerAlone s) : SortUndisturbed s := by
  intro t u c htu hsort hinside hchanges
  have hread : (s.threads t).held .assignmentsLock = some .rd :=
    (h.guarded t).holds hsort
  have hnone : (s.threads t).held .assignmentsLock = none := by
    rcases hchanges with rfl | rfl | rfl
    · exact h.held_eq_none (Or.inl rfl) hinside htu
    · exact h.held_eq_none (Or.inr rfl) hinside htu
    · exact h.exclusive u t _ htu.symm ((h.guarded u).holds hinside)
  rw [hnone] at hread
  cases hread

end MuxerAlone

/-- In every interleaving in which the muxer holds its read lock alone whenever it
adds or removes an assignment, no thread is ever inside `sort` while another one
changes the assignments. -/
theorem sortUndisturbed_of_locksAlone (events : List ThreadEvent)
    (halone : Along (RwLock.step bodies) LocksAlone RwLock.State.init events)
    (s : Threads) (hrun : run (RwLock.step bodies) RwLock.State.init events = some s) :
    SortUndisturbed s :=
  (run_invariant (fun h hstep => MuxerAlone.step h hstep) MuxerAlone.init halone
    hrun).sortUndisturbed

/-- The muxer up to the point where it enters an addition. -/
def muxerAddition : List ThreadEvent :=
  [.start .mapMessagesMuxer (Body.updateAssignments (some .addAssignment)),
    .advance .mapMessagesMuxer, .advance .mapMessagesMuxer, .advance .mapMessagesMuxer]

/-- The muxer is inside an addition, alone. -/
theorem sortUndisturbed_of_locksAlone_addition :
    ∃ s, run (RwLock.step bodies) RwLock.State.init muxerAddition = some s ∧
      (s.threads .mapMessagesMuxer).inside = some .addAssignment ∧
      SortUndisturbed s := by
  refine ⟨_, rfl, rfl, sortUndisturbed_of_locksAlone muxerAddition ?_ _ rfl⟩
  refine ⟨trivial, fun s₁ h₁ => ?_⟩
  obtain rfl := Option.some_inj.mp h₁
  refine ⟨fun m rest hcode => (by cases hcode), fun s₂ h₂ => ?_⟩
  obtain rfl := Option.some_inj.mp h₂
  refine ⟨fun m rest hcode _ u hu _ => ?_, fun s₃ h₃ => ?_⟩
  · -- it takes the lock while no other thread has begun
    cases u <;> rfl
  obtain rfl := Option.some_inj.mp h₃
  exact ⟨fun m rest hcode => (by cases hcode), fun _ _ => trivial⟩

/-- The control packet demuxer is inside `sort` when the muxer enters an
addition. -/
theorem not_sortUndisturbed :
    ¬ ∀ events s, run (RwLock.step bodies) RwLock.State.init events = some s →
      SortUndisturbed s := by
  intro h
  refine h
    ([.start .controlPacketsDemuxer (Body.demux false), .advance .controlPacketsDemuxer,
      .advance .controlPacketsDemuxer, .advance .controlPacketsDemuxer] ++
        muxerAddition) _ rfl .controlPacketsDemuxer .mapMessagesMuxer
    .addAssignment ?_ rfl rfl (Or.inl rfl)
  exact fun hsame => by cases hsame

end HyLisp.Hypervisor
