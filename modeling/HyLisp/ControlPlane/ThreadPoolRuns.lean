import HyLisp.ControlPlane.ThreadPoolSafety
import Mathlib

/-!
# Runs of the thread pool

What the invariants come to: no job is lost, taken twice or taken out of order, nobody
sleeps while there is something to be done, a call of `thr_pool_wait` returns when every
job has been left, and a pool is destroyed unless a job was in its queue while others
were running.
-/

namespace HyLisp.ControlPlane.ThrPool

open Transition ThreadTable

variable {T C J : Type*} [DecidableEq T]

/-! ## What the functions of a worker leave alone -/

/-- The queue, the flag of the destroyer and the bound of the pool are the same. -/
structure Frame (s s' : ThrPool T C J) : Prop where
  head : s'.poolHead = s.poolHead
  destroy : s'.poolDestroy = s.poolDestroy
  maximum : s'.poolMaximum = s.poolMaximum

variable {s s' s₀ : ThrPool T C J} {minThreads maxThreads linger : UInt32} {t : T}
  {created : Option T} {job : J}

omit [DecidableEq T] in
/-- What `notify_waiters` does to the threads it wakes up is all it does, but for the
flag. -/
theorem notify_cases (s : ThrPool T C J) :
    (if s.poolWait then s.notifyWaiters else s) = s ∨
      (s.poolHead = [] ∧ s.poolActive = [] ∧
        (if s.poolWait then s.notifyWaiters else s) =
          broadcastWaitcv { s with poolWait := false }) := by
  unfold notifyWaiters
  by_cases hwait : s.poolWait = true
  · rw [if_pos hwait]
    by_cases hleft : s.poolHead = [] ∧ s.poolActive = []
    · exact Or.inr ⟨hleft.1, hleft.2, if_pos hleft⟩
    · exact Or.inl (if_neg hleft)
  · exact Or.inl (if_neg hwait)

omit [DecidableEq T] in
theorem frame_notify (s : ThrPool T C J) :
    Frame s (if s.poolWait then s.notifyWaiters else s) := by
  rcases notify_cases s with heq | ⟨-, -, heq⟩
  · rw [heq]
    exact ⟨rfl, rfl, rfl⟩
  · rw [heq]
    exact ⟨rfl, rfl, rfl⟩

theorem frame_createWorker (s : ThrPool T C J) (created : Option T) :
    Frame s (s.createWorker created) := by
  cases created <;> exact ⟨rfl, rfl, rfl⟩

theorem frame_workerCleanup (s : ThrPool T C J) (t : T) (created : Option T) :
    Frame s (s.workerCleanup t created) := by
  cases hdestroy : s.poolDestroy with
  | true =>
      rw [workerCleanup_of_destroy hdestroy]
      split <;> exact ⟨rfl, rfl, rfl⟩
  | false =>
      rw [workerCleanup_of_live hdestroy]
      split
      · have hframe := frame_createWorker (s.removeWorker t) created
        exact ⟨hframe.head, hframe.destroy, hframe.maximum⟩
      · exact ⟨rfl, rfl, rfl⟩

theorem frame_jobCleanup (s : ThrPool T C J) (t : T) (job : J) :
    Frame s (s.jobCleanup t job) := by
  have hframe := frame_notify (s.leaveJob t job)
  exact ⟨hframe.head, hframe.destroy, hframe.maximum⟩

/-! ## The bound of the pool -/

theorem Move.poolMaximum_eq (h : Move t created s s') : s'.poolMaximum = s.poolMaximum := by
  cases h with
  | notify => exact (frame_notify s).maximum
  | jobCleanup ht => exact (frame_jobCleanup s t _).maximum
  | workerCleanup ht hnew hempty => exact (frame_workerCleanup s t created).maximum
  | _ => rfl

/-- What a call of `thr_pool_queue` leaves alone. -/
theorem frame_thrPoolQueue (s : ThrPool T C J) (job : J) (unblocked : List T)
    (created : Option T) :
    Frame (s.appendJob job) (s.thrPoolQueue job unblocked created) := by
  rcases thrPoolQueue_cases s job unblocked created with ⟨-, heq⟩ | ⟨-, -, heq⟩ | ⟨-, -, heq⟩
  · rw [heq]
    exact ⟨rfl, rfl, rfl⟩
  · rw [heq]
    exact frame_createWorker _ _
  · rw [heq]
    exact ⟨rfl, rfl, rfl⟩

variable [DecidableEq C]

omit [DecidableEq T] in
theorem frame_thrPoolWait (s : ThrPool T C J) (c : C) : Frame s (s.thrPoolWait c) := by
  unfold thrPoolWait
  split <;> exact ⟨rfl, rfl, rfl⟩

omit [DecidableEq T] [DecidableEq C] in
theorem frame_destroyBusy (s : ThrPool T C J) : Frame s s.destroyBusy := by
  unfold destroyBusy
  split <;> exact ⟨rfl, rfl, rfl⟩

omit [DecidableEq T] [DecidableEq C] in
theorem frame_destroyActive (s : ThrPool T C J) : Frame s s.destroyActive := by
  unfold destroyActive
  split
  · exact ⟨rfl, rfl, rfl⟩
  · exact frame_destroyBusy s

theorem Effect.poolMaximum_eq {e : Event T C J} (h : Effect s e s') :
    s'.poolMaximum = s.poolMaximum := by
  cases h with
  | queue hsignal => exact (frame_thrPoolQueue s _ _ _).maximum
  | work hmoves =>
      induction hmoves with
      | refl => rfl
      | tail _ hmove ih => exact hmove.poolMaximum_eq.trans ih
  | exit ht =>
      exact (frame_workerCleanup _ _ _).maximum.trans (frame_jobCleanup s _ _).maximum
  | wait c => exact (frame_thrPoolWait s c).maximum
  | destroy hd => exact (frame_destroyActive _).maximum
  | destroyActive hd => exact (frame_destroyActive s).maximum
  | destroyBusy hd => exact (frame_destroyBusy s).maximum
  | _ => rfl

theorem run_poolMaximum {es : List (Event T C J)} (h : run step s es = some s') :
    s'.poolMaximum = s.poolMaximum := by
  have hkeep : ∀ {u : ThrPool T C J} {e u'}, u.poolMaximum = s.poolMaximum → True →
      step u e = some u' → u'.poolMaximum = s.poolMaximum := fun hu _ hstep =>
    (step_effect hstep).2.2.poolMaximum_eq.trans hu
  exact run_invariant hkeep rfl (along_true s es) h

/-! ## The counters -/

theorem toInt32_toInt_eq (n : UInt32) :
    n.toInt32.toInt = if 2 * n.toNat < 2 ^ 32 then (n.toNat : ℤ) else n.toNat - 2 ^ 32 := by
  have hint : n.toInt32.toInt = n.toBitVec.toInt := rfl
  rw [hint, BitVec.toInt_eq_toNat_cond]
  rfl

omit [DecidableEq T] [DecidableEq C] in
theorem poolMaximum_create (h : thrPoolCreate T C J minThreads maxThreads linger = some s₀) :
    s₀.poolMaximum = maxThreads.toInt32.toInt := by
  unfold thrPoolCreate at h
  rw [Option.ite_none_left_eq_some, Option.some_inj] at h
  rw [← h.2]

omit [DecidableEq T] in
theorem eq_empty_of_count {table : AList fun _ : T => Worker J}
    (h : count (fun _ => true) table = 0) : table = ∅ := by
  apply AList.ext
  rw [AList.empty_entries, ← List.length_eq_zero_iff, ← List.countP_true]
  exact h

/-- At any time the counters and the list of active workers tell what the threads do,
there are no more of them than the pool may have, and none is left when it is freed. -/
theorem counters_tell_threads (es : List (Event T C J))
    (hcreate : thrPoolCreate T C J minThreads maxThreads linger = some s₀)
    (hrun : run step s₀ es = some s) :
    s.poolNthreads = count (fun _ => true) s.workers ∧
      s.poolNthreads ≤ maxThreads.toNat ∧
      s.poolIdle = count Worker.isIdle s.workers ∧
      s.poolActive.Nodup ∧
      (∀ t, t ∈ s.poolActive ↔ ∃ job, s.workers.lookup t = some (.running job)) ∧
      (s.destroyer = .returned → s.workers = ∅) := by
  have hinv := (Inv.create hcreate).run hrun
  refine ⟨hinv.nthreads, ?_, hinv.idle, hinv.active_nodup, hinv.active_iff, ?_⟩
  · have hmax := run_poolMaximum hrun
    have hle := hinv.le_maximum
    have hint := toInt32_toInt_eq maxThreads
    rw [poolMaximum_create hcreate] at hmax
    split at hint <;> omega
  · intro hd
    have hn := hinv.nthreads
    rw [hinv.returned hd] at hn
    exact eq_empty_of_count (Int.ofNat_eq_zero.mp hn.symm)

theorem counters_tell_threads_two : ∃ s₀ s : ThrPool ℕ ℕ ℕ,
    thrPoolCreate ℕ ℕ ℕ 1 2 0 = some s₀ ∧
      run step s₀ [.queue 7 [] (some 0), .queue 8 [] (some 1), .acquire 0 none,
        .acquire 1 none, .finish 1 none] = some s ∧
      s.poolNthreads = 1 ∧ (s.destroyer = .returned → s.workers = ∅) := by
  have hcreate : thrPoolCreate ℕ ℕ ℕ 1 2 0 = some _ := rfl
  refine ⟨_, _, hcreate, rfl, rfl, ?_⟩
  exact (counters_tell_threads [.queue 7 [] (some 0), .queue 8 [] (some 1),
    .acquire 0 none, .acquire 1 none, .finish 1 none] hcreate rfl).2.2.2.2.2

/-! ## The jobs -/

/-- Jobs are taken in the order in which they were queued, each of them once, and those
that were taken have been left or are running. -/
theorem jobs_in_order (es : List (Event T C J))
    (hcreate : thrPoolCreate T C J minThreads maxThreads linger = some s₀)
    (hrun : run step s₀ es = some s) :
    s.started ++ s.poolHead = s.submitted ∧
      ∀ q, s.started.countP q = s.finished.countP q + count (Worker.runs q) s.workers := by
  have hinv := (Inv.create hcreate).run hrun
  exact ⟨hinv.fifo, hinv.done⟩

theorem jobs_in_order_two : ∃ s₀ s : ThrPool ℕ ℕ ℕ,
    thrPoolCreate ℕ ℕ ℕ 1 1 0 = some s₀ ∧
      run step s₀ [.queue 7 [] (some 0), .queue 8 [] none, .acquire 0 none] = some s ∧
      s.started = [7] ∧ s.started ++ s.poolHead = s.submitted := by
  have hcreate : thrPoolCreate ℕ ℕ ℕ 1 1 0 = some _ := rfl
  refine ⟨_, _, hcreate, rfl, rfl, ?_⟩
  exact (jobs_in_order [.queue 7 [] (some 0), .queue 8 [] none, .acquire 0 none] hcreate
    rfl).1

/-- With an empty queue and no worker in a job, every job has been left. -/
theorem Inv.perm_finished (h : s.Inv) (hhead : s.poolHead = []) (hactive : s.poolActive = []) :
    s.submitted.Perm s.finished := by
  classical
  rw [List.perm_iff_count]
  intro job
  have hnone : count (Worker.runs (· == job)) s.workers = 0 := by
    rw [count_eq_zero_iff]
    intro t w ht
    cases w with
    | running other =>
        have hmem := (h.active_iff t).mpr ⟨other, ht⟩
        rw [hactive] at hmem
        cases hmem
    | _ => rfl
  have hdone := h.done (· == job)
  rw [hnone, Nat.add_zero] at hdone
  rw [← h.fifo, hhead, List.append_nil]
  exact hdone

/-- A call of `thr_pool_wait` that returns does so when all jobs queued up to then have
been left. -/
theorem wait_returns (es : List (Event T C J)) {e : Event T C J} {c : C}
    (hcreate : thrPoolCreate T C J minThreads maxThreads linger = some s₀)
    (hrun : run step s₀ es = some s) (he : e = .wait c ∨ e = .acquireCaller c)
    (hstep : s.step e = some s') (hreturn : c ∉ s'.callers) :
    s'.submitted.Perm s'.finished := by
  have hinv := (Inv.create hcreate).run hrun
  have hwait : s.thrPoolWait c = s' := by
    obtain ⟨-, -, hlive⟩ := step_eq_some.mp hstep
    rcases he with rfl | rfl
    · rw [stepLive, Option.ite_none_left_eq_some, Option.some_inj] at hlive
      exact hlive.2
    · rw [stepLive, Option.ite_none_right_eq_some, Option.some_inj] at hlive
      exact hlive.2
  rw [← hwait] at hreturn ⊢
  unfold thrPoolWait at hreturn ⊢
  by_cases hleft : s.poolHead ≠ [] ∨ s.poolActive ≠ []
  · rw [if_pos hleft] at hreturn
    exact absurd ((AList.mem_insert _).mpr (Or.inl rfl)) hreturn
  · rw [if_neg hleft]
    push Not at hleft
    exact hinv.perm_finished hleft.1 hleft.2

theorem wait_returns_one : ∃ s₀ s s' : ThrPool ℕ ℕ ℕ,
    thrPoolCreate ℕ ℕ ℕ 1 1 0 = some s₀ ∧
      run step s₀ [.queue 7 [] (some 0), .wait 5, .acquire 0 none, .finish 0 none] =
        some s ∧
      s.step (.acquireCaller 5) = some s' ∧ s'.submitted.Perm s'.finished := by
  have hcreate : thrPoolCreate ℕ ℕ ℕ 1 1 0 = some _ := rfl
  refine ⟨_, _, _, hcreate, rfl, rfl, ?_⟩
  exact wait_returns (c := 5) (e := .acquireCaller 5) [.queue 7 [] (some 0), .wait 5,
    .acquire 0 none, .finish 0 none] hcreate rfl (Or.inr rfl) rfl (by decide)

/-! ## Threads that sleep -/

/-- A worker is blocked only in a pool that is not being destroyed, and for each job in
the queue one has been woken up that has yet to look.  Who is blocked in `thr_pool_wait`
has set `POOL_WAIT`, and a job is in the queue or running. -/
theorem sleepers_have_reason (es : List (Event T C J))
    (hcreate : thrPoolCreate T C J minThreads maxThreads linger = some s₀)
    (hrun : run step s₀ es = some s) :
    (0 < count Worker.isBlocked s.workers →
      s.poolDestroy = false ∧ s.poolHead.length ≤ count Worker.isAwake s.workers) ∧
    ∀ c, s.callers.lookup c = some true →
      s.poolWait = true ∧ (s.poolHead ≠ [] ∨ s.poolActive ≠ []) := by
  have hinv := (Inv.create hcreate).run hrun
  exact ⟨hinv.woken, hinv.caller⟩

theorem sleepers_have_reason_one : ∃ s₀ s : ThrPool ℕ ℕ ℕ,
    thrPoolCreate ℕ ℕ ℕ 1 1 0 = some s₀ ∧
      run step s₀ [.queue 7 [] (some 0), .acquire 0 none, .queue 8 [] none, .wait 5] =
        some s ∧
      s.poolWait = true ∧ (s.poolHead ≠ [] ∨ s.poolActive ≠ []) := by
  have hcreate : thrPoolCreate ℕ ℕ ℕ 1 1 0 = some _ := rfl
  refine ⟨_, _, hcreate, rfl, ?_⟩
  exact (sleepers_have_reason [.queue 7 [] (some 0), .acquire 0 none, .queue 8 [] none,
    .wait 5] hcreate rfl).2 5 rfl

/-- The step would create a thread, and `pthread_create` fails. -/
def Event.fails : Event T C J → Bool
  | queue _ _ none | exit _ none => true
  | _ => false

/-- The pool has a worker for its jobs. -/
def Staffed (s : ThrPool T C J) : Prop :=
  s.poolDestroy = false → s.poolHead ≠ [] → 0 < s.poolNthreads

theorem Staffed.of_isMove (h : s.Staffed) (hinv : s.Inv) (hmove : Move t created s s') :
    s'.Staffed := by
  cases hmove with
  | notify =>
      rcases notify_cases s with heq | ⟨-, -, heq⟩
      · rw [heq]
        exact h
      · rw [heq]
        exact h
  | takeJob ht hlive hhead =>
      intro _ _
      exact hinv.nthreads_pos ht
  | jobCleanup ht =>
      intro _ _
      exact (hinv.jobCleanup ht).nthreads_pos (lookup_jobCleanup t _)
  | workerCleanup ht hnew hempty =>
      have hframe := frame_workerCleanup s t created
      intro hlive hhead
      rw [hframe.head] at hhead
      rw [hframe.destroy] at hlive
      rcases hempty with hempty | hdestroy
      · exact absurd hempty hhead
      · rw [hlive] at hdestroy
        cases hdestroy
  | _ => exact h

omit [DecidableEq C] in
/-- A thread that is created for the jobs can be counted on. -/
theorem nthreads_createWorker (h : 0 ≤ s.poolNthreads) (hsome : created ≠ none) :
    0 < (s.createWorker created).poolNthreads := by
  cases created with
  | none => exact absurd rfl hsome
  | some t => exact Int.lt_add_one_of_le h

theorem Inv.nthreads_nonneg (h : s.Inv) : 0 ≤ s.poolNthreads := by
  rw [h.nthreads]
  exact Int.natCast_nonneg _

theorem Staffed.thrPoolQueue {unblocked : List T} (hinv : s.Inv)
    (hmax : 0 < s.poolMaximum) (hsome : created ≠ none) :
    (s.thrPoolQueue job unblocked created).Staffed := by
  intro _ _
  have hn := hinv.nthreads
  rcases thrPoolQueue_cases s job unblocked created with
    ⟨hidle, heq⟩ | ⟨-, -, heq⟩ | ⟨-, hfull, heq⟩
  · rw [heq]
    change 0 < s.poolNthreads
    have hi := hinv.idle
    have hle : count Worker.isIdle s.workers ≤ count (fun _ => true) s.workers :=
      count_le_of_imp fun _ _ => rfl
    omega
  · rw [heq]
    exact nthreads_createWorker (s := s.appendJob job) hinv.nthreads_nonneg hsome
  · rw [heq]
    change 0 < s.poolNthreads
    omega

theorem Staffed.workerCleanup (hinv : s.Inv) (ht : s.workers.lookup t = some .ready)
    (hmax : 0 < s.poolMaximum) (hsome : created ≠ none) :
    (s.workerCleanup t created).Staffed := by
  have hframe := frame_workerCleanup s t created
  have hpos := hinv.nthreads_pos ht
  intro hlive hhead
  rw [hframe.head] at hhead
  rw [hframe.destroy] at hlive
  rw [workerCleanup_of_live hlive]
  by_cases hlt : s.poolNthreads - 1 < s.poolMaximum
  · rw [if_pos ⟨hhead, hlt⟩]
    apply nthreads_createWorker _ hsome
    change 0 ≤ s.poolNthreads - 1
    omega
  · rw [if_neg fun hboth => hlt hboth.2]
    change 0 < s.poolNthreads - 1
    omega

theorem Staffed.step {e : Event T C J} (h : s.Staffed) (hinv : s.Inv)
    (hmax : 0 < s.poolMaximum) (hsome : e.fails = false) (hstep : s.step e = some s') :
    s'.Staffed := by
  obtain ⟨hnr, hnew, heffect⟩ := step_effect hstep
  clear hstep
  cases heffect with
  | queue hsignal =>
      refine Staffed.thrPoolQueue hinv hmax fun hnone => ?_
      rw [hnone] at hsome
      cases hsome
  | work hmoves =>
      have hboth : s'.Inv ∧ s'.Staffed := by
        induction hmoves with
        | refl => exact ⟨hinv, h⟩
        | tail _ hmove ih => exact ⟨ih.1.of_isMove hmove, ih.2.of_isMove ih.1 hmove⟩
      exact hboth.2
  | @exit t created job ht =>
      refine Staffed.workerCleanup (hinv.jobCleanup ht) (lookup_jobCleanup _ _) ?_ fun hnone => ?_
      · rw [(frame_jobCleanup s t job).maximum]
        exact hmax
      · rw [hnone] at hsome
        cases hsome
  | wait c =>
      have hframe := frame_thrPoolWait s c
      have hn : (s.thrPoolWait c).poolNthreads = s.poolNthreads := by
        unfold ThrPool.thrPoolWait
        split <;> rfl
      intro hlive hhead
      rw [hn]
      exact h (hframe.destroy ▸ hlive) (hframe.head ▸ hhead)
  | destroy hd =>
      intro hlive
      rw [ThrPool.thrPoolDestroy, (frame_destroyActive _).destroy] at hlive
      cases hlive
  | destroyActive hd =>
      intro hlive
      rw [(frame_destroyActive s).destroy, hinv.destroying.mp (by rw [hd]; nofun)] at hlive
      cases hlive
  | destroyBusy hd =>
      intro hlive
      rw [(frame_destroyBusy s).destroy, hinv.destroying.mp (by rw [hd]; nofun)] at hlive
      cases hlive
  | _ => exact h

omit [DecidableEq T] [DecidableEq C] in
theorem maxThreads_pos (h : thrPoolCreate T C J minThreads maxThreads linger = some s₀) :
    0 < maxThreads.toNat := by
  unfold thrPoolCreate at h
  rw [Option.ite_none_left_eq_some, not_or] at h
  have hone : ¬maxThreads.toNat < 1 := fun hlt => h.1.2 (UInt32.lt_iff_toNat_lt.mpr hlt)
  omega

omit [DecidableEq T] [DecidableEq C] in
theorem poolHead_create (h : thrPoolCreate T C J minThreads maxThreads linger = some s₀) :
    s₀.poolHead = [] := by
  unfold thrPoolCreate at h
  rw [Option.ite_none_left_eq_some, Option.some_inj] at h
  rw [← h.2]

theorem staffed_run {es : List (Event T C J)}
    (hcreate : thrPoolCreate T C J minThreads maxThreads linger = some s₀)
    (hmax : maxThreads.toNat < 2 ^ 31) (hcreated : ∀ e ∈ es, e.fails = false)
    (hrun : run step s₀ es = some s) : s.Staffed := by
  have hbound : s₀.poolMaximum = maxThreads.toNat := by
    rw [poolMaximum_create hcreate, toInt32_toInt_eq, if_pos (by omega)]
  have hpos := maxThreads_pos hcreate
  have hall : s.Inv ∧ s.Staffed ∧ 0 < s.poolMaximum := by
    have hkeep : ∀ {u : ThrPool T C J} {e u'}, u.Inv ∧ u.Staffed ∧ 0 < u.poolMaximum →
        e.fails = false → step u e = some u' → u'.Inv ∧ u'.Staffed ∧ 0 < u'.poolMaximum := by
      rintro u e u' ⟨hinv, hstaffed, hm⟩ he hstep
      refine ⟨hinv.step hstep, hstaffed.step hinv hm he hstep, ?_⟩
      rw [(step_effect hstep).2.2.poolMaximum_eq]
      exact hm
    have hinit : s₀.Inv ∧ s₀.Staffed ∧ 0 < s₀.poolMaximum := by
      refine ⟨.create hcreate, fun _ hhead => absurd (poolHead_create hcreate) hhead, ?_⟩
      rw [hbound]
      omega
    exact run_invariant hkeep hinit (along_of_forall hcreated s₀) hrun
  exact hall.2.1

/-- No worker can go on. -/
def Quiet (s : ThrPool T C J) : Prop :=
  ∀ t, s.step (.acquire t none) = none ∧ s.step (.finish t none) = none

/-- A worker that is not blocked can go on. -/
theorem Quiet.blocked {w : Worker J} (h : s.Quiet) (hnr : s.destroyer ≠ .returned)
    (ht : s.workers.lookup t = some w) : w.isBlocked = true := by
  have hnew : ∀ u ∈ (none : Option T), u ∉ s.workers := nofun
  have hgo : ∀ {e : Event T C J}, e.created = none → s.step e = none →
      ∀ u, s.stepLive e ≠ some u := by
    intro e he hnone u hu
    rw [step_eq_some.mpr ⟨hnr, he ▸ hnew, hu⟩] at hnone
    cases hnone
  cases w with
  | blocked timed => rfl
  | running job =>
      obtain ⟨u, hu, -⟩ := exists_finish ht hnew
      exact absurd (stepLive_finish.mpr ⟨job, ht, hu⟩) (hgo rfl (h t).2 u)
  | ready =>
      obtain ⟨u, hu, -⟩ := exists_resume ht (Or.inl rfl) hnew
      exact absurd hu (hgo rfl (h t).1 u)
  | awake timedout =>
      obtain ⟨u, hu, -⟩ := exists_resume ht (Or.inr rfl) hnew
      exact absurd hu (hgo rfl (h t).1 u)

/-- As long as threads can be created and the pool is not being destroyed, the workers
stop only when every job has been left, and then nobody is blocked in `thr_pool_wait`. -/
theorem quiet_is_done (es : List (Event T C J))
    (hcreate : thrPoolCreate T C J minThreads maxThreads linger = some s₀)
    (hmax : maxThreads.toNat < 2 ^ 31) (hcreated : ∀ e ∈ es, e.fails = false)
    (hrun : run step s₀ es = some s) (hlive : s.destroyer = .none) (hquiet : s.Quiet) :
    s.poolHead = [] ∧ s.submitted.Perm s.finished ∧
      ∀ c, s.callers.lookup c ≠ some true := by
  have hinv := (Inv.create hcreate).run hrun
  have hstaffed := staffed_run hcreate hmax hcreated hrun
  have hblocked : ∀ t w, s.workers.lookup t = some w → w.isBlocked = true :=
    fun t w ht => hquiet.blocked (by rw [hlive]; nofun) ht
  have hactive : s.poolActive = [] := by
    apply List.eq_nil_iff_forall_not_mem.mpr
    intro t ht
    obtain ⟨job, hjob⟩ := (hinv.active_iff t).mp ht
    cases hblocked t _ hjob
  have hawake : count Worker.isAwake s.workers = 0 := by
    rw [count_eq_zero_iff]
    intro t w ht
    cases w <;> first | rfl | cases hblocked t _ ht
  have hhead : s.poolHead = [] := by
    by_contra hne
    have hdestroy : s.poolDestroy = false := by
      by_contra hd
      exact hinv.destroying.mpr (Bool.not_eq_false _ ▸ hd) hlive
    -- a worker is there, it is blocked, and none is awake for the job
    have hpos := hstaffed hdestroy hne
    rw [hinv.nthreads, Int.natCast_pos] at hpos
    obtain ⟨t, w, ht, -⟩ := count_pos_iff.mp hpos
    obtain ⟨-, hle⟩ := hinv.woken (count_pos_iff.mpr ⟨t, w, ht, hblocked t w ht⟩)
    rw [hawake, Nat.le_zero, List.length_eq_zero_iff] at hle
    exact hne hle
  refine ⟨hhead, hinv.perm_finished hhead hactive, fun c hc => ?_⟩
  rcases (hinv.caller c hc).2 with hne | hne
  · exact hne hhead
  · exact hne hactive

theorem quiet_of_blocked {s : ThrPool ℕ ℕ ℕ} (hd : s.destroyer = .none)
    (h : s.workers = AList.singleton 0 (.blocked false)) : s.Quiet := by
  intro t
  by_cases ht : t = 0
  · subst ht
    simp [step, hd, stepLive, resume, h, Event.created, AList.lookup, AList.singleton]
  · have hnone : s.workers.lookup t = none := by
      rw [h, AList.lookup_eq_none, AList.mem_keys, AList.keys_singleton, List.mem_singleton]
      exact ht
    simp [step, hd, stepLive, resume, hnone, Event.created]

theorem quiet_is_done_one : ∃ s₀ s : ThrPool ℕ ℕ ℕ,
    thrPoolCreate ℕ ℕ ℕ 1 1 0 = some s₀ ∧
      run step s₀ [.queue 7 [] (some 0), .acquire 0 none, .finish 0 none] = some s ∧
      s.submitted.Perm s.finished := by
  have hcreate : thrPoolCreate ℕ ℕ ℕ 1 1 0 = some _ := rfl
  refine ⟨_, _, hcreate, rfl, ?_⟩
  exact (quiet_is_done [.queue 7 [] (some 0), .acquire 0 none, .finish 0 none] hcreate
    (by decide) (by decide) rfl rfl (quiet_of_blocked rfl rfl)).2.1

/-! ## The end of the pool -/

/-- The destroyer sleeps on `pool_waitcv` with a job in the queue that no worker takes any
more. -/
structure Stuck (s : ThrPool T C J) : Prop where
  destroy : s.poolDestroy = true
  asleep : s.destroyer = .waitcv true
  head : s.poolHead ≠ []

/-- Nothing is in the queue of a pool that is being destroyed. -/
structure Draining (s : ThrPool T C J) : Prop where
  destroy : s.poolDestroy = true
  head : s.poolHead = []

omit [DecidableEq C] in
/-- The last worker wakes up who waits on `pool_busycv`. -/
theorem Stuck.workerCleanup (h : s.Stuck) : (s.workerCleanup t created).Stuck := by
  have hframe := frame_workerCleanup s t created
  refine ⟨hframe.destroy.trans h.destroy, ?_, hframe.head ▸ h.head⟩
  rw [workerCleanup_of_destroy h.destroy]
  split
  · exact Destroyer.wakeBusycv_eq_waitcv.mpr h.asleep
  · exact h.asleep

omit [DecidableEq C] in
theorem Stuck.of_isMove (h : s.Stuck) (hmove : Move t created s s') : s'.Stuck := by
  have hnotify : ∀ u : ThrPool T C J, u.Stuck →
      Stuck (if u.poolWait then u.notifyWaiters else u) := by
    intro u hu
    rcases notify_cases u with heq | ⟨hempty, -, -⟩
    · rw [heq]
      exact hu
    · exact absurd hempty hu.head
  cases hmove with
  | notify => exact hnotify s h
  | jobCleanup ht => exact hnotify (s.leaveJob t _) ⟨h.destroy, h.asleep, h.head⟩
  | takeJob ht hlive hhead =>
      rw [h.destroy] at hlive
      cases hlive
  | block ht hlive hempty =>
      rw [h.destroy] at hlive
      cases hlive
  | workerCleanup ht hnew hempty => exact h.workerCleanup
  | _ => exact ⟨h.destroy, h.asleep, h.head⟩

/-- Only a wake-up without a signal gets the destroyer out of it. -/
theorem Stuck.step {e : Event T C J} (h : s.Stuck) (he : e ≠ .spuriousDestroyer)
    (hstep : s.step e = some s') : s'.Stuck := by
  obtain ⟨-, -, heffect⟩ := step_effect hstep
  clear hstep
  cases heffect with
  | @queue job unblocked created hsignal =>
      have hframe := frame_thrPoolQueue s job unblocked created
      refine ⟨hframe.destroy.trans h.destroy, ?_, ?_⟩
      · rcases thrPoolQueue_cases s job unblocked created with
          ⟨-, heq⟩ | ⟨-, -, heq⟩ | ⟨-, -, heq⟩
        · rw [heq]
          exact h.asleep
        · rw [heq]
          cases created <;> exact h.asleep
        · rw [heq]
          exact h.asleep
      · rw [hframe.head]
        exact List.append_ne_nil_of_right_ne_nil _ (List.cons_ne_nil _ _)
  | work hmoves =>
      induction hmoves with
      | refl => exact h
      | tail _ hmove ih => exact ih.of_isMove hmove
  | @exit t created job ht =>
      have hcleaned : Move t none s (s.jobCleanup t job) := .jobCleanup ht
      exact (h.of_isMove hcleaned).workerCleanup
  | wait c =>
      have hframe := frame_thrPoolWait s c
      refine ⟨hframe.destroy.trans h.destroy, ?_, hframe.head ▸ h.head⟩
      unfold thrPoolWait
      split <;> exact h.asleep
  | destroy hd =>
      rw [h.asleep] at hd
      cases hd
  | destroyActive hd =>
      rw [h.asleep] at hd
      cases hd
  | destroyBusy hd =>
      rw [h.asleep] at hd
      cases hd
  | wakeWaitcv hd => exact absurd rfl he
  | wakeBusycv hd => exact absurd rfl he
  | _ => exact ⟨h.destroy, h.asleep, h.head⟩

theorem step_destroy (h : s.step .destroy = some s') :
    s.destroyer = .none ∧ s.thrPoolDestroy = s' := by
  obtain ⟨-, -, hlive⟩ := step_eq_some.mp h
  rw [stepLive, Option.ite_none_right_eq_some, Option.some_inj] at hlive
  exact hlive

/-- A job in the queue while others are running keeps `thr_pool_destroy` from returning,
whatever the workers do. -/
theorem destroy_hangs {es : List (Event T C J)} (hhead : s.poolHead ≠ [])
    (hactive : s.poolActive ≠ []) (hsignals : ∀ e ∈ es, e ≠ .spuriousDestroyer)
    (hrun : run step s (.destroy :: es) = some s') : s'.Stuck := by
  obtain ⟨u, hu, hrest⟩ := run_cons_eq_some.mp hrun
  have hstuck : u.Stuck := by
    obtain ⟨-, rfl⟩ := step_destroy hu
    have hasleep : s.thrPoolDestroy = { (broadcastWorkcv { s with poolDestroy := true }) with
        poolWait := true, destroyer := .waitcv true } := if_pos hactive
    rw [hasleep]
    exact ⟨rfl, rfl, hhead⟩
  exact run_invariant (fun h he hstep => h.step he hstep) hstuck
    (along_of_forall hsignals u) hrest

omit [DecidableEq T] [DecidableEq C] in
theorem Draining.of_frame (h : s.Draining) (hframe : Frame s s') : s'.Draining :=
  ⟨hframe.destroy.trans h.destroy, hframe.head.trans h.head⟩

omit [DecidableEq C] in
theorem Draining.of_isMove (h : s.Draining) (hmove : Move t created s s') : s'.Draining := by
  cases hmove with
  | notify => exact h.of_frame (frame_notify s)
  | jobCleanup ht => exact h.of_frame (frame_jobCleanup s t _)
  | workerCleanup ht hnew hempty => exact h.of_frame (frame_workerCleanup s t created)
  | takeJob ht hlive hhead =>
      rw [h.head] at hhead
      cases hhead
  | _ => exact ⟨h.destroy, h.head⟩

/-- A step that queues a job. -/
def Event.queues : Event T C J → Bool
  | queue _ _ _ => true
  | _ => false

theorem Draining.step {e : Event T C J} (h : s.Draining) (he : e.queues = false)
    (hstep : s.step e = some s') : s'.Draining := by
  obtain ⟨-, -, heffect⟩ := step_effect hstep
  clear hstep
  cases heffect with
  | queue hsignal => cases he
  | work hmoves =>
      induction hmoves with
      | refl => exact h
      | tail _ hmove ih => exact ih.of_isMove hmove
  | exit ht => exact (h.of_frame (frame_jobCleanup s _ _)).of_frame (frame_workerCleanup _ _ _)
  | wait c => exact h.of_frame (frame_thrPoolWait s c)
  | destroy hd =>
      have hframe := frame_destroyActive (broadcastWorkcv { s with poolDestroy := true })
      exact ⟨hframe.destroy, hframe.head.trans h.head⟩
  | destroyActive hd => exact h.of_frame (frame_destroyActive s)
  | destroyBusy hd => exact h.of_frame (frame_destroyBusy s)
  | _ => exact ⟨h.destroy, h.head⟩

/-- Once the last worker is gone, nothing keeps the destroyer of an empty pool. -/
theorem Draining.returns (h : s.Draining) (hinv : s.Inv) (hgone : s.workers = ∅) :
    s.destroyer = .returned ∨
      ∃ u, s.step .acquireDestroyer = some u ∧ u.destroyer = .returned := by
  have hactive : s.poolActive = [] := by
    apply List.eq_nil_iff_forall_not_mem.mpr
    intro t ht
    obtain ⟨job, hjob⟩ := (hinv.active_iff t).mp ht
    rw [hgone] at hjob
    cases hjob
  have hzero : s.poolNthreads = 0 := by
    rw [hinv.nthreads, hgone]
    rfl
  have hbusy : s.destroyBusy.destroyer = .returned := by
    unfold destroyBusy
    rw [if_neg (not_not_intro hzero)]
  have hactivate : s.destroyActive = s.destroyBusy := if_neg (not_not_intro hactive)
  have hgo : s.destroyer ≠ .returned → ∀ u, s.stepLive .acquireDestroyer = some u →
      s.step .acquireDestroyer = some u :=
    fun hnr u hu => step_eq_some.mpr ⟨hnr, nofun, hu⟩
  cases hd : s.destroyer with
  | none => exact absurd hd (hinv.destroying.mpr h.destroy)
  | returned => exact Or.inl rfl
  | waitcv asleep =>
      cases asleep with
      | true =>
          rcases (hinv.waitcv hd).2 with hne | hne
          · exact absurd h.head hne
          · exact absurd hactive hne
      | false =>
          refine Or.inr ⟨s.destroyActive, hgo (by rw [hd]; nofun) _ ?_, ?_⟩
          · exact stepLive_acquireDestroyer.mpr (Or.inl ⟨hd, rfl⟩)
          · rw [hactivate]
            exact hbusy
  | busycv asleep =>
      cases asleep with
      | true => exact absurd hzero (hinv.busycv hd)
      | false =>
          refine Or.inr ⟨s.destroyBusy, hgo (by rw [hd]; nofun) _ ?_, hbusy⟩
          exact stepLive_acquireDestroyer.mpr (Or.inr ⟨hd, rfl⟩)

/-- `thr_pool_destroy` called while workers are running returns after them exactly when no
job is in the queue.  Nothing is queued afterwards, and the destroyer wakes up on
signals only. -/
theorem destroy_returns_iff (es es' : List (Event T C J))
    (hcreate : thrPoolCreate T C J minThreads maxThreads linger = some s₀)
    (hrun : run step s₀ es = some s) (hactive : s.poolActive ≠ [])
    (hsignals : ∀ e ∈ es', e ≠ .spuriousDestroyer) (hqueues : ∀ e ∈ es', e.queues = false)
    (hrun' : run step s (.destroy :: es') = some s') (hgone : s'.workers = ∅) :
    (s'.destroyer = .returned ∨
        ∃ u, s'.step .acquireDestroyer = some u ∧ u.destroyer = .returned) ↔
      s.poolHead = [] := by
  constructor
  · intro hreturns
    by_contra hhead
    have hstuck := destroy_hangs hhead hactive hsignals hrun'
    rcases hreturns with hd | ⟨u, hu, -⟩
    · rw [hstuck.asleep] at hd
      cases hd
    · obtain ⟨-, -, hlive⟩ := step_eq_some.mp hu
      rcases stepLive_acquireDestroyer.mp hlive with ⟨hd, -⟩ | ⟨hd, -⟩
      · rw [hstuck.asleep] at hd
        cases hd
      · rw [hstuck.asleep] at hd
        cases hd
  · intro hhead
    have hinv := ((Inv.create hcreate).run hrun).run hrun'
    obtain ⟨u, hu, hrest⟩ := run_cons_eq_some.mp hrun'
    have hdrain : u.Draining := by
      obtain ⟨-, rfl⟩ := step_destroy hu
      have hframe := frame_destroyActive (broadcastWorkcv { s with poolDestroy := true })
      exact ⟨hframe.destroy, hframe.head.trans hhead⟩
    have hend : s'.Draining := run_invariant (fun h he hstep => h.step he hstep) hdrain
      (along_of_forall hqueues u) hrest
    exact hend.returns hinv hgone

theorem destroy_returns_iff_one : ∃ s₀ s s' : ThrPool ℕ ℕ ℕ,
    thrPoolCreate ℕ ℕ ℕ 1 1 0 = some s₀ ∧
      run step s₀ [.queue 7 [] (some 0), .acquire 0 none, .queue 8 [] none] = some s ∧
      run step s [.destroy, .exit 0 none] = some s' ∧
      ¬(s'.destroyer = .returned ∨
        ∃ u, s'.step .acquireDestroyer = some u ∧ u.destroyer = .returned) := by
  have hcreate : thrPoolCreate ℕ ℕ ℕ 1 1 0 = some _ := rfl
  refine ⟨_, _, _, hcreate, rfl, rfl, ?_⟩
  rw [destroy_returns_iff [.queue 7 [] (some 0), .acquire 0 none, .queue 8 [] none]
    [.exit 0 none] hcreate rfl (by decide) (by simp) (by decide) rfl rfl]
  decide

end HyLisp.ControlPlane.ThrPool
