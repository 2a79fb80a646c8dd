import HyLisp.ControlPlane.ThreadPool

/-!
# Invariants of the thread pool

The counters agree with the threads, the list of active workers is that of the workers
in a job, and every blocked worker has at least as many woken ones beside it as there
are jobs in the queue.  A thread blocked on `pool_waitcv` has its flag set and something
to wait for.
-/

namespace HyLisp.ControlPlane.ThrPool

open Transition ThreadTable

variable {T C J : Type*} [DecidableEq T]

/-- What the queue, the counters and the workers have to do with each other. -/
structure Core (s : ThrPool T C J) : Prop where
  nthreads : s.poolNthreads = count (fun _ => true) s.workers
  le_maximum : s.poolNthreads ≤ max 0 s.poolMaximum
  idle : s.poolIdle = count Worker.isIdle s.workers
  active_nodup : s.poolActive.Nodup
  active_iff : ∀ t, t ∈ s.poolActive ↔ ∃ job, s.workers.lookup t = some (.running job)
  woken : 0 < count Worker.isBlocked s.workers →
    s.poolDestroy = false ∧ s.poolHead.length ≤ count Worker.isAwake s.workers
  fifo : s.started ++ s.poolHead = s.submitted
  done : ∀ q, s.started.countP q = s.finished.countP q + count (Worker.runs q) s.workers

/-- Who is blocked on `pool_waitcv` has set the flag and has something to wait for. -/
structure Waits [DecidableEq C] (s : ThrPool T C J) : Prop where
  caller : ∀ c, s.callers.lookup c = some true →
    s.poolWait = true ∧ (s.poolHead ≠ [] ∨ s.poolActive ≠ [])
  waitcv : s.destroyer = .waitcv true →
    s.poolWait = true ∧ (s.poolHead ≠ [] ∨ s.poolActive ≠ [])

/-- What is known of a pool that is being destroyed. -/
structure Ends (s : ThrPool T C J) : Prop where
  destroying : s.destroyer ≠ .none ↔ s.poolDestroy = true
  busycv : s.destroyer = .busycv true → s.poolNthreads ≠ 0
  returned : s.destroyer = .returned → s.poolNthreads = 0

structure Inv [DecidableEq C] (s : ThrPool T C J) : Prop extends Core s, Waits s, Ends s

/-! ## Places of a worker -/

section Places

variable {s : AList fun _ : T => Worker J} {t u : T} {w w' : Worker J}

theorem running_insert (hw' : ∀ job, w' ≠ .running job) :
    (∃ job, (s.insert t w').lookup u = some (.running job)) ↔
      u ≠ t ∧ ∃ job, s.lookup u = some (.running job) := by
  constructor
  · rintro ⟨job, h⟩
    rcases lookup_insert_iff.mp h with ⟨-, hw⟩ | ⟨hne, hu⟩
    · exact absurd hw (hw' job)
    · exact ⟨hne, job, hu⟩
  · rintro ⟨hne, job, hu⟩
    exact ⟨job, lookup_insert_iff.mpr (Or.inr ⟨hne, hu⟩)⟩

/-- A worker that moves from one place outside of jobs to another leaves the workers in
jobs as they are. -/
theorem running_move (h : s.lookup t = some w) (hw : ∀ job, w ≠ .running job)
    (hw' : ∀ job, w' ≠ .running job) :
    (∃ job, (s.insert t w').lookup u = some (.running job)) ↔
      ∃ job, s.lookup u = some (.running job) := by
  rw [running_insert hw']
  constructor
  · exact And.right
  · rintro ⟨job, hu⟩
    refine ⟨?_, job, hu⟩
    rintro rfl
    rw [h, Option.some_inj] at hu
    exact hw job hu

end Places

variable {s s' : ThrPool T C J} {t : T} {w w' : Worker J} {job : J}

/-- A worker that is not in a job is not on the list of active ones. -/
theorem Core.notMem_active (h : s.Core) (ht : s.workers.lookup t = some w)
    (hw : ∀ job, w ≠ .running job) : t ∉ s.poolActive := by
  rw [h.active_iff]
  rintro ⟨job, hjob⟩
  rw [ht, Option.some_inj] at hjob
  exact hw job hjob

/-! ## Moves of a worker -/

/-- A worker moves from one place outside of jobs to another, and `pool_idle` with it. -/
theorem Core.move (h : s.Core) (ht : s.workers.lookup t = some w) (w' : Worker J)
    (hw : ∀ job, w ≠ .running job) (hw' : ∀ job, w' ≠ .running job) {i : ℤ}
    (hi : i + w.isIdle.toNat = s.poolIdle + w'.isIdle.toNat)
    (hblocked : w'.isBlocked = true → s.poolDestroy = false ∧ s.poolHead = [])
    (hawake : w.isAwake = true → s.poolHead = [] ∨ s.poolDestroy = true) :
    Core { s.setWorker t w' with poolIdle := i } where
  nthreads := by
    have hall := count_move (fun _ => true) w' ht
    have hn := h.nthreads
    change s.poolNthreads = (count (fun _ => true) (s.workers.insert t w') : ℕ)
    omega
  le_maximum := h.le_maximum
  idle := by
    have hidle := count_move Worker.isIdle w' ht
    have hn := h.idle
    change i = (count Worker.isIdle (s.workers.insert t w') : ℕ)
    omega
  active_nodup := h.active_nodup
  active_iff := fun u => (h.active_iff u).trans (running_move ht hw hw').symm
  woken := by
    intro hpos
    change 0 < count Worker.isBlocked (s.workers.insert t w') at hpos
    change s.poolDestroy = false ∧
      s.poolHead.length ≤ count Worker.isAwake (s.workers.insert t w')
    have hb := count_move Worker.isBlocked w' ht
    have ha := count_move Worker.isAwake w' ht
    cases hw'b : w'.isBlocked with
    | true =>
        obtain ⟨hlive, hempty⟩ := hblocked hw'b
        refine ⟨hlive, ?_⟩
        rw [hempty]
        exact Nat.zero_le _
    | false =>
        rw [hw'b, Bool.toNat_false] at hb
        obtain ⟨hlive, hle⟩ := h.woken (by omega)
        refine ⟨hlive, ?_⟩
        cases hwa : w.isAwake with
        | true =>
            have hempty := (hawake hwa).resolve_right (by rw [hlive]; exact Bool.false_ne_true)
            rw [hempty]
            exact Nat.zero_le _
        | false =>
            rw [hwa, Bool.toNat_false] at ha
            omega
  fifo := h.fifo
  done := by
    intro q
    have hruns := count_move (Worker.runs q) w' ht
    have hrun : ∀ v : Worker J, (∀ job, v ≠ .running job) → v.runs q = false := by
      intro v hv
      cases v with
      | running job => exact absurd rfl (hv job)
      | _ => rfl
    rw [hrun w hw, hrun w' hw'] at hruns
    have hq := h.done q
    change s.started.countP q = s.finished.countP q +
      count (Worker.runs q) (s.workers.insert t w')
    omega

theorem Core.enterIdle (h : s.Core) (ht : s.workers.lookup t = some .ready) :
    (s.enterIdle t).Core := by
  apply h.move ht (.awake false) (by simp) (by simp)
  · change s.poolIdle + 1 + 0 = s.poolIdle + 1
    omega
  · rintro ⟨⟩
  · rintro ⟨⟩

/-- A worker may leave the idle section when there is no job for it, or when the pool is
being destroyed. -/
theorem Core.leaveIdle {b : Bool} (h : s.Core)
    (ht : s.workers.lookup t = some (.awake b))
    (hempty : s.poolHead = [] ∨ s.poolDestroy = true) : (s.leaveIdle t).Core := by
  apply h.move ht .ready (by simp) (by simp)
  · change s.poolIdle - 1 + 1 = s.poolIdle + 0
    omega
  · rintro ⟨⟩
  · intro _
    exact hempty

theorem Core.block {b timed : Bool} (h : s.Core)
    (ht : s.workers.lookup t = some (.awake b)) (hlive : s.poolDestroy = false)
    (hempty : s.poolHead = []) : (s.setWorker t (.blocked timed)).Core := by
  apply h.move ht (.blocked timed) (by simp) (by simp) rfl
  · intro _
    exact ⟨hlive, hempty⟩
  · intro _
    exact Or.inl hempty

theorem Core.unblock {b timed : Bool} (h : s.Core)
    (ht : s.workers.lookup t = some (.blocked timed)) :
    (s.setWorker t (.awake b)).Core := by
  apply h.move ht (.awake b) (by simp) (by simp) rfl
  · rintro ⟨⟩
  · rintro ⟨⟩

/-- A worker takes the first job. -/
theorem Core.takeJob {b : Bool} {rest : List J} (h : s.Core)
    (ht : s.workers.lookup t = some (.awake b)) (hlive : s.poolDestroy = false)
    (hhead : s.poolHead = job :: rest) : ((s.leaveIdle t).takeJob t job rest).Core := by
  have hworkers : ((s.leaveIdle t).takeJob t job rest).workers =
      s.workers.insert t (.running job) := AList.insert_insert _
  have hn := h.nthreads
  have hi := h.idle
  have hall := count_move (fun _ => true) (.running job) ht
  have hidle := count_move Worker.isIdle (.running job) ht
  have hb := count_move Worker.isBlocked (.running job) ht
  have ha := count_move Worker.isAwake (.running job) ht
  simp only [Worker.isIdle, Worker.isBlocked, Worker.isAwake, Bool.toNat_true,
    Bool.toNat_false] at hall hidle hb ha
  refine
    { nthreads := ?_
      le_maximum := h.le_maximum
      idle := ?_
      active_nodup := ?_
      active_iff := ?_
      woken := ?_
      fifo := ?_
      done := ?_ }
  · rw [hworkers]
    change s.poolNthreads = _
    omega
  · rw [hworkers]
    change s.poolIdle - 1 = _
    omega
  · exact List.nodup_cons.mpr ⟨h.notMem_active ht (by simp), h.active_nodup⟩
  · intro u
    rw [hworkers]
    change u ∈ t :: s.poolActive ↔ _
    rw [List.mem_cons, h.active_iff]
    constructor
    · rintro (rfl | ⟨j, hj⟩)
      · exact ⟨job, AList.lookup_insert _⟩
      · refine ⟨j, lookup_insert_iff.mpr (Or.inr ⟨?_, hj⟩)⟩
        rintro rfl
        rw [ht] at hj
        cases hj
    · rintro ⟨j, hj⟩
      rcases lookup_insert_iff.mp hj with ⟨rfl, -⟩ | ⟨-, hj⟩
      · exact Or.inl rfl
      · exact Or.inr ⟨j, hj⟩
  · rw [hworkers]
    intro hpos
    change s.poolDestroy = false ∧ rest.length ≤ _
    obtain ⟨-, hle⟩ := h.woken (by omega)
    rw [hhead, List.length_cons] at hle
    exact ⟨hlive, by omega⟩
  · change s.started ++ [job] ++ rest = s.submitted
    rw [← h.fifo, hhead, List.append_assoc, List.singleton_append]
  · intro q
    rw [hworkers]
    have hq := h.done q
    have hruns := count_move (Worker.runs q) (.running job) ht
    change (s.started ++ [job]).countP q = s.finished.countP q + _
    rw [countP_concat]
    simp only [Worker.runs, Bool.toNat_false] at hruns
    omega

/-- A worker comes back from its job. -/
theorem Core.leaveJob (h : s.Core) (ht : s.workers.lookup t = some (.running job)) :
    (s.leaveJob t job).Core := by
  have hn := h.nthreads
  have hi := h.idle
  have hall := count_move (fun _ => true) .ready ht
  have hidle := count_move Worker.isIdle .ready ht
  have hb := count_move Worker.isBlocked .ready ht
  have ha := count_move Worker.isAwake .ready ht
  simp only [Worker.isIdle, Worker.isBlocked, Worker.isAwake, Bool.toNat_true,
    Bool.toNat_false] at hall hidle hb ha
  refine
    { nthreads := ?_
      le_maximum := h.le_maximum
      idle := ?_
      active_nodup := h.active_nodup.erase t
      active_iff := ?_
      woken := ?_
      fifo := h.fifo
      done := ?_ }
  · change s.poolNthreads = (count _ (s.workers.insert t .ready) : ℕ)
    omega
  · change s.poolIdle = (count _ (s.workers.insert t .ready) : ℕ)
    omega
  · intro u
    change u ∈ s.poolActive.erase t ↔ _
    rw [h.active_nodup.mem_erase_iff, h.active_iff]
    exact (running_insert (by simp)).symm
  · intro hpos
    change 0 < count _ (s.workers.insert t .ready) at hpos
    change s.poolDestroy = false ∧
      s.poolHead.length ≤ count _ (s.workers.insert t .ready)
    obtain ⟨hlive, hle⟩ := h.woken (by omega)
    exact ⟨hlive, by omega⟩
  · intro q
    have hq := h.done q
    have hruns := count_move (Worker.runs q) .ready ht
    change s.started.countP q =
      (s.finished ++ [job]).countP q + count _ (s.workers.insert t .ready)
    rw [countP_concat]
    simp only [Worker.runs, Bool.toNat_false] at hruns
    omega

/-! ## Threads that come and go -/

theorem Core.removeWorker (h : s.Core) (ht : s.workers.lookup t = some .ready) :
    (s.removeWorker t).Core := by
  have hn := h.nthreads
  have hi := h.idle
  have hm := h.le_maximum
  have hall := count_erase (fun _ => true) ht
  have hidle := count_erase Worker.isIdle ht
  have hb := count_erase Worker.isBlocked ht
  have ha := count_erase Worker.isAwake ht
  simp only [Worker.isIdle, Worker.isBlocked, Worker.isAwake, Bool.toNat_true,
    Bool.toNat_false] at hall hidle hb ha
  refine
    { nthreads := ?_
      le_maximum := ?_
      idle := ?_
      active_nodup := h.active_nodup
      active_iff := ?_
      woken := ?_
      fifo := h.fifo
      done := ?_ }
  · change s.poolNthreads - 1 = (count _ (s.workers.erase t) : ℕ)
    omega
  · change s.poolNthreads - 1 ≤ max 0 s.poolMaximum
    omega
  · change s.poolIdle = (count _ (s.workers.erase t) : ℕ)
    omega
  · intro u
    refine (h.active_iff u).trans ?_
    constructor
    · rintro ⟨j, hj⟩
      refine ⟨j, lookup_erase_iff.mpr ⟨?_, hj⟩⟩
      rintro rfl
      rw [ht] at hj
      cases hj
    · rintro ⟨j, hj⟩
      exact ⟨j, (lookup_erase_iff.mp hj).2⟩
  · intro hpos
    change 0 < count _ (s.workers.erase t) at hpos
    change s.poolDestroy = false ∧ s.poolHead.length ≤ count _ (s.workers.erase t)
    obtain ⟨hlive, hle⟩ := h.woken (by omega)
    exact ⟨hlive, by omega⟩
  · intro q
    have hq := h.done q
    have hruns := count_erase (Worker.runs q) ht
    change s.started.countP q = s.finished.countP q + count _ (s.workers.erase t)
    simp only [Worker.runs, Bool.toNat_false] at hruns
    omega

theorem Core.createWorker {created : Option T} (h : s.Core)
    (hnew : ∀ t ∈ created, t ∉ s.workers) (hlt : s.poolNthreads < s.poolMaximum) :
    (s.createWorker created).Core := by
  cases created with
  | none => exact h
  | some t =>
      have ht := hnew t rfl
      have hn := h.nthreads
      have hi := h.idle
      have hall := count_insert_new (fun _ => true) .ready ht
      have hidle := count_insert_new Worker.isIdle .ready ht
      have hb := count_insert_new Worker.isBlocked .ready ht
      have ha := count_insert_new Worker.isAwake .ready ht
      simp only [Worker.isIdle, Worker.isBlocked, Worker.isAwake, Bool.toNat_true,
        Bool.toNat_false] at hall hidle hb ha
      refine
        { nthreads := ?_
          le_maximum := ?_
          idle := ?_
          active_nodup := h.active_nodup
          active_iff := ?_
          woken := ?_
          fifo := h.fifo
          done := ?_ }
      · change s.poolNthreads + 1 = (count _ (s.workers.insert t .ready) : ℕ)
        omega
      · change s.poolNthreads + 1 ≤ max 0 s.poolMaximum
        omega
      · change s.poolIdle = (count _ (s.workers.insert t .ready) : ℕ)
        omega
      · intro u
        refine (h.active_iff u).trans ?_
        refine Iff.trans ?_ (running_insert (by simp)).symm
        constructor
        · rintro ⟨j, hj⟩
          refine ⟨?_, j, hj⟩
          rintro rfl
          exact ht (mem_of_lookup hj)
        · exact And.right
      · intro hpos
        change 0 < count _ (s.workers.insert t .ready) at hpos
        change s.poolDestroy = false ∧
          s.poolHead.length ≤ count _ (s.workers.insert t .ready)
        obtain ⟨hlive, hle⟩ := h.woken (by omega)
        exact ⟨hlive, by omega⟩
      · intro q
        have hq := h.done q
        have hruns := count_insert_new (Worker.runs q) .ready ht
        change s.started.countP q =
          s.finished.countP q + count _ (s.workers.insert t .ready)
        simp only [Worker.runs, Bool.toNat_false] at hruns
        omega

/-! ## Workers that are unblocked together -/

theorem Worker.wake_eq_running {w : Worker J} :
    w.wake = .running job ↔ w = .running job := by
  cases w <;> simp [Worker.wake]

/-- What a signal does not change about a worker is counted as before. -/
theorem count_wakeAll {f : T → Worker J → Worker J} {p : Worker J → Bool}
    {table : AList fun _ : T => Worker J} (hf : ∀ t w, f t w = w ∨ f t w = w.wake)
    (hp : ∀ w, p w.wake = p w) : count p (moveAll f table) = count p table := by
  apply count_moveAll_eq
  intro t w _
  rcases hf t w with heq | heq
  · rw [heq]
  · rw [heq, hp]

/-- Workers are unblocked; the counters and the list of active ones do not change. -/
theorem Core.wakeAll {f : T → Worker J → Worker J} {head submitted : List J} {d : Bool}
    (h : s.Core) (hf : ∀ t w, f t w = w ∨ f t w = w.wake)
    (hwoken : 0 < count Worker.isBlocked (moveAll f s.workers) →
      d = false ∧ head.length ≤ count Worker.isAwake (moveAll f s.workers))
    (hfifo : s.started ++ head = submitted) :
    Core { s with
      workers := moveAll f s.workers
      poolHead := head
      submitted := submitted
      poolDestroy := d } where
  nthreads := h.nthreads.trans
    (congrArg Nat.cast (count_wakeAll hf fun _ => rfl).symm)
  le_maximum := h.le_maximum
  idle := h.idle.trans
    (congrArg Nat.cast (count_wakeAll hf fun w => by cases w <;> rfl).symm)
  active_nodup := h.active_nodup
  active_iff := by
    intro t
    refine (h.active_iff t).trans ?_
    rw [lookup_moveAll]
    cases s.workers.lookup t with
    | none => simp
    | some w =>
        simp only [Option.some_inj, Option.map_some]
        rcases hf t w with heq | heq
        · rw [heq]
        · rw [heq]
          simp only [Worker.wake_eq_running]
  woken := hwoken
  fifo := hfifo
  done := by
    intro q
    rw [h.done q, count_wakeAll hf fun w => by cases w <;> rfl]

/-- A broadcast leaves no worker blocked. -/
theorem Core.broadcastWorkcv (h : s.Core) :
    (broadcastWorkcv { s with poolDestroy := true }).Core := by
  refine h.wakeAll (fun _ _ => Or.inr rfl) ?_ h.fifo
  intro hpos
  obtain ⟨t, w, hw, hblocked⟩ := count_pos_iff.mp hpos
  rw [lookup_moveAll] at hw
  obtain ⟨v, -, rfl⟩ := Option.map_eq_some_iff.mp hw
  cases v <;> cases hblocked

theorem Worker.isBlocked_of_wake {w : Worker J} (hw : w.wake.isBlocked) : False := by
  cases w <;> cases hw

/-- A signal wakes up a worker for the new job, if any is left blocked. -/
theorem Core.woken_signal {unblocked : List T} (h : s.Core)
    (hsignal : s.Unblocks unblocked)
    (hpos : 0 < count Worker.isBlocked (s.signalWorkcv unblocked).workers) :
    s.poolDestroy = false ∧
      (s.poolHead ++ [job]).length ≤
        count Worker.isAwake (s.signalWorkcv unblocked).workers := by
  obtain ⟨u, v, hu, hblocked⟩ := count_pos_iff.mp hpos
  obtain ⟨w, hw, rfl⟩ := Option.map_eq_some_iff.mp (lookup_moveAll.symm.trans hu)
  have hwas : w.isBlocked = true := by
    by_cases hmem : u ∈ unblocked
    · rw [if_pos hmem] at hblocked
      exact (Worker.isBlocked_of_wake hblocked).elim
    · rw [if_neg hmem] at hblocked
      exact hblocked
  have hbefore := count_pos_iff.mpr ⟨u, w, hw, hwas⟩
  obtain ⟨hlive, hle⟩ := h.woken hbefore
  -- the signal is not lost: one of the blocked workers is unblocked
  have hsome : unblocked ≠ [] := fun hnil => by
    rw [hsignal.2 hnil] at hbefore
    exact Nat.lt_irrefl 0 hbefore
  obtain ⟨t, ht⟩ := List.exists_mem_of_ne_nil unblocked hsome
  obtain ⟨x, hx, hxb⟩ := (Option.any_eq_true _ _).mp (hsignal.1 t ht)
  have hmore : count Worker.isAwake s.workers <
      count Worker.isAwake (s.signalWorkcv unblocked).workers := by
    apply count_lt_moveAll _ hx
    · cases x <;> simp_all [Worker.isBlocked, Worker.isAwake]
    · rw [if_pos ht]
      cases x <;> simp_all [Worker.isBlocked, Worker.isAwake, Worker.wake]
    · intro u w _ hw
      split
      · cases w <;> simp_all [Worker.isAwake, Worker.wake]
      · exact hw
  rw [List.length_append, List.length_singleton]
  exact ⟨hlive, by omega⟩

theorem Core.fifo_appendJob (h : s.Core) (job : J) :
    s.started ++ (s.poolHead ++ [job]) = s.submitted ++ [job] := by
  rw [← List.append_assoc, h.fifo]

/-- With no worker idle, none is blocked. -/
theorem Core.enqueue (h : s.Core) (hidle : ¬s.poolIdle > 0) :
    (s.appendJob job).Core := by
  have hle : count Worker.isBlocked s.workers ≤ count Worker.isIdle s.workers := by
    apply count_le_of_imp
    intro w
    cases w <;> simp [Worker.isBlocked, Worker.isIdle]
  have hnone : count Worker.isBlocked s.workers = 0 := by
    have hi := h.idle
    omega
  exact { h with
    woken := fun hpos => absurd hnone (Nat.ne_of_gt hpos)
    fifo := h.fifo_appendJob job }

/-- A job is queued and an idle worker signalled. -/
theorem Core.enqueueSignal {unblocked : List T} (h : s.Core)
    (hsignal : s.Unblocks unblocked) :
    ((s.appendJob job).signalWorkcv unblocked).Core := by
  refine h.wakeAll ?_ (h.woken_signal hsignal) (h.fifo_appendJob job)
  intro t w
  by_cases ht : t ∈ unblocked
  · exact Or.inr (if_pos ht)
  · exact Or.inl (if_neg ht)

/-! ## The functions of a worker -/

theorem Core.nthreads_pos (h : s.Core) (ht : s.workers.lookup t = some w) :
    0 < s.poolNthreads := by
  have hpos : 0 < count (fun _ => true) s.workers := count_pos_iff.mpr ⟨t, w, ht, rfl⟩
  have hn := h.nthreads
  omega

omit [DecidableEq T] in
theorem Ends.none_of_live (h : s.Ends) (hlive : s.poolDestroy = false) :
    s.destroyer = .none := by
  by_contra hd
  rw [h.destroying.mp hd] at hlive
  cases hlive

section Steps

variable [DecidableEq C] {created : Option T}

/-- Whoever has set `POOL_WAIT` is told when there is nothing left to wait for. -/
theorem Core.notify (h : s.Core) (hends : s.Ends)
    (hcaller : ∀ c, s.callers.lookup c = some true → s.poolWait = true)
    (hwaitcv : s.destroyer = .waitcv true → s.poolWait = true) :
    Inv (if s.poolWait then s.notifyWaiters else s) := by
  by_cases hwait : s.poolWait = true
  · rw [if_pos hwait]
    unfold notifyWaiters
    by_cases hleft : s.poolHead = [] ∧ s.poolActive = []
    · rw [if_pos hleft]
      refine
        { h with
          caller := ?_
          waitcv := fun hd => absurd hd Destroyer.wakeWaitcv_ne_waitcv
          destroying := ?_
          busycv := fun hd => hends.busycv (Destroyer.wakeWaitcv_eq_busycv.mp hd)
          returned := fun hd => hends.returned (Destroyer.wakeWaitcv_eq_returned.mp hd) }
      · intro c hc
        obtain ⟨b, -, hb⟩ := Option.map_eq_some_iff.mp (lookup_moveAll.symm.trans hc)
        cases hb
      · exact (not_congr Destroyer.wakeWaitcv_eq_none).trans hends.destroying
    · rw [if_neg hleft]
      have hsome : s.poolHead ≠ [] ∨ s.poolActive ≠ [] := not_and_or.mp hleft
      exact { h, hends with
        caller := fun _ _ => ⟨hwait, hsome⟩
        waitcv := fun _ => ⟨hwait, hsome⟩ }
  · rw [if_neg hwait]
    exact { h, hends with
      caller := fun c hc => absurd (hcaller c hc) hwait
      waitcv := fun hd => absurd (hwaitcv hd) hwait }

/-- A thread is created while the pool is not freed. -/
theorem Inv.createWorker (h : s.Inv) (hnew : ∀ t ∈ created, t ∉ s.workers)
    (hlt : s.poolNthreads < s.poolMaximum) (hnr : s.destroyer ≠ .returned) :
    (s.createWorker created).Inv := by
  have hcore := h.toCore.createWorker hnew hlt
  cases created with
  | none => exact h
  | some t =>
      have hn := h.nthreads
      exact { hcore with
        caller := h.caller
        waitcv := h.waitcv
        destroying := h.destroying
        busycv := fun _ => by
          change s.poolNthreads + 1 ≠ 0
          omega
        returned := fun hd => absurd hd hnr }

theorem Inv.workerCleanup (h : s.Inv) (ht : s.workers.lookup t = some .ready)
    (hnew : ∀ t ∈ created, t ∉ s.workers) : (s.workerCleanup t created).Inv := by
  have hpos := h.nthreads_pos ht
  have hcore := h.toCore.removeWorker ht
  have hnr : s.destroyer ≠ .returned := fun hd => by
    have hzero := h.returned hd
    omega
  cases hdestroy : s.poolDestroy with
  | true =>
      rw [workerCleanup_of_destroy hdestroy]
      by_cases hlast : s.poolNthreads - 1 = 0
      · rw [if_pos hlast]
        exact { hcore with
          caller := h.caller
          waitcv := fun hd => h.waitcv (Destroyer.wakeBusycv_eq_waitcv.mp hd)
          destroying := (not_congr Destroyer.wakeBusycv_eq_none).trans h.destroying
          busycv := fun hd => absurd hd Destroyer.wakeBusycv_ne_busycv
          returned := fun _ => hlast }
      · rw [if_neg hlast]
        exact { hcore with
          caller := h.caller
          waitcv := h.waitcv
          destroying := h.destroying
          busycv := fun _ => hlast
          returned := fun hd => absurd hd hnr }
  | false =>
      have hnone := h.none_of_live hdestroy
      have hinv : (s.removeWorker t).Inv := { hcore with
        caller := h.caller
        waitcv := h.waitcv
        destroying := h.destroying
        busycv := fun hd => by
          rw [show (s.removeWorker t).destroyer = .none from hnone] at hd
          cases hd
        returned := fun hd => absurd hd hnr }
      rw [workerCleanup_of_live hdestroy]
      by_cases hneed : s.poolHead ≠ [] ∧ s.poolNthreads - 1 < s.poolMaximum
      · rw [if_pos hneed]
        refine hinv.createWorker (fun u hu hmem => hnew u hu ?_) hneed.2 hnr
        exact (AList.mem_erase.mp hmem).2
      · rw [if_neg hneed]
        exact hinv

/-- A move between places outside of jobs that keeps the counters keeps the invariant. -/
theorem Inv.of_move {i : ℤ} (h : s.Inv)
    (hcore : Core { s.setWorker t w with poolIdle := i }) :
    Inv { s.setWorker t w with poolIdle := i } :=
  { hcore with
    caller := h.caller
    waitcv := h.waitcv
    destroying := h.destroying
    busycv := h.busycv
    returned := h.returned }

theorem Inv.takeJob {b : Bool} {rest : List J} (h : s.Inv)
    (ht : s.workers.lookup t = some (.awake b)) (hlive : s.poolDestroy = false)
    (hhead : s.poolHead = job :: rest) : ((s.leaveIdle t).takeJob t job rest).Inv :=
  { h.toCore.takeJob ht hlive hhead with
    caller := fun c hc => ⟨(h.caller c hc).1, Or.inr (List.cons_ne_nil _ _)⟩
    waitcv := fun hd => ⟨(h.waitcv hd).1, Or.inr (List.cons_ne_nil _ _)⟩
    destroying := h.destroying
    busycv := h.busycv
    returned := h.returned }

theorem Inv.jobCleanup (h : s.Inv) (ht : s.workers.lookup t = some (.running job)) :
    (s.jobCleanup t job).Inv := by
  have hcore := h.toCore.leaveJob ht
  have hends : (s.leaveJob t job).Ends := ⟨h.destroying, h.busycv, h.returned⟩
  exact hcore.notify hends (fun c hc => (h.caller c hc).1) fun hd => (h.waitcv hd).1

/-- A part of a worker's step keeps the invariant. -/
theorem Inv.of_isMove (h : s.Inv) (hmove : Move t created s s') : s'.Inv := by
  cases hmove with
  | enterIdle ht => exact h.of_move (h.toCore.enterIdle ht)
  | notify =>
      exact h.toCore.notify h.toEnds (fun c hc => (h.caller c hc).1) fun hd => (h.waitcv hd).1
  | block ht hlive hempty => exact h.of_move (h.toCore.block ht hlive hempty)
  | leaveIdle ht hempty => exact h.of_move (h.toCore.leaveIdle ht hempty)
  | takeJob ht hlive hhead => exact h.takeJob ht hlive hhead
  | jobCleanup ht => exact h.jobCleanup ht
  | workerCleanup ht hnew _ => exact h.workerCleanup ht hnew

/-! ## The functions of the clients -/

theorem Inv.thrPoolQueue {unblocked : List T} (h : s.Inv)
    (hsignal : s.Unblocks unblocked) (hnew : ∀ t ∈ created, t ∉ s.workers)
    (hnr : s.destroyer ≠ .returned) : (s.thrPoolQueue job unblocked created).Inv := by
  have hne : s.poolHead ++ [job] ≠ [] :=
    List.append_ne_nil_of_right_ne_nil _ (List.cons_ne_nil _ _)
  have hinv : (s.appendJob job).Core → (s.appendJob job).Inv := fun hcore =>
    { hcore with
      caller := fun c hc => ⟨(h.caller c hc).1, Or.inl hne⟩
      waitcv := fun hd => ⟨(h.waitcv hd).1, Or.inl hne⟩
      destroying := h.destroying
      busycv := h.busycv
      returned := h.returned }
  rcases thrPoolQueue_cases s job unblocked created with
    ⟨-, heq⟩ | ⟨hidle, hlt, heq⟩ | ⟨hidle, -, heq⟩
  · rw [heq]
    exact { h.toCore.enqueueSignal hsignal with
      caller := fun c hc => ⟨(h.caller c hc).1, Or.inl hne⟩
      waitcv := fun hd => ⟨(h.waitcv hd).1, Or.inl hne⟩
      destroying := h.destroying
      busycv := h.busycv
      returned := h.returned }
  · rw [heq]
    exact (hinv (h.toCore.enqueue hidle)).createWorker hnew hlt hnr
  · rw [heq]
    exact hinv (h.toCore.enqueue hidle)

theorem Inv.thrPoolWait (h : s.Inv) (c : C) : (s.thrPoolWait c).Inv := by
  unfold ThrPool.thrPoolWait
  by_cases hleft : s.poolHead ≠ [] ∨ s.poolActive ≠ []
  · rw [if_pos hleft]
    exact { h with
      caller := fun _ _ => ⟨rfl, hleft⟩
      waitcv := fun _ => ⟨rfl, hleft⟩ }
  · rw [if_neg hleft]
    exact { h with
      caller := fun d hd => h.caller d (lookup_erase_iff.mp hd).2 }

theorem Inv.wakeCaller (h : s.Inv) (c : C) :
    Inv { s with callers := s.callers.insert c false } where
  toCore := { h with }
  toEnds := { h with }
  caller := by
    intro d hd
    rcases lookup_insert_iff.mp hd with ⟨-, hb⟩ | ⟨-, hd⟩
    · cases hb
    · exact h.caller d hd
  waitcv := h.waitcv

/-- What the destroyer finds does not depend on where it comes from. -/
theorem Core.destroyBusy (h : s.Core) (hdestroy : s.poolDestroy = true)
    (hcaller : ∀ c, s.callers.lookup c = some true →
      s.poolWait = true ∧ (s.poolHead ≠ [] ∨ s.poolActive ≠ [])) :
    s.destroyBusy.Inv := by
  unfold ThrPool.destroyBusy
  by_cases hleft : s.poolNthreads ≠ 0
  · rw [if_pos hleft]
    exact { h with
      caller := hcaller
      waitcv := nofun
      destroying := ⟨fun _ => hdestroy, nofun⟩
      busycv := fun _ => hleft
      returned := nofun }
  · rw [if_neg hleft]
    exact { h with
      caller := hcaller
      waitcv := nofun
      destroying := ⟨fun _ => hdestroy, nofun⟩
      busycv := nofun
      returned := fun _ => not_ne_iff.mp hleft }

theorem Core.destroyActive (h : s.Core) (hdestroy : s.poolDestroy = true)
    (hcaller : ∀ c, s.callers.lookup c = some true →
      s.poolWait = true ∧ (s.poolHead ≠ [] ∨ s.poolActive ≠ [])) :
    s.destroyActive.Inv := by
  unfold ThrPool.destroyActive
  by_cases hleft : s.poolActive ≠ []
  · rw [if_pos hleft]
    exact { h with
      caller := fun c hc => ⟨rfl, Or.inr hleft⟩
      waitcv := fun _ => ⟨rfl, Or.inr hleft⟩
      destroying := ⟨fun _ => hdestroy, nofun⟩
      busycv := nofun
      returned := nofun }
  · rw [if_neg hleft]
    exact h.destroyBusy hdestroy hcaller

/-- A thread that waits on a condition variable wakes up without a signal. -/
theorem Inv.spuriousDestroyer {d : Destroyer} (h : s.Inv) (hd : s.destroyer ≠ .none)
    (hw : d = .waitcv false ∨ d = .busycv false) : Inv { s with destroyer := d } := by
  have hdestroy := h.destroying.mp hd
  rcases hw with rfl | rfl
  · exact { h with
      waitcv := nofun
      destroying := ⟨fun _ => hdestroy, nofun⟩
      busycv := nofun
      returned := nofun }
  · exact { h with
      waitcv := nofun
      destroying := ⟨fun _ => hdestroy, nofun⟩
      busycv := nofun
      returned := nofun }

/-! ## Steps and runs -/

/-- A step keeps the invariant. -/
theorem Inv.step {e : Event T C J} (h : s.Inv) (hstep : s.step e = some s') : s'.Inv := by
  obtain ⟨hnr, hnew, heffect⟩ := step_effect hstep
  clear hstep
  cases heffect with
  | queue hsignal => exact h.thrPoolQueue hsignal hnew hnr
  | work hmoves =>
      induction hmoves with
      | refl => exact h
      | tail _ hmove ih => exact ih.of_isMove hmove
  | exit ht =>
      exact (h.jobCleanup ht).workerCleanup (lookup_jobCleanup _ _)
        (notMem_jobCleanup ht hnew)
  | unblock ht => exact h.of_move (h.toCore.unblock ht)
  | wait c => exact h.thrPoolWait c
  | wakeCaller c => exact h.wakeCaller c
  | destroy hd => exact h.toCore.broadcastWorkcv.destroyActive rfl h.caller
  | destroyActive hd =>
      exact h.toCore.destroyActive (h.destroying.mp (by rw [hd]; nofun)) h.caller
  | destroyBusy hd =>
      exact h.toCore.destroyBusy (h.destroying.mp (by rw [hd]; nofun)) h.caller
  | wakeWaitcv hd => exact h.spuriousDestroyer (by rw [hd]; nofun) (Or.inl rfl)
  | wakeBusycv hd => exact h.spuriousDestroyer (by rw [hd]; nofun) (Or.inr rfl)

/-- The invariant holds from the creation of the pool on. -/
theorem Inv.create {minThreads maxThreads linger : UInt32}
    (h : thrPoolCreate T C J minThreads maxThreads linger = some s) : s.Inv := by
  unfold thrPoolCreate at h
  rw [Option.ite_none_left_eq_some, Option.some_inj] at h
  rw [← h.2]
  exact
    { nthreads := rfl
      le_maximum := Int.le_max_left _ _
      idle := rfl
      active_nodup := List.nodup_nil
      active_iff := by simp
      woken := fun hpos => absurd hpos (Nat.lt_irrefl 0)
      fifo := rfl
      done := fun _ => rfl
      caller := by simp
      waitcv := nofun
      destroying := by simp
      busycv := nofun
      returned := nofun }

theorem Inv.run {es : List (Event T C J)} (h : s.Inv) (hrun : run ThrPool.step s es = some s') :
    s'.Inv :=
  run_invariant (P := fun _ _ => True) (fun hs _ hstep => hs.step hstep) h
    (along_true s es) hrun

end Steps

end HyLisp.ControlPlane.ThrPool
