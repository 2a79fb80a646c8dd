import HyLisp.Support.ThreadTable
import HyLisp.Support.Transition
import Mathlib.Logic.Relation

/-!
# The thread pool

The receive loop hands every packet to a pool of worker threads as a job.  All that a
thread does between taking and releasing `pool_mutex` is one step, so a worker that
comes back from a job finds its next job, blocks on `pool_workcv` or terminates in the
same step.  What the system may choose comes with the event: whether `pthread_create`
succeeds and which thread it gives, which threads a signal unblocks, time-outs, and
wake-ups without a signal.

Jobs are recorded as they are queued, taken and left; no code reads these records.  A
call of `thr_pool_queue` whose `malloc` fails leaves the pool as it is and is no event.
-/

namespace HyLisp.ControlPlane

open Transition

/-- Where a worker is: at the mutex and not counted in `pool_idle`, counted there and not
blocked, blocked on `pool_workcv` with or without a time-out, or in the function of a job. -/
inductive Worker (J : Type*)
  | ready
  | awake (timedout : Bool)
  | blocked (timed : Bool)
  | running (job : J)

/-- Where the thread in `thr_pool_destroy` is: it has not called, it waits for the active
workers on `pool_waitcv` or for all of them on `pool_busycv`, asleep or woken up, or it
has freed the pool. -/
inductive Destroyer
  | none
  | waitcv (asleep : Bool)
  | busycv (asleep : Bool)
  | returned
  deriving DecidableEq, Repr

/-- `thr_pool_t`, with the threads in its functions.  `poolWait` and `poolDestroy` are the
flags; a thread in `thr_pool_wait` is in `callers`, with whether it is blocked. -/
structure ThrPool (T C J : Type*) where
  poolActive : List T
  poolHead : List J
  poolWait : Bool
  poolDestroy : Bool
  poolLinger : UInt32
  poolMinimum : ℤ
  poolMaximum : ℤ
  poolNthreads : ℤ
  poolIdle : ℤ
  workers : AList fun _ : T => Worker J
  callers : AList fun _ : C => Bool
  destroyer : Destroyer
  submitted : List J
  started : List J
  finished : List J

namespace Worker

variable {J : Type*}

/-- Counted in `pool_idle`. -/
def isIdle : Worker J → Bool
  | awake _ | blocked _ => true
  | _ => false

def isAwake : Worker J → Bool
  | awake _ => true
  | _ => false

def isBlocked : Worker J → Bool
  | blocked _ => true
  | _ => false

/-- In a job that meets `q`. -/
def runs (q : J → Bool) : Worker J → Bool
  | running job => q job
  | _ => false

/-- A signal unblocks the worker. -/
def wake : Worker J → Worker J
  | blocked _ => awake false
  | w => w

end Worker

/-- `pool_waitcv` is broadcast while the destroyer waits there. -/
def Destroyer.wakeWaitcv : Destroyer → Destroyer
  | waitcv _ => waitcv false
  | d => d

/-- `pool_busycv` is broadcast while the destroyer waits there. -/
def Destroyer.wakeBusycv : Destroyer → Destroyer
  | busycv _ => busycv false
  | d => d

namespace Destroyer

variable {d : Destroyer} {b : Bool}

@[simp] theorem wakeWaitcv_eq_none : d.wakeWaitcv = none ↔ d = none := by
  cases d <;> simp [wakeWaitcv]

@[simp] theorem wakeWaitcv_ne_waitcv : d.wakeWaitcv ≠ waitcv true := by
  cases d <;> simp [wakeWaitcv]

@[simp] theorem wakeWaitcv_eq_busycv : d.wakeWaitcv = busycv b ↔ d = busycv b := by
  cases d <;> simp [wakeWaitcv]

@[simp] theorem wakeWaitcv_eq_returned : d.wakeWaitcv = returned ↔ d = returned := by
  cases d <;> simp [wakeWaitcv]

@[simp] theorem wakeBusycv_eq_none : d.wakeBusycv = none ↔ d = none := by
  cases d <;> simp [wakeBusycv]

@[simp] theorem wakeBusycv_ne_busycv : d.wakeBusycv ≠ busycv true := by
  cases d <;> simp [wakeBusycv]

@[simp] theorem wakeBusycv_eq_waitcv : d.wakeBusycv = waitcv b ↔ d = waitcv b := by
  cases d <;> simp [wakeBusycv]

@[simp] theorem wakeBusycv_eq_returned : d.wakeBusycv = returned ↔ d = returned := by
  cases d <;> simp [wakeBusycv]

end Destroyer

/-- `thr_pool_create` -/
def thrPoolCreate (T C J : Type*) (minThreads maxThreads linger : UInt32) :
    Option (ThrPool T C J) :=
  if minThreads > maxThreads ∨ maxThreads < 1 then none
  else some {
    poolActive := []
    poolHead := []
    poolWait := false
    poolDestroy := false
    poolLinger := linger
    poolMinimum := minThreads.toInt32.toInt
    poolMaximum := maxThreads.toInt32.toInt
    poolNthreads := 0
    poolIdle := 0
    workers := ∅
    callers := ∅
    destroyer := .none
    submitted := []
    started := []
    finished := [] }

namespace ThrPool

variable {T C J : Type*} [DecidableEq T]

/-! ## The functions of a worker -/

/-- The worker is at another place. -/
def setWorker (s : ThrPool T C J) (t : T) (w : Worker J) : ThrPool T C J :=
  { s with workers := s.workers.insert t w }

/-- `pthread_cond_broadcast` on `pool_waitcv` -/
def broadcastWaitcv (s : ThrPool T C J) : ThrPool T C J :=
  { s with
    callers := ThreadTable.moveAll (fun _ _ => false) s.callers
    destroyer := s.destroyer.wakeWaitcv }

/-- `notify_waiters` -/
def notifyWaiters (s : ThrPool T C J) : ThrPool T C J :=
  if s.poolHead = [] ∧ s.poolActive = [] then broadcastWaitcv { s with poolWait := false }
  else s

omit [DecidableEq T] in
@[simp] theorem notify_workers (s : ThrPool T C J) :
    (if s.poolWait then s.notifyWaiters else s).workers = s.workers := by
  unfold notifyWaiters
  split
  · split <;> rfl
  · rfl

/-- `create_worker` with the count of the thread it creates. -/
def createWorker (s : ThrPool T C J) (created : Option T) : ThrPool T C J :=
  match created with
  | some t => { s.setWorker t .ready with poolNthreads := s.poolNthreads + 1 }
  | none => s

/-- The thread is gone and `pool_nthreads` counts it no longer. -/
def removeWorker (s : ThrPool T C J) (t : T) : ThrPool T C J :=
  { s with poolNthreads := s.poolNthreads - 1, workers := s.workers.erase t }

/-- `worker_cleanup` -/
def workerCleanup (s : ThrPool T C J) (t : T) (created : Option T) : ThrPool T C J :=
  let s := s.removeWorker t
  if s.poolDestroy then
    if s.poolNthreads = 0 then { s with destroyer := s.destroyer.wakeBusycv } else s
  else if s.poolHead ≠ [] ∧ s.poolNthreads < s.poolMaximum then s.createWorker created
  else s

theorem workerCleanup_of_destroy {s : ThrPool T C J} (h : s.poolDestroy = true) (t : T)
    (created : Option T) :
    s.workerCleanup t created =
      if s.poolNthreads - 1 = 0 then
        { s.removeWorker t with destroyer := s.destroyer.wakeBusycv }
      else s.removeWorker t :=
  if_pos h

theorem workerCleanup_of_live {s : ThrPool T C J} (h : s.poolDestroy = false) (t : T)
    (created : Option T) :
    s.workerCleanup t created =
      if s.poolHead ≠ [] ∧ s.poolNthreads - 1 < s.poolMaximum then
        (s.removeWorker t).createWorker created
      else s.removeWorker t :=
  if_neg (h.trans_ne Bool.false_ne_true)

/-- The job of a worker is off the list of active ones. -/
def leaveJob (s : ThrPool T C J) (t : T) (job : J) : ThrPool T C J :=
  { s.setWorker t .ready with
    poolActive := s.poolActive.erase t
    finished := s.finished ++ [job] }

/-- `job_cleanup` -/
def jobCleanup (s : ThrPool T C J) (t : T) (job : J) : ThrPool T C J :=
  let s := s.leaveJob t job
  if s.poolWait then s.notifyWaiters else s

/-- The worker is no longer counted in `pool_idle`. -/
def leaveIdle (s : ThrPool T C J) (t : T) : ThrPool T C J :=
  { s.setWorker t .ready with poolIdle := s.poolIdle - 1 }

/-- The first job is taken off the queue and the worker is put on the list of active
ones. -/
def takeJob (s : ThrPool T C J) (t : T) (job : J) (rest : List J) : ThrPool T C J :=
  { s.setWorker t (.running job) with
    poolHead := rest
    poolActive := t :: s.poolActive
    started := s.started ++ [job] }

/-- The body of `worker_thread` from the end of its wait; `again` is the next iteration. -/
def afterWait (again : ThrPool T C J → Option (ThrPool T C J)) (t : T)
    (created : Option T) (timedout : Bool) (s : ThrPool T C J) : Option (ThrPool T C J) :=
  let s := s.leaveIdle t
  if s.poolDestroy then some (s.workerCleanup t created)
  else
    match s.poolHead with
    | job :: rest => some (s.takeJob t job rest)
    | [] =>
        if timedout ∧ s.poolNthreads > s.poolMinimum then some (s.workerCleanup t created)
        else again s

section AfterWait

variable {again : ThrPool T C J → Option (ThrPool T C J)} {t : T} {created : Option T}
  {timedout : Bool} {s : ThrPool T C J}

theorem afterWait_of_destroy (h : s.poolDestroy = true) :
    afterWait again t created timedout s = some ((s.leaveIdle t).workerCleanup t created) :=
  if_pos h

theorem afterWait_of_cons (h : s.poolDestroy = false) {job : J} {rest : List J}
    (hhead : s.poolHead = job :: rest) :
    afterWait again t created timedout s = some ((s.leaveIdle t).takeJob t job rest) := by
  simp only [afterWait, leaveIdle, setWorker, h, hhead, Bool.false_eq_true, if_false]

theorem afterWait_of_nil (h : s.poolDestroy = false) (hhead : s.poolHead = []) :
    afterWait again t created timedout s =
      if timedout = true ∧ s.poolNthreads > s.poolMinimum then
        some ((s.leaveIdle t).workerCleanup t created)
      else again (s.leaveIdle t) := by
  simp only [afterWait, leaveIdle, setWorker, h, hhead, Bool.false_eq_true, if_false]

end AfterWait

/-- The body of `worker_thread` from the condition of its wait. -/
def waitForWork (again : ThrPool T C J → Option (ThrPool T C J)) (t : T)
    (created : Option T) (s : ThrPool T C J) : Option (ThrPool T C J) :=
  if s.poolHead = [] ∧ ¬s.poolDestroy then
    if s.poolNthreads ≤ s.poolMinimum then some (s.setWorker t (.blocked false))
    else if s.poolLinger = 0 then afterWait again t created true s
    else some (s.setWorker t (.blocked true))
  else afterWait again t created false s

/-- The worker is counted in `pool_idle`. -/
def enterIdle (s : ThrPool T C J) (t : T) : ThrPool T C J :=
  { s.setWorker t (.awake false) with poolIdle := s.poolIdle + 1 }

/-- The loop of `worker_thread`, for a number of iterations. -/
def mainLoop (t : T) (created : Option T) : ℕ → ThrPool T C J → Option (ThrPool T C J)
  | 0, _ => none
  | n + 1, s =>
      let s := s.enterIdle t
      let s := if s.poolWait then s.notifyWaiters else s
      waitForWork (mainLoop t created n) t created s

/-! ## The functions of the clients -/

/-- `pthread_cond_signal` on `pool_workcv`, by the threads it unblocks. -/
def signalWorkcv (s : ThrPool T C J) (unblocked : List T) : ThrPool T C J :=
  { s with
    workers := ThreadTable.moveAll (fun t w => if t ∈ unblocked then w.wake else w)
      s.workers }

/-- The job is put at the end of the queue. -/
def appendJob (s : ThrPool T C J) (job : J) : ThrPool T C J :=
  { s with poolHead := s.poolHead ++ [job], submitted := s.submitted ++ [job] }

/-- `thr_pool_queue` -/
def thrPoolQueue (s : ThrPool T C J) (job : J) (unblocked : List T) (created : Option T) :
    ThrPool T C J :=
  let s := s.appendJob job
  if s.poolIdle > 0 then s.signalWorkcv unblocked
  else if s.poolNthreads < s.poolMaximum then s.createWorker created
  else s

/-- The new job is signalled to a worker, or for a new one, or left to those that run. -/
theorem thrPoolQueue_cases (s : ThrPool T C J) (job : J) (unblocked : List T)
    (created : Option T) :
    (s.poolIdle > 0 ∧
        s.thrPoolQueue job unblocked created = (s.appendJob job).signalWorkcv unblocked) ∨
      (¬s.poolIdle > 0 ∧ s.poolNthreads < s.poolMaximum ∧
        s.thrPoolQueue job unblocked created = (s.appendJob job).createWorker created) ∨
      (¬s.poolIdle > 0 ∧ ¬s.poolNthreads < s.poolMaximum ∧
        s.thrPoolQueue job unblocked created = s.appendJob job) := by
  by_cases hidle : s.poolIdle > 0
  · exact Or.inl ⟨hidle, if_pos hidle⟩
  · right
    by_cases hlt : s.poolNthreads < s.poolMaximum
    · exact Or.inl ⟨hidle, hlt, (if_neg hidle).trans (if_pos hlt)⟩
    · exact Or.inr ⟨hidle, hlt, (if_neg hidle).trans (if_neg hlt)⟩

/-- The loop of `thr_pool_wait`, up to where the thread blocks or returns. -/
def thrPoolWait [DecidableEq C] (s : ThrPool T C J) (c : C) : ThrPool T C J :=
  if s.poolHead ≠ [] ∨ s.poolActive ≠ [] then
    { s with poolWait := true, callers := s.callers.insert c true }
  else { s with callers := s.callers.erase c }

/-- The second loop of `thr_pool_destroy`, and the end of the pool: what it still holds is
freed with it. -/
def destroyBusy (s : ThrPool T C J) : ThrPool T C J :=
  if s.poolNthreads ≠ 0 then { s with destroyer := .busycv true }
  else { s with destroyer := .returned }

/-- The first loop of `thr_pool_destroy` and what follows it. -/
def destroyActive (s : ThrPool T C J) : ThrPool T C J :=
  if s.poolActive ≠ [] then { s with poolWait := true, destroyer := .waitcv true }
  else s.destroyBusy

/-- `pthread_cond_broadcast` on `pool_workcv` -/
def broadcastWorkcv (s : ThrPool T C J) : ThrPool T C J :=
  { s with workers := ThreadTable.moveAll (fun _ w => w.wake) s.workers }

/-- `thr_pool_destroy`.  A worker whose job is cancelled leaves it as if the job had
called `pthread_exit`. -/
def thrPoolDestroy (s : ThrPool T C J) : ThrPool T C J :=
  (broadcastWorkcv { s with poolDestroy := true }).destroyActive

/-! ## Interleavings -/

/-- A call, a thread that goes on, or a wake-up. -/
inductive Event (T C J : Type*)
  | queue (job : J) (unblocked : List T) (created : Option T)
  | acquire (t : T) (created : Option T)
  | finish (t : T) (created : Option T)
  | exit (t : T) (created : Option T)
  | timeout (t : T)
  | spurious (t : T)
  | wait (c : C)
  | acquireCaller (c : C)
  | spuriousCaller (c : C)
  | destroy
  | acquireDestroyer
  | spuriousDestroyer

/-- The thread that `pthread_create` gives, if the step calls it. -/
def Event.created : Event T C J → Option T
  | queue _ _ created | acquire _ created | finish _ created | exit _ created => created
  | _ => none

/-- A signal unblocks blocked threads only, and at least one if there is any. -/
def Unblocks (s : ThrPool T C J) (unblocked : List T) : Prop :=
  (∀ t ∈ unblocked, (s.workers.lookup t).any Worker.isBlocked) ∧
    (unblocked = [] → ThreadTable.count Worker.isBlocked s.workers = 0)

instance (s : ThrPool T C J) (unblocked : List T) : Decidable (s.Unblocks unblocked) :=
  inferInstanceAs (Decidable (_ ∧ _))

/-- A worker goes on from where it is, holding the mutex. -/
def resume (s : ThrPool T C J) (t : T) (created : Option T) : Option (ThrPool T C J) :=
  match s.workers.lookup t with
  | some .ready => mainLoop t created 1 s
  | some (.awake false) => waitForWork (mainLoop t created 1) t created s
  | some (.awake true) => afterWait (mainLoop t created 1) t created true s
  | _ => none

/-! ## What a worker can do -/

/-- The parts of a worker's step.  A job is taken with the end of the wait before it, and
`POOL_WAIT` is answered with the job that is left.  A worker that terminates after its
wait leaves no job behind that another thread would have to be created for. -/
inductive Move (t : T) (created : Option T) : ThrPool T C J → ThrPool T C J → Prop
  | enterIdle {s} (ht : s.workers.lookup t = some .ready) :
      Move t created s (s.enterIdle t)
  | notify {s} : Move t created s (if s.poolWait then s.notifyWaiters else s)
  | block {s b timed} (ht : s.workers.lookup t = some (.awake b))
      (hlive : s.poolDestroy = false) (hempty : s.poolHead = []) :
      Move t created s (s.setWorker t (.blocked timed))
  | leaveIdle {s b} (ht : s.workers.lookup t = some (.awake b))
      (hempty : s.poolHead = [] ∨ s.poolDestroy = true) :
      Move t created s (s.leaveIdle t)
  | takeJob {s b job rest} (ht : s.workers.lookup t = some (.awake b))
      (hlive : s.poolDestroy = false) (hhead : s.poolHead = job :: rest) :
      Move t created s ((s.leaveIdle t).takeJob t job rest)
  | jobCleanup {s job} (ht : s.workers.lookup t = some (.running job)) :
      Move t created s (s.jobCleanup t job)
  | workerCleanup {s} (ht : s.workers.lookup t = some .ready)
      (hnew : ∀ u ∈ created, u ∉ s.workers)
      (hempty : s.poolHead = [] ∨ s.poolDestroy = true) :
      Move t created s (s.workerCleanup t created)

section Moves

open ThreadTable Relation

variable {s : ThrPool T C J} {t : T} {created : Option T} {timedout b : Bool}
  {again : ThrPool T C J → Option (ThrPool T C J)}

/-- A new thread stays new when an old one moves. -/
theorem notMem_insert {table : AList fun _ : T => Worker J} {w w' : Worker J}
    (h : table.lookup t = some w) (hnew : ∀ u ∈ created, u ∉ table) :
    ∀ u ∈ created, u ∉ table.insert t w' := by
  intro u hu hmem
  rcases (AList.mem_insert _).mp hmem with rfl | hmem
  · exact hnew u hu (mem_of_lookup h)
  · exact hnew u hu hmem

/-- After its wait a worker terminates, takes a job, or goes on to the next iteration
with the queue empty. -/
theorem exists_afterWait (ht : s.workers.lookup t = some (.awake b))
    (hnew : ∀ u ∈ created, u ∉ s.workers)
    (hagain : s.poolHead = [] → s.poolDestroy = false →
      (timedout = true → s.poolNthreads ≤ s.poolMinimum) →
        ∃ u, again (s.leaveIdle t) = some u ∧
          ReflTransGen (Move t created) (s.leaveIdle t) u) :
    ∃ u, afterWait again t created timedout s = some u ∧
      ReflTransGen (Move t created) s u := by
  have hready : (s.leaveIdle t).workers.lookup t = some .ready := AList.lookup_insert _
  have hclean : s.poolHead = [] ∨ s.poolDestroy = true →
      Move t created (s.leaveIdle t) ((s.leaveIdle t).workerCleanup t created) :=
    .workerCleanup hready (notMem_insert ht hnew)
  cases hdestroy : s.poolDestroy with
  | true =>
      have hleave : Move t created s (s.leaveIdle t) := .leaveIdle ht (Or.inr hdestroy)
      exact ⟨_, afterWait_of_destroy hdestroy,
        (ReflTransGen.single hleave).tail (hclean (Or.inr hdestroy))⟩
  | false =>
      cases hhead : s.poolHead with
      | cons job rest =>
          exact ⟨_, afterWait_of_cons hdestroy hhead, .single (.takeJob ht hdestroy hhead)⟩
      | nil =>
          have hleave : Move t created s (s.leaveIdle t) := .leaveIdle ht (Or.inl hhead)
          rw [afterWait_of_nil hdestroy hhead]
          by_cases hexcess : timedout = true ∧ s.poolNthreads > s.poolMinimum
          · exact ⟨_, if_pos hexcess,
              (ReflTransGen.single hleave).tail (hclean (Or.inl hhead))⟩
          · have hmin : timedout = true → s.poolNthreads ≤ s.poolMinimum := fun htimed => by
              by_contra hgt
              exact hexcess ⟨htimed, Int.not_le.mp hgt⟩
            obtain ⟨u, hu, hmoves⟩ := hagain hhead hdestroy hmin
            exact ⟨u, (if_neg hexcess).trans hu, hmoves.head hleave⟩

/-- From the condition of its wait a worker never comes to a second iteration. -/
theorem exists_waitForWork (ht : s.workers.lookup t = some (.awake b))
    (hnew : ∀ u ∈ created, u ∉ s.workers) :
    ∃ u, waitForWork again t created s = some u ∧ ReflTransGen (Move t created) s u := by
  unfold waitForWork
  by_cases hwait : s.poolHead = [] ∧ ¬s.poolDestroy
  · rw [if_pos hwait]
    have hlive : s.poolDestroy = false := Bool.not_eq_true _ ▸ hwait.2
    by_cases hmin : s.poolNthreads ≤ s.poolMinimum
    · rw [if_pos hmin]
      exact ⟨_, rfl, .single (.block ht hlive hwait.1)⟩
    · rw [if_neg hmin]
      by_cases hlinger : s.poolLinger = 0
      · rw [if_pos hlinger]
        exact exists_afterWait ht hnew fun _ _ hle => absurd (hle rfl) hmin
      · rw [if_neg hlinger]
        exact ⟨_, rfl, .single (.block ht hlive hwait.1)⟩
  · rw [if_neg hwait]
    refine exists_afterWait ht hnew fun hhead hlive _ => absurd ⟨hhead, ?_⟩ hwait
    rw [hlive]
    exact Bool.false_ne_true

/-- An iteration of the loop ends in a wait, in a job or with the thread. -/
theorem exists_mainLoop (ht : s.workers.lookup t = some .ready)
    (hnew : ∀ u ∈ created, u ∉ s.workers) (n : ℕ) :
    ∃ u, mainLoop t created (n + 1) s = some u ∧ ReflTransGen (Move t created) s u := by
  have henter : Move t created s (s.enterIdle t) := .enterIdle ht
  set w := if (s.enterIdle t).poolWait then (s.enterIdle t).notifyWaiters else s.enterIdle t
    with hw
  have hnotify : Move t created (s.enterIdle t) w := .notify
  have hworkers : w.workers = (s.enterIdle t).workers := notify_workers _
  have hwaiting : w.workers.lookup t = some (.awake false) := by
    rw [hworkers]
    exact AList.lookup_insert _
  have hfresh : ∀ u ∈ created, u ∉ w.workers := by
    rw [hworkers]
    exact notMem_insert ht hnew
  obtain ⟨u, hu, hmoves⟩ : ∃ u, waitForWork (mainLoop t created n) t created w = some u ∧
      ReflTransGen (Move t created) w u := exists_waitForWork hwaiting hfresh
  exact ⟨u, hu, (hmoves.head hnotify).head henter⟩

/-- A worker at the mutex always gets on when it has it. -/
theorem exists_resume {w : Worker J} (ht : s.workers.lookup t = some w)
    (hw : w = .ready ∨ w.isAwake = true) (hnew : ∀ u ∈ created, u ∉ s.workers) :
    ∃ u, s.resume t created = some u ∧ ReflTransGen (Move t created) s u := by
  unfold resume
  rw [ht]
  cases w with
  | ready => exact exists_mainLoop ht hnew 0
  | awake timedout =>
      cases timedout with
      | false => exact exists_waitForWork ht hnew
      | true =>
          refine exists_afterWait ht hnew fun _ _ _ => ?_
          exact exists_mainLoop (AList.lookup_insert _) (notMem_insert ht hnew) 0
  | blocked timed => simp [Worker.isAwake] at hw
  | running job => simp [Worker.isAwake] at hw

theorem jobCleanup_workers (t : T) (job : J) :
    (s.jobCleanup t job).workers = s.workers.insert t .ready :=
  notify_workers (s.leaveJob t job)

theorem lookup_jobCleanup (t : T) (job : J) :
    (s.jobCleanup t job).workers.lookup t = some .ready := by
  rw [jobCleanup_workers]
  exact AList.lookup_insert _

theorem notMem_jobCleanup {job : J} (ht : s.workers.lookup t = some (.running job))
    (hnew : ∀ u ∈ created, u ∉ s.workers) :
    ∀ u ∈ created, u ∉ (s.jobCleanup t job).workers := by
  rw [jobCleanup_workers]
  exact notMem_insert ht hnew

theorem exists_finish {job : J} (ht : s.workers.lookup t = some (.running job))
    (hnew : ∀ u ∈ created, u ∉ s.workers) :
    ∃ u, mainLoop t created 1 (s.jobCleanup t job) = some u ∧
      ReflTransGen (Move t created) s u := by
  obtain ⟨u, hu, hmoves⟩ :=
    exists_mainLoop (lookup_jobCleanup t job) (notMem_jobCleanup ht hnew) 0
  exact ⟨u, hu, hmoves.head (.jobCleanup ht)⟩

end Moves

variable [DecidableEq C]

/-- A step of a pool that has not been freed. -/
def stepLive (s : ThrPool T C J) : Event T C J → Option (ThrPool T C J)
  | .queue job unblocked created =>
      if s.Unblocks unblocked then some (s.thrPoolQueue job unblocked created) else none
  | .acquire t created => s.resume t created
  | .finish t created =>
      match s.workers.lookup t with
      | some (.running job) => mainLoop t created 1 (s.jobCleanup t job)
      | _ => none
  | .exit t created =>
      match s.workers.lookup t with
      | some (.running job) => some ((s.jobCleanup t job).workerCleanup t created)
      | _ => none
  | .timeout t =>
      match s.workers.lookup t with
      | some (.blocked true) => some (s.setWorker t (.awake true))
      | _ => none
  | .spurious t =>
      match s.workers.lookup t with
      | some (.blocked _) => some (s.setWorker t (.awake false))
      | _ => none
  | .wait c => if c ∈ s.callers then none else some (s.thrPoolWait c)
  | .acquireCaller c =>
      if s.callers.lookup c = some false then some (s.thrPoolWait c) else none
  | .spuriousCaller c =>
      if s.callers.lookup c = some true then
        some { s with callers := s.callers.insert c false }
      else none
  | .destroy => if s.destroyer = .none then some s.thrPoolDestroy else none
  | .acquireDestroyer =>
      match s.destroyer with
      | .waitcv false => some s.destroyActive
      | .busycv false => some s.destroyBusy
      | _ => none
  | .spuriousDestroyer =>
      match s.destroyer with
      | .waitcv true => some { s with destroyer := .waitcv false }
      | .busycv true => some { s with destroyer := .busycv false }
      | _ => none

section StepLive

variable {s s' : ThrPool T C J} {t : T} {created : Option T}

theorem stepLive_queue {job : J} {unblocked : List T} :
    s.stepLive (.queue job unblocked created) = some s' ↔
      s.Unblocks unblocked ∧ s.thrPoolQueue job unblocked created = s' := by
  simp only [stepLive, Option.ite_none_right_eq_some, Option.some_inj]

theorem stepLive_acquire (hnew : ∀ u ∈ created, u ∉ s.workers)
    (h : s.stepLive (.acquire t created) = some s') :
    Relation.ReflTransGen (Move t created) s s' := by
  have hgo : ∀ {w : Worker J}, s.workers.lookup t = some w →
      w = .ready ∨ w.isAwake = true → Relation.ReflTransGen (Move t created) s s' := by
    intro w ht hw
    obtain ⟨u, hu, hmoves⟩ := exists_resume ht hw hnew
    obtain rfl : u = s' := Option.some_inj.mp (hu.symm.trans h)
    exact hmoves
  cases hw : s.workers.lookup t with
  | none =>
      simp [stepLive, resume, hw] at h
  | some w =>
      cases w with
      | ready => exact hgo hw (Or.inl rfl)
      | awake timedout => exact hgo hw (Or.inr rfl)
      | blocked timed => simp [stepLive, resume, hw] at h
      | running job => simp [stepLive, resume, hw] at h

theorem stepLive_finish :
    s.stepLive (.finish t created) = some s' ↔
      ∃ job, s.workers.lookup t = some (.running job) ∧
        mainLoop t created 1 (s.jobCleanup t job) = some s' := by
  simp only [stepLive]
  split <;> simp_all

theorem stepLive_exit :
    s.stepLive (.exit t created) = some s' ↔
      ∃ job, s.workers.lookup t = some (.running job) ∧
        (s.jobCleanup t job).workerCleanup t created = s' := by
  simp only [stepLive]
  split <;> simp_all

theorem stepLive_timeout :
    s.stepLive (.timeout t) = some s' ↔
      s.workers.lookup t = some (.blocked true) ∧ s.setWorker t (.awake true) = s' := by
  simp only [stepLive]
  split <;> simp_all

theorem stepLive_spurious :
    s.stepLive (.spurious t) = some s' ↔
      ∃ timed, s.workers.lookup t = some (.blocked timed) ∧
        s.setWorker t (.awake false) = s' := by
  simp only [stepLive]
  split <;> simp_all

theorem stepLive_acquireDestroyer :
    s.stepLive .acquireDestroyer = some s' ↔
      (s.destroyer = .waitcv false ∧ s.destroyActive = s') ∨
      (s.destroyer = .busycv false ∧ s.destroyBusy = s') := by
  simp only [stepLive]
  split <;> simp_all

theorem stepLive_spuriousDestroyer :
    s.stepLive .spuriousDestroyer = some s' ↔
      (s.destroyer = .waitcv true ∧ { s with destroyer := .waitcv false } = s') ∨
      (s.destroyer = .busycv true ∧ { s with destroyer := .busycv false } = s') := by
  simp only [stepLive]
  split <;> simp_all

end StepLive

/-- A step: a freed pool takes none, and a thread that is created is a new one. -/
def step (s : ThrPool T C J) (e : Event T C J) : Option (ThrPool T C J) :=
  if s.destroyer = .returned ∨ ∃ t ∈ e.created, t ∈ s.workers then none else s.stepLive e

theorem step_eq_some {s s' : ThrPool T C J} {e : Event T C J} :
    s.step e = some s' ↔
      s.destroyer ≠ .returned ∧ (∀ t ∈ e.created, t ∉ s.workers) ∧
        s.stepLive e = some s' := by
  unfold step
  rw [Option.ite_none_left_eq_some, not_or, and_assoc]
  push Not
  rfl

/-- What a step does, by who takes it. -/
inductive Effect (s : ThrPool T C J) : Event T C J → ThrPool T C J → Prop
  | queue {job unblocked created} (hsignal : s.Unblocks unblocked) :
      Effect s (.queue job unblocked created) (s.thrPoolQueue job unblocked created)
  | work {e t s'} (hmoves : Relation.ReflTransGen (Move t e.created) s s') : Effect s e s'
  | exit {t created job} (ht : s.workers.lookup t = some (.running job)) :
      Effect s (.exit t created) ((s.jobCleanup t job).workerCleanup t created)
  | unblock {e t timed b} (ht : s.workers.lookup t = some (.blocked timed)) :
      Effect s e (s.setWorker t (.awake b))
  | wait {e} (c : C) : Effect s e (s.thrPoolWait c)
  | wakeCaller {e} (c : C) : Effect s e { s with callers := s.callers.insert c false }
  | destroy (hd : s.destroyer = .none) : Effect s .destroy s.thrPoolDestroy
  | destroyActive (hd : s.destroyer = .waitcv false) :
      Effect s .acquireDestroyer s.destroyActive
  | destroyBusy (hd : s.destroyer = .busycv false) :
      Effect s .acquireDestroyer s.destroyBusy
  | wakeWaitcv (hd : s.destroyer = .waitcv true) :
      Effect s .spuriousDestroyer { s with destroyer := .waitcv false }
  | wakeBusycv (hd : s.destroyer = .busycv true) :
      Effect s .spuriousDestroyer { s with destroyer := .busycv false }

theorem step_effect {s s' : ThrPool T C J} {e : Event T C J} (h : s.step e = some s') :
    s.destroyer ≠ .returned ∧ (∀ t ∈ e.created, t ∉ s.workers) ∧ Effect s e s' := by
  obtain ⟨hnr, hnew, h⟩ := step_eq_some.mp h
  refine ⟨hnr, hnew, ?_⟩
  cases e with
  | queue job unblocked created =>
      obtain ⟨hsignal, rfl⟩ := stepLive_queue.mp h
      exact .queue hsignal
  | acquire t created => exact .work (stepLive_acquire hnew h)
  | finish t created =>
      obtain ⟨job, ht, hloop⟩ := stepLive_finish.mp h
      obtain ⟨u, hu, hmoves⟩ := exists_finish ht hnew
      obtain rfl : u = s' := Option.some_inj.mp (hu.symm.trans hloop)
      exact .work hmoves
  | exit t created =>
      obtain ⟨job, ht, rfl⟩ := stepLive_exit.mp h
      exact .exit ht
  | timeout t =>
      obtain ⟨ht, rfl⟩ := stepLive_timeout.mp h
      exact .unblock ht
  | spurious t =>
      obtain ⟨timed, ht, rfl⟩ := stepLive_spurious.mp h
      exact .unblock ht
  | wait c =>
      rw [stepLive, Option.ite_none_left_eq_some, Option.some_inj] at h
      rw [← h.2]
      exact .wait c
  | acquireCaller c =>
      rw [stepLive, Option.ite_none_right_eq_some, Option.some_inj] at h
      rw [← h.2]
      exact .wait c
  | spuriousCaller c =>
      rw [stepLive, Option.ite_none_right_eq_some, Option.some_inj] at h
      rw [← h.2]
      exact .wakeCaller c
  | destroy =>
      rw [stepLive, Option.ite_none_right_eq_some, Option.some_inj] at h
      rw [← h.2]
      exact .destroy h.1
  | acquireDestroyer =>
      rcases stepLive_acquireDestroyer.mp h with ⟨hd, rfl⟩ | ⟨hd, rfl⟩
      · exact .destroyActive hd
      · exact .destroyBusy hd
  | spuriousDestroyer =>
      rcases stepLive_spuriousDestroyer.mp h with ⟨hd, rfl⟩ | ⟨hd, rfl⟩
      · exact .wakeWaitcv hd
      · exact .wakeBusycv hd

end ThrPool

end HyLisp.ControlPlane
