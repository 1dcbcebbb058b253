import Mathlib.Data.List.Basic

/-!
`ThreadPool` (`src/thread_pool/ThreadPool.hpp`): `post_task`, `stop` and `thread_worker`, with
the constructor's `add_threads`.

The pool is `tp_run_`, the task ids in `tp_tasks_`, where each worker thread is, where each
`post_task` call is (a call is known by the id of the task it queues) and where `stop()` is;
`done` records the tasks whose run has returned, in order. A step is the next statement of one
thread. `tp_mutex_` shows as the guard of the steps that take it: the critical sections of
`post_task` and `stop()` are each one step, and the only place that holds the mutex across
steps is a worker that has found the predicate false and has not yet blocked in
`tp_task_cv_.wait`. `tp_run_`'s compare-and-swap and the notifications are their own steps,
taken without the mutex, as the code does. A waiting worker wakes at a notification or
spuriously, and then takes the mutex and re-tests the predicate.

Every run keeps each task in `tp_tasks_`, in a worker's hands, or done, exactly once in all,
exactly when its call has queued it; a worker returns only when `tp_run_` is false and the
queue is empty, and no call queues a task after that. So once every worker has returned, which
`stop()`'s joins wait for, each task a `post_task` call queued has run exactly once. But `stop()`
can clear `tp_run_` and call `notify_all` between a worker's test of the predicate and its
block; that worker then sleeps through the only notification, and `stop()` never returns from
its joins (`stop_hangs_on_lost_wakeup`).
-/

set_option autoImplicit false
set_option relaxedAutoImplicit false

namespace ReactorServer.Threads.ThreadPool

def kMaxThreads : Nat := 64

/-- Where a worker thread is in `thread_worker`. -/
inductive WorkerPc
  -- At the top of `while (true)`: next it takes `tp_mutex_` and tests the predicate.
  | top
  -- Holding `tp_mutex_`, the predicate false: next it blocks in `tp_task_cv_.wait`.
  | checked
  -- Blocked in `tp_task_cv_.wait`, with `tp_mutex_` released.
  | waiting
  -- Running the task it popped, with `tp_mutex_` released.
  | running (t : Nat)
  -- Returned from `thread_worker`.
  | exited
  deriving DecidableEq, Repr

/-- Where the `post_task` call of a task is. -/
inductive PostPc
  -- Not yet made.
  | idle
  -- Past the test of `tp_run_` without the mutex: next its critical section.
  | locking
  -- Its task queued and the mutex released: next `notify_one`.
  | notifying
  -- It returned the future.
  | returned
  -- It threw `post_task on stopped ThreadPool`.
  | threw
  deriving DecidableEq, Repr

def PostPc.queued : PostPc → Bool
  | .notifying | .returned => true
  | _ => false

/-- Where `stop()` is. -/
inductive StopPc
  -- Not yet called: next the compare-and-swap of `tp_run_`.
  | idle
  -- Next `tp_task_cv_.notify_all()`.
  | notifying
  -- Next the swap of `tp_pool_` under the mutex.
  | swapping
  -- Joining the workers.
  | joining
  -- Returned.
  | returned
  deriving DecidableEq, Repr

/-- A `ThreadPool` and the threads in its code. -/
structure Pool where
  run : Bool
  tasks : List Nat
  workers : List WorkerPc
  posters : Nat → PostPc
  stopper : StopPc
  done : List Nat

/-- The constructor: a `thread_count` of `0` means one thread, and more than `kMaxThreads`
throws; `add_threads` on the empty pool then starts `min thread_count kMaxThreads` workers. -/
def create (threadCount : Nat) : Option Pool :=
  let threadCount := if threadCount = 0 then 1 else threadCount
  if kMaxThreads < threadCount then none
  else some ⟨true, [], List.replicate (min threadCount kMaxThreads) .top, fun _ => .idle, .idle, []⟩

/-- A notification of `tp_task_cv_` to a worker: a waiting one wakes. -/
def wake : WorkerPc → WorkerPc
  | .waiting => .top
  | w => w

/-- The next statement of worker `i`, at `pc`. Under the mutex, a non-empty queue passes the
predicate `!tp_run_ || !tp_tasks_.empty()` and fails the exit test
`!tp_run_ && tp_tasks_.empty()`, so the worker pops its front; with an empty queue the
predicate is false while `tp_run_` holds, and the exit test true once it does not. -/
def workerStep (p : Pool) (i : Nat) : WorkerPc → Pool
  | .top =>
    if WorkerPc.checked ∈ p.workers then p
    else match p.tasks with
      | t :: rest => { p with tasks := rest, workers := p.workers.set i (.running t) }
      | [] => { p with workers := p.workers.set i (if p.run then .checked else .exited) }
  | .checked => { p with workers := p.workers.set i .waiting }
  | .waiting => p
  | .running t => { p with workers := p.workers.set i .top, done := p.done ++ [t] }
  | .exited => p

/-- The next statement of the `post_task` call of task `t`, at `pc`. Its `notify_one` wakes
worker `j`, which has to be waiting unless no worker is, when the notification is lost. -/
def postStep (p : Pool) (t j : Nat) : PostPc → Pool
  | .idle => { p with posters := Function.update p.posters t (if p.run then .locking else .threw) }
  | .locking =>
    if WorkerPc.checked ∈ p.workers then p
    else if p.run then
      { p with tasks := p.tasks ++ [t], posters := Function.update p.posters t .notifying }
    else { p with posters := Function.update p.posters t .threw }
  | .notifying =>
    if p.workers[j]? = some .waiting then
      { p with workers := p.workers.set j .top, posters := Function.update p.posters t .returned }
    else if WorkerPc.waiting ∈ p.workers then p
    else { p with posters := Function.update p.posters t .returned }
  | .returned => p
  | .threw => p

def stopStep (p : Pool) : StopPc → Pool
  | .idle =>
    if p.run then { p with run := false, stopper := .notifying } else { p with stopper := .returned }
  | .notifying => { p with workers := p.workers.map wake, stopper := .swapping }
  | .swapping => if WorkerPc.checked ∈ p.workers then p else { p with stopper := .joining }
  | .joining => if ∀ w ∈ p.workers, w = .exited then { p with stopper := .returned } else p
  | .returned => p

/-- What happens next: a statement of worker `i`, a spurious wake-up of worker `i`, a statement
of the `post_task` call of task `t` (whose `notify_one` would wake worker `j`), or a statement
of `stop()`. -/
inductive Step
  | worker (i : Nat)
  | spurious (i : Nat)
  | post (t j : Nat)
  | stop
  deriving DecidableEq, Repr

/-- One step; a step whose thread cannot move leaves the pool as it is. -/
def step (p : Pool) : Step → Pool
  | .worker i =>
    match p.workers[i]? with
    | some pc => workerStep p i pc
    | none => p
  | .spurious i =>
    if p.workers[i]? = some .waiting then { p with workers := p.workers.set i .top } else p
  | .post t j => postStep p t j (p.posters t)
  | .stop => stopStep p p.stopper

def run (p : Pool) (ss : List Step) : Pool := ss.foldl step p

@[simp] theorem run_nil (p : Pool) : run p [] = p := rfl

@[simp] theorem run_cons (p : Pool) (s : Step) (ss : List Step) :
    run p (s :: ss) = run (step p s) ss := rfl

inductive Reachable : Pool → Prop
  | create {threadCount : Nat} {p : Pool} : create threadCount = some p → Reachable p
  | step {p : Pool} (s : Step) : Reachable p → Reachable (step p s)

theorem Reachable.run {p : Pool} (h : Reachable p) (ss : List Step) : Reachable (run p ss) := by
  induction ss generalizing p with
  | nil => exact h
  | cons s ss ih => exact ih (.step s h)

/-! ## What the workers hold -/

section Counts

variable {ws : List WorkerPc} {i : Nat} {a : WorkerPc}

theorem count_running_set (hi : ws[i]? = some a) (b : WorkerPc) (t : Nat) :
    (ws.set i b).count (.running t) + (if a = .running t then 1 else 0) =
      ws.count (.running t) + (if b = .running t then 1 else 0) := by
  obtain ⟨hlt, rfl⟩ := List.getElem?_eq_some_iff.1 hi
  have hle : (if ws[i] = .running t then 1 else 0) ≤ ws.count (.running t) := by
    split_ifs with h
    · exact List.count_pos_iff.2 (h ▸ List.getElem_mem hlt)
    · exact Nat.zero_le _
  rw [List.count_set _ _ _ _ hlt]
  simp only [beq_iff_eq]
  omega

theorem count_running_set_running (hi : ws[i]? = some a) (ha : ∀ t, a ≠ .running t)
    (t t' : Nat) :
    (ws.set i (.running t)).count (.running t') = ws.count (.running t') + if t = t' then 1 else 0 := by
  simpa [ha] using count_running_set hi (.running t) t'

theorem count_running_set_of_running {t : Nat} (hi : ws[i]? = some (.running t)) {b : WorkerPc}
    (hb : ∀ t, b ≠ .running t) (t' : Nat) :
    (ws.set i b).count (.running t') + (if t = t' then 1 else 0) = ws.count (.running t') := by
  simpa [hb] using count_running_set hi b t'

theorem count_running_map_wake (ws : List WorkerPc) (t : Nat) :
    (ws.map wake).count (.running t) = ws.count (.running t) := by
  simp only [List.count, List.countP_map]
  congr 1
  funext w
  cases w <;> rfl

theorem exited_mem_set {b : WorkerPc} (h : WorkerPc.exited ∈ ws.set i b) :
    b = .exited ∨ WorkerPc.exited ∈ ws :=
  (List.mem_or_eq_of_mem_set h).elim .inr (fun h => .inl h.symm)

end Counts

/-! ## The invariant -/

/-- Each task is in `tp_tasks_`, in one worker's hands or done, once in all, exactly when its
call has queued it; a worker returns only once `tp_run_` is false and the queue empty; `stop()`
is idle only while `tp_run_` holds, and returns only once every worker has. -/
structure Inv (p : Pool) : Prop where
  once : ∀ t, p.tasks.count t + p.workers.count (.running t) + p.done.count t =
    (p.posters t).queued.toNat
  exited : WorkerPc.exited ∈ p.workers → p.run = false ∧ p.tasks = []
  idle_run : p.stopper = .idle → p.run = true
  joined : p.stopper = .returned → ∀ w ∈ p.workers, w = .exited
  nonempty : p.workers ≠ []

theorem inv_create {threadCount : Nat} {p : Pool} (h : create threadCount = some p) : Inv p := by
  simp only [create] at h
  split_ifs at h <;> cases h <;>
    exact ⟨fun t => by simp [List.count_replicate, PostPc.queued],
      fun hm => by simp [List.mem_replicate] at hm, fun _ => rfl, nofun,
      by simp [kMaxThreads] <;> omega⟩

variable {p : Pool}

theorem Inv.stopper_ne (h : Inv p) {i : Nat} {a : WorkerPc} (hi : p.workers[i]? = some a)
    (ha : a ≠ .exited) : p.stopper ≠ .returned :=
  fun hs => ha (h.joined hs a (List.getElem?_mem hi))

theorem Inv.set_idle (h : Inv p) {i : Nat} {a b : WorkerPc} (hi : p.workers[i]? = some a)
    (ha : ∀ t, a ≠ .running t) (ha' : a ≠ .exited) (hb : ∀ t, b ≠ .running t)
    (hb' : b = .exited → p.run = false ∧ p.tasks = []) :
    Inv { p with workers := p.workers.set i b } := by
  refine ⟨fun t => ?_, fun hm => ?_, h.idle_run, fun hs => absurd hs (h.stopper_ne hi ha'), ?_⟩
  · have hc := count_running_set hi b t
    have ho := h.once t
    simp only [ha, hb, if_false] at hc
    dsimp only
    omega
  · exact (exited_mem_set hm).elim hb' h.exited
  · simpa using h.nonempty

theorem Inv.workerStep (h : Inv p) {i : Nat} {pc : WorkerPc} (hi : p.workers[i]? = some pc) :
    Inv (workerStep p i pc) := by
  cases pc with
  | top =>
    by_cases hlock : WorkerPc.checked ∈ p.workers
    · simpa only [ThreadPool.workerStep, hlock, if_true] using h
    simp only [ThreadPool.workerStep, hlock, if_false]
    split
    · rename_i t rest htasks
      refine ⟨fun t' => ?_, fun hm => ?_, h.idle_run,
        fun hs => absurd hs (h.stopper_ne hi nofun), by simpa using h.nonempty⟩
      · have hc := count_running_set_running hi (fun _ => nofun) t t'
        have ho := h.once t'
        simp only [htasks, List.count_cons, beq_iff_eq] at ho
        dsimp only
        split_ifs at hc ho <;> omega
      · rcases exited_mem_set hm with hm | hm
        · cases hm
        · exact absurd (h.exited hm).2 (by simp [htasks])
    · rename_i htasks
      by_cases hr : p.run = true
      · simpa only [hr, if_true] using
          h.set_idle (b := .checked) hi (fun _ => nofun) nofun (fun _ => nofun) nofun
      · simpa only [hr, if_false] using h.set_idle (b := .exited) hi (fun _ => nofun) nofun
          (fun _ => nofun) fun _ => ⟨by simpa using hr, htasks⟩
  | checked => exact h.set_idle (b := .waiting) hi (fun _ => nofun) nofun (fun _ => nofun) nofun
  | waiting => exact h
  | running t =>
    simp only [ThreadPool.workerStep]
    refine ⟨fun t' => ?_, fun hm => ?_, h.idle_run,
      fun hs => absurd hs (h.stopper_ne hi nofun), by simpa using h.nonempty⟩
    · have hc := count_running_set_of_running (b := .top) hi (fun _ => nofun) t'
      have ho := h.once t'
      dsimp only
      simp only [List.count_append, List.count_singleton, beq_iff_eq]
      split_ifs at hc ⊢ <;> omega
    · exact (exited_mem_set hm).elim nofun h.exited
  | exited => exact h

theorem Inv.setPoster (h : Inv p) {t : Nat} {v : PostPc} (hv : v.queued = (p.posters t).queued) :
    Inv { p with posters := Function.update p.posters t v } := by
  refine ⟨fun t' => ?_, h.exited, h.idle_run, h.joined, h.nonempty⟩
  by_cases htt : t' = t
  · subst htt
    simpa [hv] using h.once t'
  · simpa [htt] using h.once t'

theorem Inv.postStep (h : Inv p) (t j : Nat) : Inv (postStep p t j (p.posters t)) := by
  cases hpc : p.posters t with
  | idle =>
    refine h.setPoster ?_
    rw [hpc]
    split_ifs <;> rfl
  | locking =>
    simp only [ThreadPool.postStep]
    split_ifs with hlock hr
    · exact h
    · refine ⟨fun t' => ?_, fun hm => absurd hr (by simp [(h.exited hm).1]), h.idle_run,
        h.joined, h.nonempty⟩
      have ho := h.once t'
      by_cases htt : t' = t
      · subst htt
        simp only [hpc, PostPc.queued, Bool.toNat_false] at ho
        simp only [List.count_append, List.count_singleton_self, Function.update_same,
          PostPc.queued, Bool.toNat_true]
        omega
      · have htt' : t ≠ t' := Ne.symm htt
        simpa [htt, htt', List.count_append] using ho
    · exact h.setPoster (by rw [hpc]; rfl)
  | notifying =>
    simp only [ThreadPool.postStep]
    split_ifs with hj
    · exact (h.set_idle (b := .top) hj (fun _ => nofun) nofun (fun _ => nofun) nofun).setPoster
        (t := t) (by rw [hpc]; rfl)
    · exact h
    · exact h.setPoster (by rw [hpc]; rfl)
  | returned => simpa [ThreadPool.postStep, hpc] using h
  | threw => simpa [ThreadPool.postStep, hpc] using h

theorem exited_of_mem_map_wake {ws : List WorkerPc} (h : WorkerPc.exited ∈ ws.map wake) :
    WorkerPc.exited ∈ ws := by
  obtain ⟨w, hw, hwe⟩ := List.mem_map.1 h
  cases w <;> first | exact hw | cases hwe

theorem Inv.stopStep (h : Inv p) : Inv (stopStep p p.stopper) := by
  cases hs : p.stopper with
  | idle =>
    have hr := h.idle_run hs
    simp only [ThreadPool.stopStep, hr, if_true]
    exact ⟨h.once, fun hm => absurd hr (by simp [(h.exited hm).1]), nofun, nofun, h.nonempty⟩
  | notifying =>
    simp only [ThreadPool.stopStep]
    exact ⟨fun t => by simpa [count_running_map_wake] using h.once t,
      fun hm => h.exited (exited_of_mem_map_wake hm), nofun, nofun, by simpa using h.nonempty⟩
  | swapping =>
    simp only [ThreadPool.stopStep]
    split_ifs
    · exact h
    · exact ⟨h.once, h.exited, nofun, nofun, h.nonempty⟩
  | joining =>
    simp only [ThreadPool.stopStep]
    split_ifs with hj
    · exact ⟨h.once, h.exited, nofun, fun _ => hj, h.nonempty⟩
    · exact h
  | returned => simpa [ThreadPool.stopStep] using h

theorem Inv.step (h : Inv p) : (s : Step) → Inv (step p s)
  | .worker i => by
    simp only [ThreadPool.step]
    split
    · exact h.workerStep ‹_›
    · exact h
  | .spurious i => by
    simp only [ThreadPool.step]
    split_ifs with hi
    · exact h.set_idle (b := .top) hi (fun _ => nofun) nofun (fun _ => nofun) nofun
    · exact h
  | .post t j => h.postStep t j
  | .stop => h.stopStep

theorem Reachable.inv (h : Reachable p) : Inv p := by
  induction h with
  | create h => exact inv_create h
  | step s _ ih => exact ih.step s

/-! ## Every queued task runs once -/

theorem Inv.done_count (h : Inv p) (hall : ∀ w ∈ p.workers, w = .exited) (t : Nat) :
    p.done.count t = (p.posters t).queued.toNat := by
  obtain ⟨w, hw⟩ := List.exists_mem_of_ne_nil _ h.nonempty
  have htasks := (h.exited (hall w hw ▸ hw)).2
  have hheld : p.workers.count (.running t) = 0 :=
    List.count_eq_zero.2 fun hm => nomatch hall _ hm
  simpa [htasks, hheld] using h.once t

/-- For every pool the constructor built and every interleaving since of worker statements,
spurious wake-ups, `post_task` calls and `stop()`: each task is in `tp_tasks_`, in one worker's
hands or done, once in all, exactly when its `post_task` call has queued it, so none is lost
or run twice; and once `stop()` has returned, or every worker has, each task a call queued
(each whose future a call returned among them) has run exactly once, and no other task has. -/
theorem posted_tasks_run_once (p : Pool) (h : Reachable p) :
    (∀ t, p.tasks.count t + p.workers.count (.running t) + p.done.count t =
      (p.posters t).queued.toNat) ∧
    ((p.stopper = .returned ∨ ∀ w ∈ p.workers, w = .exited) →
      ∀ t, p.done.count t = (p.posters t).queued.toNat) := by
  have hi := h.inv
  refine ⟨hi.once, fun hs => hi.done_count ?_⟩
  rcases hs with hs | hall
  · exact hi.joined hs
  · exact hall

def twoWorkers : Pool := ⟨true, [], List.replicate 2 .top, fun _ => .idle, .idle, []⟩

theorem create_two : create 2 = some twoWorkers := rfl

def postThenStop : List Step :=
  [.post 1 0, .post 1 0, .post 1 0, .worker 0, .worker 0, .stop, .stop, .stop, .worker 0,
    .worker 1, .stop]

/-- Once `stop()` has returned, task `1`, whose `post_task` call returned its future, has run
exactly once. -/
theorem postThenStop_runs_once :
    (run twoWorkers postThenStop).stopper = .returned ∧
      (run twoWorkers postThenStop).posters 1 = .returned ∧
      (run twoWorkers postThenStop).done.count 1 = 1 :=
  have h := (Reachable.create create_two).run postThenStop
  have hs : (run twoWorkers postThenStop).stopper = .returned := rfl
  have hp : (run twoWorkers postThenStop).posters 1 = .returned := rfl
  ⟨hs, hp, by rw [(posted_tasks_run_once _ h).2 (.inl hs) 1, hp]; rfl⟩

/-! ## A wake-up `stop()` loses -/

theorem workerStep_frame (p : Pool) (j : Nat) (pc : WorkerPc) :
    (workerStep p j pc).run = p.run ∧ (workerStep p j pc).posters = p.posters ∧
      (workerStep p j pc).stopper = p.stopper ∧
      ∀ i, j ≠ i → (workerStep p j pc).workers[i]? = p.workers[i]? := by
  cases pc with
  | top =>
    by_cases hlock : WorkerPc.checked ∈ p.workers
    · simp [ThreadPool.workerStep, hlock]
    · simp only [ThreadPool.workerStep, hlock, if_false]
      split <;> exact ⟨rfl, rfl, rfl, fun _ h => List.getElem?_set_ne h⟩
  | checked | running _ => exact ⟨rfl, rfl, rfl, fun _ h => List.getElem?_set_ne h⟩
  | waiting | exited => exact ⟨rfl, rfl, rfl, fun _ _ => rfl⟩

/-- Worker `i` blocked in `tp_task_cv_.wait` once `tp_run_` is false, with `stop()` past its
`notify_all` and no `post_task` call left to notify: the window between the worker's test of
the predicate under `tp_mutex_` and its block, which `stop()`'s store and `notify_all` do not
take the mutex to close. -/
structure Stranded (i : Nat) (p : Pool) : Prop where
  run_false : p.run = false
  waiting : p.workers[i]? = some .waiting
  notified : p.stopper = .swapping ∨ p.stopper = .joining
  no_notify : ∀ t, p.posters t ≠ .notifying

variable {i : Nat}

theorem Stranded.setPoster (h : Stranded i p) {t : Nat} {v : PostPc} (hv : v ≠ .notifying) :
    Stranded i { p with posters := Function.update p.posters t v } := by
  refine ⟨h.run_false, h.waiting, h.notified, fun t' => ?_⟩
  by_cases htt : t' = t
  · subst htt
    simpa using hv
  · simpa [htt] using h.no_notify t'

theorem Stranded.step (h : Stranded i p) (s : Step) (hs : s ≠ .spurious i) :
    Stranded i (step p s) := by
  cases s with
  | worker j =>
    simp only [ThreadPool.step]
    split
    · rename_i pc hj
      by_cases hji : j = i
      · subst hji
        cases h.waiting.symm.trans hj
        exact h
      · obtain ⟨hr, hp, hst, hw⟩ := workerStep_frame p j pc
        exact ⟨hr.trans h.run_false, (hw i hji).trans h.waiting, hst ▸ h.notified,
          hp ▸ h.no_notify⟩
    · exact h
  | spurious j =>
    have hji : j ≠ i := fun e => hs (e ▸ rfl)
    simp only [ThreadPool.step]
    split_ifs
    · exact ⟨h.run_false, (List.getElem?_set_ne hji).trans h.waiting, h.notified, h.no_notify⟩
    · exact h
  | post t j =>
    have hr : ¬p.run = true := by simp [h.run_false]
    simp only [ThreadPool.step]
    cases hpc : p.posters t with
    | idle =>
      simp only [ThreadPool.postStep]
      rw [if_neg hr]
      exact h.setPoster nofun
    | locking =>
      simp only [ThreadPool.postStep]
      rw [if_neg hr]
      split_ifs
      · exact h
      · exact h.setPoster nofun
    | notifying => exact absurd hpc (h.no_notify t)
    | returned | threw => exact h
  | stop =>
    simp only [ThreadPool.step]
    rcases h.notified with hst | hst <;> simp only [hst, ThreadPool.stopStep]
    · split_ifs
      · exact h
      · exact ⟨h.run_false, h.waiting, .inr rfl, h.no_notify⟩
    · have hw : ¬∀ w ∈ p.workers, w = .exited := fun hall =>
        nomatch hall _ (List.getElem?_mem h.waiting)
      simpa only [hw, if_false] using h

theorem Stranded.run (h : Stranded i p) (ss : List Step) (hss : Step.spurious i ∉ ss) :
    Stranded i (run p ss) := by
  induction ss generalizing p with
  | nil => exact h
  | cons s ss ih =>
    rw [List.mem_cons, not_or] at hss
    exact ih (h.step s (Ne.symm hss.1)) hss.2

/-- From every pool where worker `i` is stranded, whatever the other workers, `post_task`
calls and `stop()` do next, short of a spurious wake-up of worker `i`, the worker stays blocked
and `stop()` never returns from its joins. -/
theorem stop_hangs_on_lost_wakeup (p : Pool) (i : Nat) (h : Stranded i p) (ss : List Step)
    (hss : Step.spurious i ∉ ss) :
    Stranded i (run p ss) ∧ (run p ss).stopper ≠ .returned := by
  have hs := h.run ss hss
  exact ⟨hs, hs.notified.elim (fun e => e ▸ nofun) (fun e => e ▸ nofun)⟩

def oneWorker : Pool := ⟨true, [], [.top], fun _ => .idle, .idle, []⟩

theorem create_one : create 1 = some oneWorker := rfl

def stopRace : List Step := [.worker 0, .stop, .stop, .worker 0, .stop]

theorem stopRace_strands :
    Reachable (run oneWorker stopRace) ∧ Stranded 0 (run oneWorker stopRace) ∧
      (run (run oneWorker stopRace) [.stop, .post 1 0, .post 1 0, .worker 0, .stop]).stopper ≠
        .returned :=
  have hs : Stranded 0 (run oneWorker stopRace) := ⟨rfl, rfl, .inr rfl, fun _ => nofun⟩
  ⟨(Reachable.create create_one).run stopRace, hs,
    (stop_hangs_on_lost_wakeup _ 0 hs _ (by decide)).2⟩

end ReactorServer.Threads.ThreadPool
