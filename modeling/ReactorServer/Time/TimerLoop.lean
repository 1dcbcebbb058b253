import Mathlib.Data.List.Sort

/-!
`Timer` (`src/time/Timer.hpp`, `src/time/Timer.cpp`): `schedule_once`, `schedule_periodic`,
`schedule_repeat`, `cancel`, `stop()` and `timer_loop`, on a timer that `start()` has started.

The timer is the steady clock in milliseconds, `task_queue_`, `cancelled_tasks_`,
`next_task_id_`, `is_running_`, `should_stop_`, the tasks whose callbacks `timer_loop` has handed
to the thread pool, in order, and where each thread is in its code: the `timer_loop` thread, each
`schedule_*` call (a call is known by the label of the callback it schedules) and `stop()`.
`task_queue_` is a list in the order the `priority_queue` built on `TimerTask::operator<` pops
it, so its front is `top()`. A step is the next statement of one thread. `mutex_` shows as the
guard of the steps that take it: the critical sections of `add_task`, `cancel` and `stop()`'s
clean-up are each one step, and `timer_loop` holds the mutex across steps only where it has found
the queue empty and the predicate false and has not yet blocked in `condition_.wait`. `stop()`
stores `should_stop_` and calls `notify_all` without the mutex, as the code does.

Two consequences are proved here. `cancel` answers from `cancelled_tasks_` alone, so a cancel of
an id not yet issued answers `true` and the task that later gets the id never runs
(`cancel_unissued_id_skips`). And `stop()` can set `should_stop_` and notify between the loop's
test of the predicate and its block; the loop then sleeps through the only notification and
`stop()` never returns from its join (`stop_hangs_after_lost_notify`).
-/

set_option autoImplicit false
set_option relaxedAutoImplicit false

namespace ReactorServer.Time.TimerLoop

/-- `Timer::TimerTask`. The callback is known by the label of the `schedule_*` call that built
the task; times are milliseconds of `steady_clock`. -/
structure TimerTask where
  expireTime : Nat
  callback : Nat
  taskId : Int
  repeatCount : Int
  interval : Nat
  isPeriodic : Bool
  isRepeat : Bool
  deriving DecidableEq, Repr

/-- The order of `task_queue_` from `top()` down. `operator<` is `expire_time >
other.expire_time`, so `top()` is a task that expires first; ties keep no order. -/
def TimerTask.before (a b : TimerTask) : Prop := a.expireTime ≤ b.expireTime

instance : DecidableRel TimerTask.before := fun a b => Nat.decLe a.expireTime b.expireTime

instance : IsTotal TimerTask TimerTask.before := ⟨fun a b => Nat.le_total a.expireTime b.expireTime⟩

instance : IsTrans TimerTask TimerTask.before := ⟨fun _ _ _ => Nat.le_trans⟩

def push (q : List TimerTask) (task : TimerTask) : List TimerTask :=
  q.orderedInsert TimerTask.before task

def wrapInt (x : Int) : Int := (x + 2147483648) % 4294967296 - 2147483648

/-- Where the `timer_loop` thread is. -/
inductive LoopPc
  -- At `while (!should_stop_.load())`.
  | top
  -- Past the `while` test: next it takes `mutex_` and tests `task_queue_.empty()`, and on an empty
  -- queue the wait's predicate `should_stop_ || !task_queue_.empty()`.
  | locking
  -- Holding `mutex_`, the queue empty and the predicate false: next it blocks in
  -- `condition_.wait`.
  | checked
  -- Blocked in `condition_.wait`, with `mutex_` released.
  | waiting
  -- Woken in `condition_.wait`: next it retakes `mutex_`, re-tests the predicate and then
  -- `should_stop_`.
  | woken
  -- Blocked in `condition_.wait_for` until the front task is due.
  | timedWaiting
  -- Returned from `timer_loop`, or not started.
  | exited
  deriving DecidableEq, Repr

/-- Where a `schedule_*` call is. -/
inductive CallPc
  -- Not yet made.
  | idle
  -- Its id taken and the clock read: next `add_task(task)`.
  | adding (task : TimerTask)
  -- It returned `id`, `-1` for a refused call.
  | returned (id : Int)
  deriving DecidableEq, Repr

/-- Where `stop()` is. -/
inductive StopPc
  -- Not yet called.
  | idle
  -- `should_stop_` stored: next `condition_.notify_all()`.
  | notifying
  -- Joining `timer_thread_`.
  | joining
  -- Returned.
  | returned
  deriving DecidableEq, Repr

/-- A `Timer` and the threads in its code. -/
structure Timer where
  clock : Nat
  queue : List TimerTask
  cancelled : List Int
  nextTaskId : Int
  isRunning : Bool
  shouldStop : Bool
  loop : LoopPc
  calls : Nat → CallPc
  stopper : StopPc
  posted : List TimerTask

/-- The constructor: nothing queued or cancelled, `next_task_id_` at `0`, no thread. -/
def create : Timer := ⟨0, [], [], 0, false, false, .exited, fun _ => .idle, .idle, []⟩

/-- `start()`: `is_running_.exchange(true)`; a timer that was not running clears
`should_stop_` and starts `timer_loop`. -/
def start (t : Timer) : Bool × Timer :=
  if t.isRunning then (false, t)
  else (true, { t with isRunning := true, shouldStop := false, loop := .top })

/-- `generate_task_id`: `next_task_id_.fetch_add(1)`. -/
def generateTaskId (t : Timer) : Int × Timer :=
  (t.nextTaskId, { t with nextTaskId := wrapInt (t.nextTaskId + 1) })

/-- What the three `schedule_*` templates do once their checks pass: take an id, read the clock
and build the task of callback `c`. -/
def newTask (t : Timer) (c : Nat) (ms repeatCount : Int) (isPeriodic isRepeat : Bool) :
    TimerTask × Timer :=
  (⟨t.clock + ms.toNat, c, (generateTaskId t).1, repeatCount, ms.toNat, isPeriodic, isRepeat⟩,
    (generateTaskId t).2)

/-- `schedule_once(delay_ms, f)` up to `add_task`; `none` where it returns `-1`. -/
def scheduleOnce (t : Timer) (c : Nat) (delayMs : Int) : Option (TimerTask × Timer) :=
  if delayMs ≤ 0 ∨ t.isRunning = false then none else some (newTask t c delayMs 0 false false)

def schedulePeriodic (t : Timer) (c : Nat) (intervalMs : Int) : Option (TimerTask × Timer) :=
  if intervalMs ≤ 0 ∨ t.isRunning = false then none else some (newTask t c intervalMs 0 true false)

/-- `schedule_repeat(interval_ms, repeat_count, f)` up to `add_task`: it alone also refuses a
non-positive `repeat_count`. -/
def scheduleRepeat (t : Timer) (c : Nat) (intervalMs repeatCount : Int) :
    Option (TimerTask × Timer) :=
  if intervalMs ≤ 0 ∨ repeatCount ≤ 0 ∨ t.isRunning = false then none
  else some (newTask t c intervalMs repeatCount false true)

/-- A `schedule_*` call and its arguments. -/
inductive Schedule
  | once (delayMs : Int)
  | periodic (intervalMs : Int)
  | repeating (intervalMs repeatCount : Int)
  deriving DecidableEq, Repr

def Schedule.call (t : Timer) (c : Nat) : Schedule → Option (TimerTask × Timer)
  | .once ms => scheduleOnce t c ms
  | .periodic ms => schedulePeriodic t c ms
  | .repeating ms k => scheduleRepeat t c ms k

theorem Schedule.call_some {t t' : Timer} {c : Nat} {s : Schedule} {task : TimerTask}
    (h : s.call t c = some (task, t')) :
    t' = (generateTaskId t).2 ∧ task.callback = c ∧ task.taskId = t.nextTaskId ∧
      task.expireTime = t.clock + task.interval ∧
      (task.isRepeat = true → 0 < task.repeatCount ∧ task.isPeriodic = false) := by
  cases s with
  | once ms =>
    simp only [Schedule.call, scheduleOnce] at h
    split_ifs at h
    cases h
    exact ⟨rfl, rfl, rfl, rfl, nofun⟩
  | periodic ms =>
    simp only [Schedule.call, schedulePeriodic] at h
    split_ifs at h
    cases h
    exact ⟨rfl, rfl, rfl, rfl, nofun⟩
  | repeating ms k =>
    simp only [Schedule.call, scheduleRepeat] at h
    split_ifs at h with hk
    cases h
    exact ⟨rfl, rfl, rfl, rfl, fun _ => ⟨show 0 < k by omega, rfl⟩⟩

/-- `condition_.notify_one()` or `notify_all()` reaching `timer_loop`: a blocked wait returns. -/
def notify : LoopPc → LoopPc
  | .waiting => .woken
  | .timedWaiting => .top
  | l => l

/-- `add_task(task)` under `mutex_`: push, then `notify_one`. -/
def addTask (t : Timer) (task : TimerTask) : Timer :=
  { t with queue := push t.queue task, loop := notify t.loop }

def cancel (t : Timer) (taskId : Int) : Bool × Timer :=
  if taskId ∈ t.cancelled then (false, t) else (true, { t with cancelled := taskId :: t.cancelled })

/-- Whether `timer_loop` queues a `next_task` for a task it pops. -/
def rearms (task : TimerTask) : Bool :=
  task.isPeriodic || (task.isRepeat && decide (1 < task.repeatCount))

/-- `next_task`: due `interval` after `now`, with one repetition fewer for a repeat task. -/
def nextTask (task : TimerTask) (now : Nat) : TimerTask :=
  ⟨now + task.interval, task.callback, task.taskId,
    if task.isRepeat then task.repeatCount - 1 else task.repeatCount, task.interval,
    task.isPeriodic, task.isRepeat⟩

/-- `timer_loop` past its test of a non-empty queue, under `mutex_`: read the clock; wait for a
front task that is not due; else pop it, drop it if `cancelled_tasks_.erase` finds its id, and
otherwise queue its `next_task` if it repeats and hand its callback to the thread pool. Both
callers test the queue first, so the empty case is not reached. -/
def serve (t : Timer) : Timer :=
  match t.queue with
  | [] => { t with loop := .top }
  | task :: rest =>
    if t.clock < task.expireTime then { t with loop := .timedWaiting }
    else if task.taskId ∈ t.cancelled then
      { t with queue := rest, cancelled := t.cancelled.erase task.taskId, loop := .top }
    else
      { t with
        queue := if rearms task then push rest (nextTask task t.clock) else rest
        posted := t.posted ++ [task]
        loop := .top }

def loopStep (t : Timer) : LoopPc → Timer
  | .top => { t with loop := if t.shouldStop then .exited else .locking }
  | .locking =>
    if t.queue = [] then { t with loop := if t.shouldStop then .exited else .checked } else serve t
  | .checked => { t with loop := .waiting }
  | .waiting => t
  | .woken =>
    if t.shouldStop then { t with loop := .exited }
    else if t.queue = [] then { t with loop := .checked } else serve t
  | .timedWaiting => { t with loop := .top }
  | .exited => t

/-- The next statement of the `schedule_*` call `s` of callback `c`, at `pc`. -/
def callStep (t : Timer) (c : Nat) (s : Schedule) : CallPc → Timer
  | .idle =>
    match s.call t c with
    | none => { t with calls := Function.update t.calls c (.returned (-1)) }
    | some (task, t') => { t' with calls := Function.update t'.calls c (.adding task) }
  | .adding task =>
    if t.loop = .checked then t
    else { (addTask t task) with calls := Function.update t.calls c (.returned task.taskId) }
  | .returned _ => t

/-- The next statement of `stop()`, at `pc`. The clean-up after the join follows
`thread_pool_->stop()`, which the thread pool's own model covers. -/
def stopStep (t : Timer) : StopPc → Timer
  | .idle =>
    if t.isRunning then { t with shouldStop := true, stopper := .notifying }
    else { t with stopper := .returned }
  | .notifying => { t with loop := notify t.loop, stopper := .joining }
  | .joining =>
    if t.loop = .exited then
      { t with queue := [], cancelled := [], isRunning := false, stopper := .returned }
    else t
  | .returned => t

/-- What happens next: the clock advances, a statement of `timer_loop`, a spurious wake-up of
its wait, a statement of the `schedule_*` call of callback `c`, a `cancel` call, or a statement
of `stop()`. -/
inductive Step
  | tick (ms : Nat)
  | loop
  | spurious
  | schedule (c : Nat) (s : Schedule)
  | cancel (taskId : Int)
  | stop
  deriving DecidableEq, Repr

/-- One step; a step whose thread cannot move leaves the timer as it is. -/
def step (t : Timer) : Step → Timer
  | .tick ms => { t with clock := t.clock + ms }
  | .loop => loopStep t t.loop
  | .spurious => { t with loop := notify t.loop }
  | .schedule c s => callStep t c s (t.calls c)
  | .cancel taskId => if t.loop = .checked then t else (cancel t taskId).2
  | .stop => stopStep t t.stopper

def run (t : Timer) (ss : List Step) : Timer := ss.foldl step t

@[simp] theorem run_nil (t : Timer) : run t [] = t := rfl

@[simp] theorem run_cons (t : Timer) (s : Step) (ss : List Step) :
    run t (s :: ss) = run (step t s) ss := rfl

def started : Timer := (start create).2

inductive Reachable : Timer → Prop
  | start : Reachable started
  | step {t : Timer} (s : Step) : Reachable t → Reachable (step t s)

theorem Reachable.run {t : Timer} (h : Reachable t) (ss : List Step) : Reachable (run t ss) := by
  induction ss generalizing t with
  | nil => exact h
  | cons s ss ih => exact ih (.step s h)

/-! ## `cancel` -/

def cancelAhead (taskId : Int) (c : Nat) (ms : Int) : List Step :=
  [.cancel taskId, .schedule c (.once ms), .schedule c (.once ms), .tick ms.toNat, .loop, .loop]

/-- From every running timer whose loop is at its `while` test with nothing queued: `cancel` of
the id `next_task_id_` will issue next answers `true`, though no queued task has it; the next
`schedule_once(ms)` call takes that id and returns it; and once its task is due, `timer_loop`
pops it and drops it without handing it to the thread pool. -/
theorem cancel_unissued_id_skips (t : Timer) (c : Nat) (ms : Int) (hms : 0 < ms)
    (hrun : t.isRunning = true) (hstop : t.shouldStop = false) (hloop : t.loop = .top)
    (hq : t.queue = []) (hcall : t.calls c = .idle) (hid : t.nextTaskId ∉ t.cancelled) :
    (cancel t t.nextTaskId).1 = true ∧
      (run t (cancelAhead t.nextTaskId c ms)).calls c = .returned t.nextTaskId ∧
      (run t (cancelAhead t.nextTaskId c ms)).posted = t.posted ∧
      (run t (cancelAhead t.nextTaskId c ms)).queue = [] := by
  have hms' : ¬ms ≤ 0 := by omega
  simp [cancelAhead, step, cancel, hid, hloop, callStep, hcall, Schedule.call, scheduleOnce, hms',
    hrun, newTask, generateTaskId, addTask, push, notify, loopStep, hstop, hq, serve]

/-- A started timer: `cancel(0)` before any task has id `0`, then `schedule_once(10)`. -/
theorem cancel_before_first_schedule :
    (cancel started 0).1 = true ∧
      (run started (cancelAhead 0 0 10)).calls 0 = .returned 0 ∧
      (run started (cancelAhead 0 0 10)).posted = [] ∧
      (run started (cancelAhead 0 0 10)).queue = [] :=
  cancel_unissued_id_skips started 0 10 (by decide) rfl rfl rfl rfl rfl (by decide)

/-! ## A notification `stop()` loses -/

/-- `timer_loop` blocked in `condition_.wait` once `should_stop_` is set, with `stop()` past its
`notify_all` and joining, and no `add_task` left to notify. -/
structure Stranded (t : Timer) : Prop where
  should_stop : t.shouldStop = true
  waiting : t.loop = .waiting
  joining : t.stopper = .joining
  no_add : ∀ c task, t.calls c ≠ .adding task

/-- Whether a step can wake `timer_loop` from `condition_.wait`: a `schedule_*` call (its
`add_task` notifies) or a spurious wake-up. -/
def Step.canWake : Step → Bool
  | .spurious | .schedule _ _ => true
  | _ => false

/-- Steps that neither cancel a task nor clear the queue: all but `cancel` and `stop()`. -/
def Step.keepsTasks : Step → Bool
  | .cancel _ | .stop => false
  | _ => true

variable {t : Timer}

theorem Stranded.step (h : Stranded t) (s : Step) (hs : s.canWake = false) :
    Stranded (step t s) := by
  cases s with
  | tick ms => exact ⟨h.should_stop, h.waiting, h.joining, h.no_add⟩
  | loop =>
    show Stranded (loopStep t t.loop)
    rw [h.waiting]
    exact h
  | spurious | schedule _ _ => cases hs
  | cancel taskId =>
    have hne : t.loop ≠ .checked := by rw [h.waiting]; decide
    simp only [TimerLoop.step, if_neg hne, cancel]
    split
    · exact h
    · exact ⟨h.should_stop, h.waiting, h.joining, h.no_add⟩
  | stop =>
    have hne : t.loop ≠ .exited := by rw [h.waiting]; decide
    simp only [TimerLoop.step, h.joining, stopStep, if_neg hne]
    exact h

theorem Stranded.run (h : Stranded t) (ss : List Step) (hss : ∀ s ∈ ss, s.canWake = false) :
    Stranded (run t ss) := by
  induction ss generalizing t with
  | nil => exact h
  | cons s ss ih =>
    exact ih (h.step s (hss s (List.mem_cons_self s ss))) fun s' hs' =>
      hss s' (List.mem_cons_of_mem s hs')

/-- From every timer whose loop is stranded, whatever the clock, `timer_loop`, `cancel` calls
and `stop()` do next, short of a new `schedule_*` call or a spurious wake-up, the loop stays
blocked and `stop()` never returns from its join. -/
theorem stop_hangs_after_lost_notify (t : Timer) (h : Stranded t) (ss : List Step)
    (hss : ∀ s ∈ ss, s.canWake = false) :
    Stranded (run t ss) ∧ (run t ss).stopper ≠ .returned := by
  have hs := h.run ss hss
  exact ⟨hs, hs.joining ▸ nofun⟩

def notifyBeforeWait : List Step := [.loop, .loop, .stop, .stop, .loop]

theorem notifyBeforeWait_strands :
    Reachable (run started notifyBeforeWait) ∧ Stranded (run started notifyBeforeWait) ∧
      (run (run started notifyBeforeWait) [.tick 5, .loop, .cancel 0, .stop, .loop]).stopper ≠
        .returned :=
  have hs : Stranded (run started notifyBeforeWait) := ⟨rfl, rfl, rfl, fun _ _ => nofun⟩
  ⟨Reachable.start.run notifyBeforeWait, hs,
    (stop_hangs_after_lost_notify _ hs _ (by decide)).2⟩

end ReactorServer.Time.TimerLoop
