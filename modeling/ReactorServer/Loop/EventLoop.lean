import Mathlib.Data.List.Basic

/-!
`EventLoop::loop`, `stop` and `queueInLoop` (`EventLoop.cpp`, in `src/unnamed/part_001`), run by
the owner thread that `EventLoopThreadPool::run_in_thread` starts (`src/unnamed/part_004`).

The owner thread runs `loop()` one statement at a time, and other threads call `queueInLoop`
and `stop()` between any two of its statements. Tasks are named by numbers, and `executed`
lists the tasks the owner thread has run, in order. `do_pending_functors` swaps the queue out
under the mutex and then runs what it took; it is one step here, since a task queued while it
runs waits in `pending_functors_` for the next call either way. `wakeup()` only cuts a poll
short, and a poll is one step whatever it waits for.

Two facts follow from the order of the statements. `loop()` stores `true` to `running_` before
its first test, so a `stop()` that completes before `loop()` is entered is overwritten and
`loop()` never returns. And `while (running_)` is tested right after the second
`do_pending_functors`, so a task queued after that drain and before `stop()` is never run.
Once the owner thread is inside `loop()`, a `stop()` ends it within one iteration, and the
tasks that are run are run in the order they were queued, each once.
-/

set_option autoImplicit false
set_option relaxedAutoImplicit false

namespace ReactorServer.Loop.EventLoop

/-- Where the owner thread is in `EventLoop::loop`. -/
inductive Pc
  -- `run_in_thread` has not yet entered `loop()`.
  | entry
  -- At `while (running_)`.
  | test
  -- At the first `do_pending_functors()`.
  | drainFirst
  -- At `epoller_.poll` and the channels' handlers.
  | poll
  -- At the second `do_pending_functors()`.
  | drainSecond
  -- `loop()` has returned.
  | exited
  deriving DecidableEq, Repr

/-- An `EventLoop`: `running_`, `pending_functors_`, the tasks run so far and the owner
thread's place in `loop()`. -/
structure Loop where
  running : Bool
  pending : List Nat
  executed : List Nat
  pc : Pc
  deriving DecidableEq, Repr

/-- A loop as `EventLoopThreadPool::start` builds it, before its thread enters `loop()`. -/
def Loop.init : Loop := ⟨false, [], [], .entry⟩

/-- `EventLoop::do_pending_functors`: take the whole queue and run it in order. -/
def doPendingFunctors (l : Loop) : Loop :=
  { l with pending := [], executed := l.executed ++ l.pending }

/-- `EventLoop::queueInLoop`: append under the mutex, then `wakeup()`. -/
def queueInLoop (t : Nat) (l : Loop) : Loop := { l with pending := l.pending ++ [t] }

/-- `EventLoop::stop`: store `false` to `running_`, then `wakeup()`. -/
def stop (l : Loop) : Loop := { l with running := false }

/-- The owner thread's next statement of `EventLoop::loop`. -/
def loopStep (l : Loop) : Loop :=
  match l.pc with
  | .entry => { l with running := true, pc := .test }
  | .test => { l with pc := if l.running then .drainFirst else .exited }
  | .drainFirst => { doPendingFunctors l with pc := .poll }
  | .poll => { l with pc := .drainSecond }
  | .drainSecond => { doPendingFunctors l with pc := .test }
  | .exited => l

/-- What happens next to a loop: its owner's next statement, a `queueInLoop` from any thread
(the owner's handlers included), or a `stop()` from any thread. -/
inductive Step
  | owner
  | queue (t : Nat)
  | stop
  deriving DecidableEq, Repr

def step (l : Loop) : Step → Loop
  | .owner => loopStep l
  | .queue t => queueInLoop t l
  | .stop => stop l

def run (l : Loop) (ss : List Step) : Loop := ss.foldl step l

@[simp] theorem run_nil (l : Loop) : run l [] = l := rfl

@[simp] theorem run_cons (l : Loop) (s : Step) (ss : List Step) :
    run l (s :: ss) = run (step l s) ss := rfl

def queued : List Step → List Nat :=
  List.filterMap fun
    | .queue t => some t
    | _ => none

/-! ### Order: the run tasks are a prefix of the queued ones -/

theorem step_fifo (l : Loop) (s : Step) :
    (step l s).executed ++ (step l s).pending = l.executed ++ l.pending ++ queued [s] := by
  cases s with
  | owner =>
    simp only [step, loopStep, queued, List.filterMap_nil, List.filterMap_cons,
      List.append_nil]
    split <;> simp [doPendingFunctors]
  | queue t => simp [step, queueInLoop, queued]
  | stop => simp [step, stop, queued]

theorem run_fifo (l : Loop) (ss : List Step) :
    (run l ss).executed ++ (run l ss).pending = l.executed ++ l.pending ++ queued ss := by
  induction ss generalizing l with
  | nil => simp [queued]
  | cons s ss ih =>
    have hq : queued (s :: ss) = queued [s] ++ queued ss := by
      cases s <;> simp [queued]
    rw [run_cons, ih, step_fifo, hq, List.append_assoc]

/-- From a fresh loop, the owner thread runs tasks in the order they were queued, and each
queued task at most once: what it has run is a prefix of what was queued. -/
theorem executed_prefix_queued (ss : List Step) :
    (run Loop.init ss).executed <+: queued ss :=
  ⟨(run Loop.init ss).pending, by simpa [Loop.init] using run_fifo Loop.init ss⟩

/-! ### A stop before `loop()` is lost -/

def Live (l : Loop) : Prop := l.running = true ∧ l.pc ≠ .exited

theorem step_live {l : Loop} (h : Live l) {s : Step} (hs : s ≠ .stop) : Live (step l s) := by
  obtain ⟨hr, hpc⟩ := h
  cases s with
  | owner => cases hp : l.pc <;> simp_all [Live, step, loopStep, doPendingFunctors]
  | queue t => exact ⟨hr, hpc⟩
  | stop => exact absurd rfl hs

theorem run_live {l : Loop} (h : Live l) {ss : List Step} (hs : Step.stop ∉ ss) :
    Live (run l ss) := by
  induction ss generalizing l with
  | nil => exact h
  | cons s ss ih =>
    rw [List.mem_cons, not_or] at hs
    exact ih (step_live h (Ne.symm hs.1)) hs.2

/-- A `stop()` that completes before the owner thread enters `loop()` stores `false`, and the
owner's first statement stores `true` over it. After that, whatever the owner thread and the
producers do, with no second `stop()`, `running_` stays `true` and `loop()` does not return, so
the join in `EventLoopThreadPool::stop()` waits forever. -/
theorem stop_before_loop_lost (l : Loop) (hl : l.pc = .entry) (ss : List Step)
    (hs : Step.stop ∉ ss) :
    (stop l).running = false ∧ (run (stop l) (.owner :: ss)).running = true ∧
      (run (stop l) (.owner :: ss)).pc ≠ .exited := by
  have hlive : Live (step (stop l) .owner) := by
    simp [Live, step, loopStep, stop, hl]
  exact ⟨rfl, run_live hlive hs⟩

/-- `EventLoopThreadPool::stop()` right after `start()`: the loop's `stop()` comes before its
thread enters `loop()`, and the thread then runs a hundred statements. -/
theorem pool_stop_before_entry :
    Loop.init.pc = .entry ∧ Step.stop ∉ List.replicate 100 Step.owner ∧
      (stop Loop.init).running = false ∧
      (run (stop Loop.init) (.owner :: List.replicate 100 .owner)).running = true ∧
      (run (stop Loop.init) (.owner :: List.replicate 100 .owner)).pc ≠ .exited :=
  have hl : Loop.init.pc = .entry := rfl
  have hs : Step.stop ∉ List.replicate 100 Step.owner := by simp
  ⟨hl, hs, stop_before_loop_lost Loop.init hl _ hs⟩

/-! ### A stop inside `loop()` ends it within one iteration -/

/-- How many statements of the owner thread stand between it and the end of `loop()` once
`running_` is `false`. -/
def toExit : Pc → Nat
  | .entry => 5
  | .test => 1
  | .drainFirst => 4
  | .poll => 3
  | .drainSecond => 2
  | .exited => 0

@[simp] theorem toExit_eq_zero {pc : Pc} : toExit pc = 0 ↔ pc = .exited := by
  cases pc <;> simp [toExit]

/-- `running_` is `false` and the owner thread is inside `loop()` or past it. -/
def Stopped (l : Loop) : Prop := l.running = false ∧ l.pc ≠ .entry

theorem step_stopped {l : Loop} (h : Stopped l) (s : Step) :
    Stopped (step l s) ∧ toExit (step l s).pc ≤ toExit l.pc - [s].count .owner := by
  obtain ⟨hr, hpc⟩ := h
  cases s with
  | owner => cases hp : l.pc <;> simp_all [Stopped, step, loopStep, doPendingFunctors, toExit]
  | queue t => simp [Stopped, step, queueInLoop, hr, hpc]
  | stop => simp [Stopped, step, stop, hpc]

theorem run_stopped {l : Loop} (h : Stopped l) (ss : List Step) :
    Stopped (run l ss) ∧ toExit (run l ss).pc ≤ toExit l.pc - ss.count .owner := by
  induction ss generalizing l with
  | nil => simpa using h
  | cons s ss ih =>
    obtain ⟨h1, h2⟩ := step_stopped h s
    obtain ⟨h3, h4⟩ := ih h1
    refine ⟨h3, ?_⟩
    have hc : (s :: ss).count .owner = [s].count .owner + ss.count .owner := by
      simp [List.count_cons, Nat.add_comm]
    rw [run_cons, hc]
    omega

/-- A `stop()` that comes once the owner thread is inside `loop()` ends it: after any four
statements of the owner thread, among any other steps, `loop()` has returned. -/
theorem stop_inside_loop_exits (l : Loop) (hl : l.pc ≠ .entry) (ss : List Step)
    (hn : 4 ≤ ss.count .owner) : (run (stop l) ss).pc = .exited := by
  have hstop : Stopped (stop l) := ⟨rfl, hl⟩
  have hle : toExit l.pc ≤ 4 := by cases h : l.pc <;> simp_all [toExit]
  have hrun := (run_stopped hstop ss).2
  rw [show (stop l).pc = l.pc from rfl] at hrun
  rw [← toExit_eq_zero]
  omega

/-- A loop at its first poll is stopped; four statements later, with a task queued on the
way, `loop()` has returned. -/
theorem stop_at_poll_exits :
    (run Loop.init [.owner, .owner, .owner]).pc ≠ .entry ∧
      4 ≤ [Step.owner, .queue 1, .owner, .owner, .owner].count .owner ∧
      (run (stop (run Loop.init [.owner, .owner, .owner]))
        [.owner, .queue 1, .owner, .owner, .owner]).pc = .exited :=
  have hl : (run Loop.init [.owner, .owner, .owner]).pc ≠ .entry := by decide
  have hn : 4 ≤ [Step.owner, .queue 1, .owner, .owner, .owner].count .owner := by decide
  ⟨hl, hn, stop_inside_loop_exits _ hl _ hn⟩

/-! ### A task queued just before `stop()` is dropped -/

theorem run_of_exited {l : Loop} (h : l.pc = .exited) (ss : List Step) :
    (run l ss).pc = .exited ∧ (run l ss).executed = l.executed ∧
      l.pending <+: (run l ss).pending := by
  induction ss generalizing l with
  | nil => exact ⟨h, rfl, List.prefix_refl _⟩
  | cons s ss ih =>
    have hs : (step l s).pc = .exited ∧ (step l s).executed = l.executed ∧
        l.pending <+: (step l s).pending := by
      cases s with
      | owner => simp [step, loopStep, h]
      | queue t => exact ⟨h, rfl, List.prefix_append _ _⟩
      | stop => exact ⟨h, rfl, List.prefix_refl _⟩
    obtain ⟨h1, h2, h3⟩ := ih hs.1
    exact ⟨h1, h2.trans hs.2.1, hs.2.2.trans h3⟩

/-- A task queued while the owner thread is at `while (running_)`, and followed by `stop()`
before the test, is never run: the test reads `false`, `loop()` returns, and the task stays in
`pending_functors_` whatever happens after. -/
theorem queued_before_stop_dropped (l : Loop) (hl : l.pc = .test) (t : Nat)
    (ht : t ∉ l.executed) (ss : List Step) :
    (run l (.queue t :: .stop :: .owner :: ss)).pc = .exited ∧
      t ∈ (run l (.queue t :: .stop :: .owner :: ss)).pending ∧
      t ∉ (run l (.queue t :: .stop :: .owner :: ss)).executed := by
  have hx : (step (step (step l (.queue t)) .stop) .owner).pc = .exited := by
    simp [step, loopStep, queueInLoop, stop, hl]
  obtain ⟨h1, h2, h3⟩ := run_of_exited hx ss
  simp only [run_cons]
  refine ⟨h1, h3.subset ?_, ?_⟩
  · simp [step, loopStep, queueInLoop, stop, hl]
  · rw [h2]
    simpa [step, loopStep, queueInLoop, stop, hl] using ht

/-- A fresh loop's thread enters `loop()` and goes once round it; task 7 is then queued and
the loop stopped before the next test. -/
theorem task_dropped_at_test :
    (run Loop.init (List.replicate 5 .owner)).pc = .test ∧
      7 ∉ (run Loop.init (List.replicate 5 .owner)).executed ∧
      (run (run Loop.init (List.replicate 5 .owner)) [.queue 7, .stop, .owner]).pc = .exited ∧
      7 ∈ (run (run Loop.init (List.replicate 5 .owner)) [.queue 7, .stop, .owner]).pending ∧
      7 ∉ (run (run Loop.init (List.replicate 5 .owner)) [.queue 7, .stop, .owner]).executed :=
  have hl : (run Loop.init (List.replicate 5 .owner)).pc = .test := by decide
  have ht : 7 ∉ (run Loop.init (List.replicate 5 .owner)).executed := by decide
  ⟨hl, ht, queued_before_stop_dropped _ hl 7 ht []⟩

end ReactorServer.Loop.EventLoop
