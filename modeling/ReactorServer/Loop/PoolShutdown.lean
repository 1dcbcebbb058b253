import ReactorServer.Loop.EventLoop

/-!
`EventLoopThreadPool::stop` and the worker threads it joins (`src/unnamed/part_004`).

`start` builds under `mutex_` one `ThreadData` per thread, owning its `EventLoop`, and a thread
running a lambda: `run_in_thread(i, init_cb)`, then `thread_ptr->running.store(false)` on the
`ThreadData` the lambda captured. `run_in_thread` takes the loop of `threads_[i]` under the
mutex, or returns when `threads_` no longer has it; runs `loop()`; and under the mutex again
clears `running` of `threads_[i]` if it is still there. `stop()` calls `stop()` on every loop,
then under the mutex moves the threads out of `threads_` and clears it, which destroys every
`ThreadData` with its `EventLoop`, and only then joins the threads.

A worker that has not reached the end of its lambda when `threads_` is cleared goes on to use
destroyed objects: its last statement stores to its `ThreadData`, and while it is inside
`loop()` each statement touches its `EventLoop`. When `stop()` returns, the workers that used a
destroyed object are exactly those that had not finished when it cleared `threads_`
(`faults_iff_late`). Each step is one statement of a worker or of `stop()`; the tasks other
threads queue on the loops change nothing here and are left out.
-/

set_option autoImplicit false
set_option relaxedAutoImplicit false

namespace ReactorServer.Loop.PoolShutdown

open ReactorServer.Loop.EventLoop (Loop loopStep)

/-- A `ThreadData`: its loop, its `running` flag, and whether it has been destroyed. -/
structure ThreadData where
  loop : Loop
  running : Bool
  destroyed : Bool
  deriving DecidableEq, Repr

/-- Where a worker thread is in the lambda `start` gave it. -/
inductive WorkerPc
  -- The first locked block of `run_in_thread`.
  | fetching
  -- Inside `loop->loop()`.
  | looping
  -- The last locked block of `run_in_thread`.
  | marking
  -- `thread_ptr->running.store(false)`.
  | storing
  | finished
  deriving DecidableEq, Repr

/-- Where `stop()` is, once its compare-and-swap has succeeded. -/
inductive StopPc
  | idle
  -- `loop->stop()` on the loops from index `k` on.
  | stopping (k : Nat)
  -- The locked block that moves the threads out and clears `threads_`.
  | clearing
  -- `join()` of the threads from index `k` on.
  | joining (k : Nat)
  | returned
  deriving DecidableEq, Repr

/-- Whether `threads_` still holds the `ThreadData` objects at this place of `stop()`. -/
def StopPc.listed : StopPc → Bool
  | .joining _ => false
  | .returned => false
  | _ => true

/-- The pool after `start`: its `ThreadData` objects by index, whether `threads_` still holds
them, each worker's place and `stop()`'s place. The proofs also record the workers that used a
destroyed object (`faults`) and those that had not finished when `threads_` was cleared
(`late`). -/
structure Pool where
  data : List ThreadData
  listed : Bool
  workers : List WorkerPc
  stopper : StopPc
  faults : List Nat
  late : List Nat
  deriving DecidableEq, Repr

/-- The pool `start` leaves with `n` threads, each before its first statement: `start` holds
`mutex_` until every thread is made. -/
def started (n : Nat) : Pool :=
  ⟨List.replicate n ⟨Loop.init, true, false⟩, true, List.replicate n .fetching, .idle, [], []⟩

/-- Worker `i` uses its `ThreadData` `d`, which may have been destroyed. -/
def touch (d : ThreadData) (i : Nat) (p : Pool) : Pool :=
  if d.destroyed then { p with faults := p.faults ++ [i] } else p

def workerStep (p : Pool) (i : Nat) : Pool :=
  match p.workers[i]?, p.data[i]? with
  | some .fetching, some _ =>
    { p with workers := p.workers.set i (if p.listed then .looping else .storing) }
  | some .looping, some d =>
    if d.loop.pc = .exited then { p with workers := p.workers.set i .marking }
    else touch d i { p with data := p.data.set i { d with loop := loopStep d.loop } }
  | some .marking, some d =>
    { p with workers := p.workers.set i .storing,
             data := if p.listed then p.data.set i { d with running := false } else p.data }
  | some .storing, some d =>
    touch d i { p with workers := p.workers.set i .finished,
                       data := p.data.set i { d with running := false } }
  | _, _ => p

/-- The next statement of `stop()`; from `idle`, the call and its compare-and-swap. -/
def stopStep (p : Pool) : Pool :=
  match p.stopper with
  | .idle => { p with stopper := .stopping 0 }
  | .stopping k =>
    match p.data[k]? with
    | some d =>
      { p with data := p.data.set k { d with loop := EventLoop.stop d.loop },
               stopper := .stopping (k + 1) }
    | none => { p with stopper := .clearing }
  | .clearing =>
    { p with data := p.data.map fun d => { d with destroyed := true }, listed := false,
             late := (List.range p.workers.length).filter fun i => p.workers[i]? ≠ some .finished,
             stopper := .joining 0 }
  | .joining k =>
    match p.workers[k]? with
    | some .finished => { p with stopper := .joining (k + 1) }
    | some _ => p
    | none => { p with stopper := .returned }
  | .returned => p

inductive Step
  | worker (i : Nat)
  | stop
  deriving DecidableEq, Repr

def step (p : Pool) : Step → Pool
  | .worker i => workerStep p i
  | .stop => stopStep p

inductive Reachable (n : Nat) : Pool → Prop
  | started : Reachable n (started n)
  | step {p : Pool} (s : Step) : Reachable n p → Reachable n (step p s)

def run (p : Pool) (ss : List Step) : Pool := ss.foldl step p

theorem Reachable.run {n : Nat} {p : Pool} (h : Reachable n p) (ss : List Step) :
    Reachable n (run p ss) := by
  induction ss generalizing p with
  | nil => exact h
  | cons s ss ih => exact ih (.step s h)

/-! ## What every interleaving keeps -/

/-- What every reachable pool keeps. `threads_` holds its objects exactly until `stop()` clears
it, and from then on every object is destroyed. A worker not listed in `late` has finished once
`threads_` is cleared; a worker that used a destroyed object is in `late`, and a worker in
`late` that has finished did use one. `stop()` joins the threads in order. -/
structure Inv (n : Nat) (p : Pool) : Prop where
  data_length : p.data.length = n
  workers_length : p.workers.length = n
  listed : p.listed = p.stopper.listed
  destroyed : ∀ d ∈ p.data, d.destroyed = !p.listed
  late_nil : p.listed = true → p.late = []
  late_lt : ∀ i ∈ p.late, i < n
  finished_of_not_late : p.listed = false → ∀ i < n, i ∉ p.late → p.workers[i]? = some .finished
  faults_late : ∀ i ∈ p.faults, i ∈ p.late
  late_finished : ∀ i ∈ p.late, p.workers[i]? = some .finished → i ∈ p.faults
  joined : ∀ k, p.stopper = .joining k → ∀ j < k, p.workers[j]? = some .finished
  returned : p.stopper = .returned → ∀ j < n, p.workers[j]? = some .finished

variable {n : Nat} {p : Pool}

theorem inv_started (n : Nat) : Inv n (started n) :=
  ⟨by simp [started], by simp [started], rfl, by simp [started], fun _ => rfl, nofun,
    nofun, nofun, nofun, nofun, nofun⟩

theorem Inv.late_of_unfinished (h : Inv n p) (hl : p.listed = false) {i : Nat} {w : WorkerPc}
    (hw : p.workers[i]? = some w) (hne : w ≠ .finished) : i ∈ p.late := by
  have hi : i < n := h.workers_length ▸ (List.getElem?_eq_some_iff.1 hw).1
  by_contra hn
  exact hne (Option.some.inj (hw.symm.trans (h.finished_of_not_late hl i hi hn)))

theorem Inv.listed_of_late (h : Inv n p) {i : Nat} (hi : i ∈ p.late) : p.listed = false := by
  cases hl : p.listed
  · rfl
  · simp [h.late_nil hl] at hi

theorem Inv.destroyed_set (h : Inv n p) {i : Nat} {d d' : ThreadData} (hd : p.data[i]? = some d)
    (hd' : d'.destroyed = d.destroyed) : ∀ x ∈ p.data.set i d', x.destroyed = !p.listed := by
  intro x hx
  rcases List.mem_or_eq_of_mem_set hx with hx | rfl
  · exact h.destroyed x hx
  · exact hd'.trans (h.destroyed d (List.getElem?_mem hd))

theorem Inv.workerMove (h : Inv n p) {i : Nat} {w w' : WorkerPc} (hw : p.workers[i]? = some w)
    (hne : w ≠ .finished) {d : ThreadData} (hd : p.data[i]? = some d) {data' : List ThreadData}
    (hdata : data'.length = n) (hdest : ∀ x ∈ data', x.destroyed = !p.listed)
    {faults' : List Nat} (hf : ∀ j ∈ faults', j ∈ p.faults ∨ j = i ∧ d.destroyed = true)
    (hkeep : ∀ j ∈ p.faults, j ∈ faults')
    (huse : w' = .finished → d.destroyed = true → i ∈ faults') :
    Inv n { p with workers := p.workers.set i w', data := data', faults := faults' } := by
  have hi : i < n := h.workers_length ▸ (List.getElem?_eq_some_iff.1 hw).1
  have hne_i : ∀ j, p.workers[j]? = some .finished → j ≠ i := by
    rintro j hj rfl
    exact hne (Option.some.inj (hw.symm.trans hj))
  have hdest_i : d.destroyed = !p.listed := h.destroyed d (List.getElem?_mem hd)
  refine ⟨hdata, by simp [h.workers_length], h.listed, hdest, h.late_nil, h.late_lt,
    fun hl j hj hjl => ?_, fun j hj => ?_, fun j hj hjf => ?_, fun k hk j hjk => ?_,
    fun hr j hj => ?_⟩
  · have hold := h.finished_of_not_late hl j hj hjl
    rw [List.getElem?_set_ne (hne_i j hold).symm]
    exact hold
  · rcases hf j hj with hj | ⟨rfl, hdi⟩
    · exact h.faults_late j hj
    · exact h.late_of_unfinished (by simpa [hdi] using hdest_i) hw hne
  · by_cases hji : j = i
    · subst hji
      rw [List.getElem?_set_self (by rw [h.workers_length]; exact hi)] at hjf
      have hl := h.listed_of_late hj
      exact huse (Option.some.inj hjf) (by simpa [hl] using hdest_i)
    · rw [List.getElem?_set_ne (Ne.symm hji)] at hjf
      exact hkeep j (h.late_finished j hj hjf)
  · have hold := h.joined k hk j hjk
    rw [List.getElem?_set_ne (hne_i j hold).symm]
    exact hold
  · exact absurd (h.returned hr i hi) fun hf' => hne (Option.some.inj (hw.symm.trans hf'))

theorem touch_eq (d : ThreadData) (i : Nat) (p : Pool) :
    touch d i p = { p with faults := if d.destroyed then p.faults ++ [i] else p.faults } := by
  unfold touch
  split_ifs <;> rfl

theorem mem_touch_faults {d : ThreadData} {i j : Nat} {fs : List Nat}
    (hj : j ∈ (if d.destroyed then fs ++ [i] else fs)) : j ∈ fs ∨ j = i ∧ d.destroyed = true := by
  split_ifs at hj with hd
  · simpa [hd] using hj
  · exact .inl hj

theorem faults_sub_touch {d : ThreadData} {i : Nat} {fs : List Nat} :
    ∀ j ∈ fs, j ∈ (if d.destroyed then fs ++ [i] else fs) := by
  intro j hj
  split_ifs
  · exact List.mem_append_left _ hj
  · exact hj

theorem Inv.workerStep (h : Inv n p) (i : Nat) : Inv n (workerStep p i) := by
  have hlen : ∀ d', (p.data.set i d').length = n := fun _ => by simp [h.data_length]
  unfold PoolShutdown.workerStep
  split
  · rename_i d hw hd
    exact h.workerMove hw (by decide) hd h.data_length h.destroyed (fun j hj => .inl hj)
      (fun _ hj => hj) (by split_ifs <;> nofun)
  · rename_i d hw hd
    split_ifs with hx
    · exact h.workerMove hw (by decide) hd h.data_length h.destroyed (fun j hj => .inl hj)
        (fun _ hj => hj) nofun
    · have hset : p.workers.set i .looping = p.workers := List.ext_getElem? fun j => by
        by_cases hji : i = j
        · subst hji
          rw [List.getElem?_set_self (List.getElem?_eq_some_iff.1 hw).1, hw]
        · exact List.getElem?_set_ne hji
      rw [touch_eq]
      dsimp only
      rw [← hset]
      exact h.workerMove hw (by decide) hd (hlen _) (by exact h.destroyed_set hd rfl)
        (fun _ => mem_touch_faults) faults_sub_touch nofun
  · rename_i d hw hd
    exact h.workerMove hw (by decide) hd (by split_ifs <;> simp [h.data_length])
      (by split_ifs; exacts [h.destroyed_set hd rfl, h.destroyed]) (fun j hj => .inl hj)
      (fun _ hj => hj) nofun
  · rename_i d hw hd
    rw [touch_eq]
    dsimp only
    exact h.workerMove hw (by decide) hd (hlen _) (by exact h.destroyed_set hd rfl)
      (fun _ => mem_touch_faults) faults_sub_touch fun _ hdd => by simp [hdd]
  · exact h

theorem Inv.moveStopper (h : Inv n p) {st : StopPc} (hl : st.listed = p.stopper.listed)
    {data' : List ThreadData} (hdata : data'.length = n)
    (hdest : ∀ x ∈ data', x.destroyed = !p.listed)
    (hj : ∀ k, st = .joining k → ∀ j < k, p.workers[j]? = some .finished)
    (hr : st = .returned → ∀ j < n, p.workers[j]? = some .finished) :
    Inv n { p with data := data', stopper := st } :=
  ⟨hdata, h.workers_length, h.listed.trans hl.symm, hdest, h.late_nil, h.late_lt,
    h.finished_of_not_late, h.faults_late, h.late_finished, hj, hr⟩

theorem Inv.stopStep (h : Inv n p) : Inv n (stopStep p) := by
  unfold PoolShutdown.stopStep
  split
  · rename_i hs
    exact h.moveStopper (by rw [hs]; rfl) h.data_length h.destroyed nofun nofun
  · rename_i k hs
    split
    · rename_i d hd
      exact h.moveStopper (by rw [hs]; rfl) (by simp [h.data_length]) (h.destroyed_set hd rfl)
        nofun nofun
    · exact h.moveStopper (by rw [hs]; rfl) h.data_length h.destroyed nofun nofun
  · rename_i hs
    have hnil : p.late = [] := h.late_nil (by rw [h.listed, hs]; rfl)
    refine ⟨by simp [h.data_length], h.workers_length, rfl, by simp, nofun, fun i hi => ?_,
      fun _ i hi hni => ?_, fun i hi => absurd (h.faults_late i hi) (by simp [hnil]),
      fun i hi hf => ?_, fun k hk j hj => ?_, fun hr => by simp at hr⟩
    · simp only [List.mem_filter, List.mem_range] at hi
      exact h.workers_length ▸ hi.1
    · simp only [List.mem_filter, List.mem_range, h.workers_length, not_and, decide_eq_true_eq,
        not_not] at hni
      exact hni hi
    · simp only [List.mem_filter, decide_eq_true_eq] at hi
      exact absurd hf hi.2
    · simp only [StopPc.joining.injEq] at hk
      omega
  · rename_i k hs
    split
    · rename_i hw
      refine h.moveStopper (by rw [hs]; rfl) h.data_length h.destroyed (fun k' hk j hj => ?_) nofun
      cases hk
      rcases Nat.lt_succ_iff_lt_or_eq.1 hj with hj | rfl
      · exact h.joined k hs j hj
      · exact hw
    · exact h
    · rename_i hw
      refine h.moveStopper (by rw [hs]; rfl) h.data_length h.destroyed nofun
        fun _ j hj => h.joined k hs j ?_
      have := List.getElem?_eq_none_iff.1 hw
      rw [h.workers_length] at this
      omega
  · exact h

theorem Inv.step (h : Inv n p) (s : Step) : Inv n (step p s) := by
  cases s with
  | worker i => exact h.workerStep i
  | stop => exact h.stopStep

theorem Reachable.inv (h : Reachable n p) : Inv n p := by
  induction h with
  | started => exact inv_started n
  | step s _ ih => exact ih.step s

/-- Over every interleaving of the workers with `stop()`, once `stop()` has returned the
workers that used a destroyed `ThreadData` or `EventLoop` are exactly those that had not reached
the end of their lambda when `stop()` cleared `threads_`. -/
theorem faults_iff_late (h : Reachable n p) (hs : p.stopper = .returned) (i : Nat) :
    i ∈ p.faults ↔ i ∈ p.late := by
  have hi := h.inv
  exact ⟨hi.faults_late i, fun hl => hi.late_finished i hl (hi.returned hs i (hi.late_lt i hl))⟩

def stopFirst : List Step :=
  [.stop, .stop, .stop, .stop, .stop, .worker 0, .worker 0, .worker 1, .worker 1,
    .stop, .stop, .stop]

/-- Both workers were late, and both stored to their destroyed `ThreadData`. -/
theorem stopFirst_both_fault :
    (run (started 2) stopFirst).stopper = .returned ∧ (run (started 2) stopFirst).late = [0, 1] ∧
      (1 ∈ (run (started 2) stopFirst).faults ↔ 1 ∈ (run (started 2) stopFirst).late) :=
  ⟨by decide, by decide, faults_iff_late (Reachable.started.run stopFirst) (by decide) 1⟩

end ReactorServer.Loop.PoolShutdown
