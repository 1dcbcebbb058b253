import ReactorServer.Time.TimerLoop

/-!
The order and the number of the callbacks `timer_loop` hands to the thread pool
(`Timer::timer_loop`, `TimerTask::operator<`).

`timer_loop` pops a task that expires first, hands it on once it is due, and queues its
`next_task` `interval` after the clock it read. A `schedule_*` call reads the clock before it
takes `mutex_` in `add_task`, so the loop can hand on a later task in between, and the call's
earlier task then goes after it (`late_add_posts_out_of_order`). Runs in which the loop never
steps while a call is between its clock read and its `add_task` hand tasks on in order of expiry
(`posts_in_order_of_serial`). Without `cancel` and `stop()`, the times a task not marked periodic
is handed on and the runs it still owes add up to one for `schedule_once` and to `repeat_count`
for `schedule_repeat` (`handedOn_add_owed`).
-/

set_option autoImplicit false
set_option relaxedAutoImplicit false

namespace ReactorServer.Time.TimerOrder

open ReactorServer.Time.TimerLoop

/-! ## The queue -/

theorem mem_push {q : List TimerTask} {task v : TimerTask} :
    v ∈ push q task ↔ v = task ∨ v ∈ q :=
  List.mem_orderedInsert _

theorem mem_requeue {task v : TimerTask} {rest : List TimerTask} {now : Nat}
    (hv : v ∈ (if rearms task then push rest (nextTask task now) else rest)) :
    v ∈ rest ∨ rearms task ∧ v = nextTask task now := by
  split at hv
  · exact (mem_push.1 hv).elim (fun e => .inr ⟨‹_›, e⟩) .inl
  · exact .inl hv

theorem sorted_push {q : List TimerTask} (h : q.Sorted TimerTask.before) (task : TimerTask) :
    (push q task).Sorted TimerTask.before :=
  List.Sorted.orderedInsert task q h

theorem calls_update_adding {f : Nat → CallPc} {c c' : Nat} {v : CallPc} {task : TimerTask}
    (h : Function.update f c v c' = .adding task) : (c' = c ∧ v = .adding task) ∨ f c' = .adding task := by
  by_cases hc : c' = c
  · subst hc
    exact .inl ⟨rfl, by simpa using h⟩
  · exact .inr (by rwa [Function.update_noteq hc] at h)

theorem not_returned_of_update {f : Nat → CallPc} {c c' : Nat} {v : CallPc}
    (hc : ∀ id, f c ≠ .returned id) (h : ∀ id, Function.update f c v c' ≠ .returned id) :
    ∀ id, f c' ≠ .returned id := by
  by_cases hcc : c' = c
  · subst hcc
    exact hc
  · simpa [Function.update_noteq hcc] using h

/-! ## A call that read the clock before a later task was handed on -/

/-- From every timer whose loop is at its `while` test with `should_stop_` clear and nothing
queued: a `schedule_*` call whose task is built, due and not cancelled adds it, and the loop hands
it on next, after every task it has handed on already, so after any that expires later. -/
theorem late_add_posts_out_of_order (t : Timer) (c : Nat) (s : Schedule) (task u : TimerTask)
    (hc : t.calls c = .adding task) (hloop : t.loop = .top) (hstop : t.shouldStop = false)
    (hq : t.queue = []) (hdue : task.expireTime ≤ t.clock) (hid : task.taskId ∉ t.cancelled)
    (hu : u ∈ t.posted) (hlt : task.expireTime < u.expireTime) :
    (run t [.schedule c s, .loop, .loop]).posted = t.posted ++ [task] ∧
      ¬(run t [.schedule c s, .loop, .loop]).posted.Sorted TimerTask.before := by
  have hposted : (run t [.schedule c s, .loop, .loop]).posted = t.posted ++ [task] := by
    simp [step, hc, callStep, hloop, addTask, hq, push, notify, loopStep, hstop, serve,
      Nat.not_lt.2 hdue, hid]
  refine ⟨hposted, fun hs => ?_⟩
  rw [hposted] at hs
  exact absurd ((List.pairwise_append.1 hs).2.2 u hu task (List.mem_singleton_self _))
    (Nat.not_le.2 hlt)

def raceRun : List Step :=
  [.schedule 0 (.once 10), .schedule 0 (.once 10), .schedule 1 (.once 5), .tick 10, .loop, .loop]

theorem raceRun_out_of_order :
    Reachable (run started raceRun) ∧
      (run (run started raceRun) [.schedule 1 (.once 5), .loop, .loop]).posted =
        [⟨10, 0, 0, 0, 10, false, false⟩, ⟨5, 1, 1, 0, 5, false, false⟩] ∧
      ¬(run (run started raceRun) [.schedule 1 (.once 5), .loop, .loop]).posted.Sorted
        TimerTask.before :=
  have h := late_add_posts_out_of_order _ 1 (.once 5) ⟨5, 1, 1, 0, 5, false, false⟩
    ⟨10, 0, 0, 0, 10, false, false⟩ rfl rfl rfl rfl (by decide) (by decide) (by decide)
    (by decide)
  ⟨Reachable.start.run raceRun, h.1, h.2⟩

/-! ## Order when no call straddles a step of the loop -/

/-- No `schedule_*` call is between its clock read and its `add_task`. -/
def Quiet (t : Timer) : Prop := ∀ c task, t.calls c ≠ .adding task

/-- Handed-on tasks in order of expiry, all due; the queue in `top()` order, no task in it or
built by a call expiring before one handed on. -/
structure Ordered (t : Timer) : Prop where
  posted_sorted : t.posted.Sorted TimerTask.before
  queue_sorted : t.queue.Sorted TimerTask.before
  queue_late : ∀ u ∈ t.posted, ∀ v ∈ t.queue, u.expireTime ≤ v.expireTime
  posted_due : ∀ u ∈ t.posted, u.expireTime ≤ t.clock
  calls_late : ∀ c task, t.calls c = .adding task → ∀ u ∈ t.posted, u.expireTime ≤ task.expireTime

theorem ordered_started : Ordered started :=
  ⟨List.sorted_nil, List.sorted_nil, nofun, nofun, fun _ _ h => nomatch h⟩

variable {t : Timer}

theorem Ordered.of_frame {t' : Timer} (h : Ordered t) (hp : t'.posted = t.posted)
    (hq : t'.queue = t.queue) (hc : t.clock ≤ t'.clock)
    (hcalls : ∀ c task, t'.calls c = .adding task → t.calls c = .adding task) : Ordered t' := by
  refine ⟨by rw [hp]; exact h.posted_sorted, by rw [hq]; exact h.queue_sorted, ?_, ?_, ?_⟩
  · rw [hp, hq]
    exact h.queue_late
  · rw [hp]
    exact fun u hu => (h.posted_due u hu).trans hc
  · rw [hp]
    exact fun c task hct => h.calls_late c task (hcalls c task hct)

theorem Ordered.serve (h : Ordered t) (hquiet : Quiet t) : Ordered (TimerLoop.serve t) := by
  rcases hqu : t.queue with _ | ⟨task, rest⟩
  · simp only [TimerLoop.serve, hqu]
    exact h.of_frame rfl hqu.symm le_rfl fun _ _ => id
  have hsorted : (task :: rest).Sorted TimerTask.before := hqu ▸ h.queue_sorted
  have hfront : task ∈ t.queue := hqu ▸ List.mem_cons_self task rest
  simp only [TimerLoop.serve, hqu]
  by_cases hwait : t.clock < task.expireTime
  · rw [if_pos hwait]
    exact h.of_frame rfl hqu.symm le_rfl fun _ _ => id
  rw [if_neg hwait]
  by_cases hcan : task.taskId ∈ t.cancelled
  · rw [if_pos hcan]
    refine ⟨h.posted_sorted, hsorted.of_cons, fun u hu v hv => h.queue_late u hu v ?_,
      h.posted_due, h.calls_late⟩
    exact hqu ▸ List.mem_cons_of_mem task hv
  rw [if_neg hcan]
  have hmin : ∀ u ∈ t.posted, u.expireTime ≤ task.expireTime := fun u hu =>
    h.queue_late u hu task hfront
  have hlate : ∀ v ∈ (if rearms task then push rest (nextTask task t.clock) else rest),
      task.expireTime ≤ v.expireTime := by
    intro v hv
    rcases mem_requeue hv with hv | ⟨-, rfl⟩
    · exact List.rel_of_sorted_cons hsorted v hv
    · simp only [nextTask]
      omega
  refine ⟨List.pairwise_append.2 ⟨h.posted_sorted, List.pairwise_singleton _ _, ?_⟩, ?_, ?_, ?_,
    fun c task' hc => absurd hc (hquiet c task')⟩
  · intro u hu v hv
    rw [List.mem_singleton.1 hv]
    exact hmin u hu
  · split
    · exact sorted_push hsorted.of_cons _
    · exact hsorted.of_cons
  · intro u hu v hv
    rcases List.mem_append.1 hu with hu | hu
    · exact (hmin u hu).trans (hlate v hv)
    · rw [List.mem_singleton.1 hu]
      exact hlate v hv
  · intro u hu
    rcases List.mem_append.1 hu with hu | hu
    · exact h.posted_due u hu
    · rw [List.mem_singleton.1 hu]
      exact Nat.not_lt.1 hwait

theorem Ordered.loopStep (h : Ordered t) (hquiet : Quiet t) (pc : LoopPc) :
    Ordered (TimerLoop.loopStep t pc) := by
  have hframe : ∀ l, Ordered { t with loop := l } := fun l =>
    h.of_frame rfl rfl le_rfl fun _ _ => id
  cases pc with
  | locking =>
    simp only [TimerLoop.loopStep]
    split
    · exact hframe _
    · exact h.serve hquiet
  | woken =>
    simp only [TimerLoop.loopStep]
    split_ifs
    · exact hframe _
    · exact hframe _
    · exact h.serve hquiet
  | waiting | exited => exact h
  | top | checked | timedWaiting => exact hframe _

theorem Ordered.callStep (h : Ordered t) (c : Nat) (s : Schedule) {pc : CallPc}
    (hpc : t.calls c = pc) : Ordered (TimerLoop.callStep t c s pc) := by
  cases pc with
  | idle =>
    simp only [TimerLoop.callStep]
    split
    · exact h.of_frame rfl rfl le_rfl fun c' task hct =>
        (calls_update_adding hct).elim (fun ⟨_, e⟩ => nomatch e) id
    · rename_i task t' hcall
      obtain ⟨rfl, -, -, hexp, -⟩ := Schedule.call_some hcall
      refine ⟨h.posted_sorted, h.queue_sorted, h.queue_late, h.posted_due, fun c' task' hct => ?_⟩
      rcases calls_update_adding hct with ⟨-, e⟩ | hct
      · cases e
        intro u hu
        have := h.posted_due u hu
        omega
      · exact h.calls_late c' task' hct
  | adding task =>
    simp only [TimerLoop.callStep]
    split
    · exact h
    · refine ⟨h.posted_sorted, sorted_push h.queue_sorted task, fun u hu v hv => ?_, h.posted_due,
        fun c' task' hct => ?_⟩
      · rcases mem_push.1 hv with rfl | hv
        · exact h.calls_late c v hpc u hu
        · exact h.queue_late u hu v hv
      · rcases calls_update_adding hct with ⟨-, e⟩ | hct
        · cases e
        · exact h.calls_late c' task' hct
  | returned _ => exact h

theorem Ordered.stopStep (h : Ordered t) (pc : StopPc) : Ordered (TimerLoop.stopStep t pc) := by
  cases pc with
  | idle =>
    simp only [TimerLoop.stopStep]
    split
    · exact h.of_frame rfl rfl le_rfl fun _ _ => id
    · exact h.of_frame rfl rfl le_rfl fun _ _ => id
  | notifying => exact h.of_frame rfl rfl le_rfl fun _ _ => id
  | joining =>
    simp only [TimerLoop.stopStep]
    split
    · exact ⟨h.posted_sorted, List.sorted_nil, fun _ _ _ => nofun, h.posted_due, h.calls_late⟩
    · exact h
  | returned => exact h

theorem Ordered.step (h : Ordered t) (s : Step) (hs : s = .loop → Quiet t) :
    Ordered (step t s) := by
  cases s with
  | tick ms => exact h.of_frame rfl rfl (Nat.le_add_right _ _) fun _ _ => id
  | loop => exact h.loopStep (hs rfl) t.loop
  | spurious => exact h.of_frame rfl rfl le_rfl fun _ _ => id
  | schedule c s => exact h.callStep c s rfl
  | cancel taskId =>
    simp only [TimerLoop.step, cancel]
    split_ifs
    · exact h
    · exact h
    · exact h.of_frame rfl rfl le_rfl fun _ _ => id
  | stop => exact h.stopStep t.stopper

/-- A run in which `timer_loop` takes no step while a `schedule_*` call is between its clock
read and its `add_task`. -/
def Serial : Timer → List Step → Prop
  | _, [] => True
  | t, s :: ss => (s = .loop → Quiet t) ∧ Serial (step t s) ss

theorem Ordered.run (h : Ordered t) (ss : List Step) (hs : Serial t ss) : Ordered (run t ss) := by
  induction ss generalizing t with
  | nil => exact h
  | cons s ss ih => exact ih (h.step s hs.1) hs.2

/-- Over every run from `start()` in which no `schedule_*` call straddles a step of
`timer_loop`, the loop hands tasks on in order of expiry, each once due. -/
theorem posts_in_order_of_serial (ss : List Step) (h : Serial started ss) :
    (run started ss).posted.Sorted TimerTask.before ∧
      ∀ u ∈ (run started ss).posted, u.expireTime ≤ (run started ss).clock :=
  ⟨(ordered_started.run ss h).posted_sorted, (ordered_started.run ss h).posted_due⟩

def serialRun : List Step :=
  [.schedule 0 (.once 10), .schedule 0 (.once 10), .schedule 1 (.once 5), .schedule 1 (.once 5),
    .tick 10, .loop, .loop, .loop, .loop]

theorem serialRun_in_order :
    Serial started serialRun ∧
      (run started serialRun).posted =
        [⟨5, 1, 1, 0, 5, false, false⟩, ⟨10, 0, 0, 0, 10, false, false⟩] ∧
      (run started serialRun).posted.Sorted TimerTask.before ∧
      ∀ u ∈ (run started serialRun).posted, u.expireTime ≤ (run started serialRun).clock :=
  have hs : Serial started serialRun := by
    simp [Serial, serialRun, Quiet, step, callStep, Schedule.call, scheduleOnce, started, start,
      create, newTask, generateTaskId, Function.update_apply, addTask, notify, push, loopStep, serve,
      rearms, TimerTask.before, wrapInt]
    intro c task
    split_ifs <;> nofun
  ⟨hs, by decide, posts_in_order_of_serial serialRun hs⟩

/-! ## How many times a task is handed on -/

/-- Runs a task not marked periodic still owes: `repeat_count` for a repeat task, one
otherwise. -/
def runsLeft (task : TimerTask) : Nat := if task.isRepeat then task.repeatCount.toNat else 1

def owedIn (c : Nat) : List TimerTask → Nat
  | [] => 0
  | v :: q => (if v.callback = c then runsLeft v else 0) + owedIn c q

def pending (t : Timer) (c : Nat) : List TimerTask :=
  match t.calls c with
  | .adding task => [task]
  | _ => []

/-- Runs of callback `c` owed, by its queued tasks and by its call's pending one. -/
def owed (t : Timer) (c : Nat) : Nat := owedIn c t.queue + owedIn c (pending t c)

def handedOn (t : Timer) (c : Nat) : Nat := t.posted.countP fun v => v.callback = c

theorem owedIn_push (c : Nat) (q : List TimerTask) (task : TimerTask) :
    owedIn c (push q task) = owedIn c (task :: q) := by
  induction q with
  | nil => rfl
  | cons v q ih =>
    simp only [push, List.orderedInsert] at ih ⊢
    split
    · rfl
    · simp only [owedIn, ih]
      omega

theorem owedIn_eq_zero {c : Nat} {q : List TimerTask} (h : ∀ v ∈ q, v.callback ≠ c) :
    owedIn c q = 0 := by
  induction q with
  | nil => rfl
  | cons v q ih =>
    simp only [owedIn, h v (List.mem_cons_self v q), if_false, Nat.zero_add]
    exact ih fun w hw => h w (List.mem_cons_of_mem v hw)

theorem pending_update_ne {f : Nat → CallPc} {c c' : Nat} (t : Timer) (v : CallPc) (hc : c ≠ c') :
    pending { t with calls := Function.update f c' v } c = pending { t with calls := f } c := by
  simp only [pending, Function.update_noteq hc]

/-- Call `c` has made its task, every call's pending task is its own, and every task of `c`
queued or pending is not periodic, not cancelled, and owes at least one run. -/
structure Owes (c : Nat) (t : Timer) : Prop where
  own : ∀ c' task, t.calls c' = .adding task → task.callback = c'
  not_idle : t.calls c ≠ .idle
  shape : ∀ v ∈ t.queue ++ pending t c, v.callback = c →
    v.isPeriodic = false ∧ v.taskId ∉ t.cancelled ∧ (v.isRepeat = true → 0 < v.repeatCount)

variable {c : Nat}

theorem Owes.of_frame {t' : Timer} (h : Owes c t) (hq : t'.queue = t.queue)
    (hp : t'.posted = t.posted) (hcan : t'.cancelled = t.cancelled) (hc : t'.calls c = t.calls c)
    (hown : ∀ c' task, t'.calls c' = .adding task → task.callback = c') :
    Owes c t' ∧ handedOn t' c + owed t' c = handedOn t c + owed t c := by
  have hpend : pending t' c = pending t c := by simp only [pending, hc]
  refine ⟨⟨hown, by rw [hc]; exact h.not_idle, ?_⟩, by simp only [handedOn, owed, hq, hp, hpend]⟩
  rw [hq, hpend, hcan]
  exact h.shape

theorem owedIn_requeue {task : TimerTask} (rest : List TimerTask) (now : Nat)
    (hshape : task.callback = c →
      task.isPeriodic = false ∧ (task.isRepeat = true → 0 < task.repeatCount)) :
    owedIn c (if rearms task then push rest (nextTask task now) else rest) +
      (if task.callback = c then 1 else 0) = owedIn c (task :: rest) := by
  by_cases hc : task.callback = c
  · obtain ⟨hp, hr⟩ := hshape hc
    simp only [owedIn, hc, if_true, runsLeft]
    by_cases hre : rearms task
    · have hre' : task.isRepeat = true ∧ 1 < task.repeatCount := by
        simpa [rearms, hp] using hre
      rw [if_pos hre, owedIn_push]
      simp only [owedIn, nextTask, hc, hre'.1, if_true, runsLeft]
      omega
    · rw [if_neg hre]
      simp only [rearms, hp, Bool.false_or, Bool.and_eq_true, decide_eq_true_eq, not_and,
        Int.not_lt] at hre
      split_ifs with hrep
      · have := hr hrep
        have := hre hrep
        omega
      · omega
  · simp only [owedIn, hc, if_false]
    split
    · simp only [owedIn_push, owedIn, nextTask, hc, if_false]
      omega
    · omega

theorem Owes.serve (h : Owes c t) :
    Owes c (TimerLoop.serve t) ∧
      handedOn (TimerLoop.serve t) c + owed (TimerLoop.serve t) c = handedOn t c + owed t c := by
  unfold TimerLoop.serve
  split
  · exact h.of_frame rfl rfl rfl rfl h.own
  rename_i task rest hqu
  by_cases hwait : t.clock < task.expireTime
  · rw [if_pos hwait]
    exact h.of_frame rfl rfl rfl rfl h.own
  rw [if_neg hwait]
  have hshape : task.callback = c →
      task.isPeriodic = false ∧ task.taskId ∉ t.cancelled ∧
        (task.isRepeat = true → 0 < task.repeatCount) :=
    h.shape task (by rw [hqu]; exact List.mem_append_left _ (List.mem_cons_self task rest))
  have hrest : ∀ v ∈ rest ++ pending t c, v.callback = c →
      v.isPeriodic = false ∧ v.taskId ∉ t.cancelled ∧ (v.isRepeat = true → 0 < v.repeatCount) := by
    intro v hv
    apply h.shape v
    rw [hqu]
    exact List.mem_append.2 ((List.mem_append.1 hv).imp (List.mem_cons_of_mem task) id)
  by_cases hcan : task.taskId ∈ t.cancelled
  · rw [if_pos hcan]
    have hc : task.callback ≠ c := fun hc => (hshape hc).2.1 hcan
    refine ⟨⟨h.own, h.not_idle, fun v hv hvc => ?_⟩, ?_⟩
    · obtain ⟨hp, hid, hr⟩ := hrest v hv hvc
      exact ⟨hp, fun hm => hid (List.mem_of_mem_erase hm), hr⟩
    · simp only [handedOn, owed, hqu, owedIn, hc, if_false, Nat.zero_add]
      rfl
  rw [if_neg hcan]
  refine ⟨⟨h.own, h.not_idle, fun v hv hvc => ?_⟩, ?_⟩
  · rcases List.mem_append.1 hv with hv | hv
    · rcases mem_requeue hv with hv | ⟨hre, rfl⟩
      · exact hrest v (List.mem_append_left _ hv) hvc
      · obtain ⟨hp, hid, -⟩ := hshape hvc
        simp only [rearms, hp, Bool.false_or, Bool.and_eq_true, decide_eq_true_eq] at hre
        refine ⟨hp, hid, fun _ => ?_⟩
        simp only [nextTask, hre.1, if_true]
        omega
    · exact hrest v (List.mem_append_right _ hv) hvc
  · have hq' := owedIn_requeue rest t.clock fun hc => ⟨(hshape hc).1, (hshape hc).2.2⟩
    simp only [handedOn, owed, hqu, List.countP_append, List.countP_singleton] at hq' ⊢
    have hp : pending { t with
        queue := if rearms task then push rest (nextTask task t.clock) else rest
        posted := t.posted ++ [task]
        loop := .top } c = pending t c := rfl
    rw [hp, ← hq']
    by_cases hc : task.callback = c <;>
      simp only [hc, decide_True, decide_False, if_true, if_false, Bool.false_eq_true] <;> omega

theorem Owes.loopStep (h : Owes c t) (pc : LoopPc) :
    Owes c (TimerLoop.loopStep t pc) ∧
      handedOn (TimerLoop.loopStep t pc) c + owed (TimerLoop.loopStep t pc) c =
        handedOn t c + owed t c := by
  have hframe : ∀ l, Owes c { t with loop := l } ∧
      handedOn { t with loop := l } c + owed { t with loop := l } c = handedOn t c + owed t c :=
    fun _ => h.of_frame rfl rfl rfl rfl h.own
  cases pc with
  | locking =>
    simp only [TimerLoop.loopStep]
    split
    · exact hframe _
    · exact h.serve
  | woken =>
    simp only [TimerLoop.loopStep]
    split_ifs
    · exact hframe _
    · exact hframe _
    · exact h.serve
  | waiting | exited => exact ⟨h, rfl⟩
  | top | checked | timedWaiting => exact hframe _

theorem Owes.callStep (h : Owes c t) (c' : Nat) (s : Schedule) {pc : CallPc}
    (hpc : t.calls c' = pc) :
    Owes c (TimerLoop.callStep t c' s pc) ∧
      handedOn (TimerLoop.callStep t c' s pc) c + owed (TimerLoop.callStep t c' s pc) c =
        handedOn t c + owed t c := by
  cases pc with
  | idle =>
    have hne : c ≠ c' := fun e => h.not_idle (e ▸ hpc)
    simp only [TimerLoop.callStep]
    split
    · exact h.of_frame rfl rfl rfl (Function.update_noteq hne _ _) fun c'' task hct =>
        (calls_update_adding hct).elim (fun ⟨_, e⟩ => nomatch e) (h.own _ _)
    · rename_i task t' hcall
      obtain ⟨rfl, hcb, -, -, -⟩ := Schedule.call_some hcall
      exact h.of_frame rfl rfl rfl (Function.update_noteq hne _ _) fun c'' task' hct =>
        (calls_update_adding hct).elim (fun ⟨e, he⟩ => by cases he; exact e ▸ hcb) (h.own _ _)
  | adding task =>
    simp only [TimerLoop.callStep]
    split
    · exact ⟨h, rfl⟩
    have hown : task.callback = c' := h.own c' task hpc
    have hown' : ∀ c'' task',
        Function.update t.calls c' (.returned task.taskId) c'' = .adding task' →
          task'.callback = c'' := fun c'' task' hct =>
      (calls_update_adding hct).elim (fun ⟨_, e⟩ => nomatch e) (h.own _ _)
    by_cases hcc : c' = c
    · subst hcc
      have hp : pending t c' = [task] := by simp [pending, hpc]
      refine ⟨⟨hown', by simp, fun v hv hvc => ?_⟩, ?_⟩
      · simp only [pending, Function.update_same, List.append_nil] at hv
        rcases mem_push.1 hv with rfl | hv
        · exact h.shape v (by rw [hp]; exact List.mem_append_right _ (List.mem_singleton_self v)) hvc
        · exact h.shape v (List.mem_append_left _ hv) hvc
      · simp only [handedOn, owed, pending, hpc, Function.update_same, addTask, owedIn_push, owedIn,
          hown, if_true]
        omega
    · have hne : c ≠ c' := Ne.symm hcc
      refine ⟨⟨hown', by simpa [Function.update_noteq hne] using h.not_idle, fun v hv hvc => ?_⟩, ?_⟩
      · rw [pending_update_ne _ _ hne] at hv
        rcases List.mem_append.1 hv with hv | hv
        · rcases mem_push.1 hv with rfl | hv
          · exact absurd (hvc.symm.trans hown) hne
          · exact h.shape v (List.mem_append_left _ hv) hvc
        · exact h.shape v (List.mem_append_right _ hv) hvc
      · simp only [handedOn, owed]
        rw [pending_update_ne _ _ hne]
        simp only [addTask, owedIn_push, owedIn, hown, hcc, if_false, Nat.zero_add]
        rfl
  | returned _ => exact ⟨h, rfl⟩

theorem Owes.step (h : Owes c t) (s : Step) (hs : s.keepsTasks = true) :
    Owes c (step t s) ∧ handedOn (step t s) c + owed (step t s) c = handedOn t c + owed t c := by
  cases s with
  | tick ms => exact h.of_frame rfl rfl rfl rfl h.own
  | loop => exact h.loopStep t.loop
  | spurious => exact h.of_frame rfl rfl rfl rfl h.own
  | schedule c' s => exact h.callStep c' s rfl
  | cancel _ | stop => cases hs

theorem Owes.run (h : Owes c t) (ss : List Step) (hss : ∀ s ∈ ss, s.keepsTasks = true) :
    Owes c (run t ss) ∧ handedOn (run t ss) c + owed (run t ss) c = handedOn t c + owed t c := by
  induction ss generalizing t with
  | nil => exact ⟨h, rfl⟩
  | cons s ss ih =>
    obtain ⟨h1, e1⟩ := h.step s (hss s (List.mem_cons_self s ss))
    obtain ⟨h2, e2⟩ := ih h1 fun s' hs' => hss s' (List.mem_cons_of_mem s hs')
    exact ⟨h2, e2.trans e1⟩

/-! ### What a call finds when it builds its task -/

/-- Each pending task is its call's own, and a repeat task owes a run and is not periodic; no
task of a call that has not returned is queued or has been handed on. -/
structure Fresh (t : Timer) : Prop where
  own : ∀ c task, t.calls c = .adding task →
    task.callback = c ∧ (task.isRepeat = true → 0 < task.repeatCount ∧ task.isPeriodic = false)
  unqueued : ∀ c, (∀ id, t.calls c ≠ .returned id) → ∀ v ∈ t.queue, v.callback ≠ c
  unposted : ∀ c, (∀ id, t.calls c ≠ .returned id) → ∀ v ∈ t.posted, v.callback ≠ c

theorem fresh_started : Fresh started :=
  ⟨(fun _ _ h => nomatch h), fun _ _ => nofun, fun _ _ => nofun⟩

theorem Fresh.of_frame {t' : Timer} (h : Fresh t) (hq : ∀ v ∈ t'.queue, v ∈ t.queue)
    (hp : t'.posted = t.posted) (hc : t'.calls = t.calls) : Fresh t' := by
  refine ⟨?_, fun c hr v hv => h.unqueued c ?_ v (hq v hv), fun c hr v hv => h.unposted c ?_ v ?_⟩
  · rw [hc]
    exact h.own
  · rwa [hc] at hr
  · rwa [hc] at hr
  · rwa [hp] at hv

theorem Fresh.serve (h : Fresh t) : Fresh (TimerLoop.serve t) := by
  unfold TimerLoop.serve
  split
  · exact h.of_frame (fun _ => id) rfl rfl
  rename_i task rest hqu
  have hrest : ∀ v ∈ rest, v ∈ t.queue := fun v hv => hqu ▸ List.mem_cons_of_mem task hv
  by_cases hwait : t.clock < task.expireTime
  · rw [if_pos hwait]
    exact h.of_frame (fun _ => id) rfl rfl
  rw [if_neg hwait]
  by_cases hcan : task.taskId ∈ t.cancelled
  · rw [if_pos hcan]
    exact h.of_frame hrest rfl rfl
  rw [if_neg hcan]
  have htask : task ∈ t.queue := hqu ▸ List.mem_cons_self task rest
  refine ⟨h.own, fun c hr v hv => ?_, fun c hr v hv => ?_⟩
  · rcases mem_requeue hv with hv | ⟨-, rfl⟩
    · exact h.unqueued c hr v (hrest v hv)
    · exact h.unqueued c hr task htask
  · rcases List.mem_append.1 hv with hv | hv
    · exact h.unposted c hr v hv
    · rw [List.mem_singleton.1 hv]
      exact h.unqueued c hr task htask

theorem Fresh.loopStep (h : Fresh t) (pc : LoopPc) : Fresh (TimerLoop.loopStep t pc) := by
  have hframe : ∀ l, Fresh { t with loop := l } := fun _ => h.of_frame (fun _ => id) rfl rfl
  cases pc with
  | locking =>
    simp only [TimerLoop.loopStep]
    split
    · exact hframe _
    · exact h.serve
  | woken =>
    simp only [TimerLoop.loopStep]
    split_ifs
    · exact hframe _
    · exact hframe _
    · exact h.serve
  | waiting | exited => exact h
  | top | checked | timedWaiting => exact hframe _

theorem Fresh.callStep (h : Fresh t) (c' : Nat) (s : Schedule) {pc : CallPc}
    (hpc : t.calls c' = pc) : Fresh (TimerLoop.callStep t c' s pc) := by
  cases pc with
  | idle =>
    have hidle : ∀ id, t.calls c' ≠ .returned id := fun id e => nomatch hpc.symm.trans e
    simp only [TimerLoop.callStep]
    split
    · exact ⟨fun c task hct => (calls_update_adding hct).elim (fun ⟨_, e⟩ => nomatch e) (h.own _ _),
        fun c hr => h.unqueued c (not_returned_of_update hidle hr),
        fun c hr => h.unposted c (not_returned_of_update hidle hr)⟩
    · rename_i task t' hcall
      obtain ⟨rfl, hcb, -, -, hrep⟩ := Schedule.call_some hcall
      refine ⟨fun c task' hct => ?_, fun c hr => h.unqueued c (not_returned_of_update hidle hr),
        fun c hr => h.unposted c (not_returned_of_update hidle hr)⟩
      rcases calls_update_adding hct with ⟨rfl, e⟩ | hct
      · cases e
        exact ⟨hcb, hrep⟩
      · exact h.own _ _ hct
  | adding task =>
    simp only [TimerLoop.callStep]
    split
    · exact h
    have hown := (h.own c' task hpc).1
    have hadd : ∀ id, t.calls c' ≠ .returned id := fun id e => nomatch hpc.symm.trans e
    have hne : ∀ c, (∀ id, Function.update t.calls c' (.returned task.taskId) c ≠ .returned id) →
        c' ≠ c := by
      rintro c hr rfl
      exact hr _ (Function.update_same _ _ _)
    refine ⟨fun c task' hct => (calls_update_adding hct).elim (fun ⟨_, e⟩ => nomatch e) (h.own _ _),
      fun c hr v hv => ?_, fun c hr => h.unposted c (not_returned_of_update hadd hr)⟩
    rcases mem_push.1 hv with rfl | hv
    · exact hown ▸ hne c hr
    · exact h.unqueued c (not_returned_of_update hadd hr) v hv
  | returned _ => exact h

theorem Fresh.step (h : Fresh t) (s : Step) : Fresh (step t s) := by
  cases s with
  | tick ms => exact h.of_frame (fun _ => id) rfl rfl
  | loop => exact h.loopStep t.loop
  | spurious => exact h.of_frame (fun _ => id) rfl rfl
  | schedule c s => exact h.callStep c s rfl
  | cancel taskId =>
    simp only [TimerLoop.step, cancel]
    split_ifs
    · exact h
    · exact h
    · exact h.of_frame (fun _ => id) rfl rfl
  | stop =>
    cases hs : t.stopper <;> simp only [TimerLoop.step, hs, stopStep]
    · split
      · exact h.of_frame (fun _ => id) rfl rfl
      · exact h.of_frame (fun _ => id) rfl rfl
    · exact h.of_frame (fun _ => id) rfl rfl
    · split
      · exact h.of_frame (fun _ => nofun) rfl rfl
      · exact h
    · exact h

theorem fresh_of_reachable (h : Reachable t) : Fresh t := by
  induction h with
  | start => exact fresh_started
  | step s _ ih => exact ih.step s

/-- For every reachable timer in which call `c` has built a task not marked periodic whose id is
not cancelled, over every run with no `cancel` and no `stop()`: the times the loop hands its
callback on and the runs still owed add up to the task's runs, one for `schedule_once` and
`repeat_count` for `schedule_repeat`. So it is handed on no more often than that, and exactly
that often once nothing of it is queued or pending. -/
theorem handedOn_add_owed (t : Timer) (hr : Reachable t) (c : Nat) (task : TimerTask)
    (hc : t.calls c = .adding task) (hp : task.isPeriodic = false) (hid : task.taskId ∉ t.cancelled)
    (ss : List Step) (hss : ∀ s ∈ ss, s.keepsTasks = true) :
    handedOn (run t ss) c + owed (run t ss) c = runsLeft task := by
  have hf := fresh_of_reachable hr
  have hnot : ∀ id, t.calls c ≠ .returned id := fun id => by rw [hc]; nofun
  have hpend : pending t c = [task] := by simp [pending, hc]
  have hown := hf.own c task hc
  have h0 : handedOn t c + owed t c = runsLeft task := by
    have hpost : handedOn t c = 0 :=
      List.countP_eq_zero.2 fun v hv => by simpa using hf.unposted c hnot v hv
    simp only [owed, hpost, owedIn_eq_zero (hf.unqueued c hnot), hpend, owedIn, hown.1, if_true,
      Nat.zero_add, Nat.add_zero]
  have howes : Owes c t := by
    refine ⟨fun c' task' h' => (hf.own c' task' h').1, by rw [hc]; nofun, fun v hv hvc => ?_⟩
    rw [hpend] at hv
    rcases List.mem_append.1 hv with hv | hv
    · exact absurd hvc (hf.unqueued c hnot v hv)
    · rw [List.mem_singleton.1 hv]
      exact ⟨hp, hid, fun hrep => (hown.2 hrep).1⟩
  rw [← h0]
  exact (howes.run ss hss).2

def repeatRun : List Step :=
  [.schedule 0 (.repeating 3 3), .tick 3, .loop, .loop, .tick 3, .loop, .loop, .tick 3, .loop,
    .loop]

theorem repeatRun_three_times :
    handedOn (run (run started [.schedule 0 (.repeating 3 3)]) repeatRun) 0 +
        owed (run (run started [.schedule 0 (.repeating 3 3)]) repeatRun) 0 =
      runsLeft ⟨3, 0, 0, 3, 3, false, true⟩ ∧
    handedOn (run (run started [.schedule 0 (.repeating 3 3)]) repeatRun) 0 = 3 :=
  ⟨handedOn_add_owed _ (Reachable.start.run [.schedule 0 (.repeating 3 3)]) 0 ⟨3, 0, 0, 3, 3, false, true⟩ rfl rfl (by decide)
    repeatRun (by decide), by decide⟩

end ReactorServer.Time.TimerOrder
