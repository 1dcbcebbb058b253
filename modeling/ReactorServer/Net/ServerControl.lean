import ReactorServer.Time.TimeoutManager

/-!
The control calls of `TcpServer` (`src/net/TcpServer.cpp`) and of its pool of IO loops,
`EventLoopThreadPool` (`src/unnamed/part_004`): the constructors, `start`, `stop`,
`enable_idle_timeout`, `set_idle_timeout` and `get_next_loop`, each a call on the thread that
owns the server.

`start` makes a running idle manager when idle timeouts are on, starts the pool and makes the
acceptor; `stop` stops and drops the manager, drops the acceptor and stops the pool. Over every
sequence of calls the manager exists only while idle timeouts are on, runs exactly while the
server is started, and carries the server's timeout (`control_of_run`).

The pool takes its thread count when it is built: the count asked for when it is positive, and
otherwise `std::thread::hardware_concurrency()` converted to `int`, or `1` if that is negative.
The server passes `max(0, io_thread_count)`, so a server built with `io_thread_count = 0`, which
`TcpServer.hpp` documents as using `base_loop` as its only IO loop, runs one IO loop per hardware
thread, and `get_next_loop` returns `base_loop` only when `hardware_concurrency()` returns `0`
(`started_server_loops`). The pool hands out its loops round robin on `next_index_`, a `size_t`
that `stop` does not reset; away from its wrap-around, `m` calls in a row give each of `n`
loops `m / n` or `m / n + 1` of them (`nextLoops_balanced`).
-/

set_option autoImplicit false
set_option relaxedAutoImplicit false

namespace ReactorServer.Net.ServerControl

open ReactorServer.Time.TimeoutManager (Manager serverManager)

/-- `static_cast<int>` of an `unsigned int`: from `2^31` on the value wraps to a negative. -/
def toInt (u : UInt32) : Int := if u.toNat < 2 ^ 31 then u.toNat else u.toNat - 2 ^ 32

def sizeRange : Nat := 2 ^ 64

/-! ## `EventLoopThreadPool` -/

/-- `EventLoopThreadPool`: `started_`, `thread_count_`, the length of `threads_`, and
`next_index_`. A loop is known by its index in `threads_`. -/
structure LoopPool where
  started : Bool
  threadCount : Int
  threads : Nat
  nextIndex : Nat
  deriving DecidableEq, Repr

namespace LoopPool

/-- `EventLoopThreadPool(name, thread_count)`, where `hardwareConcurrency` is what
`std::thread::hardware_concurrency()` returns. The conditional has type `unsigned`, and its value
goes back to `int`. -/
def create (threadCount : Int) (hardwareConcurrency : UInt32) : LoopPool :=
  let n := if 0 < threadCount then threadCount else toInt hardwareConcurrency
  ⟨false, if n < 0 then 1 else n, 0, 0⟩

/-- `start(init_cb)`: the compare-and-swap of `started_`, then, when `thread_count_` is
positive, one thread with its loop for each. -/
def start (p : LoopPool) : LoopPool :=
  if p.started then p
  else if p.threadCount ≤ 0 then { p with started := true }
  else { p with started := true, threads := p.threadCount.toNat }

/-- `stop()`: the compare-and-swap of `started_`, then every loop stopped, every thread joined
and `threads_` cleared; `next_index_` stays. -/
def stop (p : LoopPool) : LoopPool :=
  if p.started then { p with started := false, threads := 0 } else p

/-- `get_next_loop()`: `nullptr` on an empty `threads_`, otherwise the loop at
`next_index_.fetch_add(1) % threads_.size()`. -/
def getNextLoop (p : LoopPool) : Option Nat × LoopPool :=
  if p.threads = 0 then (none, p)
  else (some (p.nextIndex % p.threads), { p with nextIndex := (p.nextIndex + 1) % sizeRange })

@[simp] theorem start_threadCount (p : LoopPool) : p.start.threadCount = p.threadCount := by
  unfold start
  split_ifs <;> rfl

theorem start_of_stopped {p : LoopPool} (hs : p.started = false) (h0 : p.threads = 0) :
    p.start.started = true ∧ p.start.threads = p.threadCount.toNat := by
  simp only [start, hs, Bool.false_eq_true, if_false]
  split_ifs with hc
  · exact ⟨rfl, by simp [h0]; omega⟩
  · exact ⟨rfl, rfl⟩

@[simp] theorem stop_threadCount (p : LoopPool) : p.stop.threadCount = p.threadCount := by
  unfold stop
  split_ifs <;> rfl

@[simp] theorem getNextLoop_threadCount (p : LoopPool) :
    p.getNextLoop.2.threadCount = p.threadCount := by
  unfold getNextLoop
  split_ifs <;> rfl

end LoopPool

/-! ## `TcpServer` -/

/-- An IO loop: `base_loop_`, or the pool's loop at an index of `threads_`. -/
inductive LoopRef
  | base
  | pool (index : Nat)
  deriving DecidableEq, Repr

/-- `idle_manager_` with its `running_` flag. -/
structure IdleManager where
  manager : Manager
  running : Bool

/-- The members of `TcpServer` its control calls read and write: `io_thread_count_`,
`idle_timeout_ms_`, `idle_timeout_enabled_`, `started_`, `idle_manager_`, `thread_pool_`, and
whether `acceptor_` is set. -/
structure Server where
  ioThreadCount : Int
  idleTimeoutMs : Int
  idleTimeoutEnabled : Bool
  started : Bool
  idleManager : Option IdleManager
  threadPool : LoopPool
  acceptor : Bool

namespace Server

/-- `TcpServer(base_loop, ip, port, io_thread_count, name)`; `baseLoop` says whether
`base_loop` is non-null. -/
def create (baseLoop : Bool) (port : UInt16) (ioThreadCount : Int) (hardwareConcurrency : UInt32) :
    Except String Server :=
  let io := max 0 ioThreadCount
  if baseLoop = false then .error "base_loop is null"
  else if port = 0 then .error "port cannot be 0"
  else .ok ⟨io, 300000, false, false, none, LoopPool.create io hardwareConcurrency, false⟩

/-- `start()`: the compare-and-swap of `started_`; with idle timeouts on, a new idle manager in
place of the old one, started; the pool started; the acceptor made and listening. -/
def start (s : Server) : Server :=
  if s.started then s
  else
    let idle := if s.idleTimeoutEnabled then some ⟨serverManager s.idleTimeoutMs, true⟩
      else s.idleManager
    { s with started := true, idleManager := idle, threadPool := s.threadPool.start,
             acceptor := true }

/-- `stop()`: the compare-and-swap of `started_`; the idle manager stopped and dropped; the
acceptor dropped; the pool stopped. The connections it shuts down are `Net.Registry`'s. -/
def stop (s : Server) : Server :=
  if s.started then
    { s with started := false, idleManager := none, acceptor := false,
             threadPool := s.threadPool.stop }
  else s

/-- `set_idle_timeout(timeout_ms)`: at least one second, passed on to the manager. -/
def setIdleTimeout (timeoutMs : Int) (s : Server) : Server :=
  let t := max 1000 timeoutMs
  { s with idleTimeoutMs := t,
           idleManager := s.idleManager.map fun m => { m with manager := m.manager.setIdleTimeout t } }

/-- `enable_idle_timeout(enable)`: turning on makes a manager if there is none, started when the
server is; turning off stops and drops it. -/
def enableIdleTimeout (enable : Bool) (s : Server) : Server :=
  if s.idleTimeoutEnabled = enable then s
  else if enable then
    { s with idleTimeoutEnabled := true,
             idleManager := if s.idleManager.isNone then some ⟨serverManager s.idleTimeoutMs, s.started⟩
               else s.idleManager }
  else { s with idleTimeoutEnabled := false, idleManager := none }

/-- `get_next_loop()`: `base_loop_` when the pool has no thread or returns `nullptr`. -/
def getNextLoop (s : Server) : LoopRef × Server :=
  if s.threadPool.threads = 0 then (.base, s)
  else
    match s.threadPool.getNextLoop with
    | (some i, p) => (.pool i, { s with threadPool := p })
    | (none, p) => (.base, { s with threadPool := p })

end Server

inductive Op
  | start
  | stop
  | enableIdleTimeout (enable : Bool)
  | setIdleTimeout (timeoutMs : Int)
  | getNextLoop
  deriving DecidableEq, Repr

def Op.apply : Op → Server → Server
  | .start, s => s.start
  | .stop, s => s.stop
  | .enableIdleTimeout enable, s => s.enableIdleTimeout enable
  | .setIdleTimeout timeoutMs, s => s.setIdleTimeout timeoutMs
  | .getNextLoop, s => s.getNextLoop.2

def run (s : Server) (ops : List Op) : Server := ops.foldl (fun s o => o.apply s) s

@[simp] theorem run_nil (s : Server) : run s [] = s := rfl

@[simp] theorem run_cons (s : Server) (o : Op) (ops : List Op) :
    run s (o :: ops) = run (o.apply s) ops := rfl

/-! ## The constructor -/

theorem create_error {baseLoop : Bool} {port : UInt16} {io : Int} {hc : UInt32} {msg : String} :
    Server.create baseLoop port io hc = .error msg ↔
      baseLoop = false ∧ msg = "base_loop is null" ∨
        baseLoop = true ∧ port = 0 ∧ msg = "port cannot be 0" := by
  unfold Server.create
  cases baseLoop <;> by_cases hp : port = 0 <;> simp [hp, eq_comm]

theorem create_ok {baseLoop : Bool} {port : UInt16} {io : Int} {hc : UInt32} {s : Server}
    (hs : Server.create baseLoop port io hc = .ok s) :
    s = ⟨max 0 io, 300000, false, false, none, LoopPool.create (max 0 io) hc, false⟩ := by
  unfold Server.create at hs
  split_ifs at hs
  cases hs
  rfl

/-! ## The control invariant -/

/-- What every server reached from the constructor keeps. The idle manager exists only while
idle timeouts are on, and whenever the server is started with them on; it runs exactly while the
server is started, with the server's timeout, sixty slots and one tick a second. The timeout is
at least one second. The pool is started with the server and then holds `thread_count_` loops,
and the acceptor exists exactly while the server is started. -/
structure Control (s : Server) : Prop where
  manager_enabled : s.idleManager.isSome → s.idleTimeoutEnabled = true
  manager_present : s.started = true → s.idleTimeoutEnabled = true → s.idleManager.isSome
  manager_running : ∀ m, s.idleManager = some m → m.running = s.started
  manager_timeout : ∀ m, s.idleManager = some m →
    m.manager.idleTimeoutMs = s.idleTimeoutMs.toNat ∧ m.manager.wheelSize = 60 ∧
      m.manager.tickIntervalMs = 1000
  timeout_ge : 1000 ≤ s.idleTimeoutMs
  pool_started : s.threadPool.started = s.started
  pool_threads : s.threadPool.threads = if s.started then s.threadPool.threadCount.toNat else 0
  acceptor : s.acceptor = s.started

variable {s : Server}

theorem serverManager_timeout {t : Int} (ht : 1000 ≤ t) :
    (serverManager t).idleTimeoutMs = t.toNat ∧ (serverManager t).wheelSize = 60 ∧
      (serverManager t).tickIntervalMs = 1000 := by
  simp only [serverManager, Manager.create]
  refine ⟨if_neg (by omega), rfl, rfl⟩

theorem control_create {baseLoop : Bool} {port : UInt16} {io : Int} {hc : UInt32}
    (hs : Server.create baseLoop port io hc = .ok s) : Control s := by
  rw [create_ok hs]
  exact ⟨nofun, nofun, nofun, nofun, (by norm_num : (1000 : Int) ≤ 300000), rfl, rfl, rfl⟩

theorem Control.manager_none (h : Control s) (he : s.idleTimeoutEnabled = false) :
    s.idleManager = none :=
  Option.not_isSome_iff_eq_none.1 fun hs => by simp [h.manager_enabled hs] at he

theorem Control.start (h : Control s) : Control s.start := by
  unfold Server.start
  by_cases hst : s.started = true
  · rw [if_pos hst]
    exact h
  rw [if_neg hst]
  have hf : s.started = false := by simpa using hst
  obtain ⟨hps, hpool⟩ := LoopPool.start_of_stopped (h.pool_started.trans hf)
    (by simpa [hf] using h.pool_threads)
  dsimp only
  cases he : s.idleTimeoutEnabled
  · simp only [he, h.manager_none he]
    exact ⟨by simp, by simp, by simp, by simp, h.timeout_ge, hps, by simp [hpool], rfl⟩
  · simp only [he, if_true]
    exact ⟨fun _ => rfl, by simp, fun m hm => by cases hm; rfl,
      fun m hm => by cases hm; exact serverManager_timeout h.timeout_ge, h.timeout_ge, hps,
      by simp [hpool], rfl⟩

theorem Control.stop (h : Control s) : Control s.stop := by
  unfold Server.stop
  split_ifs with hst
  · exact ⟨nofun, nofun, nofun, nofun, h.timeout_ge, by simp [LoopPool.stop, h.pool_started, hst],
      by simp [LoopPool.stop, h.pool_started, hst], rfl⟩
  · exact h

theorem Control.setIdleTimeout (h : Control s) (timeoutMs : Int) :
    Control (s.setIdleTimeout timeoutMs) := by
  have hge : 1000 ≤ max 1000 timeoutMs := le_max_left _ _
  refine ⟨fun hm => h.manager_enabled (by simpa [Server.setIdleTimeout] using hm),
    fun hst he => by simpa [Server.setIdleTimeout] using h.manager_present hst he,
    fun m hm => ?_, fun m hm => ?_, hge, h.pool_started, h.pool_threads, h.acceptor⟩ <;>
    obtain ⟨m₀, hm₀, rfl⟩ := Option.map_eq_some'.1 hm
  · exact h.manager_running m₀ hm₀
  · obtain ⟨-, hw, ht⟩ := h.manager_timeout m₀ hm₀
    have hpos : ¬max 1000 timeoutMs ≤ 0 := by omega
    simp only [Server.setIdleTimeout, Manager.setIdleTimeout, if_neg hpos]
    exact ⟨trivial, hw, ht⟩

theorem Control.enableIdleTimeout (h : Control s) (enable : Bool) :
    Control (s.enableIdleTimeout enable) := by
  unfold Server.enableIdleTimeout
  by_cases heq : s.idleTimeoutEnabled = enable
  · rw [if_pos heq]
    exact h
  rw [if_neg heq]
  cases enable with
  | true =>
    have hm : s.idleManager = none := h.manager_none (by simpa using heq)
    simp only [hm, Option.isNone_none, ↓reduceIte]
    exact ⟨fun _ => rfl, by simp, fun m hm' => by cases hm'; rfl,
      fun m hm' => by cases hm'; exact serverManager_timeout h.timeout_ge, h.timeout_ge,
      h.pool_started, h.pool_threads, h.acceptor⟩
  | false =>
    exact ⟨by simp, by simp, by simp, by simp, h.timeout_ge, h.pool_started, h.pool_threads,
      h.acceptor⟩

theorem Control.getNextLoop (h : Control s) : Control s.getNextLoop.2 := by
  unfold Server.getNextLoop
  split_ifs with hz
  · exact h
  simp only [LoopPool.getNextLoop, if_neg hz]
  exact ⟨h.manager_enabled, h.manager_present, h.manager_running, h.manager_timeout, h.timeout_ge,
    h.pool_started, h.pool_threads, h.acceptor⟩

theorem Control.apply (h : Control s) (o : Op) : Control (o.apply s) := by
  cases o with
  | start => exact h.start
  | stop => exact h.stop
  | enableIdleTimeout enable => exact h.enableIdleTimeout enable
  | setIdleTimeout timeoutMs => exact h.setIdleTimeout timeoutMs
  | getNextLoop => exact h.getNextLoop

theorem Control.run (h : Control s) (ops : List Op) : Control (run s ops) := by
  induction ops generalizing s with
  | nil => exact h
  | cons o ops ih => exact ih (h.apply o)

/-- Over every sequence of `start`, `stop`, `enable_idle_timeout`, `set_idle_timeout` and
`get_next_loop` calls on a constructed server, the idle manager, the pool and the acceptor keep
`Control`. -/
theorem control_of_run {baseLoop : Bool} {port : UInt16} {io : Int} {hc : UInt32} {s₀ : Server}
    (hs : Server.create baseLoop port io hc = .ok s₀) (ops : List Op) : Control (run s₀ ops) :=
  (control_create hs).run ops

def restartOps : List Op := [.enableIdleTimeout true, .start, .setIdleTimeout 500, .stop, .start]

/-- After the restart the new manager runs with the one-second minimum. -/
theorem restart_keeps_control :
    ∃ s₀, Server.create true 8080 4 8 = .ok s₀ ∧ Control (run s₀ restartOps) ∧
      (run s₀ restartOps).idleManager.map (fun m => (m.running, m.manager.idleTimeoutMs)) =
        some (true, 1000) := by
  obtain ⟨s₀, hs⟩ : ∃ s₀, Server.create true 8080 4 8 = .ok s₀ := ⟨_, rfl⟩
  refine ⟨s₀, hs, control_of_run hs restartOps, ?_⟩
  rw [create_ok hs]
  decide

/-! ## The loops `get_next_loop` hands out -/

@[simp] theorem Op.apply_threadCount (o : Op) (s : Server) :
    (o.apply s).threadPool.threadCount = s.threadPool.threadCount := by
  cases o <;> simp only [Op.apply, Server.start, Server.stop, Server.enableIdleTimeout,
    Server.setIdleTimeout, Server.getNextLoop] <;> split_ifs <;> try rfl
  all_goals first
    | exact LoopPool.start_threadCount _
    | exact LoopPool.stop_threadCount _
    | split <;> rename_i hp <;> simpa [hp] using LoopPool.getNextLoop_threadCount s.threadPool

theorem run_threadCount (s : Server) (ops : List Op) :
    (run s ops).threadPool.threadCount = s.threadPool.threadCount := by
  induction ops generalizing s with
  | nil => rfl
  | cons o ops ih => rw [run_cons, ih, Op.apply_threadCount]

theorem create_threadCount_toNat (io : Int) (hc : UInt32) :
    (LoopPool.create (max 0 io) hc).threadCount.toNat =
      if 0 < io then io.toNat else if hc.toNat < 2 ^ 31 then hc.toNat else 1 := by
  have hlt := UInt32.toNat_lt_size hc
  simp only [LoopPool.create, toInt, UInt32.size] at hlt ⊢
  split_ifs <;> omega

theorem Server.getNextLoop_of_zero (hz : s.threadPool.threads = 0) : s.getNextLoop = (.base, s) :=
  if_pos hz

theorem Server.getNextLoop_of_ne (hn : s.threadPool.threads ≠ 0) :
    s.getNextLoop = (.pool (s.threadPool.nextIndex % s.threadPool.threads),
      { s with threadPool :=
        { s.threadPool with nextIndex := (s.threadPool.nextIndex + 1) % sizeRange } }) := by
  simp [Server.getNextLoop, LoopPool.getNextLoop, hn]

/-- A started server built with `io_thread_count = io` runs `io` IO loops when `io` is positive,
and otherwise one per hardware thread (`1` if `hardware_concurrency()` does not fit an `int`);
`get_next_loop` returns `base_loop` exactly when `io ≤ 0` and `hardware_concurrency()` is `0`. -/
theorem started_server_loops {baseLoop : Bool} {port : UInt16} {io : Int} {hc : UInt32}
    {s₀ : Server} (hs : Server.create baseLoop port io hc = .ok s₀) (ops : List Op)
    (hst : (run s₀ ops).started = true) :
    (run s₀ ops).threadPool.threads =
        (if 0 < io then io.toNat else if hc.toNat < 2 ^ 31 then hc.toNat else 1) ∧
      ((run s₀ ops).getNextLoop.1 = .base ↔ io ≤ 0 ∧ hc.toNat = 0) := by
  have hthreads : (run s₀ ops).threadPool.threads =
      if 0 < io then io.toNat else if hc.toNat < 2 ^ 31 then hc.toNat else 1 := by
    rw [(control_of_run hs ops).pool_threads, if_pos hst, run_threadCount, create_ok hs]
    exact create_threadCount_toNat io hc
  have hzero : (run s₀ ops).threadPool.threads = 0 ↔ io ≤ 0 ∧ hc.toNat = 0 := by
    rw [hthreads]
    split_ifs <;> simp <;> omega
  refine ⟨hthreads, ?_⟩
  by_cases hz : (run s₀ ops).threadPool.threads = 0
  · rw [Server.getNextLoop_of_zero hz]
    exact iff_of_true rfl (hzero.1 hz)
  · rw [Server.getNextLoop_of_ne hz]
    exact iff_of_false nofun (mt hzero.2 hz)

/-- A server asked for no IO thread on an eight-way machine starts eight IO loops. -/
theorem zeroIoThreads_eightLoops :
    ∃ s₀, Server.create true 8080 0 8 = .ok s₀ ∧ (run s₀ [.start]).started = true ∧
      (run s₀ [.start]).threadPool.threads = 8 ∧
      ((run s₀ [.start]).getNextLoop.1 = .base ↔ (0 : Int) ≤ 0 ∧ (8 : UInt32).toNat = 0) := by
  obtain ⟨s₀, hs⟩ : ∃ s₀, Server.create true 8080 0 8 = .ok s₀ := ⟨_, rfl⟩
  have hst : (run s₀ [.start]).started = true := by
    rw [create_ok hs]
    rfl
  have hloops := started_server_loops hs [.start] hst
  exact ⟨s₀, hs, hst, hloops.1.trans (by decide), hloops.2⟩

/-! ## Round robin -/

/-- `get_next_loop()` called `m` times in a row: the loops it returns. -/
def nextLoops : Nat → Server → List LoopRef
  | 0, _ => []
  | m + 1, s => s.getNextLoop.1 :: nextLoops m s.getNextLoop.2

theorem nextLoops_eq (hn : s.threadPool.threads ≠ 0) {m : Nat}
    (hk : s.threadPool.nextIndex + m ≤ sizeRange) :
    nextLoops m s =
      (List.range' s.threadPool.nextIndex m).map fun x => .pool (x % s.threadPool.threads) := by
  induction m generalizing s with
  | zero => rfl
  | succ m ih =>
    rcases Nat.eq_zero_or_pos m with rfl | hm
    · simp [nextLoops, Server.getNextLoop_of_ne hn]
    have hk' : (s.threadPool.nextIndex + 1) % sizeRange = s.threadPool.nextIndex + 1 :=
      Nat.mod_eq_of_lt (by omega)
    have hnext : s.getNextLoop.2.threadPool.nextIndex = s.threadPool.nextIndex + 1 := by
      rw [Server.getNextLoop_of_ne hn]
      exact hk'
    have hthreads : s.getNextLoop.2.threadPool.threads = s.threadPool.threads := by
      rw [Server.getNextLoop_of_ne hn]
    rw [nextLoops, @ih s.getNextLoop.2 (hthreads ▸ hn) (by rw [hnext]; omega), hnext, hthreads,
      Server.getNextLoop_of_ne hn, List.range'_succ, List.map_cons]

theorem count_pool_map (l : List Nat) (n i : Nat) :
    (l.map fun x => LoopRef.pool (x % n)).count (.pool i) = l.countP (fun x => x % n = i) := by
  rw [List.count_eq_countP, List.countP_map]
  exact List.countP_congr fun x _ => by simp

theorem countP_mod_range'_zero {n i m : Nat} (hm : m ≤ n) :
    (List.range' 0 m).countP (fun x => x % n = i) = if i < m then 1 else 0 := by
  induction m with
  | zero => simp
  | succ m ih =>
    rw [List.range'_1_concat, List.countP_append, ih (by omega), Nat.zero_add]
    simp only [List.countP_cons, List.countP_nil, Nat.mod_eq_of_lt (by omega : m < n),
      decide_eq_true_eq]
    split_ifs <;> omega

theorem countP_mod_range'_succ (k : Nat) {n : Nat} (hn : 0 < n) (i : Nat) :
    (List.range' (k + 1) n).countP (fun x => x % n = i) =
      (List.range' k n).countP (fun x => x % n = i) := by
  obtain ⟨n', rfl⟩ : ∃ n', n = n' + 1 := ⟨n - 1, by omega⟩
  have hmod : (k + 1 + n') % (n' + 1) = k % (n' + 1) := by
    rw [show k + 1 + n' = k + (n' + 1) by omega, Nat.add_mod_right]
  rw [List.range'_1_concat, List.range'_succ, List.countP_append, List.countP_cons]
  simp only [List.countP_cons, List.countP_nil, hmod]
  omega

theorem countP_mod_window (k : Nat) {n i : Nat} (hi : i < n) :
    (List.range' k n).countP (fun x => x % n = i) = 1 := by
  induction k with
  | zero => rw [countP_mod_range'_zero le_rfl, if_pos hi]
  | succ k ih => rw [countP_mod_range'_succ k (by omega), ih]

theorem countP_mod_windows (k q : Nat) {n i : Nat} (hi : i < n) :
    (List.range' k (q * n)).countP (fun x => x % n = i) = q := by
  induction q generalizing k with
  | zero => simp
  | succ q ih =>
    rw [Nat.succ_mul, Nat.add_comm, ← List.range'_append_1, List.countP_append, ih,
      countP_mod_window _ hi, Nat.add_comm]

theorem countP_mod_balanced (k m : Nat) {n i : Nat} (hi : i < n) :
    m / n ≤ (List.range' k m).countP (fun x => x % n = i) ∧
      (List.range' k m).countP (fun x => x % n = i) ≤ m / n + 1 := by
  have hsplit : List.range' k m = List.range' k (m / n * n) ++ List.range' (k + m / n * n) (m % n) := by
    rw [List.range'_append_1, Nat.mod_add_div']
  have hrest : (List.range' (k + m / n * n) (m % n)).countP (fun x => x % n = i) ≤ 1 :=
    calc _ ≤ (List.range' (k + m / n * n) n).countP (fun x => x % n = i) :=
          (List.range'_sublist_right.2 (Nat.mod_lt m (Nat.zero_lt_of_lt hi)).le).countP_le _
      _ = 1 := countP_mod_window _ hi
  rw [hsplit, List.countP_append, countP_mod_windows _ _ hi]
  omega

/-- Away from the wrap-around of `next_index_`, `m` calls of `get_next_loop` in a row on a server
whose pool holds `n` loops give each loop `m / n` or `m / n + 1` of them. -/
theorem nextLoops_balanced (s : Server) {m : Nat} (hn : 0 < s.threadPool.threads)
    (hk : s.threadPool.nextIndex + m ≤ sizeRange) {i : Nat} (hi : i < s.threadPool.threads) :
    m / s.threadPool.threads ≤ (nextLoops m s).count (.pool i) ∧
      (nextLoops m s).count (.pool i) ≤ m / s.threadPool.threads + 1 := by
  rw [nextLoops_eq hn.ne' hk, count_pool_map]
  exact countP_mod_balanced _ m hi

def fourLoops : Server := ⟨4, 300000, false, true, none, ⟨true, 4, 4, 0⟩, true⟩

/-- A hundred connections in a row give the second loop twenty-five or twenty-six of them. -/
theorem hundred_connections_four_loops :
    0 < fourLoops.threadPool.threads ∧ fourLoops.threadPool.nextIndex + 100 ≤ sizeRange ∧
      1 < fourLoops.threadPool.threads ∧ 25 ≤ (nextLoops 100 fourLoops).count (.pool 1) ∧
      (nextLoops 100 fourLoops).count (.pool 1) ≤ 26 :=
  ⟨by decide, by decide, by decide,
    @nextLoops_balanced fourLoops 100 (by decide) (by decide) 1 (by decide)⟩

end ReactorServer.Net.ServerControl
