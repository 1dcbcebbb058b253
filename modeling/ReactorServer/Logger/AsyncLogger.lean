import ReactorServer.Logger.Rotation

/-!
`logger::Logger` as threads share it (`src/logger/logger.cpp`; the class is declared in
`src/memory/data_buf.hpp`): `initialize`, `write` on any thread, the writer thread running
`async_write_thread`, and `shutdown`.

`write` returns unless the logger is initialized and the level passes `current_level_`, builds
the record, and then, in asynchronous mode, pushes it to `log_queue_` with a 100 ms timeout,
writing it to standard output if that runs out; otherwise it calls `sync_write`. The writer
thread pops with a 100 ms timeout and calls `sync_write` until it sees `shutdown_requested_`,
then pops without waiting until the queue is empty and exits. `shutdown` sets the flag, waits
up to 100 rounds for the queue to empty, joins the writer, closes the file and resets the
queue. Each statement that touches shared state is one step of `step`; `write` is two, its
checks and its delivery, since another thread may run between them.

The proofs keep three records the source does not: the records pushed to the current queue,
those the writer has handed to `sync_write`, and how many had been pushed when `shutdown` set
its flag (`Ghost`). Over every interleaving (`Inv`), the writer hands on a prefix of what was
pushed, in push order, each record once, and each is written to a file or standard output in
that order; once it has exited, and when `shutdown` closes the file, that prefix holds every
record pushed before the flag (`drained_before_close`).
-/

set_option autoImplicit false
set_option relaxedAutoImplicit false

namespace ReactorServer.Logger.AsyncLogger

open ReactorServer.Logger.BoundedQueue (LogQueue create contents)
open ReactorServer.Logger.Rotation (Files Disk Clock createNewLogFile toStdout)
open ReactorServer.Logger.LogFiles (findLastOf intToString)

/-- `Logger::Level`, in the order the enum declares it. -/
inductive Level
  | error
  | warn
  | info
  | debug
  deriving DecidableEq, Repr

def Level.toNat : Level → Nat
  | .error => 0
  | .warn => 1
  | .info => 2
  | .debug => 3

def Level.text : Level → List Char
  | .error => "ERROR".toList
  | .warn => "WARN".toList
  | .info => "INFO".toList
  | .debug => "DEBUG".toList

/-- `Logger::Config`, with the members `initialize` reads for the modelled state. -/
structure Config where
  filename : List Char
  level : Level
  maxLines : Nat
  queueCapacity : Nat
  async : Bool

/-- The record `write` builds: the time, `" ["`, the level, `"] "`, `"["`, file, `":"`,
function, `":"`, line, `"] "`, the message as `vsnprintf` leaves it in `message[4096]`, and
`"\n"`. -/
def formatLog (time : List Char) (level : Level) (file func : List Char) (line : Int)
    (message : List Char) : List Char :=
  time ++ " [".toList ++ level.text ++ "] ".toList ++ "[".toList ++ file ++ ":".toList ++ func ++
    ":".toList ++ intToString line ++ "] ".toList ++ message.take 4095 ++ "\n".toList

/-- Where the writer thread is in `async_write_thread`. -/
inductive WriterPc
  -- The test of `shutdown_requested_`.
  | top
  -- `log_queue_ && log_queue_->pop(log, 100)`.
  | popping
  -- `sync_write(log)` in the loop.
  | writing (log : List Char)
  -- `log_queue_->pop(log, 0)` after the loop.
  | draining
  -- `sync_write(log)` after the loop.
  | drainWriting (log : List Char)
  | exited
  deriving DecidableEq

/-- Where a `write` call is: idle, or past its checks with the record built. -/
inductive CallPc
  | idle
  | delivering (log : List Char)
  deriving DecidableEq

/-- Where `shutdown()` is. -/
inductive StopPc
  | idle
  -- The `wait_count` loop, after `count` rounds.
  | waiting (count : Nat)
  | joining
  | closing
  | resetting
  deriving DecidableEq

/-- What the proofs record and the source does not keep: the records pushed to the current
queue, in order (the list restarts when `initialize` makes a queue and when `shutdown` drops
it); those the writer thread has handed to `sync_write`; and the number pushed when `shutdown`
set `shutdown_requested_`. -/
structure Ghost where
  pushed : List (List Char)
  drained : List (List Char)
  flagAt : Option Nat

/-- The logger: `initialized_`, `shutdown_requested_`, `current_level_`, `async_`, `log_queue_`,
`async_thread_` (the writer's place while the thread object exists), the file members and the
disk, the `write` calls in flight by thread, the `shutdown` call, and whether `std::terminate`
has ended the process. -/
structure Logger where
  initialized : Bool
  shutdownRequested : Bool
  currentLevel : Level
  async : Bool
  logQueue : Option (LogQueue (List Char))
  writer : Option WriterPc
  files : Files
  disk : Disk
  calls : Nat → CallPc
  stopper : StopPc
  terminated : Bool
  ghost : Ghost

/-- The singleton before `initialize`: zero-initialized static storage, `current_level_` INFO,
no file, no queue, no thread. -/
def Logger.fresh (entries : List (List Char)) : Logger :=
  ⟨false, false, .info, false, none, none, ⟨[], [], 0, 0, 0, none⟩, ⟨entries, []⟩,
    fun _ => .idle, .idle, false, ⟨[], [], none⟩⟩

/-- The record the writer thread holds between its `pop` and its `sync_write`. -/
def WriterPc.inHand : WriterPc → List (List Char)
  | .writing log => [log]
  | .drainWriting log => [log]
  | _ => []

def inHand (t : Logger) : List (List Char) := (t.writer.map WriterPc.inHand).getD []

/-- `dir_name_` and `file_name_` from `config.filename`: split at the last `/` or `\`, and
otherwise the old `dir_name_` stays. -/
def splitPath (filename oldDir : List Char) : List Char × List Char :=
  match findLastOf filename ['/', '\\'] with
  | some pos => (filename.take pos, filename.drop (pos + 1))
  | none => (oldDir, filename)

/-- The asynchronous block of `initialize`: a new `log_queue_` and the writer thread. When the
thread does not start, `async_` goes back to `false` and the queue is reset; a new thread
assigned over one that is still joinable calls `std::terminate`. -/
def startWriter (capacity : Nat) (threadOk : Bool) (t : Logger) : Logger :=
  let t := { t with
    async := true
    logQueue := create capacity false
    ghost := { t.ghost with pushed := t.ghost.drained ++ inHand t } }
  if threadOk then
    if t.writer.isSome then { t with terminated := true } else { t with writer := some .top }
  else { t with async := false, logQueue := none }

/-- What `initialize` sets from `config` before it opens the first file: the level, the file
members, and in asynchronous mode with a positive capacity the queue and the writer thread. -/
def configure (config : Config) (threadOk : Bool) (t : Logger) : Logger :=
  let path := splitPath config.filename t.files.dirName
  let t := { t with
    currentLevel := config.level
    files := { t.files with maxLines := config.maxLines, dirName := path.1, fileName := path.2 } }
  if config.async && 0 < config.queueCapacity then startWriter config.queueCapacity threadOk t else t

/-- `initialize(config)`, with `threadOk` telling whether `std::thread` starts and `opens`,
`clock` for the first `create_new_log_file`: what it returns and the logger after it; `none`
where it is undefined behaviour. -/
def initializeLogger (config : Config) (threadOk opens : Bool) (clock : Clock) (t : Logger) :
    Option (Bool × Logger) :=
  if t.initialized then some (false, t)
  else
    let t := configure config threadOk t
    if t.terminated then some (false, t)
    else
      (createNewLogFile clock opens t.files t.disk).map fun r =>
        (r.1, { t with files := r.2.1, disk := r.2.2, initialized := r.1 })

/-- The start of `write(level, file, func, line, format, ...)` on thread `p`, up to the record:
`message` is what `vsnprintf` formats and `time` what `get_formatted_time` returns. -/
def call (t : Logger) (p : Nat) (level : Level) (file func : List Char) (line : Int)
    (message time : List Char) : Logger :=
  if t.calls p ≠ .idle ∨ t.initialized = false ∨ t.currentLevel.toNat < level.toNat then t
  else { t with calls := Function.update t.calls p (.delivering (formatLog time level file func line message)) }

def Logger.syncWrite (t : Logger) (log : List Char) (day : Int) (clock : Clock) (opens : Bool) :
    Option Logger :=
  (Rotation.syncWrite log day clock opens t.files t.disk).map fun r => { t with files := r.1, disk := r.2 }

/-- The rest of `write` on thread `p`: in asynchronous mode with a queue, `push(log, 100)` and,
when that runs out, `fwrite` to standard output; otherwise `sync_write(log)`. -/
def deliver (t : Logger) (p : Nat) (day : Int) (clock : Clock) (opens : Bool) : Option Logger :=
  match t.calls p with
  | .idle => some t
  | .delivering log =>
    let t := { t with calls := Function.update t.calls p .idle }
    match t.async, t.logQueue with
    | true, some q =>
      match q.pushCopy log 100 with
      | some (true, q') =>
        some { t with logQueue := some q', ghost := { t.ghost with pushed := t.ghost.pushed ++ [log] } }
      | _ => some { t with disk := toStdout log t.disk }
    | _, _ => t.syncWrite log day clock opens

def writerStep (t : Logger) (day : Int) (clock : Clock) (opens : Bool) : WriterPc → Option Logger
  | .top => some { t with writer := some (if t.shutdownRequested then .draining else .popping) }
  | .popping =>
    match t.logQueue.bind fun q => q.pop 100 with
    | some (some log, q') => some { t with logQueue := some q', writer := some (.writing log) }
    | _ => some { t with writer := some .top }
  | .writing log =>
    (t.syncWrite log day clock opens).map fun t' =>
      { t' with writer := some .top, ghost := { t'.ghost with drained := t'.ghost.drained ++ [log] } }
  | .draining =>
    match t.logQueue.bind fun q => q.pop 0 with
    | some (some log, q') => some { t with logQueue := some q', writer := some (.drainWriting log) }
    | _ => some { t with writer := some .exited }
  | .drainWriting log =>
    (t.syncWrite log day clock opens).map fun t' =>
      { t' with writer := some .draining, ghost := { t'.ghost with drained := t'.ghost.drained ++ [log] } }
  | .exited => some t

def stopStep (t : Logger) : StopPc → Logger
  | .idle =>
    if t.initialized = false then t
    else
      let t := { t with shutdownRequested := true, ghost := { t.ghost with flagAt := some t.ghost.pushed.length } }
      match t.writer, t.logQueue with
      | some _, some _ => { t with stopper := .waiting 0 }
      | some _, none => { t with stopper := .joining }
      | none, _ => { t with stopper := .closing }
  | .waiting n =>
    match t.logQueue with
    | some q => if n < 100 ∧ q.empty = false then { t with stopper := .waiting (n + 1) }
      else { t with stopper := .joining }
    | none => { t with stopper := .joining }
  | .joining => if t.writer = some .exited then { t with writer := none, stopper := .closing } else t
  | .closing => { t with files := { t.files with file := none }, stopper := .resetting }
  | .resetting =>
    { t with logQueue := none, initialized := false, shutdownRequested := false, stopper := .idle,
             ghost := { t.ghost with pushed := t.ghost.drained, flagAt := none } }

/-- A step of some thread, or another process creating a file in the log directory. The
environment's answers travel with the step: the day of the year and clock a `sync_write` reads,
whether its `fopen` succeeds, and whether a new thread starts. -/
inductive Step
  | initializeLogger (config : Config) (threadOk opens : Bool) (clock : Clock)
  | call (p : Nat) (level : Level) (file func : List Char) (line : Int) (message time : List Char)
  | deliver (p : Nat) (day : Int) (clock : Clock) (opens : Bool)
  | writer (day : Int) (clock : Clock) (opens : Bool)
  | stop
  | create (name : List Char)

/-- One step; `none` where it is undefined behaviour. Nothing runs after `std::terminate`. -/
def step (t : Logger) (s : Step) : Option Logger :=
  if t.terminated then some t
  else
    match s with
    | .initializeLogger config threadOk opens clock =>
      (initializeLogger config threadOk opens clock t).map Prod.snd
    | .call p level file func line message time => some (call t p level file func line message time)
    | .deliver p day clock opens => deliver t p day clock opens
    | .writer day clock opens =>
      match t.writer with
      | some pc => writerStep t day clock opens pc
      | none => some t
    | .stop => some (stopStep t t.stopper)
    | .create name => some { t with disk := { t.disk with entries := t.disk.entries.insert name } }

inductive Reachable : Logger → Prop
  | fresh (entries : List (List Char)) : Reachable (Logger.fresh entries)
  | step {t t' : Logger} (s : Step) : Reachable t → step t s = some t' → Reachable t'

/-! ## What one step does to the records -/

/-- Whether the writer has left its loop: it only does after seeing `shutdown_requested_`. -/
def WriterPc.left : WriterPc → Bool
  | .draining => true
  | .drainWriting _ => true
  | .exited => true
  | _ => false

/-- What every reachable logger keeps. The writer has handed to `sync_write` the first records
pushed, holds the next one, and the queue holds the rest (`accounted`); every record handed on
is written (`written`); and once the writer has exited, and while `shutdown` closes the file,
what had been pushed when the flag was set has been handed on (`exited`, `closed`). Without a
writer thread and outside `shutdown` there is no queue (`idle_none`). The other fields say how
the flag, `shutdown` and the writer move together. -/
structure Inv (t : Logger) : Prop where
  queue_inv : ∀ q, t.logQueue = some q → BoundedQueue.Inv q
  accounted : ∀ q, t.logQueue = some q → t.ghost.drained ++ inHand t ++ contents q = t.ghost.pushed
  accounted_none : t.logQueue = none → t.writer.isSome → t.ghost.drained ++ inHand t = t.ghost.pushed
  in_order : t.ghost.drained ++ inHand t <+: t.ghost.pushed
  written : t.ghost.drained.Sublist (t.disk.written.map Prod.snd)
  pushed_ne : ∀ log ∈ t.ghost.pushed, log ≠ []
  calls_ne : ∀ p log, t.calls p = .delivering log → log ≠ []
  flag_le : ∀ n, t.ghost.flagAt = some n → n ≤ t.ghost.pushed.length
  flag_iff : t.ghost.flagAt.isSome ↔ t.stopper ≠ .idle
  flag_init : t.ghost.flagAt.isSome → t.initialized = true
  requested : t.shutdownRequested = true → t.ghost.flagAt.isSome
  left : ∀ pc, t.writer = some pc → pc.left = true → t.ghost.flagAt.isSome
  exited : t.writer = some .exited → ∀ n, t.ghost.flagAt = some n → n ≤ t.ghost.drained.length
  joined : t.stopper = .closing ∨ t.stopper = .resetting → t.writer = none
  idle_none : t.writer = none → t.stopper = .idle → t.logQueue = none ∧ t.ghost.pushed = t.ghost.drained
  closed : t.stopper = .closing ∨ t.stopper = .resetting → ∀ n, t.ghost.flagAt = some n →
    n ≤ t.ghost.drained.length

variable {t t' : Logger}

theorem Inv.frame (h : Inv t) (hq : t'.logQueue = t.logQueue) (hw : t'.writer = t.writer)
    (hg : t'.ghost = t.ghost)
    (hd : (t.disk.written.map Prod.snd).Sublist (t'.disk.written.map Prod.snd))
    (hc : ∀ p log, t'.calls p = .delivering log → log ≠ [])
    (hs : t'.stopper = t.stopper) (hr : t'.shutdownRequested = t.shutdownRequested)
    (hi : t.ghost.flagAt.isSome → t'.initialized = true) : Inv t' := by
  have hin : inHand t' = inHand t := by simp only [inHand, hw]
  refine ⟨?_, ?_, ?_, ?_, by rw [hg]; exact h.written.trans hd, ?_, hc, ?_, ?_, ?_, ?_, ?_, ?_, ?_,
    ?_, ?_⟩ <;> simp only [hq, hw, hg, hs, hr, hin]
  exacts [h.queue_inv, h.accounted, h.accounted_none, h.in_order, h.pushed_ne, h.flag_le,
    h.flag_iff, hi, h.requested, h.left, h.exited, h.joined, h.idle_none, h.closed]

theorem inv_fresh (entries : List (List Char)) : Inv (Logger.fresh entries) :=
  ⟨nofun, nofun, fun _ h => by simp [Logger.fresh] at h, by simp [Logger.fresh, inHand],
    by simp [Logger.fresh], nofun, nofun, nofun, by simp [Logger.fresh], nofun, nofun, nofun,
    nofun, by simp [Logger.fresh], fun _ _ => ⟨rfl, rfl⟩, by simp [Logger.fresh]⟩

theorem Inv.not_closing (h : Inv t) {pc : WriterPc} (hw : t.writer = some pc) :
    ¬(t.stopper = .closing ∨ t.stopper = .resetting) :=
  fun hs => by simp [h.joined hs] at hw

theorem formatLog_ne_nil (time : List Char) (level : Level) (file func : List Char) (line : Int)
    (message : List Char) : formatLog time level file func line message ≠ [] := by
  simp [formatLog]

theorem Logger.syncWrite_eq {log : List Char} {day : Int} {clock : Clock} {opens : Bool}
    (hs : t.syncWrite log day clock opens = some t') :
    ∃ f d, t' = { t with files := f, disk := d } ∧
      d.written.map Prod.snd = t.disk.written.map Prod.snd ++ (if log = [] then [] else [log]) := by
  obtain ⟨⟨f, d⟩, hr, rfl⟩ := Option.map_eq_some'.1 hs
  exact ⟨f, d, rfl, Rotation.syncWrite_written hr⟩

theorem Inv.call (h : Inv t) (p : Nat) (level : Level) (file func : List Char) (line : Int)
    (message time : List Char) : Inv (call t p level file func line message time) := by
  unfold AsyncLogger.call
  split_ifs
  · exact h
  · refine h.frame rfl rfl rfl (List.Sublist.refl _) (fun p' log hl => ?_) rfl rfl h.flag_init
    by_cases hp : p' = p
    · subst hp
      simp only [Function.update_same, CallPc.delivering.injEq] at hl
      exact hl ▸ formatLog_ne_nil _ _ _ _ _ _
    · exact h.calls_ne p' log (by simpa [Function.update_noteq hp] using hl)

/-! ## The writer thread -/

theorem Inv.moveWriter (h : Inv t) {pc : WriterPc} (hw : t.writer = some pc)
    (hpc : pc.inHand = []) (pc' : WriterPc) (hpc' : pc'.inHand = [])
    (hleft : pc'.left = true → t.ghost.flagAt.isSome)
    (hex : pc' = .exited → ∀ n, t.ghost.flagAt = some n → n ≤ t.ghost.drained.length) :
    Inv { t with writer := some pc' } := by
  have hin : inHand { t with writer := some pc' } = inHand t := by simp [inHand, hw, hpc, hpc']
  refine ⟨h.queue_inv, fun q hq => ?_, fun hq _ => ?_, ?_, h.written, h.pushed_ne, h.calls_ne,
    h.flag_le, h.flag_iff, h.flag_init, h.requested, fun p hp hl => ?_, fun he => hex (by simpa using he),
    fun hs => absurd hs (h.not_closing hw), nofun, fun hs => absurd hs (h.not_closing hw)⟩
  · rw [hin]
    exact h.accounted q hq
  · rw [hin]
    exact h.accounted_none hq (by simp [hw])
  · rw [hin]
    exact h.in_order
  · cases hp
    exact hleft hl

theorem Inv.takeFront (h : Inv t) {pc : WriterPc} (hw : t.writer = some pc) (hpc : pc.inHand = [])
    {q q' : LogQueue (List Char)} (hq : t.logQueue = some q) {k : Int} {log : List Char}
    (hp : q.pop k = some (some log, q')) (pc' : WriterPc) (hpc' : pc'.inHand = [log])
    (hleft : pc'.left = true → t.ghost.flagAt.isSome) (hex : pc' ≠ .exited) :
    Inv { t with logQueue := some q', writer := some pc' } := by
  obtain ⟨hinv, hfront⟩ := (h.queue_inv q hq).pop_some hp
  have hacc := h.accounted q hq
  have hin : inHand { t with logQueue := some q', writer := some pc' } = [log] := by
    simp [inHand, hpc']
  have hin0 : inHand t = [] := by simp [inHand, hw, hpc]
  rw [hin0, hfront] at hacc
  refine ⟨fun q'' hq'' => ?_, fun q'' hq'' => ?_, (fun hq'' => nomatch hq''), ?_, h.written,
    h.pushed_ne, h.calls_ne, h.flag_le, h.flag_iff, h.flag_init, h.requested, fun p hp hl => ?_,
    fun he => absurd (Option.some.inj he) hex, fun hs => absurd hs (h.not_closing hw), nofun,
    fun hs => absurd hs (h.not_closing hw)⟩
  · cases hq''
    exact hinv
  · cases hq''
    rw [hin, ← hacc]
    simp
  · rw [hin, ← hacc]
    exact ⟨contents q', by simp⟩
  · cases hp
    exact hleft hl

theorem Inv.handOn (h : Inv t) {pc : WriterPc} (hw : t.writer = some pc) {log : List Char}
    (hpc : pc.inHand = [log]) {day : Int} {clock : Clock} {opens : Bool} {u : Logger}
    (hs : t.syncWrite log day clock opens = some u) (pc' : WriterPc) (hpc' : pc'.inHand = [])
    (hleft : pc'.left = true → t.ghost.flagAt.isSome) (hex : pc' ≠ .exited) :
    Inv { u with writer := some pc', ghost := { u.ghost with drained := u.ghost.drained ++ [log] } } := by
  obtain ⟨f, d, rfl, hd⟩ := Logger.syncWrite_eq hs
  have hin : inHand t = [log] := by simp [inHand, hw, hpc]
  have hlog : log ≠ [] := h.pushed_ne log (by
    obtain ⟨l, hl⟩ := h.in_order
    rw [← hl, hin]
    simp)
  rw [if_neg hlog] at hd
  refine ⟨h.queue_inv, fun q hq => ?_, fun hq _ => ?_, ?_, ?_, h.pushed_ne, h.calls_ne, h.flag_le,
    h.flag_iff, h.flag_init, h.requested, fun p hp hl => ?_, fun he => absurd (Option.some.inj he) hex,
    fun hs => absurd hs (h.not_closing hw), nofun, fun hs => absurd hs (h.not_closing hw)⟩
  · simpa [inHand, hw, hpc, hpc'] using h.accounted q hq
  · simpa [inHand, hw, hpc, hpc'] using h.accounted_none hq (by simp [hw])
  · simpa [inHand, hw, hpc, hpc'] using h.in_order
  · simpa [hd] using h.written.append (List.Sublist.refl [log])
  · cases hp
    exact hleft hl

theorem Inv.writerStep (h : Inv t) {pc : WriterPc} (hw : t.writer = some pc) {day : Int}
    {clock : Clock} {opens : Bool} (hs : writerStep t day clock opens pc = some t') : Inv t' := by
  cases pc with
  | top =>
    cases hs
    by_cases hr : t.shutdownRequested = true
    · simpa [hr] using h.moveWriter hw rfl .draining rfl (fun _ => h.requested hr) nofun
    · simpa [hr] using h.moveWriter hw rfl .popping rfl nofun nofun
  | popping =>
    simp only [AsyncLogger.writerStep] at hs
    split at hs
    · rename_i log q' hp
      cases hs
      obtain ⟨q, hq, hp⟩ := Option.bind_eq_some.1 hp
      exact h.takeFront hw rfl hq hp (.writing log) rfl nofun nofun
    · cases hs
      exact h.moveWriter hw rfl .top rfl nofun nofun
  | writing log =>
    obtain ⟨u, hu, rfl⟩ := Option.map_eq_some'.1 hs
    exact h.handOn hw rfl hu .top rfl nofun nofun
  | draining =>
    have hflag := h.left .draining hw rfl
    simp only [AsyncLogger.writerStep] at hs
    split at hs
    · rename_i log q' hp
      cases hs
      obtain ⟨q, hq, hp⟩ := Option.bind_eq_some.1 hp
      exact h.takeFront hw rfl hq hp (.drainWriting log) rfl (fun _ => hflag) nofun
    · rename_i hnone
      cases hs
      refine h.moveWriter hw rfl .exited rfl (fun _ => hflag) fun _ n hn => ?_
      have hall : t.ghost.drained = t.ghost.pushed := by
        cases hq : t.logQueue with
        | none => simpa [inHand, hw, WriterPc.inHand] using h.accounted_none hq (by simp [hw])
        | some q =>
          have hempty : contents q = [] := by
            cases hp : q.pop 0 with
            | none => simp [LogQueue.pop] at hp; split_ifs at hp
            | some r =>
              obtain ⟨r, q'⟩ := r
              cases r with
              | none => exact (h.queue_inv q hq).pop_none hp
              | some log => exact absurd (by simp [hq, hp]) (hnone log q')
          simpa [inHand, hw, hempty, WriterPc.inHand] using h.accounted q hq
      rw [hall]
      exact h.flag_le n hn
  | drainWriting log =>
    have hflag := h.left (.drainWriting log) hw rfl
    obtain ⟨u, hu, rfl⟩ := Option.map_eq_some'.1 hs
    exact h.handOn hw rfl hu .draining rfl (fun _ => hflag) nofun
  | exited =>
    cases hs
    exact h

/-! ## `write`, `shutdown` and `initialize` -/

theorem Inv.push (h : Inv t) {q q' : LogQueue (List Char)} (hq : t.logQueue = some q)
    {log : List Char} {k : Int} (hp : q.pushCopy log k = some (true, q')) (hlog : log ≠ []) :
    Inv { t with logQueue := some q', ghost := { t.ghost with pushed := t.ghost.pushed ++ [log] } } := by
  obtain ⟨hinv, hcon⟩ := (h.queue_inv q hq).pushCopy_true hp
  have hin : inHand { t with logQueue := some q', ghost := { t.ghost with pushed := t.ghost.pushed ++ [log] } } =
      inHand t := rfl
  refine ⟨fun q'' hq'' => ?_, fun q'' hq'' => ?_, (fun hq'' => nomatch hq''), ?_, h.written,
    fun x hx => ?_, h.calls_ne, fun n hn => ?_, h.flag_iff, h.flag_init, h.requested, h.left,
    h.exited, h.joined, fun hw hs => absurd (h.idle_none hw hs).1 (by simp [hq]), h.closed⟩
  · cases hq''
    exact hinv
  · cases hq''
    rw [hin, hcon, ← h.accounted q hq]
    simp
  · rw [hin]
    exact h.in_order.trans (List.prefix_append _ _)
  · rcases List.mem_append.1 hx with hx | hx
    · exact h.pushed_ne x hx
    · rw [List.mem_singleton.1 hx]
      exact hlog
  · have := h.flag_le n hn
    simp only [List.length_append]
    omega

theorem Inv.deliver (h : Inv t) {p : Nat} {day : Int} {clock : Clock} {opens : Bool}
    (hs : deliver t p day clock opens = some t') : Inv t' := by
  unfold AsyncLogger.deliver at hs
  split at hs
  · cases hs
    exact h
  rename_i log hcall
  dsimp only at hs
  have hlog := h.calls_ne p log hcall
  have hu : Inv { t with calls := Function.update t.calls p .idle } := by
    refine h.frame rfl rfl rfl (List.Sublist.refl _) (fun p' log' hl => ?_) rfl rfl h.flag_init
    by_cases hp : p' = p
    · subst hp
      simp at hl
    · exact h.calls_ne p' log' (by simpa [Function.update_noteq hp] using hl)
  split at hs
  · rename_i q hq
    split at hs
    · rename_i q' hp
      cases hs
      exact hu.push hq hp hlog
    · cases hs
      exact hu.frame rfl rfl rfl (by simp [toStdout]) hu.calls_ne rfl rfl hu.flag_init
  · obtain ⟨f, d, rfl, hd⟩ := Logger.syncWrite_eq hs
    exact hu.frame rfl rfl rfl (by simp [hd]) hu.calls_ne rfl rfl hu.flag_init

theorem Inv.moveStopper (h : Inv t) (hs : t.stopper ≠ .idle) {f : Files} {st : StopPc}
    (hst : st ≠ .idle) (hj : st = .closing ∨ st = .resetting → t.writer = none)
    (hc : st = .closing ∨ st = .resetting → ∀ n, t.ghost.flagAt = some n →
      n ≤ t.ghost.drained.length) :
    Inv { t with files := f, stopper := st } :=
  ⟨h.queue_inv, h.accounted, h.accounted_none, h.in_order, h.written, h.pushed_ne, h.calls_ne,
    h.flag_le, iff_of_true (h.flag_iff.2 hs) hst, h.flag_init, h.requested, h.left, h.exited, hj,
    fun _ hst' => absurd hst' hst, hc⟩

theorem Inv.stopStep (h : Inv t) : Inv (stopStep t t.stopper) := by
  cases hs : t.stopper with
  | idle =>
    have hnone : t.ghost.flagAt = none := by simpa [hs] using h.flag_iff
    have hleft : ∀ pc, t.writer = some pc → pc.left = false := fun pc hw => by
      simpa [hnone] using mt (h.left pc hw)
    simp only [AsyncLogger.stopStep]
    split_ifs with hi
    · exact h
    have hflag : ∀ n, some t.ghost.pushed.length = some n → n ≤ t.ghost.pushed.length := by
      rintro n ⟨⟩
      exact le_rfl
    have hsync : t.writer = none → t.logQueue = none ∧ t.ghost.pushed = t.ghost.drained :=
      fun hw => h.idle_none hw hs
    split <;>
      refine ⟨h.queue_inv, h.accounted, h.accounted_none, h.in_order, h.written, h.pushed_ne,
        h.calls_ne, hflag, by simp, fun _ => by simpa using hi, fun _ => rfl, fun _ _ _ => rfl,
        fun hw => absurd (hleft _ hw) (by decide), ?_, ?_, ?_⟩ <;> simp_all
  | waiting n =>
    have hne : t.stopper ≠ .idle := by simp [hs]
    simp only [AsyncLogger.stopStep]
    split
    · split_ifs <;> exact h.moveStopper hne nofun (by simp) (by simp)
    · exact h.moveStopper hne nofun (by simp) (by simp)
  | joining =>
    simp only [AsyncLogger.stopStep]
    split_ifs with hw
    · have hf : t.ghost.flagAt.isSome := h.flag_iff.2 (by simp [hs])
      refine ⟨h.queue_inv, fun q hq => ?_, nofun, ?_, h.written, h.pushed_ne, h.calls_ne, h.flag_le,
        by simp [hf], h.flag_init, h.requested, nofun, nofun, fun _ => rfl, by simp,
        fun _ => h.exited hw⟩
      · simpa [inHand, hw, WriterPc.inHand] using h.accounted q hq
      · simpa [inHand, hw, WriterPc.inHand] using h.in_order
    · exact h
  | closing =>
    exact h.moveStopper (by simp [hs]) nofun (fun _ => h.joined (.inl hs)) fun _ => h.closed (.inl hs)
  | resetting =>
    have hw : t.writer = none := h.joined (.inr hs)
    have hpre : t.ghost.drained <+: t.ghost.pushed := by simpa [inHand, hw] using h.in_order
    simp only [AsyncLogger.stopStep]
    exact ⟨nofun, nofun, fun _ hw' => by simp [hw] at hw', by simp [inHand, hw], h.written,
      fun x hx => h.pushed_ne x (hpre.subset hx), h.calls_ne, nofun, by simp, nofun, nofun,
      fun pc hpc => by simp [hw] at hpc, fun hpc => by simp [hw] at hpc, by simp,
      fun _ _ => ⟨rfl, rfl⟩, by simp⟩

theorem Inv.flagAt_none (h : Inv t) (hi : t.initialized = false) : t.ghost.flagAt = none := by
  cases hf : t.ghost.flagAt with
  | none => rfl
  | some n => simpa [hf, hi] using h.flag_init (by simp [hf])

theorem create_some {capacity : Nat} (hcap : 0 < capacity) :
    (create capacity false : Option (LogQueue (List Char))) =
      some ⟨capacity, false, List.replicate capacity [], 0, 0, 0, 0, 0⟩ :=
  if_neg (by omega)

theorem Inv.newQueue (h : Inv t) (hi : t.initialized = false) {capacity : Nat} (hcap : 0 < capacity)
    {pc : WriterPc} (hw : t.writer = some pc ∨ t.writer = none ∧ pc = .top) :
    Inv { t with async := true, logQueue := create capacity false, writer := some pc,
                 ghost := { t.ghost with pushed := t.ghost.drained ++ inHand t } } := by
  have hnone := h.flagAt_none hi
  have hidle : t.stopper = .idle := by simpa [hnone] using h.flag_iff
  have hin : pc.inHand = inHand t := by
    rcases hw with hw | ⟨hw, rfl⟩ <;> simp [inHand, hw, WriterPc.inHand]
  have hq0 := create_some hcap
  refine ⟨fun q hq => ?_, fun q hq => ?_, fun hq => by simp [hq0] at hq, ⟨[], by simp [inHand, hin]⟩,
    h.written, fun x hx => h.pushed_ne x (h.in_order.subset hx), h.calls_ne, by simp [hnone],
    h.flag_iff, h.flag_init, h.requested, fun p hp hl => ?_, fun _ n hn => by simp [hnone] at hn,
    fun hs => by simp [hidle] at hs, nofun, fun hs => by simp [hidle] at hs⟩
  · rw [hq0] at hq
    cases hq
    exact BoundedQueue.inv_create hq0
  · rw [hq0] at hq
    cases hq
    simp [inHand, hin, contents, BoundedQueue.slots]
  · cases hp
    rcases hw with hw | ⟨-, rfl⟩
    · exact h.left pc hw hl
    · cases hl

theorem Inv.startWriter (h : Inv t) (hi : t.initialized = false) {capacity : Nat}
    (hcap : 0 < capacity) (threadOk : Bool) : Inv (startWriter capacity threadOk t) := by
  have hnone := h.flagAt_none hi
  have hidle : t.stopper = .idle := by simpa [hnone] using h.flag_iff
  unfold AsyncLogger.startWriter
  dsimp only
  split_ifs with hth hw
  · obtain ⟨pc, hpc⟩ := Option.isSome_iff_exists.1 hw
    exact (h.newQueue hi hcap (.inl hpc)).frame rfl hpc rfl (List.Sublist.refl _) h.calls_ne rfl rfl
      (fun hf => by simp [hnone] at hf)
  · exact h.newQueue hi hcap (.inr ⟨by simpa using hw, rfl⟩)
  · exact ⟨nofun, nofun, fun _ _ => by simp [inHand], by simp [inHand], h.written,
      fun x hx => h.pushed_ne x (h.in_order.subset hx), h.calls_ne, by simp [hnone], h.flag_iff,
      h.flag_init, h.requested, h.left, h.exited, h.joined,
      fun hw _ => ⟨rfl, by simp [inHand, show t.writer = none from hw]⟩,
      fun hs => by simp [hidle] at hs⟩

theorem Inv.configure (h : Inv t) (hi : t.initialized = false) (config : Config) (threadOk : Bool) :
    Inv (configure config threadOk t) := by
  unfold AsyncLogger.configure
  dsimp only
  split_ifs with hc
  · refine Inv.startWriter ?_ ?_ (by simp at hc; exact hc.2) threadOk
    · exact h.frame rfl rfl rfl (List.Sublist.refl _) h.calls_ne rfl rfl h.flag_init
    · exact hi
  · exact h.frame rfl rfl rfl (List.Sublist.refl _) h.calls_ne rfl rfl h.flag_init

@[simp] theorem configure_initialized (config : Config) (threadOk : Bool) (t : Logger) :
    (configure config threadOk t).initialized = t.initialized := by
  unfold AsyncLogger.configure startWriter
  dsimp only
  split_ifs <;> rfl

theorem Inv.initializeLogger (h : Inv t) {config : Config} {threadOk opens : Bool} {clock : Clock}
    {b : Bool} (hs : initializeLogger config threadOk opens clock t = some (b, t')) : Inv t' := by
  unfold AsyncLogger.initializeLogger at hs
  by_cases hi : t.initialized = true
  · rw [if_pos hi] at hs
    cases hs
    exact h
  rw [if_neg hi] at hs
  dsimp only at hs
  have hv := h.configure (by simpa using hi) config threadOk
  by_cases hterm : (AsyncLogger.configure config threadOk t).terminated = true
  · rw [if_pos hterm] at hs
    cases hs
    exact hv
  · rw [if_neg hterm] at hs
    obtain ⟨⟨b', f', d'⟩, hr, hs⟩ := Option.map_eq_some'.1 hs
    cases hs
    exact hv.frame rfl rfl rfl (by rw [(Rotation.createNewLogFile_cases hr).2.1]) hv.calls_ne rfl rfl
      (fun hf => by simp [hv.flagAt_none (by simpa using hi)] at hf)

/-! ## Every interleaving -/

theorem Inv.step (h : Inv t) {s : Step} (hs : step t s = some t') : Inv t' := by
  unfold AsyncLogger.step at hs
  split_ifs at hs
  · cases hs
    exact h
  cases s with
  | initializeLogger config threadOk opens clock =>
    obtain ⟨⟨b, u⟩, hr, rfl⟩ := Option.map_eq_some'.1 hs
    exact h.initializeLogger hr
  | call p level file func line message time =>
    cases hs
    exact h.call p level file func line message time
  | deliver p day clock opens => exact h.deliver hs
  | writer day clock opens =>
    dsimp only at hs
    split at hs
    · rename_i pc hw
      exact h.writerStep hw hs
    · cases hs
      exact h
  | stop =>
    cases hs
    exact h.stopStep
  | create name =>
    cases hs
    exact h.frame rfl rfl rfl (List.Sublist.refl _) h.calls_ne rfl rfl h.flag_init

theorem Reachable.inv (h : Reachable t) : Inv t := by
  induction h with
  | fresh entries => exact inv_fresh entries
  | step s _ hs ih => exact ih.step hs

/-- Over every interleaving of `write` calls, the writer thread, `initialize` and `shutdown`,
the writer hands to `sync_write` a prefix of the records pushed to the queue, in push order and
each once, and each of them is written. Once the writer has exited, and when `shutdown` closes
the file, that prefix holds every record pushed before `shutdown` set its flag. -/
theorem drained_before_close (h : Reachable t) :
    t.ghost.drained <+: t.ghost.pushed ∧ t.ghost.drained.Sublist (t.disk.written.map Prod.snd) ∧
      (t.writer = some .exited ∨ t.stopper = .closing → ∀ n, t.ghost.flagAt = some n →
        t.ghost.pushed.take n <+: t.ghost.drained) := by
  have hi := h.inv
  have hpre : t.ghost.drained <+: t.ghost.pushed := (List.prefix_append _ _).trans hi.in_order
  refine ⟨hpre, hi.written, fun hd n hn => ?_⟩
  have hle : n ≤ t.ghost.drained.length :=
    hd.elim (fun he => hi.exited he n hn) fun hc => hi.closed (.inl hc) n hn
  calc t.ghost.pushed.take n <+: t.ghost.pushed.take t.ghost.drained.length :=
        List.take_prefix_take_left _ hle
    _ = t.ghost.drained := (List.prefix_iff_eq_take.1 hpre).symm

def runSteps (t : Logger) : List Step → Option Logger
  | [] => some t
  | s :: ss => (step t s).bind fun t' => runSteps t' ss

theorem Reachable.run (h : Reachable t) {ss : List Step} (hr : runSteps t ss = some t') :
    Reachable t' := by
  induction ss generalizing t with
  | nil =>
    cases hr
    exact h
  | cons s ss ih =>
    obtain ⟨u, hu, hr⟩ := Option.bind_eq_some.1 hr
    exact ih (.step s h hu) hr

def newYear : Clock := ⟨0, "20240101".toList⟩

def twoRecords : List Step :=
  [.initializeLogger ⟨"logs/app.log".toList, .info, 0, 2, true⟩ true true newYear,
    .call 0 .info "main.cpp".toList "main".toList 7 "a".toList "t0".toList,
    .deliver 0 0 newYear true,
    .call 1 .warn "main.cpp".toList "main".toList 8 "b".toList "t1".toList,
    .deliver 1 0 newYear true,
    .writer 0 newYear true, .writer 0 newYear true,
    .stop,
    .writer 0 newYear true, .writer 0 newYear true, .writer 0 newYear true,
    .writer 0 newYear true, .writer 0 newYear true,
    .stop, .stop]

theorem twoRecords_drained_at_close :
    ∃ t, runSteps (Logger.fresh []) twoRecords = some t ∧ t.stopper = .closing ∧
      t.ghost.flagAt = some 2 ∧ t.ghost.pushed.take 2 <+: t.ghost.drained ∧
      t.ghost.drained.Sublist (t.disk.written.map Prod.snd) := by
  obtain ⟨t, ht⟩ := Option.isSome_iff_exists.1
    (show (runSteps (Logger.fresh []) twoRecords).isSome by decide)
  have hend : (runSteps (Logger.fresh []) twoRecords).map (fun t => (t.stopper, t.ghost.flagAt)) =
      some (.closing, some 2) := by
    decide
  rw [ht] at hend
  have hd := drained_before_close ((Reachable.fresh []).run ht)
  obtain ⟨hs, hf⟩ := Prod.ext_iff.1 (Option.some.inj hend)
  exact ⟨t, ht, hs, hf, hd.2.2 (.inr hs) 2 hf, hd.2.1⟩

end ReactorServer.Logger.AsyncLogger
