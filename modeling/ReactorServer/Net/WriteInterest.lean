import ReactorServer.Net.Lifecycle

/-!
The epoll interest of a live connection (`Channel.cpp`, `EventLoop::update_channel`, and
`handle_write` and `sendInLoop` of `TcpConnection` in `Epoll.hpp`).

`Lifecycle.Armed` says that a live connection's one channel is in `channels_` and registered
under its own mask, which is `EPOLLIN | EPOLLRDHUP` with or without `EPOLLOUT`. Added here is
the link between `EPOLLOUT` and the output buffer: every path that leaves bytes in the buffer
enables writing, writing is disabled only once the buffer is empty, and nothing is buffered
before the channel exists. So bytes in the buffer always have a writable notification to wait
for. A connection has one channel, made once by `connect_established`, and every `add` or `mod`
of its descriptor passes that channel, so it is also the cookie epoll returns.
-/

set_option autoImplicit false
set_option relaxedAutoImplicit false

namespace ReactorServer.Net.WriteInterest

open ReactorServer.Memory.Buffer ReactorServer.Net.Interest ReactorServer.Net.Connection

theorem has_enableWrite (ch : Channel) : has ch.enableWrite.events epollOut = true := by
  have h : (ch.events ||| epollOut) &&& epollOut = epollOut := by
    apply UInt32.eq_of_toBitVec_eq
    apply BitVec.eq_of_getLsbD_eq
    intro i
    show ((ch.events.toBitVec ||| epollOut.toBitVec) &&& epollOut.toBitVec).getLsbD i =
      epollOut.toBitVec.getLsbD i
    simp only [BitVec.getLsbD_and, BitVec.getLsbD_or]
    cases epollOut.toBitVec.getLsbD i <;> simp
  simp only [has, Channel.enableWrite, h]
  decide

/-- A non-empty output buffer has `EPOLLOUT` in the mask of the channel, if there is one. -/
def WriteArmed (c : Conn) : Prop :=
  c.outputBuf.length ≠ 0 → ∀ ch, c.channel = some ch → has ch.events epollOut = true

variable {c : Conn}

theorem writeArmed_of_empty (h : c.outputBuf.length = 0) : WriteArmed c :=
  fun h' => absurd h h'

theorem writeArmed_enableWrite (c : Conn) : WriteArmed (c.updateChannelWith Channel.enableWrite) := by
  intro _ ch hch
  unfold Conn.updateChannelWith at hch
  split at hch
  · simp_all [Conn.emit]
  · cases hch
    exact has_enableWrite _

theorem WriteArmed.shrink (h : WriteArmed c) {ob : OutputBuffer}
    (hob : ob.length ≠ 0 → c.outputBuf.length ≠ 0) : WriteArmed { c with outputBuf := ob } :=
  fun hne => h (hob hne)

theorem handleClose_channel (hs : c.state = .kConnected) : (handleClose c).channel = none := by
  simp only [Connection.handleClose, hs, ne_eq, not_true_eq_false, if_false]
  split <;> simp_all [Conn.emit, Conn.setState]

theorem WriteArmed.handleClose (h : WriteArmed c) : WriteArmed (handleClose c) := by
  by_cases hs : c.state = .kConnected
  · intro _ ch hch
    simp [handleClose_channel hs] at hch
  · rwa [Lifecycle.handleClose_of_ne hs]

theorem WriteArmed.bufferRest {data : List UInt8} {n : Nat} {poolOk : Bool} (h : WriteArmed c) :
    WriteArmed (bufferRest data n poolOk c) := by
  unfold Connection.bufferRest
  split
  · exact writeArmed_enableWrite _
  · exact h

theorem WriteArmed.sendInLoop {data : List UInt8} {w : WriteResult} {poolOk : Bool}
    (h : WriteArmed c) : WriteArmed (sendInLoop data w poolOk c) := by
  unfold Connection.sendInLoop
  split_ifs
  · exact h
  · cases w with
    | accepted k => exact WriteArmed.bufferRest (c := c.emit _) h
    | eagain => exact WriteArmed.bufferRest (c := c.emit _) h
    | error => exact WriteArmed.handleClose (c := c.emit _) h
  · exact h.bufferRest

theorem WriteArmed.shutdownInLoop (h : WriteArmed c) : WriteArmed (shutdownInLoop c) := by
  simp only [Connection.shutdownInLoop]
  split_ifs <;> exact h

theorem WriteArmed.runUserActions (acts : List UserAction) (h : WriteArmed c) :
    WriteArmed (runUserActions c acts) := by
  induction acts generalizing c with
  | nil => exact h
  | cons a acts ih =>
    apply ih
    cases a with
    | send data w poolOk =>
      simp only [runUserAction]
      split
      · exact h
      · exact h.sendInLoop
    | shutdown =>
      simp only [runUserAction]
      split
      · exact h.shutdownInLoop
      · exact h

theorem WriteArmed.handleRead {r : ReadResult} {poolOk : Bool} {acts : List UserAction}
    (h : WriteArmed c) : WriteArmed (handleRead r poolOk acts c) := by
  simp only [Connection.handleRead]
  split_ifs
  · exact WriteArmed.runUserActions acts h
  · exact WriteArmed.runUserActions acts h
  all_goals exact WriteArmed.handleClose h

theorem writeToFd_of_length_zero {b : OutputBuffer} {fd : Int} {w : WriteResult}
    (h : b.length = 0) : (b.writeToFd fd w).2.2 = b := by
  unfold OutputBuffer.writeToFd
  split_ifs
  · rfl
  rcases hd : b.dataBuf with _ | c
  · rfl
  have : c.bytes = [] := by simpa [BufferBase.length, hd] using h
  simp [this]

theorem WriteArmed.handleWrite {w : WriteResult} (h : WriteArmed c) :
    WriteArmed (handleWrite w c) := by
  have hshrink : WriteArmed { c with outputBuf := (c.outputBuf.writeToFd c.connfd w).2.2 } := by
    refine h.shrink fun hne h0 => hne ?_
    rw [writeToFd_of_length_zero h0]
    exact h0
  have h1 : WriteArmed (match (c.outputBuf.writeToFd c.connfd w).2.1 with
      | some bytes => ({ c with outputBuf := (c.outputBuf.writeToFd c.connfd w).2.2 } : Conn).emit
          (.write c.connfd bytes)
      | none => { c with outputBuf := (c.outputBuf.writeToFd c.connfd w).2.2 }) := by
    split <;> exact hshrink
  dsimp only [Connection.handleWrite]
  split_ifs with hn hz
  · exact h1.handleClose
  all_goals first | exact h1 | exact writeArmed_of_empty (by simpa [Conn.emit] using hz)

theorem WriteArmed.handleEvent {events : UInt32} {r : ReadResult} {readPool : Bool}
    {acts : List UserAction} {w : WriteResult} (h : WriteArmed c) :
    WriteArmed (handleEvent events r readPool acts w c) := by
  unfold Connection.handleEvent
  split_ifs
  · exact h.handleClose
  · exact h.handleClose
  · exact h.handleRead.handleWrite
  · exact h.handleRead
  · exact h.handleWrite
  · exact h

theorem writeArmed_connectEstablished {acts : List UserAction} (h : c.outputBuf.length = 0) :
    WriteArmed (connectEstablished acts c) :=
  WriteArmed.runUserActions acts (writeArmed_of_empty h)

theorem WriteArmed.runTask {w : WriteResult} {poolOk : Bool} (h : WriteArmed c) :
    WriteArmed (runTask w poolOk c) := by
  unfold Connection.runTask
  split
  · exact h
  · exact WriteArmed.sendInLoop (c := { c with pending := _ }) h
  · exact WriteArmed.shutdownInLoop (c := { c with pending := _ }) h

/-! ## Nothing is buffered before `connect_established` -/

theorem handleClose_ne_connecting (hs : c.state ≠ .kConnecting) :
    (handleClose c).state ≠ .kConnecting := by
  by_cases h : c.state = .kConnected
  · simp only [Connection.handleClose, h, ne_eq, not_true_eq_false, if_false]
    split <;> simp [Conn.emit, Conn.setState]
  · rwa [Lifecycle.handleClose_of_ne h]

theorem sendInLoop_ne_connecting {data : List UInt8} {w : WriteResult} {poolOk : Bool}
    (hs : c.state ≠ .kConnecting) : (sendInLoop data w poolOk c).state ≠ .kConnecting := by
  have hb : ∀ (n : Nat) (c' : Conn), c'.state ≠ .kConnecting →
      (bufferRest data n poolOk c').state ≠ .kConnecting := by
    intro n c' hs'
    unfold Connection.bufferRest
    split_ifs <;> simpa using hs'
  unfold Connection.sendInLoop
  split_ifs
  · exact hs
  · cases w with
    | accepted k => exact hb _ (c.emit _) hs
    | eagain => exact hb _ (c.emit _) hs
    | error => exact handleClose_ne_connecting (c := c.emit _) hs
  · exact hb _ c hs

theorem runUserActions_ne_connecting (acts : List UserAction) (hs : c.state ≠ .kConnecting) :
    (runUserActions c acts).state ≠ .kConnecting := by
  induction acts generalizing c with
  | nil => exact hs
  | cons a acts ih =>
    apply ih
    cases a with
    | send data w poolOk =>
      simp only [runUserAction]
      split
      · exact hs
      · exact sendInLoop_ne_connecting hs
    | shutdown =>
      simp only [runUserAction, Connection.shutdownInLoop]
      split_ifs <;> first | exact hs | exact nofun

theorem runTask_outputBuf (hs : c.state ≠ .kConnected) {w : WriteResult} {poolOk : Bool} :
    (runTask w poolOk c).outputBuf = c.outputBuf := by
  unfold Connection.runTask
  split <;> simp [Connection.sendInLoop, Connection.shutdownInLoop, hs]

/-- What every reachable connection satisfies besides `Lifecycle.Inv`. -/
structure WInv (c : Conn) : Prop where
  armed : WriteArmed c
  connecting : c.state = .kConnecting → c.outputBuf.length = 0

theorem WInv.step {fd : Nat} {op : Op} (h : WInv c) (hi : Lifecycle.Inv fd c) (he : Enabled c op) :
    WInv (step c op) := by
  refine ⟨?_, fun hs' => ?_⟩
  · cases op with
    | connectEstablished acts => exact writeArmed_connectEstablished (h.connecting he)
    | handleEvent events r readPool acts w => exact h.armed.handleEvent
    | queueSend data => exact h.armed
    | queueShutdown => exact h.armed
    | runTask w poolOk => exact h.armed.runTask
  by_cases hs : c.state = .kConnecting
  · cases op with
    | connectEstablished acts =>
      exact absurd hs' (runUserActions_ne_connecting acts (by simp [Conn.emit, Conn.setState]))
    | runTask w poolOk =>
      show (runTask w poolOk c).outputBuf.length = 0
      rw [runTask_outputBuf (by simp [hs])]
      exact h.connecting hs
    | _ => exact absurd hs he
  · exact absurd hs' (Lifecycle.state_ne_connecting (Lifecycle.follows_step hi he) hs hi)

theorem winv_of_reachable {fd : Nat} (h : Reachable fd c) : WInv c := by
  induction h with
  | init => exact ⟨writeArmed_of_empty rfl, fun _ => rfl⟩
  | step hr he ih => exact ih.step (Lifecycle.inv_of_reachable hr) he

/-- A live connection's channel is the one registered for its descriptor, in `channels_` and
with its own mask as the epoll interest; the mask holds `EPOLLIN | EPOLLRDHUP`, and `EPOLLOUT`
whenever the output buffer is non-empty. -/
theorem live_channel_interest {fd : Nat} (h : Reachable fd c)
    (hs : c.state = .kConnected ∨ c.state = .kDisconnecting) :
    ∃ ch, c.channel = some ch ∧ ch.fd = c.connfd ∧ c.reg = ⟨true, some ch.events⟩ ∧
      ch.events &&& readMask = readMask ∧
      (c.outputBuf.length ≠ 0 → has ch.events epollOut = true) := by
  have hi := Lifecycle.inv_of_reachable h
  obtain ⟨ch, hch, hfd, hm, hreg⟩ : Lifecycle.Armed fd c := by
    rcases hs with hs | hs <;> simp only [Lifecycle.Inv, hs] at hi <;> exact hi.2.1
  refine ⟨ch, hch, hfd.trans (Lifecycle.connfd_of_live hi hs).symm, hreg,
    by rcases hm with hm | hm <;> rw [hm] <;> decide,
    fun hne => (winv_of_reachable h).armed hne ch hch⟩

def blockedSend : Conn := step (Conn.init 7) (.connectEstablished [.send [1, 2, 3] .eagain true])

theorem blockedSend_interest :
    blockedSend.outputBuf.length = 3 ∧
      ∃ ch, blockedSend.channel = some ch ∧ ch.fd = blockedSend.connfd ∧
        blockedSend.reg = ⟨true, some ch.events⟩ ∧ ch.events &&& readMask = readMask ∧
        (blockedSend.outputBuf.length ≠ 0 → has ch.events epollOut = true) :=
  ⟨by decide, live_channel_interest (.step .init rfl) (.inl (by decide))⟩

end ReactorServer.Net.WriteInterest
