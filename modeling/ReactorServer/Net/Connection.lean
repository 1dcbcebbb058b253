import Mathlib
import ReactorServer.Memory.Buffer
import ReactorServer.Net.Interest

/-!
One `TcpConnection` on its worker loop (`TcpConnection.cpp`, in `src/net/Epoll.hpp`).

The state `Conn` holds the connection's fields, its loop's registry for its descriptor, the
tasks other threads have queued for it (`send` and `shutdown` off the loop thread), and the
effects it has had so far: system calls, stores to `state_`, callback invocations, and member
calls through a null `channel_`.

The server's callbacks are modelled by what they do to the connection. The connected and
message callbacks run a list of user actions on the loop thread (`send` and `shutdown`, which
then run `sendInLoop` and `shutdownInLoop` at once). The close callback runs while `state_`
is already `kDisconnected`, where `send` and `shutdown` return at their first check, so it
is recorded by its invocation only.
-/

set_option autoImplicit false
set_option relaxedAutoImplicit false

namespace ReactorServer.Net.Connection

open ReactorServer.Memory.Buffer ReactorServer.Net.Interest

inductive State
  | kConnecting
  | kConnected
  | kDisconnecting
  | kDisconnected
  deriving DecidableEq, Repr

/-- What a connection does outside itself, in order. `write fd bytes` is a `write(2)` call
that accepted `bytes`. -/
inductive Effect
  | read (fd : Int)
  | write (fd : Int) (bytes : List UInt8)
  | shutdownWr (fd : Int)
  | close (fd : Int)
  | store (s : State)
  | connectedCb
  | messageCb
  | closeCb
  | nullChannel
  deriving DecidableEq, Repr

/-- A task `send` or `shutdown` queued on the loop from another thread. -/
inductive Task
  | sendInLoop (data : List UInt8)
  | shutdownInLoop
  deriving DecidableEq, Repr

/-- A connection, its loop's registry for its descriptor, its queued tasks and its effects. -/
structure Conn where
  connfd : Int
  channel : Option Channel
  inputBuf : InputBuffer
  outputBuf : OutputBuffer
  state : State
  reg : Registration
  pending : List Task
  trace : List Effect
  deriving DecidableEq, Repr

def Conn.init (fd : Nat) : Conn :=
  ⟨fd, none, ⟨⟨none⟩⟩, ⟨⟨none⟩⟩, .kConnecting, .empty, [], []⟩

def Conn.emit (c : Conn) (e : Effect) : Conn := { c with trace := c.trace ++ [e] }

def Conn.setState (c : Conn) (s : State) : Conn :=
  { c with state := s, trace := c.trace ++ [.store s] }

/-- `channel_->f()` for a mask update `f`, which ends in `Channel::update`. -/
def Conn.updateChannelWith (c : Conn) (f : Channel → Channel) : Conn :=
  match c.channel with
  | none => c.emit .nullChannel
  | some ch => { c with channel := some (f ch), reg := updateChannel (f ch) c.reg }

@[simp] theorem Conn.updateChannelWith_state (c : Conn) (f : Channel → Channel) :
    (c.updateChannelWith f).state = c.state := by
  unfold Conn.updateChannelWith; split <;> rfl

@[simp] theorem Conn.updateChannelWith_connfd (c : Conn) (f : Channel → Channel) :
    (c.updateChannelWith f).connfd = c.connfd := by
  unfold Conn.updateChannelWith; split <;> rfl

@[simp] theorem Conn.updateChannelWith_outputBuf (c : Conn) (f : Channel → Channel) :
    (c.updateChannelWith f).outputBuf = c.outputBuf := by
  unfold Conn.updateChannelWith; split <;> rfl

theorem Conn.updateChannelWith_trace (c : Conn) (f : Channel → Channel) :
    (c.updateChannelWith f).trace = c.trace ∨
      (c.updateChannelWith f).trace = c.trace ++ [.nullChannel] := by
  unfold Conn.updateChannelWith
  split
  · exact .inr rfl
  · exact .inl rfl

/-- `static_cast<int>` of a `size_t`: the low 32 bits, read in two's complement. -/
def toInt32 (x : Nat) : Int :=
  if x % 2 ^ 32 < 2 ^ 31 then (x % 2 ^ 32 : Nat) else ((x % 2 ^ 32 : Nat) : Int) - 2 ^ 32

/-- `TcpConnection::handle_close`: only a connection that is `kConnected` is torn down. -/
def handleClose (c : Conn) : Conn :=
  if c.state ≠ .kConnected then c
  else
    let c := c.setState .kDisconnected
    let c := match c.channel with
      | none => c
      | some ch => { c with channel := none, reg := updateChannel ch.disableAll c.reg }
    let c := c.emit .closeCb
    { c.emit (.close c.connfd) with connfd := -1 }

def handleError (c : Conn) : Conn := handleClose c

/-- The end of `sendInLoop` once `n` bytes went out directly: the rest goes to the output
buffer, whatever `write_to_buf` returns, and writing is enabled. -/
def bufferRest (data : List UInt8) (n : Nat) (poolOk : Bool) (c : Conn) : Conn :=
  if n < data.length then
    let ob := (c.outputBuf.writeToBuf (data.drop n) (toInt32 (data.length - n)) poolOk).2
    { c with outputBuf := ob }.updateChannelWith Channel.enableWrite
  else c

def sendInLoop (data : List UInt8) (w : WriteResult) (poolOk : Bool) (c : Conn) : Conn :=
  if c.state ≠ .kConnected then c
  else if c.outputBuf.length = 0 then
    match w with
    | .accepted k =>
      bufferRest data (min k data.length) poolOk
        (c.emit (.write c.connfd (data.take (min k data.length))))
    | .eagain => bufferRest data 0 poolOk (c.emit (.write c.connfd []))
    | .error => handleError (c.emit (.write c.connfd []))
  else bufferRest data 0 poolOk c

def shutdownInLoop (c : Conn) : Conn :=
  if c.state ≠ .kConnected then c
  else
    let c := c.setState .kDisconnecting
    if c.outputBuf.length = 0 then c.emit (.shutdownWr c.connfd) else c

/-- What a callback does to its connection on the loop thread. -/
inductive UserAction
  | send (data : List UInt8) (w : WriteResult) (poolOk : Bool)
  | shutdown
  deriving DecidableEq, Repr

/-- `TcpConnection::send` and `TcpConnection::shutdown` called on the loop thread. -/
def runUserAction (c : Conn) : UserAction → Conn
  | .send data w poolOk => if c.state ≠ .kConnected then c else sendInLoop data w poolOk c
  | .shutdown => if c.state = .kConnected then shutdownInLoop c else c

def runUserActions (c : Conn) (acts : List UserAction) : Conn := acts.foldl runUserAction c

/-- `TcpConnection::handle_read`; the message callback runs `acts`. -/
def handleRead (r : ReadResult) (poolOk : Bool) (acts : List UserAction) (c : Conn) : Conn :=
  let res := c.inputBuf.readFromFd c.connfd r poolOk
  let c := { c with inputBuf := res.2.2 }
  let c := if res.2.1 then c.emit (.read c.connfd) else c
  if 0 < res.1 then runUserActions (c.emit .messageCb) acts
  else if res.1 = 0 then handleClose c
  else handleError c

def handleWrite (w : WriteResult) (c : Conn) : Conn :=
  let res := c.outputBuf.writeToFd c.connfd w
  let c := { c with outputBuf := res.2.2 }
  let c := match res.2.1 with
    | some bytes => c.emit (.write c.connfd bytes)
    | none => c
  if res.1 < 0 then handleError c
  else if c.outputBuf.length = 0 then
    let c := c.updateChannelWith Channel.disableWrite
    if c.state = .kDisconnecting then c.emit (.shutdownWr c.connfd) else c
  else c

/-- `TcpConnection::handle_event` on the mask `events`, with the kernel's and the pool's
answers to the read and the write it may make, and the message callback's actions. -/
def handleEvent (events : UInt32) (r : ReadResult) (readPool : Bool) (acts : List UserAction)
    (w : WriteResult) (c : Conn) : Conn :=
  if has events (epollErr ||| epollHup) then handleError c
  else if has events epollRdHup then handleClose c
  else
    let c := if has events epollIn then handleRead r readPool acts c else c
    if has events epollOut then handleWrite w c else c

/-- `TcpConnection::connect_established`; the connected callback runs `acts`. -/
def connectEstablished (acts : List UserAction) (c : Conn) : Conn :=
  let ch := (Channel.mk c.connfd 0).enableRead
  let c := { c with channel := some ch, reg := updateChannel ch c.reg }
  runUserActions ((c.setState .kConnected).emit .connectedCb) acts

def runTask (w : WriteResult) (poolOk : Bool) (c : Conn) : Conn :=
  match c.pending with
  | [] => c
  | .sendInLoop data :: rest => sendInLoop data w poolOk { c with pending := rest }
  | .shutdownInLoop :: rest => shutdownInLoop { c with pending := rest }

/-- One operation on a connection: a loop-thread operation, with the answers of the kernel,
the pool and the callbacks, or another thread's `send` or `shutdown`, which queue a task once
their check of `state_` has passed. -/
inductive Op
  | connectEstablished (acts : List UserAction)
  | handleEvent (events : UInt32) (r : ReadResult) (readPool : Bool) (acts : List UserAction)
      (w : WriteResult)
  | queueSend (data : List UInt8)
  | queueShutdown
  | runTask (w : WriteResult) (poolOk : Bool)
  deriving DecidableEq, Repr

def step (c : Conn) : Op → Conn
  | .connectEstablished acts => connectEstablished acts c
  | .handleEvent events r readPool acts w => handleEvent events r readPool acts w c
  | .queueSend data => { c with pending := c.pending ++ [.sendInLoop data] }
  | .queueShutdown => { c with pending := c.pending ++ [.shutdownInLoop] }
  | .runTask w poolOk => runTask w poolOk c

/-- When an operation can happen. `connect_established` is the task the acceptor queues first,
once; events reach the connection only through the channel it creates; and another thread's
check of `state_` passes only once the connection has been `kConnected`. -/
def Enabled (c : Conn) : Op → Prop
  | .connectEstablished _ => c.state = .kConnecting
  | .runTask _ _ => True
  | _ => c.state ≠ .kConnecting

instance (c : Conn) : (op : Op) → Decidable (Enabled c op)
  | .connectEstablished _ => inferInstanceAs (Decidable (c.state = .kConnecting))
  | .handleEvent .. => inferInstanceAs (Decidable (c.state ≠ .kConnecting))
  | .queueSend _ => inferInstanceAs (Decidable (c.state ≠ .kConnecting))
  | .queueShutdown => inferInstanceAs (Decidable (c.state ≠ .kConnecting))
  | .runTask .. => inferInstanceAs (Decidable True)

inductive Reachable (fd : Nat) : Conn → Prop
  | init : Reachable fd (Conn.init fd)
  | step {c : Conn} {op : Op} : Reachable fd c → Enabled c op → Reachable fd (step c op)

end ReactorServer.Net.Connection
