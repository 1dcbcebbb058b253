import ReactorServer.Net.Lifecycle
import ReactorServer.Time.TimeoutManager
import ReactorServer.FdMap

/-!
`TcpServer::connections_` and the threads that change it (`TcpServer.cpp`, `Acceptor.cpp`).

The acceptor thread's `do_accept` builds a connection around the descriptor `accept4`
returned, queues its `connect_established` on a worker loop with `runInLoop`, and calls
`add_new_tcp_conn`. That reads `conn->fd()`, returns on `fd <= 0`, and then, under
`conn_mutex_`, inserts the connection unless the descriptor is already there; it ends by
registering the connection with the idle manager. The worker loop runs
`connect_established`, and, when the peer closes, `handle_close`, whose close callback
`ts_close_cb` runs `remove_tcp_conn` under the same mutex before `handle_close` closes the
descriptor and stores `-1`.

The read of the descriptor and the insertion are two steps of the acceptor thread, and
nothing orders the insertion after the worker's removal. A connection whose peer closes
between the two is inserted after it was removed: it stays in `connections_` while
`kDisconnected`, and the next connection the kernel gives the same descriptor number is
refused as a duplicate and never registered.
-/

set_option autoImplicit false
set_option relaxedAutoImplicit false

namespace ReactorServer.Net.Registry

open ReactorServer.Net.Connection (Conn)
open ReactorServer.Time.TimeoutManager (Manager)
open ReactorServer.FdMap

/-- Where the acceptor thread is in `do_accept` for the connection it accepted last. -/
inductive AcceptorPc
  -- In `accept4`, waiting for the next connection.
  | idle
  -- `runInLoop` has queued connection `c`'s `connect_established`; `add_new_tcp_conn` has not
  -- begun.
  | accepted (c : Nat)
  -- `add_new_tcp_conn` has read `conn->fd()` of connection `c` as `fd`, and `fd > 0`.
  | fdRead (c : Nat) (fd : Int)
  -- `TcpServer::stop` has destroyed the `Acceptor`.
  | stopped
  deriving DecidableEq, Repr

/-- The server: `connections_` (descriptor, connection), the idle manager when idle timeouts
are on, every connection built so far, numbered in order, and the acceptor thread's place. -/
structure Server where
  connections : List (Int × Nat)
  idle : Option Manager
  conns : List Conn
  acceptor : AcceptorPc

inductive Step
  | accept (fd : Nat)
  | readFd
  | insert
  | connect (c : Nat)
  | close (c : Nat)
  | stop
  deriving DecidableEq, Repr

namespace Server

def init (idle : Option Manager) : Server := ⟨[], idle, [], .idle⟩

def fdOf (s : Server) (c : Nat) : Int := (s.conns[c]?.map Conn.connfd).getD (-1)

/-- `Acceptor::do_accept` up to `runInLoop`, for a descriptor `accept4` returned: build the
connection and queue its `connect_established` on its worker loop. -/
def doAccept (fd : Nat) (s : Server) : Server :=
  match s.acceptor with
  | .idle => { s with conns := s.conns ++ [Conn.init fd], acceptor := .accepted s.conns.length }
  | _ => s

/-- The start of `TcpServer::add_new_tcp_conn`: read `conn->fd()`, and return on `fd <= 0`. -/
def readFd (s : Server) : Server :=
  match s.acceptor with
  | .accepted c =>
    if s.fdOf c ≤ 0 then { s with acceptor := .idle }
    else { s with acceptor := .fdRead c (s.fdOf c) }
  | _ => s

/-- The rest of `TcpServer::add_new_tcp_conn`, for the descriptor it read: under
`conn_mutex_`, refuse a descriptor that is already in `connections_` or insert it; then
register the connection with the idle manager, whose `add_connection` reads `conn->fd()`
again. -/
def addNewTcpConn (s : Server) : Server :=
  match s.acceptor with
  | .fdRead c fd =>
    match lookup s.connections fd with
    | some _ => { s with acceptor := .idle }
    | none =>
      { s with
        connections := s.connections ++ [(fd, c)]
        idle := s.idle.map fun m => m.addConnection c (s.fdOf c)
        acceptor := .idle }
  | _ => s

/-- `TcpServer::remove_tcp_conn` for descriptor `fd`: drop it from the idle manager, then
erase it from `connections_` under `conn_mutex_` if it is there. -/
def removeTcpConn (fd : Int) (s : Server) : Server :=
  { s with
    idle := s.idle.map fun m => m.removeConnection fd
    connections := eraseKey s.connections fd }

/-- `TcpServer::ts_close_cb` for a connection whose descriptor is `fd`: `remove_tcp_conn`,
then the idle manager's removal once more (the user's close callback is not modelled). -/
def tsCloseCb (fd : Int) (s : Server) : Server :=
  let s := s.removeTcpConn fd
  { s with idle := s.idle.map fun m => m.removeConnection fd }

/-- The worker loop runs connection `c`'s queued `connect_established`. -/
def connectEstablished (c : Nat) (s : Server) : Server :=
  match s.conns[c]? with
  | none => s
  | some k =>
    if k.state = .kConnecting then
      { s with conns := s.conns.set c (Connection.connectEstablished [] k) }
    else s

/-- The worker loop's `handle_close` of connection `c` when its peer closes: a `kConnected`
connection runs `ts_close_cb` with its descriptor, and then closes it. -/
def handleClose (c : Nat) (s : Server) : Server :=
  match s.conns[c]? with
  | none => s
  | some k =>
    let s := if k.state = .kConnected then s.tsCloseCb k.connfd else s
    { s with conns := s.conns.set c (Connection.handleClose k) }

/-- `TcpServer::stop`, which the thread that owns the server calls between two runs of
`do_accept` (its compare-and-swap of `started_` makes a second call return at once): the idle
manager and the acceptor are destroyed and `connections_` is cleared. The connections keep
their descriptors; their `shutdown` is only queued on their loops. -/
def stop (s : Server) : Server :=
  match s.acceptor with
  | .idle => { s with connections := [], idle := none, acceptor := .stopped }
  | _ => s

def step (s : Server) : Step → Server
  | .accept fd => s.doAccept fd
  | .readFd => s.readFd
  | .insert => s.addNewTcpConn
  | .connect c => s.connectEstablished c
  | .close c => s.handleClose c
  | .stop => s.stop

def run (s : Server) (ss : List Step) : Server := ss.foldl step s

@[simp] theorem run_nil (s : Server) : s.run [] = s := rfl

@[simp] theorem run_cons (s : Server) (a : Step) (ss : List Step) :
    s.run (a :: ss) = (s.step a).run ss := rfl

@[simp] theorem tsCloseCb_conns (fd : Int) (s : Server) : (s.tsCloseCb fd).conns = s.conns := rfl

@[simp] theorem tsCloseCb_acceptor (fd : Int) (s : Server) :
    (s.tsCloseCb fd).acceptor = s.acceptor := rfl

@[simp] theorem tsCloseCb_connections (fd : Int) (s : Server) :
    (s.tsCloseCb fd).connections = eraseKey s.connections fd := rfl

variable {s : Server} {c : Nat} {fd : Int} {k : Conn}

theorem doAccept_of_idle (h : s.acceptor = .idle) (n : Nat) :
    s.doAccept n =
      { s with conns := s.conns ++ [Conn.init n], acceptor := .accepted s.conns.length } := by
  simp [doAccept, h]

theorem readFd_of_accepted (h : s.acceptor = .accepted c) :
    s.readFd = { s with acceptor := if s.fdOf c ≤ 0 then .idle else .fdRead c (s.fdOf c) } := by
  simp only [readFd, h]
  split <;> rfl

theorem addNewTcpConn_of_idle (h : s.acceptor = .idle) : s.addNewTcpConn = s := by
  simp [addNewTcpConn, h]

theorem addNewTcpConn_of_taken {c' : Nat} (h : s.acceptor = .fdRead c fd)
    (hl : lookup s.connections fd = some c') : s.addNewTcpConn = { s with acceptor := .idle } := by
  simp [addNewTcpConn, h, hl]

theorem addNewTcpConn_of_free (h : s.acceptor = .fdRead c fd)
    (hl : lookup s.connections fd = none) :
    s.addNewTcpConn =
      { s with
        connections := s.connections ++ [(fd, c)]
        idle := s.idle.map fun m => m.addConnection c (s.fdOf c)
        acceptor := .idle } := by
  simp [addNewTcpConn, h, hl]

theorem connectEstablished_of_connecting (hk : s.conns[c]? = some k)
    (hs : k.state = .kConnecting) :
    s.connectEstablished c =
      { s with conns := s.conns.set c (Connection.connectEstablished [] k) } := by
  simp [connectEstablished, hk, hs]

theorem handleClose_of_connected (hk : s.conns[c]? = some k) (hs : k.state = .kConnected) :
    s.handleClose c =
      { s.tsCloseCb k.connfd with conns := s.conns.set c (Connection.handleClose k) } := by
  simp [handleClose, hk, hs]

end Server

open Server

def closeThenInsert (c : Nat) : List Step := [.close c, .insert]

def reuseFd (fd d : Nat) : List Step := [.accept fd, .readFd, .insert, .connect d]

theorem reuseFd_refused (t : Server) (n d : Nat) {c' : Nat} (ht : t.acceptor = .idle)
    (hl : lookup t.connections n = some c') (hd : t.conns.length = d) :
    (t.run (reuseFd n d)).connections = t.connections ∧
      (t.run (reuseFd n d)).conns[d]? = some (Connection.connectEstablished [] (Conn.init n)) := by
  subst hd
  have h1 := doAccept_of_idle ht n
  have hfd1 : (t.doAccept n).fdOf t.conns.length = n := by simp [h1, fdOf, Conn.init]
  have h3 : (t.doAccept n).readFd.addNewTcpConn = { t.doAccept n with acceptor := .idle } := by
    rw [readFd_of_accepted (by rw [h1]), hfd1]
    split
    · exact addNewTcpConn_of_idle rfl
    · exact addNewTcpConn_of_taken rfl (by simpa [h1] using hl)
  have hk : ({ t.doAccept n with acceptor := .idle } : Server).conns[t.conns.length]? =
      some (Conn.init n) := by simp [h1]
  simp only [reuseFd, run_cons, run_nil, step, h3, connectEstablished_of_connecting hk rfl]
  simp [h1]

theorem connectEstablished_nil (k : Conn) :
    (Connection.connectEstablished [] k).connfd = k.connfd ∧
      (Connection.connectEstablished [] k).state = .kConnected := by
  simp [Connection.connectEstablished, Connection.runUserActions, Connection.Conn.setState,
    Connection.Conn.emit]

theorem connectEstablished_init (n : Nat) :
    (Connection.connectEstablished [] (Conn.init n)).connfd = n ∧
      (Connection.connectEstablished [] (Conn.init n)).state = .kConnected :=
  connectEstablished_nil (Conn.init n)

theorem handleClose_closed {k : Conn} (hs : k.state = .kConnected) :
    (Connection.handleClose k).state = .kDisconnected ∧
      (Connection.handleClose k).connfd = -1 := by
  simp only [Connection.handleClose, hs, ne_eq, not_true_eq_false, if_false]
  split <;> simp [Connection.Conn.setState, Connection.Conn.emit]

/-- Connection `c` is `kConnected` on descriptor `fd` while the acceptor has read `fd` for it
and not yet inserted it. If the worker's `handle_close` runs in that window, the acceptor
then inserts `c`: `connections_` maps `fd` to `c`, which is `kDisconnected`. The next
connection the kernel gives `fd` is refused as a duplicate, and once established it is
`kConnected` on `fd` while `connections_` still maps `fd` to `c`. -/
theorem closed_conn_stays_registered (s : Server) (c fd : Nat) (k : Conn)
    (hacc : s.acceptor = .fdRead c fd) (hk : s.conns[c]? = some k)
    (hs : k.state = .kConnected) (hfd : k.connfd = fd) :
    lookup (s.run (closeThenInsert c)).connections fd = some c ∧
      (s.run (closeThenInsert c)).conns[c]?.map Conn.state = some .kDisconnected ∧
      lookup ((s.run (closeThenInsert c)).run (reuseFd fd s.conns.length)).connections fd =
        some c ∧
      ((s.run (closeThenInsert c)).run (reuseFd fd s.conns.length)).conns[s.conns.length]?.map
        Conn.connfd = some fd ∧
      ((s.run (closeThenInsert c)).run (reuseFd fd s.conns.length)).conns[s.conns.length]?.map
        Conn.state = some .kConnected := by
  have hc : c < s.conns.length := (List.getElem?_eq_some_iff.mp hk).1
  -- the worker's close erases `fd` and tears `c` down
  have h0 := handleClose_of_connected hk hs
  rw [hfd] at h0
  have hfree0 : lookup (s.handleClose c).connections fd = none := by
    simp [h0, lookup_eraseKey]
  -- the acceptor then inserts `c`
  have h1 := addNewTcpConn_of_free (by rw [h0]; exact hacc) hfree0
  have hrun : s.run (closeThenInsert c) = (s.handleClose c).addNewTcpConn := rfl
  have hreg : lookup (s.run (closeThenInsert c)).connections fd = some c := by
    simp [hrun, h1, lookup_append_pair, hfree0]
  have hconns : (s.run (closeThenInsert c)).conns = s.conns.set c (Connection.handleClose k) := by
    rw [hrun, h1, h0]
  -- the next connection on `fd` is refused
  obtain ⟨hsame, hnew⟩ := reuseFd_refused (s.run (closeThenInsert c)) fd s.conns.length
    (by rw [hrun, h1]) hreg (by rw [hconns, List.length_set])
  refine ⟨hreg, by simp [hconns, hc, (handleClose_closed hs).1], by rw [hsame, hreg], ?_, ?_⟩
    <;> simp [hnew, connectEstablished_init]

def acceptWindow : Server := (Server.init none).run [.accept 5, .readFd, .connect 0]

/-- The peer of connection 0 closes at once, before the acceptor inserts it. -/
theorem close_in_accept_window :
    acceptWindow.acceptor = .fdRead 0 (5 : Nat) ∧
      acceptWindow.conns[0]? = some (Connection.connectEstablished [] (Conn.init 5)) ∧
      (Connection.connectEstablished [] (Conn.init 5)).state = .kConnected ∧
      (Connection.connectEstablished [] (Conn.init 5)).connfd = (5 : Nat) ∧
      lookup (acceptWindow.run (closeThenInsert 0)).connections (5 : Nat) = some 0 ∧
      (acceptWindow.run (closeThenInsert 0)).conns[0]?.map Conn.state = some .kDisconnected ∧
      lookup ((acceptWindow.run (closeThenInsert 0)).run
        (reuseFd 5 acceptWindow.conns.length)).connections (5 : Nat) = some 0 ∧
      ((acceptWindow.run (closeThenInsert 0)).run
        (reuseFd 5 acceptWindow.conns.length)).conns[acceptWindow.conns.length]?.map
          Conn.connfd = some (5 : Nat) ∧
      ((acceptWindow.run (closeThenInsert 0)).run
        (reuseFd 5 acceptWindow.conns.length)).conns[acceptWindow.conns.length]?.map
          Conn.state = some .kConnected :=
  have hacc : acceptWindow.acceptor = .fdRead 0 (5 : Nat) := rfl
  have hk : acceptWindow.conns[0]? = some (Connection.connectEstablished [] (Conn.init 5)) := rfl
  have hs := (connectEstablished_init 5).2
  have hfd := (connectEstablished_init 5).1
  ⟨hacc, hk, hs, hfd, closed_conn_stays_registered acceptWindow 0 5 _ hacc hk hs hfd⟩

/-! ### Without a close in the acceptor's window, `connections_` is exact -/

def AcceptorPc.pendingConn : AcceptorPc → Option Nat
  | .accepted c => some c
  | .fdRead c _ => some c
  | _ => none

/-- Connection `c` holds descriptor `fd` open: it is not `kDisconnected` and `connfd_` is
`fd`. -/
def OpenOn (conns : List Conn) (c : Nat) (fd : Int) : Prop :=
  ∃ k, conns[c]? = some k ∧ k.connfd = fd ∧ k.state ≠ .kDisconnected

section OpenOn

variable {l : List Conn} {c c' : Nat} {fd fd' : Int} {k k' : Conn}

theorem OpenOn.lt (h : OpenOn l c fd) : c < l.length := by
  obtain ⟨k, hk, -⟩ := h
  exact (List.getElem?_eq_some_iff.mp hk).1

theorem OpenOn.fd_eq (h : OpenOn l c fd) (h' : OpenOn l c fd') : fd = fd' := by
  obtain ⟨k, hk, rfl, -⟩ := h
  obtain ⟨k', hk', rfl, -⟩ := h'
  rw [hk] at hk'
  cases hk'
  rfl

theorem openOn_concat :
    OpenOn (l ++ [k]) c fd ↔
      OpenOn l c fd ∨ (c = l.length ∧ k.connfd = fd ∧ k.state ≠ .kDisconnected) := by
  rcases Nat.lt_trichotomy c l.length with h | rfl | h
  · simp [OpenOn, List.getElem?_append_left h, Nat.ne_of_lt h]
  · simp [OpenOn, List.getElem?_eq_none]
  · have h1 : (l ++ [k]).length ≤ c := by simp; omega
    simp [OpenOn, List.getElem?_eq_none h1, List.getElem?_eq_none (Nat.le_of_lt h), Nat.ne_of_gt h]

theorem getElem?_set_cases {x : Conn} (h : (l.set c x)[c']? = some k) :
    (c' = c ∧ k = x) ∨ (c' ≠ c ∧ l[c']? = some k) := by
  rw [List.getElem?_set] at h
  by_cases hc : c = c'
  · subst hc
    simp only [if_true, Option.ite_none_right_eq_some, Option.some.injEq] at h
    exact .inl ⟨rfl, h.2.symm⟩
  · simp only [hc, if_false] at h
    exact .inr ⟨Ne.symm hc, h⟩

theorem not_openOn_of_closed (h : ∀ k ∈ l, k.state ≠ .kDisconnected → k.connfd ≠ fd)
    (c : Nat) :
    ¬ OpenOn l c fd := by
  rintro ⟨k, hk, rfl, hst⟩
  exact h k (List.getElem?_mem hk) hst rfl

theorem openOn_set_same (hk : l[c]? = some k) (hfd : k'.connfd = k.connfd)
    (hst : k'.state = .kDisconnected ↔ k.state = .kDisconnected) (c' : Nat) (fd : Int) :
    OpenOn (l.set c k') c' fd ↔ OpenOn l c' fd := by
  have hc : c < l.length := (List.getElem?_eq_some_iff.mp hk).1
  by_cases h : c = c'
  · subst h
    simp [OpenOn, List.getElem?_set_self hc, hk, hfd, hst]
  · simp [OpenOn, List.getElem?_set_ne h]

theorem openOn_set_closed (hk' : k'.state = .kDisconnected) (c' : Nat) (fd : Int) :
    OpenOn (l.set c k') c' fd ↔ OpenOn l c' fd ∧ c' ≠ c := by
  by_cases h : c = c'
  · subst h
    simp only [OpenOn, List.getElem?_set, if_true, ne_eq, not_true_eq_false, and_false, iff_false]
    split <;> simp [hk']
  · simp [OpenOn, List.getElem?_set_ne h, Ne.symm h]

end OpenOn

/-- The connection whose descriptor the acceptor has read and not yet inserted, if any. -/
def AcceptorPc.readFor : AcceptorPc → Option Nat
  | .fdRead c _ => some c
  | _ => none

/-- What the kernel and the schedule allow: `accept4` returns a positive descriptor that no
connection holds open, and the worker's `handle_close` of a connection does not come between
the acceptor's read of its descriptor and its insertion. -/
def Allowed (s : Server) : Step → Prop
  | .accept fd => 0 < fd ∧ ∀ k ∈ s.conns, k.state ≠ .kDisconnected → k.connfd ≠ fd
  | .close c => s.acceptor.readFor ≠ some c
  | _ => True

instance (s : Server) : (a : Step) → Decidable (Allowed s a)
  | .accept fd =>
    inferInstanceAs
      (Decidable (0 < fd ∧ ∀ k ∈ s.conns, k.state ≠ .kDisconnected → k.connfd ≠ fd))
  | .readFd => inferInstanceAs (Decidable True)
  | .insert => inferInstanceAs (Decidable True)
  | .connect _ => inferInstanceAs (Decidable True)
  | .close c => inferInstanceAs (Decidable (s.acceptor.readFor ≠ some c))
  | .stop => inferInstanceAs (Decidable True)

/-- The states reached by allowed steps from a server before its first connection. -/
inductive RaceFree : Server → Prop
  | init (idle : Option Manager) : RaceFree (Server.init idle)
  | step {s : Server} {a : Step} : RaceFree s → Allowed s a → RaceFree (s.step a)

/-- The invariant of race-free runs. Until `stop`, `connections_` maps a descriptor to a
connection exactly when that connection holds it open and `add_new_tcp_conn` is not still
working on it, and after `stop` it is empty; an open connection holds a positive descriptor and
a closed one `-1`; no two connections hold one descriptor open; and the connection the acceptor
has read holds what it read. -/
structure Sound (s : Server) : Prop where
  registry : s.acceptor ≠ .stopped → ∀ (fd : Int) (c : Nat), lookup s.connections fd = some c ↔
    s.acceptor.pendingConn ≠ some c ∧ OpenOn s.conns c fd
  cleared : s.acceptor = .stopped → s.connections = []
  shape : ∀ (c : Nat) (k : Conn), s.conns[c]? = some k →
    (k.state = .kDisconnected ∧ k.connfd = -1) ∨ (k.state ≠ .kDisconnected ∧ 0 < k.connfd)
  unique : ∀ (c c' : Nat) (fd : Int), OpenOn s.conns c fd → OpenOn s.conns c' fd → c = c'
  pending : ∀ c : Nat, s.acceptor.pendingConn = some c → c < s.conns.length
  window : ∀ (c : Nat) (fd : Int), s.acceptor = .fdRead c fd → OpenOn s.conns c fd

section Sound

variable {s : Server}

theorem sound_init (idle : Option Manager) : Sound (Server.init idle) :=
  ⟨by simp [Server.init, lookup, OpenOn], by simp [Server.init], by simp [Server.init],
    by simp [Server.init, OpenOn], by simp [Server.init, AcceptorPc.pendingConn],
    by simp [Server.init]⟩

theorem Sound.openOn_of_pos (h : Sound s) {c : Nat} {k : Conn} (hk : s.conns[c]? = some k)
    (hpos : 0 < k.connfd) : OpenOn s.conns c k.connfd := by
  refine ⟨k, hk, rfl, ?_⟩
  rcases h.shape c k hk with ⟨-, h1⟩ | ⟨h1, -⟩
  · omega
  · exact h1

theorem sound_doAccept (h : Sound s) {n : Nat} (hn : 0 < n) (hfree : ∀ c, ¬ OpenOn s.conns c n) :
    Sound (s.doAccept n) := by
  cases hacc : s.acceptor with
  | idle =>
    have hreg := h.registry (by simp [hacc])
    rw [doAccept_of_idle hacc]
    have hnew : (Conn.init n).connfd = n ∧ (Conn.init n).state ≠ .kDisconnected := by
      simp [Conn.init]
    refine ⟨fun _ fd c => ?_, nofun, fun c k hk => ?_, fun c c' fd hc hc' => ?_, fun c hc => ?_,
      fun c fd hc => nomatch hc⟩
    · simp only [AcceptorPc.pendingConn, openOn_concat, hnew.1, hnew.2, hreg, hacc]
      constructor
      · rintro ⟨-, ho⟩
        exact ⟨fun he => absurd ho.lt (by simp at he; omega), .inl ho⟩
      · rintro ⟨hne, ho | ⟨rfl, -⟩⟩
        · exact ⟨by simp [AcceptorPc.pendingConn], ho⟩
        · simp at hne
    · rcases Nat.lt_trichotomy c s.conns.length with hlt | rfl | hgt
      · exact h.shape c k (by simpa [List.getElem?_append_left hlt] using hk)
      · simp at hk
        subst hk
        exact .inr ⟨hnew.2, by simp [Conn.init]; omega⟩
      · rw [List.getElem?_eq_none (by simp; omega)] at hk
        cases hk
    · rw [openOn_concat] at hc hc'
      rcases hc with hc | ⟨rfl, h1, -⟩ <;> rcases hc' with hc' | ⟨rfl, h1', -⟩
      · exact h.unique c c' fd hc hc'
      · rw [← h1', hnew.1] at hc; exact absurd hc (hfree c)
      · rw [← h1, hnew.1] at hc'; exact absurd hc' (hfree c')
      · rfl
    · simp [AcceptorPc.pendingConn] at hc
      simp [hc]
  | _ => simpa [doAccept, hacc] using h

theorem sound_readFd (h : Sound s) : Sound s.readFd := by
  cases hacc : s.acceptor with
  | accepted c =>
    have hreg := h.registry (by simp [hacc])
    rw [readFd_of_accepted hacc]
    have hc := h.pending c (by simp [hacc, AcceptorPc.pendingConn])
    obtain ⟨k, hk⟩ : ∃ k, s.conns[c]? = some k := ⟨_, List.getElem?_eq_getElem hc⟩
    have hfd : s.fdOf c = k.connfd := by simp [fdOf, hk]
    rw [hfd]
    split
    · -- `fd <= 0`: the peer closed before the read, and the connection is left out
      rename_i hle
      have hclosed : ∀ fd, ¬ OpenOn s.conns c fd := by
        rintro fd ⟨k', hk', rfl, hst⟩
        rw [hk] at hk'
        cases hk'
        rcases h.shape c k hk with ⟨h1, -⟩ | ⟨-, h2⟩
        · exact hst h1
        · omega
      refine ⟨fun _ fd c' => ?_, nofun, h.shape, h.unique, fun c' hc' => (nomatch hc'),
        fun _ _ hc' => nomatch hc'⟩
      show lookup s.connections fd = some c' ↔
        AcceptorPc.pendingConn .idle ≠ some c' ∧ OpenOn s.conns c' fd
      rw [hreg, hacc]
      by_cases hcc : c' = c
      · subst hcc
        simp [AcceptorPc.pendingConn, hclosed]
      · simp [AcceptorPc.pendingConn, Ne.symm hcc]
    · rename_i hpos
      refine ⟨fun _ fd c' => ?_, nofun, h.shape, h.unique, fun c' hc' => ?_, fun c' fd hc' => ?_⟩
      · show lookup s.connections fd = some c' ↔
          AcceptorPc.pendingConn (.fdRead c k.connfd) ≠ some c' ∧ OpenOn s.conns c' fd
        rw [hreg, hacc]
        rfl
      · simp only [AcceptorPc.pendingConn, Option.some.injEq] at hc'
        exact hc' ▸ hc
      · simp only [AcceptorPc.fdRead.injEq] at hc'
        obtain ⟨rfl, rfl⟩ := hc'
        exact h.openOn_of_pos hk (by omega)
  | _ => simpa [readFd, hacc] using h

theorem sound_addNewTcpConn (h : Sound s) : Sound s.addNewTcpConn := by
  cases hacc : s.acceptor with
  | fdRead c fd0 =>
    have hreg := h.registry (by simp [hacc])
    have hw := h.window c fd0 hacc
    -- only `c` holds `fd0` open, and `c` is not in `connections_` yet
    have hnone : lookup s.connections fd0 = none := by
      cases hl : lookup s.connections fd0 with
      | none => rfl
      | some c' =>
        obtain ⟨hne, ho⟩ := (hreg fd0 c').mp hl
        rw [h.unique c' c fd0 ho hw, hacc] at hne
        exact absurd rfl hne
    rw [addNewTcpConn_of_free hacc hnone]
    refine ⟨fun _ fd c' => ?_, nofun, h.shape, h.unique, fun c' hc' => (nomatch hc'),
      fun _ _ hc' => nomatch hc'⟩
    show lookup (s.connections ++ [(fd0, c)]) fd = some c' ↔
      AcceptorPc.pendingConn .idle ≠ some c' ∧ OpenOn s.conns c' fd
    simp only [lookup_append_pair, AcceptorPc.pendingConn, ne_eq, reduceCtorEq,
      not_false_eq_true, true_and]
    cases hl : lookup s.connections fd with
    | some c1 =>
      have ho := ((hreg fd c1).mp hl).2
      simp only [Option.or_some, Option.some.injEq]
      exact ⟨fun e => e ▸ ho, fun ho' => h.unique c1 c' fd ho ho'⟩
    | none =>
      simp only [Option.none_or]
      by_cases hfd : fd0 = fd
      · subst hfd
        simp only [if_true, Option.some.injEq]
        exact ⟨fun e => e ▸ hw, fun ho' => h.unique c c' fd0 hw ho'⟩
      · simp only [hfd, if_false, reduceCtorEq, false_iff]
        intro ho'
        by_cases hcc : c' = c
        · subst hcc
          exact hfd (hw.fd_eq ho')
        · have hl' := (hreg fd c').mpr
            ⟨by simp [hacc, AcceptorPc.pendingConn, Ne.symm hcc], ho'⟩
          rw [hl] at hl'
          cases hl'
  | _ => simpa [addNewTcpConn, hacc] using h

theorem Sound.setConn (h : Sound s) {c : Nat} {k k' : Conn} (hk : s.conns[c]? = some k)
    (hfd : k'.connfd = k.connfd) (hst : k'.state = .kDisconnected ↔ k.state = .kDisconnected) :
    Sound { s with conns := s.conns.set c k' } := by
  have hsame := openOn_set_same hk hfd hst
  refine ⟨fun hrun fd c' => ?_, h.cleared, fun c' k1 hk1 => ?_, fun c1 c2 fd h1 h2 => ?_,
    fun c' hc' => ?_, fun c' fd hc' => ?_⟩
  · rw [hsame]
    exact h.registry hrun fd c'
  · rcases getElem?_set_cases hk1 with ⟨rfl, rfl⟩ | ⟨-, hk1⟩
    · simp only [ne_eq, hfd, hst]
      exact h.shape _ k hk
    · exact h.shape c' k1 hk1
  · rw [hsame] at h1 h2
    exact h.unique c1 c2 fd h1 h2
  · simpa using h.pending c' hc'
  · rw [hsame]
    exact h.window c' fd hc'

theorem sound_connectEstablished (h : Sound s) (c : Nat) : Sound (s.connectEstablished c) := by
  cases hk : s.conns[c]? with
  | none => simpa [connectEstablished, hk] using h
  | some k =>
    by_cases hs : k.state = .kConnecting
    · rw [connectEstablished_of_connecting hk hs]
      obtain ⟨hfd, hst⟩ := connectEstablished_nil k
      exact h.setConn hk hfd (by simp [hst, hs])
    · simpa [connectEstablished, hk, hs] using h

theorem sound_handleClose (h : Sound s) (c : Nat) (hr : s.acceptor.readFor ≠ some c) :
    Sound (s.handleClose c) := by
  cases hk : s.conns[c]? with
  | none => simpa [handleClose, hk] using h
  | some k =>
    by_cases hs : k.state = .kConnected
    · rw [handleClose_of_connected hk hs]
      obtain ⟨hdisc, hfd⟩ := handleClose_closed hs
      have hopen : OpenOn s.conns c k.connfd := ⟨k, hk, rfl, by simp [hs]⟩
      have hclosed := openOn_set_closed (l := s.conns) (c := c) hdisc
      refine ⟨fun hrun fd c' => ?_, fun hst => by simp [h.cleared hst, eraseKey],
        fun c' k1 hk1 => ?_, fun c1 c2 fd h1 h2 => ?_, fun c' hc' => ?_, fun c' fd hc' => ?_⟩
      · show lookup (eraseKey s.connections k.connfd) fd = some c' ↔
          s.acceptor.pendingConn ≠ some c' ∧
            OpenOn (s.conns.set c (Connection.handleClose k)) c' fd
        rw [lookup_eraseKey, hclosed]
        split
        · -- `remove_tcp_conn` erased the descriptor, and only `c` held it open
          rename_i he
          subst he
          simp only [reduceCtorEq, false_iff, not_and]
          exact fun _ ho hne => hne (h.unique c' c _ ho hopen)
        · rename_i hne
          rw [h.registry hrun]
          exact ⟨fun ⟨h1, ho⟩ => ⟨h1, ho, fun e => hne (ho.fd_eq (e ▸ hopen))⟩,
            fun ⟨h1, ho, _⟩ => ⟨h1, ho⟩⟩
      · rcases getElem?_set_cases hk1 with ⟨-, rfl⟩ | ⟨-, hk1⟩
        · exact .inl ⟨hdisc, hfd⟩
        · exact h.shape c' k1 hk1
      · rw [hclosed] at h1 h2
        exact h.unique c1 c2 fd h1.1 h2.1
      · simpa using h.pending c' hc'
      · rw [hclosed]
        refine ⟨h.window c' fd hc', ?_⟩
        rintro rfl
        exact hr (by rw [show s.acceptor = _ from hc']; rfl)
    · have hself : s.handleClose c = { s with conns := s.conns.set c k } := by
        simp [handleClose, hk, hs, Lifecycle.handleClose_of_ne hs]
      rw [hself]
      exact h.setConn hk rfl Iff.rfl

theorem sound_stop (h : Sound s) : Sound s.stop := by
  cases hacc : s.acceptor with
  | idle =>
    have hst : s.stop = { s with connections := [], idle := none, acceptor := .stopped } := by
      simp [Server.stop, hacc]
    rw [hst]
    exact ⟨fun hne => absurd rfl hne, fun _ => rfl, h.shape, h.unique,
      fun c hc => by simp [AcceptorPc.pendingConn] at hc, nofun⟩
  | _ => simpa [Server.stop, hacc] using h

theorem Sound.step (h : Sound s) {a : Step} (ha : Allowed s a) : Sound (s.step a) := by
  cases a with
  | accept n => exact sound_doAccept h ha.1 (not_openOn_of_closed (by exact_mod_cast ha.2))
  | readFd => exact sound_readFd h
  | insert => exact sound_addNewTcpConn h
  | connect c => exact sound_connectEstablished h c
  | close c => exact sound_handleClose h c ha
  | stop => exact sound_stop h

end Sound

theorem RaceFree.sound {s : Server} (h : RaceFree s) : Sound s := by
  induction h with
  | init idle => exact sound_init idle
  | step _ ha ih => exact ih.step ha

def allowedRun : Server → List Step → Bool
  | _, [] => true
  | s, a :: ss => decide (Allowed s a) && allowedRun (s.step a) ss

theorem RaceFree.run {s : Server} (h : RaceFree s) {ss : List Step}
    (hr : allowedRun s ss = true) : RaceFree (s.run ss) := by
  induction ss generalizing s with
  | nil => exact h
  | cons a ss ih =>
    simp only [allowedRun, Bool.and_eq_true, decide_eq_true_eq] at hr
    exact ih (.step h hr.1) hr.2

/-- In a run where no connection's `handle_close` comes between the acceptor's read of its
descriptor and its insertion, `connections_` is exact until `TcpServer::stop`: once
`add_new_tcp_conn` is done with a connection, `connections_` maps a descriptor to it exactly
when the server has not been stopped and the connection holds that descriptor open. So while
the server runs an open connection has one entry, under its own descriptor, and a closed one
has none; after `stop` no connection has one, open or not. -/
theorem registry_exact {s : Server} (h : RaceFree s) (c : Nat)
    (hc : s.acceptor.pendingConn ≠ some c) (fd : Int) :
    lookup s.connections fd = some c ↔ s.acceptor ≠ .stopped ∧ OpenOn s.conns c fd := by
  by_cases hst : s.acceptor = .stopped
  · simp [hst, h.sound.cleared hst, lookup]
  · rw [h.sound.registry hst]
    simp [hst, hc]

def twoConns : List Step :=
  [.accept 5, .readFd, .insert, .connect 0, .accept 6, .readFd, .insert, .connect 1, .close 0]

def twoConnsServer : Server := (Server.init none).run twoConns

/-- Connection 1 is registered under descriptor 6 while the server runs; after `stop` it is
still open on 6 and no longer registered. -/
theorem twoConns_registry :
    allowedRun (Server.init none) twoConns = true ∧
      twoConnsServer.acceptor.pendingConn ≠ some 1 ∧
      twoConnsServer.stop.acceptor.pendingConn ≠ some 1 ∧
      (lookup twoConnsServer.connections 6 = some 1 ↔
        twoConnsServer.acceptor ≠ .stopped ∧ OpenOn twoConnsServer.conns 1 6) ∧
      (lookup twoConnsServer.stop.connections 6 = some 1 ↔
        twoConnsServer.stop.acceptor ≠ .stopped ∧ OpenOn twoConnsServer.stop.conns 1 6) ∧
      OpenOn twoConnsServer.stop.conns 1 6 :=
  have hr : allowedRun (Server.init none) twoConns = true := by decide
  have h : RaceFree twoConnsServer := (RaceFree.init none).run hr
  have hc : twoConnsServer.acceptor.pendingConn ≠ some 1 := by decide
  have hc' : twoConnsServer.stop.acceptor.pendingConn ≠ some 1 := by decide
  ⟨hr, hc, hc', registry_exact h 1 hc 6, registry_exact (h.step (a := .stop) trivial) 1 hc' 6,
    ⟨_, rfl, rfl, by decide⟩⟩

end ReactorServer.Net.Registry
