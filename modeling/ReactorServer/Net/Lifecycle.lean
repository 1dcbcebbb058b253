import ReactorServer.Net.Connection
import Mathlib.Data.List.Chain

/-!
The lifecycle of a connection over every run of its operations.

`Inv fd` says, for each value of `state_`, what the rest of the connection looks like: the
descriptor, the channel and its registration, and the effects so far. A live connection has
an armed channel and only system calls on `fd`, stores and the connected and message
callbacks in its trace; a closed one ends its trace with the teardown of `handle_close`.
Every operation keeps `Inv` (`inv_step`), so every reachable connection satisfies it.
-/

set_option autoImplicit false
set_option relaxedAutoImplicit false

namespace ReactorServer.Net.Lifecycle

open ReactorServer.Memory.Buffer ReactorServer.Net.Interest ReactorServer.Net.Connection

def stored? : Effect → Option State
  | .store s => some s
  | _ => none

def stores (t : List Effect) : List State := t.filterMap stored?

@[simp] theorem stores_append (t t' : List Effect) : stores (t ++ t') = stores t ++ stores t' :=
  List.filterMap_append _ _ _

@[simp] theorem stores_singleton (e : Effect) : stores [e] = (stored? e).toList := by
  cases h : stored? e <;> simp [stores, h]

def onFd : Effect → Option Int
  | .read fd | .write fd _ | .shutdownWr fd | .close fd => some fd
  | _ => none

def liveEffect (fd : Int) : Effect → Bool
  | .read f | .write f _ | .shutdownWr f => f == fd
  | .store _ | .connectedCb | .messageCb => true
  | .close _ | .closeCb | .nullChannel => false

/-- The trace of a live connection on `fd` whose stores were `ss`. -/
def LiveTrace (fd : Int) (ss : List State) (t : List Effect) : Prop :=
  stores t = ss ∧ ∀ e ∈ t, liveEffect fd e = true

/-- A live connection's channel: on `fd`, with an armed mask, registered under that mask. -/
def Armed (fd : Int) (c : Conn) : Prop :=
  ∃ ch, c.channel = some ch ∧ ch.fd = fd ∧ ArmedMask ch.events ∧ c.reg = ⟨true, some ch.events⟩

/-- The invariant of a connection on descriptor `fd`, by the value of `state_`. -/
def Inv (fd : Nat) (c : Conn) : Prop :=
  match c.state with
  | .kConnecting => c.connfd = fd ∧ c.channel = none ∧ c.reg = .empty ∧ c.trace = []
  | .kConnected => c.connfd = fd ∧ Armed fd c ∧ LiveTrace fd [.kConnected] c.trace
  | .kDisconnecting =>
    c.connfd = fd ∧ Armed fd c ∧ LiveTrace fd [.kConnected, .kDisconnecting] c.trace
  | .kDisconnected =>
    c.connfd = -1 ∧ c.channel = none ∧ c.reg = ⟨false, none⟩ ∧
      ∃ pre, LiveTrace fd [.kConnected] pre ∧
        c.trace = pre ++ [.store .kDisconnected, .closeCb, .close fd]

/-- `c'` follows `c`: it satisfies the invariant and its trace extends that of `c`. -/
def Follows (fd : Nat) (c c' : Conn) : Prop := Inv fd c' ∧ c.trace <+: c'.trace

variable {fd : Nat} {c : Conn}

theorem Follows.trans {c' c'' : Conn} (h : Follows fd c c') (h' : Follows fd c' c'') :
    Follows fd c c'' :=
  ⟨h'.1, h.2.trans h'.2⟩

theorem Follows.refl (h : Inv fd c) : Follows fd c c := ⟨h, List.prefix_refl _⟩

/-! ### Frame facts -/

theorem liveTrace_append {ss : List State} {t : List Effect} {e : Effect}
    (h : LiveTrace fd ss t) (he : liveEffect fd e = true) (hs : stored? e = none) :
    LiveTrace fd ss (t ++ [e]) := by
  refine ⟨by simp [hs, h.1], fun x hx => ?_⟩
  rcases List.mem_append.mp hx with hx | hx
  · exact h.2 x hx
  · simp_all

theorem live_of_ne (h : c.state ≠ .kConnecting) (hd : c.state ≠ .kDisconnected) :
    c.state = .kConnected ∨ c.state = .kDisconnecting := by
  cases hc : c.state <;> simp_all

theorem connfd_of_live (h : Inv fd c) (hs : c.state = .kConnected ∨ c.state = .kDisconnecting) :
    c.connfd = fd := by
  rcases hs with hs | hs <;> simp only [Inv, hs] at h <;> exact h.1

theorem connfd_of_disconnected (h : Inv fd c) (hd : c.state = .kDisconnected) : c.connfd = -1 := by
  simp only [Inv, hd] at h
  exact h.1

theorem liveEffect_io (h : Inv fd c) (hs : c.state = .kConnected ∨ c.state = .kDisconnecting)
    (bytes : List UInt8) :
    liveEffect fd (.read c.connfd) = true ∧ liveEffect fd (.write c.connfd bytes) = true ∧
      liveEffect fd (.shutdownWr c.connfd) = true := by
  simp [liveEffect, connfd_of_live h hs]

theorem follows_emit {e : Effect} (h : Inv fd c)
    (hs : c.state = .kConnected ∨ c.state = .kDisconnecting)
    (he : liveEffect fd e = true) (hst : stored? e = none) : Follows fd c (c.emit e) := by
  refine ⟨?_, List.prefix_append _ _⟩
  rcases hs with hs | hs <;>
  · simp only [Inv, Conn.emit, hs] at h ⊢
    exact ⟨h.1, h.2.1, liveTrace_append h.2.2 he hst⟩

theorem follows_emit_if {b : Bool} {e : Effect} (h : Inv fd c)
    (hs : c.state = .kConnected ∨ c.state = .kDisconnecting)
    (he : liveEffect fd e = true) (hst : stored? e = none) :
    Follows fd c (if b then c.emit e else c) ∧ (if b then c.emit e else c).state = c.state ∧
      (if b then c.emit e else c).connfd = c.connfd := by
  cases b
  · exact ⟨.refl h, rfl, rfl⟩
  · exact ⟨follows_emit h hs he hst, rfl, rfl⟩

/-! ### `handle_close` -/

theorem handleClose_of_ne (h : c.state ≠ .kConnected) : handleClose c = c := by
  simp [handleClose, h]

theorem follows_handleClose (h : Inv fd c) : Follows fd c (handleClose c) := by
  by_cases hs : c.state = .kConnected
  · simp only [Inv, hs] at h
    obtain ⟨hfd, ⟨ch, hch, -, -, -⟩, hlive⟩ := h
    simp only [Follows, Inv, handleClose, hs, hch, Conn.setState, Conn.emit, ne_eq,
      not_true_eq_false, if_false, updateChannel_disableAll, hfd]
    exact ⟨⟨trivial, trivial, trivial, c.trace, hlive, by simp⟩, by simp⟩
  · rw [handleClose_of_ne hs]
    exact .refl h

/-! ### Channel updates and the send and shutdown paths -/

theorem follows_updateChannelWith {f : Channel → Channel}
    (hf : ∀ ch, ArmedMask ch.events → ArmedMask (f ch).events ∧ (f ch).fd = ch.fd)
    (h : Inv fd c) (hs : c.state = .kConnected ∨ c.state = .kDisconnecting) :
    Follows fd c (c.updateChannelWith f) := by
  rcases hs with hs | hs <;>
  · simp only [Inv, hs] at h
    obtain ⟨hfd, ⟨ch, hch, hchfd, hm, hreg⟩, hlive⟩ := h
    obtain ⟨hm', hfd'⟩ := hf ch hm
    simp only [Follows, Inv, Conn.updateChannelWith, hch, hs]
    refine ⟨⟨hfd, ⟨f ch, rfl, hfd'.trans hchfd, hm', ?_⟩, hlive⟩, List.prefix_refl _⟩
    simp [hreg, updateChannel, armedMask_ne_zero hm']

theorem enableWrite_armed (ch : Channel) (h : ArmedMask ch.events) :
    ArmedMask ch.enableWrite.events ∧ ch.enableWrite.fd = ch.fd :=
  ⟨armedMask_enableWrite h, rfl⟩

theorem disableWrite_armed (ch : Channel) (h : ArmedMask ch.events) :
    ArmedMask ch.disableWrite.events ∧ ch.disableWrite.fd = ch.fd :=
  ⟨armedMask_disableWrite h, rfl⟩

theorem follows_bufferRest {data : List UInt8} {n : Nat} {poolOk : Bool} (h : Inv fd c)
    (hs : c.state = .kConnected) : Follows fd c (bufferRest data n poolOk c) := by
  unfold bufferRest
  split
  · exact follows_updateChannelWith enableWrite_armed h (.inl hs)
  · exact .refl h

theorem follows_sendInLoop {data : List UInt8} {w : WriteResult} {poolOk : Bool}
    (h : Inv fd c) : Follows fd c (sendInLoop data w poolOk c) := by
  unfold sendInLoop
  by_cases hs : c.state = .kConnected
  · have hw : ∀ bytes, Follows fd c (c.emit (.write c.connfd bytes)) := fun bytes =>
      follows_emit h (.inl hs) (liveEffect_io h (.inl hs) bytes).2.1 rfl
    simp only [hs, ne_eq, not_true_eq_false, if_false]
    split
    · cases w with
      | accepted k => exact (hw _).trans (follows_bufferRest (hw _).1 hs)
      | eagain => exact (hw _).trans (follows_bufferRest (hw _).1 hs)
      | error => exact (hw _).trans (follows_handleClose (hw _).1)
    · exact follows_bufferRest h hs
  · simp only [hs, ne_eq, not_false_eq_true, if_true]
    exact .refl h

theorem follows_shutdownInLoop (h : Inv fd c) : Follows fd c (shutdownInLoop c) := by
  unfold shutdownInLoop
  by_cases hs : c.state = .kConnected
  · simp only [Inv, hs] at h
    obtain ⟨hfd, harmed, hlive⟩ := h
    have h' : Follows fd c (c.setState .kDisconnecting) := by
      refine ⟨⟨hfd, harmed, by simp [Conn.setState, stored?, hlive.1], fun e he => ?_⟩,
        List.prefix_append _ _⟩
      rcases List.mem_append.mp he with he | he
      · exact hlive.2 e he
      · simp_all [liveEffect]
    simp only [hs, ne_eq, not_true_eq_false, if_false]
    split
    · exact h'.trans (follows_emit h'.1 (.inr rfl) (by simp [liveEffect, Conn.setState, hfd]) rfl)
    · exact h'
  · simp only [hs, ne_eq, not_false_eq_true, if_true]
    exact .refl h

theorem follows_runUserAction (h : Inv fd c) (a : UserAction) :
    Follows fd c (runUserAction c a) := by
  cases a with
  | send data w poolOk =>
    simp only [runUserAction]
    split
    · exact .refl h
    · exact follows_sendInLoop h
  | shutdown =>
    simp only [runUserAction]
    split
    · exact follows_shutdownInLoop h
    · exact .refl h

theorem follows_runUserActions (acts : List UserAction) (h : Inv fd c) :
    Follows fd c (runUserActions c acts) := by
  induction acts generalizing c with
  | nil => exact .refl h
  | cons a acts ih =>
    have h1 := follows_runUserAction h a
    exact h1.trans (ih h1.1)

/-! ### Event handling -/

theorem handleRead_of_disconnected {r : ReadResult} {poolOk : Bool} {acts : List UserAction}
    (h : Inv fd c) (hd : c.state = .kDisconnected) : handleRead r poolOk acts c = c := by
  have hneg : c.connfd < 0 := by simp [connfd_of_disconnected h hd]
  have hne : c.state ≠ .kConnected := by simp [hd]
  simp [handleRead, InputBuffer.readFromFd_of_neg _ _ _ hneg, handleError, handleClose_of_ne hne]

theorem handleWrite_of_disconnected {w : WriteResult} (h : Inv fd c)
    (hd : c.state = .kDisconnected) : handleWrite w c = c := by
  have hneg : c.connfd < 0 := by simp [connfd_of_disconnected h hd]
  have hne : c.state ≠ .kConnected := by simp [hd]
  simp [handleWrite, OutputBuffer.writeToFd_of_neg _ _ hneg, handleError, handleClose_of_ne hne]

theorem follows_handleRead {r : ReadResult} {poolOk : Bool} {acts : List UserAction}
    (h : Inv fd c) (hs : c.state ≠ .kConnecting) : Follows fd c (handleRead r poolOk acts c) := by
  by_cases hd : c.state = .kDisconnected
  · rw [handleRead_of_disconnected h hd]
    exact .refl h
  · have hl := live_of_ne hs hd
    have key : ∀ (n : Int) (c1 : Conn), Follows fd c c1 → c1.state = c.state →
        Follows fd c (if 0 < n then runUserActions (c1.emit .messageCb) acts
          else if n = 0 then handleClose c1 else handleError c1) := by
      intro n c1 h1 hs1
      split_ifs
      · have h2 := h1.trans (follows_emit (e := .messageCb) h1.1 (hs1 ▸ hl) rfl rfl)
        exact h2.trans (follows_runUserActions acts h2.1)
      · exact h1.trans (follows_handleClose h1.1)
      · exact h1.trans (follows_handleClose h1.1)
    obtain ⟨h1, hs1, -⟩ := follows_emit_if (b := (c.inputBuf.readFromFd c.connfd r poolOk).2.1)
      (e := .read c.connfd) (c := { c with inputBuf := (c.inputBuf.readFromFd c.connfd r poolOk).2.2 })
      h hl (liveEffect_io h hl []).1 rfl
    exact key _ _ h1 hs1

theorem follows_handleWrite {w : WriteResult} (h : Inv fd c) (hs : c.state ≠ .kConnecting) :
    Follows fd c (handleWrite w c) := by
  by_cases hd : c.state = .kDisconnected
  · rw [handleWrite_of_disconnected h hd]
    exact .refl h
  · have hl := live_of_ne hs hd
    have key : ∀ (n : Int) (c1 : Conn), Follows fd c c1 → c1.state = c.state →
        c1.connfd = c.connfd →
        Follows fd c (if n < 0 then handleError c1
          else if c1.outputBuf.length = 0 then
            (if (c1.updateChannelWith Channel.disableWrite).state = .kDisconnecting then
              (c1.updateChannelWith Channel.disableWrite).emit
                (.shutdownWr (c1.updateChannelWith Channel.disableWrite).connfd)
            else c1.updateChannelWith Channel.disableWrite)
          else c1) := by
      intro n c1 h1 hs1 hfd1
      have h2 := h1.trans (follows_updateChannelWith disableWrite_armed h1.1 (hs1 ▸ hl))
      split_ifs with _ _ hdis
      · exact h1.trans (follows_handleClose h1.1)
      · exact h2.trans
          (follows_emit h2.1 (.inr hdis) (by simp [liveEffect, hfd1, connfd_of_live h hl]) rfl)
      · exact h2
      · exact h1
    have h0 : Follows fd c { c with outputBuf := (c.outputBuf.writeToFd c.connfd w).2.2 } :=
      .refl h
    cases hres : (c.outputBuf.writeToFd c.connfd w).2.1 with
    | none =>
      simp only [handleWrite, hres]
      exact key _ _ h0 rfl rfl
    | some bytes =>
      simp only [handleWrite, hres]
      exact key _ _ (h0.trans (follows_emit h0.1 hl (liveEffect_io h hl bytes).2.1 rfl)) rfl rfl

theorem trace_ne_nil (hc : Inv fd c) (hs : c.state ≠ .kConnecting) : c.trace ≠ [] := by
  intro hnil
  cases hcs : c.state <;> simp only [Inv, LiveTrace, hcs, hnil] at hc
  · exact hs hcs
  · simp [stores] at hc
  · simp [stores] at hc
  · obtain ⟨-, -, -, pre, -, hpre⟩ := hc
    simp at hpre

theorem state_ne_connecting {c' : Conn} (h : Follows fd c c') (hs : c.state ≠ .kConnecting)
    (hc : Inv fd c) : c'.state ≠ .kConnecting := by
  intro hc'
  have hnil : c'.trace = [] := by
    have := h.1
    simp only [Inv, hc'] at this
    exact this.2.2.2
  exact trace_ne_nil hc hs (List.prefix_nil.mp (hnil ▸ h.2))

theorem follows_handleEvent {events : UInt32} {r : ReadResult} {readPool : Bool}
    {acts : List UserAction} {w : WriteResult} (h : Inv fd c) (hs : c.state ≠ .kConnecting) :
    Follows fd c (handleEvent events r readPool acts w c) := by
  unfold handleEvent
  split_ifs
  · exact follows_handleClose h
  · exact follows_handleClose h
  · have h1 : Follows fd c (handleRead r readPool acts c) := follows_handleRead h hs
    exact h1.trans (follows_handleWrite h1.1 (state_ne_connecting h1 hs h))
  · exact follows_handleRead h hs
  · exact follows_handleWrite h hs
  · exact .refl h

/-! ### Operations and runs -/

theorem follows_connectEstablished {acts : List UserAction} (h : Inv fd c)
    (hs : c.state = .kConnecting) : Follows fd c (connectEstablished acts c) := by
  simp only [Inv, hs] at h
  obtain ⟨hfd, -, hreg, htrace⟩ := h
  have hmask : ArmedMask ((Channel.mk c.connfd 0).enableRead.events) := by
    simp only [Channel.enableRead, zero_enableRead]
    exact .inl rfl
  have key : ∀ c1 : Conn, Follows fd c c1 → Follows fd c (runUserActions c1 acts) :=
    fun c1 h1 => h1.trans (follows_runUserActions acts h1.1)
  simp only [connectEstablished]
  apply key
  refine ⟨⟨hfd, ⟨_, rfl, hfd, hmask, ?_⟩, ?_, ?_⟩, by simp [htrace]⟩
  · simp [Conn.setState, Conn.emit, hreg, updateChannel, Registration.empty,
      armedMask_ne_zero hmask]
  · simp [Conn.setState, Conn.emit, htrace, stores, stored?]
  · simp [Conn.setState, Conn.emit, htrace, liveEffect]

theorem follows_runTask {w : WriteResult} {poolOk : Bool} (h : Inv fd c) :
    Follows fd c (runTask w poolOk c) := by
  unfold runTask
  split
  · exact .refl h
  · exact follows_sendInLoop (c := { c with pending := _ }) h
  · exact follows_shutdownInLoop (c := { c with pending := _ }) h

theorem follows_step {op : Op} (h : Inv fd c) (he : Enabled c op) : Follows fd c (step c op) := by
  cases op with
  | connectEstablished acts => exact follows_connectEstablished h he
  | handleEvent events r readPool acts w => exact follows_handleEvent h he
  | queueSend data => exact .refl h
  | queueShutdown => exact .refl h
  | runTask w poolOk => exact follows_runTask h

theorem inv_init (fd : Nat) : Inv fd (Conn.init fd) := by
  simp [Inv, Conn.init]

theorem inv_of_reachable (h : Reachable fd c) : Inv fd c := by
  induction h with
  | init => exact inv_init fd
  | step _ he ih => exact (follows_step ih he).1

/-! ### The lifecycle of a reachable connection -/

/-- The lifecycle's edges: `kConnecting → kConnected → kDisconnecting` and
`kConnected → kDisconnected`. -/
def Edge : State → State → Prop
  | .kConnecting, .kConnected => True
  | .kConnected, .kDisconnecting => True
  | .kConnected, .kDisconnected => True
  | _, _ => False

def isClose : Effect → Bool
  | .close _ => true
  | _ => false

theorem liveTrace_effect {ss : List State} {t : List Effect} (h : LiveTrace fd ss t) {e : Effect}
    (he : e ∈ t) :
    e ≠ .closeCb ∧ isClose e = false ∧ e ≠ .nullChannel ∧ ∀ f, onFd e = some f → f = fd := by
  have := h.2 e he
  cases e <;> simp_all [liveEffect, isClose, onFd]

theorem trace_shape (h : Inv fd c) : ∃ pre ss, LiveTrace fd ss pre ∧
    (c.trace = pre ∧ c.state ≠ .kDisconnected ∨
      c.trace = pre ++ [.store .kDisconnected, .closeCb, .close fd] ∧
        c.state = .kDisconnected) := by
  cases hs : c.state <;> simp only [Inv, hs] at h
  · exact ⟨[], [], by simp [LiveTrace, stores], .inl ⟨h.2.2.2, by simp⟩⟩
  · exact ⟨c.trace, _, h.2.2, .inl ⟨rfl, by simp⟩⟩
  · exact ⟨c.trace, _, h.2.2, .inl ⟨rfl, by simp⟩⟩
  · obtain ⟨-, -, -, pre, hpre, ht⟩ := h
    exact ⟨pre, _, hpre, .inr ⟨ht, rfl⟩⟩

theorem stores_chain (h : Inv fd c) :
    List.Chain Edge .kConnecting (stores c.trace) ∧
      (stores c.trace).getLastD .kConnecting = c.state := by
  cases hs : c.state <;> simp only [Inv, hs] at h
  · simp [h.2.2.2, stores]
  · simp [h.2.2.1, Edge]
  · simp [h.2.2.1, Edge]
  · obtain ⟨-, -, -, pre, hpre, ht⟩ := h
    rw [ht, stores_append, hpre.1]
    simp [stores, stored?, Edge]

theorem teardown_once (h : Inv fd c) :
    c.trace.count .closeCb ≤ 1 ∧ c.trace.countP isClose ≤ 1 ∧
      (∀ e ∈ c.trace, isClose e = true → c.trace.getLast? = some e) ∧
      .nullChannel ∉ c.trace ∧ ∀ e ∈ c.trace, ∀ f, onFd e = some f → f = fd := by
  obtain ⟨pre, ss, hpre, hshape⟩ := trace_shape h
  have hcb : .closeCb ∉ pre := fun hm => (liveTrace_effect hpre hm).1 rfl
  have hcl : pre.countP isClose = 0 :=
    List.countP_eq_zero.mpr fun e he => by simp [(liveTrace_effect hpre he).2.1]
  have hnull : .nullChannel ∉ pre := fun hm => (liveTrace_effect hpre hm).2.2.1 rfl
  have hfds := fun e (he : e ∈ pre) => (liveTrace_effect hpre he).2.2.2
  rcases hshape with ⟨ht, -⟩ | ⟨ht, -⟩ <;> rw [ht]
  · refine ⟨by simp [List.count_eq_zero_of_not_mem hcb], by simp [hcl], fun e he hc => ?_,
      hnull, hfds⟩
    simp [(liveTrace_effect hpre he).2.1] at hc
  · refine ⟨by simp [List.count_eq_zero_of_not_mem hcb], by simp [hcl, isClose],
      fun e he hc => ?_, by simp [hnull], fun e he f hf => ?_⟩
    · rcases List.mem_append.mp he with he | he
      · simp [(liveTrace_effect hpre he).2.1] at hc
      · simp only [List.mem_cons, List.mem_singleton, List.not_mem_nil, or_false] at he
        rcases he with rfl | rfl | rfl
        · cases hc
        · cases hc
        · simp
    · rcases List.mem_append.mp he with he | he
      · exact hfds e he f hf
      · simp only [List.mem_cons, List.mem_singleton, List.not_mem_nil, or_false] at he
        rcases he with rfl | rfl | rfl
        · cases hf
        · cases hf
        · exact (Option.some.inj hf).symm

/-- What a connection on `fd` keeps to over its whole life. -/
structure LifecycleSafe (fd : Nat) (c : Conn) : Prop where
  forward : List.Chain Edge .kConnecting (stores c.trace)
  last_store : (stores c.trace).getLastD .kConnecting = c.state
  append_only : ∀ op, Enabled c op → c.trace <+: (step c op).trace
  close_cb_once : c.trace.count .closeCb ≤ 1
  close_once : c.trace.countP isClose ≤ 1
  live_armed : c.state = .kConnected ∨ c.state = .kDisconnecting →
    c.channel.isSome ∧ 0 ≤ c.connfd
  closed_released : .closeCb ∈ c.trace → c.channel = none ∧ c.connfd = -1
  no_null_channel : .nullChannel ∉ c.trace
  close_last : ∀ e ∈ c.trace, isClose e = true → c.trace.getLast? = some e
  own_fd : ∀ e ∈ c.trace, ∀ f, onFd e = some f → f = fd

theorem closed_of_closeCb (h : Inv fd c) (hm : .closeCb ∈ c.trace) :
    c.channel = none ∧ c.connfd = -1 := by
  cases hs : c.state <;> simp only [Inv, hs] at h
  · simp [h.2.2.2] at hm
  · exact absurd rfl (liveTrace_effect h.2.2 hm).1
  · exact absurd rfl (liveTrace_effect h.2.2 hm).1
  · exact ⟨h.2.1, h.1⟩

theorem armed_of_live (h : Inv fd c) (hs : c.state = .kConnected ∨ c.state = .kDisconnecting) :
    c.channel.isSome ∧ 0 ≤ c.connfd := by
  have harmed : Armed fd c := by rcases hs with hs | hs <;> simp only [Inv, hs] at h <;> exact h.2.1
  obtain ⟨ch, hch, -⟩ := harmed
  simp only [hch, Option.isSome_some, connfd_of_live h hs, true_and]
  omega

/-- Every reachable connection keeps to its lifecycle. -/
theorem connection_lifecycle {fd : Nat} {c : Conn} (h : Reachable fd c) : LifecycleSafe fd c := by
  have hinv := inv_of_reachable h
  obtain ⟨hcb, hcl, hlast, hnull, hfd⟩ := teardown_once hinv
  exact ⟨(stores_chain hinv).1, (stores_chain hinv).2, fun _ he => (follows_step hinv he).2,
    hcb, hcl, armed_of_live hinv, closed_of_closeCb hinv, hnull, hlast, hfd⟩

def closedByPeer : Conn :=
  step (step (Conn.init 7) (.connectEstablished [])) (.handleEvent epollRdHup .eof true [] .eagain)

theorem closedByPeer_lifecycle : Reachable 7 closedByPeer ∧ LifecycleSafe 7 closedByPeer := by
  have hr : Reachable 7 closedByPeer :=
    .step (.step .init (by decide)) (by decide)
  exact ⟨hr, connection_lifecycle hr⟩

end ReactorServer.Net.Lifecycle
