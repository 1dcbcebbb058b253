import ReactorServer.Net.Lifecycle

/-!
The half-close path: `shutdown`, then the peer's close.

`shutdownInLoop` moves a connection to `kDisconnecting`, and `handle_close` tears down only a
connection that is `kConnected`. So once a connection is `kDisconnecting`, no operation moves
it on: whatever event it then handles, a terminal one included, it keeps its channel
registered with its loop, `close_cb_` is not invoked and its descriptor is not closed.
-/

set_option autoImplicit false
set_option relaxedAutoImplicit false

namespace ReactorServer.Net.Shutdown

open ReactorServer.Memory.Buffer ReactorServer.Net.Interest ReactorServer.Net.Connection
open ReactorServer.Net.Lifecycle

variable {fd : Nat} {c : Conn}

theorem stores_eq (h : Lifecycle.Inv fd c) :
    stores c.trace = match c.state with
      | .kConnecting => []
      | .kConnected => [.kConnected]
      | .kDisconnecting => [.kConnected, .kDisconnecting]
      | .kDisconnected => [.kConnected, .kDisconnected] := by
  cases hs : c.state <;> simp only [Lifecycle.Inv, hs] at h ⊢
  · simp [h.2.2.2, stores]
  · exact h.2.2.1
  · exact h.2.2.1
  · obtain ⟨-, -, -, pre, hpre, ht⟩ := h
    rw [ht, stores_append, hpre.1]
    simp [stores, stored?]

theorem disconnecting_of_follows {c' : Conn} (h : Follows fd c c') (hc : Lifecycle.Inv fd c)
    (hs : c.state = .kDisconnecting) : c'.state = .kDisconnecting := by
  have hpre : stores c.trace <+: stores c'.trace := by
    obtain ⟨t, ht⟩ := h.2
    exact ⟨stores t, by rw [← ht, stores_append]⟩
  rw [stores_eq hc, stores_eq h.1, hs] at hpre
  cases hs' : c'.state <;> simp_all

/-- A `kDisconnecting` connection that handles any event, a terminal one included, stays
`kDisconnecting`, stays registered with its loop under a nonzero mask, has not invoked
`close_cb_` and has not closed its descriptor. -/
theorem disconnecting_survives_event (h : Reachable fd c) (hs : c.state = .kDisconnecting)
    (events : UInt32) (r : ReadResult) (readPool : Bool) (acts : List UserAction)
    (w : WriteResult) :
    (handleEvent events r readPool acts w c).state = .kDisconnecting ∧
      (handleEvent events r readPool acts w c).reg.inChannels = true ∧
      (∃ m, (handleEvent events r readPool acts w c).reg.interest = some m ∧ m ≠ 0) ∧
      .closeCb ∉ (handleEvent events r readPool acts w c).trace ∧
      (handleEvent events r readPool acts w c).trace.countP isClose = 0 := by
  have hc := inv_of_reachable h
  have hf : Follows fd c (handleEvent events r readPool acts w c) :=
    follows_handleEvent hc (by simp [hs])
  have hs' := disconnecting_of_follows hf hc hs
  have hinv := hf.1
  simp only [Lifecycle.Inv, hs'] at hinv
  obtain ⟨-, ⟨ch, -, -, hm, hreg⟩, hlive⟩ := hinv
  refine ⟨hs', by simp [hreg], ⟨ch.events, by simp [hreg], armedMask_ne_zero hm⟩,
    fun hcb => (liveTrace_effect hlive hcb).1 rfl, ?_⟩
  exact List.countP_eq_zero.mpr fun e he => by simp [(liveTrace_effect hlive he).2.1]

def shutDownConn : Conn :=
  step (step (step (Conn.init 7) (.connectEstablished [])) .queueShutdown) (.runTask .eagain true)

theorem shutDownConn_reachable : Reachable 7 shutDownConn :=
  .step (.step (.step .init (by decide)) (by decide)) (by decide)

/-- The peer's close (`EPOLLRDHUP`) after `shutdown()` leaves the connection registered. -/
theorem peer_close_after_shutdown :
    shutDownConn.state = .kDisconnecting ∧
      (handleEvent epollRdHup .eof true [] .eagain shutDownConn).state = .kDisconnecting ∧
      (handleEvent epollRdHup .eof true [] .eagain shutDownConn).reg.inChannels = true ∧
      (∃ m, (handleEvent epollRdHup .eof true [] .eagain shutDownConn).reg.interest = some m ∧
        m ≠ 0) ∧
      .closeCb ∉ (handleEvent epollRdHup .eof true [] .eagain shutDownConn).trace ∧
      (handleEvent epollRdHup .eof true [] .eagain shutDownConn).trace.countP isClose = 0 :=
  have hs : shutDownConn.state = .kDisconnecting := by decide
  ⟨hs, disconnecting_survives_event shutDownConn_reachable hs epollRdHup .eof true [] .eagain⟩

end ReactorServer.Net.Shutdown
