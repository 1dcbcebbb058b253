import Mathlib.Data.List.Basic

/-!
`Acceptor::do_accept` and the `idle_fd_` rescue (`src/net/Acceptor.cpp`).

The kernel is modelled as `do_accept` sees it when no connection arrives and no other thread
opens or closes a descriptor: the connections pending on the listening socket, how many
descriptors the process holds and its limit, and whether `idle_fd_` holds an open descriptor
(the constructor's `open("/dev/null")` is not checked, so it may hold `-1`). An `EINTR` makes
the loop repeat the same call, and finitely many of them only delay it, so they are left out;
with only `EAGAIN` and `EMFILE` as errors, the loop's other `break` is never taken. The counts
`handed` and `closed` record what became of the connections taken off the backlog.

Linux reserves the new descriptor before it looks at the queue, so a full table answers
`EMFILE` even with nothing pending. With room in the table for every connection handed on,
`do_accept` returns with the backlog empty (`doAccept_drains`). Once the table is full it
never returns: with `idle_fd_` at `-1` a pass changes nothing (`doAccept_spins`), and with
`idle_fd_` open the rescue closes it, finds nothing to accept and reopens `/dev/null`, so a
burst of connections that fills the table leaves the acceptor thread spinning
(`doAccept_spins_after_burst`).
-/

set_option autoImplicit false
set_option relaxedAutoImplicit false

namespace ReactorServer.Net.AcceptLoop

/-- The kernel as `do_accept` sees it. -/
structure Kernel where
  backlog : Nat
  openFds : Nat
  limit : Nat
  idleOpen : Bool
  handed : Nat
  closed : Nat
  deriving DecidableEq, Repr

/-- What `accept4` or `accept` on the listening socket answers. -/
inductive AcceptResult
  | fd
  | eagain
  | emfile
  deriving DecidableEq, Repr

/-- `accept4`, or `accept`: the new descriptor is reserved first, so a full table gives
`EMFILE`; then `EAGAIN` with nothing pending, or a descriptor for the oldest pending
connection. -/
def accept (k : Kernel) : AcceptResult × Kernel :=
  if k.limit ≤ k.openFds then (.emfile, k)
  else if k.backlog = 0 then (.eagain, k)
  else (.fd, { k with backlog := k.backlog - 1, openFds := k.openFds + 1 })

/-- `::close` of a descriptor the process holds. -/
def closeFd (k : Kernel) : Kernel := { k with openFds := k.openFds - 1 }

/-- The `EMFILE` branch: `close(idle_fd_)`, which fails with `EBADF` on `-1`; an `accept` whose
descriptor, if any, is closed at once; and the unchecked `open("/dev/null")`, which leaves `-1`
when the table is full. -/
def emfileRescue (k : Kernel) : Kernel :=
  let k := if k.idleOpen then { closeFd k with idleOpen := false } else k
  let k := match accept k with
    | (.fd, k) => { closeFd k with closed := k.closed + 1 }
    | (_, k) => k
  if k.openFds < k.limit then { k with openFds := k.openFds + 1, idleOpen := true }
  else { k with idleOpen := false }

/-- How one pass of `while (true)` ends: with `continue` or with `break`. -/
inductive Pass
  | next (k : Kernel)
  | done (k : Kernel)

/-- One pass of the loop of `do_accept`; `loopOk` says whether `get_next_loop()` returns a
loop. A connection given to a loop keeps its descriptor open. -/
def acceptPass (loopOk : Bool) (k : Kernel) : Pass :=
  match accept k with
  | (.eagain, k) => .done k
  | (.emfile, k) => .next (emfileRescue k)
  | (.fd, k) =>
    if loopOk then .next { k with handed := k.handed + 1 }
    else .next { closeFd k with closed := k.closed + 1 }

/-- `Acceptor::do_accept`, run for at most `fuel` passes: the kernel when it returns. -/
def doAccept (loopOk : Bool) : Nat → Kernel → Option Kernel
  | 0, _ => none
  | fuel + 1, k =>
    match acceptPass loopOk k with
    | .done k => some k
    | .next k => doAccept loopOk fuel k

variable {k : Kernel}

theorem accept_of_full (hfull : k.limit ≤ k.openFds) : accept k = (.emfile, k) := if_pos hfull

theorem accept_of_empty (hroom : k.openFds < k.limit) (hb : k.backlog = 0) :
    accept k = (.eagain, k) := by
  simp [accept, Nat.not_le.mpr hroom, hb]

theorem accept_of_pending (hroom : k.openFds < k.limit) (hb : 0 < k.backlog) :
    accept k = (.fd, { k with backlog := k.backlog - 1, openFds := k.openFds + 1 }) := by
  simp [accept, Nat.not_le.mpr hroom, Nat.pos_iff_ne_zero.mp hb]

theorem doAccept_of_loop {loopOk : Bool} {P : Kernel → Prop}
    (hstep : ∀ k, P k → ∃ k', acceptPass loopOk k = .next k' ∧ P k') (hk : P k) (fuel : Nat) :
    doAccept loopOk fuel k = none := by
  induction fuel generalizing k with
  | zero => rfl
  | succ fuel ih =>
    obtain ⟨k', hpass, hk'⟩ := hstep k hk
    simp only [doAccept, hpass, ih hk']

/-! ## With `idle_fd_` at `-1` -/

theorem acceptPass_spin (loopOk : Bool) (hidle : k.idleOpen = false)
    (hfull : k.limit ≤ k.openFds) : acceptPass loopOk k = .next k := by
  have hk : { k with idleOpen := false } = k := by
    cases k
    simp_all
  simp only [acceptPass, accept_of_full hfull, emfileRescue, hidle, Bool.false_eq_true, if_false,
    Nat.not_lt.mpr hfull, hk]

/-- With `idle_fd_` at `-1`, a full descriptor table and a connection pending, `do_accept`
does not return, however many passes it is given: the acceptor thread spins. -/
theorem doAccept_spins (loopOk : Bool) (k : Kernel) (hidle : k.idleOpen = false)
    (hfull : k.limit ≤ k.openFds) (hb : 0 < k.backlog) (fuel : Nat) :
    doAccept loopOk fuel k = none :=
  doAccept_of_loop (P := fun k => k.idleOpen = false ∧ k.limit ≤ k.openFds ∧ 0 < k.backlog)
    (fun k hk => ⟨k, acceptPass_spin loopOk hk.1 hk.2.1, hk⟩) ⟨hidle, hfull, hb⟩ fuel

/-- A process at its limit of 1024 descriptors whose `idle_fd_` is `-1`, with one connection
pending. -/
theorem doAccept_spins_at_limit :
    doAccept true 1000 ⟨1, 1024, 1024, false, 0, 0⟩ = none :=
  doAccept_spins true _ rfl (by decide) (by decide) 1000

/-! ## With room in the table -/

theorem acceptPass_of_empty (loopOk : Bool) (hroom : k.openFds < k.limit) (hb : k.backlog = 0) :
    acceptPass loopOk k = .done k := by
  simp [acceptPass, accept_of_empty hroom hb]

theorem acceptPass_of_room (loopOk : Bool) (hroom : k.openFds < k.limit) (hb : 0 < k.backlog) :
    acceptPass loopOk k = .next (if loopOk then
        { k with backlog := k.backlog - 1, openFds := k.openFds + 1, handed := k.handed + 1 }
      else { k with backlog := k.backlog - 1, closed := k.closed + 1 }) := by
  cases loopOk <;> simp [acceptPass, accept_of_pending hroom hb, closeFd]

theorem acceptPass_room_progress (loopOk : Bool) (hroom : k.openFds < k.limit) (hb : 0 < k.backlog) :
    ∃ k', acceptPass loopOk k = .next k' ∧ k'.backlog = k.backlog - 1 ∧ k'.limit = k.limit ∧
      k'.handed + k'.closed = k.handed + k.closed + 1 ∧
      k'.openFds + (if loopOk then k'.backlog else 0) = k.openFds + (if loopOk then k.backlog else 0) := by
  refine ⟨_, acceptPass_of_room loopOk hroom hb, ?_⟩
  cases loopOk <;> simp <;> omega

/-- With room in the table for every pending connection a loop keeps, `do_accept` returns
within `backlog + 1` passes, with the backlog empty and every pending connection handed to a
loop or closed. -/
theorem doAccept_drains (loopOk : Bool) (k : Kernel)
    (hroom : k.openFds + (if loopOk then k.backlog else 0) < k.limit) :
    ∃ k', doAccept loopOk (k.backlog + 1) k = some k' ∧ k'.backlog = 0 ∧
      k'.handed + k'.closed = k.handed + k.closed + k.backlog := by
  obtain ⟨n, hn⟩ : ∃ n, k.backlog = n := ⟨_, rfl⟩
  have hr : k.openFds < k.limit := by split_ifs at hroom <;> omega
  induction n generalizing k with
  | zero => exact ⟨k, by simp [doAccept, acceptPass_of_empty loopOk hr hn, hn], hn, by omega⟩
  | succ n ih =>
    obtain ⟨k', hpass, hb', hl', hc', hsum⟩ := acceptPass_room_progress loopOk hr (by omega)
    have hroom' : k'.openFds + (if loopOk then k'.backlog else 0) < k'.limit := by
      rw [hsum, hl']
      exact hroom
    obtain ⟨k'', hrun, hb'', hc''⟩ := ih k' hroom' (by omega) (by split_ifs at hroom' <;> omega)
    have hk' : k'.backlog = n := by omega
    rw [hk'] at hrun
    refine ⟨k'', ?_, hb'', by omega⟩
    rw [hn, doAccept.eq_2, hpass]
    exact hrun

/-- A process four descriptors short of its limit, with `idle_fd_` open and three connections
pending, each handed to a loop. -/
theorem doAccept_drains_three :
    1020 + (if true then 3 else 0) < 1024 ∧
      ∃ k', doAccept true (3 + 1) ⟨3, 1020, 1024, true, 0, 0⟩ = some k' ∧ k'.backlog = 0 ∧
        k'.handed + k'.closed = 0 + 0 + 3 :=
  ⟨by decide, doAccept_drains true ⟨3, 1020, 1024, true, 0, 0⟩ (by decide)⟩

/-! ## With `idle_fd_` open and the table full -/

/-- `idle_fd_` is open and the process is within its limit. -/
structure Rescuable (k : Kernel) : Prop where
  idle : k.idleOpen = true
  pos : 0 < k.openFds
  le : k.openFds ≤ k.limit

theorem acceptPass_full (loopOk : Bool) (h : Rescuable k) (hfull : k.openFds = k.limit) :
    acceptPass loopOk k = .next (if k.backlog = 0 then k
      else { k with backlog := k.backlog - 1, closed := k.closed + 1 }) := by
  obtain ⟨backlog, openFds, limit, idleOpen, handed, closed⟩ := k
  obtain ⟨hidle, hpos, -⟩ := h
  simp only at hidle hpos hfull ⊢
  subst hidle hfull
  have h1 : ¬ openFds ≤ openFds - 1 := by omega
  have h2 : openFds - 1 < openFds := by omega
  have h3 : openFds - 1 + 1 = openFds := by omega
  by_cases hb : backlog = 0 <;> simp [acceptPass, accept, emfileRescue, closeFd, hb, h1, h2, h3]

theorem acceptPass_burst (h : Rescuable k) (hfill : k.limit ≤ k.openFds + k.backlog) :
    ∃ k', acceptPass true k = .next k' ∧ Rescuable k' ∧ k'.limit ≤ k'.openFds + k'.backlog := by
  rcases Nat.lt_or_ge k.openFds k.limit with hroom | hfull
  · refine ⟨_, acceptPass_of_room true hroom (by omega), ⟨h.idle, by simp, by simp; omega⟩, ?_⟩
    simp only [if_true]
    omega
  · refine ⟨_, acceptPass_full true h (by have := h.le; omega), ?_⟩
    split_ifs
    · exact ⟨h, hfill⟩
    · exact ⟨⟨h.idle, h.pos, h.le⟩, by simp; omega⟩

/-- With `idle_fd_` open and loops to hand connections to, a burst of pending connections that
fills the descriptor table keeps `do_accept` from returning, however many passes it is given:
it takes the connections, and once the backlog is empty every pass closes `idle_fd_`, finds
nothing and reopens `/dev/null`. -/
theorem doAccept_spins_after_burst (k : Kernel) (h : Rescuable k)
    (hfill : k.limit ≤ k.openFds + k.backlog) (fuel : Nat) : doAccept true fuel k = none :=
  doAccept_of_loop (P := fun k => Rescuable k ∧ k.limit ≤ k.openFds + k.backlog)
    (fun _ hk => (acceptPass_burst hk.1 hk.2).imp fun _ hk' => ⟨hk'.1, hk'.2⟩) ⟨h, hfill⟩ fuel

/-- A process one descriptor short of its limit, with `idle_fd_` open and three connections
pending. -/
theorem burst_of_three_spins :
    1024 ≤ 1023 + 3 ∧ doAccept true 1000 ⟨3, 1023, 1024, true, 0, 0⟩ = none :=
  ⟨by decide, doAccept_spins_after_burst ⟨3, 1023, 1024, true, 0, 0⟩ ⟨rfl, by decide, by decide⟩
    (by decide) 1000⟩

end ReactorServer.Net.AcceptLoop
