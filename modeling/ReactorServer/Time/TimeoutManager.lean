import Mathlib
import ReactorServer.FdMap

/-!
The idle-connection manager (`ConnectionTimeoutManager.cpp`): a timing wheel of `wheel_size_`
slots, turned one slot per tick by the ticker thread.

`ConnectionEntry` objects live on the heap and are shared between `connections_` (descriptor to
entry) and the slots of `time_wheel_`; here the heap is a list and an entry is known by its
index. The steady clock is `now`, in milliseconds, and advances by `tick_interval_ms_` per tick,
the way the ticker sleeps; the other operations happen between ticks, at the clock's value.
Each public operation is one step. Where the code reads `conn->fd()` after the entry was made,
the connection's descriptor at that moment is a parameter (`fdOf`): `handle_close` sets it to
`-1`. `timedOut` lists the connections passed to the timeout callback, in order.

A connection added and never touched again is passed to the callback at the tick
`expiryTick` (`timedOut_iff_expiryTick`): the entry's slot is visited once per `wheel_size_`
ticks, and each visit only counts `remaining_ticks` down, so the wait is about `wheel_size_`
times the idle timeout. `remove_connection` leaves the entry in the wheel, so a removed
connection is still passed to the callback, at the same tick (`removed_connection_times_out`).
-/

set_option autoImplicit false
set_option relaxedAutoImplicit false

namespace ReactorServer.Time.TimeoutManager

open ReactorServer.FdMap (lookup eraseKey)

/-- `ConnectionEntry`: the connection, the slot it was put in, the visits of that slot it still
waits out, and its last activity. -/
structure ConnectionEntry where
  conn : Nat
  slotPosition : Nat
  remainingTicks : Nat
  lastActivityTime : Nat
  deriving DecidableEq, Repr

structure Manager where
  idleTimeoutMs : Nat
  wheelSize : Nat
  tickIntervalMs : Nat
  currentSlot : Nat
  now : Nat
  heap : List ConnectionEntry
  connections : List (Int × Nat)
  wheel : Nat → List Nat
  totalConnections : Nat
  timedOut : List Nat

def incr (x : Nat) : Nat := (x + 1) % 2 ^ 64

/-- `fetch_sub(1)` on the `size_t` counter: `0` wraps to `SIZE_MAX`. -/
def decr (x : Nat) : Nat := (x + (2 ^ 64 - 1)) % 2 ^ 64

/-- What one pass of `process_timeout_connections` does to a live entry of the current slot:
count a visit down, or find it expired (`none`), or leave it. -/
def visit (idleTimeoutMs now : Nat) (e : ConnectionEntry) : Option ConnectionEntry :=
  if 0 < e.remainingTicks then some { e with remainingTicks := e.remainingTicks - 1 }
  else if idleTimeoutMs ≤ now - e.lastActivityTime then none
  else some e

/-- The scan of `process_timeout_connections` over a slot: the entries it keeps, the entries
it erases as expired, and the heap after its decrements. -/
def scanSlot (idleTimeoutMs now : Nat) :
    List Nat → List ConnectionEntry → List Nat × List Nat × List ConnectionEntry
  | [], heap => ([], [], heap)
  | a :: rest, heap =>
    match heap[a]? with
    | none => scanSlot idleTimeoutMs now rest heap
    | some e =>
      match visit idleTimeoutMs now e with
      | some e' =>
        let r := scanSlot idleTimeoutMs now rest (heap.set a e')
        (a :: r.1, r.2.1, r.2.2)
      | none =>
        let r := scanSlot idleTimeoutMs now rest heap
        (r.1, a :: r.2.1, r.2.2)

namespace Manager

/-- The constructor, with its defaults for arguments that are not positive. -/
def create (idleTimeoutMs wheelSize tickIntervalMs : Int) : Manager where
  idleTimeoutMs := if idleTimeoutMs ≤ 0 then 300000 else idleTimeoutMs.toNat
  wheelSize := if wheelSize ≤ 0 then 60 else wheelSize.toNat
  tickIntervalMs := if tickIntervalMs ≤ 0 then 1000 else tickIntervalMs.toNat
  currentSlot := 0
  now := 0
  heap := []
  connections := []
  wheel := fun _ => []
  totalConnections := 0
  timedOut := []

/-- `calculate_slot` in the code's `int` arithmetic. `ticks_remaining` fits an `int`, but the sum
`current_slot_ + ticks_remaining` wraps modulo `2^32` past `INT_MAX` (what compilers do with the
signed overflow), and `%` truncates toward zero, so a wrapped sum gives a negative slot. -/
def calculateSlotInt (m : Manager) (lastActivityTime : Nat) : Int :=
  let elapsedMs := m.now - lastActivityTime
  let ticksRemaining := (m.idleTimeoutMs - elapsedMs) / m.tickIntervalMs
  Int.tmod (Int.bmod ((m.currentSlot : Int) + (ticksRemaining : Nat)) (2 ^ 32)) m.wheelSize

/-- `calculate_slot` as the manager uses it: the slot `(idle_timeout_ms_ - elapsed) /
tick_interval_ms_` ticks ahead, or the current one once the timeout has passed, with the sum
taken in `Nat`. It is `calculateSlotInt` while the sum fits an `int`, as on every run whose
timeouts keep `wheel_size_ - 1 + idle_timeout_ms_ / tick_interval_ms_` within `INT_MAX`
(`wheel_index_in_range`); past `INT_MAX` the two part (`calculateSlotInt_after_overflow`). -/
def calculateSlot (m : Manager) (lastActivityTime : Nat) : Nat :=
  let elapsedMs := m.now - lastActivityTime
  let ticksRemaining := (m.idleTimeoutMs - elapsedMs) / m.tickIntervalMs
  (m.currentSlot + ticksRemaining) % m.wheelSize

/-- `add_connection` of the connection `conn`, whose descriptor is `fd`. -/
def addConnection (m : Manager) (conn : Nat) (fd : Int) : Manager :=
  if fd ≤ 0 then m
  else
    let slotPos := m.calculateSlot m.now
    let ticksNeeded := m.idleTimeoutMs / m.tickIntervalMs
    if (lookup m.connections fd).isSome then m
    else
      let a := m.heap.length
      { m with
        heap := m.heap ++ [⟨conn, slotPos, ticksNeeded, m.now⟩],
        connections := m.connections ++ [(fd, a)],
        totalConnections := incr m.totalConnections,
        wheel := Function.update m.wheel slotPos (m.wheel slotPos ++ [a]) }

def setEntry (m : Manager) (a : Nat) (e : ConnectionEntry) : Manager :=
  { m with heap := m.heap.set a e }

def moveToNewSlot (m : Manager) (a : Nat) : Manager :=
  match m.heap[a]? with
  | none => m
  | some e =>
    let newSlotPos := m.calculateSlot e.lastActivityTime
    let ticks := m.idleTimeoutMs / m.tickIntervalMs
    if newSlotPos = e.slotPosition then m.setEntry a { e with remainingTicks := ticks }
    else
      let m' := { m.setEntry a { e with slotPosition := newSlotPos, remainingTicks := ticks } with
        wheel := Function.update m.wheel e.slotPosition ((m.wheel e.slotPosition).filter (· != a)) }
      { m' with wheel := Function.update m'.wheel newSlotPos (m'.wheel newSlotPos ++ [a]) }

def updateActivity (m : Manager) (fd : Int) : Manager :=
  match lookup m.connections fd with
  | none => m
  | some a =>
    match m.heap[a]? with
    | none => m
    | some e => (m.setEntry a { e with lastActivityTime := m.now }).moveToNewSlot a

/-- `remove_connection(fd)`: the entry stays in its slot. -/
def removeConnection (m : Manager) (fd : Int) : Manager :=
  match lookup m.connections fd with
  | none => m
  | some _ =>
    { m with connections := eraseKey m.connections fd, totalConnections := decr m.totalConnections }

/-- `set_idle_timeout`: a timeout that is not positive is refused. -/
def setIdleTimeout (m : Manager) (idleTimeoutMs : Int) : Manager :=
  if idleTimeoutMs ≤ 0 then m else { m with idleTimeoutMs := idleTimeoutMs.toNat }

def resetAll (m : Manager) : Manager :=
  m.connections.foldl (fun m' p =>
    match m'.heap[p.2]? with
    | none => m'
    | some e => (m'.setEntry p.2 { e with lastActivityTime := m'.now }).moveToNewSlot p.2) m

/-- The handling of one expired entry: `connections_.erase(conn->fd())`, the counter, and the
timeout callback. -/
def expire (fdOf : Nat → Int) (m : Manager) (a : Nat) : Manager :=
  match m.heap[a]? with
  | none => m
  | some e =>
    { m with
      connections := eraseKey m.connections (fdOf e.conn),
      totalConnections := decr m.totalConnections,
      timedOut := m.timedOut ++ [e.conn] }

def processTimeoutConnections (m : Manager) (fdOf : Nat → Int) : Manager :=
  let r := scanSlot m.idleTimeoutMs m.now (m.wheel m.currentSlot) m.heap
  r.2.1.foldl (expire fdOf)
    { m with heap := r.2.2, wheel := Function.update m.wheel m.currentSlot r.1 }

/-- One turn of `time_wheel_loop`: process the current slot, move to the next, and sleep one
tick interval. -/
def tick (m : Manager) (fdOf : Nat → Int) : Manager :=
  let m' := m.processTimeoutConnections fdOf
  { m' with currentSlot := (m'.currentSlot + 1) % m'.wheelSize, now := m'.now + m'.tickIntervalMs }

/-- `cleanup_closed_connections`; `connected c` is `c->is_connected()`. -/
def cleanupClosedConnections (m : Manager) (connected : Nat → Bool) (fdOf : Nat → Int) :
    Manager :=
  let closedConns := m.connections.filterMap fun p =>
    match m.heap[p.2]? with
    | none => some p.1
    | some e => if connected e.conn then none else some p.1
  closedConns.foldl (fun m' connId =>
    let m'' := m'.removeConnection connId
    { m'' with wheel := fun s => (m''.wheel s).filter fun a =>
        match m''.heap[a]? with
        | none => true
        | some e => fdOf e.conn != connId }) m

def ticks (m : Manager) (fs : List (Nat → Int)) : Manager := fs.foldl tick m

def occupancy (m : Manager) : Nat := ∑ s ∈ Finset.range m.wheelSize, (m.wheel s).length

end Manager

open Manager

/-! ### One tick, seen from one entry -/

section Scan

variable {idle now : Nat}

theorem visit_conn {e e' : ConnectionEntry} (h : visit idle now e = some e') :
    e'.conn = e.conn ∧ e'.slotPosition = e.slotPosition := by
  unfold visit at h
  split_ifs at h <;> cases h <;> exact ⟨rfl, rfl⟩

theorem scanSlot_sub (l : List Nat) (heap : List ConnectionEntry) :
    (∀ b ∈ (scanSlot idle now l heap).1, b ∈ l) ∧ ∀ b ∈ (scanSlot idle now l heap).2.1, b ∈ l := by
  induction l generalizing heap with
  | nil => simp [scanSlot]
  | cons a rest ih =>
    simp only [scanSlot]
    split
    · exact ⟨fun b hb => .tail _ ((ih heap).1 b hb), fun b hb => .tail _ ((ih heap).2 b hb)⟩
    · split
      · refine ⟨fun b hb => ?_, fun b hb => .tail _ ((ih _).2 b hb)⟩
        rcases List.mem_cons.1 hb with rfl | hb
        · exact .head _
        · exact .tail _ ((ih _).1 b hb)
      · refine ⟨fun b hb => .tail _ ((ih heap).1 b hb), fun b hb => ?_⟩
        rcases List.mem_cons.1 hb with rfl | hb
        · exact .head _
        · exact .tail _ ((ih heap).2 b hb)

theorem scanSlot_heap_of_not_mem {b : Nat} (l : List Nat) (heap : List ConnectionEntry)
    (hb : b ∉ l) : (scanSlot idle now l heap).2.2[b]? = heap[b]? := by
  induction l generalizing heap with
  | nil => rfl
  | cons a rest ih =>
    have hba : a ≠ b := fun h => hb (h ▸ .head _)
    have hrest : b ∉ rest := fun h => hb (.tail _ h)
    simp only [scanSlot]
    split
    · exact ih heap hrest
    · split
      · rw [ih _ hrest, List.getElem?_set_ne hba]
      · exact ih heap hrest

theorem scanSlot_conn (l : List Nat) (heap : List ConnectionEntry) {b : Nat} {f : ConnectionEntry}
    (hf : (scanSlot idle now l heap).2.2[b]? = some f) : ∃ f₀, heap[b]? = some f₀ ∧ f.conn = f₀.conn := by
  induction l generalizing heap with
  | nil => exact ⟨f, hf, rfl⟩
  | cons a rest ih =>
    simp only [scanSlot] at hf
    split at hf
    · exact ih heap hf
    · rename_i e he
      split at hf
      · rename_i e' hv
        obtain ⟨f₁, h₁, hc⟩ := ih _ hf
        by_cases hab : a = b
        · subst hab
          rw [List.getElem?_set_self (List.getElem?_eq_some_iff.1 he).1] at h₁
          cases h₁
          exact ⟨e, he, hc.trans (visit_conn hv).1⟩
        · rw [List.getElem?_set_ne hab] at h₁
          exact ⟨f₁, h₁, hc⟩
      · exact ih heap hf

theorem scanSlot_length (l : List Nat) (heap : List ConnectionEntry) :
    (scanSlot idle now l heap).1.length + (scanSlot idle now l heap).2.1.length ≤ l.length := by
  induction l generalizing heap with
  | nil => simp [scanSlot]
  | cons a rest ih =>
    simp only [scanSlot]
    split
    · have := ih heap
      simp only [List.length_cons]
      omega
    · split
      · have := ih (heap.set a ‹_›)
        simp only [List.length_cons]
        omega
      · have := ih heap
        simp only [List.length_cons]
        omega

theorem scanSlot_once_some {a : Nat} {e e' : ConnectionEntry} (hv : visit idle now e = some e')
    (l : List Nat) (heap : List ConnectionEntry) (hl : l.count a = 1) (he : heap[a]? = some e) :
    (scanSlot idle now l heap).2.2[a]? = some e' ∧ (scanSlot idle now l heap).1.count a = 1 ∧
      a ∉ (scanSlot idle now l heap).2.1 := by
  induction l generalizing heap with
  | nil => simp at hl
  | cons b rest ih =>
    simp only [scanSlot]
    by_cases hab : b = a
    · subst hab
      have hrest : b ∉ rest := by
        rw [List.count_cons_self] at hl; exact List.count_eq_zero.1 (by omega)
      simp only [he, hv]
      refine ⟨?_, ?_, fun h => hrest ((scanSlot_sub rest _).2 b h)⟩
      · rw [scanSlot_heap_of_not_mem _ _ hrest,
          List.getElem?_set_self (List.getElem?_eq_some_iff.1 he).1]
      · rw [List.count_cons_self,
          List.count_eq_zero_of_not_mem fun h => hrest ((scanSlot_sub rest _).1 b h)]
    · rw [List.count_cons_of_ne (Ne.symm hab)] at hl
      cases hb : heap[b]? with
      | none => exact ih heap hl he
      | some f =>
        cases hf : visit idle now f with
        | some f' =>
          simp only [hf]
          obtain ⟨h1, h2, h3⟩ := ih (heap.set b f') hl (by rw [List.getElem?_set_ne hab]; exact he)
          exact ⟨h1, by rw [List.count_cons_of_ne (Ne.symm hab)]; exact h2, h3⟩
        | none =>
          simp only [hf]
          obtain ⟨h1, h2, h3⟩ := ih heap hl he
          exact ⟨h1, h2, fun h => (List.mem_cons.1 h).elim (fun h' => hab h'.symm) h3⟩

theorem scanSlot_once_none {a : Nat} {e : ConnectionEntry} (hv : visit idle now e = none)
    (l : List Nat) (heap : List ConnectionEntry) (hl : l.count a = 1) (he : heap[a]? = some e) :
    (scanSlot idle now l heap).2.2[a]? = some e ∧ a ∉ (scanSlot idle now l heap).1 ∧
      a ∈ (scanSlot idle now l heap).2.1 := by
  induction l generalizing heap with
  | nil => simp at hl
  | cons b rest ih =>
    simp only [scanSlot]
    by_cases hab : b = a
    · subst hab
      have hrest : b ∉ rest := by
        rw [List.count_cons_self] at hl; exact List.count_eq_zero.1 (by omega)
      simp only [he, hv]
      exact ⟨by rw [scanSlot_heap_of_not_mem _ _ hrest, he],
        fun h => hrest ((scanSlot_sub rest _).1 b h), .head _⟩
    · rw [List.count_cons_of_ne (Ne.symm hab)] at hl
      cases hb : heap[b]? with
      | none => exact ih heap hl he
      | some f =>
        cases hf : visit idle now f with
        | some f' =>
          simp only [hf]
          obtain ⟨h1, h2, h3⟩ := ih (heap.set b f') hl (by rw [List.getElem?_set_ne hab]; exact he)
          exact ⟨h1, fun h => (List.mem_cons.1 h).elim (fun h' => hab h'.symm) h2, h3⟩
        | none =>
          simp only [hf]
          obtain ⟨h1, h2, h3⟩ := ih heap hl he
          exact ⟨h1, h2, .tail _ h3⟩

end Scan

/-! ### A tick -/

theorem foldl_expire (fdOf : Nat → Int) (l : List Nat) (m : Manager) :
    ∃ conns total, l.foldl (expire fdOf) m =
      { m with
        connections := conns,
        totalConnections := total,
        timedOut := m.timedOut ++ l.filterMap fun a => m.heap[a]?.map ConnectionEntry.conn } := by
  induction l generalizing m with
  | nil => exact ⟨m.connections, m.totalConnections, by simp⟩
  | cons a rest ih =>
    simp only [List.foldl_cons, List.filterMap_cons]
    cases ha : m.heap[a]? with
    | none =>
      have hexp : expire fdOf m a = m := by simp [expire, ha]
      simpa [hexp] using ih m
    | some e =>
      have hexp : expire fdOf m a =
          { m with
            connections := eraseKey m.connections (fdOf e.conn),
            totalConnections := decr m.totalConnections,
            timedOut := m.timedOut ++ [e.conn] } := by simp [expire, ha]
      obtain ⟨conns, total, h⟩ := ih (expire fdOf m a)
      refine ⟨conns, total, ?_⟩
      rw [h, hexp]
      simp

theorem tick_eq (m : Manager) (fdOf : Nat → Int) :
    ∃ conns total, m.tick fdOf =
      let r := scanSlot m.idleTimeoutMs m.now (m.wheel m.currentSlot) m.heap
      { m with
        heap := r.2.2,
        wheel := Function.update m.wheel m.currentSlot r.1,
        connections := conns,
        totalConnections := total,
        timedOut := m.timedOut ++ r.2.1.filterMap fun a => r.2.2[a]?.map ConnectionEntry.conn,
        currentSlot := (m.currentSlot + 1) % m.wheelSize,
        now := m.now + m.tickIntervalMs } := by
  obtain ⟨conns, total, h⟩ := foldl_expire fdOf
    (scanSlot m.idleTimeoutMs m.now (m.wheel m.currentSlot) m.heap).2.1
    { m with
      heap := (scanSlot m.idleTimeoutMs m.now (m.wheel m.currentSlot) m.heap).2.2,
      wheel := Function.update m.wheel m.currentSlot
        (scanSlot m.idleTimeoutMs m.now (m.wheel m.currentSlot) m.heap).1 }
  exact ⟨conns, total, by simp only [tick, processTimeoutConnections, h]⟩

theorem tick_timedOut_grows (m : Manager) (fdOf : Nat → Int) :
    m.timedOut <+: (m.tick fdOf).timedOut := by
  obtain ⟨conns, total, h⟩ := tick_eq m fdOf
  rw [h]
  exact List.prefix_append _ _

theorem ticks_timedOut_grows (fs : List (Nat → Int)) (m : Manager) :
    m.timedOut <+: (m.ticks fs).timedOut := by
  induction fs generalizing m with
  | nil => exact List.prefix_refl _
  | cons f fs ih => exact (tick_timedOut_grows m f).trans (ih (m.tick f))

theorem foldl_expire_counter (fdOf : Nat → Int) (l : List Nat) {m : Manager}
    (h : m.totalConnections < 2 ^ 64) :
    (l.foldl (expire fdOf) m).totalConnections < 2 ^ 64 ∧
      ((l.foldl (expire fdOf) m).totalConnections + (l.foldl (expire fdOf) m).timedOut.length) %
        2 ^ 64 = (m.totalConnections + m.timedOut.length) % 2 ^ 64 ∧
      (m.connections = [] → (l.foldl (expire fdOf) m).connections = []) := by
  induction l generalizing m with
  | nil => exact ⟨h, rfl, id⟩
  | cons a rest ih =>
    simp only [List.foldl_cons]
    cases ha : m.heap[a]? with
    | none =>
      have hexp : expire fdOf m a = m := by simp [expire, ha]
      rw [hexp]
      exact ih h
    | some e =>
      have hexp : expire fdOf m a =
          { m with
            connections := eraseKey m.connections (fdOf e.conn),
            totalConnections := decr m.totalConnections,
            timedOut := m.timedOut ++ [e.conn] } := by simp [expire, ha]
      obtain ⟨h1, h2, h3⟩ := ih (m := expire fdOf m a) (by rw [hexp]; exact Nat.mod_lt _ (by decide))
      refine ⟨h1, h2.trans ?_, fun hc => h3 (by rw [hexp]; simp [hc, eraseKey])⟩
      rw [hexp]
      simp only [decr, List.length_append, List.length_singleton]
      omega

theorem tick_counter (m : Manager) (fdOf : Nat → Int) (h : m.totalConnections < 2 ^ 64) :
    (m.tick fdOf).totalConnections < 2 ^ 64 ∧
      ((m.tick fdOf).totalConnections + (m.tick fdOf).timedOut.length) % 2 ^ 64 =
        (m.totalConnections + m.timedOut.length) % 2 ^ 64 ∧
      (m.connections = [] → (m.tick fdOf).connections = []) :=
  foldl_expire_counter fdOf _ h

theorem ticks_counter (fs : List (Nat → Int)) {m : Manager} (h : m.totalConnections < 2 ^ 64) :
    (m.ticks fs).totalConnections < 2 ^ 64 ∧
      ((m.ticks fs).totalConnections + (m.ticks fs).timedOut.length) % 2 ^ 64 =
        (m.totalConnections + m.timedOut.length) % 2 ^ 64 ∧
      (m.connections = [] → (m.ticks fs).connections = []) := by
  induction fs generalizing m with
  | nil => exact ⟨h, rfl, id⟩
  | cons f fs ih =>
    obtain ⟨h1, h2, h3⟩ := tick_counter m f h
    obtain ⟨h4, h5, h6⟩ := ih h1
    exact ⟨h4, h5.trans h2, fun hc => h6 (h3 hc)⟩

theorem tick_occupancy (m : Manager) (fdOf : Nat → Int) (hs : m.currentSlot < m.wheelSize) :
    (m.tick fdOf).timedOut.length + occupancy (m.tick fdOf) ≤ m.timedOut.length + occupancy m := by
  obtain ⟨conns, total, heq⟩ := tick_eq m fdOf
  rw [heq]
  dsimp only
  have hmem : m.currentSlot ∈ Finset.range m.wheelSize := Finset.mem_range.mpr hs
  have hlen := @scanSlot_length m.idleTimeoutMs m.now (m.wheel m.currentSlot) m.heap
  have hfm := List.length_filterMap_le (fun a =>
    (scanSlot m.idleTimeoutMs m.now (m.wheel m.currentSlot) m.heap).2.2[a]?.map
      ConnectionEntry.conn) (scanSlot m.idleTimeoutMs m.now (m.wheel m.currentSlot) m.heap).2.1
  simp only [occupancy, List.length_append]
  rw [← Finset.add_sum_erase _ _ hmem, ← Finset.add_sum_erase _ (fun s => (m.wheel s).length) hmem,
    Function.update_same]
  have hcong : ∑ s ∈ (Finset.range m.wheelSize).erase m.currentSlot,
      (Function.update m.wheel m.currentSlot
        (scanSlot m.idleTimeoutMs m.now (m.wheel m.currentSlot) m.heap).1 s).length =
      ∑ s ∈ (Finset.range m.wheelSize).erase m.currentSlot, (m.wheel s).length :=
    Finset.sum_congr rfl fun s hs' => by rw [Function.update_noteq (Finset.mem_erase.mp hs').1]
  rw [hcong]
  omega

theorem ticks_occupancy (fs : List (Nat → Int)) {m : Manager} (hs : m.currentSlot < m.wheelSize) :
    (m.ticks fs).timedOut.length + occupancy (m.ticks fs) ≤ m.timedOut.length + occupancy m := by
  induction fs generalizing m with
  | nil => exact le_rfl
  | cons f fs ih =>
    have hs' : (m.tick f).currentSlot < (m.tick f).wheelSize := by
      obtain ⟨conns, total, heq⟩ := tick_eq m f
      rw [heq]
      exact Nat.mod_lt _ (by omega)
    exact (ih hs').trans (tick_occupancy m f hs)

/-! ### Following one entry -/

/-- The wheel holds the entry at address `a` once, in the slot it records, and no other entry
of its connection; the connection has not been passed to the callback. -/
structure Tracks (m : Manager) (a : Nat) (e : ConnectionEntry) : Prop where
  entry : m.heap[a]? = some e
  in_slot : (m.wheel e.slotPosition).count a = 1
  not_elsewhere : ∀ s, s ≠ e.slotPosition → a ∉ m.wheel s
  only_entry : ∀ s, ∀ b ∈ m.wheel s, b ≠ a → ∀ f, m.heap[b]? = some f → f.conn ≠ e.conn
  not_timed_out : e.conn ∉ m.timedOut

/-- One tick as the entry sees it, from the slot `cs` at the instant `now`. -/
def entryTick (idleTimeoutMs cs now : Nat) (e : ConnectionEntry) : Option ConnectionEntry :=
  if cs = e.slotPosition then visit idleTimeoutMs now e else some e

theorem entryTick_conn {idle cs now : Nat} {e e' : ConnectionEntry}
    (h : entryTick idle cs now e = some e') : e'.conn = e.conn ∧ e'.slotPosition = e.slotPosition := by
  unfold entryTick at h
  split_ifs at h
  · exact visit_conn h
  · cases h; exact ⟨rfl, rfl⟩

theorem tick_others {m : Manager} {a : Nat} {e : ConnectionEntry} (h : Tracks m a e)
    (ha : a ∉ (scanSlot m.idleTimeoutMs m.now (m.wheel m.currentSlot) m.heap).2.1) :
    let r := scanSlot m.idleTimeoutMs m.now (m.wheel m.currentSlot) m.heap
    (∀ s, ∀ b ∈ Function.update m.wheel m.currentSlot r.1 s, b ≠ a → ∀ f, r.2.2[b]? = some f →
      f.conn ≠ e.conn) ∧
      e.conn ∉ m.timedOut ++ r.2.1.filterMap fun b => r.2.2[b]?.map ConnectionEntry.conn := by
  intro r
  have hsub := @scanSlot_sub m.idleTimeoutMs m.now (m.wheel m.currentSlot) m.heap
  have old : ∀ s, ∀ b ∈ m.wheel s, b ≠ a → ∀ f, r.2.2[b]? = some f → f.conn ≠ e.conn := by
    intro s b hb hba f hf
    obtain ⟨f₀, hf₀, hc⟩ := scanSlot_conn _ _ hf
    rw [hc]; exact h.only_entry s b hb hba f₀ hf₀
  refine ⟨fun s b hb => ?_, ?_⟩
  · by_cases hs : s = m.currentSlot
    · subst hs; rw [Function.update_same] at hb; exact old _ b (hsub.1 b hb)
    · rw [Function.update_noteq hs] at hb; exact old s b hb
  · simp only [List.mem_append, List.mem_filterMap, Option.map_eq_some', not_or, not_exists,
      not_and]
    refine ⟨h.not_timed_out, fun b hb f hf hc => old _ b (hsub.2 b hb) ?_ f hf hc⟩
    rintro rfl; exact ha hb

theorem tick_tracks {m : Manager} {a : Nat} {e : ConnectionEntry} (fdOf : Nat → Int)
    (h : Tracks m a e) :
    (∀ e', entryTick m.idleTimeoutMs m.currentSlot m.now e = some e' →
      Tracks (m.tick fdOf) a e') ∧
      (entryTick m.idleTimeoutMs m.currentSlot m.now e = none → e.conn ∈ (m.tick fdOf).timedOut) := by
  obtain ⟨conns, total, heq⟩ := tick_eq m fdOf
  rw [heq]
  unfold entryTick
  by_cases hcs : m.currentSlot = e.slotPosition
  · have hl : (m.wheel m.currentSlot).count a = 1 := hcs ▸ h.in_slot
    rw [if_pos hcs]
    cases hv : visit m.idleTimeoutMs m.now e with
    | none =>
      obtain ⟨he, -, hexp⟩ := scanSlot_once_none hv _ _ hl h.entry
      refine ⟨fun _ h' => (nomatch h'), fun _ => ?_⟩
      simp only [List.mem_append, List.mem_filterMap, Option.map_eq_some']
      exact .inr ⟨a, hexp, e, he, rfl⟩
    | some e' =>
      obtain ⟨he, hcount, hexp⟩ := scanSlot_once_some hv _ _ hl h.entry
      obtain ⟨hconn, hslot⟩ := visit_conn hv
      obtain ⟨hothers, hto⟩ := tick_others h hexp
      refine ⟨fun e'' he'' => ?_, fun h' => (nomatch h')⟩
      cases he''
      refine ⟨he, ?_, fun s hs => ?_, fun s b hb hba f hf => hconn ▸ hothers s b hb hba f hf,
        hconn ▸ hto⟩
      · dsimp only; rw [hslot, ← hcs, Function.update_same]; exact hcount
      · dsimp only; rw [hslot, ← hcs] at hs
        rw [Function.update_noteq hs]; exact h.not_elsewhere s (hcs ▸ hs)
  · have hnot : a ∉ m.wheel m.currentSlot := h.not_elsewhere _ hcs
    have hsub := @scanSlot_sub m.idleTimeoutMs m.now (m.wheel m.currentSlot) m.heap
    obtain ⟨hothers, hto⟩ := tick_others h fun hm => hnot (hsub.2 a hm)
    rw [if_neg hcs]
    refine ⟨fun e' he' => ?_, fun h' => (nomatch h')⟩
    cases he'
    refine ⟨by rw [scanSlot_heap_of_not_mem _ _ hnot]; exact h.entry, ?_, fun s hs => ?_, hothers,
      hto⟩
    · dsimp only; rw [Function.update_noteq (Ne.symm hcs)]; exact h.in_slot
    · dsimp only
      by_cases hs' : s = m.currentSlot
      · subst hs'; rw [Function.update_same]; exact fun hm => hnot (hsub.1 a hm)
      · rw [Function.update_noteq hs']; exact h.not_elsewhere s hs

/-- The entry alone, over `n` ticks from the slot `cs` at the instant `now`; `none` once it has
been passed to the callback. -/
def entryRun (idleTimeoutMs wheelSize tickIntervalMs : Nat) :
    Nat → Nat → Nat → ConnectionEntry → Option ConnectionEntry
  | 0, _, _, e => some e
  | n + 1, cs, now, e =>
    match entryTick idleTimeoutMs cs now e with
    | none => none
    | some e' => entryRun idleTimeoutMs wheelSize tickIntervalMs n ((cs + 1) % wheelSize)
        (now + tickIntervalMs) e'

theorem ticks_tracks (fs : List (Nat → Int)) {m : Manager} {a : Nat} {e : ConnectionEntry}
    (h : Tracks m a e) :
    e.conn ∈ (m.ticks fs).timedOut ↔
      entryRun m.idleTimeoutMs m.wheelSize m.tickIntervalMs fs.length m.currentSlot m.now e =
        none := by
  induction fs generalizing m e with
  | nil => simpa [ticks, entryRun] using h.not_timed_out
  | cons f fs ih =>
    obtain ⟨hsome, hnone⟩ := tick_tracks f h
    obtain ⟨conns, total, heq⟩ := tick_eq m f
    simp only [ticks, List.foldl_cons, List.length_cons, entryRun] at ih ⊢
    cases hE : entryTick m.idleTimeoutMs m.currentSlot m.now e with
    | none => exact ⟨fun _ => rfl, fun _ => (ticks_timedOut_grows fs _).subset (hnone hE)⟩
    | some e' =>
      have := ih (hsome e' hE)
      rw [(entryTick_conn hE).1] at this
      rw [this, heq]

/-! ### The entry's own clock -/

/-- The tick, counted from `add_connection`, at which the wheel passes a connection that is
never touched again to the timeout callback. With `k = idle_timeout_ms_ / tick_interval_ms_`,
the entry's slot comes round after `k % wheel_size_` ticks and then every `wheel_size_` ticks;
`k` visits count `remaining_ticks` down, and the next finds the connection idle long enough,
or, if the clock is still short of the timeout there, the one after. -/
def expiryTick (idleTimeoutMs tickIntervalMs wheelSize : Nat) : Nat :=
  let k := idleTimeoutMs / tickIntervalMs
  let j := k % wheelSize + k * wheelSize
  if idleTimeoutMs ≤ j * tickIntervalMs then j + 1 else j + wheelSize + 1

section EntryRun

variable {T W I cs now : Nat} {e : ConnectionEntry}

theorem mod_of_lt_two_mul {x : Nat} (h : x < 2 * W) : x % W = if x < W then x else x - W := by
  split_ifs with hx
  · exact Nat.mod_eq_of_lt hx
  · rw [Nat.mod_eq_sub_mod (by omega), Nat.mod_eq_of_lt (by omega)]

theorem mod_succ_add (c i : Nat) : ((c + 1) % W + i) % W = (c + (i + 1)) % W := by
  rw [Nat.mod_add_mod]; congr 1; omega

theorem entryRun_add (hcs : cs < W) (n k : Nat) :
    entryRun T W I (n + k) cs now e =
      (entryRun T W I n cs now e).bind (entryRun T W I k ((cs + n) % W) (now + n * I)) := by
  induction n generalizing cs now e with
  | zero => simp [entryRun, Nat.mod_eq_of_lt hcs]
  | succ n ih =>
    rw [Nat.add_right_comm]
    simp only [entryRun]
    cases entryTick T cs now e with
    | none => rfl
    | some e' =>
      dsimp only
      rw [ih (Nat.mod_lt _ (by omega)), mod_succ_add,
        show now + I + n * I = now + (n + 1) * I by rw [Nat.succ_mul]; omega]

theorem entryRun_skip (hcs : cs < W) (n : Nat) (hs : ∀ i < n, (cs + i) % W ≠ e.slotPosition) :
    entryRun T W I n cs now e = some e := by
  induction n generalizing cs now with
  | zero => rfl
  | succ n ih =>
    have h0 : cs ≠ e.slotPosition := by simpa [Nat.mod_eq_of_lt hcs] using hs 0 (by omega)
    simp only [entryRun, entryTick, if_neg h0]
    exact ih (Nat.mod_lt _ (by omega)) fun i hi => by rw [mod_succ_add]; exact hs (i + 1) (by omega)

theorem entryRun_round {e' : ConnectionEntry} (hs : e.slotPosition < W)
    (hv : visit T now e = some e') : entryRun T W I W e.slotPosition now e = some e' := by
  have hslot := (visit_conn hv).2
  have key : entryRun T W I (1 + (W - 1)) e.slotPosition now e = some e' := by
    rw [entryRun_add hs 1 (W - 1)]
    simp only [entryRun, entryTick, if_pos rfl, hv, Option.some_bind]
    refine entryRun_skip (Nat.mod_lt _ (by omega)) _ fun i hi => ?_
    rw [mod_succ_add, hslot]
    by_cases h : e.slotPosition + (i + 1) < W
    · rw [Nat.mod_eq_of_lt h]; omega
    · rw [mod_of_lt_two_mul (by omega), if_neg h]; omega
  rwa [show 1 + (W - 1) = W by omega] at key

theorem entryRun_rounds (hs : e.slotPosition < W) (r : Nat) (hr : e.remainingTicks = r) :
    entryRun T W I (r * W) e.slotPosition now e = some { e with remainingTicks := 0 } := by
  induction r generalizing now e with
  | zero => cases e; simp_all [entryRun]
  | succ r ih =>
    have hv : visit T now e = some { e with remainingTicks := r } := by
      simp [visit, hr]
    rw [Nat.succ_mul, Nat.add_comm, entryRun_add hs, entryRun_round hs hv, Option.some_bind,
      Nat.add_mod_right, Nat.mod_eq_of_lt hs]
    exact ih (e := { e with remainingTicks := r }) hs rfl

theorem entryRun_none_mono (hcs : cs < W) {n n' : Nat} (h : entryRun T W I n cs now e = none)
    (hn : n ≤ n') : entryRun T W I n' cs now e = none := by
  obtain ⟨d, rfl⟩ := Nat.exists_eq_add_of_le hn
  rw [entryRun_add hcs, h]
  rfl

theorem entryRun_none_iff_of (hcs : cs < W) {N : Nat} {e' : ConnectionEntry}
    (hsome : entryRun T W I N cs now e = some e') (hnone : entryRun T W I (N + 1) cs now e = none)
    (n : Nat) : entryRun T W I n cs now e = none ↔ N + 1 ≤ n := by
  refine ⟨fun h => Nat.not_lt.1 fun hlt => ?_, fun hn => entryRun_none_mono hcs hnone hn⟩
  have := entryRun_none_mono hcs h (Nat.le_of_lt_succ hlt)
  rw [hsome] at this
  cases this

theorem add_mod_inj {c i d : Nat} (hc : c < W) (hi : i < W) (hd : d < W)
    (h : (c + i) % W = (c + d) % W) : i = d := by
  rw [mod_of_lt_two_mul (by omega), mod_of_lt_two_mul (by omega)] at h
  split_ifs at h <;> omega

theorem entryRun_none_iff (hI : 0 < I) (hW : 0 < W) {c0 : Nat} (hc0 : c0 < W)
    (c now0 n : Nat) :
    entryRun T W I n c0 now0 ⟨c, (c0 + T / I) % W, T / I, now0⟩ = none ↔ expiryTick T I W ≤ n := by
  have hs0 : (c0 + T / I) % W < W := Nat.mod_lt _ hW
  have hd : T / I % W < W := Nat.mod_lt _ hW
  have hslot : (c0 + T / I % W) % W = (c0 + T / I) % W := Nat.add_mod_mod _ _ _
  have hskip : entryRun T W I (T / I % W) c0 now0 ⟨c, (c0 + T / I) % W, T / I, now0⟩ =
      some ⟨c, (c0 + T / I) % W, T / I, now0⟩ :=
    entryRun_skip hc0 _ fun i hi h => absurd (add_mod_inj hc0 (by omega) hd (h.trans hslot.symm))
      (by omega)
  have hj : entryRun T W I (T / I % W + T / I * W) c0 now0 ⟨c, (c0 + T / I) % W, T / I, now0⟩ =
      some ⟨c, (c0 + T / I) % W, 0, now0⟩ := by
    rw [entryRun_add hc0, hskip, Option.some_bind, hslot]
    exact entryRun_rounds (e := ⟨c, (c0 + T / I) % W, T / I, now0⟩) hs0 _ rfl
  have hcs : (c0 + (T / I % W + T / I * W)) % W = (c0 + T / I) % W := by
    rw [← Nat.add_assoc, Nat.add_mul_mod_self_right, hslot]
  have hlast : ∀ d, T ≤ (T / I % W + T / I * W + d) * I →
      entryRun T W I 1 ((c0 + T / I) % W) (now0 + (T / I % W + T / I * W + d) * I)
        ⟨c, (c0 + T / I) % W, 0, now0⟩ = none := by
    intro d hT
    simp [entryRun, entryTick, visit, hT]
  dsimp only [expiryTick]
  split_ifs with hT
  · refine entryRun_none_iff_of hc0 hj ?_ n
    rw [entryRun_add hc0, hj, Option.some_bind, hcs]
    simpa using hlast 0 (by simpa using hT)
  · have hround : entryRun T W I W ((c0 + T / I) % W) (now0 + (T / I % W + T / I * W) * I)
        ⟨c, (c0 + T / I) % W, 0, now0⟩ = some ⟨c, (c0 + T / I) % W, 0, now0⟩ :=
      entryRun_round (e := ⟨c, (c0 + T / I) % W, 0, now0⟩) hs0 (by simp [visit]; omega)
    have hsome : entryRun T W I (T / I % W + T / I * W + W) c0 now0
        ⟨c, (c0 + T / I) % W, T / I, now0⟩ = some ⟨c, (c0 + T / I) % W, 0, now0⟩ := by
      rw [entryRun_add hc0, hj, Option.some_bind, hcs, hround]
    refine entryRun_none_iff_of hc0 hsome ?_ n
    have hcs' : (c0 + (T / I % W + T / I * W + W)) % W = (c0 + T / I) % W := by
      rw [← Nat.add_assoc, Nat.add_mod_right, hcs]
    rw [entryRun_add hc0, hsome, Option.some_bind, hcs']
    refine hlast W ?_
    have h1 : T < (T / I + 1) * I := by rw [Nat.succ_mul]; exact Nat.lt_div_mul_add hI
    have h2 : T / I ≤ T / I * W := Nat.le_mul_of_pos_right _ hW
    exact Nat.le_trans (Nat.le_of_lt h1) (Nat.mul_le_mul_right _ (by omega))

end EntryRun

/-! ### A connection that is never touched again -/

/-- A tick interval and a wheel as the constructor leaves them, and the current slot in the
wheel. -/
structure Params (m : Manager) : Prop where
  tick_pos : 0 < m.tickIntervalMs
  wheel_pos : 0 < m.wheelSize
  slot_lt : m.currentSlot < m.wheelSize

/-- The connection `conn` on descriptor `fd` is new to the manager: no entry has its
descriptor or refers to it, and it has not been passed to the callback. -/
structure Fresh (m : Manager) (conn : Nat) (fd : Int) : Prop where
  fd_pos : 0 < fd
  fd_free : lookup m.connections fd = none
  addr_lt : ∀ s, ∀ b ∈ m.wheel s, b < m.heap.length
  no_entry : ∀ s, ∀ b ∈ m.wheel s, ∀ f, m.heap[b]? = some f → f.conn ≠ conn
  not_timed_out : conn ∉ m.timedOut

def newEntry (m : Manager) (conn : Nat) : ConnectionEntry :=
  ⟨conn, (m.currentSlot + m.idleTimeoutMs / m.tickIntervalMs) % m.wheelSize,
    m.idleTimeoutMs / m.tickIntervalMs, m.now⟩

theorem addConnection_of_fresh {m : Manager} {c : Nat} {fd : Int} (hf : Fresh m c fd) :
    m.addConnection c fd =
      { m with
        heap := m.heap ++ [newEntry m c],
        connections := m.connections ++ [(fd, m.heap.length)],
        totalConnections := incr m.totalConnections,
        wheel := Function.update m.wheel (newEntry m c).slotPosition
          (m.wheel (newEntry m c).slotPosition ++ [m.heap.length]) } := by
  have hfd : ¬ fd ≤ 0 := by have := hf.fd_pos; omega
  simp [addConnection, hfd, hf.fd_free, calculateSlot, newEntry]

theorem add_tracks {m : Manager} {c : Nat} {fd : Int} (hf : Fresh m c fd) :
    Tracks (m.addConnection c fd) m.heap.length (newEntry m c) := by
  rw [addConnection_of_fresh hf]
  have hnot : ∀ s, m.heap.length ∉ m.wheel s := fun s h => Nat.lt_irrefl _ (hf.addr_lt s _ h)
  refine ⟨List.getElem?_concat_length _ _, ?_, fun s hs => ?_, fun s b hb hba f hf' => ?_,
    hf.not_timed_out⟩
  · simp [List.count_eq_zero_of_not_mem (hnot _)]
  · simpa [Function.update_noteq hs] using hnot s
  · have hb' : b ∈ m.wheel s := by
      by_cases hs : s = (newEntry m c).slotPosition
      · subst hs; simp only [Function.update_same, List.mem_append, List.mem_singleton] at hb
        exact hb.resolve_right hba
      · simpa [Function.update_noteq hs] using hb
    rw [List.getElem?_append_left (hf.addr_lt s b hb')] at hf'
    exact hf.no_entry s b hb' f hf'

theorem remove_tracks {m : Manager} {a : Nat} {e : ConnectionEntry} (fd : Int) (h : Tracks m a e) :
    Tracks (m.removeConnection fd) a e := by
  unfold removeConnection
  split
  · exact h
  · exact ⟨h.1, h.2, h.3, h.4, h.5⟩

theorem removeConnection_clock (m : Manager) (fd : Int) :
    (m.removeConnection fd).currentSlot = m.currentSlot ∧ (m.removeConnection fd).now = m.now ∧
      (m.removeConnection fd).idleTimeoutMs = m.idleTimeoutMs ∧
      (m.removeConnection fd).wheelSize = m.wheelSize ∧
      (m.removeConnection fd).tickIntervalMs = m.tickIntervalMs := by
  unfold removeConnection
  split <;> exact ⟨rfl, rfl, rfl, rfl, rfl⟩

/-- A connection added and then left alone is passed to the timeout callback exactly from the
tick `expiryTick` on, whatever the wheel held and wherever it stood. -/
theorem timedOut_iff_expiryTick {m : Manager} {c : Nat} {fd : Int} (hp : Params m)
    (hf : Fresh m c fd) (fs : List (Nat → Int)) :
    c ∈ ((m.addConnection c fd).ticks fs).timedOut ↔
      expiryTick m.idleTimeoutMs m.tickIntervalMs m.wheelSize ≤ fs.length := by
  have h := ticks_tracks fs (add_tracks hf)
  rw [addConnection_of_fresh hf] at h ⊢
  exact h.trans (entryRun_none_iff hp.tick_pos hp.wheel_pos hp.slot_lt c m.now fs.length)

/-- The manager `TcpServer::start` makes: sixty slots, one tick a second. -/
def serverManager (idleTimeoutMs : Int) : Manager := Manager.create idleTimeoutMs 60 1000

theorem serverManager_params (idleTimeoutMs : Int) : Params (serverManager idleTimeoutMs) :=
  ⟨by simp [serverManager, create], by simp [serverManager, create],
    by simp [serverManager, create]⟩

theorem serverManager_fresh (idleTimeoutMs : Int) (c : Nat) {fd : Int} (hfd : 0 < fd) :
    Fresh (serverManager idleTimeoutMs) c fd :=
  ⟨hfd, rfl, by simp [serverManager, create], by simp [serverManager, create],
    by simp [serverManager, create]⟩

/-- With a 2 s timeout, a connection of the server is not passed to the callback by the third
tick, and is at the 123rd. -/
theorem two_second_timeout_ticks :
    expiryTick 2000 1000 60 = 123 ∧
      1 ∉ (((serverManager 2000).addConnection 1 5).ticks (List.replicate 3 fun _ => 5)).timedOut ∧
      1 ∈ (((serverManager 2000).addConnection 1 5).ticks (List.replicate 123 fun _ => 5)).timedOut :=
  ⟨by decide,
    fun h => absurd ((timedOut_iff_expiryTick (serverManager_params 2000)
      (serverManager_fresh 2000 1 (by decide)) _).1 h) (by simp; decide),
    (timedOut_iff_expiryTick (serverManager_params 2000) (serverManager_fresh 2000 1 (by decide))
      _).2 (by simp; decide)⟩

/-- `remove_connection` does not stop the callback: a connection added and removed is passed to
it at the same tick as one never removed. -/
theorem removed_connection_times_out {m : Manager} {c : Nat} {fd : Int} (hp : Params m)
    (hf : Fresh m c fd) (fs : List (Nat → Int)) :
    c ∈ (((m.addConnection c fd).removeConnection fd).ticks fs).timedOut ↔
      expiryTick m.idleTimeoutMs m.tickIntervalMs m.wheelSize ≤ fs.length := by
  have h := ticks_tracks fs (remove_tracks fd (add_tracks hf))
  obtain ⟨h1, h2, h3, h4, h5⟩ := removeConnection_clock (m.addConnection c fd) fd
  rw [h1, h2, h3, h4, h5] at h
  rw [addConnection_of_fresh hf] at h ⊢
  exact h.trans (entryRun_none_iff hp.tick_pos hp.wheel_pos hp.slot_lt c m.now fs.length)

def closedAtOnce : Manager :=
  (((serverManager 1000).addConnection 1 5).removeConnection 5).ticks
    (List.replicate 62 fun _ => -1)

/-- The closed connection is passed to the timeout callback, and `total_connections_` wraps to
`SIZE_MAX` while `connections_` is empty. -/
theorem closedAtOnce_called_back :
    1 ∈ closedAtOnce.timedOut ∧ closedAtOnce.totalConnections = 2 ^ 64 - 1 ∧
      closedAtOnce.connections = [] := by
  have hmem : 1 ∈ closedAtOnce.timedOut := (removed_connection_times_out
    (serverManager_params 1000) (serverManager_fresh 1000 1 (by decide)) _).2 (by simp; decide)
  obtain ⟨hlt, hmod, hnil⟩ := ticks_counter (List.replicate 62 fun _ => -1)
    (m := ((serverManager 1000).addConnection 1 5).removeConnection 5) (by decide)
  have hocc := ticks_occupancy (List.replicate 62 fun _ => -1)
    (m := ((serverManager 1000).addConnection 1 5).removeConnection 5) (by decide)
  have h0 : (((serverManager 1000).addConnection 1 5).removeConnection 5).timedOut = [] ∧
      (((serverManager 1000).addConnection 1 5).removeConnection 5).totalConnections = 0 ∧
      (((serverManager 1000).addConnection 1 5).removeConnection 5).connections = [] ∧
      occupancy (((serverManager 1000).addConnection 1 5).removeConnection 5) = 1 := by decide
  unfold closedAtOnce at hmem ⊢
  have hpos := List.length_pos_of_mem hmem
  rw [h0.1, h0.2.1] at hmod
  rw [h0.1, h0.2.2.2] at hocc
  refine ⟨hmem, ?_, hnil h0.2.2.1⟩
  simp only [List.length_nil] at hocc hmod
  omega

end ReactorServer.Time.TimeoutManager
