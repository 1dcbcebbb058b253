import Mathlib.Data.List.Basic

/-!
`logger::LogQueue<T>` (`src/logger/log_queue.hpp`): a circular buffer of `capacity_` slots with
`front_`, `rear_` and `size_`, and in debug mode the atomic counters `read_count_` and
`write_count_`.

Every operation runs under `mutex_`, so one operation is one step: `push` (both overloads),
`pop`, `pop_batch` and `clear` are functions of the queue, each `none` where it would block on
its condition variable (a timed wait that runs out gives its `false` or `0` instead). The
queue is read as the list of its `size_` slots from `front_` on (`contents`); `Inv` is the shape
every constructed queue keeps, and under it each operation acts on that list as a bounded FIFO
(`fifoStep`), which `logQueue_refines_fifo` states for every queue any sequence of operations
reaches. The copy overload of `push` bumps `read_count_` where the move overload bumps
`write_count_` (`pushCopy_counts_a_read`); without it, `write_count() - read_count()` is
`size()` in debug mode (`countGap_eq_size`).
-/

set_option autoImplicit false
set_option relaxedAutoImplicit false

namespace ReactorServer.Logger.BoundedQueue

/-- `2^64`: the counters are `std::atomic<uint64_t>`. -/
def uint64Size : Nat := 18446744073709551616

def incr (x : Nat) : Nat := (x + 1) % uint64Size

/-- A `LogQueue<T>`: its members without their trailing underscore. -/
structure LogQueue (α : Type) where
  capacity : Nat
  debug : Bool
  buffer : List α
  size : Nat
  front : Nat
  rear : Nat
  readCount : Nat
  writeCount : Nat

variable {α : Type}

namespace LogQueue

/-- `buffer_[rear_] = item; rear_ = (rear_ + 1) % capacity_; ++size_;`, the store both `push`
overloads make. -/
def store (q : LogQueue α) (item : α) : LogQueue α :=
  { q with buffer := q.buffer.set q.rear item, rear := (q.rear + 1) % q.capacity, size := q.size + 1 }

/-- `push(const T&, timeout_ms)`: in debug mode it bumps `read_count_`. -/
def pushCopy (q : LogQueue α) (item : α) (timeoutMs : Int) : Option (Bool × LogQueue α) :=
  if q.size < q.capacity then
    some (true, if q.debug then { q.store item with readCount := incr q.readCount } else q.store item)
  else if 0 < timeoutMs then some (false, q) else none

/-- `push(T&&, timeout_ms)`: in debug mode it bumps `write_count_`. -/
def pushMove (q : LogQueue α) (item : α) (timeoutMs : Int) : Option (Bool × LogQueue α) :=
  if q.size < q.capacity then
    some (true, if q.debug then { q.store item with writeCount := incr q.writeCount } else q.store item)
  else if 0 < timeoutMs then some (false, q) else none

/-- `front_ = (front_ + 1) % capacity_; --size_;` and, in debug mode, `++read_count_`: what `pop`
and each round of `pop_batch` do after taking the front. -/
def advance (q : LogQueue α) : LogQueue α :=
  { q with front := (q.front + 1) % q.capacity, size := q.size - 1,
           readCount := if q.debug then incr q.readCount else q.readCount }

/-- `clear()`: the slots keep their values. -/
def clear (q : LogQueue α) : LogQueue α :=
  { q with size := 0, front := 0, rear := 0,
           readCount := if q.debug then 0 else q.readCount,
           writeCount := if q.debug then 0 else q.writeCount }

def empty (q : LogQueue α) : Bool := q.size = 0

def full (q : LogQueue α) : Bool := q.size = q.capacity

def queryReadCount (q : LogQueue α) : Nat := if q.debug then q.readCount else 0

def queryWriteCount (q : LogQueue α) : Nat := if q.debug then q.writeCount else 0

end LogQueue

open LogQueue

/-- `capacity_` is positive, the buffer has `capacity_` slots, at most `capacity_` are live,
`front_` is a slot, and `rear_` is `size_` slots past it. -/
structure Inv (q : LogQueue α) : Prop where
  capacity_pos : 0 < q.capacity
  buffer_length : q.buffer.length = q.capacity
  size_le : q.size ≤ q.capacity
  front_lt : q.front < q.capacity
  rear_eq : q.rear = (q.front + q.size) % q.capacity

theorem mod_of_lt_two_mul {x cap : Nat} (h : x < 2 * cap) :
    x % cap = if x < cap then x else x - cap := by
  split_ifs with hx
  · exact Nat.mod_eq_of_lt hx
  · rw [Nat.mod_eq_sub_mod (Nat.le_of_not_lt hx), Nat.mod_eq_of_lt (by omega)]

theorem slot_ne {front cap i s : Nat} (hf : front < cap) (hi : i < s) (hs : s < cap) :
    (front + i) % cap ≠ (front + s) % cap := by
  rw [mod_of_lt_two_mul (by omega), mod_of_lt_two_mul (by omega)]
  split_ifs <;> omega

variable {q : LogQueue α}

theorem Inv.store (h : Inv q) (hroom : q.size < q.capacity) (item : α) : Inv (q.store item) :=
  ⟨h.capacity_pos, by simp [LogQueue.store, h.buffer_length], hroom, h.front_lt,
    by simp only [LogQueue.store, h.rear_eq, Nat.mod_add_mod, Nat.add_assoc]⟩

theorem Inv.advance (h : Inv q) (hpos : 0 < q.size) : Inv q.advance :=
  ⟨h.capacity_pos, h.buffer_length, Nat.le_trans (Nat.sub_le _ _) h.size_le,
    Nat.mod_lt _ h.capacity_pos,
    by simp only [LogQueue.advance, h.rear_eq, Nat.mod_add_mod, show q.front + 1 + (q.size - 1) =
      q.front + q.size by omega]⟩

theorem Inv.clear (h : Inv q) : Inv q.clear :=
  ⟨h.capacity_pos, h.buffer_length, Nat.zero_le _, h.capacity_pos, by simp [LogQueue.clear]⟩

theorem Inv.withCounts (h : Inv q) (r w : Nat) : Inv { q with readCount := r, writeCount := w } :=
  ⟨h.capacity_pos, h.buffer_length, h.size_le, h.front_lt, h.rear_eq⟩


/-! ## The debug counters -/

def countGap (q : LogQueue α) : Nat :=
  (queryWriteCount q + (uint64Size - queryReadCount q)) % uint64Size

/-- The counters are `uint64_t` values, and in debug mode their gap is `size_`. -/
structure Counted (q : LogQueue α) : Prop where
  read_lt : q.readCount < uint64Size
  write_lt : q.writeCount < uint64Size
  gap : q.debug = true → countGap q = q.size % uint64Size

theorem incr_lt (x : Nat) : incr x < uint64Size := Nat.mod_lt _ (by decide)

theorem Counted.pushMove (h : Counted q) {item : α} {t : Int} {b : Bool} {q' : LogQueue α}
    (he : q.pushMove item t = some (b, q')) : Counted q' := by
  simp only [LogQueue.pushMove] at he
  split_ifs at he with hroom hd <;>
    simp only [Option.some.injEq, Prod.mk.injEq, reduceCtorEq] at he <;>
    obtain ⟨-, rfl⟩ := he
  · refine ⟨h.read_lt, incr_lt _, fun _ => ?_⟩
    have h1 := h.gap hd
    have h2 := h.read_lt
    simp only [countGap, queryWriteCount, queryReadCount, LogQueue.store, hd, if_true, incr,
      uint64Size] at h1 h2 ⊢
    omega
  · exact ⟨h.read_lt, h.write_lt, fun hd' => absurd hd' hd⟩
  · exact h

theorem Counted.advance (h : Counted q) (hpos : 0 < q.size) : Counted q.advance := by
  by_cases hd : q.debug = true
  · refine ⟨by simp only [LogQueue.advance, hd, if_true]; exact incr_lt _, h.write_lt, fun _ => ?_⟩
    have h1 := h.gap hd
    have h2 := h.read_lt
    simp only [countGap, queryWriteCount, queryReadCount, LogQueue.advance, hd, if_true, incr,
      uint64Size] at h1 h2 ⊢
    omega
  · exact ⟨by simpa [LogQueue.advance, hd] using h.read_lt, h.write_lt, fun hd' => absurd hd' hd⟩

theorem Counted.clear (h : Counted q) : Counted q.clear := by
  by_cases hd : q.debug = true
  · exact ⟨by simp [LogQueue.clear, hd, uint64Size], by simp [LogQueue.clear, hd, uint64Size],
      fun _ => by simp [countGap, queryWriteCount, queryReadCount, LogQueue.clear, hd]⟩
  · exact ⟨by simpa [LogQueue.clear, hd] using h.read_lt, by simpa [LogQueue.clear, hd] using h.write_lt,
      fun hd' => absurd hd' hd⟩

section Elements

variable [Inhabited α]

/-- The constructor: `capacity == 0` throws; `make_unique<T[]>` value-initialises the slots. -/
def create (capacity : Nat) (debug : Bool) : Option (LogQueue α) :=
  if capacity = 0 then none
  else some ⟨capacity, debug, List.replicate capacity default, 0, 0, 0, 0, 0⟩

namespace LogQueue

def frontItem (q : LogQueue α) : α := q.buffer.getD q.front default

/-- `pop(item, timeout_ms)`: the item taken, or `none` where it returns `false`. A positive
timeout waits and may run out, `0` does not wait, and a negative one waits for good. -/
def pop (q : LogQueue α) (timeoutMs : Int) : Option (Option α × LogQueue α) :=
  if 0 < q.size then some (some q.frontItem, q.advance)
  else if 0 ≤ timeoutMs then some (none, q) else none

/-- `while (count < max_count && size_ > 0)` of `pop_batch`, with `n` more rounds allowed. -/
def batchLoop : Nat → List α → Nat → LogQueue α → List α × Nat × LogQueue α
  | 0, items, count, q => (items, count, q)
  | n + 1, items, count, q =>
    if 0 < q.size then batchLoop n (items ++ [q.frontItem]) (count + 1) q.advance
    else (items, count, q)

/-- `pop_batch(items, max_count, timeout_ms)`: the count it returns and `items` after it. Only a
positive timeout runs out; otherwise it waits for an element. -/
def popBatch (q : LogQueue α) (items : List α) (maxCount : Nat) (timeoutMs : Int) :
    Option (Nat × List α × LogQueue α) :=
  if q.size = 0 then (if 0 < timeoutMs then some (0, items, q) else none)
  else
    let r := batchLoop maxCount items 0 q
    some (r.2.1, r.1, r.2.2)

end LogQueue


inductive Op (α : Type)
  | pushCopy (item : α) (timeoutMs : Int)
  | pushMove (item : α) (timeoutMs : Int)
  | pop (timeoutMs : Int)
  | popBatch (items : List α) (maxCount : Nat) (timeoutMs : Int)
  | clear

def Op.isCopyPush {α : Type} : Op α → Bool
  | .pushCopy _ _ => true
  | _ => false

/-- What an operation returns; `pop_batch` also hands back `items`. -/
inductive Res (α : Type)
  | pushed (ok : Bool)
  | popped (item : Option α)
  | batch (count : Nat) (items : List α)
  | cleared
  deriving DecidableEq

/-- One operation under `mutex_`; `none` where it would block. -/
def LogQueue.apply (q : LogQueue α) : Op α → Option (Res α × LogQueue α)
  | .pushCopy x t => (q.pushCopy x t).map (Prod.map .pushed id)
  | .pushMove x t => (q.pushMove x t).map (Prod.map .pushed id)
  | .pop t => (q.pop t).map (Prod.map .popped id)
  | .popBatch items m t => (q.popBatch items m t).map fun r => (.batch r.1 r.2.1, r.2.2)
  | .clear => some (.cleared, q.clear)

/-! ## The list a queue holds -/

/-- The first `n` slots of `buffer` from `front` on, wrapping at `capacity`. -/
def slots (buffer : List α) (front capacity : Nat) : Nat → List α
  | 0 => []
  | n + 1 => slots buffer front capacity n ++ [buffer.getD ((front + n) % capacity) default]

def contents (q : LogQueue α) : List α := slots q.buffer q.front q.capacity q.size

@[simp] theorem length_slots (buffer : List α) (front capacity n : Nat) :
    (slots buffer front capacity n).length = n := by
  induction n with
  | zero => rfl
  | succ n ih => simp [slots, ih]

@[simp] theorem contents_withCounts (q : LogQueue α) (r w : Nat) :
    contents { q with readCount := r, writeCount := w } = contents q := rfl

@[simp] theorem length_contents (q : LogQueue α) : (contents q).length = q.size :=
  length_slots _ _ _ _


theorem contents_store (h : Inv q) (hroom : q.size < q.capacity) (item : α) :
    contents (q.store item) = contents q ++ [item] := by
  have hkeep : ∀ n ≤ q.size,
      slots (q.buffer.set q.rear item) q.front q.capacity n = slots q.buffer q.front q.capacity n := by
    intro n hn
    induction n with
    | zero => rfl
    | succ n ih =>
      have hne : q.rear ≠ (q.front + n) % q.capacity := by
        rw [h.rear_eq]
        exact (slot_ne h.front_lt (by omega) hroom).symm
      simp only [slots, ih (by omega), List.getD_eq_getElem?_getD, List.getElem?_set_ne hne]
  have hrear : q.rear < q.buffer.length := by
    rw [h.rear_eq, h.buffer_length]
    exact Nat.mod_lt _ h.capacity_pos
  show slots (q.buffer.set q.rear item) q.front q.capacity (q.size + 1) = contents q ++ [item]
  simp only [slots]
  rw [hkeep q.size le_rfl, ← h.rear_eq]
  simp only [contents, List.getD_eq_getElem?_getD, List.getElem?_set_self hrear, Option.getD_some]

theorem slots_succ (buffer : List α) {front cap : Nat} (hf : front < cap) (n : Nat) :
    slots buffer front cap (n + 1) =
      buffer.getD front default :: slots buffer ((front + 1) % cap) cap n := by
  induction n with
  | zero => simp [slots, Nat.mod_eq_of_lt hf]
  | succ n ih =>
    rw [slots, ih]
    simp only [slots, Nat.mod_add_mod, List.cons_append, Nat.add_assoc, Nat.add_comm 1 n]

theorem contents_advance (h : Inv q) (hpos : 0 < q.size) :
    contents q = q.frontItem :: contents q.advance := by
  obtain ⟨n, hn⟩ : ∃ n, q.size = n + 1 := ⟨q.size - 1, by omega⟩
  simp only [contents, advance, hn, slots_succ q.buffer h.front_lt, frontItem, Nat.add_sub_cancel]

theorem batchLoop_spec (h : Inv q) (n : Nat) (items : List α) (count : Nat) :
    (batchLoop n items count q).1 = items ++ (contents q).take n ∧
      (batchLoop n items count q).2.1 = count + min n q.size ∧
      contents (batchLoop n items count q).2.2 = (contents q).drop n ∧
      Inv (batchLoop n items count q).2.2 ∧
      (batchLoop n items count q).2.2.capacity = q.capacity := by
  induction n generalizing items count q with
  | zero => simp [batchLoop, h]
  | succ n ih =>
    by_cases hpos : 0 < q.size
    · obtain ⟨h1, h2, h3, h4, h5⟩ := ih (h.advance hpos) (items ++ [q.frontItem]) (count + 1)
      simp only [batchLoop, if_pos hpos]
      rw [contents_advance h hpos]
      refine ⟨by rw [h1]; simp, by rw [h2]; simp only [LogQueue.advance]; omega, by rw [h3]; simp,
        h4, h5⟩
    · have h0 : q.size = 0 := by omega
      have hc : contents q = [] := List.eq_nil_of_length_eq_zero (by simp [h0])
      simp [batchLoop, hpos, hc, h0, h]

/-! ## The bounded FIFO it refines -/

/-- What each operation does to a bounded FIFO list `l` of capacity `cap`, stated from the
operations' contracts: a push appends when there is room, a pop takes the head, a batch of at
most `m` moves the first `min m |l|` elements onto `items`, and `clear` empties the list. `none`
where the call waits. -/
def fifoStep (cap : Nat) (l : List α) : Op α → Option (Res α × List α)
  | .pushCopy x t | .pushMove x t =>
    if l.length < cap then some (.pushed true, l ++ [x])
    else if 0 < t then some (.pushed false, l) else none
  | .pop t =>
    match l with
    | x :: l' => some (.popped (some x), l')
    | [] => if 0 ≤ t then some (.popped none, []) else none
  | .popBatch items m t =>
    if l.isEmpty then (if 0 < t then some (.batch 0 items, []) else none)
    else some (.batch (min m l.length) (items ++ l.take m), l.drop m)
  | .clear => some (.cleared, [])

theorem Inv.apply (h : Inv q) {op : Op α} {r : Res α} {q' : LogQueue α}
    (he : q.apply op = some (r, q')) : Inv q' ∧ q'.capacity = q.capacity := by
  cases op with
  | pushCopy x t | pushMove x t =>
    simp only [LogQueue.apply, pushCopy, pushMove] at he
    split_ifs at he with hroom hd <;>
      simp only [Option.map_some', Option.map_none', Prod.map, id_eq, Option.some.injEq,
        Prod.mk.injEq, reduceCtorEq] at he <;>
      obtain ⟨-, rfl⟩ := he
    all_goals first
      | exact ⟨h, rfl⟩
      | exact ⟨h.store hroom x, rfl⟩
      | exact ⟨(h.store hroom x).withCounts _ _, rfl⟩
  | pop t =>
    simp only [LogQueue.apply, pop] at he
    split_ifs at he with hpos <;>
      simp only [Option.map_some', Option.map_none', Prod.map, id_eq, Option.some.injEq,
        Prod.mk.injEq, reduceCtorEq] at he <;>
      obtain ⟨-, rfl⟩ := he
    · exact ⟨h.advance hpos, rfl⟩
    · exact ⟨h, rfl⟩
  | popBatch items m t =>
    simp only [LogQueue.apply, popBatch] at he
    split_ifs at he <;>
      simp only [Option.map_some', Option.map_none', Prod.map, id_eq, Option.some.injEq,
        Prod.mk.injEq, reduceCtorEq] at he <;>
      obtain ⟨-, rfl⟩ := he
    · exact ⟨h, rfl⟩
    · exact (batchLoop_spec h m items 0).2.2.2
  | clear =>
    simp only [LogQueue.apply, Option.some.injEq, Prod.mk.injEq] at he
    obtain ⟨-, rfl⟩ := he
    exact ⟨h.clear, rfl⟩

theorem Inv.apply_refines (h : Inv q) (op : Op α) :
    (q.apply op).map (Prod.map id contents) = fifoStep q.capacity (contents q) op := by
  cases op with
  | pushCopy x t | pushMove x t =>
    simp only [LogQueue.apply, pushCopy, pushMove, fifoStep, length_contents]
    by_cases hroom : q.size < q.capacity
    · simp only [if_pos hroom]
      split_ifs <;> simp [contents_store h hroom]
    · simp only [if_neg hroom]
      split_ifs <;> simp
  | pop t =>
    simp only [LogQueue.apply, pop, fifoStep]
    by_cases hpos : 0 < q.size
    · rw [contents_advance h hpos]
      simp [hpos]
    · have hc : contents q = [] := List.eq_nil_of_length_eq_zero (by simp; omega)
      simp only [hc, if_neg hpos]
      split_ifs <;> simp [hc]
  | popBatch items m t =>
    simp only [LogQueue.apply, popBatch, fifoStep]
    by_cases h0 : q.size = 0
    · have hc : contents q = [] := List.eq_nil_of_length_eq_zero (by simp [h0])
      simp only [hc, h0, if_true, List.isEmpty_nil]
      split_ifs <;> simp [hc]
    · obtain ⟨h1, h2, h3, -, -⟩ := batchLoop_spec h m items 0
      have hne : (contents q).isEmpty = false := by
        cases hc : contents q with
        | nil => exact absurd (by simpa using congrArg List.length hc) h0
        | cons _ _ => rfl
      simp [h0, hne, h1, h2, h3]
  | clear => simp [LogQueue.apply, fifoStep, contents, LogQueue.clear, slots]

/-- The queues the constructor builds and any operations `ok` allows lead to, each operation
completing under the mutex in turn, so in any interleaving of the threads that call them. -/
inductive ReachableBy (ok : Op α → Bool) : LogQueue α → Prop
  | create {capacity : Nat} {debug : Bool} {q : LogQueue α} :
      create capacity debug = some q → ReachableBy ok q
  | apply {q q' : LogQueue α} {r : Res α} (op : Op α) :
      ok op = true → ReachableBy ok q → q.apply op = some (r, q') → ReachableBy ok q'

theorem Inv.pushCopy_true (h : Inv q) {x : α} {t : Int} {q' : LogQueue α}
    (hp : q.pushCopy x t = some (true, q')) : Inv q' ∧ contents q' = contents q ++ [x] := by
  have happ : q.apply (.pushCopy x t) = some (.pushed true, q') := by simp [LogQueue.apply, hp]
  have href := h.apply_refines (.pushCopy x t)
  rw [happ] at href
  simp only [fifoStep, length_contents, Option.map_some', Prod.map] at href
  split_ifs at href <;> simp_all [(h.apply happ).1]

theorem Inv.pop_some (h : Inv q) {x : α} {t : Int} {q' : LogQueue α}
    (hp : q.pop t = some (some x, q')) : Inv q' ∧ contents q = x :: contents q' := by
  have happ : q.apply (.pop t) = some (.popped (some x), q') := by simp [LogQueue.apply, hp]
  have href := h.apply_refines (.pop t)
  rw [happ] at href
  refine ⟨(h.apply happ).1, ?_⟩
  simp only [fifoStep, Option.map_some', Prod.map] at href
  split at href <;> simp_all

theorem Inv.pop_none (h : Inv q) {t : Int} {q' : LogQueue α} (hp : q.pop t = some (none, q')) :
    contents q = [] := by
  have happ : q.apply (.pop t) = some (.popped none, q') := by simp [LogQueue.apply, hp]
  have href := h.apply_refines (.pop t)
  rw [happ] at href
  simp only [fifoStep, Option.map_some', Prod.map] at href
  split at href <;> simp_all

theorem inv_create {capacity : Nat} {debug : Bool} (h : create capacity debug = some q) : Inv q := by
  simp only [create] at h
  split_ifs at h with h0
  cases h
  exact ⟨Nat.pos_of_ne_zero h0, List.length_replicate _ _, Nat.zero_le _, Nat.pos_of_ne_zero h0,
    by simp⟩

theorem ReachableBy.inv {ok : Op α → Bool} (h : ReachableBy ok q) : Inv q := by
  induction h with
  | create h => exact inv_create h
  | apply op _ _ he ih => exact (ih.apply he).1

/-- For every queue that any sequence of operations on a constructed `LogQueue` reaches: the list
`l` it holds has `size_` elements, at most `capacity_`; `empty()` holds exactly when `l` is
empty and `full()` exactly when `l` has `capacity_` elements; `rear_ = (front_ + size_) %
capacity_`; and every next operation, copy or move `push`, `pop`, `pop_batch` or `clear`,
returns what the bounded FIFO on `l` returns and leaves the list it leaves. -/
theorem logQueue_refines_fifo (q : LogQueue α) (hq : ReachableBy (fun _ => true) q) :
    q.size = (contents q).length ∧ (contents q).length ≤ q.capacity ∧
      (q.empty = true ↔ contents q = []) ∧ (q.full = true ↔ (contents q).length = q.capacity) ∧
      q.rear = (q.front + q.size) % q.capacity ∧
      ∀ op : Op α, (q.apply op).map (Prod.map id contents) = fifoStep q.capacity (contents q) op := by
  have h := hq.inv
  refine ⟨(length_contents q).symm, by simpa using h.size_le, ?_, ?_, h.rear_eq, h.apply_refines⟩
  · simp [LogQueue.empty, ← List.length_eq_zero]
  · simp [LogQueue.full]

def wrappedQueue : LogQueue Nat := ⟨2, false, [3, 2], 2, 1, 1, 0, 0⟩

theorem wrappedQueue_refines :
    ReachableBy (fun _ => true) wrappedQueue ∧ contents wrappedQueue = [2, 3] ∧
      wrappedQueue.size = (contents wrappedQueue).length ∧
      (contents wrappedQueue).length ≤ wrappedQueue.capacity ∧
      (wrappedQueue.empty = true ↔ contents wrappedQueue = []) ∧
      (wrappedQueue.full = true ↔ (contents wrappedQueue).length = wrappedQueue.capacity) ∧
      wrappedQueue.rear = (wrappedQueue.front + wrappedQueue.size) % wrappedQueue.capacity ∧
      ∀ op : Op Nat, (wrappedQueue.apply op).map (Prod.map id contents) =
        fifoStep wrappedQueue.capacity (contents wrappedQueue) op :=
  have h : ReachableBy (fun _ => true) wrappedQueue :=
    .apply (.pushCopy 3 0) rfl (.apply (.pop 0) rfl (.apply (.pushCopy 2 0) rfl
      (.apply (.pushCopy 1 0) rfl (@ReachableBy.create Nat _ _ 2 false _ rfl) rfl) rfl) rfl) rfl
  ⟨h, rfl, logQueue_refines_fifo wrappedQueue h⟩

theorem Counted.batchLoop (n : Nat) (items : List α) (count : Nat) (h : Counted q) :
    Counted (batchLoop n items count q).2.2 := by
  induction n generalizing items count q with
  | zero => exact h
  | succ n ih =>
    simp only [LogQueue.batchLoop]
    split
    · exact ih _ _ (h.advance ‹_›)
    · exact h

theorem Counted.apply (h : Counted q) {op : Op α} (hop : op.isCopyPush = false) {r : Res α}
    {q' : LogQueue α} (he : q.apply op = some (r, q')) : Counted q' := by
  cases op with
  | pushCopy x t => cases hop
  | pushMove x t =>
    simp only [LogQueue.apply, Option.map_eq_some', Prod.exists] at he
    obtain ⟨b, q'', he', hr⟩ := he
    simp only [Prod.map, Prod.mk.injEq] at hr
    exact hr.2 ▸ h.pushMove he'
  | pop t =>
    simp only [LogQueue.apply, pop] at he
    split_ifs at he with hpos <;>
      simp only [Option.map_some', Option.map_none', Prod.map, id_eq, Option.some.injEq,
        Prod.mk.injEq, reduceCtorEq] at he <;>
      obtain ⟨-, rfl⟩ := he
    · exact h.advance hpos
    · exact h
  | popBatch items m t =>
    simp only [LogQueue.apply, popBatch] at he
    split_ifs at he <;>
      simp only [Option.map_some', Option.map_none', Prod.map, id_eq, Option.some.injEq,
        Prod.mk.injEq, reduceCtorEq] at he <;>
      obtain ⟨-, rfl⟩ := he
    · exact h
    · exact h.batchLoop m items 0
  | clear =>
    simp only [LogQueue.apply, Option.some.injEq, Prod.mk.injEq] at he
    obtain ⟨-, rfl⟩ := he
    exact h.clear

theorem counted_create {capacity : Nat} {debug : Bool} (h : create capacity debug = some q) :
    Counted q := by
  simp only [create] at h
  split_ifs at h
  cases h
  exact ⟨show 0 < uint64Size by decide, show 0 < uint64Size by decide,
    fun _ => by simp [countGap, queryWriteCount, queryReadCount]⟩

theorem ReachableBy.counted (h : ReachableBy (fun op => !op.isCopyPush) q) : Counted q := by
  induction h with
  | create h => exact counted_create h
  | apply op hop _ he ih => exact ih.apply (by simpa using hop) he

/-- For every queue that operations other than the copy overload of `push` reach from a
constructed `LogQueue` in debug mode, `write_count() - read_count()` is `size()`. -/
theorem countGap_eq_size (q : LogQueue α) (h : ReachableBy (fun op => !op.isCopyPush) q)
    (hd : q.debug = true) : countGap q = q.size % uint64Size :=
  h.counted.gap hd

def movedQueue : LogQueue Nat := ⟨2, true, [7, 8], 1, 1, 0, 1, 2⟩

theorem movedQueue_gap :
    ReachableBy (fun op => !op.isCopyPush) movedQueue ∧ countGap movedQueue = 1 ∧
      countGap movedQueue = movedQueue.size % uint64Size :=
  have h : ReachableBy (fun op => !op.isCopyPush) movedQueue :=
    .apply (.pop 0) rfl (.apply (.pushMove 8 0) rfl (.apply (.pushMove 7 0) rfl
      (@ReachableBy.create Nat _ _ 2 true _ rfl) rfl) rfl) rfl
  ⟨h, rfl, countGap_eq_size movedQueue h rfl⟩

end Elements

/-- In debug mode, from any queue whose gap is `size_`, the copy overload of `push` adds an
element, leaves `write_count()` where it was and bumps `read_count()`, so the gap is no longer
`size()`. -/
theorem pushCopy_counts_a_read {α : Type} (q : LogQueue α) (item : α) (timeoutMs : Int)
    (hd : q.debug = true) (hroom : q.size < q.capacity) (hc : Counted q) :
    ∃ q', q.pushCopy item timeoutMs = some (true, q') ∧
      queryWriteCount q' = queryWriteCount q ∧ queryReadCount q' = incr (queryReadCount q) ∧
      q'.size = q.size + 1 ∧ countGap q' ≠ q'.size % uint64Size := by
  refine ⟨{ q.store item with readCount := incr q.readCount }, by simp [LogQueue.pushCopy, hroom, hd],
    by simp [queryWriteCount, hd, LogQueue.store], by simp [queryReadCount, hd, LogQueue.store], rfl,
    ?_⟩
  have h1 := hc.gap hd
  have h2 := hc.read_lt
  simp only [countGap, queryWriteCount, queryReadCount, LogQueue.store, hd, if_true, incr,
    uint64Size] at h1 h2 ⊢
  omega

def debugQueue : LogQueue Nat := ⟨2, true, [0, 0], 0, 0, 0, 0, 0⟩

/-- One copy push on a fresh debug queue: `write_count()` stays `0` and `read_count()` becomes
`1` while `size()` is `1`. -/
theorem debugQueue_copy_push :
    create 2 true = some debugQueue ∧
      (debugQueue.pushCopy 7 0).map (fun r => (queryWriteCount r.2, queryReadCount r.2, r.2.size)) =
        some (0, 1, 1) ∧
      ∃ q', debugQueue.pushCopy 7 0 = some (true, q') ∧
        queryWriteCount q' = queryWriteCount debugQueue ∧
        queryReadCount q' = incr (queryReadCount debugQueue) ∧ q'.size = debugQueue.size + 1 ∧
        countGap q' ≠ q'.size % uint64Size :=
  ⟨rfl, rfl, pushCopy_counts_a_read debugQueue 7 0 rfl (by decide) ⟨by decide, by decide, fun _ => rfl⟩⟩

end ReactorServer.Logger.BoundedQueue
