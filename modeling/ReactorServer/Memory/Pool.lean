import Mathlib
import ReactorServer.Memory.Buffer

/-!
The chunk pool (`memory_pool.cpp`).

`MemoryPool` keeps one free list per size class (`pool_`), the cap `max_capacity_bytes_`, the
bytes handed out (`current_usage_bytes_`), the preallocated bytes and its statistics. A chunk
is known by its address, modelled as a number `id`; `nextId` stands for the addresses
`operator new` can still give, distinct from every chunk alive.

On its slow path `alloc_chunk` takes the lock twice: once to look at the free list and the cap,
and again after `new Chunk` to check the cap once more and commit. Other threads run in
between, so the system `PoolSys` holds, beside the pool, the requests of the calls waiting
between their two critical sections and the chunks handed out and not yet returned. Each
operation of the system is one critical section, with the unlocked work next to it, which
touches only the caller's own chunk.

The invariant `PoolInv` holds in every reachable system (`inv_of_reachable`): the usage is the
sum of the outstanding capacities, every free chunk is an empty chunk of its own class, and no
address is in two places. The fast path, however, hands out a free chunk without looking at the
cap (`fast_path_ignores_cap`), so the usage can pass `max_capacity_bytes_`.
-/

set_option autoImplicit false
set_option relaxedAutoImplicit false

namespace ReactorServer.Memory.Pool

open ReactorServer.Memory.Slab ReactorServer.Memory.Buffer

structure PoolStats where
  totalAllocations : Nat
  totalDeallocations : Nat
  allocationFailures : Nat
  currentUsageBytes : Nat
  peakUsageBytes : Nat
  deriving DecidableEq, Repr

/-- A chunk the pool owns or has handed out: its address and its fields. -/
structure PoolChunk where
  id : Nat
  chunk : Chunk
  deriving DecidableEq, Repr

/-- The exceptions the pool throws, with their texts. -/
inductive PoolError
  | memoryAllocationError (msg : String)
  | memoryPoolExhaustedError (msg : String)
  deriving DecidableEq, Repr

/-- `MemoryPool`; `pool` is `pool_`, a class's free list from its head. -/
structure MemoryPool where
  pool : Nat → List PoolChunk
  maxCapacityBytes : Nat
  currentUsageBytes : Nat
  preallocatedBytes : Nat
  stats : PoolStats
  nextId : Nat

namespace MemoryPool

def setFree (p : MemoryPool) (s : Nat) (l : List PoolChunk) : MemoryPool :=
  { p with pool := Function.update p.pool s l }

def fail (p : MemoryPool) : MemoryPool :=
  { p with stats := { p.stats with allocationFailures := p.stats.allocationFailures + 1 } }

/-- The bookkeeping of `alloc_chunk` when it hands out a chunk of `size` bytes. -/
def commit (p : MemoryPool) (size : Nat) : MemoryPool :=
  let usage := p.currentUsageBytes + size
  { p with
    currentUsageBytes := usage,
    stats := { p.stats with
      totalAllocations := p.stats.totalAllocations + 1,
      currentUsageBytes := usage,
      peakUsageBytes := if p.stats.peakUsageBytes < usage then usage else p.stats.peakUsageBytes } }

@[simp] theorem setFree_pool (p : MemoryPool) (s : Nat) (l : List PoolChunk) :
    (p.setFree s l).pool = Function.update p.pool s l := rfl
@[simp] theorem setFree_currentUsageBytes (p : MemoryPool) (s : Nat) (l : List PoolChunk) :
    (p.setFree s l).currentUsageBytes = p.currentUsageBytes := rfl
@[simp] theorem setFree_maxCapacityBytes (p : MemoryPool) (s : Nat) (l : List PoolChunk) :
    (p.setFree s l).maxCapacityBytes = p.maxCapacityBytes := rfl
@[simp] theorem commit_pool (p : MemoryPool) (size : Nat) : (p.commit size).pool = p.pool := rfl
@[simp] theorem commit_currentUsageBytes (p : MemoryPool) (size : Nat) :
    (p.commit size).currentUsageBytes = p.currentUsageBytes + size := rfl
@[simp] theorem commit_maxCapacityBytes (p : MemoryPool) (size : Nat) :
    (p.commit size).maxCapacityBytes = p.maxCapacityBytes := rfl

/-- `MemoryPool::preallocate_chunks(chunk_size, count)`; `newOk` is whether every
`new Chunk(chunk_size)` succeeds. The new chunks go before the class's free list. -/
def preallocateChunks (p : MemoryPool) (chunkSize count : Nat) (newOk : Bool) :
    Except PoolError MemoryPool :=
  if chunkSize = 0 ∨ count = 0 then .ok p
  else if newOk = false then
    .error (.memoryAllocationError ("Failed to preallocate chunk of size: " ++ toString chunkSize))
  else if p.maxCapacityBytes < p.preallocatedBytes + chunkSize * count then
    .error (.memoryPoolExhaustedError
      ("Preallocation exceeds maximum pool capacity: " ++ toString p.maxCapacityBytes))
  else
    let nodes := (List.range count).map fun i => PoolChunk.mk (p.nextId + i) (Chunk.new chunkSize)
    .ok { p.setFree chunkSize (nodes ++ p.pool chunkSize) with
      preallocatedBytes := p.preallocatedBytes + chunkSize * count,
      nextId := p.nextId + count }

/-- The classes and counts `initialize_pool` preallocates, in its order. -/
def preallocation : List (Nat × Nat) :=
  [(memSizes.getD 0 0, 200), (memSizes.getD 1 0, 50), (memSizes.getD 2 0, 20),
    (memSizes.getD 3 0, 10), (memSizes.getD 4 0, 5), (memSizes.getD 5 0, 2)]

/-- `MemoryPool::initialize_pool`; `newOk s` is whether the chunks of class `s` can be made. -/
def initializePool (p : MemoryPool) (newOk : Nat → Bool) : Except PoolError MemoryPool :=
  preallocation.foldlM (fun p sc => preallocateChunks p sc.1 sc.2 (newOk sc.1)) p

/-- The pool `MemoryPool::MemoryPool()` starts from: no chunk, a cap of 128 MiB. -/
def empty : MemoryPool := ⟨fun _ => [], 128 * 1024 * 1024, 0, 0, ⟨0, 0, 0, 0, 0⟩, 0⟩

def create (newOk : Nat → Bool) : Except PoolError MemoryPool := initializePool empty newOk

/-- Where a call of `alloc_chunk` stands after its first critical section: it has returned or
thrown, or it has released the lock to make a new chunk. -/
inductive AllocStage
  | done (r : Except PoolError (Option PoolChunk))
  | slow

/-- `MemoryPool::alloc_chunk(n)` up to the end of its first critical section. -/
def allocEnter (p : MemoryPool) (n : Nat) : MemoryPool × AllocStage :=
  if n = 0 then (p, .done (.ok none))
  else
    let chunkSize := findSuitableSize n
    if chunkSize = 0 then (p.fail, .done (.ok none))
    else
      match p.pool chunkSize with
      | c :: rest => ((p.setFree chunkSize rest).commit chunkSize, .done (.ok (some c)))
      | [] =>
        if p.maxCapacityBytes < p.currentUsageBytes + chunkSize then
          (p.fail, .done (.error
            (.memoryPoolExhaustedError "Allocation would exceed maximum pool capacity")))
        else (p, .slow)

/-- The rest of the slow path of `alloc_chunk`: `new Chunk(chunk_size)`, which succeeds iff
`newOk`, then the second critical section. -/
def allocFinish (p : MemoryPool) (chunkSize : Nat) (newOk : Bool) :
    MemoryPool × Except PoolError (Option PoolChunk) :=
  if newOk = false then
    (p.fail, .error (.memoryAllocationError
      ("Failed to allocate chunk of size: " ++ toString chunkSize)))
  else if p.maxCapacityBytes < p.currentUsageBytes + chunkSize then
    (p.fail, .error (.memoryPoolExhaustedError
      "Allocation would exceed maximum pool capacity (after recheck)"))
  else
    ({ p.commit chunkSize with nextId := p.nextId + 1 },
      .ok (some ⟨p.nextId, Chunk.new chunkSize⟩))

/-- `MemoryPool::alloc_chunk(n)` with no other thread in between. -/
def allocChunk (p : MemoryPool) (n : Nat) (newOk : Bool) :
    MemoryPool × Except PoolError (Option PoolChunk) :=
  match allocEnter p n with
  | (p, .done r) => (p, r)
  | (p, .slow) => allocFinish p (findSuitableSize n) newOk

/-- `MemoryPool::retrieve(chunk)`; `none` is `nullptr`. -/
def retrieve (p : MemoryPool) (chunk : Option PoolChunk) : MemoryPool :=
  match chunk with
  | none => p
  | some c =>
    let chunkSize := c.chunk.capacity
    if chunkSize = 0 then p
    else if isSupportedSize chunkSize = false then p
    else
      let p := p.setFree chunkSize ({ c with chunk := c.chunk.clear } :: p.pool chunkSize)
      let usage := if chunkSize ≤ p.currentUsageBytes then p.currentUsageBytes - chunkSize else 0
      { p with
        currentUsageBytes := usage,
        stats := { p.stats with
          currentUsageBytes := usage,
          totalDeallocations := p.stats.totalDeallocations + 1 } }

/-! ### What each operation does -/

theorem findSuitableSize_pos {n : Nat} (h0 : 0 < n) (hn : n ≤ 4096 * 1024) :
    findSuitableSize n ≠ 0 := by
  have := (findSuitableSize_spec n hn).2.1
  omega

theorem allocEnter_of_cons (p : MemoryPool) {n : Nat} {c : PoolChunk} {rest : List PoolChunk}
    (h0 : 0 < n) (hn : n ≤ 4096 * 1024) (hs : p.pool (findSuitableSize n) = c :: rest) :
    allocEnter p n = ((p.setFree (findSuitableSize n) rest).commit (findSuitableSize n),
      .done (.ok (some c))) := by
  simp [allocEnter, Nat.pos_iff_ne_zero.1 h0, findSuitableSize_pos h0 hn, hs]

theorem allocEnter_of_nil (p : MemoryPool) {n : Nat} (h0 : 0 < n) (hn : n ≤ 4096 * 1024)
    (hs : p.pool (findSuitableSize n) = []) :
    allocEnter p n =
      if p.maxCapacityBytes < p.currentUsageBytes + findSuitableSize n then
        (p.fail, .done (.error
          (.memoryPoolExhaustedError "Allocation would exceed maximum pool capacity")))
      else (p, .slow) := by
  simp [allocEnter, Nat.pos_iff_ne_zero.1 h0, findSuitableSize_pos h0 hn, hs]

theorem allocEnter_of_unsupported (p : MemoryPool) {n : Nat} (h : ¬ (0 < n ∧ n ≤ 4096 * 1024)) :
    allocEnter p n = (p, .done (.ok none)) ∨ allocEnter p n = (p.fail, .done (.ok none)) := by
  by_cases h0 : n = 0
  · simp [allocEnter, h0]
  · simp [allocEnter, h0, findSuitableSize_eq_zero n (by omega)]

theorem allocFinish_cases (p : MemoryPool) (s : Nat) (newOk : Bool) :
    (∃ e, allocFinish p s newOk = (p.fail, .error e)) ∨
      allocFinish p s newOk =
        ({ p.commit s with nextId := p.nextId + 1 }, .ok (some ⟨p.nextId, Chunk.new s⟩)) := by
  unfold allocFinish
  split_ifs
  · exact .inl ⟨_, rfl⟩
  · exact .inl ⟨_, rfl⟩
  · exact .inr rfl

theorem retrieve_of_mem (p : MemoryPool) (c : PoolChunk) (hs : c.chunk.capacity ∈ memSizes) :
    p.retrieve (some c) =
      let p := p.setFree c.chunk.capacity
        (⟨c.id, Chunk.new c.chunk.capacity⟩ :: p.pool c.chunk.capacity)
      let usage := if c.chunk.capacity ≤ p.currentUsageBytes then
        p.currentUsageBytes - c.chunk.capacity else 0
      { p with
        currentUsageBytes := usage,
        stats := { p.stats with
          currentUsageBytes := usage,
          totalDeallocations := p.stats.totalDeallocations + 1 } } := by
  have h0 : c.chunk.capacity ≠ 0 := by
    intro h; rw [h] at hs; simp [memSizes] at hs
  simp only [retrieve, h0, (isSupportedSize_iff _).2 hs, if_false]
  rfl

end MemoryPool

open MemoryPool

/-! ### The pool and its threads -/

/-- The pool with the threads using it: the requests of the `alloc_chunk` calls between their
two critical sections, and the chunks handed out and not yet returned. -/
structure PoolSys where
  pool : MemoryPool
  slow : List Nat
  outstanding : List PoolChunk

/-- One critical section of some thread: a call `alloc_chunk(n)` up to its first unlock; the
slow path of the `i`-th waiting call; or the owner of the `i`-th outstanding chunk, having left
`head` and `bytes` in it, calling `retrieve` on it. -/
inductive PoolOp
  | allocChunk (n : Nat)
  | finish (i : Nat) (newOk : Bool)
  | retrieve (i : Nat) (head : Nat) (bytes : List UInt8)
  deriving DecidableEq, Repr

def handOut (out : List PoolChunk) : Except PoolError (Option PoolChunk) → List PoolChunk
  | .ok (some c) => out ++ [c]
  | _ => out

namespace PoolSys

def step (sys : PoolSys) : PoolOp → PoolSys
  | .allocChunk n =>
    match allocEnter sys.pool n with
    | (p, .done r) => ⟨p, sys.slow, handOut sys.outstanding r⟩
    | (p, .slow) => ⟨p, sys.slow ++ [n], sys.outstanding⟩
  | .finish i newOk =>
    if h : i < sys.slow.length then
      let r := allocFinish sys.pool (findSuitableSize sys.slow[i]) newOk
      ⟨r.1, sys.slow.eraseIdx i, handOut sys.outstanding r.2⟩
    else sys
  | .retrieve i head bytes =>
    if h : i < sys.outstanding.length then
      let c := sys.outstanding[i]
      ⟨sys.pool.retrieve (some { c with chunk := { c.chunk with head := head, bytes := bytes } }),
        sys.slow, sys.outstanding.eraseIdx i⟩
    else sys

def run (sys : PoolSys) (ops : List PoolOp) : PoolSys := ops.foldl step sys

@[simp] theorem step_allocChunk_pool (sys : PoolSys) (n : Nat) :
    (sys.step (.allocChunk n)).pool = (allocEnter sys.pool n).1 := by
  rcases hx : allocEnter sys.pool n with ⟨p, _ | _⟩ <;> simp [step, hx]

end PoolSys

inductive Reachable : PoolSys → Prop
  | init {p : MemoryPool} {newOk : Nat → Bool} : create newOk = .ok p → Reachable ⟨p, [], []⟩
  | step {sys : PoolSys} (op : PoolOp) : Reachable sys → Reachable (sys.step op)

theorem reachable_run {sys : PoolSys} (h : Reachable sys) (ops : List PoolOp) :
    Reachable (sys.run ops) := by
  induction ops generalizing sys with
  | nil => exact h
  | cons op ops ih => exact ih (.step op h)

/-- The pool as the constructor builds it when every `new` succeeds. -/
def initialPool : MemoryPool :=
  match create fun _ => true with
  | .ok p => p
  | .error _ => empty

theorem create_ok : create (fun _ => true) = .ok initialPool := rfl

/-! ### No address in two places -/

/-- Each free list holds distinct chunks, no chunk is in two free lists, and the outstanding
chunks are distinct and in no free list. -/
structure Unique (free : Nat → List PoolChunk) (out : List PoolChunk) : Prop where
  free_nodup : ∀ s, ((free s).map PoolChunk.id).Nodup
  free_disjoint : ∀ s t, s ≠ t → ∀ c ∈ free s, ∀ d ∈ free t, c.id ≠ d.id
  out_nodup : (out.map PoolChunk.id).Nodup
  free_out : ∀ s, ∀ c ∈ free s, ∀ d ∈ out, c.id ≠ d.id

section Unique

variable {free : Nat → List PoolChunk} {out : List PoolChunk}

theorem mem_update {s t : Nat} {l : List PoolChunk} {c : PoolChunk} :
    c ∈ Function.update free s l t ↔ (t = s ∧ c ∈ l) ∨ (t ≠ s ∧ c ∈ free t) := by
  by_cases h : t = s
  · subst h; simp
  · simp [Function.update_noteq h, h]

theorem id_not_mem {c : PoolChunk} {l : List PoolChunk} :
    c.id ∉ l.map PoolChunk.id ↔ ∀ d ∈ l, c.id ≠ d.id := by
  simp only [List.mem_map, not_exists, not_and]
  exact forall₂_congr fun d _ => ne_comm

theorem unique_pop {s : Nat} {c : PoolChunk} {rest : List PoolChunk} (h : Unique free out)
    (hs : free s = c :: rest) : Unique (Function.update free s rest) (out ++ [c]) := by
  have hc : c ∈ free s := by simp [hs]
  have hrest : c.id ∉ rest.map PoolChunk.id ∧ (rest.map PoolChunk.id).Nodup := by
    simpa [hs] using h.free_nodup s
  have sub : ∀ t, ∀ d ∈ Function.update free s rest t, d ∈ free t := by
    intro t d hd
    rcases mem_update.1 hd with ⟨rfl, hd'⟩ | ⟨-, hd'⟩
    · simp [hs, hd']
    · exact hd'
  refine ⟨fun t => ?_, fun t u htu a ha b hb => h.free_disjoint t u htu a (sub t a ha) b
    (sub u b hb), ?_, fun t a ha d hd => ?_⟩
  · by_cases ht : t = s
    · subst ht; simpa using hrest.2
    · simpa [Function.update_noteq ht] using h.free_nodup t
  · rw [List.map_append, List.nodup_append]
    refine ⟨h.out_nodup, List.nodup_singleton _, List.disjoint_singleton.2 ?_⟩
    exact id_not_mem.2 fun d hd => h.free_out s c hc d hd
  · rcases List.mem_append.1 hd with hd | hd
    · exact h.free_out t a (sub t a ha) d hd
    · rw [List.mem_singleton.1 hd]
      rcases mem_update.1 ha with ⟨rfl, ha'⟩ | ⟨ht, ha'⟩
      · exact (id_not_mem.1 hrest.1 a ha').symm
      · exact h.free_disjoint t s ht a ha' c hc

theorem unique_push {l₁ l₂ : List PoolChunk} {c c' : PoolChunk} (s : Nat)
    (h : Unique free (l₁ ++ c :: l₂)) (hid : c'.id = c.id) :
    Unique (Function.update free s (c' :: free s)) (l₁ ++ l₂) := by
  have hout : c.id ∉ (l₁ ++ l₂).map PoolChunk.id ∧ ((l₁ ++ l₂).map PoolChunk.id).Nodup := by
    have := h.out_nodup
    rw [List.map_append, List.map_cons, List.nodup_middle, List.nodup_cons] at this
    rwa [List.map_append]
  have hc : ∀ t, ∀ a ∈ free t, a.id ≠ c'.id := fun t a ha => hid ▸ h.free_out t a ha c (by simp)
  have sub : ∀ t, ∀ a ∈ Function.update free s (c' :: free s) t,
      (t = s ∧ a = c') ∨ a ∈ free t := by
    intro t a ha
    rcases mem_update.1 ha with ⟨rfl, ha'⟩ | ⟨-, ha'⟩
    · rcases List.mem_cons.1 ha' with rfl | ha'
      · exact .inl ⟨rfl, rfl⟩
      · exact .inr ha'
    · exact .inr ha'
  refine ⟨fun t => ?_, fun t u htu a ha b hb => ?_, hout.2, fun t a ha d hd => ?_⟩
  · by_cases ht : t = s
    · subst ht
      rw [Function.update_same, List.map_cons, List.nodup_cons]
      exact ⟨id_not_mem.2 fun a ha => (hc t a ha).symm, h.free_nodup t⟩
    · simpa [Function.update_noteq ht] using h.free_nodup t
  · rcases sub t a ha with ⟨rfl, rfl⟩ | ha' <;> rcases sub u b hb with ⟨rfl, rfl⟩ | hb'
    · exact absurd rfl htu
    · exact (hc u b hb').symm
    · exact hc t a ha'
    · exact h.free_disjoint t u htu a ha' b hb'
  · have hd' : d ∈ l₁ ++ c :: l₂ := by
      rcases List.mem_append.1 hd with hd | hd <;> simp [hd]
    rcases sub t a ha with ⟨-, rfl⟩ | ha'
    · rw [hid]; exact id_not_mem.1 hout.1 d hd
    · exact h.free_out t a ha' d hd'

theorem unique_fresh_out {k : Nat} (ch : Chunk) (h : Unique free out)
    (hfree : ∀ s, ∀ c ∈ free s, c.id < k) (hout : ∀ d ∈ out, d.id < k) :
    Unique free (out ++ [⟨k, ch⟩]) := by
  refine ⟨h.free_nodup, h.free_disjoint, ?_, fun s c hc d hd => ?_⟩
  · rw [List.map_append, List.nodup_append]
    refine ⟨h.out_nodup, List.nodup_singleton _, List.disjoint_singleton.2 ?_⟩
    simp only [List.mem_map, not_exists, not_and]
    exact fun d hd he => by have := hout d hd; omega
  · rcases List.mem_append.1 hd with hd | hd
    · exact h.free_out s c hc d hd
    · rw [List.mem_singleton.1 hd]; have := hfree s c hc; simp; omega

/-- The chunks `preallocate_chunks` makes, at the addresses from `k` on. -/
def freshNodes (k count : Nat) (ch : Chunk) : List PoolChunk :=
  (List.range count).map fun i => PoolChunk.mk (k + i) ch

theorem mem_freshNodes {k count : Nat} {ch : Chunk} {c : PoolChunk} :
    c ∈ freshNodes k count ch ↔ ∃ i < count, c = ⟨k + i, ch⟩ := by
  simp [freshNodes, eq_comm]

theorem unique_fresh_free {k count : Nat} (s : Nat) (ch : Chunk) (h : Unique free out)
    (hfree : ∀ s, ∀ c ∈ free s, c.id < k) (hout : ∀ d ∈ out, d.id < k) :
    Unique (Function.update free s (freshNodes k count ch ++ free s)) out := by
  have old : ∀ t, ∀ a ∈ Function.update free s (freshNodes k count ch ++ free s) t,
      k ≤ a.id ∨ a ∈ free t := by
    intro t a ha
    rcases mem_update.1 ha with ⟨rfl, ha⟩ | ⟨-, ha⟩
    · rcases List.mem_append.1 ha with ha | ha
      · obtain ⟨i, -, rfl⟩ := mem_freshNodes.1 ha; exact .inl (Nat.le_add_right _ _)
      · exact .inr ha
    · exact .inr ha
  refine ⟨fun t => ?_, fun t u htu a ha b hb => ?_, h.out_nodup, fun t a ha d hd => ?_⟩
  · by_cases ht : t = s
    · subst ht
      rw [Function.update_same, List.map_append, List.nodup_append]
      refine ⟨?_, h.free_nodup t, fun x hx hy => ?_⟩
      · simpa [freshNodes, List.map_map, Function.comp_def] using
          (List.nodup_range count).map (fun i j hij => Nat.add_left_cancel hij)
      · simp only [freshNodes, List.map_map, List.mem_map, List.mem_range,
          Function.comp_def] at hx hy
        obtain ⟨i, -, rfl⟩ := hx
        obtain ⟨b, hb, he⟩ := hy
        have := hfree t b hb; omega
    · simpa [Function.update_noteq ht] using h.free_nodup t
  · rcases old t a ha with ha' | ha' <;> rcases old u b hb with hb' | hb'
    · rcases mem_update.1 ha with ⟨rfl, -⟩ | ⟨ht, ha⟩
      · rcases mem_update.1 hb with ⟨rfl, -⟩ | ⟨-, hb⟩
        · exact absurd rfl htu
        · have := hfree u b hb; omega
      · have := hfree t a ha; omega
    · have := hfree u b hb'; omega
    · have := hfree t a ha'; omega
    · exact h.free_disjoint t u htu a ha' b hb'
  · rcases old t a ha with ha' | ha'
    · have := hout d hd; omega
    · exact h.free_out t a ha' d hd

end Unique

/-! ### The invariant -/

def capacities (l : List PoolChunk) : Nat := (l.map fun c => c.chunk.capacity).sum

@[simp] theorem capacities_nil : capacities [] = 0 := rfl
@[simp] theorem capacities_cons (c : PoolChunk) (l : List PoolChunk) :
    capacities (c :: l) = c.chunk.capacity + capacities l := by simp [capacities]
@[simp] theorem capacities_append (l l' : List PoolChunk) :
    capacities (l ++ l') = capacities l + capacities l' := by
  induction l with
  | nil => simp
  | cons c l ih => simp [ih, Nat.add_assoc]

/-- What holds of the pool and its threads at every reachable point. -/
structure PoolInv (sys : PoolSys) : Prop where
  usage_eq : sys.pool.currentUsageBytes = capacities sys.outstanding
  free_new : ∀ s, ∀ c ∈ sys.pool.pool s, s ∈ memSizes ∧ c.chunk = Chunk.new s
  out_class : ∀ c ∈ sys.outstanding, c.chunk.capacity ∈ memSizes
  slow_req : ∀ n ∈ sys.slow, 0 < n ∧ n ≤ 4096 * 1024
  unique : Unique sys.pool.pool sys.outstanding
  fresh_free : ∀ s, ∀ c ∈ sys.pool.pool s, c.id < sys.pool.nextId
  fresh_out : ∀ c ∈ sys.outstanding, c.id < sys.pool.nextId
  stats_usage : sys.pool.stats.currentUsageBytes = sys.pool.currentUsageBytes
  usage_le_peak : sys.pool.currentUsageBytes ≤ sys.pool.stats.peakUsageBytes
  allocations :
    sys.pool.stats.totalAllocations = sys.pool.stats.totalDeallocations + sys.outstanding.length

section Preserve

variable {sys : PoolSys}

theorem forall_mem_append_singleton {P : PoolChunk → Prop} {l : List PoolChunk} {c : PoolChunk}
    (hl : ∀ d ∈ l, P d) (hc : P c) : ∀ d ∈ l ++ [c], P d :=
  List.forall_mem_append.2 ⟨hl, List.forall_mem_singleton.2 hc⟩

theorem inv_empty : PoolInv ⟨empty, [], []⟩ :=
  ⟨rfl, by simp [empty], by simp, by simp, ⟨by simp [empty], by simp [empty], by simp,
    by simp [empty]⟩, by simp [empty], by simp, rfl, le_rfl, rfl⟩

theorem inv_fail (h : PoolInv sys) : PoolInv ⟨sys.pool.fail, sys.slow, sys.outstanding⟩ :=
  ⟨h.1, h.2, h.3, h.4, h.5, h.6, h.7, h.8, h.9, h.10⟩

theorem inv_sublist_slow {sl : List Nat} (h : PoolInv sys) (hs : sl.Sublist sys.slow) :
    PoolInv ⟨sys.pool, sl, sys.outstanding⟩ :=
  ⟨h.1, h.2, h.3, fun n hn => h.4 n (hs.subset hn), h.5, h.6, h.7, h.8, h.9, h.10⟩

theorem inv_pop {s : Nat} {c : PoolChunk} {rest : List PoolChunk} (h : PoolInv sys)
    (hs : sys.pool.pool s = c :: rest) :
    PoolInv ⟨(sys.pool.setFree s rest).commit s, sys.slow, sys.outstanding ++ [c]⟩ := by
  have hc : s ∈ memSizes ∧ c.chunk = Chunk.new s := h.free_new s c (by simp [hs])
  have sub : ∀ t, ∀ d ∈ Function.update sys.pool.pool s rest t, d ∈ sys.pool.pool t := by
    intro t d hd
    rcases mem_update.1 hd with ⟨rfl, hd'⟩ | ⟨-, hd'⟩
    · simp [hs, hd']
    · exact hd'
  refine ⟨?_, fun t d hd => h.free_new t d (sub t d hd),
    forall_mem_append_singleton h.out_class (by simpa [hc.2] using hc.1), h.slow_req,
    unique_pop h.unique hs, fun t d hd => h.fresh_free t d (sub t d hd),
    forall_mem_append_singleton h.fresh_out (h.fresh_free s c (by simp [hs])), rfl, ?_, ?_⟩
  · simp [h.usage_eq, hc.2]
  · simp only [commit, setFree]; split_ifs <;> omega
  · simp only [commit, setFree, List.length_append, List.length_singleton, h.allocations]
    omega

theorem inv_slow {n : Nat} (h : PoolInv sys) (hn : 0 < n ∧ n ≤ 4096 * 1024) :
    PoolInv ⟨sys.pool, sys.slow ++ [n], sys.outstanding⟩ :=
  ⟨h.1, h.2, h.3, List.forall_mem_append.2 ⟨h.4, List.forall_mem_singleton.2 hn⟩, h.5, h.6, h.7,
    h.8, h.9, h.10⟩

theorem inv_new {s : Nat} (h : PoolInv sys) (hs : s ∈ memSizes) :
    PoolInv ⟨{ sys.pool.commit s with nextId := sys.pool.nextId + 1 }, sys.slow,
      sys.outstanding ++ [⟨sys.pool.nextId, Chunk.new s⟩]⟩ := by
  refine ⟨by simp [h.usage_eq], h.free_new, forall_mem_append_singleton h.out_class hs,
    h.slow_req, unique_fresh_out _ h.unique h.fresh_free h.fresh_out,
    fun t d hd => Nat.lt_succ_of_lt (h.fresh_free t d hd),
    forall_mem_append_singleton (fun d hd => Nat.lt_succ_of_lt (h.fresh_out d hd))
      (Nat.lt_succ_self _), rfl, ?_, ?_⟩
  · simp only [commit]; split_ifs <;> omega
  · simp only [commit, List.length_append, List.length_singleton, h.allocations]
    omega

theorem inv_retrieve {l₁ l₂ : List PoolChunk} {c : PoolChunk} (hd : Nat) (b : List UInt8)
    (h : PoolInv sys) (hout : sys.outstanding = l₁ ++ c :: l₂) :
    PoolInv ⟨sys.pool.retrieve (some { c with chunk := { c.chunk with head := hd, bytes := b } }),
      sys.slow, l₁ ++ l₂⟩ := by
  have hmem : ∀ d ∈ l₁ ++ l₂, d ∈ sys.outstanding := by
    intro d hd; rw [hout]; rcases List.mem_append.1 hd with hd | hd <;> simp [hd]
  have hcm : c ∈ sys.outstanding := by simp [hout]
  have hs : c.chunk.capacity ∈ memSizes := h.out_class c hcm
  have hu := h.usage_eq
  rw [hout, capacities_append, capacities_cons] at hu
  have hsat : c.chunk.capacity ≤ sys.pool.currentUsageBytes := by omega
  have hU : Unique sys.pool.pool (l₁ ++ c :: l₂) := by rw [← hout]; exact h.unique
  rw [retrieve_of_mem sys.pool { c with chunk := { c.chunk with head := hd, bytes := b } } hs]
  refine ⟨?_, fun t d hd => ?_, fun d hd => h.out_class d (hmem d hd), h.slow_req,
    unique_push _ hU rfl, fun t d hd => ?_, fun d hd => h.fresh_out d (hmem d hd),
    rfl, ?_, ?_⟩
  · simp only [setFree, hsat, if_true, capacities_append]; omega
  · rcases mem_update.1 hd with ⟨rfl, hd'⟩ | ⟨-, hd'⟩
    · rcases List.mem_cons.1 hd' with rfl | hd'
      · exact ⟨hs, rfl⟩
      · exact h.free_new _ d hd'
    · exact h.free_new t d hd'
  · rcases mem_update.1 hd with ⟨rfl, hd'⟩ | ⟨-, hd'⟩
    · rcases List.mem_cons.1 hd' with rfl | hd'
      · exact h.fresh_out c hcm
      · exact h.fresh_free _ d hd'
    · exact h.fresh_free t d hd'
  · simp only [setFree, hsat, if_true]; have := h.usage_le_peak; omega
  · have := h.allocations
    simp only [hout, List.length_append, List.length_cons] at this
    simp only [setFree, List.length_append]; omega

theorem inv_preallocate {p : MemoryPool} {s count : Nat} {newOk : Bool}
    (h : PoolInv sys) (hs : s ∈ memSizes)
    (hp : preallocateChunks sys.pool s count newOk = .ok p) :
    PoolInv ⟨p, sys.slow, sys.outstanding⟩ := by
  unfold preallocateChunks at hp
  split_ifs at hp
  · cases hp; exact h
  cases hp
  have hfresh : ∀ t, ∀ a ∈ Function.update sys.pool.pool s
      (freshNodes sys.pool.nextId count (Chunk.new s) ++ sys.pool.pool s) t,
      (t = s ∧ a.chunk = Chunk.new s ∧ a.id < sys.pool.nextId + count) ∨ a ∈ sys.pool.pool t := by
    intro t a ha
    rcases mem_update.1 ha with ⟨rfl, ha'⟩ | ⟨-, ha'⟩
    · rcases List.mem_append.1 ha' with ha' | ha'
      · obtain ⟨i, hi, rfl⟩ := mem_freshNodes.1 ha'
        exact .inl ⟨rfl, rfl, by simp only; omega⟩
      · exact .inr ha'
    · exact .inr ha'
  refine ⟨h.usage_eq, fun t a ha => ?_, h.out_class, h.slow_req,
    unique_fresh_free s _ h.unique h.fresh_free h.fresh_out, fun t a ha => ?_,
    fun d hd => by have := h.fresh_out d hd; simp only; omega, h.stats_usage, h.usage_le_peak,
    h.allocations⟩
  · rcases hfresh t a ha with ⟨rfl, ha', -⟩ | ha'
    · exact ⟨hs, ha'⟩
    · exact h.free_new t a ha'
  · rcases hfresh t a ha with ⟨-, -, ha'⟩ | ha'
    · exact ha'
    · have := h.fresh_free t a ha'; simp only; omega

theorem preallocation_classes : ∀ sc ∈ preallocation, sc.1 ∈ memSizes := by decide

theorem inv_create {p : MemoryPool} {newOk : Nat → Bool} (hp : create newOk = .ok p) :
    PoolInv ⟨p, [], []⟩ := by
  suffices ∀ (table : List (Nat × Nat)) (q : MemoryPool), (∀ sc ∈ table, sc.1 ∈ memSizes) →
      PoolInv ⟨q, [], []⟩ →
      table.foldlM (fun p sc => preallocateChunks p sc.1 sc.2 (newOk sc.1)) q = .ok p →
      PoolInv ⟨p, [], []⟩ from this _ _ preallocation_classes inv_empty hp
  intro table
  induction table with
  | nil => intro q _ hq h; cases h; exact hq
  | cons sc table ih =>
    intro q ht hq h
    simp only [List.foldlM_cons] at h
    cases hq' : preallocateChunks q sc.1 sc.2 (newOk sc.1) with
    | error e => rw [hq'] at h; cases h
    | ok q' =>
      rw [hq'] at h
      exact ih q' (fun sc' h' => ht sc' (by simp [h'])) (inv_preallocate hq (ht sc (by simp)) hq') h

theorem inv_allocChunk (h : PoolInv sys) (n : Nat) : PoolInv (sys.step (.allocChunk n)) := by
  by_cases hn : 0 < n ∧ n ≤ 4096 * 1024
  · cases hs : sys.pool.pool (findSuitableSize n) with
    | cons c rest =>
      simp only [PoolSys.step, allocEnter_of_cons _ hn.1 hn.2 hs, handOut]
      exact inv_pop h hs
    | nil =>
      simp only [PoolSys.step, allocEnter_of_nil _ hn.1 hn.2 hs]
      split_ifs
      · exact inv_fail h
      · exact inv_slow h hn
  · rcases allocEnter_of_unsupported sys.pool hn with he | he <;>
      simp only [PoolSys.step, he, handOut]
    · exact h
    · exact inv_fail h

theorem inv_finish (h : PoolInv sys) (i : Nat) (newOk : Bool) :
    PoolInv (sys.step (.finish i newOk)) := by
  simp only [PoolSys.step]
  split
  · rename_i hi
    have hs := (findSuitableSize_spec _ (h.slow_req _ (List.getElem_mem hi)).2).1
    have h' := inv_sublist_slow h (List.eraseIdx_sublist sys.slow i)
    rcases allocFinish_cases sys.pool (findSuitableSize sys.slow[i]) newOk with ⟨e, he⟩ | he <;>
      simp only [he, handOut]
    · exact inv_fail h'
    · exact inv_new h' hs
  · exact h

theorem inv_retrieveOp (h : PoolInv sys) (i hd : Nat) (b : List UInt8) :
    PoolInv (sys.step (.retrieve i hd b)) := by
  simp only [PoolSys.step]
  split
  · rename_i hi
    rw [List.eraseIdx_eq_take_drop_succ]
    exact inv_retrieve hd b h (by rw [← List.drop_eq_getElem_cons hi, List.take_append_drop])
  · exact h

theorem inv_step (h : PoolInv sys) : ∀ op, PoolInv (sys.step op)
  | .allocChunk n => inv_allocChunk h n
  | .finish i newOk => inv_finish h i newOk
  | .retrieve i hd b => inv_retrieveOp h i hd b

end Preserve

theorem inv_of_reachable {sys : PoolSys} (h : Reachable sys) : PoolInv sys := by
  induction h with
  | init hp => exact inv_create hp
  | step op _ ih => exact inv_step ih op

/-! ### What `alloc_chunk` hands out -/

def SmallestClass (n s : Nat) : Prop := s ∈ memSizes ∧ n ≤ s ∧ ∀ t ∈ memSizes, n ≤ t → s ≤ t

/-- How a critical section of a call `alloc_chunk(n)` may end the call, from the system `sys`:
it hands out an empty chunk, not outstanding, of the smallest class holding `n`; or it throws,
leaving the usage and every free list as they were. -/
def AllocOutcome (sys : PoolSys) (n : Nat) (res : MemoryPool × Except PoolError (Option PoolChunk)) :
    Prop :=
  (∃ c, res.2 = .ok (some c) ∧ c.id ∉ sys.outstanding.map PoolChunk.id ∧ c.chunk.head = 0 ∧
      c.chunk.length = 0 ∧ SmallestClass n c.chunk.capacity) ∨
    (∃ e, res.2 = .error e ∧ res.1.currentUsageBytes = sys.pool.currentUsageBytes ∧
      res.1.pool = sys.pool.pool)

/-- The first critical section of `alloc_chunk(n)` ends the call as `AllocOutcome` says, or
leaves for the slow path with the usage and every free list as they were. -/
def EnterOutcome (sys : PoolSys) (n : Nat) : Prop :=
  match allocEnter sys.pool n with
  | (p, .done r) => AllocOutcome sys n (p, r)
  | (p, .slow) => p.currentUsageBytes = sys.pool.currentUsageBytes ∧ p.pool = sys.pool.pool

section Outcome

variable {sys : PoolSys} {n : Nat}

theorem smallestClass_findSuitableSize (hn : n ≤ 4096 * 1024) :
    SmallestClass n (findSuitableSize n) :=
  findSuitableSize_spec n hn

theorem allocOutcome_fail (e : PoolError) :
    AllocOutcome sys n (sys.pool.fail, .error e) :=
  .inr ⟨e, rfl, rfl, rfl⟩

theorem allocOutcome_new (h : PoolInv sys) (hn : n ≤ 4096 * 1024) :
    AllocOutcome sys n ({ sys.pool.commit (findSuitableSize n) with nextId := sys.pool.nextId + 1 },
      .ok (some ⟨sys.pool.nextId, Chunk.new (findSuitableSize n)⟩)) :=
  .inl ⟨_, rfl, fun hm => by
    obtain ⟨d, hd, he⟩ := List.mem_map.1 hm
    exact absurd (h.fresh_out d hd) (by simp [he]), rfl, rfl,
    smallestClass_findSuitableSize hn⟩

theorem enter_outcome (h : PoolInv sys) (h0 : 0 < n) (hn : n ≤ 4096 * 1024) :
    EnterOutcome sys n := by
  unfold EnterOutcome
  cases hs : sys.pool.pool (findSuitableSize n) with
  | cons c rest =>
    rw [allocEnter_of_cons _ h0 hn hs]
    have hc := h.free_new (findSuitableSize n) c (by simp [hs])
    refine .inl ⟨c, rfl, id_not_mem.2 (h.unique.free_out (findSuitableSize n) c (by simp [hs])), ?_, ?_, ?_⟩ <;>
      simp [hc.2, smallestClass_findSuitableSize hn]
  | nil =>
    rw [allocEnter_of_nil _ h0 hn hs]
    split_ifs
    · exact allocOutcome_fail _
    · exact ⟨rfl, rfl⟩

theorem finish_outcome (h : PoolInv sys) (i : Nat) (hi : i < sys.slow.length) (newOk : Bool) :
    AllocOutcome sys sys.slow[i] (allocFinish sys.pool (findSuitableSize sys.slow[i]) newOk) := by
  have hreq := h.slow_req _ (List.getElem_mem hi)
  rcases allocFinish_cases sys.pool (findSuitableSize sys.slow[i]) newOk with ⟨e, he⟩ | he <;>
    rw [he]
  · exact allocOutcome_fail e
  · exact allocOutcome_new h hreq.2

theorem allocChunk_outcome (h : PoolInv sys) (h0 : 0 < n) (hn : n ≤ 4096 * 1024)
    (newOk : Bool) : AllocOutcome sys n (allocChunk sys.pool n newOk) := by
  have he := enter_outcome h h0 hn
  unfold EnterOutcome at he
  unfold allocChunk
  split
  · rename_i p r hr; rw [hr] at he; exact he
  · rename_i p hr
    rw [hr] at he
    obtain ⟨-, -⟩ := he
    have hp : p = sys.pool := by
      cases hs : sys.pool.pool (findSuitableSize n) with
      | cons c rest => rw [allocEnter_of_cons _ h0 hn hs] at hr; cases hr
      | nil =>
        rw [allocEnter_of_nil _ h0 hn hs] at hr
        split_ifs at hr
        · cases hr
        · cases hr; rfl
    subst hp
    rcases allocFinish_cases sys.pool (findSuitableSize n) newOk with ⟨e, he⟩ | he <;> rw [he]
    · exact allocOutcome_fail e
    · exact allocOutcome_new h hn

end Outcome

/-- What the pool guarantees at every reachable point. -/
structure PoolSafe (sys : PoolSys) : Prop where
  usage_eq : sys.pool.currentUsageBytes = capacities sys.outstanding
  no_saturation : ∀ c ∈ sys.outstanding, c.chunk.capacity ≤ sys.pool.currentUsageBytes
  free_empty : ∀ s, ∀ c ∈ sys.pool.pool s,
    c.chunk.capacity = s ∧ c.chunk.head = 0 ∧ c.chunk.length = 0
  free_distinct : ∀ s, ((sys.pool.pool s).map PoolChunk.id).Nodup
  free_disjoint : ∀ s t, s ≠ t → ∀ c ∈ sys.pool.pool s, ∀ d ∈ sys.pool.pool t, c.id ≠ d.id
  free_out_disjoint : ∀ s, ∀ c ∈ sys.pool.pool s, ∀ d ∈ sys.outstanding, c.id ≠ d.id
  alloc_chunk : ∀ n, 0 < n → n ≤ 4096 * 1024 → ∀ newOk,
    AllocOutcome sys n (allocChunk sys.pool n newOk)
  alloc_enter : ∀ n, 0 < n → n ≤ 4096 * 1024 → EnterOutcome sys n
  alloc_finish : ∀ i (hi : i < sys.slow.length) newOk,
    AllocOutcome sys sys.slow[i] (allocFinish sys.pool (findSuitableSize sys.slow[i]) newOk)

theorem le_capacities {c : PoolChunk} {l : List PoolChunk} (hc : c ∈ l) :
    c.chunk.capacity ≤ capacities l := by
  induction l with
  | nil => cases hc
  | cons d l ih =>
    rcases List.mem_cons.1 hc with rfl | hc
    · simp
    · have := ih hc; simp; omega

/-- Conservation and representation: in every reachable system the usage is the sum of the
outstanding capacities, the free lists hold distinct empty chunks of their class that are
neither in another free list nor outstanding, and every allocation step hands out a fresh empty
chunk of the smallest class holding the request or throws with the usage and free lists as they
were. -/
theorem pool_safe {sys : PoolSys} (h : Reachable sys) : PoolSafe sys := by
  have hi := inv_of_reachable h
  refine ⟨hi.usage_eq, fun c hc => hi.usage_eq ▸ le_capacities hc, fun s c hc => ?_,
    hi.unique.free_nodup, hi.unique.free_disjoint, hi.unique.free_out,
    fun n h0 hn newOk => allocChunk_outcome hi h0 hn newOk, fun n h0 hn => enter_outcome hi h0 hn,
    fun i hlt newOk => finish_outcome hi i hlt newOk⟩
  rw [(hi.free_new s c hc).2]
  simp

def twoOutOneSlow : PoolSys :=
  PoolSys.run ⟨initialPool, [], []⟩ (List.replicate 3 (.allocChunk (4096 * 1024)))

theorem pool_safe_in_flight :
    twoOutOneSlow.outstanding.length = 2 ∧ twoOutOneSlow.slow = [4096 * 1024] ∧
      PoolSafe twoOutOneSlow :=
  ⟨by decide, by decide, pool_safe (reachable_run (.init create_ok) _)⟩

theorem smallestClass_unique {n a b : Nat} (ha : SmallestClass n a) (hb : SmallestClass n b) :
    a = b :=
  Nat.le_antisymm (ha.2.2 b hb.1 hb.2.1) (hb.2.2 a ha.1 ha.2.1)

/-- The buffers' view of the pool is sound: on a reachable pool, what a call `alloc_chunk(n)`
gives once its exceptions are caught is what `poolAlloc n` gives for one of its answers. -/
theorem poolAlloc_refines {sys : PoolSys} (h : Reachable sys) (n : Nat) (newOk : Bool) :
    ∃ poolOk, poolAlloc n poolOk =
      ((allocChunk sys.pool n newOk).2.toOption.bind id).map PoolChunk.chunk := by
  by_cases hn : 0 < n ∧ n ≤ 4096 * 1024
  · rcases allocChunk_outcome (inv_of_reachable h) hn.1 hn.2 newOk with
      ⟨c, hc, -, hhead, hlen, hcap⟩ | ⟨e, he, -⟩
    · have hs := smallestClass_unique hcap (smallestClass_findSuitableSize hn.2)
      have hchunk : c.chunk = Chunk.new (findSuitableSize n) := by
        cases hcc : c.chunk
        simp_all [Chunk.new]
      refine ⟨true, ?_⟩
      simp [poolAlloc, hc, hchunk, Except.toOption, findSuitableSize_pos hn.1 hn.2,
        Nat.pos_iff_ne_zero.1 hn.1]
    · exact ⟨false, by simp [poolAlloc, he, Except.toOption]⟩
  · refine ⟨true, ?_⟩
    have hnone : poolAlloc n true = none := by
      by_cases h0 : n = 0
      · simp [poolAlloc, h0]
      · simp [poolAlloc, findSuitableSize_eq_zero n (by omega)]
    rcases allocEnter_of_unsupported sys.pool hn with he | he <;>
      simp [allocChunk, he, hnone, Except.toOption]

/-- With the 4 MiB class used up and a slow-path call in flight, a fourth 4 MiB request whose
`new Chunk` fails throws, and the buffers see `nullptr`. -/
theorem poolAlloc_refines_throw :
    (allocChunk twoOutOneSlow.pool (4096 * 1024) false).2.toOption = none ∧
      ∃ poolOk, poolAlloc (4096 * 1024) poolOk =
        ((allocChunk twoOutOneSlow.pool (4096 * 1024) false).2.toOption.bind id).map
          PoolChunk.chunk :=
  ⟨by decide, poolAlloc_refines (reachable_run (.init create_ok) _) (4096 * 1024) false⟩

/-! ### The fast path and the cap -/

/-- The fast path hands out a free chunk without looking at the cap: an allocation that takes the
usage past `max_capacity_bytes_` succeeds, and does take it past. -/
theorem fast_path_ignores_cap (p : MemoryPool) {n : Nat} (h0 : 0 < n) (hn : n ≤ 4096 * 1024)
    (hfree : p.pool (findSuitableSize n) ≠ [])
    (hcap : p.maxCapacityBytes < p.currentUsageBytes + findSuitableSize n) :
    (∃ c, (allocEnter p n).2 = .done (.ok (some c))) ∧
      (allocEnter p n).1.maxCapacityBytes = p.maxCapacityBytes ∧
      (allocEnter p n).1.maxCapacityBytes < (allocEnter p n).1.currentUsageBytes := by
  obtain ⟨c, rest, hs⟩ := List.exists_cons_of_ne_nil hfree
  rw [allocEnter_of_cons p h0 hn hs]
  exact ⟨⟨c, rfl⟩, rfl, by simpa using hcap⟩

def fillOps : List PoolOp :=
  List.replicate 2 (.allocChunk (4096 * 1024)) ++
    (List.replicate 30 [.allocChunk (4096 * 1024), .finish 0 true]).flatten

def capped : PoolSys := PoolSys.run ⟨initialPool, [], []⟩ fillOps

set_option maxRecDepth 2000 in
/-- At the cap, a 4 KiB request still takes a preallocated chunk, and the usage passes the cap. -/
theorem capped_alloc_passes_cap :
    Reachable (capped.step (.allocChunk 4096)) ∧
      capped.pool.currentUsageBytes = capped.pool.maxCapacityBytes ∧
      (∃ c, (allocEnter capped.pool 4096).2 = .done (.ok (some c))) ∧
      (allocEnter capped.pool 4096).1.maxCapacityBytes = capped.pool.maxCapacityBytes ∧
      (capped.step (.allocChunk 4096)).pool.maxCapacityBytes <
        (capped.step (.allocChunk 4096)).pool.currentUsageBytes := by
  have h := fast_path_ignores_cap capped.pool (n := 4096) (by decide) (by decide) (by decide)
    (by decide)
  refine ⟨.step _ (reachable_run (.init create_ok) fillOps), by decide, h.1, h.2.1, ?_⟩
  rw [PoolSys.step_allocChunk_pool]
  exact h.2.2

end ReactorServer.Memory.Pool
