import Mathlib.Data.List.Basic

/-!
The pool's size classes and the `Chunk` record (`chunk.hpp`, `chunk.cpp`).

A chunk is kept as its capacity, the offset `head` of its live bytes and the live bytes
`data[head, head + length)` themselves. Bytes outside that window are never read by any
modelled function, so they are not represented; `length` is the number of live bytes.
-/

set_option autoImplicit false
set_option relaxedAutoImplicit false

namespace ReactorServer.Memory.Slab

/-- `MEM_SIZES`: the six size classes of the pool, smallest first. -/
def memSizes : List Nat := [4096, 4096 * 4, 4096 * 16, 4096 * 64, 4096 * 256, 4096 * 1024]

/-- The scan of `find_suitable_size`: the first class of `sizes` that holds `requested`. -/
def firstFit : List Nat → Nat → Nat
  | [], _ => 0
  | size :: sizes, requested => if requested ≤ size then size else firstFit sizes requested

/-- `MemoryPool::find_suitable_size`: the first class holding `requested`, or `0`. -/
def findSuitableSize (requested : Nat) : Nat := firstFit memSizes requested

def isSupportedSize (s : Nat) : Bool := memSizes.contains s

theorem findSuitableSize_spec (n : Nat) (h : n ≤ 4096 * 1024) :
    findSuitableSize n ∈ memSizes ∧ n ≤ findSuitableSize n ∧
      ∀ s ∈ memSizes, n ≤ s → findSuitableSize n ≤ s := by
  simp only [findSuitableSize, firstFit, memSizes]
  split_ifs <;> simp <;> omega

theorem findSuitableSize_eq_zero (n : Nat) (h : 4096 * 1024 < n) : findSuitableSize n = 0 := by
  simp only [findSuitableSize, firstFit, memSizes]
  split_ifs <;> omega

theorem findSuitableSize_le (n : Nat) : findSuitableSize n ≤ 4096 * 1024 := by
  simp only [findSuitableSize, firstFit, memSizes]
  split_ifs <;> omega

theorem isSupportedSize_iff (s : Nat) : isSupportedSize s = true ↔ s ∈ memSizes := by
  simp [isSupportedSize]

/-- A `Chunk`: `capacity`, the offset `head`, and the live bytes `data[head, head + length)`. -/
structure Chunk where
  capacity : Nat
  head : Nat
  bytes : List UInt8
  deriving DecidableEq, Repr

namespace Chunk

/-- The `length` field: the number of live bytes. -/
def length (c : Chunk) : Nat := c.bytes.length

/-- `Chunk::Chunk(cap)`: an empty chunk of capacity `cap`. -/
def new (cap : Nat) : Chunk := ⟨cap, 0, []⟩

def clear (c : Chunk) : Chunk := { c with head := 0, bytes := [] }

/-- `Chunk::adjust`: the `memmove` to offset `0` keeps the live bytes. -/
def adjust (c : Chunk) : Chunk := if c.head ≠ 0 then { c with head := 0 } else c

def pop (c : Chunk) (len : Nat) : Chunk :=
  if len ≥ c.length then { c with head := 0, bytes := [] }
  else { c with head := c.head + len, bytes := c.bytes.drop len }

/-- `Chunk::expand_capacity`, with `operator new` taken to succeed. -/
def expandCapacity (c : Chunk) (newCapacity : Nat) : Bool × Chunk :=
  if newCapacity ≤ c.capacity then (false, c)
  else (true, { c with head := 0, capacity := newCapacity })

def ensureCapacity (c : Chunk) (required : Nat) : Bool × Chunk :=
  if required ≤ c.capacity then (true, c)
  else c.expandCapacity (max (c.capacity * 2) required)

/-- `Chunk::copy`: the live bytes of `other` to offset `0` of `c`. -/
def copy (c : Chunk) (other : Option Chunk) : Chunk :=
  match other with
  | none => { c with bytes := [] }
  | some o =>
    if o.length = 0 then { c with bytes := [] }
    else
      let grown := if o.length > c.capacity then c.ensureCapacity o.length else (true, c)
      if grown.1 then { grown.2 with head := 0, bytes := o.bytes } else grown.2

@[simp] theorem new_capacity (cap : Nat) : (new cap).capacity = cap := rfl
@[simp] theorem new_head (cap : Nat) : (new cap).head = 0 := rfl
@[simp] theorem new_bytes (cap : Nat) : (new cap).bytes = [] := rfl
@[simp] theorem length_def (c : Chunk) : c.length = c.bytes.length := rfl
@[simp] theorem adjust_capacity (c : Chunk) : c.adjust.capacity = c.capacity := by
  unfold adjust; split <;> rfl
@[simp] theorem adjust_bytes (c : Chunk) : c.adjust.bytes = c.bytes := by
  unfold adjust; split <;> rfl
@[simp] theorem adjust_head (c : Chunk) : c.adjust.head = 0 := by
  unfold adjust; split <;> simp_all

theorem copy_of_le (c o : Chunk) (h : o.length ≤ c.capacity) (hc : c.head = 0) :
    c.copy (some o) = { c with head := 0, bytes := o.bytes } := by
  by_cases h0 : o.bytes = []
  · simp [copy, h0, ← hc]
  · have hlt : ¬ c.capacity < o.bytes.length := by simp only [length_def] at h; omega
    simp [copy, h0, hlt]

@[simp] theorem pop_capacity (c : Chunk) (len : Nat) : (c.pop len).capacity = c.capacity := by
  unfold pop; split <;> rfl

theorem pop_bytes (c : Chunk) (len : Nat) : (c.pop len).bytes = c.bytes.drop len := by
  unfold pop
  split
  · simp_all [List.drop_eq_nil_of_le]
  · rfl

end Chunk

end ReactorServer.Memory.Slab
