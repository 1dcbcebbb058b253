import ReactorServer.Memory.Slab

/-!
The pooled I/O buffers (`data_buf.hpp`, the buffer half of `TcpServer.hpp` in `src/net`).

Both buffers hold at most one chunk. Every call into `MemoryPool::alloc_chunk` is answered by
`poolAlloc`: the pool either supplies an empty chunk of the smallest class holding the request,
or the call fails (`nullptr`, or one of the pool's exceptions, which the buffers catch).
Returning a chunk to the pool (`retrieve`) has no effect on a buffer and is not recorded here.
The kernel's answers to `read(2)` and `write(2)` are parameters; an `EINTR` retry loop is
folded into the answer it ends with.
-/

set_option autoImplicit false
set_option relaxedAutoImplicit false

namespace ReactorServer.Memory.Buffer

open ReactorServer.Memory.Slab

/-- What `read(2)` answers: bytes (an empty list reads as end of file), `EOF`, `EAGAIN`, or
another error. -/
inductive ReadResult
  | data (bytes : List UInt8)
  | eof
  | eagain
  | error
  deriving DecidableEq, Repr

/-- What `write(2)` answers: it accepted a prefix of `k` bytes, or failed with `EAGAIN` or
another error. -/
inductive WriteResult
  | accepted (k : Nat)
  | eagain
  | error
  deriving DecidableEq, Repr

def defaultBufferSize : Nat := 4096

/-- `MAX_ALLOWED_SIZE` of both buffers' growth checks: 1 MiB. -/
def maxAllowedSize : Nat := 1024 * 1024

/-- `MemoryPool::alloc_chunk(n)` as a buffer sees it. -/
def poolAlloc (n : Nat) (poolOk : Bool) : Option Chunk :=
  if n = 0 ∨ findSuitableSize n = 0 then none
  else if poolOk then some (Chunk.new (findSuitableSize n)) else none

/-- `BufferBase`: the chunk `data_buf`, `none` for `nullptr`. -/
structure BufferBase where
  dataBuf : Option Chunk
  deriving DecidableEq, Repr

namespace BufferBase

def length (b : BufferBase) : Nat :=
  match b.dataBuf with
  | none => 0
  | some c => c.length

/-- `BufferBase::pop`; the text is that of the `std::runtime_error` it throws. -/
def pop (b : BufferBase) (len : Int) : Except String BufferBase :=
  match b.dataBuf with
  | none => .ok b
  | some c =>
    if len ≤ 0 then .ok b
    else if c.length < len.toNat then .error "Pop length exceeds buffer length"
    else
      let c := c.pop len.toNat
      if c.length = 0 then .ok ⟨none⟩ else .ok ⟨some c⟩

def clear (_ : BufferBase) : BufferBase := ⟨none⟩

end BufferBase

structure InputBuffer extends BufferBase
  deriving DecidableEq, Repr

structure OutputBuffer extends BufferBase
  deriving DecidableEq, Repr

namespace InputBuffer

def expandBuffer (b : InputBuffer) (needed : Nat) (poolOk : Bool) : Bool × InputBuffer :=
  match b.dataBuf with
  | none => (false, b)
  | some c =>
    match poolAlloc (c.length + needed) poolOk with
    | none => (false, b)
    | some n => (true, ⟨⟨some (n.copy (some c))⟩⟩)

def ensureSpaceAvailable (b : InputBuffer) (additional : Int) (poolOk : Bool) :
    Bool × InputBuffer :=
  if additional ≤ 0 then (false, b)
  else if (maxAllowedSize : Int) < additional then (false, b)
  else
    match b.dataBuf with
    | none =>
      match poolAlloc (max additional.toNat defaultBufferSize) poolOk with
      | none => (false, b)
      | some c => (true, ⟨⟨some c⟩⟩)
    | some c =>
      let c := c.adjust
      let available := c.capacity - c.length
      if additional.toNat ≤ available then (true, ⟨⟨some c⟩⟩)
      else if 2147483647 < additional.toNat - available then (false, ⟨⟨some c⟩⟩)
      else expandBuffer ⟨⟨some c⟩⟩ (additional.toNat - available) poolOk

/-- `InputBuffer::read_from_fd`: its return value, whether `read(2)` was called, and the
buffer after it. -/
def readFromFd (b : InputBuffer) (fd : Int) (r : ReadResult) (poolOk : Bool) :
    Int × Bool × InputBuffer :=
  if fd < 0 then (-1, false, b)
  else
    let (ok, b) := b.ensureSpaceAvailable defaultBufferSize poolOk
    if ok = false then (-1, false, b)
    else
      match b.dataBuf with
      | none => (-1, false, b)
      | some c =>
        let available := c.capacity - c.length
        if available = 0 then (-1, false, b)
        else
          let toRead := min available 65536
          match r with
          | .data bytes =>
            let got := bytes.take toRead
            if got = [] then (0, true, b)
            else (got.length, true, ⟨⟨some { c with bytes := c.bytes ++ got }⟩⟩)
          | .eof => (0, true, b)
          | .eagain => (0, true, b)
          | .error => (-1, true, b)

/-- `InputBuffer::adjust`: move the live bytes to offset `0` when `head > 0`. -/
def adjust (b : InputBuffer) : InputBuffer :=
  match b.dataBuf with
  | some c => if 0 < c.head then ⟨⟨some c.adjust⟩⟩ else b
  | none => b

theorem readFromFd_of_neg (b : InputBuffer) {fd : Int} (r : ReadResult) (poolOk : Bool)
    (h : fd < 0) : b.readFromFd fd r poolOk = (-1, false, b) := by
  simp [readFromFd, h]

end InputBuffer

namespace OutputBuffer

def ensureCapacity (b : OutputBuffer) (additional : Int) (poolOk : Bool) :
    Bool × OutputBuffer :=
  if additional ≤ 0 then (false, b)
  else if (maxAllowedSize : Int) < additional then (false, b)
  else
    match b.dataBuf with
    | none =>
      match poolAlloc (max additional.toNat defaultBufferSize) poolOk with
      | none => (false, b)
      | some c => (true, ⟨⟨some c⟩⟩)
    | some c =>
      let c := c.adjust
      if additional.toNat ≤ c.capacity - c.length then (true, ⟨⟨some c⟩⟩)
      else if 18446744073709551615 < c.length + additional.toNat then (false, ⟨⟨some c⟩⟩)
      else if maxAllowedSize < c.length + additional.toNat then (false, ⟨⟨some c⟩⟩)
      else
        match poolAlloc (c.length + additional.toNat) poolOk with
        | none => (false, ⟨⟨some c⟩⟩)
        | some n => (true, ⟨⟨some (n.copy (some c))⟩⟩)

/-- `OutputBuffer::write_to_buf`: the return value and the buffer after it. -/
def writeToBuf (b : OutputBuffer) (data : List UInt8) (len : Int) (poolOk : Bool) :
    Int × OutputBuffer :=
  if len ≤ 0 then (0, b)
  else if (maxAllowedSize : Int) < len then (-1, b)
  else
    let (ok, b) := b.ensureCapacity len poolOk
    if ok = false then (-1, b)
    else
      match b.dataBuf with
      | none => (-1, b)
      | some c => (0, ⟨⟨some { c with bytes := c.bytes ++ data.take len.toNat }⟩⟩)

/-- `OutputBuffer::write_to_fd`: the return value, the bytes `write(2)` accepted if it was
called, and the buffer after it. -/
def writeToFd (b : OutputBuffer) (fd : Int) (w : WriteResult) :
    Int × Option (List UInt8) × OutputBuffer :=
  if fd < 0 then (-1, none, b)
  else
    match b.dataBuf with
    | none => (0, none, b)
    | some c =>
      if c.length = 0 then (0, none, b)
      else
        match w with
        | .accepted k =>
          let n := min k c.length
          if n = 0 then (0, some [], b)
          else
            match b.toBufferBase.pop n with
            | .ok rest => (n, some (c.bytes.take n), ⟨rest⟩)
            | .error _ => (-1, some (c.bytes.take n), b)
        | .eagain => (0, some [], b)
        | .error => (-1, some [], b)

theorem writeToFd_of_neg (b : OutputBuffer) {fd : Int} (w : WriteResult) (h : fd < 0) :
    b.writeToFd fd w = (-1, none, b) := by
  simp [writeToFd, h]

end OutputBuffer

end ReactorServer.Memory.Buffer
