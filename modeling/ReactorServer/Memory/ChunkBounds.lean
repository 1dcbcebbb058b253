import ReactorServer.Memory.Buffer

/-!
Where the buffers' bytes lie inside their chunk (`TcpServer.hpp`, `Chunk` in `data_buf.hpp`).

The live bytes of a chunk are `[head, head + length)` of its `capacity` bytes. The buffers copy
bytes through three kinds of range: the live bytes of a chunk (`memmove` in `Chunk::adjust`, the
source of `Chunk::copy`, the source of `write(2)`), the free tail `[length, capacity)` of a chunk
whose `head` is `0` (the destinations of `read(2)` and of the `memcpy` in `write_to_buf`), and
the first `length` bytes of a fresh chunk (the destination of `Chunk::copy`, which grows the
chunk first when it is too small). So the buffers stay in bounds when every chunk they hold
satisfies `head + length ≤ capacity` and each growth function hands back a chunk with `head = 0`
and room to spare. `InReachable` and `OutReachable` are the buffers any sequence of calls can
produce; `buffer_ranges_in_bounds` collects the facts.
-/

set_option autoImplicit false
set_option relaxedAutoImplicit false

namespace ReactorServer.Memory.ChunkBounds

open ReactorServer.Memory.Slab ReactorServer.Memory.Buffer

/-- `head + length ≤ capacity`: the live bytes lie inside the chunk. -/
def Fits (c : Chunk) : Prop := c.head + c.length ≤ c.capacity

def BufFits (b : BufferBase) : Prop := ∀ c, b.dataBuf = some c → Fits c

/-- The byte queue a buffer represents: the live bytes of its chunk, or nothing. -/
def queue (b : BufferBase) : List UInt8 :=
  match b.dataBuf with
  | none => []
  | some c => c.bytes

@[simp] theorem queue_none : queue ⟨none⟩ = [] := rfl
@[simp] theorem queue_some (c : Chunk) : queue ⟨some c⟩ = c.bytes := rfl

theorem queue_of_dataBuf {b : BufferBase} {c : Chunk} (h : b.dataBuf = some c) :
    queue b = c.bytes := by
  simp [queue, h]

theorem bufFits_none : BufFits ⟨none⟩ := fun _ h => nomatch h

theorem bufFits_some {c : Chunk} (h : Fits c) : BufFits ⟨some c⟩ := by
  rintro _ ⟨⟩
  exact h

/-! ## Chunks -/

theorem fits_new (cap : Nat) : Fits (Chunk.new cap) := by
  simp [Fits]

theorem Fits.adjust {c : Chunk} (h : Fits c) : Fits c.adjust := by
  simp only [Fits, Chunk.length_def, Chunk.adjust_head, Chunk.adjust_bytes,
    Chunk.adjust_capacity] at *
  omega

theorem Fits.pop {c : Chunk} (h : Fits c) (len : Nat) : Fits (c.pop len) := by
  unfold Chunk.pop Fits at *
  split <;> simp only [Chunk.length_def, List.length_drop, List.length_nil] at * <;> omega

theorem pop_head_of_lt {c : Chunk} {len : Nat} (h : len < c.length) :
    (c.pop len).head = c.head + len := by
  have : ¬ c.bytes.length ≤ len := by simp only [Chunk.length_def] at h; omega
  simp [Chunk.pop, this]

theorem new_copy {cap : Nat} {o : Chunk} (h : o.length ≤ cap) :
    (Chunk.new cap).copy (some o) = ⟨cap, 0, o.bytes⟩ :=
  Chunk.copy_of_le _ _ h rfl

/-! ## The pool -/

theorem poolAlloc_some {n : Nat} {poolOk : Bool} {c : Chunk} (h : poolAlloc n poolOk = some c) :
    c = Chunk.new (findSuitableSize n) ∧ 0 < n ∧ n ≤ c.capacity := by
  simp only [poolAlloc] at h
  split_ifs at h with h0
  cases h
  have hn : n ≤ 4096 * 1024 := by
    by_contra hn
    exact h0 (Or.inr (findSuitableSize_eq_zero n (by omega)))
  exact ⟨rfl, by omega, (findSuitableSize_spec n hn).2.1⟩

theorem poolAlloc_capacity_le {n : Nat} {poolOk : Bool} {c : Chunk}
    (h : poolAlloc n poolOk = some c) (hn : n ≤ maxAllowedSize) : c.capacity ≤ maxAllowedSize := by
  obtain ⟨rfl, -, -⟩ := poolAlloc_some h
  exact (findSuitableSize_spec n (by simp only [maxAllowedSize] at hn; omega)).2.2 _
    (by simp [memSizes, maxAllowedSize]) hn

theorem poolAlloc_true {n : Nat} (h0 : 0 < n) (h : n ≤ 4096 * 1024) :
    poolAlloc n true = some (Chunk.new (findSuitableSize n)) := by
  have := (findSuitableSize_spec n h).2.1
  rw [poolAlloc, if_neg (by omega), if_pos rfl]

theorem copy_of_poolAlloc {c n : Chunk} {k : Nat} {poolOk : Bool}
    (h : poolAlloc (c.length + k) poolOk = some n) :
    n.copy (some c.adjust) = ⟨n.capacity, 0, c.bytes⟩ ∧ c.length + k ≤ n.capacity := by
  obtain ⟨rfl, -, hle⟩ := poolAlloc_some h
  refine ⟨?_, hle⟩
  rw [new_copy (by simp at hle ⊢; omega)]
  simp

/-! ## Growth -/

theorem ensureCapacity_cases (b : OutputBuffer) (add : Int) (poolOk : Bool) :
    b.ensureCapacity add poolOk = (false, b) ∨
    (∃ c, b.dataBuf = none ∧ poolAlloc (max add.toNat defaultBufferSize) poolOk = some c ∧
      0 < add ∧ add ≤ maxAllowedSize ∧ b.ensureCapacity add poolOk = (true, ⟨⟨some c⟩⟩)) ∨
    (∃ c ok, b.dataBuf = some c ∧ (ok = true → add.toNat ≤ c.capacity - c.length) ∧
      b.ensureCapacity add poolOk = (ok, ⟨⟨some c.adjust⟩⟩)) ∨
    (∃ c n, b.dataBuf = some c ∧ poolAlloc (c.length + add.toNat) poolOk = some n ∧
      c.length + add.toNat ≤ maxAllowedSize ∧
      b.ensureCapacity add poolOk = (true, ⟨⟨some (n.copy (some c.adjust))⟩⟩)) := by
  by_cases h1 : add ≤ 0
  · exact .inl (if_pos h1)
  by_cases h2 : (maxAllowedSize : Int) < add
  · exact .inl ((if_neg h1).trans (if_pos h2))
  have hmax : add ≤ maxAllowedSize := Int.not_lt.mp h2
  simp only [OutputBuffer.ensureCapacity, if_neg h1, if_neg h2]
  rcases hd : b.dataBuf with _ | c
  · rcases hp : poolAlloc (max add.toNat defaultBufferSize) poolOk with _ | n
    · exact .inl rfl
    · exact .inr (.inl ⟨n, rfl, rfl, by omega, hmax, rfl⟩)
  · have hlen : c.adjust.length = c.length := by simp
    simp only [Chunk.adjust_capacity, hlen]
    by_cases h3 : add.toNat ≤ c.capacity - c.length
    · exact .inr (.inr (.inl ⟨c, true, rfl, fun _ => h3, by rw [if_pos h3]⟩))
    by_cases h4 : 18446744073709551615 < c.length + add.toNat
    · exact .inr (.inr (.inl ⟨c, false, rfl, nofun, by rw [if_neg h3, if_pos h4]⟩))
    by_cases h5 : maxAllowedSize < c.length + add.toNat
    · exact .inr (.inr (.inl ⟨c, false, rfl, nofun, by rw [if_neg h3, if_neg h4, if_pos h5]⟩))
    simp only [if_neg h3, if_neg h4, if_neg h5]
    rcases hp : poolAlloc (c.length + add.toNat) poolOk with _ | n
    · exact .inr (.inr (.inl ⟨c, false, rfl, nofun, rfl⟩))
    · exact .inr (.inr (.inr ⟨c, n, rfl, hp, by omega, rfl⟩))

theorem ensureSpaceAvailable_cases (b : InputBuffer) (add : Int) (poolOk : Bool) :
    b.ensureSpaceAvailable add poolOk = (false, b) ∨
    (∃ c, b.dataBuf = none ∧ poolAlloc (max add.toNat defaultBufferSize) poolOk = some c ∧
      0 < add ∧ b.ensureSpaceAvailable add poolOk = (true, ⟨⟨some c⟩⟩)) ∨
    (∃ c ok, b.dataBuf = some c ∧ 0 < add ∧ (ok = true → add.toNat ≤ c.capacity - c.length) ∧
      b.ensureSpaceAvailable add poolOk = (ok, ⟨⟨some c.adjust⟩⟩)) ∨
    (∃ c n, b.dataBuf = some c ∧ c.capacity - c.length < add.toNat ∧
      poolAlloc (c.length + (add.toNat - (c.capacity - c.length))) poolOk = some n ∧
      b.ensureSpaceAvailable add poolOk = (true, ⟨⟨some (n.copy (some c.adjust))⟩⟩)) := by
  by_cases h1 : add ≤ 0
  · exact .inl (if_pos h1)
  by_cases h2 : (maxAllowedSize : Int) < add
  · exact .inl ((if_neg h1).trans (if_pos h2))
  simp only [InputBuffer.ensureSpaceAvailable, if_neg h1, if_neg h2]
  rcases hd : b.dataBuf with _ | c
  · rcases hp : poolAlloc (max add.toNat defaultBufferSize) poolOk with _ | n
    · exact .inl rfl
    · exact .inr (.inl ⟨n, rfl, rfl, by omega, rfl⟩)
  · have hlen : c.adjust.length = c.length := by simp
    simp only [Chunk.adjust_capacity, hlen]
    by_cases h3 : add.toNat ≤ c.capacity - c.length
    · exact .inr (.inr (.inl ⟨c, true, rfl, by omega, fun _ => h3, by rw [if_pos h3]⟩))
    by_cases h4 : 2147483647 < add.toNat - (c.capacity - c.length)
    · exact .inr (.inr (.inl ⟨c, false, rfl, by omega, nofun, by rw [if_neg h3, if_pos h4]⟩))
    simp only [if_neg h3, if_neg h4, InputBuffer.expandBuffer, hlen]
    rcases hp : poolAlloc (c.length + (add.toNat - (c.capacity - c.length))) poolOk with _ | n
    · exact .inr (.inr (.inl ⟨c, false, rfl, by omega, nofun, rfl⟩))
    · exact .inr (.inr (.inr ⟨c, n, rfl, by omega, hp, rfl⟩))

/-- A chunk an output buffer may hold: in bounds, and of at most `maxAllowedSize` bytes. -/
structure OutChunk (c : Chunk) : Prop where
  fits : Fits c
  capacity_le : c.capacity ≤ maxAllowedSize

theorem OutChunk.adjust {c : Chunk} (h : OutChunk c) : OutChunk c.adjust :=
  ⟨h.fits.adjust, by simpa using h.capacity_le⟩

theorem ensureCapacity_spec {b b' : OutputBuffer} {add : Int} {poolOk ok : Bool}
    (hb : ∀ c, b.dataBuf = some c → OutChunk c) (h : b.ensureCapacity add poolOk = (ok, b')) :
    queue b'.toBufferBase = queue b.toBufferBase ∧ (∀ c, b'.dataBuf = some c → OutChunk c) ∧
      (ok = false → (b'.dataBuf = none ↔ b.dataBuf = none)) ∧
      (ok = true → ∃ c, b'.dataBuf = some c ∧ c.head = 0 ∧ c.length + add.toNat ≤ c.capacity) := by
  rcases ensureCapacity_cases b add poolOk with
    he | ⟨c, hd, hp, h1, h2, he⟩ | ⟨c, ok', hd, hok, he⟩ | ⟨c, n, hd, hp, hle, he⟩ <;>
    rw [he, Prod.mk.injEq] at h <;> obtain ⟨rfl, rfl⟩ := h
  · exact ⟨rfl, hb, fun _ => Iff.rfl, nofun⟩
  · obtain ⟨rfl, -, hcap⟩ := poolAlloc_some hp
    have hmax : max add.toNat defaultBufferSize ≤ maxAllowedSize := by
      simp only [maxAllowedSize, defaultBufferSize] at h2 ⊢
      omega
    refine ⟨by simp [queue, hd], ?_, nofun, fun _ => ⟨_, rfl, rfl, by simp at hcap ⊢; omega⟩⟩
    rintro _ ⟨⟩
    exact ⟨fits_new _, poolAlloc_capacity_le hp hmax⟩
  · refine ⟨by simp [queue, hd], ?_, fun _ => by simp [hd], fun hk => ⟨_, rfl, by simp, ?_⟩⟩
    · rintro _ ⟨⟩
      exact (hb c hd).adjust
    · have hf := (hb c hd).fits
      have := hok hk
      simp only [Fits, Chunk.length_def, Chunk.adjust_bytes, Chunk.adjust_capacity] at *
      omega
  · obtain ⟨hcopy, hcap⟩ := copy_of_poolAlloc hp
    rw [hcopy]
    refine ⟨by simp [queue, hd], ?_, nofun, fun _ => ⟨_, rfl, rfl, hcap⟩⟩
    rintro _ ⟨⟩
    exact ⟨by simp only [Fits, Chunk.length_def] at hcap ⊢; omega,
      (poolAlloc_capacity_le hp hle : n.capacity ≤ _)⟩

theorem ensureSpaceAvailable_spec {b b' : InputBuffer} {add : Int} {poolOk ok : Bool}
    (hb : BufFits b.toBufferBase) (h : b.ensureSpaceAvailable add poolOk = (ok, b')) :
    queue b'.toBufferBase = queue b.toBufferBase ∧ BufFits b'.toBufferBase ∧
      (ok = true → ∃ c, b'.dataBuf = some c ∧ c.head = 0 ∧ c.length < c.capacity) := by
  rcases ensureSpaceAvailable_cases b add poolOk with
    he | ⟨c, hd, hp, h1, he⟩ | ⟨c, ok', hd, h1, hok, he⟩ | ⟨c, n, hd, hlt, hp, he⟩ <;>
    rw [he, Prod.mk.injEq] at h <;> obtain ⟨rfl, rfl⟩ := h
  · exact ⟨rfl, hb, nofun⟩
  · obtain ⟨rfl, -, hcap⟩ := poolAlloc_some hp
    exact ⟨by simp [queue, hd], bufFits_some (fits_new _),
      fun _ => ⟨_, rfl, rfl, by simp [defaultBufferSize] at hcap ⊢; omega⟩⟩
  · refine ⟨by simp [queue, hd], bufFits_some (hb c hd).adjust, fun hk => ⟨_, rfl, by simp, ?_⟩⟩
    have := hok hk
    simp only [Chunk.length_def, Chunk.adjust_bytes, Chunk.adjust_capacity] at *
    omega
  · obtain ⟨hcopy, hcap⟩ := copy_of_poolAlloc hp
    rw [hcopy]
    exact ⟨by simp [queue, hd], bufFits_some (by simp only [Fits, Chunk.length_def] at hcap ⊢; omega),
      fun _ => ⟨_, rfl, rfl, by simp only [Chunk.length_def] at hlt hcap ⊢; omega⟩⟩

/-- When chunk `c` lacks room for `additional` bytes and the pool can serve the request,
`ensure_space_available` reports success with the bytes moved to the start of a chunk sized
for `length + (additional - available)`, the shortfall alone and not `length + additional`: its
free room is that size less `length`, which can fall short of `additional`. -/
theorem ensureSpaceAvailable_sized_for_shortfall (c : Chunk) (add : Int)
    (hroom : c.capacity - c.length < add.toNat) (hmax : add ≤ maxAllowedSize)
    (hpool : c.length + (add.toNat - (c.capacity - c.length)) ≤ 4096 * 1024) :
    (⟨⟨some c⟩⟩ : InputBuffer).ensureSpaceAvailable add true =
      (true, ⟨⟨some ⟨findSuitableSize (c.length + (add.toNat - (c.capacity - c.length))), 0,
        c.bytes⟩⟩⟩) := by
  have hlen : c.adjust.length = c.length := by simp
  have hmax' : add.toNat ≤ 1024 * 1024 := by simp only [maxAllowedSize] at hmax; omega
  simp only [InputBuffer.ensureSpaceAvailable, if_neg (show ¬add ≤ 0 by omega),
    if_neg (Int.not_lt.2 hmax), Chunk.adjust_capacity, hlen,
    if_neg (show ¬add.toNat ≤ c.capacity - c.length by omega),
    if_neg (show ¬2147483647 < add.toNat - (c.capacity - c.length) by omega),
    InputBuffer.expandBuffer, poolAlloc_true (by omega) hpool]
  rw [(copy_of_poolAlloc (poolAlloc_true (by omega) hpool)).1]
  rfl

/-- A 4096-byte chunk holding 100 bytes, asked for 4096 free bytes: the 200-byte request gets
another 4096-byte chunk, and success leaves 3996 bytes free. -/
theorem ensureSpaceAvailable_leaves_3996 :
    (⟨⟨some ⟨4096, 0, List.replicate 100 0⟩⟩⟩ : InputBuffer).ensureSpaceAvailable 4096 true =
      (true, ⟨⟨some ⟨findSuitableSize 200, 0, List.replicate 100 0⟩⟩⟩) ∧
    findSuitableSize 200 - 100 = 3996 :=
  ⟨ensureSpaceAvailable_sized_for_shortfall ⟨4096, 0, List.replicate 100 0⟩ 4096 (by decide)
    (by decide) (by decide), by decide⟩

/-! ## `read_from_fd` -/

/-- `to_read` of `read_from_fd`: the free tail of the chunk, at most 64 KiB. -/
def toRead (c : Chunk) : Nat := min (c.capacity - c.length) 65536

theorem readFromFd_of_ensure_false {b b' : InputBuffer} {fd : Int} {poolOk : Bool} (hfd : 0 ≤ fd)
    (he : b.ensureSpaceAvailable defaultBufferSize poolOk = (false, b')) (r : ReadResult) :
    b.readFromFd fd r poolOk = (-1, false, b') := by
  simp [InputBuffer.readFromFd, he, Int.not_lt.mpr hfd]

theorem readFromFd_of_ensure {b b' : InputBuffer} {c : Chunk} {fd : Int} {poolOk : Bool}
    (hfd : 0 ≤ fd) (he : b.ensureSpaceAvailable defaultBufferSize poolOk = (true, b'))
    (hc : b'.dataBuf = some c) (hroom : c.length < c.capacity) (r : ReadResult) :
    b.readFromFd fd r poolOk =
      match r with
      | .data bytes =>
        if bytes.take (toRead c) = [] then (0, true, b')
        else ((bytes.take (toRead c)).length, true,
          ⟨⟨some { c with bytes := c.bytes ++ bytes.take (toRead c) }⟩⟩)
      | .eof => (0, true, b')
      | .eagain => (0, true, b')
      | .error => (-1, true, b') := by
  have h0 : c.capacity - c.length ≠ 0 := by omega
  simp only [InputBuffer.readFromFd, he, hc, h0, Int.not_lt.mpr hfd, if_false]
  rfl

theorem fits_append_toRead {c : Chunk} (hh : c.head = 0) (hroom : c.length < c.capacity)
    (bytes : List UInt8) : Fits { c with bytes := c.bytes ++ bytes.take (toRead c) } := by
  simp only [Fits, toRead, Chunk.length_def, List.length_append, List.length_take] at *
  omega

theorem readFromFd_fits {b : InputBuffer} (hb : BufFits b.toBufferBase) (fd : Int)
    (r : ReadResult) (poolOk : Bool) : BufFits (b.readFromFd fd r poolOk).2.2.toBufferBase := by
  by_cases hfd : fd < 0
  · rwa [InputBuffer.readFromFd_of_neg _ _ _ hfd]
  replace hfd := Int.not_lt.mp hfd
  rcases he : b.ensureSpaceAvailable defaultBufferSize poolOk with ⟨ok, b'⟩
  obtain ⟨-, hf, hroom⟩ := ensureSpaceAvailable_spec hb he
  cases ok
  · rwa [readFromFd_of_ensure_false hfd he]
  obtain ⟨c, hc, hh, hlt⟩ := hroom rfl
  rw [readFromFd_of_ensure hfd he hc hlt]
  cases r with
  | data bytes =>
    dsimp only
    split
    · exact hf
    · exact bufFits_some (fits_append_toRead hh hlt bytes)
  | _ => exact hf

/-! ## `BufferBase::pop` -/

theorem pop_cases (b : BufferBase) (len : Int) :
    b.pop len = .ok b ∨
    (∃ c, b.dataBuf = some c ∧ 0 < len ∧ c.length < len.toNat ∧
      b.pop len = .error "Pop length exceeds buffer length") ∨
    (∃ c, b.dataBuf = some c ∧ 0 < len ∧ len.toNat ≤ c.length ∧
      b.pop len = if (c.pop len.toNat).length = 0 then .ok ⟨none⟩
        else .ok ⟨some (c.pop len.toNat)⟩) := by
  unfold BufferBase.pop
  rcases b with ⟨_ | c⟩
  · exact .inl rfl
  · simp only
    by_cases h1 : len ≤ 0
    · exact .inl (if_pos h1)
    by_cases h2 : c.length < len.toNat
    · exact .inr (.inl ⟨c, rfl, by omega, h2, by rw [if_neg h1, if_pos h2]⟩)
    · exact .inr (.inr ⟨c, rfl, by omega, by omega, by rw [if_neg h1, if_neg h2]⟩)

theorem pop_ok_cases {b b' : BufferBase} {len : Int} (h : b.pop len = .ok b') :
    b' = b ∨ b' = ⟨none⟩ ∨
      ∃ c, b.dataBuf = some c ∧ b' = ⟨some (c.pop len.toNat)⟩ ∧ 0 < (c.pop len.toNat).length := by
  rcases pop_cases b len with he | ⟨c, -, -, -, he⟩ | ⟨c, hd, -, -, he⟩ <;> rw [he] at h
  · exact .inl (Except.ok.inj h).symm
  · cases h
  · split at h <;> cases h
    · exact .inr (.inl rfl)
    · exact .inr (.inr ⟨c, hd, rfl, by omega⟩)

theorem BufFits.pop {b b' : BufferBase} {len : Int} (hb : BufFits b) (h : b.pop len = .ok b') :
    BufFits b' := by
  rcases pop_ok_cases h with rfl | rfl | ⟨c, hd, rfl, -⟩
  · exact hb
  · exact bufFits_none
  · exact bufFits_some ((hb c hd).pop _)

/-! ## Output buffers -/

/-- What every reachable output buffer satisfies: a chunk it holds is an `OutChunk` and is
never empty. -/
def OutInv (b : OutputBuffer) : Prop := ∀ c, b.dataBuf = some c → OutChunk c ∧ 0 < c.length

theorem OutInv.bufFits {b : OutputBuffer} (hb : OutInv b) : BufFits b.toBufferBase :=
  fun c hc => (hb c hc).1.fits

theorem outInv_none : OutInv ⟨⟨none⟩⟩ := fun _ h => nomatch h

theorem OutInv.dataBuf_eq_none_iff {b : OutputBuffer} (hb : OutInv b) :
    b.dataBuf = none ↔ queue b.toBufferBase = [] := by
  rcases hd : b.dataBuf with _ | c
  · simp [queue, hd]
  · have := (hb c hd).2
    simp only [queue, hd, Chunk.length_def] at this ⊢
    exact ⟨nofun, fun h => by simp [h] at this⟩

theorem OutInv.pop {b : OutputBuffer} {b' : BufferBase} {len : Int} (hb : OutInv b)
    (h : b.toBufferBase.pop len = .ok b') : OutInv ⟨b'⟩ := by
  rcases pop_ok_cases h with rfl | rfl | ⟨c, hd, rfl, hpos⟩
  · exact hb
  · exact outInv_none
  · rintro _ ⟨⟩
    have hc := hb c hd
    exact ⟨⟨hc.1.fits.pop _, by simpa using hc.1.capacity_le⟩, hpos⟩

theorem writeToBuf_spec {b : OutputBuffer} (hb : OutInv b) {data : List UInt8} {len : Int}
    (hd : len.toNat ≤ data.length) (poolOk : Bool) :
    OutInv (b.writeToBuf data len poolOk).2 ∧
      ((b.writeToBuf data len poolOk).1 = 0 ∧
          queue (b.writeToBuf data len poolOk).2.toBufferBase =
            queue b.toBufferBase ++ data.take len.toNat ∨
        (b.writeToBuf data len poolOk).1 = -1 ∧
          queue (b.writeToBuf data len poolOk).2.toBufferBase = queue b.toBufferBase) := by
  unfold OutputBuffer.writeToBuf
  split_ifs with h1 h2
  · exact ⟨hb, .inl ⟨rfl, by simp [show len.toNat = 0 by omega]⟩⟩
  · exact ⟨hb, .inr ⟨rfl, rfl⟩⟩
  rcases he : b.ensureCapacity len poolOk with ⟨ok, b'⟩
  obtain ⟨hq, hc, hnone, hroom⟩ :=
    ensureCapacity_spec (fun c hc => (hb c hc).1) he
  dsimp only
  cases ok
  · rw [if_pos rfl]
    refine ⟨fun c' hc' => ⟨hc c' hc', ?_⟩, .inr ⟨rfl, hq⟩⟩
    rcases hbd : b.dataBuf with _ | c
    · simp only [(hnone rfl).2 hbd] at hc'
      cases hc'
    · have := (hb c hbd).2
      rw [queue_of_dataBuf hc', queue_of_dataBuf hbd] at hq
      simpa [hq] using this
  obtain ⟨c, hc', hh, hlen⟩ := hroom rfl
  rw [if_neg (by decide), hc']
  have hcap := (hc c hc').capacity_le
  refine ⟨?_, .inl ⟨rfl, by rw [← hq, queue_of_dataBuf hc']; rfl⟩⟩
  rintro _ ⟨⟩
  have hfit : Fits { c with bytes := c.bytes ++ data.take len.toNat } := by
    simp only [Fits, Chunk.length_def, List.length_append, List.length_take] at hlen ⊢
    omega
  exact ⟨⟨hfit, hcap⟩, by simp; omega⟩

theorem writeToFd_inv {b : OutputBuffer} (hb : OutInv b) (fd : Int) (w : WriteResult) :
    OutInv (b.writeToFd fd w).2.2 := by
  unfold OutputBuffer.writeToFd
  split_ifs
  · exact hb
  split
  · exact hb
  split_ifs
  · exact hb
  cases w with
  | accepted k =>
    dsimp only
    split_ifs
    · exact hb
    split
    · exact hb.pop ‹_›
    · exact hb
  | _ => exact hb

/-! ## Runs -/

/-- One call on an `InputBuffer`, with the kernel's and the pool's answers. -/
inductive InOp
  | readFromFd (fd : Int) (r : ReadResult) (poolOk : Bool)
  | pop (len : Int)
  | clear
  | adjust

/-- The buffer after the call; a `pop` that throws leaves it as it was. -/
def InOp.apply (b : InputBuffer) : InOp → InputBuffer
  | .readFromFd fd r poolOk => (b.readFromFd fd r poolOk).2.2
  | .pop len =>
    match b.pop len with
    | .ok b' => ⟨b'⟩
    | .error _ => b
  | .clear => ⟨b.clear⟩
  | .adjust => b.adjust

inductive InReachable : InputBuffer → Prop
  | init : InReachable ⟨⟨none⟩⟩
  | step {b : InputBuffer} (op : InOp) : InReachable b → InReachable (op.apply b)

/-- One call on an `OutputBuffer`, with the kernel's and the pool's answers. -/
inductive OutOp
  | writeToBuf (data : List UInt8) (len : Int) (poolOk : Bool)
  | writeToFd (fd : Int) (w : WriteResult)
  | pop (len : Int)
  | clear

/-- `write_to_buf(data, len)` copies `len` bytes from `data`: the caller has that many. -/
def OutOp.WellFormed : OutOp → Prop
  | .writeToBuf data len _ => len.toNat ≤ data.length
  | _ => True

/-- The buffer after the call; a `pop` that throws leaves it as it was. -/
def OutOp.apply (b : OutputBuffer) : OutOp → OutputBuffer
  | .writeToBuf data len poolOk => (b.writeToBuf data len poolOk).2
  | .writeToFd fd w => (b.writeToFd fd w).2.2
  | .pop len =>
    match b.pop len with
    | .ok b' => ⟨b'⟩
    | .error _ => b
  | .clear => ⟨b.clear⟩

/-- The output buffers some sequence of well-formed calls makes of a fresh one. -/
inductive OutReachable : OutputBuffer → Prop
  | init : OutReachable ⟨⟨none⟩⟩
  | step {b : OutputBuffer} (op : OutOp) :
      op.WellFormed → OutReachable b → OutReachable (op.apply b)

theorem adjust_fits {b : InputBuffer} (hb : BufFits b.toBufferBase) :
    BufFits b.adjust.toBufferBase := by
  unfold InputBuffer.adjust
  split
  · split_ifs
    · exact bufFits_some (hb _ ‹_›).adjust
    · exact hb
  · exact hb

theorem InOp.apply_fits {b : InputBuffer} (hb : BufFits b.toBufferBase) (op : InOp) :
    BufFits (op.apply b).toBufferBase := by
  cases op with
  | readFromFd fd r poolOk => exact readFromFd_fits hb fd r poolOk
  | pop len =>
    rcases h : b.pop len with _ | b'
    · simpa [InOp.apply, h] using hb
    · simpa [InOp.apply, h] using hb.pop h
  | clear => exact bufFits_none
  | adjust => exact adjust_fits hb

theorem OutOp.apply_inv {b : OutputBuffer} (hb : OutInv b) {op : OutOp} (hop : op.WellFormed) :
    OutInv (op.apply b) := by
  cases op with
  | writeToBuf data len poolOk => exact (writeToBuf_spec hb hop poolOk).1
  | writeToFd fd w => exact writeToFd_inv hb fd w
  | pop len =>
    rcases h : b.pop len with _ | b'
    · simpa [OutOp.apply, h] using hb
    · simpa [OutOp.apply, h] using hb.pop h
  | clear => exact outInv_none

theorem InReachable.fits {b : InputBuffer} (h : InReachable b) : BufFits b.toBufferBase := by
  induction h with
  | init => exact bufFits_none
  | step op _ ih => exact InOp.apply_fits ih op

theorem OutReachable.inv {b : OutputBuffer} (h : OutReachable b) : OutInv b := by
  induction h with
  | init => exact outInv_none
  | step _ hop _ ih => exact OutOp.apply_inv ih hop

/-- Every buffer a sequence of calls produces keeps its live bytes inside its chunk, so the
`memmove` of `adjust`, the source of `Chunk::copy` and the source `[head, head + length)` of
`write(2)` are in bounds. The growth step of a read or a write hands back a chunk with
`head = 0` whose free tail holds the `read(2)` destination `[length, length + to_read)`, or the
`len` bytes that `write_to_buf` copies to offset `length`. -/
theorem buffer_ranges_in_bounds :
    (∀ b : InputBuffer, InReachable b → BufFits b.toBufferBase ∧
      ∀ poolOk b' c, b.ensureSpaceAvailable defaultBufferSize poolOk = (true, b') →
        b'.dataBuf = some c → c.head = 0 ∧ 0 < toRead c ∧ c.length + toRead c ≤ c.capacity) ∧
    (∀ b : OutputBuffer, OutReachable b → BufFits b.toBufferBase ∧
      ∀ len poolOk b' c, b.ensureCapacity len poolOk = (true, b') →
        b'.dataBuf = some c → c.head = 0 ∧ c.length + len.toNat ≤ c.capacity) := by
  refine ⟨fun b hb => ⟨hb.fits, fun poolOk b' c he hc => ?_⟩,
    fun b hb => ⟨hb.inv.bufFits, fun len poolOk b' c he hc => ?_⟩⟩
  · obtain ⟨c', hc', hh, hlt⟩ := (ensureSpaceAvailable_spec hb.fits he).2.2 rfl
    cases hc.symm.trans hc'
    exact ⟨hh, by unfold toRead; omega, by unfold toRead; omega⟩
  · obtain ⟨c', hc', hroom⟩ :=
      (ensureCapacity_spec (fun c h => (hb.inv c h).1) he).2.2.2 rfl
    cases hc.symm.trans hc'
    exact hroom

def readPopped : InputBuffer :=
  (InOp.pop 2).apply ((InOp.readFromFd 3 (.data [1, 2, 3, 4, 5]) true).apply ⟨⟨none⟩⟩)

def partialOut : OutputBuffer :=
  (OutOp.writeToFd 3 (.accepted 4)).apply
    ((OutOp.writeToBuf (List.replicate 10 0) 10 true).apply ⟨⟨none⟩⟩)

theorem readPopped_reachable : InReachable readPopped := .step _ (.step _ .init)

theorem partialOut_reachable : OutReachable partialOut :=
  .step _ trivial (.step _ (by simp [OutOp.WellFormed]) .init)

/-- Both buffers hold bytes away from offset `0`; the growth step of the next read compacts the
input chunk and leaves room for the read, and that of a 100-byte write does the same for the
output chunk. -/
theorem readPopped_partialOut_in_bounds :
    readPopped.dataBuf = some ⟨4096, 2, [3, 4, 5]⟩ ∧ BufFits readPopped.toBufferBase ∧
      (readPopped.ensureSpaceAvailable defaultBufferSize true).2.dataBuf =
        some ⟨4096, 0, [3, 4, 5]⟩ ∧
      (⟨4096, 0, [3, 4, 5]⟩ : Chunk).head = 0 ∧ 0 < toRead ⟨4096, 0, [3, 4, 5]⟩ ∧
      (⟨4096, 0, [3, 4, 5]⟩ : Chunk).length + toRead ⟨4096, 0, [3, 4, 5]⟩ ≤ 4096 ∧
    partialOut.dataBuf = some ⟨4096, 4, List.replicate 6 0⟩ ∧ BufFits partialOut.toBufferBase ∧
      (partialOut.ensureCapacity 100 true).2.dataBuf = some ⟨4096, 0, List.replicate 6 0⟩ ∧
      (⟨4096, 0, List.replicate 6 0⟩ : Chunk).head = 0 ∧
      (⟨4096, 0, List.replicate 6 0⟩ : Chunk).length + (100 : Int).toNat ≤ 4096 :=
  have hin := buffer_ranges_in_bounds.1 readPopped readPopped_reachable
  have hout := buffer_ranges_in_bounds.2 partialOut partialOut_reachable
  have hi := hin.2 true _ ⟨4096, 0, [3, 4, 5]⟩ (Prod.ext (by decide) rfl) (by decide)
  have ho := hout.2 100 true _ ⟨4096, 0, List.replicate 6 0⟩ (Prod.ext (by decide) rfl)
    (by decide)
  ⟨by decide, hin.1, by decide, hi.1, hi.2.1, hi.2.2, by decide, hout.1, by decide, ho.1, ho.2⟩

end ReactorServer.Memory.ChunkBounds
