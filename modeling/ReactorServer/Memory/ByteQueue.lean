import ReactorServer.Memory.ChunkBounds

/-!
The buffers as byte queues (`TcpServer.hpp`).

A buffer stands for the byte string `queue`: the live bytes of its chunk, or nothing when it
holds none. Over every reachable buffer each call acts on that string as a queue does:
`write_to_buf` and `read_from_fd` append, `write_to_fd` and `pop` drop a prefix, and growth and
compaction leave it alone. Two departures from a plain queue are recorded. `pop` on a buffer
that holds no chunk returns without throwing, whatever the length asked for. And an output
buffer's chunk does not keep `head = 0`: a write that the kernel accepts only in part leaves the
rest of the bytes at offset `k`, where the next `write_to_fd` asserts `head == 0`.
-/

set_option autoImplicit false
set_option relaxedAutoImplicit false

namespace ReactorServer.Memory.ByteQueue

open ReactorServer.Memory.Slab ReactorServer.Memory.Buffer ReactorServer.Memory.ChunkBounds

/-! ## `pop` -/

theorem length_eq_queue (b : BufferBase) : b.length = (queue b).length := by
  rcases b with ⟨_ | c⟩ <;> rfl

theorem pop_of_le {b : BufferBase} {n : Int} (h0 : 0 < n) (hn : n.toNat ≤ (queue b).length) :
    ∃ b', b.pop n = .ok b' ∧ queue b' = (queue b).drop n.toNat ∧
      (b'.dataBuf = none ↔ (queue b).drop n.toNat = []) := by
  rcases b with ⟨_ | c⟩
  · simp at hn
    omega
  simp only [queue_some, Chunk.length_def] at hn ⊢
  have hne : ¬ c.length < n.toNat := by simp only [Chunk.length_def]; omega
  simp only [BufferBase.pop, if_neg (show ¬ n ≤ 0 by omega), if_neg hne]
  have hdrop : (c.pop n.toNat).bytes = c.bytes.drop n.toNat := Chunk.pop_bytes _ _
  split_ifs with h
  · simp only [Chunk.length_def, hdrop] at h
    exact ⟨_, rfl, by simp [List.length_eq_zero.mp h], by simp [List.length_eq_zero.mp h]⟩
  · simp only [Chunk.length_def, hdrop] at h
    exact ⟨_, rfl, by simp [hdrop], ⟨nofun, fun h' => absurd (by simp [h']) h⟩⟩

theorem pop_of_lt {b : BufferBase} {n : Int} (hn : (queue b).length < n.toNat) :
    (b.dataBuf ≠ none → b.pop n = .error "Pop length exceeds buffer length") ∧
      (b.dataBuf = none → b.pop n = .ok b) := by
  rcases b with ⟨_ | c⟩
  · exact ⟨fun h => absurd rfl h, fun _ => rfl⟩
  simp only [queue_some] at hn
  refine ⟨fun _ => ?_, nofun⟩
  simp only [BufferBase.pop, Chunk.length_def, hn, if_true, if_neg (show ¬ n ≤ 0 by omega)]

/-! ## Output buffers -/

theorem OutInv.length_le {b : OutputBuffer} (hb : OutInv b) :
    (queue b.toBufferBase).length ≤ maxAllowedSize := by
  rcases hd : b.dataBuf with _ | c
  · simp [queue, hd]
  · obtain ⟨⟨hf, hcap⟩, -⟩ := hb c hd
    rw [queue_of_dataBuf hd]
    simp only [Fits, Chunk.length_def] at hf
    omega

theorem ensureCapacity_ok {b : OutputBuffer} {add : Int} (h0 : 0 < add)
    (h : (queue b.toBufferBase).length + add.toNat ≤ maxAllowedSize) :
    (b.ensureCapacity add true).1 = true := by
  simp only [maxAllowedSize] at h
  unfold OutputBuffer.ensureCapacity
  rw [if_neg (by omega), if_neg (by simp only [maxAllowedSize]; omega)]
  rcases hd : b.dataBuf with _ | c
  · rw [poolAlloc_true (by simp only [defaultBufferSize]; omega)
      (by simp only [defaultBufferSize]; omega)]
  · rw [queue_of_dataBuf hd] at h
    have hlen : c.adjust.length = c.length := by simp
    simp only [Chunk.adjust_capacity, hlen, maxAllowedSize]
    split_ifs with h3 h4 h5
    · rfl
    · simp only [Chunk.length_def] at h4; omega
    · simp only [Chunk.length_def] at h5; omega
    · rw [poolAlloc_true (by omega) (by simp only [Chunk.length_def]; omega)]

theorem writeToBuf_ok {b : OutputBuffer} (hb : OutInv b) (data : List UInt8) {len : Int}
    (h : (queue b.toBufferBase).length + len.toNat ≤ maxAllowedSize) :
    (b.writeToBuf data len true).1 = 0 := by
  unfold OutputBuffer.writeToBuf
  split_ifs with h1 h2
  · rfl
  · simp only [maxAllowedSize] at h h2; omega
  rcases he : b.ensureCapacity len true with ⟨ok, b'⟩
  have hok : ok = true := by simpa [he] using ensureCapacity_ok (by omega) h
  subst hok
  obtain ⟨c, hc, -, -⟩ := (ensureCapacity_spec (fun c hc => (hb c hc).1) he).2.2.2 rfl
  simp [hc]

theorem writeToFd_accepted {b : OutputBuffer} {fd : Int} {k : Nat} (hfd : 0 ≤ fd) (hk : 0 < k)
    (hkq : k ≤ (queue b.toBufferBase).length) :
    ∃ b', b.writeToFd fd (.accepted k) = ((k : Int), some ((queue b.toBufferBase).take k), b') ∧
      queue b'.toBufferBase = (queue b.toBufferBase).drop k := by
  obtain ⟨b', hpop, hq, -⟩ := pop_of_le (show (0 : Int) < k by omega) (by simpa using hkq)
  rcases hd : b.dataBuf with _ | c
  · simp [queue, hd] at hkq; omega
  rw [queue_of_dataBuf hd] at hkq hq ⊢
  have hmin : min k c.length = k := Nat.min_eq_left (by simpa using hkq)
  refine ⟨⟨b'⟩, ?_, by simpa using hq⟩
  simp only [OutputBuffer.writeToFd, hd, Int.not_lt.mpr hfd, if_false, hmin,
    if_neg (show k ≠ 0 by omega), if_neg (show c.length ≠ 0 by simp only [Chunk.length_def]; omega),
    hpop]

theorem writeToFd_fails {b : OutputBuffer} {fd : Int} (hfd : 0 ≤ fd)
    (hq : queue b.toBufferBase ≠ []) :
    b.writeToFd fd .eagain = (0, some [], b) ∧ b.writeToFd fd .error = (-1, some [], b) := by
  rcases hd : b.dataBuf with _ | c
  · simp [queue, hd] at hq
  rw [queue_of_dataBuf hd] at hq
  simp [OutputBuffer.writeToFd, hd, Int.not_lt.mpr hfd, hq]

/-- An output buffer refines a byte queue of at most 1 MiB: its length is `|q|`, it holds a
chunk exactly while `q` is non-empty, `write_to_buf` appends `len` bytes or fails leaving `q`,
and succeeds whenever `|q| + len ≤ 1 MiB` and the pool supplies the chunk, and `write_to_fd`
hands the kernel a prefix of `q` and drops what was accepted. -/
theorem outputBuffer_refines_queue (b : OutputBuffer) (hb : OutReachable b) :
    b.length = (queue b.toBufferBase).length ∧
    (queue b.toBufferBase).length ≤ maxAllowedSize ∧
    (b.dataBuf = none ↔ queue b.toBufferBase = []) ∧
    (∀ (data : List UInt8) (len : Int) (poolOk : Bool), len.toNat ≤ data.length →
      ((b.writeToBuf data len poolOk).1 = 0 ∧
          queue (b.writeToBuf data len poolOk).2.toBufferBase =
            queue b.toBufferBase ++ data.take len.toNat ∨
        (b.writeToBuf data len poolOk).1 = -1 ∧
          queue (b.writeToBuf data len poolOk).2.toBufferBase = queue b.toBufferBase)) ∧
    (∀ (data : List UInt8) (len : Int),
      (queue b.toBufferBase).length + len.toNat ≤ maxAllowedSize →
        (b.writeToBuf data len true).1 = 0) ∧
    (∀ (fd : Int) (k : Nat), 0 ≤ fd → 0 < k → k ≤ (queue b.toBufferBase).length →
      ∃ b', b.writeToFd fd (.accepted k) = ((k : Int), some ((queue b.toBufferBase).take k), b') ∧
        queue b'.toBufferBase = (queue b.toBufferBase).drop k) ∧
    (∀ fd : Int, 0 ≤ fd → queue b.toBufferBase ≠ [] →
      b.writeToFd fd .eagain = (0, some [], b) ∧ b.writeToFd fd .error = (-1, some [], b)) := by
  have hi := hb.inv
  exact ⟨length_eq_queue _, OutInv.length_le hi, hi.dataBuf_eq_none_iff,
    fun _ _ poolOk hd => (writeToBuf_spec hi hd poolOk).2, fun data _ h => writeToBuf_ok hi data h,
    fun _ _ hfd hk hkq => writeToFd_accepted hfd hk hkq, fun _ hfd hq => writeToFd_fails hfd hq⟩

/-- After a partial write the buffer queues six bytes from offset `4`: three more are appended
behind them, and a write that the kernel accepts two of takes them from the front. -/
theorem partialOut_queues_write :
    queue partialOut.toBufferBase = List.replicate 6 0 ∧
      (partialOut.writeToBuf [1, 2, 3] 3 true).1 = 0 ∧
      queue (partialOut.writeToBuf [1, 2, 3] 3 true).2.toBufferBase =
        List.replicate 6 0 ++ [1, 2, 3] ∧
      ∃ b', partialOut.writeToFd 3 (.accepted 2) = (2, some [0, 0], b') ∧
        queue b'.toBufferBase = List.replicate 4 0 := by
  have h := outputBuffer_refines_queue partialOut partialOut_reachable
  have hq : queue partialOut.toBufferBase = List.replicate 6 0 := by decide
  have hok := h.2.2.2.2.1 [1, 2, 3] 3 (by rw [hq]; decide)
  obtain ⟨b', hw, hd⟩ := h.2.2.2.2.2.1 3 2 (by decide) (by decide) (by rw [hq]; decide)
  rw [hq] at hw hd
  refine ⟨hq, hok, ?_, b', hw, hd⟩
  rcases h.2.2.2.1 [1, 2, 3] 3 true (by decide) with ⟨-, happ⟩ | ⟨hfail, -⟩
  · rw [happ, hq]
    rfl
  · rw [hok] at hfail
    cases hfail

/-- A write that `write(2)` accepts only in part moves `head` off `0`, in a reachable buffer
that still holds bytes, so the next `write_to_fd` reaches its `head == 0` assertion with
`head = k`. -/
theorem partial_write_leaves_head (b : OutputBuffer) (hb : OutReachable b) (c : Chunk)
    (hc : b.dataBuf = some c) (fd : Int) (hfd : 0 ≤ fd) (k : Nat) (hk : 0 < k)
    (hkl : k < c.length) :
    OutReachable (b.writeToFd fd (.accepted k)).2.2 ∧
      ∃ c', (b.writeToFd fd (.accepted k)).2.2.dataBuf = some c' ∧ c'.head = c.head + k ∧
        c'.head ≠ 0 ∧ 0 < c'.length := by
  refine ⟨.step (.writeToFd fd (.accepted k)) trivial hb, ?_⟩
  have hne : ¬ c.length < k := by omega
  have hlen : (c.pop k).length ≠ 0 := by
    simp only [Chunk.length_def, Chunk.pop_bytes, List.length_drop] at hkl ⊢; omega
  simp only [OutputBuffer.writeToFd, hc, Int.not_lt.mpr hfd, if_false,
    Nat.min_eq_left hkl.le, if_neg (show k ≠ 0 by omega),
    if_neg (show c.length ≠ 0 by omega), BufferBase.pop, if_neg (show ¬ (k : Int) ≤ 0 by omega),
    Int.toNat_ofNat, if_neg hne, if_neg hlen]
  exact ⟨_, rfl, pop_head_of_lt hkl, by rw [pop_head_of_lt hkl]; omega, by omega⟩

/-- Ten bytes queued in a fresh buffer, of which `write(2)` accepts four: `head` is `4`. -/
theorem partial_write_leaves_head_four :
    OutReachable (((⟨⟨none⟩⟩ : OutputBuffer).writeToBuf (List.replicate 10 0) 10 true).2.writeToFd
        3 (.accepted 4)).2.2 ∧
      ∃ c', (((⟨⟨none⟩⟩ : OutputBuffer).writeToBuf (List.replicate 10 0) 10 true).2.writeToFd
          3 (.accepted 4)).2.2.dataBuf = some c' ∧ c'.head = 0 + 4 ∧ c'.head ≠ 0 ∧
        0 < c'.length :=
  partial_write_leaves_head _
    (.step (.writeToBuf (List.replicate 10 0) 10 true) (by simp [OutOp.WellFormed]) .init)
    ⟨4096, 0, List.replicate 10 0⟩ rfl 3 (by decide) 4 (by decide) (by decide)

/-! ## Input buffers -/

theorem adjust_queue (b : InputBuffer) : queue b.adjust.toBufferBase = queue b.toBufferBase := by
  unfold InputBuffer.adjust
  rcases hd : b.dataBuf with _ | c
  · rfl
  · dsimp only
    split_ifs
    · simp [queue, hd]
    · rfl

theorem expandBuffer_queue (b : InputBuffer) (needed : Nat) (poolOk : Bool) :
    queue (b.expandBuffer needed poolOk).2.toBufferBase = queue b.toBufferBase := by
  unfold InputBuffer.expandBuffer
  rcases hd : b.dataBuf with _ | c
  · rfl
  dsimp only
  rcases hp : poolAlloc (c.length + needed) poolOk with _ | n
  · rfl
  obtain ⟨rfl, -, hle⟩ := poolAlloc_some hp
  dsimp only
  rw [new_copy (by simp only [Chunk.new_capacity] at hle; omega)]
  simp [queue, hd]

/-- An input buffer refines a byte queue `q`. A read first grows the buffer, which leaves `q`
alone; if that fails it returns `-1`, and otherwise it asks the kernel for
`min (capacity - length) 64 KiB > 0` bytes and appends what it gets. `pop` drops a prefix and
hands the chunk back when `q` empties; past the end it throws when the buffer holds a chunk and
does nothing when it holds none. Compaction and growth keep `q`. -/
theorem inputBuffer_refines_queue (b : InputBuffer) (hb : InReachable b) :
    (∀ (fd : Int) (poolOk : Bool) (b' : InputBuffer), 0 ≤ fd →
      b.ensureSpaceAvailable defaultBufferSize poolOk = (false, b') →
        queue b'.toBufferBase = queue b.toBufferBase ∧
          ∀ r, b.readFromFd fd r poolOk = (-1, false, b')) ∧
    (∀ (fd : Int) (poolOk : Bool) (b' : InputBuffer), 0 ≤ fd →
      b.ensureSpaceAvailable defaultBufferSize poolOk = (true, b') →
        ∃ c, b'.dataBuf = some c ∧ c.bytes = queue b.toBufferBase ∧
          0 < min (c.capacity - c.length) 65536 ∧
          (∀ bytes : List UInt8, bytes ≠ [] →
            ∃ b'', b.readFromFd fd (.data bytes) poolOk =
                (((bytes.take (min (c.capacity - c.length) 65536)).length : Int), true, b'') ∧
              queue b''.toBufferBase =
                queue b.toBufferBase ++ bytes.take (min (c.capacity - c.length) 65536)) ∧
          b.readFromFd fd .eof poolOk = (0, true, b') ∧
          b.readFromFd fd .eagain poolOk = (0, true, b') ∧
          b.readFromFd fd .error poolOk = (-1, true, b')) ∧
    (∀ n : Int, 0 < n → n.toNat ≤ (queue b.toBufferBase).length →
      ∃ b', b.pop n = .ok b' ∧ queue b' = (queue b.toBufferBase).drop n.toNat ∧
        (b'.dataBuf = none ↔ (queue b.toBufferBase).drop n.toNat = [])) ∧
    (∀ n : Int, (queue b.toBufferBase).length < n.toNat →
      (b.dataBuf ≠ none → b.pop n = .error "Pop length exceeds buffer length") ∧
        (b.dataBuf = none → b.pop n = .ok b.toBufferBase)) ∧
    queue b.adjust.toBufferBase = queue b.toBufferBase ∧
    (∀ needed poolOk,
      queue (b.expandBuffer needed poolOk).2.toBufferBase = queue b.toBufferBase) ∧
    (∀ add poolOk,
      queue (b.ensureSpaceAvailable add poolOk).2.toBufferBase = queue b.toBufferBase) := by
  have hf := hb.fits
  refine ⟨fun fd poolOk b' hfd he => ⟨(ensureSpaceAvailable_spec hf he).1,
      readFromFd_of_ensure_false hfd he⟩, fun fd poolOk b' hfd he => ?_,
    fun _ h0 hn => pop_of_le h0 hn, fun _ hn => pop_of_lt hn, adjust_queue b,
    expandBuffer_queue b, fun _ _ => (ensureSpaceAvailable_spec hf rfl).1⟩
  obtain ⟨hq, -, hroom⟩ := ensureSpaceAvailable_spec hf he
  obtain ⟨c, hc, -, hlt⟩ := hroom rfl
  have hread := readFromFd_of_ensure hfd he hc hlt
  have hpos : 0 < toRead c := by unfold toRead; omega
  refine ⟨c, hc, by rw [← hq, queue_of_dataBuf hc], hpos, fun bytes hne => ?_,
    hread .eof, hread .eagain, hread .error⟩
  have htake : bytes.take (toRead c) ≠ [] := by simp [List.take_eq_nil_iff, hne]; omega
  refine ⟨_, (hread (.data bytes)).trans (if_neg htake), ?_⟩
  simp [← hq, queue_of_dataBuf hc, toRead]

def readDrained : InputBuffer := (InOp.pop 3).apply readPopped

/-- `pop` past the end of a buffer holding three bytes throws; once those are popped and the
chunk has gone back to the pool, `pop` past the end returns without throwing. -/
theorem pop_past_end_after_drain :
    readPopped.pop 4 = .error "Pop length exceeds buffer length" ∧ readDrained.dataBuf = none ∧
      readDrained.pop 1 = .ok readDrained.toBufferBase :=
  have h := inputBuffer_refines_queue readPopped readPopped_reachable
  have h' := inputBuffer_refines_queue readDrained (.step _ readPopped_reachable)
  ⟨(h.2.2.2.1 4 (by decide)).1 (by decide), by decide, (h'.2.2.2.1 1 (by decide)).2 (by decide)⟩

/-- Not every `pop` past the end of a reachable input buffer throws. -/
theorem pop_past_end_need_not_throw :
    ¬ ∀ b : InputBuffer, InReachable b → ∀ n : Int, (queue b.toBufferBase).length < n.toNat →
      ∃ e, b.pop n = .error e := by
  intro h
  obtain ⟨e, he⟩ := h ⟨⟨none⟩⟩ .init 1 (by decide)
  cases he

end ReactorServer.Memory.ByteQueue
