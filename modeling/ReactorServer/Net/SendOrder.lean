import ReactorServer.Net.Lifecycle

/-!
What `sendInLoop` does with a payload it cannot buffer.

`sendInLoop` hands the unwritten tail to `OutputBuffer::write_to_buf` and ignores what it
returns. A tail longer than 1 MiB is refused there (`-1`), so it is neither written nor
buffered, while the connection stays `kConnected` and later sends go through.
-/

set_option autoImplicit false
set_option relaxedAutoImplicit false

namespace ReactorServer.Net.SendOrder

open ReactorServer.Memory.Slab ReactorServer.Memory.Buffer ReactorServer.Net.Interest
open ReactorServer.Net.Connection

def written (t : List Effect) : List UInt8 :=
  t.flatMap fun
    | .write _ bytes => bytes
    | _ => []

def contents (b : OutputBuffer) : List UInt8 :=
  match b.dataBuf with
  | none => []
  | some c => c.bytes

@[simp] theorem written_append (t t' : List Effect) : written (t ++ t') = written t ++ written t' :=
  List.flatMap_append _ _ _

theorem toInt32_of_lt {x : Nat} (h : x < 2 ^ 31) : toInt32 x = x := by
  have : x % 2 ^ 32 = x := Nat.mod_eq_of_lt (by omega)
  rw [toInt32, this, if_pos h]

theorem writeToBuf_of_large (b : OutputBuffer) (data : List UInt8) {len : Int} (poolOk : Bool)
    (h : (maxAllowedSize : Int) < len) : b.writeToBuf data len poolOk = (-1, b) := by
  have : ¬ len ≤ 0 := by simp [maxAllowedSize] at h; omega
  simp [OutputBuffer.writeToBuf, this, h]

/-- A payload of more than 1 MiB (and less than 2 GiB) whose direct write meets `EAGAIN` is
dropped: the written bytes and the buffered bytes are what they were, and the connection stays
`kConnected`. -/
theorem oversized_send_dropped {c : Conn} (hs : c.state = .kConnected) (data : List UInt8)
    (hbig : maxAllowedSize < data.length) (hsmall : data.length < 2 ^ 31) (poolOk : Bool) :
    (sendInLoop data .eagain poolOk c).state = .kConnected ∧
      written (sendInLoop data .eagain poolOk c).trace ++
          contents (sendInLoop data .eagain poolOk c).outputBuf =
        written c.trace ++ contents c.outputBuf := by
  have hpos : 0 < data.length := by simp [maxAllowedSize] at hbig; omega
  have hbuf : ∀ c1 : Conn, c1.state = .kConnected →
      (bufferRest data 0 poolOk c1).state = .kConnected ∧
        (bufferRest data 0 poolOk c1).trace = (c1.updateChannelWith Channel.enableWrite).trace ∧
        (bufferRest data 0 poolOk c1).outputBuf = c1.outputBuf := by
    intro c1 hc1
    have hlen : toInt32 (data.length - 0) = (data.length : Int) := toInt32_of_lt (by omega)
    simp only [bufferRest, hpos, if_true, List.drop_zero, hlen,
      writeToBuf_of_large _ _ _ (by exact_mod_cast hbig : (maxAllowedSize : Int) < data.length)]
    refine ⟨?_, ?_, ?_⟩ <;> simp [hc1]
  simp only [sendInLoop, hs, ne_eq, not_true_eq_false, if_false]
  split
  · obtain ⟨h1, h2, h3⟩ := hbuf (c.emit (.write c.connfd [])) hs
    refine ⟨h1, ?_⟩
    rw [h2, h3]
    rcases Conn.updateChannelWith_trace (c.emit (.write c.connfd [])) Channel.enableWrite
      with ht | ht <;> rw [ht] <;>
      simp [Conn.emit, written]
  · obtain ⟨h1, h2, h3⟩ := hbuf c hs
    refine ⟨h1, ?_⟩
    rw [h2, h3]
    rcases Conn.updateChannelWith_trace c Channel.enableWrite with ht | ht <;> simp [ht, written]

def connected7 : Conn := step (Conn.init 7) (.connectEstablished [])

def twoMiB : List UInt8 := List.replicate (2 * 1024 * 1024) 0

/-- A 2 MiB payload sent on a fresh connection whose socket buffer is full is dropped. -/
theorem two_mib_send_dropped :
    connected7.state = .kConnected ∧ maxAllowedSize < twoMiB.length ∧ twoMiB.length < 2 ^ 31 ∧
      (sendInLoop twoMiB .eagain true connected7).state = .kConnected ∧
      written (sendInLoop twoMiB .eagain true connected7).trace ++
          contents (sendInLoop twoMiB .eagain true connected7).outputBuf =
        written connected7.trace ++ contents connected7.outputBuf :=
  have hs : connected7.state = .kConnected := by decide
  have hbig : maxAllowedSize < twoMiB.length := by
    rw [twoMiB, List.length_replicate]; decide
  have hsmall : twoMiB.length < 2 ^ 31 := by rw [twoMiB, List.length_replicate]; decide
  ⟨hs, hbig, hsmall, oversized_send_dropped hs twoMiB hbig hsmall true⟩

end ReactorServer.Net.SendOrder
