import Mathlib.Data.List.Basic

/-!
Channels and the part of an event loop's registry that belongs to one descriptor
(`Channel.cpp`, `EventLoop::update_channel` and `Epoll::add/mod/del`).

For a descriptor `fd` the loop keeps two things: whether `channels_` maps `fd`, and the
interest mask the kernel's epoll set holds for `fd`. `epoll_ctl` is modelled by its Linux
semantics on an open descriptor: `ADD` fails when `fd` is already in the set, `MOD` and `DEL`
fail when it is not, and otherwise they succeed.
-/

set_option autoImplicit false
set_option relaxedAutoImplicit false

namespace ReactorServer.Net.Interest

def epollIn : UInt32 := 0x001
def epollOut : UInt32 := 0x004
def epollErr : UInt32 := 0x008
def epollHup : UInt32 := 0x010
def epollRdHup : UInt32 := 0x2000

/-- Whether the mask `events` has one of the bits of `bits` (`events & bits` in C). -/
def has (events bits : UInt32) : Bool := events &&& bits != 0

/-- A `Channel`: its descriptor and its interest mask `events_`. -/
structure Channel where
  fd : Int
  events : UInt32
  deriving DecidableEq, Repr

/-- The loop's registry for one descriptor: `channels_` membership and the epoll interest. -/
structure Registration where
  inChannels : Bool
  interest : Option UInt32
  deriving DecidableEq, Repr

def Registration.empty : Registration := ⟨false, none⟩

/-- `EventLoop::update_channel` for the channel's descriptor. -/
def updateChannel (ch : Channel) (r : Registration) : Registration :=
  if ch.events = 0 then ⟨false, none⟩
  else if r.inChannels = false then
    match r.interest with
    | none => ⟨true, some ch.events⟩
    | some _ => r
  else
    match r.interest with
    | none => r
    | some _ => ⟨true, some ch.events⟩

namespace Channel

/-- `Channel::enable_read`: the new mask (the caller then runs `update`). -/
def enableRead (ch : Channel) : Channel := { ch with events := ch.events ||| (epollIn ||| epollRdHup) }

def enableWrite (ch : Channel) : Channel := { ch with events := ch.events ||| epollOut }

def disableWrite (ch : Channel) : Channel := { ch with events := ch.events &&& ~~~epollOut }

def disableAll (ch : Channel) : Channel := { ch with events := 0 }

end Channel

/-- The mask `enable_read` sets on a new channel: `EPOLLIN | EPOLLRDHUP`. -/
def readMask : UInt32 := epollIn ||| epollRdHup

def readWriteMask : UInt32 := readMask ||| epollOut

def ArmedMask (m : UInt32) : Prop := m = readMask ∨ m = readWriteMask

instance (m : UInt32) : Decidable (ArmedMask m) := inferInstanceAs (Decidable (_ ∨ _))

theorem armedMask_enableWrite {m : UInt32} (h : ArmedMask m) : ArmedMask (m ||| epollOut) := by
  rcases h with rfl | rfl <;> decide

theorem armedMask_disableWrite {m : UInt32} (h : ArmedMask m) : ArmedMask (m &&& ~~~epollOut) := by
  rcases h with rfl | rfl <;> decide

theorem armedMask_ne_zero {m : UInt32} (h : ArmedMask m) : m ≠ 0 := by
  rcases h with rfl | rfl <;> decide

theorem zero_enableRead : (0 : UInt32) ||| (epollIn ||| epollRdHup) = readMask := by decide

@[simp] theorem updateChannel_disableAll (ch : Channel) (r : Registration) :
    updateChannel ch.disableAll r = ⟨false, none⟩ := by
  simp [updateChannel, Channel.disableAll]

end ReactorServer.Net.Interest
