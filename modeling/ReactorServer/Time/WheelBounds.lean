import ReactorServer.Time.TimeoutManager

/-!
The indices into `time_wheel_` (`ConnectionTimeoutManager.cpp`, the members in
`src/unnamed/part_005`).

`TimeoutManager.lean` keeps the wheel as a function of the slot number. The vector itself is
built in the constructor's initialiser list from the raw `wheel_size` argument, before the body
replaces a non-positive `wheel_size_` by 60, and `calculate_slot` forms `current_slot_ +
ticks_remaining` in `int` before reducing it. Both matter. With `wheel_size = 0` the vector is
empty while `wheel_size_` is 60, so `current_slot_ = 0` and every slot `calculate_slot` returns
index past its end. With `idle_timeout_ms = INT_MAX` and `tick_interval_ms = 1` the sum passes
`INT_MAX` as soon as `current_slot_` is not 0.

The manager model forms the sum in `Nat`; `calculateSlotInt` forms it in `int`, as the code
does. The two agree while the sum fits an `int`, and past `INT_MAX` the code's slot is negative
(`-8` where the model has `8` on sixty slots). For a positive `wheel_size`, over every run along
which `wheel_size_ - 1 + idle_timeout_ms_ / tick_interval_ms_` stays within `INT_MAX` (for the
server's sixty slots and one-second tick, every `int` timeout), every slot sum fits and the
code's slot is the model's, the vector has `wheel_size_` slots, and `current_slot_`, each
entry's `slot_position` and every slot `calculate_slot` returns lie below it.
-/

set_option autoImplicit false
set_option relaxedAutoImplicit false

namespace ReactorServer.Time.WheelBounds

open ReactorServer.Time.TimeoutManager

def intMax : Nat := 2 ^ 31 - 1

/-- The size of `time_wheel_(wheel_size)`: a negative argument converts to a `size_t` past
`max_size()`, and the constructor throws. -/
def timeWheelSize (wheelSize : Int) : Option Nat :=
  if wheelSize < 0 then none else some wheelSize.toNat

/-- The `int` sum `current_slot_ + ticks_remaining` that `calculate_slot` reduces. -/
def slotSum (m : Manager) (lastActivityTime : Nat) : Nat :=
  m.currentSlot + (m.idleTimeoutMs - (m.now - lastActivityTime)) / m.tickIntervalMs

theorem calculateSlot_eq (m : Manager) (t : Nat) :
    m.calculateSlot t = slotSum m t % m.wheelSize := rfl

theorem calculateSlotInt_eq (m : Manager) (t : Nat) :
    m.calculateSlotInt t = Int.tmod (Int.bmod (slotSum m t) (2 ^ 32)) m.wheelSize := by
  simp only [Manager.calculateSlotInt, slotSum, Nat.cast_add]

theorem calculateSlotInt_of_fits (m : Manager) (t : Nat) (h : slotSum m t ≤ intMax) :
    m.calculateSlotInt t = m.calculateSlot t := by
  have hb : Int.bmod (slotSum m t) (2 ^ 32) = slotSum m t := by
    unfold intMax at h
    rw [Int.bmod_pos _ _ (by push_cast; omega)]
    push_cast
    omega
  rw [calculateSlotInt_eq, hb, Int.tmod_eq_emod (Int.natCast_nonneg _) (Int.natCast_nonneg _)]
  exact (Int.natCast_mod _ _).symm

/-! ## Out of range -/

theorem create_tick_currentSlot (idleTimeoutMs tickIntervalMs wheelSize : Int) (hw : 1 < wheelSize)
    (fdOf : Nat → Int) :
    ((Manager.create idleTimeoutMs wheelSize tickIntervalMs).tick fdOf).currentSlot = 1 := by
  have hw' : ¬ wheelSize ≤ 0 := by omega
  simp [Manager.tick, Manager.processTimeoutConnections, Manager.create, scanSlot, hw']
  exact Nat.mod_eq_of_lt (by omega)

/-- With `wheel_size = 0` the vector is empty while `wheel_size_` is 60 and `current_slot_` is
0; and for any wheel of two slots or more, with a timeout of `INT_MAX` ms and a 1 ms tick, the
slot sum of a connection active at the first tick's instant passes `INT_MAX`. -/
theorem wheel_index_leaves_range (idleTimeoutMs tickIntervalMs : Int) :
    timeWheelSize 0 = some 0 ∧
      (Manager.create idleTimeoutMs 0 tickIntervalMs).wheelSize = 60 ∧
      (Manager.create idleTimeoutMs 0 tickIntervalMs).currentSlot = 0 ∧
    ∀ wheelSize : Int, 1 < wheelSize → ∀ fdOf : Nat → Int,
      ((Manager.create intMax wheelSize 1).tick fdOf).currentSlot = 1 ∧
        intMax < slotSum ((Manager.create intMax wheelSize 1).tick fdOf)
          ((Manager.create intMax wheelSize 1).tick fdOf).now := by
  refine ⟨rfl, rfl, rfl, fun wheelSize hw fdOf => ⟨create_tick_currentSlot _ _ _ hw fdOf, ?_⟩⟩
  rw [slotSum, create_tick_currentSlot _ _ _ hw fdOf]
  simp [Manager.tick, Manager.processTimeoutConnections, Manager.create, scanSlot, intMax]

/-- The server's sixty-slot wheel with an `INT_MAX` timeout and a 1 ms tick, after one tick. -/
theorem sixty_slot_sum_overflows :
    timeWheelSize 0 = some 0 ∧ (Manager.create 0 0 0).wheelSize = 60 ∧
      (Manager.create 0 0 0).currentSlot = 0 ∧
      ((Manager.create intMax 60 1).tick fun _ => 5).currentSlot = 1 ∧
      intMax < slotSum ((Manager.create intMax 60 1).tick fun _ => 5)
        ((Manager.create intMax 60 1).tick fun _ => 5).now :=
  have h := wheel_index_leaves_range 0 0
  ⟨h.1, h.2.1, h.2.2.1, h.2.2.2 60 (by decide) _⟩

/-- The indices a manager uses into a wheel of `W` slots are below `W`, `wheel_size_` is `W`,
and no slot at or past `W` holds an entry. -/
structure InRange (W : Nat) (m : Manager) : Prop where
  size : m.wheelSize = W
  wheel_pos : 0 < W
  slot_lt : m.currentSlot < W
  entries_lt : ∀ e ∈ m.heap, e.slotPosition < W
  beyond_empty : ∀ s, W ≤ s → m.wheel s = []

variable {W : Nat} {m : Manager}

theorem InRange.calculateSlot_lt (h : InRange W m) (t : Nat) : m.calculateSlot t < W := by
  rw [calculateSlot_eq, h.size]
  exact Nat.mod_lt _ h.wheel_pos

theorem InRange.update (h : InRange W m) {s : Nat} (hs : s < W) (l : List Nat) :
    InRange W { m with wheel := Function.update m.wheel s l } :=
  ⟨h.size, h.wheel_pos, h.slot_lt, h.entries_lt, fun s' hs' => by
    show Function.update m.wheel s l s' = []
    rw [Function.update_noteq (by omega)]
    exact h.beyond_empty s' hs'⟩

theorem InRange.setEntry (h : InRange W m) {a : Nat} {e : ConnectionEntry}
    (he : e.slotPosition < W) : InRange W (m.setEntry a e) :=
  ⟨h.size, h.wheel_pos, h.slot_lt, fun f hf => by
    rcases List.mem_or_eq_of_mem_set hf with hf | rfl
    · exact h.entries_lt f hf
    · exact he, h.beyond_empty⟩

theorem InRange.moveToNewSlot (h : InRange W m) (a : Nat) : InRange W (m.moveToNewSlot a) := by
  unfold Manager.moveToNewSlot
  rcases ha : m.heap[a]? with _ | e
  · exact h
  have he := h.entries_lt e (List.getElem?_mem ha)
  have hn := h.calculateSlot_lt e.lastActivityTime
  dsimp only
  split_ifs
  · exact h.setEntry he
  · exact ((h.setEntry hn).update he _).update hn _

theorem InRange.touch (h : InRange W m) (a : Nat) :
    InRange W (match m.heap[a]? with
      | none => m
      | some e => (m.setEntry a { e with lastActivityTime := m.now }).moveToNewSlot a) := by
  rcases ha : m.heap[a]? with _ | e
  · exact h
  · exact (h.setEntry (e := { e with lastActivityTime := m.now })
      (h.entries_lt e (List.getElem?_mem ha))).moveToNewSlot a

theorem InRange.push (h : InRange W m) {e : ConnectionEntry} (he : e.slotPosition < W)
    (cs : List (Int × Nat)) (n : Nat) :
    InRange W { m with heap := m.heap ++ [e], connections := cs, totalConnections := n } :=
  ⟨h.size, h.wheel_pos, h.slot_lt, fun f hf => by
    rcases List.mem_append.mp hf with hf | hf
    · exact h.entries_lt f hf
    · exact List.mem_singleton.mp hf ▸ he, h.beyond_empty⟩

theorem InRange.addConnection (h : InRange W m) (conn : Nat) (fd : Int) :
    InRange W (m.addConnection conn fd) := by
  dsimp only [Manager.addConnection]
  split_ifs
  · exact h
  · exact h
  · exact (h.push (h.calculateSlot_lt m.now) _ _).update (h.calculateSlot_lt m.now) _

theorem InRange.updateActivity (h : InRange W m) (fd : Int) :
    InRange W (m.updateActivity fd) := by
  unfold Manager.updateActivity
  split
  · exact h
  · exact h.touch _

theorem InRange.removeConnection (h : InRange W m) (fd : Int) :
    InRange W (m.removeConnection fd) := by
  unfold Manager.removeConnection
  split
  · exact h
  · exact ⟨h.1, h.2, h.3, h.4, h.5⟩

theorem InRange.resetAll (h : InRange W m) : InRange W m.resetAll := by
  unfold Manager.resetAll
  generalize m.connections = ps
  induction ps generalizing m with
  | nil => exact h
  | cons p ps ih => exact ih (h.touch p.2)

theorem InRange.cleanupClosedConnections (h : InRange W m) (connected : Nat → Bool)
    (fdOf : Nat → Int) : InRange W (m.cleanupClosedConnections connected fdOf) := by
  unfold Manager.cleanupClosedConnections
  generalize (m.connections.filterMap _) = ids
  induction ids generalizing m with
  | nil => exact h
  | cons fd ids ih =>
    have h' := h.removeConnection fd
    exact ih ⟨h'.1, h'.2, h'.3, h'.4, fun s hs => by simp [h'.5 s hs]⟩

theorem InRange.setIdleTimeout (h : InRange W m) (idleTimeoutMs : Int) :
    InRange W (m.setIdleTimeout idleTimeoutMs) := by
  unfold Manager.setIdleTimeout
  split_ifs
  · exact h
  · exact ⟨h.1, h.2, h.3, h.4, h.5⟩

theorem scanSlot_entries_lt {idle now : Nat} (l : List Nat) (heap : List ConnectionEntry)
    (h : ∀ e ∈ heap, e.slotPosition < W) :
    ∀ e ∈ (scanSlot idle now l heap).2.2, e.slotPosition < W := by
  induction l generalizing heap with
  | nil => exact h
  | cons a rest ih =>
    simp only [scanSlot]
    split
    · exact ih heap h
    · rename_i e he
      split
      · rename_i e' hv
        refine ih _ fun f hf => ?_
        rcases List.mem_or_eq_of_mem_set hf with hf | rfl
        · exact h f hf
        · rw [(visit_conn hv).2]
          exact h e (List.getElem?_mem he)
      · exact ih heap h

theorem InRange.tick (h : InRange W m) (fdOf : Nat → Int) : InRange W (m.tick fdOf) := by
  obtain ⟨conns, total, heq⟩ := tick_eq m fdOf
  rw [heq]
  have hs := h.slot_lt
  refine ⟨h.size, h.wheel_pos, h.size ▸ Nat.mod_lt _ (h.size ▸ h.wheel_pos),
    scanSlot_entries_lt _ _ h.entries_lt, fun s hs' => ?_⟩
  dsimp only
  rw [Function.update_noteq (by omega)]
  exact h.beyond_empty s hs'

/-- One public operation of the manager, with the descriptors and connection states the code
reads at that moment. -/
inductive Op
  | addConnection (conn : Nat) (fd : Int)
  | updateActivity (fd : Int)
  | removeConnection (fd : Int)
  | resetAll
  | cleanupClosedConnections (connected : Nat → Bool) (fdOf : Nat → Int)
  | setIdleTimeout (idleTimeoutMs : Int)
  | tick (fdOf : Nat → Int)

def Op.apply (m : Manager) : Op → Manager
  | .addConnection conn fd => m.addConnection conn fd
  | .updateActivity fd => m.updateActivity fd
  | .removeConnection fd => m.removeConnection fd
  | .resetAll => m.resetAll
  | .cleanupClosedConnections connected fdOf => m.cleanupClosedConnections connected fdOf
  | .setIdleTimeout idleTimeoutMs => m.setIdleTimeout idleTimeoutMs
  | .tick fdOf => m.tick fdOf

/-- The largest slot sum the manager's timeout can give, `wheel_size_ - 1 + idle_timeout_ms_ /
tick_interval_ms_`, fits an `int`. -/
def SumFits (m : Manager) : Prop := m.wheelSize - 1 + m.idleTimeoutMs / m.tickIntervalMs ≤ intMax

instance (m : Manager) : Decidable (SumFits m) := inferInstanceAs (Decidable (_ ≤ _))

/-- The managers that the constructor's arguments and then any operations lead to, along runs
whose every manager has `SumFits`. -/
inductive Reachable (idleTimeoutMs wheelSize tickIntervalMs : Int) : Manager → Prop
  | create : SumFits (Manager.create idleTimeoutMs wheelSize tickIntervalMs) →
      Reachable idleTimeoutMs wheelSize tickIntervalMs
        (Manager.create idleTimeoutMs wheelSize tickIntervalMs)
  | step {m : Manager} (op : Op) :
      Reachable idleTimeoutMs wheelSize tickIntervalMs m → SumFits (op.apply m) →
        Reachable idleTimeoutMs wheelSize tickIntervalMs (op.apply m)

theorem InRange.apply (h : InRange W m) : (op : Op) → InRange W (op.apply m)
  | .addConnection conn fd => h.addConnection conn fd
  | .updateActivity fd => h.updateActivity fd
  | .removeConnection fd => h.removeConnection fd
  | .resetAll => h.resetAll
  | .cleanupClosedConnections connected fdOf => h.cleanupClosedConnections connected fdOf
  | .setIdleTimeout idleTimeoutMs => h.setIdleTimeout idleTimeoutMs
  | .tick fdOf => h.tick fdOf

theorem inRange_create (idleTimeoutMs tickIntervalMs : Int) {wheelSize : Int}
    (hw : 0 < wheelSize) :
    InRange wheelSize.toNat (Manager.create idleTimeoutMs wheelSize tickIntervalMs) :=
  ⟨if_neg (by omega), by omega, by simp only [Manager.create]; omega, nofun, fun _ _ => rfl⟩

theorem Reachable.inRange {idleTimeoutMs wheelSize tickIntervalMs : Int} (hw : 0 < wheelSize)
    (h : Reachable idleTimeoutMs wheelSize tickIntervalMs m) : InRange wheelSize.toNat m := by
  induction h with
  | create => exact inRange_create _ _ hw
  | step op _ _ ih => exact ih.apply op

theorem Reachable.sumFits {idleTimeoutMs wheelSize tickIntervalMs : Int}
    (h : Reachable idleTimeoutMs wheelSize tickIntervalMs m) : SumFits m := by
  cases h with
  | create hf => exact hf
  | step _ _ hf => exact hf

theorem InRange.slotSum_le (h : InRange W m) (t : Nat) :
    slotSum m t ≤ W - 1 + m.idleTimeoutMs / m.tickIntervalMs := by
  have h1 := h.slot_lt
  have h2 : (m.idleTimeoutMs - (m.now - t)) / m.tickIntervalMs ≤
      m.idleTimeoutMs / m.tickIntervalMs :=
    Nat.div_le_div_right (Nat.sub_le _ _)
  unfold slotSum
  omega

/-- For a positive `wheel_size`, over every run whose managers keep `wheel_size_ - 1 +
idle_timeout_ms_ / tick_interval_ms_` within `INT_MAX`, every slot sum `calculate_slot` forms
fits an `int`, the vector has `wheel_size_` slots, and `current_slot_`, every entry's
`slot_position` and every slot `calculate_slot` returns index into it. -/
theorem wheel_index_in_range (idleTimeoutMs wheelSize tickIntervalMs : Int) (hw : 0 < wheelSize)
    (m : Manager) (h : Reachable idleTimeoutMs wheelSize tickIntervalMs m) :
    timeWheelSize wheelSize = some m.wheelSize ∧ m.currentSlot < m.wheelSize ∧
      (∀ e ∈ m.heap, e.slotPosition < m.wheelSize) ∧
      ∀ t, slotSum m t ≤ intMax ∧ m.calculateSlotInt t = m.calculateSlot t ∧
        m.calculateSlot t < m.wheelSize := by
  have hr := h.inRange hw
  have hfit := h.sumFits
  unfold SumFits at hfit
  rw [hr.size] at hfit ⊢
  have hsum t : slotSum m t ≤ intMax := (hr.slotSum_le t).trans hfit
  exact ⟨if_neg (by omega), hr.slot_lt, hr.entries_lt,
    fun t => ⟨hsum t, calculateSlotInt_of_fits m t (hsum t), hr.calculateSlot_lt t⟩⟩

def tickedWheel : Manager :=
  (((Manager.create 0 60 0).addConnection 0 5).tick fun _ => 5).setIdleTimeout 2000

theorem tickedWheel_in_range :
    timeWheelSize 60 = some tickedWheel.wheelSize ∧ tickedWheel.currentSlot < tickedWheel.wheelSize ∧
      (∀ e ∈ tickedWheel.heap, e.slotPosition < tickedWheel.wheelSize) ∧
      ∀ t, slotSum tickedWheel t ≤ intMax ∧
        tickedWheel.calculateSlotInt t = tickedWheel.calculateSlot t ∧
        tickedWheel.calculateSlot t < tickedWheel.wheelSize :=
  wheel_index_in_range 0 60 0 (by decide) tickedWheel
    (.step (.setIdleTimeout 2000) (.step (.tick fun _ => 5) (.step (.addConnection 0 5)
      (.create (by decide)) (by decide)) (by decide)) (by decide))

end ReactorServer.Time.WheelBounds
