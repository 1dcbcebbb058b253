import ReactorServer.Time.TimeoutManager

/-!
The window between the two phases of `process_timeout_connections`
(`src/time/ConnectionTimeoutManager.cpp`).

The ticker thread scans the current slot under its `slot_mutex` and collects the expired
entries, then releases the lock, and only afterwards erases each expired connection from
`connections_` and calls the timeout callback. `update_activity`, on a loop thread, takes
`connections_mutex_` to find the entry and then the slot locks in `move_to_new_slot`, so it can
run entirely between the two phases: it finds the entry still in `connections_`, stamps it with
the current time and files it in a new slot, and the ticker then shuts the connection down
anyway.

`TimeoutManager.lean` takes `process_timeout_connections` as one step; `scanPhase` is its first
phase, and the fold of `expire` its second. Run without the window, every callback is for an
entry whose idle time had reached `idle_timeout_ms_`; with an `update_activity` in the window,
the callback is for an entry that has just been active.
-/

set_option autoImplicit false
set_option relaxedAutoImplicit false

namespace ReactorServer.Time.ActivityRace

open ReactorServer.Time.TimeoutManager Manager
open ReactorServer.FdMap (lookup)

/-- The locked scan of `process_timeout_connections`: the manager after it, and the expired
entries it collected. -/
def scanPhase (m : Manager) : Manager × List Nat :=
  let r := scanSlot m.idleTimeoutMs m.now (m.wheel m.currentSlot) m.heap
  ({ m with heap := r.2.2, wheel := Function.update m.wheel m.currentSlot r.1 }, r.2.1)

theorem processTimeoutConnections_eq (m : Manager) (fdOf : Nat → Int) :
    m.processTimeoutConnections fdOf = (scanPhase m).2.foldl (expire fdOf) (scanPhase m).1 :=
  rfl

/-- `process_timeout_connections` with an `update_activity(fd)` run between its scan and its
callbacks. -/
def raced (m : Manager) (fdOf : Nat → Int) (fd : Int) : Manager :=
  (scanPhase m).2.foldl (expire fdOf) ((scanPhase m).1.updateActivity fd)

/-! ## The scan -/

section Scan

variable {idle now : Nat}

theorem visit_lastActivityTime {e e' : ConnectionEntry} (h : visit idle now e = some e') :
    e'.lastActivityTime = e.lastActivityTime := by
  unfold visit at h
  split_ifs at h <;> cases h <;> rfl

theorem idle_le_of_visit_none {e : ConnectionEntry} (h : visit idle now e = none) :
    idle ≤ now - e.lastActivityTime := by
  unfold visit at h
  split_ifs at h with h₁ h₂
  exact h₂

theorem scanSlot_lastActivityTime (l : List Nat) (heap : List ConnectionEntry) (b : Nat) :
    (scanSlot idle now l heap).2.2[b]?.map ConnectionEntry.lastActivityTime =
      heap[b]?.map ConnectionEntry.lastActivityTime := by
  induction l generalizing heap with
  | nil => rfl
  | cons a rest ih =>
    simp only [scanSlot]
    split
    · exact ih heap
    · rename_i e he
      split
      · rename_i e' hv
        rw [ih]
        by_cases hab : a = b
        · subst hab
          rw [List.getElem?_set_self (List.getElem?_eq_some_iff.1 he).1, he, Option.map_some',
            Option.map_some', visit_lastActivityTime hv]
        · rw [List.getElem?_set_ne hab]
      · exact ih heap

theorem scanSlot_expired {a : Nat} (l : List Nat) (heap : List ConnectionEntry)
    (ha : a ∈ (scanSlot idle now l heap).2.1) :
    ∃ e, heap[a]? = some e ∧ idle ≤ now - e.lastActivityTime := by
  induction l generalizing heap with
  | nil => simp [scanSlot] at ha
  | cons b rest ih =>
    simp only [scanSlot] at ha
    split at ha
    · exact ih heap ha
    · rename_i e he
      split at ha
      · rename_i e' hv
        obtain ⟨f, hf, hidle⟩ := ih _ ha
        by_cases hab : b = a
        · subst hab
          rw [List.getElem?_set_self (List.getElem?_eq_some_iff.1 he).1] at hf
          cases hf
          exact ⟨e, he, visit_lastActivityTime hv ▸ hidle⟩
        · rw [List.getElem?_set_ne hab] at hf
          exact ⟨f, hf, hidle⟩
      · rename_i hv
        rcases List.mem_cons.1 ha with rfl | ha
        · exact ⟨e, he, idle_le_of_visit_none hv⟩
        · exact ih heap ha

theorem scanSlot_expired_entry {a : Nat} (l : List Nat) (heap : List ConnectionEntry)
    (ha : a ∈ (scanSlot idle now l heap).2.1) :
    ∃ e, (scanSlot idle now l heap).2.2[a]? = some e ∧ idle ≤ now - e.lastActivityTime := by
  obtain ⟨e, he, hidle⟩ := scanSlot_expired l heap ha
  have hmap : (scanSlot idle now l heap).2.2[a]?.map ConnectionEntry.lastActivityTime =
      heap[a]?.map ConnectionEntry.lastActivityTime := scanSlot_lastActivityTime l heap a
  rw [he] at hmap
  obtain ⟨f, hf, hfe⟩ := Option.map_eq_some'.1 hmap
  exact ⟨f, hf, hfe ▸ hidle⟩

end Scan

/-! ## `update_activity` -/

theorem moveToNewSlot_entry {m : Manager} {a : Nat} {e : ConnectionEntry}
    (he : m.heap[a]? = some e) :
    ∃ e' wheel, m.moveToNewSlot a = { m with heap := m.heap.set a e', wheel := wheel } ∧
      e'.conn = e.conn ∧ e'.lastActivityTime = e.lastActivityTime := by
  unfold moveToNewSlot
  rw [he]
  dsimp only
  split_ifs
  · exact ⟨_, m.wheel, rfl, rfl, rfl⟩
  · exact ⟨_, _, rfl, rfl, rfl⟩

theorem updateActivity_touches {m : Manager} {fd : Int} {a : Nat} {e : ConnectionEntry}
    (hfd : lookup m.connections fd = some a) (he : m.heap[a]? = some e) :
    ∃ e', (m.updateActivity fd).heap[a]? = some e' ∧ e'.conn = e.conn ∧
      e'.lastActivityTime = m.now ∧ (m.updateActivity fd).now = m.now ∧
      (m.updateActivity fd).idleTimeoutMs = m.idleTimeoutMs ∧
      (m.updateActivity fd).timedOut = m.timedOut := by
  have ha : a < m.heap.length := (List.getElem?_eq_some_iff.1 he).1
  have he' : (m.setEntry a { e with lastActivityTime := m.now }).heap[a]? =
      some { e with lastActivityTime := m.now } := List.getElem?_set_self ha
  obtain ⟨e', wheel, hmove, hc, ht⟩ := moveToNewSlot_entry he'
  simp only [updateActivity, hfd, he, hmove]
  exact ⟨e', List.getElem?_set_self (by simpa [setEntry] using ha), hc, ht, rfl, rfl, rfl⟩

/-! ## The callbacks -/

theorem expire_callbacks (fdOf : Nat → Int) (l : List Nat) (m : Manager) :
    (l.foldl (expire fdOf) m).heap = m.heap ∧ (l.foldl (expire fdOf) m).now = m.now ∧
      (l.foldl (expire fdOf) m).idleTimeoutMs = m.idleTimeoutMs ∧
      (l.foldl (expire fdOf) m).timedOut =
        m.timedOut ++ l.filterMap fun a => m.heap[a]?.map ConnectionEntry.conn := by
  obtain ⟨conns, total, h⟩ := foldl_expire fdOf l m
  rw [h]
  exact ⟨rfl, rfl, rfl, rfl⟩

/-- Without an `update_activity` in the window, every timeout callback that
`process_timeout_connections` makes is for the connection of an entry that had been idle for
`idle_timeout_ms_` at that instant. -/
theorem processTimeoutConnections_idle (m : Manager) (fdOf : Nat → Int) :
    ∀ c ∈ (m.processTimeoutConnections fdOf).timedOut.drop m.timedOut.length,
      ∃ (a : Nat) (e : ConnectionEntry), (m.processTimeoutConnections fdOf).heap[a]? = some e ∧
        e.conn = c ∧
        (m.processTimeoutConnections fdOf).idleTimeoutMs ≤
          (m.processTimeoutConnections fdOf).now - e.lastActivityTime := by
  intro c hc
  obtain ⟨hheap, hnow, hidle, hto⟩ := expire_callbacks fdOf (scanPhase m).2 (scanPhase m).1
  rw [processTimeoutConnections_eq, hheap, hnow, hidle]
  have hlen : (scanPhase m).1.timedOut.length = m.timedOut.length := rfl
  rw [processTimeoutConnections_eq, hto, List.drop_left' hlen] at hc
  obtain ⟨a, ha, hac⟩ := List.mem_filterMap.1 hc
  obtain ⟨e, he, hidle'⟩ : ∃ e, (scanPhase m).1.heap[a]? = some e ∧
      m.idleTimeoutMs ≤ m.now - e.lastActivityTime := scanSlot_expired_entry _ _ ha
  rw [he, Option.map_some', Option.some_inj] at hac
  exact ⟨a, e, he, hac, hidle'⟩

def dueWheel : Manager := ((Manager.create 1000 1 1000).addConnection 0 5).tick fun _ => 5

theorem dueWheel_expires_idle :
    0 ∈ (dueWheel.processTimeoutConnections fun _ => 5).timedOut.drop dueWheel.timedOut.length ∧
      ∃ (a : Nat) (e : ConnectionEntry),
        (dueWheel.processTimeoutConnections fun _ => 5).heap[a]? = some e ∧ e.conn = 0 ∧
        (dueWheel.processTimeoutConnections fun _ => 5).idleTimeoutMs ≤
          (dueWheel.processTimeoutConnections fun _ => 5).now - e.lastActivityTime :=
  have h : 0 ∈ (dueWheel.processTimeoutConnections fun _ => 5).timedOut.drop
      dueWheel.timedOut.length := by decide
  ⟨h, processTimeoutConnections_idle dueWheel (fun _ => 5) 0 h⟩

/-- When an `update_activity(fd)` for a connection whose entry the scan collected completes
between the scan and the callbacks, the callback is still made for that connection, and at
that instant its entry's last activity is the current time, so its idle time is `0`, below any
positive `idle_timeout_ms_`. -/
theorem activity_race_times_out (m : Manager) (fdOf : Nat → Int) (fd : Int) (a : Nat)
    (ha : a ∈ (scanPhase m).2) (hfd : lookup m.connections fd = some a)
    (hidle : 0 < m.idleTimeoutMs) :
    ∃ e, (raced m fdOf fd).heap[a]? = some e ∧
      e.conn ∈ (raced m fdOf fd).timedOut.drop m.timedOut.length ∧
      (raced m fdOf fd).now - e.lastActivityTime < (raced m fdOf fd).idleTimeoutMs := by
  obtain ⟨e₁, he₁, -⟩ : ∃ e, (scanPhase m).1.heap[a]? = some e ∧
      m.idleTimeoutMs ≤ m.now - e.lastActivityTime := scanSlot_expired_entry _ _ ha
  obtain ⟨e, he, -, hlat, hnow, hidle', hto'⟩ :=
    updateActivity_touches (m := (scanPhase m).1) hfd he₁
  obtain ⟨hheap, hnow', hidle'', hto⟩ :=
    expire_callbacks fdOf (scanPhase m).2 ((scanPhase m).1.updateActivity fd)
  refine ⟨e, ?_, ?_, ?_⟩
  · rw [raced, hheap, he]
  · have hlen : (scanPhase m).1.timedOut.length = m.timedOut.length := rfl
    rw [raced, hto, hto', List.drop_left' hlen]
    exact List.mem_filterMap.2 ⟨a, ha, by rw [he]; rfl⟩
  · rw [raced, hnow', hidle'', hlat, hnow, hidle', Nat.sub_self]
    exact hidle

theorem dueWheel_activity_race :
    ∃ e, (raced dueWheel (fun _ => 5) 5).heap[0]? = some e ∧
      e.conn ∈ (raced dueWheel (fun _ => 5) 5).timedOut.drop dueWheel.timedOut.length ∧
      (raced dueWheel (fun _ => 5) 5).now - e.lastActivityTime <
        (raced dueWheel (fun _ => 5) 5).idleTimeoutMs :=
  activity_race_times_out dueWheel (fun _ => 5) 5 0 (by decide) (by decide) (by decide)

end ReactorServer.Time.ActivityRace
