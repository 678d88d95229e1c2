import Nanoev.Timer.HeapInvariant

/-!
# The heap as a partial map

Seen from the event loop a timer heap is a partial map: it assigns to every armed node the time at
which it expires. `armed` is that map, and the lemmas of this file say what each operation of the
heap makes of it. The arguments about timers that follow are made on this map; the array, the back
pointers and the sifts do not occur in them any more.
-/

namespace Nanoev

namespace TimerMinHeap

open ArrayHeap

variable {ν : Type} {h h' : TimerMinHeap ν} {n m : ν} {tv off : Timeval}

def armed (h : TimerMinHeap ν) (n : ν) : Option Timeval :=
  (h.node n).minHeapIdx.map fun _ ↦ (h.node n).timeout

theorem armed_eq_none_iff : h.armed n = none ↔ n ∉ h.activeNodes := by
  rw [armed, Option.map_eq_none_iff, mem_activeNodes_iff, not_not]

theorem armed_eq_some_iff :
    h.armed n = some tv ↔ n ∈ h.activeNodes ∧ (h.node n).timeout = tv := by
  rw [armed, Option.map_eq_some_iff, mem_activeNodes_iff, Option.ne_none_iff_exists']
  exact ⟨fun ⟨i, hi, heq⟩ ↦ ⟨⟨i, hi⟩, heq⟩, fun ⟨⟨i, hi⟩, heq⟩ ↦ ⟨i, hi, heq⟩⟩

theorem timerNodeActive_eq : h.timerNodeActive n = (h.armed n).isSome := by
  rw [timerNodeActive, armed, Option.isSome_map]

theorem armed_congr (hact : n ∈ h'.activeNodes ↔ n ∈ h.activeNodes)
    (htime : n ∈ h.activeNodes → (h'.node n).timeout = (h.node n).timeout) :
    h'.armed n = h.armed n := by
  by_cases hn : n ∈ h.activeNodes
  · rw [armed_eq_some_iff.mpr ⟨hact.mpr hn, htime hn⟩, armed_eq_some_iff.mpr ⟨hn, rfl⟩]
  · rw [armed_eq_none_iff.mpr (fun hn' ↦ hn (hact.mp hn')), armed_eq_none_iff.mpr hn]

@[simp] theorem armed_timersInit [Inhabited ν] : (timersInit : TimerMinHeap ν).armed n = none := rfl

/-! ## The root -/

theorem armed_of_size_eq_zero (hi : h.Invariant) (hsize : h.size = 0) : h.armed n = none := by
  rw [armed_eq_none_iff]
  intro hn
  obtain ⟨i, hi', -⟩ := hi.holds.mem n hn
  exact absurd hi' (by omega)

theorem armed_root (hi : h.Invariant) (hsize : h.size ≠ 0) :
    h.armed (h.events 0) = some (h.node (h.events 0)).timeout :=
  armed_eq_some_iff.mpr ⟨(hi.holds.slot 0 (Nat.pos_of_ne_zero hsize)).1, rfl⟩

theorem root_le_armed (hi : h.Invariant) (hm : h.armed m = some tv) :
    (h.node (h.events 0)).timeout.key ≤ tv.key := by
  obtain ⟨hmem, rfl⟩ := armed_eq_some_iff.mp hm
  exact hi.root_le hmem

/-! ## The operations -/

variable [DecidableEq ν]

theorem armed_setTimeout (hn : n ∉ h.activeNodes) (tv : Timeval) :
    (h.setTimeout n tv).armed = h.armed := by
  funext m
  have hact : m ∈ (h.setTimeout n tv).activeNodes ↔ m ∈ h.activeNodes := by
    rw [mem_activeNodes_iff, mem_activeNodes_iff, setTimeout_idx]
  refine armed_congr hact fun hm ↦ ?_
  have hne : m ≠ n := fun heq ↦ hn (heq ▸ hm)
  rw [setTimeout_node_of_ne _ _ _ hne]

theorem armed_timerNodeInit (hi : h.Invariant) (hn : n ∉ h.activeNodes) :
    (h.timerNodeInit n).armed = h.armed := by
  funext m
  refine armed_congr (by rw [(hi.timerNodeInit hn).2]) fun hm ↦ ?_
  have hne : m ≠ n := fun heq ↦ hn (heq ▸ hm)
  rw [timerNodeInit, setNode_node_of_ne _ _ _ hne]

theorem armed_minHeapErase (hi : h.Invariant) (n : ν) :
    (h.minHeapErase n).armed = Function.update h.armed n none := by
  by_cases hn : n ∈ h.activeNodes
  · have he := minHeapErase_erased hi hn
    funext m
    by_cases hm : m = n
    · subst hm
      rw [Function.update_self, armed_eq_none_iff, he.activeNodes]
      exact fun hmem ↦ hmem.2 rfl
    · rw [Function.update_of_ne hm]
      refine armed_congr ?_ fun _ ↦ he.timeout m
      rw [he.activeNodes, Set.mem_sdiff, Set.mem_singleton_iff]
      exact ⟨fun hmem ↦ hmem.1, fun hmem ↦ ⟨hmem, hm⟩⟩
  · rw [minHeapErase_of_inactive hn, ← armed_eq_none_iff.mpr hn, Function.update_eq_self]

theorem Pushed.armed (hp : Pushed h h' n) :
    h'.armed = Function.update h.armed n (some (h.node n).timeout) := by
  funext m
  by_cases hm : m = n
  · subst hm
    rw [Function.update_self, armed_eq_some_iff, hp.activeNodes, hp.timeout]
    exact ⟨Set.mem_insert m _, rfl⟩
  · rw [Function.update_of_ne hm]
    refine armed_congr ?_ fun _ ↦ hp.timeout m
    rw [hp.activeNodes, Set.mem_insert_iff, or_iff_right hm]

/-- Arming a node, by `min_heap_insert` or by the re-insertion of a repeating timer. -/
theorem armed_pushLast (hi : h.Invariant) (hn : n ∉ h.activeNodes) (tv : Timeval) (capacity : ℕ) :
    (pushLast { h.setTimeout n tv with capacity := capacity } n).armed =
      Function.update h.armed n (some tv) := by
  rw [(timerNodeAdd_pushed hi hn tv capacity).armed, armed_setTimeout hn, setTimeout_timeout_self]

/-! ## Moving all expiries -/

/-- What `timers_adjust_backward` has done after `k` turns. -/
structure Adjusting (h : TimerMinHeap ν) (off : Timeval) (k : ℕ) (r : TimerMinHeap ν × ℕ) :
    Prop where
  events : r.1.events = h.events
  size : r.1.size = h.size
  capacity : r.1.capacity = h.capacity
  storesInBounds : r.1.storesInBounds = h.storesInBounds
  idx : ∀ m, (r.1.node m).minHeapIdx = (h.node m).minHeapIdx
  moved : ∀ i < k, (r.1.node (h.events i)).timeout = timeSub (h.node (h.events i)).timeout off
  rest : ∀ m, (∀ i < k, h.events i ≠ m) → (r.1.node m).timeout = (h.node m).timeout
  failures : (∀ i < k, timeSubAsserts (h.node (h.events i)).timeout off = true) → r.2 = 0

theorem adjusting_foldl (hi : h.Invariant) (off : Timeval) {k : ℕ} (hk : k ≤ h.size) :
    Adjusting h off k ((List.range k).foldl (adjustSlot off) (h, 0)) := by
  induction k with
  | zero =>
    exact ⟨rfl, rfl, rfl, rfl, fun _ ↦ rfl, fun i hi' ↦ absurd hi' (Nat.not_lt_zero i),
      fun _ _ ↦ rfl, fun _ ↦ rfl⟩
  | succ k ih =>
    rw [List.range_succ, List.foldl_append, List.foldl_cons, List.foldl_nil]
    generalize (List.range k).foldl (adjustSlot off) (h, 0) = r at ih
    replace ih := ih (by omega)
    -- the slots before this one hold other nodes, so this node has not been moved yet
    have hother : ∀ i < k, h.events i ≠ h.events k := by
      intro i hi' heq
      have := hi.holds.events_inj (by omega) (by omega) heq
      omega
    have hcur : (r.1.node (h.events k)).timeout = (h.node (h.events k)).timeout :=
      ih.rest _ hother
    have hslot : adjustSlot off r k =
        (r.1.setTimeout (h.events k) (timeSub (h.node (h.events k)).timeout off),
          r.2 + if timeSubAsserts (h.node (h.events k)).timeout off then 0 else 1) := by
      simp only [adjustSlot, ih.events, hcur]
    rw [hslot]
    refine ⟨ih.events, ih.size, ih.capacity, ih.storesInBounds, ?_, ?_, ?_, ?_⟩
    · intro m
      rw [setTimeout_idx, ih.idx]
    · intro i hi'
      rcases Nat.lt_succ_iff_lt_or_eq.mp hi' with hlt | rfl
      · rw [setTimeout_node_of_ne _ _ _ (hother i hlt), ih.moved i hlt]
      · rw [setTimeout_timeout_self]
    · intro m hm
      rw [setTimeout_node_of_ne _ _ _ (hm k k.lt_succ_self).symm,
        ih.rest m fun i hi' ↦ hm i (hi'.trans k.lt_succ_self)]
    · intro hall
      rw [ih.failures fun i hi' ↦ hall i (hi'.trans k.lt_succ_self),
        if_pos (hall k k.lt_succ_self)]

theorem timersAdjustBackward_adjusting (hi : h.Invariant) (off : Timeval) :
    Adjusting h off h.size (h.timersAdjustBackward off) :=
  adjusting_foldl hi off le_rfl

theorem armed_timersAdjustBackward (hi : h.Invariant) (off : Timeval) (n : ν) :
    (h.timersAdjustBackward off).1.armed n = (h.armed n).map fun tv ↦ timeSub tv off := by
  have ha := timersAdjustBackward_adjusting hi off
  by_cases hn : n ∈ h.activeNodes
  · obtain ⟨i, hi', rfl⟩ := hi.holds.mem n hn
    rw [armed, ha.idx, ha.moved i hi', armed, Option.map_map]
    rfl
  · rw [armed_eq_none_iff.mpr hn, Option.map_none, armed_eq_none_iff, mem_activeNodes_iff, ha.idx]
    exact hn

theorem timersAdjustBackward_invariant (hi : h.Invariant) (hoff : off.Proper)
    (hproper : ∀ n tv, h.armed n = some tv → tv.Proper) :
    (h.timersAdjustBackward off).1.Invariant := by
  have ha := timersAdjustBackward_adjusting hi off
  have hact : (h.timersAdjustBackward off).1.activeNodes = h.activeNodes := by
    ext m
    rw [mem_activeNodes_iff, mem_activeNodes_iff, ha.idx]
  have hslot : ∀ i < h.size, (h.node (h.events i)).timeout.Proper := fun i hi' ↦
    hproper _ _ (armed_eq_some_iff.mpr ⟨(hi.holds.slot i hi').1, rfl⟩)
  refine ⟨⟨?_, ?_⟩, ?_⟩
  · intro i hi'
    rw [ha.size] at hi'
    rw [hact, ha.events, ha.idx]
    exact hi.holds.slot i hi'
  · rw [hact, ha.size, ha.events]
    exact hi.holds.mem
  · rw [ha.size]
    intro i hpos hi'
    have hp : parent i < h.size := (parent_lt hpos).trans hi'
    have hle := hi.ordered i hpos hi'
    rw [slotKey, slotKey, Timeval.key_le_iff_micros (hslot _ hp) (hslot i hi')] at hle
    rw [slotKey, slotKey, ha.events, ha.moved i hi', ha.moved _ hp,
      Timeval.key_le_iff_micros ((hslot _ hp).timeSub hoff) ((hslot i hi').timeSub hoff),
      micros_timeSub, micros_timeSub]
    omega

/-- No assertion fails when no expiry lies before the amount it is moved by. -/
theorem timersAdjustBackward_failures (hi : h.Invariant) (hoff : off.Proper)
    (hproper : ∀ n tv, h.armed n = some tv → tv.Proper)
    (hle : ∀ n tv, h.armed n = some tv → off.micros ≤ tv.micros) :
    (h.timersAdjustBackward off).2 = 0 := by
  refine (timersAdjustBackward_adjusting hi off).failures fun i hi' ↦ ?_
  have harm : h.armed (h.events i) = some (h.node (h.events i)).timeout :=
    armed_eq_some_iff.mpr ⟨(hi.holds.slot i hi').1, rfl⟩
  exact (timeSubAsserts_iff (hproper _ _ harm) hoff).mpr (hle _ _ harm)

end TimerMinHeap

end Nanoev
