import Nanoev.Timer.Armed

/-!
# The expiry of an inactive node

A node that is not in the heap keeps its field `timeout`, and nobody reads it: the sifts compare the
nodes in the slots and the node that is put in, and a node is given a new expiry before it is put
in. So it does not matter what is stored there. `setTimeout` on an inactive node commutes with every
operation on the other nodes, and an operation that puts the node itself into the heap overwrites
it.
-/

namespace Nanoev

namespace TimerMinHeap

variable {ν : Type} [DecidableEq ν] {h : TimerMinHeap ν} {x n : ν} {tv tv' : Timeval} {hole : ℕ}

/-! ## Stores -/

theorem setTimeout_comm (hn : n ≠ x) :
    (h.setTimeout x tv).setTimeout n tv' = (h.setTimeout n tv').setTimeout x tv := by
  unfold setTimeout
  dsimp only
  rw [Function.update_of_ne hn, Function.update_of_ne hn.symm, Function.update_comm hn]

theorem setTimeout_setTimeout :
    (h.setTimeout x tv).setTimeout x tv' = h.setTimeout x tv' := by
  unfold setTimeout
  dsimp only
  rw [Function.update_self, Function.update_idem]

theorem store_setTimeout (i : ℕ) (n : ν) :
    (h.setTimeout x tv).store i n = (h.store i n).setTimeout x tv := by
  unfold store setTimeout
  dsimp only
  by_cases hn : n = x
  · subst hn
    rw [Function.update_self, Function.update_self, Function.update_idem, Function.update_idem]
  · rw [Function.update_of_ne hn, Function.update_of_ne (Ne.symm hn),
      Function.update_comm (Ne.symm hn)]

theorem clearIdx_setTimeout (n : ν) :
    (h.setTimeout x tv).clearIdx n = (h.clearIdx n).setTimeout x tv := by
  unfold clearIdx setTimeout
  dsimp only
  by_cases hn : n = x
  · subst hn
    rw [Function.update_self, Function.update_self, Function.update_idem, Function.update_idem]
  · rw [Function.update_of_ne hn, Function.update_of_ne (Ne.symm hn),
      Function.update_comm (Ne.symm hn)]

theorem timerNodeInit_setTimeout (hn : n ≠ x) :
    (h.setTimeout x tv).timerNodeInit n = (h.timerNodeInit n).setTimeout x tv := by
  unfold timerNodeInit setNode setTimeout
  dsimp only
  rw [Function.update_of_ne (Ne.symm hn), Function.update_comm hn]

theorem timerNodeInit_setTimeout_self :
    (h.setTimeout x tv).timerNodeInit x = h.timerNodeInit x := by
  unfold timerNodeInit setNode setTimeout
  dsimp only
  rw [Function.update_idem]

theorem timeGreater_setTimeout {m : ν} (hm : m ≠ x) (hn : n ≠ x) :
    (h.setTimeout x tv).timeGreater m n = h.timeGreater m n := by
  rw [timeGreater, timeGreater, setTimeout_node_of_ne _ _ _ hm, setTimeout_node_of_ne _ _ _ hn]

/-! ## Sifts -/

theorem shiftUpLoop_setTimeout (hn : n ≠ x) (turns : ℕ) : ∀ {h : TimerMinHeap ν} {hole : ℕ},
    (∀ i < hole, h.events i ≠ x) →
      shiftUpLoop turns (h.setTimeout x tv) hole n =
        (shiftUpLoop turns h hole n).setTimeout x tv := by
  induction turns with
  | zero => exact fun _ ↦ store_setTimeout _ _
  | succ turns ih =>
    intro h hole hslots
    by_cases hzero : hole = 0
    · rw [shiftUpLoop, shiftUpLoop, if_pos hzero, if_pos hzero]
      exact store_setTimeout _ _
    · have hparent : (hole - 1) / 2 < hole := by omega
      have hgreater : (h.setTimeout x tv).timeGreater (h.events ((hole - 1) / 2)) n =
          h.timeGreater (h.events ((hole - 1) / 2)) n :=
        timeGreater_setTimeout (hslots _ hparent) hn
      rw [shiftUpLoop, shiftUpLoop, if_neg hzero, if_neg hzero, setTimeout_events, hgreater]
      split_ifs
      · rw [store_setTimeout]
        refine ih fun i hi ↦ ?_
        -- the store is above the slots that are still to be read
        rw [store_events_of_ne _ _ _ (by omega)]
        exact hslots i (by omega)
      · exact store_setTimeout _ _

theorem minChild_setTimeout (hslots : ∀ i < h.size, h.events i ≠ x)
    (hle : 2 * hole + 2 ≤ h.size) : (h.setTimeout x tv).minChild hole = h.minChild hole := by
  unfold minChild
  dsimp only
  rw [setTimeout_size, setTimeout_events]
  split_ifs with hlast hgreater hgreater' hgreater'
  · rfl
  · rfl
  · rw [timeGreater_setTimeout (hslots _ (by omega)) (hslots _ (by omega))] at hgreater
    exact absurd hgreater hgreater'
  · rw [timeGreater_setTimeout (hslots _ (by omega)) (hslots _ (by omega))] at hgreater
    exact absurd hgreater' hgreater
  · rfl

omit [DecidableEq ν] in
theorem minChild_lt (hle : 2 * hole + 2 ≤ h.size) : h.minChild hole < h.size := by
  unfold minChild
  dsimp only
  split_ifs <;> omega

theorem shiftDownLoop_setTimeout (hn : n ≠ x) (turns : ℕ) : ∀ {h : TimerMinHeap ν} {hole : ℕ},
    (∀ i < h.size, h.events i ≠ x) →
      shiftDownLoop turns (h.setTimeout x tv) hole n =
        (shiftDownLoop turns h hole n).setTimeout x tv := by
  induction turns with
  | zero => exact fun _ ↦ store_setTimeout _ _
  | succ turns ih =>
    intro h hole hslots
    rw [shiftDownLoop, shiftDownLoop, setTimeout_size]
    by_cases hle : 2 * hole + 2 ≤ h.size
    · have hchild : h.events (h.minChild hole) ≠ x := hslots _ (minChild_lt hle)
      rw [if_pos hle, if_pos hle, minChild_setTimeout hslots hle, setTimeout_events,
        timeGreater_setTimeout hn hchild]
      split_ifs
      · rw [store_setTimeout]
        refine ih fun i hi ↦ ?_
        by_cases hi' : i = hole
        · rw [hi', store_events_self]
          exact hchild
        · rw [store_events_of_ne _ _ _ hi']
          exact hslots i hi
      · exact store_setTimeout _ _
    · rw [if_neg hle, if_neg hle]
      exact store_setTimeout _ _

/-! ## Operations -/

omit [DecidableEq ν] in
theorem Invariant.slot_ne (hi : h.Invariant) (hx : x ∉ h.activeNodes) (i : ℕ) (hlt : i < h.size) :
    h.events i ≠ x := by
  intro heq
  exact hx (heq ▸ (hi.holds.slot i hlt).1)

theorem pushLast_setTimeout (hslots : ∀ i < h.size, h.events i ≠ x) (hn : n ≠ x) :
    (h.setTimeout x tv).pushLast n = (h.pushLast n).setTimeout x tv := by
  unfold pushLast minHeapShiftUp
  rw [setTimeout_size, shiftUpLoop_setTimeout hn _ hslots]
  rfl

theorem timerNodeAdd_setTimeout (hi : h.Invariant) (hx : x ∉ h.activeNodes) (hn : n ≠ x)
    (alloc : Bool) :
    (h.setTimeout x tv).timerNodeAdd n tv' alloc =
      ((h.timerNodeAdd n tv' alloc).1.setTimeout x tv, (h.timerNodeAdd n tv' alloc).2) := by
  have hactive : (h.setTimeout x tv).timerNodeActive n = h.timerNodeActive n := by
    rw [timerNodeActive, timerNodeActive, setTimeout_idx]
  unfold timerNodeAdd
  rw [hactive, setTimeout_comm hn]
  split_ifs
  · rfl
  · unfold minHeapInsert minHeapReserve
    rw [setTimeout_size, setTimeout_size, setTimeout_capacity, setTimeout_capacity]
    have hpush : ∀ capacity,
        pushLast { (h.setTimeout n tv').setTimeout x tv with capacity := capacity } n =
          (pushLast { h.setTimeout n tv' with capacity := capacity } n).setTimeout x tv :=
      fun capacity ↦ pushLast_setTimeout (h := { h.setTimeout n tv' with capacity := capacity })
        (hi.slot_ne hx) hn
    split_ifs
    · exact congrArg (·, RetCode.success) (hpush _)
    · rfl
    · exact congrArg (·, RetCode.success) (hpush h.capacity)

theorem timerNodeAdd_setTimeout_self (hx : x ∉ h.activeNodes) (alloc : Bool) :
    (h.setTimeout x tv).timerNodeAdd x tv' alloc = h.timerNodeAdd x tv' alloc := by
  have hactive : h.timerNodeActive x = false := by rwa [mem_activeNodes, Bool.not_eq_true] at hx
  have hactive' : (h.setTimeout x tv).timerNodeActive x = false := by
    rw [← hactive, timerNodeActive, timerNodeActive, setTimeout_idx]
  rw [timerNodeAdd, timerNodeAdd, hactive, hactive', setTimeout_setTimeout,
    if_neg Bool.false_ne_true, if_neg Bool.false_ne_true]

theorem minHeapErase_setTimeout (hi : h.Invariant) (hx : x ∉ h.activeNodes) (n : ν) :
    (h.setTimeout x tv).minHeapErase n = (h.minHeapErase n).setTimeout x tv := by
  unfold minHeapErase
  rw [setTimeout_idx]
  cases hidx : (h.node n).minHeapIdx with
  | none => rfl
  | some p =>
    have hp := (hi.slot_of_idx hidx).1
    have hslots : ∀ i < h.size, h.decSize.events i ≠ x := hi.slot_ne hx
    have hlast : h.events (h.size - 1) ≠ x := hi.slot_ne hx _ (by omega)
    have hparent : h.events ((p - 1) / 2) ≠ x := hi.slot_ne hx _ (by omega)
    have hdec : (h.setTimeout x tv).decSize = h.decSize.setTimeout x tv := rfl
    dsimp only
    rw [hdec, setTimeout_events, setTimeout_size, decSize_events, decSize_size,
      timeGreater_setTimeout hparent hlast]
    split_ifs
    · unfold minHeapShiftUp
      rw [shiftUpLoop_setTimeout hlast _ fun i hlt ↦ hslots i (by omega), clearIdx_setTimeout]
    · have hfewer : ∀ i < h.decSize.size, h.decSize.events i ≠ x :=
        fun i hlt ↦ hslots i (hlt.trans_le (Nat.sub_le _ _))
      unfold minHeapShiftDown
      rw [setTimeout_size, shiftDownLoop_setTimeout hlast _ hfewer, clearIdx_setTimeout]

theorem timersAdjustBackward_setTimeout (hi : h.Invariant) (hx : x ∉ h.activeNodes)
    (off : Timeval) :
    (h.setTimeout x tv).timersAdjustBackward off =
      ((h.timersAdjustBackward off).1.setTimeout x tv, (h.timersAdjustBackward off).2) := by
  have hfold : ∀ (l : List ℕ) (acc : TimerMinHeap ν × ℕ), (∀ i ∈ l, acc.1.events i ≠ x) →
      l.foldl (adjustSlot off) (acc.1.setTimeout x tv, acc.2) =
        ((l.foldl (adjustSlot off) acc).1.setTimeout x tv, (l.foldl (adjustSlot off) acc).2) := by
    intro l
    induction l with
    | nil => exact fun _ _ ↦ rfl
    | cons i l ih =>
      intro acc hslots
      have hslot : acc.1.events i ≠ x := hslots i List.mem_cons_self
      have hturn : adjustSlot off (acc.1.setTimeout x tv, acc.2) i =
          ((adjustSlot off acc i).1.setTimeout x tv, (adjustSlot off acc i).2) := by
        unfold adjustSlot
        dsimp only
        rw [setTimeout_events, setTimeout_node_of_ne _ _ _ hslot, setTimeout_comm hslot]
      rw [List.foldl_cons, List.foldl_cons, hturn]
      exact ih _ fun j hj ↦ hslots j (List.mem_cons_of_mem _ hj)
  exact hfold _ (h, 0) fun i hlt ↦ hi.slot_ne hx i (List.mem_range.mp hlt)

theorem root_setTimeout (hi : h.Invariant) (hx : x ∉ h.activeNodes) (hsize : h.size ≠ 0) :
    (h.setTimeout x tv).node (h.events 0) = h.node (h.events 0) :=
  setTimeout_node_of_ne _ _ _ (hi.slot_ne hx 0 (Nat.pos_of_ne_zero hsize))

theorem timersTimeout_setTimeout (hi : h.Invariant) (hx : x ∉ h.activeNodes)
    (now timeout : Timeval) :
    (h.setTimeout x tv).timersTimeout now timeout = h.timersTimeout now timeout ∧
      (h.setTimeout x tv).timersTimeoutAsserts now = h.timersTimeoutAsserts now := by
  unfold timersTimeout timersTimeoutAsserts
  dsimp only
  rw [setTimeout_size, setTimeout_events]
  by_cases hsize : h.size = 0
  · simp [hsize]
  · rw [root_setTimeout hi hx hsize]
    exact ⟨rfl, rfl⟩

end TimerMinHeap

end Nanoev
