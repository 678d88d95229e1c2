import Nanoev.Timer.LoopInvariant

/-!
# The capacity of the timer heap

A node enters the heap through `min_heap_insert`, which reserves room for it, or through the
re-insertion of a repeating timer, which does not: the timer was in the heap when it expired, and
the slot it left is expected to be free when its callback returns. The callback may have armed
other timers in between, and at a multiple of 64 there is no slot left over.

`step_within_iff` says that this is the only way out of the array: from a reachable state a step
stays within the capacity exactly when, if it is the return of a callback that puts the timer back,
the array has a free slot.
-/

namespace Nanoev

open Transition

namespace TimerMinHeap

variable {ν : Type} [DecidableEq ν] {h : TimerMinHeap ν} {n : ν} {hole turns : ℕ}

/-- The nodes fit into the array, and so did every store that was made. -/
structure Within (h : TimerMinHeap ν) : Prop where
  size_le : h.size ≤ h.capacity
  stores : h.storesInBounds = true

/-! ## The sifts -/

theorem shiftUpLoop_size : (shiftUpLoop turns h hole n).size = h.size ∧
    (shiftUpLoop turns h hole n).capacity = h.capacity := by
  induction turns generalizing h hole with
  | zero => exact ⟨rfl, rfl⟩
  | succ turns ih =>
    rw [shiftUpLoop]
    split_ifs
    · exact ⟨rfl, rfl⟩
    · exact ih
    · exact ⟨rfl, rfl⟩

theorem shiftDownLoop_size : (shiftDownLoop turns h hole n).size = h.size ∧
    (shiftDownLoop turns h hole n).capacity = h.capacity := by
  induction turns generalizing h hole with
  | zero => exact ⟨rfl, rfl⟩
  | succ turns ih =>
    rw [shiftDownLoop]
    split_ifs
    · exact ih
    · exact ⟨rfl, rfl⟩
    · exact ⟨rfl, rfl⟩

/-- The first store of `min_heap_shift_up` is made at the hole and the others below it. -/
theorem shiftUpLoop_storesInBounds :
    (shiftUpLoop turns h hole n).storesInBounds =
      (h.storesInBounds && decide (hole < h.capacity)) := by
  induction turns generalizing h hole with
  | zero => rfl
  | succ turns ih =>
    rw [shiftUpLoop]
    split_ifs with h0
    · rfl
    · rw [ih]
      change (h.storesInBounds && decide (hole < h.capacity) &&
        decide ((hole - 1) / 2 < h.capacity)) = _
      by_cases hlt : hole < h.capacity
      · have hparent : (hole - 1) / 2 < h.capacity := by omega
        simp [hlt, hparent]
      · simp [hlt]
    · rfl

theorem store_storesInBounds_of_lt (hhole : hole < h.capacity) :
    (h.store hole n).storesInBounds = h.storesInBounds := by
  change (h.storesInBounds && decide (hole < h.capacity)) = h.storesInBounds
  rw [decide_eq_true hhole, Bool.and_true]

/-- The stores of `min_heap_shift_down` are made at the hole and at children in the heap. -/
theorem shiftDownLoop_storesInBounds (hsize : h.size ≤ h.capacity) (hhole : hole < h.capacity) :
    (shiftDownLoop turns h hole n).storesInBounds = h.storesInBounds := by
  induction turns generalizing h hole with
  | zero => exact store_storesInBounds_of_lt hhole
  | succ turns ih =>
    rw [shiftDownLoop]
    split_ifs with hle
    · obtain ⟨-, hlt, -⟩ := minChild_spec hle
      have hchild : h.minChild hole < h.capacity := hlt.trans_le hsize
      rw [ih (h := h.store hole (h.events (h.minChild hole))) hsize hchild,
        store_storesInBounds_of_lt hhole]
    · exact store_storesInBounds_of_lt hhole
    · exact store_storesInBounds_of_lt hhole

/-! ## The operations -/

/-- Without reserving room, a node can be put into the heap exactly when a slot is free. -/
theorem pushLast_within_iff (hw : h.Within) : (h.pushLast n).Within ↔ h.size < h.capacity := by
  have hsize : (h.pushLast n).size = h.size + 1 := congrArg (· + 1) shiftUpLoop_size.1
  have hcap : (h.pushLast n).capacity = h.capacity := shiftUpLoop_size.2
  have hstores : (h.pushLast n).storesInBounds =
      (h.storesInBounds && decide (h.size < h.capacity)) := shiftUpLoop_storesInBounds
  constructor
  · intro hw'
    have := hw'.size_le
    omega
  · intro hlt
    refine ⟨by omega, ?_⟩
    rw [hstores, hw.stores, decide_eq_true hlt]
    rfl

theorem minHeapErase_within (hi : h.Invariant) (hw : h.Within) (n : ν) :
    (h.minHeapErase n).Within := by
  by_cases hn : n ∈ h.activeNodes
  · obtain ⟨p, hp⟩ := Option.ne_none_iff_exists'.mp hn
    obtain ⟨hps, -⟩ := hi.slot_of_idx hp
    have hle := hw.size_le
    have hdec : h.decSize.size ≤ h.decSize.capacity := by
      rw [decSize_size, decSize_capacity]
      omega
    have hhole : p < h.decSize.capacity := by
      rw [decSize_capacity]
      omega
    rw [minHeapErase, hp]
    dsimp only
    split_ifs
    · refine ⟨?_, ?_⟩
      · rw [clearIdx_size, clearIdx_capacity, minHeapShiftUp, shiftUpLoop_size.1,
          shiftUpLoop_size.2]
        exact hdec
      · rw [clearIdx_storesInBounds, minHeapShiftUp, shiftUpLoop_storesInBounds,
          decide_eq_true hhole, decSize_storesInBounds, hw.stores]
        rfl
    · refine ⟨?_, ?_⟩
      · rw [clearIdx_size, clearIdx_capacity, minHeapShiftDown, shiftDownLoop_size.1,
          shiftDownLoop_size.2]
        exact hdec
      · rw [clearIdx_storesInBounds, minHeapShiftDown, shiftDownLoop_storesInBounds hdec hhole,
          decSize_storesInBounds, hw.stores]
  · rwa [minHeapErase_of_inactive hn]

theorem timersAdjustBackward_within (hi : h.Invariant) (hw : h.Within) (off : Timeval) :
    (h.timersAdjustBackward off).1.Within := by
  have ha := timersAdjustBackward_adjusting hi off
  refine ⟨?_, ?_⟩
  · rw [ha.size, ha.capacity]
    exact hw.size_le
  · rw [ha.storesInBounds, hw.stores]

theorem Within.setTimeout (hw : h.Within) (n : ν) (tv : Timeval) : (h.setTimeout n tv).Within :=
  ⟨hw.size_le, hw.stores⟩

theorem Within.pushLast (hw : h.Within) (n : ν) (tv : Timeval) {capacity : ℕ}
    (hcap : h.size + 1 ≤ capacity) :
    (TimerMinHeap.pushLast { h.setTimeout n tv with capacity := capacity } n).Within := by
  have hw' : Within { h.setTimeout n tv with capacity := capacity } :=
    ⟨Nat.le_of_succ_le hcap, hw.stores⟩
  exact (pushLast_within_iff hw').mpr hcap

end TimerMinHeap

namespace TimerLoop

open TimerMinHeap

variable {s s' : TimerLoop}

/-- If the next action is the return of a callback whose timer is put back into the heap, the array
has a free slot. -/
def hasRoom (s : TimerLoop) : Action → Bool
  | .callbackReturn _ =>
    match s.control with
    | .timerCallback t =>
      (s.timer t).all fun τ ↦ !s.reinserts t τ || decide (s.timers.size < s.timers.capacity)
    | _ => true
  | _ => true

/-- **One step.** A step stays within the array exactly when it has room for a re-insertion. -/
theorem step_within_iff (hs : s.Inv) (hw : s.timers.Within) {a : Action}
    (h : step s a = some s') : s'.timers.Within ↔ s.hasRoom a = true := by
  have hE := step_effect hs h
  cases hE with
  | reinserted hc hτ hdel hrep hn hre =>
    -- the only outcome that puts a node into the heap without reserving room
    refine (pushLast_within_iff (hw.setTimeout _ _)).trans ?_
    simp [hasRoom, hc, hτ, hre]
  | returnDeleted hc hτ hdel => exact iff_of_true hw (by simp [hasRoom, hc, hτ, reinserts, hdel])
  | returned hc hτ hdel hre => exact iff_of_true hw (by simp [hasRoom, hc, hτ, hre])
  | tcpReturn hc => exact iff_of_true hw (by simp [hasRoom, hc])
  | timerNew hnone => exact iff_of_true ⟨hw.size_le, hw.stores⟩ rfl
  | addRefused | delInvoking hτ hdel hinv | delRefused | tcpAddRefused hafter | runEnter hc
  | processed hc hnone | poll hc | nextIteration hc | runExit hc => exact iff_of_true hw rfl
  | addFailed hτ hdel hn hafter hcap halloc | tcpAddFailed hn hafter =>
    exact iff_of_true (hw.setTimeout _ _) rfl
  | added hτ hdel hn hafter hcap | tcpAdded hn hafter hcap =>
    exact iff_of_true (hw.pushLast _ _ hcap) rfl
  | deleted hτ hinv | freeInvoking hτ hdel hinv | freed hτ hinv | tcpDel
  | firedTimer hc harmed hexp hmin hτ hdel | firedTcp hc harmed hexp hmin =>
    exact iff_of_true (minHeapErase_within hs.heap hw _) rfl
  | updateTime hc =>
    refine iff_of_true ?_ rfl
    change (s.updateTime _).timers.Within
    unfold updateTime
    dsimp only
    split_ifs
    · exact timersAdjustBackward_within hs.heap hw _
    · exact hw

/-- **The heap stays within its array** in every run in which each re-insertion of a repeating timer
finds a free slot, and the first re-insertion that does not find one leaves the array. -/
theorem within_of_hasRoom (h : Reachable step (fun s a ↦ s.hasRoom a = true) init s) :
    s.timers.Within ∧
      ∀ a s', step s a = some s' → (s'.timers.Within ↔ s.hasRoom a = true) := by
  have hboth : s.Inv ∧ s.timers.Within := by
    refine h.invariant (I := fun s ↦ s.Inv ∧ s.timers.Within) ⟨init_inv, le_rfl, rfl⟩ ?_
    rintro s a s' ⟨hs, hw⟩ hroom hstep
    exact ⟨(step_effect hs hstep).inv hs, (step_within_iff hs hw hstep).mpr hroom⟩
  obtain ⟨hs, hw⟩ := hboth
  exact ⟨hw, fun a s' hstep ↦ step_within_iff hs hw hstep⟩

/-- A repeating timer that expires and is put back into the heap. -/
def repeatOnce : List Action :=
  [.timerNew 0, .timerAdd 0 ⟨1, 0⟩ true 0 (.ofSec 100) true, .runEnter (.ofSec 102),
    .updateTime (.ofSec 102), .processTurn, .callbackReturn (.ofSec 102)]

theorem within_of_hasRoom_repeatOnce :
    ∃ s, exec step (fun s a ↦ s.hasRoom a = true) init repeatOnce = some s ∧ s.timers.size = 1 ∧
      s.timers.Within := by
  have hrun : ((exec step (fun s a ↦ s.hasRoom a = true) init repeatOnce).map
      fun s ↦ s.timers.size) = some 1 := by decide +kernel
  obtain ⟨s, hs, hsize⟩ := Option.map_eq_some_iff.mp hrun
  exact ⟨s, hs, hsize, (within_of_hasRoom (Reachable.of_exec hs)).1⟩

/-- With 64 armed timers, a repeating one expires and its callback arms another timer. -/
def armInFullHeap : List Action :=
  (List.range 65).map .timerNew ++ .timerAdd 0 ⟨1, 0⟩ true 0 (.ofSec 100) true ::
    (List.range 63).map (fun i ↦ .timerAdd (i + 1) ⟨1000, 0⟩ false 0 (.ofSec 100) true) ++
    [.runEnter (.ofSec 102), .updateTime (.ofSec 102), .processTurn,
      .timerAdd 64 ⟨1000, 0⟩ false 0 (.ofSec 102) true, .callbackReturn (.ofSec 102)]

/-- The re-insertion of the timer is a store to `events[64]` in an array of 64 pointers. -/
theorem armInFullHeap_not_within :
    ∃ s, Reachable step anyStep init s ∧ s.timers.size = 65 ∧ s.timers.capacity = 64 ∧
      s.timers.storesInBounds = false := by
  have hrun : ((exec step anyStep init armInFullHeap).map
      fun s ↦ (s.timers.size, s.timers.capacity, s.timers.storesInBounds)) =
        some (65, 64, false) := by decide +kernel
  obtain ⟨s, hs, heq⟩ := Option.map_eq_some_iff.mp hrun
  simp only [Prod.mk.injEq] at heq
  exact ⟨s, Reachable.of_exec hs, heq⟩

end TimerLoop

end Nanoev
