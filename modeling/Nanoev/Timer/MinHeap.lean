import Mathlib.Data.Set.Insert
import Nanoev.Misc
import Nanoev.Order.ArrayHeap

/-!
# The timer heap

The binary min-heap of `nanoev_timer.c`. `TimerMinHeap` is the array of node pointers together with
the memory the pointers refer to, so that a store `heap->events[i]->min_heap_idx = i` is a store
into that memory. Nodes are identified by an arbitrary type `ν`.

Two fields of the machine are idealized. The array is a function on `ℕ`, so that a store past its
end is a definite operation; `storesInBounds` records whether every store so far was made below
`capacity`. And the indices are natural numbers instead of `unsigned int`: with fewer than `2 ^ 31`
nodes the largest index computed, `2 * hole_index + 2`, does not wrap around. The index
`(unsigned int)-1` of an inactive node is `none`.

The loops of the sifts are recursions on a bound of the number of their turns: the hole of
`min_heap_shift_up` decreases, that of `min_heap_shift_down` increases up to `size`.
-/

namespace Nanoev

/-- `nanoev_timer_node`, less the callback and the user data. -/
structure TimerNode where
  minHeapIdx : Option ℕ
  timeout : Timeval
deriving DecidableEq, Repr

/-- `timer_min_heap`, with the memory of the nodes. -/
structure TimerMinHeap (ν : Type) where
  events : ℕ → ν
  capacity : ℕ
  size : ℕ
  node : ν → TimerNode
  /-- Every store to `events` so far was made at an index below `capacity`. -/
  storesInBounds : Bool

namespace TimerMinHeap

variable {ν : Type}

/-- `timers_init`, on nodes that went through `timer_node_init`. -/
def timersInit [Inhabited ν] : TimerMinHeap ν where
  events _ := default
  capacity := 0
  size := 0
  node _ := ⟨none, ⟨0, 0⟩⟩
  storesInBounds := true

/-- `timer_node_active`. -/
def timerNodeActive (h : TimerMinHeap ν) (n : ν) : Bool := (h.node n).minHeapIdx.isSome

/-- `__time_greater`. -/
def timeGreater (h : TimerMinHeap ν) (n₀ n₁ : ν) : Bool :=
  decide (timeCmp (h.node n₀).timeout (h.node n₁).timeout > 0)

/-- The loop of `min_heap_reserve` that computes `capacity_new`, with `turns` turns left. -/
def growCapacity : (turns capacityNew required : ℕ) → ℕ
  | 0, capacityNew, _ => capacityNew
  | turns + 1, capacityNew, required =>
    if capacityNew < required then growCapacity turns (capacityNew + 64) required else capacityNew

/-- `min_heap_reserve`; `alloc` is whether `mem_realloc` succeeds. -/
def minHeapReserve (h : TimerMinHeap ν) (required : ℕ) (alloc : Bool) :
    TimerMinHeap ν × RetCode :=
  if h.capacity < required then
    if alloc then ({ h with capacity := growCapacity required h.capacity required }, .success)
    else (h, .outOfMemory)
  else (h, .success)

/-- `heap->size++` after a sift. -/
def incSize (h : TimerMinHeap ν) : TimerMinHeap ν := { h with size := h.size + 1 }

/-- `heap->size--`. -/
def decSize (h : TimerMinHeap ν) : TimerMinHeap ν := { h with size := h.size - 1 }

variable [DecidableEq ν]

/-- The pair of stores `heap->events[i] = node; heap->events[i]->min_heap_idx = i`. -/
def store (h : TimerMinHeap ν) (i : ℕ) (n : ν) : TimerMinHeap ν :=
  { h with
    events := Function.update h.events i n
    node := Function.update h.node n { h.node n with minHeapIdx := some i }
    storesInBounds := h.storesInBounds && decide (i < h.capacity) }

/-- The loop of `min_heap_shift_up`. -/
def shiftUpLoop : (turns : ℕ) → TimerMinHeap ν → (holeIndex : ℕ) → ν → TimerMinHeap ν
  | 0, h, holeIndex, n => h.store holeIndex n
  | turns + 1, h, holeIndex, n =>
    let parent := (holeIndex - 1) / 2
    if holeIndex = 0 then h.store holeIndex n
    else if h.timeGreater (h.events parent) n then
      shiftUpLoop turns (h.store holeIndex (h.events parent)) parent n
    else h.store holeIndex n

/-- `min_heap_shift_up`. -/
def minHeapShiftUp (h : TimerMinHeap ν) (holeIndex : ℕ) (n : ν) : TimerMinHeap ν :=
  shiftUpLoop holeIndex h holeIndex n

/-- The child that a turn of `min_heap_shift_down` compares with. -/
def minChild (h : TimerMinHeap ν) (holeIndex : ℕ) : ℕ :=
  let minChild := 2 * holeIndex + 2
  if minChild = h.size then minChild - 1
  else if h.timeGreater (h.events minChild) (h.events (minChild - 1)) then minChild - 1
  else minChild

/-- The loop of `min_heap_shift_down`. -/
def shiftDownLoop : (turns : ℕ) → TimerMinHeap ν → (holeIndex : ℕ) → ν → TimerMinHeap ν
  | 0, h, holeIndex, n => h.store holeIndex n
  | turns + 1, h, holeIndex, n =>
    if 2 * holeIndex + 2 ≤ h.size then
      if h.timeGreater n (h.events (h.minChild holeIndex)) then
        shiftDownLoop turns (h.store holeIndex (h.events (h.minChild holeIndex)))
          (h.minChild holeIndex) n
      else h.store holeIndex n
    else h.store holeIndex n

/-- `min_heap_shift_down`. -/
def minHeapShiftDown (h : TimerMinHeap ν) (holeIndex : ℕ) (n : ν) : TimerMinHeap ν :=
  shiftDownLoop h.size h holeIndex n

/-- `node->min_heap_idx = (unsigned int)-1`. -/
def clearIdx (h : TimerMinHeap ν) (n : ν) : TimerMinHeap ν :=
  { h with node := Function.update h.node n { h.node n with minHeapIdx := none } }

/-- `node->timeout = *timeout`. -/
def setTimeout (h : TimerMinHeap ν) (n : ν) (timeout : Timeval) : TimerMinHeap ν :=
  { h with node := Function.update h.node n { h.node n with timeout := timeout } }

/-- The two statements that put a node into the heap without reserving room for it:
`min_heap_shift_up(heap, heap->size, node); heap->size++`. -/
def pushLast (h : TimerMinHeap ν) (n : ν) : TimerMinHeap ν := (h.minHeapShiftUp h.size n).incSize

/-- `min_heap_insert`. -/
def minHeapInsert (h : TimerMinHeap ν) (n : ν) (alloc : Bool) : TimerMinHeap ν × RetCode :=
  match h.minHeapReserve (h.size + 1) alloc with
  | (h', .success) => (h'.pushLast n, .success)
  | (h', code) => (h', code)

/-- `min_heap_erase`. -/
def minHeapErase (h : TimerMinHeap ν) (n : ν) : TimerMinHeap ν :=
  match (h.node n).minHeapIdx with
  | none => h
  | some idx =>
    let h' := h.decSize
    let last := h'.events h'.size
    let parent := (idx - 1) / 2
    if idx > 0 ∧ h'.timeGreater (h'.events parent) last = true then
      (h'.minHeapShiftUp idx last).clearIdx n
    else (h'.minHeapShiftDown idx last).clearIdx n

/-- `timer_node_add`. -/
def timerNodeAdd (h : TimerMinHeap ν) (n : ν) (timeout : Timeval) (alloc : Bool) :
    TimerMinHeap ν × RetCode :=
  if h.timerNodeActive n then (h, .fail) else (h.setTimeout n timeout).minHeapInsert n alloc

/-- `timer_node_del`. -/
def timerNodeDel (h : TimerMinHeap ν) (n : ν) : TimerMinHeap ν := h.minHeapErase n

/-- One turn of the loop of `timers_adjust_backward`, with the number of failed assertions. -/
def adjustSlot (off : Timeval) (acc : TimerMinHeap ν × ℕ) (i : ℕ) : TimerMinHeap ν × ℕ :=
  let n := acc.1.events i
  let timeout := (acc.1.node n).timeout
  (acc.1.setTimeout n (timeSub timeout off),
    acc.2 + if timeSubAsserts timeout off then 0 else 1)

/-- `timers_adjust_backward`, with the number of failed assertions. -/
def timersAdjustBackward (h : TimerMinHeap ν) (off : Timeval) : TimerMinHeap ν × ℕ :=
  (List.range h.size).foldl (adjustSlot off) (h, 0)

def setNode (h : TimerMinHeap ν) (n : ν) (d : TimerNode) : TimerMinHeap ν :=
  { h with node := Function.update h.node n d }

/-- `timer_node_init`. -/
def timerNodeInit (h : TimerMinHeap ν) (n : ν) : TimerMinHeap ν := h.setNode n ⟨none, ⟨0, 0⟩⟩

omit [DecidableEq ν] in
/-- `timers_timeout`, which leaves the microseconds of `timeout` alone on an empty heap. -/
def timersTimeout (h : TimerMinHeap ν) (now timeout : Timeval) : Timeval :=
  if h.size = 0 then { timeout with sec := -1 }
  else
    let top := h.events 0
    if timeCmp (h.node top).timeout now ≤ 0 then ⟨0, 0⟩ else timeSub (h.node top).timeout now

omit [DecidableEq ν] in
/-- The assertions of the `time_sub` in `timers_timeout` hold, or it is not reached. -/
def timersTimeoutAsserts (h : TimerMinHeap ν) (now : Timeval) : Bool :=
  h.size = 0 || timeCmp (h.node (h.events 0)).timeout now ≤ 0 ||
    timeSubAsserts (h.node (h.events 0)).timeout now

/-! ## The primitive updates

What each of them leaves alone. The timeouts are only changed by `setTimeout`, which is why the
keys of the heap follow the stores to `events`. -/

section Primitives

omit [DecidableEq ν]

variable (h : TimerMinHeap ν)

@[simp] theorem incSize_node : h.incSize.node = h.node := rfl

@[simp] theorem incSize_events : h.incSize.events = h.events := rfl

@[simp] theorem incSize_size : h.incSize.size = h.size + 1 := rfl

@[simp] theorem incSize_capacity : h.incSize.capacity = h.capacity := rfl

@[simp] theorem incSize_storesInBounds : h.incSize.storesInBounds = h.storesInBounds := rfl

@[simp] theorem decSize_node : h.decSize.node = h.node := rfl

@[simp] theorem decSize_events : h.decSize.events = h.events := rfl

@[simp] theorem decSize_size : h.decSize.size = h.size - 1 := rfl

@[simp] theorem decSize_capacity : h.decSize.capacity = h.capacity := rfl

@[simp] theorem decSize_storesInBounds : h.decSize.storesInBounds = h.storesInBounds := rfl

end Primitives

section Stores

variable (h : TimerMinHeap ν) (i : ℕ) (n m : ν)

@[simp] theorem store_size : (h.store i n).size = h.size := rfl

@[simp] theorem store_capacity : (h.store i n).capacity = h.capacity := rfl

@[simp] theorem store_timeout : ((h.store i n).node m).timeout = (h.node m).timeout := by
  by_cases hm : m = n
  · subst hm
    simp [store]
  · simp [store, hm]

@[simp] theorem store_events_self : (h.store i n).events i = n := by simp [store]

theorem store_events_of_ne {j : ℕ} (hj : j ≠ i) : (h.store i n).events j = h.events j := by
  simp [store, hj]

@[simp] theorem store_idx_self : ((h.store i n).node n).minHeapIdx = some i := by simp [store]

theorem store_node_of_ne {m : ν} (hm : m ≠ n) : (h.store i n).node m = h.node m := by
  simp [store, hm]

@[simp] theorem clearIdx_events : (h.clearIdx n).events = h.events := rfl

@[simp] theorem clearIdx_size : (h.clearIdx n).size = h.size := rfl

@[simp] theorem clearIdx_capacity : (h.clearIdx n).capacity = h.capacity := rfl

@[simp] theorem clearIdx_storesInBounds : (h.clearIdx n).storesInBounds = h.storesInBounds := rfl

@[simp] theorem clearIdx_idx_self : ((h.clearIdx n).node n).minHeapIdx = none := by
  simp [clearIdx]

theorem clearIdx_node_of_ne {m : ν} (hm : m ≠ n) : (h.clearIdx n).node m = h.node m := by
  simp [clearIdx, hm]

@[simp] theorem clearIdx_timeout : ((h.clearIdx n).node m).timeout = (h.node m).timeout := by
  by_cases hm : m = n
  · subst hm
    simp [clearIdx]
  · simp [clearIdx, hm]

@[simp] theorem setNode_events (d : TimerNode) : (h.setNode n d).events = h.events := rfl

@[simp] theorem setNode_size (d : TimerNode) : (h.setNode n d).size = h.size := rfl

@[simp] theorem setNode_node_self (d : TimerNode) : (h.setNode n d).node n = d := by simp [setNode]

theorem setNode_node_of_ne {m : ν} (d : TimerNode) (hm : m ≠ n) :
    (h.setNode n d).node m = h.node m := by simp [setNode, hm]

@[simp] theorem setTimeout_events (tv : Timeval) : (h.setTimeout n tv).events = h.events := rfl

@[simp] theorem setTimeout_size (tv : Timeval) : (h.setTimeout n tv).size = h.size := rfl

@[simp] theorem setTimeout_capacity (tv : Timeval) :
    (h.setTimeout n tv).capacity = h.capacity := rfl

@[simp] theorem setTimeout_storesInBounds (tv : Timeval) :
    (h.setTimeout n tv).storesInBounds = h.storesInBounds := rfl

@[simp] theorem setTimeout_timeout_self (tv : Timeval) :
    ((h.setTimeout n tv).node n).timeout = tv := by simp [setTimeout]

theorem setTimeout_node_of_ne {m : ν} (tv : Timeval) (hm : m ≠ n) :
    (h.setTimeout n tv).node m = h.node m := by simp [setTimeout, hm]

@[simp] theorem setTimeout_idx (tv : Timeval) :
    ((h.setTimeout n tv).node m).minHeapIdx = (h.node m).minHeapIdx := by
  by_cases hm : m = n
  · subst hm
    simp [setTimeout]
  · simp [setTimeout, hm]

end Stores

/-! ## Growing the array -/

theorem le_growCapacity {turns capacityNew required : ℕ} (h : required ≤ capacityNew + turns) :
    required ≤ growCapacity turns capacityNew required := by
  induction turns generalizing capacityNew with
  | zero => simpa [growCapacity] using h
  | succ turns ih =>
    rw [growCapacity]
    split_ifs with hlt
    · exact ih (by omega)
    · omega

omit [DecidableEq ν] in
/-- What `min_heap_reserve` can do: nothing, or raise the capacity. -/
theorem minHeapReserve_cases (h : TimerMinHeap ν) (required : ℕ) (alloc : Bool) :
    (h.minHeapReserve required alloc = (h, .outOfMemory) ∧ h.capacity < required ∧
        alloc = false) ∨
      ∃ capacity, required ≤ capacity ∧
        h.minHeapReserve required alloc = ({ h with capacity := capacity }, .success) := by
  unfold minHeapReserve
  split_ifs with hlt halloc
  · exact Or.inr ⟨_, le_growCapacity (by omega), rfl⟩
  · exact Or.inl ⟨rfl, hlt, by simpa using halloc⟩
  · exact Or.inr ⟨h.capacity, by omega, rfl⟩

end TimerMinHeap

end Nanoev
