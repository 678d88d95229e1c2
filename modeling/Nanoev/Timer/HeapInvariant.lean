import Nanoev.Timer.MinHeap

/-!
# The representation invariant of the timer heap

A heap represents the set of its active nodes. `Holds h N L` says so for the first `N` slots: they
hold exactly the nodes of `L`, and the back pointer of each names its slot. While a sift is under
way one slot is a hole and one node is pending, which is `HoldsOff`; its `move` and `fill` follow
the two kinds of stores a sift makes, and the order of the keys is the business of `ArrayHeap`.

The operations are then specified once each: `pushLast_pushed` for an insertion and
`minHeapErase_erased` for a removal from any position, which also say which node joins or leaves the
active ones. `HeapOp.applyAll_invariant` puts them together for every sequence of operations on one
heap.
-/

namespace Nanoev

namespace TimerMinHeap

open ArrayHeap

variable {ν : Type} [DecidableEq ν] {h h' : TimerMinHeap ν} {N hole turns : ℕ} {n : ν} {L : Set ν}

def slotKey (h : TimerMinHeap ν) (i : ℕ) : ℤ ×ₗ ℤ := (h.node (h.events i)).timeout.key

def nodeKey (h : TimerMinHeap ν) (n : ν) : ℤ ×ₗ ℤ := (h.node n).timeout.key

@[simp] theorem nodeKey_store (i : ℕ) (m : ν) : (h.store i m).nodeKey n = h.nodeKey n := by
  rw [nodeKey, nodeKey, store_timeout]

@[simp] theorem slotKey_store (i : ℕ) (m : ν) :
    (h.store i m).slotKey = Function.update h.slotKey i (h.nodeKey m) := by
  funext j
  rw [slotKey, store_timeout]
  by_cases hj : j = i
  · subst hj
    rw [store_events_self, Function.update_self, nodeKey]
  · rw [store_events_of_ne _ _ _ hj, Function.update_of_ne hj, slotKey]

omit [DecidableEq ν] in
theorem timeGreater_iff {m₀ m₁ : ν} :
    h.timeGreater m₀ m₁ = true ↔ h.nodeKey m₁ < h.nodeKey m₀ := by
  rw [timeGreater, decide_eq_true_eq, timeCmp_pos_iff, nodeKey, nodeKey]

/-! ## What the slots hold -/

/-- The first `N` slots hold exactly the nodes of `L`, each with its back pointer. -/
structure Holds (h : TimerMinHeap ν) (N : ℕ) (L : Set ν) : Prop where
  slot : ∀ i < N, h.events i ∈ L ∧ (h.node (h.events i)).minHeapIdx = some i
  mem : ∀ m ∈ L, ∃ i < N, h.events i = m

/-- The slots other than the hole hold exactly the nodes of `L`, and the pending node is none of
them. -/
structure HoldsOff (h : TimerMinHeap ν) (N hole : ℕ) (n : ν) (L : Set ν) : Prop where
  hole_lt : hole < N
  slot : ∀ i < N, i ≠ hole → h.events i ∈ L ∧ (h.node (h.events i)).minHeapIdx = some i
  mem : ∀ m ∈ L, ∃ i < N, i ≠ hole ∧ h.events i = m
  fresh : n ∉ L

omit [DecidableEq ν] in
theorem Holds.events_inj (hh : Holds h N L) {i j : ℕ} (hi : i < N) (hj : j < N)
    (heq : h.events i = h.events j) : i = j := by
  have h₁ := (hh.slot i hi).2
  rw [heq, (hh.slot j hj).2] at h₁
  exact (Option.some.inj h₁).symm

theorem HoldsOff.move (hh : HoldsOff h N hole n L) {j : ℕ} (hj : j < N) (hne : j ≠ hole) :
    HoldsOff (h.store hole (h.events j)) N j n L := by
  obtain ⟨hmem, hidx⟩ := hh.slot j hj hne
  refine ⟨hj, ?_, ?_, hh.fresh⟩
  · intro i hi hij
    by_cases hih : i = hole
    · subst hih
      rw [store_events_self, store_idx_self]
      exact ⟨hmem, rfl⟩
    · obtain ⟨hi₁, hi₂⟩ := hh.slot i hi hih
      -- two slots with different back pointers do not share a node
      have hdiff : h.events i ≠ h.events j := by
        intro heq
        rw [heq, hidx] at hi₂
        exact hij (Option.some.inj hi₂).symm
      rw [store_events_of_ne _ _ _ hih, store_node_of_ne _ _ _ hdiff]
      exact ⟨hi₁, hi₂⟩
  · intro m hm
    obtain ⟨i, hi, hih, rfl⟩ := hh.mem m hm
    by_cases hij : i = j
    · subst hij
      exact ⟨hole, hh.hole_lt, hne.symm, store_events_self _ _ _⟩
    · exact ⟨i, hi, hij, store_events_of_ne _ _ _ hih⟩

theorem HoldsOff.fill (hh : HoldsOff h N hole n L) : Holds (h.store hole n) N (insert n L) := by
  refine ⟨?_, ?_⟩
  · intro i hi
    by_cases hih : i = hole
    · subst hih
      rw [store_events_self, store_idx_self]
      exact ⟨Set.mem_insert n L, rfl⟩
    · obtain ⟨hi₁, hi₂⟩ := hh.slot i hi hih
      have hdiff : h.events i ≠ n := fun heq ↦ hh.fresh (heq ▸ hi₁)
      rw [store_events_of_ne _ _ _ hih, store_node_of_ne _ _ _ hdiff]
      exact ⟨Set.mem_insert_of_mem n hi₁, hi₂⟩
  · intro m hm
    rcases Set.mem_insert_iff.mp hm with rfl | hm
    · exact ⟨hole, hh.hole_lt, store_events_self _ _ _⟩
    · obtain ⟨i, hi, hih, rfl⟩ := hh.mem m hm
      exact ⟨i, hi, store_events_of_ne _ _ _ hih⟩

/-! ## The sifts -/

/-- What a sift of the pending node `n` makes of the heap `h`. -/
structure Sifted (h h' : TimerMinHeap ν) (N : ℕ) (n : ν) (L : Set ν) : Prop where
  holds : Holds h' N (insert n L)
  ordered : Ordered h'.slotKey N
  frame : ∀ m, m ∉ insert n L → h'.node m = h.node m
  timeout : ∀ m, (h'.node m).timeout = (h.node m).timeout
  size : h'.size = h.size
  capacity : h'.capacity = h.capacity

theorem HoldsOff.sifted (hh : HoldsOff h N hole n L)
    (hord : Ordered (Function.update h.slotKey hole (h.nodeKey n)) N) :
    Sifted h (h.store hole n) N n L where
  holds := hh.fill
  ordered := by rwa [slotKey_store]
  frame m hm := store_node_of_ne _ _ _ fun heq ↦ hm (heq ▸ Set.mem_insert n L)
  timeout m := store_timeout _ _ _ m
  size := rfl
  capacity := rfl

theorem Sifted.of_move {j : ℕ} (hj : h.events j ∈ L)
    (hs : Sifted (h.store hole (h.events j)) h' N n L) : Sifted h h' N n L where
  holds := hs.holds
  ordered := hs.ordered
  frame m hm := by
    have hne : m ≠ h.events j := fun heq ↦ hm (heq ▸ Set.mem_insert_of_mem n hj)
    rw [hs.frame m hm, store_node_of_ne _ _ _ hne]
  timeout m := by rw [hs.timeout, store_timeout]
  size := hs.size
  capacity := hs.capacity

theorem shiftUpLoop_sifted (hh : HoldsOff h N hole n L)
    (ho : Rising h.slotKey N hole (h.nodeKey n)) (hturns : hole ≤ turns) :
    Sifted h (shiftUpLoop turns h hole n) N n L := by
  induction turns generalizing h hole with
  | zero =>
    obtain rfl : hole = 0 := by omega
    exact hh.sifted (ho.fill fun h0 ↦ absurd h0 (lt_irrefl 0))
  | succ turns ih =>
    rw [shiftUpLoop]
    split_ifs with h0 hgt
    · subst h0
      exact hh.sifted (ho.fill fun h0 ↦ absurd h0 (lt_irrefl 0))
    · have hpos : 0 < hole := Nat.pos_of_ne_zero h0
      have hplt : parent hole < hole := parent_lt hpos
      have hlt : h.nodeKey n < h.slotKey (parent hole) := timeGreater_iff.mp hgt
      have hpN : parent hole < N := hplt.trans hh.hole_lt
      refine Sifted.of_move (hh.slot _ hpN hplt.ne).1 (ih (hh.move hpN hplt.ne) ?_ ?_)
      · rw [slotKey_store, nodeKey_store]
        exact ho.move hpos hh.hole_lt hlt
      · unfold parent at hplt
        omega
    · refine hh.sifted (ho.fill fun _ ↦ ?_)
      rw [timeGreater_iff, not_lt] at hgt
      exact hgt

omit [DecidableEq ν] in
theorem minChild_spec (hle : 2 * hole + 2 ≤ h.size) :
    0 < h.minChild hole ∧ h.minChild hole < h.size ∧ parent (h.minChild hole) = hole ∧
      ∀ d, 0 < d → d < h.size → parent d = hole → h.slotKey (h.minChild hole) ≤ h.slotKey d := by
  have hcases : ∀ d, 0 < d → parent d = hole → d = 2 * hole + 1 ∨ d = 2 * hole + 2 :=
    fun d hd hpd ↦ (parent_eq_iff hd).mp hpd
  unfold minChild
  dsimp only
  split_ifs with hsize hgt
  · refine ⟨by omega, by omega, (parent_eq_iff (by omega)).mpr (by omega), ?_⟩
    intro d hd hdn hpd
    obtain rfl : d = 2 * hole + 2 - 1 := by
      rcases hcases d hd hpd with hd | hd <;> omega
    exact le_rfl
  · refine ⟨by omega, by omega, (parent_eq_iff (by omega)).mpr (by omega), ?_⟩
    intro d hd hdn hpd
    have hlt : h.slotKey (2 * hole + 2 - 1) < h.slotKey (2 * hole + 2) := timeGreater_iff.mp hgt
    rcases hcases d hd hpd with rfl | rfl
    · exact le_rfl
    · exact hlt.le
  · refine ⟨by omega, by omega, (parent_eq_iff (by omega)).mpr (by omega), ?_⟩
    intro d hd hdn hpd
    have hle' : h.slotKey (2 * hole + 2) ≤ h.slotKey (2 * hole + 1) := by
      rw [timeGreater_iff, not_lt] at hgt
      exact hgt
    rcases hcases d hd hpd with rfl | rfl
    · exact hle'
    · exact le_rfl

theorem shiftDownLoop_sifted (hN : h.size = N) (hh : HoldsOff h N hole n L)
    (ho : Sinking h.slotKey N hole (h.nodeKey n)) (hturns : N ≤ hole + turns) :
    Sifted h (shiftDownLoop turns h hole n) N n L := by
  induction turns generalizing h hole with
  | zero => exact absurd hh.hole_lt (by omega)
  | succ turns ih =>
    rw [shiftDownLoop]
    split_ifs with hle hgt
    · obtain ⟨hpos, hlt, hpar, hleast⟩ := minChild_spec hle
      rw [hN] at hlt hleast
      have hhole : hole < h.minChild hole := hpar.symm.trans_lt (parent_lt hpos)
      have hkey : h.slotKey (h.minChild hole) < h.nodeKey n := timeGreater_iff.mp hgt
      refine Sifted.of_move (hh.slot _ hlt hhole.ne').1
        (ih (by simpa using hN) (hh.move hlt hhole.ne') ?_ (by omega))
      rw [slotKey_store, nodeKey_store]
      exact ho.move hpos hlt hpar hleast hkey
    · obtain ⟨hpos, hlt, hpar, hleast⟩ := minChild_spec hle
      rw [hN] at hleast
      refine hh.sifted (ho.fill fun c hc hcn hpc ↦ ?_)
      rw [timeGreater_iff, not_lt] at hgt
      exact hgt.trans (hleast c hc hcn hpc)
    · -- the hole has no child in the heap
      refine hh.sifted (ho.fill fun c hc hcn hpc ↦ ?_)
      exact absurd ((parent_eq_iff hc).mp hpc) (by omega)

theorem shiftDownLoop_of_leaf (hleaf : h.size < 2 * hole + 2) :
    shiftDownLoop turns h hole n = h.store hole n := by
  cases turns with
  | zero => rfl
  | succ turns => rw [shiftDownLoop, if_neg (by omega)]

/-! ## The invariant -/

/-- The nodes that `timer_node_active` reports. -/
def activeNodes (h : TimerMinHeap ν) : Set ν := {n | (h.node n).minHeapIdx ≠ none}

/-- The representation invariant: the slots in use hold the active nodes, in heap order. -/
structure Invariant (h : TimerMinHeap ν) : Prop where
  holds : Holds h h.size h.activeNodes
  ordered : Ordered h.slotKey h.size

omit [DecidableEq ν] in
theorem mem_activeNodes_iff : n ∈ h.activeNodes ↔ (h.node n).minHeapIdx ≠ none := Iff.rfl

omit [DecidableEq ν] in
theorem mem_activeNodes : n ∈ h.activeNodes ↔ h.timerNodeActive n = true := by
  rw [mem_activeNodes_iff, timerNodeActive, Option.isSome_iff_ne_none]

omit [DecidableEq ν] in
theorem timersInit_invariant [Inhabited ν] : (timersInit : TimerMinHeap ν).Invariant := by
  refine ⟨⟨fun i hi ↦ absurd hi (Nat.not_lt_zero i), fun m hm ↦ absurd rfl hm⟩, ?_⟩
  exact fun i _ hi ↦ absurd hi (Nat.not_lt_zero i)

omit [DecidableEq ν] in
theorem Invariant.slot_of_idx (hi : h.Invariant) {p : ℕ} (hp : (h.node n).minHeapIdx = some p) :
    p < h.size ∧ h.events p = n := by
  have hact : n ∈ h.activeNodes := by
    rw [mem_activeNodes_iff, hp]
    exact Option.some_ne_none p
  obtain ⟨i, hi', rfl⟩ := hi.holds.mem n hact
  have hidx := (hi.holds.slot i hi').2
  rw [hp] at hidx
  rw [Option.some.inj hidx]
  exact ⟨hi', rfl⟩

omit [DecidableEq ν] in
/-- The root of a heap that is not empty has a least timeout among the active nodes. -/
theorem Invariant.root_le (hi : h.Invariant) (hn : n ∈ h.activeNodes) :
    h.nodeKey (h.events 0) ≤ h.nodeKey n := by
  obtain ⟨i, hi', rfl⟩ := hi.holds.mem n hn
  exact hi.ordered.root_le i hi'

omit [DecidableEq ν] in
theorem Invariant.setCapacity (hi : h.Invariant) (capacity : ℕ) :
    Invariant { h with capacity := capacity } := ⟨⟨hi.holds.slot, hi.holds.mem⟩, hi.ordered⟩

theorem Invariant.setNode (hi : h.Invariant) (hn : n ∉ h.activeNodes) {d : TimerNode}
    (hd : d.minHeapIdx = none) :
    (h.setNode n d).Invariant ∧ (h.setNode n d).activeNodes = h.activeNodes := by
  have hact : (h.setNode n d).activeNodes = h.activeNodes := by
    ext m
    rw [mem_activeNodes_iff, mem_activeNodes_iff]
    by_cases hm : m = n
    · subst hm
      rw [setNode_node_self, hd, not_not.mp hn]
    · rw [setNode_node_of_ne _ _ _ hm]
  have hne : ∀ i < h.size, h.events i ≠ n :=
    fun i hi' heq ↦ hn (heq ▸ (hi.holds.slot i hi').1)
  refine ⟨⟨⟨?_, ?_⟩, hi.ordered.congr ?_⟩, hact⟩
  · intro i hi'
    rw [hact, setNode_events, setNode_node_of_ne _ _ _ (hne i hi')]
    exact hi.holds.slot i hi'
  · rw [hact]
    exact hi.holds.mem
  · intro i hi'
    rw [slotKey, setNode_events, setNode_node_of_ne _ _ _ (hne i hi'), slotKey]

theorem Invariant.setTimeout (hi : h.Invariant) (hn : n ∉ h.activeNodes) (tv : Timeval) :
    (h.setTimeout n tv).Invariant ∧ (h.setTimeout n tv).activeNodes = h.activeNodes :=
  hi.setNode hn (not_not.mp hn)

theorem Invariant.timerNodeInit (hi : h.Invariant) (hn : n ∉ h.activeNodes) :
    (h.timerNodeInit n).Invariant ∧ (h.timerNodeInit n).activeNodes = h.activeNodes :=
  hi.setNode hn rfl

omit [DecidableEq ν] in
theorem Sifted.activeNodes (hs : Sifted h h' N n L)
    (hout : ∀ m, m ∉ insert n L → (h.node m).minHeapIdx = none) :
    h'.activeNodes = insert n L := by
  ext m
  rw [mem_activeNodes_iff]
  constructor
  · intro hm
    by_contra hnot
    rw [hs.frame m hnot, hout m hnot] at hm
    exact hm rfl
  · intro hm
    obtain ⟨i, hi, rfl⟩ := hs.holds.mem m hm
    rw [(hs.holds.slot i hi).2]
    exact Option.some_ne_none i

/-! ## Insertion -/

theorem pushLast_sifted (hi : h.Invariant) (hn : n ∉ h.activeNodes) :
    Sifted h (h.minHeapShiftUp h.size n) (h.size + 1) n h.activeNodes := by
  refine shiftUpLoop_sifted ⟨by omega, ?_, ?_, hn⟩ (hi.ordered.rising _) le_rfl
  · intro i hi' hne
    exact hi.holds.slot i (by omega)
  · intro m hm
    obtain ⟨i, hi', heq⟩ := hi.holds.mem m hm
    exact ⟨i, by omega, by omega, heq⟩

/-- What putting a node into the heap makes of the heap. -/
structure Pushed (h h' : TimerMinHeap ν) (n : ν) : Prop where
  invariant : h'.Invariant
  activeNodes : h'.activeNodes = insert n h.activeNodes
  size : h'.size = h.size + 1
  timeout : ∀ m, (h'.node m).timeout = (h.node m).timeout

theorem pushLast_pushed (hi : h.Invariant) (hn : n ∉ h.activeNodes) :
    Pushed h (h.pushLast n) n := by
  have hs := pushLast_sifted hi hn
  have hsize : (h.pushLast n).size = h.size + 1 := by
    rw [pushLast, incSize_size, hs.size]
  have hact : (h.pushLast n).activeNodes = insert n h.activeNodes := by
    refine hs.activeNodes fun m hm ↦ ?_
    by_contra hne
    exact hm (Set.mem_insert_of_mem n hne)
  refine ⟨⟨?_, ?_⟩, hact, hsize, hs.timeout⟩
  · rw [hsize, hact]
    exact ⟨hs.holds.slot, hs.holds.mem⟩
  · rw [hsize]
    exact hs.ordered

/-! ## Removal -/

structure Erased (h h' : TimerMinHeap ν) (n : ν) : Prop where
  invariant : h'.Invariant
  activeNodes : h'.activeNodes = h.activeNodes \ {n}
  size : h'.size = h.size - 1
  timeout : ∀ m, (h'.node m).timeout = (h.node m).timeout
  capacity : h'.capacity = h.capacity

/-- The common end of both branches of `min_heap_erase`: the last node has been sifted into the
place of the erased one, whose back pointer is then cleared. -/
theorem Sifted.erased {last : ν}
    (hlast : last ∈ h.activeNodes) (hne : last ≠ n)
    (hs : Sifted h.decSize h' (h.size - 1) last (h.activeNodes \ {n, last})) :
    Erased h (h'.clearIdx n) n := by
  have hL : insert last (h.activeNodes \ {n, last}) = h.activeNodes \ {n} := by
    ext m
    simp only [Set.mem_insert_iff, Set.mem_sdiff, Set.mem_singleton_iff]
    constructor
    · rintro (rfl | ⟨hm, hmn⟩)
      · exact ⟨hlast, hne⟩
      · exact ⟨hm, fun heq ↦ hmn (Or.inl heq)⟩
    · rintro ⟨hm, hmn⟩
      by_cases hml : m = last
      · exact Or.inl hml
      · exact Or.inr ⟨hm, fun heq ↦ heq.elim hmn hml⟩
  obtain ⟨⟨hslot, hmem⟩, hord, hframe, htime, hsize, hcap⟩ := hs
  rw [hL] at hslot hmem hframe
  have hnot : ∀ i < h.size - 1, h'.events i ≠ n :=
    fun i hi' heq ↦ (hslot i hi').1.2 heq
  have hact : (h'.clearIdx n).activeNodes = h.activeNodes \ {n} := by
    ext m
    rw [mem_activeNodes_iff]
    by_cases hmn : m = n
    · subst hmn
      simp
    · rw [clearIdx_node_of_ne _ _ hmn]
      constructor
      · intro hm
        by_contra hno
        rw [hframe m hno, decSize_node] at hm
        exact hno ⟨hm, hmn⟩
      · intro hm
        obtain ⟨i, hi', rfl⟩ := hmem m hm
        rw [(hslot i hi').2]
        exact Option.some_ne_none i
  refine ⟨⟨⟨?_, ?_⟩, ?_⟩, hact, hsize, ?_, hcap⟩
  · intro i hi'
    rw [clearIdx_size, hsize, decSize_size] at hi'
    rw [hact, clearIdx_events, clearIdx_node_of_ne _ _ (hnot i hi')]
    exact hslot i hi'
  · intro m hm
    rw [hact] at hm
    obtain ⟨i, hi', heq⟩ := hmem m hm
    exact ⟨i, by rwa [clearIdx_size, hsize, decSize_size], heq⟩
  · rw [clearIdx_size, hsize, decSize_size]
    refine hord.congr fun i _ ↦ ?_
    rw [slotKey, clearIdx_events, clearIdx_timeout, slotKey]
  · intro m
    rw [clearIdx_timeout, htime, decSize_node]

/-- The erased node is the last one of the array: nothing moves. -/
theorem erased_last (hi : h.Invariant) {p : ℕ} (hp : (h.node n).minHeapIdx = some p)
    (hlast : p = h.size - 1) : Erased h ((h.decSize.store p n).clearIdx n) n := by
  obtain ⟨hps, hev⟩ := hi.slot_of_idx hp
  have hne : ∀ i < h.size - 1, h.events i ≠ n := by
    intro i hi' heq
    have := hi.holds.events_inj (by omega) hps (heq.trans hev.symm)
    omega
  have hnode : ∀ m, m ≠ n → ((h.decSize.store p n).clearIdx n).node m = h.node m := by
    intro m hm
    rw [clearIdx_node_of_ne _ _ hm, store_node_of_ne _ _ _ hm, decSize_node]
  have hact : ((h.decSize.store p n).clearIdx n).activeNodes = h.activeNodes \ {n} := by
    ext m
    rw [mem_activeNodes_iff]
    by_cases hmn : m = n
    · subst hmn
      simp
    · rw [hnode m hmn]
      simp [hmn, mem_activeNodes_iff]
  have hevents : ∀ i < h.size - 1, ((h.decSize.store p n).clearIdx n).events i = h.events i := by
    intro i hi'
    rw [clearIdx_events, store_events_of_ne _ _ _ (by omega), decSize_events]
  refine ⟨⟨⟨?_, ?_⟩, ?_⟩, hact, rfl, ?_, rfl⟩
  · intro i hi'
    change i < h.size - 1 at hi'
    rw [hact, hevents i hi', hnode _ (hne i hi')]
    obtain ⟨h₁, h₂⟩ := hi.holds.slot i (by omega)
    exact ⟨⟨h₁, hne i hi'⟩, h₂⟩
  · intro m hm
    rw [hact] at hm
    obtain ⟨i, hi', rfl⟩ := hi.holds.mem m hm.1
    have hip : i ≠ p := fun heq ↦ hm.2 (by rw [heq, hev]; rfl)
    exact ⟨i, by change i < h.size - 1; omega, hevents i (by omega)⟩
  · change Ordered _ (h.size - 1)
    refine (hi.ordered.mono (Nat.sub_le _ _)).congr fun i hi' ↦ ?_
    rw [slotKey, hevents i hi', hnode _ (hne i hi'), slotKey]
  · intro m
    rw [clearIdx_timeout, store_timeout, decSize_node]

omit [DecidableEq ν] in
theorem holdsOff_erase (hi : h.Invariant) {p : ℕ} (hp : (h.node n).minHeapIdx = some p)
    (hlt : p < h.size - 1) :
    HoldsOff h.decSize (h.size - 1) p (h.events (h.size - 1))
      (h.activeNodes \ {n, h.events (h.size - 1)}) := by
  obtain ⟨hps, hev⟩ := hi.slot_of_idx hp
  have hlast : h.size - 1 < h.size := by omega
  refine ⟨hlt, ?_, ?_, fun hmem ↦ hmem.2 (Or.inr rfl)⟩
  · intro i hi' hip
    obtain ⟨h₁, h₂⟩ := hi.holds.slot i (by omega)
    refine ⟨⟨h₁, ?_⟩, h₂⟩
    rintro (heq | heq)
    · exact hip (hi.holds.events_inj (by omega) hps (heq.trans hev.symm))
    · have := hi.holds.events_inj (by omega) hlast heq
      omega
  · intro m hm
    obtain ⟨i, hi', rfl⟩ := hi.holds.mem m hm.1
    have hil : i ≠ h.size - 1 := fun heq ↦ hm.2 (Or.inr (by rw [heq]; rfl))
    exact ⟨i, by omega, fun heq ↦ hm.2 (Or.inl (by rw [heq, hev])), rfl⟩

theorem minHeapErase_erased (hi : h.Invariant) (hn : n ∈ h.activeNodes) :
    Erased h (h.minHeapErase n) n := by
  obtain ⟨p, hp⟩ := Option.ne_none_iff_exists'.mp hn
  obtain ⟨hps, hev⟩ := hi.slot_of_idx hp
  have hlast : h.size - 1 < h.size := by omega
  have hord : Ordered h.slotKey (h.size - 1 + 1) := by
    rw [Nat.sub_add_cancel (by omega)]
    exact hi.ordered
  rw [minHeapErase, hp]
  dsimp only
  by_cases hpl : p = h.size - 1
  · -- the parent of the last node is not above it, so the hole sinks, and it is a leaf
    have hnot : ¬(p > 0 ∧ h.decSize.timeGreater (h.decSize.events ((p - 1) / 2))
        (h.decSize.events h.decSize.size) = true) := by
      rintro ⟨hpos, hgt⟩
      have hlt : h.slotKey (h.size - 1) < h.slotKey (parent p) := timeGreater_iff.mp hgt
      rw [← hpl] at hlt
      exact absurd hlt (not_lt.mpr (hi.ordered p hpos hps))
    rw [if_neg hnot, minHeapShiftDown, shiftDownLoop_of_leaf (by rw [decSize_size]; omega)]
    have hnode : h.decSize.events h.decSize.size = n := by
      rw [decSize_events, decSize_size, ← hpl, hev]
    rw [hnode]
    exact erased_last hi hp hpl
  · have hplt : p < h.size - 1 := by omega
    have hlastMem : h.events (h.size - 1) ∈ h.activeNodes := (hi.holds.slot _ hlast).1
    have hne : h.events (h.size - 1) ≠ n := by
      intro heq
      have := hi.holds.events_inj hlast hps (heq.trans hev.symm)
      omega
    have hoff := holdsOff_erase hi hp hplt
    split_ifs with hcond
    · obtain ⟨hpos, hgt⟩ := hcond
      refine Sifted.erased hlastMem hne (shiftUpLoop_sifted hoff ?_ le_rfl)
      exact hord.rising_of_lt hplt hpos (timeGreater_iff.mp hgt)
    · refine Sifted.erased hlastMem hne
        (shiftDownLoop_sifted (decSize_size h) hoff ?_ (by rw [decSize_size]; omega))
      refine hord.sinking_of_le hplt fun hpos ↦ ?_
      by_contra hlt
      exact hcond ⟨hpos, timeGreater_iff.mpr (not_le.mp hlt)⟩

theorem minHeapErase_of_inactive (hn : n ∉ h.activeNodes) : h.minHeapErase n = h := by
  have hidx : (h.node n).minHeapIdx = none := not_not.mp hn
  rw [minHeapErase, hidx]

/-! ## Adding a node -/

/-- What `timer_node_add` can do: refuse an active node, fail to reserve room, or put the node into
the heap. -/
theorem timerNodeAdd_cases (h : TimerMinHeap ν) (n : ν) (timeout : Timeval) (alloc : Bool) :
    (n ∈ h.activeNodes ∧ h.timerNodeAdd n timeout alloc = (h, .fail)) ∨
      (n ∉ h.activeNodes ∧ h.capacity < h.size + 1 ∧ alloc = false ∧
        h.timerNodeAdd n timeout alloc = (h.setTimeout n timeout, .outOfMemory)) ∨
      (n ∉ h.activeNodes ∧ ∃ capacity, h.size + 1 ≤ capacity ∧
        h.timerNodeAdd n timeout alloc =
          (pushLast { h.setTimeout n timeout with capacity := capacity } n, .success)) := by
  unfold timerNodeAdd
  split_ifs with hact
  · exact Or.inl ⟨mem_activeNodes.mpr hact, rfl⟩
  · have hn : n ∉ h.activeNodes := fun hmem ↦ hact (mem_activeNodes.mp hmem)
    rw [minHeapInsert]
    rcases minHeapReserve_cases (h.setTimeout n timeout) ((h.setTimeout n timeout).size + 1) alloc
      with ⟨heq, hcap, halloc⟩ | ⟨capacity, hle, heq⟩
    · rw [heq]
      exact Or.inr (Or.inl ⟨hn, hcap, halloc, rfl⟩)
    · rw [heq]
      exact Or.inr (Or.inr ⟨hn, capacity, hle, rfl⟩)

theorem timerNodeAdd_pushed (hi : h.Invariant) (hn : n ∉ h.activeNodes) (timeout : Timeval)
    (capacity : ℕ) :
    Pushed (h.setTimeout n timeout)
      (pushLast { h.setTimeout n timeout with capacity := capacity } n) n := by
  obtain ⟨hinv, hact⟩ := hi.setTimeout hn timeout
  obtain ⟨h₁, h₂, h₃, h₄⟩ := pushLast_pushed (hinv.setCapacity capacity) (hact.symm ▸ hn)
  exact ⟨h₁, h₂, h₃, h₄⟩

/-- When an addition succeeds: the node is inactive, and there is room for it or room can be
reserved. -/
theorem timerNodeAdd_eq_success_iff (h : TimerMinHeap ν) (n : ν) (timeout : Timeval)
    (alloc : Bool) :
    (h.timerNodeAdd n timeout alloc).2 = .success ↔
      n ∉ h.activeNodes ∧ (h.size < h.capacity ∨ alloc = true) := by
  rw [mem_activeNodes, timerNodeAdd]
  split_ifs with hact
  · simp [hact]
  · rw [minHeapInsert, minHeapReserve, setTimeout_capacity, setTimeout_size]
    split_ifs with hlt halloc
    · simp [hact, halloc]
    · simpa [hact, halloc] using Nat.le_of_lt_succ hlt
    · exact iff_of_true rfl ⟨hact, .inl (by omega)⟩

theorem timerNodeAdd_invariant (hi : h.Invariant) (n : ν) (timeout : Timeval) (alloc : Bool) :
    (h.timerNodeAdd n timeout alloc).1.Invariant := by
  rcases timerNodeAdd_cases h n timeout alloc with
    ⟨-, heq⟩ | ⟨hn, -, -, heq⟩ | ⟨hn, capacity, -, heq⟩
  · rwa [heq]
  · rw [heq]
    exact (hi.setTimeout hn timeout).1
  · rw [heq]
    exact (timerNodeAdd_pushed hi hn timeout capacity).invariant

theorem minHeapErase_invariant (hi : h.Invariant) (n : ν) : (h.minHeapErase n).Invariant := by
  by_cases hn : n ∈ h.activeNodes
  · exact (minHeapErase_erased hi hn).invariant
  · rwa [minHeapErase_of_inactive hn]

/-! ## Sequences of operations on one heap -/

/-- The operations on a heap; `alloc` is whether `mem_realloc` succeeds. -/
inductive HeapOp (ν : Type)
  | add (n : ν) (timeout : Timeval) (alloc : Bool)
  | del (n : ν)
  /-- The erasure of the root that `timers_process` makes. -/
  | removeRoot
deriving Repr

/-- The heap after an operation, and what the operation returns. -/
def HeapOp.apply (h : TimerMinHeap ν) : HeapOp ν → TimerMinHeap ν × RetCode
  | .add n timeout alloc => h.timerNodeAdd n timeout alloc
  | .del n => (h.timerNodeDel n, .success)
  | .removeRoot => (if h.size = 0 then h else h.minHeapErase (h.events 0), .success)

def HeapOp.applyAll [Inhabited ν] (ops : List (HeapOp ν)) : TimerMinHeap ν :=
  ops.foldl (fun h op ↦ (op.apply h).1) timersInit

/-- A heap that represents its active nodes, spelled out on the fields of the source. -/
structure WellFormed (h : TimerMinHeap ν) : Prop where
  active_iff : ∀ n, h.timerNodeActive n = true ↔ ∃ i < h.size, h.events i = n
  once : ∀ i < h.size, ∀ j < h.size, h.events i = h.events j → i = j
  idx : ∀ i < h.size, (h.node (h.events i)).minHeapIdx = some i
  idx_of_absent : ∀ n, (∀ i < h.size, h.events i ≠ n) → (h.node n).minHeapIdx = none
  order : ∀ i, 0 < i → i < h.size →
    timeCmp (h.node (h.events ((i - 1) / 2))).timeout (h.node (h.events i)).timeout ≤ 0

omit [DecidableEq ν] in
theorem Invariant.wellFormed (hi : h.Invariant) : h.WellFormed where
  active_iff n := by
    rw [← mem_activeNodes]
    constructor
    · exact hi.holds.mem n
    · rintro ⟨i, hi', rfl⟩
      exact (hi.holds.slot i hi').1
  once i hi' j hj heq := hi.holds.events_inj hi' hj heq
  idx i hi' := (hi.holds.slot i hi').2
  idx_of_absent n habs := by
    by_contra hne
    obtain ⟨i, hi', heq⟩ := hi.holds.mem n hne
    exact habs i hi' heq
  order i hpos hi' := timeCmp_nonpos_iff.mpr (hi.ordered i hpos hi')

theorem HeapOp.apply_invariant (hi : h.Invariant) (op : HeapOp ν) : (op.apply h).1.Invariant := by
  cases op with
  | add n timeout alloc => exact timerNodeAdd_invariant hi n timeout alloc
  | del n => exact minHeapErase_invariant hi n
  | removeRoot =>
    rw [HeapOp.apply]
    split_ifs
    · exact hi
    · exact minHeapErase_invariant hi _

theorem HeapOp.applyAll_invariant [Inhabited ν] (ops : List (HeapOp ν)) :
    (HeapOp.applyAll ops).Invariant := by
  unfold HeapOp.applyAll
  suffices hgen : ∀ h : TimerMinHeap ν, h.Invariant →
      (ops.foldl (fun h op ↦ (HeapOp.apply h op).1) h).Invariant from hgen _ timersInit_invariant
  induction ops with
  | nil => exact fun h hi ↦ hi
  | cons op ops ih => exact fun h hi ↦ ih _ (op.apply_invariant hi)

theorem minHeapErase_timeout (hi : h.Invariant) (n m : ν) :
    ((h.minHeapErase n).node m).timeout = (h.node m).timeout := by
  by_cases hn : n ∈ h.activeNodes
  · exact (minHeapErase_erased hi hn).timeout m
  · rw [minHeapErase_of_inactive hn]

def HeapOp.added : HeapOp ν → Option ν
  | .add n _ _ => some n
  | _ => none

theorem HeapOp.apply_timeout (hi : h.Invariant) (op : HeapOp ν) {m : ν} (hm : op.added ≠ some m) :
    ((op.apply h).1.node m).timeout = (h.node m).timeout := by
  cases op with
  | add n timeout alloc =>
    have hne : m ≠ n := fun heq ↦ hm (by rw [heq]; rfl)
    rw [HeapOp.apply]
    rcases timerNodeAdd_cases h n timeout alloc with
      ⟨-, heq⟩ | ⟨-, -, -, heq⟩ | ⟨hn, capacity, -, heq⟩
    · rw [heq]
    · rw [heq, setTimeout_node_of_ne _ _ _ hne]
    · rw [heq, (timerNodeAdd_pushed hi hn timeout capacity).timeout,
        setTimeout_node_of_ne _ _ _ hne]
  | del n => exact minHeapErase_timeout hi n m
  | removeRoot =>
    rw [HeapOp.apply]
    split_ifs
    · rfl
    · exact minHeapErase_timeout hi _ m

/-- What an operation is to do to the active nodes. An addition succeeds when its node is inactive
and there is room for it, and then the node joins them with the given timeout. A deletion takes
exactly its node out, and the removal of the root exactly the node in the first slot. -/
def HeapOp.Moves (h : TimerMinHeap ν) (r : TimerMinHeap ν × RetCode) : HeapOp ν → Prop
  | .add n timeout alloc =>
    (r.2 = .success ↔ n ∉ h.activeNodes ∧ (h.size < h.capacity ∨ alloc = true)) ∧
      (r.2 = .success →
        r.1.activeNodes = insert n h.activeNodes ∧ (r.1.node n).timeout = timeout)
  | .del n => r.1.activeNodes = h.activeNodes \ {n}
  | .removeRoot => r.1.activeNodes = h.activeNodes \ {n | 0 < h.size ∧ n = h.events 0}

theorem minHeapErase_activeNodes (hi : h.Invariant) (n : ν) :
    (h.minHeapErase n).activeNodes = h.activeNodes \ {n} := by
  by_cases hn : n ∈ h.activeNodes
  · exact (minHeapErase_erased hi hn).activeNodes
  · rw [minHeapErase_of_inactive hn, Set.sdiff_singleton_eq_self hn]

theorem HeapOp.apply_moves (hi : h.Invariant) (op : HeapOp ν) : op.Moves h (op.apply h) := by
  cases op with
  | add n timeout alloc =>
    refine ⟨timerNodeAdd_eq_success_iff h n timeout alloc, fun hok ↦ ?_⟩
    rw [HeapOp.apply] at hok ⊢
    rcases timerNodeAdd_cases h n timeout alloc with
      ⟨-, heq⟩ | ⟨-, -, -, heq⟩ | ⟨hn, capacity, -, heq⟩
    · rw [heq] at hok
      cases hok
    · rw [heq] at hok
      cases hok
    · have hpushed := timerNodeAdd_pushed hi hn timeout capacity
      rw [heq, hpushed.activeNodes, (hi.setTimeout hn timeout).2, hpushed.timeout,
        setTimeout_timeout_self]
      exact ⟨rfl, rfl⟩
  | del n => exact minHeapErase_activeNodes hi n
  | removeRoot =>
    rw [HeapOp.Moves, HeapOp.apply]
    split_ifs with hsize
    · simp [hsize]
    · simp only [minHeapErase_activeNodes hi, Nat.pos_of_ne_zero hsize, true_and,
        Set.ofPred_eq_eq_singleton]

/-- **The heap represents its active nodes.** After every sequence of additions, deletions and root
removals, and for every further operation: the heap is well formed, the nodes that the operation is
about join or leave the active ones and no others do, an operation that returns an error has changed
neither the array nor the membership of any node, and only the node being added may have a new
timeout. -/
theorem heapOp_represents [Inhabited ν] (ops : List (HeapOp ν)) (op : HeapOp ν) :
    let h := HeapOp.applyAll ops
    let h' := (op.apply h).1
    h.WellFormed ∧ h'.WellFormed ∧ op.Moves h (op.apply h) ∧
      ((op.apply h).2 ≠ .success → h'.events = h.events ∧ h'.size = h.size ∧
        h'.capacity = h.capacity ∧ ∀ n, (h'.node n).minHeapIdx = (h.node n).minHeapIdx) ∧
      ∀ n, op.added ≠ some n → (h'.node n).timeout = (h.node n).timeout := by
  intro h h'
  have hi : h.Invariant := HeapOp.applyAll_invariant ops
  refine ⟨hi.wellFormed, (op.apply_invariant hi).wellFormed, op.apply_moves hi, ?_,
    fun n ↦ op.apply_timeout hi⟩
  intro herr
  change (op.apply h).2 ≠ .success at herr
  change (op.apply h).1.events = _ ∧ (op.apply h).1.size = _ ∧ (op.apply h).1.capacity = _ ∧
    ∀ n, ((op.apply h).1.node n).minHeapIdx = _
  cases op with
  | add n timeout alloc =>
    rw [HeapOp.apply] at herr ⊢
    rcases timerNodeAdd_cases h n timeout alloc with
      ⟨-, heq⟩ | ⟨-, -, -, heq⟩ | ⟨-, capacity, -, heq⟩
    · rw [heq]
      exact ⟨rfl, rfl, rfl, fun _ ↦ rfl⟩
    · rw [heq]
      exact ⟨rfl, rfl, rfl, fun m ↦ setTimeout_idx _ _ _ _⟩
    · rw [heq] at herr
      exact absurd rfl herr
  | del n | removeRoot => exact absurd rfl herr

end TimerMinHeap

end Nanoev
