import Mathlib.Order.Lattice
import Mathlib.Order.Defs.LinearOrder
import Mathlib.Logic.Function.Basic

/-!
# Heap order on an array with a hole

A binary heap kept in an array, seen only through its keys `key : ℕ → α`: slot `i > 0` has the
parent `(i - 1) / 2`. Insertion and removal both work with a *hole*, a slot whose content is
pending, and move it along one path of the tree until the pending key `x` fits.

The two directions keep different facts about the pending key. While the hole **rises**, `x` is at
most the keys below the hole (`Rising.below`); while it **sinks**, `x` is at least the key above it
(`Sinking.above`). What they share is `Split`: the order holds away from the hole, and across it,
from the parent of the hole to the children of the hole. Each direction has a `move`, for one turn
of the loop, and a `fill`, for the final store.
-/

namespace ArrayHeap

def parent (i : ℕ) : ℕ := (i - 1) / 2

theorem parent_lt {i : ℕ} (h : 0 < i) : parent i < i := by
  unfold parent
  omega

theorem parent_eq_iff {i p : ℕ} (h : 0 < i) : parent i = p ↔ i = 2 * p + 1 ∨ i = 2 * p + 2 := by
  unfold parent
  omega

variable {α : Type*} [LinearOrder α] {key : ℕ → α} {n m hole : ℕ} {x : α}

/-- The first `n` slots are in heap order. -/
def Ordered (key : ℕ → α) (n : ℕ) : Prop := ∀ i, 0 < i → i < n → key (parent i) ≤ key i

theorem Ordered.mono (h : Ordered key n) (hle : m ≤ n) : Ordered key m :=
  fun i hi hin ↦ h i hi (hin.trans_le hle)

theorem Ordered.congr {key' : ℕ → α} (h : Ordered key n) (heq : ∀ i, i < n → key' i = key i) :
    Ordered key' n := by
  intro i hi hin
  rw [heq i hin, heq _ ((parent_lt hi).trans hin)]
  exact h i hi hin

theorem Ordered.root_le (h : Ordered key n) : ∀ i, i < n → key 0 ≤ key i := by
  intro i
  induction i using Nat.strong_induction_on with
  | _ i ih =>
    intro hin
    rcases Nat.eq_zero_or_pos i with rfl | hi
    · exact le_rfl
    · exact (ih _ (parent_lt hi) ((parent_lt hi).trans hin)).trans (h i hi hin)

structure Split (key : ℕ → α) (n hole : ℕ) : Prop where
  /-- Pairs that do not touch the hole are in order. -/
  off : ∀ i, 0 < i → i < n → i ≠ hole → parent i ≠ hole → key (parent i) ≤ key i
  /-- The children of the hole are not below its parent. -/
  across : 0 < hole → ∀ c, 0 < c → c < n → parent c = hole → key (parent hole) ≤ key c

theorem Ordered.split (h : Ordered key n) (hle : m ≤ n) (hole : ℕ) (hhole : hole < n) :
    Split key m hole where
  off i hi him _ _ := h i hi (him.trans_le hle)
  across hpos c hc hcm hpc := by
    have hup : key hole ≤ key c := hpc ▸ h c hc (hcm.trans_le hle)
    exact (h hole hpos hhole).trans hup

/-! ## The rising hole -/

structure Rising (key : ℕ → α) (n hole : ℕ) (x : α) : Prop extends Split key n hole where
  /-- The pending key is not above the children of the hole. -/
  below : ∀ c, 0 < c → c < n → parent c = hole → x ≤ key c

theorem Ordered.rising (h : Ordered key n) (x : α) : Rising key (n + 1) n x where
  off i hi hin hne _ := h i hi (by omega)
  across _ c hc hcn hpc := absurd hpc (by have := parent_lt hc; omega)
  below c hc hcn hpc := absurd hpc (by have := parent_lt hc; omega)

theorem Rising.move (h : Rising key n hole x) (hpos : 0 < hole) (hn : hole < n)
    (hlt : x < key (parent hole)) :
    Rising (Function.update key hole (key (parent hole))) n (parent hole) x := by
  have hp : parent hole < hole := parent_lt hpos
  -- the other children of the parent are not below it, hence not below the pending key
  have hsib : ∀ c, 0 < c → c < n → c ≠ hole → parent c = parent hole →
      key (parent hole) ≤ key c := by
    intro c hc hcn hne hpc
    rw [← hpc]
    exact h.off c hc hcn hne (by omega)
  refine ⟨⟨?_, ?_⟩, ?_⟩
  · intro i hi hin hne hpar
    have hih : i ≠ hole := fun heq ↦ hpar (by rw [heq])
    rw [Function.update_of_ne hih]
    by_cases hph : parent i = hole
    · rw [hph, Function.update_self]
      exact h.across hpos i hi hin hph
    · rw [Function.update_of_ne hph]
      exact h.off i hi hin hih hph
  · intro hppos c hc hcn hpc
    have hpp : parent (parent hole) < parent hole := parent_lt hppos
    have hgrand : key (parent (parent hole)) ≤ key (parent hole) :=
      h.off _ hppos (hp.trans hn) hp.ne (by omega)
    rw [Function.update_of_ne (by omega)]
    by_cases hch : c = hole
    · rw [hch, Function.update_self]
      exact hgrand
    · rw [Function.update_of_ne hch]
      exact hgrand.trans (hsib c hc hcn hch hpc)
  · intro c hc hcn hpc
    by_cases hch : c = hole
    · rw [hch, Function.update_self]
      exact hlt.le
    · rw [Function.update_of_ne hch]
      exact hlt.le.trans (hsib c hc hcn hch hpc)

theorem Rising.fill (h : Rising key n hole x) (hstop : 0 < hole → key (parent hole) ≤ x) :
    Ordered (Function.update key hole x) n := by
  intro i hi hin
  by_cases hih : i = hole
  · subst hih
    rw [Function.update_self, Function.update_of_ne (parent_lt hi).ne]
    exact hstop hi
  · rw [Function.update_of_ne hih]
    by_cases hph : parent i = hole
    · rw [hph, Function.update_self]
      exact h.below i hi hin hph
    · rw [Function.update_of_ne hph]
      exact h.off i hi hin hih hph

/-! ## The sinking hole -/

structure Sinking (key : ℕ → α) (n hole : ℕ) (x : α) : Prop extends Split key n hole where
  /-- The pending key is not below the parent of the hole. -/
  above : 0 < hole → key (parent hole) ≤ x

/-- One turn of the loop: the least child `c` of the hole takes its place. -/
theorem Sinking.move (h : Sinking key n hole x) {c : ℕ} (hc : 0 < c) (hcn : c < n)
    (hpc : parent c = hole) (hleast : ∀ d, 0 < d → d < n → parent d = hole → key c ≤ key d)
    (hlt : key c < x) :
    Sinking (Function.update key hole (key c)) n c x := by
  have hhc : hole < c := hpc ▸ parent_lt hc
  refine ⟨⟨?_, ?_⟩, ?_⟩
  · intro i hi hin hne hpar
    by_cases hih : i = hole
    · subst hih
      rw [Function.update_self, Function.update_of_ne (parent_lt hi).ne]
      exact h.across hi c hc hcn hpc
    · rw [Function.update_of_ne hih]
      by_cases hph : parent i = hole
      · rw [hph, Function.update_self]
        exact hleast i hi hin hph
      · rw [Function.update_of_ne hph]
        exact h.off i hi hin hih hph
  · intro _ d hd hdn hpd
    have hcd : c < d := hpd ▸ parent_lt hd
    rw [hpc, Function.update_self, Function.update_of_ne (by omega)]
    have hoff := h.off d hd hdn (by omega) (by omega)
    rwa [hpd] at hoff
  · intro _
    rw [hpc, Function.update_self]
    exact hlt.le

theorem Sinking.fill (h : Sinking key n hole x)
    (hstop : ∀ c, 0 < c → c < n → parent c = hole → x ≤ key c) :
    Ordered (Function.update key hole x) n :=
  Rising.fill ⟨h.toSplit, hstop⟩ h.above

/-! ## Taking a slot out

The last key of the array becomes the pending one. It rises when it is smaller than the parent of
the slot, and sinks otherwise. -/

theorem Ordered.rising_of_lt (h : Ordered key (n + 1)) (hhole : hole < n) (hpos : 0 < hole)
    (hlt : key n < key (parent hole)) : Rising key n hole (key n) where
  toSplit := h.split n.le_succ hole (hhole.trans n.lt_succ_self)
  below c hc hcn hpc :=
    hlt.le.trans ((h.split n.le_succ hole (hhole.trans n.lt_succ_self)).across hpos c hc hcn hpc)

theorem Ordered.sinking_of_le (h : Ordered key (n + 1)) (hhole : hole < n)
    (hle : 0 < hole → key (parent hole) ≤ key n) : Sinking key n hole (key n) where
  toSplit := h.split n.le_succ hole (hhole.trans n.lt_succ_self)
  above := hle

end ArrayHeap
