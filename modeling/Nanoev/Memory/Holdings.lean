import Mathlib.Algebra.BigOperators.Group.Finset.Basic
import Mathlib.Algebra.BigOperators.Group.List.Basic
import Mathlib.Algebra.Order.BigOperators.Group.Finset

/-!
# Resources held by objects in memory

A memory `mem : ℕ → Option β` of objects, each of which holds a list of resources. `total` counts
how often a resource is held by the objects below an address `N`, and the rules say how the count
changes when an object is replaced (`total_update`) and when objects are removed (`total_remove`).

A system conserves its resources when what has been acquired is what has been returned together with
what is held. A resource that is acquired once is then in one place: it has been returned once, or
it is held once, by one object (`returned_or_held`).
-/

namespace Memory

open Finset

variable {β ι : Type*} [DecidableEq ι]

def heldAt (held : β → List ι) : Option β → List ι
  | some o => held o
  | none => []

/-- How often `x` is held by the objects below `N`. -/
def total (held : β → List ι) (mem : ℕ → Option β) (N : ℕ) (x : ι) : ℕ :=
  ∑ i ∈ range N, (heldAt held (mem i)).count x

variable {held : β → List ι} {mem mem' : ℕ → Option β} {N N' i j : ℕ} {x : ι}

theorem total_zero (held : β → List ι) (mem : ℕ → Option β) (x : ι) : total held mem 0 x = 0 :=
  sum_range_zero _

theorem forall_update {P : ℕ → β → Prop} {o : Option β} (h : ∀ j b, mem j = some b → P j b)
    (ho : ∀ b, o = some b → P i b) : ∀ j b, Function.update mem i o j = some b → P j b := by
  intro j b hb
  by_cases hj : j = i
  · subst hj
    rw [Function.update_self] at hb
    exact ho b hb
  · rw [Function.update_of_ne hj] at hb
    exact h j b hb

theorem total_update (held : β → List ι) (mem : ℕ → Option β) (x : ι) (hi : i < N)
    (o : Option β) :
    total held (Function.update mem i o) N x + (heldAt held (mem i)).count x =
      total held mem N x + (heldAt held o).count x := by
  have hmem : i ∈ range N := mem_range.mpr hi
  rw [total, total, ← add_sum_erase _ _ hmem, ← add_sum_erase _ _ hmem, Function.update_self]
  have hrest : ∑ j ∈ (range N).erase i, (heldAt held (Function.update mem i o j)).count x =
      ∑ j ∈ (range N).erase i, (heldAt held (mem j)).count x := by
    refine sum_congr rfl fun j hj ↦ ?_
    rw [Function.update_of_ne (ne_of_mem_erase hj)]
  rw [hrest]
  omega

theorem total_grow (hN : N ≤ N') (hnone : ∀ i, N ≤ i → mem i = none) :
    total held mem N' x = total held mem N x := by
  refine (sum_subset (range_subset_range.mpr hN) fun i _ hi ↦ ?_).symm
  rw [hnone i (not_lt.mp fun h ↦ hi (mem_range.mpr h))]
  rfl

theorem total_eq_add {held₁ held₂ : β → List ι}
    (h : ∀ b, (held b).count x = (held₁ b).count x + (held₂ b).count x) :
    total held mem N x = total held₁ mem N x + total held₂ mem N x := by
  rw [total, total, total, ← sum_add_distrib]
  refine sum_congr rfl fun i _ ↦ ?_
  cases mem i with
  | none => rfl
  | some b => exact h b

theorem total_remove (held : β → List ι) (mem : ℕ → Option β) (x : ι) {gone : List ℕ}
    (hnodup : gone.Nodup) (hlt : ∀ i ∈ gone, i < N)
    (hgone : ∀ i ∈ gone, mem' i = none)
    (hkept : ∀ i ∉ gone, heldAt held (mem' i) = heldAt held (mem i)) :
    total held mem' N x + (gone.flatMap fun i ↦ heldAt held (mem i)).count x =
      total held mem N x := by
  -- one object after the other is removed from the memory there was
  induction gone generalizing mem with
  | nil =>
    rw [List.flatMap_nil, List.count_nil, Nat.add_zero]
    refine sum_congr rfl fun i _ ↦ ?_
    rw [hkept i List.not_mem_nil]
  | cons i gone ih =>
    obtain ⟨hi, hnodup⟩ := List.nodup_cons.mp hnodup
    have hrest := ih (Function.update mem i none) hnodup
      (fun j hj ↦ hlt j (List.mem_cons_of_mem i hj))
      (fun j hj ↦ hgone j (List.mem_cons_of_mem i hj)) (fun j hj ↦ ?_)
    · have hflat : (gone.flatMap fun j ↦ heldAt held (Function.update mem i none j)) =
          gone.flatMap fun j ↦ heldAt held (mem j) := by
        refine List.flatMap_congr fun j hj ↦ ?_
        rw [Function.update_of_ne fun h : j = i ↦ hi (h ▸ hj)]
      have hone := total_update held mem x (hlt i List.mem_cons_self) none
      rw [hflat] at hrest
      rw [heldAt, List.count_nil] at hone
      rw [List.flatMap_cons, List.count_append]
      omega
    · by_cases hji : j = i
      · rw [hji, hgone i List.mem_cons_self, Function.update_self]
      · rw [Function.update_of_ne hji]
        exact hkept j fun h ↦ (List.mem_cons.mp h).elim hji hj

theorem count_le_total (held : β → List ι) (mem : ℕ → Option β) (x : ι) (hi : i < N) :
    (heldAt held (mem i)).count x ≤ total held mem N x :=
  single_le_sum (f := fun i ↦ (heldAt held (mem i)).count x) (fun _ _ ↦ Nat.zero_le _)
    (mem_range.mpr hi)

theorem exists_of_total_pos (h : 0 < total held mem N x) : ∃ i < N, x ∈ heldAt held (mem i) := by
  obtain ⟨i, hi, hne⟩ := exists_ne_zero_of_sum_ne_zero h.ne'
  exact ⟨i, mem_range.mp hi, List.count_pos_iff.mp (Nat.pos_of_ne_zero hne)⟩

theorem eq_of_total_le_one (h : total held mem N x ≤ 1) (hi : i < N) (hj : j < N)
    (hxi : x ∈ heldAt held (mem i)) (hxj : x ∈ heldAt held (mem j)) : i = j := by
  by_contra hne
  have htwo := total_update held mem x hi none
  have hone := count_le_total held (Function.update mem i none) x hj
  rw [Function.update_of_ne (Ne.symm hne)] at hone
  rw [heldAt, List.count_nil] at htwo
  have := List.count_pos_iff.mpr hxi
  have := List.count_pos_iff.mpr hxj
  omega

/-! ## Resources that are numbered as they are acquired -/

/-- The numbers of `l` have been issued once each, and `n` is the next one. -/
structure Issued (l : List ℕ) (n : ℕ) : Prop where
  nodup : l.Nodup
  lt : ∀ x ∈ l, x < n

theorem issued_nil (n : ℕ) : Issued [] n := ⟨List.nodup_nil, nofun⟩

theorem Issued.count_eq_one {l : List ℕ} {n x : ℕ} (h : Issued l n) (hx : x ∈ l) :
    l.count x = 1 := List.count_eq_one_of_mem h.nodup hx

theorem Issued.append {l new : List ℕ} {n k : ℕ} (h : Issued l n)
    (hnew : new.Sublist (List.range' n k)) : Issued (l ++ new) (n + k) where
  nodup := by
    refine List.nodup_append.mpr ⟨h.nodup, hnew.nodup List.nodup_range', fun x hx y hy hxy ↦ ?_⟩
    have hlt := h.lt x hx
    have hle := (List.mem_range'_1.mp (hnew.subset hy)).1
    omega
  lt := by
    intro x hx
    rcases List.mem_append.mp hx with hx | hx
    · exact (h.lt x hx).trans_le (Nat.le_add_right n k)
    · exact (List.mem_range'_1.mp (hnew.subset hx)).2

/-- **A resource that is acquired once is in one place.** -/
theorem returned_or_held {acquired returned : List ι} (hone : acquired.count x = 1)
    (h : acquired.count x = returned.count x + total held mem N x) :
    (returned.count x = 1 ∧ ∀ i < N, x ∉ heldAt held (mem i)) ∨
      (returned.count x = 0 ∧ ∃ i < N, (heldAt held (mem i)).count x = 1 ∧
        ∀ j < N, x ∈ heldAt held (mem j) → j = i) := by
  by_cases htotal : 0 < total held mem N x
  · obtain ⟨i, hi, hx⟩ := exists_of_total_pos htotal
    have hle := count_le_total held mem x hi
    have hpos := List.count_pos_iff.mpr hx
    refine .inr ⟨by omega, i, hi, by omega, fun j hj hxj ↦ ?_⟩
    exact eq_of_total_le_one (by omega) hj hi hxj hx
  · refine .inl ⟨by omega, fun i hi hx ↦ ?_⟩
    have hle := count_le_total held mem x hi
    have hpos := List.count_pos_iff.mpr hx
    omega

end Memory
