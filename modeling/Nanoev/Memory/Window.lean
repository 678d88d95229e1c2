import Mathlib.Data.List.Range
import Mathlib.Logic.Function.Basic

/-!
# Windows over an array

A queue that is kept in consecutive cells of an array: `window cells start count` is the list of the
cells from `start` on. Elements are appended by writing the cell behind the window and removed by
moving its start; the whole window can be moved to another place.
-/

namespace Memory

variable {α : Type*} {cells cells' : ℕ → α} {start start' count k : ℕ} {a : α}

/-- The contents of `count` cells from `start` on. -/
def window (cells : ℕ → α) (start count : ℕ) : List α := (List.range' start count).map cells

@[simp] theorem window_length : (window cells start count).length = count := by
  rw [window, List.length_map, List.length_range']

theorem window_eq_nil_iff : window cells start count = [] ↔ count = 0 := by
  rw [← List.length_eq_zero_iff, window_length]

theorem window_move (h : ∀ i < count, cells' (start' + i) = cells (start + i)) :
    window cells' start' count = window cells start count := by
  refine List.ext_getElem (by rw [window_length, window_length]) fun i hi hi' ↦ ?_
  rw [window_length] at hi
  simp only [window, List.getElem_map, List.getElem_range', Nat.one_mul]
  exact h i hi

theorem window_push :
    window (Function.update cells (start + count) a) start (count + 1) =
      window cells start count ++ [a] := by
  have hold : window (Function.update cells (start + count) a) start count =
      window cells start count :=
    window_move fun i hi ↦ Function.update_of_ne (by omega) ..
  rw [← hold, window, window, List.range'_concat, List.map_append, List.map_singleton, Nat.one_mul,
    Function.update_self]

theorem window_add (k : ℕ) :
    window cells start (k + count) = window cells start k ++ window cells (start + k) count := by
  rw [window, window, window, ← List.map_append, ← List.range'_append_1]

theorem window_take (h : k ≤ count) :
    window cells start k = (window cells start count).take k := by
  obtain ⟨m, rfl⟩ := Nat.exists_eq_add_of_le h
  rw [window_add, List.take_left' window_length]

theorem window_drop (h : k ≤ count) :
    window cells (start + k) (count - k) = (window cells start count).drop k := by
  obtain ⟨m, rfl⟩ := Nat.exists_eq_add_of_le h
  rw [window_add, List.drop_left' window_length, Nat.add_sub_cancel_left]

end Memory
