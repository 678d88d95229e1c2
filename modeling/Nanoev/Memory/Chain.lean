import Mathlib.Data.List.Nodup
import Mathlib.Logic.Function.Basic

/-!
# Singly linked lists in memory

A list whose cells are linked by a successor field: `Chain next p l q` says that following `next`
from the pointer `p` visits the cells of `l` in this order and arrives at the pointer `q`. A
complete list ends at the null pointer, `q = none`; a segment of a list may end at any cell.

The rules say how a chain is cut and joined (`chain_append`), that it depends on the links of its
own cells only (`Chain.congr`), and what becomes of it when the last link is redirected
(`Chain.redirect`).
-/

namespace Memory

variable {α : Type*}

/-- Following `next` from `p` visits the cells of `l` and arrives at `q`. -/
def Chain (next : α → Option α) : Option α → List α → Option α → Prop
  | p, [], q => p = q
  | p, i :: l, q => p = some i ∧ Chain next (next i) l q

variable {next next' : α → Option α} {p q r : Option α} {i : α} {l l' : List α}

@[simp] theorem chain_nil : Chain next p [] q ↔ p = q := Iff.rfl

@[simp] theorem chain_cons : Chain next p (i :: l) q ↔ p = some i ∧ Chain next (next i) l q :=
  Iff.rfl

theorem chain_append :
    Chain next p (l ++ l') q ↔ ∃ r, Chain next p l r ∧ Chain next r l' q := by
  induction l generalizing p with
  | nil => simp
  | cons i l ih =>
    rw [List.cons_append, chain_cons, ih]
    simp only [chain_cons, exists_and_left, and_assoc]

theorem Chain.congr (h : ∀ i ∈ l, next' i = next i) (hl : Chain next p l q) :
    Chain next' p l q := by
  induction l generalizing p with
  | nil => exact hl
  | cons i l ih =>
    obtain ⟨rfl, hl⟩ := hl
    refine ⟨rfl, ih (fun j hj ↦ h j (List.mem_cons_of_mem i hj)) ?_⟩
    rw [h i List.mem_cons_self]
    exact hl

theorem Chain.unique (h : Chain next p l none) (h' : Chain next p l' none) : l = l' := by
  induction l generalizing p l' with
  | nil =>
    cases l' with
    | nil => rfl
    | cons j l' => exact absurd (h.symm.trans h'.1) (Option.some_ne_none j).symm
  | cons i l ih =>
    cases l' with
    | nil => exact absurd (h'.symm.trans h.1) (Option.some_ne_none i).symm
    | cons j l' =>
      obtain ⟨rfl, h⟩ := h
      obtain ⟨hj, h'⟩ := h'
      obtain rfl := Option.some.inj hj
      rw [ih h h']

theorem Chain.redirect (hl : Chain next p (l ++ [i]) q) (h : ∀ j ∈ l, next' j = next j)
    (hr : next' i = r) : Chain next' p (l ++ [i]) r := by
  obtain ⟨m, hm, hmi, -⟩ := chain_append.mp hl
  exact chain_append.mpr ⟨m, hm.congr h, hmi, hr⟩

end Memory
