import Nanoev.Memory.Chain

/-!
# Intrusive queues

A first-in first-out queue whose cells are linked by a successor field, with pointers to its first
and its last cell. `IsQueue next head tail l` says that the two pointers and the links represent the
list `l`, with the first cell to be removed in front. An intrusive queue cannot hold a cell twice:
that the cell is not linked yet is what the rule for insertion asks for.
-/

namespace Memory

variable {α : Type*}

/-- The pointers `head` and `tail` and the links `next` represent the queue `l`. -/
structure IsQueue (next : α → Option α) (head tail : Option α) (l : List α) : Prop where
  chain : Chain next head l none
  nodup : l.Nodup
  tail_eq : tail = l.getLast?

namespace IsQueue

variable {next next' : α → Option α} {head tail : Option α} {i : α} {l : List α}

theorem nil : IsQueue next none none [] := ⟨rfl, List.nodup_nil, rfl⟩

theorem head_eq (h : IsQueue next head tail l) : head = l.head? := by
  cases l with
  | nil => exact h.chain
  | cons i l => exact h.chain.1

theorem head_eq_none_iff (h : IsQueue next head tail l) : head = none ↔ l = [] := by
  rw [h.head_eq, List.head?_eq_none_iff]

theorem tail_eq_none_iff (h : IsQueue next head tail l) : tail = none ↔ l = [] := by
  rw [h.tail_eq, List.getLast?_eq_none_iff]

theorem congr (h : IsQueue next head tail l) (hn : ∀ i ∈ l, next' i = next i) :
    IsQueue next' head tail l :=
  ⟨h.chain.congr hn, h.nodup, h.tail_eq⟩

/-- Linking a cell behind the last one, or making it the first one if there is none. -/
theorem insert (h : IsQueue next head tail l) (hi : i ∉ l) (hnew : next' i = none)
    (hlast : ∀ j, tail = some j → next' j = some i)
    (hn : ∀ j ∈ l, tail ≠ some j → next' j = next j) :
    IsQueue next' (if tail = none then some i else head) (some i) (l ++ [i]) := by
  have hnodup : (l ++ [i]).Nodup := by
    rw [List.nodup_append]
    refine ⟨h.nodup, List.nodup_singleton i, ?_⟩
    rintro j hj k hk rfl
    exact hi (List.mem_singleton.mp hk ▸ hj)
  refine ⟨?_, hnodup, List.getLast?_concat.symm⟩
  rcases List.eq_nil_or_concat' l with rfl | ⟨m, j, rfl⟩
  · rw [if_pos (h.tail_eq_none_iff.mpr rfl)]
    exact ⟨rfl, hnew⟩
  · -- the link of the last cell is redirected to the new one
    have htail : tail = some j := by rw [h.tail_eq, List.getLast?_concat]
    rw [if_neg (by simp [htail])]
    have hsegment : Chain next' head (m ++ [j]) (some i) := by
      apply h.chain.redirect
      · intro k hk
        refine hn k (List.mem_append_left _ hk) ?_
        rintro hkj
        obtain rfl : j = k := Option.some.inj (htail.symm.trans hkj)
        exact (List.nodup_append.mp h.nodup).2.2 j hk j (List.mem_singleton_self j) rfl
      · exact hlast j htail
    exact chain_append.mpr ⟨some i, hsegment, rfl, hnew⟩

theorem remove (h : IsQueue next (some i) tail l) (hn : ∀ j, j ≠ i → next' j = next j) :
    ∃ m, l = i :: m ∧ IsQueue next' (next i) (if next i = none then none else tail) m := by
  cases l with
  | nil => exact absurd h.chain (Option.some_ne_none i)
  | cons j m =>
    obtain ⟨hij, hm⟩ := h.chain
    obtain rfl := Option.some.inj hij
    obtain ⟨him, hnodup⟩ := List.nodup_cons.mp h.nodup
    have hne : ∀ k ∈ m, next' k = next k := by
      rintro k hk
      apply hn
      rintro rfl
      exact him hk
    refine ⟨m, rfl, hm.congr hne, hnodup, ?_⟩
    cases m with
    | nil => exact if_pos hm
    | cons k m =>
      rw [if_neg (by simp [hm.1]), h.tail_eq]
      rfl

end IsQueue

end Memory
