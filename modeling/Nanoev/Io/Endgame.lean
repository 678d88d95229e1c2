import Mathlib.Data.List.Perm.Subperm
import Nanoev.Memory.Chain
import Nanoev.Io.Loop

/-!
# The pass over the deferred deletions

`__process_endgame_proactor` walks a linked list through a pointer to a pointer, and frees events
while it walks. The free function of an event takes a decision of its own: `async_free` puts the
event on the list again when a notification has been sent and not been delivered.

The pass is related to `sweep`, which works on the list of the events and on nothing else. What it
does to an event is one of three things (`Verdict`): an event with a pending operation is kept; an
event without outstanding work is released; an async event with an undelivered notification is put
on the list again, which drops it when the cursor stands at the head, and moves it to the front
otherwise.
-/

namespace Nanoev

open Memory

namespace Obj

/-- The event with another `next` field. -/
def withNext (o : Obj) (n : Option ℕ) : Obj := o.setProactor { o.proactor with next := n }

@[simp] theorem proactor_setProactor (o : Obj) (p : Proactor) : (o.setProactor p).proactor = p := by
  cases o <;> rfl

@[simp] theorem setProactor_setProactor (o : Obj) (p p' : Proactor) :
    (o.setProactor p).setProactor p' = o.setProactor p' := by
  cases o <;> rfl

@[simp] theorem setProactor_proactor (o : Obj) : o.setProactor o.proactor = o := by
  cases o <;> rfl

@[simp] theorem proactor_withNext (o : Obj) (n : Option ℕ) :
    (o.withNext n).proactor = { o.proactor with next := n } := proactor_setProactor o _

@[simp] theorem withNext_withNext (o : Obj) (n n' : Option ℕ) :
    (o.withNext n).withNext n' = o.withNext n' := by
  rw [withNext, proactor_withNext, withNext, setProactor_setProactor, withNext]

theorem withNext_self (o : Obj) : o.withNext o.proactor.next = o := setProactor_proactor o

inductive Verdict
  | keep
  | release
  | relist
deriving DecidableEq, Repr

/-- The pass looks at the flags first, then the free function takes its own decision. -/
def verdict (o : Obj) : Verdict :=
  if !o.proactor.writing && !o.proactor.reading then
    if o.freeDefers then .relist else .release
  else .keep

@[simp] theorem freeDefers_withNext (o : Obj) (n : Option ℕ) :
    (o.withNext n).freeDefers = o.freeDefers := by
  cases o <;> rfl

@[simp] theorem verdict_withNext (o : Obj) (n : Option ℕ) :
    (o.withNext n).verdict = o.verdict := by
  rw [verdict, freeDefers_withNext, proactor_withNext, verdict]

theorem freeDefers_of_release {o : Obj} (h : o.verdict = .release) : o.freeDefers = false := by
  unfold verdict at h
  split at h
  · split at h
    · cases h
    · next hdefers => exact Bool.eq_false_of_not_eq_true hdefers
  · cases h

@[simp] theorem freeCloses_withNext (o : Obj) (n : Option ℕ) :
    (o.withNext n).freeCloses = o.freeCloses := by
  cases o with
  | tcp t => cases h : t.sock <;> simp [withNext, setProactor, proactor, freeCloses, Tcp.tcpFree,
      Tcp.closeTcpSocket, h]
  | udp u => cases h : u.sock <;> simp [withNext, setProactor, proactor, freeCloses, Udp.udpFree, h]
  | async a => rfl

/-- Only an async event is put on the list again, and freeing leaves it as it is. -/
theorem freed_of_relist {o : Obj} (h : o.verdict = .relist) : o.freed = o := by
  cases o with
  | async a => rfl
  | tcp t => cases hr : t.reading <;> cases hw : t.writing <;>
      simp [verdict, proactor, freeDefers, hr, hw] at h
  | udp u => cases hr : u.reading <;> cases hw : u.writing <;>
      simp [verdict, proactor, freeDefers, hr, hw] at h

end Obj

open Obj (Verdict)

/-! ## The pass on lists -/

/-- The list after the pass, when the cursor stands after the events of the first list and before
those of the second. -/
def sweep (verdict : ℕ → Verdict) : List ℕ → List ℕ → List ℕ
  | pre, [] => pre
  | pre, i :: rest =>
    match verdict i with
    | .keep => sweep verdict (pre ++ [i]) rest
    | .release => sweep verdict pre rest
    | .relist => sweep verdict (if pre = [] then [] else i :: pre) rest

theorem sweep_congr {v v' : ℕ → Verdict} {rest : List ℕ} (h : ∀ i ∈ rest, v' i = v i)
    (pre : List ℕ) : sweep v' pre rest = sweep v pre rest := by
  induction rest generalizing pre with
  | nil => rfl
  | cons i rest ih =>
    have hrest : ∀ j ∈ rest, v' j = v j := fun j hj ↦ h j (List.mem_cons_of_mem i hj)
    rw [sweep, sweep, h i List.mem_cons_self]
    cases v i with
    | keep | release | relist => exact ih hrest _

/-- Without an event that is put on the list again, the pass keeps the events with a pending
operation in their order. -/
theorem sweep_eq_filter {v : ℕ → Verdict} {rest : List ℕ} (h : ∀ i ∈ rest, v i ≠ .relist)
    (pre : List ℕ) : sweep v pre rest = pre ++ rest.filter fun i ↦ v i = .keep := by
  induction rest generalizing pre with
  | nil => simp [sweep]
  | cons i rest ih =>
    have hrest : ∀ j ∈ rest, v j ≠ .relist := fun j hj ↦ h j (List.mem_cons_of_mem i hj)
    rw [sweep]
    cases hv : v i with
    | keep | release => simp [ih hrest, hv]
    | relist => exact absurd hv (h i List.mem_cons_self)

namespace IoLoop

/-! ## The linked list -/

/-- The `next` field of an event. -/
def nextOf (s : IoLoop) (i : ℕ) : Option ℕ := (s.mem i).bind fun o ↦ o.proactor.next

def verdict (s : IoLoop) (i : ℕ) : Verdict := ((s.mem i).map Obj.verdict).getD .keep

def judged (s : IoLoop) (v : Verdict) (l : List ℕ) : List ℕ := l.filter fun i ↦ s.verdict i = v

def freeCloses (s : IoLoop) (i : ℕ) : List ℕ := ((s.mem i).map Obj.freeCloses).getD []

/-- The list of deferred deletions is `l`: every event on it has been deleted by the client and has
its memory, and no event is on it twice. -/
structure Endgame (s : IoLoop) (l : List ℕ) : Prop where
  chain : Chain s.nextOf s.endgameHead l none
  nodup : l.Nodup
  deleted : ∀ i ∈ l, ∃ o, s.mem i = some o ∧ o.proactor.deleted = true

/-- The cursor stands in the list between the events of `pre` and those of `rest`. -/
structure Cut (s : IoLoop) (cur : Cursor) (pre rest : List ℕ) : Prop where
  cur_eq : cur = .head ∧ pre = [] ∨ ∃ k l, cur = .next k ∧ pre = l ++ [k]
  before : Chain s.nextOf s.endgameHead pre (s.load cur)
  after : Chain s.nextOf (s.load cur) rest none
  nodup : (pre ++ rest).Nodup
  deleted : ∀ i ∈ pre ++ rest, ∃ o, s.mem i = some o ∧ o.proactor.deleted = true

variable {s s' s₁ : IoLoop} {cur : Cursor} {pre rest l : List ℕ} {i : ℕ} {o : Obj}

theorem Endgame.cut (h : s.Endgame l) : s.Cut .head [] l where
  cur_eq := .inl ⟨rfl, rfl⟩
  before := rfl
  after := h.chain
  nodup := h.nodup
  deleted := h.deleted

/-- What the pass has done: the events of `gone` are released, those of `relisted` are put on the
list again, and apart from that only links are changed. -/
structure Swept (s : IoLoop) (gone relisted : List ℕ) (s' : IoLoop) : Prop where
  gone_mem : ∀ i ∈ gone, s'.mem i = none
  links : ∀ i ∉ gone, ∃ n, s'.mem i = (s.mem i).map fun o ↦ o.withNext n
  eq : s' =
    { s with
      mem := s'.mem
      endgameHead := s'.endgameHead
      released := s.released ++ gone
      closed := s.closed ++ gone.flatMap s.freeCloses
      assertFailures := s.assertFailures ++ relisted }

theorem links_refl (s : IoLoop) (i : ℕ) : ∃ n, s.mem i = (s.mem i).map fun o ↦ o.withNext n := by
  cases s.mem i with
  | none => exact ⟨none, rfl⟩
  | some o => exact ⟨o.proactor.next, by rw [Option.map_some, Obj.withNext_self]⟩

theorem Swept.refl (s : IoLoop) : s.Swept [] [] s where
  gone_mem := by simp
  links := fun i _ ↦ links_refl s i
  eq := by simp

theorem Swept.verdict_eq {gone relisted : List ℕ} (h : s.Swept gone relisted s') (hi : i ∉ gone) :
    s'.verdict i = s.verdict i := by
  obtain ⟨n, hn⟩ := h.links i hi
  rw [verdict, hn, verdict, Option.map_map]
  congr 2
  funext o
  exact o.verdict_withNext n

theorem Swept.freeCloses_eq {gone relisted : List ℕ} (h : s.Swept gone relisted s')
    (hi : i ∉ gone) : s'.freeCloses i = s.freeCloses i := by
  obtain ⟨n, hn⟩ := h.links i hi
  rw [freeCloses, hn, freeCloses, Option.map_map]
  congr 2
  funext o
  exact o.freeCloses_withNext n

theorem Swept.trans {g g' r r' : List ℕ} (h : s.Swept g r s₁) (h' : s₁.Swept g' r' s')
    (hd : ∀ i ∈ g', i ∉ g) : s.Swept (g ++ g') (r ++ r') s' where
  gone_mem := by
    intro i hi
    by_cases hg : i ∈ g'
    · exact h'.gone_mem i hg
    · have hi : i ∈ g := (List.mem_append.mp hi).resolve_right hg
      obtain ⟨n, hn⟩ := h'.links i hg
      rw [hn, h.gone_mem i hi, Option.map_none]
  links := by
    intro i hi
    rw [List.mem_append, not_or] at hi
    obtain ⟨n, hn⟩ := h.links i hi.1
    obtain ⟨n', hn'⟩ := h'.links i hi.2
    refine ⟨n', ?_⟩
    rw [hn', hn, Option.map_map]
    congr 1
    funext o
    exact o.withNext_withNext n n'
  eq := by
    have hcl : g'.flatMap s₁.freeCloses = g'.flatMap s.freeCloses :=
      List.flatMap_congr fun i hi ↦ h.freeCloses_eq (hd i hi)
    rw [h'.eq, hcl, h.eq]
    simp [List.append_assoc]

/-! ## One round of the pass -/

theorem store_next {k : ℕ} {x : Obj} {p : Option ℕ} (hk : s.mem k = some x) :
    s.store p (.next k) = s.put k (x.withNext p) := by
  simp only [store, hk]
  rfl

theorem nextOf_congr (h : s'.mem i = s.mem i) : s'.nextOf i = s.nextOf i := by
  rw [nextOf, h, nextOf]

namespace Cut

theorem load_eq (h : s.Cut cur pre (i :: rest)) : s.load cur = some i := h.after.1

theorem mem_eq (h : s.Cut cur pre (i :: rest)) :
    ∃ o, s.mem i = some o ∧ o.proactor.deleted = true :=
  h.deleted i (by simp)

theorem after_next (h : s.Cut cur pre (i :: rest)) (ho : s.mem i = some o) :
    Chain s.nextOf o.proactor.next rest none := by
  have := h.after.2
  rwa [nextOf, ho, Option.bind_some] at this

theorem ne_of_mem (h : s.Cut cur pre (i :: rest)) {j : ℕ} (hj : j ∈ pre ++ rest) : j ≠ i := by
  rintro rfl
  have := h.nodup
  rw [List.nodup_middle] at this
  exact (List.nodup_cons.mp this).1 hj

theorem nodup_rest (h : s.Cut cur pre (i :: rest)) : (pre ++ rest).Nodup := by
  have := h.nodup
  rw [List.nodup_middle] at this
  exact (List.nodup_cons.mp this).2

/-- The events around the current one are still deleted when only links have changed. -/
theorem deleted_of_links (h : s.Cut cur pre (i :: rest))
    (hl : ∀ j, j ≠ i → ∃ n, s₁.mem j = (s.mem j).map fun o ↦ o.withNext n) :
    ∀ j ∈ pre ++ rest, ∃ o, s₁.mem j = some o ∧ o.proactor.deleted = true := by
  intro j hj
  obtain ⟨x, hx, hdel⟩ := h.deleted j (by
    rcases List.mem_append.mp hj with hj | hj
    · exact List.mem_append_left _ hj
    · exact List.mem_append_right _ (List.mem_cons_of_mem i hj))
  obtain ⟨n, hn⟩ := hl j (h.ne_of_mem hj)
  exact ⟨x.withNext n, by rw [hn, hx, Option.map_some], by rw [Obj.proactor_withNext]; exact hdel⟩

theorem keep (h : s.Cut cur pre (i :: rest)) : s.Cut (.next i) (pre ++ [i]) rest where
  cur_eq := .inr ⟨i, pre, rfl, rfl⟩
  before := chain_append.mpr ⟨_, h.before, h.load_eq, rfl⟩
  after := h.after.2
  nodup := by simpa using h.nodup
  deleted := by simpa using h.deleted

end Cut

/-! The current event `i` is freed, which leaves the memory of the others alone, and `*cur` is made
to point to the event after it. -/

theorem store_links {x : IoLoop} {p : Option ℕ} (hmem : ∀ j, j ≠ i → x.mem j = s.mem j)
    (cur : Cursor) {j : ℕ} (hj : j ≠ i) :
    ∃ n, (x.store p cur).mem j = (s.mem j).map fun o ↦ o.withNext n := by
  rw [← hmem j hj]
  cases cur with
  | head => exact links_refl x j
  | next k =>
    cases hk : x.mem k with
    | none =>
      simp only [store, hk]
      exact links_refl x j
    | some y =>
      rw [store_next hk, put_mem]
      by_cases hjk : j = k
      · subst hjk
        exact ⟨p, by simp [hk]⟩
      · rw [Function.update_of_ne hjk]
        exact links_refl x j

namespace Cut

theorem store_after {x : IoLoop} (h : s.Cut cur pre (i :: rest)) (ho : s.mem i = some o)
    (hmem : ∀ j, j ≠ i → x.mem j = s.mem j) :
    Chain (x.store o.proactor.next cur).nextOf o.proactor.next rest none := by
  refine (h.after_next ho).congr fun j hj ↦ nextOf_congr ?_
  have hji : j ≠ i := h.ne_of_mem (List.mem_append_right _ hj)
  rcases h.cur_eq with ⟨rfl, -⟩ | ⟨k, l, rfl, rfl⟩
  · exact hmem j hji
  · have hnd := List.disjoint_of_nodup_append h.nodup_rest
    have hjk : j ≠ k := by
      rintro rfl
      exact hnd (by simp) hj
    obtain ⟨y, hy, -⟩ := h.deleted k (by simp)
    rw [store_next ((hmem k (h.ne_of_mem (by simp))).trans hy), put_mem, Function.update_of_ne hjk]
    exact hmem j hji

theorem store_head {x : IoLoop} (h : s.Cut .head pre (i :: rest)) (ho : s.mem i = some o)
    (hmem : ∀ j, j ≠ i → x.mem j = s.mem j) :
    (x.store o.proactor.next .head).Cut .head [] rest where
  cur_eq := .inl ⟨rfl, rfl⟩
  before := rfl
  after := h.store_after ho hmem
  nodup := h.nodup_rest.of_append_right
  deleted := fun j hj ↦ h.deleted_of_links (fun _ ↦ store_links hmem .head) j
    (List.mem_append_right _ hj)

/-- When it stands at the `next` of an event, the events up to this one are joined with the rest. -/
theorem store_before {x : IoLoop} {k : ℕ} (h : s.Cut (.next k) pre (i :: rest))
    (hmem : ∀ j, j ≠ i → x.mem j = s.mem j) (p : Option ℕ) :
    Chain (x.store p (.next k)).nextOf s.endgameHead pre p ∧
      (x.store p (.next k)).load (.next k) = p ∧
      (x.store p (.next k)).endgameHead = x.endgameHead ∧
      (x.store p (.next k)).nextOf i = x.nextOf i := by
  obtain ⟨l, rfl⟩ : ∃ l, pre = l ++ [k] := by
    rcases h.cur_eq with ⟨hc, -⟩ | ⟨k', l, hc, rfl⟩
    · cases hc
    · cases hc
      exact ⟨l, rfl⟩
  obtain ⟨y, hy, -⟩ := h.deleted k (by simp)
  have hki : k ≠ i := h.ne_of_mem (by simp)
  rw [store_next ((hmem k hki).trans hy)]
  have hload : (x.put k (y.withNext p)).nextOf k = p := by simp [nextOf, put]
  refine ⟨h.before.redirect (fun j hj ↦ nextOf_congr ?_) hload, hload, rfl,
    nextOf_congr (Function.update_of_ne hki.symm _ _)⟩
  have hjk : j ≠ k := by
    rintro rfl
    have := h.nodup_rest.of_append_left
    rw [List.nodup_append] at this
    exact this.2.2 j hj j (by simp) rfl
  rw [put_mem, Function.update_of_ne hjk, hmem j (h.ne_of_mem (by simp [hj]))]

theorem release {x : IoLoop} (h : s.Cut cur pre (i :: rest)) (ho : s.mem i = some o)
    (hmem : ∀ j, j ≠ i → x.mem j = s.mem j) (hhead : x.endgameHead = s.endgameHead) :
    (x.store o.proactor.next cur).Cut cur pre rest := by
  rcases h.cur_eq with ⟨rfl, rfl⟩ | ⟨k, l, rfl, rfl⟩
  · exact h.store_head ho hmem
  · obtain ⟨hbefore, hload, hx, -⟩ := h.store_before hmem o.proactor.next
    exact
      { cur_eq := .inr ⟨k, l, rfl, rfl⟩
        before := by rw [hload, hx, hhead]; exact hbefore
        after := by rw [hload]; exact h.store_after ho hmem
        nodup := h.nodup_rest
        deleted := h.deleted_of_links fun _ ↦ store_links hmem _ }

/-- An event that is put on the list again is dropped by a cursor at the head, and moved to the
front by any other. -/
theorem relist {x : IoLoop} (h : s.Cut cur pre (i :: rest)) (ho : s.mem i = some o)
    (hmem : ∀ j, j ≠ i → x.mem j = s.mem j) (hhead : x.endgameHead = some i)
    (hnext : x.nextOf i = s.endgameHead)
    (hdel : ∃ y, (x.store o.proactor.next cur).mem i = some y ∧ y.proactor.deleted = true) :
    (x.store o.proactor.next cur).Cut cur (if pre = [] then [] else i :: pre) rest := by
  rcases h.cur_eq with ⟨rfl, rfl⟩ | ⟨k, l, rfl, rfl⟩
  · rw [if_pos rfl]
    exact h.store_head ho hmem
  · rw [if_neg (by simp)]
    obtain ⟨hbefore, hload, hx, hi⟩ := h.store_before hmem o.proactor.next
    exact
      { cur_eq := .inr ⟨k, i :: l, rfl, rfl⟩
        before := by
          rw [hload, hx, hhead]
          refine ⟨rfl, ?_⟩
          rw [hi, hnext]
          exact hbefore
        after := by rw [hload]; exact h.store_after ho hmem
        nodup := by
          have := h.nodup
          rwa [List.nodup_middle] at this
        deleted := by
          intro j hj
          rcases List.mem_cons.mp hj with rfl | hj
          · exact hdel
          · exact h.deleted_of_links (fun _ ↦ store_links hmem _) j hj }

theorem store_mem_self {x : IoLoop} (h : s.Cut cur pre (i :: rest)) (p : Option ℕ) :
    (x.store p cur).mem i = x.mem i := by
  rcases h.cur_eq with ⟨rfl, rfl⟩ | ⟨k, l, rfl, rfl⟩
  · rfl
  · cases hk : x.mem k with
    | none => simp only [store, hk]
    | some y =>
      have hki : k ≠ i := h.ne_of_mem (by simp)
      rw [store_next hk, put_mem, Function.update_of_ne hki.symm]

end Cut

theorem store_eq (s : IoLoop) (p : Option ℕ) (cur : Cursor) :
    s.store p cur =
      { s with mem := (s.store p cur).mem, endgameHead := (s.store p cur).endgameHead } := by
  cases cur with
  | head => rfl
  | next k =>
    cases hk : s.mem k with
    | none => simp only [store, hk]
    | some y => rw [store_next hk]; rfl

theorem verdict_eq (ho : s.mem i = some o) : s.verdict i = o.verdict := by
  rw [verdict, ho, Option.map_some, Option.getD_some]

theorem judged_congr (h : ∀ i ∈ l, s'.verdict i = s.verdict i) (v : Verdict) :
    s'.judged v l = s.judged v l :=
  List.filter_congr fun i hi ↦ by rw [h i hi]

theorem judged_cons (ho : s.mem i = some o) (v : Verdict) :
    s.judged v (i :: l) = if o.verdict = v then i :: s.judged v l else s.judged v l := by
  rw [judged, List.filter_cons, verdict_eq ho, judged]
  simp only [decide_eq_true_eq]

theorem endgameStep_of_keep (hv : o.verdict = .keep) : s.endgameStep cur i o = (s, .next i) := by
  rw [endgameStep, if_neg]
  intro hflags
  rw [Obj.verdict, if_pos hflags] at hv
  split at hv <;> cases hv

theorem endgameStep_of_ne_keep (hv : o.verdict ≠ .keep) :
    s.endgameStep cur i o = ((s.freeProactor i o).store o.proactor.next cur, cur) := by
  rw [endgameStep, if_pos]
  by_contra hflags
  exact hv (by rw [Obj.verdict, if_neg hflags])

theorem freeProactor_of_release (hv : o.verdict = .release) :
    s.freeProactor i o = IoLoop.release { s with closed := s.closed ++ o.freeCloses } i := by
  rw [freeProactor, if_neg]
  intro hdefers
  rw [Obj.verdict, if_pos hdefers] at hv
  split at hv <;> cases hv

theorem freeProactor_of_relist (hv : o.verdict = .relist) (hdel : o.proactor.deleted = true) :
    s.freeProactor i o =
      { s with
        mem := Function.update s.mem i (some (o.withNext s.endgameHead))
        endgameHead := some i
        assertFailures := s.assertFailures ++ [i] } := by
  have hdefers : o.freeDefers = true := by
    by_contra hdefers
    rw [Obj.verdict, if_neg hdefers] at hv
    split at hv <;> cases hv
  have hcloses : o.freeCloses = [] := by
    cases o with
    | async a => exact if_pos hdefers
    | tcp t => exact absurd hdefers (by cases hr : t.reading <;> cases hw : t.writing <;>
        simp [Obj.verdict, Obj.proactor, Obj.freeDefers, hr, hw] at hv ⊢)
    | udp u => exact absurd hdefers (by cases hr : u.reading <;> cases hw : u.writing <;>
        simp [Obj.verdict, Obj.proactor, Obj.freeDefers, hr, hw] at hv ⊢)
  rw [freeProactor, if_pos hdefers, Obj.freed_of_relist hv, hcloses, addEndgameProactor,
    if_pos hdel, Obj.withNext, List.append_nil, ← hdel]

theorem Cut.release_round (h : s.Cut cur pre (i :: rest)) (ho : s.mem i = some o)
    (hv : o.verdict = .release) :
    (s.endgameStep cur i o).2 = cur ∧ (s.endgameStep cur i o).1.Cut cur pre rest ∧
      s.Swept [i] [] (s.endgameStep cur i o).1 := by
  rw [endgameStep_of_ne_keep (by rw [hv]; decide), freeProactor_of_release hv]
  have hmem : ∀ j, j ≠ i →
      (IoLoop.release { s with closed := s.closed ++ o.freeCloses } i).mem j = s.mem j :=
    fun j hj ↦ Function.update_of_ne hj _ _
  refine ⟨rfl, h.release ho hmem rfl, ?_, fun j hj ↦ store_links hmem cur (by simpa using hj), ?_⟩
  · intro j hj
    obtain rfl := List.mem_singleton.mp hj
    rw [h.store_mem_self, release_mem, Function.update_self]
  · have hcl : s.freeCloses i = o.freeCloses := by
      rw [freeCloses, ho, Option.map_some, Option.getD_some]
    rw [store_eq]
    simp [hcl, IoLoop.release]

theorem Cut.relist_round (h : s.Cut cur pre (i :: rest)) (ho : s.mem i = some o)
    (hv : o.verdict = .relist) :
    (s.endgameStep cur i o).2 = cur ∧
      (s.endgameStep cur i o).1.Cut cur (if pre = [] then [] else i :: pre) rest ∧
      s.Swept [] [i] (s.endgameStep cur i o).1 := by
  obtain ⟨o', ho', hdel⟩ := h.mem_eq
  obtain rfl := Option.some.inj (ho.symm.trans ho')
  rw [endgameStep_of_ne_keep (by rw [hv]; decide), freeProactor_of_relist hv hdel]
  set x : IoLoop :=
    { s with
      mem := Function.update s.mem i (some (o.withNext s.endgameHead))
      endgameHead := some i
      assertFailures := s.assertFailures ++ [i] } with hx
  have hmem : ∀ j, j ≠ i → x.mem j = s.mem j := fun j hj ↦ Function.update_of_ne hj _ _
  have hself : x.mem i = some (o.withNext s.endgameHead) := Function.update_self ..
  have hstored : (x.store o.proactor.next cur).mem i = some (o.withNext s.endgameHead) :=
    (h.store_mem_self _).trans hself
  refine ⟨rfl, h.relist ho hmem rfl ?_ ⟨_, hstored, by simpa using hdel⟩, by simp, ?_, ?_⟩
  · rw [nextOf, hself, Option.bind_some, Obj.proactor_withNext]
  · intro j _
    by_cases hj : j = i
    · subst hj
      exact ⟨s.endgameHead, by rw [hstored, ho, Option.map_some]⟩
    · exact store_links hmem cur hj
  · rw [store_eq]
    simp [hx]

/-- **The pass.** It comes to its end, leaves the list that `sweep` computes, releases the events
without outstanding work and puts the async events with an undelivered notification on the list
again. -/
theorem Cut.endgameLoop {fuel : ℕ} (h : s.Cut cur pre rest) (hfuel : rest.length < fuel) :
    ∃ s', IoLoop.endgameLoop fuel s cur = some s' ∧ s'.Endgame (sweep s.verdict pre rest) ∧
      s.Swept (s.judged .release rest) (s.judged .relist rest) s' := by
  induction rest generalizing s cur pre fuel with
  | nil =>
    obtain ⟨fuel, rfl⟩ := Nat.exists_eq_succ_of_ne_zero (Nat.ne_of_gt hfuel)
    have hload : s.load cur = none := h.after
    refine ⟨s, by rw [IoLoop.endgameLoop, hload], ⟨?_, ?_, ?_⟩, Swept.refl s⟩
    · rw [← hload]
      exact h.before
    · simpa [sweep] using h.nodup
    · simpa [sweep] using h.deleted
  | cons i rest ih =>
    obtain ⟨fuel, rfl⟩ := Nat.exists_eq_succ_of_ne_zero (Nat.ne_of_gt (Nat.zero_lt_of_lt hfuel))
    have hfuel' : rest.length < fuel := Nat.lt_of_succ_lt_succ hfuel
    obtain ⟨o, ho, -⟩ := h.mem_eq
    have hi : i ∉ rest := fun hi ↦ h.ne_of_mem (List.mem_append_right pre hi) rfl
    rw [IoLoop.endgameLoop, h.load_eq]
    simp only [ho]
    rw [sweep, verdict_eq ho, judged_cons ho, judged_cons ho]
    cases hv : o.verdict with
    | keep =>
      rw [endgameStep_of_keep hv]
      exact ih h.keep hfuel'
    | release =>
      obtain ⟨hcur, hcut, hswept⟩ := h.release_round ho hv
      have hsame : ∀ j ∈ rest, (s.endgameStep cur i o).1.verdict j = s.verdict j :=
        fun j hj ↦ hswept.verdict_eq fun hji ↦ hi (List.mem_singleton.mp hji ▸ hj)
      obtain ⟨s', hs', hend, hs⟩ := ih hcut hfuel'
      rw [sweep_congr hsame] at hend
      rw [judged_congr hsame, judged_congr hsame] at hs
      rw [hcur]
      refine ⟨s', hs', hend, hswept.trans hs fun j hj hji ↦ hi ?_⟩
      rw [← List.mem_singleton.mp hji]
      exact List.mem_of_mem_filter hj
    | relist =>
      obtain ⟨hcur, hcut, hswept⟩ := h.relist_round ho hv
      have hsame : ∀ j ∈ rest, (s.endgameStep cur i o).1.verdict j = s.verdict j :=
        fun j _ ↦ hswept.verdict_eq (by simp)
      obtain ⟨s', hs', hend, hs⟩ := ih hcut hfuel'
      rw [sweep_congr hsame] at hend
      rw [judged_congr hsame, judged_congr hsame] at hs
      rw [hcur]
      exact ⟨s', hs', hend, hswept.trans hs (by simp)⟩

end IoLoop

end Nanoev
