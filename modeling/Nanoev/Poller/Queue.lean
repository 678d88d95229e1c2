import Nanoev.Poller.Epoll
import Nanoev.Transition.Run

/-!
# The queue of the poller is a first-in first-out queue

`contents` is the list that the window of a poller stands for. `epoll_poller_submit` appends to it
or leaves it alone, `epoll_poller_poll` takes from its front, and neither touches a cell outside the
array. Over a run of submissions and polls, `Ledger` keeps what was submitted with success and what
was delivered: the former is the latter followed by the contents.
-/

namespace Nanoev

open Memory Transition

namespace EpollPoller

variable {α : Type*} (p : EpollPoller α)

def contents : List α := window p.events p.eventsStart p.eventsCount

@[simp] theorem contents_length : p.contents.length = p.eventsCount := window_length

theorem contents_ne_nil_iff : p.contents ≠ [] ↔ 0 < p.eventsCount := by
  rw [Ne, contents, window_eq_nil_iff, Nat.pos_iff_ne_zero]

@[simp] theorem contents_create (cells : ℕ → α) : (epollPollerCreate cells).contents = [] := rfl

def InBounds (accesses : List Access) : Prop := ∀ a ∈ accesses, a.index < a.capacity

theorem InBounds.append {l l' : List Access} (h : InBounds l) (h' : InBounds l') :
    InBounds (l ++ l') := by
  intro a ha
  rcases List.mem_append.mp ha with ha | ha
  · exact h a ha
  · exact h' a ha

theorem inBounds_touch {start count : ℕ} (h : start + count ≤ p.eventsCapacity) :
    InBounds (p.touch start count) := by
  intro a ha
  obtain ⟨i, hi, rfl⟩ := List.mem_map.mp ha
  rw [List.mem_range'_1] at hi
  dsimp only
  omega

/-! ## The operations -/

theorem compact_spec : p.compact.1.contents = p.contents ∧ InBounds p.compact.2 := by
  have hfits := p.fits
  unfold compact
  split_ifs with hend
  · refine ⟨window_move fun i hi ↦ ?_, ?_⟩
    · rw [Nat.zero_add]
      exact if_pos hi
    · exact (p.inBounds_touch hfits).append (p.inBounds_touch (by omega))
  · exact ⟨rfl, List.forall_mem_nil _⟩

theorem contents_append (event : α) (h : p.eventsStart + p.eventsCount < p.eventsCapacity) :
    (p.append event h).contents = p.contents ++ [event] := window_push

/-- **Submitting** appends to the contents, or fails and leaves them alone. -/
theorem epollPollerSubmit_spec (event : α) (alloc : Bool) :
    ((p.epollPollerSubmit event alloc).ret = 0 ∧
          (p.epollPollerSubmit event alloc).poller.contents = p.contents ++ [event] ∨
        (p.epollPollerSubmit event alloc).ret = -1 ∧
          (p.epollPollerSubmit event alloc).poller.contents = p.contents) ∧
      InBounds (p.epollPollerSubmit event alloc).accesses := by
  obtain ⟨hcontents, hmoved⟩ := p.compact_spec
  unfold epollPollerSubmit
  dsimp only
  split_ifs with hfull halloc
  · have hlt := p.compact.1.grow_lt hfull
    refine ⟨Or.inl ⟨rfl, ?_⟩, hmoved.append (inBounds_touch _ hlt)⟩
    rw [contents_append, ← hcontents]
    rfl
  · exact ⟨Or.inr ⟨rfl, hcontents⟩, hmoved⟩
  · have hlt := p.compact_lt hfull
    refine ⟨Or.inl ⟨rfl, ?_⟩, hmoved.append (inBounds_touch _ hlt)⟩
    rw [contents_append, hcontents]

/-- **Taking** removes from the front of the contents. -/
theorem takeQueued_spec (maxEvents : ℕ) :
    (p.takeQueued maxEvents).1.contents = p.contents.drop maxEvents ∧
      (p.takeQueued maxEvents).2.1 = p.contents.take maxEvents ∧
      InBounds (p.takeQueued maxEvents).2.2 := by
  have hfits := p.fits
  have hle : min p.eventsCount maxEvents ≤ p.eventsCount := min_le_left ..
  refine ⟨?_, ?_, p.inBounds_touch (by omega)⟩
  · rcases le_or_gt p.eventsCount maxEvents with hall | hsome
    · -- the window is empty, wherever it begins
      rw [List.drop_eq_nil_of_le (by rw [contents_length]; exact hall)]
      exact window_eq_nil_iff.mpr (by dsimp only [takeQueued]; omega)
    · have hmin : min p.eventsCount maxEvents = maxEvents := min_eq_right hsome.le
      rw [contents, contents, ← window_drop hsome.le]
      simp only [takeQueued, hmin, gt_iff_lt, Nat.sub_pos_iff_lt, hsome, if_true]
  · rw [contents, takeQueued]
    dsimp only
    rw [window_take hle]
    rcases le_total p.eventsCount maxEvents with hall | hsome
    · rw [min_eq_left hall, List.take_of_length_le window_length.le,
        List.take_of_length_le (window_length.le.trans hall)]
    · rw [min_eq_right hsome]

end EpollPoller

section Queue

open EpollPoller

variable {σ π κ : Type*} (P : Proactors σ π κ)

theorem epollPollerPoll_queued {p : EpollPoller (PollerEvent π κ)} (hp : p.contents ≠ [])
    (maxEvents : ℕ) (state : σ) (wait : WaitResult π) :
    (epollPollerPoll P maxEvents p state wait).events = p.contents.take maxEvents ∧
      (epollPollerPoll P maxEvents p state wait).poller.contents = p.contents.drop maxEvents ∧
      InBounds (epollPollerPoll P maxEvents p state wait).accesses := by
  obtain ⟨hdrop, htake, hbounds⟩ := p.takeQueued_spec maxEvents
  unfold epollPollerPoll
  rw [if_pos (p.contents_ne_nil_iff.mp hp)]
  exact ⟨htake, hdrop, hbounds⟩

theorem epollPollerPoll_empty {p : EpollPoller (PollerEvent π κ)} (hp : p.contents = [])
    (maxEvents : ℕ) (state : σ) (wait : WaitResult π) :
    (epollPollerPoll P maxEvents p state wait).poller = p ∧
      (epollPollerPoll P maxEvents p state wait).accesses = [] := by
  have hcount : ¬0 < p.eventsCount := fun h ↦ p.contents_ne_nil_iff.mpr h hp
  unfold epollPollerPoll
  rw [if_neg hcount]
  cases wait with
  | ready entries | interrupted | failed e => exact ⟨rfl, rfl⟩

/-- The entry of `Io.Loop` for a completion. -/
def PollerEvent.toPair (e : PollerEvent ℕ Dir) : ℕ × Dir := (e.proactor, e.ctx)

/-! ## Runs -/

/-- A poller, with what was submitted to it with success and what the polls that found completions
in its queue have delivered. -/
structure Ledger (π κ : Type*) where
  poller : EpollPoller (PollerEvent π κ)
  submitted : List (PollerEvent π κ)
  delivered : List (PollerEvent π κ)

/-- A call, with the memory that there is for it, or the state of the proactors and what the kernel
has ready. -/
inductive PollerCall (σ π κ : Type*)
  | submit (event : PollerEvent π κ) (alloc : Bool)
  | poll (maxEvents : ℕ) (state : σ) (wait : WaitResult π)

def PollerCall.valid : PollerCall σ π κ → Bool
  | .submit _ _ => true
  | .poll maxEvents _ _ => decide (1 ≤ maxEvents)

namespace Ledger

def init (cells : ℕ → PollerEvent π κ) : Ledger π κ := ⟨epollPollerCreate cells, [], []⟩

def step (x : Ledger π κ) : PollerCall σ π κ → Option (Ledger π κ)
  | .submit event alloc =>
    let r := x.poller.epollPollerSubmit event alloc
    some ⟨r.poller, x.submitted ++ (if r.ret = 0 then [event] else []), x.delivered⟩
  | .poll maxEvents state wait =>
    let r := epollPollerPoll P maxEvents x.poller state wait
    some ⟨r.poller, x.submitted,
      x.delivered ++ (if 0 < x.poller.eventsCount then r.events else [])⟩

/-- What was submitted is what was delivered, and then what is in the queue. -/
def Balanced (x : Ledger π κ) : Prop := x.submitted = x.delivered ++ x.poller.contents

variable {P} {x y : Ledger π κ}

/-- **One call** keeps the balance. -/
theorem Balanced.step (hx : x.Balanced) {c : PollerCall σ π κ} (h : x.step P c = some y) :
    y.Balanced := by
  cases c with
  | submit event alloc =>
    obtain rfl := Option.some.inj h
    obtain ⟨⟨hret, hcontents⟩ | ⟨hret, hcontents⟩, -⟩ := x.poller.epollPollerSubmit_spec event alloc
    · rw [Balanced]
      dsimp only
      rw [hret, if_pos rfl, hcontents, hx, List.append_assoc]
    · rw [Balanced]
      dsimp only
      rw [hret, if_neg (by decide), hcontents, List.append_nil]
      exact hx
  | poll maxEvents state wait =>
    obtain rfl := Option.some.inj h
    rw [Balanced]
    dsimp only
    by_cases hp : x.poller.contents = []
    · obtain ⟨hpoller, -⟩ := epollPollerPoll_empty P hp maxEvents state wait
      have hcount : ¬0 < x.poller.eventsCount := fun h ↦ x.poller.contents_ne_nil_iff.mpr h hp
      rw [hpoller, if_neg hcount, List.append_nil]
      exact hx
    · obtain ⟨hevents, hcontents, -⟩ := epollPollerPoll_queued P hp maxEvents state wait
      rw [hevents, hcontents, if_pos (x.poller.contents_ne_nil_iff.mp hp), List.append_assoc,
        List.take_append_drop]
      exact hx

/-- **The queue of the poller is a first-in first-out queue.** In every run of submissions and
polls: what was submitted with success is what was delivered, followed by the contents of the queue;
a submission appends to the contents or fails and leaves them alone; a poll that finds completions
delivers the first of them, at least one and at most `maxEvents`; and all accesses are to cells of
the array. -/
theorem fifo {cells : ℕ → PollerEvent π κ}
    (h : Reachable (Ledger.step P) (fun _ c ↦ c.valid = true) (init cells) x) :
    x.submitted = x.delivered ++ x.poller.contents ∧
      (∀ event alloc,
        ((x.poller.epollPollerSubmit event alloc).ret = 0 ∧
              (x.poller.epollPollerSubmit event alloc).poller.contents =
                x.poller.contents ++ [event] ∨
            (x.poller.epollPollerSubmit event alloc).ret = -1 ∧
              (x.poller.epollPollerSubmit event alloc).poller.contents = x.poller.contents) ∧
          InBounds (x.poller.epollPollerSubmit event alloc).accesses) ∧
      ∀ maxEvents state wait, 1 ≤ maxEvents →
        InBounds (epollPollerPoll P maxEvents x.poller state wait).accesses ∧
          (x.poller.contents ≠ [] →
            (epollPollerPoll P maxEvents x.poller state wait).events =
                x.poller.contents.take maxEvents ∧
              (epollPollerPoll P maxEvents x.poller state wait).poller.contents =
                x.poller.contents.drop maxEvents ∧
              (epollPollerPoll P maxEvents x.poller state wait).events ≠ [] ∧
              (epollPollerPoll P maxEvents x.poller state wait).events.length ≤ maxEvents) := by
  have hbalanced : x.Balanced := h.invariant (I := Balanced) rfl fun _ _ _ hx _ hstep ↦
    hx.step hstep
  refine ⟨hbalanced, x.poller.epollPollerSubmit_spec, fun maxEvents state wait hmax ↦ ?_⟩
  by_cases hp : x.poller.contents = []
  · refine ⟨?_, fun hne ↦ absurd hp hne⟩
    rw [(epollPollerPoll_empty P hp maxEvents state wait).2]
    exact nofun
  · obtain ⟨hevents, hcontents, hbounds⟩ := epollPollerPoll_queued P hp maxEvents state wait
    refine ⟨hbounds, fun _ ↦ ⟨hevents, hcontents, ?_, ?_⟩⟩
    · rw [hevents, Ne, List.take_eq_nil_iff]
      exact not_or.mpr ⟨by omega, hp⟩
    · rw [hevents, List.length_take]
      exact min_le_left ..

def silent : Proactors Unit ℕ Dir := ⟨fun s _ _ ↦ (s, none), fun _ _ ↦ .empty, fun _ _ _ ↦ rfl⟩

/-- There is no memory for the first submission. The next 128 fill the array, and a poll takes two
of them; so there is room for one more once the others have been moved to the front. -/
def submitAndPoll : List (PollerCall Unit ℕ Dir) :=
  .submit ⟨0, .write⟩ false :: (List.range 128).map (fun i ↦ .submit ⟨i, .read⟩ true) ++
    [.poll 2 () .interrupted, .submit ⟨128, .write⟩ false, .poll 1 () .interrupted]

theorem fifo_submitAndPoll :
    ∃ x, Reachable (Ledger.step silent) (fun _ c ↦ c.valid = true) (init fun _ ↦ ⟨0, .read⟩) x ∧
      x.delivered = [⟨0, .read⟩, ⟨1, .read⟩, ⟨2, .read⟩] ∧ x.poller.eventsCapacity = 128 ∧
      x.poller.eventsStart = 1 ∧ x.poller.contents.getLast? = some ⟨128, .write⟩ ∧
      x.submitted = x.delivered ++ x.poller.contents := by
  have hrun : (exec (Ledger.step silent) (fun _ c ↦ c.valid = true) (init fun _ ↦ ⟨0, .read⟩)
      submitAndPoll).map (fun x ↦ (x.delivered, x.poller.eventsCapacity, x.poller.eventsStart,
        x.poller.contents.getLast?)) =
      some ([⟨0, .read⟩, ⟨1, .read⟩, ⟨2, .read⟩], 128, 1, some ⟨128, .write⟩) := by decide +kernel
  obtain ⟨x, hexec, heq⟩ := Option.map_eq_some_iff.mp hrun
  rw [Prod.mk.injEq, Prod.mk.injEq, Prod.mk.injEq] at heq
  obtain ⟨hdelivered, hcapacity, hstart, hlast⟩ := heq
  have hreach := Reachable.of_exec hexec
  exact ⟨x, hreach, hdelivered, hcapacity, hstart, hlast, (fifo hreach).1⟩

end Ledger

end Queue

end Nanoev
