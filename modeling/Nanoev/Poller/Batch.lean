import Nanoev.Poller.Dispatch

/-!
# The batch of a poll

`reactor_cb` does the I/O of an event, so a context that it returns has to get into the batch: the
bytes that were read, or the connection that was accepted, are known to nobody else. An entry of
`epoll_wait` leads to no, one or two contexts, and there are as many entries as there is room for
contexts. `epoll_append_reactor_event` looks for room before it calls `reactor_cb` and not after it,
and every call in `epoll_poller_poll` goes through it.

`Proactors.recorded` are the same proactors with a record of the calls and of what they returned.
The record does not change what the poller does (`epollDispatch_recorded`), so what is proved with
the record holds without it. The invariant is that the batch holds what the calls in the record
have returned, in their order, and that there was room before each of them.
-/

namespace Nanoev

/-- A call of `reactor_cb`, with the context that it returned. -/
structure ReactorCall (π κ : Type*) where
  proactor : π
  dir : Dir
  ctx : Option κ
deriving DecidableEq, Repr

variable {σ π κ : Type*}

def ReactorCall.event? (c : ReactorCall π κ) : Option (PollerEvent π κ) :=
  c.ctx.map fun ctx ↦ ⟨c.proactor, ctx⟩

def returned (calls : List (ReactorCall π κ)) : List (PollerEvent π κ) :=
  calls.filterMap ReactorCall.event?

theorem returned_concat (calls : List (ReactorCall π κ)) (c : ReactorCall π κ) :
    returned (calls ++ [c]) = returned calls ++ c.event?.toList := by
  rw [returned, List.filterMap_append]
  cases h : c.event? with
  | none => rw [List.filterMap_cons_none h]; rfl
  | some e => rw [List.filterMap_cons_some h]; rfl

/-- The proactors with a record of the calls of `reactor_cb`. -/
def Proactors.recorded (P : Proactors σ π κ) :
    Proactors (σ × List (ReactorCall π κ)) π κ where
  reactorCb x p d :=
    let (state, ctx) := P.reactorCb x.1 p d
    ((state, x.2 ++ [⟨p, d, ctx⟩]), ctx)
  reactorEvents x := P.reactorEvents x.1
  frame x p d := P.frame x.1 p d

/-! ## The record changes nothing -/

section Recorded

variable (P : Proactors σ π κ) (maxEvents : ℕ)

def Dispatched.plain (x : Dispatched (σ × List (ReactorCall π κ)) π κ) : Dispatched σ π κ :=
  ⟨x.state.1, x.events, x.offered⟩

theorem append_recorded (x : Dispatched (σ × List (ReactorCall π κ)) π κ) (p : π) (d : Dir) :
    (epollAppendReactorEvent P.recorded maxEvents x p d).plain =
      epollAppendReactorEvent P maxEvents x.plain p d := by
  unfold epollAppendReactorEvent
  split_ifs with hfull hfull' hfull'
  · rfl
  · exact absurd hfull hfull'
  · exact absurd hfull' hfull
  · rfl

theorem offerAll_recorded (p : π) (ds : List Dir) :
    ∀ x : Dispatched (σ × List (ReactorCall π κ)) π κ,
      (offerAll P.recorded maxEvents p x ds).plain = offerAll P maxEvents p x.plain ds := by
  induction ds with
  | nil => exact fun _ ↦ rfl
  | cons d ds ih =>
    intro x
    rw [offerAll, List.foldl_cons, ← offerAll, ih, append_recorded]
    rfl

theorem epollDispatch_recorded (entries : List (EpollEvent π)) :
    ∀ x : Dispatched (σ × List (ReactorCall π κ)) π κ,
      (epollDispatch P.recorded maxEvents x entries).plain =
        epollDispatch P maxEvents x.plain entries := by
  induction entries with
  | nil => exact fun _ ↦ rfl
  | cons e entries ih =>
    intro x
    have hentry : (epollDispatchEntry P.recorded maxEvents x e).plain =
        epollDispatchEntry P maxEvents x.plain e := by
      obtain ⟨data, b⟩ := e
      cases data with
      | notifyfd => rfl
      | proactor p =>
        rw [epollDispatchEntry_eq, epollDispatchEntry_eq, offerAll_recorded]
        rfl
    rw [epollDispatch, List.foldl_cons, ← epollDispatch, ih, hentry]
    rfl

end Recorded

/-! ## One call after the other -/

section Invariant

variable {P : Proactors σ π κ} {maxEvents : ℕ}

/-- **The invariant rule** for the loop of a poll: what `epoll_append_reactor_event` preserves, the
loop preserves. -/
theorem epollDispatch_invariant {I : Dispatched σ π κ → Prop}
    (hI : ∀ x p d, I x → I (epollAppendReactorEvent P maxEvents x p d))
    (entries : List (EpollEvent π)) {x : Dispatched σ π κ} (hx : I x) :
    I (epollDispatch P maxEvents x entries) := by
  have hoffers : ∀ p (ds : List Dir) x, I x → I (offerAll P maxEvents p x ds) := by
    intro p ds
    induction ds with
    | nil => exact fun _ hx ↦ hx
    | cons d ds ih => exact fun x hx ↦ ih _ (hI x p d hx)
  induction entries generalizing x with
  | nil => exact hx
  | cons e entries ih =>
    obtain ⟨data, b⟩ := e
    cases data with
    | notifyfd => exact ih hx
    | proactor p =>
      refine ih ?_
      rw [epollDispatchEntry_eq]
      exact hoffers p _ x hx

/-- The batch holds what the calls have returned, in their order, and there was room in it before
each call. -/
structure Complete (maxEvents : ℕ) (calls : List (ReactorCall π κ))
    (events : List (PollerEvent π κ)) : Prop where
  stored : events = returned calls
  bounded : events.length ≤ maxEvents
  room : ∀ before c, before ++ [c] <+: calls → (returned before).length < maxEvents

theorem complete_nil (maxEvents : ℕ) :
    Complete maxEvents ([] : List (ReactorCall π κ)) [] where
  stored := rfl
  bounded := Nat.zero_le _
  room := by
    intro before c h
    have hne : before ++ [c] ≠ [] := List.append_ne_nil_of_right_ne_nil _ (List.cons_ne_nil c [])
    exact absurd (List.prefix_nil.mp h) hne

theorem Complete.call {calls : List (ReactorCall π κ)} {events : List (PollerEvent π κ)}
    (h : Complete maxEvents calls events) (hroom : events.length < maxEvents)
    (c : ReactorCall π κ) : Complete maxEvents (calls ++ [c]) (events ++ c.event?.toList) where
  stored := by rw [returned_concat, h.stored]
  bounded := by
    rw [List.length_append]
    have hle : c.event?.toList.length ≤ 1 := by cases c.event? <;> simp
    omega
  room := by
    intro before c' hle
    rcases List.prefix_concat_iff.mp hle with heq | hold
    · -- the new call itself
      obtain ⟨rfl, -⟩ := List.append_inj' heq rfl
      rw [← h.stored]
      exact hroom
    · exact h.room before c' hold

theorem append_complete (x : Dispatched (σ × List (ReactorCall π κ)) π κ) (p : π) (d : Dir)
    (h : Complete maxEvents x.state.2 x.events) :
    Complete maxEvents (epollAppendReactorEvent P.recorded maxEvents x p d).state.2
      (epollAppendReactorEvent P.recorded maxEvents x p d).events := by
  unfold epollAppendReactorEvent
  split_ifs with hfull
  · exact h
  · exact h.call (Nat.lt_of_not_le hfull) ⟨p, d, (P.reactorCb x.state.1 p d).2⟩

end Invariant

/-! ## A poll -/

def Polled.plain (r : Polled (σ × List (ReactorCall π κ)) π κ) : Polled σ π κ :=
  ⟨r.poller, r.state.1, r.events, r.ret, r.accesses⟩

/-- **A poll loses no completion.** `epoll_poller_poll` stores at most `max_events` entries. When it
asks the kernel, the batch consists of the contexts that the calls of `reactor_cb` have returned,
each of them once and in the order of the calls, and no call is made when the array is full; a poll
that fails has not made any. -/
theorem epollPollerPoll_complete (P : Proactors σ π κ) (maxEvents : ℕ)
    (p : EpollPoller (PollerEvent π κ)) (state : σ) (wait : WaitResult π) :
    let r := epollPollerPoll P.recorded maxEvents p (state, []) wait
    r.plain = epollPollerPoll P maxEvents p state wait ∧
      r.events.length ≤ maxEvents ∧
      (p.eventsCount = 0 → r.events = returned r.state.2) ∧
      (∀ before c, before ++ [c] <+: r.state.2 → (returned before).length < maxEvents) ∧
      (r.state.2 ≠ [] → r.ret = some r.events.length) := by
  have hnone := complete_nil (π := π) (κ := κ) maxEvents
  unfold epollPollerPoll
  split_ifs with hqueued
  · -- the completions in the queue are taken, and nobody is called
    refine ⟨rfl, ?_, fun hzero ↦ ?_, hnone.room, fun h ↦ absurd rfl h⟩
    · dsimp only [EpollPoller.takeQueued]
      rw [Memory.window_length]
      exact min_le_right ..
    · omega
  · cases wait with
    | failed e | interrupted =>
      exact ⟨rfl, hnone.bounded, fun _ ↦ rfl, hnone.room, fun h ↦ absurd rfl h⟩
    | ready entries =>
      dsimp only
      generalize hx : epollDispatch P.recorded maxEvents ⟨(state, []), [], []⟩ entries = x
      have hplain : x.plain = epollDispatch P maxEvents ⟨state, [], []⟩ entries := by
        rw [← hx, epollDispatch_recorded]
        rfl
      have hcomplete : Complete maxEvents x.state.2 x.events := by
        rw [← hx]
        exact epollDispatch_invariant
          (I := fun x : Dispatched (σ × _) π κ ↦ Complete maxEvents x.state.2 x.events)
          append_complete entries hnone
      refine ⟨?_, hcomplete.bounded, fun _ ↦ hcomplete.stored, hcomplete.room, fun _ ↦ rfl⟩
      rw [← hplain]
      rfl

end Nanoev
