import Nanoev.Io.Loop
import Nanoev.Memory.Window

/-!
# The epoll poller

`epoll_poller_submit` and `epoll_poller_poll`. The poller keeps the completions that are submitted
to it in an array of its own, as a window that slides toward the end, is moved to the front when it
touches the end, and grows when it fills the array. A poll that finds completions there takes them;
otherwise it asks the kernel, and offers what is ready to the `reactor_cb` of the proactors.

The window always lies inside the array, and `EpollPoller` carries that as a field: no operation
builds a poller without it. `Access` is the record of the cells of the array that a call touches.

The poller does not know what it works for. What it uses of the proactors is `Proactors`: the
function `reactor_cb`, which returns the context that it has completed, and the interest, which
`reactor_cb` leaves alone. `ioProactors` is what the TCP, UDP and async events provide.
-/

namespace Nanoev

open Memory

/-- `poller_event`. -/
structure PollerEvent (π κ : Type*) where
  proactor : π
  ctx : κ
deriving DecidableEq, Repr

/-- `_epoll_poller`, less its descriptors. The array has `eventsCapacity` cells. -/
structure EpollPoller (α : Type*) where
  events : ℕ → α
  eventsStart : ℕ
  eventsCount : ℕ
  eventsCapacity : ℕ
  /-- The window lies inside the array. -/
  fits : eventsStart + eventsCount ≤ eventsCapacity

/-- An access to the cell `index` of an array with `capacity` cells. -/
structure Access where
  index : ℕ
  capacity : ℕ
deriving DecidableEq, Repr

namespace EpollPoller

variable {α : Type*}

/-- `epoll_poller_create`; the contents of the cells are arbitrary. -/
def epollPollerCreate (cells : ℕ → α) : EpollPoller α := ⟨cells, 0, 0, 0, le_rfl⟩

/-- The accesses to `count` cells from `start` on. -/
def touch (p : EpollPoller α) (start count : ℕ) : List Access :=
  (List.range' start count).map fun i ↦ ⟨i, p.eventsCapacity⟩

/-! ## Submitting -/

/-- The first part of `epoll_poller_submit`: a window that touches the end is moved to the front. -/
def compact (p : EpollPoller α) : EpollPoller α × List Access :=
  if p.eventsStart + p.eventsCount = p.eventsCapacity ∧ 0 < p.eventsStart then
    ({ p with
        events := fun i ↦ if i < p.eventsCount then p.events (p.eventsStart + i) else p.events i
        eventsStart := 0
        fits := by have := p.fits; omega },
      p.touch p.eventsStart p.eventsCount ++ p.touch 0 p.eventsCount)
  else (p, [])

def grow (p : EpollPoller α) : EpollPoller α :=
  { p with eventsCapacity := p.eventsCapacity + 128, fits := by have := p.fits; omega }

def append (p : EpollPoller α) (event : α)
    (h : p.eventsStart + p.eventsCount < p.eventsCapacity) : EpollPoller α :=
  { p with
    events := Function.update p.events (p.eventsStart + p.eventsCount) event
    eventsCount := p.eventsCount + 1
    fits := h }

/-- What `epoll_poller_submit` returns and leaves behind. -/
structure Submitted (α : Type*) where
  poller : EpollPoller α
  ret : ℤ
  accesses : List Access

/-- After the first part a window touches the end only if it fills the array. -/
theorem compact_lt (p : EpollPoller α) (h : p.compact.1.eventsCount ≠ p.compact.1.eventsCapacity) :
    p.compact.1.eventsStart + p.compact.1.eventsCount < p.compact.1.eventsCapacity := by
  have hfits := p.compact.1.fits
  revert h hfits
  unfold compact
  split_ifs with hend
  · dsimp only
    omega
  · dsimp only
    omega

theorem grow_lt (p : EpollPoller α) (h : p.eventsCount = p.eventsCapacity) :
    p.grow.eventsStart + p.grow.eventsCount < p.grow.eventsCapacity := by
  have := p.fits
  unfold grow
  dsimp only
  omega

/-- `epoll_poller_submit`; `alloc` is whether `mem_realloc` succeeds. -/
def epollPollerSubmit (p : EpollPoller α) (event : α) (alloc : Bool) : Submitted α :=
  let p₁ := p.compact.1
  let moved := p.compact.2
  if hfull : p₁.eventsCount = p₁.eventsCapacity then
    if alloc then
      let p₂ := p₁.grow
      ⟨p₂.append event (p₁.grow_lt hfull), 0,
        moved ++ p₂.touch (p₂.eventsStart + p₂.eventsCount) 1⟩
    else ⟨p₁, -1, moved⟩
  else
    ⟨p₁.append event (p.compact_lt hfull), 0,
      moved ++ p₁.touch (p₁.eventsStart + p₁.eventsCount) 1⟩

/-! ## Polling -/

/-- The first part of `epoll_poller_poll`: completions are taken from the front of the window. -/
def takeQueued (p : EpollPoller α) (maxEvents : ℕ) : EpollPoller α × List α × List Access :=
  let count := min p.eventsCount maxEvents
  ({ p with
      eventsStart := if p.eventsCount - count > 0 then p.eventsStart + count else 0
      eventsCount := p.eventsCount - count
      fits := by
        have := p.fits
        have : count ≤ p.eventsCount := min_le_left ..
        split_ifs <;> omega },
    window p.events p.eventsStart count, p.touch p.eventsStart count)

end EpollPoller

/-- The bits of `struct epoll_event`. -/
structure EpollBits where
  epollIn : Bool
  epollOut : Bool
  epollErr : Bool
  epollHup : Bool
deriving DecidableEq, Repr

/-- The user data of a registration: the descriptor for notifications, or a proactor. -/
inductive EpollData (π : Type*)
  | notifyfd
  | proactor (p : π)
deriving DecidableEq, Repr

/-- `struct epoll_event`. -/
structure EpollEvent (π : Type*) where
  data : EpollData π
  events : EpollBits
deriving DecidableEq, Repr

/-- What `epoll_wait` returns; nothing is ready when the time is over. -/
inductive WaitResult (π : Type*)
  | ready (entries : List (EpollEvent π))
  | interrupted
  | failed (e : Errno)

structure Proactors (σ π κ : Type*) where
  reactorCb : σ → π → Dir → σ × Option κ
  reactorEvents : σ → π → Mask
  /-- `reactor_cb` leaves the interest of all proactors alone. -/
  frame : ∀ s p d, reactorEvents (reactorCb s p d).1 = reactorEvents s

/-- The proactors, the entries of the output array so far, and the calls of `reactor_cb`. -/
structure Dispatched (σ π κ : Type*) where
  state : σ
  events : List (PollerEvent π κ)
  offered : List (π × Dir)

section Dispatch

variable {σ π κ : Type*} (P : Proactors σ π κ) (maxEvents : ℕ)

/-- `epoll_append_reactor_event`. -/
def epollAppendReactorEvent (x : Dispatched σ π κ) (p : π) (d : Dir) : Dispatched σ π κ :=
  if maxEvents ≤ x.events.length then x
  else
    let (state, ctx) := P.reactorCb x.state p d
    ⟨state, x.events ++ (ctx.map fun c ↦ ⟨p, c⟩).toList, x.offered ++ [(p, d)]⟩

/-- The body of the loop in `epoll_poller_poll`. -/
def epollDispatchEntry (x : Dispatched σ π κ) (e : EpollEvent π) : Dispatched σ π κ :=
  match e.data with
  | .notifyfd => x
  | .proactor p =>
    if e.events.epollIn then epollAppendReactorEvent P maxEvents x p .read
    else if e.events.epollOut then epollAppendReactorEvent P maxEvents x p .write
    else if (e.events.epollErr || e.events.epollHup) &&
      !(e.events.epollIn || e.events.epollOut) then
      let x₁ :=
        if (P.reactorEvents x.state p).read then epollAppendReactorEvent P maxEvents x p .read
        else x
      if (P.reactorEvents x₁.state p).write then epollAppendReactorEvent P maxEvents x₁ p .write
      else x₁
    else x

/-- The loop in `epoll_poller_poll`. -/
def epollDispatch (x : Dispatched σ π κ) (entries : List (EpollEvent π)) : Dispatched σ π κ :=
  entries.foldl (epollDispatchEntry P maxEvents) x

/-- What `epoll_poller_poll` returns and leaves behind; `ret` is `none` for a failure. -/
structure Polled (σ π κ : Type*) where
  poller : EpollPoller (PollerEvent π κ)
  state : σ
  events : List (PollerEvent π κ)
  ret : Option ℕ
  accesses : List Access

/-- `epoll_poller_poll`; `wait` is what `epoll_wait` returns if it is called. -/
def epollPollerPoll (p : EpollPoller (PollerEvent π κ)) (state : σ) (wait : WaitResult π) :
    Polled σ π κ :=
  if 0 < p.eventsCount then
    let (p', events, accesses) := p.takeQueued maxEvents
    ⟨p', state, events, some events.length, accesses⟩
  else
    match wait with
    | .failed _ => ⟨p, state, [], none, []⟩
    | .interrupted => ⟨p, state, [], some 0, []⟩
    | .ready entries =>
      let x := epollDispatch P maxEvents ⟨state, [], []⟩ entries
      ⟨p, x.state, x.events, some x.events.length, []⟩

end Dispatch

end Nanoev
