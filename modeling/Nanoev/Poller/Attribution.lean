import Nanoev.Poller.Dispatch
import Nanoev.Threads.Break

/-!
# Whom a ready entry belongs to

The user data of a registration is an `epoll_data_t`, a union of 64 bits without a tag.
`epoll_poller_create` stores the number of the eventfd in the member `fd`, which is the low half;
`epoll_poller_modify` stores the address of a proactor in the member `ptr`, which is the whole. To
tell the two apart, `epoll_poller_poll` compares the low half with the number of the eventfd,
whichever member was stored. An address whose low half happens to be that number is taken for the
eventfd: the proactor is not called, and `read` is called on an eventfd that nobody has written to,
which blocks the loop.

`EpollSet` is the poller with the epoll instance and the eventfd. Each registration has a second
component, which the code cannot see: what it was made for. `Apart` is what the comparison needs,
and with it every entry is attributed to its registration (`entries_attributed`). Proactors lie in
memory from `mem_alloc`, at multiples of 16, so nothing can go wrong if the number of the eventfd is
not a multiple of 16 (`apart_of_not_dvd`).
-/

namespace Nanoev

open Transition

/-- `epoll_data_t`. -/
structure EpollDataT where
  ptr : BitVec 64
deriving DecidableEq, Repr

namespace EpollDataT

/-- The member `fd` of the union. -/
def fd (u : EpollDataT) : BitVec 32 := u.ptr.setWidth 32

/-- The union after its member `fd` has been stored; `rest` is what was in the other half. -/
def ofFd (rest fd : BitVec 32) : EpollDataT := ⟨rest ++ fd⟩

@[simp]
theorem fd_ofFd (rest fd : BitVec 32) : (ofFd rest fd).fd = fd :=
  BitVec.setWidth_append_eq_right

end EpollDataT

structure ProactorPtr where
  addr : BitVec 64
  /-- `mem_alloc` returns memory that is aligned for every type. -/
  aligned : 16 ∣ addr.toNat
deriving DecidableEq

/-- The union after its member `ptr` has been stored. -/
def EpollDataT.ofPtr (p : ProactorPtr) : EpollDataT := ⟨p.addr⟩

theorem ProactorPtr.dvd_fd (p : ProactorPtr) : 16 ∣ (EpollDataT.ofPtr p).fd.toNat := by
  have haligned := p.aligned
  rw [EpollDataT.fd, BitVec.toNat_setWidth]
  dsimp only [EpollDataT.ofPtr]
  omega

/-! ## The epoll instance -/

/-- A registration: what it was made for, and the user data that the kernel keeps. -/
structure EpollItem where
  owner : EpollData ProactorPtr
  data : EpollDataT
deriving DecidableEq

/-- An entry that `epoll_wait` returns. The code sees the user data and the bits. -/
structure ReadyItem where
  fd : BitVec 32
  item : EpollItem
  events : EpollBits
deriving DecidableEq

/-- The entry as `epoll_poller_poll` should see it. -/
def ReadyItem.event (r : ReadyItem) : EpollEvent (BitVec 64) :=
  match r.item.owner with
  | .notifyfd => ⟨.notifyfd, r.events⟩
  | .proactor p => ⟨.proactor p.addr, r.events⟩

/-- The second argument of `epoll_ctl`. -/
inductive EpollOp
  | add
  | mod
  | del
deriving DecidableEq, Repr

/-- `epoll_ctl`, on the registrations of an epoll instance. -/
def epollCtl (items : BitVec 32 → Option EpollItem) (op : EpollOp) (fd : BitVec 32)
    (item : EpollItem) : Option (BitVec 32 → Option EpollItem) :=
  match op, items fd with
  | .add, none => some (Function.update items fd (some item))
  | .mod, some _ => some (Function.update items fd (some item))
  | .del, some _ => some (Function.update items fd none)
  | _, _ => none

/-- The state of the proactors: their field `reactor_events`, by address, and everything else. -/
abbrev ProactorState (σ : Type*) := σ × (BitVec 64 → Mask)

/-- The proactors of a loop, by address. `reactor_cb` does not touch `reactor_events`. -/
def addressed {σ κ : Type*} (reactorCb : σ → BitVec 64 → Dir → σ × Option κ) :
    Proactors (ProactorState σ) (BitVec 64) κ where
  reactorCb s p d := (((reactorCb s.1 p d).1, s.2), (reactorCb s.1 p d).2)
  reactorEvents s := s.2
  frame _ _ _ := rfl

inductive PollPc (σ κ : Type*)
  | idle
  /-- In the loop over the entries of `epoll_wait`: those served, those still to come, and what has
  been done for them. -/
  | loop (served todo : List ReadyItem) (x : Dispatched (ProactorState σ) (BitVec 64) κ)

structure EpollSet (σ κ : Type*) where
  items : BitVec 32 → Option EpollItem
  /-- The count of the eventfd. -/
  counter : ℕ
  /-- The proactors, as the last poll has left them. -/
  state : ProactorState σ
  pc : PollPc σ κ

namespace EpollSet

variable {σ κ : Type*}

/-- `epoll_poller_create`; `rest` is what was on the stack. -/
def create (notifyfd rest : BitVec 32) (state : ProactorState σ) : EpollSet σ κ where
  items := Function.update (fun _ ↦ none) notifyfd (some ⟨.notifyfd, .ofFd rest notifyfd⟩)
  counter := 0
  state := state
  pc := .idle

/-- The operation that `epoll_poller_modify` asks for. -/
def modifyOp (reactorEvents events : Mask) : EpollOp :=
  if reactorEvents = .empty then .add else if events = .empty then .del else .mod

/-- `epoll_poller_modify`; `memory` is whether the kernel has memory for the registration. -/
def epollPollerModify (x : EpollSet σ κ) (fd : BitVec 32) (p : ProactorPtr) (events : Mask)
    (memory : Bool) : EpollSet σ κ :=
  let reactorEvents := x.state.2 p.addr
  if reactorEvents = events then x
  else if memory then
    match epollCtl x.items (modifyOp reactorEvents events) fd ⟨.proactor p, .ofPtr p⟩ with
    | none => x
    | some items =>
      { x with items := items, state := (x.state.1, Function.update x.state.2 p.addr events) }
  else x

inductive Action (σ : Type*)
  /-- An event is created at the address, in memory that has been cleared. -/
  | new (p : ProactorPtr)
  /-- Client code and completions change the state of the proactors. -/
  | client (s : σ)
  | modify (fd : BitVec 32) (p : ProactorPtr) (events : Mask) (memory : Bool)
  /-- A descriptor is closed, which ends its registration. -/
  | close (fd : BitVec 32)
  /-- `epoll_poller_notify`, on any thread. -/
  | notify
  /-- `epoll_wait` returns entries. -/
  | epollWait (ready : List ReadyItem)
  /-- The body of the loop in `epoll_poller_poll`. -/
  | entry
  | pollReturn

section Step

variable (reactorCb : σ → BitVec 64 → Dir → σ × Option κ) (maxEvents : ℕ) (notifyfd : BitVec 32)

/-- The body of the loop in `epoll_poller_poll`; `read` blocks as long as the count is zero. -/
def pollEntry (x : EpollSet σ κ) (served todo : List ReadyItem) (r : ReadyItem)
    (y : Dispatched (ProactorState σ) (BitVec 64) κ) : Option (EpollSet σ κ) :=
  if r.item.data.fd = notifyfd then
    if 0 < x.counter then some { x with counter := 0, pc := .loop (served ++ [r]) todo y }
    else none
  else
    let e : EpollEvent (BitVec 64) := ⟨.proactor r.item.data.ptr, r.events⟩
    some { x with
      pc := .loop (served ++ [r]) todo (epollDispatchEntry (addressed reactorCb) maxEvents y e) }

/-- `epoll_wait` may return these entries: they are registered, no descriptor is there twice, and
the eventfd only when it is readable. -/
def Reports (x : EpollSet σ κ) (ready : List ReadyItem) : Prop :=
  (ready.map ReadyItem.fd).Nodup ∧
    ∀ r ∈ ready, x.items r.fd = some r.item ∧ (r.fd = notifyfd → 0 < x.counter)

instance (x : EpollSet σ κ) (ready : List ReadyItem) : Decidable (x.Reports notifyfd ready) :=
  inferInstanceAs (Decidable (_ ∧ _))

def step (x : EpollSet σ κ) (a : Action σ) : Option (EpollSet σ κ) :=
  match a, x.pc with
  | .new p, .idle =>
    some { x with state := (x.state.1, Function.update x.state.2 p.addr .empty) }
  | .client s, .idle => some { x with state := (s, x.state.2) }
  | .modify fd p events memory, .idle =>
    if fd ≠ notifyfd then some (x.epollPollerModify fd p events memory) else none
  | .close fd, .idle =>
    if fd ≠ notifyfd then some { x with items := Function.update x.items fd none } else none
  | .notify, _ => if x.counter < eventfdMax then some { x with counter := x.counter + 1 } else none
  | .epollWait ready, .idle =>
    if x.Reports notifyfd ready then some { x with pc := .loop [] ready ⟨x.state, [], []⟩ }
    else none
  | .entry, .loop served (r :: todo) y =>
    x.pollEntry reactorCb maxEvents notifyfd served todo r y
  | .pollReturn, .loop _ [] y => some { x with state := y.state, pc := .idle }
  | _, _ => none

end Step

/-- No proactor is registered whose address ends in the number of the eventfd. -/
def Apart (notifyfd : BitVec 32) (_ : EpollSet σ κ) : Action σ → Prop
  | .modify _ p _ _ => (EpollDataT.ofPtr p).fd ≠ notifyfd
  | _ => True

instance (notifyfd : BitVec 32) (x : EpollSet σ κ) :
    (a : Action σ) → Decidable (Apart notifyfd x a)
  | .modify _ p _ _ => inferInstanceAs (Decidable ((EpollDataT.ofPtr p).fd ≠ notifyfd))
  | .new _ | .client _ | .close _ | .notify | .epollWait _ | .entry | .pollReturn =>
    inferInstanceAs (Decidable True)

/-- An eventfd number that is not a multiple of 16 is not met by any address. -/
theorem apart_of_not_dvd {notifyfd : BitVec 32} (h : ¬16 ∣ notifyfd.toNat) (x : EpollSet σ κ)
    (a : Action σ) : Apart notifyfd x a := by
  cases a with
  | modify fd p events memory =>
    intro heq
    exact h (heq ▸ p.dvd_fd)
  | _ => exact trivial

/-! ## Attribution -/

end EpollSet

/-- The registration of the descriptor `fd` can be told from what it is not. -/
inductive EpollItem.Sound (notifyfd : BitVec 32) : BitVec 32 → EpollItem → Prop
  | notify (rest : BitVec 32) : Sound notifyfd notifyfd ⟨.notifyfd, .ofFd rest notifyfd⟩
  | proactor {fd : BitVec 32} {p : ProactorPtr} (hfd : fd ≠ notifyfd)
      (hp : (EpollDataT.ofPtr p).fd ≠ notifyfd) : Sound notifyfd fd ⟨.proactor p, .ofPtr p⟩

theorem EpollItem.Sound.classified {notifyfd fd : BitVec 32} {e : EpollItem}
    (h : e.Sound notifyfd fd) : e.data.fd = notifyfd ↔ e.owner = .notifyfd := by
  cases h with
  | notify rest => simp
  | proactor hfd hp => simp [hp]

theorem EpollItem.Sound.fd_eq {notifyfd fd : BitVec 32} {e : EpollItem}
    (h : e.Sound notifyfd fd) (hdata : e.data.fd = notifyfd) : fd = notifyfd := by
  cases h with
  | notify rest => rfl
  | proactor hfd hp => exact absurd hdata hp

/-- What is not taken for the eventfd is the proactor that the address belongs to. -/
theorem EpollItem.Sound.owner_eq {notifyfd fd : BitVec 32} {e : EpollItem}
    (h : e.Sound notifyfd fd) (hdata : e.data.fd ≠ notifyfd) :
    ∃ p : ProactorPtr, e.owner = .proactor p ∧ e.data.ptr = p.addr := by
  cases h with
  | notify rest => exact absurd (EpollDataT.fd_ofFd rest notifyfd) hdata
  | @proactor fd p hfd hp => exact ⟨p, rfl, rfl⟩

namespace EpollSet

variable {σ κ : Type*} {reactorCb : σ → BitVec 64 → Dir → σ × Option κ} {maxEvents : ℕ}
  {notifyfd : BitVec 32} {x y : EpollSet σ κ}

/-- What the loop over the entries has done and will find. -/
structure LoopSound (reactorCb : σ → BitVec 64 → Dir → σ × Option κ) (maxEvents : ℕ)
    (notifyfd : BitVec 32) (x : EpollSet σ κ) (served todo : List ReadyItem)
    (d : Dispatched (ProactorState σ) (BitVec 64) κ) : Prop where
  sound : ∀ r ∈ served ++ todo, r.item.Sound notifyfd r.fd
  nodup : (todo.map ReadyItem.fd).Nodup
  readable : ∀ r ∈ todo, r.fd = notifyfd → 0 < x.counter
  done : d = epollDispatch (addressed reactorCb) maxEvents ⟨x.state, [], []⟩
    (served.map ReadyItem.event)

/-- The invariant of the runs in which addresses and eventfd are apart. -/
structure Attributed (reactorCb : σ → BitVec 64 → Dir → σ × Option κ) (maxEvents : ℕ)
    (notifyfd : BitVec 32) (x : EpollSet σ κ) : Prop where
  items : ∀ fd e, x.items fd = some e → e.Sound notifyfd fd
  loop : ∀ served todo d, x.pc = .loop served todo d →
    LoopSound reactorCb maxEvents notifyfd x served todo d

theorem attributed_create (notifyfd rest : BitVec 32) (state : ProactorState σ) :
    Attributed reactorCb maxEvents notifyfd (create notifyfd rest state : EpollSet σ κ) where
  items := by
    intro fd e h
    dsimp only [create] at h
    by_cases hfd : fd = notifyfd
    · subst hfd
      rw [Function.update_self] at h
      cases h
      exact .notify rest
    · rw [Function.update_of_ne hfd] at h
      cases h
  loop _ _ _ h := by cases h

theorem epollCtl_items {items items' : BitVec 32 → Option EpollItem} {op : EpollOp}
    {fd fd' : BitVec 32} {item e : EpollItem} (h : epollCtl items op fd item = some items')
    (he : items' fd' = some e) : items fd' = some e ∨ (fd' = fd ∧ e = item) := by
  by_cases hfd : fd' = fd
  · subst hfd
    unfold epollCtl at h
    split at h
    all_goals cases h
    all_goals rw [Function.update_self] at he
    all_goals cases he
    all_goals exact Or.inr ⟨rfl, rfl⟩
  · left
    unfold epollCtl at h
    split at h
    all_goals cases h
    all_goals rwa [Function.update_of_ne hfd] at he

theorem epollPollerModify_items {fd fd' : BitVec 32} {p : ProactorPtr} {events : Mask}
    {memory : Bool} {e : EpollItem}
    (he : (x.epollPollerModify fd p events memory).items fd' = some e) :
    x.items fd' = some e ∨ (fd' = fd ∧ e = ⟨.proactor p, .ofPtr p⟩) := by
  unfold epollPollerModify at he
  dsimp only at he
  split_ifs at he with hsame hmemory
  · exact Or.inl he
  · split at he
    · exact Or.inl he
    · next items hctl => exact epollCtl_items hctl he
  · exact Or.inl he

theorem epollPollerModify_pc (fd : BitVec 32) (p : ProactorPtr) (events : Mask) (memory : Bool) :
    (x.epollPollerModify fd p events memory).pc = x.pc := by
  unfold epollPollerModify
  dsimp only
  split_ifs with hsame hmemory
  · rfl
  · split <;> rfl
  · rfl

/-- The body of the loop does what it should for the owner of the entry, and does not block. -/
theorem LoopSound.pollEntry {served todo : List ReadyItem} {r : ReadyItem}
    {d : Dispatched (ProactorState σ) (BitVec 64) κ}
    (h : LoopSound reactorCb maxEvents notifyfd x served (r :: todo) d) :
    ∃ y d', x.pollEntry reactorCb maxEvents notifyfd served todo r d = some y ∧
      y.items = x.items ∧ y.pc = .loop (served ++ [r]) todo d' ∧
      LoopSound reactorCb maxEvents notifyfd y (served ++ [r]) todo d' := by
  obtain ⟨hfd, hnodup⟩ := List.nodup_cons.mp h.nodup
  have hr : r.item.Sound notifyfd r.fd :=
    h.sound r (List.mem_append_right _ List.mem_cons_self)
  have hsound : ∀ r' ∈ (served ++ [r]) ++ todo, r'.item.Sound notifyfd r'.fd := by
    intro r' hr'
    refine h.sound r' ?_
    simpa using hr'
  have hdispatch : epollDispatch (addressed reactorCb) maxEvents ⟨x.state, [], []⟩
      ((served ++ [r]).map ReadyItem.event) =
        epollDispatchEntry (addressed reactorCb) maxEvents d r.event := by
    rw [h.done, List.map_append, epollDispatch, List.foldl_append]
    rfl
  unfold EpollSet.pollEntry
  split_ifs with hdata hcounter
  · -- the eventfd is read; it does not come a second time
    have howner := hr.classified.mp hdata
    refine ⟨_, d, rfl, rfl, rfl, hsound, hnodup, fun r' hr' hnotify ↦ ?_, ?_⟩
    · have heq : r'.fd = r.fd := hnotify.trans (hr.fd_eq hdata).symm
      exact absurd (List.mem_map.mpr ⟨r', hr', heq⟩) hfd
    · dsimp only
      rw [hdispatch, ReadyItem.event, howner]
      rfl
  · -- the eventfd would not have been reported
    exact absurd (h.readable r List.mem_cons_self (hr.fd_eq hdata)) hcounter
  · -- a proactor is served
    obtain ⟨p, howner, hptr⟩ := hr.owner_eq hdata
    refine ⟨_, _, rfl, rfl, rfl, hsound, hnodup, fun r' hr' ↦ ?_, ?_⟩
    · exact h.readable r' (List.mem_cons_of_mem _ hr')
    · dsimp only
      rw [hdispatch, ReadyItem.event, howner, hptr]

theorem Attributed.step {a : Action σ} (h : Attributed reactorCb maxEvents notifyfd x)
    (ha : Apart notifyfd x a) (hstep : step reactorCb maxEvents notifyfd x a = some y) :
    Attributed reactorCb maxEvents notifyfd y := by
  unfold EpollSet.step at hstep
  split at hstep
  · next hpc =>
    cases hstep
    exact ⟨h.items, fun _ _ _ hloop ↦ by cases hpc.symm.trans hloop⟩
  · next hpc =>
    cases hstep
    exact ⟨h.items, fun _ _ _ hloop ↦ by cases hpc.symm.trans hloop⟩
  · -- `epoll_poller_modify`
    next fd p events memory hpc =>
    obtain ⟨hfd, rfl⟩ := of_guard hstep
    refine ⟨fun fd' e he ↦ ?_, fun _ _ _ hloop ↦ ?_⟩
    · rcases epollPollerModify_items he with hold | ⟨rfl, rfl⟩
      · exact h.items fd' e hold
      · exact .proactor hfd ha
    · rw [epollPollerModify_pc] at hloop
      cases hpc.symm.trans hloop
  · next fd hpc =>
    obtain ⟨hfd, rfl⟩ := of_guard hstep
    refine ⟨fun fd' e he ↦ ?_, fun _ _ _ hloop ↦ by cases hpc.symm.trans hloop⟩
    dsimp only at he
    by_cases heq : fd' = fd
    · rw [heq, Function.update_self] at he
      cases he
    · rw [Function.update_of_ne heq] at he
      exact h.items fd' e he
  · -- a notification makes the eventfd readable
    obtain ⟨-, rfl⟩ := of_guard hstep
    refine ⟨h.items, fun served todo d hloop ↦ ?_⟩
    obtain ⟨hsound, hnodup, -, hdone⟩ := h.loop served todo d hloop
    exact ⟨hsound, hnodup, fun _ _ _ ↦ Nat.succ_pos _, hdone⟩
  · -- `epoll_wait` returns registrations
    next ready hpc =>
    obtain ⟨⟨hnodup, hready⟩, rfl⟩ := of_guard hstep
    refine ⟨h.items, fun served todo d hloop ↦ ?_⟩
    cases hloop
    exact ⟨fun r hr ↦ h.items _ _ (hready r hr).1, hnodup, fun r hr ↦ (hready r hr).2, rfl⟩
  · next served r todo d hpc =>
    obtain ⟨z, d', hz, hitems, hpc', hsound⟩ := (h.loop _ _ _ hpc).pollEntry
    rw [hz] at hstep
    cases hstep
    refine ⟨fun fd e he ↦ h.items fd e (hitems ▸ he), fun _ _ _ hloop ↦ ?_⟩
    cases hpc'.symm.trans hloop
    exact hsound
  · cases hstep
    exact ⟨h.items, fun _ _ _ hloop ↦ by cases hloop⟩
  · cases hstep

theorem attributed_of_reachable {rest : BitVec 32} {state : ProactorState σ}
    (h : Reachable (step reactorCb maxEvents notifyfd) (Apart notifyfd)
      (create notifyfd rest state) x) :
    Attributed reactorCb maxEvents notifyfd x :=
  h.invariant (attributed_create notifyfd rest state) fun _ _ _ hx ha hstep ↦ hx.step ha hstep

/-- Whatever the addresses are, if the number of the eventfd is not a multiple of 16. -/
theorem attributed_of_not_dvd {rest : BitVec 32} {state : ProactorState σ}
    (hfd : ¬16 ∣ notifyfd.toNat)
    (h : Reachable (step reactorCb maxEvents notifyfd) anyStep (create notifyfd rest state) x) :
    Attributed reactorCb maxEvents notifyfd x := by
  obtain ⟨as, hrun⟩ := h
  exact attributed_of_reachable ⟨as, hrun.mono fun y a _ ↦ apart_of_not_dvd hfd y a⟩

/-- **Entries are attributed to their registration**, if no proactor is registered whose address
ends in the number of the eventfd. At every point of the loop over the entries of a poll, an entry
is taken for the notification if and only if it was registered for the eventfd, and then the eventfd
is readable, so the loop does not block; and what has been done for the entries served is what
their owners asked for: the `reactor_cb` of each proactor has been called, unless there is no more
room for its result. -/
theorem entries_attributed {rest : BitVec 32} {state : ProactorState σ}
    {served todo : List ReadyItem} {d : Dispatched (ProactorState σ) (BitVec 64) κ}
    (h : Reachable (step reactorCb maxEvents notifyfd) (Apart notifyfd)
      (create notifyfd rest state) x)
    (hpc : x.pc = .loop served todo d) :
    (∀ r ∈ served ++ todo, r.item.data.fd = notifyfd ↔ r.item.owner = .notifyfd) ∧
      (∀ r ∈ todo, r.item.data.fd = notifyfd → 0 < x.counter) ∧
      (todo ≠ [] → (step reactorCb maxEvents notifyfd x .entry).isSome = true) ∧
      d = epollDispatch (addressed reactorCb) maxEvents ⟨x.state, [], []⟩
        (served.map ReadyItem.event) ∧
      ∀ r ∈ served, ∀ p, r.item.owner = .proactor p →
        ∀ dir ∈ r.events.directions (x.state.2 p.addr),
          (p.addr, dir) ∈ d.offered ∨ maxEvents ≤ d.events.length := by
  have hloop := (attributed_of_reachable h).loop served todo d hpc
  refine ⟨fun r hr ↦ (hloop.sound r hr).classified, fun r hr hdata ↦ ?_, fun htodo ↦ ?_,
    hloop.done, fun r hr p howner dir hdir ↦ ?_⟩
  · have hfd := (hloop.sound r (List.mem_append_right _ hr)).fd_eq hdata
    exact hloop.readable r hr hfd
  · obtain ⟨r, todo, rfl⟩ := List.exists_cons_of_ne_nil htodo
    obtain ⟨y, -, hy, -⟩ := hloop.pollEntry
    simp only [step, hpc, hy, Option.isSome_some]
  · have hmem : r.event ∈ served.map ReadyItem.event := List.mem_map_of_mem hr
    have hevent : r.event = ⟨.proactor p.addr, r.events⟩ := by rw [ReadyItem.event, howner]
    rw [hloop.done]
    rw [hevent] at hmem
    exact epollDispatch_offers _ hmem rfl hdir

/-! ## An address that ends in the number of the eventfd -/

/-- The entry of a proactor with such an address is always taken for the notification: the eventfd
is read, which blocks as long as its count is zero, and the proactor is not called. -/
theorem step_entry_of_fd_eq {served todo : List ReadyItem} {r : ReadyItem} {p : ProactorPtr}
    {d : Dispatched (ProactorState σ) (BitVec 64) κ} (hpc : x.pc = .loop served (r :: todo) d)
    (hitem : r.item = ⟨.proactor p, .ofPtr p⟩) (hfd : (EpollDataT.ofPtr p).fd = notifyfd) :
    step reactorCb maxEvents notifyfd x .entry =
      if 0 < x.counter then some { x with counter := 0, pc := .loop (served ++ [r]) todo d }
      else none := by
  have hdata : r.item.data.fd = notifyfd := by rw [hitem, hfd]
  simp only [step, hpc]
  exact if_pos hdata

/-- An address that is aligned, and whose low half is 16. -/
def collidingPtr : ProactorPtr := ⟨0x7f0000000010#64, by decide⟩

/-- The registration of the proactor at this address, reported as readable. -/
def collidingReady : ReadyItem :=
  ⟨7, ⟨.proactor collidingPtr, .ofPtr collidingPtr⟩, ⟨true, false, false, false⟩⟩

/-- A `reactor_cb` that completes the context it is called for. -/
def completeCb (s : Unit) (_ : BitVec 64) (d : Dir) : Unit × Option Dir := (s, some d)

/-- The poller with the eventfd 4 serves this proactor and reads the eventfd. -/
theorem entries_attributed_apart :
    ∃ (x : EpollSet Unit Dir) (served todo : List ReadyItem)
      (d : Dispatched (ProactorState Unit) (BitVec 64) Dir),
      x.pc = .loop served todo d ∧ collidingReady ∈ served ∧
        d.offered = [(collidingPtr.addr, .read)] ∧
        (∀ r ∈ served ++ todo, r.item.data.fd = 4 ↔ r.item.owner = .notifyfd) := by
  have hrun : (exec (step completeCb 256 4) (Apart 4) (create 4 0 ((), fun _ ↦ .empty))
      [.new collidingPtr, .modify 7 collidingPtr .evRead true, .notify,
        .epollWait [⟨4, ⟨.notifyfd, .ofFd 0 4⟩, ⟨true, false, false, false⟩⟩, collidingReady],
        .entry, .entry]).map (fun x ↦
          match x.pc with
          | .loop served _ d => some (decide (collidingReady ∈ served), d.offered)
          | .idle => none) = some (some (true, [(collidingPtr.addr, .read)])) := by decide +kernel
  obtain ⟨x, hexec, hx⟩ := Option.map_eq_some_iff.mp hrun
  split at hx
  · next served todo d hpc =>
    simp only [Option.some.injEq, Prod.mk.injEq, decide_eq_true_eq] at hx
    exact ⟨x, served, todo, d, hpc, hx.1, hx.2,
      (entries_attributed (Reachable.of_exec hexec) hpc).1⟩
  · cases hx

/-- With the eventfd 16, the entry of this proactor is taken for a notification. Nobody has written
to the eventfd, so the loop blocks in `read`; when somebody does, the loop goes on without having
called the proactor, and the notification is gone. -/
theorem exists_entry_misattributed :
    ∃ x : EpollSet Unit Dir,
      Reachable (step completeCb 256 16) anyStep (create 16 0 ((), fun _ ↦ .empty)) x ∧
        x.counter = 0 ∧ x.pc = .loop [] [collidingReady] ⟨x.state, [], []⟩ ∧
        collidingReady.item.owner = .proactor collidingPtr ∧
        collidingReady.item.data.fd = 16 ∧
        step completeCb 256 16 x .entry = none ∧
        ∃ y, exec (step completeCb 256 16) anyStep x [.notify, .entry] = some y ∧
          y.counter = 0 ∧ y.pc = .loop [collidingReady] [] ⟨x.state, [], []⟩ := by
  let x : EpollSet Unit Dir :=
    { items := Function.update (Function.update (fun _ ↦ none) 16
        (some ⟨.notifyfd, .ofFd 0 16⟩)) 7 (some collidingReady.item)
      counter := 0
      state := ((), Function.update (Function.update (fun _ ↦ .empty) collidingPtr.addr .empty)
        collidingPtr.addr .evRead)
      pc := .loop [] [collidingReady] ⟨((), Function.update
        (Function.update (fun _ ↦ .empty) collidingPtr.addr .empty) collidingPtr.addr .evRead),
        [], []⟩ }
  have hrun : exec (step completeCb 256 16) anyStep (create 16 0 ((), fun _ ↦ .empty))
      [.new collidingPtr, .modify 7 collidingPtr .evRead true, .epollWait [collidingReady]] =
        some x := by rfl
  have hblocks : step completeCb 256 16 x .entry = none := by
    rw [step_entry_of_fd_eq (x := x) (r := collidingReady) (p := collidingPtr) rfl rfl (by decide)]
    exact if_neg (Nat.lt_irrefl 0)
  exact ⟨x, Reachable.of_exec hrun, rfl, rfl, rfl, rfl, hblocks, _, rfl, rfl, rfl⟩

end EpollSet

end Nanoev
