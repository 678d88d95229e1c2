import Nanoev.Threads.Break

/-!
# The completion port of a loop

The poller of the Windows build is a queue of the system. The system puts a packet there for every
overlapped operation that is complete, and `nanoev_loop_break` one with the key `poller_break_key`.
`iocp_poller_poll` takes packets from its front, as many as fit when the system has
`GetQueuedCompletionStatusEx` and one at a time otherwise, and leaves out those with that key.

Both kinds of packets go through the same queue. What is proved here is about both: the completions
reach the proactors in the order in which they were posted, none is lost or delivered twice, and the
packets of `nanoev_loop_break` are never handed to a proactor; and a break is not lost, because a
loop that is about to wait although `is_break` is set finds a packet in the queue
(`portKept_of_reachable`).
-/

namespace Nanoev

open Transition

namespace Iocp

/-- `OVERLAPPED_ENTRY`: the completion of an operation, or a packet of `iocp_poller_notify`. -/
inductive Packet (α : Type*)
  | io (event : α)
  /-- The key is `poller_break_key`. -/
  | wake
deriving DecidableEq, Repr

namespace Packet

variable {α : Type*}

def event? : Packet α → Option α
  | .io event => some event
  | .wake => none

def isWake : Packet α → Bool
  | .io _ => false
  | .wake => true

end Packet

/-- The body of the loop in `iocp_poller_poll`. -/
def pollEntry {α : Type*} (events : List α) : Packet α → List α
  | .io event => events ++ [event]
  | .wake => events

/-- The loop in `iocp_poller_poll`, over the packets that the system has returned. -/
def iocpPollerPoll {α : Type*} (overlappeds : List (Packet α)) : List α :=
  overlappeds.foldl pollEntry []

/-- How many packets a call asks for; `ex` is whether there is `GetQueuedCompletionStatusEx`. -/
def pollCount (ex : Bool) : ℕ := if ex then 256 else 1

/-- Where `nanoev_loop_run` is. -/
inductive PortPc
  /-- The loop does not run. -/
  | idle
  /-- Before `is_break` is reset. -/
  | entering
  /-- In a round, up to the return of `iocp_poller_poll`. -/
  | polling
  /-- Up to the test of `is_break`; `woken` is whether a packet of `iocp_poller_notify` was taken in
  this round. -/
  | dispatching (woken : Bool)
deriving DecidableEq, Repr

/-- The run has reset `is_break` and has not left its loop. -/
def PortPc.inRun : PortPc → Bool
  | idle | entering => false
  | polling | dispatching _ => true

/-- A loop, its completion port, and the threads that break it. -/
structure PortLoop (α : Type*) where
  isBreak : Bool
  holder : Option BreakHolder
  port : List (Packet α)
  pc : PortPc
  /-- The rest of the array `events` of `nanoev_loop_run`. -/
  events : List α
  /-- The completions that the system has posted. -/
  posted : List α
  /-- The completions that proactors have been called with. -/
  delivered : List α
deriving DecidableEq, Repr

namespace PortLoop

variable {α : Type*}

def init : PortLoop α := ⟨false, none, [], .idle, [], [], []⟩

inductive Action (α : Type*)
  /-- The system completes an operation. -/
  | complete (event : α)
  /-- A thread acquires the lock in `nanoev_loop_break`. -/
  | breakLock (thread : ℕ)
  /-- The thread goes on; `posted` is whether `PostQueuedCompletionStatus` succeeds. -/
  | breakStep (thread : ℕ) (posted : Bool)
  /-- `nanoev_loop_run` is called. -/
  | run
  | resetLock
  | reset
  /-- The system returns `count` packets. -/
  | dequeue (count : ℕ)
  /-- The time is over. -/
  | waitEnds
  /-- The poll fails, and the run ends. -/
  | pollFails
  /-- The first completion of the batch is handed to its proactor. -/
  | dispatch
  | checkLock
  /-- `is_break` is tested. -/
  | check
deriving DecidableEq, Repr

/-- A thread that holds the lock goes on in `nanoev_loop_break`. -/
def breakStep (x : PortLoop α) (thread : ℕ) (posted : Bool) : BreakPc → PortLoop α
  | .test =>
    if x.isBreak then { x with holder := some (.breaker thread .unlock) }
    else { x with isBreak := true, holder := some (.breaker thread .notify) }
  | .notify =>
    { x with
      port := if posted then x.port ++ [.wake] else x.port
      holder := some (.breaker thread .unlock) }
  | .unlock => { x with holder := none }

def step (ex : Bool) (x : PortLoop α) : Action α → Option (PortLoop α)
  | .complete event =>
    some { x with port := x.port ++ [.io event], posted := x.posted ++ [event] }
  | .breakLock k =>
    if x.holder = none then some { x with holder := some (.breaker k .test) } else none
  | .breakStep k posted =>
    match x.holder with
    | some (.breaker thread pc) => if thread = k then some (x.breakStep k posted pc) else none
    | _ => none
  | .run => if x.pc = .idle then some { x with pc := .entering } else none
  | .resetLock =>
    if x.pc = .entering ∧ x.holder = none then some { x with holder := some .loop } else none
  | .reset =>
    if x.pc = .entering ∧ x.holder = some .loop then
      some { x with isBreak := false, holder := none, pc := .polling }
    else none
  | .dequeue count =>
    if x.pc = .polling ∧ 0 < count ∧ count ≤ pollCount ex ∧ count ≤ x.port.length then
      some { x with
        port := x.port.drop count
        pc := .dispatching ((x.port.take count).any Packet.isWake)
        events := iocpPollerPoll (x.port.take count) }
    else none
  | .waitEnds =>
    if x.pc = .polling then some { x with pc := .dispatching false } else none
  | .pollFails => if x.pc = .polling then some { x with pc := .idle } else none
  | .dispatch =>
    match x.pc, x.events with
    | .dispatching _, event :: rest =>
      some { x with events := rest, delivered := x.delivered ++ [event] }
    | _, _ => none
  | .checkLock =>
    match x.pc, x.events with
    | .dispatching _, [] => if x.holder = none then some { x with holder := some .loop } else none
    | _, _ => none
  | .check =>
    match x.pc with
    | .dispatching _ =>
      if x.holder = some .loop then
        some { x with holder := none, pc := if x.isBreak then .idle else .polling }
      else none
    | _ => none

/-- `PostQueuedCompletionStatus` succeeds. -/
def posts (_ : PortLoop α) : Action α → Prop
  | .breakStep _ posted => posted = true
  | _ => True

instance (x : PortLoop α) : ∀ a, Decidable (x.posts a)
  | .breakStep _ posted => inferInstanceAs (Decidable (posted = true))
  | .complete _ | .breakLock _ | .run | .resetLock | .reset | .dequeue _ | .waitEnds | .pollFails
  | .dispatch | .checkLock | .check => instDecidableTrue

end PortLoop

/-! ## The packets of a poll -/

section Poll

variable {α : Type*}

theorem iocpPollerPoll_eq (overlappeds : List (Packet α)) :
    iocpPollerPoll overlappeds = overlappeds.filterMap Packet.event? := by
  have hfold : ∀ events, overlappeds.foldl pollEntry events =
      events ++ overlappeds.filterMap Packet.event? := by
    induction overlappeds with
    | nil => exact fun events ↦ (List.append_nil events).symm
    | cons p rest ih =>
      intro events
      rw [List.foldl_cons, ih]
      cases p with
      | io event => rw [pollEntry, List.append_assoc]; rfl
      | wake => rfl
  exact (hfold []).trans (List.nil_append _)

end Poll

namespace PortLoop

variable {α : Type*} {ex : Bool} {x y : PortLoop α} {a : Action α}

/-! ## The steps -/

inductive Steps (ex : Bool) (x : PortLoop α) : Action α → PortLoop α → Prop
  | complete {event} :
    Steps ex x (.complete event)
      { x with port := x.port ++ [.io event], posted := x.posted ++ [event] }
  | breakLock {k} (hfree : x.holder = none) :
    Steps ex x (.breakLock k) { x with holder := some (.breaker k .test) }
  | breakStep {k posted pc} (hheld : x.holder = some (.breaker k pc)) :
    Steps ex x (.breakStep k posted) (x.breakStep k posted pc)
  | run (hpc : x.pc = .idle) : Steps ex x .run { x with pc := .entering }
  | resetLock (hpc : x.pc = .entering) (hfree : x.holder = none) :
    Steps ex x .resetLock { x with holder := some .loop }
  | reset (hpc : x.pc = .entering) (hheld : x.holder = some .loop) :
    Steps ex x .reset { x with isBreak := false, holder := none, pc := .polling }
  | dequeue {count} (hpc : x.pc = .polling) (hpos : 0 < count) (hcount : count ≤ pollCount ex)
      (hport : count ≤ x.port.length) :
    Steps ex x (.dequeue count) { x with
      port := x.port.drop count
      pc := .dispatching ((x.port.take count).any Packet.isWake)
      events := iocpPollerPoll (x.port.take count) }
  | waitEnds (hpc : x.pc = .polling) : Steps ex x .waitEnds { x with pc := .dispatching false }
  | pollFails (hpc : x.pc = .polling) : Steps ex x .pollFails { x with pc := .idle }
  | dispatch {woken event rest} (hpc : x.pc = .dispatching woken)
    (hevents : x.events = event :: rest) :
    Steps ex x .dispatch { x with events := rest, delivered := x.delivered ++ [event] }
  | checkLock {woken} (hpc : x.pc = .dispatching woken) (hevents : x.events = [])
      (hfree : x.holder = none) : Steps ex x .checkLock { x with holder := some .loop }
  | check {woken} (hpc : x.pc = .dispatching woken) (hheld : x.holder = some .loop) :
    Steps ex x .check { x with holder := none, pc := if x.isBreak then .idle else .polling }

theorem step_eq_some (h : x.step ex a = some y) : Steps ex x a y := by
  cases a with
  | complete event =>
    obtain rfl := Option.some.inj h
    exact .complete
  | breakLock k =>
    obtain ⟨hfree, rfl⟩ := of_guard h
    exact .breakLock hfree
  | breakStep k posted =>
    simp only [step] at h
    split at h
    · next thread pc hheld =>
      obtain ⟨rfl, rfl⟩ := of_guard h
      exact .breakStep hheld
    · cases h
  | run =>
    obtain ⟨hpc, rfl⟩ := of_guard h
    exact .run hpc
  | resetLock =>
    obtain ⟨⟨hpc, hfree⟩, rfl⟩ := of_guard h
    exact .resetLock hpc hfree
  | reset =>
    obtain ⟨⟨hpc, hheld⟩, rfl⟩ := of_guard h
    exact .reset hpc hheld
  | dequeue count =>
    obtain ⟨⟨hpc, hpos, hcount, hport⟩, rfl⟩ := of_guard h
    exact .dequeue hpc hpos hcount hport
  | waitEnds =>
    obtain ⟨hpc, rfl⟩ := of_guard h
    exact .waitEnds hpc
  | pollFails =>
    obtain ⟨hpc, rfl⟩ := of_guard h
    exact .pollFails hpc
  | dispatch =>
    simp only [step] at h
    split at h
    · next woken event rest hpc hevents =>
      obtain rfl := Option.some.inj h
      exact .dispatch hpc hevents
    · cases h
  | checkLock =>
    simp only [step] at h
    split at h
    · next woken hpc hevents =>
      obtain ⟨hfree, rfl⟩ := of_guard h
      exact .checkLock hpc hevents hfree
    · cases h
  | check =>
    simp only [step] at h
    split at h
    · next woken hpc =>
      obtain ⟨hheld, rfl⟩ := of_guard h
      exact .check hpc hheld
    · cases h

/-! ## The completions -/

structure Fifo (ex : Bool) (x : PortLoop α) : Prop where
  posted : x.posted = x.delivered ++ x.events ++ x.port.filterMap Packet.event?
  bounded : x.events.length ≤ pollCount ex
  batch : x.events ≠ [] → ∃ woken, x.pc = .dispatching woken
  locked : x.holder = some .loop → x.events = [] ∧ x.pc ≠ .polling

theorem init_fifo : (init : PortLoop α).Fifo ex :=
    ⟨rfl, Nat.zero_le _, by simp [init], by simp [init]⟩

namespace Fifo

theorem events_eq_nil (h : x.Fifo ex) (hpc : ∀ woken, x.pc ≠ .dispatching woken) : x.events =
    [] := by
  by_contra hne
  obtain ⟨woken, hw⟩ := h.batch hne
  exact hpc woken hw

theorem congr {isBreak : Bool} {holder : Option BreakHolder} {pc : PortPc} (h : x.Fifo ex)
    (hpc : x.events = [] ∨ pc = x.pc)
    (hholder : holder = some .loop → x.events = [] ∧ pc ≠ .polling) :
    Fifo ex { x with isBreak := isBreak, holder := holder, pc := pc } := by
  refine ⟨h.posted, h.bounded, fun hne ↦ ?_, hholder⟩
  rcases hpc with hnil | rfl
  · exact absurd hnil hne
  · exact h.batch hne

end Fifo

theorem Steps.inOrder (hstep : Steps ex x a y) (h : x.Fifo ex) : y.Fifo ex := by
  cases hstep with
  | @complete event =>
    refine ⟨?_, h.bounded, h.batch, h.locked⟩
    dsimp only
    rw [h.posted, List.filterMap_append, List.append_assoc]
    rfl
  | breakLock hfree => exact h.congr (.inr rfl) (by simp)
  | @breakStep k posted pc hheld =>
    cases pc with
    | test =>
      rw [PortLoop.breakStep]
      split
      · exact h.congr (.inr rfl) (by simp)
      · exact h.congr (.inr rfl) (by simp)
    | notify =>
      refine ⟨?_, h.bounded, h.batch, by simp [PortLoop.breakStep]⟩
      cases posted with
      | false => exact h.posted
      | true =>
        show x.posted = _ ++ (x.port ++ [Packet.wake]).filterMap Packet.event?
        rw [List.filterMap_append, h.posted]
        exact congrArg _ (List.append_nil _).symm
    | unlock => exact h.congr (.inr rfl) (by simp)
  | run hpc | waitEnds hpc | pollFails hpc =>
    exact h.congr (.inl (h.events_eq_nil (by simp [hpc]))) fun hheld ↦ ⟨(h.locked hheld).1, by simp⟩
  | resetLock hpc =>
    exact h.congr (.inr rfl) fun _ ↦ ⟨h.events_eq_nil (by simp [hpc]), by simp [hpc]⟩
  | reset hpc => exact h.congr (.inl (h.events_eq_nil (by simp [hpc]))) (by simp)
  | @dequeue count hpc hpos hcount hport =>
    have hnil := h.events_eq_nil (by simp [hpc])
    refine ⟨?_, ?_, fun _ ↦ ⟨_, rfl⟩, fun hheld ↦ ?_⟩
    · dsimp only
      rw [h.posted, hnil, List.append_nil, iocpPollerPoll_eq, List.append_assoc,
        ← List.filterMap_append, List.take_append_drop]
    · dsimp only
      rw [iocpPollerPoll_eq]
      exact ((List.length_filterMap_le ..).trans (List.length_take_le ..)).trans hcount
    · exact absurd hpc (h.locked hheld).2
  | @dispatch woken event rest hpc hevents =>
    refine ⟨?_, ?_, fun _ ↦ ⟨woken, hpc⟩, fun hheld ↦ ?_⟩
    · dsimp only
      rw [h.posted, hevents, List.append_assoc, List.append_assoc, List.append_assoc]
      rfl
    · have hbounded := h.bounded
      rw [hevents, List.length_cons] at hbounded
      dsimp only
      omega
    · exact absurd (h.locked hheld).1 (by simp [hevents])
  | checkLock hpc hevents => exact h.congr (.inr rfl) fun _ ↦ ⟨hevents, by simp [hpc]⟩
  | check hpc hheld => exact h.congr (.inl (h.locked hheld).1) (by simp)

/-! ## A break is not lost -/

/-- While `is_break` is set and the run goes on, there is a packet for it in the port, or one has
been taken in this round, unless the thread that has set `is_break` is about to post it. -/
def Wakeup (x : PortLoop α) : Prop :=
  x.pc.inRun = true → x.isBreak = true →
    .wake ∈ x.port ∨ x.pc = .dispatching true ∨ ∃ k, x.holder = some (.breaker k .notify)

namespace Wakeup

theorem of_ne (h : x.Wakeup) (hne : ∀ k, x.holder ≠ some (.breaker k .notify))
    (hrun : x.pc.inRun = true) (hbreak : x.isBreak = true) :
    .wake ∈ x.port ∨ x.pc = .dispatching true := by
  rcases h hrun hbreak with hport | hpc | ⟨k, hk⟩
  · exact .inl hport
  · exact .inr hpc
  · exact absurd hk (hne k)

theorem relock {holder : Option BreakHolder} (h : x.Wakeup)
    (hne : ∀ k, x.holder ≠ some (.breaker k .notify)) : Wakeup { x with holder := holder } :=
  fun hrun hbreak ↦ (h.of_ne hne hrun hbreak).imp_right .inl

theorem breakStep {k : ℕ} {pc : BreakPc} (h : x.Wakeup) (hheld : x.holder = some (.breaker k pc)) :
    (x.breakStep k true pc).Wakeup := by
  cases pc with
  | test =>
    rw [PortLoop.breakStep]
    split
    · exact h.relock (by simp [hheld])
    · exact fun _ _ ↦ .inr (.inr ⟨k, rfl⟩)
  | notify => exact fun _ _ ↦ .inl (List.mem_append_right _ (List.mem_singleton_self _))
  | unlock => exact h.relock (by simp [hheld])

/-- Packets are taken: the one for the break stays in the port, or this round knows of it. -/
theorem dequeue {count : ℕ} {events : List α} (h : x.Wakeup) (hpc : x.pc = .polling) :
    Wakeup { x with
      port := x.port.drop count
      pc := .dispatching ((x.port.take count).any Packet.isWake)
      events := events } := by
  intro _ hbreak
  rcases h (by rw [hpc]; rfl) hbreak with hport | hwoken | hheld
  · rw [← List.take_append_drop count x.port, List.mem_append] at hport
    rcases hport with htaken | hleft
    · have hany : (x.port.take count).any Packet.isWake = true :=
        List.any_eq_true.mpr ⟨_, htaken, rfl⟩
      exact .inr (.inl (congrArg PortPc.dispatching hany))
    · exact .inl hleft
  · rw [hpc] at hwoken
    cases hwoken
  · exact .inr (.inr hheld)

end Wakeup

theorem Steps.wakeup (hstep : Steps ex x a y) (hposts : x.posts a) (h : x.Wakeup) : y.Wakeup := by
  cases hstep with
  | complete =>
    intro hrun hbreak
    exact (h hrun hbreak).imp_left (List.mem_append_left _)
  | breakLock hfree | resetLock _ hfree | checkLock _ _ hfree => exact h.relock (by simp [hfree])
  | breakStep hheld =>
    obtain rfl : _ = true := hposts
    exact h.breakStep hheld
  | run | pollFails => exact fun hrun ↦ Bool.noConfusion hrun
  | reset => exact fun _ hbreak ↦ absurd hbreak (by simp)
  | dequeue hpc => exact h.dequeue hpc
  | waitEnds hpc =>
    intro _ hbreak
    rcases h (by rw [hpc]; rfl) hbreak with hport | hwoken | hheld
    · exact .inl hport
    · rw [hpc] at hwoken
      cases hwoken
    · exact .inr (.inr hheld)
  | dispatch => exact h
  | check =>
    intro hrun hbreak
    rw [show x.isBreak = true from hbreak] at hrun
    cases hrun

theorem Steps.isBreak (hstep : Steps ex x a y) (hreset : a ≠ .reset) (h : x.isBreak = true) :
    y.isBreak = true := by
  cases hstep with
  | @breakStep k posted pc =>
    cases pc with
    | test =>
      rw [PortLoop.breakStep, if_pos h]
      exact h
    | notify | unlock => exact h
  | reset => exact absurd rfl hreset
  | _ => exact h

/-- A thread that has tested `is_break` in `nanoev_loop_break` has set it, or found it set. -/
def Marked (x : PortLoop α) : Prop :=
  ∀ k pc, x.holder = some (.breaker k pc) → pc ≠ .test → x.isBreak = true

theorem Steps.marked (hstep : Steps ex x a y) (h : x.Marked) : y.Marked := by
  cases hstep with
  | breakLock =>
    intro k pc hheld hpc
    obtain ⟨-, rfl⟩ := BreakHolder.breaker.inj (Option.some.inj hheld)
    exact absurd rfl hpc
  | @breakStep k posted pc hheld =>
    cases pc with
    | test =>
      rw [PortLoop.breakStep]
      split
      · next hset => exact fun _ _ _ _ ↦ hset
      · exact fun _ _ _ _ ↦ rfl
    | notify => exact fun _ _ _ _ ↦ h k .notify hheld (by simp)
    | unlock =>
      intro k pc hheld
      cases hheld
  | resetLock | reset | checkLock | check =>
    intro k pc hheld
    cases hheld
  | _ => exact h

/-- What holds at any time: the completions are where they belong, `nanoev_loop_break` sets
`is_break`, and a run that goes on although `is_break` is set does not wait for anything else,
unless a thread is about to post the packet, and ends with the next test. -/
structure PortKept (ex : Bool) (x : PortLoop α) : Prop where
  posted : x.posted = x.delivered ++ x.events ++ x.port.filterMap Packet.event?
  bounded : x.events.length ≤ pollCount ex
  marked : x.Marked
  wakeup : x.pc.inRun = true → x.isBreak = true →
    .wake ∈ x.port ∨ x.pc = .dispatching true ∨ ∃ k, x.holder = some (.breaker k .notify)
  returns : x.pc = .polling → (∀ k, x.holder ≠ some (.breaker k .notify)) → x.isBreak = true →
    (x.step ex (.dequeue 1)).isSome = true
  leaves : x.isBreak = true → ∀ as y z,
    Run (step ex) (fun _ a ↦ a ≠ .check ∧ a ≠ .reset) x as y → y.step ex .check = some z →
      z.pc = .idle

/-- **Completions and breaks go through the port without loss**, whatever the system, the threads
and the loop do, over any number of runs. -/
theorem portKept_of_reachable (h : Reachable (step ex) posts (init : PortLoop α) x) :
    x.PortKept ex := by
  have hinit : (init : PortLoop α).Marked := by
    intro k pc hheld
    cases hheld
  obtain ⟨hfifo, hmarked, hwakeup⟩ : x.Fifo ex ∧ x.Marked ∧ x.Wakeup := by
    refine h.invariant (I := fun x ↦ x.Fifo ex ∧ x.Marked ∧ x.Wakeup)
      ⟨init_fifo, hinit, fun hrun ↦ Bool.noConfusion hrun⟩ ?_
    rintro x a y ⟨hfifo, hmarked, hwakeup⟩ hposts hstep
    have hsteps := step_eq_some hstep
    exact ⟨hsteps.inOrder hfifo, hsteps.marked hmarked, hsteps.wakeup hposts hwakeup⟩
  refine ⟨hfifo.posted, hfifo.bounded, hmarked, hwakeup, fun hpc hidle hbreak ↦ ?_,
    fun hbreak as y z hrun hcheck ↦ ?_⟩
  · have hport : .wake ∈ x.port := by
      refine (hwakeup.of_ne hidle (by rw [hpc]; rfl) hbreak).resolve_right ?_
      simp [hpc]
    have hpos : 1 ≤ x.port.length := List.length_pos_iff.mpr (List.ne_nil_of_mem hport)
    have hcount : 1 ≤ pollCount ex := by cases ex <;> decide
    rw [step, if_pos ⟨hpc, Nat.one_pos, hcount, hpos⟩]
    rfl
  · have hy : y.isBreak = true := by
      refine hrun.invariant (I := fun x ↦ x.isBreak = true) ?_ hbreak
      intro x a y hx hok hstep
      exact (step_eq_some hstep).isBreak hok.2 hx
    cases step_eq_some hcheck with
    | check => exact if_pos hy

/-- Two completions, one of them behind the packet of a break; the first run ends, and the second
one finds the packet of another break that came too late for the first. -/
def breakBetween : List (Action ℕ) :=
  [.complete 7, .run, .resetLock, .reset, .breakLock 1, .breakStep 1 true, .breakStep 1 true,
    .breakStep 1 true, .complete 8, .dequeue 2, .dispatch, .checkLock, .check, .run, .resetLock,
    .reset, .breakLock 2, .breakStep 2 true, .breakStep 2 true, .breakStep 2 true]

theorem portKept_of_reachable_breakBetween :
    ∃ x, exec (step true) posts (init : PortLoop ℕ) breakBetween = some x ∧ x.delivered = [7] ∧
      x.port = [.io 8, .wake] ∧ x.pc = .polling ∧ x.PortKept true := by
  have hrun : ((exec (step true) posts (init : PortLoop ℕ) breakBetween).map fun x ↦
      (x.delivered, x.port, x.pc)) = some ([7], [.io 8, .wake], .polling) := by decide +kernel
  obtain ⟨x, hx, hfields⟩ := Option.map_eq_some_iff.mp hrun
  simp only [Prod.mk.injEq] at hfields
  obtain ⟨hdelivered, hport, hpc⟩ := hfields
  exact ⟨x, hx, hdelivered, hport, hpc, portKept_of_reachable (Reachable.of_exec hx)⟩

end PortLoop

end Iocp

end Nanoev
