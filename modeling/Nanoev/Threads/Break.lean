import Mathlib.Tactic.Ring
import Nanoev.Transition.Run

/-!
# Breaking a loop from other threads

`nanoev_loop_break` sets `is_break` under the lock of the loop and, the first time, writes to the
eventfd that wakes up `epoll_wait`. `nanoev_loop_run` drains the eventfd in `epoll_poller_poll`
without the lock, and tests `is_break` under the lock at the end of each round.

The wake-up can only be lost if the eventfd is drained and the loop waits again before it tests
`is_break`. It does not: every round that drains the eventfd ends with the test. So as long as
`is_break` is set and the run goes on, the eventfd still has a count, or this round has drained it
and the test is still to come.

A thread that leaves `nanoev_loop_break` has set `is_break` or found it set, and the reset at the
entry of a run needs the lock (`Marked`). So what a call of `nanoev_loop_break` has done is there
when it releases the lock, and stays until the next reset.
-/

namespace Nanoev

open Transition

/-- Where a thread is in `nanoev_loop_break`, when it holds the lock. -/
inductive BreakPc
  /-- Before the test of `is_break`. -/
  | test
  /-- Before `poller_notify`. -/
  | notify
  | unlock
deriving DecidableEq, Repr

inductive BreakHolder
  | breaker (thread : ℕ) (pc : BreakPc)
  /-- The thread that runs the loop. -/
  | loop
deriving DecidableEq, Repr

/-- Where `nanoev_loop_run` is. -/
inductive RunPc
  /-- The loop does not run. -/
  | idle
  /-- Before `is_break` is reset. -/
  | entering
  /-- In a round, before `epoll_poller_poll`. -/
  | body
  /-- In `epoll_wait`. -/
  | waiting
  /-- `epoll_wait` has returned events; `notified` is whether the eventfd is one of them. -/
  | woken (notified : Bool)
  /-- After `epoll_poller_poll`, up to the test of `is_break`; `drained` is whether the eventfd was
  drained in this round. -/
  | dispatching (drained : Bool)
deriving DecidableEq, Repr

/-- The run has reset `is_break` and has not left its loop. -/
def RunPc.inRun : RunPc → Bool
  | idle | entering => false
  | _ => true

/-- The eventfd has been drained in this round, and `is_break` has not been tested. -/
def RunPc.drained : RunPc → Bool
  | dispatching drained => drained
  | _ => false

/-- The largest count that an eventfd holds: a write that would exceed it blocks. -/
def eventfdMax : ℕ := 2 ^ 64 - 2

structure LoopBreak where
  isBreak : Bool
  /-- The count of the eventfd. -/
  counter : ℕ
  holder : Option BreakHolder
  pc : RunPc
deriving DecidableEq, Repr

namespace LoopBreak

def init : LoopBreak := ⟨false, 0, none, .idle⟩

inductive Action
  /-- A thread acquires the lock in `nanoev_loop_break`. -/
  | breakLock (thread : ℕ)
  /-- The thread goes on. -/
  | breakStep (thread : ℕ)
  /-- `nanoev_loop_run` is called. -/
  | run
  | resetLock
  | reset
  /-- `epoll_poller_poll` finds completions in its queue. -/
  | takeQueued
  | epollWait
  /-- `epoll_wait` returns events. -/
  | wake (notified : Bool)
  /-- `epoll_wait` times out or is interrupted by a signal. -/
  | waitEnds
  /-- `epoll_wait` fails, and the run ends. -/
  | epollFails
  /-- The eventfd is read. -/
  | drain
  /-- `epoll_poller_poll` returns without having read the eventfd. -/
  | pollReturn
  | checkLock
  /-- `is_break` is tested. -/
  | check
deriving DecidableEq, Repr

/-- A thread that holds the lock goes on in `nanoev_loop_break`. -/
def breakStep (x : LoopBreak) (thread : ℕ) : BreakPc → Option LoopBreak
  | .test =>
    if x.isBreak then some { x with holder := some (.breaker thread .unlock) }
    else some { x with isBreak := true, holder := some (.breaker thread .notify) }
  | .notify =>
    if x.counter < eventfdMax then
      some { x with counter := x.counter + 1, holder := some (.breaker thread .unlock) }
    else none
  | .unlock => some { x with holder := none }

def step (x : LoopBreak) : Action → Option LoopBreak
  | .breakLock k =>
    if x.holder = none then some { x with holder := some (.breaker k .test) } else none
  | .breakStep k =>
    match x.holder with
    | some (.breaker thread pc) => if thread = k then x.breakStep k pc else none
    | _ => none
  | .run => if x.pc = .idle then some { x with pc := .entering } else none
  | .resetLock =>
    if x.pc = .entering ∧ x.holder = none then some { x with holder := some .loop } else none
  | .reset =>
    if x.pc = .entering ∧ x.holder = some .loop then
      some { x with isBreak := false, holder := none, pc := .body }
    else none
  | .takeQueued => if x.pc = .body then some { x with pc := .dispatching false } else none
  | .epollWait => if x.pc = .body then some { x with pc := .waiting } else none
  | .wake notified =>
    if x.pc = .waiting ∧ (notified = true → 0 < x.counter) then
      some { x with pc := .woken notified }
    else none
  | .waitEnds => if x.pc = .waiting then some { x with pc := .dispatching false } else none
  | .epollFails => if x.pc = .waiting then some { x with pc := .idle } else none
  | .drain =>
    if x.pc = .woken true then some { x with counter := 0, pc := .dispatching true } else none
  | .pollReturn => if x.pc = .woken false then some { x with pc := .dispatching false } else none
  | .checkLock =>
    match x.pc with
    | .dispatching _ => if x.holder = none then some { x with holder := some .loop } else none
    | _ => none
  | .check =>
    match x.pc with
    | .dispatching _ =>
      if x.holder = some .loop then
        some { x with holder := none, pc := if x.isBreak then .idle else .body }
      else none
    | _ => none

/-! ## The wake-up is kept -/

variable {x y : LoopBreak} {a : Action}

/-- While `is_break` is set and the run goes on, the eventfd has a count, or it has been drained in
this round, unless the thread that has set `is_break` is about to write. -/
structure Inv (x : LoopBreak) : Prop where
  wakeup : x.pc.inRun = true → x.isBreak = true →
    0 < x.counter ∨ x.pc.drained = true ∨ ∃ k, x.holder = some (.breaker k .notify)
  notified : x.pc = .woken true → 0 < x.counter

theorem init_inv : init.Inv := ⟨nofun, nofun⟩

theorem Inv.wakeup_of_ne (h : x.Inv) (hne : ∀ k, x.holder ≠ some (.breaker k .notify))
    (hrun : x.pc.inRun = true) (hbreak : x.isBreak = true) :
    0 < x.counter ∨ x.pc.drained = true := by
  rcases h.wakeup hrun hbreak with hcount | hdrained | ⟨k, hk⟩
  · exact .inl hcount
  · exact .inr hdrained
  · exact absurd hk (hne k)

theorem Inv.relock {holder : Option BreakHolder} (h : x.Inv)
    (hne : ∀ k, x.holder ≠ some (.breaker k .notify)) : Inv { x with holder := holder } :=
  ⟨fun hrun hbreak ↦ (h.wakeup_of_ne hne hrun hbreak).imp_right .inl, h.notified⟩

theorem Inv.breakStep {k : ℕ} {pc : BreakPc} (h : x.Inv) (hheld : x.holder = some (.breaker k pc))
    (hstep : x.breakStep k pc = some y) : y.Inv := by
  cases pc with
  | test =>
    rw [LoopBreak.breakStep] at hstep
    split at hstep
    · obtain rfl := Option.some.inj hstep
      exact h.relock (by rw [hheld]; exact nofun)
    · obtain rfl := Option.some.inj hstep
      exact ⟨fun _ _ ↦ .inr (.inr ⟨k, rfl⟩), h.notified⟩
  | notify =>
    obtain ⟨-, rfl⟩ := of_guard hstep
    exact ⟨fun _ _ ↦ .inl (Nat.succ_pos _), fun _ ↦ Nat.succ_pos _⟩
  | unlock =>
    obtain rfl := Option.some.inj hstep
    exact h.relock (by rw [hheld]; exact nofun)

/-- The loop goes on with the count and the lock as they are, not out of a round that has drained
the eventfd. -/
theorem Inv.proceed {pc : RunPc} (h : x.Inv) (hin : x.pc.inRun = true)
    (hdrained : x.pc.drained = false) (hnotified : pc = .woken true → 0 < x.counter) :
    Inv { x with pc := pc } := by
  refine ⟨fun _ hbreak ↦ ?_, hnotified⟩
  rcases h.wakeup hin hbreak with hcount | hd | hheld
  · exact .inl hcount
  · rw [hdrained] at hd
    cases hd
  · exact .inr (.inr hheld)

theorem Inv.step (h : x.Inv) (hstep : x.step a = some y) : y.Inv := by
  cases a with
  | breakLock k =>
    obtain ⟨hfree, rfl⟩ := of_guard hstep
    exact h.relock (by rw [hfree]; exact nofun)
  | breakStep k =>
    simp only [LoopBreak.step] at hstep
    split at hstep
    · next thread pc hheld =>
      obtain ⟨rfl, hstep⟩ := Option.ite_none_right_eq_some.mp hstep
      exact h.breakStep hheld hstep
    · cases hstep
  | run =>
    obtain ⟨-, rfl⟩ := of_guard hstep
    exact ⟨nofun, nofun⟩
  | resetLock =>
    obtain ⟨⟨-, hfree⟩, rfl⟩ := of_guard hstep
    exact h.relock (by rw [hfree]; exact nofun)
  | reset =>
    -- a break before the reset is forgotten, and with it the need for a wake-up
    obtain ⟨-, rfl⟩ := of_guard hstep
    exact ⟨nofun, nofun⟩
  | takeQueued | epollWait | waitEnds | epollFails | pollReturn =>
    obtain ⟨hpc, rfl⟩ := of_guard hstep
    exact h.proceed (by rw [hpc]; rfl) (by rw [hpc]; rfl) nofun
  | wake notified =>
    obtain ⟨⟨hpc, hcount⟩, rfl⟩ := of_guard hstep
    exact h.proceed (by rw [hpc]; rfl) (by rw [hpc]; rfl) fun hw ↦ hcount (RunPc.woken.inj hw)
  | drain =>
    -- the test of `is_break` at the end of this round is still to come
    obtain ⟨hpc, rfl⟩ := of_guard hstep
    exact ⟨fun _ _ ↦ .inr (.inl rfl), nofun⟩
  | checkLock =>
    simp only [LoopBreak.step] at hstep
    split at hstep
    · next drained hpc =>
      obtain ⟨hfree, rfl⟩ := of_guard hstep
      exact h.relock (by rw [hfree]; exact nofun)
    · cases hstep
  | check =>
    simp only [LoopBreak.step] at hstep
    split at hstep
    · obtain ⟨-, rfl⟩ := of_guard hstep
      cases hbreak : x.isBreak with
      | true | false => exact ⟨nofun, nofun⟩
    · cases hstep

/-! ## What a call leaves behind -/

theorem isBreak_step (hstep : x.step a = some y) (hreset : a ≠ .reset) (h : x.isBreak = true) :
    y.isBreak = true := by
  cases a with
  | reset => exact absurd rfl hreset
  | breakStep k =>
    simp only [step] at hstep
    split at hstep
    · next thread pc hheld =>
      obtain ⟨rfl, hstep⟩ := Option.ite_none_right_eq_some.mp hstep
      cases pc with
      | test =>
        rw [breakStep, if_pos h] at hstep
        obtain rfl := Option.some.inj hstep
        exact h
      | notify =>
        obtain ⟨-, rfl⟩ := of_guard hstep
        exact h
      | unlock =>
        obtain rfl := Option.some.inj hstep
        exact h
    · cases hstep
  | checkLock | check =>
    simp only [step] at hstep
    split at hstep
    · obtain ⟨-, rfl⟩ := of_guard hstep
      exact h
    · cases hstep
  | _ =>
    obtain ⟨-, rfl⟩ := of_guard hstep
    exact h

/-- A thread that is past the test in `nanoev_loop_break` has `is_break` set. -/
def Marked (x : LoopBreak) : Prop :=
  ∀ k pc, x.holder = some (.breaker k pc) → pc ≠ .test → x.isBreak = true

theorem Marked.breakStep {k : ℕ} {pc : BreakPc} (h : x.Marked)
    (hheld : x.holder = some (.breaker k pc)) (hstep : x.breakStep k pc = some y) : y.Marked := by
  cases pc with
  | test =>
    rw [LoopBreak.breakStep] at hstep
    split at hstep
    · next hset =>
      obtain rfl := Option.some.inj hstep
      exact fun _ _ _ _ ↦ hset
    · obtain rfl := Option.some.inj hstep
      exact fun _ _ _ _ ↦ rfl
  | notify =>
    obtain ⟨-, rfl⟩ := of_guard hstep
    exact fun _ _ _ _ ↦ h k .notify hheld (by simp)
  | unlock =>
    obtain rfl := Option.some.inj hstep
    intro k pc hheld
    cases hheld

theorem Marked.step (h : x.Marked) (hstep : x.step a = some y) : y.Marked := by
  cases a with
  | breakLock k =>
    obtain ⟨-, rfl⟩ := of_guard hstep
    intro k' pc hheld hpc
    obtain ⟨-, rfl⟩ := BreakHolder.breaker.inj (Option.some.inj hheld)
    exact absurd rfl hpc
  | breakStep k =>
    simp only [LoopBreak.step] at hstep
    split at hstep
    · next thread pc hheld =>
      obtain ⟨rfl, hstep⟩ := Option.ite_none_right_eq_some.mp hstep
      exact h.breakStep hheld hstep
    · cases hstep
  | resetLock | reset =>
    obtain ⟨-, rfl⟩ := of_guard hstep
    intro k pc hheld
    cases hheld
  | checkLock | check =>
    simp only [LoopBreak.step] at hstep
    split at hstep
    · obtain ⟨-, rfl⟩ := of_guard hstep
      intro k pc hheld
      cases hheld
    · cases hstep
  | _ =>
    obtain ⟨-, rfl⟩ := of_guard hstep
    exact h

theorem invariants_of_reachable (h : Reachable step anyStep init x) : x.Inv ∧ x.Marked := by
  refine h.invariant (I := fun x ↦ x.Inv ∧ x.Marked) ⟨init_inv, ?_⟩
    fun _ _ _ hx _ hstep ↦ ⟨hx.1.step hstep, hx.2.step hstep⟩
  intro k pc hheld
  cases hheld

theorem Marked.unlocked {k : ℕ} (h : x.Marked) (hheld : x.holder = some (.breaker k .unlock))
    (hstep : x.step (.breakStep k) = some y) : y.isBreak = true := by
  simp only [LoopBreak.step, hheld, if_true, LoopBreak.breakStep, Option.some.injEq] at hstep
  obtain rfl := hstep
  exact h k .unlock hheld (by simp)

theorem isBreak_run {as : List Action} (hrun : Run step (fun _ a ↦ a ≠ .reset) x as y)
    (h : x.isBreak = true) : y.isBreak = true :=
  hrun.invariant (I := fun x ↦ x.isBreak = true)
    (fun _ _ _ hx hok hstep ↦ isBreak_step hstep hok hx) h

/-! ## A run that is broken ends -/

def Action.byLoop : Action → Bool
  | .breakLock _ | .breakStep _ => false
  | _ => true

def Ends (x : LoopBreak) : Prop :=
  ∃ as y, Run step (fun _ a ↦ a.byLoop = true) x as y ∧ y.pc = .idle

theorem Ends.cons (hloop : a.byLoop = true) (hstep : x.step a = some y) (h : y.Ends) : x.Ends := by
  obtain ⟨as, z, hrun, hz⟩ := h
  exact ⟨a :: as, z, .cons hloop hstep hrun, hz⟩

theorem ends_of_dispatching {drained : Bool} (hfree : x.holder = none) (hbreak : x.isBreak = true)
    (hpc : x.pc = .dispatching drained) : x.Ends := by
  obtain ⟨isBreak, counter, holder, pc⟩ := x
  obtain rfl : holder = none := hfree
  obtain rfl : isBreak = true := hbreak
  obtain rfl : pc = .dispatching drained := hpc
  exact ⟨[.checkLock, .check], _, .cons rfl rfl (.single rfl rfl), rfl⟩

theorem ends_of_waiting (hfree : x.holder = none) (hbreak : x.isBreak = true)
    (hcount : 0 < x.counter) (hpc : x.pc = .waiting) : x.Ends := by
  have hwake : x.step (.wake true) = some { x with pc := .woken true } :=
    if_pos ⟨hpc, fun _ ↦ hcount⟩
  have hdrain : step { x with pc := .woken true } .drain =
      some { x with counter := 0, pc := .dispatching true } := rfl
  exact .cons rfl hwake (.cons rfl hdrain (ends_of_dispatching hfree hbreak rfl))

/-! ## A break is not lost -/

/-- What holds when a run goes on although `is_break` is set: there is a wake-up, or the test is
still to come; the loop does not wait without a wake-up; the next test ends the run; and the loop
comes to it without the help of other threads. -/
structure BreakKept (x : LoopBreak) : Prop where
  wakeup : 0 < x.counter ∨ x.pc.drained = true
  waiting : x.pc = .waiting → 0 < x.counter
  leaves : ∀ as y z, Run step (fun _ a ↦ a ≠ .check ∧ a ≠ .reset) x as y →
    y.step .check = some z → z.pc = .idle
  ends : x.Ends

theorem ends_of_wakeup (hrun : x.pc.inRun = true) (hfree : x.holder = none)
    (hbreak : x.isBreak = true) (hwakeup : 0 < x.counter ∨ x.pc.drained = true) : x.Ends := by
  cases hpc : x.pc with
  | idle | entering =>
    rw [hpc] at hrun
    cases hrun
  | body =>
    have hcount : 0 < x.counter := hwakeup.resolve_right (by rw [hpc]; nofun)
    have hwait : x.step .epollWait = some { x with pc := .waiting } := if_pos hpc
    exact .cons rfl hwait (ends_of_waiting hfree hbreak hcount rfl)
  | waiting =>
    have hcount : 0 < x.counter := hwakeup.resolve_right (by rw [hpc]; nofun)
    exact ends_of_waiting hfree hbreak hcount hpc
  | woken notified =>
    cases notified with
    | true =>
      have hdrain : x.step .drain = some { x with counter := 0, pc := .dispatching true } :=
        if_pos hpc
      exact .cons rfl hdrain (ends_of_dispatching hfree hbreak rfl)
    | false =>
      have hreturn : x.step .pollReturn = some { x with pc := .dispatching false } := if_pos hpc
      exact .cons rfl hreturn (ends_of_dispatching hfree hbreak rfl)
  | dispatching drained => exact ends_of_dispatching hfree hbreak hpc

theorem Inv.breakKept (h : x.Inv) (hrun : x.pc.inRun = true) (hfree : x.holder = none)
    (hbreak : x.isBreak = true) : x.BreakKept := by
  have hwakeup := h.wakeup_of_ne (by rw [hfree]; exact nofun) hrun hbreak
  refine ⟨hwakeup, fun hpc ↦ ?_, fun as y z hrun' hcheck ↦ ?_,
    ends_of_wakeup hrun hfree hbreak hwakeup⟩
  · rw [hpc] at hwakeup
    exact hwakeup.resolve_right nofun
  · have hy : y.isBreak = true := isBreak_run (hrun'.mono fun _ _ hok ↦ hok.2) hbreak
    simp only [LoopBreak.step] at hcheck
    split at hcheck
    · obtain ⟨-, rfl⟩ := of_guard hcheck
      exact if_pos hy
    · cases hcheck

/-- **A break is never lost**, whatever the threads and the loop do, over any number of runs. While
a run goes on with `is_break` set and the lock is free, the break is kept; and from the moment at
which a thread leaves `nanoev_loop_break` until the next reset, `is_break` is set, so that the break
is kept in every state of the run in which the lock is free. -/
theorem breakKept_of_reachable (h : Reachable step anyStep init x) :
    (x.pc.inRun = true → x.holder = none → x.isBreak = true → x.BreakKept) ∧
      ∀ k y as z, x.holder = some (.breaker k .unlock) → x.step (.breakStep k) = some y →
        Run step (fun _ a ↦ a ≠ .reset) y as z →
        z.isBreak = true ∧ (z.pc.inRun = true → z.holder = none → z.BreakKept) := by
  obtain ⟨hinv, hmarked⟩ := invariants_of_reachable h
  refine ⟨hinv.breakKept, fun k y as z hheld hstep hrun ↦ ?_⟩
  have hz : z.isBreak = true := isBreak_run hrun (hmarked.unlocked hheld hstep)
  have hreach : Reachable step anyStep init z :=
    (h.tail trivial hstep).trans_run (hrun.mono fun _ _ _ ↦ trivial)
  exact ⟨hz, fun hpc hfree ↦ (invariants_of_reachable hreach).1.breakKept hpc hfree hz⟩

/-- The first run is broken twice and leaves a count behind. The second run takes it for a wake-up,
and another thread is about to leave `nanoev_loop_break` before the eventfd is drained. -/
def breakTwoRuns : List Action :=
  [.run, .resetLock, .reset, .takeQueued, .breakLock 0, .breakStep 0, .breakStep 0, .breakStep 0,
    .breakLock 1, .breakStep 1, .breakStep 1, .checkLock, .check, .run, .resetLock, .reset,
    .epollWait, .wake true, .breakLock 1, .breakStep 1, .breakStep 1]

theorem breakKept_of_reachable_twoRuns :
    ∃ x y z, exec step anyStep init breakTwoRuns = some x ∧ x.step (.breakStep 1) = some y ∧
      Run step (fun _ a ↦ a ≠ .reset) y [.drain] z ∧ y.BreakKept ∧ z.counter = 0 ∧
      z.pc = .dispatching true ∧ z.BreakKept := by
  have hrun : exec step anyStep init breakTwoRuns =
      some ⟨true, 2, some (.breaker 1 .unlock), .woken true⟩ := by decide +kernel
  obtain ⟨-, hleft⟩ := breakKept_of_reachable (Reachable.of_exec hrun)
  have hdrain : Run step (fun _ a ↦ a ≠ .reset) ⟨true, 2, none, .woken true⟩ [.drain]
      ⟨true, 0, none, .dispatching true⟩ := .single (by simp) rfl
  exact ⟨_, _, _, hrun, rfl, hdrain, (hleft 1 _ [] _ rfl rfl (.nil _)).2 rfl rfl, rfl, rfl,
    (hleft 1 _ _ _ rfl rfl hdrain).2 rfl rfl⟩

end LoopBreak

end Nanoev
