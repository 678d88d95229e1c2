import Nanoev.Dns.Workers
import Mathlib.Data.List.Count
import Mathlib.Data.List.Nodup

/-!
# The end of a program with DNS events

A program that is done frees its DNS events, then the loop with `nanoev_loop_free`, and calls
`nanoev_term`. From `nanoev_loop_free` on there is no thread of the loop: only the threads of the
pool and `dns_term` go on. An event that is freed while a request is pending is destroyed by the
thread of the loop when it delivers the notification; if the loop is freed first, nobody does that.

## What the condition is for

That no request is pending when the loop is freed is enough: then every object has been destroyed,
all blocks have been released, and the pool has nothing left to work on.
-/

namespace Nanoev

open Transition Memory

namespace DnsSystem

def Action.ofLoop : Action → Bool
  | .new _ | .resolve _ _ _ | .submit _ | .enqueue _ _ | .undoPop _ | .undoJoin _ | .undoLeave _
  | .undoFinish _ | .withdraw _ | .free _ | .reactorCb _ _ | .deliver _ | .onAsync _ | .invoke _
  | .readAddrs _ | .callbackReturn _ | .finish _ => true
  | _ => false

/-- The actions of `dns_term`. -/
def Action.ofTerm : Action → Bool
  | .term | .termPop | .termJoin | .termLeave | .termFinish => true
  | _ => false

/-- `nanoev_loop_free` may be called: the user has freed every event, and the loop is not
running. -/
def mayLoopFree (s : DnsSystem) : Prop :=
  ∀ d < s.nextEvent, (s.events d).freed = true ∧ (s.events d).call = .away ∧
    (s.events d).delivery = .away

instance (s : DnsSystem) : Decidable s.mayLoopFree := Nat.decidableBallLT _ _

def nonePending (s : DnsSystem) : Prop :=
  ∀ d < s.nextEvent, (s.events d).dns.map Dns.pending ≠ some true

instance (s : DnsSystem) : Decidable s.nonePending := Nat.decidableBallLT _ _

/-- Every object has been destroyed once, its async event with both ends of the pipe, and every host
name and every array of addresses has been released. A second release would be a fault. -/
structure Released (s : DnsSystem) : Prop where
  dns : ∀ d, (s.events d).dns = none
  async : ∀ d, (s.events d).async = none
  destroyed : ∀ d < s.nextEvent, s.destroyed.count d = 1
  closed : ∀ d < s.nextEvent, s.closed.count (2 * d) = 1 ∧ s.closed.count (2 * d + 1) = 1
  blocks : ∀ b, s.blocks b = none
  faults : s.faults = []

end DnsSystem

inductive TeardownPhase
  | running
  /-- `nanoev_loop_free` has returned. -/
  | loopFreed
  /-- `nanoev_term` has returned. -/
  | terminated
deriving DecidableEq, Repr

structure Teardown where
  system : DnsSystem
  phase : TeardownPhase

namespace Teardown

inductive Action
  | act (a : DnsSystem.Action)
  | loopFree

/-- After `nanoev_init`. -/
def init : Teardown := ⟨{ DnsSystem.init with pool := .dnsInit }, .running⟩

/-- Performs an action, if it is possible. `nanoev_loop_free` does not do anything to a DNS event:
the list of deleted events has the async event of none of them. -/
def step (s : Teardown) : Action → Option Teardown
  | .act a =>
    match s.phase with
    | .running => if a.ofTerm = false then (s.system.step a).map (⟨·, .running⟩) else none
    | .loopFreed =>
      if a.ofLoop = false then
        (s.system.step a).map (⟨·, if a = .termFinish then .terminated else .loopFreed⟩)
      else none
    | .terminated => none
  | .loopFree =>
    if s.phase = .running ∧ s.system.mayLoopFree then some { s with phase := .loopFreed } else none

/-- No request is pending when `nanoev_loop_free` is called. -/
def Settled (s : Teardown) : Action → Prop
  | .act _ => True
  | .loopFree => s.system.nonePending

instance (s : Teardown) : (a : Action) → Decidable (s.Settled a)
  | .act _ => inferInstanceAs (Decidable True)
  | .loopFree => inferInstanceAs (Decidable s.system.nonePending)

end Teardown

namespace DnsSystem

variable {s t : DnsSystem} {d w : ℕ} {q : DnsRequest}

/-- There are no objects, and the thread of the loop is not busy with one. -/
structure Cleared (s : DnsSystem) : Prop where
  dns : ∀ d, (s.events d).dns = none
  delivery : ∀ d, (s.events d).delivery = .away

/-- An event that has been freed and is not pending is gone, or about to be destroyed. -/
theorem Inv.dns_eq_none (h : s.Inv) (hfreed : (s.events d).freed = true)
    (hc : (s.events d).call = .away) (hpc : (s.events d).delivery = .away)
    (hp : (s.events d).dns.map Dns.pending ≠ some true) : (s.events d).dns = none := by
  by_contra hne
  obtain ⟨o, ho⟩ := Option.ne_none_iff_exists'.mp hne
  have hok := h.events.ok d
  have halive := hok.alive o ho
  have hpending : o.pending = false := by
    rw [ho] at hp
    exact Bool.eq_false_of_not_eq_true fun htrue ↦ hp (congrArg some htrue)
  have hidle := hok.idle_of_client ho hc (by rw [hpc]; rfl) hpending
  obtain ⟨a, -, -, hnotice⟩ := halive.notice
  rw [hidle, hfreed, hpc] at hnotice
  obtain ⟨-, b, hb⟩ := hnotice
  cases hb

theorem Inv.cleared (h : s.Inv) (hmay : s.mayLoopFree) (hp : s.nonePending) : s.Cleared := by
  refine ⟨fun d ↦ ?_, fun d ↦ ?_⟩
  · rcases Nat.lt_or_ge d s.nextEvent with hd | hd
    · obtain ⟨hfreed, hc, hpc⟩ := hmay d hd
      exact h.dns_eq_none hfreed hc hpc (hp d hd)
    · rw [h.events.unborn d hd]
      rfl
  · rcases Nat.lt_or_ge d s.nextEvent with hd | hd
    · exact (hmay d hd).2.2
    · rw [h.events.unborn d hd]
      rfl

theorem Inv.stage_eq_idle (h : s.Inv) (hc : s.Cleared) (d : ℕ) : (s.events d).stage = .idle :=
  ((h.events.ok d).gone (hc.dns d)).stage

theorem Inv.worker_of_cleared (h : s.Inv) (hc : s.Cleared) (w : ℕ) :
    s.workers w = .waiting ∨ s.workers w = .exited := by
  have hw := h.workers w
  rw [WorkerOk] at hw
  cases hpc : s.workers w with
  | waiting => exact Or.inl rfl
  | exited => exact Or.inr rfl
  | _ =>
    rw [hpc] at hw
    obtain ⟨q, hq⟩ := hw
    rw [h.stage_eq_idle hc] at hq
    simp at hq

theorem Inv.head_of_cleared (h : s.Inv) (hc : s.Cleared) : s.pool.head = none := by
  obtain ⟨l, hl, hqueued⟩ := h.queue
  rw [hl.head_eq_none_iff]
  by_contra hne
  obtain ⟨k, hk⟩ := List.exists_mem_of_ne_nil l hne
  obtain ⟨q, hq⟩ := hqueued k hk
  rw [h.stage_eq_idle hc] at hq
  cases hq

/-- The threads of the pool and `dns_term` have nothing to do with the events any more. -/
theorem Inv.events_of_cleared {a : Action} (h : s.Inv) (hc : s.Cleared) (ha : a.ofLoop = false)
    (hstep : s.step a = some t) : t.events = s.events := by
  have hworker := h.worker_of_cleared hc
  cases step_eq_some hstep with
  | init | exit | term | termPop | termJoin | termLeave | termFinish => rfl
  | dequeue hhead =>
    rw [h.head_of_cleared hc] at hhead
    cases hhead
  | @fetch w _ hpc | @getaddrinfo w _ _ _ _ _ hpc | @publish w _ _ hpc | @readAsync w _ hpc
  | @asyncSend w _ hpc =>
    rcases hworker w with hw | hw
    · exact absurd (hw.symm.trans hpc) nofun
    · exact absurd (hw.symm.trans hpc) nofun
  | _ => cases ha

theorem nodup_descriptors {l : List ℕ} (h : l.Nodup) :
    (l.flatMap fun d ↦ [2 * d, 2 * d + 1]).Nodup := by
  rw [List.nodup_flatMap]
  refine ⟨fun d _ ↦ by simp, ?_⟩
  refine h.imp fun {d d'} hne ↦ ?_
  refine List.disjoint_left.mpr fun x hx hx' ↦ ?_
  simp only [List.mem_cons, List.not_mem_nil, or_false] at hx hx'
  omega

theorem Inv.released (h : s.Inv) (hc : s.Cleared) : s.Released := by
  have hr := h.record
  have hmem : ∀ d < s.nextEvent, d ∈ s.destroyed := fun d hd ↦ (hr.destroyed d).mpr ⟨hd, hc.dns d⟩
  have hnodup : s.closed.Nodup := hr.closed ▸ nodup_descriptors hr.destroyed_nodup
  refine ⟨hc.dns, fun d ↦ ((h.events.ok d).gone (hc.dns d)).async, ?_, ?_, ?_, hr.faults⟩
  · exact fun d hd ↦ List.count_eq_one_of_mem hr.destroyed_nodup (hmem d hd)
  · intro d hd
    refine ⟨List.count_eq_one_of_mem hnodup ?_, List.count_eq_one_of_mem hnodup ?_⟩
    all_goals
      rw [hr.closed, List.mem_flatMap]
      exact ⟨d, hmem d hd, by simp⟩
  · intro b
    by_contra hne
    obtain ⟨x, hx⟩ := Option.ne_none_iff_exists'.mp hne
    have hheld := (h.blocks.held_iff x b).mpr hx
    -- nobody holds a block
    cases x with
    | host d =>
      rw [held, h.stage_eq_idle hc] at hheld
      cases hheld
    | result w =>
      rw [held] at hheld
      rcases h.worker_of_cleared hc w with hw | hw
      · rw [hw] at hheld
        cases hheld
      · rw [hw] at hheld
        cases hheld
    | addrs d =>
      rw [held, hc.dns] at hheld
      cases hheld
    | delivered d =>
      rw [held, hc.delivery] at hheld
      cases hheld

end DnsSystem

namespace Teardown

variable {s t : Teardown}

/-- The invariant: once the loop has been freed there are no objects. -/
structure Inv (s : Teardown) : Prop where
  system : s.system.Inv
  cleared : s.phase ≠ .running → s.system.Cleared

theorem Inv.step {a : Action} (h : s.Inv) (hok : s.Settled a) (hstep : s.step a = some t) :
    t.Inv := by
  cases a with
  | act a =>
    simp only [Teardown.step] at hstep
    split at hstep
    · obtain ⟨-, hstep⟩ := Option.ite_none_right_eq_some.mp hstep
      obtain ⟨u, hu, rfl⟩ := Option.map_eq_some_iff.mp hstep
      exact ⟨h.system.step hu, fun hne ↦ absurd rfl hne⟩
    · next hphase =>
      obtain ⟨ha, hstep⟩ := Option.ite_none_right_eq_some.mp hstep
      obtain ⟨u, hu, rfl⟩ := Option.map_eq_some_iff.mp hstep
      have hc := h.cleared (by rw [hphase]; exact nofun)
      have hevents := h.system.events_of_cleared hc ha hu
      refine ⟨h.system.step hu, fun _ ↦ ⟨?_, ?_⟩⟩
      · rw [hevents]
        exact hc.dns
      · rw [hevents]
        exact hc.delivery
    · cases hstep
  | loopFree =>
    obtain ⟨⟨-, hmay⟩, rfl⟩ := of_guard hstep
    exact ⟨h.system, fun _ ↦ h.system.cleared hmay hok⟩

theorem inv_init : init.Inv :=
  ⟨DnsSystem.inv_init.rest ⟨[], IsQueue.nil, nofun⟩, fun hne ↦ absurd rfl hne⟩

/-- **Nothing outlives the end of the program**, if no request is pending when the loop is freed. -/
theorem released_of_terminated (h : Reachable step Settled init s)
    (hphase : s.phase = .terminated) :
    s.system.Released := by
  have hinv : s.Inv := h.invariant inv_init fun _ _ _ hs hok hstep ↦ hs.step hok hstep
  exact hinv.system.released (hinv.cleared (by rw [hphase]; exact nofun))

/-- The threads of the pool leave, and `dns_term` joins them. -/
def joinAll : List Action :=
  [.act .term, .act (.exit 0), .act (.exit 1), .act (.exit 2), .act (.exit 3), .act .termPop,
    .act .termJoin, .act .termPop, .act .termJoin, .act .termPop, .act .termJoin, .act .termPop,
    .act .termJoin, .act .termLeave, .act .termFinish]

/-- A request is accepted and resolved by a thread of the pool. -/
def resolveOnce : List Action :=
  [.act (.new (.ok 0)), .act (.resolve 0 ⟨true, 0, 80, some 7⟩ true), .act (.submit 0),
    .act (.enqueue 0 4), .act (.dequeue 1), .act (.fetch 1),
    .act (.getaddrinfo 1 (.found 2 true)), .act (.publish 1), .act (.readAsync 1)]

/-- The event is freed while the request is pending, and the loop runs until the notification has
been delivered. -/
def freeAndDeliver : List Action :=
  resolveOnce ++ [.act (.free 0), .act (.asyncSend 1), .act (.reactorCb 0 (.ok 1)),
    .act (.deliver 0),
    .act (.onAsync 0), .act (.invoke 0), .act (.finish 0), .loopFree] ++ joinAll

theorem released_of_terminated_freeAndDeliver :
    ∃ s, exec step Settled init freeAndDeliver = some s ∧ s.system.destroyed = [0] ∧
      s.system.Released := by
  have hrun : (exec step Settled init freeAndDeliver).map
      (fun s ↦ (s.system.destroyed, s.phase)) = some ([0], .terminated) := by decide +kernel
  obtain ⟨s, hs, heq⟩ := Option.map_eq_some_iff.mp hrun
  simp only [Prod.mk.injEq] at heq
  exact ⟨s, hs, heq.1, released_of_terminated (Reachable.of_exec hs) heq.2⟩

/-- The event is freed while the request is pending, and the loop does not run again. -/
def freeAndLeave : List Action :=
  resolveOnce ++ [.act (.free 0), .loopFree, .act (.asyncSend 1)] ++ joinAll

/-- Without the condition an object can be left over. -/
theorem exists_not_released :
    ∃ s, Reachable step anyStep init s ∧ s.phase = .terminated ∧ ¬ s.system.Released := by
  have hrun : (exec step anyStep init freeAndLeave).map
      (fun s ↦ ((s.system.events 0).dns.isSome, s.phase)) = some (true, .terminated) := by
    decide +kernel
  obtain ⟨s, hs, heq⟩ := Option.map_eq_some_iff.mp hrun
  simp only [Prod.mk.injEq] at heq
  refine ⟨s, Reachable.of_exec hs, heq.2, fun hreleased ↦ ?_⟩
  rw [hreleased.dns 0] at heq
  exact absurd heq.1 nofun

end Teardown

end Nanoev
