import Nanoev.Dns.Workers

/-!
# The life cycle of a DNS request

What the user of `nanoev_dns_resolve` and `nanoev_event_free` can rely on, whatever the threads of
the loops and of the pool do: a request is answered at most once, with its own answer, and not after
the event has been freed; there is at most one request at a time; and no access is made to an
object, a host name or an array of addresses that has been released.

The copy of the host name identifies a request, since blocks are not numbered twice.
-/

namespace Nanoev

open Transition

/-- The arguments with which `nanoev_dns_resolve` gets beyond its tests of them. -/
def ResolveArgs.Valid (args : ResolveArgs) : Prop :=
  args.host = true ∧ args.callback ≠ none ∧
    (args.family = afUnspec ∨ args.family = afInet ∨ args.family = afInet6)

namespace Dns

variable {o : Dns}

theorem refuses_of_pending (hp : o.pending = true) (args : ResolveArgs) (memory : Bool) :
    ∃ ret, o.refuses args memory = some ret ∧ ret ≠ .success ∧
      (args.Valid → ret = .accessDenied) := by
  rw [refuses]
  split_ifs with hargs hfamily hbusy
  · refine ⟨_, rfl, by simp, ?_⟩
    rintro ⟨hhost, hcallback, -⟩
    rcases hargs with hargs | hargs
    · rw [hhost] at hargs
      cases hargs
    · exact absurd hargs hcallback
  · refine ⟨_, rfl, by simp, ?_⟩
    rintro ⟨-, -, hvalid⟩
    obtain ⟨hunspec, hinet, hinet6⟩ := hfamily
    rcases hvalid with hvalid | hvalid | hvalid
    · exact absurd hvalid hunspec
    · exact absurd hvalid hinet
    · exact absurd hvalid hinet6
  · exact ⟨_, rfl, by simp, fun _ ↦ rfl⟩
  · exact absurd (Or.inl hp) hbusy
  · exact absurd (Or.inl hp) hbusy

end Dns

namespace DnsSystem

variable {s : DnsSystem} {q : DnsRequest}

/-- The callback for the request has not been called, and the event has not been freed. -/
def Unanswered (s : DnsSystem) (q : DnsRequest) : Prop :=
  q ∈ s.accepted ∧ some q.host ∉ s.calls.map DnsCall.host ∧ (s.events q.event).freed = false

/-- A second call of `nanoev_dns_resolve` on the event of `q` returns an error and does nothing. -/
def Refuses (s : DnsSystem) (q : DnsRequest) : Prop :=
  ∀ args memory t, s.step (.resolve q.event args memory) = some t →
    ∃ ret, ret ≠ .success ∧ (args.Valid → ret = .accessDenied) ∧
      t = { s with returned := s.returned ++ [(q.event, ret)] }

structure LifeCycle (s : DnsSystem) : Prop where
  /-- Different requests have different host names. -/
  accepted_nodup : (s.accepted.map DnsRequest.host).Nodup
  /-- A request is answered at most once. -/
  calls_nodup : (s.calls.map DnsCall.host).Nodup
  /-- The callback gets what the resolver has said about the request. -/
  answered : ∀ c ∈ s.calls, s.Answered c
  /-- No callback is called after the event has been freed. -/
  not_freed : ∀ c ∈ s.calls, c.freed = false
  /-- While a request is not answered there is no other one. -/
  refuses : ∀ q, s.Unanswered q → s.Refuses q
  /-- An object is destroyed at most once, and only after the event has been freed. -/
  destroyed_nodup : s.destroyed.Nodup
  destroyed_freed : ∀ d ∈ s.destroyed, (s.events d).freed = true
  /-- No access is made to memory that has been released. -/
  faults : s.faults = []

/-- An event with a request that is not answered has it stored in its object, whenever a function
may be called on the event. -/
theorem Inv.pending_of_unanswered (h : s.Inv) (hq : s.Unanswered q) (hmay : s.mayCall q.event) :
    ∃ o, (s.events q.event).dns = some o ∧ o.pending = true := by
  obtain ⟨hacc, hcalls, hfreed⟩ := hq
  obtain ⟨o, ho⟩ := h.exists_dns_of_mayCall hmay
  have hok := h.events.ok q.event
  have halive := hok.alive o ho
  refine ⟨o, ho, ?_⟩
  rcases h.record.accounted q hacc with ⟨hst, hreq⟩ | ⟨-, hdone⟩
  · by_contra hp
    have hidle := hok.idle_of_client ho hmay.2.2.1 hmay.2.2.2 (Bool.eq_false_of_not_eq_true hp)
    rw [hidle] at hreq
    cases hreq
  · rcases hdone with hdone | hdone
    · exact absurd hdone hcalls
    · exact absurd (hfreed.symm.trans hdone) Bool.false_ne_true

theorem Inv.refuses (h : s.Inv) (hq : s.Unanswered q) : s.Refuses q := by
  intro args memory t hstep
  obtain ⟨hmay, rfl⟩ := of_guard hstep
  obtain ⟨o, ho, hp⟩ := h.pending_of_unanswered hq hmay
  obtain ⟨ret, hret, hne, hdenied⟩ := Dns.refuses_of_pending hp args memory
  refine ⟨ret, hne, hdenied, ?_⟩
  rw [DnsSystem.resolve, onDns_eq ho, hret]

theorem Inv.freed_of_destroyed {d : ℕ} (h : s.Inv) (hd : d ∈ s.destroyed) :
    (s.events d).freed = true := by
  obtain ⟨hlt, hnone⟩ := (h.record.destroyed d).mp hd
  exact h.events.gone d hlt hnone

/-- **The life cycle.** It holds in every state that the threads can reach. -/
theorem lifeCycle_of_reachable (h : Reachable step anyStep init s) : s.LifeCycle := by
  have hinv := inv_of_reachable h
  have hr := hinv.record
  exact ⟨hr.nodup, hr.calls_nodup, fun c hc ↦ (hr.calls c hc).2, fun c hc ↦ (hr.calls c hc).1,
    fun _ hq ↦ hinv.refuses hq, hr.destroyed_nodup, fun d hd ↦ hinv.freed_of_destroyed hd,
    hr.faults⟩

/-- A request is answered; in its callback the event is resolved again and freed; the second request
is not answered, and the thread of the loop destroys the object. -/
def resolveAndFree : List Action :=
  [.init, .new (.ok 0), .resolve 0 ⟨true, 0, 80, some 7⟩ true, .submit 0, .enqueue 0 4,
    .dequeue 1, .fetch 1, .getaddrinfo 1 (.found 2 true), .publish 1, .readAsync 1, .asyncSend 1,
    .reactorCb 0 (.ok 1), .deliver 0, .onAsync 0, .invoke 0, .readAddrs 0,
    .resolve 0 ⟨true, 0, 80, some 8⟩ true, .submit 0, .enqueue 0 4, .dequeue 2, .free 0,
    .callbackReturn 0, .finish 0, .fetch 2, .getaddrinfo 2 (.found 1 true), .publish 2,
    .readAsync 2,
    .asyncSend 2, .reactorCb 0 (.ok 1), .deliver 0, .onAsync 0, .invoke 0, .finish 0]

theorem lifeCycle_of_reachable_resolveAndFree :
    ∃ s, exec step anyStep init resolveAndFree = some s ∧
      s.calls = [⟨0, some 0, 7, ⟨0, some 1, 2⟩, false⟩] ∧ s.destroyed = [0] ∧ s.LifeCycle := by
  have hrun : (exec step anyStep init resolveAndFree).map
      (fun s ↦ (s.calls, s.destroyed, s.accepted.length)) =
        some ([⟨0, some 0, 7, ⟨0, some 1, 2⟩, false⟩], [0], 2) := by decide +kernel
  obtain ⟨s, hs, heq⟩ := Option.map_eq_some_iff.mp hrun
  simp only [Prod.mk.injEq] at heq
  obtain ⟨hcalls, hdestroyed, -⟩ := heq
  exact ⟨s, hs, hcalls, hdestroyed, lifeCycle_of_reachable (Reachable.of_exec hs)⟩

end DnsSystem

end Nanoev
