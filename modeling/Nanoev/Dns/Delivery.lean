import Nanoev.Dns.Invariant

/-!
# The thread of the loop

The operations of the thread of a loop keep the invariant: `nanoev_dns_resolve` as far as it works
on the event, `dns_free`, and the delivery of a notification through `dns_on_async` to the callback
of the user. In a state with the invariant none of them makes an access to memory that has been
released.
-/

namespace Nanoev

open Transition Memory

namespace DnsSystem

variable {s t : DnsSystem} {d : ℕ} {e : DnsEvent} {o : Dns} {q : DnsRequest}

/-! ## Accesses -/

theorem onDns_eq {f : Dns → DnsSystem} (ho : (s.events d).dns = some o) : s.onDns d f = f o := by
  simp [onDns, ho]

theorem onAsyncEvent_eq {a : Async} {f : Async → DnsSystem} (ha : (s.events d).async = some a) :
    s.onAsyncEvent d f = f a := by
  simp [onAsyncEvent, ha]

theorem read_eq {b : Option ℕ} (hb : ∀ c, b = some c → s.blocks c ≠ none) : s.read b = s := by
  cases b with
  | none => rfl
  | some c => exact if_neg (hb c rfl)

theorem Inv.lt_of_dns (h : s.Inv) (ho : (s.events d).dns = some o) : d < s.nextEvent := by
  apply h.events.lt_of_ne
  intro hnone
  rw [hnone] at ho
  cases ho

theorem held_host (hq : (s.events d).stage.request = some q) :
    s.held (.host d) = some q.host := by
  rw [held, hq]
  rfl

theorem Inv.blocks_host (h : s.Inv) (hq : (s.events d).stage.request = some q) :
    s.blocks q.host = some (.host d) :=
  (h.blocks.held_iff _ _).mp (held_host hq)

theorem EventStep.record_of_same (l : EventStep s t d e) (h : s.RecordInv)
    (hcalls : t.calls = s.calls) (hdestroyed : t.destroyed = s.destroyed)
    (hclosed : t.closed = s.closed) (hn : s.nextBlock ≤ t.nextBlock)
    (hdead : ∀ b, b < s.nextBlock → s.blocks b = none → t.blocks b = none)
    (hevent : s.EventRecord e)
    (hst : (s.events d).stage.accepted = true →
      e.stage.accepted = true ∧ e.stage.request = (s.events d).stage.request)
    (hfreed : (s.events d).freed = true → e.freed = true)
    (hgone : e.dns = none ↔ (s.events d).dns = none) : t.RecordInv := by
  refine l.record h (Or.inl hcalls) (Or.inl ⟨hdestroyed, hclosed, hgone⟩) hn hdead hevent ?_ hfreed
  intro q hacc hq
  obtain ⟨hacc', hreq⟩ := hst hacc
  exact Or.inl ⟨hacc', hreq.trans hq⟩

/-! ## `nanoev_dns_resolve`

The host name is copied, the request is stored and the object is enqueued in three steps, since
other threads may run in between. When `dns_enqueue` fails the request is withdrawn, and the event
is idle again. -/

/-- A step that leaves the stage and the object as they are. -/
structure PlainStep (s t : DnsSystem) (d : ℕ) (e : DnsEvent) : Prop extends LoopStep s t d e where
  blocks : t.blocks = s.blocks
  nextBlock : t.nextBlock = s.nextBlock
  calls : t.calls = s.calls
  destroyed : t.destroyed = s.destroyed
  closed : t.closed = s.closed
  stage : e.stage = (s.events d).stage
  dns : e.dns = (s.events d).dns
  freed : e.freed = (s.events d).freed

theorem PlainStep.blocksInv (l : PlainStep s t d e) (h : s.Inv)
    (hdel : e.delivery.addrs = (s.events d).delivery.addrs) : t.BlocksInv := by
  refine h.blocks.congr l.blocks l.nextBlock fun x ↦ l.held_eq x (fun _ ↦ ?_) (fun _ ↦ ?_)
    (fun _ ↦ hdel)
  · rw [l.stage]
  · rw [l.dns]

theorem PlainStep.recordInv (l : PlainStep s t d e) (h : s.Inv)
    (htaken : ∀ x, e.delivery = .taken x → (s.events d).delivery = .taken x) : t.RecordInv := by
  refine l.record_of_same h.record l.calls l.destroyed l.closed l.nextBlock.ge ?_ ?_ ?_ ?_ ?_
  · rw [l.blocks]
    exact fun _ _ hb ↦ hb
  · have hrec := h.record.event d
    refine ⟨?_, ?_, ?_⟩
    · rw [l.stage]
      exact hrec.accepted
    · rw [l.stage, l.dns]
      exact hrec.published
    · rw [l.stage]
      exact fun q x hst hx ↦ hrec.taken q x hst (htaken x hx)
  · rw [l.stage]
    exact fun hacc ↦ ⟨hacc, rfl⟩
  · rw [l.freed]
    exact fun hf ↦ hf
  · rw [l.dns]

theorem PlainStep.keeps (l : PlainStep s t d e) (c : Calm s t d e) (h : s.Inv)
    (hne : s.events d ≠ .none) (hok : e.Ok d)
    (hdel : e.delivery.addrs = (s.events d).delivery.addrs)
    (htaken : ∀ x, e.delivery = .taken x → (s.events d).delivery = .taken x) : s.Keeps t := by
  have hd := h.events.lt_of_ne hne
  refine l.toLoopStep.keeps c h hd hok ?_ ?_ (l.blocksInv h hdel) (l.recordInv h htaken)
  · rw [l.dns, l.freed]
    exact h.events.gone d hd
  · exact fun _ ↦ ⟨l.stage, congrArg (·.bind Dns.queueNext) l.dns⟩

/-- `nanoev_dns_resolve` goes on without touching the object; it may change the pool. -/
theorem Inv.goto (h : s.Inv) (pc : ResolvePc) (hc : (s.events d).call ≠ .away)
    (hpc : pc.Fits (s.events d).stage) (l : PlainStep s t d { s.events d with call := pc }) :
    t.Inv := by
  have hne : s.events d ≠ .none := by
    intro hnone
    rw [hnone] at hc
    exact hc rfl
  have hd := h.events.lt_of_ne hne
  exact l.toLoopStep.inv h hd ((h.events.ok d).goto hpc ((h.events.ok d).not_freed hc))
    (h.events.gone d hd) (fun _ ↦ ⟨rfl, rfl⟩) (l.blocksInv h rfl) (l.recordInv h fun _ hx ↦ hx)

/-- The invariant does not depend on the program counters of `dns_term`, on the threads of the pool
that have not done anything, and on the records of calls and removals. -/
theorem Inv.rest {pool : DnsPool} {term : TermPc} {nextWorker : ℕ} {returned : List (ℕ × RetCode)}
    {dequeued : List Dequeued} (h : s.Inv)
    (hqueue : QueueInv { s with pool := pool }) :
    Inv { s with
      pool := pool, term := term, nextWorker := nextWorker, returned := returned
      dequeued := dequeued } := by
  have hr := h.record
  exact ⟨⟨h.events.ok, h.events.gone, h.events.unborn⟩, h.workers, hqueue,
    ⟨h.blocks.held_iff, h.blocks.fresh⟩,
    ⟨fun d ↦ ⟨(hr.event d).accepted, (hr.event d).published, (hr.event d).taken⟩,
      hr.accounted, hr.born, hr.nodup, hr.calls, hr.dead, hr.calls_nodup, hr.destroyed,
      hr.destroyed_nodup, hr.closed, hr.faults⟩⟩

theorem Inv.copy (h : s.Inv) (hfreed : (s.events d).freed = false) (ho : (s.events d).dns = some o)
    (hst : (s.events d).stage = .idle) (hq : q.event = d) (hhost : q.host = s.nextBlock)
    (l : LoopStep s t d { s.events d with call := .copied q, stage := .copied q })
    (c : Calm s t d { s.events d with call := .copied q, stage := .copied q })
    (hb : t.blocks = Function.update s.blocks s.nextBlock (some (.host d)))
    (hn : t.nextBlock = s.nextBlock + 1) (hcalls : t.calls = s.calls)
    (hdes : t.destroyed = s.destroyed) (hclosed : t.closed = s.closed) : s.Keeps t := by
  refine l.keeps c h (h.lt_of_dns ho) ((h.events.ok d).copy ho hst hfreed hq) ?_ ?_ ?_ ?_
  · exact fun hnone ↦ absurd (ho.symm.trans hnone) (Option.some_ne_none o)
  · intro hpool
    rw [hst] at hpool
    cases hpool
  · refine h.blocks.alloc (x := .host d) hb hn ?_ ?_ fun y hy ↦
      l.held_eq y (fun hyd ↦ absurd hyd hy) (fun _ ↦ rfl) (fun _ ↦ rfl)
    · rw [held, hst]
      rfl
    · rw [l.held_host]
      exact congrArg some hhost
  · refine l.record_of_same h.record hcalls hdes hclosed (by omega) ?_ (.of_not_accepted rfl) ?_ id
      Iff.rfl
    · intro b hlt hnone
      rw [hb, Function.update_of_ne hlt.ne]
      exact hnone
    · intro hacc
      rw [hst] at hacc
      cases hacc

theorem Inv.exists_dns_of_mayCall (h : s.Inv) (hmay : s.mayCall d) :
    ∃ o, (s.events d).dns = some o := by
  apply Option.ne_none_iff_exists'.mp
  intro hnone
  exact absurd (hmay.2.1.symm.trans (h.events.gone d hmay.1 hnone)) Bool.false_ne_true

theorem Inv.resolve {args : ResolveArgs} {memory : Bool} (h : s.Inv) (hmay : s.mayCall d) :
    s.Keeps (s.resolve d args memory) := by
  obtain ⟨o, ho⟩ := h.exists_dns_of_mayCall hmay
  obtain ⟨-, hfreed, hc, hclient⟩ := hmay
  rw [DnsSystem.resolve, onDns_eq ho]
  cases hret : o.refuses args memory with
  | some ret =>
    exact ⟨h.rest h.queue, rfl, rfl, rfl, rfl, rfl, fun _ ↦ Or.inl rfl, fun _ _ ↦ rfl,
      fun _ _ hq ↦ ⟨hq, rfl⟩⟩
  | none =>
    have hpending : o.pending = false := by
      by_contra hp
      simp only [Dns.refuses, Bool.eq_true_of_not_eq_false hp] at hret
      split_ifs at hret
      simp_all
    have hst := (h.events.ok d).idle_of_client ho hc hclient hpending
    exact h.copy hfreed ho hst rfl rfl ⟨⟨rfl, rfl, rfl, rfl, rfl⟩, rfl, rfl, rfl⟩
      ⟨rfl, rfl, rfl, rfl, nofun⟩ rfl rfl rfl rfl rfl

theorem Inv.submit (h : s.Inv) (hc : (s.events d).call = .copied q) :
    s.Keeps (s.submit d q) := by
  have hok := h.events.ok d
  have hst := hok.stage_of_copied hc
  obtain ⟨o, ho⟩ := hok.exists_dns (by rw [hst]; exact nofun)
  have haddrs : o.addrs = none := (hok.alive o ho).addrs (by rw [hst]; rfl)
  rw [DnsSystem.submit, onDns_eq ho]
  have l : LoopStep s (s.setEvent d { s.events d with
      dns := some (o.start q), call := .enqueue q, stage := .preparing q }) d _ :=
    ⟨⟨rfl, rfl, rfl, rfl, rfl⟩, rfl, rfl, rfl⟩
  refine l.keeps ⟨rfl, rfl, rfl, rfl, nofun⟩ h (h.lt_of_dns ho) (hok.submit ho hc) nofun ?_ ?_ ?_
  · intro hpool
    rw [hst] at hpool
    cases hpool
  · refine h.blocks.congr rfl rfl fun x ↦ l.held_eq x (fun _ ↦ ?_) (fun _ ↦ ?_) (fun _ ↦ rfl)
    · rw [hst]
      rfl
    · rw [ho]
      exact haddrs.symm
  · refine l.record_of_same h.record rfl rfl rfl le_rfl (fun _ _ hb ↦ hb)
      (.of_not_accepted rfl) ?_ id
      ?_
    · intro hacc
      rw [hst] at hacc
      cases hacc
    · rw [ho]
      exact ⟨nofun, nofun⟩

theorem LoopStep.blocks_of_idle (l : LoopStep s t d e) (h : s.BlocksInv)
    (hb : t.blocks = released s.blocks (s.held (.host d))) (hn : t.nextBlock = s.nextBlock)
    (hst : e.stage = .idle) (haddrs : e.dns.bind Dns.addrs = (s.events d).dns.bind Dns.addrs)
    (hdel : e.delivery.addrs = (s.events d).delivery.addrs) : t.BlocksInv := by
  refine h.release hb hn ?_ fun y hy ↦
    l.held_eq y (fun hyd ↦ absurd hyd hy) (fun _ ↦ haddrs) (fun _ ↦ hdel)
  rw [l.held_host, hst]
  rfl

theorem withdraw_eq (h : s.BlocksInv) (ho : (s.events d).dns = some o)
    (hheld : s.held (.host d) = some q.host) :
    s.withdraw d q = { s.setEvent d { s.events d with
        dns := some o.withdraw, call := .away, stage := .idle } with
      blocks := released s.blocks (s.held (.host d))
      returned := s.returned ++ [(d, .fail)] } := by
  rw [DnsSystem.withdraw, onDns_eq ho, hheld]
  dsimp only
  rw [memFree_eq]
  · rfl
  · exact fun c hc ↦ h.ne_none (hheld.trans hc)

theorem Inv.withdraw (h : s.Inv) (hc : (s.events d).call = .failed q) :
    s.Keeps (s.withdraw d q) := by
  have hok := h.events.ok d
  have hst := hok.stage_of_preparing (Or.inr (Or.inr (Or.inr hc)))
  obtain ⟨o, ho⟩ := hok.exists_dns (by rw [hst]; exact nofun)
  rw [withdraw_eq h.blocks ho (held_host (by rw [hst]; rfl))]
  have l : LoopStep s { s.setEvent d { s.events d with
        dns := some o.withdraw, call := .away, stage := .idle } with
      blocks := released s.blocks (s.held (.host d))
      returned := s.returned ++ [(d, .fail)] } d _ :=
    ⟨⟨rfl, rfl, rfl, rfl, rfl⟩, rfl, rfl, rfl⟩
  refine l.keeps ⟨rfl, rfl, rfl, rfl, nofun⟩ h (h.lt_of_dns ho) (hok.withdraw ho hc) nofun ?_ ?_ ?_
  · intro hpool
    rw [hst] at hpool
    cases hpool
  · refine l.blocks_of_idle h.blocks rfl rfl rfl ?_ rfl
    rw [ho]
    rfl
  · refine l.record_of_same h.record rfl rfl rfl le_rfl (fun _ _ hb ↦ released_eq_none hb)
      (.of_not_accepted rfl) ?_ id ?_
    · intro hacc
      rw [hst] at hacc
      cases hacc
    · rw [ho]
      exact ⟨nofun, nofun⟩

/-! ## `dns_free`

An event that is busy is only marked, and destroyed by `dns_on_async` once it has taken the answer;
an idle event is destroyed at once. In both cases the callback is not called any more. -/

theorem Inv.mark (h : s.Inv) (ho : (s.events d).dns = some o) (hc : (s.events d).call = .away)
    (hp : o.pending = true) :
    s.Keeps (s.setEvent d
      { s.events d with dns := some { o with deleted := true }, freed := true }) := by
  have hrec := h.record.event d
  have l : LoopStep s (s.setEvent d
      { s.events d with dns := some { o with deleted := true }, freed := true }) d _ :=
    ⟨⟨rfl, rfl, rfl, rfl, rfl⟩, rfl, rfl, rfl⟩
  refine l.keeps ⟨rfl, rfl, rfl, rfl, fun _ ↦ rfl⟩ h (h.lt_of_dns ho)
    ((h.events.ok d).mark ho hc hp) nofun ?_ ?_ ?_
  · refine fun _ ↦ ⟨rfl, ?_⟩
    rw [DnsEvent.next, DnsEvent.next, ho]
    rfl
  · refine h.blocks.congr rfl rfl fun x ↦ l.held_eq x (fun _ ↦ rfl) (fun _ ↦ ?_) (fun _ ↦ rfl)
    rw [ho]
    rfl
  · refine l.record_of_same h.record rfl rfl rfl le_rfl (fun _ _ hb ↦ hb)
      ⟨hrec.accepted, ?_, hrec.taken⟩ (fun hacc ↦ ⟨hacc, rfl⟩) (fun _ ↦ rfl) ?_
    · rintro q _ hcompleted hq ho'
      obtain rfl := Option.some.inj ho'
      exact hrec.published q o hcompleted hq ho
    · rw [ho]
      exact ⟨nofun, nofun⟩

/-- `dns_destroy` releases an idle object, and at once its async event with both ends of the
pipe. -/
theorem dnsDestroy_eq {a : Async} (ho : (s.events d).dns = some o)
    (ha : (s.events d).async = some a) (hfor : a.ForDns d) (hquiet : a.Quiet)
    (hhost : o.host = none) (haddrs : o.addrs = none) :
    s.dnsDestroy d = { s.setEvent d { s.events d with dns := none, async := none } with
      destroyed := s.destroyed ++ [d]
      closed := s.closed ++ [2 * d, 2 * d + 1] } := by
  have hdefers : a.asyncFreeDefers = false := by
    rw [Async.asyncFreeDefers, hquiet.1, hfor.reading]
    rfl
  have hpipes : a.closePipes.filterMap IoEffect.closed? = [2 * d, 2 * d + 1] := by
    obtain ⟨k, hk, hfd⟩ := Option.map_eq_some_iff.mp hfor.pipeR
    simp [Async.closePipes, hk, hfd, hfor.pipeW, IoEffect.closed?]
  rw [dnsDestroy, onDns_eq ho, onAsyncEvent_eq ha]
  simp [hdefers, hpipes, hhost, haddrs, memFree, setEvent]

theorem Inv.destroy {pc : OnAsyncPc} (h : s.Inv) (ho : (s.events d).dns = some o)
    (hst : (s.events d).stage = .idle) (hc : (s.events d).call = .away) (hpc : pc.between = true)
    (l : LoopStep s t d
      { s.events d with dns := none, async := none, delivery := pc, freed := true })
    (c : Calm s t d
      { s.events d with dns := none, async := none, delivery := pc, freed := true })
    (hblocks : t.BlocksInv) (hn : t.nextBlock = s.nextBlock)
    (hdead : ∀ b, s.blocks b = none → t.blocks b = none) (hcalls : t.calls = s.calls)
    (hdes : t.destroyed = s.destroyed ++ [d])
    (hclosed : t.closed = s.closed ++ [2 * d, 2 * d + 1]) : s.Keeps t := by
  have hlt := h.lt_of_dns ho
  have hok := h.events.ok d
  refine l.keeps c h hlt ⟨hok.request, ?_, fun _ ↦ hc, fun _ ↦ ⟨hst, rfl, hpc⟩, nofun⟩ (fun _ ↦ rfl)
    ?_ hblocks ?_
  · rw [hc]
    exact Or.inl hst
  · intro hpool
    rw [hst] at hpool
    cases hpool
  · refine l.record h.record (Or.inl hcalls)
      (Or.inr ⟨hdes, hclosed, by rw [ho]; exact Option.some_ne_none o, rfl, hlt⟩) hn.ge
      (fun b _ ↦ hdead b) ?_ ?_ (fun _ ↦ rfl)
    · apply EventRecord.of_not_accepted
      rw [hst]
      rfl
    · intro _ hacc
      rw [hst] at hacc
      cases hacc

theorem dnsFree_eq_mark (ho : (s.events d).dns = some o) (hp : o.pending = true) :
    s.dnsFree d = s.setEvent d
      { s.events d with dns := some { o with deleted := true }, freed := true } := by
  simp [dnsFree, onDns, setEvent, ho, hp]

theorem dnsFree_eq_destroy {a : Async} (ho : (s.events d).dns = some o) (hp : o.pending = false)
    (ha : (s.events d).async = some a) (hfor : a.ForDns d) (hquiet : a.Quiet)
    (hhost : o.host = none) (haddrs : o.addrs = none) :
    s.dnsFree d = { s.setEvent d
      { s.events d with dns := none, async := none, freed := true } with
        destroyed := s.destroyed ++ [d]
        closed := s.closed ++ [2 * d, 2 * d + 1] } := by
  have hdns : ((s.setEvent d { s.events d with freed := true }).events d).dns = some o := by
    simp [setEvent, ho]
  rw [dnsFree, onDns_eq hdns, if_neg (by simp [hp]),
    dnsDestroy_eq (a := a) hdns (by simp [setEvent, ha]) hfor hquiet hhost haddrs]
  simp [setEvent]

theorem Inv.free (h : s.Inv) (hmay : s.mayCall d) : s.Keeps (s.dnsFree d) := by
  obtain ⟨o, ho⟩ := h.exists_dns_of_mayCall hmay
  obtain ⟨-, hfreed, hc, hclient⟩ := hmay
  have hok := h.events.ok d
  have halive := hok.alive o ho
  cases hp : o.pending with
  | true =>
    rw [dnsFree_eq_mark ho hp]
    exact h.mark ho hc hp
  | false =>
    have hst := hok.idle_of_client ho hc hclient hp
    obtain ⟨a, ha, hfor, hnotice⟩ := halive.notice
    rw [hst, hfreed] at hnotice
    obtain ⟨hquiet, hbetween⟩ := hnotice
    have hhost : o.host = none := halive.host (by rw [hst]; rfl)
    have haddrs : o.addrs = none := halive.addrs (by rw [hst]; rfl)
    rw [dnsFree_eq_destroy ho hp ha hfor hquiet hhost haddrs]
    have l : LoopStep s { s.setEvent d { s.events d with dns := none, async := none, freed := true }
        with destroyed := s.destroyed ++ [d], closed := s.closed ++ [2 * d, 2 * d + 1] } d
        { s.events d with
          dns := none, async := none, delivery := (s.events d).delivery, freed := true } :=
      ⟨⟨rfl, rfl, rfl, rfl, rfl⟩, rfl, rfl, rfl⟩
    refine h.destroy ho hst hc hbetween l ⟨rfl, rfl, rfl, rfl, fun _ ↦ rfl⟩ ?_ rfl
      (fun _ hb ↦ hb) rfl
      rfl rfl
    refine h.blocks.congr rfl rfl fun x ↦ l.held_eq x (fun _ ↦ rfl) (fun _ ↦ ?_) (fun _ ↦ rfl)
    rw [ho]
    exact haddrs.symm

/-! ## The delivery of a notification

A byte in the pipe, a completion that has not been delivered and the call of `dns_on_async` stand
for the same notification, which is that of the request of the event. So the answer has been
published when `dns_on_async` takes it, and the addresses are allocated until the callback has
returned. -/

theorem Inv.reactorCb {a : Async} {sys : Sys} (h : s.Inv) (ha : (s.events d).async = some a)
    (hpc : (s.events d).delivery = .away) (hbytes : 0 < a.pipeBytes)
    (hk : a.reactorKernel sys = true) : s.Keeps (s.reactorCb d a sys) := by
  have l : PlainStep s (s.reactorCb d a sys) d _ :=
    ⟨⟨⟨rfl, rfl, rfl, rfl, rfl⟩, rfl, rfl, rfl⟩, rfl, rfl, rfl, rfl, rfl, rfl, rfl, rfl⟩
  refine l.keeps ⟨rfl, rfl, rfl, rfl, fun _ ↦ rfl⟩ h ?_ ((h.events.ok d).reactorCb ha hbytes hk) ?_
    nofun
  · intro hnone
    rw [hnone] at ha
    cases ha
  · rw [hpc]
    rfl

theorem Inv.deliver (h : s.Inv) (hpc : (s.events d).delivery = .completed) :
    s.Keeps (s.asyncProactorCallback d) := by
  have hok := h.events.ok d
  obtain ⟨-, -, a, -, -, -, ha, -⟩ := hok.of_completed hpc
  rw [asyncProactorCallback, onAsyncEvent_eq ha]
  have l : PlainStep s (s.setEvent d { s.events d with
      async := some a.asyncProactorCallback.1
      delivery := if a.asyncProactorCallback.2 = [] then .away else .calling }) d _ :=
    ⟨⟨⟨rfl, rfl, rfl, rfl, rfl⟩, rfl, rfl, rfl⟩, rfl, rfl, rfl, rfl, rfl, rfl, rfl, rfl⟩
  refine l.keeps ⟨rfl, rfl, rfl, rfl, fun _ ↦ rfl⟩ h ?_ (hok.deliver ha hpc) ?_ ?_
  · intro hnone
    rw [hnone] at ha
    cases ha
  · rw [hpc]
    dsimp only
    split_ifs <;> rfl
  · intro x hx
    dsimp only at hx
    split_ifs at hx

theorem dnsOnAsync_eq {a : Async} (h : s.BlocksInv) (ha : (s.events d).async = some a)
    (ho : (s.events d).dns = some o) (hcompleted : o.completed = true)
    (hst : (s.events d).stage = .notified q) :
    s.dnsOnAsync d = { s.setEvent d { s.events d with
      dns := some o.take, delivery := .taken o.taken, stage := .delivering q } with
        blocks := given s.blocks (.delivered d) (s.held (.addrs d)) } := by
  have hheld : s.held (.addrs d) = o.addrs := by
    rw [held, ho]
    rfl
  rw [dnsOnAsync, onAsyncEvent_eq ha, onDns_eq ho, if_pos hcompleted]
  dsimp only
  rw [hst, hheld, give_eq]
  · rfl
  · exact fun c hc ↦ h.ne_none (hheld.trans hc)

theorem Inv.onAsync (h : s.Inv) (hpc : (s.events d).delivery = .calling) :
    s.Keeps (s.dnsOnAsync d) := by
  have hok := h.events.ok d
  obtain ⟨q, o, a, hst, ho, halive, ha, -⟩ := hok.of_calling hpc
  have hcompleted : o.completed = true := by
    rw [halive.completed, hst]
    rfl
  rw [dnsOnAsync_eq h.blocks ha ho hcompleted hst]
  have l : LoopStep s { s.setEvent d { s.events d with
      dns := some o.take, delivery := .taken o.taken, stage := .delivering q } with
        blocks := given s.blocks (.delivered d) (s.held (.addrs d)) } d _ :=
    ⟨⟨rfl, rfl, rfl, rfl, rfl⟩, rfl, rfl, rfl⟩
  have hrec := h.record.event d
  refine l.keeps ⟨rfl, rfl, rfl, rfl, fun _ ↦ rfl⟩ h (h.lt_of_dns ho) (hok.take ho hpc hst)
    (by simp) ?_ ?_ ?_
  · intro hpool
    rw [hst] at hpool
    cases hpool
  · refine h.blocks.give (x := .addrs d) (y := .delivered d) (by simp) ?_ rfl rfl ?_ ?_ ?_
    · rw [held, hpc]
      rfl
    · exact l.held_addrs
    · rw [l.held_delivered, held, ho]
      rfl
    · refine fun z hzx hzy ↦
        l.held_eq z (fun _ ↦ ?_) (fun hz ↦ absurd hz hzx) (fun hz ↦ absurd hz hzy)
      rw [hst]
      rfl
  · refine l.record_of_same h.record rfl rfl rfl le_rfl (fun _ _ hb ↦ h.blocks.given_eq_none hb)
      ⟨?_, fun _ _ hc ↦ absurd hc Bool.false_ne_true, ?_⟩ (fun _ ↦ ⟨rfl, by rw [hst]; rfl⟩) id ?_
    · exact hrec.accepted_of_stage (by rw [hst]; rfl) (by rw [hst]; rfl)
    · rintro q' t hq' ht
      obtain rfl := Stage.delivering.inj hq'
      obtain rfl := OnAsyncPc.taken.inj ht
      exact hrec.published q o (by rw [hst]; rfl) (by rw [hst]; rfl) ho
    · simp [ho]

theorem memFree_taken {x : Taken} {freed : Bool} (h : s.BlocksInv) (hfor : x.For q freed)
    (hheld : s.held (.host d) = some q.host) :
    s.memFree x.host = { s with blocks := released s.blocks (s.held (.host d)) } := by
  rw [hfor.host, hheld]
  exact memFree_eq fun c hc ↦ h.ne_none (hheld.trans hc)

theorem invoke_eq_call {x : Taken} (h : s.BlocksInv) (hfor : x.For q (s.events d).freed)
    (hheld : s.held (.host d) = some q.host) (hfreed : (s.events d).freed = false) :
    s.invoke d x = { s.setEvent d { s.events d with
      delivery := .inCallback x.answer.addrs, stage := .idle } with
        blocks := released s.blocks (s.held (.host d))
        calls := s.calls ++ [⟨d, x.host, q.callback, x.answer, false⟩] } := by
  simp only [DnsSystem.invoke, memFree_taken h hfor hheld, hfor.deleted, hfor.callback, hfreed]
  rfl

theorem invoke_eq_skip {x : Taken} (h : s.BlocksInv) (hfor : x.For q (s.events d).freed)
    (hheld : s.held (.host d) = some q.host) (hfreed : (s.events d).freed = true) :
    s.invoke d x = { s.setEvent d { s.events d with
      delivery := .finishing x.answer.addrs true, stage := .idle } with
        blocks := released s.blocks (s.held (.host d)) } := by
  simp only [DnsSystem.invoke, memFree_taken h hfor hheld, hfor.deleted, hfor.callback, hfreed]
  rfl

theorem Inv.invoke {x : Taken} (h : s.Inv) (hpc : (s.events d).delivery = .taken x) :
    s.Keeps (s.invoke d x) := by
  have hok := h.events.ok d
  obtain ⟨q, o, a, hst, hfor, ho, -⟩ := hok.of_taken hpc
  have hrec := h.record.event d
  have hreq : (s.events d).stage.request = some q := by
    rw [hst]
    rfl
  have hheld : s.held (.host d) = some q.host := held_host hreq
  have hrelease : released s.blocks (s.held (.host d)) q.host = none := by
    rw [hheld]
    exact Function.update_self ..
  have hpool : (s.events d).stage.pool = false := by
    rw [hst]
    rfl
  cases hfreed : (s.events d).freed with
  | false =>
    -- the call answers the request, whose host name is released in the same step
    rw [invoke_eq_call h.blocks hfor hheld hfreed]
    have l : LoopStep s { s.setEvent d { s.events d with
        delivery := .inCallback x.answer.addrs, stage := .idle } with
          blocks := released s.blocks (s.held (.host d))
          calls := s.calls ++ [⟨d, x.host, q.callback, x.answer, false⟩] } d _ :=
      ⟨⟨rfl, rfl, rfl, rfl, rfl⟩, rfl, rfl, rfl⟩
    refine l.keeps ⟨rfl, rfl, rfl, rfl, fun _ ↦ rfl⟩ h (h.lt_of_dns ho) (hok.invoke hpc ?_) ?_ ?_ ?_
      ?_
    · rw [hfreed]
      rfl
    · exact fun hnone ↦ absurd (ho.symm.trans hnone) (Option.some_ne_none o)
    · exact fun hp ↦ absurd (hpool.symm.trans hp) Bool.false_ne_true
    · refine l.blocks_of_idle h.blocks rfl rfl rfl rfl ?_
      rw [hpc]
      rfl
    · refine l.record h.record (Or.inr ⟨_, rfl, rfl, ?_, ?_⟩) (Or.inl ⟨rfl, rfl, Iff.rfl⟩) le_rfl
        (fun _ _ hb ↦ released_eq_none hb) (.of_not_accepted rfl) ?_ id
      · exact ⟨q, hrec.accepted q (by rw [hst]; rfl) hreq, hok.request q hreq, hfor.host, rfl,
          hrec.taken q x hst hpc⟩
      · exact ⟨q.host, hfor.host, h.blocks.ne_none hheld, hrelease⟩
      · rintro q' - hq'
        obtain rfl := Option.some.inj (hreq.symm.trans hq')
        refine Or.inr ⟨hrelease, Or.inl ?_⟩
        rw [List.map_append]
        exact List.mem_append_right _ (List.mem_singleton.mpr hfor.host.symm)
  | true =>
    -- the request is done because the event has been freed
    rw [invoke_eq_skip h.blocks hfor hheld hfreed]
    have l : LoopStep s { s.setEvent d { s.events d with
        delivery := .finishing x.answer.addrs true, stage := .idle } with
          blocks := released s.blocks (s.held (.host d)) } d _ :=
      ⟨⟨rfl, rfl, rfl, rfl, rfl⟩, rfl, rfl, rfl⟩
    refine l.keeps ⟨rfl, rfl, rfl, rfl, fun _ ↦ rfl⟩ h (h.lt_of_dns ho) (hok.invoke hpc ?_)
      (fun _ ↦ hfreed) ?_ ?_ ?_
    · rw [hfreed]
      exact ⟨_, rfl⟩
    · exact fun hp ↦ absurd (hpool.symm.trans hp) Bool.false_ne_true
    · refine l.blocks_of_idle h.blocks rfl rfl rfl rfl ?_
      rw [hpc]
      rfl
    · refine l.record h.record (Or.inl rfl) (Or.inl ⟨rfl, rfl, Iff.rfl⟩) le_rfl
        (fun _ _ hb ↦ released_eq_none hb) (.of_not_accepted rfl) ?_ id
      rintro q' - hq'
      obtain rfl := Option.some.inj (hreq.symm.trans hq')
      refine Or.inr ⟨hrelease, Or.inr ?_⟩
      rw [hok.request q hreq]
      simp [setEvent, hfreed]

theorem Inv.read_addrs {b : Option ℕ} (h : s.Inv) (hpc : (s.events d).delivery = .inCallback b) :
    s.read b = s := by
  refine read_eq fun c hc ↦ h.blocks.ne_none (x := .delivered d) ?_
  rw [held, hpc]
  exact hc

theorem Inv.callbackReturn {b : Option ℕ} (h : s.Inv)
    (hpc : (s.events d).delivery = .inCallback b) : s.Keeps (s.callbackReturn d b) := by
  have l : PlainStep s (s.callbackReturn d b) d _ :=
    ⟨⟨⟨rfl, rfl, rfl, rfl, rfl⟩, rfl, rfl, rfl⟩, rfl, rfl, rfl, rfl, rfl, rfl, rfl, rfl⟩
  refine l.keeps ⟨rfl, rfl, rfl, rfl, fun _ ↦ rfl⟩ h ?_
    ((h.events.ok d).goBetween (by rw [hpc]; rfl) rfl) ?_ nofun
  · intro hnone
    rw [hnone] at hpc
    cases hpc
  · rw [hpc]
    rfl

theorem LoopStep.blocks_of_finish (l : LoopStep s t d e) (h : s.BlocksInv)
    (hb : t.blocks = released s.blocks (s.held (.delivered d))) (hn : t.nextBlock = s.nextBlock)
    (hreq : e.stage = (s.events d).stage)
    (haddrs : e.dns.bind Dns.addrs = (s.events d).dns.bind Dns.addrs)
    (hdel : e.delivery.addrs = none) : t.BlocksInv := by
  refine h.release hb hn (l.held_delivered.trans hdel) fun y hy ↦
    l.held_eq y (fun _ ↦ ?_) (fun _ ↦ haddrs) (fun hyd ↦ absurd hyd hy)
  rw [hreq]

theorem finish_eq {b : Option ℕ} (h : s.BlocksInv) (hheld : s.held (.delivered d) = b) :
    s.finish d b false = { s.setEvent d { s.events d with delivery := .away } with
      blocks := released s.blocks (s.held (.delivered d)) } := by
  rw [DnsSystem.finish, memFree_eq fun c hc ↦ h.ne_none (hheld.trans hc), hheld]
  rfl

theorem finish_eq_destroy {b : Option ℕ} {a : Async} (h : s.BlocksInv)
    (hheld : s.held (.delivered d) = b) (ho : (s.events d).dns = some o)
    (ha : (s.events d).async = some a) (hfor : a.ForDns d) (hquiet : a.Quiet)
    (hhost : o.host = none) (haddrs : o.addrs = none) :
    s.finish d b true = { s.setEvent d
      { s.events d with dns := none, async := none, delivery := .away } with
        blocks := released s.blocks (s.held (.delivered d))
        destroyed := s.destroyed ++ [d]
        closed := s.closed ++ [2 * d, 2 * d + 1] } := by
  rw [DnsSystem.finish, memFree_eq fun c hc ↦ h.ne_none (hheld.trans hc), if_pos rfl,
    dnsDestroy_eq (o := o) (a := a) _ _ hfor hquiet hhost haddrs]
  · simp [setEvent, hheld]
  · simp [setEvent, ho]
  · simp [setEvent, ha]

theorem Inv.finish {b : Option ℕ} {deleted : Bool} (h : s.Inv)
    (hpc : (s.events d).delivery = .finishing b deleted) : s.Keeps (s.finish d b deleted) := by
  have hok := h.events.ok d
  have hrec := h.record.event d
  have hheld : s.held (.delivered d) = b := by
    rw [held, hpc]
    rfl
  cases deleted with
  | false =>
    rw [finish_eq h.blocks hheld]
    have l : LoopStep s { s.setEvent d { s.events d with delivery := .away } with
        blocks := released s.blocks (s.held (.delivered d)) } d _ :=
      ⟨⟨rfl, rfl, rfl, rfl, rfl⟩, rfl, rfl, rfl⟩
    have hne : s.events d ≠ .none := by
      intro hnone
      rw [hnone] at hpc
      cases hpc
    have hlt := h.events.lt_of_ne hne
    refine l.keeps ⟨rfl, rfl, rfl, rfl, fun _ ↦ rfl⟩ h hlt (hok.goBetween (by rw [hpc]; rfl) rfl)
      (h.events.gone d hlt) (fun _ ↦ ⟨rfl, rfl⟩) ?_ ?_
    · exact l.blocks_of_finish h.blocks rfl rfl rfl rfl rfl
    · exact l.record_of_same h.record rfl rfl rfl le_rfl (fun _ _ hb ↦ released_eq_none hb)
        ⟨hrec.accepted, hrec.published, by simp⟩ (fun hacc ↦ ⟨hacc, rfl⟩) id Iff.rfl
  | true =>
    obtain ⟨o, a, hst, hfreed, ho, halive, ha, hfor, hquiet⟩ := hok.of_finishing hpc
    have hhost : o.host = none := halive.host (by rw [hst]; rfl)
    have haddrs : o.addrs = none := halive.addrs (by rw [hst]; rfl)
    rw [finish_eq_destroy h.blocks hheld ho ha hfor hquiet hhost haddrs]
    have l : LoopStep s { s.setEvent d
        { s.events d with dns := none, async := none, delivery := .away } with
          blocks := released s.blocks (s.held (.delivered d))
          destroyed := s.destroyed ++ [d]
          closed := s.closed ++ [2 * d, 2 * d + 1] } d
        { s.events d with dns := none, async := none, delivery := .away, freed := true } := by
      refine ⟨⟨?_, rfl, rfl, rfl, rfl⟩, rfl, rfl, rfl⟩
      rw [← hfreed]
      rfl
    refine h.destroy ho hst (hok.away hfreed) rfl l ⟨rfl, rfl, rfl, rfl, fun _ ↦ rfl⟩ ?_ rfl
      (fun _ hb ↦ released_eq_none hb) rfl rfl rfl
    refine l.blocks_of_finish h.blocks rfl rfl rfl ?_ rfl
    rw [ho]
    exact haddrs.symm

end DnsSystem

end Nanoev
