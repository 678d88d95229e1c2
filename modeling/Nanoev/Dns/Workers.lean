import Nanoev.Dns.Delivery
import Nanoev.Io.TcpOutcome

/-!
# The queue and the threads of the pool

The operations on the queue, and those of the threads of the pool, keep the invariant. An object
that `dns_enqueue` links is not in the queue, because its request is not accepted yet. A thread of
the pool uses an object only while the stage of the event says so, and the stage changes only after
the thread has made its last access to the object and its async event.
-/

namespace Nanoev

open Transition Memory

namespace DnsSystem

/-! ## The queue

Linking an object changes its own link and that of the last object, or the head; no thread looks at
the links but under the lock. Only the queue depends on them (`Ok.relink`), so the rest of the
invariant is carried over. -/

section Queue

variable {s t : DnsSystem} {d w : ℕ} {e : DnsEvent} {o : Dns} {q : DnsRequest}

/-- The same events, except for the links of their objects. -/
structure Relinked (s t : DnsSystem) : Prop where
  events : ∀ k, ∃ next, t.events k =
    { s.events k with dns := (s.events k).dns.map fun o ↦ { o with queueNext := next } }
  workers : t.workers = s.workers
  nextEvent : t.nextEvent = s.nextEvent
  blocks : t.blocks = s.blocks
  nextBlock : t.nextBlock = s.nextBlock
  accepted : t.accepted = s.accepted
  answers : t.answers = s.answers
  calls : t.calls = s.calls
  destroyed : t.destroyed = s.destroyed
  closed : t.closed = s.closed
  faults : t.faults = s.faults

namespace Relinked

theorem stage (r : Relinked s t) (k : ℕ) : (t.events k).stage = (s.events k).stage := by
  obtain ⟨next, hk⟩ := r.events k
  rw [hk]

theorem freed (r : Relinked s t) (k : ℕ) : (t.events k).freed = (s.events k).freed := by
  obtain ⟨next, hk⟩ := r.events k
  rw [hk]

theorem delivery (r : Relinked s t) (k : ℕ) : (t.events k).delivery = (s.events k).delivery := by
  obtain ⟨next, hk⟩ := r.events k
  rw [hk]

theorem dns (r : Relinked s t) (k : ℕ) : ∃ next,
    (t.events k).dns = (s.events k).dns.map fun o ↦ { o with queueNext := next } := by
  obtain ⟨next, hk⟩ := r.events k
  exact ⟨next, by rw [hk]⟩

theorem dns_eq_none (r : Relinked s t) (k : ℕ) :
    (t.events k).dns = none ↔ (s.events k).dns = none := by
  obtain ⟨next, hk⟩ := r.dns k
  rw [hk, Option.map_eq_none_iff]

theorem eventsInv (r : Relinked s t) (h : s.EventsInv) : t.EventsInv := by
  refine ⟨?_, ?_, ?_⟩
  · intro k
    obtain ⟨next, hk⟩ := r.events k
    rw [hk]
    cases ho : (s.events k).dns with
    | none =>
      rw [Option.map_none, ← ho]
      exact h.ok k
    | some o => exact (h.ok k).relink ho
  · intro k hk hnone
    rw [r.freed k]
    exact h.gone k (r.nextEvent ▸ hk) ((r.dns_eq_none k).mp hnone)
  · intro k hk
    obtain ⟨next, hk'⟩ := r.events k
    rw [hk', h.unborn k (r.nextEvent ▸ hk)]
    rfl

theorem held (r : Relinked s t) (x : BlockOwner) : t.held x = s.held x := by
  cases x with
  | host k => rw [DnsSystem.held, DnsSystem.held, r.stage k]
  | result k => rw [DnsSystem.held, DnsSystem.held, r.workers]
  | delivered k => rw [DnsSystem.held, DnsSystem.held, r.delivery k]
  | addrs k =>
    obtain ⟨next, hk⟩ := r.dns k
    rw [DnsSystem.held, DnsSystem.held, hk]
    cases (s.events k).dns <;> rfl

theorem recordInv (r : Relinked s t) (h : s.RecordInv) : t.RecordInv := by
  have hdone : ∀ q, s.Done q → t.Done q := by
    rintro q ⟨hb, hq⟩
    rw [Done, r.blocks, r.calls, r.freed]
    exact ⟨hb, hq⟩
  refine h.of_same_calls r.calls r.destroyed r.closed r.faults (r.accepted ▸ List.Subset.refl _)
    (fun b _ ↦ by rw [r.answers]) (fun b _ hb ↦ by rwa [r.blocks]) ?_ ?_ ?_ ?_ ?_
  · intro k
    rw [r.nextEvent, r.dns_eq_none]
  · intro k
    have hk := h.event k
    refine ⟨?_, ?_, ?_⟩
    · rw [r.stage k, r.accepted]
      exact hk.accepted
    · rw [r.stage k, r.answers]
      intro q o hcompleted hq ho
      obtain ⟨next, hdns⟩ := r.dns k
      obtain ⟨o', ho', rfl⟩ := Option.map_eq_some_iff.mp (hdns.symm.trans ho)
      exact hk.published q o' hcompleted hq ho'
    · rw [r.stage k, r.delivery k, r.answers]
      exact hk.taken
  · rw [r.accepted]
    intro q hq
    rw [r.stage]
    exact (h.accounted q hq).imp_right (hdone q)
  · rw [r.accepted, r.nextBlock]
    exact h.born
  · rw [r.accepted]
    exact h.nodup

theorem inv (r : Relinked s t) (h : s.Inv) (hqueue : t.QueueInv) : t.Inv := by
  refine ⟨r.eventsInv h.events, ?_, hqueue, ?_, r.recordInv h.record⟩
  · intro w
    exact (h.workers w).congr (congrFun r.workers w) (fun k _ _ ↦ r.stage k)
      (fun _ _ _ ↦ by rw [r.answers])
  · exact h.blocks.congr r.blocks r.nextBlock r.held

end Relinked

/-- The links after `d` has been linked behind the last object. -/
def nextLinked (s : DnsSystem) (d k : ℕ) : Option ℕ :=
  if k = d then none else if s.pool.tail = some k then some d else (s.events k).next

def linked (s : DnsSystem) (d k : ℕ) : DnsEvent :=
  { s.events k with
    dns := (s.events k).dns.map fun o ↦ { o with queueNext := s.nextLinked d k } }

theorem linked_of_ne {k : ℕ} (hk : k ≠ d) (htail : s.pool.tail ≠ some k) :
    s.linked d k = s.events k := by
  rw [linked, nextLinked, if_neg hk, if_neg htail]
  obtain ⟨dns, async, call, delivery, stage, freed⟩ := s.events k
  cases dns <;> rfl

theorem link_eq (ho : (s.events d).dns = some o)
    (htail : ∀ k, s.pool.tail = some k → k ≠ d ∧ (s.events k).dns.isSome = true) :
    s.link d = { s with
      events := s.linked d
      pool := { s.pool with
        head := if s.pool.tail = none then some d else s.pool.head, tail := some d } } := by
  have hd : s.linked d d = { s.events d with dns := some { o with queueNext := none } } := by
    simp [linked, nextLinked, ho]
  rw [link, onDns_eq ho]
  cases hk : s.pool.tail with
  | none =>
    have hev : Function.update s.events d
        { s.events d with dns := some { o with queueNext := none } } = s.linked d := by
      funext k
      rcases eq_or_ne k d with rfl | hkd
      · rw [Function.update_self, hd]
      · rw [Function.update_of_ne hkd, linked_of_ne hkd (by rw [hk]; nofun)]
    simp only [setEvent, hk, hev, if_true]
  | some k =>
    obtain ⟨hkd, ho'⟩ := htail k hk
    obtain ⟨o', ho'⟩ := Option.isSome_iff_exists.mp ho'
    have hev : Function.update (Function.update s.events d
        { s.events d with dns := some { o with queueNext := none } }) k
          { s.events k with dns := some { o' with queueNext := some d } } = s.linked d := by
      funext j
      rcases eq_or_ne j k with rfl | hjk
      · simp [linked, nextLinked, ho', hkd, hk]
      · rw [Function.update_of_ne hjk]
        rcases eq_or_ne j d with rfl | hjd
        · rw [Function.update_self, hd]
        · rw [Function.update_of_ne hjd, linked_of_ne hjd]
          rw [hk]
          exact fun heq ↦ hjk (Option.some.inj heq).symm
    simp [setEvent, hk, onDns, Function.update_of_ne hkd, ho', hev]

/-- A request is accepted, and the event not linked yet. -/
structure AcceptStep (s t : DnsSystem) (d : ℕ) (q : DnsRequest) : Prop where
  events : t.events = Function.update s.events d
    { s.events d with call := .away, stage := .queued q }
  workers : t.workers = s.workers
  nextEvent : t.nextEvent = s.nextEvent
  head : t.pool.head = s.pool.head
  tail : t.pool.tail = s.pool.tail
  blocks : t.blocks = s.blocks
  nextBlock : t.nextBlock = s.nextBlock
  accepted : t.accepted = s.accepted ++ [q]
  answers : t.answers = s.answers
  calls : t.calls = s.calls
  destroyed : t.destroyed = s.destroyed
  closed : t.closed = s.closed
  faults : t.faults = s.faults

theorem AcceptStep.events_of_ne (l : AcceptStep s t d q) {k : ℕ} (hk : k ≠ d) :
    t.events k = s.events k := by
  rw [l.events, Function.update_of_ne hk]

theorem AcceptStep.record (l : AcceptStep s t d q) (h : s.RecordInv) (hb : s.BlocksInv)
    (hst : (s.events d).stage = .preparing q) (hq : q.event = d) : t.RecordInv := by
  have hheld : s.held (.host d) = some q.host := held_host (by rw [hst]; rfl)
  have hself : t.events d = { s.events d with call := .away, stage := .queued q } := by
    rw [l.events, Function.update_self]
  have hfreed : ∀ k, (t.events k).freed = (s.events k).freed := by
    intro k
    rcases eq_or_ne k d with rfl | hk
    · rw [hself]
    · rw [l.events_of_ne hk]
  have hdns : ∀ k, (t.events k).dns = (s.events k).dns := by
    intro k
    rcases eq_or_ne k d with rfl | hk
    · rw [hself]
    · rw [l.events_of_ne hk]
  have hsub : s.accepted ⊆ t.accepted := l.accepted ▸ List.subset_append_left _ _
  -- an older request of the event is done with
  have hold : ∀ q' ∈ s.accepted, q'.event ≠ d ∧ ((s.events q'.event).stage.accepted = true ∧
      (s.events q'.event).stage.request = some q') ∨ s.Done q' := by
    intro q' hq'
    rcases h.accounted q' hq' with ⟨ha, hr⟩ | hdone
    · refine Or.inl ⟨?_, ha, hr⟩
      intro heq
      rw [heq, hst] at ha
      cases ha
    · exact Or.inr hdone
  refine h.of_same_calls l.calls l.destroyed l.closed l.faults hsub (fun b _ ↦ by rw [l.answers])
    (fun b _ hb ↦ by rwa [l.blocks]) (fun k ↦ by rw [l.nextEvent, hdns]) ?_ ?_ ?_ ?_
  · intro k
    rcases eq_or_ne k d with rfl | hk
    · rw [hself]
      refine ⟨?_, fun _ _ hc ↦ absurd hc Bool.false_ne_true, nofun⟩
      rintro q' - hq'
      rw [← Option.some.inj hq', l.accepted]
      exact List.mem_append_right _ (List.mem_singleton_self q)
    · rw [l.events_of_ne hk]
      exact (h.event k).mono hsub fun _ _ _ ↦ by rw [l.answers]
  · rw [l.accepted]
    intro q' hq'
    rcases List.mem_append.mp hq' with hq' | hq'
    · rcases hold q' hq' with ⟨hne, ha⟩ | ⟨hblock, hdone⟩
      · rw [l.events_of_ne hne]
        exact Or.inl ha
      · refine Or.inr ⟨l.blocks ▸ hblock, ?_⟩
        rw [l.calls, hfreed]
        exact hdone
    · obtain rfl := List.mem_singleton.mp hq'
      rw [hq, hself]
      exact Or.inl ⟨rfl, rfl⟩
  · rw [l.accepted, l.nextBlock]
    intro q' hq'
    rcases List.mem_append.mp hq' with hq' | hq'
    · exact h.born q' hq'
    · rw [List.mem_singleton.mp hq']
      exact hb.lt_of_held hheld
  · rw [l.accepted, List.map_append, List.nodup_append]
    refine ⟨h.nodup, List.nodup_singleton _, ?_⟩
    rintro x hx y hy rfl
    obtain ⟨q', hq', hx⟩ := List.mem_map.mp hx
    obtain rfl : x = q.host := List.mem_singleton.mp hy
    -- the host name of an older request has another owner or none
    have hlive := (hb.held_iff _ _).mp hheld
    rcases hold q' hq' with ⟨hne, -, hr⟩ | ⟨hblock, -⟩
    · have howner := (hb.held_iff _ _).mp (held_host hr)
      rw [hx, hlive] at howner
      exact hne (BlockOwner.host.inj (Option.some.inj howner)).symm
    · rw [hx, hlive] at hblock
      cases hblock

theorem AcceptStep.inv (l : AcceptStep s t d q) (h : s.Inv)
    (hc : (s.events d).call = .enqueue q) : t.Inv := by
  have hok := h.events.ok d
  have hst := hok.stage_of_preparing (Or.inl hc)
  obtain ⟨o, ho⟩ := hok.exists_dns (by rw [hst]; exact nofun)
  have hlt := h.lt_of_dns ho
  refine ⟨h.events.update l.events l.nextEvent hlt (hok.enqueued hc) (h.events.gone d hlt),
    ?_, ?_, ?_,
    l.record h.record h.blocks hst (hok.request q (by rw [hst]; rfl))⟩
  · intro w
    refine (h.workers w).congr (congrFun l.workers w) ?_ (fun _ _ _ ↦ by rw [l.answers])
    rintro k q' hk
    rw [l.events_of_ne]
    rintro rfl
    rw [hst] at hk
    rcases hk with hk | hk <;> cases hk
  · refine h.queue.congr l.head l.tail fun k q' hk ↦ ?_
    rw [l.events_of_ne]
    · exact ⟨hk, rfl⟩
    · rintro rfl
      rw [hst] at hk
      cases hk
  · refine h.blocks.congr l.blocks l.nextBlock fun x ↦ ?_
    rcases held_update l.events l.workers x with
      ⟨rfl, hx⟩ | ⟨rfl, hx⟩ | ⟨rfl, hx⟩ | ⟨-, -, -, hx⟩
    · rw [hx, held, hst]
      rfl
    · exact hx
    · exact hx
    · exact hx

/-- The last object of the queue is allocated, and an object that is about to be linked is not in
the queue. -/
theorem Inv.tail_ne {l : List ℕ} (h : s.Inv) (hst : (s.events d).stage = .preparing q)
    (hl : IsQueue (fun k ↦ (s.events k).next) s.pool.head s.pool.tail l)
    (hqueued : ∀ k ∈ l, ∃ q, (s.events k).stage = .queued q) :
    d ∉ l ∧ ∀ k, s.pool.tail = some k → k ≠ d ∧ (s.events k).dns.isSome = true := by
  have hd : d ∉ l := by
    intro hd
    obtain ⟨q', hq'⟩ := hqueued d hd
    rw [hst] at hq'
    cases hq'
  refine ⟨hd, fun k hk ↦ ?_⟩
  have hkl : k ∈ l := List.mem_of_getLast? (hl.tail_eq ▸ hk)
  obtain ⟨q', hq'⟩ := hqueued k hkl
  obtain ⟨o', ho'⟩ := (h.events.ok k).exists_dns (by rw [hq']; exact nofun)
  refine ⟨?_, by rw [ho']; rfl⟩
  rintro rfl
  exact hd hkl

theorem accept_eq (ho : (s.events d).dns = some o)
    (htail : ∀ k, s.pool.tail = some k → k ≠ d ∧ (s.events k).dns.isSome = true) :
    s.accept d q = { s with
      events := Function.update (s.linked d) d
        { s.linked d d with call := .away, stage := .queued q }
      pool := { s.pool with
        head := if s.pool.tail = none then some d else s.pool.head, tail := some d }
      accepted := s.accepted ++ [q]
      returned := s.returned ++ [(d, .success)] } := by
  simp only [DnsSystem.accept, link_eq ho htail]
  rfl

theorem isQueue_accept {l : List ℕ} (ho : (s.events d).dns = some o)
    (htail : ∀ k, s.pool.tail = some k → k ≠ d ∧ (s.events k).dns.isSome = true) (hd : d ∉ l)
    (hl : IsQueue (fun k ↦ (s.events k).next) s.pool.head s.pool.tail l) :
    IsQueue (fun k ↦ ((s.accept d q).events k).next) (s.accept d q).pool.head
      (s.accept d q).pool.tail (l ++ [d]) := by
  rw [accept_eq ho htail]
  refine hl.insert hd ?_ ?_ ?_
  · simp [DnsEvent.next, linked, nextLinked, ho]
  · intro k hk
    obtain ⟨hkd, ho'⟩ := htail k hk
    obtain ⟨o', ho'⟩ := Option.isSome_iff_exists.mp ho'
    simp [DnsEvent.next, linked, nextLinked, hkd, hk, ho']
  · intro k hk hne
    have hkd : k ≠ d := by
      rintro rfl
      exact hd hk
    have hkeep : Function.update (s.linked d) d
        { s.linked d d with call := .away, stage := .queued q } k = s.linked d k :=
      Function.update_of_ne hkd ..
    exact congrArg DnsEvent.next (hkeep.trans (linked_of_ne hkd hne))

theorem Inv.accept (h : s.Inv) (hc : (s.events d).call = .enqueue q) : (s.accept d q).Inv := by
  have hok := h.events.ok d
  have hst := hok.stage_of_preparing (Or.inl hc)
  obtain ⟨o, ho⟩ := hok.exists_dns (by rw [hst]; exact nofun)
  obtain ⟨l, hl, hqueued⟩ := h.queue
  obtain ⟨hd, htail⟩ := h.tail_ne hst hl hqueued
  have hmarked : Inv { s.setEvent d { s.events d with call := .away, stage := .queued q } with
      accepted := s.accepted ++ [q] } :=
    AcceptStep.inv ⟨rfl, rfl, rfl, rfl, rfl, rfl, rfl, rfl, rfl, rfl, rfl, rfl, rfl⟩ h hc
  have heq := accept_eq (q := q) ho htail
  have hevents : ∀ k, (s.accept d q).events k =
      Function.update (s.linked d) d { s.linked d d with call := .away, stage := .queued q } k := by
    rw [heq]
    exact fun k ↦ rfl
  refine Relinked.inv
    (s := { s.setEvent d { s.events d with call := .away, stage := .queued q } with
      accepted := s.accepted ++ [q] }) ?_ hmarked ⟨l ++ [d], isQueue_accept ho htail hd hl, ?_⟩
  · refine ⟨fun k ↦ ⟨s.nextLinked d k, ?_⟩, ?_, ?_, ?_, ?_, ?_, ?_, ?_, ?_, ?_, ?_⟩
    · rw [hevents]
      rcases eq_or_ne k d with rfl | hk
      · rw [Function.update_self]
        simp [linked, setEvent]
      · rw [Function.update_of_ne hk]
        simp [linked, setEvent, Function.update_of_ne hk]
    all_goals rw [heq]
    all_goals rfl
  · intro k hk
    rw [hevents]
    rcases List.mem_append.mp hk with hkl | hkd
    · obtain ⟨q', hq'⟩ := hqueued k hkl
      have hkd : k ≠ d := by
        rintro rfl
        exact hd hkl
      rw [Function.update_of_ne hkd]
      exact ⟨q', hq'⟩
    · rw [List.mem_singleton.mp hkd, Function.update_self]
      exact ⟨q, rfl⟩

end Queue

/-! ## The threads of the pool

A step of a thread (`PoolStep`) works on the event that is with the thread. No other thread has this
event, it is not in the queue, and the loop only marks it until the byte has been sent. -/

section Pool

variable {s t : DnsSystem} {d w : ℕ} {e : DnsEvent} {o : Dns} {q : DnsRequest} {pc : WorkerPc}

structure PoolStep (s t : DnsSystem) (w d : ℕ) (pc : WorkerPc) (e : DnsEvent) : Prop
    extends EventStep s t d e where
  workers : t.workers = Function.update s.workers w pc
  calls : t.calls = s.calls
  destroyed : t.destroyed = s.destroyed
  closed : t.closed = s.closed

/-- An owner keeps what it holds, unless the event or the thread makes it change. -/
theorem PoolStep.held_eq (l : PoolStep s t w d pc e) (x : BlockOwner)
    (hhost : x = .host d → e.stage.request = (s.events d).stage.request)
    (haddrs : x = .addrs d → e.dns.bind Dns.addrs = (s.events d).dns.bind Dns.addrs)
    (hdel : x = .delivered d → e.delivery.addrs = (s.events d).delivery.addrs)
    (hresult : x = .result w → pc.addrs = (s.workers w).addrs) : t.held x = s.held x := by
  rcases held_update (s := { s with workers := t.workers }) l.events rfl x with
    ⟨rfl, hx⟩ | ⟨rfl, hx⟩ | ⟨rfl, hx⟩ | ⟨-, -, -, hx⟩
  · rw [hx, hhost rfl]
    rfl
  · exact hx.trans (haddrs rfl)
  · exact hx.trans (hdel rfl)
  · rw [hx]
    cases x with
    | result k =>
      rcases eq_or_ne k w with rfl | hk
      · simpa [DnsSystem.held, l.workers] using hresult rfl
      · simp [DnsSystem.held, l.workers, hk]
    | _ => rfl

theorem PoolStep.held_addrs (l : PoolStep s t w d pc e) :
    t.held (.addrs d) = e.dns.bind Dns.addrs := by
  rw [DnsSystem.held, l.events, Function.update_self]

theorem PoolStep.held_result (l : PoolStep s t w d pc e) : t.held (.result w) = pc.addrs := by
  rw [DnsSystem.held, l.workers, Function.update_self]

theorem PoolStep.inv (l : PoolStep s t w d pc e) (h : s.Inv) (hlt : d < s.nextEvent) (hok : e.Ok d)
    (hgone : e.dns = none → e.freed = true)
    (hst : ∀ v q, (s.events d).stage = .resolving v q ∨ (s.events d).stage = .published v q → v = w)
    (hnew : t.WorkerOk w) (hqueue : t.QueueInv) (hblocks : t.BlocksInv) (hrecord : t.RecordInv) :
    t.Inv := by
  refine ⟨h.events.update l.events l.nextEvent hlt hok hgone, ?_, hqueue, hblocks, hrecord⟩
  intro v
  rcases eq_or_ne v w with rfl | hv
  · exact hnew
  · refine (h.workers v).congr ?_ ?_ (fun _ _ _ ↦ by rw [l.answers])
    · rw [l.workers, Function.update_of_ne hv]
    · intro k q hk
      rw [l.events_of_ne]
      rintro rfl
      exact hv (hst v q hk)

theorem PoolStep.queued (l : PoolStep s t w d pc e) (hst : ∀ q, (s.events d).stage ≠ .queued q)
    {k : ℕ} {q : DnsRequest} (hk : (s.events k).stage = .queued q) :
    (t.events k).stage = .queued q ∧ (t.events k).next = (s.events k).next := by
  have hkd : k ≠ d := by
    rintro rfl
    exact hst q hk
  rw [l.events_of_ne hkd]
  exact ⟨hk, rfl⟩

theorem PoolStep.queue (l : PoolStep s t w d pc e) (h : s.QueueInv) (hpool : t.pool = s.pool)
    (hst : ∀ q, (s.events d).stage ≠ .queued q) : t.QueueInv :=
  h.congr (by rw [hpool]) (by rw [hpool]) fun _ _ hk ↦ l.queued hst hk

theorem PoolStep.keeps (l : PoolStep s t w d pc e) (c : Calm s t d e) (hinv : t.Inv)
    (hst : ∀ q, (s.events d).stage ≠ .queued q) (hold : s.workers w ≠ .waiting)
    (hnew : pc ≠ .exited) : s.Keeps t where
  inv := hinv
  pool := c.pool
  term := c.term
  nextWorker := c.nextWorker
  accepted := l.accepted
  dequeued := c.dequeued
  workers := by
    intro v
    rw [l.workers]
    rcases eq_or_ne v w with rfl | hv
    · rw [Function.update_self]
      exact Or.inr ⟨hold, hnew⟩
    · exact Or.inl (Function.update_of_ne hv ..)
  undoing := by
    intro k
    rw [l.events]
    rcases eq_or_ne k d with rfl | hk
    · rw [Function.update_self]
      exact c.undoing
    · rw [Function.update_of_ne hk]
      exact fun _ ↦ rfl
  queued := fun _ _ hk ↦ l.queued hst hk

theorem PoolStep.blocks (l : PoolStep s t w d pc e) (h : s.BlocksInv) (hb : t.blocks = s.blocks)
    (hn : t.nextBlock = s.nextBlock) (hreq : e.stage.request = (s.events d).stage.request)
    (haddrs : e.dns.bind Dns.addrs = (s.events d).dns.bind Dns.addrs)
    (hdel : e.delivery = (s.events d).delivery) (hpc : pc.addrs = (s.workers w).addrs) :
    t.BlocksInv := by
  refine h.congr hb hn fun x ↦ l.held_eq x (fun _ ↦ hreq) (fun _ ↦ haddrs) (fun _ ↦ ?_)
    (fun _ ↦ hpc)
  rw [hdel]

/-- The records do not depend on the threads, when the request stays accepted. -/
theorem PoolStep.record (l : PoolStep s t w d pc e) (h : s.RecordInv)
    (hn : t.nextBlock = s.nextBlock)
    (hdead : ∀ b, b < s.nextBlock → s.blocks b = none → t.blocks b = none)
    (hst : e.stage.accepted = true)
    (hreq : e.stage.request = (s.events d).stage.request) (hevent : s.EventRecord e)
    (hfreed : e.freed = (s.events d).freed)
    (hgone : e.dns = none ↔ (s.events d).dns = none) : t.RecordInv := by
  refine l.toEventStep.record_of_same h l.calls l.destroyed l.closed hn.ge hdead hevent ?_ ?_ hgone
  · exact fun _ ↦ ⟨hst, hreq⟩
  · rw [hfreed]
    exact fun hf ↦ hf

theorem Inv.workerGoto (h : s.Inv) (hpc : pc.addrs = (s.workers w).addrs)
    (hnew : (s.setWorker w pc).WorkerOk w) : (s.setWorker w pc).Inv := by
  refine ⟨⟨h.events.ok, h.events.gone, h.events.unborn⟩, ?_, h.queue, ?_, ?_⟩
  · intro v
    rcases eq_or_ne v w with rfl | hv
    · exact hnew
    · exact (h.workers v).congr (Function.update_of_ne hv ..) (fun _ _ _ ↦ rfl) (fun _ _ _ ↦ rfl)
  · refine h.blocks.congr rfl rfl fun x ↦ ?_
    cases x with
    | result k =>
      rcases eq_or_ne k w with rfl | hk
      · simp [held, setWorker, hpc]
      · simp [held, setWorker, hk]
    | _ => rfl
  · have hr := h.record
    exact ⟨fun d ↦ ⟨(hr.event d).accepted, (hr.event d).published, (hr.event d).taken⟩,
      hr.accounted, hr.born, hr.nodup, hr.calls, hr.dead, hr.calls_nodup, hr.destroyed,
      hr.destroyed_nodup, hr.closed, hr.faults⟩

theorem keeps_setWorker (hinv : (s.setWorker w pc).Inv) (hold : s.workers w ≠ .waiting)
    (hnew : pc ≠ .exited) : s.Keeps (s.setWorker w pc) := by
  refine ⟨hinv, rfl, rfl, rfl, rfl, rfl, fun v ↦ ?_, fun _ _ ↦ rfl, fun _ _ hq ↦ ⟨hq, rfl⟩⟩
  rcases eq_or_ne v w with rfl | hv
  · right
    simpa [setWorker] using ⟨hold, hnew⟩
  · exact Or.inl (Function.update_of_ne hv ..)

theorem workerOk_setWorker (h : s.PcOk w pc) : (s.setWorker w pc).WorkerOk w := by
  have hpc : (s.setWorker w pc).workers w = pc := Function.update_self ..
  rw [WorkerOk, hpc]
  cases pc <;> exact h

/-- What `dns_worker` leaves behind when it has removed an object from the queue. -/
theorem dequeue_eq (ho : (s.events d).dns = some o) (hst : (s.events d).stage = .queued q) :
    s.dequeue w d = { (s.setEvent d { s.events d with
        dns := some { o with queueNext := none }, stage := .resolving w q }).setWorker w
          (.fetched d) with
      pool := { s.pool with
        head := o.queueNext, tail := if o.queueNext = none then none else s.pool.tail }
      dequeued := s.dequeued ++ [⟨w, d, o.host⟩] } := by
  rw [DnsSystem.dequeue, onDns_eq ho]
  dsimp only
  rw [hst]

theorem Inv.dequeue (h : s.Inv) (hw : s.workers w = .waiting) (hhead : s.pool.head = some d) :
    (s.dequeue w d).Inv := by
  obtain ⟨m, hm, hqueued⟩ := h.queue
  rw [hhead] at hm
  have hdm : d ∈ m := List.mem_of_mem_head? (hm.head_eq ▸ rfl)
  obtain ⟨q, hst⟩ := hqueued d hdm
  have hok := h.events.ok d
  obtain ⟨o, ho⟩ := hok.exists_dns (by simp [hst])
  have hnext : (s.events d).next = o.queueNext := by
    rw [DnsEvent.next, ho]
    rfl
  rw [dequeue_eq ho hst]
  have l : PoolStep s { (s.setEvent d { s.events d with
        dns := some { o with queueNext := none }, stage := .resolving w q }).setWorker w
          (.fetched d) with
      pool := { s.pool with
        head := o.queueNext, tail := if o.queueNext = none then none else s.pool.tail }
      dequeued := s.dequeued ++ [⟨w, d, o.host⟩] } w d _ _ :=
    ⟨⟨rfl, rfl, rfl, rfl, rfl⟩, rfl, rfl, rfl, rfl⟩
  have hrec := h.record.event d
  refine l.inv h (h.lt_of_dns ho) ((hok.relink ho).fetch hst) (by simp) ?_ ?_ ?_ ?_ ?_
  · intro v q' hv
    rw [hst] at hv
    rcases hv with hv | hv <;> cases hv
  · rw [WorkerOk, l.workers, Function.update_self]
    exact ⟨q, by rw [l.events_self]⟩
  · -- the other objects keep their links
    have hlinks : ∀ k, k ≠ d → (Function.update s.events d { s.events d with
        dns := some { o with queueNext := none }, stage := .resolving w q } k).next =
          (s.events k).next := by
      intro k hk
      rw [Function.update_of_ne hk]
    obtain ⟨m', rfl, hm'⟩ := hm.remove hlinks
    rw [hnext] at hm'
    refine ⟨m', hm', fun k hk ↦ ?_⟩
    have hkd : k ≠ d := by
      rintro rfl
      exact (List.nodup_cons.mp hm.nodup).1 hk
    obtain ⟨q', hq'⟩ := hqueued k (List.mem_cons_of_mem d hk)
    refine ⟨q', ?_⟩
    show (Function.update s.events d _ k).stage = _
    rw [Function.update_of_ne hkd]
    exact hq'
  · refine l.blocks h.blocks rfl rfl ?_ ?_ rfl ?_
    · rw [hst]
      rfl
    · rw [ho]
      rfl
    · rw [hw]
      rfl
  · refine l.record h.record rfl (fun _ _ hb ↦ hb) rfl ?_
      ⟨?_, fun _ _ hc ↦ absurd hc Bool.false_ne_true, by simp⟩ rfl ?_
    · rw [hst]
      rfl
    · exact hrec.accepted_of_stage (by rw [hst]; rfl) (by rw [hst]; rfl)
    · simp [ho]

theorem Inv.fetch (h : s.Inv) (hpc : s.workers w = .fetched d) : s.Keeps (s.fetch w d) := by
  have hw := h.workers w
  rw [WorkerOk, hpc] at hw
  obtain ⟨q, hst⟩ := hw
  have hok := h.events.ok d
  obtain ⟨o, ho⟩ := hok.exists_dns (by simp [hst])
  have hstores := (hok.alive o ho).stores q (by rw [hst]; rfl) (by rw [hst]; rfl)
  rw [DnsSystem.fetch, onDns_eq ho]
  refine keeps_setWorker (h.workerGoto ?_ ?_) ?_ (by simp)
  · rw [hpc]
    rfl
  · exact workerOk_setWorker ⟨q, hst, hstores.host, hstores.family, hstores.port⟩
  · simp [hpc]

theorem Inv.readAsync (h : s.Inv) (hpc : s.workers w = .sending d) :
    s.Keeps (s.readAsync w d) := by
  have hw := h.workers w
  rw [WorkerOk, hpc] at hw
  obtain ⟨q, hst⟩ := hw
  obtain ⟨o, ho⟩ := (h.events.ok d).exists_dns (by simp [hst])
  rw [DnsSystem.readAsync, onDns_eq ho]
  refine keeps_setWorker (h.workerGoto ?_ (workerOk_setWorker ⟨q, hst⟩)) ?_ (by simp)
  · rw [hpc]
    rfl
  · simp [hpc]

theorem Inv.asyncSend (h : s.Inv) (hpc : s.workers w = .inSend d) :
    s.Keeps (s.asyncSend w d) := by
  have hw := h.workers w
  rw [WorkerOk, hpc] at hw
  obtain ⟨q, hst⟩ := hw
  have hok := h.events.ok d
  obtain ⟨o, ho⟩ := hok.exists_dns (by simp [hst])
  obtain ⟨a, ha, -⟩ := (hok.alive o ho).notice
  have heq : s.asyncSend w d = (s.setEvent d { s.events d with
      async := some (a.nanoevAsyncSend true).1, stage := .notified q }).setWorker w .waiting := by
    rw [DnsSystem.asyncSend, onAsyncEvent_eq ha]
    dsimp only
    rw [hst]
  rw [heq]
  have l : PoolStep s ((s.setEvent d { s.events d with
      async := some (a.nanoevAsyncSend true).1, stage := .notified q }).setWorker w .waiting)
      w d _ _ := ⟨⟨rfl, rfl, rfl, rfl, rfl⟩, rfl, rfl, rfl, rfl⟩
  have hrec := h.record.event d
  have hqueued : ∀ q', (s.events d).stage ≠ .queued q' := by
    simp [hst]
  refine l.keeps ⟨rfl, rfl, rfl, rfl, fun _ ↦ rfl⟩ ?_ hqueued (by simp [hpc]) (by simp)
  refine l.inv h (h.lt_of_dns ho) (hok.send ha hst) ?_ ?_ ?_ (l.queue h.queue rfl hqueued) ?_ ?_
  · exact fun hnone ↦ absurd (ho.symm.trans hnone) (Option.some_ne_none o)
  · intro v q' hv
    rw [hst] at hv
    rcases hv with hv | hv
    · cases hv
    · exact (Stage.published.inj hv).1.symm
  · exact workerOk_setWorker trivial
  · refine l.blocks h.blocks rfl rfl ?_ rfl rfl ?_
    · rw [hst]
      rfl
    · rw [hpc]
      rfl
  · refine l.record h.record rfl (fun _ _ hb ↦ hb) rfl ?_ ⟨?_, ?_, by simp⟩ rfl Iff.rfl
    · rw [hst]
      rfl
    · exact hrec.accepted_of_stage (by rw [hst]; rfl) (by rw [hst]; rfl)
    · rintro q' o' - hq' ho'
      refine hrec.published q' o' (by rw [hst]; rfl) ?_ ho'
      rw [hst]
      exact hq'

theorem Inv.publish {a : Answer} (h : s.Inv) (hpc : s.workers w = .publishing d a) :
    s.Keeps (s.publish w d a) := by
  have hw := h.workers w
  rw [WorkerOk, hpc] at hw
  obtain ⟨q, hst, hans⟩ := hw
  have hok := h.events.ok d
  obtain ⟨o, ho⟩ := hok.exists_dns (by simp [hst])
  have hheld : s.held (.result w) = a.addrs := by
    rw [held, hpc]
    rfl
  have heq : s.publish w d a = { (s.setEvent d { s.events d with
        dns := some (o.publish a), stage := .published w q }).setWorker w (.sending d) with
      blocks := given s.blocks (.addrs d) (s.held (.result w)) } := by
    rw [DnsSystem.publish, onDns_eq ho]
    dsimp only
    rw [hst, hheld, give_eq]
    · rfl
    · exact fun c hc ↦ h.blocks.ne_none (hheld.trans hc)
  rw [heq]
  have l : PoolStep s { (s.setEvent d { s.events d with
        dns := some (o.publish a), stage := .published w q }).setWorker w (.sending d) with
      blocks := given s.blocks (.addrs d) (s.held (.result w)) } w d _ _ :=
    ⟨⟨rfl, rfl, rfl, rfl, rfl⟩, rfl, rfl, rfl, rfl⟩
  have hrec := h.record.event d
  have haddrs : o.addrs = none := (hok.alive o ho).addrs (by rw [hst]; rfl)
  have hqueued : ∀ q', (s.events d).stage ≠ .queued q' := by
    simp [hst]
  refine l.keeps ⟨rfl, rfl, rfl, rfl, fun _ ↦ rfl⟩ ?_ hqueued (by simp [hpc]) (by simp)
  refine l.inv h (h.lt_of_dns ho) (hok.publish ho hst) (by simp) ?_ ?_
    (l.queue h.queue rfl hqueued) ?_ ?_
  · intro v q' hv
    rw [hst] at hv
    rcases hv with hv | hv
    · exact (Stage.resolving.inj hv).1.symm
    · cases hv
  · rw [WorkerOk, l.workers, Function.update_self]
    exact ⟨q, by rw [l.events_self]⟩
  · refine h.blocks.give (x := .result w) (y := .addrs d) (by simp) ?_ rfl rfl ?_ ?_ ?_
    · rw [held, ho]
      exact haddrs
    · exact l.held_result
    · exact l.held_addrs.trans hheld.symm
    · refine fun z hzx hzy ↦ l.held_eq z (fun _ ↦ ?_) (fun hz ↦ absurd hz hzy) (fun _ ↦ rfl)
        (fun hz ↦ absurd hz hzx)
      rw [hst]
      rfl
  · refine l.record h.record rfl ?_ rfl ?_ ⟨?_, ?_, by simp⟩ rfl ?_
    · intro b hlt hb
      exact h.blocks.given_eq_none hb
    · rw [hst]
      rfl
    · exact hrec.accepted_of_stage (by rw [hst]; rfl) (by rw [hst]; rfl)
    · rintro q' o' - hq' ho'
      obtain rfl := Option.some.inj hq'
      obtain rfl := Option.some.inj ho'
      exact hans
    · simp [ho]

/-- The resolver answers a request: what is on record for other requests stays. -/
structure AnswerStep (s t : DnsSystem) (w d : ℕ) (q : DnsRequest) (a : Answer) : Prop where
  events : t.events = s.events
  workers : t.workers = Function.update s.workers w (.publishing d a)
  pool : t.pool = s.pool
  nextEvent : t.nextEvent = s.nextEvent
  accepted : t.accepted = s.accepted
  answers : t.answers = Function.update s.answers q.host (some (q.family, q.port, a))
  calls : t.calls = s.calls
  destroyed : t.destroyed = s.destroyed
  closed : t.closed = s.closed
  faults : t.faults = s.faults
  nextBlock : s.nextBlock ≤ t.nextBlock
  dead : ∀ b, b < s.nextBlock → s.blocks b = none → t.blocks b = none

theorem AnswerStep.record {a : Answer} (l : AnswerStep s t w d q a) (h : s.Inv)
    (hst : (s.events d).stage = .resolving w q) : t.RecordInv := by
  have hr := h.record
  have hblock := h.blocks_host (d := d) (q := q) (by rw [hst]; rfl)
  -- the host name belongs to this event, so the answers for other host names are not touched
  have hother : ∀ k q', (s.events k).stage.request = some q' → k ≠ d →
      t.answers q'.host = s.answers q'.host := by
    intro k q' hq' hk
    rw [l.answers, Function.update_of_ne]
    intro heq
    have howner := h.blocks_host hq'
    rw [heq, hblock] at howner
    exact hk (BlockOwner.host.inj (Option.some.inj howner)).symm
  have hdead : ∀ b, s.blocks b = none → t.answers b = s.answers b := by
    intro b hb
    rw [l.answers, Function.update_of_ne]
    rintro rfl
    rw [hblock] at hb
    cases hb
  refine hr.of_same_calls l.calls l.destroyed l.closed l.faults (l.accepted ▸ List.Subset.refl _)
    hdead l.dead (fun k ↦ by rw [l.events, l.nextEvent]) ?_ ?_ ?_ ?_
  · intro k
    rw [l.events]
    refine (hr.event k).mono (l.accepted ▸ List.Subset.refl _) fun q' hq' hanswered ↦
      hother k q' hq' ?_
    -- the event itself is still being resolved
    rintro rfl
    rw [hst] at hanswered
    rcases hanswered with hcompleted | hdelivering
    · cases hcompleted
    · cases hdelivering
  · rw [l.accepted]
    intro q' hq'
    rw [l.events]
    refine (hr.accounted q' hq').imp_right ?_
    rintro ⟨hb, hdone⟩
    rw [Done, l.calls, l.events]
    exact ⟨l.dead _ (hr.born q' hq') hb, hdone⟩
  · rw [l.accepted]
    exact fun q' hq' ↦ (hr.born q' hq').trans_le l.nextBlock
  · rw [l.accepted]
    exact hr.nodup

theorem AnswerStep.inv {a : Answer} (l : AnswerStep s t w d q a) (h : s.Inv)
    (hst : (s.events d).stage = .resolving w q) (hblocks : t.BlocksInv) : t.Inv := by
  refine ⟨⟨?_, ?_, ?_⟩, ?_, ?_, hblocks, l.record h hst⟩
  · rw [l.events]
    exact h.events.ok
  · rw [l.events, l.nextEvent]
    exact h.events.gone
  · rw [l.events, l.nextEvent]
    exact h.events.unborn
  · intro v
    rcases eq_or_ne v w with rfl | hv
    · rw [WorkerOk, l.workers, Function.update_self]
      refine ⟨q, ?_, ?_⟩
      · rw [l.events]
        exact hst
      · rw [l.answers, Function.update_self]
    · refine (h.workers v).congr ?_ (fun k _ _ ↦ by rw [l.events]) ?_
      · rw [l.workers, Function.update_of_ne hv]
      · intro k q' hk
        rw [l.answers, Function.update_of_ne]
        intro heq
        have hblock := h.blocks_host (d := d) (q := q) (by rw [hst]; rfl)
        have howner := h.blocks_host (d := k) (q := q') (by rw [hk]; rfl)
        rw [heq, hblock] at howner
        obtain rfl := BlockOwner.host.inj (Option.some.inj howner)
        rw [hst] at hk
        exact hv (Stage.resolving.inj hk).1.symm
  · refine h.queue.congr (by rw [l.pool]) (by rw [l.pool]) fun k q' hk ↦ ?_
    rw [l.events]
    exact ⟨hk, rfl⟩

theorem AnswerStep.keeps {a : Answer} (l : AnswerStep s t w d q a) (hinv : t.Inv)
    (hterm : t.term = s.term) (hnw : t.nextWorker = s.nextWorker) (hdeq : t.dequeued = s.dequeued)
    (hold : s.workers w ≠ .waiting) : s.Keeps t := by
  refine ⟨hinv, l.pool, hterm, hnw, l.accepted, hdeq, fun v ↦ ?_, fun k _ ↦ ?_, fun k q hq ↦ ?_⟩
  · rw [l.workers]
    rcases eq_or_ne v w with rfl | hv
    · rw [Function.update_self]
      exact Or.inr ⟨hold, nofun⟩
    · exact Or.inl (Function.update_of_ne hv ..)
  · rw [l.events]
  · rw [l.events]
    exact ⟨hq, rfl⟩

theorem AnswerStep.held_result {a : Answer} (l : AnswerStep s t w d q a) :
    t.held (.result w) = a.addrs := by
  rw [held, l.workers, Function.update_self]
  rfl

theorem AnswerStep.held_of_ne {a : Answer} (l : AnswerStep s t w d q a) {x : BlockOwner}
    (hx : x ≠ .result w) : t.held x = s.held x := by
  cases x with
  | result k =>
    have hk : k ≠ w := by
      rintro rfl
      exact hx rfl
    rw [held, held, l.workers, Function.update_of_ne hk]
  | _ => rw [held, held, l.events]

theorem Lookup.answer_addrs (r : Lookup) (b : ℕ) :
    (r.answer b).addrs = if r.allocates then some b else none := by
  cases r with
  | error e => rfl
  | found usable memory =>
    by_cases hu : usable = 0
    · simp [Lookup.answer, Lookup.allocates, hu]
    · cases memory <;> simp [Lookup.answer, Lookup.allocates, hu]

theorem Inv.getaddrinfo {host : Option ℕ} {family : ℤ} {port : ℕ} {r : Lookup} (h : s.Inv)
    (hpc : s.workers w = .resolving d host family port) :
    s.Keeps (s.getaddrinfo w d host family port r) := by
  have hw := h.workers w
  rw [WorkerOk, hpc] at hw
  obtain ⟨q, hst, rfl, rfl, rfl⟩ := hw
  have hblock := h.blocks_host (d := d) (q := q) (by rw [hst]; rfl)
  have hread : s.read (some q.host) = s := by
    refine read_eq ?_
    rintro c hc
    rw [← Option.some.inj hc, hblock]
    exact Option.some_ne_none _
  have hwheld : s.held (.result w) = none := by
    rw [held, hpc]
    rfl
  cases hr : r.allocates with
  | false =>
    simp only [DnsSystem.getaddrinfo, hread, hr, Bool.false_eq_true, if_false]
    have haddrs : (r.answer s.nextBlock).addrs = none := by
      rw [Lookup.answer_addrs, hr]
      rfl
    have l : AnswerStep s { s.setWorker w (.publishing d (r.answer s.nextBlock)) with
        answers := Function.update s.answers q.host
          (some (q.family, q.port, r.answer s.nextBlock)) } w d q (r.answer s.nextBlock) :=
      ⟨rfl, rfl, rfl, rfl, rfl, rfl, rfl, rfl, rfl, rfl, le_rfl, fun _ _ hb ↦ hb⟩
    refine l.keeps (l.inv h hst ?_) rfl rfl rfl (by simp [hpc])
    refine h.blocks.congr rfl rfl fun x ↦ ?_
    rcases eq_or_ne x (.result w) with rfl | hx
    · exact (l.held_result.trans haddrs).trans hwheld.symm
    · exact l.held_of_ne hx
  | true =>
    simp only [DnsSystem.getaddrinfo, hread, hr, if_true]
    have haddrs : (r.answer s.nextBlock).addrs = some s.nextBlock := by
      rw [Lookup.answer_addrs, hr]
      rfl
    have l : AnswerStep s { s.setWorker w (.publishing d (r.answer s.nextBlock)) with
        blocks := Function.update s.blocks s.nextBlock (some (.result w))
        nextBlock := s.nextBlock + 1
        answers := Function.update s.answers q.host
          (some (q.family, q.port, r.answer s.nextBlock)) } w d q (r.answer s.nextBlock) :=
      ⟨rfl, rfl, rfl, rfl, rfl, rfl, rfl, rfl, rfl, rfl, Nat.le_succ _,
        fun b hlt hb ↦ (Function.update_of_ne hlt.ne ..).trans hb⟩
    refine l.keeps (l.inv h hst ?_) rfl rfl rfl (by simp [hpc])
    exact h.blocks.alloc (x := .result w) rfl rfl hwheld (l.held_result.trans haddrs)
      fun x hx ↦ l.held_of_ne hx

end Pool

/-! ## Every step

`dns_enqueue` is one step up to the first release of the lock, and `dns_start_workers_locked` goes
on from there when a thread could not be created. The actions that have nothing to do with the queue
or the number of threads are treated together (`Keeps`), which the results about the queue use
again. -/

section Step

variable {s t : DnsSystem} {d w : ℕ} {q : DnsRequest}

theorem asyncStart_forDns {sys : Sys}
    (h : (Async.asyncNew.nanoevAsyncStart 0 sys ⟨2 * d, 0, 0⟩).2.2 = .success) :
    (Async.asyncNew.nanoevAsyncStart 0 sys ⟨2 * d, 0, 0⟩).1.ForDns d ∧
      (Async.asyncNew.nanoevAsyncStart 0 sys ⟨2 * d, 0, 0⟩).1.Quiet := by
  revert h
  unfold Async.nanoevAsyncStart
  rw [if_neg (by simp [Async.asyncNew])]
  dsimp only
  split
  · exact nofun
  · split
    · exact nofun
    · exact nofun
    · split
      · exact nofun
      · rcases hreg : epollPollerModify Async.asyncNew.reactorEvents (some ⟨2 * d, .empty⟩) .evRead
          sys with ⟨err, m, k⟩
        exact fun _ ↦ ⟨⟨rfl, rfl, rfl, Tcp.epollPollerModify_fd hreg, rfl⟩, rfl, rfl⟩

/-- The events that there are do not depend on a new one. -/
structure NewStep (s t : DnsSystem) (e : DnsEvent) : Prop where
  events : t.events = Function.update s.events s.nextEvent e
  nextEvent : t.nextEvent = s.nextEvent + 1
  workers : t.workers = s.workers
  pool : t.pool = s.pool
  blocks : t.blocks = s.blocks
  nextBlock : t.nextBlock = s.nextBlock
  accepted : t.accepted = s.accepted
  answers : t.answers = s.answers
  calls : t.calls = s.calls
  destroyed : t.destroyed = s.destroyed
  closed : t.closed = s.closed
  faults : t.faults = s.faults

theorem NewStep.events_of_ne {e : DnsEvent} (l : NewStep s t e) {k : ℕ} (hk : k ≠ s.nextEvent) :
    t.events k = s.events k := by
  rw [l.events, Function.update_of_ne hk]

theorem NewStep.record {e : DnsEvent} (l : NewStep s t e) (h : s.Inv) (hst : e.stage = .idle)
    (hdns : e.dns ≠ none) : t.RecordInv := by
  have hr := h.record
  have hnone := h.events.unborn s.nextEvent le_rfl
  have hfreed : ∀ k, (s.events k).freed = true → (t.events k).freed = true := by
    intro k hk
    rw [l.events_of_ne]
    · exact hk
    · rintro rfl
      rw [hnone] at hk
      cases hk
  refine hr.of_same_calls l.calls l.destroyed l.closed l.faults (l.accepted ▸ List.Subset.refl _)
    (fun b _ ↦ by rw [l.answers]) (fun b _ hb ↦ by rwa [l.blocks]) ?_ ?_ ?_ ?_ ?_
  · intro k
    rw [l.nextEvent]
    rcases eq_or_ne k s.nextEvent with rfl | hk
    · rw [l.events, Function.update_self]
      simp [hdns]
    · rw [l.events_of_ne hk]
      exact and_congr_left' (by omega)
  · intro k
    rcases eq_or_ne k s.nextEvent with rfl | hk
    · rw [l.events, Function.update_self]
      apply EventRecord.of_not_accepted
      rw [hst]
      rfl
    · rw [l.events_of_ne hk]
      exact (hr.event k).mono (l.accepted ▸ List.Subset.refl _) fun _ _ _ ↦ by rw [l.answers]
  · rw [l.accepted]
    intro q hq
    rcases hr.accounted q hq with ⟨hacc, hreq⟩ | ⟨hb, hdone⟩
    · left
      rw [l.events_of_ne]
      · exact ⟨hacc, hreq⟩
      · intro heq
        rw [heq, hnone] at hacc
        cases hacc
    · right
      rw [Done, l.blocks, l.calls]
      exact ⟨hb, hdone.imp_right (hfreed _)⟩
  · rw [l.accepted, l.nextBlock]
    exact hr.born
  · rw [l.accepted]
    exact hr.nodup

theorem NewStep.inv {e : DnsEvent} (l : NewStep s t e) (h : s.Inv) (hok : e.Ok s.nextEvent)
    (hdns : ∃ o, e.dns = some o ∧ o.addrs = none) (hst : e.stage = .idle)
    (hdel : e.delivery = .away) : t.Inv := by
  obtain ⟨o, ho, haddrs⟩ := hdns
  have hnone := h.events.unborn s.nextEvent le_rfl
  have hself : t.events s.nextEvent = e := by rw [l.events, Function.update_self]
  have hbusy : ∀ k q, (s.events k).stage.request = some q → k ≠ s.nextEvent := by
    rintro k q hq rfl
    rw [hnone] at hq
    cases hq
  refine ⟨⟨?_, ?_, ?_⟩, ?_, ?_, ?_, l.record h hst (by rw [ho]; exact nofun)⟩
  · intro k
    rcases eq_or_ne k s.nextEvent with rfl | hk
    · rwa [hself]
    · rw [l.events_of_ne hk]
      exact h.events.ok k
  · intro k hk hgone
    rw [l.nextEvent] at hk
    rcases eq_or_ne k s.nextEvent with rfl | hkd
    · rw [hself, ho] at hgone
      cases hgone
    · rw [l.events_of_ne hkd] at hgone ⊢
      exact h.events.gone k (by omega) hgone
  · intro k hk
    rw [l.nextEvent] at hk
    rw [l.events_of_ne (by omega)]
    exact h.events.unborn k (by omega)
  · intro w
    refine (h.workers w).congr (congrFun l.workers w) ?_ (fun _ _ _ ↦ by rw [l.answers])
    rintro k q hk
    rw [l.events_of_ne (hbusy k q _)]
    rcases hk with hk | hk <;> (rw [hk]; rfl)
  · refine h.queue.congr (by rw [l.pool]) (by rw [l.pool]) fun k q hk ↦ ?_
    rw [l.events_of_ne (hbusy k q (by rw [hk]; rfl))]
    exact ⟨hk, rfl⟩
  · refine h.blocks.congr l.blocks l.nextBlock fun x ↦ ?_
    rcases held_update l.events l.workers x with
      ⟨rfl, hx⟩ | ⟨rfl, hx⟩ | ⟨rfl, hx⟩ | ⟨-, -, -, hx⟩
    · rw [hx, held, hst, hnone]
      rfl
    · rw [hx, held, ho, hnone]
      exact haddrs
    · rw [hx, held, hdel, hnone]
      rfl
    · exact hx

theorem NewStep.keeps {e : DnsEvent} (l : NewStep s t e) (h : s.Inv) (hinv : t.Inv)
    (hcall : e.call = .away) (hterm : t.term = s.term) (hnw : t.nextWorker = s.nextWorker)
    (hdeq : t.dequeued = s.dequeued) : s.Keeps t := by
  refine ⟨hinv, l.pool, hterm, hnw, l.accepted, hdeq, fun v ↦ Or.inl (congrFun l.workers v), ?_, ?_⟩
  · intro k
    rw [l.events]
    rcases eq_or_ne k s.nextEvent with rfl | hk
    · rw [Function.update_self, hcall]
      exact nofun
    · rw [Function.update_of_ne hk]
      exact fun _ ↦ rfl
  · intro k q hq
    have hk : k ≠ s.nextEvent := by
      rintro rfl
      rw [h.events.unborn _ le_rfl] at hq
      cases hq
    rw [l.events_of_ne hk]
    exact ⟨hq, rfl⟩

theorem Inv.keeps_self (h : s.Inv) : s.Keeps s :=
  ⟨h, rfl, rfl, rfl, rfl, rfl, fun _ ↦ Or.inl rfl, fun _ _ ↦ rfl, fun _ _ hq ↦ ⟨hq, rfl⟩⟩

theorem Inv.new {sys : Sys} (h : s.Inv) : s.Keeps (s.dnsNew sys) := by
  rw [DnsSystem.dnsNew]
  dsimp only
  split
  · next hret =>
    obtain ⟨hfor, hquiet⟩ := asyncStart_forDns hret
    have l : NewStep s { s.setEvent s.nextEvent { DnsEvent.none with
        dns := some .dnsNew
        async := some (Async.asyncNew.nanoevAsyncStart 0 sys ⟨2 * s.nextEvent, 0, 0⟩).1 } with
          nextEvent := s.nextEvent + 1 } _ :=
      ⟨rfl, rfl, rfl, rfl, rfl, rfl, rfl, rfl, rfl, rfl, rfl, rfl⟩
    refine l.keeps h (l.inv h ?_ ⟨_, rfl, rfl⟩ rfl rfl) rfl rfl rfl rfl
    refine ⟨nofun, Or.inl rfl, nofun, nofun, ?_⟩
    rintro o ho
    obtain rfl := Option.some.inj ho
    exact ⟨rfl, rfl, rfl, nofun, fun _ ↦ rfl, fun _ ↦ rfl, _, rfl, hfor, hquiet, rfl⟩
  · exact h.keeps_self

theorem Inv.enqueue {n : ℕ} (h : s.Inv) (hc : (s.events d).call = .enqueue q) :
    (s.dnsEnqueue d q n).Inv := by
  have hst := (h.events.ok d).stage_of_preparing (Or.inl hc)
  have hne : (s.events d).call ≠ .away := by
    rw [hc]
    exact nofun
  rw [DnsSystem.dnsEnqueue]
  split_ifs
  · exact h.goto (.failed q) hne hst
      ⟨⟨⟨rfl, rfl, rfl, rfl, rfl⟩, rfl, rfl, rfl⟩, rfl, rfl, rfl, rfl, rfl, rfl, rfl, rfl⟩
  · exact h.accept hc
  · exact h.goto (.undo q none) hne hst
      ⟨⟨⟨rfl, rfl, rfl, rfl, rfl⟩, rfl, rfl, rfl⟩, rfl, rfl, rfl, rfl, rfl, rfl, rfl, rfl⟩
  · have hcreated : (s.createWorkers dnsThreadCount).Inv := h.rest h.queue
    exact hcreated.accept hc

theorem Inv.undo (h : s.Inv) (pc : ResolvePc)
    (hc : (∃ j, (s.events d).call = .undo q j) ∨ (s.events d).call = .undone q)
    (hpc : pc.Fits (.preparing q)) (l : PlainStep s t d { s.events d with call := pc }) :
    t.Inv := by
  have hst := (h.events.ok d).stage_of_preparing (Or.inr (hc.imp_right Or.inl))
  refine h.goto pc ?_ (hst ▸ hpc) l
  rcases hc with ⟨j, hc⟩ | hc
  · rw [hc]
    exact nofun
  · rw [hc]
    exact nofun

/-- The actions that have to do with the queue or with the number of threads. -/
def Action.manages : Action → Bool
  | .init | .enqueue _ _ | .undoPop _ | .undoJoin _ | .undoLeave _ | .undoFinish _ | .dequeue _
  | .exit _ | .term | .termPop | .termJoin | .termLeave | .termFinish => true
  | _ => false

theorem Inv.keeps {a : Action} (h : s.Inv) (ha : a.manages = false) (hstep : s.step a = some t) :
    s.Keeps t := by
  cases step_eq_some hstep with
  | new => exact h.new
  | resolve hmay => exact h.resolve hmay
  | submit hc => exact h.submit hc
  | withdraw hc => exact h.withdraw hc
  | free hmay => exact h.free hmay
  | reactorCb hasync hready =>
    obtain ⟨-, hpc, hbytes, hk⟩ := hready
    exact h.reactorCb hasync hpc hbytes hk
  | deliver hready => exact h.deliver hready.2
  | onAsync hpc => exact h.onAsync hpc
  | invoke hpc => exact h.invoke hpc
  | readAddrs hpc =>
    rw [h.read_addrs hpc]
    exact h.keeps_self
  | callbackReturn hc hpc => exact h.callbackReturn hpc
  | finish hpc => exact h.finish hpc
  | fetch hpc => exact h.fetch hpc
  | getaddrinfo hpc => exact h.getaddrinfo hpc
  | publish hpc => exact h.publish hpc
  | readAsync hpc => exact h.readAsync hpc
  | asyncSend hpc => exact h.asyncSend hpc
  | _ => cases ha

theorem Inv.step {a : Action} (h : s.Inv) (hstep : s.step a = some t) : t.Inv := by
  cases hm : a.manages with
  | false => exact (h.keeps hm hstep).inv
  | true =>
    cases step_eq_some hstep with
    | init | termFinish => exact h.rest ⟨[], IsQueue.nil, nofun⟩
    | enqueue hc => exact h.enqueue hc
    | @undoPop _ q w hc =>
      exact h.undo (.undo q (some w)) (Or.inl ⟨_, hc⟩) rfl
        ⟨⟨⟨rfl, rfl, rfl, rfl, rfl⟩, rfl, rfl, rfl⟩, rfl, rfl, rfl, rfl, rfl, rfl, rfl, rfl⟩
    | @undoJoin _ q _ hc =>
      exact h.undo (.undo q none) (Or.inl ⟨_, hc⟩) rfl
        ⟨⟨⟨rfl, rfl, rfl, rfl, rfl⟩, rfl, rfl, rfl⟩, rfl, rfl, rfl, rfl, rfl, rfl, rfl, rfl⟩
    | @undoLeave _ q hc =>
      exact h.undo (.undone q) (Or.inl ⟨_, hc⟩) rfl
        ⟨⟨⟨rfl, rfl, rfl, rfl, rfl⟩, rfl, rfl, rfl⟩, rfl, rfl, rfl, rfl, rfl, rfl, rfl, rfl⟩
    | @undoFinish _ q hc =>
      exact h.undo (.failed q) (Or.inr hc) rfl
        ⟨⟨⟨rfl, rfl, rfl, rfl, rfl⟩, rfl, rfl, rfl⟩, rfl, rfl, rfl, rfl, rfl, rfl, rfl, rfl⟩
    | dequeue hhead hready => exact h.dequeue hready.2 hhead
    | exit hready =>
      refine h.workerGoto ?_ (workerOk_setWorker trivial)
      rw [hready.2.1]
      rfl
    | term | termLeave | termPop | termJoin => exact h.rest h.queue
    | _ => cases hm

theorem inv_init : init.Inv where
  events := ⟨DnsEvent.ok_none, nofun, fun _ _ ↦ rfl⟩
  workers := fun _ ↦ trivial
  queue := ⟨[], IsQueue.nil, nofun⟩
  blocks := by
    refine ⟨?_, fun _ _ ↦ rfl⟩
    rintro (k | k | k | k) b
    all_goals exact ⟨nofun, nofun⟩
  record := by
    refine ⟨fun _ ↦ .of_not_accepted rfl, nofun, nofun, List.nodup_nil, nofun, nofun,
      List.nodup_nil,
      ?_, List.nodup_nil, rfl, rfl⟩
    exact fun d ↦ ⟨nofun, fun hd ↦ absurd hd.1 (Nat.not_lt_zero d)⟩

theorem inv_of_reachable {ok : DnsSystem → Action → Prop}
    (h : Reachable DnsSystem.step ok init s) : s.Inv :=
  h.invariant inv_init fun _ _ _ hs _ hstep ↦ hs.step hstep

end Step

end DnsSystem

end Nanoev
