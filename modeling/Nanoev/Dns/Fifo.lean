import Nanoev.Dns.Workers

/-!
# The queue of the pool is a FIFO

The requests that `dns_enqueue` has accepted are removed from the queue in the order in which they
were accepted, each by one thread, and what has been accepted and not removed is what the links
represent. A thread of the pool leaves only when the pool is stopping and the queue is empty; since
a pool that is stopping accepts nothing, the queue is empty from then on.

All of this rests on the flag `stopping`, which `dns_term` sets for good and
`dns_start_workers_locked` sets and clears again when it could not create a thread. If `dns_term` is
called in between, its flag is cleared by the other thread, a request is accepted by a pool that is
about to be zeroed, and the request is lost.
-/

namespace Nanoev

open Transition Memory

def DnsRequest.key (q : DnsRequest) : ℕ × Option ℕ := (q.event, some q.host)

def Dequeued.key (x : Dequeued) : ℕ × Option ℕ := (x.event, x.host)

namespace DnsSystem

variable {s t : DnsSystem} {d w : ℕ} {q : DnsRequest}

/-- The requests that have been enqueued and not been dequeued. -/
def waiting (s : DnsSystem) : List DnsRequest := s.accepted.drop s.dequeued.length

/-- A thread that `dns_term` joins has exited, or `dns_term` has joined all threads. -/
def Drained (s : DnsSystem) : Prop :=
  s.term ≠ .away ∧
    ((∃ w, (w ∈ s.pool.threads ∨ s.term = .joining (some w)) ∧ s.workers w = .exited) ∨
      (s.term = .joining none ∧ s.pool.threads = []) ∨ s.term = .leaving)

/-- The steps of `dns_enqueue`. -/
def Action.enqueues : Action → Bool
  | .enqueue _ _ | .undoPop _ | .undoJoin _ | .undoLeave _ | .undoFinish _ => true
  | _ => false

structure Fifo (s : DnsSystem) : Prop where
  /-- The links represent the requests that have been enqueued and not been dequeued. -/
  queue : IsQueue (fun d ↦ (s.events d).next) s.pool.head s.pool.tail
    (s.waiting.map DnsRequest.event)
  /-- The objects in the queue store these requests. -/
  stores : ∀ q ∈ s.waiting, ∃ o, (s.events q.event).dns = some o ∧ o.Stores q
  head_tail : s.pool.head = none ↔ s.pool.tail = none
  /-- What has been dequeued are the first requests, in the order in which they were enqueued. -/
  order : s.dequeued.map Dequeued.key =
    (s.accepted.take s.dequeued.length).map DnsRequest.key
  /-- A request is dequeued once. -/
  once : (s.dequeued.map Dequeued.host).Nodup
  /-- Every request has been dequeued when a thread that `dns_term` joins has exited. -/
  drained : s.Drained → s.waiting = []
  /-- An enqueue that does not succeed leaves the queue as it is. -/
  failed : ∀ a t, a.enqueues = true → s.step a = some t → t.accepted = s.accepted →
    t.pool.head = s.pool.head ∧ t.pool.tail = s.pool.tail ∧
      ∀ d, (t.events d).next = (s.events d).next

/-! ## The invariant -/

structure Accounts (s : DnsSystem) : Prop where
  order : s.dequeued.map Dequeued.key =
    (s.accepted.take s.dequeued.length).map DnsRequest.key
  queue : IsQueue (fun d ↦ (s.events d).next) s.pool.head s.pool.tail
    (s.waiting.map DnsRequest.event)
  stage : ∀ q ∈ s.waiting, (s.events q.event).stage = .queued q

inductive Managed (s : DnsSystem) : Prop
  /-- Before `dns_init` and after `dns_term`. -/
  | closed (hpool : s.pool = .zero) (hterm : s.term = .away)
      (hcalm : ∀ k, (s.events k).call.undoing = false)
  /-- Requests are accepted, and no thread leaves. -/
  | serving (hinit : s.pool.initialized = true) (hstop : s.pool.stopping = false)
      (hterm : s.term = .away) (hcalm : ∀ k, (s.events k).call.undoing = false)
      (hidle : s.pool.threads = [] → s.pool.head = none)
      (hlive : ∀ w ∈ s.pool.threads, s.workers w ≠ .exited)
  /-- The event `d` is the only one for which threads are joined again. -/
  | undoing (d : ℕ) (hinit : s.pool.initialized = true) (hstop : s.pool.stopping = true)
      (hterm : s.term = .away) (honly : ∀ k, (s.events k).call.undoing = true → k = d)
      (hhead : s.pool.head = none)
      (hundone : ∀ q, (s.events d).call = .undone q → s.pool.threads = [])
  /-- `dns_term` has set the flag. -/
  | stopping (hinit : s.pool.initialized = true) (hstop : s.pool.stopping = true)
      (hterm : s.term ≠ .away) (hcalm : ∀ k, (s.events k).call.undoing = false)
      (hdrained : s.Drained → s.pool.head = none)

structure Ledger (s : DnsSystem) : Prop where
  inv : s.Inv
  accounts : s.Accounts
  managed : s.Managed
  fresh : ∀ w, s.nextWorker ≤ w → s.workers w = .waiting

/-! ## Accounts

The accounts depend on the queue and on the events in it. An event in the queue stores the request
that was accepted, so the thread that removes it removes the oldest request that has not been
removed. -/

theorem Accounts.length_le (h : s.Accounts) : s.dequeued.length ≤ s.accepted.length := by
  have hlen := congrArg List.length h.order
  simp only [List.length_map, List.length_take] at hlen
  omega

theorem Accounts.head_eq_none_iff (h : s.Accounts) : s.pool.head = none ↔ s.waiting = [] := by
  rw [h.queue.head_eq_none_iff, List.map_eq_nil_iff]

theorem Accounts.tail_eq_none_iff (h : s.Accounts) : s.pool.tail = none ↔ s.waiting = [] := by
  rw [h.queue.tail_eq_none_iff, List.map_eq_nil_iff]

theorem Accounts.congr (h : s.Accounts) (hacc : t.accepted = s.accepted)
    (hdeq : t.dequeued = s.dequeued) (hhead : t.pool.head = s.pool.head)
    (htail : t.pool.tail = s.pool.tail)
    (hst : ∀ k q, (s.events k).stage = .queued q →
      (t.events k).stage = .queued q ∧ (t.events k).next = (s.events k).next) : t.Accounts := by
  have hwait : t.waiting = s.waiting := by rw [waiting, waiting, hacc, hdeq]
  refine ⟨?_, ?_, ?_⟩
  · rw [hacc, hdeq]
    exact h.order
  · rw [hhead, htail, hwait]
    refine h.queue.congr fun k hk ↦ ?_
    obtain ⟨q, hq, rfl⟩ := List.mem_map.mp hk
    exact (hst _ q (h.stage q hq)).2
  · rw [hwait]
    exact fun q hq ↦ (hst _ q (h.stage q hq)).1

theorem Accounts.zeroed (h : s.Accounts) (hhead : s.pool.head = none)
    (hacc : t.accepted = s.accepted)
    (hdeq : t.dequeued = s.dequeued) (hhead' : t.pool.head = none) (htail' : t.pool.tail = none) :
    t.Accounts := by
  have hwait : t.waiting = [] := by
    rw [waiting, hacc, hdeq]
    exact h.head_eq_none_iff.mp hhead
  refine ⟨?_, ?_, ?_⟩
  · rw [hacc, hdeq]
    exact h.order
  · rw [hhead', htail', hwait]
    exact IsQueue.nil
  · rw [hwait]
    exact nofun

theorem Inv.stores_of_queued (h : s.Inv) (hst : (s.events d).stage = .queued q) :
    ∃ o, (s.events d).dns = some o ∧ o.Stores q := by
  obtain ⟨o, ho⟩ := (h.events.ok d).exists_dns (by rw [hst]; exact nofun)
  exact ⟨o, ho, ((h.events.ok d).alive o ho).stores q (by rw [hst]; rfl) (by rw [hst]; rfl)⟩

/-- `dns_enqueue` links the object of an accepted request behind the others. -/
theorem Accounts.accept (h : s.Accounts) (hinv : s.Inv) (hc : (s.events d).call = .enqueue q) :
    (s.accept d q).Accounts := by
  have hok := hinv.events.ok d
  have hst := hok.stage_of_preparing (Or.inl hc)
  have hqd : q.event = d := hok.request q (by rw [hst]; rfl)
  obtain ⟨o, ho⟩ := hok.exists_dns (by rw [hst]; exact nofun)
  have hqueued : ∀ k ∈ s.waiting.map DnsRequest.event, ∃ q, (s.events k).stage = .queued q := by
    intro k hk
    obtain ⟨q', hq', rfl⟩ := List.mem_map.mp hk
    exact ⟨q', h.stage q' hq'⟩
  obtain ⟨hd, htail⟩ := hinv.tail_ne hst h.queue hqueued
  have heq := accept_eq (q := q) ho htail
  have hacc : (s.accept d q).accepted = s.accepted ++ [q] := by rw [heq]
  have hdeq : (s.accept d q).dequeued = s.dequeued := by rw [heq]
  have hevents : (s.accept d q).events = Function.update (s.linked d) d
      { s.linked d d with call := .away, stage := .queued q } := by rw [heq]
  have hwait : (s.accept d q).waiting = s.waiting ++ [q] := by
    rw [waiting, hacc, hdeq, List.drop_append_of_le_length h.length_le]
    rfl
  refine ⟨?_, ?_, ?_⟩
  · rw [hacc, hdeq, List.take_append_of_le_length h.length_le]
    exact h.order
  · rw [hwait, List.map_append, List.map_singleton, hqd]
    exact isQueue_accept ho htail hd h.queue
  · rw [hwait, hevents]
    intro q' hq'
    rcases List.mem_append.mp hq' with hq' | hq'
    · have hne : q'.event ≠ d := fun heq' ↦ hd (heq' ▸ List.mem_map_of_mem hq')
      rw [Function.update_of_ne hne]
      exact h.stage q' hq'
    · rw [List.mem_singleton.mp hq', hqd, Function.update_self]

theorem Accounts.dequeue (h : s.Accounts) (hinv : s.Inv) (hhead : s.pool.head = some d) :
    (s.dequeue w d).Accounts := by
  have hne : s.waiting ≠ [] := by
    intro hnil
    rw [h.head_eq_none_iff.mpr hnil] at hhead
    cases hhead
  obtain ⟨q, rest, hwait⟩ := List.exists_cons_of_ne_nil hne
  have hqueue := h.queue
  rw [hwait] at hqueue
  have hqd : q.event = d := by
    have hfirst := hqueue.head_eq
    rw [hhead] at hfirst
    exact (Option.some.inj hfirst).symm
  have hst : (s.events d).stage = .queued q := by
    rw [← hqd]
    exact h.stage q (by rw [hwait]; exact List.mem_cons_self)
  obtain ⟨o, ho, hstores⟩ := hinv.stores_of_queued hst
  have hnext : (s.events d).next = o.queueNext := by
    rw [DnsEvent.next, ho]
    rfl
  have heq := dequeue_eq (w := w) ho hst
  have hacc : (s.dequeue w d).accepted = s.accepted := by
    rw [heq]
    rfl
  have hdeq : (s.dequeue w d).dequeued = s.dequeued ++ [⟨w, d, o.host⟩] := by rw [heq]
  have hlength : (s.dequeue w d).dequeued.length = s.dequeued.length + 1 := by
    rw [hdeq, List.length_append, List.length_singleton]
  have hother : ∀ k, k ≠ d → (s.dequeue w d).events k = s.events k := by
    intro k hk
    rw [heq]
    exact Function.update_of_ne hk ..
  -- the first of the requests that wait is the next one in the order of acceptance
  have hdrop : s.accepted.drop s.dequeued.length = q :: rest := hwait
  have htake : s.accepted.take (s.dequeued.length + 1) =
      s.accepted.take s.dequeued.length ++ [q] := by
    rw [List.take_add, hdrop]
    rfl
  have hwait' : (s.dequeue w d).waiting = rest := by
    rw [waiting, hacc, hlength, ← List.drop_drop, hdrop]
    rfl
  have hnodup : d ∉ rest.map DnsRequest.event := by
    have := (List.nodup_cons.mp hqueue.nodup).1
    rwa [hqd] at this
  refine ⟨?_, ?_, ?_⟩
  · rw [hlength, hacc, hdeq, htake, List.map_append, List.map_append, ← h.order]
    simp [Dequeued.key, DnsRequest.key, hqd, hstores.host]
  · rw [hwait']
    rw [hhead] at hqueue
    have hlinks : ∀ k, k ≠ d → ((s.dequeue w d).events k).next = (s.events k).next := by
      intro k hk
      rw [hother k hk]
    obtain ⟨m, hm, hqueue'⟩ := hqueue.remove hlinks
    obtain rfl : rest.map DnsRequest.event = m := (List.cons.inj hm).2
    rw [hnext] at hqueue'
    rw [heq] at hqueue' ⊢
    exact hqueue'
  · rw [hwait']
    intro q' hq'
    rw [hother _ fun heq' ↦ hnodup (heq' ▸ List.mem_map_of_mem hq')]
    exact h.stage q' (by rw [hwait]; exact List.mem_cons_of_mem _ hq')

/-! ## The life of the pool

`Managed` lists the situations that the pool can be in: it is not initialised or has been zeroed, it
serves, one thread takes back the threads that it has created, or `dns_term` is at work. The
assumption on `dns_term` keeps the last two apart. -/

theorem Managed.congr (h : s.Managed) (hpool : t.pool = s.pool) (hterm : t.term = s.term)
    (hcall : ∀ k, (t.events k).call.undoing = true → (t.events k).call = (s.events k).call)
    (hworkers : ∀ w, t.workers w = .exited → s.workers w = .exited) : t.Managed := by
  have hcalm : (∀ k, (s.events k).call.undoing = false) →
      ∀ k, (t.events k).call.undoing = false := by
    intro hs k
    by_contra hk
    have hk := Bool.eq_true_of_not_eq_false hk
    rw [hcall k hk, hs k] at hk
    cases hk
  cases h with
  | closed hp ht hc => exact .closed (hpool.trans hp) (hterm.trans ht) (hcalm hc)
  | serving hi hs ht hc hidle hlive =>
    rw [← hpool] at hi hs hidle hlive
    exact .serving hi hs (hterm.trans ht) (hcalm hc) hidle fun w hw hx ↦ hlive w hw (hworkers w hx)
  | undoing d hi hs ht honly hhead hundone =>
    rw [← hpool] at hi hs hhead hundone
    refine .undoing d hi hs (hterm.trans ht) (fun k hk ↦ honly k ?_) hhead fun q hq ↦ hundone q ?_
    · rw [← hcall k hk]
      exact hk
    · rw [← hcall d (by rw [hq]; rfl)]
      exact hq
  | stopping hi hs ht hc hdrained =>
    rw [← hpool] at hi hs
    refine .stopping hi hs (hterm ▸ ht) (hcalm hc) ?_
    rintro ⟨haway, hx⟩
    rw [hterm, hpool] at hx
    rw [hpool]
    refine hdrained ⟨ht, hx.imp_left ?_⟩
    rintro ⟨w, hw, hexit⟩
    exact ⟨w, hw, hworkers w hexit⟩

theorem Managed.of_undoing (h : s.Managed) (hd : (s.events d).call.undoing = true) :
    s.pool.initialized = true ∧ s.pool.stopping = true ∧ s.term = .away ∧ s.pool.head = none ∧
      (∀ k, (s.events k).call.undoing = true → k = d) ∧
      ∀ q, (s.events d).call = .undone q → s.pool.threads = [] := by
  have hcalm : (∀ k, (s.events k).call.undoing = false) → False := by
    intro hc
    rw [hc d] at hd
    cases hd
  cases h with
  | closed _ _ hc | serving _ _ _ hc | stopping _ _ _ hc => exact (hcalm hc).elim
  | undoing k hi hs ht honly hhead hundone =>
    obtain rfl := honly d hd
    exact ⟨hi, hs, ht, hhead, honly, hundone⟩

theorem Managed.of_serving (h : s.Managed) (hi : s.pool.initialized = true)
    (hs : s.pool.stopping = false) :
    s.term = .away ∧ (∀ k, (s.events k).call.undoing = false) ∧
      (s.pool.threads = [] → s.pool.head = none) ∧
      ∀ w ∈ s.pool.threads, s.workers w ≠ .exited := by
  cases h with
  | closed hp =>
    rw [hp] at hi
    cases hi
  | serving _ _ ht hc hidle hlive => exact ⟨ht, hc, hidle, hlive⟩
  | undoing _ _ hs' | stopping _ hs' =>
    rw [hs] at hs'
    cases hs'

theorem Managed.of_term (h : s.Managed) (ht : s.term ≠ .away) :
    s.pool.initialized = true ∧ s.pool.stopping = true ∧
      (∀ k, (s.events k).call.undoing = false) ∧ (s.Drained → s.pool.head = none) := by
  cases h with
  | closed _ ht' | serving _ _ ht' | undoing _ _ _ ht' => exact absurd ht' ht
  | stopping hi hs _ hc hdrained => exact ⟨hi, hs, hc, hdrained⟩

/-! ## The steps -/

theorem Ledger.keeps (h : s.Ledger) (k : s.Keeps t) : t.Ledger := by
  refine ⟨k.inv, ?_, ?_, ?_⟩
  · exact h.accounts.congr k.accepted k.dequeued (by rw [k.pool]) (by rw [k.pool]) k.queued
  · refine h.managed.congr k.pool k.term k.undoing fun w hw ↦ ?_
    rcases k.workers w with heq | ⟨-, hne⟩
    · rwa [← heq]
    · exact absurd hw hne
  · intro w hw
    rw [k.nextWorker] at hw
    rcases k.workers w with heq | ⟨hne, -⟩
    · exact heq.trans (h.fresh w hw)
    · exact absurd (h.fresh w hw) hne

/-- The accounts do not depend on where a thread is in `nanoev_dns_resolve`. -/
theorem Accounts.goto (h : s.Accounts) (pc : ResolvePc)
    (hev : t.events = Function.update s.events d { s.events d with call := pc })
    (hacc : t.accepted = s.accepted) (hdeq : t.dequeued = s.dequeued)
    (hhead : t.pool.head = s.pool.head) (htail : t.pool.tail = s.pool.tail) : t.Accounts := by
  refine h.congr hacc hdeq hhead htail fun k q hk ↦ ?_
  rw [hev]
  rcases eq_or_ne k d with rfl | hkd
  · rw [Function.update_self]
    exact ⟨hk, rfl⟩
  · rw [Function.update_of_ne hkd]
    exact ⟨hk, rfl⟩

theorem call_goto (pc : ResolvePc)
    (hev : t.events = Function.update s.events d { s.events d with call := pc }) (k : ℕ) :
    (t.events k).call = if k = d then pc else (s.events k).call := by
  rw [hev]
  rcases eq_or_ne k d with rfl | hkd
  · rw [Function.update_self, if_pos rfl]
  · rw [Function.update_of_ne hkd, if_neg hkd]

theorem Inv.accept_eq (h : s.Inv) (hc : (s.events d).call = .enqueue q) :
    s.accept d q = { s with
      events := Function.update (s.linked d) d
        { s.linked d d with call := .away, stage := .queued q }
      pool := { s.pool with
        head := if s.pool.tail = none then some d else s.pool.head, tail := some d }
      accepted := s.accepted ++ [q]
      returned := s.returned ++ [(d, .success)] } := by
  have hst := (h.events.ok d).stage_of_preparing (Or.inl hc)
  obtain ⟨o, ho⟩ := (h.events.ok d).exists_dns (by rw [hst]; exact nofun)
  obtain ⟨l, hl, hqueued⟩ := h.queue
  exact DnsSystem.accept_eq ho (h.tail_ne hst hl hqueued).2

theorem Managed.accept (h : s.Inv) (hc : (s.events d).call = .enqueue q)
    (hi : s.pool.initialized = true) (hs : s.pool.stopping = false) (ht : s.term = .away)
    (hcalm : ∀ k, (s.events k).call.undoing = false) (hthreads : s.pool.threads ≠ [])
    (hlive : ∀ w ∈ s.pool.threads, s.workers w ≠ .exited) : (s.accept d q).Managed := by
  rw [h.accept_eq hc]
  refine .serving hi hs ht (fun k ↦ ?_) (fun hnil ↦ absurd hnil hthreads) hlive
  dsimp only
  rcases eq_or_ne k d with rfl | hk
  · rw [Function.update_self]
    rfl
  · rw [Function.update_of_ne hk]
    exact hcalm k

theorem Managed.enterUndo (hcalm : ∀ k, (s.events k).call.undoing = false)
    (hev : t.events = Function.update s.events d { s.events d with call := .undo q none })
    (hi : t.pool.initialized = true) (hs : t.pool.stopping = true) (ht : t.term = .away)
    (hhead : t.pool.head = none) : t.Managed := by
  refine .undoing d hi hs ht (fun k hk ↦ ?_) hhead fun q' hq' ↦ ?_
  · by_contra hkd
    rw [call_goto _ hev, if_neg hkd, hcalm k] at hk
    cases hk
  · rw [call_goto _ hev, if_pos rfl] at hq'
    cases hq'

theorem Accounts.createWorkers (h : s.Accounts) (n : ℕ) : (s.createWorkers n).Accounts :=
  h.congr rfl rfl rfl rfl fun _ _ hk ↦ ⟨hk, rfl⟩

theorem Ledger.enqueue {n : ℕ} (h : s.Ledger) (hc : (s.events d).call = .enqueue q) :
    (s.dnsEnqueue d q n).Ledger := by
  have hcreated : (s.createWorkers dnsThreadCount).Inv := h.inv.rest h.inv.queue
  refine ⟨h.inv.enqueue hc, ?_, ?_, ?_⟩
  · rw [dnsEnqueue]
    split_ifs
    · exact h.accounts.goto (.failed q) rfl rfl rfl rfl rfl
    · exact h.accounts.accept h.inv hc
    · exact (h.accounts.createWorkers n).goto (.undo q none) rfl rfl rfl rfl rfl
    · exact (h.accounts.createWorkers _).accept hcreated hc
  · rw [dnsEnqueue]
    split_ifs with hrefused hthreads hn
    · -- the thread leaves, and is not undoing anything
      refine h.managed.congr rfl rfl (fun k hk ↦ ?_) fun _ hw ↦ hw
      rw [call_goto (s := s) (d := d) (.failed q) rfl] at hk ⊢
      split_ifs at hk ⊢
      · cases hk
      · rfl
    all_goals
      rw [not_or, Bool.not_eq_false, Bool.not_eq_true] at hrefused
      obtain ⟨hi, hs⟩ := hrefused
      obtain ⟨ht, hcalm, hidle, hlive⟩ := h.managed.of_serving hi hs
    · exact .accept h.inv hc hi hs ht hcalm hthreads hlive
    · exact .enterUndo (s := s) (d := d) hcalm rfl hi rfl ht (hidle (not_not.mp hthreads))
    · refine .accept hcreated hc hi hs ht hcalm (List.cons_ne_nil _ _) fun w hw ↦ ?_
      obtain ⟨hlt, -⟩ := List.mem_range'_1.mp hw
      exact ne_of_eq_of_ne (h.fresh w hlt) (by simp)
  · rw [dnsEnqueue]
    split_ifs
    · exact h.fresh
    · rw [h.inv.accept_eq hc]
      exact h.fresh
    · exact fun w hw ↦ h.fresh w (le_of_add_le_left hw)
    · rw [hcreated.accept_eq hc]
      exact fun w hw ↦ h.fresh w (le_of_add_le_left hw)

theorem Ledger.undo {threads : List ℕ} {pc : ResolvePc} (h : s.Ledger)
    (hd : (s.events d).call.undoing = true) (hinv : t.Inv)
    (hev : t.events = Function.update s.events d { s.events d with call := pc })
    (hpool : t.pool = { s.pool with threads := threads }) (hterm : t.term = s.term)
    (hw : t.workers = s.workers) (hnw : t.nextWorker = s.nextWorker)
    (hacc : t.accepted = s.accepted) (hdeq : t.dequeued = s.dequeued)
    (hpc : ∀ q, pc = .undone q → threads = []) : t.Ledger := by
  obtain ⟨hi, hs, ht, hhead, honly, -⟩ := h.managed.of_undoing hd
  refine ⟨hinv, h.accounts.goto pc hev hacc hdeq (by rw [hpool]) (by rw [hpool]), ?_, ?_⟩
  · refine .undoing d ?_ ?_ (hterm.trans ht) (fun k hk ↦ ?_) ?_ fun q hq ↦ ?_
    · rw [hpool]
      exact hi
    · rw [hpool]
      exact hs
    · by_contra hkd
      rw [call_goto pc hev, if_neg hkd] at hk
      exact hkd (honly k hk)
    · rw [hpool]
      exact hhead
    · rw [call_goto pc hev, if_pos rfl] at hq
      rw [hpool]
      exact hpc q hq
  · rw [hw, hnw]
    exact h.fresh

theorem Ledger.undoFinish (h : s.Ledger) (hc : (s.events d).call = .undone q)
    (hinv : (s.undoFinish d q).Inv) : (s.undoFinish d q).Ledger := by
  obtain ⟨hi, hs, ht, hhead, honly, hundone⟩ := h.managed.of_undoing (d := d) (by rw [hc]; rfl)
  refine ⟨hinv, h.accounts.goto (.failed q) rfl rfl rfl rfl rfl, ?_, h.fresh⟩
  refine .serving hi rfl ht (fun k ↦ ?_) (fun _ ↦ hhead) ?_
  · rw [call_goto (s := s) (d := d) (.failed q) rfl]
    split_ifs with hk
    · rfl
    · by_contra hundoing
      exact hk (honly k (Bool.eq_true_of_not_eq_false hundoing))
  · rw [DnsSystem.undoFinish]
    dsimp only
    rw [hundone q hc]
    exact nofun

theorem Ledger.dequeue (h : s.Ledger) (hw : s.workers w = .waiting) (hlt : w < s.nextWorker)
    (hhead : s.pool.head = some d) : (s.dequeue w d).Ledger := by
  obtain ⟨m, hm, hqueued⟩ := h.inv.queue
  have hdm : d ∈ m := List.mem_of_mem_head? (hm.head_eq ▸ hhead ▸ rfl)
  obtain ⟨q, hst⟩ := hqueued d hdm
  obtain ⟨o, ho, -⟩ := h.inv.stores_of_queued hst
  have hne : s.pool.head ≠ none := by
    rw [hhead]
    exact nofun
  have heq := dequeue_eq (w := w) ho hst
  have hcall : ∀ k, ((s.dequeue w d).events k).call = (s.events k).call := by
    intro k
    rw [heq]
    dsimp only [setWorker, setEvent]
    rcases eq_or_ne k d with rfl | hk
    · rw [Function.update_self]
    · rw [Function.update_of_ne hk]
  have hworkers : ∀ v, (s.dequeue w d).workers v = .exited → s.workers v = .exited := by
    intro v
    rw [heq]
    dsimp only [setWorker, setEvent]
    rcases eq_or_ne v w with rfl | hv
    · rw [Function.update_self]
      exact nofun
    · rw [Function.update_of_ne hv]
      exact fun hx ↦ hx
  refine ⟨h.inv.dequeue hw hhead, h.accounts.dequeue h.inv hhead, ?_, ?_⟩
  · cases h.managed with
    | closed hp =>
      rw [hp] at hne
      exact absurd rfl hne
    | undoing _ _ _ _ _ hnone => exact absurd hnone hne
    | serving hi hs ht hc hidle hlive =>
      refine .serving ?_ ?_ ?_ (fun k ↦ by rw [hcall]; exact hc k) ?_ ?_
      · rw [heq]
        exact hi
      · rw [heq]
        exact hs
      · rw [heq]
        exact ht
      · rw [heq]
        exact fun hnil ↦ absurd (hidle hnil) hne
      · intro v hv hx
        rw [heq] at hv
        exact hlive v hv (hworkers v hx)
    | stopping hi hs ht hc hdrained =>
      refine .stopping ?_ ?_ ?_ (fun k ↦ by rw [hcall]; exact hc k) ?_
      · rw [heq]
        exact hi
      · rw [heq]
        exact hs
      · rw [heq]
        exact ht
      · -- a thread leaves only after the queue is empty, but there was a request to take
        rintro ⟨-, hx⟩
        refine absurd (hdrained ⟨ht, ?_⟩) hne
        rcases hx with ⟨v, hv, hexit⟩ | hx
        · rw [heq] at hv
          exact Or.inl ⟨v, hv, hworkers v hexit⟩
        · rw [heq] at hx
          exact Or.inr hx
  · intro v hv
    rw [heq] at hv ⊢
    have hvw : v ≠ w := by
      rintro rfl
      exact absurd hlt (Nat.not_lt.mpr hv)
    exact (Function.update_of_ne hvw ..).trans (h.fresh v hv)

theorem Ledger.exit (h : s.Ledger) (hlt : w < s.nextWorker) (hhead : s.pool.head = none)
    (hstop : s.pool.stopping = true) (hinv : (s.setWorker w .exited).Inv) :
    (s.setWorker w .exited).Ledger := by
  refine ⟨hinv, h.accounts.congr rfl rfl rfl rfl fun _ _ hk ↦ ⟨hk, rfl⟩, ?_, ?_⟩
  · cases h.managed with
    | closed hp =>
      rw [hp] at hstop
      cases hstop
    | serving _ hs =>
      rw [hstop] at hs
      cases hs
    | undoing d hi hs ht honly _ hundone => exact .undoing d hi hs ht honly hhead hundone
    | stopping hi hs ht hc _ => exact .stopping hi hs ht hc fun _ ↦ hhead
  · intro v hv
    have hvw : v ≠ w := by
      rintro rfl
      exact absurd hlt (Nat.not_lt.mpr hv)
    exact (Function.update_of_ne hvw ..).trans (h.fresh v hv)

/-- `dns_term` is not called while a thread is still in `dns_start_workers_locked` after it could
not create a thread of the pool. -/
def TermAlone (s : DnsSystem) (a : Action) : Prop :=
  a = .term → ∀ d < s.nextEvent, (s.events d).call.undoing = false

instance (s : DnsSystem) (a : Action) : Decidable (s.TermAlone a) :=
  inferInstanceAs (Decidable (_ → _))

theorem Ledger.init (h : s.Ledger) (hi : s.pool.initialized = false)
    (hinv : Inv { s with pool := .dnsInit }) : Ledger { s with pool := .dnsInit } := by
  cases h.managed with
  | closed hp ht hc =>
    refine ⟨hinv, h.accounts.zeroed (by rw [hp]; rfl) rfl rfl rfl rfl, ?_, h.fresh⟩
    exact .serving rfl rfl ht hc (fun _ ↦ rfl) nofun
  | serving hi' | undoing _ hi' | stopping hi' =>
    rw [hi] at hi'
    cases hi'

theorem Ledger.term (h : s.Ledger) (ht : s.term = .away) (hi : s.pool.initialized = true)
    (hcalm : ∀ d, (s.events d).call.undoing = false)
    (hinv : Inv { s with pool := { s.pool with stopping := true }, term := .joining none }) :
    Ledger { s with pool := { s.pool with stopping := true }, term := .joining none } := by
  refine ⟨hinv, h.accounts.congr rfl rfl rfl rfl fun _ _ hk ↦ ⟨hk, rfl⟩, ?_, h.fresh⟩
  refine .stopping hi rfl nofun hcalm ?_
  rintro ⟨-, hdrained⟩
  cases h.managed with
  | closed hp =>
    rw [hp] at hi
    cases hi
  | stopping _ _ ht' => exact absurd ht ht'
  | undoing _ _ _ _ _ hhead => exact hhead
  | serving _ _ _ _ hidle hlive =>
    rcases hdrained with ⟨w, hw | hw, hexit⟩ | ⟨-, hnil⟩ | hleaving
    · exact absurd hexit (hlive w hw)
    · cases hw
    · exact hidle hnil
    · cases hleaving

theorem Ledger.termGoto {threads : List ℕ} {pc : TermPc} (h : s.Ledger) (ht : s.term ≠ .away)
    (hpc : pc ≠ .away)
    (hinv : Inv { s with pool := { s.pool with threads := threads }, term := pc })
    (hdrained : Drained { s with pool := { s.pool with threads := threads }, term := pc } →
      s.Drained) :
    Ledger { s with pool := { s.pool with threads := threads }, term := pc } := by
  obtain ⟨hi, hs, hcalm, hhead⟩ := h.managed.of_term ht
  exact ⟨hinv, h.accounts.congr rfl rfl rfl rfl fun _ _ hk ↦ ⟨hk, rfl⟩,
    .stopping hi hs hpc hcalm fun hx ↦ hhead (hdrained hx), h.fresh⟩

theorem Ledger.termFinish (h : s.Ledger) (ht : s.term = .leaving)
    (hinv : Inv { s with pool := .zero, term := .away }) :
    Ledger { s with pool := .zero, term := .away } := by
  have hne : s.term ≠ .away := by
    rw [ht]
    exact nofun
  obtain ⟨-, -, hcalm, hhead⟩ := h.managed.of_term hne
  have hnone := hhead ⟨hne, Or.inr (Or.inr ht)⟩
  exact ⟨hinv, h.accounts.zeroed hnone rfl rfl rfl rfl, .closed rfl rfl hcalm, h.fresh⟩

theorem Ledger.step {a : Action} (h : s.Ledger) (hok : s.TermAlone a) (hstep : s.step a = some t) :
    t.Ledger := by
  have hinv := h.inv.step hstep
  cases hm : a.manages with
  | false => exact h.keeps (h.inv.keeps hm hstep)
  | true =>
    cases step_eq_some hstep with
    | init hi => exact h.init hi hinv
    | enqueue hc => exact h.enqueue hc
    | undoPop hc | undoJoin hc =>
      exact h.undo (by rw [hc]; rfl) hinv rfl rfl rfl rfl rfl rfl rfl (by simp)
    | undoLeave hc hnil =>
      exact h.undo (by rw [hc]; rfl) hinv rfl rfl rfl rfl rfl rfl rfl fun _ _ ↦ hnil
    | undoFinish hc => exact h.undoFinish hc hinv
    | dequeue hhead hready => exact h.dequeue hready.2 hready.1 hhead
    | exit hready =>
      obtain ⟨hlt, -, hhead, hstop⟩ := hready
      exact h.exit hlt hhead hstop hinv
    | term hready =>
      refine h.term hready.1 hready.2 (fun d ↦ ?_) hinv
      rcases Nat.lt_or_ge d s.nextEvent with hd | hd
      · exact hok rfl d hd
      · rw [h.inv.events.unborn d hd]
        rfl
    | @termPop w hterm hw =>
      have hlast : w ∈ s.pool.threads := List.mem_of_getLast? hw
      refine h.termGoto (by simp [hterm]) (by simp) hinv ?_
      -- a thread that is joined now was to be joined before
      rintro ⟨-, ⟨v, hv | hv, hexit⟩ | ⟨hnone, -⟩ | hleaving⟩
      · refine ⟨by simp [hterm], Or.inl ⟨v, Or.inl ?_, hexit⟩⟩
        exact List.dropLast_subset _ hv
      · obtain rfl := Option.some.inj (TermPc.joining.inj hv)
        exact ⟨by simp [hterm], Or.inl ⟨w, Or.inl hlast, hexit⟩⟩
      · cases hnone
      · cases hleaving
    | @termJoin w hterm hexit =>
      refine h.termGoto (by simp [hterm]) (by simp) hinv fun _ ↦ ?_
      exact ⟨by simp [hterm], Or.inl ⟨w, Or.inr hterm, hexit⟩⟩
    | termLeave hready =>
      refine h.termGoto (by simp [hready.1]) (by simp) hinv fun _ ↦ ?_
      exact ⟨by simp [hready.1], Or.inr (Or.inl hready)⟩
    | termFinish ht => exact h.termFinish ht hinv
    | _ => cases hm

theorem ledger_init : init.Ledger where
  inv := inv_init
  accounts := ⟨rfl, IsQueue.nil, nofun⟩
  managed := .closed rfl rfl fun _ ↦ rfl
  fresh := fun _ _ ↦ rfl

/-! ## The queue -/

theorem next_goto (pc : ResolvePc)
    (hev : t.events = Function.update s.events d { s.events d with call := pc }) (k : ℕ) :
    (t.events k).next = (s.events k).next := by
  rw [hev]
  rcases eq_or_ne k d with rfl | hk
  · rw [Function.update_self]
    rfl
  · rw [Function.update_of_ne hk]

/-- A step of `dns_enqueue` that does not accept the request leaves the queue as it is. -/
theorem Inv.enqueue_failed {a : Action} (h : s.Inv) (ha : a.enqueues = true)
    (hstep : s.step a = some t) (hacc : t.accepted = s.accepted) :
    t.pool.head = s.pool.head ∧ t.pool.tail = s.pool.tail ∧
      ∀ d, (t.events d).next = (s.events d).next := by
  cases step_eq_some hstep with
  | @enqueue _ q _ hc =>
    rw [dnsEnqueue] at hacc ⊢
    split_ifs at hacc ⊢
    · exact ⟨rfl, rfl, next_goto (.failed q) rfl⟩
    · rw [h.accept_eq hc] at hacc
      cases List.append_right_eq_self.mp hacc
    · exact ⟨rfl, rfl, next_goto (.undo q none) rfl⟩
    · have hcreated : (s.createWorkers dnsThreadCount).Inv := h.rest h.queue
      rw [hcreated.accept_eq hc] at hacc
      cases List.append_right_eq_self.mp hacc
  | @undoPop _ q w => exact ⟨rfl, rfl, next_goto (.undo q (some w)) rfl⟩
  | @undoJoin _ q => exact ⟨rfl, rfl, next_goto (.undo q none) rfl⟩
  | @undoLeave _ q => exact ⟨rfl, rfl, next_goto (.undone q) rfl⟩
  | @undoFinish _ q => exact ⟨rfl, rfl, next_goto (.failed q) rfl⟩
  | _ => cases ha

/-- Different requests have different host names, so none is dequeued twice. -/
theorem Ledger.once (h : s.Ledger) : (s.dequeued.map Dequeued.host).Nodup := by
  have hhost : s.dequeued.map Dequeued.host =
      (s.accepted.take s.dequeued.length).map fun q ↦ some q.host := by
    have horder := congrArg (List.map Prod.snd) h.accounts.order
    rwa [List.map_map, List.map_map] at horder
  rw [hhost]
  have hnodup : (s.accepted.map fun q ↦ some q.host).Nodup := by
    have hmap := h.inv.record.nodup.map (Option.some_injective ℕ)
    rwa [List.map_map] at hmap
  exact hnodup.sublist ((List.take_sublist _ _).map _)

/-- **The queue is a FIFO** in every run in which `dns_term` is not called while a thread takes back
the threads that it has created. -/
theorem fifo_of_reachable (h : Reachable step TermAlone init s) : s.Fifo := by
  have hledger : s.Ledger := h.invariant ledger_init fun _ _ _ hs hok hstep ↦ hs.step hok hstep
  have hacc := hledger.accounts
  refine ⟨hacc.queue, ?_, ?_, hacc.order, hledger.once, ?_, ?_⟩
  · exact fun q hq ↦ hledger.inv.stores_of_queued (hacc.stage q hq)
  · rw [hacc.head_eq_none_iff, hacc.tail_eq_none_iff]
  · intro hdrained
    obtain ⟨-, -, -, hhead⟩ := hledger.managed.of_term hdrained.1
    exact hacc.head_eq_none_iff.mp (hhead hdrained)
  · exact fun a t ha hstep hsame ↦ hledger.inv.enqueue_failed ha hstep hsame

/-- Two requests from two loops. `dns_term` is called while one of them is in the queue; a thread
that has not been joined yet dequeues it, and the others leave. -/
def drainAndStop : List Action :=
  [.init, .new (.ok 0), .new (.ok 0), .resolve 0 ⟨true, 0, 80, some 7⟩ true, .submit 0,
    .enqueue 0 4,
    .resolve 1 ⟨true, 0, 80, some 8⟩ true, .submit 1, .enqueue 1 4, .dequeue 3, .term, .dequeue 0,
    .termPop, .exit 2]

theorem fifo_of_reachable_drainAndStop :
    ∃ s, exec step TermAlone init drainAndStop = some s ∧
      s.dequeued = [⟨3, 0, some 0⟩, ⟨0, 1, some 1⟩] ∧ s.term = .joining (some 3) ∧ s.Fifo := by
  have hrun : (exec step TermAlone init drainAndStop).map (fun s ↦ (s.dequeued, s.term)) =
      some ([⟨3, 0, some 0⟩, ⟨0, 1, some 1⟩], .joining (some 3)) := by decide +kernel
  obtain ⟨s, hs, heq⟩ := Option.map_eq_some_iff.mp hrun
  simp only [Prod.mk.injEq] at heq
  exact ⟨s, hs, heq.1, heq.2, fifo_of_reachable (Reachable.of_exec hs)⟩

/-- `dns_term` is called while the thread of the loop of the event `0` is in
`dns_start_workers_locked`; that thread then clears the flag, the event `1` is enqueued, and
`dns_term` zeroes the pool. -/
def termDuringUndo : List Action :=
  [.init, .new (.ok 0), .new (.ok 0), .resolve 0 ⟨true, 0, 80, some 7⟩ true, .submit 0,
    .enqueue 0 0,
    .undoLeave 0, .term, .termLeave, .undoFinish 0, .resolve 1 ⟨true, 0, 80, some 8⟩ true,
    .submit 1,
    .enqueue 1 4, .termFinish]

/-- Without the condition a request can be lost: it has been accepted and not been dequeued, and the
queue is empty. -/
theorem exists_request_lost : ∃ s, Reachable step anyStep init s ∧ ¬ s.Fifo := by
  have hrun : (exec step anyStep init termDuringUndo).map
      (fun s ↦ (s.accepted.length, s.dequeued.length, s.pool.head)) = some (1, 0, none) := by
    decide +kernel
  obtain ⟨s, hs, heq⟩ := Option.map_eq_some_iff.mp hrun
  simp only [Prod.mk.injEq] at heq
  obtain ⟨hacc, hdeq, hhead⟩ := heq
  refine ⟨s, Reachable.of_exec hs, fun hfifo ↦ ?_⟩
  have hnil := hfifo.queue.head_eq_none_iff.mp hhead
  have hlength := congrArg List.length hnil
  rw [List.length_map, waiting, List.length_drop, hacc, hdeq] at hlength
  cases hlength

end DnsSystem

end Nanoev
