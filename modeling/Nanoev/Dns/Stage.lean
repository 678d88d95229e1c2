import Nanoev.Dns.Basic

/-!
# Who has a DNS event

A request passes from the thread of the loop to the queue, to a thread of the pool and back to the
loop, and at each stage one party alone may work on the object. The stage of an event says which one
it is, and the invariant says what the flags of the object, the pipe of its async event and the
program counters have to look like at that stage. In particular

* the flag `pending` is set from the moment the request is stored until `dns_on_async` has taken the
  answer, so `dns_free` does not destroy the object in between;
* there is a byte in the pipe, or one that has been read and not been answered, exactly when the
  thread of the pool has left `nanoev_async_send`, so `dns_on_async` is not called as long as the
  thread may still use the object.
-/

namespace Nanoev

/-! ## Stages

The stage belongs to the model: the source has no field for it. It is set by the step that hands the
object on, and it names the request, so that what the object stores, what the byte in the pipe is
for and what `dns_on_async` takes can be compared with it. -/

namespace Stage

def request : Stage → Option DnsRequest
  | idle => none
  | copied q | preparing q | queued q | resolving _ q | published _ q | notified q | delivering q =>
    some q

/-- The flag `pending`. -/
def pending : Stage → Bool
  | preparing _ | queued _ | resolving _ _ | published _ _ | notified _ => true
  | _ => false

/-- The flag `completed`. -/
def completed : Stage → Bool
  | published _ _ | notified _ => true
  | _ => false

def accepted : Stage → Bool
  | idle | copied _ | preparing _ => false
  | _ => true

/-- The event is in the queue or with a thread of the pool. -/
def pool : Stage → Bool
  | queued _ | resolving _ _ | published _ _ => true
  | _ => false

end Stage

/-- The position in `nanoev_dns_resolve` goes with the stage. -/
def ResolvePc.Fits : ResolvePc → Stage → Prop
  | .away, st => st = .idle ∨ st.accepted = true
  | .copied q, st => st = .copied q
  | .enqueue q, st | .undo q _, st | .undone q, st | .failed q, st => st = .preparing q

theorem ResolvePc.Fits.move {pc : ResolvePc} {st st' : Stage} (h : pc.Fits st)
    (hst : st.accepted = true) (hst' : st' = .idle ∨ st'.accepted = true) : pc.Fits st' := by
  cases pc with
  | away => exact hst'
  | _ =>
    -- the request has not been accepted yet
    obtain rfl := h
    cases hst

/-- The thread is in `dns_start_workers_locked`, after a failure. -/
def ResolvePc.undoing : ResolvePc → Bool
  | .undo _ _ | .undone _ => true
  | _ => false

/-- The thread of the loop is not concerned with a new notification, nor with an object that it has
to destroy. -/
def OnAsyncPc.between : OnAsyncPc → Bool
  | .away | .inCallback _ | .finishing _ false => true
  | _ => false

/-- The addresses that a thread of the pool has not published. -/
def WorkerPc.addrs : WorkerPc → Option ℕ
  | .publishing _ a => a.addrs
  | _ => none

structure Dns.Stores (o : Dns) (q : DnsRequest) : Prop where
  host : o.host = some q.host
  family : o.family = q.family
  port : o.port = q.port
  callback : o.callback = some q.callback

/-- The async event of the object of `d`, after `dns_new`. -/
structure Async.ForDns (a : Async) (d : ℕ) : Prop where
  reading : a.reading = false
  deleted : a.deleted = false
  onAsync : a.onAsync = some 0
  pipeR : a.pipeR.map Socket.fd = some (2 * d)
  pipeW : a.pipeW = some (2 * d + 1)

def Async.Quiet (a : Async) : Prop := a.asyncSent = false ∧ a.pipeBytes = 0

/-- A notification is on its way: in the pipe, read, or about to be answered. -/
def Async.Notifies (a : Async) (pc : OnAsyncPc) : Prop :=
  (a.asyncSent = true ∧ a.pipeBytes = 1 ∧ pc.between = true) ∨
    (a.asyncSent = true ∧ a.pipeBytes = 0 ∧ a.ctx.status = 0 ∧ pc = .completed) ∨
    (a.asyncSent = false ∧ a.pipeBytes = 0 ∧ pc = .calling)

/-- What `dns_on_async` has taken is the request, with the flag `DELETED`. -/
structure Taken.For (t : Taken) (q : DnsRequest) (freed : Bool) : Prop where
  callback : t.callback = some q.callback
  host : t.host = some q.host
  deleted : t.deleted = freed

/-- The async event and the thread of the loop at a stage. An event that is idle and has been freed
is about to be destroyed. -/
def Stage.Notice (st : Stage) (freed : Bool) (a : Async) (pc : OnAsyncPc) : Prop :=
  match st with
  | .notified _ => a.Notifies pc
  | .delivering q => a.Quiet ∧ ∃ t, pc = .taken t ∧ t.For q freed
  | .idle => a.Quiet ∧ if freed then ∃ b, pc = .finishing b true else pc.between = true
  | _ => a.Quiet ∧ pc.between = true

namespace DnsEvent

structure Alive (e : DnsEvent) (d : ℕ) (o : Dns) : Prop where
  pending : o.pending = e.stage.pending
  completed : o.completed = e.stage.completed
  deleted : o.deleted = e.freed
  stores : ∀ q, e.stage.pending = true → e.stage.request = some q → o.Stores q
  host : e.stage.pending = false → o.host = Option.none
  addrs : e.stage.completed = false → o.addrs = Option.none
  notice : ∃ a, e.async = some a ∧ a.ForDns d ∧ e.stage.Notice e.freed a e.delivery

structure Gone (e : DnsEvent) : Prop where
  stage : e.stage = .idle
  async : e.async = Option.none
  delivery : e.delivery.between = true

structure Ok (e : DnsEvent) (d : ℕ) : Prop where
  request : ∀ q, e.stage.request = some q → q.event = d
  call : e.call.Fits e.stage
  away : e.freed = true → e.call = .away
  gone : e.dns = Option.none → e.Gone
  alive : ∀ o, e.dns = some o → e.Alive d o

def next (e : DnsEvent) : Option ℕ := e.dns.bind Dns.queueNext

theorem ok_none (d : ℕ) : DnsEvent.none.Ok d where
  request := nofun
  call := Or.inl rfl
  away := nofun
  gone := fun _ ↦ ⟨rfl, rfl, rfl⟩
  alive := nofun

end DnsEvent

/-! ## One event

What each operation does to the event it works on. -/

namespace DnsEvent

variable {e : DnsEvent} {d w : ℕ} {q : DnsRequest} {o : Dns} {a : Async} {t : Taken}
  {b : Option ℕ}

theorem Ok.stage_of_copied (h : e.Ok d) (hc : e.call = .copied q) : e.stage = .copied q := by
  have hfits := h.call
  rwa [hc] at hfits

theorem Ok.stage_of_preparing (h : e.Ok d)
    (hc : e.call = .enqueue q ∨ (∃ j, e.call = .undo q j) ∨ e.call = .undone q ∨
      e.call = .failed q) : e.stage = .preparing q := by
  have hfits := h.call
  rcases hc with hc | ⟨j, hc⟩ | hc | hc <;> rwa [hc] at hfits

theorem Ok.exists_dns (h : e.Ok d) (hst : e.stage ≠ .idle) : ∃ o, e.dns = some o :=
  Option.ne_none_iff_exists'.mp fun hnone ↦ hst (h.gone hnone).stage

theorem Ok.not_freed (h : e.Ok d) (hc : e.call ≠ .away) : e.freed = false := by
  by_contra hfreed
  exact hc (h.away (Bool.eq_true_of_not_eq_false hfreed))

theorem Ok.of_alive (hq : ∀ q, e.stage.request = some q → q.event = d)
    (hcall : e.call.Fits e.stage) (haway : e.freed = true → e.call = .away) (ho : e.dns = some o)
    (halive : e.Alive d o) : e.Ok d where
  request := hq
  call := hcall
  away := haway
  gone := fun h ↦ absurd (ho.symm.trans h) (Option.some_ne_none o)
  alive := fun _ ho' ↦ Option.some.inj (ho.symm.trans ho') ▸ halive

theorem Ok.relink {next : Option ℕ} (h : e.Ok d) (ho : e.dns = some o) :
    Ok { e with dns := some { o with queueNext := next } } d := by
  have halive := h.alive o ho
  refine Ok.of_alive h.request h.call h.away rfl ?_
  exact ⟨halive.pending, halive.completed, halive.deleted,
    fun q hp hq ↦ have hs := halive.stores q hp hq; ⟨hs.host, hs.family, hs.port, hs.callback⟩,
    halive.host, halive.addrs, halive.notice⟩

theorem Ok.goto {pc : ResolvePc} (h : e.Ok d) (hpc : pc.Fits e.stage) (hfreed : e.freed = false) :
    Ok { e with call := pc } d where
  request := h.request
  call := hpc
  away := fun hf ↦ absurd (hfreed.symm.trans hf) Bool.false_ne_true
  gone := fun hnone ↦ ⟨(h.gone hnone).stage, (h.gone hnone).async, (h.gone hnone).delivery⟩
  alive := fun o ho ↦
    have ha := h.alive o ho
    ⟨ha.pending, ha.completed, ha.deleted, ha.stores, ha.host, ha.addrs, ha.notice⟩

/-- An event that a function may be called on is idle if no request is pending. -/
theorem Ok.idle_of_client (h : e.Ok d) (ho : e.dns = some o) (hc : e.call = .away)
    (hclient : e.delivery.client = true) (hp : o.pending = false) : e.stage = .idle := by
  have halive := h.alive o ho
  have hst : e.stage.pending = false := halive.pending.symm.trans hp
  have hfits := h.call
  rw [hc] at hfits
  rcases hfits with hidle | haccepted
  · exact hidle
  · -- what is accepted and not pending is being delivered, and then no function is called
    obtain ⟨a, -, -, hnotice⟩ := halive.notice
    cases hstage : e.stage with
    | delivering q =>
      rw [hstage] at hnotice
      obtain ⟨-, t, ht, -⟩ := hnotice
      rw [ht] at hclient
      cases hclient
    | _ => simp [hstage, Stage.pending, Stage.accepted] at hst haccepted ⊢

theorem Ok.copy (h : e.Ok d) (ho : e.dns = some o) (hst : e.stage = .idle)
    (hfreed : e.freed = false) (hq : q.event = d) :
    Ok { e with call := .copied q, stage := .copied q } d := by
  have halive := h.alive o ho
  obtain ⟨a, ha, hfor, hnotice⟩ := halive.notice
  obtain ⟨dns, async, call, delivery, stage, freed⟩ := e
  obtain rfl : stage = .idle := hst
  obtain rfl : freed = false := hfreed
  refine Ok.of_alive ?_ rfl nofun ho ?_
  · rintro q' hq'
    rwa [← Option.some.inj hq']
  · exact ⟨halive.pending, halive.completed, halive.deleted, nofun, halive.host, halive.addrs,
      ⟨a, ha, hfor, hnotice⟩⟩

theorem Ok.submit (h : e.Ok d) (ho : e.dns = some o) (hc : e.call = .copied q) :
    Ok { e with dns := some (o.start q), call := .enqueue q, stage := .preparing q } d := by
  have halive := h.alive o ho
  have hfreed := h.not_freed (by rw [hc]; exact nofun)
  have hq := h.request
  have hst := h.stage_of_copied hc
  obtain ⟨dns, async, call, delivery, stage, freed⟩ := e
  obtain rfl : stage = .copied q := hst
  obtain rfl : freed = false := hfreed
  refine Ok.of_alive hq rfl nofun rfl ?_
  refine ⟨rfl, rfl, halive.deleted, ?_, nofun, fun _ ↦ rfl, halive.notice⟩
  rintro q' - hq'
  obtain rfl := Option.some.inj hq'
  exact ⟨rfl, rfl, rfl, rfl⟩

theorem Ok.enqueued (h : e.Ok d) (hc : e.call = .enqueue q) :
    Ok { e with call := .away, stage := .queued q } d := by
  have hst := h.stage_of_preparing (Or.inl hc)
  obtain ⟨o, ho⟩ := h.exists_dns (by rw [hst]; exact nofun)
  have halive := h.alive o ho
  have hq := h.request
  obtain ⟨dns, async, call, delivery, stage, freed⟩ := e
  obtain rfl : stage = .preparing q := hst
  refine Ok.of_alive hq (Or.inr rfl) (fun _ ↦ rfl) ho ?_
  exact ⟨halive.pending, halive.completed, halive.deleted, halive.stores, nofun, halive.addrs,
    halive.notice⟩

theorem Ok.withdraw (h : e.Ok d) (ho : e.dns = some o) (hc : e.call = .failed q) :
    Ok { e with dns := some o.withdraw, call := .away, stage := .idle } d := by
  have halive := h.alive o ho
  have hst := h.stage_of_preparing (Or.inr (Or.inr (Or.inr hc)))
  have hfreed := h.not_freed (by rw [hc]; exact nofun)
  obtain ⟨dns, async, call, delivery, stage, freed⟩ := e
  obtain rfl : stage = .preparing q := hst
  obtain rfl : freed = false := hfreed
  refine Ok.of_alive nofun (Or.inl rfl) nofun rfl ?_
  exact ⟨rfl, halive.completed, halive.deleted, nofun, fun _ ↦ rfl, halive.addrs, halive.notice⟩

theorem Ok.mark (h : e.Ok d) (ho : e.dns = some o) (hc : e.call = .away) (hp : o.pending = true) :
    Ok { e with dns := some { o with deleted := true }, freed := true } d := by
  have halive := h.alive o ho
  obtain ⟨a, ha, hfor, hnotice⟩ := halive.notice
  have hst : e.stage.pending = true := halive.pending.symm.trans hp
  refine Ok.of_alive h.request h.call (fun _ ↦ hc) rfl ?_
  refine ⟨halive.pending, halive.completed, rfl,
    fun q hp hq ↦ have hs := halive.stores q hp hq; ⟨hs.host, hs.family, hs.port, hs.callback⟩,
    halive.host, halive.addrs, a, ha, hfor, ?_⟩
  -- the flag matters for the stages that are not pending only
  show e.stage.Notice true a e.delivery
  revert hnotice hst
  cases e.stage <;> first | exact fun h _ ↦ h | exact fun _ h ↦ nomatch h

/-- An event has an object when the thread of the loop has something to do with it. -/
theorem Ok.exists_notice (h : e.Ok d) (hpc : e.delivery.between = false) :
    ∃ o a, e.dns = some o ∧ e.Alive d o ∧ e.async = some a ∧ a.ForDns d ∧
      e.stage.Notice e.freed a e.delivery := by
  have hsome : e.dns ≠ Option.none := by
    intro hnone
    exact absurd (hpc.symm.trans (h.gone hnone).delivery) Bool.false_ne_true
  obtain ⟨o, ho⟩ := Option.ne_none_iff_exists'.mp hsome
  obtain ⟨a, ha, hfor, hnotice⟩ := (h.alive o ho).notice
  exact ⟨o, a, ho, h.alive o ho, ha, hfor, hnotice⟩

theorem Alive.notified_of_pipeBytes (h : e.Alive d o) (ha : e.async = some a)
    (hb : 0 < a.pipeBytes) :
    ∃ q, e.stage = .notified q ∧ a.ForDns d ∧ a.asyncSent = true ∧ a.pipeBytes = 1 := by
  obtain ⟨a', ha', hfor, hnotice⟩ := h.notice
  obtain rfl := Option.some.inj (ha.symm.trans ha')
  cases hst : e.stage with
  | notified q =>
    rw [hst] at hnotice
    obtain ⟨hsent, hbytes, -⟩ | ⟨-, hbytes, -⟩ | ⟨-, hbytes, -⟩ := hnotice
    · exact ⟨q, rfl, hfor, hsent, hbytes⟩
    · omega
    · omega
  | _ =>
    rw [hst] at hnotice
    have hquiet : a.pipeBytes = 0 := hnotice.1.2
    omega

theorem Ok.of_completed (h : e.Ok d) (hpc : e.delivery = .completed) :
    ∃ q o a, e.stage = .notified q ∧ e.dns = some o ∧ e.Alive d o ∧ e.async = some a ∧ a.ForDns d ∧
      a.asyncSent = true ∧ a.pipeBytes = 0 ∧ a.ctx.status = 0 := by
  obtain ⟨o, a, ho, halive, ha, hfor, hnotice⟩ := h.exists_notice (by rw [hpc]; rfl)
  rw [hpc] at hnotice
  cases hst : e.stage with
  | notified q =>
    rw [hst] at hnotice
    obtain ⟨-, -, hbetween⟩ | ⟨hsent, hbytes, hstatus, -⟩ | ⟨-, -, hcalling⟩ := hnotice
    · cases hbetween
    · exact ⟨q, o, a, rfl, ho, halive, ha, hfor, hsent, hbytes, hstatus⟩
    · cases hcalling
  | _ => simp [hst, Stage.Notice, OnAsyncPc.between] at hnotice

theorem Ok.of_calling (h : e.Ok d) (hpc : e.delivery = .calling) :
    ∃ q o a, e.stage = .notified q ∧ e.dns = some o ∧ e.Alive d o ∧ e.async = some a ∧ a.ForDns d ∧
      a.Quiet := by
  obtain ⟨o, a, ho, halive, ha, hfor, hnotice⟩ := h.exists_notice (by rw [hpc]; rfl)
  rw [hpc] at hnotice
  cases hst : e.stage with
  | notified q =>
    rw [hst] at hnotice
    obtain ⟨-, -, hbetween⟩ | ⟨-, -, -, hcompleted⟩ | ⟨hsent, hbytes, -⟩ := hnotice
    · cases hbetween
    · cases hcompleted
    · exact ⟨q, o, a, rfl, ho, halive, ha, hfor, hsent, hbytes⟩
  | _ => simp [hst, Stage.Notice, OnAsyncPc.between] at hnotice

theorem Ok.of_taken (h : e.Ok d) (hpc : e.delivery = .taken t) :
    ∃ q o a, e.stage = .delivering q ∧ t.For q e.freed ∧ e.dns = some o ∧ e.Alive d o ∧
      e.async = some a ∧ a.ForDns d ∧ a.Quiet := by
  obtain ⟨o, a, ho, halive, ha, hfor, hnotice⟩ := h.exists_notice (by rw [hpc]; rfl)
  rw [hpc] at hnotice
  cases hst : e.stage with
  | delivering q =>
    rw [hst] at hnotice
    obtain ⟨hquiet, t', ht', hfort⟩ := hnotice
    obtain rfl := OnAsyncPc.taken.inj ht'
    exact ⟨q, o, a, rfl, hfort, ho, halive, ha, hfor, hquiet⟩
  | _ => simp [hst, Stage.Notice, Async.Notifies, OnAsyncPc.between] at hnotice

theorem Ok.of_finishing (h : e.Ok d) (hpc : e.delivery = .finishing b true) :
    ∃ o a, e.stage = .idle ∧ e.freed = true ∧ e.dns = some o ∧ e.Alive d o ∧ e.async = some a ∧
      a.ForDns d ∧ a.Quiet := by
  obtain ⟨o, a, ho, halive, ha, hfor, hnotice⟩ := h.exists_notice (by rw [hpc]; rfl)
  rw [hpc] at hnotice
  cases hst : e.stage with
  | idle =>
    rw [hst] at hnotice
    obtain ⟨hquiet, hfreed⟩ := hnotice
    cases hf : e.freed with
    | false =>
      rw [hf] at hfreed
      cases hfreed
    | true => exact ⟨o, a, rfl, rfl, ho, halive, ha, hfor, hquiet⟩
  | _ => simp [hst, Stage.Notice, Async.Notifies, OnAsyncPc.between] at hnotice

theorem Ok.reactorCb {sys : Sys} (h : e.Ok d) (ha : e.async = some a) (hbytes : 0 < a.pipeBytes)
    (hk : a.reactorKernel sys = true) :
    Ok { e with async := some (a.reactorCb sys), delivery := .completed } d := by
  have hsome : e.dns ≠ Option.none := by
    intro hnone
    exact absurd (ha.symm.trans (h.gone hnone).async) (Option.some_ne_none a)
  obtain ⟨o, ho⟩ := Option.ne_none_iff_exists'.mp hsome
  have halive := h.alive o ho
  obtain ⟨q, hst, hfor, hsent, hone⟩ := halive.notified_of_pipeBytes ha hbytes
  obtain ⟨n, hn⟩ : ∃ n, sys.io = .done n := by
    unfold Async.reactorKernel at hk
    split at hk
    · next n hn => exact ⟨n, hn⟩
    · exact absurd (of_decide_eq_true hk) hbytes.ne'
  have hcb : a.reactorCb sys = { a with pipeBytes := a.pipeBytes - 1, ctx := ⟨0, 1⟩ } := by
    rw [Async.reactorCb, hn]
  refine Ok.of_alive h.request h.call h.away ho ?_
  refine ⟨halive.pending, halive.completed, halive.deleted, halive.stores, halive.host,
    halive.addrs, _, rfl, ?_, ?_⟩
  · rw [hcb]
    exact ⟨hfor.reading, hfor.deleted, hfor.onAsync, hfor.pipeR, hfor.pipeW⟩
  · show e.stage.Notice e.freed (a.reactorCb sys) .completed
    rw [hst, hcb]
    exact Or.inr (Or.inl ⟨hsent, by simp [hone], rfl, rfl⟩)

theorem Ok.deliver (h : e.Ok d) (ha : e.async = some a) (hpc : e.delivery = .completed) :
    Ok { e with
      async := some a.asyncProactorCallback.1
      delivery := if a.asyncProactorCallback.2 = [] then .away else .calling } d := by
  obtain ⟨q, o, a', hst, ho, halive, ha', hfor, hsent, hbytes, hstatus⟩ := h.of_completed hpc
  obtain rfl := Option.some.inj (ha.symm.trans ha')
  have hcalls : a.asyncProactorCallback.2 ≠ [] := by
    simp [Async.asyncProactorCallback, hsent, hstatus, hfor.deleted, hfor.onAsync]
  rw [if_neg hcalls]
  refine Ok.of_alive h.request h.call h.away ho ?_
  refine ⟨halive.pending, halive.completed, halive.deleted, halive.stores, halive.host,
    halive.addrs, _, rfl, ⟨rfl, hfor.deleted, hfor.onAsync, hfor.pipeR, hfor.pipeW⟩, ?_⟩
  show e.stage.Notice e.freed a.asyncProactorCallback.1 .calling
  rw [hst]
  exact Or.inr (Or.inr ⟨rfl, hbytes, rfl⟩)

theorem Ok.take (h : e.Ok d) (ho : e.dns = some o) (hpc : e.delivery = .calling)
    (hst : e.stage = .notified q) :
    Ok { e with dns := some o.take, delivery := .taken o.taken, stage := .delivering q } d := by
  obtain ⟨-, o', a, -, ho', halive, ha, hfor, hquiet⟩ := h.of_calling hpc
  obtain rfl := Option.some.inj (ho.symm.trans ho')
  have hq := h.request
  have hcall := h.call
  have haway := h.away
  obtain ⟨dns, async, call, delivery, stage, freed⟩ := e
  obtain rfl : stage = .notified q := hst
  have hstores := halive.stores q rfl rfl
  refine Ok.of_alive hq ?_ haway rfl ?_
  · exact hcall.move rfl (Or.inr rfl)
  · exact ⟨rfl, rfl, halive.deleted, nofun, fun _ ↦ rfl, fun _ ↦ rfl, a, ha, hfor, hquiet, _, rfl,
      hstores.callback, hstores.host, halive.deleted⟩

/-- `dns_on_async` has dealt with the request: it calls the callback or not. -/
theorem Ok.invoke {pc : OnAsyncPc} (h : e.Ok d) (hpc : e.delivery = .taken t)
    (hnew : if e.freed then ∃ b, pc = .finishing b true else pc.between = true) :
    Ok { e with delivery := pc, stage := .idle } d := by
  obtain ⟨q, o, a, hst, hfort, ho, halive, ha, hfor, hquiet⟩ := h.of_taken hpc
  have hcall := h.call
  have haway := h.away
  obtain ⟨dns, async, call, delivery, stage, freed⟩ := e
  obtain rfl : stage = .delivering q := hst
  refine Ok.of_alive nofun ?_ haway ho ?_
  · exact hcall.move rfl (Or.inl rfl)
  · exact ⟨halive.pending, halive.completed, halive.deleted, nofun, halive.host,
      halive.addrs, a, ha,
      hfor, hquiet, hnew⟩

theorem Ok.goBetween {pc : OnAsyncPc} (h : e.Ok d) (hpc : e.delivery.between = true)
    (hnew : pc.between = true) : Ok { e with delivery := pc } d where
  request := h.request
  call := h.call
  away := h.away
  gone := fun hnone ↦ ⟨(h.gone hnone).stage, (h.gone hnone).async, hnew⟩
  alive := fun o ho ↦ by
    have halive := h.alive o ho
    obtain ⟨a, ha, hfor, hnotice⟩ := halive.notice
    refine ⟨halive.pending, halive.completed, halive.deleted, halive.stores, halive.host,
      halive.addrs, a, ha, hfor, ?_⟩
    show e.stage.Notice e.freed a pc
    generalize e.delivery = pc' at hpc hnotice
    generalize e.freed = freed at hnotice ⊢
    cases hst : e.stage with
    | notified q =>
      rw [hst] at hnotice
      obtain ⟨hsent, hbytes, -⟩ | ⟨-, -, -, rfl⟩ | ⟨-, -, rfl⟩ := hnotice
      · exact Or.inl ⟨hsent, hbytes, hnew⟩
      · cases hpc
      · cases hpc
    | delivering q =>
      rw [hst] at hnotice
      obtain ⟨-, t, rfl, -⟩ := hnotice
      cases hpc
    | idle =>
      rw [hst] at hnotice
      obtain ⟨hquiet, hpc'⟩ := hnotice
      cases freed with
      | false => exact ⟨hquiet, hnew⟩
      | true =>
        obtain ⟨b, rfl⟩ := hpc'
        cases hpc
    | _ =>
      rw [hst] at hnotice
      exact ⟨hnotice.1, hnew⟩

theorem Ok.fetch (h : e.Ok d) (hst : e.stage = .queued q) :
    Ok { e with stage := .resolving w q } d := by
  obtain ⟨o, ho⟩ := h.exists_dns (by rw [hst]; exact nofun)
  have halive := h.alive o ho
  have hq := h.request
  have hcall := h.call
  have haway := h.away
  obtain ⟨dns, async, call, delivery, stage, freed⟩ := e
  obtain rfl : stage = .queued q := hst
  refine Ok.of_alive hq ?_ haway ho ?_
  · exact hcall.move rfl (Or.inr rfl)
  · exact ⟨halive.pending, halive.completed, halive.deleted, halive.stores, nofun, halive.addrs,
      halive.notice⟩

theorem Ok.publish {ans : Answer} (h : e.Ok d) (ho : e.dns = some o)
    (hst : e.stage = .resolving w q) :
    Ok { e with dns := some (o.publish ans), stage := .published w q } d := by
  have halive := h.alive o ho
  have hq := h.request
  have hcall := h.call
  have haway := h.away
  obtain ⟨dns, async, call, delivery, stage, freed⟩ := e
  obtain rfl : stage = .resolving w q := hst
  refine Ok.of_alive hq ?_ haway rfl ?_
  · exact hcall.move rfl (Or.inr rfl)
  · refine ⟨halive.pending, rfl, halive.deleted, ?_, nofun, nofun, halive.notice⟩
    intro q' hp hq'
    have hstores := halive.stores q' hp hq'
    exact ⟨hstores.host, hstores.family, hstores.port, hstores.callback⟩

theorem Ok.send (h : e.Ok d) (ha : e.async = some a) (hst : e.stage = .published w q) :
    Ok { e with async := some (a.nanoevAsyncSend true).1, stage := .notified q } d := by
  obtain ⟨o, ho⟩ := h.exists_dns (by rw [hst]; exact nofun)
  have halive := h.alive o ho
  have hq := h.request
  have hcall := h.call
  have haway := h.away
  obtain ⟨dns, async, call, delivery, stage, freed⟩ := e
  obtain rfl : stage = .published w q := hst
  obtain ⟨a', ha', hfor, ⟨hsent, hbytes⟩, hbetween⟩ := halive.notice
  obtain rfl := Option.some.inj (ha.symm.trans ha')
  have hsend : (a.nanoevAsyncSend true).1 =
      { a with pipeBytes := a.pipeBytes + 1, asyncSent := true } := by
    simp [Async.nanoevAsyncSend, hsent, hfor.reading]
  refine Ok.of_alive hq ?_ haway ho ?_
  · exact hcall.move rfl (Or.inr rfl)
  · refine ⟨halive.pending, halive.completed, halive.deleted, halive.stores, nofun, nofun, _,
      rfl, ?_,
      ?_⟩
    · rw [hsend]
      exact ⟨hfor.reading, hfor.deleted, hfor.onAsync, hfor.pipeR, hfor.pipeW⟩
    · show Async.Notifies (a.nanoevAsyncSend true).1 delivery
      rw [hsend]
      exact Or.inl ⟨rfl, by simp [hbytes], hbetween⟩

end DnsEvent

end Nanoev
